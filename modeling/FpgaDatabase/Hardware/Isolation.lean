import FpgaDatabase.Hardware.Streaming

namespace FpgaDatabase.Hardware.Isolation

open Fifo Stages Pipeline Streaming

variable {g : Generics} {p q : State g} {i j : Inputs g}

structure Same {depth : ℕ} {α : Type} (f h : Queue depth α) : Prop where
  contents : f.contents = h.contents
  dout : f.dout = h.dout

namespace Same

variable {depth : ℕ} {α : Type} {f h : Queue depth α}

theorem empty (hs : Same f h) : f.empty = h.empty := by
  rw [Bool.eq_iff_iff, Queue.empty_iff, Queue.empty_iff, hs.contents]

theorem full (hs : Same f h) : f.full = h.full := by
  rw [Bool.eq_iff_iff, Queue.full_iff, Queue.full_iff, hs.contents]

theorem reset [Zero α] (f h : Queue depth α) : Same f.reset h.reset := by
  refine ⟨?_, ?_⟩
  · rw [Queue.reset_contents, Queue.reset_contents]
  · rw [Queue.reset_dout, Queue.reset_dout]

theorem clock (hs : Same f h) {wrEn rdEn : Bool} {x y : α} (hx : wrEn = true → x = y) :
    Same (f.clock wrEn rdEn x) (h.clock wrEn rdEn y) := by
  refine ⟨?_, ?_⟩
  · rw [Queue.clock_contents, Queue.clock_contents, hs.contents]
    cases wrEn with
    | false => simp
    | true => rw [hx rfl]
  · rw [Queue.clock_dout, Queue.clock_dout, hs.contents, hs.dout]

end Same

/-- The registers of two runs that may reach the bus. The limit counts only once a
limit is active; the column of the aggregates and their sum are left out. -/
structure Alike (p q : State g) : Prop where
  whereInst : p.fetcher.whereInst = q.fetcher.whereInst
  whereActiveCnt : p.fetcher.whereActiveCnt = q.fetcher.whereActiveCnt
  limitActive : p.fetcher.limitActive = q.fetcher.limitActive
  limitValReg : p.fetcher.limitActive = true → p.fetcher.limitValReg = q.fetcher.limitValReg
  inFifo : Same p.inFifo q.inFifo
  whereValidOut : p.whereValidOut = q.whereValidOut
  whereStageDout : p.whereStageDout = q.whereStageDout
  rdEnPipe1 : p.rdEnPipe1 = q.rdEnPipe1
  rdEnPipe2 : p.rdEnPipe2 = q.rdEnPipe2
  stage1Done : p.stage1Done = q.stage1Done
  limit : p.limit = q.limit
  count : p.count = q.count
  outFifo : Same p.outFifo q.outFifo
  stage3Done : p.stage3Done = q.stage3Done

/-- Inputs that agree on every control line, and on the data lines that these
qualify. -/
structure Driven (i j : Inputs g) : Prop where
  rst : i.rst = j.rst
  din : i.dinValid = true → i.din = j.din
  dinValid : i.dinValid = j.dinValid
  eof : i.eof = j.eof
  instruction : i.loadInst = true → i.instruction = j.instruction
  loadInst : i.loadInst = j.loadInst
  rdOutFifo : i.rdOutFifo = j.rdOutFifo

theorem Driven.refl (i : Inputs g) : Driven i i :=
  ⟨rfl, fun _ ↦ rfl, rfl, rfl, fun _ ↦ rfl, rfl, rfl⟩

theorem limit_clock_congr {w : ℕ} (l : Limit w) {v v' : Byte} {active : Bool}
    (hv : active = true → v = v') (din : BitVec w) (validIn doneIn : Bool) :
    l.clock v active din validIn doneIn = l.clock v' active din validIn doneIn := by
  cases active with
  | false => rfl
  | true => rw [hv rfl]

namespace Alike

theorem reset (p q : State g) : Alike p.reset q.reset where
  whereInst := rfl
  whereActiveCnt := rfl
  limitActive := rfl
  limitValReg := fun h ↦ absurd h Bool.false_ne_true
  inFifo := .reset _ _
  whereValidOut := rfl
  whereStageDout := rfl
  rdEnPipe1 := rfl
  rdEnPipe2 := rfl
  stage1Done := rfl
  limit := rfl
  count := rfl
  outFifo := .reset _ _
  stage3Done := rfl

theorem fifoRdEn (h : Alike p q) (hd : Driven i j) : p.fifoRdEn i = q.fifoRdEn j := by
  simp only [State.fifoRdEn, State.limitHit, h.inFifo.empty, h.limit, h.limitActive, hd.loadInst]

theorem whereValidAnd (h : Alike p q) : p.whereValidAnd = q.whereValidAnd := by
  simp only [State.whereValidAnd, Fetcher.whereValidAnd, h.whereActiveCnt, h.whereValidOut,
    h.rdEnPipe2]

theorem outFifoWrEn (h : Alike p q) (hd : Driven i j) : p.outFifoWrEn i = q.outFifoWrEn j := by
  simp only [State.outFifoWrEn, h.limit, hd.loadInst]

theorem countValidIn (h : Alike p q) : p.countValidIn = q.countValidIn := by
  simp only [State.countValidIn, h.limit]

/-- Each instruction writes the registers it makes visible. -/
theorem load {f f' : Fetcher g} (inst : Instruction)
    (hi : f.whereInst = f'.whereInst) (hc : f.whereActiveCnt = f'.whereActiveCnt)
    (ha : f.limitActive = f'.limitActive)
    (hv : f.limitActive = true → f.limitValReg = f'.limitValReg) :
    (f.load inst).whereInst = (f'.load inst).whereInst ∧
    (f.load inst).whereActiveCnt = (f'.load inst).whereActiveCnt ∧
    (f.load inst).limitActive = (f'.load inst).limitActive ∧
    ((f.load inst).limitActive = true → (f.load inst).limitValReg = (f'.load inst).limitValReg) := by
  obtain ⟨wi, wc, lv, la, cc, ca, sa⟩ := f
  obtain ⟨wi', wc', lv', la', cc', ca', sa'⟩ := f'
  simp only at hi hc ha hv
  subst hi hc ha
  unfold Fetcher.load
  split_ifs
  · exact ⟨rfl, rfl, rfl, hv⟩
  · exact ⟨rfl, rfl, rfl, hv⟩
  · exact ⟨rfl, rfl, rfl, fun _ ↦ rfl⟩
  · exact ⟨rfl, rfl, rfl, hv⟩
  · exact ⟨rfl, rfl, rfl, hv⟩
  · exact ⟨rfl, rfl, rfl, hv⟩

theorem fetcher (h : Alike p q) (hd : Driven i j) :
    (p.clock i).fetcher.whereInst = (q.clock j).fetcher.whereInst ∧
    (p.clock i).fetcher.whereActiveCnt = (q.clock j).fetcher.whereActiveCnt ∧
    (p.clock i).fetcher.limitActive = (q.clock j).fetcher.limitActive ∧
    ((p.clock i).fetcher.limitActive = true →
      (p.clock i).fetcher.limitValReg = (q.clock j).fetcher.limitValReg) := by
  simp only [State.clock, Fetcher.clock, ← hd.loadInst]
  cases hl : i.loadInst with
  | false => exact ⟨h.whereInst, h.whereActiveCnt, h.limitActive, h.limitValReg⟩
  | true =>
    rw [← hd.instruction hl]
    exact load _ h.whereInst h.whereActiveCnt h.limitActive h.limitValReg

theorem clock (h : Alike p q) (hd : Driven i j) : Alike (p.clock i) (q.clock j) := by
  obtain ⟨hf₁, hf₂, hf₃, hf₄⟩ := h.fetcher hd
  refine ⟨hf₁, hf₂, hf₃, hf₄, ?_, ?_, h.inFifo.dout, h.fifoRdEn hd, h.rdEnPipe1, ?_, ?_, ?_, ?_, ?_⟩
  · simp only [State.clock, h.fifoRdEn hd, ← hd.dinValid]
    exact h.inFifo.clock hd.din
  · simp only [State.clock, h.whereInst, h.inFifo.dout]
  · simp only [State.clock, hd.eof, h.inFifo.empty]
  · simp only [State.clock, ← h.limit, ← h.limitActive, h.whereStageDout, h.whereValidAnd,
      h.stage1Done]
    exact limit_clock_congr _ h.limitValReg _ _ _
  · simp only [State.clock, h.countValidIn, h.count]
  · simp only [State.clock, h.outFifoWrEn hd, h.limit, hd.rdOutFifo]
    exact h.outFifo.clock (fun _ ↦ rfl)
  · simp only [State.clock, hd.loadInst, h.limit]

end Alike

structure Drained (p : State g) : Prop where
  inFifo : p.inFifo.contents = []
  rdEnPipe1 : p.rdEnPipe1 = false
  rdEnPipe2 : p.rdEnPipe2 = false
  validOut : p.limit.validOut = false
  sum : p.sum = 0

theorem Drained.reset (p : State g) : Drained p.reset := ⟨rfl, rfl, rfl, rfl, rfl⟩

theorem Drained.clock (h : Drained p) (hi : i.dinValid = false) : Drained (p.clock i) := by
  have hr : p.fifoRdEn i = false := by
    simp only [State.fifoRdEn, (Queue.empty_iff _).mpr h.inFifo, Bool.not_true, Bool.and_false,
      Bool.false_and]
  have hv : p.whereValidAnd = false := by
    rw [State.whereValidAnd, Fetcher.whereValidAnd_eq, h.rdEnPipe2, Bool.false_and]
  refine ⟨?_, hr, h.rdEnPipe1, ?_, ?_⟩
  · simp [State.clock, Queue.clock_contents, h.inFifo, hi]
  · simp only [State.clock, Limit.clock_validOut, hv, Bool.false_and]
  · simp [State.clock, sumClock, State.countValidIn, h.validOut, h.sum]

structure Tallied (p q : State g) : Prop where
  countColIdx : p.fetcher.countColIdx = q.fetcher.countColIdx
  sum : p.sum = q.sum

theorem countColIdx_load (f : Fetcher g) (inst : Instruction) :
    (f.load inst).countColIdx =
      if opcode inst = 0b0011#4 ∨ opcode inst = 0b0100#4 then countColumn inst
      else f.countColIdx := by
  unfold Fetcher.load
  split_ifs <;> simp_all

theorem Tallied.clock (h : Tallied p q) (ha : Alike p q) (hd : Driven i j) :
    Tallied (p.clock i) (q.clock j) := by
  refine ⟨?_, ?_⟩
  · simp only [State.clock, Fetcher.clock, ← hd.loadInst]
    cases hl : i.loadInst with
    | false => exact h.countColIdx
    | true =>
      simp only [if_true, countColIdx_load, h.countColIdx, hd.instruction hl]
  · simp only [State.clock, ha.countValidIn, h.sum, State.countDin, ha.limit, h.countColIdx]

/-- An aggregate that is loaded before any row makes the sums agree from then on. -/
theorem Tallied.of_load (hp : Drained p) (hq : Drained q) (hd : Driven i j)
    (hi : i.dinValid = false) (hl : i.loadInst = true)
    (ho : opcode i.instruction = 0b0011#4 ∨ opcode i.instruction = 0b0100#4) :
    Tallied (p.clock i) (q.clock j) := by
  refine ⟨?_, ?_⟩
  · simp only [State.clock, Fetcher.clock, ← hd.loadInst, hl, if_true, countColIdx_load,
      ← hd.instruction hl, ho]
  · rw [(hp.clock hi).sum, (hq.clock (hd.dinValid ▸ hi)).sum]

end FpgaDatabase.Hardware.Isolation
