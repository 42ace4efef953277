import FpgaDatabase.Hardware.Program

namespace FpgaDatabase.Hardware.Latency

open Fifo Stages Pipeline Streaming Program Library.Quota

variable {g : Generics}

def quiet : Inputs g := {}

/-- The inputs of the data cycles, as their rows reach the output: four cycles later. -/
def line (data : List (Inputs g)) (n : ℕ) : Inputs g :=
  (List.replicate 4 quiet ++ data).getD n quiet

/-- The row pushed there is one that the WHERE instructions select, and the end-of-data token does
not catch up with it: `eof` is low two cycles later, or the next cycle pushes a row as well. -/
def reaches (prog : List Instruction) (data : List (Inputs g)) (n : ℕ) : Bool :=
  (line data n).dinValid &&
    ((wheres prog).take g.numWhere).all (fun inst ↦ whereTest inst (line data n).din) &&
    !((line data (n + 2)).eof && !(line data (n + 1)).dinValid)

/-- How many rows reach the LIMIT stage, and how many of them it lets through, before a cycle. -/
def reached (prog : List Instruction) (data : List (Inputs g)) (n : ℕ) : ℕ :=
  ((List.range n).filter (reaches prog data)).length

def offered (prog : List Instruction) (data : List (Inputs g)) (n : ℕ) : ℕ :=
  (upTo ((limitOf prog).map (max 1)) ((List.range n).filter (reaches prog data))).length

section Counts

variable {prog : List Instruction} {data : List (Inputs g)} {n : ℕ}

theorem line_data {pre rest : List (Inputs g)} {i : Inputs g} :
    line (pre ++ i :: rest) (pre.length + 4) = i := by
  rw [line, List.getD_eq_getElem?_getD, List.getElem?_append_right (by simp)]
  simp

theorem line_start (data : List (Inputs g)) (hn : n < 4) : line data n = quiet := by
  rw [line, List.getD_eq_getElem?_getD, List.getElem?_append_left (by simpa using hn),
    List.getElem?_replicate, if_pos hn]
  rfl

theorem reached_succ (prog : List Instruction) (data : List (Inputs g)) (n : ℕ) :
    reached prog data (n + 1) = reached prog data n + (reaches prog data n).toNat := by
  rw [reached, List.range_succ, List.filter_append, List.length_append, ← reached]
  cases h : reaches prog data n <;> simp [h]

theorem offered_eq (prog : List Instruction) (data : List (Inputs g)) (n : ℕ) :
    offered prog data n = match (limitOf prog).map (max 1) with
      | none => reached prog data n
      | some q => min q (reached prog data n) := by
  rw [offered, upTo_length]
  rfl

theorem offered_succ (prog : List Instruction) (data : List (Inputs g)) (n : ℕ) :
    offered prog data (n + 1) = offered prog data n + (reaches prog data n &&
      decide (Room ((limitOf prog).map (max 1)) (reached prog data n))).toNat := by
  have hsucc := reached_succ prog data n
  rw [offered_eq, offered_eq]
  cases (limitOf prog).map (max 1) with
  | none => simpa using hsucc
  | some q =>
    simp only [room_some, hsucc]
    cases reaches prog data n
    · simp
    · by_cases hroom : reached prog data n < q
      · simp [hroom]
        omega
      · simp [hroom]
        omega

end Counts

structure Flow (prog : List Instruction) (data : List (Inputs g)) (n : ℕ) (p : State g) : Prop where
  queued : p.inFifo.contents =
    if (line data (n + 3)).dinValid then [(line data (n + 3)).din] else []
  fetched : p.rdEnPipe1 = (line data (n + 2)).dinValid
  dout : (line data (n + 2)).dinValid = true → p.inFifo.dout = (line data (n + 2)).din
  tested : p.whereValidAnd = ((line data (n + 1)).dinValid &&
    ((wheres prog).take g.numWhere).all (fun inst ↦ whereTest inst (line data (n + 1)).din))
  token : p.stage1Done = ((line data (n + 3)).eof && !(line data (n + 2)).dinValid)
  counter : p.fetcher.limitActive = true → p.limit.countValue.toNat = reached prog data (n + 1)

/-- What the pipeline does in cycle `n`: the flow of the rows is only disturbed once the limit has
been reached, and then none is offered any more. -/
structure Timed (prog : List Instruction) (data : List (Inputs g)) (n : ℕ) (p : State g) : Prop where
  program : Holds p.fetcher prog
  counted : p.countValidIn = (reaches prog data n &&
    decide (Room ((limitOf prog).map (max 1)) (reached prog data n)))
  hit : p.limitHit = true ↔ ¬ Room ((limitOf prog).map (max 1)) (reached prog data (n + 1))
  flow : p.limitHit = false → Flow prog data n p

section Clock

variable {prog : List Instruction} {data : List (Inputs g)} {n : ℕ} {p : State g} {i : Inputs g}

theorem fetcher_clock (hl : i.loadInst = false) : (p.clock i).fetcher = p.fetcher := by
  simp [State.clock, hl]

theorem countValidIn_clock (p : State g) (i : Inputs g) :
    (p.clock i).countValidIn = (p.whereValidAnd && !p.stage1Done && !p.limitHit) := by
  have hvalid : (p.clock i).limit.validOut = _ := p.limit.clock_validOut p.fetcher.limitValReg
    p.fetcher.limitActive p.whereValidAnd p.stage1Done p.whereStageDout
  have hdone : (p.clock i).limit.doneOut = _ := p.limit.clock_doneOut p.fetcher.limitValReg
    p.fetcher.limitActive p.whereValidAnd p.stage1Done p.whereStageDout
  rw [State.countValidIn, hvalid, hdone, ← State.limitHit]
  cases p.whereValidAnd <;> cases p.stage1Done <;> cases p.limitHit <;> simp

theorem limitHit_clock (hl : i.loadInst = false) : (p.clock i).limitHit = (p.limitHit ||
    (p.fetcher.limitActive && p.whereValidAnd && !p.stage1Done &&
      decide (p.fetcher.limitValReg ≤ p.limit.countValue + 1))) := by
  rw [State.limitHit, fetcher_clock hl]
  exact p.limit.clock_limitHit p.fetcher.limitValReg p.fetcher.limitActive p.whereValidAnd
    p.stage1Done p.whereStageDout

/-- What the LIMIT stage tests in the next cycle is the row that reaches it. -/
theorem Flow.reaches (h : Flow prog data n p) :
    (p.whereValidAnd && !p.stage1Done) = Latency.reaches prog data (n + 1) := by
  rw [h.tested, h.token, Latency.reaches]

theorem Flow.empty (h : Flow prog data n p) :
    p.inFifo.empty = !(line data (n + 3)).dinValid := by
  rw [Bool.eq_iff_iff, Queue.empty_iff, h.queued]
  cases (line data (n + 3)).dinValid <;> simp

theorem whereValidAnd_clock (hl : i.loadInst = false) (h : Holds p.fetcher prog) :
    (p.clock i).whereValidAnd = (p.rdEnPipe1 &&
      ((wheres prog).take g.numWhere).all (fun inst ↦ whereTest inst p.inFifo.dout)) := by
  rw [← rowMatches_eq_all h, State.whereValidAnd, Fetcher.whereValidAnd_eq, fetcher_clock hl]
  rfl

theorem flow_clock (hl : i.loadInst = false) (hi : i = line data (n + 4))
    (hfull : i.dinValid = true → p.inFifo.full = false) (hp : Holds p.fetcher prog)
    (hhit : p.limitHit = false) (h : Flow prog data n p)
    (hroom : p.fetcher.limitActive = true → reached prog data (n + 1) < 255) :
    Flow prog data (n + 1) (p.clock i) := by
  have hrd : p.fifoRdEn i = (line data (n + 3)).dinValid := by
    simp [State.fifoRdEn, hl, hhit, h.empty]
  constructor
  · have hpush : (i.dinValid = true ∧ p.inFifo.contents.length < g.fifoDepth) ↔
        i.dinValid = true := by
      refine and_iff_left_of_imp fun hvalid ↦ ?_
      have hne : p.inFifo.contents.length ≠ g.fifoDepth := by
        rw [ne_eq, ← Queue.full_iff, hfull hvalid]
        exact Bool.false_ne_true
      have hle := p.inFifo.contents_le
      omega
    have hpopped : p.inFifo.contents.drop (if (line data (n + 3)).dinValid then 1 else 0) = [] := by
      rw [h.queued]
      cases (line data (n + 3)).dinValid <;> rfl
    rw [show (p.clock i).inFifo.contents = _ from Queue.clock_contents _ _ _ _, hrd, hpopped,
      List.nil_append, if_congr hpush rfl rfl, hi]
  · exact hrd
  · intro hvalid
    rw [show (p.clock i).inFifo.dout = _ from Queue.clock_dout _ _ _ _, hrd, if_pos hvalid, h.queued,
      if_pos hvalid]
    rfl
  · rw [whereValidAnd_clock hl hp, h.fetched]
    cases hvalid : (line data (n + 2)).dinValid with
    | false => rfl
    | true => rw [h.dout hvalid]
  · rw [show (p.clock i).stage1Done = (i.eof && p.inFifo.empty) from rfl, h.empty, hi]
  · intro hactive
    rw [fetcher_clock hl] at hactive
    have hcount : (p.clock i).limit.countValue = _ := p.limit.clock_countValue p.fetcher.limitValReg
      p.fetcher.limitActive p.whereValidAnd p.stage1Done p.whereStageDout
    have hinternal : p.limit.internalHit = false := by
      rwa [State.limitHit, Limit.limitHit, if_pos hactive] at hhit
    have hbefore := h.counter hactive
    have hsmall := hroom hactive
    rw [hcount, reached_succ, ← h.reaches, hactive, hinternal]
    cases p.whereValidAnd <;> cases p.stage1Done
    · simpa using hbefore
    · simpa using hbefore
    · simp only [true_and, if_true, BitVec.toNat_add, hbefore]
      simp
      omega
    · simpa using hbefore

theorem room_limit (hp : Holds p.fetcher prog) (n : ℕ) :
    Room ((limitOf prog).map (max 1)) n ↔
      (p.fetcher.limitActive = true → n < max 1 p.fetcher.limitValReg.toNat) := by
  rw [← quota_of_holds hp, quota]
  cases p.fetcher.limitActive <;> simp

/-- One cycle. The producer looks at the input full flag. -/
theorem timed_clock (hl : i.loadInst = false) (hi : i = line data (n + 4))
    (hfull : i.dinValid = true → p.inFifo.full = false) (h : Timed prog data n p) :
    Timed prog data (n + 1) (p.clock i) := by
  have hfetcher := fetcher_clock (p := p) hl
  cases hhit : p.limitHit with
  | true =>
    have hnoroom := h.hit.mp hhit
    have hhit' : (p.clock i).limitHit = true := by
      rw [limitHit_clock hl, hhit, Bool.true_or]
    refine ⟨hfetcher ▸ h.program, ?_, ?_, fun h' ↦ absurd (h'.symm.trans hhit') Bool.false_ne_true⟩
    · rw [countValidIn_clock, hhit]
      simp [hnoroom]
    · refine iff_of_true hhit' fun hroom ↦ hnoroom ?_
      rw [room_limit h.program] at hroom ⊢
      intro hactive
      have hlt := hroom hactive
      rw [reached_succ] at hlt
      omega
  | false =>
    have hflow := h.flow hhit
    have hroom : Room ((limitOf prog).map (max 1)) (reached prog data (n + 1)) := by
      by_contra hnoroom
      rw [h.hit.mpr hnoroom] at hhit
      cases hhit
    have hroom' := (room_limit h.program _).mp hroom
    have hsmall : p.fetcher.limitActive = true → reached prog data (n + 1) < 255 := by
      intro hactive
      have hlt := hroom' hactive
      have hbyte := p.fetcher.limitValReg.isLt
      omega
    refine ⟨hfetcher ▸ h.program, ?_, ?_, fun _ ↦ flow_clock hl hi hfull h.program hhit hflow hsmall⟩
    · rw [countValidIn_clock, hflow.reaches, hhit]
      simp [hroom]
    · rw [limitHit_clock hl, hhit, Bool.false_or, room_limit h.program, reached_succ]
      rw [Bool.and_assoc p.fetcher.limitActive, hflow.reaches]
      cases hactive : p.fetcher.limitActive with
      | false => simp
      | true =>
        have hbefore := hflow.counter hactive
        have hlt := hroom' hactive
        have hs := hsmall hactive
        have hle : p.fetcher.limitValReg ≤ p.limit.countValue + 1 ↔
            p.fetcher.limitValReg.toNat ≤ reached prog data (n + 1) + 1 := by
          rw [BitVec.le_def, BitVec.toNat_add, hbefore]
          simp
          omega
        simp only [Bool.true_and, Bool.and_eq_true, decide_eq_true_eq, hle, true_implies, not_lt]
        cases Latency.reaches prog data (n + 1)
        · simp
          omega
        · simp

theorem timed_idle (idle : Idle p) (hp : Holds p.fetcher prog) : Timed prog data 0 p := by
  have hstart (k : ℕ) (hk : k < 4) : reaches prog data k = false := by
    rw [reaches, line_start data hk]
    rfl
  have hnone : reached prog data 1 = 0 := by
    rw [reached_succ, hstart 0 (by decide)]
    rfl
  refine ⟨hp, ?_, ?_, fun _ ↦ ?_⟩
  · rw [State.countValidIn, idle.validOut, hstart 0 (by decide)]
    rfl
  · rw [idle.limitHit, hnone, room_limit hp]
    simp
  · constructor
    · rw [idle.inFifo, line_start data (by decide)]
      rfl
    · rw [idle.rdEnPipe1, line_start data (by decide)]
      rfl
    · rw [line_start data (by decide)]
      intro h
      cases h
    · rw [State.whereValidAnd, Fetcher.whereValidAnd_eq, idle.rdEnPipe2, line_start data (by decide)]
      rfl
    · rw [idle.stage1Done, line_start data (by decide)]
      rfl
    · intro _
      rw [idle.countValue, hnone]
      rfl

end Clock

end FpgaDatabase.Hardware.Latency
