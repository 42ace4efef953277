import FpgaDatabase.Hardware.Pipeline
import FpgaDatabase.Library.Execution
import FpgaDatabase.Library.Quota

namespace FpgaDatabase.Hardware.Streaming

open Fifo Stages Pipeline Library.Execution Library.Quota

variable {g : Generics}

namespace Fetcher

variable (f : Fetcher g)

theorem whereValidAnd_eq (verdicts : Fin g.numWhere → Bool) (valid : Bool) :
    f.whereValidAnd verdicts valid = (valid && f.whereValidAnd verdicts true) := by
  unfold Fetcher.whereValidAnd
  generalize List.finRange g.numWhere = ks
  have h : ∀ a b : Bool, ks.foldl (fun allValid k ↦ if k.val < f.whereActiveCnt then
      allValid && verdicts k else allValid) (a && b) =
      (a && ks.foldl (fun allValid k ↦ if k.val < f.whereActiveCnt then
        allValid && verdicts k else allValid) b) := by
    induction ks with
    | nil => intro a b; rfl
    | cons k ks ih =>
      intro a b
      simp only [List.foldl_cons]
      rw [← ih]
      congr 1
      split_ifs
      · exact Bool.and_assoc a b (verdicts k)
      · rfl
  simpa only [Bool.and_true] using h valid true

end Fetcher

/-- The rows a programmed pipeline is asked for: the matching ones, cut after as
many as the limit allows. A limit register of zero still lets one row through. -/
def rowMatches (f : Fetcher g) (row : Row g) : Bool :=
  f.whereValidAnd (fun k ↦ whereTest (f.whereInst k) row) true

def quota (f : Fetcher g) : Option ℕ :=
  if f.limitActive then some (max 1 f.limitValReg.toNat) else none

def answer (f : Fetcher g) (rows : List (Row g)) : List (Row g) :=
  upTo (quota f) (rows.filter (rowMatches f))

structure History (g : Generics) where
  accepted : List (Row g) := []
  read : List (Row g) := []
  popped : List (Row g) := []
  eofSeen : Bool := false

def History.next (p : State g) (i : Inputs g) (h : History g) : History g where
  accepted := h.accepted ++
    (if i.dinValid ∧ p.inFifo.contents.length < g.fifoDepth then [i.din] else [])
  read := h.read ++ (if p.fifoRdEn i then p.inFifo.contents.take 1 else [])
  popped := h.popped ++ (if i.rdOutFifo then p.outFifo.contents.take 1 else [])
  eofSeen := h.eofSeen || i.eof

def fetched (p : State g) : List (Row g) := if p.rdEnPipe1 then [p.inFifo.dout] else []
def tested (p : State g) : List (Row g) := if p.rdEnPipe2 then [p.whereStageDout] else []
def limited (p : State g) : List (Row g) := if p.limit.validOut then [p.limit.dout] else []

def written (p : State g) (h : History g) : List (Row g) := h.popped ++ p.outFifo.contents

/-- No row is coming any more: the limit is reached, or the input has ended and
the stages up to the limit are empty. -/
def Finished (p : State g) (h : History g) : Prop :=
  p.limitHit = true ∨
    (h.eofSeen = true ∧ p.inFifo.contents = [] ∧ p.rdEnPipe1 = false ∧ p.rdEnPipe2 = false)

/-- The coupling of all registers while data flows. `rows` are the rows that have
already been decided by the limit stage. -/
structure Coupled (f : Fetcher g) (rows : List (Row g)) (p : State g) (h : History g) : Prop where
  program : p.fetcher = f
  queued : h.read ++ p.inFifo.contents = h.accepted
  staged : h.read = rows ++ tested p ++ fetched p
  verdict : p.rdEnPipe2 = true →
    p.whereValidOut = fun k ↦ whereTest (f.whereInst k) p.whereStageDout
  passed : written p h ++ limited p = answer f rows
  hit : p.limitHit = true ↔ ¬ Room (quota f) (rows.filter (rowMatches f)).length
  counter : p.limitHit = false → f.limitActive = true →
    p.limit.countValue.toNat = (rows.filter (rowMatches f)).length
  order : p.limit.validOut = true → p.limit.doneOut = false
  token : p.stage1Done = true → p.whereValidAnd = true → p.limitHit = true
  ended₁ : p.stage1Done = true →
    h.eofSeen = true ∧ p.inFifo.contents = [] ∧ p.rdEnPipe1 = false
  ended₂ : p.limit.doneOut = true → Finished p h
  ended₃ : p.stage3Done = true → p.limit.validOut = false ∧ Finished p h
  counted : p.count = BitVec.ofNat 32 (written p h).length
  summed : p.sum = (written p h).foldl
    (fun s row ↦ sumClock true (column row f.countColIdx) s) 0

/-- The end-of-data token is about to catch up with a row of the answer: `eof` is
up, the input queue is empty, and the row read in the preceding cycle belongs to
the answer. -/
def Overtakes (f : Fetcher g) (p : State g) (h : History g) (i : Inputs g) : Prop :=
  i.eof = true ∧ p.inFifo.contents = [] ∧ p.rdEnPipe1 = true ∧
    answer f h.read ≠ answer f h.read.dropLast

structure Admissible (f : Fetcher g) (p : State g) (h : History g) (i : Inputs g) : Prop where
  rst : i.rst = false
  loadInst : i.loadInst = false
  room : p.outFifoWrEn i = true → p.outFifo.contents.length < g.fifoDepth
  closed : (h.eofSeen || i.eof) = true → i.dinValid = false
  ordered : ¬ Overtakes f p h i

structure Idle (p : State g) : Prop where
  inFifo : p.inFifo.contents = []
  outFifo : p.outFifo.contents = []
  rdEnPipe1 : p.rdEnPipe1 = false
  rdEnPipe2 : p.rdEnPipe2 = false
  stage1Done : p.stage1Done = false
  stage3Done : p.stage3Done = false
  countValue : p.limit.countValue = 0
  internalHit : p.limit.internalHit = false
  validOut : p.limit.validOut = false
  doneOut : p.limit.doneOut = false
  count : p.count = 0
  sum : p.sum = 0

theorem Idle.limitHit {p : State g} (idle : Idle p) : p.limitHit = false := by
  simp [State.limitHit, Limit.limitHit, idle.internalHit]

theorem idle_reset (p : State g) : Idle p.reset := by
  constructor <;> simp [State.reset, Limit.reset]

namespace Coupled

variable {f : Fetcher g} {rows : List (Row g)} {p : State g} {h : History g} {i : Inputs g} {n : ℕ}

theorem whereValidAnd_eq (c : Coupled f rows p h) :
    p.whereValidAnd = (p.rdEnPipe2 && rowMatches f p.whereStageDout) := by
  unfold State.whereValidAnd rowMatches
  rw [Fetcher.whereValidAnd_eq, c.program]
  cases hp : p.rdEnPipe2
  · simp
  · rw [c.verdict hp]

theorem filter_tested (c : Coupled f rows p h) :
    (rows ++ tested p).filter (rowMatches f) =
      rows.filter (rowMatches f) ++ (if p.whereValidAnd then [p.whereStageDout] else []) := by
  rw [List.filter_append, c.whereValidAnd_eq, tested]
  cases p.rdEnPipe2
  · rfl
  · cases hm : rowMatches f p.whereStageDout <;> simp [hm]

theorem not_done (c : Coupled f rows p h) (hv : p.whereValidAnd = true) (hh : p.limitHit = false) :
    p.stage1Done = false := by
  cases hd : p.stage1Done
  · rfl
  · rw [c.token hd hv] at hh
    cases hh

/-- The limit stage forwards the tested row unless the limit has been reached. -/
theorem validOut_clock (c : Coupled f rows p h) :
    (p.clock i).limit.validOut = (p.whereValidAnd && !p.limitHit) := by
  have hv := p.limit.clock_validOut p.fetcher.limitValReg p.fetcher.limitActive p.whereValidAnd
    p.stage1Done p.whereStageDout
  change (p.clock i).limit.validOut = _ at hv
  change _ = (p.whereValidAnd && !p.limitHit && _) at hv
  rw [hv]
  cases h₁ : p.whereValidAnd
  · rfl
  · cases h₂ : p.limitHit
    · simp [c.not_done h₁ h₂]
    · rfl

theorem doneOut_clock (p : State g) (i : Inputs g) :
    (p.clock i).limit.doneOut = (p.stage1Done || p.limitHit) :=
  p.limit.clock_doneOut _ _ _ _ _

theorem limitHit_clock (c : Coupled f rows p h) (hl : i.loadInst = false) :
    (p.clock i).limitHit = (p.limitHit || (f.limitActive && p.whereValidAnd &&
      decide (f.limitValReg ≤ p.limit.countValue + 1))) := by
  have hf : (p.clock i).fetcher = p.fetcher := by simp [State.clock, hl]
  have hh := p.limit.clock_limitHit p.fetcher.limitValReg p.fetcher.limitActive p.whereValidAnd
    p.stage1Done p.whereStageDout
  have he : (p.clock i).limitHit = (p.limit.clock p.fetcher.limitValReg p.fetcher.limitActive
      p.whereStageDout p.whereValidAnd p.stage1Done).limitHit p.fetcher.limitActive := by
    rw [State.limitHit, hf]
    rfl
  rw [he, hh, ← c.program]
  change (p.limitHit || _) = (p.limitHit || _)
  cases h₁ : p.limitHit
  · cases h₂ : p.whereValidAnd
    · simp
    · simp [c.not_done h₂ h₁]
  · rfl

theorem limitHit_mono (c : Coupled f rows p h) (hl : i.loadInst = false)
    (hh : p.limitHit = true) : (p.clock i).limitHit = true := by
  rw [c.limitHit_clock hl, hh]
  rfl

theorem take_append_drop (b : Bool) (xs : List (Row g)) :
    (if b then xs.take 1 else []) ++ xs.drop (if b then 1 else 0) = xs := by
  cases b
  · rfl
  · exact List.take_append_drop 1 xs

theorem queued_clock (c : Coupled f rows p h) :
    (h.next p i).read ++ (p.clock i).inFifo.contents = (h.next p i).accepted := by
  rw [show (p.clock i).inFifo.contents = _ from Queue.clock_contents _ _ _ _]
  simp only [History.next]
  rw [List.append_assoc, ← List.append_assoc (if p.fifoRdEn i = true then _ else _),
    take_append_drop, ← List.append_assoc, c.queued]

theorem fetched_clock (p : State g) (i : Inputs g) :
    fetched (p.clock i) = if p.fifoRdEn i then p.inFifo.contents.take 1 else [] := by
  have hd : (p.clock i).inFifo.dout = _ := Queue.clock_dout _ _ _ _
  rw [fetched, hd]
  change (if p.fifoRdEn i then _ else _) = _
  cases hr : p.fifoRdEn i with
  | false => rfl
  | true =>
    have hne : p.inFifo.contents ≠ [] := by
      intro he
      rw [State.fifoRdEn, (Queue.empty_iff _).mpr he] at hr
      simp at hr
    obtain ⟨x, xs, hx⟩ := List.exists_cons_of_ne_nil hne
    simp [hx]

theorem staged_clock (c : Coupled f rows p h) :
    (h.next p i).read = rows ++ tested p ++ tested (p.clock i) ++ fetched (p.clock i) := by
  rw [fetched_clock]
  change h.read ++ _ = rows ++ tested p ++ fetched p ++ _
  rw [c.staged]

theorem wrEn_eq (c : Coupled f rows p h) (hl : i.loadInst = false) :
    p.outFifoWrEn i = p.limit.validOut := by
  unfold State.outFifoWrEn
  cases hv : p.limit.validOut
  · rfl
  · simp [hl, c.order hv]

theorem countValidIn_eq (c : Coupled f rows p h) : p.countValidIn = p.limit.validOut := by
  unfold State.countValidIn
  cases hv : p.limit.validOut
  · rfl
  · simp [c.order hv]

theorem written_clock (c : Coupled f rows p h) (a : Admissible f p h i) :
    written (p.clock i) (h.next p i) = written p h ++ limited p := by
  have hw := c.wrEn_eq a.loadInst
  rw [written, show (p.clock i).outFifo.contents = _ from Queue.clock_contents _ _ _ _]
  simp only [History.next]
  rw [List.append_assoc, ← List.append_assoc (if i.rdOutFifo = true then _ else _),
    take_append_drop, ← List.append_assoc]
  congr 1
  rw [hw, limited]
  cases hv : p.limit.validOut
  · rfl
  · simp [a.room (hw.trans hv)]

theorem limited_clock (c : Coupled f rows p h) :
    limited (p.clock i) = if p.whereValidAnd && !p.limitHit then [p.whereStageDout] else [] := by
  rw [limited, c.validOut_clock]
  rw [show (p.clock i).limit.dout = p.whereStageDout from Limit.clock_dout _ _ _ _ _ _]

theorem passed_clock (c : Coupled f rows p h) (a : Admissible f p h i) :
    written (p.clock i) (h.next p i) ++ limited (p.clock i) = answer f (rows ++ tested p) := by
  rw [c.written_clock a, c.passed, c.limited_clock, answer, answer, c.filter_tested]
  cases hv : p.whereValidAnd
  · simp
  · cases hh : p.limitHit
    · have hroom : Room (quota f) (rows.filter (rowMatches f)).length := by
        by_contra hn
        rw [c.hit.mpr hn] at hh
        cases hh
      simp only [if_true, Bool.not_false, Bool.and_self]
      rw [upTo_append_room hroom]
    · simp only [if_true, Bool.not_true, Bool.and_false, Bool.false_eq_true, if_false,
        List.append_nil]
      rw [upTo_append_full (c.hit.mp hh)]

theorem quota_le (hq : quota f = some n) : 1 ≤ n ∧ n ≤ 255 := by
  unfold quota at hq
  split at hq
  · have hlt := f.limitValReg.isLt
    cases hq
    omega
  · cases hq

/-- The eight-bit counter is exact as long as the limit has not been reached. -/
theorem counter_succ (c : Coupled f rows p h) (hh : p.limitHit = false)
    (ha : f.limitActive = true) :
    (p.limit.countValue + 1).toNat = (rows.filter (rowMatches f)).length + 1 := by
  have hroom : Room (quota f) (rows.filter (rowMatches f)).length := by
    by_contra hn
    rw [c.hit.mpr hn] at hh
    cases hh
  have hq : quota f = some (max 1 f.limitValReg.toNat) := by simp [quota, ha]
  have hle := quota_le hq
  rw [hq, room_some] at hroom
  rw [BitVec.toNat_add, c.counter hh ha]
  simp
  omega

theorem hit_clock (c : Coupled f rows p h) (hl : i.loadInst = false) :
    (p.clock i).limitHit = true ↔
      ¬ Room (quota f) ((rows ++ tested p).filter (rowMatches f)).length := by
  rw [c.limitHit_clock hl, c.filter_tested]
  cases hh : p.limitHit with
  | true =>
    have hn := c.hit.mp hh
    simp only [Bool.true_or, true_iff]
    cases hq : quota f with
    | none => simp [hq] at hn
    | some n =>
      rw [hq, room_some] at hn
      rw [room_some, List.length_append]
      omega
  | false =>
    have hroom : Room (quota f) (rows.filter (rowMatches f)).length := by
      by_contra hn
      rw [c.hit.mpr hn] at hh
      cases hh
    cases hv : p.whereValidAnd with
    | false => simp [hroom]
    | true =>
      cases ha : f.limitActive with
      | false => simp [quota, ha]
      | true =>
        have hs := c.counter_succ hh ha
        have hq : quota f = some (max 1 f.limitValReg.toNat) := by simp [quota, ha]
        rw [hq, room_some, List.length_append]
        simp only [Bool.false_or, Bool.true_and, decide_eq_true_eq, if_true,
          List.length_singleton, BitVec.le_def, hs]
        omega

theorem counter_clock (c : Coupled f rows p h) (hl : i.loadInst = false)
    (hh : (p.clock i).limitHit = false) (ha : f.limitActive = true) :
    (p.clock i).limit.countValue.toNat = ((rows ++ tested p).filter (rowMatches f)).length := by
  have hh' : p.limitHit = false := by
    cases hp : p.limitHit
    · rfl
    · rw [c.limitHit_mono hl hp] at hh
      cases hh
  have hi : p.limit.internalHit = false := by
    simpa [State.limitHit, Limit.limitHit, c.program, ha] using hh'
  have hc : (p.clock i).limit.countValue = _ := Limit.clock_countValue _ _ _ _ _ _
  rw [hc, c.filter_tested, c.program, ha, hi]
  cases hv : p.whereValidAnd
  · simpa using c.counter hh' ha
  · simpa [c.not_done hv hh'] using c.counter_succ hh' ha

theorem order_clock (c : Coupled f rows p h) (hv : (p.clock i).limit.validOut = true) :
    (p.clock i).limit.doneOut = false := by
  rw [c.validOut_clock, Bool.and_eq_true, Bool.not_eq_true'] at hv
  rw [doneOut_clock, c.not_done hv.1 hv.2, hv.2]
  rfl

/-- A row of the answer that has just been read is not yet in reach of the
end-of-data token. -/
theorem token_clock (c : Coupled f rows p h) (a : Admissible f p h i)
    (hd : (p.clock i).stage1Done = true) (hv : (p.clock i).whereValidAnd = true) :
    (p.clock i).limitHit = true := by
  have hd' : i.eof = true ∧ p.inFifo.contents = [] := by
    simpa [State.clock] using hd
  have hw : (p.clock i).whereValidAnd = (p.rdEnPipe1 && rowMatches f p.inFifo.dout) := by
    unfold State.whereValidAnd rowMatches
    rw [Fetcher.whereValidAnd_eq]
    simp [State.clock, a.loadInst, c.program]
  rw [hw, Bool.and_eq_true] at hv
  rw [c.hit_clock a.loadInst]
  intro hroom
  apply a.ordered
  refine ⟨hd'.1, hd'.2, hv.1, ?_⟩
  have hread : h.read = (rows ++ tested p) ++ [p.inFifo.dout] := by
    rw [c.staged, fetched, hv.1]
    rfl
  rw [hread, List.dropLast_concat, answer, answer, List.filter_append]
  simp only [List.filter_cons, hv.2, if_true, List.filter_nil]
  rw [upTo_append_room hroom]
  simp

theorem inFifo_nil_clock (hp : p.inFifo.contents = []) (hd : i.dinValid = false) :
    (p.clock i).inFifo.contents = [] := by
  rw [show (p.clock i).inFifo.contents = _ from Queue.clock_contents _ _ _ _, hp, hd]
  simp

theorem rdEnPipe1_clock_nil (hp : p.inFifo.contents = []) : (p.clock i).rdEnPipe1 = false := by
  change p.fifoRdEn i = false
  rw [State.fifoRdEn, (Queue.empty_iff _).mpr hp]
  simp

theorem finished_clock (c : Coupled f rows p h) (a : Admissible f p h i) (hf : Finished p h) :
    Finished (p.clock i) (h.next p i) := by
  rcases hf with hh | ⟨he, hq, h₁, -⟩
  · exact .inl (c.limitHit_mono a.loadInst hh)
  · refine .inr ⟨?_, inFifo_nil_clock hq (a.closed ?_), rdEnPipe1_clock_nil hq, h₁⟩
    · simp [History.next, he]
    · simp [he]

theorem ended₂_clock (c : Coupled f rows p h) (a : Admissible f p h i)
    (hd : (p.clock i).limit.doneOut = true) : Finished (p.clock i) (h.next p i) := by
  rw [doneOut_clock, Bool.or_eq_true] at hd
  rcases hd with hd | hh
  · obtain ⟨he, hq, h₁⟩ := c.ended₁ hd
    refine .inr ⟨?_, inFifo_nil_clock hq (a.closed ?_), rdEnPipe1_clock_nil hq, h₁⟩
    · simp [History.next, he]
    · simp [he]
  · exact .inl (c.limitHit_mono a.loadInst hh)

theorem ended₃_clock (c : Coupled f rows p h) (a : Admissible f p h i)
    (hd : (p.clock i).stage3Done = true) :
    (p.clock i).limit.validOut = false ∧ Finished (p.clock i) (h.next p i) := by
  have hd' : p.limit.doneOut = true := by
    simpa [State.clock, a.loadInst] using hd
  have hf := c.ended₂ hd'
  refine ⟨?_, c.finished_clock a hf⟩
  rw [c.validOut_clock]
  rcases hf with hh | ⟨-, -, -, h₂⟩
  · simp [hh]
  · simp [c.whereValidAnd_eq, h₂]

theorem counted_clock (c : Coupled f rows p h) (a : Admissible f p h i) :
    (p.clock i).count = BitVec.ofNat 32 (written (p.clock i) (h.next p i)).length := by
  rw [c.written_clock a, List.length_append]
  change countClock p.countValidIn p.count = _
  rw [c.countValidIn_eq, c.counted, countClock, limited]
  cases p.limit.validOut
  · rfl
  · exact (BitVec.ofNat_add _ _).symm

theorem summed_clock (c : Coupled f rows p h) (a : Admissible f p h i) :
    (p.clock i).sum = (written (p.clock i) (h.next p i)).foldl
      (fun s row ↦ sumClock true (column row f.countColIdx) s) 0 := by
  rw [c.written_clock a, List.foldl_append, ← c.summed]
  change sumClock p.countValidIn p.countDin p.sum = _
  rw [c.countValidIn_eq, limited, State.countDin, c.program]
  cases p.limit.validOut <;> rfl

/-- One clock cycle keeps the coupling and decides the tested row. -/
theorem clock (c : Coupled f rows p h) (a : Admissible f p h i) :
    Coupled f (rows ++ tested p) (p.clock i) (h.next p i) where
  program := by simp [State.clock, a.loadInst, c.program]
  queued := c.queued_clock
  staged := c.staged_clock
  verdict := fun _ ↦ by simp [State.clock, c.program]
  passed := c.passed_clock a
  hit := c.hit_clock a.loadInst
  counter := c.counter_clock a.loadInst
  order := c.order_clock
  token := c.token_clock a
  ended₁ := by
    intro hd
    have hd' : i.eof = true ∧ p.inFifo.contents = [] := by simpa [State.clock] using hd
    refine ⟨by simp [History.next, hd'.1], inFifo_nil_clock hd'.2 (a.closed ?_),
      rdEnPipe1_clock_nil hd'.2⟩
    simp [hd'.1]
  ended₂ := c.ended₂_clock a
  ended₃ := c.ended₃_clock a
  counted := c.counted_clock a
  summed := c.summed_clock a

theorem start (idle : Idle p) : Coupled p.fetcher [] p {} where
  program := rfl
  queued := by simp [idle.inFifo]
  staged := by simp [tested, fetched, idle.rdEnPipe1, idle.rdEnPipe2]
  verdict := by simp [idle.rdEnPipe2]
  passed := by simp [written, limited, idle.outFifo, idle.validOut, answer]
  hit := by
    have hr : Room (quota p.fetcher) 0 := fun n hn ↦ (quota_le hn).1
    simp [idle.limitHit, hr]
  counter := by simp [idle.countValue]
  order := by simp [idle.validOut]
  token := by simp [idle.stage1Done]
  ended₁ := by simp [idle.stage1Done]
  ended₂ := by simp [idle.doneOut]
  ended₃ := by simp [idle.stage3Done]
  counted := by simp [idle.count, written, idle.outFifo]
  summed := by simp [idle.sum, written, idle.outFifo]

/-- Once the limit has been reached, later rows do not change the answer. -/
theorem answer_of_hit (c : Coupled f rows p h) (hh : p.limitHit = true) (xs : List (Row g)) :
    answer f (rows ++ xs) = answer f rows := by
  rw [answer, answer, List.filter_append, upTo_append_full (c.hit.mp hh)]

/-- When the pipeline reports completion, the rows written to the output queue are
the answer for everything it accepted. -/
theorem written_of_done (c : Coupled f rows p h) (hd : p.stage3Done = true) :
    written p h = answer f h.accepted := by
  obtain ⟨hv, hf⟩ := c.ended₃ hd
  have hw : written p h = answer f rows := by
    simpa [limited, hv] using c.passed
  rw [hw, ← c.queued, c.staged]
  rcases hf with hh | ⟨-, hq, h₁, h₂⟩
  · rw [List.append_assoc, List.append_assoc, c.answer_of_hit hh]
  · simp [hq, tested, fetched, h₁, h₂]

end Coupled

end FpgaDatabase.Hardware.Streaming
