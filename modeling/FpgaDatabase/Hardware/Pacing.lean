import FpgaDatabase.Hardware.Program

namespace FpgaDatabase.Hardware.Pacing

open Fifo Stages Pipeline Streaming Library.Execution Library.Quota

variable {g : Generics} {f : Fetcher g} {rows : List (Row g)} {p : State g} {h : History g}
  {i : Inputs g} {n : ℕ}

/-- A source that waits between rows: unless the limit has been reached, at most one
row is on its way to the limit stage, and it arrives there within `n` cycles. -/
def Lag (n : ℕ) (p : State g) : Prop :=
  p.limitHit = true ∨
    (p.inFifo.contents.length + p.rdEnPipe1.toNat + p.rdEnPipe2.toNat ≤ 1 ∧
      (n < 3 → p.inFifo.contents = []) ∧ (n < 2 → p.rdEnPipe1 = false) ∧
      (n < 1 → p.rdEnPipe2 = false))

theorem Lag.mono {m : ℕ} (hl : Lag n p) (hm : n ≤ m) : Lag m p := by
  rcases hl with hh | ⟨h₁, h₂, h₃, h₄⟩
  · exact .inl hh
  · exact .inr ⟨h₁, fun _ ↦ h₂ (by omega), fun _ ↦ h₃ (by omega), fun _ ↦ h₄ (by omega)⟩

theorem Lag.exhausted (hl : Lag n p) (hn : n < 3) :
    p.inFifo.contents = [] ∨ p.limitHit = true := by
  rcases hl with hh | ⟨-, h₂, -, -⟩
  · exact .inr hh
  · exact .inl (h₂ hn)

theorem fifoRdEn_eq (hl : i.loadInst = false) (hh : p.limitHit = false) :
    p.fifoRdEn i = !p.inFifo.empty := by
  simp [State.fifoRdEn, hl, hh]

theorem lag_clock (c : Coupled f rows p h) (hi : i.loadInst = false) (hv : i.dinValid = false)
    (hl : Lag n p) : Lag (n - 1) (p.clock i) := by
  cases hh : p.limitHit with
  | true => exact .inl (c.limitHit_mono hi hh)
  | false =>
    obtain ⟨h₁, h₂, h₃, -⟩ := hl.resolve_left (by simp [hh])
    have hr : (p.clock i).rdEnPipe1 = !p.inFifo.empty := fifoRdEn_eq hi hh
    have hq : (p.clock i).inFifo.contents = [] := by
      rw [show (p.clock i).inFifo.contents = _ from Queue.clock_contents _ _ _ _, hv,
        fifoRdEn_eq hi hh]
      cases he : p.inFifo.empty with
      | true => simp [(Queue.empty_iff _).mp he]
      | false =>
        have hlen : p.inFifo.contents.length ≤ 1 := by omega
        simp [List.drop_eq_nil_of_le hlen]
    refine .inr ⟨?_, fun _ ↦ hq, fun hn ↦ ?_, fun hn ↦ h₃ (by omega)⟩
    · rw [hq, hr, show (p.clock i).rdEnPipe2 = p.rdEnPipe1 from rfl]
      cases he : p.inFifo.empty with
      | true =>
        have := p.rdEnPipe1.toNat_le
        simpa using this
      | false =>
        have hpos : 0 < p.inFifo.contents.length := by
          rw [List.length_pos_iff]
          intro hnil
          rw [(Queue.empty_iff _).mpr hnil] at he
          cases he
        simp only [List.length_nil, Bool.not_false, Bool.toNat_true]
        omega
    · rw [hr, (Queue.empty_iff _).mpr (h₂ (by omega))]
      rfl

theorem lag_push (c : Coupled f rows p h) (hi : i.loadInst = false) (hl : Lag 0 p) :
    Lag 3 (p.clock i) := by
  cases hh : p.limitHit with
  | true => exact .inl (c.limitHit_mono hi hh)
  | false =>
    obtain ⟨-, h₂, h₃, -⟩ := hl.resolve_left (by simp [hh])
    have hq := h₂ (by omega)
    have hr : (p.clock i).rdEnPipe1 = false := Coupled.rdEnPipe1_clock_nil hq
    refine .inr ⟨?_, fun hn ↦ by omega, fun _ ↦ hr, fun _ ↦ h₃ (by omega)⟩
    rw [hr, show (p.clock i).rdEnPipe2 = p.rdEnPipe1 from rfl, h₃ (by omega),
      show (p.clock i).inFifo.contents = _ from Queue.clock_contents _ _ _ _, hq]
    split_ifs <;> simp

def load (p : State g) : ℕ :=
  p.outFifo.contents.length + p.limit.validOut.toNat +
    (if p.limitHit then 0
     else p.inFifo.contents.length + p.rdEnPipe1.toNat + p.rdEnPipe2.toNat)

theorem Lag.load_le (hl : Lag n p) : load p ≤ p.outFifo.contents.length + 2 := by
  have hv := p.limit.validOut.toNat_le
  unfold load
  rcases hl with hh | ⟨h₁, -, -, -⟩
  · rw [hh, if_pos rfl]
    omega
  · split_ifs <;> omega

theorem outFifo_length_clock (c : Coupled f rows p h) (hi : i.loadInst = false) :
    (p.clock i).outFifo.contents.length ≤
      (p.outFifo.contents.drop (if i.rdOutFifo then 1 else 0)).length + p.limit.validOut.toNat := by
  rw [show (p.clock i).outFifo.contents = _ from Queue.clock_contents _ _ _ _, List.length_append,
    c.wrEn_eq hi]
  cases p.limit.validOut
  · simp
  · split_ifs <;> simp

theorem load_clock (c : Coupled f rows p h) (hi : i.loadInst = false) :
    load (p.clock i) + (if i.rdOutFifo then min 1 p.outFifo.contents.length else 0) ≤
      load p + i.dinValid.toNat := by
  have ho := outFifo_length_clock c hi
  rw [List.length_drop] at ho
  have hv := c.validOut_clock (i := i)
  have hw := c.whereValidAnd_eq
  unfold load
  cases hh : p.limitHit with
  | true =>
    rw [c.limitHit_mono hi hh, hv, hh]
    simp only [if_true, Bool.not_true, Bool.and_false, Bool.toNat_false]
    split_ifs at ho ⊢ <;> omega
  | false =>
    have hvle : (p.clock i).limit.validOut.toNat ≤ p.rdEnPipe2.toNat := by
      rw [hv, hw, hh]
      cases p.rdEnPipe2 <;> cases rowMatches f p.whereStageDout <;> decide
    have hq : (p.clock i).inFifo.contents.length + (p.clock i).rdEnPipe1.toNat ≤
        p.inFifo.contents.length + i.dinValid.toNat := by
      rw [show (p.clock i).inFifo.contents = _ from Queue.clock_contents _ _ _ _,
        show (p.clock i).rdEnPipe1 = p.fifoRdEn i from rfl, fifoRdEn_eq hi hh, List.length_append,
        List.length_drop]
      have hin : (if i.dinValid = true ∧ p.inFifo.contents.length < g.fifoDepth then
          [i.din] else []).length ≤ i.dinValid.toNat := by
        cases i.dinValid
        · simp
        · split_ifs <;> simp
      cases he : p.inFifo.empty with
      | true =>
        simp only [Bool.not_true, Bool.toNat_false, Bool.false_eq_true, if_false]
        omega
      | false =>
        have hpos : 0 < p.inFifo.contents.length := by
          rw [List.length_pos_iff]
          intro hnil
          rw [(Queue.empty_iff _).mpr hnil] at he
          cases he
        simp only [Bool.not_false, Bool.toNat_true, if_true]
        omega
    have h₂ : (p.clock i).rdEnPipe2.toNat = p.rdEnPipe1.toNat := rfl
    simp only [Bool.false_eq_true, if_false]
    split_ifs at ho ⊢ <;> omega

/-- The source stops at the row that reaches the limit: all rows read but the last
leave the quota open. -/
def Exact (f : Fetcher g) (h : History g) : Prop :=
  Room (quota f) (h.read.dropLast.filter (rowMatches f)).length

theorem exact_clock (c : Coupled f rows p h) (hl : Lag n p) (he : Exact f h) :
    Exact f (h.next p i) := by
  cases hr : p.fifoRdEn i with
  | false => simpa [Exact, History.next, hr] using he
  | true =>
    have hh : p.limitHit = false := by
      cases hh : p.limitHit
      · rfl
      · simp [State.fifoRdEn, hh] at hr
    have hne : p.inFifo.contents ≠ [] := by
      intro hnil
      simp [State.fifoRdEn, (Queue.empty_iff _).mpr hnil] at hr
    obtain ⟨x, xs, hx⟩ := List.exists_cons_of_ne_nil hne
    obtain ⟨h₁, -, -, -⟩ := hl.resolve_left (by simp [hh])
    have hp₁ : p.rdEnPipe1 = false := by
      cases hp : p.rdEnPipe1
      · rfl
      · simp only [hp, hx, List.length_cons, Bool.toNat_true] at h₁
        omega
    have hp₂ : p.rdEnPipe2 = false := by
      cases hp : p.rdEnPipe2
      · rfl
      · simp only [hp, hx, List.length_cons, Bool.toNat_true] at h₁
        omega
    have hread : h.read = rows := by simpa [tested, fetched, hp₁, hp₂] using c.staged
    have hnext : (h.next p i).read = h.read ++ [x] := by simp [History.next, hr, hx]
    rw [Exact, hnext, List.dropLast_concat, hread]
    by_contra hroom
    rw [c.hit.mpr hroom] at hh
    cases hh

def Ending (n : ℕ) (p : State g) : Prop :=
  (p.limitHit = true ∨ (p.inFifo.contents = [] ∧ p.stage1Done = true)) ∧
    (n < 2 → p.limit.doneOut = true) ∧ (n < 1 → p.stage3Done = true)

theorem Ending.mono {m : ℕ} (he : Ending n p) (hm : n ≤ m) : Ending m p :=
  ⟨he.1, fun _ ↦ he.2.1 (by omega), fun _ ↦ he.2.2 (by omega)⟩

theorem ending_start (c : Coupled f rows p h) (hi : i.loadInst = false) (hv : i.dinValid = false)
    (he : i.eof = true) (hp : p.inFifo.contents = [] ∨ p.limitHit = true) :
    Ending 2 (p.clock i) := by
  refine ⟨?_, fun hn ↦ by omega, fun hn ↦ by omega⟩
  rcases hp with hq | hh
  · refine .inr ⟨Coupled.inFifo_nil_clock hq hv, ?_⟩
    change (i.eof && p.inFifo.empty) = true
    rw [he, (Queue.empty_iff _).mpr hq]
    rfl
  · exact .inl (c.limitHit_mono hi hh)

theorem ending_clock (c : Coupled f rows p h) (hi : i.loadInst = false) (hv : i.dinValid = false)
    (he : i.eof = true) (hp : Ending n p) : Ending (n - 1) (p.clock i) := by
  have hin : p.inFifo.contents = [] ∨ p.limitHit = true := hp.1.symm.imp_left And.left
  refine ⟨(ending_start c hi hv he hin).1, fun _ ↦ ?_, fun hn ↦ ?_⟩
  · rw [Coupled.doneOut_clock]
    rcases hp.1 with hh | ⟨-, hd⟩
    · simp [hh]
    · simp [hd]
  · have hd : (p.clock i).stage3Done = p.limit.doneOut := by simp [State.clock, hi]
    rw [hd]
    exact hp.2.1 (by omega)

end FpgaDatabase.Hardware.Pacing
