import FpgaDatabase.Hardware.Pacing
import FpgaDatabase.Firmware.Driver

namespace FpgaDatabase.Firmware.Pace

open Hardware.Fifo Hardware.Stages Hardware.Pipeline Hardware.Streaming Hardware.Program
open Hardware.Pacing Hardware.UserHw Driver Library.Quota

abbrev Pipe := Hardware.Pipeline.State generics
abbrev Hist := History generics

variable {f : Fetcher generics} {p : Pipe} {h : Hist} {i : Inputs generics} {n m k : ℕ} {e : Bool}

/-- The pipeline as the firmware keeps it: at most one row on its way, `n` cycles
from the limit stage, and at most `m` rows owed to the output queue. -/
structure Paced (f : Fetcher generics) (n m : ℕ) (p : Pipe) (h : Hist) : Prop where
  coupled : ∃ rows, Coupled f rows p h
  exact : Exact f h
  lag : Lag n p
  load_le : load p ≤ m

theorem Paced.mono {n' m' : ℕ} (hp : Paced f n m p h) (hn : n ≤ n') (hm : m ≤ m') :
    Paced f n' m' p h :=
  ⟨hp.coupled, hp.exact, hp.lag.mono hn, hp.load_le.trans hm⟩

theorem Paced.room (hp : Paced f n m p h) (hm : m < 128) :
    p.outFifo.contents.length < generics.fifoDepth := by
  have hl : p.outFifo.contents.length ≤ load p := by
    unfold load
    omega
  exact Nat.lt_of_le_of_lt (hl.trans hp.load_le) hm

/-- A source that has waited two cycles after its last row is never overtaken by the
end-of-data token. -/
theorem Paced.not_overtakes (hp : Paced f n m p h) (hn : n < 2) : ¬ Overtakes f p h i := by
  rintro ⟨-, -, h₁, hne⟩
  obtain ⟨rows, c⟩ := hp.coupled
  rcases hp.lag with hh | ⟨-, -, h₃, -⟩
  · apply hne
    have hread : h.read = rows ++ (tested p ++ [p.inFifo.dout]) := by
      rw [c.staged, fetched, h₁, List.append_assoc]
      rfl
    have hdrop : h.read.dropLast = rows ++ tested p := by
      rw [hread, ← List.append_assoc, List.dropLast_concat]
    rw [hdrop, hread, c.answer_of_hit hh, c.answer_of_hit hh]
  · rw [h₃ hn] at h₁
    cases h₁

theorem Paced.admissible (hp : Paced f n m p h) (hm : m < 128) (hr : i.rst = false)
    (hl : i.loadInst = false) (hc : (h.eofSeen || i.eof) = true → i.dinValid = false)
    (he : i.eof = true → n < 2) : Admissible f p h i := by
  refine ⟨hr, hl, fun _ ↦ hp.room hm, hc, ?_⟩
  intro ho
  exact hp.not_overtakes (he ho.1) ho

theorem Paced.clock_quiet (hp : Paced f n m p h) (hm : m < 128) (he : e = true → n < 2) :
    Paced f (n - 1) m (p.clock (quiet e)) (h.next p (quiet e)) := by
  obtain ⟨rows, c⟩ := hp.coupled
  have a := hp.admissible (i := quiet e) hm rfl rfl (fun _ ↦ rfl) he
  refine ⟨⟨_, c.clock a⟩, exact_clock c hp.lag hp.exact, lag_clock c rfl rfl hp.lag, ?_⟩
  have hload := load_clock (i := quiet e) c rfl
  have hle := hp.load_le
  simp only [quiet, Bool.false_eq_true, if_false, Bool.toNat_false] at hload
  simp only [quiet]
  omega

theorem Paced.quietly (hp : Paced f n m p h) (hm : m < 128) (he : e = true → n < 2) (k : ℕ) :
    ∃ h', Paced f (n - k) m (quietly e k p) h' ∧ h'.accepted = h.accepted ∧
      h'.popped = h.popped ∧ (e = false → h'.eofSeen = h.eofSeen) := by
  induction k with
  | zero => exact ⟨h, hp, rfl, rfl, fun _ ↦ rfl⟩
  | succ k ih =>
    obtain ⟨h', hp', ha, ho, hs⟩ := ih
    rw [quietly_succ]
    refine ⟨_, hp'.clock_quiet hm (fun h ↦ by have := he h; omega), ?_, ?_, ?_⟩
    · simpa [History.next, quiet] using ha
    · simpa [History.next, quiet] using ho
    · intro hf
      simpa [History.next, quiet, hf] using hs hf

/-- The run rule for quiet cycles: a property of the pipeline that one cycle
carries from `j` to `j - 1`. -/
theorem Paced.quietly_rule {I : ℕ → Pipe → Prop} (hp : Paced f n m p h) (hm : m < 128)
    (he : e = true → n < 2)
    (hI : ∀ (j : ℕ) (p : Pipe) (h : Hist) rows, Coupled f rows p h → I j p →
      I (j - 1) (p.clock (quiet e)))
    {j : ℕ} (hj : I j p) (k : ℕ) : I (j - k) (Hardware.UserHw.quietly e k p) := by
  induction k with
  | zero => exact hj
  | succ k ih =>
    obtain ⟨h', hp', -⟩ := hp.quietly hm he k
    obtain ⟨rows, c⟩ := hp'.coupled
    rw [quietly_succ]
    exact hI _ _ h' rows c ih

theorem Paced.ending_quietly (hp : Paced f n m p h) (hm : m < 128) (hn : n < 2) {j : ℕ}
    (hj : Ending j p) (k : ℕ) : Ending (j - k) (Hardware.UserHw.quietly true k p) :=
  hp.quietly_rule hm (fun _ ↦ hn) (fun _ _ _ _ c hj ↦ ending_clock c rfl rfl rfl hj) hj k

/-- The limit has been reached and the input queue is full. -/
def Stuck (p : Pipe) : Prop := p.limitHit = true ∧ p.inFifo.contents.length = 128

theorem stuck_clock {rows : List (Row generics)} (c : Coupled f rows p h)
    (hl : i.loadInst = false) (hv : i.dinValid = false) (hs : Stuck p) : Stuck (p.clock i) := by
  refine ⟨c.limitHit_mono hl hs.1, ?_⟩
  have hr : p.fifoRdEn i = false := by simp [Hardware.Pipeline.State.fifoRdEn, hs.1]
  rw [show (p.clock i).inFifo.contents = _ from Queue.clock_contents _ _ _ _, hv, hr]
  simpa using hs.2

theorem Paced.stuck_quietly (hp : Paced f n m p h) (hm : m < 128) (he : e = true → n < 2)
    (hs : Stuck p) (k : ℕ) : Stuck (Hardware.UserHw.quietly e k p) :=
  hp.quietly_rule (I := fun _ p ↦ Stuck p) hm he
    (fun _ _ _ _ c hs ↦ stuck_clock c rfl rfl hs) (j := 0) hs k

def Complete (p : Pipe) : Prop := Ending 0 p ∧ p.outFifo.contents = []

theorem Paced.complete_quietly (hp : Paced f n m p h) (hm : m < 128) (hn : n < 2)
    (hs : Complete p) (k : ℕ) : Complete (Hardware.UserHw.quietly true k p) := by
  refine hp.quietly_rule (I := fun _ p ↦ Complete p) hm (fun _ ↦ hn) ?_ (j := 0) hs k
  intro _ p h rows c hs
  refine ⟨ending_clock c rfl rfl rfl hs.1, ?_⟩
  have hv := (c.ended₃ (hs.1.2.2 (by omega))).1
  rw [show (p.clock (quiet true)).outFifo.contents = _ from Queue.clock_contents _ _ _ _,
    c.wrEn_eq rfl, hv, hs.2]
  simp

theorem Paced.outFifo_quietly (hp : Paced f n m p h) (hm : m < 128) (he : e = true → n < 2)
    (hne : p.outFifo.contents ≠ []) (k : ℕ) :
    (Hardware.UserHw.quietly e k p).outFifo.contents ≠ [] := by
  refine hp.quietly_rule (I := fun _ p ↦ p.outFifo.contents ≠ []) hm he ?_ (j := 0) hne k
  intro _ p _ _ _ hne
  rw [show (p.clock (quiet e)).outFifo.contents = _ from Queue.clock_contents _ _ _ _]
  simp only [quiet, Bool.false_eq_true, if_false, List.drop_zero]
  exact List.append_ne_nil_of_left_ne_nil hne _

theorem dout_quietly (p : Pipe) (e : Bool) (k : ℕ) :
    (Hardware.UserHw.quietly e k p).outFifo.dout = p.outFifo.dout := by
  induction k with
  | zero => rfl
  | succ k ih =>
    rw [quietly_succ, ← ih]
    exact Queue.clock_dout _ _ _ _

theorem inFifo_length_quietly (p : Pipe) (e : Bool) (k : ℕ) :
    (Hardware.UserHw.quietly e k p).inFifo.contents.length ≤ p.inFifo.contents.length := by
  induction k with
  | zero => exact le_rfl
  | succ k ih =>
    rw [quietly_succ]
    refine le_trans ?_ ih
    rw [show (Hardware.Pipeline.State.clock _ (quiet e)).inFifo.contents = _ from
      Queue.clock_contents _ _ _ _]
    simp [quiet]

theorem Paced.clock_pop (hp : Paced f n m p h) (hm : m < 128) (hne : p.outFifo.contents ≠ [])
    (hr : i.rst = false) (hl : i.loadInst = false) (hv : i.dinValid = false)
    (ho : i.rdOutFifo = true) (he : i.eof = true → n < 2) :
    Paced f (n - 1) (m - 1) (p.clock i) (h.next p i) ∧
      (h.next p i).accepted = h.accepted ∧
      (h.next p i).popped = h.popped ++ [(p.clock i).outFifo.dout] := by
  obtain ⟨rows, c⟩ := hp.coupled
  have a := hp.admissible hm hr hl (fun _ ↦ hv) he
  have hload := load_clock c hl
  have hle := hp.load_le
  obtain ⟨x, xs, hx⟩ := List.exists_cons_of_ne_nil hne
  refine ⟨⟨⟨_, c.clock a⟩, exact_clock c hp.lag hp.exact, lag_clock c hl hv hp.lag, ?_⟩, ?_, ?_⟩
  · rw [ho, hv, hx] at hload
    simp only [if_true, List.length_cons, Bool.toNat_false] at hload
    omega
  · simp [History.next, hv]
  · rw [show (p.clock i).outFifo.dout = _ from Queue.clock_dout _ _ _ _]
    simp [History.next, ho, hx]

theorem Paced.clock_push (hp : Paced f 0 m p h) (hm : m < 128)
    (hq : p.inFifo.contents.length < 128) (hr : i.rst = false) (hl : i.loadInst = false)
    (hv : i.dinValid = true) (ho : i.rdOutFifo = false) (he : i.eof = false)
    (hs : h.eofSeen = false) :
    Paced f 3 (m + 1) (p.clock i) (h.next p i) ∧
      (h.next p i).accepted = h.accepted ++ [i.din] ∧
      (h.next p i).popped = h.popped ∧ (h.next p i).eofSeen = false := by
  obtain ⟨rows, c⟩ := hp.coupled
  have a := hp.admissible (i := i) hm hr hl (by simp [hs, he]) (by simp [he])
  have hload := load_clock c hl
  have hle := hp.load_le
  refine ⟨⟨⟨_, c.clock a⟩, exact_clock c hp.lag hp.exact, lag_push c hl hp.lag, ?_⟩, ?_, ?_, ?_⟩
  · rw [ho, hv] at hload
    simp only [Bool.false_eq_true, if_false, Bool.toNat_true] at hload
    omega
  · have hq' : p.inFifo.contents.length < generics.fifoDepth := hq
    simp [History.next, hv, hq']
  · simp [History.next, ho]
  · simp [History.next, hs, he]

end FpgaDatabase.Firmware.Pace
