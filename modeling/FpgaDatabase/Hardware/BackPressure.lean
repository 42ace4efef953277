import FpgaDatabase.Hardware.Latency
import FpgaDatabase.Hardware.UserHw

namespace FpgaDatabase.Hardware.BackPressure

open Fifo Stages Pipeline Streaming Program Latency Library.Execution

variable {g : Generics}

/-- Rows counted as having passed WHERE and LIMIT, and words popped by the consumer. -/
structure Tally where
  passed : ℕ := 0
  popped : ℕ := 0

abbrev Watched (g : Generics) := State g × Tally

def outFifoCount (p : State g) : ℕ := p.outFifo.val.count

/-- A pulse of `rd_out_fifo` over an empty queue pops nothing. -/
def pops (p : State g) (i : Inputs g) : ℕ := if i.rdOutFifo ∧ 0 < outFifoCount p then 1 else 0

def Tally.next (p : State g) (i : Inputs g) (n : Tally) : Tally where
  passed := n.passed + p.countValidIn.toNat
  popped := n.popped + pops p i

def watched (s : Watched g) (i : Inputs g) : Watched g := (s.1.cycle i, s.2.next s.1 i)

/-- The producer looks at the input full flag; the consumer does as it likes. -/
structure PushCycle (s : Watched g) (i : Inputs g) : Prop where
  rst : i.rst = false
  loadInst : i.loadInst = false
  push : i.dinValid = true → s.1.inFifo.full = false

def Stored (s : Watched g) : Prop := s.2.popped + outFifoCount s.1 = s.1.count.toNat

def NoOverrun (s : Watched g) (i : Inputs g) : Prop :=
  s.1.outFifoWrEn i = true → s.1.outFifo.full = false

/-- When a row reaches the output, fewer than `FIFO_DEPTH` of its predecessors are
waiting for the consumer, and the accumulator can still count it. -/
def KeepsUp (s : Watched g) (i : Inputs g) : Prop :=
  s.1.outFifoWrEn i = true →
    s.2.passed < s.2.popped + g.fifoDepth ∧ s.2.passed + 1 < 4294967296

/-- The tally describes both the output queue and the accumulator. -/
structure Balanced (s : Watched g) : Prop where
  queued : s.2.popped + outFifoCount s.1 = s.2.passed
  counted : s.1.count.toNat = s.2.passed

theorem Balanced.stored {s : Watched g} (b : Balanced s) : Stored s := b.queued.trans b.counted.symm

/-- The cycles in which the queue is offered exactly the counted rows. -/
def Uniform (s : Watched g) (i : Inputs g) : Prop :=
  i.rst = false ∧ s.1.outFifoWrEn i = s.1.countValidIn

variable {s t : Watched g} {i : Inputs g} {is : List (Inputs g)}

theorem uniform_of_push (h : PushCycle s i) : Uniform s i :=
  ⟨h.rst, by simp [State.outFifoWrEn, State.countValidIn, h.loadInst]⟩

theorem uniform_of_load (idle : Idle s.1) (h : LoadCycle i) : Uniform s i :=
  ⟨h.rst, by simp [State.outFifoWrEn, State.countValidIn, idle.validOut]⟩

theorem watched_fst (hu : Uniform s i) : (watched s i).1 = s.1.clock i := by
  simp [watched, State.cycle, hu.1]

theorem full_eq_false (p : State g) : p.outFifo.full = false ↔ outFifoCount p < g.fifoDepth := by
  have hle := p.outFifo.property.count_le
  unfold Queue.full Registers.full outFifoCount
  simp only [decide_eq_false_iff_not]
  omega

/-- A queue that is not overrun gains the counted row and loses the popped one. -/
theorem outFifoCount_watched (hu : Uniform s i) (ho : NoOverrun s i) :
    outFifoCount (watched s i).1 + pops s.1 i = outFifoCount s.1 + s.1.countValidIn.toNat := by
  have hc : outFifoCount (watched s i).1 = _ :=
    (congrArg outFifoCount (watched_fst hu)).trans
      (Registers.clock_count s.1.outFifo.val s.1.outFifo.property.count_le
        (s.1.outFifoWrEn i) i.rdOutFifo s.1.limit.dout)
  rw [NoOverrun, full_eq_false] at ho
  rw [hc, ← hu.2]
  unfold pops outFifoCount at *
  cases hw : s.1.outFifoWrEn i with
  | true =>
    have hroom := ho hw
    simp only [hroom, and_self, if_true, Bool.toNat_true]
    split_ifs <;> omega
  | false =>
    simp only [Bool.false_eq_true, false_and, if_false, Bool.toNat_false]
    split_ifs <;> omega

theorem queued_watched (b : Balanced s) (hu : Uniform s i) (ho : NoOverrun s i) :
    (watched s i).2.popped + outFifoCount (watched s i).1 = (watched s i).2.passed := by
  have hc := outFifoCount_watched hu ho
  have hq := b.queued
  have hpopped : (watched s i).2.popped = s.2.popped + pops s.1 i := rfl
  have hpassed : (watched s i).2.passed = s.2.passed + s.1.countValidIn.toNat := rfl
  omega

theorem balanced_of_stored (b : Balanced s) (hu : Uniform s i) (ho : NoOverrun s i)
    (hs : Stored (watched s i)) : Balanced (watched s i) := by
  have hq := queued_watched b hu ho
  exact ⟨hq, hs.symm.trans hq⟩

theorem count_watched (hu : Uniform s i) :
    (watched s i).1.count.toNat = (s.1.count.toNat + s.1.countValidIn.toNat) % 4294967296 := by
  rw [watched_fst hu]
  change (countClock s.1.countValidIn s.1.count).toNat = _
  have hlt := s.1.count.isLt
  cases s.1.countValidIn
  · simp only [countClock, Bool.false_eq_true, if_false, Bool.toNat_false]
    omega
  · simp [countClock, BitVec.toNat_add]

/-- One cycle loses nothing exactly when the consumer keeps up in it. -/
theorem keepsUp_iff (b : Balanced s) (hu : Uniform s i) :
    KeepsUp s i ↔ NoOverrun s i ∧ Balanced (watched s i) := by
  have hq := b.queued
  have hn := b.counted
  have hlt := s.1.count.isLt
  have hcount := count_watched hu
  have hpassed : (watched s i).2.passed = s.2.passed + s.1.countValidIn.toNat := rfl
  rw [KeepsUp, NoOverrun, full_eq_false]
  cases hw : s.1.outFifoWrEn i with
  | false =>
    have ho : NoOverrun s i := by simp [NoOverrun, hw]
    rw [← hu.2, hw, Bool.toNat_false] at hcount hpassed
    simp only [Bool.false_eq_true, false_implies, true_and, true_iff]
    exact ⟨queued_watched b hu ho, by omega⟩
  | true =>
    rw [← hu.2, hw, Bool.toNat_true] at hcount hpassed
    simp only [true_implies]
    constructor
    · rintro ⟨hroom, hsmall⟩
      have ho : NoOverrun s i := fun _ ↦ (full_eq_false s.1).mpr (by omega)
      exact ⟨by omega, queued_watched b hu ho, by omega⟩
    · rintro ⟨hroom, b'⟩
      have hn' := b'.counted
      exact ⟨by omega, by omega⟩

theorem run_keepsUp_iff (hr : Run watched Uniform s is t) (b : Balanced s) :
    (Run watched (fun s i ↦ Stored s ∧ NoOverrun s i) s is t ∧ Stored t) ↔
      Run watched KeepsUp s is t := by
  induction hr with
  | nil s => simp only [Run.nil, true_and, b.stored]
  | @cons s t i is hu hr ih =>
    rw [run_cons_iff, run_cons_iff, keepsUp_iff b hu]
    constructor
    · rintro ⟨⟨⟨-, ho⟩, hrest⟩, ht⟩
      have hs : Stored (watched s i) := by
        cases hrest with
        | nil => exact ht
        | cons hj _ => exact hj.1
      have b' := balanced_of_stored b hu ho hs
      exact ⟨⟨ho, b'⟩, (ih b').mp ⟨hrest, ht⟩⟩
    · rintro ⟨⟨ho, b'⟩, hrest⟩
      obtain ⟨hrest', ht⟩ := (ih b').mpr hrest
      exact ⟨⟨⟨b.stored, ho⟩, hrest'⟩, ht⟩

theorem balanced_reset (p : State g) : Balanced ((p.reset, {}) : Watched g) := ⟨rfl, rfl⟩

/-- No row reaches the output while the program is loaded. -/
theorem load_run_iff (data : List (Inputs g)) {loads : List (Inputs g)} (hl : ∀ i ∈ loads, LoadCycle i)
    (idle : Idle s.1) (b : Balanced s) (hs : s.2 = {}) :
    (Run watched Uniform (loads.foldl watched s) data t → Run watched Uniform s (loads ++ data) t) ∧
      (Run watched KeepsUp s (loads ++ data) t ↔ Run watched KeepsUp (loads.foldl watched s) data t) ∧
      Balanced (loads.foldl watched s) ∧ (loads.foldl watched s).2 = {} := by
  induction loads generalizing s with
  | nil => exact ⟨id, .rfl, b, hs⟩
  | cons i loads ih =>
    have hi := hl i (by simp)
    have hu := uniform_of_load idle hi
    have hidle : Idle (watched s i).1 := by
      rw [watched_fst hu]
      exact idle_clock idle hi
    have hkeeps : KeepsUp s i := by
      simp [KeepsUp, State.outFifoWrEn, idle.validOut]
    have hnone : (watched s i).2 = {} := by
      have hcount : s.1.countValidIn = false := by simp [State.countValidIn, idle.validOut]
      have hqueue : outFifoCount s.1 = 0 := by
        have hcontents := congrArg List.length idle.outFifo
        rwa [Queue.contents, Registers.contents_length] at hcontents
      simp [watched, Tally.next, pops, hs, hcount, hqueue]
    obtain ⟨h₁, h₂, h₃, h₄⟩ := ih (fun j hj ↦ hl j (by simp [hj])) hidle
      ((keepsUp_iff b hu).mp hkeeps).2 hnone
    refine ⟨fun h ↦ .cons hu (h₁ h), ?_, h₃, h₄⟩
    rw [List.cons_append, run_cons_iff, and_iff_right hkeeps]
    exact h₂

/-- The rows taken before a cycle by a consumer who pops one whenever there is one. -/
def taken (prog : List Instruction) (data : List (Inputs g)) : ℕ → ℕ
  | 0 => 0
  | n + 1 => taken prog data n +
      if (line data (n + 4)).rdOutFifo ∧ taken prog data n < offered prog data n then 1 else 0

/-- The consumer is in time: whenever the LIMIT stage lets a row through, fewer than `FIFO_DEPTH`
of those before it have not been taken, and they can still be counted. -/
def InTime (prog : List Instruction) (data : List (Inputs g)) : Prop :=
  ∀ n < data.length, offered prog data n < offered prog data (n + 1) →
    offered prog data n < taken prog data n + g.fifoDepth ∧ offered prog data n + 1 < 4294967296

instance (prog : List Instruction) (data : List (Inputs g)) : Decidable (InTime prog data) :=
  inferInstanceAs (Decidable (∀ n < _, _ → _))

structure OnTime (prog : List Instruction) (data : List (Inputs g)) (n : ℕ) (s : Watched g) : Prop where
  timed : Timed prog data n s.1
  balanced : Balanced s
  passed : s.2.passed = offered prog data n
  popped : s.2.popped = taken prog data n

section InTime

variable {prog : List Instruction} {data : List (Inputs g)} {n : ℕ}

theorem offered_iff (h : OnTime prog data n s) :
    s.1.countValidIn = true ↔ offered prog data n < offered prog data (n + 1) := by
  rw [offered_succ, ← h.timed.counted]
  cases s.1.countValidIn <;> simp

theorem onTime_watched (hi : i = line data (n + 4)) (hpush : PushCycle s i) (h : OnTime prog data n s)
    (hk : KeepsUp s i) : OnTime prog data (n + 1) (watched s i) := by
  have hu := uniform_of_push hpush
  refine ⟨?_, ((keepsUp_iff h.balanced hu).mp hk).2, ?_, ?_⟩
  · rw [watched_fst hu]
    exact timed_clock hpush.loadInst hi hpush.push h.timed
  · change s.2.passed + s.1.countValidIn.toNat = _
    rw [offered_succ, h.passed, h.timed.counted]
  · change s.2.popped + pops s.1 i = _
    have hqueued := h.balanced.queued
    have hpos : 0 < outFifoCount s.1 ↔ taken prog data n < offered prog data n := by
      rw [← h.popped, ← h.passed]
      omega
    simp only [taken, pops, h.popped, hpos, hi]

/-- The condition on the cycles is one on the inputs. -/
theorem keepsUp_inputs (pre : List (Inputs g)) (hr : Run watched PushCycle s is t)
    (hdata : data = pre ++ is) (h : OnTime prog data pre.length s) :
    Run watched KeepsUp s is t ↔ ∀ n < data.length, pre.length ≤ n →
      offered prog data n < offered prog data (n + 1) →
        offered prog data n < taken prog data n + g.fifoDepth ∧
          offered prog data n + 1 < 4294967296 := by
  induction hr generalizing pre with
  | nil s =>
    refine iff_of_true (.nil s) fun n hn hle ↦ ?_
    rw [hdata, List.append_nil] at hn
    omega
  | @cons s t i is hpush hr ih =>
    have hi : i = line data (pre.length + 4) := by
      rw [hdata, line_data]
    have hstep : KeepsUp s i ↔ (offered prog data pre.length < offered prog data (pre.length + 1) →
        offered prog data pre.length < taken prog data pre.length + g.fifoDepth ∧
          offered prog data pre.length + 1 < 4294967296) := by
      rw [KeepsUp, (uniform_of_push hpush).2, offered_iff h, h.passed, h.popped]
    have hlen : pre.length < data.length := by
      rw [hdata, List.length_append, List.length_cons]
      omega
    rw [run_cons_iff, hstep]
    constructor
    · rintro ⟨hnow, hrest⟩ n hn hle
      rcases hle.eq_or_lt with rfl | hlt
      · exact hnow
      · have h' := onTime_watched hi hpush h (hstep.mpr hnow)
        rw [ih (pre ++ [i]) (by rw [hdata]; simp) (by simpa using h')] at hrest
        exact hrest n hn (by simpa using Nat.succ_le_of_lt hlt)
    · intro hall
      have hnow := hall pre.length hlen le_rfl
      have h' := onTime_watched hi hpush h (hstep.mpr hnow)
      refine ⟨hnow, (ih (pre ++ [i]) (by rw [hdata]; simp) (by simpa using h')).mpr ?_⟩
      exact fun n hn hle ↦ hall n hn (by simp at hle; omega)

end InTime

/-- Nothing is lost at the output, in any cycle of a run, exactly when the consumer is in time
for every row: the pipeline itself never waits for the output queue. -/
theorem output_lossless_iff (g : Generics) (p : State g) (loads data : List (Inputs g))
    (hl : ∀ i ∈ loads, LoadCycle i) (s : Watched g)
    (hr : Run watched PushCycle (loads.foldl watched (p.reset, {})) data s) :
    (Run watched (fun s i ↦ Stored s ∧ NoOverrun s i) (p.reset, {}) (loads ++ data) s ∧ Stored s) ↔
      InTime (instructions loads) data := by
  obtain ⟨hload, hkeeps, hbalanced, hnone⟩ :=
    load_run_iff (s := (p.reset, {})) (t := s) data hl (idle_reset p) (balanced_reset p) rfl
  have hdata : Run watched Uniform (loads.foldl watched (p.reset, {})) data s := by
    refine hr.mono (I := fun _ ↦ True) (fun _ _ _ _ ↦ trivial) ?_ trivial
    intro s i _ hi
    exact uniform_of_push hi
  have hfst : (loads.foldl watched (p.reset, {})).1 = loads.foldl State.cycle p.reset :=
    (List.foldl_hom Prod.fst fun _ _ ↦ rfl).symm
  obtain ⟨hidle, hfetcher⟩ := load_run (idle_reset p) loads hl
  have hholds : Holds (loads.foldl State.cycle p.reset).fetcher (instructions loads) := by
    rw [hfetcher]
    exact holds_loaded p.fetcher (instructions loads)
  have hstart : OnTime (instructions loads) data 0 (loads.foldl watched (p.reset, {})) := by
    refine ⟨by rw [hfst]; exact timed_idle hidle hholds, hbalanced, ?_, ?_⟩
    · rw [hnone]
      simp [offered]
    · rw [hnone]
      rfl
  rw [run_keepsUp_iff (hload hdata) (balanced_reset p), hkeeps,
    keepsUp_inputs [] hr rfl hstart, InTime]
  simp

section Examples

open UserHw

def rowIn : Inputs generics := { dinValid := true }
def rowOut : Inputs generics := { rdOutFifo := true }
def waiting : Inputs generics := {}

def loadZero : List (Inputs generics) := [{ instruction := 0x10000000, loadInst := true }]

theorem loadCycle_zero : ∀ i ∈ loadZero, LoadCycle i := by
  intro i hi
  rw [loadZero, List.mem_singleton] at hi
  subst hi
  exact ⟨rfl, rfl, rfl⟩

instance (s : Watched generics) (i : Inputs generics) : Decidable (PushCycle s i) :=
  decidable_of_iff (i.rst = false ∧ i.loadInst = false ∧
    (i.dinValid = true → s.1.inFifo.full = false))
    ⟨fun ⟨h₁, h₂, h₃⟩ ↦ ⟨h₁, h₂, h₃⟩, fun ⟨h₁, h₂, h₃⟩ ↦ ⟨h₁, h₂, h₃⟩⟩

instance (s : Watched generics) : Decidable (Stored s) := inferInstanceAs (Decidable (_ = _))

def twoRows : List (Inputs generics) :=
  [rowIn, rowIn, waiting, waiting, waiting, rowOut, waiting, waiting, rowOut]

theorem two_rows_lossless :
    let start : Watched generics := loadZero.foldl watched ((State.powerUp generics).reset, {})
    Run watched PushCycle start twoRows (twoRows.foldl watched start) ∧
      (Run watched (fun s i ↦ Stored s ∧ NoOverrun s i) ((State.powerUp generics).reset, {})
        (loadZero ++ twoRows) (twoRows.foldl watched start) ∧
        Stored (twoRows.foldl watched start)) := by
  intro start
  have hr : Run watched PushCycle start twoRows (twoRows.foldl watched start) := by decide +kernel
  have hintime : InTime (instructions loadZero) twoRows := by decide +kernel
  exact ⟨hr, (output_lossless_iff generics _ loadZero twoRows loadCycle_zero _ hr).mpr hintime⟩

def unread : List (Inputs generics) := List.replicate 129 rowIn ++ List.replicate 4 waiting

theorem unread_row_lost :
    let start : Watched generics := loadZero.foldl watched ((State.powerUp generics).reset, {})
    Run watched PushCycle start unread (unread.foldl watched start) ∧
      (unread.foldl watched start).1.count.toNat = 129 ∧
      outFifoCount (unread.foldl watched start).1 = 128 ∧
      (unread.foldl watched start).2.popped = 0 ∧
      ¬ Stored (unread.foldl watched start) := by
  intro start
  exact ⟨by decide +kernel, by decide +kernel, by decide +kernel, by decide +kernel,
    by decide +kernel⟩

end Examples

end FpgaDatabase.Hardware.BackPressure
