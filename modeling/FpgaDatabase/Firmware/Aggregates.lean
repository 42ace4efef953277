import FpgaDatabase.Firmware.FeedOutcome
import FpgaDatabase.Hardware.Isolation

namespace FpgaDatabase.Firmware.Aggregates

open Hardware.Stages Hardware.Pipeline Hardware.Streaming Hardware.Program Hardware.UserHw
open Hardware.Isolation Library.Quota
open Driver Pace FeedInvariant FeedRun FeedOutcome Table Compile Emitted

section Reading

variable {f : Fetcher generics} {T : List Word} {params : Params} {u v : Hardware.UserHw.State}
  {timing : ℕ → Timing} {k n : ℕ}

def sumOf (f : Fetcher generics) (rows : List Word) : Word :=
  rows.foldl (fun s row ↦ sumClock true (column (g := generics) row f.countColIdx) s) 0

/-- The aggregates of the answer for `T` have arrived, or will in the next cycle. -/
structure Settled (f : Fetcher generics) (T : List Word) (u : Hardware.UserHw.State) : Prop where
  rest : AtRest u
  counted : ∀ k, 1 ≤ k →
    (quietly u.eofCtrl k u.pipeline).count = BitVec.ofNat 32 (answer f T).length
  summed : ∀ k, 1 ≤ k → (quietly u.eofCtrl k u.pipeline).sum = sumOf f (answer f T)

theorem Settled.accumulator (h : Settled f T u) (t : Timing) :
    (exec u t (.read accumulatorOffset)).2 = BitVec.ofNat 32 (answer f T).length := by
  obtain ⟨-, s', hs', hv⟩ := exec_read h.rest t accumulatorOffset
  rw [hv, ← h.counted (t.hold + 1) (by omega), ← hs'.pipeline]
  simp [readdata, readBus, accumulatorOffset, addrStatus, addrDataOut, addrAccumulator,
    Hardware.Pipeline.State.settle, hs'.atRest.swRst]

theorem Settled.sum (h : Settled f T u) (t : Timing) :
    (exec u t (.read sumOffset)).2 = sumOf f (answer f T) := by
  obtain ⟨-, s', hs', hv⟩ := exec_read h.rest t sumOffset
  rw [hv, ← h.summed (t.hold + 1) (by omega), ← hs'.pipeline]
  simp [readdata, readBus, sumOffset, addrStatus, addrDataOut, addrAccumulator, addrSum,
    Hardware.Pipeline.State.settle, hs'.atRest.swRst]

theorem settled_of_written (hrest : AtRest u)
    (hw : ∀ k, 1 ≤ k → ∃ h rows, Coupled f rows (quietly u.eofCtrl k u.pipeline) h ∧
      written (quietly u.eofCtrl k u.pipeline) h = answer f T) : Settled f T u := by
  refine ⟨hrest, ?_, ?_⟩
  · intro k hk
    obtain ⟨h, rows, c, hwritten⟩ := hw k hk
    rw [c.counted, hwritten]
  · intro k hk
    obtain ⟨h, rows, c, hwritten⟩ := hw k hk
    rw [c.summed, hwritten]
    rfl

theorem settled_of_ready (hu : Ready f u) : Settled f [] u := by
  refine settled_of_written hu.rest fun k _ ↦ ?_
  obtain ⟨hidle, hfetch⟩ := idle_quietly hu.idle k
  rw [hu.eof]
  refine ⟨{}, [], ?_, ?_⟩
  · rw [← hu.fetcher, ← hfetch]
    exact .start hidle
  · simp [written, hidle.outFifo, answer]

/-- Once the limit has been reached, one more cycle empties the limit stage; what was
written then is the answer, whatever the table holds behind it. -/
theorem written_of_stuck {p : Pipe} {h : Hist} {rest : List Word} {m : ℕ} (hp : Paced f 1 m p h)
    (hm : m < 128) (hstuck : Stuck p) (hk : 1 ≤ k) (hT : h.accepted ++ rest = T) :
    ∃ h' rows, Coupled f rows (quietly false k p) h' ∧
      written (quietly false k p) h' = answer f T := by
  obtain ⟨j, rfl⟩ : ∃ j, k = j + 1 := ⟨k - 1, by omega⟩
  obtain ⟨h₁, hp₁, hacc₁, -⟩ := hp.quietly (e := false) hm (by simp) j
  have hstuck₁ := hp.stuck_quietly (e := false) hm (by simp) hstuck j
  have hp₂ := hp₁.clock_quiet (e := false) hm (by simp)
  rw [quietly_succ]
  obtain ⟨rows₁, c₁⟩ := hp₁.coupled
  obtain ⟨rows₂, c₂⟩ := hp₂.coupled
  refine ⟨_, rows₂, c₂, ?_⟩
  have hvalid : ((quietly false j p).clock (quiet false)).limit.validOut = false := by
    rw [c₁.validOut_clock, hstuck₁.1, Bool.not_true, Bool.and_false]
  have hhit := c₁.limitHit_mono (i := quiet false) rfl hstuck₁.1
  have hwritten := c₂.passed
  rw [limited, hvalid, if_neg Bool.false_ne_true, List.append_nil] at hwritten
  have hacc : (h₁.next (quietly false j p) (quiet false)).accepted = h.accepted := by
    simpa [History.next, quiet] using hacc₁
  rw [hwritten, ← hT, ← hacc, ← c₂.queued, c₂.staged]
  simp only [List.append_assoc]
  rw [c₂.answer_of_hit hhit]

/-- However the feed loop ended, the registers hold the aggregates of the answer. -/
theorem settled_of_returned (hu : Ready f u) (job : Job params T) {code : ℤ}
    (hn : (feedSourceToHardware params timing u n).1.pc = .returned code) :
    Settled f T (feedSourceToHardware params timing u n).2 := by
  obtain ⟨h, sent, hp⟩ := feed_good hu job timing n
  simp only [Phase, hn] at hp
  rcases hp with ⟨-, hsync, hN, hcomplete⟩ | ⟨-, hsync, hstuck, -⟩
  · refine settled_of_written hsync.rest fun k _ ↦ ?_
    rw [hsync.eof]
    obtain ⟨h', hp', hacc, -⟩ := hsync.paced.quietly (e := true) (by omega) (by omega) k
    obtain ⟨rows, c⟩ := hp'.coupled
    have hdone := (hsync.paced.complete_quietly (by omega) (by omega) hcomplete k).1.2.2 (by omega)
    refine ⟨h', rows, c, ?_⟩
    rw [c.written_of_done hdone, hacc, hsync.accepted, hN, List.take_length]
  · refine settled_of_written hsync.rest fun k hk ↦ ?_
    rw [hsync.eof]
    have hrest : h.accepted ++ T.drop sent = T := by
      rw [hsync.accepted, List.take_append_drop]
    exact written_of_stuck hsync.paced (by omega) hstuck hk hrest

end Reading

section Totals

variable {c : Fin 4} {r : Cells} {f : Fetcher generics} {rows : List Cells}

def isDigit (c : Fin 4) (r : Cells) : Bool := 48 ≤ (r c).toNat && (r c).toNat ≤ 57

def digit (c : Fin 4) (r : Cells) : ℕ := (r c).toNat - 48

def digitSum (c : Fin 4) : List Cells → ℕ
  | [] => 0
  | r :: rows => digit c r + digitSum c rows

theorem digitSum_append (xs ys : List Cells) :
    digitSum c (xs ++ ys) = digitSum c xs + digitSum c ys := by
  induction xs with
  | nil => simp [digitSum]
  | cons r xs ih =>
    rw [List.cons_append, digitSum, digitSum, ih]
    omega

theorem digit_le (h : isDigit c r = true) : digit c r ≤ 9 := by
  simp only [isDigit, Bool.and_eq_true, decide_eq_true_eq] at h
  unfold digit
  omega

theorem digitSum_le (h : ∀ r ∈ rows, isDigit c r = true) : digitSum c rows ≤ 9 * rows.length := by
  induction rows with
  | nil => simp [digitSum]
  | cons r rows ih =>
    have hr := digit_le (h r (by simp))
    have hrest := ih (fun r' hr' ↦ h r' (by simp [hr']))
    rw [digitSum, List.length_cons]
    omega

theorem column_word (c : Fin 4) (r : Cells) :
    column (g := generics) r.word c = (r c).toBitVec := by
  rw [← r.bytes_getD c.isLt]
  exact r.lane_word c

/-- The subtraction of eight bits is exact on digits. -/
theorem sumClock_digit (h : isDigit c r = true) (s : Word) (hs : s.toNat + digit c r < 2 ^ 32) :
    (sumClock true (r c).toBitVec s).toNat = s.toNat + digit c r := by
  simp only [isDigit, Bool.and_eq_true, decide_eq_true_eq] at h
  have hsub : ((r c).toBitVec - 48).toNat = digit c r := by
    rw [digit, BitVec.toNat_sub_of_le]
    · rfl
    · rw [BitVec.le_def]
      exact h.1
  have hwide : (((r c).toBitVec - 48).setWidth 32).toNat = digit c r := by
    rw [BitVec.toNat_setWidth, hsub]
    exact Nat.mod_eq_of_lt (by unfold digit; omega)
  rw [sumClock, if_pos rfl, BitVec.toNat_add, hwide]
  exact Nat.mod_eq_of_lt hs

theorem sumOf_digits (hc : f.countColIdx = c) (h : ∀ r ∈ rows, isDigit c r = true)
    (hlen : 9 * rows.length < 2 ^ 32) :
    (sumOf f (rows.map Cells.word)).toNat = digitSum c rows := by
  induction rows using List.reverseRecOn with
  | nil => rfl
  | append_singleton rows r ih =>
    rw [List.length_append, List.length_singleton] at hlen
    have hrows : ∀ r' ∈ rows, isDigit c r' = true := fun r' hr' ↦ h r' (by simp [hr'])
    have hrest := ih hrows (by omega)
    have hbound := digitSum_le hrows
    have hr : isDigit c r = true := h r (by simp)
    have hr' := digit_le hr
    have hstep : sumOf f ((rows ++ [r]).map Cells.word) =
        sumClock true (r c).toBitVec (sumOf f (rows.map Cells.word)) := by
      simp [sumOf, hc, column_word]
    rw [hstep, sumClock_digit hr _ (by omega), hrest, digitSum_append]
    simp [digitSum]

end Totals

section Programs

variable {prog : List Instruction} {c : Fin 4}

/-- The last aggregate of a program names the column. -/
theorem countColIdx_loaded (f : Fetcher generics) (before : List Instruction) {inst : Instruction}
    {after : List Instruction} (hinst : opcode inst = 0b0011#4 ∨ opcode inst = 0b0100#4)
    (hafter : ∀ i ∈ after, ¬ (opcode i = 0b0011#4 ∨ opcode i = 0b0100#4)) :
    (loaded f (before ++ inst :: after)).countColIdx = countColumn inst := by
  rw [loaded, List.foldl_append, List.foldl_cons]
  induction after using List.reverseRecOn with
  | nil => rw [List.foldl_nil, countColIdx_load, if_pos hinst]
  | append_singleton after i ih =>
    rw [List.foldl_append, List.foldl_cons, List.foldl_nil, countColIdx_load,
      if_neg (hafter i (by simp)), ih (fun j hj ↦ hafter j (by simp [hj]))]

/-- At most four WHERE instructions and one COUNT or SUM of column `c`, in any order. -/
structure AggregateProgram (prog : List Instruction) (c : Fin 4) : Prop where
  wheres_le : (wheres prog).length ≤ 4
  aggregate : ∃ inst, prog.filter (fun inst ↦ opcode inst ≠ 0b0001#4) = [inst] ∧
    (opcode inst = 0b0011#4 ∨ opcode inst = 0b0100#4) ∧ countColumn inst = c

theorem AggregateProgram.countColIdx (h : AggregateProgram prog c) (f : Fetcher generics) :
    (loaded f prog).countColIdx = c := by
  obtain ⟨inst, hfilter, hop, hcol⟩ := h.aggregate
  obtain ⟨before, after, rfl, -, -, hafter⟩ := List.filter_eq_cons_iff.mp hfilter
  rw [countColIdx_loaded f before hop, hcol]
  intro i hi hi'
  have hwhere := List.filter_eq_nil_iff.mp hafter i hi
  simp only [ne_eq, decide_not, Bool.not_eq_true', decide_eq_false_iff_not, not_not] at hwhere
  rw [hwhere] at hi'
  revert hi'
  decide

theorem AggregateProgram.limitOf_none (h : AggregateProgram prog c) : limitOf prog = none := by
  obtain ⟨inst, hfilter, hop, -⟩ := h.aggregate
  have hno : prog.filter (fun inst ↦ opcode inst = 0b0010#4) = [] := by
    rw [List.filter_eq_nil_iff]
    intro i hi hlimit
    rw [decide_eq_true_eq] at hlimit
    have hmem : i ∈ prog.filter (fun inst ↦ opcode inst ≠ 0b0001#4) := by
      rw [List.mem_filter, hlimit]
      exact ⟨hi, by decide⟩
    rw [hfilter, List.mem_singleton] at hmem
    rw [← hmem, hlimit] at hop
    revert hop
    decide
  simp [limitOf, limitRegister, hno]

/-- COUNT and SUM without a limit, over tables of the size that fits the file buffer:
whenever the feed loop returns 1, the two registers read the number of matching
rows and, if their cells are digits, the sum of these, however many rows the capture
buffer had to leave out. -/
theorem aggregates_exact (rows : List Cells) (hrows : rows.length ≤ 65529)
    (prog : List Instruction) (c : Fin 4) (hprog : AggregateProgram prog c) (captureLimit : ℤ)
    (s : Hardware.UserHw.State) (hs : AtRest s) (timing timing' : ℕ → Timing) (n : ℕ)
    (hn : (feedRun (feedParams rows captureLimit) prog timing timing' s n).1.pc = .returned 1)
    (t : Timing) :
    (exec (feedRun (feedParams rows captureLimit) prog timing timing' s n).2 t
      (.read accumulatorOffset)).2.toNat = (rows.filter (matching prog)).length ∧
    ((∀ r ∈ rows.filter (matching prog), isDigit c r = true) →
      (exec (feedRun (feedParams rows captureLimit) prog timing timing' s n).2 t
        (.read sumOffset)).2.toNat = digitSum c (rows.filter (matching prog))) := by
  have ready := ready_setup hs prog timing
  have settled := settled_of_returned ready (job_rows rows (by omega) captureLimit) hn
  have hquery : queryRows prog rows = rows.filter (matching prog) := by
    rw [queryRows, hprog.limitOf_none]
    rfl
  have hanswer : answer (loaded s.pipeline.fetcher prog) (rows.map Cells.word) =
      (rows.filter (matching prog)).map Cells.word := by
    rw [answer_words _ hprog.wheres_le (by simp [hprog.limitOf_none]), hquery]
  have hle := List.length_filter_le (matching prog) rows
  constructor
  · rw [feedRun, settled.accumulator, hanswer, List.length_map, BitVec.toNat_ofNat]
    exact Nat.mod_eq_of_lt (by omega)
  · intro hdigits
    rw [feedRun, settled.sum, hanswer, sumOf_digits (hprog.countColIdx _) hdigits (by omega)]

def sumSevens : List Instruction := [whereInstruction 0 55 0, aggregateInstruction 4 0]

theorem sumSevens_aggregate : AggregateProgram sumSevens 0 :=
  ⟨by decide, aggregateInstruction 4 0, by decide, by decide, by decide⟩

/-- A capture buffer for one row; two rows match. -/
theorem sample_sum : ∃ n,
    (feedRun (feedParams sampleRows 4) sumSevens atOnce atOnce .powerUp n).1.pc = .returned 1 ∧
    (exec (feedRun (feedParams sampleRows 4) sumSevens atOnce atOnce .powerUp n).2 ⟨0, 0⟩
      (.read accumulatorOffset)).2.toNat = 2 ∧
    (exec (feedRun (feedParams sampleRows 4) sumSevens atOnce atOnce .powerUp n).2 ⟨0, 0⟩
      (.read sumOffset)).2.toNat = 14 := by
  have hfits : LimitFits sumSevens sampleRows := by
    intro limit hlimit
    rw [sumSevens_aggregate.limitOf_none] at hlimit
    cases hlimit
  obtain ⟨n, hn⟩ := ((feed_ends sampleRows (by decide) (by decide) atRest_powerUp atOnce
    atOnce 4).1 hfits).1
  obtain ⟨hcount, hsum⟩ := aggregates_exact sampleRows (by decide) sumSevens 0 sumSevens_aggregate
    4 .powerUp atRest_powerUp atOnce atOnce n hn.returned ⟨0, 0⟩
  refine ⟨n, hn.returned, ?_, ?_⟩
  · rw [hcount]
    decide
  · rw [hsum (List.all_eq_true.mp (by decide))]
    decide

end Programs

end FpgaDatabase.Firmware.Aggregates
