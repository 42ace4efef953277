import FpgaDatabase.Firmware.AnswerSize
import FpgaDatabase.Firmware.FeedOutcome

namespace FpgaDatabase.Firmware.Completion

open CString Hardware.Stages Hardware.UserHw Driver FeedInvariant FeedStep FeedOutcome Table Request
open Compile Response AnswerSize Emitted

variable {params : Params} {values : ℕ → Word} {T ws : List Word} {x : Feed} {n k sent : ℕ} {v : Word}

/-- The feed loop with a device that answers the accesses with any values: `values n`
is what access number `n` returns. -/
def feedAgainst (params : Params) (values : ℕ → Word) : ℕ → Feed
  | 0 => feedStart params
  | n + 1 => resume params (feedAgainst params values n) (values n)

theorem feedAgainst_hardware (params : Params) (timing : ℕ → Timing) (s : Hardware.UserHw.State) :
    ∃ values, ∀ n, feedAgainst params values n = (feedSourceToHardware params timing s n).1 := by
  let x := feedSourceToHardware params timing s
  refine ⟨fun n ↦ match busOp (x n).1.pc with
    | some op => (exec (x n).2 (timing n) op).2
    | none => 0, fun n ↦ ?_⟩
  induction n with
  | zero => rfl
  | succ n ih =>
    rw [feedAgainst, ih, feedSourceToHardware, feedStep]
    change resume params (x n).1 _ = _
    cases hop : busOp (x n).1.pc with
    | some op => rfl
    | none =>
      have hreturned : ∃ code, (x n).1.pc = .returned code := by
        unfold busOp at hop
        split at hop <;> simp_all
      obtain ⟨code, hcode⟩ := hreturned
      simp [resume, hcode]
      rfl

def written : Pc → List Word
  | .writeData word => [word]
  | _ => []

def wordsSent (params : Params) (values : ℕ → Word) (n : ℕ) : List Word :=
  (List.range n).flatMap (fun k ↦ written (feedAgainst params values k).pc)

theorem wordsSent_succ (params : Params) (values : ℕ → Word) (n : ℕ) :
    wordsSent params values (n + 1) =
      wordsSent params values n ++ written (feedAgainst params values n).pc := by
  rw [wordsSent, List.range_succ, List.flatMap_append, List.flatMap_singleton]
  rfl

section Sending

/-- The counters of the firmware after `sent` words, with `ahead` words read from the
source and `out` words at DATA_IN beyond these. -/
structure Counts (T : List Word) (x : Feed) (ws : List Word) (sent ahead out : ℕ) : Prop where
  bytes : x.bytesSent = 4 * sent
  offset : x.memoryOffset = 4 * (sent + ahead)
  words : ws = T.take (sent + out)

def siteHolds (T : List Word) (sent : ℕ) : Site → Prop
  | .feeding => sent ≤ T.length
  | .stalled => sent < T.length
  | .waiting => sent = T.length

def Sending (T : List Word) (x : Feed) (ws : List Word) (sent : ℕ) : Prop :=
  match x.pc with
  | .pollInput | .stallDelay => Counts T x ws sent 0 0 ∧ sent < T.length
  | .writeData word => Counts T x ws sent 1 0 ∧ T[sent]? = some word
  | .writeValid => Counts T x ws sent 1 1 ∧ sent < T.length
  | .drainStatus site | .drainPop site | .drainRead site =>
      Counts T x ws sent 0 0 ∧ siteHolds T sent site
  | .signalEof | .waitStatus | .waitDelay => Counts T x ws sent 0 0 ∧ sent = T.length
  | .returned code => Counts T x ws sent 0 0 ∧ 0 ≤ code ∧ (code = 1 → sent = T.length)

theorem Counts.congr {y : Feed} {ahead out : ℕ} (h : Counts T x ws sent ahead out)
    (h₁ : y.bytesSent = x.bytesSent) (h₂ : y.memoryOffset = x.memoryOffset) :
    Counts T y ws sent ahead out :=
  ⟨h₁.trans h.bytes, h₂.trans h.offset, h.words⟩

theorem sending_loopHead (job : Job params T) (h : Counts T x ws sent 0 0)
    (hle : sent ≤ T.length) : Sending T (loopHead params x) ws sent := by
  rcases Nat.lt_or_eq_of_le hle with hlt | he
  · rw [loopHead_of_lt sent job h.bytes hlt]
    exact ⟨h.congr rfl rfl, hlt⟩
  · rw [loopHead_of_eq sent job h.bytes he]
    exact ⟨h.congr rfl rfl, he⟩

theorem sending_start (job : Job params T) : Sending T (feedStart params) [] 0 :=
  sending_loopHead job ⟨rfl, rfl, rfl⟩ (Nat.zero_le _)

theorem sending_resume (job : Job params T) (h : Sending T x ws sent) (v : Word) :
    ∃ sent', Sending T (resume params x v) (ws ++ written x.pc) sent' := by
  unfold Sending at h
  cases hpc : x.pc with
  | pollInput =>
    simp only [hpc] at h
    obtain ⟨hc, hlt⟩ := h
    refine ⟨sent, ?_⟩
    simp only [resume, hpc, written, List.append_nil]
    split_ifs
    · exact ⟨hc.congr rfl rfl, hlt⟩
    · rw [sourceReadWord_eq job hc.offset hlt]
      exact ⟨⟨hc.bytes, rfl, hc.words⟩, List.getElem?_eq_getElem hlt⟩
  | writeData word =>
    simp only [hpc] at h
    obtain ⟨hc, hword⟩ := h
    obtain ⟨hlt, -⟩ := List.getElem?_eq_some_iff.mp hword
    simp only [resume, hpc, written]
    refine ⟨sent, ⟨hc.bytes, hc.offset, ?_⟩, hlt⟩
    rw [hc.words, Nat.add_zero, List.take_add_one, hword]
    rfl
  | writeValid =>
    simp only [hpc] at h
    obtain ⟨hc, hlt⟩ := h
    have hsmall := job.small
    simp only [resume, hpc, written, List.append_nil]
    refine ⟨sent + 1, ⟨?_, hc.offset, hc.words⟩, hlt⟩
    change (x.bytesSent + 4) % 2 ^ 32 = 4 * (sent + 1)
    rw [hc.bytes, Nat.mod_eq_of_lt (by omega)]
    omega
  | drainStatus site =>
    simp only [hpc] at h
    obtain ⟨hc, hsite⟩ := h
    refine ⟨sent, ?_⟩
    simp only [resume, hpc, written, List.append_nil]
    split_ifs
    · exact ⟨hc.congr rfl rfl, hsite⟩
    · cases site with
      | feeding => exact sending_loopHead job hc hsite
      | stalled => exact ⟨hc.congr rfl rfl, hsite⟩
      | waiting => exact ⟨hc.congr rfl rfl, hsite⟩
  | drainPop site =>
    simp only [hpc] at h
    simp only [resume, hpc, written, List.append_nil]
    exact ⟨sent, h.1.congr rfl rfl, h.2⟩
  | drainRead site =>
    simp only [hpc] at h
    simp only [resume, hpc, written, List.append_nil]
    exact ⟨sent, h.1.congr rfl rfl, h.2⟩
  | stallDelay =>
    simp only [hpc] at h
    obtain ⟨hc, hlt⟩ := h
    refine ⟨sent, ?_⟩
    simp only [resume, hpc, written, List.append_nil]
    split_ifs
    · exact ⟨hc.congr rfl rfl, le_rfl, fun h₁ ↦ absurd h₁ (by decide)⟩
    · exact sending_loopHead job (hc.congr rfl rfl) hlt.le
  | signalEof =>
    simp only [hpc] at h
    simp only [resume, hpc, written, List.append_nil, job.wait, if_true]
    exact ⟨sent, h.1.congr rfl rfl, h.2⟩
  | waitStatus =>
    simp only [hpc] at h
    obtain ⟨hc, he⟩ := h
    refine ⟨sent, ?_⟩
    simp only [resume, hpc, written, List.append_nil]
    split_ifs
    · exact ⟨hc.congr rfl rfl, by decide, fun _ ↦ he⟩
    · exact ⟨hc.congr rfl rfl, he⟩
  | waitDelay =>
    simp only [hpc] at h
    obtain ⟨hc, he⟩ := h
    refine ⟨sent, ?_⟩
    simp only [resume, hpc, written, List.append_nil]
    split_ifs
    · exact ⟨hc.congr rfl rfl, he⟩
    · exact ⟨hc.congr rfl rfl, le_rfl, fun h₁ ↦ absurd h₁ (by decide)⟩
  | returned code =>
    simp only [hpc] at h
    refine ⟨sent, ?_⟩
    simpa only [Sending, resume, hpc, written, List.append_nil] using h

theorem sending_run (job : Job params T) (values : ℕ → Word) (n : ℕ) :
    ∃ sent, Sending T (feedAgainst params values n) (wordsSent params values n) sent := by
  induction n with
  | zero => exact ⟨0, sending_start job⟩
  | succ n ih =>
    obtain ⟨sent, h⟩ := ih
    rw [wordsSent_succ]
    exact sending_resume job h _

end Sending

section Exits

def Completes (x : Feed) (v : Word) : Prop :=
  x.pc = .waitStatus ∧ v &&& statusOutFifoEmpty ≠ 0 ∧ v &&& statusDone ≠ 0

/-- A guard runs out: while the input is full, or while waiting for completion. -/
def GivesUp (x : Feed) : Prop :=
  (x.pc = .stallDelay ∧ stallMaxCycles < x.stallGuard + 1) ∨
    (x.pc = .waitDelay ∧ stallMaxCycles ≤ x.stallGuard + 1)

def Waiting : Pc → Prop
  | .drainStatus .waiting | .drainPop .waiting | .drainRead .waiting | .waitStatus | .waitDelay => True
  | _ => False

theorem loopHead_pc (params : Params) (x : Feed) :
    (loopHead params x).pc = .pollInput ∨ (loopHead params x).pc = .signalEof := by
  unfold loopHead
  split_ifs
  · exact .inl rfl
  · exact .inr rfl

theorem loopHead_not (params : Params) (x : Feed) :
    ¬ Waiting (loopHead params x).pc ∧ ∀ code, (loopHead params x).pc ≠ .returned code := by
  rcases loopHead_pc params x with h | h
  · rw [h]
    exact ⟨id, fun _ h' ↦ by cases h'⟩
  · rw [h]
    exact ⟨id, fun _ h' ↦ by cases h'⟩

theorem resume_waiting (h : Waiting (resume params x v).pc) :
    x.pc = .signalEof ∨ Waiting x.pc := by
  unfold resume at h
  cases hpc : x.pc with
  | signalEof => exact .inl rfl
  | waitStatus => exact .inr trivial
  | waitDelay => exact .inr trivial
  | pollInput =>
    simp only [hpc, sourceReadWord] at h
    split_ifs at h <;> exact h.elim
  | writeData word =>
    simp only [hpc] at h
    exact h.elim
  | writeValid =>
    simp only [hpc] at h
    exact h.elim
  | stallDelay =>
    simp only [hpc] at h
    split_ifs at h
    · exact h.elim
    · exact absurd h (loopHead_not _ _).1
  | returned code =>
    simp only [hpc] at h
    exact h.elim
  | drainStatus site =>
    cases site with
    | waiting => exact .inr trivial
    | feeding =>
      simp only [hpc, drained] at h
      split_ifs at h
      · exact h.elim
      · exact absurd h (loopHead_not _ _).1
    | stalled =>
      simp only [hpc, drained] at h
      split_ifs at h <;> exact h.elim
  | drainPop site =>
    simp only [hpc] at h
    cases site <;> exact .inr h
  | drainRead site =>
    simp only [hpc] at h
    cases site <;> exact .inr h

/-- The ways out of the loop. The source is never cut short. -/
theorem resume_returned (job : Job params T) (hx : Sending T x ws sent) {code : ℤ}
    (h : (resume params x v).pc = .returned code) :
    x.pc = .returned code ∨ (code = 1 ∧ Completes x v) ∨ (code = 0 ∧ GivesUp x) := by
  unfold resume at h
  cases hpc : x.pc with
  | pollInput =>
    simp only [Sending, hpc] at hx
    simp only [hpc] at h
    split_ifs at h
    rw [sourceReadWord_eq job hx.1.offset hx.2] at h
    cases h
  | writeData word =>
    simp only [hpc] at h
    cases h
  | writeValid =>
    simp only [hpc] at h
    cases h
  | drainStatus site =>
    simp only [hpc] at h
    split_ifs at h
    cases site with
    | feeding => exact absurd h ((loopHead_not _ _).2 code)
    | stalled => cases h
    | waiting => cases h
  | drainPop site =>
    simp only [hpc] at h
    cases h
  | drainRead site =>
    simp only [hpc] at h
    cases h
  | stallDelay =>
    simp only [hpc] at h
    split_ifs at h with hguard
    · cases h
      exact .inr (.inr ⟨rfl, .inl ⟨hpc, hguard⟩⟩)
    · exact absurd h ((loopHead_not _ _).2 code)
  | signalEof =>
    simp only [hpc, job.wait, if_true] at h
    cases h
  | waitStatus =>
    simp only [hpc] at h
    split_ifs at h with hdone
    cases h
    exact .inr (.inl ⟨rfl, hpc, hdone⟩)
  | waitDelay =>
    simp only [hpc] at h
    split_ifs at h with hguard
    cases h
    exact .inr (.inr ⟨rfl, .inr ⟨hpc, by omega⟩⟩)
  | returned code' =>
    simp only [hpc] at h
    exact .inl h

theorem resume_of_returned {code : ℤ} (h : x.pc = .returned code) : resume params x v = x := by
  simp [resume, h]

theorem returned_stays {code : ℤ} (h : (feedAgainst params values n).pc = .returned code)
    (hk : n ≤ k) : feedAgainst params values k = feedAgainst params values n := by
  induction k, hk using Nat.le_induction with
  | base => rfl
  | succ k hk ih => rw [feedAgainst, ih, resume_of_returned h]

theorem resume_completes (h : Completes x v) : (resume params x v).pc = .returned 1 := by
  obtain ⟨hpc, hdone⟩ := h
  simp only [resume, hpc]
  rw [if_pos hdone]

theorem resume_givesUp (h : GivesUp x) : (resume params x v).pc = .returned 0 := by
  rcases h with ⟨hpc, hguard⟩ | ⟨hpc, hguard⟩
  · simp [resume, hpc, hguard]
  · simp [resume, hpc, Nat.not_lt.mpr hguard]

theorem returned_from (job : Job params T) {code : ℤ}
    (h : (feedAgainst params values n).pc = .returned code) :
    ∃ k < n, (code = 1 ∧ Completes (feedAgainst params values k) (values k)) ∨
      (code = 0 ∧ GivesUp (feedAgainst params values k)) := by
  induction n with
  | zero => exact absurd h ((loopHead_not _ _).2 code)
  | succ n ih =>
    obtain ⟨sent, hs⟩ := sending_run job values n
    rcases resume_returned job hs h with hr | hexit
    · obtain ⟨k, hk, hexit⟩ := ih hr
      exact ⟨k, by omega, hexit⟩
    · exact ⟨n, by omega, hexit⟩

theorem eof_signalled (h : Waiting (feedAgainst params values n).pc) :
    ∃ j < n, (feedAgainst params values j).pc = .signalEof := by
  induction n with
  | zero => exact absurd h (loopHead_not _ _).1
  | succ n ih =>
    rcases resume_waiting h with he | hw
    · exact ⟨n, by omega, he⟩
    · obtain ⟨j, hj, he⟩ := ih hw
      exact ⟨j, by omega, he⟩

end Exits

section EmptyAnswer

variable {request : QueryRequest} {body file : List UInt8} {table : LoadedTable}

theorem successReply_empty (hparse : parseRequestBody body = some request)
    (hload : loadTable file = some table) (o : Outside) :
    (successReply request table.schema [] o).statusCode = 200 := by
  unfold successReply
  cases aggregate request table.schema o with
  | some text => rfl
  | none =>
    simp only
    rw [if_pos (successTexts_length hparse (modest_of_table hload) (Nat.zero_le _))]

end EmptyAnswer

/-- The feed sent all words, signalled `eof`, and then saw completion with an empty
output queue. -/
structure Finished (params : Params) (values : ℕ → Word) (T : List Word) (n : ℕ) : Prop where
  sent : wordsSent params values n = T
  completed : ∃ j k, j < k ∧ k < n ∧ (feedAgainst params values j).pc = .signalEof ∧
    Completes (feedAgainst params values k) (values k)

theorem finished_of_completes (job : Job params T)
    (hn : (feedAgainst params values n).pc = .returned 1) (hk : k < n)
    (hc : Completes (feedAgainst params values k) (values k)) : Finished params values T n := by
  obtain ⟨sent, hs⟩ := sending_run job values n
  simp only [Sending, hn] at hs
  obtain ⟨j, hj, heof⟩ := eof_signalled (n := k) (by rw [hc.1]; trivial)
  refine ⟨?_, j, k, hj, hk, heof, hc⟩
  rw [hs.1.words, hs.2.2 trivial, Nat.add_zero, List.take_length]

theorem not_finished_of_timeout (hn : (feedAgainst params values n).pc = .returned 0) :
    ¬ Finished params values T n := by
  rintro ⟨-, j, k, -, hk, -, hc⟩
  have hone : (feedAgainst params values (k + 1)).pc = .returned 1 := resume_completes hc
  rw [returned_stays hone hk, hone] at hn
  cases hn

section Answer

variable {request : QueryRequest} {body file : List UInt8} {table : LoadedTable} {captured : List UInt8}
  {accumulator sum : Word}

theorem reply_of_timeout (hparse : parseRequestBody body = some request)
    (hload : loadTable file = some table)
    (hcompile : (compileAndSendInstructions request table).error = none) :
    (reply request ⟨some file, 0, captured, accumulator, sum⟩).statusCode = 200 := by
  have hfeed : feedResult ⟨some file, 0, captured, accumulator, sum⟩ table = some [] := by
    simp [feedResult]
  rw [reply, if_neg (by decide)]
  simp only [Option.bind_some, hload, hcompile, hfeed]
  exact successReply_empty hparse hload _

theorem reply_of_error {dataStatus : ℤ} {message : List UInt8} (hload : loadTable file = some table)
    (hcompile : (compileAndSendInstructions request table).error = some message) :
    (reply request ⟨some file, dataStatus, captured, accumulator, sum⟩).statusCode = 400 := by
  rw [reply, if_neg (by decide)]
  simp only [Option.bind_some, hload, hcompile]
  rfl

end Answer

def queryParams (request : QueryRequest) (table : LoadedTable) : Params :=
  tableParams table (captureLimitBytes request.limit table.schema)

def starBody : List UInt8 := ascii "TABLE=T\nSQL=SELECT * FROM T\n"

def starRequest : QueryRequest := ⟨ascii "SELECT * FROM T", ascii "T", ascii "*", [], 0⟩

theorem parse_star : parseRequestBody starBody = some starRequest := by decide +kernel

end FpgaDatabase.Firmware.Completion
