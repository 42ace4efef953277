import FpgaDatabase.Firmware.Completion
import FpgaDatabase.Firmware.ScanBounds
import FpgaDatabase.Firmware.UnknownColumns

namespace FpgaDatabase.Firmware.Timeouts

open CString Hardware.Stages Hardware.UserHw Driver FeedInvariant FeedStep FeedOutcome Table Request
open Compile Conditions UnknownColumns Response AnswerSize Completion Emitted

/-- `r` rounds of accesses, one after the other. -/
def Rounds (round : ℕ → ℕ → Prop) : ℕ → ℕ → ℕ → Prop
  | 0, n, m => n = m
  | r + 1, n, m => ∃ l, Rounds round r n l ∧ round l m

section Values

variable (values : ℕ → Word)

/-- Since access `s` every status has shown a word in the output queue; access `n` reads the
status again. -/
inductive Draining (s : ℕ) : ℕ → Prop
  | start : Draining s s
  | word {n : ℕ} : Draining s n → values n &&& statusOutFifoEmpty = 0 → Draining s (n + 3)

/-- The output queue is empty, and access `m` comes next. -/
def Drained (s m : ℕ) : Prop :=
  ∃ n, Draining values s n ∧ values n &&& statusOutFifoEmpty ≠ 0 ∧ m = n + 1

/-- A status with the input queue full. The output is drained, and a delay follows. -/
def Refused (n m : ℕ) : Prop :=
  values n &&& statusInFifoFull ≠ 0 ∧ ∃ d, Drained values (n + 1) d ∧ m = d + 1

/-- A status with room in the input queue. A word is written and the output drained. -/
def Accepted (n m : ℕ) : Prop := values n &&& statusInFifoFull = 0 ∧ Drained values (n + 3) m

def IsDone (v : Word) : Prop := v &&& statusOutFifoEmpty ≠ 0 ∧ v &&& statusDone ≠ 0

/-- The output is drained, and then a status is not completion. A delay follows. -/
def Unfinished (n m : ℕ) : Prop :=
  ∃ d, Drained values n d ∧ ¬ IsDone (values d) ∧ m = d + 2

/-- The first `k` words have been taken, none of them after too many refusals. -/
inductive Taken : ℕ → ℕ → Prop
  | none : Taken 0 0
  | word {k n p m r : ℕ} : Taken k n → r ≤ stallMaxCycles → Rounds (Refused values) r n p →
      Accepted values p m → Taken (k + 1) m

/-- The device answers too slowly: a word is refused too often, or, once all have been taken,
completion does not show in as many rounds as the firmware waits. -/
inductive RunsOut (words : ℕ) : Prop
  | refused {k n m : ℕ} : k < words → Taken values k n →
      Rounds (Refused values) (stallMaxCycles + 1) n m → RunsOut words
  | unfinished {n m : ℕ} : Taken values words n →
      Rounds (Unfinished values) stallMaxCycles (n + 1) m → RunsOut words

end Values

variable {params : Params} {values : ℕ → Word} {T : List Word} {n m k g : ℕ} {site : Site}

section Forward

structure At (params : Params) (values : ℕ → Word) (n : ℕ) (pc : Pc) (k g : ℕ) : Prop where
  pc : (feedAgainst params values n).pc = pc
  bytes : (feedAgainst params values n).bytesSent = 4 * k
  guard : (feedAgainst params values n).stallGuard = g

def headPc (T : List Word) (k : ℕ) : Pc := if k < T.length then .pollInput else .signalEof

theorem at_loopHead (job : Job params T) {x : Feed} (hle : k ≤ T.length) (hb : x.bytesSent = 4 * k)
    (h : feedAgainst params values n = loopHead params x) :
    At params values n (headPc T k) k x.stallGuard := by
  rcases hle.lt_or_eq with hlt | he
  · rw [loopHead_of_lt k job hb hlt] at h
    exact ⟨by rw [h, headPc, if_pos hlt], by rw [h, hb], by rw [h]⟩
  · rw [loopHead_of_eq k job hb he] at h
    exact ⟨by rw [h, headPc, if_neg (by omega)], by rw [h, hb], by rw [h]⟩

def behind (T : List Word) (k : ℕ) : Site → Pc
  | .feeding => headPc T k
  | .stalled => .stallDelay
  | .waiting => .waitStatus

theorem at_draining (h : At params values n (.drainStatus site) k g) (hd : Draining values n m) :
    At params values m (.drainStatus site) k g := by
  induction hd with
  | start => exact h
  | @word m _ hword ih =>
    obtain ⟨hpc, hb, hg⟩ := ih
    constructor
    · simp only [feedAgainst, resume, hpc, hword, if_true]
    · simp only [feedAgainst, resume, hpc, hword, if_true, hb]
    · simp only [feedAgainst, resume, hpc, hword, if_true, hg]

theorem at_drained (job : Job params T) (hle : k ≤ T.length)
    (h : At params values n (.drainStatus site) k g) (hd : Drained values n m) :
    At params values m (behind T k site) k g := by
  obtain ⟨d, hdraining, hempty, rfl⟩ := hd
  obtain ⟨hpc, hb, hg⟩ := at_draining h hdraining
  have hnext : feedAgainst params values (d + 1) = drained params (feedAgainst params values d) site := by
    simp only [feedAgainst, resume, hpc, hempty, if_false]
  cases site with
  | feeding => exact hg ▸ at_loopHead job hle hb hnext
  | stalled => exact ⟨by rw [hnext]; rfl, by rw [hnext]; exact hb, by rw [hnext]; exact hg⟩
  | waiting => exact ⟨by rw [hnext]; rfl, by rw [hnext]; exact hb, by rw [hnext]; exact hg⟩

theorem at_stallDelay (job : Job params T) (hlt : k < T.length)
    (h : At params values n .pollInput k g) (hfull : values n &&& statusInFifoFull ≠ 0)
    (hd : Drained values (n + 1) m) : At params values m .stallDelay k g := by
  obtain ⟨hpc, hb, hg⟩ := h
  have hnext : At params values (n + 1) (.drainStatus .stalled) k g := by
    constructor
    · simp only [feedAgainst, resume, hpc, if_pos hfull]
    · simp only [feedAgainst, resume, hpc, if_pos hfull, hb]
    · simp only [feedAgainst, resume, hpc, if_pos hfull, hg]
  exact at_drained job hlt.le hnext hd

theorem at_refused (job : Job params T) (hlt : k < T.length)
    (h : At params values n .pollInput k 0) (hg : g ≤ stallMaxCycles)
    (hr : Rounds (Refused values) g n m) : At params values m .pollInput k g := by
  induction g generalizing m with
  | zero => exact hr ▸ h
  | succ g ih =>
    obtain ⟨l, hrounds, hfull, d, hd, rfl⟩ := hr
    obtain ⟨hpc, hb, hguard⟩ := at_stallDelay job hlt (ih (by omega) hrounds) hfull hd
    have hnext : feedAgainst params values (d + 1) = loopHead params
        { feedAgainst params values d with stallGuard := g + 1 } := by
      have hmore : ¬ stallMaxCycles < g + 1 := by omega
      simp only [feedAgainst, resume, hpc, hguard, if_neg hmore]
    have hat := at_loopHead (x := { feedAgainst params values d with stallGuard := g + 1 }) job hlt.le
      hb hnext
    rwa [headPc, if_pos hlt] at hat

theorem at_accepted (job : Job params T) (hlt : k < T.length)
    (h : At params values n .pollInput k g) (ha : Accepted values n m) :
    At params values m (headPc T (k + 1)) (k + 1) 0 := by
  obtain ⟨hroom, hd⟩ := ha
  obtain ⟨hpc, hb, hguard⟩ := h
  obtain ⟨sent, hsending⟩ := sending_run job values n
  simp only [Sending, hpc] at hsending
  obtain rfl : sent = k := by
    have hbytes := hsending.1.bytes
    omega
  have hsmall := job.small
  have h₁ : feedAgainst params values (n + 1) = { feedAgainst params values n with
      pc := .writeData T[sent], memoryOffset := 4 * (sent + 1) } := by
    simp only [feedAgainst, resume, hpc, ne_eq, hroom, not_true_eq_false, if_false,
      sourceReadWord_eq job hsending.1.offset hlt]
  have h₃ : At params values (n + 3) (.drainStatus .feeding) (sent + 1) 0 := by
    constructor
    · rw [feedAgainst, feedAgainst, h₁]
      rfl
    · rw [feedAgainst, feedAgainst, h₁]
      change ((feedAgainst params values n).bytesSent + 4) % 2 ^ 32 = 4 * (sent + 1)
      omega
    · rw [feedAgainst, feedAgainst, h₁]
      rfl
  exact at_drained job hlt h₃ hd

theorem at_taken (job : Job params T) (hle : k ≤ T.length) (h : Taken values k n) :
    At params values n (headPc T k) k 0 := by
  induction h with
  | none => exact at_loopHead (x := ⟨.pollInput, 0, 0, 0, []⟩) job hle rfl rfl
  | word _ hr hrounds haccepted ih =>
    have hat := ih (by omega)
    rw [headPc, if_pos (by omega)] at hat
    exact at_accepted job (by omega) (at_refused job (by omega) hat hr hrounds) haccepted

theorem at_waitDelay (job : Job params T) (h : At params values n (.drainStatus .waiting) T.length g)
    (hd : Drained values n m) (hnot : ¬ IsDone (values m)) :
    At params values (m + 1) .waitDelay T.length g := by
  obtain ⟨hpc, hb, hguard⟩ := at_drained job le_rfl h hd
  have hnext : feedAgainst params values (m + 1) =
      { feedAgainst params values m with pc := .waitDelay } := by
    simp only [feedAgainst, resume, hpc, behind]
    exact if_neg hnot
  exact ⟨by rw [hnext], by rw [hnext]; exact hb, by rw [hnext]; exact hguard⟩

theorem at_unfinished (job : Job params T)
    (h : At params values n (.drainStatus .waiting) T.length 0) (hg : g < stallMaxCycles)
    (hr : Rounds (Unfinished values) g n m) :
    At params values m (.drainStatus .waiting) T.length g := by
  induction g generalizing m with
  | zero => exact hr ▸ h
  | succ g ih =>
    obtain ⟨l, hrounds, d, hd, hnot, rfl⟩ := hr
    obtain ⟨hpc, hb, hguard⟩ := at_waitDelay job (ih (by omega) hrounds) hd hnot
    have hnext : feedAgainst params values (d + 2) = { feedAgainst params values (d + 1) with
        pc := .drainStatus .waiting, stallGuard := g + 1 } := by
      rw [feedAgainst]
      simp only [resume, hpc, hguard, if_pos hg]
    exact ⟨by rw [hnext], by rw [hnext]; exact hb, by rw [hnext]⟩

/-- Too slow a device makes the loop give up. -/
theorem givesUp_of_runsOut (job : Job params T) (h : RunsOut values T.length) :
    ∃ n, GivesUp (feedAgainst params values n) := by
  cases h with
  | refused hlt htaken hrounds =>
    obtain ⟨l, hrounds, hfull, d, hd, -⟩ := hrounds
    have hat := at_taken job hlt.le htaken
    rw [headPc, if_pos hlt] at hat
    obtain ⟨hpc, -, hguard⟩ := at_stallDelay job hlt (at_refused job hlt hat le_rfl hrounds) hfull hd
    exact ⟨d, .inl ⟨hpc, by omega⟩⟩
  | @unfinished n m htaken hrounds =>
    obtain ⟨rounds, hmax⟩ : ∃ rounds, stallMaxCycles = rounds + 1 := ⟨4999999, rfl⟩
    rw [hmax] at hrounds
    obtain ⟨l, hrounds, d, hd, hnot, -⟩ := hrounds
    obtain ⟨hpc, hb, -⟩ := at_taken job le_rfl htaken
    rw [headPc, if_neg (lt_irrefl _)] at hpc
    have hat : At params values (n + 1) (.drainStatus .waiting) T.length 0 := by
      constructor
      · simp only [feedAgainst, resume, hpc, job.wait, if_true]
      · simp only [feedAgainst, resume, hpc, job.wait, if_true, hb]
      · simp only [feedAgainst, resume, hpc, job.wait, if_true]
    obtain ⟨hpc', -, hguard⟩ := at_waitDelay job (at_unfinished job hat (by omega) hrounds) hd hnot
    exact ⟨d + 1, .inr ⟨hpc', by omega⟩⟩

end Forward

section Backward

/-- A status is read for word `k`, which has been refused `g` times. -/
def Asks (values : ℕ → Word) (words k g n : ℕ) : Prop :=
  k < words ∧ g ≤ stallMaxCycles ∧ ∃ l, Taken values k l ∧ Rounds (Refused values) g l n

/-- What has happened before the output is drained from access `n` on. -/
def Before (values : ℕ → Word) (words k g n : ℕ) : Site → Prop
  | .feeding => g = 0 ∧ ∃ j r p, k = j + 1 ∧ Asks values words j r p ∧
      values p &&& statusInFifoFull = 0 ∧ n = p + 3
  | .stalled => ∃ p, Asks values words k g p ∧ values p &&& statusInFifoFull ≠ 0 ∧ n = p + 1
  | .waiting => k = words ∧ g < stallMaxCycles ∧
      ∃ l, Taken values words l ∧ Rounds (Unfinished values) g (l + 1) n

/-- What has happened before an access, told by the values of the accesses before it. -/
def Past (values : ℕ → Word) (words k g n : ℕ) : Pc → Prop
  | .pollInput => Asks values words k g n
  | .writeData _ => ∃ p, Asks values words k g p ∧ values p &&& statusInFifoFull = 0 ∧ n = p + 1
  | .writeValid => ∃ p, Asks values words k g p ∧ values p &&& statusInFifoFull = 0 ∧ n = p + 2
  | .drainStatus site => ∃ s, Before values words k g s site ∧ Draining values s n
  | .drainPop site => ∃ s d, Before values words k g s site ∧ Draining values s d ∧
      values d &&& statusOutFifoEmpty = 0 ∧ n = d + 1
  | .drainRead site => ∃ s d, Before values words k g s site ∧ Draining values s d ∧
      values d &&& statusOutFifoEmpty = 0 ∧ n = d + 2
  | .stallDelay => ∃ s, Before values words k g s .stalled ∧ Drained values s n
  | .signalEof => k = words ∧ Taken values words n
  | .waitStatus => ∃ s, Before values words k g s .waiting ∧ Drained values s n
  | .waitDelay => ∃ s d, Before values words k g s .waiting ∧ Drained values s d ∧
      ¬ IsDone (values d) ∧ n = d + 1
  | .returned _ => True

def Explained (values : ℕ → Word) (T : List Word) (n : ℕ) (x : Feed) : Prop :=
  ∃ k, x.bytesSent = 4 * k ∧ k ≤ T.length ∧ Past values T.length k x.stallGuard n x.pc

theorem explained_head (job : Job params T) {x : Feed} (hb : x.bytesSent = 4 * k)
    (hasks : k < T.length → Asks values T.length k x.stallGuard n) (hle : k ≤ T.length)
    (htaken : Taken values k n) : Explained values T n (loopHead params x) := by
  rcases hle.lt_or_eq with hlt | he
  · rw [loopHead_of_lt k job hb hlt]
    exact ⟨k, hb, hle, hasks hlt⟩
  · rw [loopHead_of_eq k job hb he]
    exact ⟨k, hb, hle, he, he ▸ htaken⟩

theorem explained_drained (job : Job params T) {x : Feed} {s : ℕ} (hb : x.bytesSent = 4 * k)
    (hle : k ≤ T.length) (hbefore : Before values T.length k x.stallGuard s site)
    (hd : Drained values s n) : Explained values T n (drained params x site) := by
  cases site with
  | feeding =>
    obtain ⟨hzero, j, r, p, rfl, ⟨hlt, hr, l, htaken, hrounds⟩, hroom, rfl⟩ := hbefore
    have htaken' : Taken values (j + 1) n := .word htaken hr hrounds ⟨hroom, hd⟩
    exact explained_head job hb (fun hmore ↦ ⟨hmore, by omega, n, htaken', hzero ▸ rfl⟩) hle htaken'
  | stalled => exact ⟨k, hb, hle, s, hbefore, hd⟩
  | waiting => exact ⟨k, hb, hle, s, hbefore, hd⟩

theorem explained_resume (job : Job params T) {x : Feed} {ws : List Word} {sent : ℕ}
    (hsending : Sending T x ws sent) (h : Explained values T n x) :
    Explained values T (n + 1) (resume params x (values n)) := by
  obtain ⟨k, hb, hle, hpast⟩ := h
  cases hpc : x.pc with
  | pollInput =>
    rw [hpc] at hpast
    simp only [Sending, hpc] at hsending
    obtain rfl : sent = k := by
      have hbytes := hsending.1.bytes
      omega
    simp only [resume, hpc]
    split_ifs with hfull
    · exact ⟨sent, hb, hle, n + 1, ⟨n, hpast, hfull, rfl⟩, .start⟩
    · rw [sourceReadWord_eq job hsending.1.offset hsending.2]
      exact ⟨sent, hb, hle, n, hpast, not_not.mp hfull, rfl⟩
  | writeData word =>
    rw [hpc] at hpast
    obtain ⟨p, hasks, hroom, rfl⟩ := hpast
    simp only [resume, hpc]
    exact ⟨k, hb, hle, p, hasks, hroom, rfl⟩
  | writeValid =>
    rw [hpc] at hpast
    obtain ⟨p, hasks, hroom, rfl⟩ := hpast
    have hlt := hasks.1
    have hsmall := job.small
    simp only [resume, hpc]
    refine ⟨k + 1, ?_, hlt, p + 3, ⟨rfl, k, _, p, rfl, hasks, hroom, rfl⟩, .start⟩
    change (x.bytesSent + 4) % 2 ^ 32 = 4 * (k + 1)
    omega
  | drainStatus site =>
    rw [hpc] at hpast
    obtain ⟨s, hbefore, hd⟩ := hpast
    simp only [resume, hpc]
    split_ifs with hempty
    · exact ⟨k, hb, hle, s, n, hbefore, hd, hempty, rfl⟩
    · exact explained_drained job hb hle hbefore ⟨n, hd, hempty, rfl⟩
  | drainPop site =>
    rw [hpc] at hpast
    obtain ⟨s, d, hbefore, hd, hword, rfl⟩ := hpast
    simp only [resume, hpc]
    exact ⟨k, hb, hle, s, d, hbefore, hd, hword, rfl⟩
  | drainRead site =>
    rw [hpc] at hpast
    obtain ⟨s, d, hbefore, hd, hword, rfl⟩ := hpast
    simp only [resume, hpc]
    exact ⟨k, hb, hle, s, hbefore, .word hd hword⟩
  | stallDelay =>
    rw [hpc] at hpast
    obtain ⟨s, ⟨p, ⟨hlt, hg, l, htaken, hrounds⟩, hfull, rfl⟩, hd⟩ := hpast
    simp only [resume, hpc]
    split_ifs with hguard
    · exact ⟨k, hb, hle, trivial⟩
    · rw [loopHead_of_lt (x := { x with pc := .stallDelay, stallGuard := x.stallGuard + 1 }) k job hb
        hlt]
      exact ⟨k, hb, hle, hlt, Nat.not_lt.mp hguard, l, htaken, p, hrounds, hfull, n, hd, rfl⟩
  | signalEof =>
    rw [hpc] at hpast
    obtain ⟨rfl, htaken⟩ := hpast
    simp only [resume, hpc, job.wait, if_true]
    exact ⟨_, hb, hle, n + 1, ⟨rfl, show 0 < stallMaxCycles by decide, n, htaken, rfl⟩, .start⟩
  | waitStatus =>
    rw [hpc] at hpast
    obtain ⟨s, hbefore, hd⟩ := hpast
    simp only [resume, hpc]
    split_ifs with hdone
    · exact ⟨k, hb, hle, trivial⟩
    · exact ⟨k, hb, hle, s, n, hbefore, hd, hdone, rfl⟩
  | waitDelay =>
    rw [hpc] at hpast
    obtain ⟨s, d, ⟨rfl, hg, l, htaken, hrounds⟩, hd, hnot, rfl⟩ := hpast
    simp only [resume, hpc]
    split_ifs with hguard
    · exact ⟨_, hb, hle, d + 2, ⟨rfl, hguard, l, htaken, s, hrounds, d, hd, hnot, rfl⟩, .start⟩
    · exact ⟨_, hb, hle, trivial⟩
  | returned code =>
    simp only [resume, hpc]
    exact ⟨k, hb, hle, by rw [hpc]; trivial⟩

theorem explained_run (job : Job params T) (values : ℕ → Word) (n : ℕ) :
    Explained values T n (feedAgainst params values n) := by
  induction n with
  | zero =>
    exact explained_head job (x := ⟨.pollInput, 0, 0, 0, []⟩) rfl
      (fun hpos ↦ ⟨hpos, Nat.zero_le _, 0, .none, rfl⟩) (Nat.zero_le _) .none
  | succ n ih =>
    obtain ⟨sent, hsending⟩ := sending_run job values n
    exact explained_resume job hsending ih

theorem runsOut_of_givesUp (job : Job params T) (h : GivesUp (feedAgainst params values n)) :
    RunsOut values T.length := by
  obtain ⟨k, -, -, hpast⟩ := explained_run job values n
  rcases h with ⟨hpc, hguard⟩ | ⟨hpc, hguard⟩
  · rw [hpc] at hpast
    obtain ⟨s, ⟨p, ⟨hlt, hg, l, htaken, hrounds⟩, hfull, rfl⟩, hd⟩ := hpast
    have hmax : (feedAgainst params values n).stallGuard = stallMaxCycles := by omega
    rw [hmax] at hrounds
    exact .refused hlt htaken ⟨p, hrounds, hfull, n, hd, rfl⟩
  · rw [hpc] at hpast
    obtain ⟨s, d, ⟨-, hg, l, htaken, hrounds⟩, hd, hnot, rfl⟩ := hpast
    have hmax : stallMaxCycles = (feedAgainst params values (d + 1)).stallGuard + 1 := by omega
    have hlast : Rounds (Unfinished values)
        ((feedAgainst params values (d + 1)).stallGuard + 1) (l + 1) (d + 2) :=
      ⟨s, hrounds, d, hd, hnot, rfl⟩
    rw [← hmax] at hlast
    exact .unfinished htaken hlast

/-- Whether the loop gives up is told by the values that the device returns. -/
theorem givesUp_iff (values : ℕ → Word) (job : Job params T) :
    (∃ n, GivesUp (feedAgainst params values n)) ↔ RunsOut values T.length :=
  ⟨fun ⟨_, h⟩ ↦ runsOut_of_givesUp job h, givesUp_of_runsOut job⟩

end Backward

section Answers

variable {request : QueryRequest} {body file : List UInt8} {table : LoadedTable}

theorem selectList_zero (hparse : parseRequestBody body = some request) :
    0 ∉ request.selectList := by
  obtain ⟨-, -, hsql, -⟩ := parseRequestBody_some hparse
  have hnul : 0 ∉ request.sql := fun h₀ ↦ ((extractFrom_line hsql).2 0 h₀).2 rfl
  rw [parseRequestBody_fragments hparse]
  exact (ScanBounds.fragments_zero hnul).2

theorem compile_accepts_request (hparse : parseRequestBody body = some request)
    (hload : loadTable file = some table) :
    (compileAndSendInstructions request table).error = none ↔
      Compilable table.schema (conditions request.whereMemory) ∧
        SelectCompilable table request.selectList := by
  rw [compile_accepts, compileSelect_accepts (fits_loaded hload) (selectList_zero hparse)]

end Answers

/-- Whatever the device answers, a 200 stands for a completed feed exactly when the request is
refused or the device is not too slow. -/
theorem success_means_completion_iff (body : List UInt8) (request : QueryRequest)
    (hparse : parseRequestBody body = some request) (file : List UInt8)
    (hfile : file.length ≤ sdFileMaxSize) (table : LoadedTable) (hload : loadTable file = some table)
    (values : ℕ → Word) (accumulator sum : Word) :
    (∀ n code, (feedAgainst (queryParams request table) values n).pc = .returned code →
      (reply request ⟨some file, code, (feedAgainst (queryParams request table) values n).captured,
        accumulator, sum⟩).statusCode = 200 →
      Finished (queryParams request table) values (table.rows.map Cells.word) n) ↔
    (Compilable table.schema (conditions request.whereMemory) →
      SelectCompilable table request.selectList → ¬ RunsOut values table.rows.length) := by
  obtain ⟨hsmall, hrows⟩ := loadTable_rows hload hfile (captureLimitBytes request.limit table.schema)
  have job : Job (queryParams request table) (table.rows.map Cells.word) := by
    rw [queryParams, hrows]
    exact job_rows _ hsmall _
  have hgivesUp := givesUp_iff values job
  rw [List.length_map] at hgivesUp
  rw [← and_imp, ← compile_accepts_request hparse hload, ← hgivesUp]
  constructor
  · rintro hsuccess hcompile ⟨n, hgive⟩
    have hn : (feedAgainst (queryParams request table) values (n + 1)).pc = .returned 0 :=
      resume_givesUp hgive
    exact not_finished_of_timeout hn
      (hsuccess (n + 1) 0 hn (reply_of_timeout hparse hload hcompile))
  · intro hguard n code hn h200
    obtain ⟨k, hk, ⟨rfl, hc⟩ | ⟨rfl, hgive⟩⟩ := returned_from job hn
    · exact finished_of_completes job hn hk hc
    · cases hcompile : (compileAndSendInstructions request table).error with
      | none => exact absurd ⟨k, hgive⟩ (hguard hcompile)
      | some message =>
        rw [reply_of_error hload hcompile] at h200
        cases h200

section Examples

def full : ℕ → Word := fun _ ↦ statusInFifoFull ||| statusOutFifoEmpty

theorem full_round {i : ℕ} (h : feedAgainst params full n = ⟨.pollInput, 0, 0, i, []⟩) :
    feedAgainst params full (n + 2) = ⟨.stallDelay, 0, 0, i, []⟩ := by
  have hfull : (statusInFifoFull ||| statusOutFifoEmpty) &&& statusInFifoFull ≠ 0 := by decide
  have hempty : ¬ (statusInFifoFull ||| statusOutFifoEmpty) &&& statusOutFifoEmpty = 0 := by decide
  have h₁ : feedAgainst params full (n + 1) = ⟨.drainStatus .stalled, 0, 0, i, []⟩ := by
    rw [feedAgainst, h]
    exact if_pos hfull
  rw [feedAgainst, h₁]
  exact if_neg hempty

theorem full_stalls (hpos : 0 < params.totalBytes) {i : ℕ} (hi : i ≤ stallMaxCycles) :
    feedAgainst params full (3 * i) = ⟨.pollInput, 0, 0, i, []⟩ := by
  induction i with
  | zero => simp [feedAgainst, feedStart, loopHead, hpos]
  | succ i ih =>
    have hguard : ¬ stallMaxCycles < i + 1 := by omega
    rw [show 3 * (i + 1) = 3 * i + 2 + 1 by omega, feedAgainst, full_round (ih (by omega))]
    simp [resume, hguard, loopHead, hpos]

theorem full_returns (hpos : 0 < params.totalBytes) :
    ∃ n, (feedAgainst params full n).pc = .returned 0 := by
  have hlast := full_round (full_stalls hpos (le_refl stallMaxCycles))
  refine ⟨3 * stallMaxCycles + 2 + 1, ?_⟩
  rw [feedAgainst, hlast]
  exact resume_givesUp (.inl ⟨rfl, Nat.lt_succ_self _⟩)

theorem timeout_answered_ok : ∃ table, parseRequestBody starBody = some starRequest ∧
    loadTable (sampleFile 1) = some table ∧
    ∃ n, (feedAgainst (queryParams starRequest table) full n).pc = .returned 0 ∧
      (reply starRequest ⟨some (sampleFile 1), 0,
        (feedAgainst (queryParams starRequest table) full n).captured, 0, 0⟩).statusCode = 200 ∧
      ¬ Finished (queryParams starRequest table) full (table.rows.map Cells.word) n := by
  obtain ⟨table, hload⟩ : ∃ table, loadTable (sampleFile 1) = some table :=
    Option.isSome_iff_exists.mp (by decide)
  have hbytes : (loadTable (sampleFile 1)).map LoadedTable.totalBytes = some 4 := by decide
  rw [hload, Option.map_some, Option.some.injEq] at hbytes
  have hcompile : (compileAndSendInstructions starRequest table).error = none := by
    rw [compile_star table rfl rfl]
    rfl
  have hpos : 0 < (queryParams starRequest table).totalBytes := show 0 < table.totalBytes by omega
  obtain ⟨n, hn⟩ := full_returns hpos
  exact ⟨table, parse_star, hload, n, hn, reply_of_timeout parse_star hload hcompile,
    not_finished_of_timeout hn⟩

def prompt : ℕ → Word := fun _ ↦ statusDone ||| statusOutFifoEmpty

/-- The points of the loop that the run passes against such a device. -/
def Flows : Pc → Prop
  | .stallDelay | .waitDelay | .drainStatus .stalled | .drainPop _ | .drainRead _ => False
  | _ => True

theorem flows_loopHead (params : Params) (x : Feed) : Flows (loopHead params x).pc := by
  rcases loopHead_pc params x with h | h <;> rw [h] <;> trivial

theorem flows_resume (h : Flows x.pc) : Flows (resume params x (prompt n)).pc := by
  have hfull : ¬ (statusDone ||| statusOutFifoEmpty) &&& statusInFifoFull ≠ 0 := by decide
  have hempty : ¬ (statusDone ||| statusOutFifoEmpty) &&& statusOutFifoEmpty = 0 := by decide
  have hdone : (statusDone ||| statusOutFifoEmpty) &&& statusDone ≠ 0 := by decide
  unfold resume prompt
  cases hpc : x.pc with
  | pollInput =>
    simp only [if_neg hfull, sourceReadWord]
    split_ifs <;> trivial
  | drainStatus site =>
    simp only [if_neg hempty]
    cases site with
    | feeding => exact flows_loopHead _ _
    | stalled => exact absurd h (by rw [hpc]; exact id)
    | waiting => trivial
  | signalEof =>
    simp only
    split_ifs <;> trivial
  | waitStatus =>
    simp only [if_pos (And.intro hempty hdone)]
    trivial
  | stallDelay => exact absurd h (by rw [hpc]; exact id)
  | waitDelay => exact absurd h (by rw [hpc]; exact id)
  | drainPop site => exact absurd h (by rw [hpc]; exact id)
  | drainRead site => exact absurd h (by rw [hpc]; exact id)
  | writeData word => trivial
  | writeValid => trivial
  | returned code =>
    simp only [hpc]
    trivial

theorem flows_run (params : Params) (n : ℕ) : Flows (feedAgainst params prompt n).pc := by
  induction n with
  | zero => exact flows_loopHead _ _
  | succ n ih => exact flows_resume ih

theorem prompt_device_completes : ∃ table, loadTable (sampleFile 1) = some table ∧
    ∀ n code, (feedAgainst (queryParams starRequest table) prompt n).pc = .returned code →
      (reply starRequest ⟨some (sampleFile 1), code,
        (feedAgainst (queryParams starRequest table) prompt n).captured, 0, 0⟩).statusCode = 200 →
      Finished (queryParams starRequest table) prompt (table.rows.map Cells.word) n := by
  obtain ⟨table, hload⟩ : ∃ table, loadTable (sampleFile 1) = some table :=
    Option.isSome_iff_exists.mp (by decide)
  refine ⟨table, hload, (success_means_completion_iff starBody starRequest parse_star (sampleFile 1)
    (by decide) table hload prompt 0 0).mpr fun _ _ hslow ↦ ?_⟩
  obtain ⟨hsmall, hrows⟩ := loadTable_rows hload (by decide)
    (captureLimitBytes starRequest.limit table.schema)
  have job : Job (queryParams starRequest table) (table.rows.map Cells.word) := by
    rw [queryParams, hrows]
    exact job_rows _ hsmall _
  rw [← List.length_map Cells.word] at hslow
  obtain ⟨n, hgive⟩ := (givesUp_iff prompt job).mpr hslow
  have hflows := flows_run (queryParams starRequest table) n
  rcases hgive with ⟨hpc, -⟩ | ⟨hpc, -⟩
  · rw [hpc] at hflows
    exact hflows
  · rw [hpc] at hflows
    exact hflows

end Examples

end FpgaDatabase.Firmware.Timeouts
