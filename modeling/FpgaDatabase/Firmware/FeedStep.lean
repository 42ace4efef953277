import FpgaDatabase.Firmware.FeedInvariant

namespace FpgaDatabase.Firmware.FeedStep

open Hardware.Fifo Hardware.Stages Hardware.Pipeline Hardware.Streaming Hardware.Program
open Hardware.Pacing Hardware.UserHw Driver Pace FeedInvariant

abbrev System := Feed × Hardware.UserHw.State

variable {f : Fetcher generics} {params : Params} {T : List Word} {x : Feed}
  {s : Hardware.UserHw.State} {h : Hist} {sent n m k : ℕ} {y y' : System}

def Good (f : Fetcher generics) (params : Params) (T : List Word) (y : System) : Prop :=
  ∃ h sent, Phase f params T y.1 y.2 h sent

def Advances (f : Fetcher generics) (params : Params) (T : List Word) (y y' : System) : Prop :=
  Good f params T y' ∧ rank T y' < rank T y

theorem feedStep_eq (op : BusOp) (hx : busOp x.pc = some op) (t : Timing) :
    feedStep params (x, s) t = (resume params x (exec s t op).2, (exec s t op).1) := by
  simp [feedStep, hx]

theorem rank_lt_of_words (hw : wordsLeft T y'.1 < wordsLeft T y.1) : rank T y' < rank T y := by
  rw [rank, rank, Prod.Lex.toLex_lt_toLex]
  exact .inl hw

theorem rank_lt_of_tries (hw : wordsLeft T y'.1 = wordsLeft T y.1)
    (ht : stallMaxCycles + 1 - y'.1.stallGuard < stallMaxCycles + 1 - y.1.stallGuard) :
    rank T y' < rank T y := by
  rw [rank, rank, Prod.Lex.toLex_lt_toLex, Prod.Lex.toLex_lt_toLex]
  exact .inr ⟨hw, .inl ht⟩

theorem rank_lt_of_operations (hw : wordsLeft T y'.1 = wordsLeft T y.1)
    (ht : y'.1.stallGuard = y.1.stallGuard)
    (ho : operationsLeft y'.1.pc < operationsLeft y.1.pc) : rank T y' < rank T y := by
  simp only [rank, Prod.Lex.toLex_lt_toLex]
  exact .inr ⟨hw, .inr ⟨by rw [ht], .inl ho⟩⟩

theorem rank_lt_of_pops (hw : wordsLeft T y'.1 = wordsLeft T y.1)
    (ht : y'.1.stallGuard = y.1.stallGuard)
    (ho : operationsLeft y'.1.pc = operationsLeft y.1.pc)
    (hp : popsLeft y'.2.pipeline y'.1.pc < popsLeft y.2.pipeline y.1.pc) : rank T y' < rank T y := by
  simp only [rank, Prod.Lex.toLex_lt_toLex]
  exact .inr ⟨hw, .inr ⟨by rw [ht], .inr ⟨ho, hp⟩⟩⟩

theorem loopHead_of_lt (sent : ℕ) (job : Job params T) (hb : x.bytesSent = 4 * sent) (hlt : sent < T.length) :
    loopHead params x = { x with pc := .pollInput } := by
  have hc : x.bytesSent < params.totalBytes := by
    rw [hb, job.total]
    omega
  simp [loopHead, hc]

theorem loopHead_of_eq (sent : ℕ) (job : Job params T) (hb : x.bytesSent = 4 * sent) (he : sent = T.length) :
    loopHead params x = { x with pc := .signalEof } := by
  have hc : ¬ x.bytesSent < params.totalBytes := by
    rw [hb, job.total]
    omega
  simp [loopHead, hc]

theorem sourceReadWord_eq (job : Job params T) (ho : x.memoryOffset = 4 * (sent + 0))
    (hlt : sent < T.length) :
    sourceReadWord params x =
      { x with pc := .writeData T[sent], memoryOffset := 4 * (sent + 1) } := by
  have hsmall := job.small
  have hmem : params.memory.length = 4 * T.length := by
    rw [job.memory, flatMap_wordBytes_length]
  have hmod : (x.memoryOffset + 4) % 2 ^ 32 = 4 * (sent + 1) := by
    rw [ho, Nat.mod_eq_of_lt (by omega)]
    omega
  have hle : ¬ params.memory.length < (x.memoryOffset + 4) % 2 ^ 32 := by
    rw [hmod, hmem]
    omega
  have hword : readLe32 (params.memory.drop x.memoryOffset) = T[sent] := by
    rw [ho, Nat.add_zero, sourceWord job hlt]
  rw [sourceReadWord, if_neg hle, hword, hmod]

theorem step_pollInput (job : Job params T) (hx : x.pc = .pollInput)
    (hp : Phase f params T x s h sent) (t : Timing) :
    Advances f params T (x, s) (feedStep params (x, s) t) := by
  simp only [Phase, hx] at hp
  obtain ⟨hs, hlt⟩ := hp
  obtain ⟨k, j, hk, hj, hw, hv⟩ := exec_status hs.rest t
  obtain ⟨h', hs', hpop⟩ := hs.waits (by omega) (by simp) hw
  have heof := hs.eof
  rw [feedStep_eq (.read statusOffset) (by rw [hx]; rfl)]
  generalize hu : (exec s t (.read statusOffset)).1 = u at *
  generalize (exec s t (.read statusOffset)).2 = v at *
  have hfull := status_full (quietly s.eofCtrl k s.pipeline)
  rw [← hv] at hfull
  by_cases hq : (quietly s.eofCtrl k s.pipeline).inFifo.contents.length = 128
  · have hr : resume params x v = { x with pc := .drainStatus .stalled } := by
      simp only [resume, hx, if_pos (hfull.mpr hq)]
    obtain ⟨h₁, hp₁, -⟩ := hs.paced.quietly (e := s.eofCtrl) (by omega) (by simp [heof]) k
    have hhit : (quietly s.eofCtrl k s.pipeline).limitHit = true := by
      rcases hp₁.lag.exhausted (by omega) with hnil | hh
      · rw [hnil] at hq
        simp at hq
      · exact hh
    have hstuck : Stuck u.pipeline := by
      rw [hw.pipeline, quietly_add]
      exact hp₁.stuck_quietly (by omega) (by simp [heof]) ⟨hhit, hq⟩ j
    rw [hr]
    refine ⟨⟨h', sent, ?_⟩, rank_lt_of_operations ?_ rfl ?_⟩
    · refine ⟨?_, hstuck, hlt⟩
      rw [hpop]
      exact (hs'.mono (show 1 - (j + k) ≤ 3 by omega) (show 2 ≤ 3 by omega)).congr rfl rfl rfl
    · simp [wordsLeft, hx]
    · simp [operationsLeft, hx]
  · have hr : resume params x v = sourceReadWord params x := by
      have hne : ¬ v &&& statusInFifoFull ≠ 0 := fun hc ↦ hq (hfull.mp hc)
      simp only [resume, hx, if_neg hne]
    have hlen : u.pipeline.inFifo.contents.length < 128 := by
      have hle := inFifo_length_quietly (quietly s.eofCtrl k s.pipeline) s.eofCtrl j
      have hdepth := (quietly s.eofCtrl k s.pipeline).inFifo.contents_le
      change _ ≤ 128 at hdepth
      rw [← quietly_add, ← hw.pipeline] at hle
      omega
    rw [hr, sourceReadWord_eq job hs.offset hlt]
    refine ⟨⟨h', sent, ?_⟩, rank_lt_of_operations ?_ rfl ?_⟩
    · refine ⟨?_, List.getElem?_eq_getElem hlt, hlen⟩
      rw [hpop]
      have hs'' := hs'.mono (show 1 - (j + k) ≤ 0 by omega) le_rfl
      exact ⟨hs''.rest, hs''.sent_le, hs''.bytes, rfl, hs''.captured, hs''.accepted, hs''.eof,
        hs''.fresh, hs''.paced⟩
    · simp [wordsLeft, hx]
    · simp [operationsLeft, hx]

theorem step_writeData {word : Word} (hx : x.pc = .writeData word)
    (hp : Phase f params T x s h sent) (t : Timing) :
    Advances f params T (x, s) (feedStep params (x, s) t) := by
  simp only [Phase, hx] at hp
  obtain ⟨hs, hword, hq⟩ := hp
  obtain ⟨h₁, h₂, -, h₄, h₅⟩ := exec_write hs.rest t dataInOffset word (by decide)
  rw [if_pos (by decide)] at h₂
  rw [feedStep_eq (.write dataInOffset word) (by rw [hx]; rfl)]
  generalize (exec s t (.write dataInOffset word)).1 = u at *
  obtain ⟨h', hp', ha, ho, hf⟩ := hs.paced.quietly (e := s.eofCtrl) (by omega) (by omega) (t.gap + 2)
  rw [← h₅] at hp'
  have hr (v : Word) : resume params x v = { x with pc := .writeValid } := by simp [resume, hx]
  rw [hr]
  refine ⟨⟨h', sent, ⟨?_, ?_, ?_⟩⟩, rank_lt_of_operations ?_ rfl ?_⟩
  · rw [ho]
    exact ⟨h₁, hs.sent_le, hs.bytes, hs.offset, hs.captured, ha.trans hs.accepted,
      h₄.trans hs.eof, fun _ ↦ (hf hs.eof).trans (hs.fresh rfl), hp'.mono (by omega) le_rfl⟩
  · rw [h₂]
    exact hword
  · have hle := inFifo_length_quietly s.pipeline s.eofCtrl (t.gap + 2)
    rw [← h₅] at hle
    exact hle.trans_lt hq
  · simp [wordsLeft, hx]
  · simp [operationsLeft, hx]

theorem step_writeValid (job : Job params T) (hx : x.pc = .writeValid)
    (hp : Phase f params T x s h sent) (t : Timing) :
    Advances f params T (x, s) (feedStep params (x, s) t) := by
  simp only [Phase, hx] at hp
  obtain ⟨hs, hword, hq⟩ := hp
  obtain ⟨hlt, hget⟩ := List.getElem?_eq_some_iff.mp hword
  have hsmall := job.small
  have heof : eofAfter s controlDinValid = false := by
    rw [← hs.eof]
    rfl
  obtain ⟨h₁, -, -, h₄, h₅⟩ := exec_control hs.rest t controlDinValid
  rw [heof] at h₄ h₅
  rw [feedStep_eq (.write 0 controlDinValid) (by rw [hx]; rfl)]
  generalize (exec s t (.write 0 controlDinValid)).1 = u at *
  obtain ⟨h', hp', ha, ho, hf⟩ := hs.paced.quietly (e := s.eofCtrl) (by omega) (by omega) 1
  have hq' := (inFifo_length_quietly s.pipeline s.eofCtrl 1).trans_lt hq
  have hfresh : h'.eofSeen = false := (hf hs.eof).trans (hs.fresh rfl)
  obtain ⟨hp₂, ha₂, ho₂, hf₂⟩ := hp'.clock_push (i := pulse s controlDinValid false) (by omega) hq'
    rfl rfl rfl rfl rfl hfresh
  obtain ⟨h₃, hp₃, ha₃, ho₃, hf₃⟩ := hp₂.quietly (e := false) (by omega) (by simp) t.gap
  have hr (v : Word) : resume params x v = { x with
      pc := .drainStatus .feeding
      bytesSent := 4 * (sent + 1)
      stallGuard := 0 } := by
    have hb : (x.bytesSent + 4) % 2 ^ 32 = 4 * (sent + 1) := by
      rw [hs.bytes, Nat.mod_eq_of_lt (by omega)]
      omega
    simp only [resume, hx, hb]
  rw [hr]
  refine ⟨⟨h₃, sent + 1, ?_, trivial⟩, rank_lt_of_words ?_⟩
  · refine ⟨h₁, hlt, rfl, hs.offset, ?_, ?_, h₄, fun _ ↦ (hf₃ rfl).trans hf₂, ?_⟩
    · rw [ho₃, ho₂, ho]
      exact hs.captured
    · rw [ha₃, ha₂, ha, hs.accepted, List.take_add_one, hword]
      rfl
    · rw [h₅]
      exact hp₃.mono (by simp [lagAt]) (by omega)
  · simp only [wordsLeft, hx, hs.bytes]
    omega

theorem AtSite.congr {x' : Feed} {p : Pipe} {site : Site} (hs : AtSite T x p sent site)
    (hg : x'.stallGuard = x.stallGuard) : AtSite T x' p sent site := by
  cases site with
  | feeding => trivial
  | stalled => exact hs
  | waiting => simpa only [AtSite, hg] using hs

theorem atSite_clock {p : Pipe} {rows : List (Row generics)} {i : Inputs generics} {site : Site}
    (c : Coupled f rows p h) (hl : i.loadInst = false) (hv : i.dinValid = false)
    (he : i.eof = eofAt site) (hs : AtSite T x p sent site) : AtSite T x (p.clock i) sent site := by
  cases site with
  | feeding => trivial
  | stalled => exact ⟨stuck_clock c hl hv hs.1, hs.2⟩
  | waiting =>
    obtain ⟨hN, hend⟩ := hs
    refine ⟨hN, ?_⟩
    rcases hend with ⟨hg, hend⟩ | ⟨hg, hend⟩
    · exact .inl ⟨hg, (ending_clock c hl hv he hend).mono (by omega)⟩
    · exact .inr ⟨hg, (ending_clock c hl hv he hend).mono (by omega)⟩

/-- What a call of `drain_output_words` relies on stays true while time passes. -/
theorem atSite_quietly {p : Pipe} {site : Site} (hp : Paced f n m p h) (hm : m < 128)
    (hn : eofAt site = true → n < 2) (hs : AtSite T x p sent site) (k : ℕ) :
    AtSite T x (quietly (eofAt site) k p) sent site := by
  refine hp.quietly_rule (I := fun _ p ↦ AtSite T x p sent site) hm hn ?_ (j := 0) hs k
  intro _ p _ rows c hs
  exact atSite_clock c rfl rfl rfl hs

theorem load_quietly {p : Pipe} {e : Bool} (hp : Paced f n m p h) (hm : m < 128)
    (hn : e = true → n < 2) (k : ℕ) : load (quietly e k p) ≤ load p := by
  refine hp.quietly_rule (I := fun _ q ↦ load q ≤ load p) hm hn ?_ (j := 0) le_rfl k
  intro _ q _ rows c hle
  have hc := load_clock (i := quiet e) c rfl
  simp only [quiet, Bool.false_eq_true, if_false, Bool.toNat_false] at hc ⊢
  omega

/-- An output queue that was seen empty is owed at most two rows. -/
theorem Sync.drained {u : Hardware.UserHw.State} {taken : List Word} {e : Bool} {j : ℕ}
    (hs : Sync f params T x s h sent 0 taken e n m) (hm : m < 128) (he : e = true → n < 2)
    (hw : Waits (j + k) s u) (hnil : (quietly s.eofCtrl k s.pipeline).outFifo.contents = []) :
    ∃ h', Sync f params T x u h' sent 0 taken e (n - (j + k)) 2 ∧ h'.popped = h.popped := by
  have hn : s.eofCtrl = true → n < 2 := fun h₀ ↦ he (hs.eof ▸ h₀)
  obtain ⟨h₁, hp₁, ha₁, ho₁, hf₁⟩ := hs.paced.quietly hm hn k
  have hload : load (quietly s.eofCtrl k s.pipeline) ≤ 2 := by
    have hle := hp₁.lag.load_le
    rwa [hnil] at hle
  have hp₂ : Paced f (n - k) 2 (quietly s.eofCtrl k s.pipeline) h₁ :=
    ⟨hp₁.coupled, hp₁.exact, hp₁.lag, hload⟩
  obtain ⟨h₃, hp₃, ha₃, ho₃, hf₃⟩ := hp₂.quietly (e := s.eofCtrl) (by omega)
    (fun h₀ ↦ by have := hn h₀; omega) j
  refine ⟨h₃, ⟨hw.atRest, hs.sent_le, hs.bytes, hs.offset, hs.captured, ?_, hw.eofCtrl.trans hs.eof,
    ?_, ?_⟩, ho₃.trans ho₁⟩
  · rw [ha₃, ha₁, hs.accepted]
  · intro h₀
    have h₀' : s.eofCtrl = false := hs.eof.trans h₀
    rw [hf₃ h₀', hf₁ h₀', hs.fresh h₀]
  · rw [hw.pipeline, quietly_add]
    exact hp₃.mono (by omega) le_rfl

theorem complete_of_sample {u : Hardware.UserHw.State} {j : ℕ} (hp : Paced f n m s.pipeline h)
    (hm : m < 128) (hn : n < 2) (he : s.eofCtrl = true) (hend : Ending 0 s.pipeline)
    (hw : Waits (j + k) s u) (hnil : (quietly s.eofCtrl k s.pipeline).outFifo.contents = []) :
    Complete u.pipeline := by
  rw [he] at hnil
  obtain ⟨h₁, hp₁, -⟩ := hp.quietly (e := true) hm (fun _ ↦ hn) k
  have hend₁ := (hp.ending_quietly hm hn hend k).mono (show 0 - k ≤ 0 by omega)
  rw [hw.pipeline, he, quietly_add]
  exact hp₁.complete_quietly hm (by omega) ⟨hend₁, hnil⟩ j

theorem step_drainStatus (job : Job params T) {site : Site} (hx : x.pc = .drainStatus site)
    (hp : Phase f params T x s h sent) (t : Timing) :
    Advances f params T (x, s) (feedStep params (x, s) t) := by
  simp only [Phase, hx] at hp
  obtain ⟨hs, hsite⟩ := hp
  have hlag : eofAt site = true → lagAt site < 2 := by
    cases site <;> simp [eofAt, lagAt]
  have hlag₃ : lagAt site ≤ 3 := by cases site <;> simp [lagAt]
  have hn : s.eofCtrl = true → lagAt site < 2 := by rwa [hs.eof]
  obtain ⟨k, j, hk, hj, hw, hv⟩ := exec_status hs.rest t
  rw [feedStep_eq (.read statusOffset) (by rw [hx]; rfl)]
  generalize hu : (exec s t (.read statusOffset)).1 = u at *
  generalize (exec s t (.read statusOffset)).2 = v at *
  have hempty := status_empty (quietly s.eofCtrl k s.pipeline)
  rw [← hv] at hempty
  have hsite' : AtSite T x u.pipeline sent site := by
    rw [hw.pipeline, hs.eof]
    exact atSite_quietly hs.paced (by omega) hlag hsite (j + k)
  by_cases hq : (quietly s.eofCtrl k s.pipeline).outFifo.contents = []
  · have hne : ¬ v &&& statusOutFifoEmpty = 0 := fun hc ↦ hempty.mp hc hq
    have hr : resume params x v = drained params x site := by
      simp only [resume, hx, if_neg hne]
    obtain ⟨h', hs', hpop⟩ := Sync.drained hs (by omega) hlag hw hq
    have hs'' := hs'.mono (show lagAt site - (j + k) ≤ 1 by omega) le_rfl
    rw [← hpop] at hs''
    rw [hr]
    cases site with
    | feeding =>
      rcases Nat.lt_or_eq_of_le hs.sent_le with hlt | hN
      · rw [drained, loopHead_of_lt sent job hs.bytes hlt]
        refine ⟨⟨h', sent, hs''.congr rfl rfl rfl, hlt⟩, rank_lt_of_operations ?_ rfl ?_⟩
        · simp [wordsLeft, hx]
        · simp [operationsLeft, hx]
      · rw [drained, loopHead_of_eq sent job hs.bytes hN]
        refine ⟨⟨h', sent, hs''.congr rfl rfl rfl, hN⟩, rank_lt_of_operations ?_ rfl ?_⟩
        · simp [wordsLeft, hx]
        · simp [operationsLeft, hx]
    | stalled =>
      refine ⟨⟨h', sent, hs''.congr rfl rfl rfl, hsite'⟩, rank_lt_of_operations ?_ rfl ?_⟩
      · simp [wordsLeft, hx, drained]
      · simp [operationsLeft, hx, drained]
    | waiting =>
      obtain ⟨hN, hend⟩ := hsite
      have heof : s.eofCtrl = true := hs.eof
      refine ⟨⟨h', sent, hs''.congr rfl rfl rfl, hN, ?_⟩, rank_lt_of_operations ?_ rfl ?_⟩
      · rcases hend with ⟨hg, hend⟩ | ⟨hg, hend⟩
        · refine ⟨?_, .inl hg⟩
          have hend' := hs.paced.ending_quietly (by omega) (hn heof) hend (j + k)
          rw [hw.pipeline, heof]
          exact hend'.mono (by omega)
        · have hc := complete_of_sample hs.paced (by omega) (hn heof) heof hend hw hq
          exact ⟨hc.1, .inr ⟨hg, hc.2⟩⟩
      · simp [wordsLeft, hx, drained]
      · simp [operationsLeft, hx, drained]
  · have hr : resume params x v = { x with pc := .drainPop site } := by
      simp only [resume, hx, if_pos (hempty.mpr hq)]
    obtain ⟨h', hs', hpop⟩ := hs.waits (by omega) hlag hw
    have hs'' := hs'.mono (show lagAt site - (j + k) ≤ 1 by omega) le_rfl
    rw [← hpop] at hs''
    obtain ⟨h₁, hp₁, -⟩ := hs.paced.quietly (e := s.eofCtrl) (by omega) hn k
    rw [hr]
    refine ⟨⟨h', sent, hs''.congr rfl rfl rfl, AtSite.congr hsite' rfl, ?_⟩,
      rank_lt_of_pops ?_ rfl ?_ ?_⟩
    · rw [hw.pipeline, quietly_add]
      exact hp₁.outFifo_quietly (by omega) (fun h₀ ↦ by have := hn h₀; omega) hq j
    · cases site <;> simp [wordsLeft, hx]
    · cases site <;> simp [operationsLeft, hx]
    · have hload := load_quietly hs.paced (by omega) hn (j + k)
      rw [← hw.pipeline] at hload
      simp only [popsLeft, hx]
      omega

theorem step_drainPop {site : Site} (hx : x.pc = .drainPop site)
    (hp : Phase f params T x s h sent) (t : Timing) :
    Advances f params T (x, s) (feedStep params (x, s) t) := by
  simp only [Phase, hx] at hp
  obtain ⟨hs, hsite, hne⟩ := hp
  have heof : eofAfter s controlRdOutFifo = eofAt site := hs.eof
  obtain ⟨h₁, h₂, h₃, h₄, h₅⟩ := exec_control hs.rest t controlRdOutFifo
  rw [heof] at h₄ h₅
  rw [hs.eof] at h₅
  rw [feedStep_eq (.write 0 controlRdOutFifo) (by rw [hx]; rfl)]
  generalize (exec s t (.write 0 controlRdOutFifo)).1 = u at *
  set i := pulse s controlRdOutFifo (eofAt site)
  set p₁ := quietly (eofAt site) 1 s.pipeline
  -- the cycle of the bus write, the pulse, and the cycles until the next access
  obtain ⟨h', hp₁, ha₁, ho₁, hf₁⟩ := hs.paced.quietly (e := eofAt site) (by omega) (by omega) 1
  have hne₁ := hs.paced.outFifo_quietly (e := eofAt site) (by omega) (by omega) hne 1
  have hsite₁ := atSite_quietly hs.paced (by omega) (by omega) hsite 1
  have hload₁ : load p₁ ≤ load s.pipeline := load_quietly hs.paced (by omega) (by omega) 1
  obtain ⟨rows, c⟩ := hp₁.coupled
  obtain ⟨hp₂, ha₂, ho₂⟩ := hp₁.clock_pop (i := i) (by omega) hne₁ rfl rfl rfl rfl (by omega)
  have hsite₂ : AtSite T x (p₁.clock i) sent site := atSite_clock c rfl rfl rfl hsite₁
  have hload₂ := load_clock (i := i) c rfl
  obtain ⟨h₃, hp₃, ha₃, ho₃, hf₃⟩ := hp₂.quietly (e := eofAt site) (by omega) (by omega) t.gap
  have hsite₃ := atSite_quietly hp₂ (by omega) (by omega) hsite₂ t.gap
  have hload₃ : load (quietly (eofAt site) t.gap (p₁.clock i)) ≤ load (p₁.clock i) :=
    load_quietly hp₂ (by omega) (by omega) t.gap
  have hdout := dout_quietly (p₁.clock i) (eofAt site) t.gap
  have hu : u.pipeline = quietly (eofAt site) t.gap (p₁.clock i) := h₅
  rw [← hu] at hp₃ hsite₃ hload₃ hdout
  have hr (v : Word) : resume params x v = { x with pc := .drainRead site } := by
    simp only [resume, hx]
  rw [hr]
  refine ⟨⟨h₃, sent, h.popped, ?_, AtSite.congr hsite₃ rfl, ?_⟩, rank_lt_of_pops ?_ rfl ?_ ?_⟩
  · refine ⟨h₁, hs.sent_le, hs.bytes, hs.offset, hs.captured, ?_, h₄, ?_,
      hp₃.mono (by omega) (by omega)⟩
    · rw [ha₃, ha₂, ha₁, hs.accepted]
    · intro h₀
      rw [hf₃ h₀, History.next, hf₁ h₀, hs.fresh h₀]
      exact h₀
  · rw [ho₃, ho₂, ho₁, hdout]
  · cases site <;> simp [wordsLeft, hx]
  · cases site <;> simp [operationsLeft, hx]
  · have hpos : 0 < p₁.outFifo.contents.length := List.length_pos_iff.mpr hne₁
    have hmin : min 1 p₁.outFifo.contents.length = 1 := by omega
    change load (p₁.clock i) + (if true then _ else 0) ≤ load p₁ + 0 at hload₂
    rw [if_pos rfl, hmin] at hload₂
    simp only [popsLeft, hx]
    omega

theorem step_drainRead {site : Site} (hx : x.pc = .drainRead site)
    (hp : Phase f params T x s h sent) (t : Timing) :
    Advances f params T (x, s) (feedStep params (x, s) t) := by
  simp only [Phase, hx] at hp
  obtain ⟨ws, hs, hsite, hpopped⟩ := hp
  obtain ⟨k, hw, hv⟩ := exec_dataOut hs.rest t
  rw [feedStep_eq (.read dataOutOffset) (by rw [hx]; rfl)]
  generalize (exec s t (.read dataOutOffset)).1 = u at *
  generalize (exec s t (.read dataOutOffset)).2 = v at *
  obtain ⟨h', hs', hpop⟩ := hs.waits (by omega) (by omega) hw
  have hsite' : AtSite T x u.pipeline sent site := by
    rw [hw.pipeline, hs.eof]
    exact atSite_quietly hs.paced (by omega) (by omega) hsite k
  have hload := load_quietly (e := s.eofCtrl) hs.paced (by omega) (by omega) k
  rw [← hw.pipeline] at hload
  have hr : resume params x v =
      { x with pc := .drainStatus site, captured := capture params x v } := by
    simp only [resume, hx]
  have hcaptured : capture params x v = stored params h'.popped := by
    rw [hpop, hpopped, capture_stored hs.captured, hv]
  have hlag : 1 - k ≤ lagAt site := by cases site <;> simp only [lagAt] <;> omega
  rw [hr, hcaptured]
  refine ⟨⟨h', sent, ?_, AtSite.congr hsite' rfl⟩, rank_lt_of_pops ?_ rfl ?_ ?_⟩
  · exact ⟨hs'.rest, hs'.sent_le, hs'.bytes, hs'.offset, rfl, hs'.accepted, hs'.eof, hs'.fresh,
      hs'.paced.mono hlag le_rfl⟩
  · cases site <;> simp [wordsLeft, hx]
  · cases site <;> simp [operationsLeft, hx]
  · simp only [popsLeft, hx]
    omega

theorem step_stallDelay (job : Job params T) (hx : x.pc = .stallDelay)
    (hp : Phase f params T x s h sent) (t : Timing) :
    Advances f params T (x, s) (feedStep params (x, s) t) := by
  simp only [Phase, hx] at hp
  obtain ⟨hs, hstuck, hlt⟩ := hp
  have hw := exec_delay hs.rest t
  rw [feedStep_eq .delay (by rw [hx]; rfl)]
  generalize (exec s t .delay).1 = u at *
  obtain ⟨h', hs', hpop⟩ := hs.waits (by omega) (by simp) hw
  have hs'' := hs'.mono (show 1 - t.gap ≤ 1 by omega) le_rfl
  rw [← hpop] at hs''
  have hstuck' : Stuck u.pipeline := by
    rw [hw.pipeline]
    exact hs.paced.stuck_quietly (by omega) (by omega) hstuck t.gap
  by_cases hg : stallMaxCycles < x.stallGuard + 1
  · have hr (v : Word) : resume params x v =
        { x with pc := .returned 0, stallGuard := x.stallGuard + 1 } := by
      simp only [resume, hx, if_pos hg]
    rw [hr]
    refine ⟨⟨h', sent, .inr ⟨rfl, hs''.congr rfl rfl rfl, hstuck', hlt⟩⟩, rank_lt_of_words ?_⟩
    simp only [wordsLeft, hx]
    omega
  · have hr (v : Word) : resume params x v =
        { x with pc := .pollInput, stallGuard := x.stallGuard + 1 } := by
      simp only [resume, hx, if_neg hg]
      exact loopHead_of_lt sent job hs.bytes hlt
    rw [hr]
    refine ⟨⟨h', sent, hs''.congr rfl rfl rfl, hlt⟩, rank_lt_of_tries ?_ ?_⟩
    · simp [wordsLeft, hx]
    · simp only
      omega

theorem step_signalEof (job : Job params T) (hx : x.pc = .signalEof)
    (hp : Phase f params T x s h sent) (t : Timing) :
    Advances f params T (x, s) (feedStep params (x, s) t) := by
  simp only [Phase, hx] at hp
  obtain ⟨hs, hN⟩ := hp
  have heof : eofAfter s controlInputEof = true := rfl
  obtain ⟨h₁, -, -, h₄, h₅⟩ := exec_control hs.rest t controlInputEof
  rw [heof] at h₄ h₅
  rw [feedStep_eq (.write 0 controlInputEof) (by rw [hx]; rfl)]
  generalize (exec s t (.write 0 controlInputEof)).1 = u at *
  set p₁ := quietly s.eofCtrl 1 s.pipeline
  obtain ⟨h', hp₁, ha₁, ho₁, -⟩ := hs.paced.quietly (e := s.eofCtrl) (by omega) (by omega) 1
  obtain ⟨rows, c⟩ := hp₁.coupled
  -- the control word carries no pulse, so the cycle is a quiet one with `eof` up
  have hcycle : p₁.cycle (pulse s controlInputEof true) = p₁.clock (quiet true) := by
    rw [Hardware.Pipeline.State.cycle, if_neg (by exact Bool.false_ne_true),
      clock_quiet _ _ rfl rfl rfl]
    rfl
  have hend := ending_start (i := quiet true) c rfl rfl rfl (hp₁.lag.exhausted (by omega))
  have hp₂ := hp₁.clock_quiet (e := true) (by omega) (by omega)
  obtain ⟨h₃, hp₃, ha₃, ho₃, -⟩ := hp₂.quietly (e := true) (by omega) (by omega) t.gap
  have hend₃ := (hp₂.ending_quietly (by omega) (by omega) hend t.gap).mono
    (show 2 - t.gap ≤ 2 by omega)
  rw [hcycle] at h₅
  rw [← h₅] at hp₃ hend₃
  have hr (v : Word) : resume params x v =
      { x with pc := .drainStatus .waiting, stallGuard := 0 } := by
    simp only [resume, hx, job.wait, if_true]
  rw [hr]
  refine ⟨⟨h₃, sent, ?_, hN, .inl ⟨rfl, hend₃⟩⟩, rank_lt_of_words ?_⟩
  · refine ⟨h₁, hs.sent_le, hs.bytes, hs.offset, ?_, ?_, h₄, by simp [eofAt], hp₃.mono ?_ (by omega)⟩
    · rw [ho₃]
      simpa [History.next, quiet, ho₁] using hs.captured
    · rw [ha₃]
      simpa [History.next, quiet, ha₁] using hs.accepted
    · simp only [lagAt]
      omega
  · simp only [wordsLeft, hx]
    omega

theorem step_waitStatus (hx : x.pc = .waitStatus) (hp : Phase f params T x s h sent)
    (t : Timing) : Advances f params T (x, s) (feedStep params (x, s) t) := by
  simp only [Phase, hx] at hp
  obtain ⟨hs, hN, hend, hguard⟩ := hp
  have heof := hs.eof
  obtain ⟨k, j, hk, hj, hw, hv⟩ := exec_status hs.rest t
  rw [feedStep_eq (.read statusOffset) (by rw [hx]; rfl)]
  generalize hu : (exec s t (.read statusOffset)).1 = u at *
  generalize (exec s t (.read statusOffset)).2 = v at *
  obtain ⟨h', hs', hpop⟩ := hs.waits (by omega) (by omega) hw
  have hs'' := hs'.mono (show 1 - (j + k) ≤ 1 by omega) le_rfl
  rw [← hpop] at hs''
  have hempty := status_empty (quietly s.eofCtrl k s.pipeline)
  have hdone := status_done (quietly s.eofCtrl k s.pipeline)
  rw [← hv] at hempty hdone
  have hend₁ := hs.paced.ending_quietly (by omega) (by omega) hend k
  rw [← heof] at hend₁
  by_cases hq : (quietly s.eofCtrl k s.pipeline).outFifo.contents = []
  · have hc := complete_of_sample hs.paced (by omega) (by omega) heof hend hw hq
    have hr : resume params x v = { x with pc := .returned 1 } := by
      have hboth : v &&& statusOutFifoEmpty ≠ 0 ∧ v &&& statusDone ≠ 0 :=
        ⟨fun h₀ ↦ hempty.mp h₀ hq, hdone.mpr (hend₁.2.2 (by omega))⟩
      simp only [resume, hx, if_pos hboth]
    rw [hr]
    refine ⟨⟨h', sent, .inl ⟨rfl, hs''.congr rfl rfl rfl, hN, hc⟩⟩, rank_lt_of_words ?_⟩
    simp [wordsLeft, hx]
  · have hguard₀ : x.stallGuard = 0 := by
      rcases hguard with hg | ⟨-, hnil⟩
      · exact hg
      · have hc := hs.paced.complete_quietly (by omega) (by omega) ⟨hend, hnil⟩ k
        rw [heof] at hq
        exact absurd hc.2 hq
    have hr : resume params x v = { x with pc := .waitDelay } := by
      have hnot : ¬ (v &&& statusOutFifoEmpty ≠ 0 ∧ v &&& statusDone ≠ 0) :=
        fun h₀ ↦ h₀.1 (hempty.mpr hq)
      simp only [resume, hx, if_neg hnot]
    rw [hr]
    refine ⟨⟨h', sent, hs''.congr rfl rfl rfl, hN, ?_, hguard₀⟩, rank_lt_of_operations ?_ rfl ?_⟩
    · rw [hw.pipeline, heof]
      exact (hs.paced.ending_quietly (by omega) (by omega) hend (j + k)).mono (by omega)
    · simp [wordsLeft, hx]
    · simp [operationsLeft, hx]

theorem step_waitDelay (hx : x.pc = .waitDelay) (hp : Phase f params T x s h sent)
    (t : Timing) : Advances f params T (x, s) (feedStep params (x, s) t) := by
  simp only [Phase, hx] at hp
  obtain ⟨hs, hN, hend, hguard⟩ := hp
  have hw := exec_delay hs.rest t
  rw [feedStep_eq .delay (by rw [hx]; rfl)]
  generalize (exec s t .delay).1 = u at *
  obtain ⟨h', hs', hpop⟩ := hs.waits (by omega) (by omega) hw
  have hs'' := hs'.mono (show 1 - t.gap ≤ lagAt .waiting by simp only [lagAt]; omega)
    (show 2 ≤ 3 by omega)
  rw [← hpop] at hs''
  have hr (v : Word) : resume params x v =
      { x with pc := .drainStatus .waiting, stallGuard := x.stallGuard + 1 } := by
    have hlt : x.stallGuard + 1 < stallMaxCycles := by
      rw [hguard]
      decide
    simp only [resume, hx, if_pos hlt]
  rw [hr]
  refine ⟨⟨h', sent, hs''.congr rfl rfl rfl, hN, .inr ⟨?_, ?_⟩⟩, rank_lt_of_tries ?_ ?_⟩
  · simp [hguard]
  · rw [hw.pipeline, hs.eof]
    exact (hs.paced.ending_quietly (by omega) (by omega) hend t.gap).mono (by omega)
  · simp [wordsLeft, hx]
  · simp only [hguard]
    decide

/-- Every bus access before the return keeps the invariant and leaves less to do. -/
theorem feedStep_advances (job : Job params T) (hy : Good f params T y)
    (hr : ∀ code, y.1.pc ≠ .returned code) (t : Timing) :
    Advances f params T y (feedStep params y t) := by
  obtain ⟨x, s⟩ := y
  obtain ⟨h, sent, hp⟩ := hy
  cases hx : x.pc with
  | pollInput => exact step_pollInput job hx hp t
  | writeData word => exact step_writeData hx hp t
  | writeValid => exact step_writeValid job hx hp t
  | drainStatus site => exact step_drainStatus job hx hp t
  | drainPop site => exact step_drainPop hx hp t
  | drainRead site => exact step_drainRead hx hp t
  | stallDelay => exact step_stallDelay job hx hp t
  | signalEof => exact step_signalEof job hx hp t
  | waitStatus => exact step_waitStatus hx hp t
  | waitDelay => exact step_waitDelay hx hp t
  | returned code => exact absurd hx (hr code)

end FpgaDatabase.Firmware.FeedStep
