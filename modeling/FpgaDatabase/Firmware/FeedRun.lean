import FpgaDatabase.Firmware.FeedStep

namespace FpgaDatabase.Firmware.FeedRun

open Hardware.Fifo Hardware.Stages Hardware.Pipeline Hardware.Streaming Hardware.Program
open Hardware.Pacing Hardware.UserHw Driver Pace FeedInvariant FeedStep
open Library.Execution Library.Quota

variable {f : Fetcher generics} {params : Params} {T : List Word}
  {s : Hardware.UserHw.State} {timing : ℕ → Timing} {n : ℕ}

/-- The peripheral before the first word of a query. -/
structure Ready (f : Fetcher generics) (s : Hardware.UserHw.State) : Prop where
  rest : AtRest s
  idle : Idle s.pipeline
  fetcher : s.pipeline.fetcher = f
  eof : s.eofCtrl = false

theorem idle_quietly {p : Pipe} (hp : Idle p) (k : ℕ) :
    Idle (quietly false k p) ∧ (quietly false k p).fetcher = p.fetcher := by
  induction k with
  | zero => exact ⟨hp, rfl⟩
  | succ k ih =>
    rw [quietly_succ]
    exact ⟨idle_clock ih.1 ⟨rfl, rfl, rfl⟩, ih.2⟩

theorem ready_clear (hs : AtRest s) (t : Timing) :
    Ready s.pipeline.fetcher.reset (exec s t (.write controlOffset controlRst)).1 := by
  obtain ⟨h₁, -, -, h₄, h₅⟩ := exec_control hs t controlRst
  have hc : (quietly s.eofCtrl 1 s.pipeline).cycle (pulse s controlRst false) =
      (quietly s.eofCtrl 1 s.pipeline).reset := rfl
  obtain ⟨hidle, hfetch⟩ := idle_quietly (idle_reset (quietly s.eofCtrl 1 s.pipeline)) t.gap
  rw [show eofAfter s controlRst = false from rfl, hc] at h₅
  refine ⟨h₁, ?_, ?_, h₄⟩
  · change Idle (exec s t (.write 0 controlRst)).1.pipeline
    rw [h₅]
    exact hidle
  · change (exec s t (.write 0 controlRst)).1.pipeline.fetcher = _
    rw [h₅, hfetch]
    rfl

theorem ready_send (hs : Ready f s) (inst : Instruction) (t t' : Timing) :
    Ready (f.load inst) (exec (exec s t (.write instructionOffset inst)).1 t'
      (.write controlOffset controlLoadInst)).1 := by
  obtain ⟨h₁, -, h₃, h₄, h₅⟩ := exec_write hs.rest t instructionOffset inst (by decide)
  rw [if_pos (by decide)] at h₃
  rw [hs.eof] at h₄ h₅
  generalize (exec s t (.write instructionOffset inst)).1 = u at *
  obtain ⟨hidle, hfetch⟩ := idle_quietly hs.idle (t.gap + 2)
  rw [← h₅] at hidle hfetch
  obtain ⟨g₁, -, -, g₄, g₅⟩ := exec_control h₁ t' controlLoadInst
  have heof : eofAfter u controlLoadInst = false := h₄
  rw [heof] at g₄ g₅
  rw [h₄] at g₅
  obtain ⟨hidle₁, hfetch₁⟩ := idle_quietly hidle 1
  have hidle₂ : Idle ((quietly false 1 u.pipeline).cycle (pulse u controlLoadInst false)) :=
    idle_clock hidle₁ ⟨rfl, rfl, rfl⟩
  have hfetch₂ : ((quietly false 1 u.pipeline).cycle (pulse u controlLoadInst false)).fetcher =
      (quietly false 1 u.pipeline).fetcher.load u.instReg := rfl
  obtain ⟨hidle₃, hfetch₃⟩ := idle_quietly hidle₂ t'.gap
  rw [← g₅] at hidle₃ hfetch₃
  refine ⟨g₁, hidle₃, ?_, g₄⟩
  exact hfetch₃.trans (by rw [hfetch₂, hfetch₁, hfetch, hs.fetcher, h₃])

theorem ready_sendAll (hs : Ready f s) (prog : List Instruction) (timing : ℕ → Timing) :
    Ready (prog.foldl (fun f inst ↦ f.load inst) f)
      (execAll s timing (prog.flatMap hwSendInstruction)).1 := by
  induction prog generalizing f s timing with
  | nil => exact hs
  | cons inst prog ih => exact ih (ready_send hs inst (timing 0) (timing 1)) _

/-- After `hw_clear` and the instructions of a query the peripheral holds the query
and nothing else. -/
theorem ready_setup (hs : AtRest s) (prog : List Instruction) (timing : ℕ → Timing) :
    Ready (loaded s.pipeline.fetcher prog) (execAll s timing (setup prog)).1 :=
  ready_sendAll (ready_clear hs (timing 0)) prog _

theorem Ready.good (hs : Ready f s) (job : Job params T) :
    Good f params T (feedStart params, s) := by
  have hidle := hs.idle
  have hpaced : Paced f 1 2 s.pipeline {} := by
    refine ⟨⟨[], hs.fetcher ▸ .start hidle⟩, ?_, .inr ?_, ?_⟩
    · intro q hq
      exact (Coupled.quota_le hq).1
    · simp [hidle.inFifo, hidle.rdEnPipe1, hidle.rdEnPipe2]
    · simp [load, hidle.inFifo, hidle.outFifo, hidle.rdEnPipe1, hidle.rdEnPipe2, hidle.validOut]
  have hsync (x : Feed) (h₁ : x.bytesSent = 0) (h₂ : x.memoryOffset = 0) (h₃ : x.captured = []) :
      Sync f params T x s {} 0 0 [] false 1 2 :=
    ⟨hs.rest, Nat.zero_le _, h₁, h₂, by simp [h₃, stored], rfl, hs.eof, fun _ ↦ rfl, hpaced⟩
  rcases Nat.eq_zero_or_pos T.length with hN | hN
  · have hstart : feedStart params = ⟨.signalEof, 0, 0, 0, []⟩ :=
      loopHead_of_eq 0 job rfl hN.symm
    rw [hstart]
    exact ⟨{}, 0, hsync _ rfl rfl rfl, hN.symm⟩
  · have hstart : feedStart params = ⟨.pollInput, 0, 0, 0, []⟩ :=
      loopHead_of_lt 0 job rfl hN
    rw [hstart]
    exact ⟨{}, 0, hsync _ rfl rfl rfl, hN⟩

theorem feedStep_returned {y : System} {code : ℤ} (hy : y.1.pc = .returned code) (t : Timing) :
    feedStep params y t = y := by
  simp [feedStep, hy, busOp]

/-- The run lemma of the feed loop. -/
theorem feed_good (hs : Ready f s) (job : Job params T) (timing : ℕ → Timing) (n : ℕ) :
    Good f params T (feedSourceToHardware params timing s n) := by
  induction n with
  | zero => exact hs.good job
  | succ n ih =>
    by_cases hr : ∃ code, (feedSourceToHardware params timing s n).1.pc = .returned code
    · obtain ⟨code, hcode⟩ := hr
      rw [feedSourceToHardware, feedStep_returned hcode]
      exact ih
    · exact (feedStep_advances job ih (fun code hcode ↦ hr ⟨code, hcode⟩) (timing n)).1

def Returns (params : Params) (timing : ℕ → Timing) (s : Hardware.UserHw.State) (code : ℤ) :
    Prop :=
  ∃ n, (feedSourceToHardware params timing s n).1.pc = .returned code

theorem feed_returns (hs : Ready f s) (job : Job params T) (timing : ℕ → Timing) :
    ∃ code, Returns params timing s code := by
  have hfall (n : ℕ) (hn : ¬ ∃ code,
      (feedSourceToHardware params timing s n).1.pc = .returned code) :=
    (feedStep_advances job (feed_good hs job timing n) (fun code hcode ↦ hn ⟨code, hcode⟩)
      (timing n)).2
  obtain ⟨n, code, hcode⟩ := exists_of_rank (rank T) (feedSourceToHardware params timing s)
    (fun y ↦ ∃ code, y.1.pc = .returned code) hfall
  exact ⟨code, n, hcode⟩

section Rows

variable {R : List (Row generics)}

/-- The words that follow the row that reaches the limit fit in the input queue. -/
def Fits (f : Fetcher generics) (R : List (Row generics)) : Prop :=
  ∀ k ≤ R.length, ¬ Room (quota f) ((R.take k).filter (rowMatches f)).length →
    R.length ≤ k + 128

theorem fits_of_accepted {p : Pipe} {h : Hist} {m : ℕ} (hp : Paced f n m p h)
    (ha : h.accepted = R) : Fits f R := by
  obtain ⟨rows, c⟩ := hp.coupled
  intro k hk hfull
  have hq : h.read ++ p.inFifo.contents = R := c.queued.trans ha
  have hdepth : p.inFifo.contents.length ≤ 128 := p.inFifo.contents_le
  have hlen : h.read.length + p.inFifo.contents.length = R.length := by
    rw [← hq, List.length_append]
  by_contra hlt
  apply hfull
  have hpre : R.take k <+: h.read.dropLast := by
    have hT : R.take k = h.read.dropLast.take k := by
      rw [← hq, List.take_append_of_le_length (by omega), List.dropLast_eq_take, List.take_take,
        Nat.min_eq_left (by omega)]
    rw [hT]
    exact List.take_prefix _ _
  have hle := (hpre.filter (rowMatches f)).length_le
  intro q hqq
  exact hle.trans_lt (hp.exact q hqq)

theorem not_fits_of_stuck {p : Pipe} {h : Hist} {m sent : ℕ} (hp : Paced f n m p h)
    (ha : h.accepted = R.take sent) (hstuck : Stuck p) (hlt : sent < R.length) : ¬ Fits f R := by
  obtain ⟨rows, c⟩ := hp.coupled
  have hq : h.read ++ p.inFifo.contents = R.take sent := c.queued.trans ha
  have hlen : h.read.length + 128 = sent := by
    have := congrArg List.length hq
    rw [List.length_append, List.length_take, hstuck.2] at this
    omega
  intro hfits
  have hread : R.take h.read.length = h.read := by
    have : (R.take sent).take h.read.length = h.read := by rw [← hq, List.take_left]
    rwa [List.take_take, Nat.min_eq_left (by omega)] at this
  have hfull : ¬ Room (quota f) ((R.take h.read.length).filter (rowMatches f)).length := by
    rw [hread, c.staged, List.append_assoc, List.filter_append, List.length_append]
    intro hroom
    apply c.hit.mp hstuck.1
    intro q hqq
    have := hroom q hqq
    omega
  have := hfits h.read.length (by omega) hfull
  omega

end Rows

/-- How `feed_source_to_hardware` ends: with 1 and the answer captured when the table
fits, with 0 when it does not. -/
theorem returns_cases (hs : Ready f s) (job : Job params T) {code : ℤ}
    (hn : (feedSourceToHardware params timing s n).1.pc = .returned code) :
    (code = 1 ∧ Fits f T ∧
      (feedSourceToHardware params timing s n).1.captured = stored params (answer f T)) ∨
    (code = 0 ∧ ¬ Fits f T) := by
  obtain ⟨h, sent, hp⟩ := feed_good hs job timing n
  simp only [Phase, hn] at hp
  rcases hp with ⟨hc, hsync, hN, hcomplete⟩ | ⟨hc, hsync, hstuck, hlt⟩
  · have ha : h.accepted = T := by rw [hsync.accepted, hN, List.take_length]
    refine .inl ⟨hc, fits_of_accepted hsync.paced ha, ?_⟩
    obtain ⟨rows, c⟩ := hsync.paced.coupled
    have hw := c.written_of_done (hcomplete.1.2.2 (by omega))
    rw [written, hcomplete.2, List.append_nil, ha] at hw
    rw [hsync.captured, hw]
  · exact .inr ⟨hc, not_fits_of_stuck hsync.paced hsync.accepted hstuck hlt⟩

end FpgaDatabase.Firmware.FeedRun
