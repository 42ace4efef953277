import FpgaDatabase.Hardware.Program

namespace FpgaDatabase.Hardware.Refinement

open Fifo Stages Pipeline Streaming Program Library.Execution Library.Quota

variable {g : Generics}

abbrev Traced (g : Generics) := State g × History g

def traced (s : Traced g) (i : Inputs g) : Traced g := (s.1.cycle i, s.2.next s.1 i)

def programmed (p : State g) (loads : List (Inputs g)) : Traced g :=
  (loads.foldl State.cycle p.reset, {})

/-- A data cycle. The source neither resets nor reloads, and the output queue is
not written while it is full. -/
structure DataCycle (s : Traced g) (i : Inputs g) : Prop where
  rst : i.rst = false
  loadInst : i.loadInst = false
  room : s.1.outFifoWrEn i = true → s.1.outFifo.full = false

/-- A data cycle in which `eof` is low and no row is offered to a full queue. -/
structure StreamCycle (s : Traced g) (i : Inputs g) : Prop extends DataCycle s i where
  eof : i.eof = false
  dinValid : i.dinValid = true → s.1.inFifo.full = false

structure EofCycle (s : Traced g) (i : Inputs g) : Prop extends DataCycle s i where
  closed : (s.2.eofSeen || i.eof) = true → i.dinValid = false

variable {p : State g} {loads data : List (Inputs g)} {s : Traced g} {prog : List Instruction}

theorem DataCycle.lt {i : Inputs g} (hd : DataCycle s i) (hw : s.1.outFifoWrEn i = true) :
    s.1.outFifo.contents.length < g.fifoDepth := by
  have hfull := hd.room hw
  have hle := s.1.outFifo.contents_le
  have hne : s.1.outFifo.contents.length ≠ g.fifoDepth := by
    intro he
    rw [(Queue.full_iff _).mpr he] at hfull
    cases hfull
  omega

theorem programmed_coupled (p : State g) (hl : ∀ i ∈ loads, LoadCycle i)
    (hp : instructions loads = prog) :
    Coupled (loaded p.fetcher prog) [] (programmed p loads).1 (programmed p loads).2 := by
  obtain ⟨idle, hf⟩ := load_run (idle_reset p) loads hl
  have hf' : (programmed p loads).1.fetcher = loaded p.fetcher prog := by
    rw [loaded, ← hp]
    exact hf
  rw [← hf']
  exact .start idle

theorem run_coupled {ok : Traced g → Inputs g → Prop} {f : Fetcher g}
    (hok : ∀ s i, ok s i → Admissible f s.1 s.2 i) {s t : Traced g}
    (hr : Run traced ok s data t) (hs : ∃ rows, Coupled f rows s.1 s.2) :
    ∃ rows, Coupled f rows t.1 t.2 := by
  refine hr.invariant (I := fun t ↦ ∃ rows, Coupled f rows t.1 t.2) ?_ hs
  rintro s i ⟨rows, c⟩ hi
  have a := hok s i hi
  have hc : (traced s i).1 = s.1.clock i := by simp [traced, State.cycle, a.rst]
  exact ⟨_, by rw [hc]; exact c.clock a⟩

theorem stream_coupled (hl : ∀ i ∈ loads, LoadCycle i) (hp : instructions loads = prog)
    (hr : Run traced StreamCycle (programmed p loads) data s) :
    ∃ rows, Coupled (loaded p.fetcher prog) rows s.1 s.2 := by
  have hseen : ∀ (s : Traced g) i, s.2.eofSeen = false → StreamCycle s i →
      (traced s i).2.eofSeen = false := by
    intro s i hs hi
    simp [traced, History.next, hs, hi.eof]
  have hrun : Run traced (fun s i ↦ Admissible (loaded p.fetcher prog) s.1 s.2 i)
      (programmed p loads) data s := by
    refine hr.mono hseen ?_ rfl
    intro s i hs hi
    refine ⟨hi.rst, hi.loadInst, hi.toDataCycle.lt, by simp [hs, hi.eof], ?_⟩
    rintro ⟨he, -⟩
    rw [hi.eof] at he
    cases he
  exact run_coupled (fun _ _ h ↦ h) hrun ⟨[], programmed_coupled p hl hp⟩

def inFlight (prog : List Instruction) (s : Traced g) : List (Row g) :=
  limited s.1 ++ upTo (remaining (limitOf prog) (written s.1 s.2 ++ limited s.1).length)
    ((tested s.1 ++ fetched s.1).filter (selects prog))

def Exhausted (p : State g) : Prop := p.inFifo.contents = [] ∨ p.limitHit = true

structure Drained (p : State g) : Prop where
  rdEnPipe1 : p.rdEnPipe1 = false
  rdEnPipe2 : p.rdEnPipe2 = false
  validOut : p.limit.validOut = false

theorem written_of_drained {f : Fetcher g} {rows : List (Row g)} (c : Coupled f rows s.1 s.2)
    (he : Exhausted s.1) (hd : Drained s.1) : written s.1 s.2 = answer f s.2.accepted := by
  have hw : written s.1 s.2 = answer f rows := by
    simpa [limited, hd.validOut] using c.passed
  have hr : s.2.read = rows := by
    simpa [tested, fetched, hd.rdEnPipe1, hd.rdEnPipe2] using c.staged
  rw [hw, ← c.queued, hr]
  rcases he with hq | hh
  · rw [hq, List.append_nil]
  · rw [c.answer_of_hit hh]

theorem idle_step {f : Fetcher g} {rows : List (Row g)} {i : Inputs g}
    (c : Coupled f rows s.1 s.2) (hi : StreamCycle s i) (hv : i.dinValid = false)
    (he : Exhausted s.1) :
    Exhausted (s.1.clock i) ∧ (s.1.clock i).rdEnPipe1 = false ∧
      (s.1.clock i).rdEnPipe2 = s.1.rdEnPipe1 ∧
      (s.1.rdEnPipe2 = false → (s.1.clock i).limit.validOut = false) := by
  refine ⟨?_, ?_, rfl, ?_⟩
  · rcases he with hq | hh
    · exact .inl (Coupled.inFifo_nil_clock hq hv)
    · exact .inr (c.limitHit_mono hi.loadInst hh)
  · rcases he with hq | hh
    · exact Coupled.rdEnPipe1_clock_nil hq
    · change s.1.fifoRdEn i = false
      simp [State.fifoRdEn, hh]
  · intro h₂
    rw [c.validOut_clock, c.whereValidAnd_eq, h₂]
    rfl

def IdleCycle (s : Traced g) (i : Inputs g) : Prop := StreamCycle s i ∧ i.dinValid = false

def Settled (k : ℕ) (p : State g) : Prop :=
  (1 ≤ k → p.rdEnPipe1 = false) ∧ (2 ≤ k → p.rdEnPipe2 = false) ∧
    (3 ≤ k → p.limit.validOut = false)

theorem idle_run {f : Fetcher g} {t : Traced g} {idle : List (Inputs g)} (k : ℕ)
    (hr : Run traced IdleCycle s idle t) (hc : ∃ rows, Coupled f rows s.1 s.2)
    (he : Exhausted s.1) (hs : Settled k s.1) :
    Exhausted t.1 ∧ Settled (k + idle.length) t.1 ∧ t.2.accepted = s.2.accepted := by
  induction hr generalizing k with
  | nil => exact ⟨he, hs, rfl⟩
  | @cons s t i is hi hr ih =>
    obtain ⟨rows, c⟩ := hc
    obtain ⟨hstream, hv⟩ := hi
    have hclock : s.1.cycle i = s.1.clock i := by simp [State.cycle, hstream.rst]
    obtain ⟨he', h₁, h₂, h₃⟩ := idle_step c hstream hv he
    have a : Admissible f s.1 s.2 i := by
      refine ⟨hstream.rst, hstream.loadInst, hstream.toDataCycle.lt, fun _ ↦ hv, ?_⟩
      rintro ⟨hf, -⟩
      rw [hstream.eof] at hf
      cases hf
    have hc' : Coupled f (rows ++ tested s.1) (traced s i).1 (traced s i).2 := by
      simp only [traced, hclock]
      exact c.clock a
    have hs' : Settled (k + 1) (traced s i).1 := by
      simp only [traced, hclock]
      refine ⟨fun _ ↦ h₁, fun hk ↦ ?_, fun hk ↦ ?_⟩
      · rw [h₂]
        exact hs.1 (by omega)
      · exact h₃ (hs.2.1 (by omega))
    obtain ⟨r₁, r₂, r₃⟩ := ih (k + 1) ⟨_, hc'⟩ (by simpa only [traced, hclock] using he') hs'
    refine ⟨r₁, ?_, ?_⟩
    · rw [List.length_cons]
      convert r₂ using 1
      omega
    · rw [r₃]
      simp [traced, History.next, hv]

/-- Streaming refinement of the pipeline. In every state that the data cycles can
reach, the output so far and the rows in flight are the answer for the rows read,
the rows read and the rows queued are the rows accepted, and once the valid bits
have run empty the output is the answer for everything accepted; three cycles
without a new row are enough for that. -/
theorem pipeline_streams_answer (g : Generics) (prog : List Instruction) (hw : WellFormed g prog)
    (p : State g) (loads data : List (Inputs g)) (hl : ∀ i ∈ loads, LoadCycle i)
    (hp : instructions loads = prog) (s : Traced g)
    (hr : Run traced StreamCycle (programmed p loads) data s) :
    written s.1 s.2 ++ inFlight prog s = queryAnswer prog s.2.read ∧
    s.2.read ++ s.1.inFifo.contents = s.2.accepted ∧
    (Exhausted s.1 → Drained s.1 → written s.1 s.2 = queryAnswer prog s.2.accepted) ∧
    (∀ idle t, Run traced IdleCycle s idle t → 3 ≤ idle.length → Exhausted s.1 →
      Exhausted t.1 ∧ Drained t.1 ∧ t.2.accepted = s.2.accepted) := by
  obtain ⟨rows, c⟩ := stream_coupled hl hp hr
  have hanswer := answer_loaded p.fetcher hw
  refine ⟨?_, c.queued, ?_, ?_⟩
  · have hpassed := c.passed
    rw [hanswer] at hpassed
    rw [inFlight, ← List.append_assoc, hpassed, c.staged, List.append_assoc, queryAnswer_append]
  · intro he hd
    rw [← hanswer]
    exact written_of_drained c he hd
  · intro idle t hi hlen he
    have hs : Settled 0 s.1 := ⟨fun h ↦ by omega, fun h ↦ by omega, fun h ↦ by omega⟩
    obtain ⟨he', hs', ha⟩ := idle_run 0 hi ⟨rows, c⟩ he hs
    exact ⟨he', ⟨hs'.1 (by omega), hs'.2.1 (by omega), hs'.2.2 (by omega)⟩, ha⟩

/-- `eof` is up over an empty input queue while the row read in the preceding cycle
belongs to the answer. -/
def TokenOvertakes (prog : List Instruction) (s : Traced g) (i : Inputs g) : Prop :=
  i.eof = true ∧ s.1.inFifo.contents = [] ∧ s.1.rdEnPipe1 = true ∧
    effectiveAnswer prog s.2.read ≠ effectiveAnswer prog s.2.read.dropLast

/-- Unless the end-of-data token catches up with a row of the answer, completion is
announced only when every row of the answer has been written and counted. -/
theorem done_after_answer (g : Generics) (prog : List Instruction) (p : State g)
    (loads data : List (Inputs g)) (hl : ∀ i ∈ loads, LoadCycle i)
    (hp : instructions loads = prog) (s : Traced g)
    (hr : Run traced (fun s i ↦ EofCycle s i ∧ ¬ TokenOvertakes prog s i) (programmed p loads) data s)
    (hd : s.1.stage3Done = true) :
    written s.1 s.2 = effectiveAnswer prog s.2.accepted ∧
      s.1.count = BitVec.ofNat 32 (effectiveAnswer prog s.2.accepted).length := by
  have hanswer := answer_effective p.fetcher prog
  have hok : ∀ (s : Traced g) i, EofCycle s i ∧ ¬ TokenOvertakes prog s i →
      Admissible (loaded p.fetcher prog) s.1 s.2 i := by
    rintro s i ⟨hi, ho⟩
    refine ⟨hi.rst, hi.loadInst, hi.toDataCycle.lt, hi.closed, ?_⟩
    rintro ⟨h₁, h₂, h₃, h₄⟩
    rw [hanswer, hanswer] at h₄
    exact ho ⟨h₁, h₂, h₃, h₄⟩
  obtain ⟨rows, c⟩ := run_coupled hok hr ⟨[], programmed_coupled p hl hp⟩
  have hwritten := c.written_of_done hd
  rw [hanswer] at hwritten
  exact ⟨hwritten, by rw [← hwritten]; exact c.counted⟩

section Examples

def smallest : Generics := ⟨1, 1, 1, by decide⟩

def push : Inputs smallest := { din := 7, dinValid := true }
def pause : Inputs smallest := {}
def eofHigh : Inputs smallest := { eof := true }

def sevenTwice : List Instruction := [0x10000038, 0x20000002]

def loadSevenTwice : List (Inputs smallest) :=
  sevenTwice.map (fun inst ↦ { instruction := inst, loadInst := true })

theorem wellFormed_sevenTwice : WellFormed smallest sevenTwice where
  wheres_le := by decide
  column_lt := by
    rw [show wheres sevenTwice = [0x10000038] by decide, List.forall_mem_singleton]
    decide
  limit_pos := by
    intro n hn
    rw [show limitOf sevenTwice = some 2 by decide] at hn
    cases hn
    decide

theorem loadCycle_sevenTwice : ∀ i ∈ loadSevenTwice, LoadCycle i := by
  intro i hi
  obtain ⟨inst, -, rfl⟩ := List.mem_map.mp hi
  exact ⟨rfl, rfl, rfl⟩

theorem streams_seven : ∃ s : Traced smallest,
    Run traced StreamCycle (programmed (.powerUp smallest) loadSevenTwice)
      [push, pause, pause, pause, pause] s ∧
    s.2.accepted = [7] ∧ written s.1 s.2 = queryAnswer sevenTwice s.2.accepted := by
  have hrun : Run traced StreamCycle (programmed (.powerUp smallest) loadSevenTwice)
      [push, pause, pause, pause, pause] _ :=
    .cons ⟨⟨rfl, rfl, by decide⟩, rfl, by decide⟩ <| .cons ⟨⟨rfl, rfl, by decide⟩, rfl, by decide⟩ <|
    .cons ⟨⟨rfl, rfl, by decide⟩, rfl, by decide⟩ <| .cons ⟨⟨rfl, rfl, by decide⟩, rfl, by decide⟩ <|
    .cons ⟨⟨rfl, rfl, by decide⟩, rfl, by decide⟩ <| .nil _
  refine ⟨_, hrun, by decide, ?_⟩
  have h := pipeline_streams_answer smallest sevenTwice wellFormed_sevenTwice (.powerUp smallest)
    loadSevenTwice _ loadCycle_sevenTwice rfl _ hrun
  exact h.2.2.1 (.inl (by decide)) ⟨by decide, by decide, by decide⟩

theorem done_after_seven : ∃ s : Traced smallest,
    Run traced (fun s i ↦ EofCycle s i ∧ ¬ TokenOvertakes sevenTwice s i)
      (programmed (.powerUp smallest) loadSevenTwice)
      [push, pause, pause, eofHigh, eofHigh, eofHigh] s ∧
    s.1.stage3Done = true ∧ s.2.accepted = [7] ∧
    written s.1 s.2 = effectiveAnswer sevenTwice s.2.accepted ∧
    s.1.count = BitVec.ofNat 32 (effectiveAnswer sevenTwice s.2.accepted).length := by
  have quiet {s : Traced smallest} {i : Inputs smallest} (h : i.eof = false ∨ s.1.rdEnPipe1 = false) :
      ¬ TokenOvertakes sevenTwice s i := by
    rintro ⟨h₁, -, h₂, -⟩
    simp [h₁, h₂] at h
  have hrun : Run traced (fun s i ↦ EofCycle s i ∧ ¬ TokenOvertakes sevenTwice s i)
      (programmed (.powerUp smallest) loadSevenTwice)
      [push, pause, pause, eofHigh, eofHigh, eofHigh] _ :=
    .cons ⟨⟨⟨rfl, rfl, by decide⟩, by decide⟩, quiet (.inl rfl)⟩ <|
    .cons ⟨⟨⟨rfl, rfl, by decide⟩, by decide⟩, quiet (.inl rfl)⟩ <|
    .cons ⟨⟨⟨rfl, rfl, by decide⟩, by decide⟩, quiet (.inl rfl)⟩ <|
    .cons ⟨⟨⟨rfl, rfl, by decide⟩, by decide⟩, quiet (.inr (by decide))⟩ <|
    .cons ⟨⟨⟨rfl, rfl, by decide⟩, by decide⟩, quiet (.inr (by decide))⟩ <|
    .cons ⟨⟨⟨rfl, rfl, by decide⟩, by decide⟩, quiet (.inr (by decide))⟩ <| .nil _
  have hdone : (traced (traced (traced (traced (traced (traced
      (programmed (.powerUp smallest) loadSevenTwice) push) pause) pause) eofHigh) eofHigh)
      eofHigh).1.stage3Done = true := by decide
  exact ⟨_, hrun, hdone, by decide, done_after_answer smallest sevenTwice (.powerUp smallest)
    loadSevenTwice _ loadCycle_sevenTwice rfl _ hrun hdone⟩

/-- A single row is pushed and `eof` rises in the next cycle, while the row is still
queued. The pipeline reports completion and the row is neither written nor counted,
although the empty program selects it. -/
theorem done_token_drops_row :
    ∃ s : Traced smallest,
      Run traced EofCycle (programmed (.powerUp smallest) [])
        [push, eofHigh, eofHigh, eofHigh, eofHigh] s ∧
      s.1.stage3Done = true ∧ effectiveAnswer [] s.2.accepted = [7] ∧
      written s.1 s.2 = [] ∧ s.1.count = 0 := by
  refine ⟨_, .cons ⟨⟨rfl, rfl, by decide⟩, by decide⟩ <| .cons ⟨⟨rfl, rfl, by decide⟩, by decide⟩ <|
    .cons ⟨⟨rfl, rfl, by decide⟩, by decide⟩ <| .cons ⟨⟨rfl, rfl, by decide⟩, by decide⟩ <|
    .cons ⟨⟨rfl, rfl, by decide⟩, by decide⟩ <| .nil _, ?_⟩
  decide

end Examples

end FpgaDatabase.Hardware.Refinement
