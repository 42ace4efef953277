import FpgaDatabase.Firmware.FeedRun
import FpgaDatabase.Firmware.Emitted
import Mathlib.Data.Fin.VecNotation

namespace FpgaDatabase.Firmware.FeedOutcome

open Hardware.Stages Hardware.Pipeline Hardware.Streaming Hardware.Program Hardware.UserHw
open Library.Quota Driver FeedInvariant FeedRun Table Request Compile Emitted

variable {prog : List Instruction} {s : Hardware.UserHw.State} {timing timing' : ℕ → Timing}

def cellTest (inst : Instruction) (r : Cells) : Bool :=
  opResult (whereOp inst) (whereValue inst) (r.bytes.getD (whereColumn inst) 0).toBitVec

def matching (prog : List Instruction) (r : Cells) : Bool :=
  (wheres prog).all (fun inst ↦ cellTest inst r)

def queryRows (prog : List Instruction) (rows : List Cells) : List Cells :=
  upTo (limitOf prog) (rows.filter (matching prog))

theorem whereTest_word (inst : Instruction) (r : Cells) :
    whereTest (g := generics) inst r.word = cellTest inst r := by
  have hlane : column (g := generics) r.word (whereColumn inst) =
      (r.bytes.getD (whereColumn inst) 0).toBitVec := r.lane_word _
  rw [whereTest, hlane, cellTest]

theorem rowMatches_word (f : Fetcher generics) (hw : (wheres prog).length ≤ 4) (r : Cells) :
    rowMatches (loaded f prog) r.word = matching prog r := by
  rw [rowMatches_of_holds (holds_loaded f prog) hw, selects, matching]
  simp only [whereTest_word]

theorem filter_words (f : Fetcher generics) (hw : (wheres prog).length ≤ 4) (rows : List Cells) :
    (rows.map Cells.word).filter (rowMatches (loaded f prog)) =
      (rows.filter (matching prog)).map Cells.word := by
  rw [List.filter_map]
  congr 1
  refine List.filter_congr fun r _ ↦ ?_
  exact rowMatches_word f hw r

def feedParams (rows : List Cells) (captureLimit : ℤ) : Params :=
  ⟨rows.flatMap Cells.bytes, 4 * rows.length, true, captureLimit⟩

theorem job_rows (rows : List Cells) (hrows : 4 * rows.length < 2 ^ 32) (captureLimit : ℤ) :
    Job (feedParams rows captureLimit) (rows.map Cells.word) := by
  refine ⟨?_, by simp [feedParams], by simpa using hrows, rfl⟩
  rw [feedParams, List.flatMap_map]
  simp only [Cells.wordBytes_word]

/-- The rows behind the one that reaches the limit fit in the input queue. A limit
register of zero counts as one. -/
def LimitFits (prog : List Instruction) (rows : List Cells) : Prop :=
  ∀ limit, limitOf prog = some limit → ∀ k ≤ rows.length,
    max 1 limit ≤ ((rows.take k).filter (matching prog)).length → rows.length ≤ k + 128

theorem fits_iff (f : Fetcher generics) (hw : (wheres prog).length ≤ 4) (rows : List Cells) :
    Fits (loaded f prog) (rows.map Cells.word) ↔ LimitFits prog rows := by
  have hcount (k : ℕ) : (((rows.map Cells.word).take k).filter (rowMatches (loaded f prog))).length =
      ((rows.take k).filter (matching prog)).length := by
    rw [← List.map_take, filter_words f hw, List.length_map]
  have hquota := quota_of_holds (holds_loaded f prog)
  constructor
  · intro h limit hlimit k hk hfull
    have hfull' : ¬ Room (quota (loaded f prog))
        (((rows.map Cells.word).take k).filter (rowMatches (loaded f prog))).length := by
      rw [hcount, hquota, hlimit, Option.map_some, room_some, not_lt]
      exact hfull
    simpa using h k (by simpa using hk) hfull'
  · intro h k hk hfull
    rw [hcount, hquota] at hfull
    cases hlimit : limitOf prog with
    | none => simp [hlimit] at hfull
    | some limit =>
      rw [hlimit, Option.map_some, room_some, not_lt] at hfull
      simpa using h limit hlimit k (by simpa using hk) hfull

def feedRun (params : Params) (prog : List Instruction) (timing timing' : ℕ → Timing)
    (s : Hardware.UserHw.State) (n : ℕ) : Feed × Hardware.UserHw.State :=
  feedSourceToHardware params timing' (execAll s timing (setup prog)).1 n

/-- All words are sent, `eof` is signalled, and the last status showed an empty
output queue and completion. -/
structure Completed (params : Params) (y : Feed × Hardware.UserHw.State) : Prop where
  returned : y.1.pc = .returned 1
  sent : y.1.bytesSent = params.totalBytes
  eof : y.2.eofCtrl = true
  empty : y.2.pipeline.outFifo.empty = true
  done : y.2.pipeline.stage3Done = true

theorem completed_of_returned {params : Params} {T : List Word} {f : Fetcher generics}
    {u : Hardware.UserHw.State} (hs : Ready f u) (job : Job params T) {n : ℕ}
    (hn : (feedSourceToHardware params timing u n).1.pc = .returned 1) :
    Completed params (feedSourceToHardware params timing u n) := by
  obtain ⟨h, sent, hp⟩ := feed_good hs job timing n
  simp only [Phase, hn] at hp
  rcases hp with ⟨-, hsync, hN, hcomplete⟩ | ⟨hc, -⟩
  · refine ⟨hn, ?_, hsync.eof, ?_, hcomplete.1.2.2 (by omega)⟩
    · rw [hsync.bytes, job.total, hN]
    · exact (Hardware.Fifo.Queue.empty_iff _).mpr hcomplete.2
  · cases hc

/-- The feed loop ends in every run: with completion if the limit fits, through the
stall exit if it does not. -/
theorem feed_ends (rows : List Cells) (hrows : 4 * rows.length < 2 ^ 32)
    (hw : (wheres prog).length ≤ 4) (hs : AtRest s) (timing timing' : ℕ → Timing)
    (captureLimit : ℤ) :
    (LimitFits prog rows →
      (∃ n, Completed (feedParams rows captureLimit)
        (feedRun (feedParams rows captureLimit) prog timing timing' s n)) ∧
      ∀ n code, (feedRun (feedParams rows captureLimit) prog timing timing' s n).1.pc =
        .returned code → code = 1) ∧
    (¬ LimitFits prog rows → ∃ n,
      (feedRun (feedParams rows captureLimit) prog timing timing' s n).1.pc = .returned 0) := by
  have ready := ready_setup hs prog timing
  have job := job_rows rows hrows captureLimit
  rw [← fits_iff s.pipeline.fetcher hw]
  constructor
  · intro hfits
    have hone : ∀ n code, (feedRun (feedParams rows captureLimit) prog timing timing' s n).1.pc =
        .returned code → code = 1 := by
      intro n code hn
      rcases returns_cases ready job hn with ⟨hc, -⟩ | ⟨-, hnot⟩
      · exact hc
      · exact absurd hfits hnot
    obtain ⟨code, n, hn⟩ := feed_returns ready job timing'
    cases hone n code hn
    exact ⟨⟨n, completed_of_returned ready job hn⟩, hone⟩
  · intro hnot
    obtain ⟨code, n, hn⟩ := feed_returns ready job timing'
    rcases returns_cases ready job hn with ⟨-, hfits, -⟩ | ⟨rfl, -⟩
    · exact absurd hfits hnot
    · exact ⟨n, hn⟩

def tableParams (table : LoadedTable) (captureLimit : ℤ) : Params :=
  ⟨table.memory, table.totalBytes, true, captureLimit⟩

theorem loadTable_rows {file : List UInt8} {table : LoadedTable} (h : loadTable file = some table)
    (hfile : file.length ≤ sdFileMaxSize) (captureLimit : ℤ) :
    4 * table.rows.length < 2 ^ 32 ∧ tableParams table captureLimit =
      feedParams table.rows captureLimit := by
  obtain ⟨-, hmem, hlen, hle⟩ := loadTable_memory h
  unfold sdFileMaxSize at hfile
  refine ⟨by omega, ?_⟩
  rw [feedParams, ← hmem, ← hlen]
  rfl

/-- For a loaded table and a compiled request, the feed loop sends every word and
sees completion, and never leaves through its other exits, exactly when the rows
behind the one that reaches the limit fit in the input queue. -/
theorem feed_completes_iff (file : List UInt8) (hfile : file.length ≤ sdFileMaxSize)
    (table : LoadedTable) (hload : loadTable file = some table) (request : QueryRequest)
    (prog : List Instruction) (hcompile : compileAndSendInstructions request table = ⟨prog, none⟩)
    (s : Hardware.UserHw.State) (hs : AtRest s) (timing timing' : ℕ → Timing)
    (captureLimit : ℤ) :
    ((∃ n, Completed (tableParams table captureLimit)
        (feedRun (tableParams table captureLimit) prog timing timing' s n)) ∧
      ∀ n, (feedRun (tableParams table captureLimit) prog timing timing' s n).1.pc ≠ .returned 0 ∧
        (feedRun (tableParams table captureLimit) prog timing timing' s n).1.pc ≠ .returned (-1)) ↔
      LimitFits prog table.rows := by
  obtain ⟨hsmall, hparams⟩ := loadTable_rows hload hfile captureLimit
  have hw : (wheres prog).length ≤ 4 := by
    have hle := wheres_emitted_length request table
    rwa [hcompile] at hle
  obtain ⟨hfits, hnot⟩ := feed_ends _ hsmall hw hs timing timing' captureLimit
  rw [hparams]
  constructor
  · rintro ⟨-, hexits⟩
    by_contra hc
    obtain ⟨n, hn⟩ := hnot hc
    exact (hexits n).1 hn
  · intro hc
    obtain ⟨hcompleted, hone⟩ := hfits hc
    refine ⟨hcompleted, fun n ↦ ⟨fun hn ↦ ?_, fun hn ↦ ?_⟩⟩
    · cases hone n 0 hn
    · cases hone n (-1) hn

theorem answer_words (f : Fetcher generics) (hw : (wheres prog).length ≤ 4)
    (hl : ∀ limit, limitOf prog = some limit → 1 ≤ limit) (rows : List Cells) :
    answer (loaded f prog) (rows.map Cells.word) = (queryRows prog rows).map Cells.word := by
  have hquota : quota (loaded f prog) = limitOf prog := by
    rw [quota_of_holds (holds_loaded f prog)]
    cases hlimit : limitOf prog with
    | none => rfl
    | some limit => rw [Option.map_some, Nat.max_eq_right (hl limit hlimit)]
  rw [answer, hquota, filter_words f hw, queryRows]
  cases limitOf prog with
  | none => rfl
  | some limit => exact List.map_take.symm

/-- Whenever the feed loop returns 1, the capture buffer holds the first rows of the
answer, byte for byte, as many as fit. -/
theorem feed_captures_answer (rows : List Cells) (hrows : 4 * rows.length < 2 ^ 32)
    (prog : List Instruction) (hw : (wheres prog).length ≤ 4)
    (hl : ∀ limit, limitOf prog = some limit → 1 ≤ limit)
    (captureLimit : ℕ) (hcapture : 4 ∣ captureLimit) (s : Hardware.UserHw.State) (hs : AtRest s)
    (timing timing' : ℕ → Timing) (n : ℕ)
    (hn : (feedRun (feedParams rows captureLimit) prog timing timing' s n).1.pc = .returned 1) :
    (feedRun (feedParams rows captureLimit) prog timing timing' s n).1.captured =
      ((queryRows prog rows).take (captureLimit / 4)).flatMap Cells.bytes := by
  have ready := ready_setup hs prog timing
  have job := job_rows rows hrows captureLimit
  have hcapacity : capacity (feedParams rows captureLimit) = captureLimit / 4 := by
    simp only [capacity, feedParams]
    omega
  rcases returns_cases ready job hn with ⟨-, -, hcaptured⟩ | ⟨hc, -⟩
  · rw [feedRun, hcaptured, answer_words _ hw hl, stored, hcapacity, ← List.map_take,
      List.flatMap_map]
    simp only [Cells.wordBytes_word]
  · cases hc

/-- The capture limit of `process_request` is a whole number of rows. -/
theorem captureLimitBytes_rows (limit : ℕ) {schema : TableSchema} (hwidth : schema.rowWidth = 4) :
    4 ∣ captureLimitBytes limit schema := by
  have hmin (n : ℕ) : 4 ∣ min (n * 4) (256 * maxColumns * cellSize) := by
    simp only [maxColumns, cellSize]
    omega
  rw [captureLimitBytes, hwidth]
  exact hmin _

section Examples

def sampleFile (n : ℕ) : List UInt8 :=
  CString.ascii "TBL8" ++ [1, 0, 0, 0, 1, 0, 0, 0] ++ [UInt8.ofNat n, 0, 0, 0, 4, 0, 0, 0] ++
    [0, 0, 0, 0] ++ CString.ascii "A   " ++ List.replicate (4 * n) 65

def limitOne : QueryRequest := ⟨[], [], CString.ascii "*", [], 1⟩

def atOnce : ℕ → Timing := fun _ ↦ ⟨0, 0⟩

theorem compile_limitOne (table : LoadedTable) :
    compileAndSendInstructions limitOne table = ⟨[limitInstruction 1], none⟩ :=
  compile_star table rfl rfl

theorem atRest_powerUp : AtRest .powerUp := ⟨rfl, rfl, rfl, rfl, rfl⟩

theorem limitOf_limitOne : limitOf [limitInstruction 1] = some 1 := by decide

theorem matching_limitOne (r : Cells) : matching [limitInstruction 1] r = true := by
  have hnil : wheres [limitInstruction 1] = [] := by decide
  rw [matching, hnil]
  rfl

theorem limitFits_limitOne (rows : List Cells) :
    LimitFits [limitInstruction 1] rows ↔ rows.length ≤ 129 := by
  have hall (k : ℕ) : (rows.take k).filter (matching [limitInstruction 1]) = rows.take k :=
    List.filter_eq_self.mpr (fun r _ ↦ matching_limitOne r)
  constructor
  · intro h
    by_contra hlong
    have := h 1 limitOf_limitOne 1 (by omega) (by rw [hall, List.length_take]; omega)
    omega
  · intro hshort limit hlimit k hk hfull
    rw [limitOf_limitOne] at hlimit
    cases hlimit
    rw [hall, List.length_take] at hfull
    omega

theorem long_table_stalls : ∃ table, loadTable (sampleFile 130) = some table ∧
    table.rows.length = 130 ∧
    compileAndSendInstructions limitOne table = ⟨[limitInstruction 1], none⟩ ∧
    ∃ n, (feedRun (tableParams table 4) [limitInstruction 1] atOnce atOnce .powerUp n).1.pc =
      .returned 0 := by
  obtain ⟨table, hload⟩ : ∃ table, loadTable (sampleFile 130) = some table :=
    Option.isSome_iff_exists.mp (by decide +kernel)
  have hcount : (loadTable (sampleFile 130)).map (fun table ↦ table.schema.rowCount) = some 130 := by
    decide +kernel
  have hrows : table.rows.length = 130 := by
    rw [hload, Option.map_some, Option.some.injEq] at hcount
    rw [(loadTable_memory hload).1, hcount]
  obtain ⟨hsmall, hparams⟩ := loadTable_rows hload (by decide +kernel) 4
  have hw : (wheres [limitInstruction 1]).length ≤ 4 := by decide
  refine ⟨table, hload, hrows, compile_limitOne table, ?_⟩
  rw [hparams]
  apply (feed_ends _ hsmall hw atRest_powerUp atOnce atOnce 4).2
  rw [limitFits_limitOne, hrows]
  omega

theorem short_table_completes : ∃ table, loadTable (sampleFile 2) = some table ∧
    ∃ n, Completed (tableParams table 4)
      (feedRun (tableParams table 4) [limitInstruction 1] atOnce atOnce .powerUp n) := by
  obtain ⟨table, hload⟩ : ∃ table, loadTable (sampleFile 2) = some table :=
    Option.isSome_iff_exists.mp (by decide)
  have hcount : (loadTable (sampleFile 2)).map (fun table ↦ table.schema.rowCount) = some 2 := by
    decide
  have hrows : table.rows.length = 2 := by
    rw [hload, Option.map_some, Option.some.injEq] at hcount
    rw [(loadTable_memory hload).1, hcount]
  have hfits : LimitFits [limitInstruction 1] table.rows := by
    rw [limitFits_limitOne, hrows]
    omega
  exact ⟨table, hload, ((feed_completes_iff (sampleFile 2) (by decide) table hload limitOne _
    (compile_limitOne table) .powerUp atRest_powerUp atOnce atOnce 4).mpr hfits).1⟩

def sampleRows : List Cells := [![55, 65, 66, 67], ![56, 0, 0, 0], ![55, 68, 69, 70]]

def whereSeven : List Instruction := [whereInstruction 0 55 0]

theorem sample_captured : ∃ n,
    (feedRun (feedParams sampleRows (4 : ℕ)) whereSeven atOnce atOnce .powerUp n).1.pc =
      .returned 1 ∧
    (feedRun (feedParams sampleRows (4 : ℕ)) whereSeven atOnce atOnce .powerUp n).1.captured =
      [55, 65, 66, 67] := by
  have hnone : limitOf whereSeven = none := by decide
  have hfits : LimitFits whereSeven sampleRows := by
    intro limit hlimit
    rw [hnone] at hlimit
    cases hlimit
  obtain ⟨n, hn⟩ := ((feed_ends sampleRows (by decide) (by decide) atRest_powerUp atOnce
    atOnce (4 : ℕ)).1 hfits).1
  refine ⟨n, hn.returned, ?_⟩
  rw [feed_captures_answer sampleRows (by decide) whereSeven (by decide) (by simp [hnone]) 4
    (by decide) .powerUp atRest_powerUp atOnce atOnce n hn.returned]
  decide

end Examples

end FpgaDatabase.Firmware.FeedOutcome
