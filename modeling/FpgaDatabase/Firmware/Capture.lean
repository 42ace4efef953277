import FpgaDatabase.Firmware.Completion

namespace FpgaDatabase.Firmware.Capture

open CString Request Table Response Driver FeedInvariant FeedOutcome Completion Hardware.Stages

def queryCaptureBufferSize : ℕ := queryMaxRows * maxColumns * cellSize

/-- `capture_limit_bytes` as the processor computes it: the product is unsigned, the
comparison with the size of the buffer is one of `int`s. -/
def captureLimit (limit rowCount rowWidth : BitVec 32) : ℤ :=
  let effectiveLimit := if 0 < limit then limit else rowCount
  let bytes := ((if effectiveLimit < rowCount then effectiveLimit else rowCount) * rowWidth).toInt
  if queryCaptureBufferSize < bytes then queryCaptureBufferSize else bytes

structure Memory where
  buffer : List UInt8
  capturedSize : ℕ

def cleared : Memory := ⟨List.replicate queryCaptureBufferSize 0, 0⟩

/-- `memcpy` into a buffer. There is no result where the copy would leave the buffer. -/
def memcpy (buffer : List UInt8) (offset : ℕ) (bytes : List UInt8) : Option (List UInt8) :=
  if offset + bytes.length ≤ buffer.length then some (store buffer offset bytes) else none

/-- The body of the loop of `drain_output_words`, for the word it has popped. -/
def drainWord (limitBytes : ℤ) (m : Memory) (word : Word) : Option Memory :=
  if (m.capturedSize : ℤ) < limitBytes then do
    let buffer ← memcpy m.buffer m.capturedSize (wordBytes word)
    some ⟨buffer, m.capturedSize + 4⟩
  else some m

def taken : Pc → Word → List Word
  | .drainRead _, value => [value]
  | _, _ => []

def popped (params : Params) (values : ℕ → Word) (n : ℕ) : List Word :=
  (List.range n).flatMap (fun k ↦ taken (feedAgainst params values k).pc (values k))

theorem popped_succ (params : Params) (values : ℕ → Word) (n : ℕ) :
    popped params values (n + 1) =
      popped params values n ++ taken (feedAgainst params values n).pc (values n) := by
  rw [popped, List.range_succ, List.flatMap_append, List.flatMap_singleton]
  rfl

section Limit

variable {limit : ℕ} {schema : TableSchema}

/-- Nothing wraps for a table that the file buffer holds. -/
theorem captureLimit_eq (hlimit : limit < 2 ^ 32) (hwidth : schema.rowWidth = 4)
    (hrows : schema.rowCount * 4 < 2 ^ 31) :
    captureLimit (.ofNat 32 limit) (.ofNat 32 schema.rowCount) (.ofNat 32 schema.rowWidth) =
      captureLimitBytes limit schema := by
  have hsize : queryCaptureBufferSize = 256 * maxColumns * cellSize := rfl
  have hlt {a b : ℕ} (ha : a < 2 ^ 32) (hb : b < 2 ^ 32) :
      BitVec.ofNat 32 a < BitVec.ofNat 32 b ↔ a < b := by
    rw [BitVec.lt_def, BitVec.toNat_ofNat, BitVec.toNat_ofNat, Nat.mod_eq_of_lt ha,
      Nat.mod_eq_of_lt hb]
  have heff : (if (0 : BitVec 32) < .ofNat 32 limit then BitVec.ofNat 32 limit
      else .ofNat 32 schema.rowCount) =
      .ofNat 32 (if 0 < limit then limit else schema.rowCount) := by
    rw [apply_ite (BitVec.ofNat 32)]
    exact if_congr (hlt (by decide) hlimit) rfl rfl
  generalize he : (if 0 < limit then limit else schema.rowCount) = effectiveLimit at heff
  have hsmall : effectiveLimit < 2 ^ 32 := by
    rw [← he]
    split_ifs <;> omega
  have hmin : (if BitVec.ofNat 32 effectiveLimit < .ofNat 32 schema.rowCount
      then BitVec.ofNat 32 effectiveLimit else .ofNat 32 schema.rowCount) =
      .ofNat 32 (min effectiveLimit schema.rowCount) := by
    rw [if_congr (hlt hsmall (by omega)) rfl rfl, ← apply_ite (BitVec.ofNat 32)]
    congr 1
    split_ifs <;> omega
  have hbytes : (BitVec.ofNat 32 (min effectiveLimit schema.rowCount) * .ofNat 32 4).toInt =
      (min effectiveLimit schema.rowCount * 4 : ℕ) := by
    rw [← BitVec.ofNat_mul, BitVec.toInt_eq_toNat_of_lt, BitVec.toNat_ofNat, Nat.mod_eq_of_lt]
    · omega
    · rw [BitVec.toNat_ofNat]
      omega
  rw [hwidth, captureLimit]
  simp only [heff, hmin]
  rw [hbytes, captureLimitBytes, hwidth, ← hsize]
  simp only [he]
  split_ifs <;> omega

theorem strtoul_lt (text : List UInt8) : strtoul text < 2 ^ 32 := by
  have hmax : ulongMax = 2 ^ 32 - 1 := rfl
  unfold strtoul
  dsimp only
  split_ifs
  · omega
  · exact Nat.mod_lt _ (by decide)
  · omega

theorem limit_lt {body : List UInt8} {request : QueryRequest}
    (h : parseRequestBody body = some request) : request.limit < 2 ^ 32 := by
  have hlimit : parseLimit body < 2 ^ 32 := by
    unfold parseLimit
    split
    · split_ifs
      · exact strtoul_lt _
      · decide
    · decide
  rw [(parseRequestBody_some h).2.2.2, capLimit]
  split_ifs
  · decide
  · exact hlimit

end Limit

section Run

variable {params : Params} {values : ℕ → Word} {cap : ℕ} {ws : List Word}

/-- The buffer after some words: their bytes, as many words as the limit allows, and
zeros behind them. -/
def filled (cap : ℕ) (ws : List Word) : Memory :=
  ⟨(ws.take cap).flatMap wordBytes ++
    List.replicate (queryCaptureBufferSize - 4 * min cap ws.length) 0, 4 * min cap ws.length⟩

/-- The copy stays in the buffer because the limit is a whole number of words. -/
theorem drainWord_filled (hcap : 4 * cap ≤ queryCaptureBufferSize) (ws : List Word) (w : Word) :
    drainWord (4 * cap : ℕ) (filled cap ws) w = some (filled cap (ws ++ [w])) := by
  have hlen : ((ws.take cap).flatMap wordBytes).length = 4 * min cap ws.length := by
    rw [flatMap_wordBytes_length, List.length_take]
  have hnext : (ws ++ [w]).length = ws.length + 1 := List.length_append
  by_cases hfull : ws.length < cap
  · have hmin : min cap ws.length = ws.length := by omega
    have htake : (ws ++ [w]).take cap = ws.take cap ++ [w] := by
      rw [List.take_of_length_le (by omega), List.take_of_length_le (by omega)]
    have hstore : memcpy (filled cap ws).buffer (filled cap ws).capturedSize (wordBytes w) =
        some (filled cap (ws ++ [w])).buffer := by
      rw [memcpy, if_pos]
      · simp only [filled, store, hmin, htake, List.flatMap_append, List.flatMap_singleton,
          Option.some_inj]
        rw [List.take_left' (by rw [hlen, hmin]), ← List.drop_drop, List.drop_left' (by rw [hlen, hmin]),
          List.drop_replicate, hnext, Nat.min_eq_right (show ws.length + 1 ≤ cap by omega),
          wordBytes_length, Nat.sub_sub]
        rfl
      · simp only [filled, List.length_append, hlen, List.length_replicate, wordBytes_length]
        omega
    rw [drainWord, if_pos (by simp only [filled]; omega), hstore]
    simp only [Option.bind_eq_bind, Option.bind_some, Option.some_inj, filled, hnext]
    congr 1
    omega
  · have hsame : filled cap (ws ++ [w]) = filled cap ws := by
      have hmin : min cap (ws.length + 1) = min cap ws.length := by omega
      have htake : (ws ++ [w]).take cap = ws.take cap := List.take_append_of_le_length (by omega)
      rw [filled, filled, hnext, hmin, htake]
    rw [drainWord, if_neg (by simp only [filled]; omega), hsame]

/-- The run lemma: no copy leaves the buffer. -/
theorem drain_run (hcap : 4 * cap ≤ queryCaptureBufferSize) (ws : List Word) :
    ws.foldlM (drainWord (4 * cap : ℕ)) cleared = some (filled cap ws) := by
  induction ws using List.reverseRecOn with
  | nil => simp [cleared, filled]
  | append_singleton ws w ih =>
    rw [List.foldlM_append, ih, Option.bind_eq_bind, Option.bind_some, List.foldlM_cons,
      drainWord_filled hcap ws w]
    rfl

theorem resume_captured (x : Feed) (value : Word) (h : x.captured = stored params ws) :
    (resume params x value).captured = stored params (ws ++ taken x.pc value) := by
  obtain ⟨pc, bytesSent, memoryOffset, stallGuard, captured⟩ := x
  cases pc with
  | drainRead site => exact capture_stored h value
  | pollInput =>
    simp only [resume, sourceReadWord, taken, List.append_nil]
    split_ifs <;> exact h
  | drainStatus site =>
    simp only [resume, taken, List.append_nil]
    cases site <;> simp only [drained, loopHead] <;> split_ifs <;> exact h
  | stallDelay =>
    simp only [resume, loopHead, taken, List.append_nil]
    split_ifs <;> exact h
  | signalEof | waitStatus | waitDelay =>
    simp only [resume, taken, List.append_nil]
    split_ifs <;> exact h
  | writeData word | writeValid | drainPop site | returned code =>
    rw [taken, List.append_nil]
    · exact h
    · simp

theorem captured_run (params : Params) (values : ℕ → Word) (n : ℕ) :
    (feedAgainst params values n).captured = stored params (popped params values n) := by
  induction n with
  | zero =>
    have hnil : stored params (popped params values 0) = [] := by simp [stored, popped]
    rw [hnil, feedAgainst, feedStart, loopHead]
    split_ifs <;> rfl
  | succ n ih =>
    rw [feedAgainst, popped_succ]
    exact resume_captured _ _ ih

end Run

/-- Whatever the device does, every copy of the feed stays within the buffer and within
the limit, and the buffer holds the first of the words popped. -/
theorem capture_never_overruns (body : List UInt8) (request : QueryRequest)
    (hparse : parseRequestBody body = some request) (file : List UInt8)
    (hfile : file.length ≤ sdFileMaxSize) (table : LoadedTable) (hload : loadTable file = some table)
    (values : ℕ → Word) (n : ℕ) :
    let limit := captureLimit (.ofNat 32 request.limit) (.ofNat 32 table.schema.rowCount)
      (.ofNat 32 table.schema.rowWidth)
    let words := popped (tableParams table limit) values n
    0 ≤ limit ∧ limit ≤ queryCaptureBufferSize ∧
    ∃ m, words.foldlM (drainWord limit) cleared = some m ∧
      4 ∣ m.capturedSize ∧ m.capturedSize ≤ limit ∧ m.buffer.length = queryCaptureBufferSize ∧
      m.buffer.take m.capturedSize = (words.take (m.capturedSize / 4)).flatMap wordBytes ∧
      (words.length ≤ m.capturedSize / 4 ∨ m.capturedSize = limit) ∧
      (feedAgainst (tableParams table limit) values n).captured = m.buffer.take m.capturedSize := by
  obtain ⟨schema, rows, -, hwidth, hfits, -, htable⟩ := loadTable_some hload
  have hwidth' : table.schema.rowWidth = 4 := by
    rw [htable]
    exact hwidth
  have hrows : table.schema.rowCount * 4 < 2 ^ 31 := by
    rw [htable]
    unfold sdFileMaxSize at hfile
    change rows * 4 < 2 ^ 31
    omega
  obtain ⟨cap, hcap⟩ := captureLimitBytes_rows request.limit hwidth'
  rw [captureLimit_eq (limit_lt hparse) hwidth' hrows, hcap]
  intro limit words
  have hsize : 4 * cap ≤ queryCaptureBufferSize := by
    rw [← hcap]
    exact Nat.min_le_right _ _
  have hcapacity : capacity (tableParams table limit) = cap := by
    simp only [capacity, tableParams, limit]
    omega
  have htaken : ((words.take cap).flatMap wordBytes).length = 4 * min cap words.length := by
    rw [flatMap_wordBytes_length, List.length_take]
  have hbytes : (filled cap words).buffer.take (filled cap words).capturedSize =
      (words.take cap).flatMap wordBytes := List.take_left' htaken
  refine ⟨Int.natCast_nonneg _, Int.ofNat_le.mpr hsize, filled cap words, drain_run hsize words,
    Nat.dvd_mul_right _ _, ?_, ?_, ?_, ?_, ?_⟩
  · simp only [filled, limit]
    omega
  · simp only [filled, List.length_append, htaken, List.length_replicate]
    omega
  · rw [hbytes, filled, Nat.mul_div_cancel_left _ (by decide), ← List.take_take, List.take_length]
  · simp only [filled, limit]
    omega
  · rw [hbytes, captured_run, stored, hcapacity]

theorem one_word_captured : ∃ table, loadTable (sampleFile 1) = some table ∧
    ∃ m, (popped (tableParams table (captureLimit 0 1 4)) (fun _ ↦ 0) 7).foldlM
      (drainWord (captureLimit 0 1 4)) cleared = some m ∧ 4 ∣ m.capturedSize := by
  obtain ⟨table, hload⟩ : ∃ table, loadTable (sampleFile 1) = some table :=
    Option.isSome_iff_exists.mp (by decide)
  have hschema : (loadTable (sampleFile 1)).map (fun table ↦
      (table.schema.rowCount, table.schema.rowWidth)) = some (1, 4) := by
    decide
  rw [hload, Option.map_some, Option.some.injEq, Prod.mk.injEq] at hschema
  have hrun := capture_never_overruns starBody starRequest parse_star (sampleFile 1) (by decide)
    table hload (fun _ ↦ 0) 7
  simp only [hschema.1, hschema.2] at hrun
  obtain ⟨-, -, m, hm, hdvd, -⟩ := hrun
  exact ⟨table, hload, m, hm, hdvd⟩

end FpgaDatabase.Firmware.Capture
