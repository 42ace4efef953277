import FpgaDatabase.Firmware.Response

namespace FpgaDatabase.Firmware.AnswerSize

open CString Request Table Response

/-- The calls of `appendf`, given up at the first that fails. -/
def appendAll (buffer : List UInt8) (offset : ℕ) : List (List UInt8) → List UInt8 × Option ℕ
  | [] => (buffer, some offset)
  | text :: texts =>
    match appendf buffer offset text with
    | (buffer, some offset) => appendAll buffer offset texts
    | (buffer, none) => (buffer, none)

/-- The buffer and, if the function returns 1, the last value of `offset`. -/
def buildSuccessBody (buffer : List UInt8) (request : QueryRequest) (schema : TableSchema)
    (captured : List UInt8) (o : Outside) : List UInt8 × Option ℕ :=
  match aggregate request schema o with
  | some text => (snprintf buffer 0 text, some text.length)
  | none => appendAll buffer 0 (successTexts request schema captured)

structure Modest (schema : TableSchema) : Prop where
  columnCount : schema.columnCount ≤ 4
  rowCount : schema.rowCount < 10000000000
  rowWidth : schema.rowWidth = 4
  names : ∀ col, (schema.columns.getD col []).length ≤ 1

theorem modest_of_load {buf : List UInt8} {schema : TableSchema}
    (h : loadTableSchemaFromBuf buf = some schema) : Modest schema := by
  obtain ⟨hwidth, -, hcount⟩ := loadSchema_rowWidth h
  unfold loadTableSchemaFromBuf at h
  simp only [Option.ite_none_left_eq_some, Option.some.injEq] at h
  obtain ⟨-, -, -, -, -, rfl⟩ := h
  refine ⟨hcount, ?_, hwidth, fun col ↦ ?_⟩
  · have hlt : field buf 12 < 2 ^ 32 := BitVec.isLt _
    change field buf 12 < 10000000000
    omega
  · rw [List.getD_eq_getElem?_getD, List.getElem?_map]
    cases (List.range (field buf 8))[col]? with
    | none => exact Nat.zero_le _
    | some index => exact List.length_take_le _ _

theorem modest_of_table {file : List UInt8} {table : LoadedTable}
    (h : loadTable file = some table) : Modest table.schema := by
  obtain ⟨schema, rows, hschema, -, -, hrows, rfl⟩ := loadTable_some h
  obtain ⟨hcount, hcut, hwidth, hnames⟩ := modest_of_load hschema
  exact ⟨hcount, Nat.lt_of_le_of_lt hrows hcut, hwidth, hnames⟩

section Lengths

variable {request : QueryRequest} {schema : TableSchema} {body captured : List UInt8}

theorem flatten_length_le (b : ℕ) (texts : List (List UInt8)) (h : ∀ text ∈ texts, text.length ≤ b) :
    texts.flatten.length ≤ b * texts.length := by
  induction texts with
  | nil => simp
  | cons text texts ih =>
    rw [List.forall_mem_cons] at h
    have hrest := ih h.2
    rw [List.flatten_cons, List.length_append, List.length_cons, Nat.mul_succ]
    omega

theorem str_length_le (text : List UInt8) : (str text).length ≤ text.length :=
  (List.takeWhile_sublist _).length_le

theorem dec_length_le {n : ℕ} (h : n < 10000000000) : (dec n).length ≤ 10 := by
  rw [dec, List.length_map]
  exact (Nat.length_toDigits_le_iff (by decide) (by decide)).mpr h

theorem cellToText_length_le (src : List UInt8) : (cellToText (cellSize + 1) src).length ≤ 1 := by
  rw [cellToText, List.length_map]
  exact List.length_take_le _ _

/-- A separator and one character. -/
theorem separated_length_le {sep text : List UInt8} (hsep : sep.length ≤ 1) (htext : text.length ≤ 1)
    (col : ℕ) : ((if col = 0 then [] else sep) ++ text).length ≤ 2 := by
  rw [List.length_append]
  split_ifs
  · rw [List.length_nil]
    omega
  · omega

theorem rowTexts_length (modest : Modest schema) (row : ℕ) :
    (rowTexts schema captured row).flatten.length ≤ 13 := by
  have hcells : ((List.range schema.columnCount).map (fun col ↦ (if col = 0 then [] else ascii "|") ++
      cellToText (cellSize + 1) (captured.drop (row * schema.rowWidth + col * cellSize)))).flatten.length
      ≤ 2 * schema.columnCount := by
    have hflat := flatten_length_le 2 ((List.range schema.columnCount).map
      (fun col ↦ (if col = 0 then [] else ascii "|") ++
        cellToText (cellSize + 1) (captured.drop (row * schema.rowWidth + col * cellSize)))) (by
      intro text ht
      obtain ⟨col, -, rfl⟩ := List.mem_map.mp ht
      exact separated_length_le (by decide) (cellToText_length_le _) col)
    rwa [List.length_map, List.length_range] at hflat
  have hcount := modest.columnCount
  rw [rowTexts, List.flatten_append, List.flatten_append, List.length_append, List.length_append]
  have hrow : [ascii "ROW="].flatten.length = 4 := rfl
  have hend : [ascii "\n"].flatten.length = 1 := rfl
  omega

theorem returnedRows_le (modest : Modest schema) (hcaptured : captured.length ≤ 4 * queryMaxRows) :
    returnedRows request schema captured.length ≤ queryMaxRows := by
  rw [returnedRows, modest.rowWidth]
  split_ifs <;> omega

theorem header_length (hparse : parseRequestBody body = some request) (modest : Modest schema)
    {n : ℕ} (hn : n ≤ queryMaxRows) :
    ([ascii "STATUS=OK\n", ascii "MODE=" ++ mode ++ ascii "\n",
      ascii "TABLE=" ++ str request.table ++ ascii "\n",
      ascii "SQL=" ++ str request.sql ++ ascii "\n",
      ascii "SCANNED_ROWS=" ++ dec schema.rowCount ++ ascii "\n",
      ascii "RETURNED_ROWS=" ++ dec n ++ ascii "\n", ascii "COLUMNS="] ++
      (List.range schema.columnCount).map (fun col ↦
        (if col = 0 then [] else ascii ",") ++ str (schema.columns.getD col [])) ++
      [ascii "\n"]).flatten.length ≤ 3600 := by
  obtain ⟨htable, -, hsql, -⟩ := parseRequestBody_some hparse
  have htable' := (extractFrom_some htable).1
  have hsql' := (extractFrom_some hsql).1
  have hstr := str_length_le request.table
  have hstr' := str_length_le request.sql
  have hcount := modest.columnCount
  unfold tableMaxLen at htable'
  unfold sqlMaxLen at hsql'
  unfold queryMaxRows at hn
  have hfield (key : String) (value : List UInt8) (hkey : key.toList.length ≤ 14)
      (hvalue : value.length ≤ 255) : (ascii key ++ value ++ ascii "\n").length ≤ 300 := by
    have hend : "\n".toList.length = 1 := rfl
    simp only [List.length_append, ascii, List.length_map]
    omega
  refine (flatten_length_le 300 _ ?_).trans ?_
  · intro text ht
    simp only [List.mem_append, List.mem_cons, List.mem_map, List.not_mem_nil, or_false] at ht
    rcases ht with (hfixed | ⟨col, -, rfl⟩) | rfl
    · rcases hfixed with rfl | rfl | rfl | rfl | rfl | rfl | rfl
      · decide
      · exact hfield _ _ (by decide) (by decide)
      · exact hfield _ _ (by decide) (by omega)
      · exact hfield _ _ (by decide) (by omega)
      · exact hfield _ _ (by decide) ((dec_length_le modest.rowCount).trans (by decide))
      · exact hfield _ _ (by decide) ((dec_length_le (by omega)).trans (by decide))
      · decide
    · refine (separated_length_le (by decide) ((str_length_le _).trans (modest.names col)) col).trans ?_
      decide
    · decide
  · simp only [List.length_append, List.length_cons, List.length_nil, List.length_map,
      List.length_range]
    omega

/-- The longest answer is shorter than the buffer. -/
theorem successTexts_length (hparse : parseRequestBody body = some request) (modest : Modest schema)
    (hcaptured : captured.length ≤ 4 * queryMaxRows) :
    (successTexts request schema captured).flatten.length < maxResponseBodySize := by
  have hn : returnedRows request schema captured.length ≤ queryMaxRows :=
    returnedRows_le modest hcaptured
  have hheader := header_length hparse modest hn
  have hrows : ((List.range (returnedRows request schema captured.length)).flatMap
      (rowTexts schema captured)).flatten.length ≤
      13 * returnedRows request schema captured.length := by
    have hflat := flatten_length_le 13 ((List.range
      (returnedRows request schema captured.length)).map
        (fun row ↦ (rowTexts schema captured row).flatten)) (by
      intro text ht
      obtain ⟨row, -, rfl⟩ := List.mem_map.mp ht
      exact rowTexts_length modest row)
    rw [List.length_map, List.length_range] at hflat
    rwa [List.flatMap_def, List.flatten_flatten, List.map_map]
  rw [successTexts, List.flatten_append, List.length_append]
  unfold queryMaxRows at hn
  unfold maxResponseBodySize
  omega

end Lengths

section Building

variable {offset : ℕ} {buffer written text : List UInt8} {texts : List (List UInt8)} {request : QueryRequest}
  {schema : TableSchema} {captured : List UInt8}

theorem appendf_fits (hwritten : buffer.take offset = written) (hoffset : offset = written.length)
    (hnul : 0 ∉ written) (htext : 0 ∉ text) (hroom : offset + text.length < buffer.length) :
    ∃ buffer', appendf buffer offset text = (buffer', some (offset + text.length)) ∧
      Holds buffer' (written ++ text) ∧ buffer'.length = buffer.length := by
  have hholds := snprintf_holds (hwritten ▸ hnul) htext
  rw [hwritten, List.take_of_length_le (l := text) (by omega)] at hholds
  refine ⟨snprintf buffer offset text, ?_, hholds, snprintf_length (by omega) text⟩
  rw [appendf, if_neg (by omega), if_neg (by omega)]

theorem appendAll_fits (hholds : Holds buffer written) (htexts : ∀ text ∈ texts, 0 ∉ text)
    (hroom : written.length + texts.flatten.length < buffer.length) :
    ∃ buffer', appendAll buffer written.length texts =
        (buffer', some (written.length + texts.flatten.length)) ∧
      Holds buffer' (written ++ texts.flatten) := by
  induction texts generalizing buffer written with
  | nil =>
    refine ⟨buffer, rfl, ?_⟩
    rwa [List.flatten_nil, List.append_nil]
  | cons text texts ih =>
    rw [List.forall_mem_cons] at htexts
    rw [List.flatten_cons, List.length_append, ← Nat.add_assoc] at hroom ⊢
    obtain ⟨buffer', happend, hholds', hlen⟩ :=
      appendf_fits hholds.take rfl hholds.nul htexts.1 (by omega)
    rw [← List.length_append] at hroom ⊢
    obtain ⟨buffer'', hrest, hholds''⟩ := ih hholds' htexts.2 (by omega)
    refine ⟨buffer'', ?_, ?_⟩
    · rw [appendAll, happend, ← List.length_append]
      exact hrest
    · rwa [List.append_assoc] at hholds''

theorem buildSuccessBody_fits {o : Outside} (hnone : aggregate request schema o = none)
    (hroom : (successTexts request schema captured).flatten.length < buffer.length) :
    ∃ buffer', buildSuccessBody buffer request schema captured o =
        (buffer', some (successTexts request schema captured).flatten.length) ∧
      Holds buffer' (successTexts request schema captured).flatten := by
  have hnul := successTexts_nul request schema captured
  obtain ⟨text, texts, hcons⟩ : ∃ text texts, successTexts request schema captured = text :: texts :=
    ⟨_, _, rfl⟩
  rw [hcons] at hnul hroom ⊢
  rw [List.forall_mem_cons] at hnul
  rw [List.flatten_cons, List.length_append] at hroom ⊢
  obtain ⟨buffer', happend, hholds, hlen⟩ := appendf_fits (show buffer.take 0 = [] from rfl)
    rfl List.not_mem_nil hnul.1 (by omega)
  rw [Nat.zero_add] at happend
  rw [List.nil_append] at hholds
  obtain ⟨buffer'', hrest, hholds'⟩ := appendAll_fits hholds hnul.2 (by omega)
  refine ⟨buffer'', ?_, hholds'⟩
  rw [buildSuccessBody, hnone, hcons]
  simp only [appendAll, happend, hrest]

theorem row_read (hwidth : schema.rowWidth = 4) {row col : ℕ}
    (hrow : row < returnedRows request schema captured.length) (hcol : col < 4) :
    row * schema.rowWidth + col * cellSize + cellSize ≤ captured.length := by
  have hsize : cellSize = 1 := rfl
  rw [returnedRows, hwidth] at hrow
  rw [hwidth, hsize]
  split_ifs at hrow <;> omega

theorem rowTexts_append (modest : Modest schema) {row : ℕ}
    (hrow : row < returnedRows request schema captured.length) (behind : List UInt8) :
    rowTexts schema (captured ++ behind) row = rowTexts schema captured row := by
  rw [rowTexts, rowTexts]
  congr 2
  refine List.map_congr_left fun col hcol ↦ ?_
  have hcount := modest.columnCount
  have hread := row_read modest.rowWidth hrow
    (show col < 4 by rw [List.mem_range] at hcol; omega)
  rw [cellToText, cellToText, List.drop_append_of_le_length (by omega),
    List.take_append_of_le_length (by rw [List.length_drop]; omega)]

end Building

end FpgaDatabase.Firmware.AnswerSize
