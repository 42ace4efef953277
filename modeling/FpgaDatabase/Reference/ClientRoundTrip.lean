import FpgaDatabase.Firmware.Response
import FpgaDatabase.Reference.Client

namespace FpgaDatabase.Reference.ClientRoundTrip

open Firmware.CString Firmware.Request Firmware.Table Firmware.Response
open Library.Utf8 Client

section Lines

variable {line k r : Text} {lines : List (List UInt8)}

theorem decode_lines (lines : List (List UInt8)) :
    decode (lines.flatMap (· ++ [10])) = (lines.map decode).flatMap (· ++ [10]) := by
  induction lines with
  | nil => rfl
  | cons line lines ih =>
    rw [List.flatMap_cons, List.append_assoc, List.singleton_append,
      decode_append_ascii (by decide), ih, List.map_cons, List.flatMap_cons, List.append_assoc]
    rfl

theorem splitOn_lines {α : Type} [DecidableEq α] {sep : α} {lines : List (List α)}
    (h : ∀ line ∈ lines, sep ∉ line) :
    (lines.flatMap (· ++ [sep])).splitOn sep = lines ++ [[]] := by
  induction lines with
  | nil => rfl
  | cons line lines ih =>
    obtain ⟨hline, hlines⟩ := List.forall_mem_cons.mp h
    rw [List.flatMap_cons, List.append_assoc, List.singleton_append,
      List.splitOn_append_cons_self_of_not_mem hline, ih hlines]
    rfl

theorem newline_not_mem {xs : List UInt8} (h : 10 ∉ xs) : 10 ∉ decode xs := by
  intro hmem
  obtain ⟨b, hb, h₁₀⟩ := List.mem_map.mp (mem_decode (by decide) hmem)
  exact h ((UInt8.toNat_inj.mp (show b.toNat = (10 : UInt8).toNat from h₁₀)) ▸ hb)

theorem splitLines_decode (h : ∀ line ∈ lines, 10 ∉ line) :
    splitLines (decode (lines.flatMap (· ++ [10]))) =
      lines.map (fun line ↦ chop (decode line)) ++ [[]] := by
  have hdecoded : ∀ line ∈ lines.map decode, 10 ∉ line := by
    intro line hline
    obtain ⟨xs, hxs, rfl⟩ := List.mem_map.mp hline
    exact newline_not_mem (h xs hxs)
  rw [splitLines, decode_lines, splitOn_lines hdecoded]
  simp [Function.comp_def]

theorem chop_append (h₁₃ : k.getLast? ≠ some 13) : chop (k ++ r) = k ++ chop r := by
  unfold chop
  cases r with
  | nil => simp [h₁₃]
  | cons c r =>
    have hlast : (k ++ c :: r).getLast? = (c :: r).getLast? := by
      rw [List.getLast?_append, List.getLast?_cons, Option.some_or]
    rw [hlast]
    split_ifs
    · rw [List.dropLast_append_of_ne_nil (by simp)]
    · rfl

theorem chop_of_not_mem (h : 13 ∉ r) : chop r = r := by
  rw [chop, if_neg]
  intro hlast
  exact h (List.mem_of_getLast? hlast)

end Lines

section Body

variable (request : QueryRequest) (schema : TableSchema) (captured : List UInt8)

def codes (bytes : List UInt8) : Text := bytes.map UInt8.toNat

def cellTexts (row : ℕ) : List (List UInt8) :=
  (List.range schema.columnCount).map (fun col ↦
    cellToText (cellSize + 1) (captured.drop (row * schema.rowWidth + col * cellSize)))

def columnTexts : List (List UInt8) :=
  (List.range schema.columnCount).map (fun col ↦ str (schema.columns.getD col []))

def rowCount : ℕ := returnedRows request schema captured.length

def bodyLines : List (List UInt8) :=
  [ascii "STATUS=" ++ ascii "OK", ascii "MODE=" ++ mode, ascii "TABLE=" ++ str request.table,
    ascii "SQL=" ++ str request.sql, ascii "SCANNED_ROWS=" ++ dec schema.rowCount,
    ascii "RETURNED_ROWS=" ++ dec (rowCount request schema captured),
    ascii "COLUMNS=" ++ [44].intercalate (columnTexts schema)] ++
    (List.range (rowCount request schema captured)).map (fun row ↦
      ascii "ROW=" ++ [124].intercalate (cellTexts schema captured row))

theorem intercalate_cons {α : Type} (sep x : List α) (xs : List (List α)) :
    sep.intercalate (x :: xs) = x ++ (xs.map (sep ++ ·)).flatten := by
  induction xs generalizing x with
  | nil => simp
  | cons y xs ih =>
    rw [List.intercalate_cons_cons, ih, List.map_cons, List.flatten_cons, List.append_assoc,
      List.append_assoc]

theorem flatten_separated (sep : List UInt8) (f : ℕ → List UInt8) (n : ℕ) :
    ((List.range n).map (fun k ↦ (if k = 0 then [] else sep) ++ f k)).flatten =
      sep.intercalate ((List.range n).map f) := by
  cases n with
  | zero => rfl
  | succ n =>
    rw [List.range_succ_eq_map, List.map_cons, List.map_cons, intercalate_cons]
    simp [Function.comp_def]

theorem flatten_rowTexts (row : ℕ) : (rowTexts schema captured row).flatten =
    ascii "ROW=" ++ [124].intercalate (cellTexts schema captured row) ++ [10] := by
  rw [rowTexts, List.flatten_append, List.flatten_append]
  have hsep := flatten_separated (ascii "|") (fun col ↦
    cellToText (cellSize + 1) (captured.drop (row * schema.rowWidth + col * cellSize)))
    schema.columnCount
  rw [hsep]
  rfl

theorem flatten_successTexts : (successTexts request schema captured).flatten =
    (bodyLines request schema captured).flatMap (· ++ [10]) := by
  have hsep := flatten_separated (ascii ",") (fun col ↦ str (schema.columns.getD col []))
    schema.columnCount
  have hrows : ((List.range (rowCount request schema captured)).flatMap
      (rowTexts schema captured)).flatten =
      ((List.range (rowCount request schema captured)).map (fun row ↦
        ascii "ROW=" ++ [124].intercalate (cellTexts schema captured row))).flatMap (· ++ [10]) := by
    rw [← List.flatMap_id, List.flatMap_assoc, List.flatMap_map]
    refine List.flatMap_congr fun row _ ↦ ?_
    rw [List.flatMap_id, flatten_rowTexts]
  rw [successTexts, List.flatten_append, List.flatten_append, List.flatten_append, hsep,
    show returnedRows request schema captured.length = rowCount request schema captured from rfl,
    hrows, bodyLines, List.flatMap_append]
  simp only [List.flatten_cons, List.flatten_nil, List.flatMap_cons, List.flatMap_nil,
    List.append_assoc, List.append_nil, columnTexts]
  rfl

end Body

section Alphabets

variable {request : QueryRequest} {schema : TableSchema} {captured buf : List UInt8} {ch : UInt8}

theorem parseRequestBody_lines {body : List UInt8} (h : parseRequestBody body = some request) :
    10 ∉ request.table ∧ 10 ∉ request.sql := by
  obtain ⟨htable, -, hsql, -⟩ := parseRequestBody_some h
  exact ⟨(extractFrom_some htable).2, (extractFrom_some hsql).2⟩

theorem str_subset {xs : List UInt8} (h : ch ∈ str xs) : ch ∈ xs :=
  (List.takeWhile_sublist _).subset h

theorem printable_ascii (ch : UInt8) :
    32 ≤ (printable ch).toNat ∧ (printable ch).toNat ≤ 126 ∧ (printable ch).toNat ≠ 124 := by
  rw [printable]
  split_ifs with h
  · decide
  · simp only [not_or, UInt8.lt_iff_toNat_lt, ← UInt8.toNat_inj, UInt8.reduceToNat] at h
    omega

theorem cellTexts_ascii {row : ℕ} {cell : List UInt8} (hc : cell ∈ cellTexts schema captured row)
    (h : ch ∈ cell) : 32 ≤ ch.toNat ∧ ch.toNat ≤ 126 ∧ ch.toNat ≠ 124 := by
  obtain ⟨col, -, rfl⟩ := List.mem_map.mp hc
  obtain ⟨c, -, rfl⟩ := List.mem_map.mp h
  exact printable_ascii c

/-- What the name of a column can be. -/
def Name (name : List UInt8) : Prop :=
  name = [] ∨ ∃ b : UInt8, name = [b] ∧ b ≠ 0 ∧ isspace b = false

theorem trimCopy_cell (cell : List UInt8) : Name (trimCopy (cellSize + 1) (cell.take cellSize)) := by
  cases cell with
  | nil => exact .inl rfl
  | cons b rest =>
    change Name (trimCopy 2 [b])
    by_cases hspace : isspace b = true
    · exact .inl (by simp [trimCopy, hspace])
    · by_cases hzero : b = 0
      · subst hzero
        exact .inl rfl
      · rw [Bool.not_eq_true] at hspace
        have hplain : trimCopy 2 [b] = [b] := by
          rw [trimCopy_plain]
          · rfl
          · rintro ch ⟨rfl⟩
            exact hspace
          · rintro ch ⟨rfl⟩
            exact trailing_of_isspace hzero hspace
        exact .inr ⟨b, hplain, hzero, hspace⟩

theorem schema_names (h : loadTableSchemaFromBuf buf = some schema) :
    schema.columns.length = schema.columnCount ∧ ∀ name ∈ schema.columns, Name name := by
  unfold loadTableSchemaFromBuf at h
  simp only [Option.ite_none_left_eq_some, Option.some.injEq, not_not] at h
  obtain ⟨-, -, -, -, -, rfl⟩ := h
  refine ⟨by simp, ?_⟩
  intro name hname
  obtain ⟨index, -, rfl⟩ := List.mem_map.mp hname
  exact trimCopy_cell _

theorem Name.str_eq {name : List UInt8} (h : Name name) : str name = name := by
  rcases h with rfl | ⟨b, rfl, hb, -⟩
  · rfl
  · simp [str, hb]

theorem columnTexts_eq (h : loadTableSchemaFromBuf buf = some schema) :
    columnTexts schema = schema.columns := by
  obtain ⟨hlen, hnames⟩ := schema_names h
  apply List.ext_getElem
  · simp [columnTexts, hlen]
  · intro i hi hi'
    simp [columnTexts, hi', (hnames _ (List.getElem_mem hi')).str_eq]

theorem mem_intercalate {α : Type} {sep x : α} {ls : List (List α)}
    (h : x ∈ [sep].intercalate ls) : x = sep ∨ ∃ l ∈ ls, x ∈ l := by
  cases ls with
  | nil => cases h
  | cons l ls =>
    rw [intercalate_cons] at h
    simp only [List.mem_append, List.mem_flatten, List.mem_map] at h
    rcases h with h | ⟨-, ⟨l', hl', rfl⟩, h⟩
    · exact .inr ⟨l, List.mem_cons_self, h⟩
    · rcases List.mem_append.mp h with h | h
      · exact .inl (List.mem_singleton.mp h)
      · exact .inr ⟨l', List.mem_cons_of_mem _ hl', h⟩

end Alphabets

section Parsing

variable {request : QueryRequest} {schema : TableSchema} {captured buf reqBody : List UInt8}

theorem bodyLines_newline (hreq : parseRequestBody reqBody = some request)
    (hschema : loadTableSchemaFromBuf buf = some schema) :
    ∀ line ∈ bodyLines request schema captured, 10 ∉ line := by
  obtain ⟨htable, hsql⟩ := parseRequestBody_lines hreq
  have hdec (n : ℕ) : 10 ∉ dec n := by
    intro h
    exact absurd (dec_digit h) (by decide)
  have hnames : 10 ∉ [44].intercalate (columnTexts schema) := by
    intro h
    rcases mem_intercalate h with h | ⟨name, hname, h⟩
    · exact absurd h (by decide)
    · rw [columnTexts_eq hschema] at hname
      rcases (schema_names hschema).2 name hname with rfl | ⟨b, rfl, -, hb⟩
      · cases h
      · rw [← List.mem_singleton.mp h] at hb
        exact absurd hb (by decide)
  have hcells (row : ℕ) : 10 ∉ [124].intercalate (cellTexts schema captured row) := by
    intro h
    rcases mem_intercalate h with h | ⟨cell, hcell, h⟩
    · exact absurd h (by decide)
    · exact absurd (cellTexts_ascii hcell h).1 (by decide)
  intro line hline
  simp only [bodyLines, List.mem_append, List.mem_cons, List.mem_map, List.not_mem_nil,
    or_false] at hline
  rcases hline with (rfl | rfl | rfl | rfl | rfl | rfl | rfl) | ⟨row, -, rfl⟩
  · decide
  · decide
  · exact List.not_mem_append (by decide) (fun h ↦ htable (str_subset h))
  · exact List.not_mem_append (by decide) (fun h ↦ hsql (str_subset h))
  · exact List.not_mem_append (by decide) (hdec _)
  · exact List.not_mem_append (by decide) (hdec _)
  · exact List.not_mem_append (by decide) hnames
  · exact List.not_mem_append (by decide) (hcells row)

/-- A line that begins with a constant text keeps it. -/
theorem chop_decode_append {key : List UInt8} (hkey : key.all (· < 0x80) = true)
    (hlast : (codes key).getLast? ≠ some 13) (rest : List UInt8) :
    chop (decode (key ++ rest)) = codes key ++ chop (decode rest) := by
  have hascii : ∀ b ∈ key, b < 0x80 := by simpa using hkey
  rw [decode_append_of_ascii hascii]
  exact chop_append hlast

/-- What the page makes of the body: the rows, and the two fields that matter. -/
theorem parseResponse_body (h : ∀ line ∈ bodyLines request schema captured, 10 ∉ line) :
    let p := parseResponse (responseText ((bodyLines request schema captured).flatMap (· ++ [10])))
    p.rows = (List.range (rowCount request schema captured)).map (fun row ↦
        chop (decode ([124].intercalate (cellTexts schema captured row)))) ∧
      p.meta "COLUMNS" = some (chop (decode ([44].intercalate (columnTexts schema)))) ∧
      p.meta "RETURNED_ROWS" = some (chop (decode (dec (rowCount request schema captured)))) := by
  have hmark : responseText ((bodyLines request schema captured).flatMap (· ++ [10])) =
      decode ((bodyLines request schema captured).flatMap (· ++ [10])) := rfl
  have hrow (row : ℕ) : chop (decode (ascii "ROW=" ++
      [124].intercalate (cellTexts schema captured row))) =
      text "ROW=" ++ chop (decode ([124].intercalate (cellTexts schema captured row))) :=
    chop_decode_append (by decide) (by decide) _
  have hlines : splitLines (decode ((bodyLines request schema captured).flatMap (· ++ [10]))) =
      [text "STATUS=" ++ chop (decode (ascii "OK")), text "MODE=" ++ chop (decode mode),
        text "TABLE=" ++ chop (decode (str request.table)),
        text "SQL=" ++ chop (decode (str request.sql)),
        text "SCANNED_ROWS=" ++ chop (decode (dec schema.rowCount)),
        text "RETURNED_ROWS=" ++ chop (decode (dec (rowCount request schema captured))),
        text "COLUMNS=" ++ chop (decode ([44].intercalate (columnTexts schema)))] ++
      (List.range (rowCount request schema captured)).map (fun row ↦
        text "ROW=" ++ chop (decode ([124].intercalate (cellTexts schema captured row)))) ++
      [[]] := by
    rw [splitLines_decode h, bodyLines, List.map_append, List.map_map]
    simp only [List.map_cons, List.map_nil, Function.comp_def, hrow]
    rw [chop_decode_append (by decide) (by decide), chop_decode_append (by decide) (by decide),
      chop_decode_append (by decide) (by decide), chop_decode_append (by decide) (by decide),
      chop_decode_append (by decide) (by decide), chop_decode_append (by decide) (by decide),
      chop_decode_append (by decide) (by decide)]
    rfl
  have hrows (g : ℕ → Text) (rows : List ℕ) :
      (rows.map (fun row ↦ text "ROW=" ++ g row)).filterMap rowOf = rows.map g := by
    rw [List.filterMap_map]
    exact congrFun List.filterMap_eq_map rows
  have hno (g : ℕ → Text) (rows : List ℕ) :
      (rows.map (fun row ↦ text "ROW=" ++ g row)).filterMap assignmentOf = [] := by
    rw [List.filterMap_map]
    exact List.filterMap_eq_nil_iff.mpr fun _ _ ↦ rfl
  rw [hmark, parseResponse, hlines]
  refine ⟨?_, ?_, ?_⟩
  · simp only [List.filterMap_append, hrows]
    exact List.append_nil _
  · simp only [Parsed.meta, List.filterMap_append, hno]
    rfl
  · simp only [Parsed.meta, List.filterMap_append, hno]
    rfl

end Parsing

section Table

variable {request : QueryRequest} {schema : TableSchema} {captured buf reqBody body : List UInt8}

theorem decode_intercalate {b : UInt8} (hb : b < 0x80) (items : List (List UInt8)) :
    decode ([b].intercalate items) = [b.toNat].intercalate (items.map decode) := by
  induction items with
  | nil => rfl
  | cons x items ih =>
    cases items with
    | nil => simp
    | cons y items =>
      rw [List.intercalate_cons_cons, List.append_assoc, List.singleton_append,
        decode_append_ascii hb, ih]
      simp only [List.map_cons]
      rw [List.intercalate_cons_cons, List.append_assoc]
      rfl

theorem mem_splitOn {sep c : ℕ} {s piece : Text} (hp : piece ∈ s.splitOn sep) (hc : c ∈ piece) :
    c ≠ sep ∧ c ∈ s := by
  induction s generalizing piece with
  | nil =>
    rw [List.splitOn_nil, List.mem_singleton] at hp
    rw [hp] at hc
    cases hc
  | cons x s ih =>
    rw [List.splitOn_cons_eq_if_modifyHead] at hp
    split_ifs at hp with hx
    · rcases List.mem_cons.mp hp with rfl | hp
      · cases hc
      · exact (ih hp hc).imp_right (List.mem_cons_of_mem x)
    · cases hs : s.splitOn sep with
      | nil => exact absurd hs (List.splitOn_ne_nil sep s)
      | cons first rest =>
        rw [hs] at hp ih
        rcases List.mem_cons.mp hp with rfl | hp
        · rcases List.mem_cons.mp hc with rfl | hc
          · exact ⟨by simpa using hx, List.mem_cons_self⟩
          · exact (ih List.mem_cons_self hc).imp_right (List.mem_cons_of_mem x)
        · exact (ih (List.mem_cons_of_mem _ hp) hc).imp_right (List.mem_cons_of_mem x)

theorem splitOn_row (hcount : 1 ≤ schema.columnCount) (row : ℕ) :
    (chop (decode ([124].intercalate (cellTexts schema captured row)))).splitOn 124 =
      (cellTexts schema captured row).map codes := by
  have hne : (cellTexts schema captured row).map codes ≠ [] := by
    simp [cellTexts]
    omega
  have hcells : (cellTexts schema captured row).map decode =
      (cellTexts schema captured row).map codes := by
    refine List.map_congr_left fun cell hcell ↦ decode_ascii fun b hb ↦ ?_
    have := (cellTexts_ascii hcell hb).2.1
    rw [UInt8.lt_iff_toNat_lt]
    exact Nat.lt_of_le_of_lt this (by decide)
  have hchar {c : ℕ} {cell : Text} (hcell : cell ∈ (cellTexts schema captured row).map codes)
      (hc : c ∈ cell) : 32 ≤ c ∧ c ≠ 124 := by
    obtain ⟨bytes, hbytes, rfl⟩ := List.mem_map.mp hcell
    obtain ⟨b, hb, rfl⟩ := List.mem_map.mp hc
    exact ⟨(cellTexts_ascii hbytes hb).1, (cellTexts_ascii hbytes hb).2.2⟩
  rw [decode_intercalate (by decide), hcells, chop_of_not_mem]
  · exact List.splitOn_intercalate _ (fun cell hcell hmem ↦ (hchar hcell hmem).2 rfl) hne
  · intro hmem
    rcases mem_intercalate hmem with h | ⟨cell, hcell, h⟩
    · exact absurd h (by decide)
    · exact absurd (hchar hcell h).1 (by decide)

/-- A name that survives the way to the page: one ASCII code, and not the separator. -/
def Plain (name : List UInt8) : Prop := ∃ b : UInt8, name = [b] ∧ b < 0x80 ∧ b ≠ 44

def shownColumns (schema : TableSchema) : List Text :=
  (((chop (decode ([44].intercalate schema.columns))).splitOn 44).map trim).filter (· ≠ [])

theorem trim_plain {b : UInt8} (hb : b < 0x80) (hs : isspace b = false) :
    trim [b.toNat] = [b.toNat] := by
  have hspace : isSpace b.toNat = false := by
    simp only [isspace, Bool.or_eq_false_iff, Bool.and_eq_false_iff, decide_eq_false_iff_not,
      UInt8.lt_iff_toNat_lt, UInt8.le_iff_toNat_le, ← UInt8.toNat_inj, UInt8.reduceToNat] at hb hs
    simp only [isSpace, Bool.or_eq_false_iff, Bool.and_eq_false_iff, decide_eq_false_iff_not]
    omega
  simp [trim, hspace, List.rdropWhile]

theorem shownColumns_plain (hnames : ∀ name ∈ schema.columns, Name name)
    (hplain : ∀ name ∈ schema.columns, Plain name) (hne : schema.columns ≠ []) :
    shownColumns schema = schema.columns.map codes := by
  have hcodes : schema.columns.map decode = schema.columns.map codes := by
    refine List.map_congr_left fun name hname ↦ decode_ascii fun b hb ↦ ?_
    obtain ⟨c, rfl, hc, -⟩ := hplain name hname
    rwa [List.mem_singleton.mp hb]
  have hform : ∀ name ∈ schema.columns.map codes, ∃ b : UInt8, name = [b.toNat] ∧ b ≠ 44 ∧
      b ≠ 13 ∧ trim name = name := by
    intro name hname
    obtain ⟨bytes, hbytes, rfl⟩ := List.mem_map.mp hname
    obtain ⟨b, rfl, hlt, hcomma⟩ := hplain bytes hbytes
    rcases hnames _ hbytes with h | ⟨b', hb', -, hspace⟩
    · cases h
    · cases hb'
      refine ⟨b, rfl, hcomma, ?_, trim_plain hlt hspace⟩
      rintro rfl
      exact absurd hspace (by decide)
  have hcomma : ∀ name ∈ schema.columns.map codes, 44 ∉ name := by
    intro name hname hmem
    obtain ⟨b, rfl, hb, -⟩ := hform name hname
    exact hb (UInt8.toNat_inj.mp (List.mem_singleton.mp hmem).symm)
  have hreturn : 13 ∉ [44].intercalate (schema.columns.map codes) := by
    intro hmem
    rcases mem_intercalate hmem with h | ⟨name, hname, h⟩
    · exact absurd h (by decide)
    · obtain ⟨b, rfl, -, hb, -⟩ := hform name hname
      exact hb (UInt8.toNat_inj.mp (List.mem_singleton.mp h).symm)
  have htrim : (schema.columns.map codes).map trim = schema.columns.map codes := by
    conv_rhs => rw [← List.map_id (schema.columns.map codes)]
    refine List.map_congr_left fun name hname ↦ ?_
    obtain ⟨b, -, -, -, h⟩ := hform name hname
    exact h
  rw [shownColumns, decode_intercalate (by decide), hcodes,
    show (44 : UInt8).toNat = 44 from rfl, chop_of_not_mem hreturn,
    List.splitOn_intercalate _ hcomma (by simpa using hne), htrim, List.filter_eq_self]
  intro name hname
  obtain ⟨b, rfl, -⟩ := hform name hname
  simp

theorem mem_shownColumns {name : Text} (h : name ∈ shownColumns schema) :
    name ≠ [] ∧ ∀ c ∈ name, c ≠ 44 ∧ c ∈ decode ([44].intercalate schema.columns) := by
  obtain ⟨h, hne⟩ := List.mem_filter.mp h
  refine ⟨by simpa using hne, ?_⟩
  intro c hc
  obtain ⟨piece, hpiece, rfl⟩ := List.mem_map.mp h
  have hc' : c ∈ piece :=
    (List.dropWhile_suffix _).subset ((List.rdropWhile_prefix _ _).subset hc)
  obtain ⟨hsep, hmem⟩ := mem_splitOn hpiece hc'
  refine ⟨hsep, ?_⟩
  unfold chop at hmem
  split_ifs at hmem
  · exact List.mem_of_mem_dropLast hmem
  · exact hmem

/-- Names that are not plain do not arrive. -/
theorem plain_of_shownColumns (hnames : ∀ name ∈ schema.columns, Name name)
    (h : shownColumns schema = schema.columns.map codes) :
    ∀ name ∈ schema.columns, Plain name := by
  intro name hname
  have hmem : codes name ∈ shownColumns schema := by
    rw [h]
    exact List.mem_map_of_mem hname
  obtain ⟨hne, hchars⟩ := mem_shownColumns hmem
  rcases hnames name hname with rfl | ⟨b, rfl, -⟩
  · exact absurd rfl hne
  · obtain ⟨hcomma, hdecoded⟩ := hchars b.toNat List.mem_cons_self
    have hb : b ≠ 44 := by
      rintro rfl
      exact hcomma rfl
    refine ⟨b, rfl, ?_, hb⟩
    rw [decode_intercalate (by decide)] at hdecoded
    rcases mem_intercalate hdecoded with h₄₄ | ⟨item, hitem, hc⟩
    · exact absurd h₄₄ hcomma
    · obtain ⟨other, hother, rfl⟩ := List.mem_map.mp hitem
      rcases hnames other hother with rfl | ⟨b', rfl, -⟩
      · cases hc
      · by_cases hlt : b' < 0x80
        · rw [decode_ascii (by simpa using hlt), List.map_singleton, List.mem_singleton] at hc
          rwa [UInt8.toNat_inj.mp hc]
        · rw [decode_lone hlt, List.mem_singleton] at hc
          have := b.toNat_lt
          rw [hc] at this
          exact absurd this (by decide)

theorem finalColumns_all (p : Parsed) : finalColumns p (allColumns p) = (allColumns p).zipIdx := by
  have hall : (allColumns p).zipIdx.filter (fun entry ↦
      ((allColumns p).map toLowerCase).contains (toLowerCase entry.1)) = (allColumns p).zipIdx := by
    rw [List.filter_eq_self]
    rintro ⟨column, index⟩ hentry
    have hmem := List.fst_mem_of_mem_zipIdx hentry
    rw [List.contains_iff_mem]
    exact List.mem_map_of_mem hmem
  simp only [finalColumns, hall, ite_self]

theorem map_zipIdx {α β : Type} (xs : List α) (f : ℕ → β) :
    xs.zipIdx.map (fun entry ↦ f entry.2) = (List.range xs.length).map f := by
  apply List.ext_getElem
  · simp
  · intro i hi hi'
    simp

theorem tabulate_all (p : Parsed) : tabulate p (allColumns p) =
    ⟨allColumns p, p.rows.map (fun rowLine ↦ (List.range (allColumns p).length).map (fun i ↦
      (rowLine.splitOn 124).getD i []))⟩ := by
  simp only [tabulate, finalColumns_all, Shown.mk.injEq]
  refine ⟨?_, List.map_congr_left fun rowLine _ ↦ ?_⟩
  · simp
  · exact map_zipIdx (allColumns p) (fun i ↦ (rowLine.splitOn 124).getD i [])

theorem map_getD_range {α : Type} (xs : List α) (d : α) :
    (List.range xs.length).map (fun i ↦ xs.getD i d) = xs := by
  apply List.ext_getElem
  · simp
  · intro i hi hi'
    simp [hi']

theorem decode_dec (n : ℕ) : chop (decode (dec n)) = codes (dec n) := by
  rw [decode_ascii, chop_of_not_mem]
  · rfl
  · intro hmem
    obtain ⟨b, hb, h₁₃⟩ := List.mem_map.mp hmem
    have := (dec_digit hb).1
    omega
  · intro b hb
    rw [UInt8.lt_iff_toNat_lt]
    exact Nat.lt_of_le_of_lt (dec_digit hb).2 (by decide)

def expected (request : QueryRequest) (schema : TableSchema) (captured : List UInt8) : Shown :=
  ⟨schema.columns.map codes, (List.range (rowCount request schema captured)).map (fun row ↦
    (cellTexts schema captured row).map codes)⟩

/-- The page shows the columns and the rows of the answer, all columns being selected. -/
def RoundTrips (request : QueryRequest) (schema : TableSchema) (captured body : List UInt8) : Prop :=
  let response := parseResponse (responseText body)
  tabulate response (allColumns response) = expected request schema captured ∧
    response.meta "RETURNED_ROWS" = some (codes (dec (rowCount request schema captured))) ∧
    (rowCount request schema captured ≠ 0 →
      renderTable response (allColumns response) = some (expected request schema captured))

theorem body_eq {o : Outside} (hstar : request.selectList = ascii "*")
    (hbody : successReply request schema captured o = ⟨200, "OK", body⟩) :
    body = (bodyLines request schema captured).flatMap (· ++ [10]) := by
  have hnone : aggregate request schema o = none := by
    unfold aggregate
    rw [hstar, if_neg (by decide), if_neg (by decide)]
  rw [successReply, hnone] at hbody
  simp only at hbody
  split_ifs at hbody
  · rw [← flatten_successTexts]
    exact (congrArg Reply.body hbody).symm
  · have hcode : 500 = 200 := congrArg Reply.statusCode hbody
    cases hcode

/-- The page shows the answer exactly if the name of every column is plain. -/
theorem response_round_trip_iff {o : Outside} (hreq : parseRequestBody reqBody = some request)
    (hstar : request.selectList = ascii "*")
    (hschema : loadTableSchemaFromBuf buf = some schema)
    (hbody : successReply request schema captured o = ⟨200, "OK", body⟩) :
    RoundTrips request schema captured body ↔ ∀ name ∈ schema.columns, Plain name := by
  obtain ⟨hlen, hnames⟩ := schema_names hschema
  obtain ⟨-, hcount, -⟩ := loadSchema_rowWidth hschema
  have hlines : ∀ line ∈ bodyLines request schema captured, 10 ∉ line :=
    bodyLines_newline hreq hschema
  obtain ⟨hrows, hcolumns, hreturned⟩ := parseResponse_body hlines
  rw [← body_eq hstar hbody] at hrows hcolumns hreturned
  have hall : allColumns (parseResponse (responseText body)) = shownColumns schema := by
    rw [allColumns, hcolumns, columnTexts_eq hschema]
    rfl
  constructor
  · rintro ⟨htable, -, -⟩
    rw [tabulate_all, hall] at htable
    exact plain_of_shownColumns hnames (congrArg Shown.head htable)
  · intro hplain
    have hne : schema.columns ≠ [] := List.ne_nil_of_length_pos (by omega)
    have hshown := shownColumns_plain hnames hplain hne
    have htable : tabulate (parseResponse (responseText body))
        (allColumns (parseResponse (responseText body))) = expected request schema captured := by
      rw [tabulate_all, hall, hshown, hrows, expected, List.map_map]
      simp only [Shown.mk.injEq, true_and, Function.comp_def, splitOn_row hcount, List.length_map,
        hlen]
      refine List.map_congr_left fun row _ ↦ ?_
      have hcells : ((cellTexts schema captured row).map codes).length = schema.columnCount := by
        simp [cellTexts]
      rw [← hcells, map_getD_range]
    refine ⟨htable, by rw [hreturned, decode_dec], ?_⟩
    intro hcount'
    rw [renderTable, if_neg, htable]
    rw [hall, hshown, hrows]
    simp [hne, hcount']

end Table

section Answers

def starQuery : List UInt8 := ascii "TABLE=alunos\nSQL=SELECT * FROM alunos\n"

def starRequest : QueryRequest :=
  ⟨ascii "SELECT * FROM alunos", ascii "alunos", ascii "*", [], 0⟩

def twoColumns (name₁ name₂ : UInt8) : List UInt8 :=
  ascii "TBL8" ++ [1, 0, 0, 0, 2, 0, 0, 0, 1, 0, 0, 0, 4, 0, 0, 0, 0, 0, 0, 0] ++
    [name₁, name₂, 0, 0]

def twoColumnSchema (name₁ name₂ : List UInt8) : TableSchema := ⟨1, 2, 1, 4, [name₁, name₂]⟩

def idle : Outside := ⟨none, 1, [], 0, 0⟩

def replyBody (schema : TableSchema) : List UInt8 :=
  (successReply starRequest schema (ascii "12  ") idle).body

theorem named_columns_shown :
    successReply starRequest (twoColumnSchema (ascii "a") (ascii "b")) (ascii "12  ") idle =
      ⟨200, "OK", replyBody (twoColumnSchema (ascii "a") (ascii "b"))⟩ ∧
    RoundTrips starRequest (twoColumnSchema (ascii "a") (ascii "b")) (ascii "12  ")
      (replyBody (twoColumnSchema (ascii "a") (ascii "b"))) := by
  have hreq : parseRequestBody starQuery = some starRequest := by decide +kernel
  have hschema : loadTableSchemaFromBuf (twoColumns 97 98) =
      some (twoColumnSchema (ascii "a") (ascii "b")) := by decide +kernel
  have hbody : successReply starRequest (twoColumnSchema (ascii "a") (ascii "b")) (ascii "12  ")
      idle = ⟨200, "OK", replyBody (twoColumnSchema (ascii "a") (ascii "b"))⟩ := by decide +kernel
  refine ⟨hbody, (response_round_trip_iff hreq rfl hschema hbody).mpr ?_⟩
  intro name hname
  rcases List.mem_cons.mp hname with rfl | hname
  · exact ⟨97, rfl, by decide, by decide⟩
  · rw [List.mem_singleton.mp hname]
    exact ⟨98, rfl, by decide, by decide⟩

/-- The first column has a blank for a name. The page drops it from the head only, and
shows its cell in the column b. -/
theorem unnamed_column_shifts :
    parseRequestBody starQuery = some starRequest ∧ starRequest.selectList = ascii "*" ∧
    loadTableSchemaFromBuf (twoColumns 32 98) = some (twoColumnSchema [] (ascii "b")) ∧
    successReply starRequest (twoColumnSchema [] (ascii "b")) (ascii "12  ") idle =
      ⟨200, "OK", replyBody (twoColumnSchema [] (ascii "b"))⟩ ∧
    renderTable (parseResponse (responseText (replyBody (twoColumnSchema [] (ascii "b")))))
      [text "b"] = some ⟨[text "b"], [[text "1"]]⟩ ∧
    expected starRequest (twoColumnSchema [] (ascii "b")) (ascii "12  ") =
      ⟨[[], text "b"], [[text "1", text "2"]]⟩ ∧
    ¬ RoundTrips starRequest (twoColumnSchema [] (ascii "b")) (ascii "12  ")
      (replyBody (twoColumnSchema [] (ascii "b"))) := by
  refine ⟨by decide +kernel, rfl, by decide +kernel, by decide +kernel, by decide +kernel,
    by decide +kernel, ?_⟩
  intro h
  exact absurd h.1 (by decide +kernel)

end Answers

end FpgaDatabase.Reference.ClientRoundTrip
