import FpgaDatabase.Firmware.LowerCase
import FpgaDatabase.Reference.AggregateLimit
import FpgaDatabase.Reference.AnswerRows
import FpgaDatabase.Reference.QueryRead
import FpgaDatabase.Reference.WrittenTables

namespace FpgaDatabase.Reference.EndToEnd

open Hardware.Stages Hardware.Pipeline Hardware.Streaming Hardware.Program Hardware.UserHw
open Library.Quota Library.Utf8 Firmware.CString Firmware.Request Firmware.Table Firmware.Compile
open Firmware.Emitted Firmware.Conditions Firmware.UnknownColumns Firmware.Response
open Firmware.FeedInvariant Firmware.FeedRun Firmware.FeedOutcome Firmware.Completion
open Firmware.AnswerSize Firmware.WhereRoundTrip Agreement AggregateLimit ClientRoundTrip QueryText QueryRead SqlMatches
open FpgaTest (Str evaluateRow rowDict parseConditions decodeFixed)
open Firmware.WhereText (scan_append)
open TableFormat (Contents readTable writeTable decodeCells Written rowBytes cellByte)
open Client (Text Parsed Shown parseResponse responseText renderTable allColumns tabulate)

section Page

/-- What `executeQuery` does with the answer to an SQL text: the message of the error that it
throws, or the table that it shows, which is none for the empty state. -/
def showAnswer (sql : Text) (r : Reply) : Except Text (Option Shown) :=
  let parsed := parseResponse (responseText r.body)
  if ¬ (200 ≤ r.statusCode ∧ r.statusCode ≤ 299) ∨ parsed.meta "STATUS" ≠ some (Client.text "OK") then
    match parsed.meta "MESSAGE" with
    | none | some [] => .error (Client.text "HTTP " ++ ClientRequest.decimalText r.statusCode)
    | some message => .error message
  else .ok (renderTable parsed (extractSelectedColumns sql (allColumns parsed)))

end Page

section Meaning

variable (q : Asked) (columns : List UInt8) (contents : Contents)

def holds (row : List Str) : Bool :=
  evaluateRow (rowDict contents.columns row) (parseConditions (latin (clause q.conditions)))

/-- The rows that the query asks for, as many as an answer can have. -/
def answerRows : List (List Str) :=
  (contents.rows.filter (holds q contents)).take (q.limit.getD queryMaxRows)

def picked : List (UInt8 × ℕ) :=
  columns.zipIdx.filter (fun entry ↦
    q.selected = [] ∨ tolower entry.1 ∈ q.selected.map tolower)

/-- A cell as the page shows it: what is not printable is replaced. -/
def shownCell (cell : Str) : Text := cell.map (fun c ↦ (printable (UInt8.ofNat c)).toNat)

def shownTable (rows : List (List Str)) : Shown :=
  ⟨(picked q columns).map (fun entry ↦ [entry.1.toNat]),
    rows.map (fun row ↦ (picked q columns).map (fun entry ↦ shownCell (row.getD entry.2 [])))⟩

def expectedTable : Option Shown :=
  if answerRows q contents = [] then none else some (shownTable q columns (answerRows q contents))

/-- The rows behind the last one of the answer fit in the input queue of the peripheral. -/
def RestFits : Prop :=
  ∀ n ∈ q.limit, ∀ k ≤ contents.rows.length,
    n ≤ ((contents.rows.take k).filter (holds q contents)).length → contents.rows.length ≤ k + 128

end Meaning

structure Loaded (columns : List UInt8) (file : List UInt8) (table : LoadedTable)
    (contents : Contents) : Prop where
  load : loadTable file = some table
  schema : loadTableSchemaFromBuf file = some table.schema
  shape : HasColumns table.schema columns
  names : contents.columns = names columns
  rows : contents.rows = table.rows.map (fun r ↦ decodeCells columns.length r.bytes)
  nonempty : table.rows ≠ []

section Rows

variable {q : Asked} {w : Spelling} {columns file captured : List UInt8} {table : LoadedTable}
  {contents : Contents} {rs : List Cells}

theorem holds_row (hcols : Columns columns) (hq : q.Valid columns)
    (hl : Loaded columns file table contents) (r : Cells) :
    holds q contents (decodeCells columns.length r.bytes) = rowHolds columns q.conditions r := by
  have hwidth : (names columns).length = columns.length := by simp [names]
  rw [holds, hl.names, decodeCells_row r hcols.length_le, ← hwidth, rowDict_take,
    evaluateRow_clause hcols hq.conditions]

/-- The rows that match, in the reference and in the firmware. -/
theorem filter_rows (hcols : Columns columns) (hq : q.Valid columns)
    (hl : Loaded columns file table contents) (rows : List Cells) :
    (rows.map (fun r ↦ decodeCells columns.length r.bytes)).filter (holds q contents) =
      (rows.filter (rowHolds columns q.conditions)).map (fun r ↦
        decodeCells columns.length r.bytes) := by
  rw [List.filter_map]
  congr 1
  exact List.filter_congr fun r _ ↦ holds_row hcols hq hl r

theorem answerRows_eq (hcols : Columns columns) (hq : q.Valid columns)
    (hl : Loaded columns file table contents) :
    answerRows q contents = ((table.rows.filter (rowHolds columns q.conditions)).take
      (q.limit.getD queryMaxRows)).map (fun r ↦ decodeCells columns.length r.bytes) := by
  rw [answerRows, hl.rows, filter_rows hcols hq hl, List.map_take]

theorem restFits_iff (hcols : Columns columns) (hq : q.Valid columns)
    (hl : Loaded columns file table contents) {prog : List Instruction}
    (hlimit : limitOf prog = q.limit)
    (hmatching : ∀ r, matching prog r = rowHolds columns q.conditions r) :
    LimitFits prog table.rows ↔ RestFits q contents := by
  rw [LimitFits, RestFits, hlimit, hl.rows, List.length_map, funext hmatching]
  refine forall₂_congr fun n hn ↦ forall₂_congr fun k hk ↦ ?_
  have hpos := (hq.limit n hn).1
  rw [← List.map_take, filter_rows hcols hq hl, List.length_map, Nat.max_eq_right hpos]

end Rows

section Board

variable {q : Asked} {w : Spelling} {columns file captured : List UInt8} {table : LoadedTable}
  {contents : Contents} {s u : Hardware.UserHw.State} {timing timing' : ℕ → Timing} {code : ℤ}

theorem not_aggregate (hcomma : w.comma = [44] ∨ w.comma = [44, 32]) {chs : List UInt8}
    (h : ∀ ch ∈ chs, isalnum ch = true) :
    asciiStrncasecmpLocal (listText w.comma chs) (ascii "COUNT(") 6 ≠ 0 ∧
      asciiStrncasecmpLocal (listText w.comma chs) (ascii "SUM(") 4 ≠ 0 := by
  have hsecond {first : UInt8} {rest : List UInt8} (hrest : peek rest = 0 ∨ peek rest = 44) :
      asciiStrncasecmpLocal (first :: rest) (ascii "COUNT(") 6 ≠ 0 ∧
        asciiStrncasecmpLocal (first :: rest) (ascii "SUM(") 4 ≠ 0 := by
    constructor <;> intro hcmp <;> rw [asciiStrncasecmpLocal_succ] at hcmp <;>
      have hnext := (asciiStrncasecmpLocal_succ _ _ _).mp hcmp.2 <;>
      rcases hrest with hrest | hrest <;> rw [List.tail_cons, hrest] at hnext <;>
      exact absurd hnext.1 (by decide)
  match chs with
  | [] => exact hsecond (.inl rfl)
  | [ch] => exact hsecond (.inl rfl)
  | ch :: ch' :: chs =>
    rcases hcomma with hcomma | hcomma <;> rw [hcomma] <;> exact hsecond (.inr rfl)

theorem checkSelect_list (hcomma : w.comma = [44] ∨ w.comma = [44, 32]) {schema : TableSchema}
    {chs : List UInt8} (hne : chs ≠ []) (h : ∀ ch ∈ chs, isalnum ch = true)
    (hknown : ∀ ch ∈ chs, findColumnIndex schema [ch] ≠ none) :
    checkSelect schema (listText w.comma chs) = done := by
  induction chs with
  | nil => exact absurd rfl hne
  | cons ch chs ih =>
    obtain ⟨hch, hchs⟩ := List.forall_mem_cons.mp h
    obtain ⟨hfound, hfounds⟩ := List.forall_mem_cons.mp hknown
    have h₀ : ch ≠ 0 := alnum_ne hch (by decide)
    have h₁ : ch ≠ 32 := alnum_ne hch (by decide)
    have h₂ : ch ≠ 44 := alnum_ne hch (by decide)
    have hscan {rest : List UInt8} (hrest : rest = [] ∨ peek rest = 44) :
        scanColumn (ch :: rest) = ([ch], rest) := by
      rw [scanColumn, skipBlanks_of_ne (by simpa using h₁)]
      rw [← List.singleton_append]
      refine scan_append (by simp [h₀, h₁, h₂]) (by simp) ?_
      rcases hrest with rfl | hrest
      · rfl
      · rw [hrest]
        rfl
    cases chs with
    | nil =>
      change checkSelect schema [ch] = done
      rw [checkSelect, if_neg (by simpa using h₀), hscan (.inl rfl)]
      simp only [hfound, and_false, if_false]
      rw [checkSelect]
      rfl
    | cons ch' chs =>
      have hrest := ih (List.cons_ne_nil _ _) hchs hfounds
      have hlist : listText w.comma (ch :: ch' :: chs) =
          ch :: (w.comma ++ listText w.comma (ch' :: chs)) := rfl
      have hskip : skipSeparators (w.comma ++ listText w.comma (ch' :: chs)) =
          listText w.comma (ch' :: chs) := by
        obtain ⟨first, rest, hfirst, hchar⟩ := listText_first w.comma hchs
        have hstop : first ≠ 32 ∧ first ≠ 44 := by
          rcases hchar with halnum | rfl
          · exact ⟨alnum_ne halnum (by decide), alnum_ne halnum (by decide)⟩
          · decide
        rw [hfirst]
        rcases hcomma with hcomma | hcomma <;> rw [hcomma] <;> simp [skipSeparators, hstop]
      rw [hlist, checkSelect, if_neg (by simpa using h₀), hscan ?_]
      · simp only [hfound, and_false, if_false]
        rw [hskip, hrest]
      · rcases hcomma with hcomma | hcomma <;> rw [hcomma] <;> exact .inr rfl

theorem compiled (hcols : Columns columns) (hq : q.Valid columns) (hw : w.Valid)
    (hl : Loaded columns file table contents) :
    (compileAndSendInstructions (q.request w) table).error = none ∧
      limitOf (compileAndSendInstructions (q.request w) table).sent = q.limit ∧
      ∀ r, matching (compileAndSendInstructions (q.request w) table).sent r =
        rowHolds columns q.conditions r := by
  have hclause : (q.request w).whereClause = clause q.conditions := rfl
  have hwhere := compileWhere_request hcols hl.shape (valid_alnum hcols hq.conditions)
    hq.conditions_length (valid_refers hq.conditions) hclause
  rw [respelled_self hcols fun c hc ↦ (hq.conditions c hc).col_mem] at hwhere
  have hselected := hq.selected_alnum hcols
  obtain ⟨hcount, hsum⟩ := not_aggregate hw.comma hselected
  have hselect : compileSelect table.schema table.memory (q.request w).selectList = done := by
    change compileSelect table.schema table.memory (listText w.comma q.selected) = done
    rw [compileSelect, if_neg hcount, if_neg hsum]
    by_cases hnil : q.selected = []
    · rw [hnil]
      rfl
    · have hpeek : peek (listText w.comma q.selected) ≠ 42 := by
        obtain ⟨ch, chs, hchs⟩ := List.exists_cons_of_ne_nil hnil
        have halnum := hselected ch (hchs ▸ List.mem_cons_self)
        have hhead : peek (listText w.comma q.selected) = ch := by
          rw [hchs]
          cases chs <;> rfl
        rw [hhead]
        exact alnum_ne halnum (by decide)
      rw [if_pos hpeek]
      refine checkSelect_list hw.comma hnil hselected fun ch hch ↦ ?_
      obtain ⟨column, hcolumn, hlower⟩ := hq.selected ch hch
      obtain ⟨i, hi, hget⟩ := List.getElem_of_mem hcolumn
      have hname : table.schema.columns[i]? = some [column] := by
        rw [hl.shape.names, List.getElem?_map, List.getElem?_eq_getElem hi, hget]
        rfl
      have hne : column ≠ 0 := alnum_ne (hcols.alnum column hcolumn) (by decide)
      have hnamed : Names ch [column] := ⟨column, by simp [hne], hlower⟩
      obtain ⟨idx, hidx⟩ := findColumnIndex_named (by rw [hl.shape.count]; exact hi) hname hnamed
      rw [hidx]
      exact Option.some_ne_none idx
  have herror : (compileAndSendInstructions (q.request w) table).error = none := by
    rw [compileAndSendInstructions, andThen_error, andThen_error, hwhere, hselect]
    exact ⟨compileLimit_error _, rfl, rfl⟩
  refine ⟨herror, ?_, matching_conds hcols hq.conditions (by rw [wheres_emitted, hwhere])⟩
  rw [limitOf_emitted]
  cases hlimit : q.limit with
  | none =>
    have hzero : (q.request w).limit = 0 := by rw [Asked.request, hlimit]; rfl
    rw [hzero]
    rfl
  | some n =>
    obtain ⟨hlow, hhigh⟩ := hq.limit n hlimit
    have hn : (q.request w).limit = n := by rw [Asked.request, hlimit]; rfl
    rw [hn, if_pos (Nat.lt_of_succ_le hlow), Nat.mod_eq_of_lt (by omega)]

def carried (q : Asked) (columns : List UInt8) (table : LoadedTable) : List Cells :=
  (table.rows.filter (rowHolds columns q.conditions)).take (q.limit.getD queryMaxRows)

theorem carried_length (q : Asked) (columns : List UInt8) (table : LoadedTable)
    (hq : q.Valid columns) : (carried q columns table).length ≤ queryMaxRows ∧
      ∀ n ∈ q.limit, (carried q columns table).length ≤ n := by
  have hmax : queryMaxRows = 256 := rfl
  have hlt := hq.limit_lt
  rw [carried, List.length_take]
  constructor
  · cases hlimit : q.limit with
    | none =>
      rw [Option.getD_none]
      omega
    | some n =>
      rw [hlimit, Option.getD_some] at hlt
      rw [Option.getD_some]
      omega
  · intro n hn
    rw [Option.mem_def.mp hn, Option.getD_some]
    omega

theorem captureLimit_rows (limit : ℕ) {schema : TableSchema} (hwidth : schema.rowWidth = 4) :
    captureLimitBytes limit schema =
      4 * min (min (if 0 < limit then limit else schema.rowCount) schema.rowCount) queryMaxRows := by
  have hmax : queryMaxRows = 256 := rfl
  rw [captureLimitBytes, hwidth, hmax, maxColumns, cellSize]
  omega

/-- The rows that pass the peripheral and fit in the buffer are those of the answer. -/
theorem stored_rows (hcols : Columns columns) (hq : q.Valid columns) (hw : w.Valid)
    (hl : Loaded columns file table contents) (f : Fetcher generics) :
    stored (queryParams (q.request w) table)
        (answer (loaded f (compileAndSendInstructions (q.request w) table).sent)
          (table.rows.map Cells.word)) =
      (carried q columns table).flatMap Cells.bytes := by
  obtain ⟨-, hlimit, hmatching⟩ := compiled hcols hq hw hl
  obtain ⟨hcount, -, -, -⟩ := loadTable_memory hl.load
  have hwidth := (modest_of_table hl.load).rowWidth
  have hpos : ∀ limit, limitOf (compileAndSendInstructions (q.request w) table).sent = some limit →
      1 ≤ limit := by
    intro limit h
    rw [hlimit] at h
    exact (hq.limit limit h).1
  have hmax : queryMaxRows = 256 := rfl
  have hcapacity : capacity (queryParams (q.request w) table) =
      min (min (if 0 < q.limit.getD 0 then q.limit.getD 0 else table.rows.length)
        table.rows.length) queryMaxRows := by
    rw [hcount, capacity, queryParams, tableParams]
    change (((captureLimitBytes (q.limit.getD 0) table.schema : ℤ) + 3) / 4).toNat = _
    rw [captureLimit_rows _ hwidth]
    omega
  have hfilter := List.length_filter_le (rowHolds columns q.conditions) table.rows
  rw [answer_words f (wheres_emitted_length _ _) hpos, stored, hcapacity, ← List.map_take,
    List.flatMap_map, queryRows, hlimit, funext hmatching, carried]
  simp only [Cells.wordBytes_word]
  congr 1
  cases hq' : q.limit with
  | none =>
    rw [upTo, Option.getD_none, Option.getD_none, if_neg (by decide), min_self, List.take_eq_take_iff]
    omega
  | some n =>
    obtain ⟨hlow, hhigh⟩ := hq.limit n hq'
    rw [upTo, Option.getD_some, Option.getD_some, if_pos (Nat.lt_of_succ_le hlow), List.take_take,
      List.take_eq_take_iff]
    omega

theorem job_loaded (hl : Loaded columns file table contents) (hfile : file.length ≤ sdFileMaxSize)
    (request : QueryRequest) : 0 < table.totalBytes ∧
      Job (queryParams request table) (table.rows.map Cells.word) := by
  obtain ⟨-, -, hlen, -⟩ := loadTable_memory hl.load
  obtain ⟨hsmall, hparams⟩ := loadTable_rows hl.load hfile
    (captureLimitBytes request.limit table.schema)
  constructor
  · have hrows := List.length_pos_of_ne_nil hl.nonempty
    rw [LoadedTable.totalBytes]
    omega
  · rw [queryParams, hparams]
    exact job_rows _ hsmall _

/-- What the feed leaves for the answer: the rows that it carries, or nothing if the rest of
the table does not fit. -/
theorem feedResult_fed (hcols : Columns columns) (hq : q.Valid columns) (hw : w.Valid)
    (hl : Loaded columns file table contents) (hfile : file.length ≤ sdFileMaxSize) (hs : AtRest s)
    (hfed : Fed (q.request w) table s timing timing' code captured u) (t t' : Timing) :
    (RestFits q contents → feedResult (observed file code captured u t t') table =
      some ((carried q columns table).flatMap Cells.bytes)) ∧
    (¬ RestFits q contents → feedResult (observed file code captured u t t') table = some []) := by
  obtain ⟨-, hlimit, hmatching⟩ := compiled hcols hq hw hl
  obtain ⟨hpos, job⟩ := job_loaded hl hfile (q.request w)
  have ready := ready_setup hs (compileAndSendInstructions (q.request w) table).sent timing
  have hfits := (fits_iff s.pipeline.fetcher (wheres_emitted_length (q.request w) table)
    table.rows).trans (restFits_iff hcols hq hl hlimit hmatching)
  cases hfed with
  | skipped hzero => omega
  | fed _ hn =>
    rcases returns_cases ready job hn with ⟨rfl, hfit, hcaptured⟩ | ⟨rfl, hnot⟩
    · refine ⟨fun _ ↦ ?_, fun h ↦ absurd (hfits.mp hfit) h⟩
      rw [feedResult, if_pos hpos, if_neg (by simp [observed]), if_neg (by simp [observed])]
      refine congrArg some ?_
      exact hcaptured.trans (stored_rows hcols hq hw hl _)
    · refine ⟨fun h ↦ absurd (hfits.mpr h) hnot, fun _ ↦ ?_⟩
      rw [feedResult, if_pos hpos, if_neg (by simp [observed]), if_pos (by simp [observed])]

theorem exists_fed (hl : Loaded columns file table contents)
    (hfile : file.length ≤ sdFileMaxSize) (hs : AtRest s) (request : QueryRequest)
    (timing timing' : ℕ → Timing) :
    ∃ code captured u, Fed request table s timing timing' code captured u := by
  obtain ⟨hpos, job⟩ := job_loaded hl hfile request
  have ready := ready_setup hs (compileAndSendInstructions request table).sent timing
  obtain ⟨code, n, hn⟩ := feed_returns ready job timing'
  exact ⟨code, _, _, .fed hpos hn⟩

end Board

section Shown

variable {q : Asked} {w : Spelling} {columns file body : List UInt8} {table : LoadedTable}
  {contents : Contents} {rs : List Cells} {request : QueryRequest} {schema : TableSchema}

theorem status_ok {captured : List UInt8}
    (h : ∀ line ∈ bodyLines request schema captured, 10 ∉ line) :
    (parseResponse (responseText ((bodyLines request schema captured).flatMap (· ++ [10])))).meta
      "STATUS" = some (Client.text "OK") := by
  have hmark : responseText ((bodyLines request schema captured).flatMap (· ++ [10])) =
      decode ((bodyLines request schema captured).flatMap (· ++ [10])) := rfl
  have hrow (row : ℕ) : Client.chop (decode (ascii "ROW=" ++
      [124].intercalate (cellTexts schema captured row))) = Client.text "ROW=" ++
        Client.chop (decode ([124].intercalate (cellTexts schema captured row))) :=
    chop_decode_append (by decide) (by decide) _
  have hno (rows : List ℕ) : (rows.map (fun row ↦ Client.text "ROW=" ++
      Client.chop (decode ([124].intercalate (cellTexts schema captured row))))).filterMap
        Client.assignmentOf = [] := by
    rw [List.filterMap_map]
    exact List.filterMap_eq_nil_iff.mpr fun _ _ ↦ rfl
  have hlines := splitLines_decode h
  rw [bodyLines, List.map_append, List.map_map] at hlines
  simp only [List.map_cons, List.map_nil, Function.comp_def, hrow] at hlines
  rw [chop_decode_append (by decide) (by decide), chop_decode_append (by decide) (by decide),
    chop_decode_append (by decide) (by decide), chop_decode_append (by decide) (by decide),
    chop_decode_append (by decide) (by decide), chop_decode_append (by decide) (by decide),
    chop_decode_append (by decide) (by decide)] at hlines
  rw [hmark, parseResponse, bodyLines, hlines]
  simp only [Parsed.meta, List.filterMap_append, hno]
  rfl

theorem cellToText_single : ∀ b : UInt8,
    codes (cellToText (cellSize + 1) [b]) = shownCell (decodeFixed [b]) :=
  forall_byte (by decide +kernel)

theorem drop_rows (rs : List Cells) {row : ℕ} (hrow : row < rs.length) :
    (rs.flatMap Cells.bytes).drop (row * 4) =
      rs[row].bytes ++ (rs.drop (row + 1)).flatMap Cells.bytes := by
  induction rs generalizing row with
  | nil => exact absurd hrow (Nat.not_lt_zero row)
  | cons r rs ih =>
    have hlen : r.bytes.length = 4 := by simp [Cells.bytes]
    cases row with
    | zero => rfl
    | succ row =>
      rw [List.flatMap_cons, List.drop_append, List.drop_of_length_le (by omega), List.nil_append,
        hlen, show (row + 1) * 4 - 4 = row * 4 by omega, ih (by simpa using hrow)]
      rfl

/-- A row of the answer, cell by cell; a cell depends on its own byte only. -/
theorem cellTexts_row {row : ℕ} (hwidth : schema.rowWidth = 4) (hcount : schema.columnCount ≤ 4)
    (hrow : row < rs.length) : (cellTexts schema (rs.flatMap Cells.bytes) row).map codes =
      (decodeCells schema.columnCount rs[row].bytes).map shownCell := by
  rw [cellTexts, decodeCells, List.map_map, List.map_map]
  refine List.map_congr_left fun col hcol ↦ ?_
  rw [List.mem_range] at hcol
  have hlen : col < rs[row].bytes.length := by
    simp only [Cells.bytes, List.length_ofFn]
    omega
  have hone : (rs[row].bytes.drop (col * TableFormat.cellSize)).take TableFormat.cellSize =
      [rs[row].bytes[col]] := by
    rw [show col * TableFormat.cellSize = col from Nat.mul_one col, List.drop_eq_getElem_cons hlen]
    rfl
  have hcell : (rs.flatMap Cells.bytes).drop (row * schema.rowWidth + col * cellSize) =
      rs[row].bytes[col] :: (rs[row].bytes.drop (col + 1) ++
        (rs.drop (row + 1)).flatMap Cells.bytes) := by
    rw [hwidth, show col * cellSize = col from Nat.mul_one col, ← List.drop_drop, drop_rows rs hrow,
      List.drop_append_of_le_length hlen.le, List.drop_eq_getElem_cons hlen, List.cons_append]
  rw [Function.comp_apply, Function.comp_apply, hone, hcell]
  exact cellToText_single _

theorem allColumns_body {captured : List UInt8} (hcols : Columns columns)
    (hl : Loaded columns file table contents)
    (h : ∀ line ∈ bodyLines request table.schema captured, 10 ∉ line) :
    allColumns (parseResponse (responseText
      ((bodyLines request table.schema captured).flatMap (· ++ [10])))) = names columns := by
  obtain ⟨-, hcolumns, -⟩ := parseResponse_body h
  have hplain : ∀ name ∈ table.schema.columns, Plain name := by
    intro name hname
    rw [hl.shape.names] at hname
    obtain ⟨ch, hch, rfl⟩ := List.mem_map.mp hname
    have hrange := alnum_range (hcols.alnum ch hch)
    refine ⟨ch, rfl, ?_, alnum_ne (hcols.alnum ch hch) (by decide)⟩
    rw [UInt8.lt_iff_toNat_lt]
    exact Nat.lt_of_le_of_lt (show ch.toNat ≤ 122 by omega) (by decide)
  have hne : table.schema.columns ≠ [] := by
    rw [hl.shape.names]
    simpa using List.ne_nil_of_length_pos hcols.length_pos
  have hshown := shownColumns_plain (schema_names hl.schema).2 hplain hne
  rw [allColumns, hcolumns, columnTexts_eq hl.schema]
  refine hshown.trans ?_
  rw [hl.shape.names, List.map_map]
  rfl

/-- The page shows the columns that were asked for, wherever they stand in the table. -/
theorem finalColumns_picked (hq : q.Valid columns) {p : Parsed}
    (hall : allColumns p = names columns) :
    Client.finalColumns p (if q.selected = [] then names columns
      else q.selected.map (fun ch ↦ [(tolower ch).toNat])) =
        (picked q columns).map (fun entry ↦ ([entry.1.toNat], entry.2)) := by
  have hzip : (names columns).zipIdx = columns.zipIdx.map (fun entry ↦ ([entry.1.toNat], entry.2)) := by
    rw [names, List.zipIdx_map]
    rfl
  by_cases hnil : q.selected = []
  · have hpicked : picked q columns = columns.zipIdx := by
      rw [picked, List.filter_eq_self]
      exact fun entry _ ↦ by simp [hnil]
    have hfinal := finalColumns_all p
    rw [hall] at hfinal
    rw [if_pos hnil, hfinal, hpicked, hzip]
  · have htest (entry : UInt8 × ℕ) :
        ((q.selected.map (fun ch ↦ [(tolower ch).toNat])).map Client.toLowerCase).contains
          (Client.toLowerCase [entry.1.toNat]) =
        decide (q.selected = [] ∨ tolower entry.1 ∈ q.selected.map tolower) := by
      have hlower (b : UInt8) : Client.toLowerCase [b.toNat] = [(tolower b).toNat] :=
        toLowerCase_latin [b]
      have htwice : (q.selected.map (fun ch ↦ [(tolower ch).toNat])).map Client.toLowerCase =
          (q.selected.map tolower).map (fun ch ↦ [ch.toNat]) := by
        rw [List.map_map, List.map_map]
        refine List.map_congr_left fun ch _ ↦ ?_
        rw [Function.comp_apply, Function.comp_apply, hlower, Firmware.LowerCase.tolower_tolower]
      have hinjective : Function.Injective (fun ch : UInt8 ↦ [ch.toNat]) :=
        fun a b hab ↦ UInt8.toNat_inj.mp (List.cons.inj hab).1
      rw [htwice, hlower, Bool.eq_iff_iff, List.contains_iff_mem,
        List.mem_map_of_injective hinjective, decide_eq_true_eq]
      exact (or_iff_right hnil).symm
    have hfilter : (names columns).zipIdx.filter (fun entry ↦
        ((q.selected.map (fun ch ↦ [(tolower ch).toNat])).map Client.toLowerCase).contains
          (Client.toLowerCase entry.1)) =
        (picked q columns).map (fun entry ↦ ([entry.1.toNat], entry.2)) := by
      rw [hzip, List.filter_map, picked]
      congr 1
      exact List.filter_congr fun entry _ ↦ htest entry
    have hsome : picked q columns ≠ [] := by
      obtain ⟨ch, chs, hchs⟩ := List.exists_cons_of_ne_nil hnil
      have hch : ch ∈ q.selected := hchs ▸ List.mem_cons_self
      obtain ⟨column, hcolumn, hlower⟩ := hq.selected ch hch
      obtain ⟨i, hi, hget⟩ := List.getElem_of_mem hcolumn
      have hentry : (column, i) ∈ picked q columns := by
        refine List.mem_filter.mpr ⟨List.mk_mem_zipIdx_iff_getElem?.mpr ?_, ?_⟩
        · rw [List.getElem?_eq_getElem hi, hget]
        · rw [decide_eq_true_eq, hlower]
          exact .inr (List.mem_map_of_mem hch)
      exact List.ne_nil_of_mem hentry
    rw [if_neg hnil, Client.finalColumns, hall]
    simp only [hfilter]
    rw [if_pos (by simpa using hsome)]

theorem renderTable_shown (hcols : Columns columns) (hq : q.Valid columns) (hw : w.Valid)
    (hl : Loaded columns file table contents) {p : Parsed} (hall : allColumns p = names columns)
    (hrows : p.rows = (List.range rs.length).map (fun row ↦ Client.chop (decode ([124].intercalate
      (cellTexts table.schema (rs.flatMap Cells.bytes) row))))) :
    renderTable p (extractSelectedColumns (latin (q.text w)) (allColumns p)) =
      if rs = [] then none else some (shownTable q columns (rs.map (fun r ↦
        decodeCells columns.length r.bytes))) := by
  have modest := modest_of_table hl.load
  have hcount : 1 ≤ table.schema.columnCount := by
    rw [hl.shape.count]
    exact hcols.length_pos
  rw [hall, page_selected hq hcols hw, renderTable, hall]
  by_cases hnil : rs = []
  · rw [if_pos hnil, if_pos]
    rw [hrows, hnil]
    exact .inr rfl
  · have hne : names columns ≠ [] := by
      simpa [names] using List.ne_nil_of_length_pos hcols.length_pos
    have hsome : p.rows ≠ [] := by
      rw [hrows]
      simpa using hnil
    rw [if_neg hnil, if_neg (by simp [hne, hsome]), Option.some.injEq, tabulate,
      finalColumns_picked hq hall, shownTable, Shown.mk.injEq]
    constructor
    · rw [List.map_map]
      rfl
    · rw [hrows, List.map_map]
      apply List.ext_getElem
      · simp
      · intro row hrow _
        have hrow' : row < rs.length := by simpa using hrow
        simp only [List.getElem_map, List.getElem_range, Function.comp_apply, List.map_map]
        rw [splitOn_row hcount, cellTexts_row modest.rowWidth modest.columnCount hrow', hl.shape.count]
        refine List.map_congr_left fun entry _ ↦ ?_
        exact List.getD_map _ [] shownCell

theorem success_lines (hcols : Columns columns) (hq : q.Valid columns) (hw : w.Valid)
    (hl : Loaded columns file table contents) {reqBody : List UInt8}
    (hparse : parseRequestBody reqBody = some (q.request w)) (hmany : rs.length ≤ queryMaxRows)
    (hlimit : ∀ n ∈ q.limit, rs.length ≤ n) (o : Outside) :
    rowCount (q.request w) table.schema (rs.flatMap Cells.bytes) = rs.length ∧
      successReply (q.request w) table.schema (rs.flatMap Cells.bytes) o =
        ⟨200, "OK", (bodyLines (q.request w) table.schema (rs.flatMap Cells.bytes)).flatMap
          (· ++ [10])⟩ := by
  have modest := modest_of_table hl.load
  have hbytes : (rs.flatMap Cells.bytes).length = 4 * rs.length := by
    simp [List.length_flatMap, Cells.bytes, Nat.mul_comm]
  constructor
  · have hwidth := modest.rowWidth
    have hdiv : 4 * rs.length / 4 = rs.length := Nat.mul_div_cancel_left _ (by decide)
    have hfour : (4 : ℕ) ≠ 0 := by decide
    simp only [rowCount, returnedRows, hbytes, hwidth, if_pos hfour, hdiv]
    change (if 0 < q.limit.getD 0 ∧ q.limit.getD 0 < rs.length then q.limit.getD 0 else rs.length) = _
    rw [if_neg]
    rintro ⟨hpos, hlt⟩
    cases hq' : q.limit with
    | none =>
      rw [hq', Option.getD_none] at hpos
      omega
    | some n =>
      have hle := hlimit n hq'
      rw [hq', Option.getD_some] at hlt
      omega
  · have hnone : aggregate (q.request w) table.schema o = none := by
      obtain ⟨hcount, hsum⟩ := not_aggregate hw.comma (hq.selected_alnum hcols)
      rw [aggregate]
      exact (if_neg hcount).trans (if_neg hsum)
    have hshort : (rs.flatMap Cells.bytes).length ≤ 4 * queryMaxRows := by
      rw [hbytes]
      omega
    have hroom := successTexts_length hparse modest hshort
    rw [successReply, hnone]
    simp only
    rw [if_pos hroom, flatten_successTexts]

theorem showAnswer_success (hcols : Columns columns) (hq : q.Valid columns) (hw : w.Valid)
    (hl : Loaded columns file table contents) {reqBody : List UInt8}
    (hparse : parseRequestBody reqBody = some (q.request w)) (hmany : rs.length ≤ queryMaxRows)
    (hlimit : ∀ n ∈ q.limit, rs.length ≤ n) (o : Outside) :
    showAnswer (latin (q.text w))
        (successReply (q.request w) table.schema (rs.flatMap Cells.bytes) o) =
      .ok (if rs = [] then none else some (shownTable q columns (rs.map (fun r ↦
        decodeCells columns.length r.bytes)))) := by
  obtain ⟨hrows, hreply⟩ := success_lines hcols hq hw hl hparse hmany hlimit o
  have hlines : ∀ line ∈ bodyLines (q.request w) table.schema (rs.flatMap Cells.bytes), 10 ∉ line :=
    bodyLines_newline hparse hl.schema
  have hstatus := status_ok hlines
  have hall := allColumns_body hcols hl hlines
  obtain ⟨hrowTexts, -, -⟩ := parseResponse_body hlines
  rw [hreply, showAnswer]
  simp only [hstatus]
  rw [if_neg (by simp), renderTable_shown hcols hq hw hl hall (hrows ▸ hrowTexts)]

/-- What the page makes of the rows that the answer carries, and of none. -/
theorem shown_answer (hcols : Columns columns) (hq : q.Valid columns) (hw : w.Valid)
    (hl : Loaded columns file table contents) {reqBody : List UInt8}
    (hparse : parseRequestBody reqBody = some (q.request w)) (o : Outside) :
    showAnswer (latin (q.text w)) (successReply (q.request w) table.schema
        ((carried q columns table).flatMap Cells.bytes) o) = .ok (expectedTable q columns contents) ∧
      showAnswer (latin (q.text w)) (successReply (q.request w) table.schema [] o) = .ok none := by
  have hanswer : answerRows q contents = (carried q columns table).map (fun r ↦
      decodeCells columns.length r.bytes) := answerRows_eq hcols hq hl
  obtain ⟨hmany, hlimit⟩ := carried_length q columns table hq
  constructor
  · rw [showAnswer_success hcols hq hw hl hparse hmany hlimit, expectedTable, hanswer]
    exact congrArg _ (if_congr List.map_eq_nil_iff.symm rfl rfl)
  · have hempty := showAnswer_success hcols hq hw hl hparse
      (List.length_nil.trans_le (Nat.zero_le _)) (fun n _ ↦ Nat.zero_le n) o
    rw [if_pos rfl] at hempty
    exact hempty

end Shown

section Tables

variable {columns file : List UInt8} {rows : List (List Str)}

theorem written_row {i : ℕ} (hi : i < rows.length) :
    Cells.bytes (fun j ↦ (rows.flatMap rowBytes).getD (4 * i + j) 0) = rowBytes rows[i] := by
  apply List.ext_getElem
  · simp [Cells.bytes, rowBytes, TableFormat.maxColumns]
  · intro j hj _
    have hj' : j < 4 := by simpa [Cells.bytes] using hj
    have hget := WrittenTables.getElem?_rows rows hi hj'
    simp only [Cells.bytes, rowBytes, List.getElem_ofFn, List.getElem_map, List.getElem_range]
    rw [List.getD_eq_getElem?_getD, hget, Option.getD_some]

/-- A table of the table writer, as the firmware and the reference read it. -/
theorem loaded_written (hcols : Columns columns) (hrows : rows ≠ [])
    (h : writeTable (names columns) rows = .ok file) :
    ∃ table contents, Loaded columns file table contents ∧ readTable file none = .ok contents := by
  have hwritten := TableFormat.writeTable_ok h
  have hload := WrittenTables.loadTable_written hwritten hrows
  have hlen : (names columns).length = columns.length := by simp [names]
  have hname {ch : UInt8} (hch : ch ∈ columns) : trimCopy 2 [cellByte [ch.toNat]] = [ch] ∧
      decodeFixed [cellByte [ch.toNat]] = [ch.toNat] := by
    have halnum := hcols.alnum ch hch
    have hrange := alnum_range halnum
    have hspace := isspace_of_alnum halnum
    have hbyte : cellByte [ch.toNat] = ch := UInt8.ofNat_toNat
    rw [hbyte]
    constructor
    · rw [trimCopy_plain]
      · rfl
      · rintro d ⟨rfl⟩
        exact hspace
      · rintro d ⟨rfl⟩
        exact trailing_of_isspace (alnum_ne halnum (by decide)) hspace
    · simp only [decodeFixed, List.map_cons, List.map_nil, List.rdropWhile_singleton]
      rw [if_neg]
      simp only [Bool.or_eq_true, decide_eq_true_eq]
      omega
  have hcolumns : (names columns).map (fun c ↦ trimCopy 2 [cellByte c]) =
      columns.map (fun ch ↦ [ch]) := by
    rw [names, List.map_map]
    exact List.map_congr_left fun ch hch ↦ (hname hch).1
  refine ⟨_, _, ⟨hload, WrittenTables.schema_written hwritten, ⟨hcolumns, hlen⟩, ?_, ?_, ?_⟩,
    WrittenTables.readTable_written hwritten⟩
  · change (names columns).map (fun c ↦ decodeFixed [cellByte c]) = names columns
    rw [names, List.map_map]
    exact List.map_congr_left fun ch hch ↦ (hname hch).2
  · simp only [LoadedTable.rows, hlen]
    apply List.ext_getElem
    · simp
    · intro i hi _
      have hi' : i < rows.length := by simpa using hi
      simp only [List.getElem_map, List.getElem_range, written_row hi']
  · simpa [LoadedTable.rows] using hrows

end Tables

section Answers

open Firmware.SdDriver Firmware.SdSearch Firmware.TableLoad Firmware.FatVolume

/-- From the SQL text that a user types to the table that the page shows: what is shown is what
the reference finds in the table that was written to the card, in the columns asked for, and
nothing if the rest of the table does not fit in the peripheral. -/
theorem query_answered (columns : List UInt8) (hcols : Columns columns) (rows : List (List Str))
    (hrows : rows ≠ []) (file : List UInt8) (hwrite : writeTable (names columns) rows = .ok file)
    (hsize : file.length ≤ sdFileMaxSize) (q : Asked) (hq : q.Valid columns) (w : Spelling)
    (hw : w.Valid) (hlen : (q.text w).length ≤ 255) (sql : Text)
    (hsql : ClientRequest.normalizeSql sql = latin (q.text w)) (v : Volume) (e : Slot)
    (hcard : WrittenTables.Holds v q.table file e) :
    ∃ payload request table contents, ClientRequest.buildRequestBody sql = some payload ∧
      parseRequestBody (encode payload.body) = some request ∧
      readTable file none = .ok contents ∧
      (∀ buf target, ∃ l, Loads (sound v.image) request.table buf target l ∧ l.ret = true ∧
        l.target = ⟨table.schema, table.memory.length⟩ ∧ l.memory = table.memory) ∧
      ∀ s, AtRest s → ∀ timing timing',
        (∃ code captured u, Fed request table s timing timing' code captured u) ∧
        ∀ code captured u, Fed request table s timing timing' code captured u → ∀ t t',
          (RestFits q contents →
            showAnswer payload.sql (reply request (observed file code captured u t t')) =
              .ok (expectedTable q columns contents)) ∧
          (¬ RestFits q contents →
            showAnswer payload.sql (reply request (observed file code captured u t t')) =
              .ok none) := by
  obtain ⟨payload, hbuilt, hparse, hsqlText, -⟩ := query_sent hcols hq hw hlen hsql
  obtain ⟨table, contents, hl, hread⟩ := loaded_written hcols hrows hwrite
  have hne : file ≠ [] := by
    have hwritten := WrittenTables.length_written (TableFormat.writeTable_ok hwrite)
    exact List.ne_nil_of_length_pos (by omega)
  refine ⟨payload, q.request w, table, contents, hbuilt, hparse, hread, ?_, ?_⟩
  · intro buf target
    obtain ⟨l, hloads, hl'⟩ := WrittenTables.load_held hcard hne hsize buf target
    rw [hl.load] at hl'
    exact ⟨l, hloads, hl'⟩
  · intro s hs timing timing'
    refine ⟨exists_fed hl hsize hs _ timing timing', ?_⟩
    intro code captured u hfed t t'
    obtain ⟨hfits, hnot⟩ := feedResult_fed hcols hq hw hl hsize hs hfed t t'
    have hreply (rs : List Cells) (h : feedResult (observed file code captured u t t') table =
        some (rs.flatMap Cells.bytes)) :
        reply (q.request w) (observed file code captured u t t') =
          successReply (q.request w) table.schema (rs.flatMap Cells.bytes)
            (observed file code captured u t t') := by
      have htable : (observed file code captured u t t').file.bind loadTable = some table := hl.load
      simp only [reply, if_neg (show ¬ userHwBase = 0 by decide), htable,
        (compiled hcols hq hw hl).1, h]
    obtain ⟨hshown, hempty⟩ := shown_answer hcols hq hw hl hparse (observed file code captured u t t')
    rw [hsqlText]
    constructor
    · intro h
      rw [hreply _ (hfits h)]
      exact hshown
    · intro h
      rw [hreply [] (hnot h)]
      exact hempty

end Answers

section Examples

def threeRows : List (List Str) :=
  [[FpgaTest.str "7", FpgaTest.str "x"], [FpgaTest.str "3", FpgaTest.str "y"],
    [FpgaTest.str "9", FpgaTest.str "z"]]

def threeFile : List UInt8 :=
  TableFormat.magic ++ [1, 0, 0, 0, 2, 0, 0, 0, 3, 0, 0, 0, 4, 0, 0, 0, 0, 0, 0, 0] ++ ascii "AB" ++
    [0, 0] ++ ascii "7x  3y  9z  "

def threeContents : Contents := ⟨[FpgaTest.str "A", FpgaTest.str "B"], threeRows, 3, 4⟩

theorem write_three : writeTable (names sampleColumns) threeRows = .ok threeFile := by rfl

theorem read_three : readTable threeFile none = .ok threeContents := by rfl

theorem restFits_three : RestFits sampleAsked threeContents := by
  rintro n - k - -
  change 3 ≤ k + 128
  omega

theorem three_answered : ∃ payload request, ClientRequest.buildRequestBody
      (Client.text " select b\n  From alunos\tWHERE A >= 5\n limit 2 ") = some payload ∧
    parseRequestBody (encode payload.body) = some request ∧
    ∃ code captured u, showAnswer payload.sql
        (reply request (observed threeFile code captured u ⟨0, 0⟩ ⟨0, 0⟩)) =
      .ok (some ⟨[Client.text "B"], [[Client.text "x"], [Client.text "z"]]⟩) := by
  have hlen : threeFile.length ≤ 512 := by decide
  have hne : threeFile ≠ [] := by decide
  obtain ⟨payload, request, table, contents, hbuilt, hparse, hread, -, hrun⟩ :=
    query_answered sampleColumns columns_sample threeRows (by decide) threeFile write_three
      (by decide) sampleAsked sampleAsked_valid sampleSpelling sampleSpelling_valid
      (by decide +kernel) (Client.text " select b\n  From alunos\tWHERE A >= 5\n limit 2 ")
      (by decide +kernel) _ _ (WrittenTables.holds_alunos hlen hne)
  obtain ⟨⟨code, captured, u, hfed⟩, hshown⟩ := hrun .powerUp atRest_powerUp atOnce atOnce
  rw [read_three] at hread
  cases hread
  refine ⟨payload, request, hbuilt, hparse, code, captured, u, ?_⟩
  rw [(hshown code captured u hfed ⟨0, 0⟩ ⟨0, 0⟩).1 restFits_three]
  have hexpected : expectedTable sampleAsked sampleColumns threeContents =
      some ⟨[Client.text "B"], [[Client.text "x"], [Client.text "z"]]⟩ := by
    decide +kernel
  rw [hexpected]

end Examples

end FpgaDatabase.Reference.EndToEnd
