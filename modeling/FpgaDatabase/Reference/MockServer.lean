import FpgaDatabase.Reference.EndToEnd

namespace FpgaDatabase.Reference.MockServer

open Firmware.CString Firmware.Response Library.Utf8 Agreement QueryText QueryRead EndToEnd
open FpgaTest (Str str isDecimal strip upper evaluateRow parseConditions)
open TableFormat (Failure Contents readTable writeTable unpack32 headerSize)
open Client (Text Parsed Shown parseResponse responseText renderTable allColumns tabulate)
open ClientRequest (isWordChar decimalText normalizeSql buildRequestBody)
open ClientRoundTrip (chop_append chop_of_not_mem mem_intercalate)

section Strings

def isLineEnd (c : ℕ) : Bool :=
  (10 ≤ c && c ≤ 13) || (28 ≤ c && c ≤ 30) || c = 0x85 || c = 0x2028 || c = 0x2029

/-- A carriage return takes a line feed behind it along, and nothing stands behind the last
line end. -/
def splitlines : Str → List Str
  | [] => []
  | 13 :: 10 :: rest => [] :: splitlines rest
  | c :: rest =>
    if isLineEnd c then [] :: splitlines rest
    else
      match splitlines rest with
      | [] => [[c]]
      | line :: lines => (c :: line) :: lines

/-- `int`, on a text that was stripped. ASCII digits, which can be joined with underscores;
Python takes other decimal digits as well, which the page never sends. -/
def int (s : Str) : Option ℤ :=
  let digits := if s.head? = some 43 ∨ s.head? = some 45 then s.tail else s
  let value : ℕ := (digits.filter isDecimal).foldl (fun n c ↦ 10 * n + (c - 48)) 0
  if (digits.splitOn 95).all (fun group ↦ group ≠ [] && group.all isDecimal) then
    some (if s.head? = some 45 then -(value : ℤ) else value)
  else none

end Strings

section Server

def sanitizeIdentifier (value : Str) : Bool := value ≠ [] && value.all isWordChar

structure Fields where
  table : Str
  limit : Str
  sql : Str

def Fields.set (f : Fields) (key value : Str) : Fields :=
  if key = str "TABLE" then { f with table := value }
  else if key = str "LIMIT" then { f with limit := value }
  else if key = str "SQL" then { f with sql := value }
  else f

def assign (f : Fields) (rawLine : Str) : Fields :=
  if 61 ∈ rawLine then
    f.set (upper (strip (rawLine.takeWhile (· ≠ 61)))) (strip (rawLine.dropWhile (· ≠ 61)).tail)
  else f

structure Request where
  table : Str
  limit : ℤ
  sql : Str

/-- The errors are those of `ValueError`, with their messages. -/
def parseRequestBody (body : Str) : Except Str Request :=
  let fields := (splitlines body).foldl assign ⟨[], str "8", []⟩
  if ¬ sanitizeIdentifier fields.table then
    .error (str "TABLE invalida. Use apenas letras, numeros e underscore.")
  else
    match int fields.limit with
    | none => .error (str "LIMIT precisa ser inteiro.")
    | some limit =>
      if limit ≤ 0 then .error (str "LIMIT precisa ser maior que zero.")
      else if fields.sql = [] then .error (str "SQL ausente.")
      else .ok ⟨fields.table, min limit 16, fields.sql⟩

def buildResponseBody (mode table sql : Str) (columns : List Str) (rows : List (List Str))
    (scannedRows : ℕ) : Str :=
  let lines :=
    [str "STATUS=OK", str "MODE=" ++ mode, str "TABLE=" ++ table, str "SQL=" ++ sql,
      str "SCANNED_ROWS=" ++ decimalText scannedRows,
      str "RETURNED_ROWS=" ++ decimalText rows.length,
      str "COLUMNS=" ++ [44].intercalate columns] ++
    rows.map (fun row ↦ str "ROW=" ++ [124].intercalate row)
  [10].intercalate lines ++ [10]

def errorBody (message : Str) : Str :=
  str "STATUS=ERROR" ++ 10 :: (str "MESSAGE=" ++ message ++ [10])

/-- What `read_table` says about a file. The other errors are those of `write_table`. -/
def failureText (file : List UInt8) : Failure → Str
  | .shortHeader => str "Cabecalho incompleto."
  | .badMagic => str "Magic invalido. Esperado TBL8."
  | .badVersion =>
    str "Versao nao suportada: " ++ decimalText (unpack32 ((file.take headerSize).drop 4))
  | .badColumnCount => str "Quantidade de colunas invalida."
  | .badRowWidth => str "Row width inconsistente com a quantidade de colunas maxima esperada."
  | .truncated => str "Payload truncado."
  | _ => []

/-- `do_POST`, with the directory of the tables by file names, and the bytes that
`Content-Length` announces. -/
def doPost (tableRoot : Str → Option (List UInt8)) (path : Str) (body : List UInt8) : Reply :=
  if path ≠ str "/" ∧ path ≠ str "/query" then
    ⟨404, "Not Found", encode (errorBody (str "Endpoint invalido. Use /query."))⟩
  else
    match parseRequestBody (decode body) with
    | .error message => ⟨400, "Bad Request", encode (errorBody message)⟩
    | .ok request =>
      match tableRoot (request.table ++ str ".tbl8") with
      | none => ⟨404, "Not Found", encode (errorBody (str "Arquivo de tabela nao encontrado."))⟩
      | some file =>
        match readTable file (some request.limit) with
        | .error failure => ⟨400, "Bad Request", encode (errorBody (failureText file failure))⟩
        | .ok data =>
          ⟨200, "OK", encode (buildResponseBody (str "mock-http") request.table request.sql
            data.columns data.rows data.rowCount)⟩

end Server

section Request

variable {line rest key name value s : Str} {f : Fields} {c : ℕ} {q : Asked} {w : Spelling}
  {columns : List UInt8}

theorem splitlines_line (h : ∀ c ∈ line, isLineEnd c = false) :
    splitlines (line ++ 10 :: rest) = line :: splitlines rest := by
  induction line with
  | nil => rfl
  | cons c cs ih =>
    obtain ⟨hc, hcs⟩ := List.forall_mem_cons.mp h
    have hreturn : c ≠ 13 := by
      rintro rfl
      cases hc
    rw [List.cons_append, splitlines, hc, ih hcs]
    · rfl
    · exact fun _ h _ ↦ hreturn h

theorem isLineEnd_visible {text : List UInt8} (h : Visible text) :
    ∀ c ∈ latin text, isLineEnd c = false := by
  have hall : ∀ c < 128, 32 ≤ c → isLineEnd c = false := by decide
  intro c hc
  obtain ⟨b, hb, rfl⟩ := List.mem_map.mp hc
  exact hall _ (h b hb).2 (h b hb).1

theorem strip_word (hfirst : ∀ c ∈ s.head?, isWordChar c = true)
    (hlast : ∀ c ∈ s.getLast?, isWordChar c = true) : strip s = s :=
  trimmed_of_ends (fun c hc ↦ isSpace_wordChar (hfirst c hc)) (fun c hc ↦ isSpace_wordChar (hlast c hc))

theorem strip_latin {text : List UInt8} (h : ∀ ch ∈ text, isWordChar ch.toNat = true) :
    strip (latin text) = latin text := by
  have hall : ∀ c ∈ latin text, isWordChar c = true := by
    intro c hc
    obtain ⟨b, hb, rfl⟩ := List.mem_map.mp hc
    exact h b hb
  exact strip_word (fun c hc ↦ hall c (List.mem_of_mem_head? hc))
    (fun c hc ↦ hall c (List.mem_of_getLast? hc))

theorem strip_text (hcols : Columns columns) (hq : q.Valid columns) (hw : w.Valid) :
    strip (latin (q.text w)) = latin (q.text w) := by
  apply strip_word
  · have hselect := spells_chars (by decide) hw.select
    obtain ⟨ch, chs, hs⟩ : ∃ ch chs, w.select = ch :: chs := by
      apply List.exists_cons_of_ne_nil
      intro hnil
      have hlength := hw.select.length
      rw [hnil] at hlength
      exact absurd hlength (by decide)
    rw [Asked.text, hs]
    rintro c ⟨rfl⟩
    exact isWordChar_latin (hselect ch (hs ▸ List.mem_cons_self))
  · obtain ⟨front, last, htext, hlast⟩ := text_last (w := w) hcols hq
    rw [htext, latin_append]
    simp only [latin, List.map_singleton, List.getLast?_concat]
    rintro c ⟨rfl⟩
    exact isWordChar_latin hlast

theorem assign_key (hkey : 61 ∉ key) (hname : upper (strip key) = name) :
    assign f (key ++ 61 :: value) = f.set name (strip value) := by
  have hmem : 61 ∈ key ++ 61 :: value := by simp
  have hstop : ∀ c ∈ key, decide (c ≠ 61) = true := by
    intro c hc
    simpa using fun h : c = 61 ↦ hkey (h ▸ hc)
  rw [assign, if_pos hmem, List.takeWhile_append_of_pos hstop, List.dropWhile_append_of_pos hstop,
    List.takeWhile_cons_of_neg (by simp), List.dropWhile_cons_of_neg (by simp), List.append_nil,
    hname, List.tail_cons]

theorem int_dec : ∀ n < 256, int (latin (dec n)) = some (n : ℤ) ∧
    (latin (dec n)).all isWordChar = true := by
  decide +kernel

/-- What the mock reads in the three lines that the page sends. -/
theorem parse_sent (hcols : Columns columns) (hq : q.Valid columns) (hw : w.Valid) :
    parseRequestBody (str "TABLE=" ++ latin q.table ++ 10 :: (str "LIMIT=" ++
        latin (dec (q.limit.getD 0)) ++ 10 :: (str "SQL=" ++ latin (q.text w) ++ [10]))) =
      if q.limit = none then .error (str "LIMIT precisa ser maior que zero.")
      else .ok ⟨latin q.table, min (q.limit.getD 0 : ℤ) 16, latin (q.text w)⟩ := by
  obtain ⟨hne, hchars⟩ := table_chars hq
  obtain ⟨hint, hdigits⟩ := int_dec _ hq.limit_lt
  have hword : ∀ ch ∈ q.table, isWordChar ch.toNat = true :=
    fun ch hch ↦ isWordChar_latin (hchars ch hch)
  have hline {key : Str} {text : List UInt8} (hkey : key.all (isLineEnd · = false) = true)
      (htext : Visible text) : ∀ c ∈ key ++ latin text, isLineEnd c = false := by
    refine List.forall_mem_append.mpr ⟨?_, isLineEnd_visible htext⟩
    simpa using hkey
  have hlimit : strip (latin (dec (q.limit.getD 0))) = latin (dec (q.limit.getD 0)) := by
    refine strip_latin fun ch hch ↦ ?_
    exact List.all_eq_true.mp hdigits _ (List.mem_map_of_mem hch)
  have hsplit : splitlines (str "TABLE=" ++ latin q.table ++ 10 :: (str "LIMIT=" ++
      latin (dec (q.limit.getD 0)) ++ 10 :: (str "SQL=" ++ latin (q.text w) ++ [10]))) =
      [str "TABLE" ++ 61 :: latin q.table, str "LIMIT" ++ 61 :: latin (dec (q.limit.getD 0)),
        str "SQL" ++ 61 :: latin (q.text w)] := by
    rw [splitlines_line (hline (by decide) (visible_table hq)),
      splitlines_line (hline (by decide) (visible_dec _)),
      splitlines_line (hline (by decide) (visible_text hq hcols hw))]
    rfl
  have hvalid : sanitizeIdentifier (latin q.table) = true := by
    simpa [sanitizeIdentifier, latin, hne] using hword
  have htext : latin (q.text w) ≠ [] := by
    obtain ⟨front, last, hfront, -⟩ := text_last (w := w) hcols hq
    simp [hfront, latin]
  have hfields : [str "TABLE" ++ 61 :: latin q.table, str "LIMIT" ++ 61 :: latin (dec (q.limit.getD 0)),
      str "SQL" ++ 61 :: latin (q.text w)].foldl assign ⟨[], str "8", []⟩ =
      ⟨latin q.table, latin (dec (q.limit.getD 0)), latin (q.text w)⟩ := by
    rw [List.foldl_cons, List.foldl_cons, List.foldl_cons, List.foldl_nil,
      assign_key (by decide) rfl, assign_key (by decide) rfl, assign_key (by decide) rfl,
      strip_latin hword, hlimit, strip_text hcols hq hw]
    rfl
  simp only [parseRequestBody, hsplit, hfields, hvalid, hint, not_true_eq_false, if_false, if_neg htext]
  cases hq' : q.limit with
  | none => rfl
  | some n =>
    have hpos := (hq.limit n hq').1
    rw [Option.getD_some, if_neg (by omega), if_neg (Option.some_ne_none n)]

end Request

section Answer

variable {table sql message : Str} {columns : List Str} {rows : List (List Str)} {n : ℕ} {s : Text}
  {lines : List Text}

/-- A single line, of code points that are one byte in a table. -/
def Line (s : Str) : Prop := ∀ c ∈ s, c ≠ 10 ∧ c ≠ 13 ∧ c < 256

theorem line_append {s t : Str} (hs : Line s) (ht : Line t) : Line (s ++ t) :=
  List.forall_mem_append.mpr ⟨hs, ht⟩

theorem line_key {key : String} (h : (str key).all (fun c ↦ 32 ≤ c && c < 128) = true) :
    Line (str key) := by
  intro c hc
  have hcode := List.all_eq_true.mp h c hc
  simp only [Bool.and_eq_true, decide_eq_true_eq] at hcode
  omega

theorem line_decimal (n : ℕ) : Line (decimalText n) := by
  intro c hc
  obtain ⟨ch, hch, rfl⟩ := List.mem_map.mp hc
  have hdigit := Nat.isDigit_of_mem_toDigits (by decide) (by decide) hch
  simp only [Char.isDigit, Bool.and_eq_true, decide_eq_true_eq] at hdigit
  have hlow : 48 ≤ ch.toNat := UInt32.le_iff_toNat_le.mp hdigit.1
  have hhigh : ch.toNat ≤ 57 := UInt32.le_iff_toNat_le.mp hdigit.2
  omega

theorem line_join {sep : ℕ} (hsep : sep ≠ 10 ∧ sep ≠ 13 ∧ sep < 256) (h : ∀ line ∈ lines, Line line) :
    Line ([sep].intercalate lines) := by
  intro c hc
  rcases mem_intercalate hc with rfl | ⟨line, hline, hmem⟩
  · exact hsep
  · exact h line hline c hmem

theorem responseText_lines {c : ℕ} (hhead : lines.head?.bind List.head? = some c) (hc : c < 128)
    (h : ∀ line ∈ lines, Line line) :
    responseText (encode (lines.flatMap (· ++ [10]))) = lines.flatMap (· ++ [10]) := by
  have hdecoded : decode (encode (lines.flatMap (· ++ [10]))) = lines.flatMap (· ++ [10]) := by
    refine decode_encode fun d hd ↦ .inl (Nat.lt_trans (m := 256) ?_ (by decide))
    obtain ⟨line, hline, hd⟩ := List.mem_flatMap.mp hd
    rcases List.mem_append.mp hd with hd | hd
    · exact (h line hline d hd).2.2
    · rw [List.mem_singleton.mp hd]
      decide
  have hmark : List.isPrefixOf [0xEF, 0xBB, 0xBF] (encode (lines.flatMap (· ++ [10]))) = false := by
    have hall : ∀ c < 128, (0xEF == UInt8.ofNat c) = false := by decide
    match lines with
    | (d :: line) :: lines =>
      cases hhead
      rw [List.flatMap_cons, List.cons_append, List.cons_append, encode, List.flatMap_cons,
        encodePoint_ascii hc, List.singleton_append, List.isPrefixOf, hall _ hc, Bool.false_and]
  rw [responseText, hmark, if_neg Bool.false_ne_true, hdecoded]

theorem splitLines_lines (h : ∀ line ∈ lines, Line line) :
    Client.splitLines (lines.flatMap (· ++ [10])) = lines ++ [[]] := by
  have hsep : ∀ line ∈ lines, 10 ∉ line := fun line hline hmem ↦ (h line hline 10 hmem).1 rfl
  have hchop : lines.map Client.chop = lines := by
    rw [List.map_congr_left (fun line hline ↦ chop_of_not_mem fun hmem ↦
      (h line hline 13 hmem).2.1 rfl), List.map_id']
  rw [Client.splitLines, ClientRoundTrip.splitOn_lines hsep]
  simp [hchop]

theorem join_lines (hne : lines ≠ []) :
    [10].intercalate lines ++ [10] = lines.flatMap (· ++ [10]) := by
  induction lines with
  | nil => exact absurd rfl hne
  | cons line lines ih =>
    cases lines with
    | nil => simp
    | cons next lines =>
      rw [List.intercalate_cons_cons, List.append_assoc, ih (List.cons_ne_nil _ _)]
      rfl

/-- What the page reads in the answer to a query. -/
theorem parse_answer (htable : Line table) (hsql : Line sql) (hcolumns : ∀ name ∈ columns, Line name)
    (hrows : ∀ row ∈ rows, ∀ cell ∈ row, Line cell) :
    let p := parseResponse (responseText (encode
      (buildResponseBody (str "mock-http") table sql columns rows n)))
    p.rows = rows.map (fun row ↦ [124].intercalate row) ∧
      p.meta "STATUS" = some (Client.text "OK") ∧
      p.meta "COLUMNS" = some ([44].intercalate columns) := by
  generalize hlines : [str "STATUS=OK", str "MODE=" ++ str "mock-http", str "TABLE=" ++ table,
    str "SQL=" ++ sql, str "SCANNED_ROWS=" ++ decimalText n,
    str "RETURNED_ROWS=" ++ decimalText rows.length, str "COLUMNS=" ++ [44].intercalate columns] ++
    rows.map (fun row ↦ str "ROW=" ++ [124].intercalate row) = lines
  have hbody : buildResponseBody (str "mock-http") table sql columns rows n =
      lines.flatMap (· ++ [10]) := by
    rw [← join_lines (by simp [← hlines]), ← hlines]
    rfl
  have hline : ∀ line ∈ lines, Line line := by
    intro line hline
    simp only [← hlines, List.mem_append, List.mem_cons, List.mem_map, List.not_mem_nil,
      or_false] at hline
    rcases hline with (rfl | rfl | rfl | rfl | rfl | rfl | rfl) | ⟨row, hrow, rfl⟩
    · exact line_key (by decide)
    · exact line_append (line_key (by decide)) (line_key (by decide))
    · exact line_append (line_key (by decide)) htable
    · exact line_append (line_key (by decide)) hsql
    · exact line_append (line_key (by decide)) (line_decimal n)
    · exact line_append (line_key (by decide)) (line_decimal _)
    · exact line_append (line_key (by decide)) (line_join (by decide) hcolumns)
    · exact line_append (line_key (by decide)) (line_join (by decide) (hrows row hrow))
  have hfound (rows : List (List Str)) : (rows.map (fun row ↦
      str "ROW=" ++ [124].intercalate row)).filterMap Client.rowOf =
        rows.map (fun row ↦ [124].intercalate row) := by
    rw [List.filterMap_map]
    exact congrFun List.filterMap_eq_map rows
  have hno (rows : List (List Str)) : (rows.map (fun row ↦
      str "ROW=" ++ [124].intercalate row)).filterMap Client.assignmentOf = [] := by
    rw [List.filterMap_map]
    exact List.filterMap_eq_nil_iff.mpr fun _ _ ↦ rfl
  rw [hbody, responseText_lines (c := 83) (by rw [← hlines]; rfl) (by decide) hline, parseResponse,
    splitLines_lines hline, ← hlines]
  refine ⟨?_, ?_, ?_⟩
  · simp only [List.filterMap_append, hfound]
    exact List.append_nil _
  · simp only [Parsed.meta, List.filterMap_append, hno]
    rfl
  · simp only [Parsed.meta, List.filterMap_append, hno]
    rfl

theorem showAnswer_error {code : ℕ} {reason : String} (hcode : ¬ (200 ≤ code ∧ code ≤ 299))
    (hne : message ≠ []) (hmessage : Line message) :
    showAnswer s ⟨code, reason, encode (errorBody message)⟩ = .error message := by
  have hlines : errorBody message =
      [str "STATUS=ERROR", str "MESSAGE=" ++ message].flatMap (· ++ [10]) := by
    simp [errorBody]
  have hline : ∀ line ∈ [str "STATUS=ERROR", str "MESSAGE=" ++ message], Line line := by
    simpa using ⟨line_key (by decide), line_append (line_key (by decide)) hmessage⟩
  have hfound : (parseResponse (responseText (encode (errorBody message)))).meta "MESSAGE" =
      some message := by
    rw [hlines, responseText_lines (c := 83) rfl (by decide) hline, parseResponse, splitLines_lines hline]
    rfl
  rw [showAnswer]
  simp only [hcode, hfound, not_false_eq_true, true_or, if_true]

end Answer

section Page

variable {q : Asked} {w : Spelling} {columns file : List UInt8} {contents : Contents} {sql : Text}
  {tableRoot : Str → Option (List UInt8)} {rows : List (List Str)}

def plainTable (q : Asked) (columns : List UInt8) (rows : List (List Str)) : Shown :=
  ⟨(picked q columns).map (fun entry ↦ [entry.1.toNat]),
    rows.map (fun row ↦ (picked q columns).map (fun entry ↦ row.getD entry.2 []))⟩

/-- No cell holds what separates lines or cells in an answer. -/
def Separable (rows : List (List Str)) : Prop :=
  ∀ row ∈ rows, ∀ cell ∈ row, 10 ∉ cell ∧ 13 ∉ cell ∧ 124 ∉ cell

theorem line_visible {text : List UInt8} (h : Visible text) : Line (latin text) := by
  intro c hc
  obtain ⟨b, hb, rfl⟩ := List.mem_map.mp hc
  have hcode := h b hb
  omega

theorem page_sends (hcols : Columns columns) (hq : q.Valid columns) (hw : w.Valid)
    (hsql : normalizeSql sql = latin (q.text w)) : ∃ payload, buildRequestBody sql = some payload ∧
      payload.sql = latin (q.text w) ∧ payload.body = str "TABLE=" ++ latin q.table ++ 10 ::
        (str "LIMIT=" ++ latin (dec (q.limit.getD 0)) ++ 10 :: (str "SQL=" ++ latin (q.text w) ++ [10])) := by
  have hne : latin q.table ≠ [] := by simpa [latin] using (table_chars hq).1
  obtain ⟨-, -, -, htext, -⟩ := decimal_numbers _ hq.limit_lt
  simp only [buildRequestBody, hsql, page_table hq hcols hw, page_limit hq hcols hw, if_neg hne, htext]
  exact ⟨_, rfl, rfl, rfl⟩

theorem decode_sent (hcols : Columns columns) (hq : q.Valid columns) (hw : w.Valid) :
    decode (encode (str "TABLE=" ++ latin q.table ++ 10 :: (str "LIMIT=" ++
      latin (dec (q.limit.getD 0)) ++ 10 :: (str "SQL=" ++ latin (q.text w) ++ [10])))) =
      str "TABLE=" ++ latin q.table ++ 10 :: (str "LIMIT=" ++ latin (dec (q.limit.getD 0)) ++
        10 :: (str "SQL=" ++ latin (q.text w) ++ [10])) := by
  have hline (key : String) {text : List UInt8} {rest : Str}
      (h : (str key).all (fun c ↦ 32 ≤ c && c < 128) = true) (htext : Visible text)
      (hrest : ∀ c ∈ rest, c < 256) : ∀ c ∈ str key ++ latin text ++ 10 :: rest, c < 256 :=
    List.forall_mem_append.mpr ⟨fun c hc ↦ (line_append (line_key h) (line_visible htext) c hc).2.2,
      List.forall_mem_cons.mpr ⟨by decide, hrest⟩⟩
  have hsql : ∀ c ∈ str "SQL=" ++ latin (q.text w) ++ [10], c < 256 :=
    hline "SQL=" (by decide) (visible_text hq hcols hw) fun _ h ↦ absurd h List.not_mem_nil
  have hsmall := hline "TABLE=" (by decide) (visible_table hq)
    (hline "LIMIT=" (by decide) (visible_dec (q.limit.getD 0)) hsql)
  exact decode_encode fun c hc ↦ .inl (Nat.lt_trans (hsmall c hc) (by decide))

theorem allColumns_names (hcols : Columns columns) {p : Parsed}
    (h : p.meta "COLUMNS" = some ([44].intercalate (names columns))) :
    allColumns p = names columns := by
  have hcode {name : Str} (hname : name ∈ names columns) : ∃ c, name = [c] ∧ c ≠ 44 ∧
      Client.isSpace c = false := by
    obtain ⟨ch, hch, rfl⟩ := List.mem_map.mp hname
    have hrange := alnum_range (hcols.alnum ch hch)
    exact ⟨ch.toNat, rfl, by omega, isSpace_alnum (hcols.alnum ch hch)⟩
  have hne : names columns ≠ [] := by
    simpa [names] using List.ne_nil_of_length_pos hcols.length_pos
  have hsplit : ([44].intercalate (names columns)).splitOn 44 = names columns := by
    refine List.splitOn_intercalate _ (fun name hname hmem ↦ ?_) hne
    obtain ⟨c, rfl, hc, -⟩ := hcode hname
    exact hc (List.mem_singleton.mp hmem).symm
  have htrim : (names columns).map Client.trim = names columns := by
    conv_rhs => rw [← List.map_id (names columns)]
    refine List.map_congr_left fun name hname ↦ ?_
    obtain ⟨c, rfl, -, hspace⟩ := hcode hname
    exact trim_plain (by simpa using hspace) (by simpa using hspace)
  rw [allColumns, h, Option.getD_some, hsplit, htrim, List.filter_eq_self]
  intro name hname
  obtain ⟨c, rfl, -⟩ := hcode hname
  rfl

theorem showAnswer_rows (hcols : Columns columns) (hq : q.Valid columns) (hw : w.Valid)
    (hne : rows ≠ []) (hrow : ∀ row ∈ rows, row ≠ []) (hsep : Separable rows)
    (hcells : ∀ row ∈ rows, ∀ cell ∈ row, ∀ c ∈ cell, c < 256) (n : ℕ) :
    showAnswer (latin (q.text w)) ⟨200, "OK", encode (buildResponseBody (str "mock-http")
        (latin q.table) (latin (q.text w)) (names columns) rows n)⟩ =
      .ok (some (plainTable q columns rows)) := by
  have hnames : ∀ name ∈ names columns, Line name := by
    intro name hname c hc
    obtain ⟨ch, hch, rfl⟩ := List.mem_map.mp hname
    have hrange := alnum_range (hcols.alnum ch hch)
    rw [List.mem_singleton.mp hc]
    omega
  have hlines : ∀ row ∈ rows, ∀ cell ∈ row, Line cell := by
    intro row hmem cell hcell c hc
    obtain ⟨h₁₀, h₁₃, -⟩ := hsep row hmem cell hcell
    exact ⟨fun h ↦ h₁₀ (h ▸ hc), fun h ↦ h₁₃ (h ▸ hc), hcells row hmem cell hcell c hc⟩
  obtain ⟨hrows, hstatus, hcolumns⟩ := parse_answer (n := n) (line_visible (visible_table hq))
    (line_visible (visible_text hq hcols hw)) hnames hlines
  have hall := allColumns_names hcols hcolumns
  have htable : rows.map (fun row ↦ [124].intercalate row) ≠ [] := by simpa using hne
  have hshown : names columns ≠ [] := by
    simpa [names] using List.ne_nil_of_length_pos hcols.length_pos
  have hcells (row : List Str) (hmem : row ∈ rows) : ([124].intercalate row).splitOn 124 = row :=
    List.splitOn_intercalate _ (fun cell hcell ↦ (hsep row hmem cell hcell).2.2) (hrow row hmem)
  rw [showAnswer]
  simp only [hstatus, hall, page_selected hq hcols hw]
  rw [if_neg (by simp), renderTable, hall, hrows, if_neg (by simp [hshown, htable]), tabulate,
    finalColumns_picked hq hall, hrows, plainTable, List.map_map, List.map_map, Except.ok.injEq,
    Option.some.injEq, Shown.mk.injEq]
  refine ⟨rfl, List.map_congr_left fun row hmem ↦ ?_⟩
  rw [Function.comp_apply, hcells row hmem, List.map_map]
  rfl

theorem decodeCells_code {count c : ℕ} {blob : List UInt8} {cell : Str}
    (h : cell ∈ TableFormat.decodeCells count blob) (hc : c ∈ cell) : c < 256 := by
  obtain ⟨index, -, rfl⟩ := List.mem_map.mp h
  obtain ⟨b, -, rfl⟩ := List.mem_map.mp (List.rdropWhile_prefix _ _ |>.subset hc)
  exact b.toNat_lt

theorem answerRows_all (hconditions : q.conditions = []) :
    answerRows q contents = contents.rows.take (q.limit.getD Firmware.Request.queryMaxRows) := by
  have hall : contents.rows.filter (holds q contents) = contents.rows := by
    rw [List.filter_eq_self]
    intro row _
    rw [holds, hconditions]
    rfl
  rw [answerRows, hall]

/-- What can be printed is shown unchanged. -/
theorem shownTable_printed (h : ∀ row ∈ rows, ∀ cell ∈ row, shownCell cell = cell) :
    shownTable q columns rows = plainTable q columns rows := by
  rw [shownTable, plainTable, Shown.mk.injEq]
  refine ⟨rfl, List.map_congr_left fun row hrow ↦ List.map_congr_left fun entry _ ↦ ?_⟩
  rcases Nat.lt_or_ge entry.2 row.length with hin | hout
  · rw [List.getD_eq_getElem _ _ hin]
    exact h row hrow _ (List.getElem_mem hin)
  · rw [List.getD_eq_default _ _ hout]
    rfl

/-- The page against the mock: every query without a limit is an error, and every other one shows
the first rows of the table, at most sixteen, whatever its conditions are. That is what the
reference finds if there are no conditions, the limit is not above sixteen and every cell can be
printed. -/
theorem mock_served (columns : List UInt8) (hcols : Columns columns) (rows : List (List Str))
    (hrows : rows ≠ []) (file : List UInt8) (hwrite : writeTable (names columns) rows = .ok file)
    (q : Asked) (hq : q.Valid columns) (w : Spelling) (hw : w.Valid) (sql : Text)
    (hsql : normalizeSql sql = latin (q.text w)) (tableRoot : Str → Option (List UInt8))
    (hroot : tableRoot (latin q.table ++ str ".tbl8") = some file) :
    ∃ payload contents, buildRequestBody sql = some payload ∧ readTable file none = .ok contents ∧
      (q.limit = none → showAnswer payload.sql
        (doPost tableRoot (str "/query") (encode payload.body)) =
          .error (str "LIMIT precisa ser maior que zero.")) ∧
      ∀ n ∈ q.limit, Separable (contents.rows.take (min n 16)) →
        showAnswer payload.sql (doPost tableRoot (str "/query") (encode payload.body)) =
            .ok (some (plainTable q columns (contents.rows.take (min n 16)))) ∧
          (q.conditions = [] → n ≤ 16 →
            (∀ row ∈ contents.rows.take n, ∀ cell ∈ row, shownCell cell = cell) →
              expectedTable q columns contents =
                some (plainTable q columns (contents.rows.take (min n 16)))) := by
  obtain ⟨payload, hbuilt, hsqlText, hbody⟩ := page_sends hcols hq hw hsql
  obtain ⟨table, contents, hl, hread⟩ := loaded_written hcols hrows hwrite
  have hpath : ¬ (str "/query" ≠ str "/" ∧ str "/query" ≠ str "/query") := fun h ↦ h.2 rfl
  have hparse := parse_sent hcols hq hw
  refine ⟨payload, contents, hbuilt, hread, ?_, ?_⟩
  · intro hnone
    rw [if_pos hnone] at hparse
    rw [hsqlText, hbody, doPost, if_neg hpath, decode_sent hcols hq hw, hparse]
    exact showAnswer_error (by decide) (by decide) (line_key (by decide))
  · intro n hn hsep
    have hsome : q.limit = some n := hn
    have hpos := (hq.limit n hn).1
    have hmember : ∀ row ∈ contents.rows.take (min n 16), ∃ blob : List UInt8,
        row = TableFormat.decodeCells columns.length blob := by
      intro row hrow
      have hmem := List.mem_of_mem_take hrow
      rw [hl.rows] at hmem
      obtain ⟨r, -, rfl⟩ := List.mem_map.mp hmem
      exact ⟨_, rfl⟩
    have hne : contents.rows.take (min n 16) ≠ [] := by
      have hlong := List.length_pos_of_ne_nil hl.nonempty
      apply List.ne_nil_of_length_pos
      rw [List.length_take, hl.rows, List.length_map]
      omega
    have hlimit : min ((q.limit.getD 0 : ℕ) : ℤ) 16 = ((min n 16 : ℕ) : ℤ) := by
      rw [hsome, Option.getD_some]
      omega
    rw [if_neg (by simp [hsome]), hlimit] at hparse
    have hlimited := WrittenTables.readTable_take (TableFormat.writeTable_ok hwrite) hread (min n 16)
    constructor
    · rw [hsqlText, hbody, doPost, if_neg hpath, decode_sent hcols hq hw, hparse]
      simp only [hroot, hlimited, hl.names]
      refine showAnswer_rows hcols hq hw hne ?_ hsep ?_ _
      · intro row hrow
        obtain ⟨blob, rfl⟩ := hmember row hrow
        simpa [TableFormat.decodeCells] using List.ne_nil_of_length_pos hcols.length_pos
      · intro row hrow cell hcell c hc
        obtain ⟨blob, rfl⟩ := hmember row hrow
        exact decodeCells_code hcell hc
    · intro hconditions hsmall hprinted
      rw [Nat.min_eq_left hsmall] at hne ⊢
      rw [expectedTable, answerRows_all hconditions, hsome, Option.getD_some, if_neg hne,
        shownTable_printed hprinted]

/-- The mock looks for other names than those that `create_sample_tables` writes: over such a
directory it answers no request with rows. -/
theorem samples_unserved (hroot : ∀ name file, tableRoot name = some file →
    ∃ stem, name = stem ++ str ".tbl") (path : Str) (body : List UInt8) :
    (doPost tableRoot path body).statusCode ≠ 200 := by
  have hmissing (table : Str) : tableRoot (table ++ str ".tbl8") = none := by
    cases hfound : tableRoot (table ++ str ".tbl8") with
    | none => rfl
    | some file =>
      obtain ⟨stem, hstem⟩ := hroot _ _ hfound
      have hlast := congrArg List.getLast? hstem
      rw [List.getLast?_append_of_ne_nil _ (by decide), List.getLast?_append_of_ne_nil _ (by decide)]
        at hlast
      exact absurd hlast (by decide)
  rw [doPost]
  split_ifs
  · exact (by decide : 404 ≠ 200)
  · split
    · exact (by decide : 400 ≠ 200)
    · rw [hmissing]
      exact (by decide : 404 ≠ 200)

end Page

section Examples

theorem mock_served_three : ∃ payload, buildRequestBody
      (Client.text " select b\n  From alunos\tWHERE A >= 5\n limit 2 ") = some payload ∧
    showAnswer payload.sql (doPost
        (fun name ↦ if name = str "alunos.tbl8" then some threeFile else none) (str "/query")
        (encode payload.body)) =
      .ok (some ⟨[Client.text "B"], [[Client.text "x"], [Client.text "y"]]⟩) := by
  obtain ⟨payload, contents, hbuilt, hread, -, hserved⟩ := mock_served sampleColumns columns_sample
    threeRows (by decide) threeFile write_three sampleAsked sampleAsked_valid sampleSpelling
    sampleSpelling_valid (Client.text " select b\n  From alunos\tWHERE A >= 5\n limit 2 ")
    (by decide +kernel) (fun name ↦ if name = str "alunos.tbl8" then some threeFile else none)
    (if_pos (by decide +kernel))
  rw [read_three, Except.ok.injEq] at hread
  obtain ⟨hshown, -⟩ := hserved 2 rfl (by rw [← hread]; unfold Separable; decide +kernel)
  refine ⟨payload, hbuilt, hshown.trans ?_⟩
  rw [← hread]
  have htable : plainTable sampleAsked sampleColumns (threeContents.rows.take (min 2 16)) =
      ⟨[Client.text "B"], [[Client.text "x"], [Client.text "y"]]⟩ := by
    decide +kernel
  rw [htable]

end Examples

end FpgaDatabase.Reference.MockServer
