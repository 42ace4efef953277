import FpgaDatabase.Reference.Service
import FpgaDatabase.Reference.TestScript

namespace FpgaDatabase.Reference.Harness

open Firmware.CString Firmware.Request Firmware.Table Firmware.Response Firmware.Conditions
open Firmware.AnswerSize Firmware.Completion Firmware.WhereRoundTrip Firmware.Tasks
open Firmware.Admission Firmware.Replies Library.Utf8 Library.Execution
open Agreement AggregateLimit ClientRoundTrip QueryText QueryRead EndToEnd Service TestScript
open FpgaTest (Str str isSpace strip)
open TableFormat (Contents readTable writeTable decodeCells)
open ClientRequest (decimalText)

section Answers

variable {columns file : List UInt8} {q : Asked} {w : Spelling} {table : LoadedTable}
  {contents : Contents} {rs : List Cells} {lines tail : List Str}

theorem split_lines (hfirst : ∀ line ∈ lines, 10 ∉ line)
    (hhead : ∀ c ∈ ((lines ++ tail).flatMap (· ++ [10])).head?, isSpace c = false) (hne : tail ≠ [])
    (htail : ∀ line ∈ tail, line ≠ [] ∧ ∀ c ∈ line, isSpace c = false) :
    (strip ((lines ++ tail).flatMap (· ++ [10]))).splitOn 10 = lines ++ tail := by
  obtain ⟨front, last, rfl⟩ := (List.eq_nil_or_concat tail).resolve_left hne
  rw [List.concat_eq_append] at hhead htail ⊢
  obtain ⟨hfront, hlast⟩ := List.forall_mem_append.mp htail
  obtain ⟨hlastne, hchars⟩ := hlast last (List.mem_singleton_self _)
  have hnewline {line : Str} (h : ∀ c ∈ line, isSpace c = false) : 10 ∉ line :=
    fun hmem ↦ absurd (h 10 hmem) (by decide)
  have hno : ∀ line ∈ lines ++ front, 10 ∉ line :=
    List.forall_mem_append.mpr ⟨hfirst, fun line hline ↦ hnewline (hfront line hline).2⟩
  rw [← List.append_assoc] at hhead ⊢
  generalize lines ++ front = init at hhead hno ⊢
  have hstart : ((init ++ [last]).flatMap (· ++ [10])).dropWhile isSpace =
      (init ++ [last]).flatMap (· ++ [10]) := by
    cases htext : (init ++ [last]).flatMap (· ++ [10]) with
    | nil => rfl
    | cons c cs =>
      rw [htext] at hhead
      rw [List.dropWhile_cons_of_neg (by simp [hhead c rfl])]
  have hend : ((init ++ [last]).flatMap (· ++ [10])).rdropWhile isSpace =
      init.flatMap (· ++ [10]) ++ last := by
    obtain ⟨before, c, hc⟩ := (List.eq_nil_or_concat last).resolve_left hlastne
    rw [List.concat_eq_append] at hc
    have hplain : isSpace c = false := hchars c (by simp [hc])
    rw [List.flatMap_append, List.flatMap_singleton, ← List.append_assoc,
      List.rdropWhile_concat_pos isSpace _ 10 rfl, hc, ← List.append_assoc,
      List.rdropWhile_concat_neg isSpace _ c (by simp [hplain])]
  rw [strip, hstart, hend]
  clear hstart hend hhead
  induction init with
  | nil => exact List.splitOn_eq_singleton (hnewline hchars)
  | cons line init ih =>
    obtain ⟨hline, hno⟩ := List.forall_mem_cons.mp hno
    rw [List.flatMap_cons, List.append_assoc, List.append_assoc, List.singleton_append,
      List.splitOn_append_cons_self_of_not_mem hline, ih hno]
    rfl

theorem bodyLines_visible (hcols : Columns columns) (hq : q.Valid columns) (hw : w.Valid)
    (hl : Loaded columns file table contents) (rs : List Cells) :
    ∀ line ∈ bodyLines (q.request w) table.schema (rs.flatMap Cells.bytes), Visible line := by
  have hvisible := visible_text hq hcols hw
  have hstr {text : List UInt8} (h : Visible text) : Visible (str text) :=
    fun b hb ↦ h b (str_subset hb)
  have hnames : Visible ([44].intercalate (columnTexts table.schema)) := by
    rw [columnTexts_eq hl.schema, hl.shape.names]
    intro b hb
    rcases mem_intercalate hb with rfl | ⟨name, hname, hb⟩
    · decide
    · obtain ⟨ch, hch, rfl⟩ := List.mem_map.mp hname
      rw [List.mem_singleton.mp hb]
      have hrange := alnum_range (hcols.alnum ch hch)
      omega
  have hcells (row : ℕ) : Visible ([124].intercalate (cellTexts table.schema
      (rs.flatMap Cells.bytes) row)) := by
    intro b hb
    rcases mem_intercalate hb with rfl | ⟨cell, hcell, hb⟩
    · decide
    · obtain ⟨hlow, hhigh, -⟩ := cellTexts_ascii hcell hb
      omega
  intro line hline
  simp only [bodyLines, List.mem_append, List.mem_cons, List.mem_map, List.not_mem_nil,
    or_false] at hline
  rcases hline with (rfl | rfl | rfl | rfl | rfl | rfl | rfl) | ⟨row, -, rfl⟩
  · exact visible_all rfl
  · exact visible_all rfl
  · exact visible_append (visible_all rfl) (hstr (visible_table hq))
  · exact visible_append (visible_all rfl) (hstr hvisible)
  · exact visible_append (visible_all rfl) (visible_dec _)
  · exact visible_append (visible_all rfl) (visible_dec _)
  · exact visible_append (visible_all rfl) hnames
  · exact visible_append (visible_all rfl) (hcells row)

theorem codes_intercalate (b : UInt8) (items : List (List UInt8)) :
    codes ([b].intercalate items) = [b.toNat].intercalate (items.map codes) := by
  cases items with
  | nil => rfl
  | cons item items =>
    rw [intercalate_cons, List.map_cons, intercalate_cons]
    simp [codes, List.map_flatten, Function.comp_def]

theorem cellToText_chars (src : List UInt8) :
    ∀ ch ∈ cellToText (cellSize + 1) src, isSpace ch.toNat = false := by
  have hone : ∀ b : UInt8, (cellToText (cellSize + 1) [b]).all (fun ch ↦ !isSpace ch.toNat) = true :=
    forall_byte (by decide +kernel)
  cases src with
  | nil => exact fun ch hch ↦ by cases hch
  | cons b src =>
    intro ch hch
    have hall := List.all_eq_true.mp (hone b) ch hch
    simpa using hall

/-- What the script reads in an answer: the rows, cell by cell. -/
theorem rows_of_answer (hcols : Columns columns) (hq : q.Valid columns) (hw : w.Valid)
    (hl : Loaded columns file table contents)
    (hrows : rowCount (q.request w) table.schema (rs.flatMap Cells.bytes) = rs.length) :
    (((strip (codes ((bodyLines (q.request w) table.schema (rs.flatMap Cells.bytes)).flatMap
      (· ++ [10])))).splitOn 10).filter (str "ROW=").isPrefixOf).map (fun line ↦
        (line.dropWhile (· ≠ 61)).tail) =
      rs.map (fun r ↦ [124].intercalate ((decodeCells columns.length r.bytes).map shownCell)) := by
  have modest := modest_of_table hl.load
  have hvisible := bodyLines_visible hcols hq hw hl rs
  generalize hcaptured : rs.flatMap Cells.bytes = captured at hrows hvisible ⊢
  have hcodes (lines : List (List UInt8)) : codes (lines.flatMap (· ++ [10])) =
      (lines.map codes).flatMap (· ++ [10]) := by
    simp [codes, List.map_flatMap, List.flatMap_map]
  have hnewline : ∀ line ∈ (bodyLines (q.request w) table.schema captured).map codes, 10 ∉ line := by
    intro line hline hmem
    obtain ⟨bytes, hbytes, rfl⟩ := List.mem_map.mp hline
    obtain ⟨b, hb, h₁₀⟩ := List.mem_map.mp hmem
    have hrange := hvisible bytes hbytes b hb
    omega
  have hnames : ∀ c ∈ codes ([44].intercalate (columnTexts table.schema)), isSpace c = false := by
    intro c hc
    obtain ⟨b, hb, rfl⟩ := List.mem_map.mp hc
    rw [columnTexts_eq hl.schema, hl.shape.names] at hb
    rcases mem_intercalate hb with rfl | ⟨name, hname, hb⟩
    · rfl
    · obtain ⟨ch, hch, rfl⟩ := List.mem_map.mp hname
      rw [List.mem_singleton.mp hb]
      exact isSpace_of_alnum (hcols.alnum ch hch)
  have hcells (row : ℕ) : ∀ c ∈ codes ([124].intercalate (cellTexts table.schema captured row)),
      isSpace c = false := by
    intro c hc
    obtain ⟨b, hb, rfl⟩ := List.mem_map.mp hc
    rcases mem_intercalate hb with rfl | ⟨cell, hcell, hb⟩
    · rfl
    · obtain ⟨col, -, rfl⟩ := List.mem_map.mp hcell
      exact cellToText_chars _ b hb
  have hkeyed {key text : Str} (hkey : key ≠ [] ∧ ∀ c ∈ key, isSpace c = false)
      (htext : ∀ c ∈ text, isSpace c = false) :
      key ++ text ≠ [] ∧ ∀ c ∈ key ++ text, isSpace c = false :=
    ⟨fun h ↦ hkey.1 (List.append_eq_nil_iff.mp h).1, List.forall_mem_append.mpr ⟨hkey.2, htext⟩⟩
  have htail : ∀ line ∈ (str "COLUMNS=" ++ codes ([44].intercalate (columnTexts table.schema))) ::
      (List.range rs.length).map (fun row ↦ str "ROW=" ++
        codes ([124].intercalate (cellTexts table.schema captured row))),
      line ≠ [] ∧ ∀ c ∈ line, isSpace c = false := by
    rw [List.forall_mem_cons]
    refine ⟨hkeyed (by decide) hnames, fun line hline ↦ ?_⟩
    obtain ⟨row, -, rfl⟩ := List.mem_map.mp hline
    exact hkeyed (by decide) (hcells row)
  have hlines : (bodyLines (q.request w) table.schema captured).map codes =
      [str "STATUS=" ++ codes (ascii "OK"), str "MODE=" ++ codes mode,
        str "TABLE=" ++ codes (Firmware.Response.str (q.request w).table),
        str "SQL=" ++ codes (Firmware.Response.str (q.request w).sql),
        str "SCANNED_ROWS=" ++ codes (dec table.schema.rowCount),
        str "RETURNED_ROWS=" ++ codes (dec (rowCount (q.request w) table.schema captured))] ++
      ((str "COLUMNS=" ++ codes ([44].intercalate (columnTexts table.schema))) ::
        (List.range rs.length).map (fun row ↦ str "ROW=" ++
          codes ([124].intercalate (cellTexts table.schema captured row)))) := by
    rw [bodyLines, hrows]
    simp only [List.map_append, List.map_cons, List.map_nil, List.map_map]
    rfl
  rw [hlines] at hnewline
  rw [hcodes, hlines, split_lines (fun line hline ↦ hnewline line (List.mem_append_left _ hline))
    (fun c hc ↦ by cases hc; rfl) (List.cons_ne_nil _ _) htail]
  have hfilter : ((List.range rs.length).map (fun row ↦ str "ROW=" ++
      codes ([124].intercalate (cellTexts table.schema captured row)))).filter
        (str "ROW=").isPrefixOf = (List.range rs.length).map (fun row ↦ str "ROW=" ++
          codes ([124].intercalate (cellTexts table.schema captured row))) := by
    rw [List.filter_eq_self]
    intro line hline
    obtain ⟨row, -, rfl⟩ := List.mem_map.mp hline
    rfl
  change (((List.range rs.length).map (fun row ↦ str "ROW=" ++
      codes ([124].intercalate (cellTexts table.schema captured row)))).filter
        (str "ROW=").isPrefixOf).map (fun line ↦ (line.dropWhile (· ≠ 61)).tail) = _
  rw [hfilter, List.map_map]
  apply List.ext_getElem
  · simp
  · intro row hrow _
    have hrow' : row < rs.length := by simpa using hrow
    simp only [List.getElem_map, List.getElem_range, Function.comp_apply]
    change codes ([124].intercalate (cellTexts table.schema captured row)) = _
    rw [codes_intercalate, ← hcaptured, cellTexts_row modest.rowWidth modest.columnCount hrow',
      hl.shape.count]
    rfl

theorem decodeStrict_ascii {bytes : List UInt8} (h : ∀ b ∈ bytes, b.toNat < 128) :
    decodeStrict bytes = some (codes bytes) := by
  have hdecode : decode bytes = codes bytes := by
    apply decode_ascii
    intro b hb
    rw [UInt8.lt_iff_toNat_lt]
    exact h b hb
  have hencode : encode (codes bytes) = bytes := by
    rw [encode_ascii, codes, List.map_map]
    · conv_rhs => rw [← List.map_id bytes]
      exact List.map_congr_left fun b _ ↦ UInt8.ofNat_toNat
    · intro c hc
      obtain ⟨b, hb, rfl⟩ := List.mem_map.mp hc
      exact h b hb
  rw [decodeStrict, hdecode, if_pos hencode]

end Answers

section Verdicts

variable {columns file : List UInt8} {q : Asked} {w : Spelling} {table : LoadedTable}
  {contents : Contents} {rows : List (List Str)} {disk : Str → Option (List UInt8)}
  {expected : Option Expected} {expectError : Bool} {k left : ℕ} {attempts : ℕ → Attempt}

def seen (contents : Contents) : Contents := { contents with rows := contents.rows.take 255 }

/-- When the script accepts the answer of the board. -/
def Passes (q : Asked) (contents : Contents) : Prop :=
  (RestFits q contents → answerRows q (seen contents) = answerRows q contents ∧
    ∀ row ∈ answerRows q contents, ∀ cell ∈ row, shownCell cell = cell) ∧
  (¬ RestFits q contents → answerRows q (seen contents) = [])

theorem read_seen (h : writeTable (names columns) rows = .ok file)
    (hread : readTable file none = .ok contents) :
    readTable file (some 255) = .ok (seen contents) :=
  WrittenTables.readTable_take (TableFormat.writeTable_ok h) hread 255

theorem answerRows_seen (q : Asked) (contents : Contents) :
    answerRows q (seen contents) <+: answerRows q contents :=
  List.IsPrefix.take ((List.take_prefix 255 contents.rows).filter _) _

theorem gabarito_rows (hdisk : disk (latin q.table) = some file)
    (hread : readTable file (some 255) = .ok (seen contents)) (hlimit : ∀ n ∈ q.limit, 1 ≤ n) :
    gabarito disk ⟨latin q.table, latin (clause q.conditions), q.limit.getD 0, false, false, none⟩ =
      some (.rows ((answerRows q (seen contents)).map [124].intercalate)) := by
  have hshort : ((seen contents).rows.filter (holds q (seen contents))).length ≤ queryMaxRows :=
    (List.length_filter_le _ _).trans ((List.length_take_le _ _).trans (by decide))
  simp only [gabarito, hdisk, Option.bind_eq_bind, Option.bind_some, Bool.false_eq_true, if_false,
    hread]
  change some (Expected.rows ((if 0 < q.limit.getD 0 then
    ((seen contents).rows.filter (holds q (seen contents))).take (q.limit.getD 0)
      else (seen contents).rows.filter (holds q (seen contents))).map [124].intercalate)) = _
  rw [answerRows]
  cases hl : q.limit with
  | none =>
    rw [Option.getD_none, Option.getD_none, if_neg (by decide), List.take_of_length_le hshort]
  | some n =>
    rw [Option.getD_some, Option.getD_some, if_pos (Nat.lt_of_succ_le (hlimit n hl))]

/-- A row is the same text only if every cell is. -/
theorem intercalate_shown (row : List Str) :
    [124].intercalate row = [124].intercalate (row.map shownCell) ↔
      ∀ cell ∈ row, shownCell cell = cell := by
  have hlen (cell : Str) : cell.length = (shownCell cell).length := by
    rw [shownCell, List.length_map]
  induction row with
  | nil => simp
  | cons cell row ih =>
    cases row with
    | nil => simp [eq_comm]
    | cons cell' row =>
      rw [List.map_cons, List.map_cons, List.intercalate_cons_cons, List.intercalate_cons_cons,
        List.append_assoc, List.append_assoc, List.forall_mem_cons]
      constructor
      · intro h
        obtain ⟨hcell, hrest⟩ := List.append_inj h (hlen cell)
        exact ⟨hcell.symm, ih.mp (List.append_cancel_left hrest)⟩
      · rintro ⟨hcell, hrest⟩
        rw [hcell, ih.mpr hrest]
        rfl

theorem lines_agree_iff {xs ys : List (List Str)} (hpre : xs <+: ys) :
    xs.map [124].intercalate = ys.map (fun row ↦ [124].intercalate (row.map shownCell)) ↔
      xs = ys ∧ ∀ row ∈ ys, ∀ cell ∈ row, shownCell cell = cell := by
  constructor
  · intro h
    have hlen := congrArg List.length h
    rw [List.length_map, List.length_map] at hlen
    obtain rfl := hpre.eq_of_length hlen
    exact ⟨rfl, fun row hrow ↦ (intercalate_shown row).mp (List.map_inj_left.mp h row hrow)⟩
  · rintro ⟨rfl, h⟩
    exact List.map_inj_left.mpr fun row hrow ↦ (intercalate_shown row).mpr (h row hrow)

theorem tryQuery_busy (hbusy : ∀ i < k, attempts i = .httpError 503) :
    tryQuery expected expectError left attempts =
      tryQuery expected expectError (left - k) (fun i ↦ attempts (i + k)) := by
  induction k generalizing left attempts with
  | zero => rfl
  | succ k ih =>
    cases left with
    | zero =>
      rw [Nat.zero_sub]
      rfl
    | succ left =>
      rw [tryQuery, hbusy 0 (Nat.succ_pos k)]
      simp only [if_true]
      rw [ih (fun i hi ↦ hbusy (i + 1) (Nat.succ_lt_succ hi)), Nat.succ_sub_succ]
      simp only [Nat.add_assoc]

theorem testPassed_rows (hcols : Columns columns) (hq : q.Valid columns) (hw : w.Valid)
    (hl : Loaded columns file table contents) {reqBody : List UInt8}
    (hparse : parseRequestBody reqBody = some (q.request w)) (rs : List Cells)
    (hmany : rs.length ≤ queryMaxRows) (hlimit : ∀ n ∈ q.limit, rs.length ≤ n) (o : Outside)
    (lines : List Str) : ∃ body result,
      attemptOf (successReply (q.request w) table.schema (rs.flatMap Cells.bytes) o) =
        .answered body ∧ decodeStrict body = some result ∧
      (testPassed (some (.rows lines)) false result = true ↔ lines = rs.map (fun r ↦
        [124].intercalate ((decodeCells columns.length r.bytes).map shownCell))) := by
  obtain ⟨hrows, hreply⟩ := success_lines hcols hq hw hl hparse hmany hlimit o
  have hvisible := bodyLines_visible hcols hq hw hl rs
  have hread := rows_of_answer hcols hq hw hl hrows
  rw [hreply]
  generalize bodyLines (q.request w) table.schema (rs.flatMap Cells.bytes) = lines' at hvisible hread
  refine ⟨lines'.flatMap (· ++ [10]), codes (lines'.flatMap (· ++ [10])), rfl, ?_, ?_⟩
  · -- The line ends are not printable, but ASCII as well.
    have hascii : ∀ b ∈ lines'.flatMap (· ++ [10]), b.toNat < 128 := by
      intro b hb
      obtain ⟨line, hline, hb⟩ := List.mem_flatMap.mp hb
      rcases List.mem_append.mp hb with hb | hb
      · exact (hvisible line hline b hb).2
      · rw [List.mem_singleton.mp hb]
        decide
    exact decodeStrict_ascii hascii
  · rw [testPassed]
    simp only [Bool.not_false, Bool.and_true, decide_eq_true_eq]
    rw [hread]

/-- The script tests the board, in any run: it accepts the answer to a query exactly if the
board had room for the rest of the table, the rows behind the first 255 change nothing, and
every cell is printable; it gives up after three answers that the board is busy. -/
theorem harness_verdict (columns : List UInt8) (hcols : Columns columns) (rows : List (List Str))
    (hrows : rows ≠ []) (file : List UInt8) (hwrite : writeTable (names columns) rows = .ok file)
    (q : Asked) (hq : q.Valid columns) (w : Spelling) (hw : w.Valid)
    (hlen : (q.text w).length ≤ 255) (card : List UInt8 → Option (List UInt8))
    (hcard : ∀ name file, card name = some file → file.length ≤ sdFileMaxSize)
    (hheld : card q.table = some file) (disk : Str → Option (List UInt8))
    (hdisk : disk (latin q.table) = some file) :
    ∃ query contents, queryOf (latin (q.text w)) = some query ∧
      parseRequestBody (encode (payload (latin (q.text w)) query)) = some (q.request w) ∧
      readTable file none = .ok contents ∧
      ∀ schedule s, Run System.step (Admissible card) board schedule s →
        ∀ fd, (fd, q.request w) ∈ (ledger s.tasks.log).admitted →
          fd ∈ (ledger s.tasks.log).returned →
          ∃ r : Reply, sentOn fd s.tasks.log = r.sends ∧
            ∀ k attempts, (∀ i < k, attempts i = .httpError 503) → attempts k = attemptOf r →
              (runQuery disk (latin (q.text w)) false attempts = none ↔ 3 ≤ k) ∧
              (runQuery disk (latin (q.text w)) false attempts = some true ↔
                k < 3 ∧ Passes q contents) := by
  have hquery := queryOf_text hq hcols hw
  have hbody : parseRequestBody (encode (payload (latin (q.text w)) ⟨latin q.table,
      latin (clause q.conditions), q.limit.getD 0, false, false, none⟩)) = some (q.request w) := by
    have hdec : decimalText (q.limit.getD 0) = latin (dec (q.limit.getD 0)) := by
      have hall : ∀ n < 256, decimalText n = latin (dec n) := by decide +kernel
      exact hall _ hq.limit_lt
    have hkeys : encode (str "TABLE=") = ascii "TABLE=" ∧ encode (str "LIMIT=") = ascii "LIMIT=" ∧
        encode (str "SQL=") = ascii "SQL=" :=
      ⟨encode_ascii (by decide), encode_ascii (by decide), encode_ascii (by decide)⟩
    have hline (s : Str) : encode (10 :: s) = 10 :: encode s := rfl
    have hparse := parse_lines hcols hq hw hlen (show peek [] = 10 ∨ peek [] = 0 from .inr rfl)
    rw [List.append_nil] at hparse
    simp only [payload, encode_append, hline, hkeys, hdec, encode_latin (visible_table hq),
      encode_latin (visible_dec _), encode_latin (visible_text hq hcols hw)]
    exact hparse
  obtain ⟨table, contents, hl, hread⟩ := loaded_written hcols hrows hwrite
  refine ⟨_, contents, hquery, hbody, hread, fun schedule s h fd hadmitted hreturned ↦ ?_⟩
  have hsent := ((sound_run hcard h).answers hadmitted).2 hreturned
  refine ⟨_, hsent, fun k attempts hbusy hlast ↦ ?_⟩
  obtain ⟨o, hfits, hnot⟩ := answerOf_query hcols hq hw hl hheld
  obtain ⟨hmany, hlimit⟩ := carried_length q columns table hq
  have hexpected := gabarito_rows hdisk (read_seen hwrite hread) (fun n hn ↦ (hq.limit n hn).1)
  have hanswer : answerRows q contents = (carried q columns table).map (fun r ↦
      decodeCells columns.length r.bytes) := answerRows_eq hcols hq hl
  have hpre := answerRows_seen q contents
  obtain ⟨body, result, hattempt, hdecode, htest⟩ : ∃ body result,
      attemptOf (answerOf card (q.request w)) = .answered body ∧ decodeStrict body = some result ∧
      (testPassed (some (.rows ((answerRows q (seen contents)).map [124].intercalate))) false result =
        true ↔ Passes q contents) := by
    by_cases hroom : RestFits q contents
    · obtain ⟨body, result, hattempt, hdecode, htest⟩ := testPassed_rows hcols hq hw hl hbody _
        hmany hlimit o ((answerRows q (seen contents)).map [124].intercalate)
      refine ⟨body, result, by rw [hfits hroom, hattempt], hdecode, htest.trans ?_⟩
      have hagree := lines_agree_iff hpre
      rw [hanswer, List.map_map] at hagree
      rw [Passes, hanswer]
      exact hagree.trans ⟨fun hrows ↦ ⟨fun _ ↦ hrows, fun hno ↦ absurd hroom hno⟩,
        fun hpasses ↦ hpasses.1 hroom⟩
    · obtain ⟨body, result, hattempt, hdecode, htest⟩ := testPassed_rows hcols hq hw hl hbody
        [] (Nat.zero_le _) (fun n _ ↦ Nat.zero_le n) o
        ((answerRows q (seen contents)).map [124].intercalate)
      refine ⟨body, result, (congrArg attemptOf (hnot hroom)).trans hattempt, hdecode,
        htest.trans ?_⟩
      rw [List.map_nil, List.map_eq_nil_iff]
      exact ⟨fun hnil ↦ ⟨fun hfit ↦ absurd hfit hroom, fun _ ↦ hnil⟩, fun hpasses ↦ hpasses.2 hroom⟩
  rw [hattempt] at hlast
  have hrun : runQuery disk (latin (q.text w)) false attempts =
      tryQuery (some (.rows ((answerRows q (seen contents)).map [124].intercalate))) false (3 - k)
        (fun i ↦ attempts (i + k)) := by
    rw [runQuery, hquery, Option.bind_eq_bind, Option.bind_some, hexpected, tryQuery_busy hbusy]
  rw [hrun]
  cases hleft : 3 - k with
  | zero =>
    rw [tryQuery]
    exact ⟨iff_of_true rfl (by omega), iff_of_false (by simp) (by omega)⟩
  | succ left =>
    rw [tryQuery, Nat.zero_add, hlast]
    simp only [hdecode, Option.some.injEq, htest]
    exact ⟨iff_of_false (by simp) (by omega), (and_iff_right (by omega)).symm⟩

end Verdicts

section Examples

theorem harness_verdict_three : ∃ s r, (3, threeRequest) ∈ (ledger (System.tasks s).log).admitted ∧
    sentOn 3 s.tasks.log = Reply.sends r ∧
    runQuery (fun name ↦ if name = str "alunos" then some threeFile else none)
      (str "select b From alunos WHERE A >= 5 limit 2") false
      (fun i ↦ if i = 0 then .httpError 503 else attemptOf r) = some true := by
  obtain ⟨schedule, d, hrun⟩ := run_three
  obtain ⟨hadmitted, hreturned⟩ := departed_ledger
  have hmem : (3, threeRequest) ∈ (ledger departed.log).admitted := by
    rw [hadmitted]
    exact List.mem_singleton_self _
  obtain ⟨query, contents, -, -, hread, hverdict⟩ := harness_verdict sampleColumns columns_sample
    threeRows (by decide) threeFile write_three sampleAsked sampleAsked_valid sampleSpelling
    sampleSpelling_valid (by decide +kernel) threeCard three_sized rfl
    (fun name ↦ if name = str "alunos" then some threeFile else none) rfl
  rw [read_three] at hread
  cases hread
  obtain ⟨r, hsent, hr⟩ := hverdict schedule ⟨departed, d⟩ hrun 3 hmem
    (by rw [hreturned]; exact List.mem_singleton_self _)
  refine ⟨⟨departed, d⟩, r, hmem, hsent, ?_⟩
  have hpasses : Passes sampleAsked threeContents :=
    ⟨fun _ ↦ by decide +kernel, fun h ↦ absurd restFits_three h⟩
  have htext : str "select b From alunos WHERE A >= 5 limit 2" =
      latin (sampleAsked.text sampleSpelling) := by
    decide +kernel
  rw [htext]
  refine ((hr 1 _ ?_ rfl).2).mpr ⟨by decide, hpasses⟩
  intro i hi
  rw [if_pos (Nat.lt_one_iff.mp hi)]

end Examples

end FpgaDatabase.Reference.Harness
