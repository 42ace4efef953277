import FpgaDatabase.Reference.AggregateLimit
import FpgaDatabase.Reference.QueryRead

namespace FpgaDatabase.Reference.TestScript

open Firmware.CString Firmware.Request Firmware.Response Firmware.Clauses Firmware.WhereRoundTrip
open Library.Utf8 Agreement AggregateLimit QueryText QueryRead SqlMatches
open FpgaTest (Str str isSpace isWord isDecimal strip upper rowDict evaluateRow parseConditions)
open TableFormat (readTable)
open Client (toLowerCase)
open ClientRequest (matchGroup isWordChar decimalText)

section Patterns

/-- The group of the first match of `\bKEYWORD\s+(cls+)`, in any case, in the first 256
code points. -/
def searchGroup (keyword : Str) (cls : ℕ → Bool) (inWord : Bool) : Str → Option Str
  | [] => none
  | c :: cs =>
    let rest := (c :: cs).drop keyword.length
    let group := (rest.dropWhile isSpace).takeWhile cls
    if inWord = false ∧ toLowerCase ((c :: cs).take keyword.length) = keyword ∧
        (rest.head?.any isSpace) = true ∧ group ≠ [] then some group
    else searchGroup keyword cls (isWord c) cs

/-- `(?:\s+LIMIT|\Z)`, matched at the start of a text. -/
def endsWhere (rest : Str) : Bool :=
  rest = [] || ((rest.head?.any isSpace) &&
    toLowerCase ((rest.dropWhile isSpace).take 5) = str "limit")

/-- `.*?`, up to the first place where the clause can end. -/
def lazyWhere : Str → Option Str
  | [] => some []
  | c :: cs =>
    if endsWhere (c :: cs) then some []
    else if c = 10 then none
    else (lazyWhere cs).map (c :: ·)

/-- `WHERE\s+(.*?)(?:\s+LIMIT|\Z)`, matched at the start of a text. White space behind the
keyword is given back from its end if the clause finds no end. -/
def whereAt (s : Str) : Option Str :=
  let rest := s.drop 5
  if toLowerCase (s.take 5) = str "where" then
    (List.range (rest.takeWhile isSpace).length).reverse.findSome? (fun k ↦
      lazyWhere (rest.drop (k + 1)))
  else none

def searchWhere (inWord : Bool) : Str → Option Str
  | [] => none
  | c :: cs =>
    (if inWord then none else whereAt (c :: cs)).or (searchWhere (isWord c) cs)

/-- The group of `SUM\((\w+)\)`. -/
def searchSum : Str → Option Str
  | [] => none
  | c :: cs =>
    let rest := (c :: cs).drop 4
    let col := rest.takeWhile isWord
    if toLowerCase ((c :: cs).take 4) = str "sum(" ∧ col ≠ [] ∧
        (rest.dropWhile isWord).head? = some 41 then some col
    else searchSum cs

end Patterns

section Script

structure Query where
  table : Str
  whereClause : Str
  limit : ℕ
  isCount : Bool
  isSum : Bool
  sumCol : Option Str

/-- `none` stands for the message that no table was found. -/
def queryOf (sql : Str) : Option Query := do
  let table ← searchGroup (str "from") isWordChar false sql
  some
    { table
      whereClause := (searchWhere false sql).getD []
      limit := ((searchGroup (str "limit") isDecimal false sql).map (fun digits ↦
        digits.foldl (fun n c ↦ 10 * n + (c - 48)) 0)).getD 0
      isCount := decide (str "COUNT(" <:+: upper sql)
      isSum := decide (str "SUM(" <:+: upper sql)
      sumCol := if str "SUM(" <:+: upper sql then searchSum sql else none }

def payload (sql : Str) (q : Query) : Str :=
  str "TABLE=" ++ q.table ++ 10 :: (str "LIMIT=" ++ decimalText q.limit ++ 10 :: (str "SQL=" ++ sql))

inductive Expected
  | value (text : Str)
  | rows (lines : List Str)

/-- The part of `run_query` that works out the expected answer from the file on the disk;
`none` if it was not found. -/
def gabarito (disk : Str → Option (List UInt8)) (q : Query) : Option Expected := do
  let file ← disk q.table
  if q.isCount then
    let total ← expectedValue file .count [] q.whereClause
    some (.value (decimalText total))
  else if q.isSum then
    let total ← expectedValue file .sum (← q.sumCol) q.whereClause
    some (.value (decimalText total))
  else
    match readTable file (some 255) with
    | .error _ => none
    | .ok contents =>
      let matched := contents.rows.filter (fun r ↦
        evaluateRow (rowDict contents.columns r) (parseConditions q.whereClause))
      let matched := if 0 < q.limit then matched.take q.limit else matched
      some (.rows (matched.map [124].intercalate))

/-- `decode('utf-8')`, which is strict: what is not UTF-8 would not come back. -/
def decodeStrict (bytes : List UInt8) : Option Str :=
  if encode (decode bytes) = bytes then some (decode bytes) else none

def testPassed (expected : Option Expected) (expectError : Bool) (result : Str) : Bool :=
  let fpgaLines := ((strip result).splitOn 10).filter (str "ROW=").isPrefixOf
  match expected with
  | none => false
  | some (.value text) =>
    text = (match fpgaLines with
      | line :: _ => (line.splitOn 61).getD 1 []
      | [] => str "N/A")
  | some (.rows lines) =>
    lines = fpgaLines.map (fun line ↦ (line.dropWhile (· ≠ 61)).tail) && !expectError

/-- How an attempt ends: with an answer, with a status that is an error, or with another
exception. -/
inductive Attempt
  | answered (body : List UInt8)
  | httpError (code : ℕ)
  | failed
  deriving DecidableEq

def attemptOf (r : Reply) : Attempt :=
  if 200 ≤ r.statusCode ∧ r.statusCode ≤ 299 then .answered r.body else .httpError r.statusCode

/-- The loop over the attempts that are left. Without another one the result is None. -/
def tryQuery (expected : Option Expected) (expectError : Bool) : ℕ → (ℕ → Attempt) → Option Bool
  | 0, _ => none
  | left + 1, attempts =>
    match attempts 0 with
    | .answered body =>
      some (match decodeStrict body with
        | some result => testPassed expected expectError result
        | none => false)
    | .httpError code =>
      if code = 503 then tryQuery expected expectError left (fun i ↦ attempts (i + 1))
      else some (expectError && (code = 400 || code = 404 || code = 500))
    | .failed => some false

def runQuery (disk : Str → Option (List UInt8)) (sql : Str) (expectError : Bool)
    (attempts : ℕ → Attempt) : Option Bool := do
  let q ← queryOf sql
  tryQuery (gabarito disk q) expectError 3 attempts

end Script

section Searches

variable {keyword s part rest word group u : Str} {cls : ℕ → Bool} {c : ℕ}

def Plain (s : Str) : Prop := ∀ c ∈ s, 32 ≤ c ∧ c < 128

theorem plain_latin {bytes : List UInt8} (h : Visible bytes) : Plain (latin bytes) := by
  intro c hc
  obtain ⟨b, hb, rfl⟩ := List.mem_map.mp hc
  exact h b hb

theorem isSpace_plain (h : 32 ≤ c ∧ c < 128) : isSpace c = Client.isSpace c := by
  have hall : ∀ c < 128, 32 ≤ c → isSpace c = Client.isSpace c := by decide
  exact hall c h.2 h.1

theorem isWord_plain (h : c < 128) : isWord c = isWordChar c := by
  have hall : ∀ c < 128, isWord c = isWordChar c := by decide
  exact hall c h

theorem isWord_of_char (h : isWordChar c = true) : isWord c = true := by
  have hrange := ClientRequest.isWordChar_range h
  rw [isWord_plain (by omega), h]

theorem dropWhile_plain (h : Plain s) : s.dropWhile isSpace = s.dropWhile Client.isSpace := by
  induction s with
  | nil => rfl
  | cons c cs ih =>
    obtain ⟨hc, hcs⟩ := List.forall_mem_cons.mp h
    rw [List.dropWhile_cons, List.dropWhile_cons, isSpace_plain hc, ih hcs]

theorem searchGroup_plain {inWord : Bool} (h : Plain s) :
    searchGroup keyword cls inWord s = matchGroup keyword cls inWord s := by
  induction s generalizing inWord with
  | nil => rfl
  | cons c cs ih =>
    obtain ⟨hc, hcs⟩ := List.forall_mem_cons.mp h
    have hrest : Plain ((c :: cs).drop keyword.length) := fun d hd ↦ h d (List.mem_of_mem_drop hd)
    have hhead : ((c :: cs).drop keyword.length).head?.any isSpace =
        ((c :: cs).drop keyword.length).head?.any Client.isSpace := by
      cases hdrop : (c :: cs).drop keyword.length with
      | nil => rfl
      | cons d ds =>
        rw [hdrop] at hrest
        exact isSpace_plain (hrest d List.mem_cons_self)
    rw [searchGroup, matchGroup]
    simp only [dropWhile_plain hrest, hhead, isWord_plain hc.2, ih hcs]

theorem searchWhere_within (hword : ∀ d ∈ word, isWordChar d = true) (hc : isWord c = false) :
    searchWhere true (word ++ c :: rest) = searchWhere false rest := by
  induction word with
  | nil =>
    rw [List.nil_append, searchWhere, if_pos rfl, Option.none_or, hc]
  | cons d ds ih =>
    obtain ⟨hd, hds⟩ := List.forall_mem_cons.mp hword
    rw [List.cons_append, searchWhere, if_pos rfl, Option.none_or, isWord_of_char hd, ih hds]

/-- Behind the five letters of a longer word there is another one, and no white space. -/
theorem whereAt_word (hword : ∀ d ∈ word, isWordChar d = true)
    (hne : toLowerCase word ≠ str "where") (hc : isWordChar c = false) :
    whereAt (word ++ c :: rest) = none := by
  have hk : IsKeyword (str "where") := ⟨by decide, by decide⟩
  by_cases h : toLowerCase ((word ++ c :: rest).take 5) = str "where"
  · have hle : 5 ≤ word.length := take_keyword hk hc h
    have hshort := h
    rw [List.take_append_of_le_length hle] at hshort
    cases hdrop : word.drop 5 with
    | nil =>
      rw [List.take_of_length_le (List.drop_eq_nil_iff.mp hdrop)] at hshort
      exact absurd hshort hne
    | cons d ds =>
      have hd : d ∈ word := List.mem_of_mem_drop (hdrop ▸ List.mem_cons_self)
      have hrun : ((word ++ c :: rest).drop 5).takeWhile isSpace = [] := by
        rw [List.drop_append_of_le_length hle, hdrop, List.cons_append,
          List.takeWhile_cons_of_neg (by simp [isSpace_wordChar (hword d hd)])]
      rw [whereAt, if_pos h, hrun]
      rfl
  · rw [whereAt, if_neg h]

theorem searchWhere_word (hword : ∀ d ∈ word, isWordChar d = true)
    (hne : toLowerCase word ≠ str "where") (hc : isWordChar c = false) (hsmall : c < 128) :
    searchWhere false (word ++ c :: rest) = searchWhere false rest := by
  have hmiss : whereAt (word ++ c :: rest) = none := whereAt_word hword hne hc
  have hc' : isWord c = false := by rw [isWord_plain hsmall, hc]
  cases word with
  | nil =>
    rw [List.nil_append] at hmiss ⊢
    rw [searchWhere, if_neg Bool.false_ne_true, hmiss, Option.none_or, hc']
  | cons d ds =>
    obtain ⟨hd, hds⟩ := List.forall_mem_cons.mp hword
    rw [List.cons_append] at hmiss ⊢
    rw [searchWhere, if_neg Bool.false_ne_true, hmiss, Option.none_or, isWord_of_char hd]
    exact searchWhere_within hds hc'

theorem searchWhere_passed (h : Passed (str "where") part) (hplain : Plain part) :
    searchWhere false (part ++ rest) = searchWhere false rest := by
  induction h with
  | nil => rfl
  | word hword hne hc _ ih =>
    obtain ⟨-, hplain⟩ := List.forall_mem_append.mp hplain
    obtain ⟨hsmall, hplain⟩ := List.forall_mem_cons.mp hplain
    rw [List.append_assoc, List.cons_append, searchWhere_word hword hne hc hsmall.2, ih hplain]

theorem searchWhere_spaceless {inWord : Bool} (h : ∀ d ∈ part, isSpace d = false) :
    searchWhere inWord part = none := by
  induction part generalizing inWord with
  | nil => rfl
  | cons d ds ih =>
    have hat : whereAt (d :: ds) = none := by
      have hrun : ((d :: ds).drop 5).takeWhile isSpace = [] := by
        cases hdrop : (d :: ds).drop 5 with
        | nil => rfl
        | cons e es =>
          have he : e ∈ d :: ds := List.mem_of_mem_drop (hdrop ▸ List.mem_cons_self)
          rw [List.takeWhile_cons_of_neg (by simp [h e he])]
      rw [whereAt, hrun]
      split_ifs <;> rfl
    rw [searchWhere, hat, ite_self, Option.none_or, ih (fun e he ↦ h e (List.mem_cons_of_mem d he))]

theorem searchWhere_end (h : Passed (str "where") (part ++ [c])) (hplain : Plain part) :
    searchWhere false part = none := by
  generalize hwhole : part ++ [c] = whole at h
  induction h generalizing part with
  | nil => simp at hwhole
  | @word word rest d hword hne hd hrest ih =>
    rcases List.eq_nil_or_concat rest with rfl | ⟨front, e, rfl⟩
    · rw [List.append_singleton_inj] at hwhole
      rw [hwhole.1]
      exact searchWhere_spaceless (fun e he ↦ isSpace_wordChar (hword e he))
    · rw [List.concat_eq_append, ← List.cons_append, ← List.append_assoc,
        List.append_singleton_inj] at hwhole
      obtain ⟨rfl, rfl⟩ := hwhole
      obtain ⟨-, hplain⟩ := List.forall_mem_append.mp hplain
      obtain ⟨hsmall, hplain⟩ := List.forall_mem_cons.mp hplain
      rw [searchWhere_word hword hne hd hsmall.2]
      exact ih hplain (by rw [List.concat_eq_append])

theorem searchWhere_hit (hword : toLowerCase word = str "where") (hne : group ≠ [])
    (hspace : ∀ d ∈ group.head?, isSpace d = false) (h : lazyWhere (group ++ rest) = some group) :
    searchWhere false (word ++ 32 :: (group ++ rest)) = some group := by
  have hlen : word.length = 5 := by
    have hmap := congrArg List.length hword
    rwa [toLowerCase, List.length_map] at hmap
  have hrun : (32 :: (group ++ rest)).takeWhile isSpace = [32] := by
    obtain ⟨d, ds, rfl⟩ := List.exists_cons_of_ne_nil hne
    rw [List.takeWhile_cons_of_pos rfl, List.cons_append,
      List.takeWhile_cons_of_neg (by simp [hspace d rfl])]
  have hat : whereAt (word ++ 32 :: (group ++ rest)) = some group := by
    rw [whereAt, List.take_left' hlen, List.drop_left' hlen, if_pos hword, hrun]
    change [0].findSome? (fun k ↦ lazyWhere ((32 :: (group ++ rest)).drop (k + 1))) = _
    rw [List.findSome?_cons, List.drop_succ_cons, List.drop_zero, h]
  cases word with
  | nil => cases hlen
  | cons d ds =>
    rw [List.cons_append] at hat ⊢
    rw [searchWhere, if_neg Bool.false_ne_true, hat, Option.some_or]

theorem endsWhere_char (hc : isSpace c = false) : endsWhere (c :: rest) = false := by
  simp [endsWhere, hc]

theorem lazyWhere_chars (hu : ∀ d ∈ u, isSpace d = false) :
    lazyWhere (u ++ rest) = (lazyWhere rest).map (u ++ ·) := by
  induction u with
  | nil => simp
  | cons d ds ih =>
    obtain ⟨hd, hds⟩ := List.forall_mem_cons.mp hu
    have hne : d ≠ 10 := by
      rintro rfl
      cases hd
    rw [List.cons_append, lazyWhere, if_neg (by simp [endsWhere_char hd]), if_neg hne, ih hds,
      Option.map_map]
    rfl

structure Short (u : Str) : Prop where
  nonempty : u ≠ []
  length_lt : u.length < 5
  chars : ∀ d ∈ u, isSpace d = false

theorem endsWhere_word (hu : Short u) (hrest : ∀ d ∈ rest.head?, d = 32) :
    endsWhere (32 :: (u ++ rest)) = false := by
  have hlen := hu.length_lt
  have hdrop : (32 :: (u ++ rest)).dropWhile isSpace = u ++ rest := by
    obtain ⟨d, ds, rfl⟩ := List.exists_cons_of_ne_nil hu.nonempty
    rw [List.dropWhile_cons_of_pos rfl, List.cons_append,
      List.dropWhile_cons_of_neg (by simp [hu.chars d List.mem_cons_self])]
  have hnot : toLowerCase ((u ++ rest).take 5) ≠ str "limit" := by
    intro h
    cases rest with
    | nil =>
      have hlength := congrArg List.length h
      rw [List.append_nil, toLowerCase, List.length_map, List.length_take] at hlength
      change min 5 u.length = 5 at hlength
      omega
    | cons d ds =>
      have hk : IsKeyword (str "limit") := ⟨by decide, by decide⟩
      have hle : 5 ≤ u.length := take_keyword (c := d) hk (by rw [hrest d rfl]; rfl) h
      omega
  simp only [endsWhere, hdrop, hnot, decide_false, Bool.and_false, Bool.or_false]
  rfl

theorem lazyWhere_words {words : List Str} (hwords : ∀ u ∈ words, Short u)
    (hend : endsWhere rest = true) (hrest : ∀ d ∈ rest.head?, d = 32) :
    lazyWhere (words.flatMap (32 :: ·) ++ rest) = some (words.flatMap (32 :: ·)) := by
  induction words with
  | nil =>
    cases rest with
    | nil => rfl
    | cons d ds => exact if_pos hend
  | cons u words ih =>
    obtain ⟨hu, hwords⟩ := List.forall_mem_cons.mp hwords
    have hnext : ∀ d ∈ (words.flatMap (32 :: ·) ++ rest).head?, d = 32 := by
      cases words with
      | nil => exact hrest
      | cons v words =>
        rintro d ⟨rfl⟩
        rfl
    have hblank := endsWhere_word hu hnext
    rw [List.flatMap_cons, List.cons_append, List.cons_append, List.append_assoc, lazyWhere,
      if_neg (by simp [hblank]), if_neg (by decide), lazyWhere_chars hu.chars, ih hwords]
    rfl

end Searches

section Queries

variable {columns chs : List UInt8} {q : Asked} {w : Spelling} {cs : List Cond}

theorem small_keywords : str "where" = small "WHERE" ∧ str "from" = small "FROM" ∧
    str "limit" = small "LIMIT" := by
  decide

def clauseWords : List Cond → List Str
  | [] => []
  | c :: cs => [latin (ascii c.op.spelling), [c.val.toNat]] ++
      cs.flatMap (fun d ↦ [str "AND", [d.col.toNat], latin (ascii d.op.spelling), [d.val.toNat]])

theorem clause_words (c : Cond) (cs : List Cond) :
    latin (clause (c :: cs)) = [c.col.toNat] ++ (clauseWords (c :: cs)).flatMap (32 :: ·) := by
  have hjoined : latin (joined cs) = (cs.flatMap (fun d ↦ [str "AND", [d.col.toNat],
      latin (ascii d.op.spelling), [d.val.toNat]])).flatMap (32 :: ·) := by
    rw [joined, latin, List.map_flatMap, List.flatMap_assoc]
    refine List.flatMap_congr fun d _ ↦ ?_
    have hand : (ascii " AND ").map UInt8.toNat = 32 :: (str "AND" ++ [32]) := by decide
    rw [List.map_append, hand]
    simp [Cond.text, latin]
  rw [clause, latin_append, hjoined, clauseWords]
  simp [Cond.text, latin]

theorem clauseWords_short (h : ∀ c ∈ cs, isalnum c.col = true ∧ isalnum c.val = true) :
    ∀ u ∈ clauseWords cs, Short u := by
  have hop (c : Cond) : Short (latin (ascii c.op.spelling)) := by
    cases c.op <;> exact ⟨by decide, by decide, by decide⟩
  have hone {ch : UInt8} (hch : isalnum ch = true) : Short [ch.toNat] :=
    ⟨List.cons_ne_nil _ _, Nat.one_lt_succ_succ 3, by simpa using isSpace_of_alnum hch⟩
  have hand : Short (str "AND") := ⟨by decide, by decide, by decide⟩
  cases cs with
  | nil => simp [clauseWords]
  | cons c cs =>
    obtain ⟨⟨-, hval⟩, hcs⟩ := List.forall_mem_cons.mp h
    rw [clauseWords, List.forall_mem_append]
    constructor
    · simp only [List.forall_mem_cons, List.not_mem_nil, false_implies, implies_true, and_true]
      exact ⟨hop c, hone hval⟩
    · rw [List.forall_mem_flatMap]
      intro d hd
      obtain ⟨hcol, hval⟩ := hcs d hd
      simp only [List.forall_mem_cons, List.not_mem_nil, false_implies, implies_true, and_true]
      exact ⟨hand, hone hcol, hop d, hone hval⟩

/-- The clause ends where the limit begins, or at the end. -/
theorem lazyWhere_clause (hw : w.Valid) (c : Cond)
    (h : ∀ d ∈ c :: cs, isalnum d.col = true ∧ isalnum d.val = true) (limit : Option ℕ) :
    lazyWhere (latin (clause (c :: cs)) ++ latin (limitText w.limit limit)) =
      some (latin (clause (c :: cs))) := by
  have hcol : ∀ d ∈ [c.col.toNat], isSpace d = false := by
    simpa using isSpace_of_alnum (h c List.mem_cons_self).1
  have hend : endsWhere (latin (limitText w.limit limit)) = true ∧
      ∀ d ∈ (latin (limitText w.limit limit)).head?, d = 32 := by
    cases limit with
    | none =>
      have hnil : latin (limitText w.limit none) = [] := rfl
      rw [hnil]
      exact ⟨rfl, fun d hd ↦ by cases hd⟩
    | some n =>
      have hspelled : toLowerCase (latin w.limit) = str "limit" := by
        rw [small_keywords.2.2]
        exact spells_iff.mpr hw.limit
      have hlen : (latin w.limit).length = 5 := by
        have hmap := congrArg List.length hspelled
        rwa [toLowerCase, List.length_map] at hmap
      have htext : latin (limitText w.limit (some n)) =
          32 :: (latin w.limit ++ latin ([32] ++ dec n)) := by
        simp [limitText, latin]
      have hchars := wordChars_latin (spells_chars (by decide) hw.limit)
      have hdrop : (32 :: (latin w.limit ++ latin ([32] ++ dec n))).dropWhile isSpace =
          latin w.limit ++ latin ([32] ++ dec n) := by
        cases hword : latin w.limit with
        | nil =>
          rw [hword] at hlen
          cases hlen
        | cons d ds =>
          rw [hword] at hchars
          rw [List.dropWhile_cons_of_pos rfl, List.cons_append, List.dropWhile_cons_of_neg
            (by simp [isSpace_wordChar (hchars d List.mem_cons_self)])]
      rw [htext]
      refine ⟨?_, fun d hd ↦ (Option.mem_some_iff.mp hd).symm⟩
      simp only [endsWhere, hdrop, List.take_left' hlen, hspelled]
      rfl
  rw [clause_words, List.append_assoc, lazyWhere_chars hcol,
    lazyWhere_words (clauseWords_short h) hend.1 hend.2]
  rfl

theorem text_where (hq : q.Valid columns) (hcols : Columns columns) (hw : w.Valid) :
    (searchWhere false (latin (q.text w))).getD [] = latin (clause q.conditions) := by
  have hk : "WHERE" ∈ sqlKeywords := by decide
  have hfrom : "FROM" ∈ sqlKeywords := by decide
  have hlimit : "LIMIT" ∈ sqlKeywords := by decide
  have hkey := small_keywords.1
  have hvisible := visible_text hq hcols hw
  have hfront : Passed (small "WHERE") (latin (w.select ++ [32] ++
      (listText w.comma q.selected ++ [32]) ++ (w.frm ++ [32] ++ (q.table ++ [32])))) :=
    passed_append (passed_front hq hcols hw hk (by decide))
      (passed_append (passed_blank (spells_chars hfrom hw.frm)
        (not_spells_other hw.frm hk hfrom (by decide)))
        (passed_blank (table_chars hq).2 (hq.table_word "WHERE" hk)))
  cases hconds : q.conditions with
  | nil =>
    have hrest : Passed (small "WHERE") (latin (q.text w ++ [32])) := by
      cases hl : q.limit with
      | none =>
        have htext : q.text w ++ [32] = w.select ++ [32] ++ (listText w.comma q.selected ++ [32]) ++
            (w.frm ++ [32] ++ (q.table ++ [32])) := by
          simp [Asked.text, whereText, limitText, hconds, hl]
        rw [htext]
        exact hfront
      | some n =>
        have htext : q.text w ++ [32] = w.select ++ [32] ++ (listText w.comma q.selected ++ [32]) ++
            (w.frm ++ [32] ++ (q.table ++ [32])) ++ ((w.limit ++ [32]) ++ (dec n ++ [32])) := by
          simp [Asked.text, whereText, limitText, hconds, hl]
        have hdigits : ∀ ch ∈ dec n, isalnum ch = true ∨ ch = 95 := by
          intro ch hch
          have hdigit := dec_digit hch
          simp [isalnum, isdigit, UInt8.le_iff_toNat_le, hdigit]
        have hnumber : ¬ Spells (dec n) "WHERE" := by
          apply not_spells_short hk
          have hsmall : ∀ m < 256, (dec m).length < 4 := by decide +kernel
          exact hsmall n (Nat.lt_succ_of_le (hq.limit n hl).2)
        rw [htext]
        exact passed_append hfront (passed_append (passed_blank (spells_chars hlimit hw.limit)
          (not_spells_other hw.limit hk hlimit (by decide))) (passed_blank hdigits hnumber))
    rw [latin_append, ← hkey] at hrest
    rw [searchWhere_end hrest (plain_latin hvisible)]
    rfl
  | cons c cs =>
    have halnum := valid_alnum hcols hq.conditions
    rw [hconds] at halnum
    have htext : latin (q.text w) = latin (w.select ++ [32] ++
        (listText w.comma q.selected ++ [32]) ++ (w.frm ++ [32] ++ (q.table ++ [32]))) ++
          (latin w.whr ++ 32 :: (latin (clause (c :: cs)) ++ latin (limitText w.limit q.limit))) := by
      simp [Asked.text, whereText, hconds, latin]
    have hplain := plain_latin hvisible
    rw [htext] at hplain
    rw [← hkey] at hfront
    have hspelled : toLowerCase (latin w.whr) = str "where" := by
      rw [hkey]
      exact spells_iff.mpr hw.whr
    rw [htext, searchWhere_passed hfront (List.forall_mem_append.mp hplain).1,
      searchWhere_hit hspelled ?_ ?_ (lazyWhere_clause hw c halnum q.limit)]
    · rfl
    · rw [clause_words]
      exact List.cons_ne_nil _ _
    · rw [clause_words]
      rintro d ⟨rfl⟩
      exact isSpace_of_alnum (halnum c List.mem_cons_self).1

theorem paren_alnum {text : List UInt8} (h : ∀ ch ∈ text, isalnum ch = true ∨ ch = 95) :
    40 ∉ text := by
  intro hmem
  rcases h 40 hmem with h | h <;> revert h <;> decide

theorem paren_text (hq : q.Valid columns) (hcols : Columns columns) (hw : w.Valid) :
    40 ∉ latin (q.text w) := by
  have hword {keyword : String} {word : List UInt8} (hk : keyword ∈ sqlKeywords)
      (h : Spells word keyword) : 40 ∉ word := paren_alnum (spells_chars hk h)
  have hstar : 40 ∉ ascii "*" := by decide
  have hlist : 40 ∉ listText w.comma q.selected := by
    have hselected := hq.selected_alnum hcols
    generalize q.selected = chs at hselected
    have hcomma : 40 ∉ w.comma := by
      rcases hw.comma with h | h <;> rw [h] <;> decide
    induction chs with
    | nil => exact hstar
    | cons ch chs ih =>
      obtain ⟨hch, hchs⟩ := List.forall_mem_cons.mp hselected
      have hfirst : 40 ∉ [ch] := paren_alnum (by simp [hch])
      cases chs with
      | nil => exact hfirst
      | cons ch' chs =>
        exact List.not_mem_append hfirst (List.not_mem_append hcomma (ih hchs))
  have hcond (c : Cond) (hc : c ∈ q.conditions) : 40 ∉ c.text := by
    obtain ⟨hcol, hval⟩ := valid_alnum hcols hq.conditions c hc
    have hop : 40 ∉ ascii c.op.spelling ++ [32] := by
      cases c.op <;> decide
    have hcol' : 40 ∉ [c.col, 32] := by simpa using (alnum_ne hcol (by decide)).symm
    have hval' : 40 ∉ [c.val] := by simpa using (alnum_ne hval (by decide)).symm
    have htext : c.text = [c.col, 32] ++ (ascii c.op.spelling ++ [32] ++ [c.val]) := by
      simp [Cond.text]
    rw [htext]
    exact List.not_mem_append hcol' (List.not_mem_append hop hval')
  have hwhere : 40 ∉ whereText w.whr q.conditions := by
    cases hconds : q.conditions with
    | nil => exact List.not_mem_nil
    | cons c cs =>
      rw [hconds] at hcond
      refine List.not_mem_append (by decide) (List.not_mem_append (hword (by decide) hw.whr)
        (List.not_mem_append (by decide) (List.not_mem_append (hcond c List.mem_cons_self) ?_)))
      intro hmem
      obtain ⟨d, hd, hmem⟩ := List.mem_flatMap.mp hmem
      exact List.not_mem_append (by decide) (hcond d (List.mem_cons_of_mem _ hd)) hmem
  have hlimit : 40 ∉ limitText w.limit q.limit := by
    cases q.limit with
    | none => exact List.not_mem_nil
    | some n =>
      refine List.not_mem_append (by decide) (List.not_mem_append (hword (by decide) hw.limit)
        (List.not_mem_append (by decide) fun hmem ↦ ?_))
      exact absurd (dec_digit hmem).1 (by decide)
  have htext : 40 ∉ q.text w :=
    List.not_mem_append (hword (by decide) hw.select) (List.not_mem_append (by decide)
      (List.not_mem_append hlist (List.not_mem_append (by decide)
        (List.not_mem_append (hword (by decide) hw.frm) (List.not_mem_append (by decide)
          (List.not_mem_append (paren_alnum (table_chars hq).2)
            (List.not_mem_append hwhere hlimit)))))))
  intro hmem
  obtain ⟨b, hb, h₄₀⟩ := List.mem_map.mp hmem
  exact htext ((UInt8.toNat_inj.mp (show b.toNat = (40 : UInt8).toNat from h₄₀)) ▸ hb)

theorem paren_upper {s : Str} (h : 40 ∉ s) : 40 ∉ upper s := by
  intro hmem
  obtain ⟨c, hc, hmem⟩ := List.mem_flatMap.mp hmem
  split_ifs at hmem
  · simp at hmem
  · have h₄₀ := List.mem_singleton.mp hmem
    omega
  · simp at hmem
  · simp at hmem
  · simp at hmem
  · simp at hmem
  · exact h (List.mem_singleton.mp hmem ▸ hc)

/-- What the script takes out of a query. -/
theorem queryOf_text (hq : q.Valid columns) (hcols : Columns columns) (hw : w.Valid) :
    queryOf (latin (q.text w)) =
      some ⟨latin q.table, latin (clause q.conditions), q.limit.getD 0, false, false, none⟩ := by
  obtain ⟨-, hfrom, hlimit⟩ := small_keywords
  have hplain := plain_latin (visible_text hq hcols hw)
  have hparen := paren_upper (paren_text hq hcols hw)
  have hinfix {keyword : Str} (hmem : 40 ∈ keyword) : ¬ keyword <:+: upper (latin (q.text w)) :=
    fun h ↦ hparen (h.subset hmem)
  have hcount := hinfix (show 40 ∈ str "COUNT(" by decide)
  have hsum := hinfix (show 40 ∈ str "SUM(" by decide)
  have hnumber : ((searchGroup (str "limit") isDecimal false (latin (q.text w))).map (fun digits ↦
      digits.foldl (fun n c ↦ 10 * n + (c - 48)) 0)).getD 0 = q.limit.getD 0 := by
    have hmatch : searchGroup (str "limit") isDecimal false (latin (q.text w)) =
        q.limit.map (fun n ↦ latin (dec n)) := by
      rw [searchGroup_plain hplain, hlimit]
      exact match_limit hq hcols hw
    rw [hmatch]
    cases hl : q.limit with
    | none => rfl
    | some n =>
      have hall : ∀ m < 256, (latin (dec m)).foldl (fun n c ↦ 10 * n + (c - 48)) 0 = m := by
        decide +kernel
      exact hall n (Nat.lt_succ_of_le (hq.limit n hl).2)
  have htable : searchGroup (str "from") isWordChar false (latin (q.text w)) = some (latin q.table) := by
    rw [searchGroup_plain hplain, hfrom]
    exact match_table hq hcols hw
  simp only [queryOf, htable, text_where hq hcols hw, hnumber, hcount, hsum, Option.bind_eq_bind,
    Option.bind_some, decide_false, if_false]

end Queries

end FpgaDatabase.Reference.TestScript
