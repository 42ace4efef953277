import FpgaDatabase.Firmware.Clauses
import FpgaDatabase.Firmware.LowerCase
import FpgaDatabase.Firmware.UnknownColumns

namespace FpgaDatabase.Firmware.KeywordCase

open CString Request Table Compile Conditions Clauses LowerCase Library.Words
open UnknownColumns (isIdentifierChar)

def keywords : List String := ["SELECT", "FROM", "WHERE", "AND", "LIMIT", "COUNT", "SUM"]

/-- Two texts that differ in the letter case of keywords only. -/
inductive Respelled : List UInt8 → List UInt8 → Prop
  | same (text : List UInt8) : Respelled text text
  | word {front word word' rest rest' : List UInt8} {keyword : String}
      (hword : WordAt (!isIdentifierChar ·) front word rest) (hkeyword : keyword ∈ keywords)
      (hspells : Spells word keyword) (hspells' : Spells word' keyword)
      (hrest : Respelled rest rest') :
      Respelled (front ++ (word ++ rest)) (front ++ (word' ++ rest'))

def withSql (lines : List (List UInt8)) (line after : List UInt8) : List UInt8 :=
  (lines.map (· ++ [10])).flatten ++ (ascii "SQL=" ++ (line ++ after))

structure SqlLine (lines : List (List UInt8)) (line after : List UInt8) : Prop where
  before : ∀ text ∈ lines, ∀ ch ∈ text, ch ≠ 10 ∧ ch ≠ 0
  line : ∀ ch ∈ line, ch ≠ 10 ∧ ch ≠ 0
  after : ∀ ch ∈ after.head?, ch = 10 ∨ ch = 0

/-- The characters that the emitted conditions compare with, where these are no numbers, and
the first characters of the numbers. -/
def emittedLiterals (schema : TableSchema) (request : QueryRequest) : List UInt8 :=
  (emitted schema request.whereMemory).map (fun pass ↦ literal (valueStart pass))

structure SameEffect (table : LoadedTable) (body body' : List UInt8) : Prop where
  accepted : (parseRequestBody body).isSome = (parseRequestBody body').isSome
  limit : ∀ request ∈ parseRequestBody body, ∀ request' ∈ parseRequestBody body',
    request.limit = request'.limit
  compiled : ∀ request ∈ parseRequestBody body, ∀ request' ∈ parseRequestBody body',
    Agree (compileAndSendInstructions request table) (compileAndSendInstructions request' table)

section Compilation

variable {table : LoadedTable} {request request' : QueryRequest}

theorem whereMemory_case (hlimit : request.limit = request'.limit)
    (hwhere : lower request.whereClause = lower request'.whereClause) :
    lower request.whereMemory = lower request'.whereMemory := by
  have hlen : request.whereClause.length = request'.whereClause.length := by
    simpa using congrArg List.length hwhere
  rw [QueryRequest.whereMemory, QueryRequest.whereMemory, hlimit, hlen]
  simp only [lower, List.map_append] at hwhere ⊢
  rw [hwhere]

/-- Requests that differ in the case of their fragments compile to the same instructions
exactly if the conditions compare with the same characters. -/
theorem compile_case (hlimit : request.limit = request'.limit)
    (hselect : lower request.selectList = lower request'.selectList)
    (hwhere : lower request.whereClause = lower request'.whereClause) :
    Agree (compileAndSendInstructions request table) (compileAndSendInstructions request' table) ↔
      emittedLiterals table.schema request = emittedLiterals table.schema request' := by
  have hmem := whereMemory_case hlimit hwhere
  have hsel : Agree (compileSelect table.schema table.memory request.selectList)
      (compileSelect table.schema table.memory request'.selectList) := by
    have h := compileSelect_lower table.schema table.memory request.selectList
    have h' := compileSelect_lower table.schema table.memory request'.selectList
    rw [hselect] at h
    exact ⟨h.1.symm.trans h'.1, h.2.symm.trans h'.2⟩
  have hok : (compileWhere table.schema 0 request.whereMemory).error = none ↔
      (compileWhere table.schema 0 request'.whereMemory).error = none := by
    rw [← compileWhere_accepts_lower, hmem, compileWhere_accepts_lower]
  have hcompiled : (compileAndSendInstructions request table).error = none ↔
      (compileAndSendInstructions request' table).error = none := by
    simp only [compileAndSendInstructions, andThen_error, compileLimit_error, hok, hsel.2]
  rw [Agree, and_iff_left hcompiled, emittedLiterals, emittedLiterals, ← compileWhere_case hmem]
  simp only [compileAndSendInstructions, Emitted.andThen_sent, compileLimit_error, if_true, hlimit, hok,
    hsel.1, List.append_cancel_left_eq, List.append_cancel_right_eq]

end Compilation

theorem Respelled.lower {text text' : List UInt8} (h : Respelled text text') :
    lower text = lower text' := by
  induction h with
  | same text => rfl
  | word hword hkeyword hspells hspells' hrest ih =>
    simp only [LowerCase.lower, List.map_append] at ih ⊢
    rw [hspells, hspells', ih]

section Lines

variable {line after : List UInt8} (dstSize : ℕ) {lines : List (List UInt8)}

/-- What the search finds in some lines does not depend on what follows them. -/
theorem extractFrom_lines {key : List UInt8} (hne : key ≠ [])
    (hlines : ∀ text ∈ lines, ∀ ch ∈ text, ch ≠ 10 ∧ ch ≠ 0) :
    ∃ found : Option (List UInt8), ∀ rest,
      extractFrom key dstSize true ((lines.map (· ++ [10])).flatten ++ rest) =
        found.or (extractFrom key dstSize true rest) := by
  induction lines with
  | nil => exact ⟨none, fun rest ↦ rfl⟩
  | cons text lines ih =>
    rw [List.forall_mem_cons] at hlines
    obtain ⟨found, hfound⟩ := ih hlines.2
    cases hkey : key.isPrefixOf text with
    | true =>
      obtain ⟨value, rfl⟩ := List.isPrefixOf_iff_prefix.mp hkey
      rw [List.forall_mem_append] at hlines
      refine ⟨some (trimCopy dstSize value), fun rest ↦ ?_⟩
      rw [List.map_cons, List.flatten_cons, List.append_assoc, List.append_assoc,
        extractFrom_hit hne hlines.1.1 hlines.1.2 (.inl rfl), Option.some_or]
    | false =>
      refine ⟨found, fun rest ↦ ?_⟩
      rw [List.map_cons, List.flatten_cons, List.append_assoc, List.append_assoc]
      exact (extractFrom_skip hlines.1 hkey).trans (hfound rest)

theorem SqlLine.peek_after (h : SqlLine lines line after) : peek after = 10 ∨ peek after = 0 := by
  have hafter := h.after
  cases after with
  | nil => exact .inr rfl
  | cons ch chs => exact hafter ch rfl

theorem sqlLine_clean (h : SqlLine lines line after) :
    ∀ ch ∈ ascii "SQL=" ++ line, ch ≠ 10 ∧ ch ≠ 0 := by
  rw [List.forall_mem_append]
  exact ⟨line_chars (by decide), h.line⟩

theorem extract_other {line' : List UInt8} {key : String} (hne : ascii key ≠ [])
    (hkey : ∀ text, (ascii key).isPrefixOf (ascii "SQL=" ++ text) = false)
    (h : SqlLine lines line after) (h' : SqlLine lines line' after) :
    extractLineValue (withSql lines line after) key dstSize =
      extractLineValue (withSql lines line' after) key dstSize := by
  obtain ⟨found, hfound⟩ := extractFrom_lines dstSize hne h.before
  have hpass {text : List UInt8} (h : SqlLine lines text after) :
      extractLineValue (withSql lines text after) key dstSize =
        found.or (extractFrom (ascii key) dstSize false after) := by
    rw [extractLineValue, withSql, hfound, ← List.append_assoc (ascii "SQL="),
      extractFrom_pass (by simp [ascii]) (sqlLine_clean h) h.peek_after (hkey text)]
  rw [hpass h, hpass h']

theorem extract_sql {line' : List UInt8} (h : SqlLine lines line after)
    (h' : SqlLine lines line' after) (hcase : lower line = lower line') :
    ∃ sql sql', extractLineValue (withSql lines line after) "SQL=" dstSize = some sql ∧
      extractLineValue (withSql lines line' after) "SQL=" dstSize = some sql' ∧
      lower sql = lower sql' := by
  obtain ⟨found, hfound⟩ := extractFrom_lines dstSize (show ascii "SQL=" ≠ [] by decide) h.before
  have hhit {text : List UInt8} (h : SqlLine lines text after) :
      extractLineValue (withSql lines text after) "SQL=" dstSize =
        found.or (some (trimCopy dstSize text)) := by
    rw [extractLineValue, withSql, hfound, ← List.append_assoc (ascii "SQL="),
      extractFrom_hit (by decide) (line_chars (by decide)) h.line h.peek_after]
  rw [hhit h, hhit h']
  cases found with
  | none => exact ⟨_, _, rfl, rfl, by rw [← trimCopy_lower, hcase, trimCopy_lower]⟩
  | some sql => exact ⟨sql, sql, rfl, rfl, rfl⟩

end Lines

section Bodies

variable {lines : List (List UInt8)} {line line' after : List UInt8} {request request' : QueryRequest}

theorem SqlLine.case (h : SqlLine lines line after) (hcase : lower line = lower line') :
    SqlLine lines line' after := by
  refine ⟨h.before, fun ch hch ↦ ?_, h.after⟩
  have hmem : tolower ch ∈ lower line := hcase ▸ List.mem_map_of_mem hch
  obtain ⟨old, hold, heq⟩ := List.mem_map.mp hmem
  obtain ⟨h₁, h₂⟩ := h.line old hold
  constructor
  · rintro rfl
    exact h₁ ((tolower_eq_iff (by decide) old).mp heq)
  · rintro rfl
    exact h₂ ((tolower_eq_iff (by decide) old).mp heq)

theorem parseLimit_case (h : SqlLine lines line after) (h' : SqlLine lines line' after) :
    parseLimit (withSql lines line after) = parseLimit (withSql lines line' after) := by
  rw [parseLimit, parseLimit, extract_other 16 (by decide) (fun text ↦ rfl) h h']

theorem parse_isSome_case (h : SqlLine lines line after) (h' : SqlLine lines line' after)
    (hcase : lower line = lower line') :
    (parseRequestBody (withSql lines line after)).isSome =
      (parseRequestBody (withSql lines line' after)).isSome := by
  obtain ⟨sql, sql', hsql, hsql', -⟩ := extract_sql sqlMaxLen h h' hcase
  rw [parseRequestBody, parseRequestBody, hsql, hsql',
    extract_other tableMaxLen (by decide) (fun text ↦ rfl) h h']
  cases extractLineValue (withSql lines line' after) "TABLE=" tableMaxLen with
  | none => rfl
  | some table =>
    simp only [Option.bind_eq_bind, Option.bind_some]
    split_ifs <;> rfl

theorem parse_fragments_case (h : SqlLine lines line after) (h' : SqlLine lines line' after)
    (hcase : lower line = lower line')
    (hparse : parseRequestBody (withSql lines line after) = some request)
    (hparse' : parseRequestBody (withSql lines line' after) = some request') :
    lower request.selectList = lower request'.selectList ∧
      lower request.whereClause = lower request'.whereClause := by
  obtain ⟨sql, sql', hsql, hsql', hlower⟩ := extract_sql sqlMaxLen h h' hcase
  obtain ⟨-, -, hread, -⟩ := parseRequestBody_some hparse
  obtain ⟨-, -, hread', -⟩ := parseRequestBody_some hparse'
  rw [hsql, Option.some_inj] at hread
  rw [hsql', Option.some_inj] at hread'
  rw [hread, hread'] at hlower
  have hfragments := fragments_case hlower request request'
  rwa [← parseRequestBody_fragments hparse, ← parseRequestBody_fragments hparse'] at hfragments

theorem capLimit_eq_iff (sql sql' : List UInt8) (limit : ℕ) :
    capLimit sql limit = capLimit sql' limit ↔
      limit ≤ queryMaxRows ∨ isAggregate sql = isAggregate sql' := by
  rw [capLimit, capLimit]
  cases isAggregate sql <;> cases isAggregate sql' <;> simp <;> omega

end Bodies

/-- Respelling keywords changes nothing exactly if the case-sensitive search for aggregates
does not decide the limit and the conditions that are compiled begin their values alike. -/
theorem keyword_case_iff (table : LoadedTable) (lines : List (List UInt8))
    (line line' after : List UInt8) (h : SqlLine lines line after) (hcase : Respelled line line') :
    SameEffect table (withSql lines line after) (withSql lines line' after) ↔
      ∀ request ∈ parseRequestBody (withSql lines line after),
        ∀ request' ∈ parseRequestBody (withSql lines line' after),
          (parseLimit (withSql lines line after) ≤ queryMaxRows ∨
            isAggregate request.sql = isAggregate request'.sql) ∧
          emittedLiterals table.schema request = emittedLiterals table.schema request' := by
  have h' := h.case hcase.lower
  have hlimit {request request' : QueryRequest}
      (hparse : parseRequestBody (withSql lines line after) = some request)
      (hparse' : parseRequestBody (withSql lines line' after) = some request') :
      request.limit = request'.limit ↔ parseLimit (withSql lines line after) ≤ queryMaxRows ∨
        isAggregate request.sql = isAggregate request'.sql := by
    obtain ⟨-, -, -, hl⟩ := parseRequestBody_some hparse
    obtain ⟨-, -, -, hl'⟩ := parseRequestBody_some hparse'
    rw [hl, hl', ← parseLimit_case h h', capLimit_eq_iff]
  constructor
  · rintro ⟨-, hsame, hcompiled⟩ request hparse request' hparse'
    have hequal := hsame request hparse request' hparse'
    obtain ⟨hselect, hwhere⟩ := parse_fragments_case h h' hcase.lower hparse hparse'
    exact ⟨(hlimit hparse hparse').mp hequal, (compile_case hequal hselect hwhere).mp
      (hcompiled request hparse request' hparse')⟩
  · intro hall
    have hequal : ∀ request ∈ parseRequestBody (withSql lines line after),
        ∀ request' ∈ parseRequestBody (withSql lines line' after), request.limit = request'.limit :=
      fun request hparse request' hparse' ↦
        (hlimit hparse hparse').mpr (hall request hparse request' hparse').1
    refine ⟨parse_isSome_case h h' hcase.lower, hequal, fun request hparse request' hparse' ↦ ?_⟩
    obtain ⟨hselect, hwhere⟩ := parse_fragments_case h h' hcase.lower hparse hparse'
    exact (compile_case (hequal request hparse request' hparse') hselect hwhere).mpr
      (hall request hparse request' hparse').2

section Examples

def countBody (limit count : String) : List UInt8 :=
  withSql [ascii "TABLE=t", ascii "LIMIT=" ++ ascii limit]
    (ascii "SELECT " ++ (ascii count ++ ascii "(A) FROM t")) []

theorem count_line (limit : String) (h : ∀ ch ∈ ascii limit, ch ≠ 10 ∧ ch ≠ 0) :
    SqlLine [ascii "TABLE=t", ascii "LIMIT=" ++ ascii limit]
      (ascii "SELECT " ++ (ascii "COUNT" ++ ascii "(A) FROM t")) [] := by
  refine ⟨?_, line_chars (by decide), fun ch hch ↦ nomatch hch⟩
  rw [List.forall_mem_cons, List.forall_mem_singleton, List.forall_mem_append]
  exact ⟨line_chars (by decide), line_chars (by decide), h⟩

theorem count_respelled : Respelled (ascii "SELECT " ++ (ascii "COUNT" ++ ascii "(A) FROM t"))
    (ascii "SELECT " ++ (ascii "count" ++ ascii "(A) FROM t")) := by
  have hletters : (ascii "COUNT").all isIdentifierChar = true := by decide
  refine .word ⟨by decide, by simpa using hletters, ?_, ?_⟩ (show "COUNT" ∈ keywords by decide)
    (by decide) (by decide) (.same _) <;>
  · rintro ch ⟨rfl⟩
    rfl

/-- Above 256 the limit of `count(A)` is cut and that of `COUNT(A)` is not. -/
theorem lower_case_count_capped :
    Respelled (ascii "SELECT " ++ (ascii "COUNT" ++ ascii "(A) FROM t"))
      (ascii "SELECT " ++ (ascii "count" ++ ascii "(A) FROM t")) ∧
    ¬ SameEffect Conditions.columnA (countBody "300" "COUNT") (countBody "300" "count") := by
  refine ⟨count_respelled, fun h ↦ ?_⟩
  have hupper : (parseRequestBody (countBody "300" "COUNT")).map (·.limit) = some 300 := by
    decide +kernel
  have hlower : (parseRequestBody (countBody "300" "count")).map (·.limit) = some 256 := by
    decide +kernel
  obtain ⟨request, hparse, hlimit⟩ := Option.map_eq_some_iff.mp hupper
  obtain ⟨request', hparse', hlimit'⟩ := Option.map_eq_some_iff.mp hlower
  have hsame := h.limit request hparse request' hparse'
  rw [hlimit, hlimit'] at hsame
  cases hsame

theorem emittedLiterals_nil (schema : TableSchema) {request : QueryRequest}
    (h : request.whereClause = []) : emittedLiterals schema request = [] := by
  have hend : peek (skipBlanks request.whereMemory) = 0 := by
    rw [QueryRequest.whereMemory, h]
    rfl
  rw [emittedLiterals, emitted, passes, if_pos hend]
  rfl

theorem small_limit_unchanged :
    SameEffect Conditions.columnA (countBody "5" "COUNT") (countBody "5" "count") := by
  have hupper : (parseRequestBody (countBody "5" "COUNT")).map (·.whereClause) = some [] := by
    decide +kernel
  have hlower : (parseRequestBody (countBody "5" "count")).map (·.whereClause) = some [] := by
    decide +kernel
  have hlimit : parseLimit (countBody "5" "COUNT") ≤ queryMaxRows := by
    decide +kernel
  refine (keyword_case_iff Conditions.columnA [ascii "TABLE=t", ascii "LIMIT=" ++ ascii "5"] _ _ []
    (count_line "5" (line_chars (by decide))) count_respelled).mpr fun request hparse request' hparse' ↦ ?_
  have hparse : parseRequestBody (countBody "5" "COUNT") = some request := hparse
  have hparse' : parseRequestBody (countBody "5" "count") = some request' := hparse'
  rw [hparse, Option.map_some, Option.some_inj] at hupper
  rw [hparse', Option.map_some, Option.some_inj] at hlower
  exact ⟨.inl hlimit, by rw [emittedLiterals_nil _ hupper, emittedLiterals_nil _ hlower]⟩

end Examples

end FpgaDatabase.Firmware.KeywordCase
