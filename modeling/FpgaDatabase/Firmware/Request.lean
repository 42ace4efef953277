import FpgaDatabase.Firmware.CString

namespace FpgaDatabase.Firmware.Request

open CString

def sqlMaxLen : ℕ := 256
def tableMaxLen : ℕ := 32
def queryMaxRows : ℕ := 256
def defaultQueryLimit : ℕ := 0

structure QueryRequest where
  sql : List UInt8
  table : List UInt8
  selectList : List UInt8
  whereClause : List UInt8
  limit : ℕ
  deriving DecidableEq

/-- The memory from `where_clause` on: the terminator, the rest of the array, which
`memset` cleared, and the bytes of `limit` behind it. -/
def QueryRequest.whereMemory (request : QueryRequest) : List UInt8 :=
  request.whereClause ++ List.replicate (sqlMaxLen - request.whereClause.length) (0 : UInt8) ++
    (List.range 4).map (fun k ↦ UInt8.ofNat (request.limit >>> (8 * k)))

theorem whereMemory_eq {request : QueryRequest}
    (hlen : request.whereClause.length < sqlMaxLen) :
    ∃ tail, peek tail = 0 ∧ request.whereMemory = request.whereClause ++ tail := by
  obtain ⟨k, hk⟩ := Nat.exists_eq_succ_of_ne_zero
    (show sqlMaxLen - request.whereClause.length ≠ 0 by omega)
  refine ⟨_, ?_, by rw [QueryRequest.whereMemory, List.append_assoc]⟩
  rw [hk, List.replicate_succ]
  rfl

section Fragments

variable (sql : List UInt8)

def selectFragment (selectPos fromPos : Option ℕ) : List UInt8 :=
  match selectPos, fromPos with
  | some s, some f =>
    if s + 6 < f then trimCopy sqlMaxLen ((sql.drop (s + 6)).take (f - (s + 6))) else []
  | _, _ => []

/-- A candidate counts when it lies behind the keyword WHERE. -/
def clauseEnd (fallback wherePos : ℕ) (candidate : Option ℕ) : ℕ :=
  match candidate with
  | some c => if wherePos < c ∧ c < fallback then c else fallback
  | none => fallback

def earliestSqlClauseEnd (fallback wherePos : ℕ) (a b c : Option ℕ) : ℕ :=
  clauseEnd (clauseEnd (clauseEnd fallback wherePos a) wherePos b) wherePos c

def whereFragment (wherePos : Option ℕ) : List UInt8 :=
  match wherePos with
  | none => []
  | some w =>
    let whereEnd := earliestSqlClauseEnd sql.length w (findSqlKeyword sql "LIMIT")
      (findSqlKeyword sql "ORDER") (findSqlKeyword sql "GROUP")
    if w + 5 < whereEnd then trimCopy sqlMaxLen ((sql.drop (w + 5)).take (whereEnd - (w + 5)))
    else []

def extractSqlFragments (request : QueryRequest) : QueryRequest :=
  let selected := selectFragment sql (findSqlKeyword sql "SELECT") (findSqlKeyword sql "FROM")
  { request with
    selectList := if peek selected = 0 then ascii "*" else selected
    whereClause := whereFragment sql (findSqlKeyword sql "WHERE") }

end Fragments

/-- The search of `extract_line_value`. The jump to the next line is made byte by
byte; `atLine` says that `cursor` is at the start of a line. -/
def extractFrom (key : List UInt8) (dstSize : ℕ) (atLine : Bool) :
    List UInt8 → Option (List UInt8)
  | [] => none
  | c :: cs =>
    let line := (c :: cs).takeWhile (fun ch ↦ ch ≠ 10 ∧ ch ≠ 0)
    if c = 0 then none
    else if atLine ∧ key.isPrefixOf line then some (trimCopy dstSize (line.drop key.length))
    else extractFrom key dstSize (c = 10) cs

section Lines

variable {key line value rest : List UInt8} {dstSize : ℕ}

theorem line_chars (h : line.all (fun ch ↦ ch ≠ 10 && ch ≠ 0) = true) :
    ∀ ch ∈ line, ch ≠ 10 ∧ ch ≠ 0 := by
  simpa [List.all_eq_true] using h

theorem extractFrom_within (hline : ∀ ch ∈ line, ch ≠ 10 ∧ ch ≠ 0) :
    extractFrom key dstSize false (line ++ rest) = extractFrom key dstSize false rest := by
  induction line with
  | nil => rfl
  | cons c cs ih =>
    rw [List.forall_mem_cons] at hline
    rw [List.cons_append, extractFrom]
    simp [hline.1.2, hline.1.1, ih hline.2]

theorem takeWhile_line (hline : ∀ ch ∈ line, ch ≠ 10 ∧ ch ≠ 0)
    (hend : peek rest = 10 ∨ peek rest = 0) :
    (line ++ rest).takeWhile (fun ch ↦ ch ≠ 10 ∧ ch ≠ 0) = line := by
  refine takeWhile_append_stop (by simpa using hline) ?_
  rcases hend with h | h <;> simp [h]

theorem extractFrom_pass (hne : line ≠ []) (hline : ∀ ch ∈ line, ch ≠ 10 ∧ ch ≠ 0)
    (hend : peek rest = 10 ∨ peek rest = 0) (hkey : key.isPrefixOf line = false) :
    extractFrom key dstSize true (line ++ rest) = extractFrom key dstSize false rest := by
  have hstop := takeWhile_line hline hend
  obtain ⟨c, cs, rfl⟩ := List.exists_cons_of_ne_nil hne
  rw [List.forall_mem_cons] at hline
  rw [List.cons_append] at hstop ⊢
  rw [extractFrom, hstop]
  simp [hline.1.2, hline.1.1, hkey, extractFrom_within hline.2]

theorem extractFrom_skip (hline : ∀ ch ∈ line, ch ≠ 10 ∧ ch ≠ 0)
    (hkey : key.isPrefixOf line = false) :
    extractFrom key dstSize true (line ++ 10 :: rest) = extractFrom key dstSize true rest := by
  by_cases hne : line = []
  · subst hne
    rw [List.nil_append, extractFrom]
    simp [hkey]
  · rw [extractFrom_pass hne hline (.inl rfl) hkey]
    simp [extractFrom]

theorem extractFrom_hit (hne : key ≠ []) (hkey : ∀ ch ∈ key, ch ≠ 10 ∧ ch ≠ 0)
    (hvalue : ∀ ch ∈ value, ch ≠ 10 ∧ ch ≠ 0) (hend : peek rest = 10 ∨ peek rest = 0) :
    extractFrom key dstSize true (key ++ value ++ rest) = some (trimCopy dstSize value) := by
  have hstop : (key ++ value ++ rest).takeWhile (fun ch ↦ ch ≠ 10 ∧ ch ≠ 0) = key ++ value :=
    takeWhile_line (List.forall_mem_append.mpr ⟨hkey, hvalue⟩) hend
  obtain ⟨k, ks, rfl⟩ := List.exists_cons_of_ne_nil hne
  rw [List.cons_append, List.cons_append] at hstop ⊢
  rw [extractFrom, hstop]
  have hprefix : (k :: ks).isPrefixOf (k :: (ks ++ value)) = true := by
    rw [List.isPrefixOf_iff_prefix]
    exact ⟨value, rfl⟩
  simp [(hkey k List.mem_cons_self).2, hprefix]

end Lines

def extractLineValue (body : List UInt8) (key : String) (dstSize : ℕ) : Option (List UInt8) :=
  extractFrom (ascii key) dstSize true body

def parseLimit (body : List UInt8) : ℕ :=
  match extractLineValue body "LIMIT=" 16 with
  | some limitBuffer =>
    if 0 < strtoul limitBuffer then strtoul limitBuffer else defaultQueryLimit
  | none => defaultQueryLimit

def isAggregate (sql : List UInt8) : Bool :=
  (strstr (ascii "COUNT(") sql).isSome || (strstr (ascii "SUM(") sql).isSome

/-- Aggregates are not capped, so that they see the full table. -/
def capLimit (sql : List UInt8) (limit : ℕ) : ℕ :=
  if queryMaxRows < limit ∧ ¬ isAggregate sql then queryMaxRows else limit

def parseRequestBody (body : List UInt8) : Option QueryRequest := do
  let table ← extractLineValue body "TABLE=" tableMaxLen
  if !sanitizeIdentifier table then none
  else
    let sql ← extractLineValue body "SQL=" sqlMaxLen
    some (extractSqlFragments sql ⟨sql, table, [], [], capLimit sql (parseLimit body)⟩)

section Accepted

theorem trimCopy_part (dstSize : ℕ) (src : List UInt8) : trimCopy dstSize src <:+: src :=
  ((List.take_prefix _ _).trans (List.rdropWhile_prefix _ _)).isInfix.trans
    (List.dropWhile_suffix _).isInfix

/-- What `extract_line_value` returns fits its buffer and lies within a line. -/
theorem extractFrom_line {key text value : List UInt8} {dstSize : ℕ} {atLine : Bool}
    (h : extractFrom key dstSize atLine text = some value) :
    value.length ≤ dstSize - 1 ∧ ∀ ch ∈ value, ch ≠ 10 ∧ ch ≠ 0 := by
  induction text generalizing atLine with
  | nil => cases h
  | cons c cs ih =>
    rw [extractFrom] at h
    split_ifs at h
    · cases h
      refine ⟨List.length_take_le _ _, ?_⟩
      intro ch hmem
      have hline := List.mem_of_mem_drop ((trimCopy_part _ _).subset hmem)
      simpa using List.mem_takeWhile_imp hline
    · exact ih h

theorem extractFrom_some {key text value : List UInt8} {dstSize : ℕ} {atLine : Bool}
    (h : extractFrom key dstSize atLine text = some value) :
    value.length ≤ dstSize - 1 ∧ 10 ∉ value := by
  obtain ⟨hlen, hline⟩ := extractFrom_line h
  exact ⟨hlen, fun hmem ↦ (hline 10 hmem).1 rfl⟩

theorem parseRequestBody_some {body : List UInt8} {request : QueryRequest}
    (h : parseRequestBody body = some request) :
    extractLineValue body "TABLE=" tableMaxLen = some request.table ∧
      sanitizeIdentifier request.table = true ∧
      extractLineValue body "SQL=" sqlMaxLen = some request.sql ∧
      request.limit = capLimit request.sql (parseLimit body) := by
  obtain ⟨table, htable, h⟩ := Option.bind_eq_some_iff.mp h
  split_ifs at h with hs
  have hs' : sanitizeIdentifier table = true := by simpa using hs
  obtain ⟨sql, hsql, h⟩ := Option.bind_eq_some_iff.mp h
  cases h
  exact ⟨htable, hs', hsql, rfl⟩

theorem parseRequestBody_fragments {body : List UInt8} {request : QueryRequest}
    (h : parseRequestBody body = some request) :
    request = extractSqlFragments request.sql request := by
  obtain ⟨table, -, h⟩ := Option.bind_eq_some_iff.mp h
  split_ifs at h
  obtain ⟨sql, -, h⟩ := Option.bind_eq_some_iff.mp h
  cases h
  rfl

theorem selectFragment_part (sql : List UInt8) (selectPos fromPos : Option ℕ) :
    selectFragment sql selectPos fromPos <:+: sql := by
  unfold selectFragment
  split
  · split_ifs
    · exact (trimCopy_part _ _).trans
        ((List.take_prefix _ _).isInfix.trans (List.drop_suffix _ _).isInfix)
    · exact List.nil_infix
  · exact List.nil_infix

theorem whereFragment_part (sql : List UInt8) (wherePos : Option ℕ) :
    whereFragment sql wherePos <:+: sql := by
  unfold whereFragment
  split
  · exact List.nil_infix
  · simp only
    split_ifs
    · exact (trimCopy_part _ _).trans
        ((List.take_prefix _ _).isInfix.trans (List.drop_suffix _ _).isInfix)
    · exact List.nil_infix

theorem whereFragment_length (sql : List UInt8) (wherePos : Option ℕ) :
    (whereFragment sql wherePos).length < sqlMaxLen := by
  unfold whereFragment
  split
  · decide
  · simp only
    split_ifs
    · exact Nat.lt_of_le_of_lt (List.length_take_le _ _) (by decide)
    · decide

theorem strstr_isSome {needle text : List UInt8} (h : needle <:+: text) (hne : needle ≠ [])
    (hnul : 0 ∉ text) : (strstr needle text).isSome = true := by
  induction text with
  | nil => exact absurd (List.infix_nil.mp h) hne
  | cons c cs ih =>
    rw [List.mem_cons, not_or] at hnul
    rw [strstr, if_neg (Ne.symm hnul.1)]
    split_ifs with hprefix
    · rfl
    · refine ih ?_ hnul.2
      rcases List.infix_cons_iff.mp h with hp | hi
      · exact absurd (List.isPrefixOf_iff_prefix.mpr hp) hprefix
      · exact hi

end Accepted

/-- The part of a received text that `rx_task` parses: what follows the blank line,
or everything if there is none. -/
def requestBody (buffer : List UInt8) : List UInt8 :=
  match strstr [13, 10, 13, 10] buffer with
  | some rest => rest.drop 4
  | none => buffer

end FpgaDatabase.Firmware.Request
