import FpgaDatabase.Firmware.Request
import FpgaDatabase.Reference.Client
import Mathlib.Data.List.TakeDrop

namespace FpgaDatabase.Reference.ClientRequest

open Firmware.CString Firmware.Request Library.Utf8 Client

section Strings

/-- `replace(/\s+/g, ' ')`; `inRun` says that the blank of a run has been written. -/
def collapse (inRun : Bool) : Text → Text
  | [] => []
  | c :: cs =>
    if isSpace c then if inRun then collapse true cs else 32 :: collapse true cs
    else c :: collapse false cs

def normalizeSql (sql : Text) : Text := trim (collapse false sql)

def isDecimal (c : ℕ) : Bool := 48 ≤ c && c ≤ 57

def isWordChar (c : ℕ) : Bool :=
  isDecimal c || (65 ≤ c && c ≤ 90) || c = 95 || (97 ≤ c && c ≤ 122)

/-- The group of the first match of a keyword, white space and a run of `cls`, in any
case. `inWord` says that the character before is part of a word. -/
def matchGroup (keyword : Text) (cls : ℕ → Bool) (inWord : Bool) : Text → Option Text
  | [] => none
  | c :: cs =>
    let rest := (c :: cs).drop keyword.length
    let group := (rest.dropWhile isSpace).takeWhile cls
    if inWord = false ∧ toLowerCase ((c :: cs).take keyword.length) = keyword ∧
        (rest.head?.any isSpace) = true ∧ group ≠ [] then some group
    else matchGroup keyword cls (isWordChar c) cs

def extractTable (sql : Text) : Text := (matchGroup (text "from") isWordChar false sql).getD []

end Strings

section Numbers

/-- The double that is nearest to an integer; `none` is Infinity. -/
def toDouble (n : ℕ) : Option ℕ :=
  let step := 2 ^ (Nat.log2 n - 52)
  let low := n / step
  let rest := n % step
  let mantissa := if step < 2 * rest ∨ (2 * rest = step ∧ low % 2 = 1) then low + 1 else low
  if mantissa * step < 2 ^ 1024 then some (mantissa * step) else none

/-- The fewest leading digits that stand for the double `n`, and the number of zeros
behind them. -/
def shortest (n : ℕ) : ℕ → ℕ × ℕ
  | 0 => (n, 0)
  | zeros + 1 =>
    let unit := 10 ^ (zeros + 1)
    let low := n / unit
    let lowFits := toDouble (low * unit) = some n
    let highFits := toDouble ((low + 1) * unit) = some n
    let lowIsNearer := 2 * (n % unit) < unit ∨ (2 * (n % unit) = unit ∧ low % 2 = 0)
    if lowFits ∧ (¬ highFits ∨ lowIsNearer) then (low, zeros + 1)
    else if highFits then (low + 1, zeros + 1)
    else shortest n zeros

def decimalText (n : ℕ) : Text := (Nat.toDigits 10 n).map Char.toNat

def exponential (shown : Text) (exponent : ℕ) : Text :=
  shown.take 1 ++ (if shown.length = 1 then [] else 46 :: shown.tail) ++ text "e+" ++
    decimalText exponent

/-- A number as a template string shows it. -/
def numberText : Option ℕ → Text
  | none => text "Infinity"
  | some 0 => text "0"
  | some n =>
    let (digits, zeros) := shortest n (decimalText n).length
    let shown := decimalText digits
    if shown.length + zeros ≤ 21 then shown ++ List.replicate zeros 48
    else exponential shown (shown.length + zeros - 1)

def extractLimit (sql : Text) : Option ℕ :=
  match matchGroup (text "limit") isDecimal false sql with
  | none => some 0
  | some digits => toDouble (digits.foldl (fun n c ↦ 10 * n + (c - 48)) 0)

end Numbers

structure Payload where
  table : Text
  limit : Option ℕ
  sql : Text
  body : Text
  deriving DecidableEq

/-- `none` stands for the error that no table was found. -/
def buildRequestBody (sql : Text) : Option Payload :=
  let normalizedSql := normalizeSql sql
  let table := extractTable normalizedSql
  let limit := extractLimit normalizedSql
  if table = [] then none
  else some
    { table
      limit
      sql := normalizedSql
      body := text "TABLE=" ++ table ++ 10 :: (text "LIMIT=" ++ numberText limit ++
        10 :: (text "SQL=" ++ normalizedSql ++ [10])) }

section Characters

variable {sql keyword group : Text} {cls : ℕ → Bool} {c : ℕ}

theorem decimalText_digit {n : ℕ} (h : c ∈ decimalText n) : 48 ≤ c := by
  obtain ⟨ch, hch, rfl⟩ := List.mem_map.mp h
  have hdigit := Nat.isDigit_of_mem_toDigits (by decide) (by decide) hch
  simp only [Char.isDigit, Bool.and_eq_true, decide_eq_true_eq] at hdigit
  exact UInt32.le_iff_toNat_le.mp hdigit.1

theorem exponential_plain {shown : Text} {exponent : ℕ} (hs : ∀ c ∈ shown, 48 ≤ c)
    (h : c ∈ exponential shown exponent) : 43 ≤ c := by
  have hle : 43 ≤ 48 := by decide
  simp only [exponential, List.mem_append] at h
  rcases h with ((h | h) | h) | h
  · exact hle.trans (hs c (List.mem_of_mem_take h))
  · split_ifs at h
    · cases h
    · rcases List.mem_cons.mp h with rfl | h
      · decide
      · exact hle.trans (hs c (List.mem_of_mem_tail h))
  · revert c
    decide
  · exact hle.trans (decimalText_digit h)

/-- The text of a number has no line end and no NUL. -/
theorem numberText_plain {limit : Option ℕ} (h : c ∈ numberText limit) : 43 ≤ c := by
  match limit with
  | none =>
    revert c
    decide
  | some 0 =>
    revert c
    decide
  | some (n + 1) =>
    simp only [numberText] at h
    split_ifs at h
    · rcases List.mem_append.mp h with h | h
      · exact (by decide : 43 ≤ 48).trans (decimalText_digit h)
      · rw [List.eq_of_mem_replicate h]
        decide
    · exact exponential_plain (fun c hc ↦ decimalText_digit hc) h

theorem matchGroup_class {inWord : Bool} (h : matchGroup keyword cls inWord sql = some group) :
    ∀ c ∈ group, cls c = true := by
  induction sql generalizing inWord with
  | nil => cases h
  | cons d ds ih =>
    rw [matchGroup] at h
    split_ifs at h
    · cases h
      exact fun c hc ↦ List.mem_takeWhile_imp hc
    · exact ih h

theorem extractTable_word : ∀ c ∈ extractTable sql, isWordChar c = true := by
  rw [extractTable]
  cases h : matchGroup (text "from") isWordChar false sql with
  | none => simp
  | some group => exact matchGroup_class h

theorem mem_collapse {inRun : Bool} (h : c ∈ collapse inRun sql) : c = 32 ∨ isSpace c = false := by
  induction sql generalizing inRun with
  | nil => cases h
  | cons d ds ih =>
    rw [collapse] at h
    split_ifs at h with hspace hrun
    · exact ih h
    · rcases List.mem_cons.mp h with rfl | h
      · exact .inl rfl
      · exact ih h
    · rcases List.mem_cons.mp h with rfl | h
      · exact .inr (by simpa using hspace)
      · exact ih h

theorem trim_ends (s : Text) : (∀ c ∈ (trim s).head?, isSpace c = false) ∧
    ∀ c ∈ (trim s).getLast?, isSpace c = false := by
  constructor
  · intro c hc
    obtain ⟨rest, hrest⟩ := List.rdropWhile_prefix isSpace (s.dropWhile isSpace)
    have hnot := List.head?_dropWhile_not isSpace s
    rw [← hrest, ← trim, List.head?_append, Option.mem_def.mp hc] at hnot
    exact hnot
  · intro c hc
    have hne : trim s ≠ [] := by
      intro hnil
      rw [hnil] at hc
      cases hc
    have hlast := List.rdropWhile_last_not isSpace (s.dropWhile isSpace) hne
    rw [Option.mem_def, List.getLast?_eq_some_getLast hne, Option.some.injEq] at hc
    rw [← hc]
    exact eq_false_of_ne_true hlast

theorem normalizeSql_newline (sql : Text) : 10 ∉ normalizeSql sql := by
  intro h
  have hmem : 10 ∈ collapse false sql :=
    (List.dropWhile_sublist _).subset ((List.rdropWhile_prefix _ _).subset h)
  rcases mem_collapse hmem with h | h <;> revert h <;> decide

end Characters

section Bytes

variable {sql s : Text} {c : ℕ} {b : UInt8} {payload : Payload}

theorem isWordChar_range (h : isWordChar c = true) : c = 95 ∨ (48 ≤ c ∧ c ≤ 57) ∨
    (65 ≤ c ∧ c ≤ 90) ∨ (97 ≤ c ∧ c ≤ 122) := by
  simp only [isWordChar, isDecimal, Bool.or_eq_true, Bool.and_eq_true, decide_eq_true_eq] at h
  omega

theorem isWordChar_byte (h : isWordChar c = true) :
    (isalnum (UInt8.ofNat c) || UInt8.ofNat c = 95) = true := by
  have hc := isWordChar_range h
  have hmod : c % 2 ^ 8 = c := Nat.mod_eq_of_lt (by omega)
  simp only [isalnum, isalpha, isupper, islower, isdigit, Bool.or_eq_true, Bool.and_eq_true,
    decide_eq_true_eq, UInt8.le_iff_toNat_le, ← UInt8.toNat_inj, UInt8.toNat_ofNat', hmod,
    UInt8.reduceToNat]
  omega

theorem encodePoint_plain (hc : isSpace c = false) (h₀ : c ≠ 0) (hb : b ∈ encodePoint c) :
    isspace b = false ∧ trailing b = false := by
  have hplain : b.toNat ≠ 0 ∧ b.toNat ≠ 32 ∧ (b.toNat < 9 ∨ 13 < b.toNat) := by
    rcases Nat.lt_or_ge c 0x80 with hsmall | hlarge
    · rw [encodePoint_ascii hsmall, List.mem_singleton] at hb
      rw [hb, UInt8.toNat_ofNat', Nat.mod_eq_of_lt (by omega)]
      simp only [isSpace, Bool.or_eq_false_iff, Bool.and_eq_false_iff, decide_eq_false_iff_not] at hc
      omega
    · have hhigh : 128 ≤ b.toNat := UInt8.le_iff_toNat_le.mp (encodePoint_high hlarge b hb)
      omega
  have hspace : isspace b = false := by
    simp only [isspace, Bool.or_eq_false_iff, Bool.and_eq_false_iff, decide_eq_false_iff_not,
      UInt8.le_iff_toNat_le, ← UInt8.toNat_inj, UInt8.reduceToNat]
    omega
  have hzero : b ≠ 0 := by
    rintro rfl
    exact hplain.1 rfl
  exact ⟨hspace, trailing_of_isspace hzero hspace⟩

theorem encode_head (hb : b ∈ (encode s).head?) : ∃ c ∈ s.head?, b ∈ encodePoint c := by
  cases s with
  | nil => cases hb
  | cons c cs =>
    refine ⟨c, rfl, ?_⟩
    rw [encode, List.flatMap_cons, List.head?_append_of_ne_nil _ (encodePoint_ne_nil c)] at hb
    exact List.mem_of_mem_head? hb

theorem encode_getLast (hb : b ∈ (encode s).getLast?) : ∃ c ∈ s.getLast?, b ∈ encodePoint c := by
  rcases List.eq_nil_or_concat s with rfl | ⟨t, c, rfl⟩
  · cases hb
  · refine ⟨c, by simp, ?_⟩
    rw [List.concat_eq_append, encode_append, encode, encode, List.flatMap_singleton,
      List.getLast?_append_of_ne_nil _ (encodePoint_ne_nil c)] at hb
    exact List.mem_of_getLast? hb

theorem encode_ne {k : UInt8} (hk : k < 0x80) (h : k.toNat ∉ s) : ∀ b ∈ encode s, b ≠ k := by
  rintro b hb rfl
  exact h ((mem_encode hk).mp hb)

theorem encode_line (h₁ : 10 ∉ s) (h₀ : 0 ∉ s) : ∀ ch ∈ encode s, ch ≠ 10 ∧ ch ≠ 0 :=
  fun ch hch ↦ ⟨encode_ne (by decide) h₁ ch hch, encode_ne (by decide) h₀ ch hch⟩

theorem encode_text (key : String) (h : ∀ c ∈ text key, c < 0x80) : encode (text key) = ascii key := by
  rw [encode_ascii h, text, List.map_map]
  rfl

theorem trimCopy_encode (dstSize : ℕ) (h₀ : 0 ∉ s) (hfirst : ∀ c ∈ s.head?, isSpace c = false)
    (hlast : ∀ c ∈ s.getLast?, isSpace c = false) :
    trimCopy dstSize (encode s) = (encode s).take (dstSize - 1) := by
  apply trimCopy_plain
  · intro b hb
    obtain ⟨c, hc, hmem⟩ := encode_head hb
    have hne : c ≠ 0 := fun h ↦ h₀ (h ▸ List.mem_of_mem_head? hc)
    exact (encodePoint_plain (hfirst c hc) hne hmem).1
  · intro b hb
    obtain ⟨c, hc, hmem⟩ := encode_getLast hb
    have hne : c ≠ 0 := fun h ↦ h₀ (h ▸ List.mem_of_getLast? hc)
    exact (encodePoint_plain (hlast c hc) hne hmem).2

theorem buildRequestBody_some (h : buildRequestBody sql = some payload) :
    payload.table ≠ [] ∧ payload.table = extractTable payload.sql ∧
      payload.sql = normalizeSql sql ∧
        encode payload.body = ascii "TABLE=" ++ encode payload.table ++
          10 :: (ascii "LIMIT=" ++ encode (numberText payload.limit) ++
            10 :: (ascii "SQL=" ++ encode payload.sql ++ [10])) := by
  have hkeys : encode (text "TABLE=") = ascii "TABLE=" ∧ encode (text "LIMIT=") = ascii "LIMIT=" ∧
      encode (text "SQL=") = ascii "SQL=" :=
    ⟨encode_text _ (by decide), encode_text _ (by decide), encode_text _ (by decide)⟩
  have hline (s : Text) : encode (10 :: s) = 10 :: encode s := rfl
  simp only [buildRequestBody, Option.ite_none_left_eq_some, Option.some.injEq] at h
  obtain ⟨hne, rfl⟩ := h
  refine ⟨hne, rfl, rfl, ?_⟩
  simp only [encode_append, hline, hkeys]
  rfl

theorem encode_word (hword : ∀ c ∈ s, isWordChar c = true) : encode s = s.map UInt8.ofNat := by
  apply encode_ascii
  intro c hc
  have hrange := isWordChar_range (hword c hc)
  omega

/-- A table name passes the check of identifiers, also when it is cut. -/
theorem sanitize_table (hne : s ≠ []) (hword : ∀ c ∈ s, isWordChar c = true) :
    trimCopy tableMaxLen (encode s) = (encode s).take 31 ∧
      sanitizeIdentifier ((encode s).take 31) = true := by
  have hspace (c : ℕ) (hc : c ∈ s) : isSpace c = false := by
    have hrange := isWordChar_range (hword c hc)
    simp only [isSpace, Bool.or_eq_false_iff, Bool.and_eq_false_iff, decide_eq_false_iff_not]
    omega
  constructor
  · exact trimCopy_encode tableMaxLen (fun h ↦ absurd (hword 0 h) (by decide))
      (fun c hc ↦ hspace c (List.mem_of_mem_head? hc)) (fun c hc ↦ hspace c (List.mem_of_getLast? hc))
  · rw [encode_word hword, sanitizeIdentifier, Bool.and_eq_true, List.all_eq_true]
    constructor
    · obtain ⟨c, cs, rfl⟩ := List.exists_cons_of_ne_nil hne
      rfl
    · intro b hb
      obtain ⟨c, hc, rfl⟩ := List.mem_map.mp (List.mem_of_mem_take hb)
      exact isWordChar_byte (hword c hc)

theorem parse_built (h : buildRequestBody sql = some payload) :
    ∃ request, parseRequestBody (encode payload.body) = some request ∧
      request.table = (encode payload.table).take 31 ∧
        request.sql = trimCopy sqlMaxLen ((encode payload.sql).takeWhile (· ≠ 0)) := by
  obtain ⟨hne, htable, hsql, hbody⟩ := buildRequestBody_some h
  have hword : ∀ c ∈ payload.table, isWordChar c = true := by
    rw [htable]
    exact extractTable_word
  have htableChars := encode_line (fun h ↦ absurd (hword 10 h) (by decide))
    (fun h ↦ absurd (hword 0 h) (by decide))
  have hlimitChars : ∀ ch ∈ encode (numberText payload.limit), ch ≠ 10 ∧ ch ≠ 0 :=
    encode_line (fun h ↦ absurd (numberText_plain h) (by decide))
      (fun h ↦ absurd (numberText_plain h) (by decide))
  have hsqlChars : ∀ ch ∈ (encode payload.sql).takeWhile (· ≠ 0), ch ≠ 10 ∧ ch ≠ 0 := by
    intro ch hch
    have hnewline : 10 ∉ payload.sql := hsql ▸ normalizeSql_newline sql
    exact ⟨encode_ne (by decide) hnewline ch ((List.takeWhile_sublist _).subset hch),
      by simpa using List.mem_takeWhile_imp hch⟩
  have hfoundTable : extractLineValue (encode payload.body) "TABLE=" tableMaxLen =
      some ((encode payload.table).take 31) := by
    rw [hbody, extractLineValue, extractFrom_hit (by decide) (line_chars (by decide)) htableChars
      (.inl rfl), (sanitize_table hne hword).1]
  have hlines {key : String} {value : List UInt8}
      (h : (ascii key).all (fun ch ↦ ch ≠ 10 && ch ≠ 0) = true)
      (hvalue : ∀ ch ∈ value, ch ≠ 10 ∧ ch ≠ 0) : ∀ ch ∈ ascii key ++ value, ch ≠ 10 ∧ ch ≠ 0 :=
    List.forall_mem_append.mpr ⟨line_chars h, hvalue⟩
  have hrest : peek ((encode payload.sql).dropWhile (· ≠ 0) ++ [10]) = 10 ∨
      peek ((encode payload.sql).dropWhile (· ≠ 0) ++ [10]) = 0 := by
    cases hdrop : (encode payload.sql).dropWhile (· ≠ 0) with
    | nil => exact .inl rfl
    | cons ch chs =>
      have hhead := List.head?_dropWhile_not (fun ch : UInt8 ↦ decide (ch ≠ 0)) (encode payload.sql)
      rw [hdrop] at hhead
      exact .inr (by simpa using hhead)
  have hsplit : ascii "SQL=" ++ encode payload.sql ++ [10] =
      ascii "SQL=" ++ (encode payload.sql).takeWhile (· ≠ 0) ++
        ((encode payload.sql).dropWhile (· ≠ 0) ++ [10]) := by
    rw [List.append_assoc, List.append_assoc, ← List.append_assoc ((encode payload.sql).takeWhile _),
      List.takeWhile_append_dropWhile]
  have hfoundSql : extractLineValue (encode payload.body) "SQL=" sqlMaxLen =
      some (trimCopy sqlMaxLen ((encode payload.sql).takeWhile (· ≠ 0))) := by
    rw [hbody, extractLineValue, extractFrom_skip (hlines (by decide) htableChars) rfl,
      extractFrom_skip (hlines (by decide) hlimitChars) rfl, hsplit,
      extractFrom_hit (by decide) (line_chars (by decide)) hsqlChars hrest]
  have hsanitize := (sanitize_table hne hword).2
  simp only [parseRequestBody, hfoundTable, hfoundSql, Option.bind_eq_bind, Option.bind_some,
    hsanitize, Bool.not_true, Bool.false_eq_true, if_false]
  exact ⟨_, rfl, rfl, rfl⟩

end Bytes

/-- When the firmware works on the table and on the SQL text that the page has sent. -/
theorem request_round_trip_iff (sql : Text) (payload : Payload)
    (h : buildRequestBody sql = some payload) :
    (∀ request, parseRequestBody (encode payload.body) = some request →
        request.table = encode payload.table ∧ request.sql = encode payload.sql) ↔
      (extractTable (normalizeSql sql)).length ≤ 31 ∧ (encode (normalizeSql sql)).length ≤ 255 ∧
        0 ∉ normalizeSql sql := by
  obtain ⟨hne, htable, hsql, -⟩ := buildRequestBody_some h
  obtain ⟨request, hparse, hreqTable, hreqSql⟩ := parse_built h
  have hlen : (encode payload.table).length = payload.table.length := by
    have hword : ∀ c ∈ payload.table, isWordChar c = true := by
      rw [htable]
      exact extractTable_word
    rw [encode_word hword, List.length_map]
  have htableIff : request.table = encode payload.table ↔ payload.table.length ≤ 31 := by
    rw [hreqTable, List.take_eq_self_iff, hlen]
  have hsqlIff : request.sql = encode payload.sql ↔
      (encode payload.sql).length ≤ 255 ∧ 0 ∉ payload.sql := by
    rw [hreqSql]
    by_cases h₀ : 0 ∈ payload.sql
    · refine iff_of_false (fun heq ↦ ?_) (fun hand ↦ hand.2 h₀)
      have hmem : 0 ∈ encode payload.sql := (mem_encode (by decide)).mpr h₀
      rw [← heq] at hmem
      have hzero := List.mem_takeWhile_imp ((trimCopy_part _ _).subset hmem)
      simp at hzero
    · have hall : (encode payload.sql).takeWhile (· ≠ 0) = encode payload.sql := by
        rw [List.takeWhile_eq_self_iff]
        exact fun b hb ↦ decide_eq_true (encode_ne (by decide) h₀ b hb)
      have hends := trim_ends (collapse false sql)
      have hzero : 0 ∉ normalizeSql sql := hsql ▸ h₀
      have htrim : trimCopy sqlMaxLen (encode (normalizeSql sql)) = _ :=
        trimCopy_encode sqlMaxLen hzero hends.1 hends.2
      rw [hall, hsql, htrim, List.take_eq_self_iff]
      exact (and_iff_left hzero).symm
  rw [hparse]
  simp only [Option.some.injEq, forall_eq']
  rw [htableIff, hsqlIff, htable, hsql]

section Examples

def longSql : Text := text "SELECT " ++ (List.replicate 118 (text "A,")).flatten ++
  text "A FROM T WHERE A = 1"

/-- What was cut is the condition: all rows are selected. -/
theorem long_sql_loses_where : ∃ payload request, buildRequestBody longSql = some payload ∧
    parseRequestBody (encode payload.body) = some request ∧
      request.sql ≠ encode payload.sql ∧ request.whereClause = [] ∧
        (extractSqlFragments (encode payload.sql) request).whereClause = ascii "A = 1" := by
  have hall : (buildRequestBody longSql).any (fun payload ↦
      (parseRequestBody (encode payload.body)).any (fun request ↦
        request.sql ≠ encode payload.sql ∧ request.whereClause = [] ∧
          (extractSqlFragments (encode payload.sql) request).whereClause = ascii "A = 1")) =
        true := by
    decide +kernel
  obtain ⟨payload, hbuilt, hpayload⟩ := (Option.any_eq_true _ _).mp hall
  obtain ⟨request, hparsed, hrequest⟩ := (Option.any_eq_true _ _).mp hpayload
  exact ⟨payload, request, hbuilt, hparsed, of_decide_eq_true hrequest⟩

theorem short_sql_round_trip : ∃ payload, buildRequestBody (text "select * from T") = some payload ∧
    ∀ request, parseRequestBody (encode payload.body) = some request →
      request.table = encode payload.table ∧ request.sql = encode payload.sql := by
  have hshort : (buildRequestBody (text "select * from T")).isSome = true ∧
      (extractTable (normalizeSql (text "select * from T"))).length ≤ 31 ∧
        (encode (normalizeSql (text "select * from T"))).length ≤ 255 ∧
          0 ∉ normalizeSql (text "select * from T") := by
    decide +kernel
  obtain ⟨payload, hbuilt⟩ := Option.isSome_iff_exists.mp hshort.1
  exact ⟨payload, hbuilt, (request_round_trip_iff _ payload hbuilt).mpr hshort.2⟩

end Examples

end FpgaDatabase.Reference.ClientRequest
