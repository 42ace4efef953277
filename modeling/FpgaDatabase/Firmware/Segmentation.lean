import FpgaDatabase.Firmware.Tasks

namespace FpgaDatabase.Firmware.Segmentation

open CString Request Tasks

/-- What `rx_task` makes of a connection: it parses what the first `recv` returns. -/
def rxOutcome : List (List UInt8) → Option QueryRequest
  | [] => none
  | chunk :: _ => parseRequestBody (requestBody (chunk.take (requestBufferSize - 1)))

/-- The stream may deliver the request in any non-empty pieces. -/
def Independent (request : List UInt8) : Prop :=
  ∀ chunks : List (List UInt8), (∀ chunk ∈ chunks, chunk ≠ []) → chunks.flatten = request →
    rxOutcome chunks = rxOutcome [request]

def lineText (mem : List UInt8) : List UInt8 := mem.takeWhile (fun ch ↦ ch ≠ 10 ∧ ch ≠ 0)

def findLine (key : List UInt8) (atLine : Bool) : List UInt8 → Option ℕ
  | [] => none
  | c :: cs =>
    if c = 0 then none
    else if atLine ∧ key.isPrefixOf (lineText (c :: cs)) then some 0
    else (findLine key (c = 10) cs).map (· + 1)

def tableKey : List UInt8 := ascii "TABLE="
def sqlKey : List UInt8 := ascii "SQL="

def identifierStart (value : List UInt8) : Bool :=
  let ch := peek (value.dropWhile isspace)
  isalnum ch || ch = 95

/-- Some beginning of the text is a request: its table line comes first and is an
identifier, or the line of the SQL text comes first and the table line, cut short,
is one. -/
def Completes (text : List UInt8) : Prop :=
  ∃ t s, findLine tableKey true text = some t ∧ findLine sqlKey true text = some s ∧
    (t < s ∧ sanitizeIdentifier (trimCopy tableMaxLen ((lineText (text.drop t)).drop 6)) = true ∨
      s < t ∧ identifierStart ((lineText (text.drop t)).drop 6) = true)

def beforeBlank (request : List UInt8) : List UInt8 :=
  match strstr [13, 10, 13, 10] request with
  | some rest => request.take (request.length - rest.length + 3)
  | none => request

theorem extractFrom_cons (key : List UInt8) (dstSize : ℕ) (atLine : Bool) (c : UInt8)
    (cs : List UInt8) : extractFrom key dstSize atLine (c :: cs) =
      if c = 0 then none
      else if atLine ∧ key.isPrefixOf (lineText (c :: cs)) then
        some (trimCopy dstSize ((lineText (c :: cs)).drop key.length))
      else extractFrom key dstSize (c = 10) cs := rfl

theorem extractFrom_eq (key : List UInt8) (dstSize : ℕ) (atLine : Bool) (text : List UInt8) :
    extractFrom key dstSize atLine text = (findLine key atLine text).map
      (fun p ↦ trimCopy dstSize ((lineText (text.drop p)).drop key.length)) := by
  induction text generalizing atLine with
  | nil => rfl
  | cons c cs ih =>
    rw [extractFrom_cons, findLine, ih]
    by_cases h₀ : c = 0
    · rw [if_pos h₀, if_pos h₀]
      rfl
    · rw [if_neg h₀, if_neg h₀]
      split_ifs
      · rfl
      · cases findLine key (decide (c = 10)) cs <;> rfl

theorem lineText_take (mem : List UInt8) (n : ℕ) :
    lineText (mem.take n) = (lineText mem).take n := List.take_takeWhile.symm

def within (k n : ℕ) (o : Option ℕ) : Option ℕ := o.filter (fun p ↦ p + k ≤ n)

theorem within_some (k n p : ℕ) : within k n (some p) = if p + k ≤ n then some p else none := by
  by_cases h : p + k ≤ n <;> simp [within, Option.filter_some, h]

theorem within_none (k n : ℕ) : within k n none = none := rfl

theorem within_of_lt {k n : ℕ} (h : n < k) (o : Option ℕ) : within k n o = none := by
  cases o with
  | none => rfl
  | some p => rw [within_some, if_neg (by omega)]

theorem within_shift (k n : ℕ) (o : Option ℕ) :
    within k (n + 1) (o.map (· + 1)) = (within k n o).map (· + 1) := by
  cases o with
  | none => rfl
  | some p =>
    rw [Option.map_some, within_some, within_some]
    by_cases h : p + k ≤ n
    · rw [if_pos h, if_pos (by omega)]
      rfl
    · rw [if_neg h, if_neg (by omega)]
      rfl

theorem isPrefixOf_take (needle l : List UInt8) (n : ℕ) :
    needle.isPrefixOf (l.take n) = true ↔ needle.isPrefixOf l = true ∧ needle.length ≤ n := by
  rw [List.isPrefixOf_iff_prefix, List.isPrefixOf_iff_prefix, List.prefix_take_iff]

/-- A beginning of the text shows the same line if it contains the key. -/
theorem findLine_take (key : List UInt8) (hkey : 0 < key.length) (atLine : Bool)
    (text : List UInt8) (n : ℕ) :
    findLine key atLine (text.take n) = within key.length n (findLine key atLine text) := by
  induction text generalizing atLine n with
  | nil => rw [List.take_nil]; rfl
  | cons c cs ih =>
    cases n with
    | zero =>
      rw [within_of_lt hkey]
      rfl
    | succ n =>
      have hpre : key.isPrefixOf (lineText (c :: cs.take n)) = true ↔
          key.isPrefixOf (lineText (c :: cs)) = true ∧ key.length ≤ n + 1 := by
        rw [← List.take_succ_cons, lineText_take, isPrefixOf_take]
      rw [List.take_succ_cons, findLine, findLine]
      by_cases h₀ : c = 0
      · rw [if_pos h₀, if_pos h₀]
        rfl
      simp only [if_neg h₀, hpre, ih]
      by_cases hk : atLine = true ∧ key.isPrefixOf (lineText (c :: cs)) = true
      · rw [if_pos hk, within_some]
        by_cases hn : key.length ≤ n + 1
        · rw [if_pos ⟨hk.1, hk.2, hn⟩, if_pos (by omega)]
        · rw [if_neg (fun h ↦ hn h.2.2), if_neg (by omega), within_of_lt (by omega)]
          rfl
      · rw [if_neg hk, if_neg (fun h ↦ hk ⟨h.1, h.2.1⟩), within_shift]

theorem findLine_spec {key : List UInt8} {atLine : Bool} {text : List UInt8} {p : ℕ}
    (h : findLine key atLine text = some p) :
    key <+: lineText (text.drop p) ∧ (p = 0 → atLine = true) ∧
      (0 < p → text[p - 1]? = some 10) := by
  induction text generalizing atLine p with
  | nil => simp [findLine] at h
  | cons c cs ih =>
    rw [findLine] at h
    by_cases h₀ : c = 0
    · simp [h₀] at h
    rw [if_neg h₀] at h
    split_ifs at h with hk
    · obtain rfl := Option.some.inj h
      exact ⟨List.isPrefixOf_iff_prefix.mp hk.2, fun _ ↦ hk.1, by simp⟩
    · obtain ⟨q, hq, rfl⟩ := Option.map_eq_some_iff.mp h
      obtain ⟨h₁, h₂, h₃⟩ := ih hq
      refine ⟨h₁, by simp, fun _ ↦ ?_⟩
      cases q with
      | zero => simpa using h₂ rfl
      | succ q => simpa using h₃ (by omega)

theorem takeWhile_length_le {α : Type} {p : α → Bool} {l : List α} {i : ℕ} {x : α}
    (hi : l[i]? = some x) (hx : p x = false) : (l.takeWhile p).length ≤ i := by
  induction l generalizing i with
  | nil => simp at hi
  | cons a l ih =>
    by_cases ha : p a = true
    · cases i with
      | zero =>
        obtain rfl : a = x := by simpa using hi
        exact absurd (hx.symm.trans ha) Bool.false_ne_true
      | succ i =>
        rw [List.takeWhile_cons_of_pos ha, List.length_cons]
        exact Nat.succ_le_succ (ih (by simpa using hi))
    · rw [List.takeWhile_cons_of_neg ha]
      exact Nat.zero_le i

theorem lineText_length_lt {key : List UInt8} {text : List UInt8} {t s : ℕ}
    (hs : findLine key true text = some s) (hlt : t < s) :
    (lineText (text.drop t)).length < s - t := by
  have hnl := (findLine_spec hs).2.2 (by omega)
  have hle : (lineText (text.drop t)).length ≤ s - 1 - t := by
    refine takeWhile_length_le (x := 10) ?_ rfl
    rw [List.getElem?_drop, show t + (s - 1 - t) = s - 1 by omega, hnl]
  omega

theorem accepted_iff (body : List UInt8) : (parseRequestBody body).isSome = true ↔
    ∃ t s, findLine tableKey true body = some t ∧ findLine sqlKey true body = some s ∧
      sanitizeIdentifier (trimCopy tableMaxLen ((lineText (body.drop t)).drop 6)) = true := by
  have ht : extractLineValue body "TABLE=" tableMaxLen = _ := extractFrom_eq tableKey _ true body
  have hs : extractLineValue body "SQL=" sqlMaxLen = _ := extractFrom_eq sqlKey _ true body
  simp only [parseRequestBody, ht, hs]
  cases findLine tableKey true body with
  | none => simp
  | some t =>
    cases findLine sqlKey true body with
    | none => simp
    | some s =>
      simp only [Option.map_some, Option.bind_eq_bind, Option.bind_some, Option.some.injEq,
        exists_eq_left', exists_and_left]
      have hlen : tableKey.length = 6 := rfl
      rw [hlen]
      split_ifs with h <;> simp_all

theorem dropWhile_take_initial {α : Type} (p : α → Bool) (l : List α) (n : ℕ) :
    (l.take n).dropWhile p <+: l.dropWhile p := by
  induction l generalizing n with
  | nil => simp
  | cons a l ih =>
    cases n with
    | zero => exact List.nil_prefix
    | succ n =>
      by_cases ha : p a = true
      · rw [List.take_succ_cons, List.dropWhile_cons_of_pos ha, List.dropWhile_cons_of_pos ha]
        exact ih n
      · rw [List.take_succ_cons, List.dropWhile_cons_of_neg ha, List.dropWhile_cons_of_neg ha]
        exact List.take_prefix (n + 1) (a :: l)

theorem trimCopy_initial (dstSize : ℕ) (src : List UInt8) :
    trimCopy dstSize src <+: src.dropWhile isspace :=
  (List.take_prefix _ _).trans (List.rdropWhile_prefix _ _)

theorem not_trailing {ch : UInt8} (h : (isalnum ch || ch = 95) = true) : trailing ch = false := by
  rw [Bool.or_eq_true, decide_eq_true_eq] at h
  rcases h with h | rfl
  · exact trailing_of_isspace (alnum_ne h (by decide)) (isspace_of_alnum h)
  · rfl

theorem trimCopy_take_iff (value : List UInt8) :
    (∃ n, sanitizeIdentifier (trimCopy tableMaxLen (value.take n)) = true) ↔
      identifierStart value = true := by
  constructor
  · rintro ⟨n, h⟩
    have hpre := (trimCopy_initial tableMaxLen (value.take n)).trans
      (dropWhile_take_initial isspace value n)
    cases htrim : trimCopy tableMaxLen (value.take n) with
    | nil => simp [htrim, sanitizeIdentifier] at h
    | cons c cs =>
      rw [htrim] at h hpre
      obtain ⟨rest, hrest⟩ := hpre
      rw [identifierStart, ← hrest]
      simp only [sanitizeIdentifier, List.all_cons, Bool.and_eq_true] at h
      exact h.2.1
  · intro h
    cases hdrop : value.dropWhile isspace with
    | nil => simp [identifierStart, hdrop, peek, isalnum, isalpha, isupper, islower, isdigit] at h
    | cons c rest =>
      have hstart : (isalnum c || c = 95) = true := by simpa [identifierStart, hdrop] using h
      have hspace : isspace c = false := by
        have hhead := List.head?_dropWhile_not isspace value
        simpa [hdrop] using hhead
      have hsplit : value = value.takeWhile isspace ++ c :: rest := by
        rw [← hdrop, List.takeWhile_append_dropWhile]
      have htake (sp : List UInt8) (hsp : value = sp ++ c :: rest) :
          value.take (sp.length + 1) = sp ++ [c] := by
        rw [hsp, List.take_length_add_append]
        rfl
      refine ⟨(value.takeWhile isspace).length + 1, ?_⟩
      have hone : (value.takeWhile isspace ++ [c]).dropWhile isspace = [c] := by
        rw [List.dropWhile_append_of_pos (fun ch hch ↦ List.mem_takeWhile_imp hch)]
        simp [hspace]
      have htrim : trimCopy tableMaxLen (value.takeWhile isspace ++ [c]) = [c] := by
        rw [trimCopy, hone, List.rdropWhile_singleton, not_trailing hstart]
        rfl
      rw [htake _ hsplit, htrim]
      simpa [sanitizeIdentifier] using hstart

theorem lineText_drop_take (text : List UInt8) (n t k : ℕ) :
    (lineText ((text.take n).drop t)).drop k =
      ((lineText (text.drop t)).drop k).take (n - t - k) := by
  rw [List.drop_take, lineText_take, List.drop_take]

theorem key_fits {key : List UInt8} {text : List UInt8} {p : ℕ}
    (h : findLine key true text = some p) : key.length ≤ (lineText (text.drop p)).length :=
  (findLine_spec h).1.length_le

theorem completes_iff (text : List UInt8) :
    (∃ n, (parseRequestBody (text.take n)).isSome = true) ↔ Completes text := by
  have htable (n : ℕ) := findLine_take tableKey (by decide) true text n
  have hsql (n : ℕ) := findLine_take sqlKey (by decide) true text n
  have htlen : tableKey.length = 6 := rfl
  have hslen : sqlKey.length = 4 := rfl
  simp only [accepted_iff, htable, hsql, within, Option.filter_eq_some_iff, decide_eq_true_eq,
    htlen, hslen, lineText_drop_take]
  constructor
  · rintro ⟨n, t, s, ⟨ht, htn⟩, ⟨hs, hsn⟩, hid⟩
    refine ⟨t, s, ht, hs, ?_⟩
    rcases Nat.lt_trichotomy t s with hlt | rfl | hlt
    · have hlen := lineText_length_lt hs hlt
      refine .inl ⟨hlt, ?_⟩
      rwa [List.take_of_length_le (by rw [List.length_drop]; omega)] at hid
    · have hclash := List.prefix_of_prefix_length_le (findLine_spec hs).1 (findLine_spec ht).1
        (by decide)
      exact absurd (List.isPrefixOf_iff_prefix.mpr hclash) (by decide)
    · exact .inr ⟨hlt, (trimCopy_take_iff _).mp ⟨_, hid⟩⟩
  · rintro ⟨t, s, ht, hs, ⟨hlt, hid⟩ | ⟨hlt, hid⟩⟩
    · have hlen := lineText_length_lt hs hlt
      have hfit := key_fits ht
      refine ⟨s + 4, t, s, ⟨ht, by omega⟩, ⟨hs, by omega⟩, ?_⟩
      rwa [List.take_of_length_le (by rw [List.length_drop]; omega)]
    · obtain ⟨n, hn⟩ := (trimCopy_take_iff _).mpr hid
      have hlen := lineText_length_lt ht hlt
      have hfit := key_fits hs
      refine ⟨t + 6 + n, t, s, ⟨ht, by omega⟩, ⟨hs, by omega⟩, ?_⟩
      rwa [show t + 6 + n - t - 6 = n by omega]

def findText (needle : List UInt8) : List UInt8 → Option ℕ
  | [] => none
  | c :: cs =>
    if needle.isPrefixOf (c :: cs) then some 0
    else if c = 0 then none
    else (findText needle cs).map (· + 1)

theorem strstr_eq {needle : List UInt8} (hneedle : needle ≠ []) (text : List UInt8) :
    strstr needle text = (findText needle text).map (fun p ↦ text.drop p) := by
  induction text with
  | nil => simp [strstr, findText, hneedle]
  | cons c cs ih =>
    rw [strstr, findText, ih]
    split_ifs
    · rfl
    · rfl
    · cases findText needle cs <;> rfl

/-- A beginning of the text shows the same match if it contains the needle. -/
theorem findText_take (needle : List UInt8) (hneedle : 0 < needle.length) (text : List UInt8)
    (n : ℕ) : findText needle (text.take n) = within needle.length n (findText needle text) := by
  induction text generalizing n with
  | nil => rw [List.take_nil]; rfl
  | cons c cs ih =>
    cases n with
    | zero =>
      rw [within_of_lt hneedle]
      rfl
    | succ n =>
      have hpre := isPrefixOf_take needle (c :: cs) (n + 1)
      rw [List.take_succ_cons] at hpre
      rw [List.take_succ_cons, findText, findText]
      simp only [hpre, ih]
      by_cases hp : needle.isPrefixOf (c :: cs) = true
      · rw [if_pos hp, within_some]
        by_cases hn : needle.length ≤ n + 1
        · rw [if_pos ⟨hp, hn⟩, if_pos (by omega)]
        · rw [if_neg (fun h ↦ hn h.2), if_neg (show ¬ 0 + needle.length ≤ n + 1 by omega),
            within_of_lt (by omega)]
          split_ifs <;> rfl
      · rw [if_neg hp, if_neg (fun h ↦ hp h.1)]
        split_ifs
        · rfl
        · rw [within_shift]

theorem requestBody_eq (text : List UInt8) :
    requestBody text = match findText [13, 10, 13, 10] text with
      | some p => text.drop (p + 4)
      | none => text := by
  rw [requestBody, strstr_eq (by simp)]
  cases findText [13, 10, 13, 10] text with
  | none => rfl
  | some p => simp only [Option.map_some, List.drop_drop]

theorem findText_lt {needle text : List UInt8} {p : ℕ} (h : findText needle text = some p) :
    p < text.length := by
  induction text generalizing p with
  | nil => simp [findText] at h
  | cons c cs ih =>
    rw [findText] at h
    split_ifs at h
    · obtain rfl := Option.some.inj h
      simp
    · obtain ⟨q, hq, rfl⟩ := Option.map_eq_some_iff.mp h
      have hlt := ih hq
      simp only [List.length_cons]
      omega

theorem beforeBlank_eq (text : List UInt8) :
    beforeBlank text = match findText [13, 10, 13, 10] text with
      | some p => text.take (p + 3)
      | none => text := by
  rw [beforeBlank, strstr_eq (by simp)]
  cases hp : findText [13, 10, 13, 10] text with
  | none => rfl
  | some p =>
    have hlt := findText_lt hp
    simp only [Option.map_some, List.length_drop]
    rw [show text.length - (text.length - p) + 3 = p + 3 by omega]

theorem some_prefix_accepted_iff (request : List UInt8) :
    (∃ n, (parseRequestBody (requestBody (request.take n))).isSome = true) ↔
      Completes (beforeBlank request) ∨ Completes (requestBody request) := by
  have hbody (n : ℕ) := requestBody_eq (request.take n)
  simp only [findText_take [13, 10, 13, 10] (by decide)] at hbody
  rw [requestBody_eq request, beforeBlank_eq]
  cases hp : findText [13, 10, 13, 10] request with
  | none =>
    simp only [hp, within_none] at hbody
    simp only [hbody, or_self]
    exact completes_iff request
  | some p =>
    simp only [hp, within_some, List.length_cons, List.length_nil] at hbody
    simp only
    constructor
    · rintro ⟨n, hn⟩
      rw [hbody] at hn
      by_cases hle : p + 4 ≤ n
      · rw [if_pos hle] at hn
        simp only [List.drop_take] at hn
        exact .inr ((completes_iff _).mp ⟨_, hn⟩)
      · rw [if_neg hle] at hn
        refine .inl ((completes_iff _).mp ⟨n, ?_⟩)
        rwa [List.take_take, Nat.min_eq_left (by omega)]
    · rintro (h | h)
      · obtain ⟨n, hn⟩ := (completes_iff _).mpr h
        refine ⟨min n (p + 3), ?_⟩
        rw [hbody, if_neg (by omega)]
        rwa [List.take_take] at hn
      · obtain ⟨n, hn⟩ := (completes_iff _).mpr h
        refine ⟨p + 4 + n, ?_⟩
        rw [hbody, if_pos (by omega)]
        simp only [List.drop_take]
        rwa [show p + 4 + n - (p + 4) = n by omega]

/-- What `recv` and the parser of `rx_task` do with a first piece. -/
theorem rxStep_outcome {s : State} {fd : ℤ} (hrx : s.rx = .recv fd) {c c' : Choice}
    (hc : c.received ≠ []) (chunks : List (List UInt8)) :
    (rxStep c' (rxStep c s)).rx = match rxOutcome (c.received :: chunks) with
      | some parsed => .copy fd parsed Field.all
      | none => .answer ⟨fd, 400, "Bad Request"⟩
          (.format (ascii "Corpo esperado: TABLE=...\\nLIMIT=...\\nSQL=...\\n")) := by
  have hfirst : rxStep c s =
      { s with rx := .parse fd (c.received.take (requestBufferSize - 1)) } := by
    rw [rxStep, hrx]
    simp only [if_neg hc]
  rw [hfirst, rxStep]
  simp only [rxOutcome]
  cases parseRequestBody (requestBody (c.received.take (requestBufferSize - 1))) <;> rfl

theorem one_byte_rejected (text : List UInt8) :
    parseRequestBody (requestBody (text.take 1)) = none := by
  rw [← Option.not_isSome_iff_eq_none, accepted_iff]
  rintro ⟨t, s, ht, -, -⟩
  have hfit := (key_fits ht).trans (List.takeWhile_prefix _).length_le
  rw [requestBody_eq, findText_take _ (by decide), within_of_lt (by decide)] at hfit
  have hkey : tableKey.length = 6 := rfl
  simp only [List.length_drop, List.length_take, hkey] at hfit
  omega

theorem independent_iff {request : List UInt8} (hlen : request.length ≤ requestBufferSize - 1) :
    Independent request ↔
      ∀ n, parseRequestBody (requestBody (request.take n)) = none := by
  have hone (chunk : List UInt8) (chunks : List (List UInt8)) (hl : chunk.length ≤ request.length) :
      rxOutcome (chunk :: chunks) = parseRequestBody (requestBody chunk) := by
    rw [rxOutcome, List.take_of_length_le (by omega)]
  constructor
  · intro h n
    have hcut (m : ℕ) : 0 < m → m < request.length →
        parseRequestBody (requestBody (request.take m)) = rxOutcome [request] := by
      intro hm hlt
      rw [← h [request.take m, request.drop m] ?_ (by simp), hone _ _ (by simp)]
      intro chunk hchunk
      rw [List.mem_pair] at hchunk
      rcases hchunk with rfl | rfl <;> rw [← List.length_pos_iff] <;> simp <;> omega
    have hnone : rxOutcome [request] = none := by
      by_cases hlt : 1 < request.length
      · rw [← hcut 1 (by omega) hlt, one_byte_rejected]
      · rw [hone _ _ le_rfl, ← List.take_of_length_le (l := request) (i := 1) (by omega)]
        exact one_byte_rejected request
    rcases Nat.eq_zero_or_pos n with rfl | hn
    · rfl
    · by_cases hlt : n < request.length
      · rw [hcut n hn hlt, hnone]
      · rw [List.take_of_length_le (by omega), ← hnone, hone _ _ le_rfl]
  · intro h chunks hne hflat
    have hwhole : rxOutcome [request] = none := by
      rw [hone _ _ le_rfl, ← List.take_length (l := request)]
      exact h _
    cases chunks with
    | nil => rw [hwhole, rxOutcome]
    | cons chunk chunks =>
      have hpre : chunk = request.take chunk.length := by
        rw [← hflat, List.flatten_cons, List.take_left]
      have hle : chunk.length ≤ request.length := by
        rw [← hflat, List.flatten_cons, List.length_append]
        omega
      rw [hwhole, hone _ _ hle, hpre]
      exact h _

/-- The outcome is the same for every division of a request exactly if no beginning
of it, before the blank line or behind it, is accepted. -/
theorem segmentation_iff {request : List UInt8} (hlen : request.length ≤ requestBufferSize - 1) :
    Independent request ↔
      ¬ Completes (beforeBlank request) ∧ ¬ Completes (requestBody request) := by
  rw [independent_iff hlen, ← not_or, ← some_prefix_accepted_iff, not_exists]
  simp only [Option.not_isSome_iff_eq_none]

def refusedRequest : List UInt8 :=
  ascii "POST / HTTP/1.1\r\nHost: board\r\n\r\nTABLE=-\nSQL=SELECT *\n"

theorem not_completes_of_none {text : List UInt8} (h : findLine tableKey true text = none) :
    ¬ Completes text := by
  rintro ⟨t, s, ht, -⟩
  simp [h] at ht

theorem refused_independent : refusedRequest.length ≤ requestBufferSize - 1 ∧
    Independent refusedRequest := by
  have hlen : refusedRequest.length ≤ requestBufferSize - 1 := by decide +kernel
  refine ⟨hlen, (segmentation_iff hlen).mpr ⟨not_completes_of_none (by decide +kernel), ?_⟩⟩
  have ht : findLine tableKey true (requestBody refusedRequest) = some 0 := by decide +kernel
  rintro ⟨t, s, ht', -, ⟨-, hid⟩ | ⟨hlt, -⟩⟩
  · obtain rfl : 0 = t := Option.some.inj (ht.symm.trans ht')
    exact absurd hid (by decide +kernel)
  · obtain rfl : 0 = t := Option.some.inj (ht.symm.trans ht')
    omega

/-- The second piece of a request that was divided inside its last line. -/
def lateCondition : List UInt8 := ascii " WHERE a = 1\n"

def earlyQuery : List UInt8 :=
  ascii "POST / HTTP/1.1\r\nHost: board\r\n\r\nTABLE=T\nSQL=SELECT * FROM T"

theorem divided_query_loses_condition :
    (rxOutcome [earlyQuery, lateCondition]).map (·.whereClause) = some [] ∧
      (rxOutcome [earlyQuery ++ lateCondition]).map (·.whereClause) = some (ascii "a = 1") ∧
      ¬ Independent (earlyQuery ++ lateCondition) := by
  have h₁ : (rxOutcome [earlyQuery, lateCondition]).map (·.whereClause) = some [] := by
    decide +kernel
  have h₂ : (rxOutcome [earlyQuery ++ lateCondition]).map (·.whereClause) =
      some (ascii "a = 1") := by
    decide +kernel
  refine ⟨h₁, h₂, fun h ↦ ?_⟩
  have heq := h [earlyQuery, lateCondition] (by decide +kernel) (by simp)
  rw [heq, h₂] at h₁
  exact absurd h₁ (by decide)

end FpgaDatabase.Firmware.Segmentation
