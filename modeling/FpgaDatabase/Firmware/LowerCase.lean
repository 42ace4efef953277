import FpgaDatabase.Firmware.Keywords
import FpgaDatabase.Firmware.Conditions

namespace FpgaDatabase.Firmware.LowerCase

open CString Request Table Compile Conditions Keywords Hardware.Pipeline

abbrev lower (text : List UInt8) : List UInt8 := text.map tolower

section Characters

variable {p : UInt8 → Bool} {b : Bool}

theorem tolower_tolower (ch : UInt8) : tolower (tolower ch) = tolower ch := by
  rw [← UInt8.toNat_inj, toNat_tolower, toNat_tolower]
  split_ifs <;> omega

/-- A test that treats all letters alike does not see their case. -/
theorem tolower_stable (h : ∀ ch, isalpha ch = true → p ch = b) (ch : UInt8) :
    p (tolower ch) = p ch := by
  rcases letters_of_tolower (tolower_tolower ch) with heq | ⟨hlow, hch⟩
  · rw [heq]
  · rw [h _ hlow, h _ hch]

theorem tolower_eq_iff {k : UInt8} (hk : k.toNat < 48) (ch : UInt8) : tolower ch = k ↔ ch = k := by
  have h := tolower_stable (p := fun ch ↦ ch = k) (b := false)
    (fun ch hch ↦ by simpa using letter_ne hch hk) ch
  simpa using h

theorem isspace_tolower (ch : UInt8) : isspace (tolower ch) = isspace ch :=
  tolower_stable (fun _ hch ↦ isspace_of_alnum (letter_alnum hch)) ch

theorem trailing_tolower (ch : UInt8) : trailing (tolower ch) = trailing ch := by
  refine tolower_stable (b := false) (fun ch hch ↦ ?_) ch
  exact trailing_of_isspace (letter_ne hch (by decide)) (isspace_of_alnum (letter_alnum hch))

theorem letter_no_end {ch : UInt8} (h : isalpha ch = true) :
    ch ≠ 0 ∧ ch ≠ 32 ∧ ch ≠ 41 ∧ ch ≠ 44 :=
  ⟨letter_ne h (by decide), letter_ne h (by decide), letter_ne h (by decide), letter_ne h (by decide)⟩

theorem isalpha_tolower (ch : UInt8) : isalpha (tolower ch) = isalpha ch :=
  tolower_stable (fun _ hch ↦ hch) ch

theorem isNameChar_tolower (ch : UInt8) : isNameChar (tolower ch) = isNameChar ch :=
  tolower_stable (fun _ hch ↦ isNameChar_of_alnum (letter_alnum hch)) ch

theorem isOperatorChar_letter {ch : UInt8} (h : isalpha ch = true) : isOperatorChar ch = false := by
  have hname := isNameChar_of_alnum (letter_alnum h)
  simp only [isNameChar, Bool.and_eq_true, Bool.not_eq_true'] at hname
  exact hname.1.2

theorem isOperatorChar_tolower (ch : UInt8) : isOperatorChar (tolower ch) = isOperatorChar ch :=
  tolower_stable (fun _ hch ↦ isOperatorChar_letter hch) ch

theorem isdigit_letter {ch : UInt8} (h : isalpha ch = true) : isdigit ch = false := by
  rw [isalpha_iff] at h
  simp [isdigit, UInt8.le_iff_toNat_le]
  omega

theorem isdigit_tolower (ch : UInt8) : isdigit (tolower ch) = isdigit ch :=
  tolower_stable (fun _ hch ↦ isdigit_letter hch) ch

end Characters

section Texts

variable {p : UInt8 → Bool} {text : List UInt8}

theorem peek_lower (text : List UInt8) : peek (lower text) = tolower (peek text) := by
  cases text <;> rfl

theorem takeWhile_lower (hp : ∀ ch, p (tolower ch) = p ch) (text : List UInt8) :
    (lower text).takeWhile p = lower (text.takeWhile p) := by
  rw [lower, List.takeWhile_map, show p ∘ tolower = p from funext hp]

theorem dropWhile_lower (hp : ∀ ch, p (tolower ch) = p ch) (text : List UInt8) :
    (lower text).dropWhile p = lower (text.dropWhile p) := by
  rw [lower, List.dropWhile_map, show p ∘ tolower = p from funext hp]

theorem scan_lower (hp : ∀ ch, p (tolower ch) = p ch) (bound : ℕ) (text : List UInt8) :
    scan p bound (lower text) = (lower (scan p bound text).1, lower (scan p bound text).2) := by
  have hword : ((lower text).take bound).takeWhile p = lower ((text.take bound).takeWhile p) := by
    rw [← List.map_take, takeWhile_lower hp]
  rw [scan, scan, hword, List.length_map, ← List.map_drop]

theorem trimCopy_lower (dstSize : ℕ) (text : List UInt8) :
    trimCopy dstSize (lower text) = lower (trimCopy dstSize text) := by
  rw [trimCopy, trimCopy, dropWhile_lower isspace_tolower, List.rdropWhile, List.rdropWhile,
    ← List.map_reverse, dropWhile_lower trailing_tolower, ← List.map_reverse, ← List.map_take]

theorem lower_lower (text : List UInt8) : lower (lower text) = lower text := by
  rw [lower, List.map_map]
  exact List.map_congr_left fun ch _ ↦ tolower_tolower ch

theorem compare_lower (text rhs : List UInt8) (count : ℕ) :
    asciiStrncasecmpLocal (lower text) rhs count = asciiStrncasecmpLocal text rhs count :=
  compare_case (lower_lower text) rhs count

theorem compare_lower_right (text rhs : List UInt8) (count : ℕ) :
    asciiStrncasecmpLocal text (lower rhs) count = asciiStrncasecmpLocal text rhs count := by
  induction count generalizing text rhs with
  | zero => rfl
  | succ count ih =>
    rw [asciiStrncasecmpLocal, asciiStrncasecmpLocal, peek_lower, tolower_tolower, ← List.map_tail, ih]

theorem findSqlKeyword_lower (sql : List UInt8) (keyword : String) :
    findSqlKeyword (lower sql) keyword = findSqlKeyword sql keyword :=
  findKeywordFrom_case (lower_lower sql) _ rfl

theorem findColumnIndex_lower (schema : TableSchema) (name : List UInt8) :
    findColumnIndex schema (lower name) = findColumnIndex schema name := by
  simp only [findColumnIndex, compare_lower_right, List.length_map]

theorem lower_run (hp : ∀ ch, isalpha ch = true → p ch = false) (text : List UInt8) :
    lower (text.takeWhile p) = text.takeWhile p := by
  have hsame : ∀ ch ∈ text.takeWhile p, tolower ch = ch := by
    intro ch hch
    have hrun : p ch = true := List.mem_takeWhile_imp hch
    rcases letters_of_tolower (tolower_tolower ch) with heq | ⟨-, hletter⟩
    · exact heq
    · rw [hp ch hletter] at hrun
      cases hrun
  rw [lower, List.map_congr_left hsame, List.map_id']

theorem atoi_lower (text : List UInt8) : atoi (lower text) = atoi text := by
  have hminus := tolower_eq_iff (k := 45) (by decide)
  have hplus := tolower_eq_iff (k := 43) (by decide)
  have hnumeral : numeral (lower text) = numeral text := by
    simp only [numeral, dropWhile_lower isspace_tolower, peek_lower, hminus, hplus, ← List.map_tail]
    split_ifs <;> rw [takeWhile_lower isdigit_tolower, lower_run fun _ ↦ isdigit_letter]
  rw [atoi, atoi, hnumeral]

end Texts

section Values

variable {p q : List UInt8}

/-- The value is a character and not a number. -/
def isLiteral (ptr : List UInt8) : Bool :=
  peek ptr = 39 || isalpha (peek ptr) ||
    (isdigit (peek ptr) && (peek ptr.tail = 32 || peek ptr.tail = 0))

/-- The first character of the value. -/
def literal (ptr : List UInt8) : UInt8 := if peek ptr = 39 then peek ptr.tail else peek ptr

theorem scanValue_val (ptr : List UInt8) :
    (scanValue ptr).1 = if isLiteral ptr then signed (literal ptr) else atoi ptr := by
  by_cases hquote : peek ptr = 39
  · simp [scanValue, isLiteral, literal, hquote]
  by_cases hletter : isalpha (peek ptr) = true
  · have h₁ := isdigit_letter hletter
    have h₂ : peek ptr ≠ 45 := letter_ne hletter (by decide)
    have h₃ : peek ptr ≠ 43 := letter_ne hletter (by decide)
    simp [scanValue, isLiteral, literal, hquote, hletter, h₁, h₂, h₃]
  · rw [Bool.not_eq_true] at hletter
    simp only [scanValue, isLiteral, literal, hquote, hletter, if_false, Bool.and_false,
      Bool.or_false, decide_false, Bool.false_or, Bool.false_eq_true]
    split_ifs <;> rfl

theorem isLiteral_lower (ptr : List UInt8) : isLiteral (lower ptr) = isLiteral ptr := by
  have h₁ := tolower_eq_iff (k := 39) (by decide)
  have h₂ := tolower_eq_iff (k := 32) (by decide)
  have h₃ := tolower_eq_iff (k := 0) (by decide)
  simp only [isLiteral, ← List.map_tail, peek_lower, isalpha_tolower, isdigit_tolower, h₁, h₂, h₃]

theorem literal_lower (ptr : List UInt8) : literal (lower ptr) = tolower (literal ptr) := by
  have h := tolower_eq_iff (k := 39) (by decide) (peek ptr)
  rw [literal, literal, ← List.map_tail, peek_lower, peek_lower, apply_ite tolower]
  simp only [h]

theorem skipWord_lower (ptr : List UInt8) : skipWord (lower ptr) = lower (skipWord ptr) := by
  refine dropWhile_lower (tolower_stable (b := true) fun ch hch ↦ ?_) ptr
  simp [letter_no_end hch]

theorem scanValue_rest_lower (ptr : List UInt8) :
    (scanValue (lower ptr)).2 = lower (scanValue ptr).2 := by
  have hne (k : UInt8) (hk : k.toNat < 48) (text : List UInt8) : peek (lower text) = k ↔ peek text = k := by
    rw [peek_lower, tolower_eq_iff hk]
  have hdigit (text : List UInt8) : isdigit (peek (lower text)) = isdigit (peek text) := by
    rw [peek_lower, isdigit_tolower]
  have halpha (text : List UInt8) : isalpha (peek (lower text)) = isalpha (peek text) := by
    rw [peek_lower, isalpha_tolower]
  simp only [scanValue, ← List.map_drop, ← List.map_tail, hne 39 (by decide), hne 45 (by decide),
    hne 43 (by decide), hne 32 (by decide), hne 0 (by decide), hdigit, halpha, skipWord_lower, ne_eq]
  split_ifs <;> rfl

theorem scanValue_eq (h : lower p = lower q) (hlit : literal p = literal q) :
    (scanValue p).1 = (scanValue q).1 := by
  rw [scanValue_val, scanValue_val, ← isLiteral_lower, h, isLiteral_lower, hlit, ← atoi_lower p, h,
    atoi_lower]

theorem literal_of_value (h : lower p = lower q)
    (hval : BitVec.ofInt 8 (scanValue p).1 = BitVec.ofInt 8 (scanValue q).1) :
    literal p = literal q := by
  have hsame : isLiteral p = isLiteral q := by rw [← isLiteral_lower, h, isLiteral_lower]
  have hcase : tolower (literal p) = tolower (literal q) := by
    rw [← literal_lower, h, literal_lower]
  cases hlit : isLiteral q with
  | true =>
    rw [scanValue_val, scanValue_val, hsame, hlit, if_pos rfl, if_pos rfl, Emitted.ofInt_signed,
      Emitted.ofInt_signed] at hval
    exact UInt8.toBitVec_inj.mp hval
  | false =>
    -- The first character of a number is no letter.
    rcases letters_of_tolower hcase with heq | ⟨-, hletter⟩
    · exact heq
    · simp only [isLiteral, Bool.or_eq_false_iff, decide_eq_false_iff_not] at hlit
      rw [literal, if_neg hlit.1.1, hlit.1.2] at hletter
      cases hletter

end Values

section Passes

variable {schema : TableSchema} {p q : List UInt8}

theorem skipBlanks_lower (ptr : List UInt8) : skipBlanks (lower ptr) = lower (skipBlanks ptr) := by
  refine dropWhile_lower (tolower_stable (b := false) fun ch hch ↦ ?_) ptr
  simp [letter_no_end hch]

theorem nameStart_lower (pass : List UInt8) : nameStart (lower pass) = lower (nameStart pass) := by
  have hand : startsWithAnd (lower pass) ↔ startsWithAnd pass := by
    rw [startsWithAnd, startsWithAnd, compare_lower]
  rw [nameStart, nameStart, apply_ite lower, ← List.map_drop, skipBlanks_lower]
  simp only [hand]

theorem operatorStart_lower (pass : List UInt8) :
    operatorStart (lower pass) = lower (operatorStart pass) := by
  rw [operatorStart, operatorStart, nameStart_lower, scan_lower isNameChar_tolower, skipBlanks_lower]

theorem valueStart_lower (pass : List UInt8) : valueStart (lower pass) = lower (valueStart pass) := by
  rw [valueStart, valueStart, operatorStart_lower, scan_lower isOperatorChar_tolower, skipBlanks_lower]

theorem passes_lower (ptr : List UInt8) : passes (lower ptr) = (passes ptr).map lower := by
  fun_induction passes ptr with
  | case1 ptr h =>
    rw [passes, skipBlanks_lower, peek_lower, if_pos (by rw [h]; rfl), List.map_nil]
  | case2 ptr h ih =>
    have h' : ¬ peek (skipBlanks (lower ptr)) = 0 := by
      rwa [skipBlanks_lower, peek_lower, tolower_eq_iff (by decide)]
    rw [passes, if_neg h', skipBlanks_lower, List.map_cons, ← ih, scanCondition_rest,
      scanCondition_rest, valueStart_lower, scanValue_rest_lower]

theorem colName_lower (pass : List UInt8) :
    (scanCondition (lower pass)).1.colName = lower (scanCondition pass).1.colName := by
  rw [scanCondition_eq, scanCondition_eq, nameStart_lower, scan_lower isNameChar_tolower]

theorem opStr_lower (pass : List UInt8) :
    (scanCondition (lower pass)).1.opStr = (scanCondition pass).1.opStr := by
  rw [scanCondition_eq, scanCondition_eq]
  change (scan isOperatorChar 3 (operatorStart (lower pass))).1 = _
  rw [operatorStart_lower, scan_lower isOperatorChar_tolower, scan]
  exact lower_run (fun _ ↦ isOperatorChar_letter) _

def knownPass (schema : TableSchema) (pass : List UInt8) : Bool :=
  (findColumnIndex schema (scanCondition pass).1.colName).isSome

/-- The passes that send an instruction. -/
def emitted (schema : TableSchema) (ptr : List UInt8) : List (List UInt8) :=
  ((passes ptr).take 4).takeWhile (knownPass schema)

def passInstruction (schema : TableSchema) (pass : List UInt8) : Instruction :=
  instructionOf schema (scanCondition pass).1

theorem whereInstruction_inj {colIdx op : ℕ} {v w : ℤ}
    (h : whereInstruction colIdx v op = whereInstruction colIdx w op) :
    BitVec.ofInt 8 v = BitVec.ofInt 8 w := by
  rw [← Emitted.whereValue_where, h, Emitted.whereValue_where]

theorem passInstruction_eq_iff (h : lower p = lower q) :
    passInstruction schema p = passInstruction schema q ↔
      literal (valueStart p) = literal (valueStart q) := by
  have hcol : findColumnIndex schema (scanCondition p).1.colName =
      findColumnIndex schema (scanCondition q).1.colName := by
    rw [← findColumnIndex_lower, ← colName_lower, h, colName_lower, findColumnIndex_lower]
  have hop : (scanCondition p).1.opStr = (scanCondition q).1.opStr := by
    rw [← opStr_lower, h, opStr_lower]
  have hvalue : lower (valueStart p) = lower (valueStart q) := by
    rw [← valueStart_lower, h, valueStart_lower]
  have hval (pass : List UInt8) : (scanCondition pass).1.val = (scanValue (valueStart pass)).1 := by
    rw [scanCondition_eq]
  rw [passInstruction, passInstruction, instructionOf, instructionOf, hcol, hop, hval, hval]
  constructor
  · exact fun heq ↦ literal_of_value hvalue (whereInstruction_inj heq)
  · exact fun hlit ↦ by rw [scanValue_eq hvalue hlit]

theorem knownPass_lower (pass : List UInt8) : knownPass schema (lower pass) = knownPass schema pass := by
  rw [knownPass, knownPass, colName_lower, findColumnIndex_lower]

theorem emitted_lower (ptr : List UInt8) :
    emitted schema (lower ptr) = (emitted schema ptr).map lower := by
  have hknown : knownPass schema ∘ lower = knownPass schema := funext knownPass_lower
  rw [emitted, emitted, passes_lower, ← List.map_take, List.takeWhile_map, hknown]

theorem compileWhere_emits (whereCount : ℕ) (ptr : List UInt8) :
    (compileWhere schema whereCount ptr).sent =
      (((passes ptr).take (4 - whereCount)).takeWhile (knownPass schema)).map
        (passInstruction schema) := by
  fun_induction compileWhere schema whereCount ptr with
  | case1 whereCount ptr h =>
    rw [passes, if_pos h]
    simp [done]
  | case2 whereCount ptr h cond hcol =>
    have hunknown : knownPass schema (skipBlanks ptr) = false := by
      rw [knownPass, hcol]
      rfl
    rw [passes, if_neg h]
    cases 4 - whereCount with
    | zero => rfl
    | succ n => simp [hunknown, fail]
  | case3 whereCount ptr h cond colIdx hcol hfull =>
    rw [Nat.sub_eq_zero_of_le hfull]
    rfl
  | case4 whereCount ptr h cond colIdx hcol hroom ih =>
    have hknown : knownPass schema (skipBlanks ptr) = true := by
      rw [knownPass, hcol]
      rfl
    rw [passes, if_neg h, show 4 - whereCount = (4 - (whereCount + 1)) + 1 by omega,
      List.take_succ_cons, List.takeWhile_cons_of_pos hknown, List.map_cons, ← ih, passInstruction,
      instructionOf, hcol]
    rfl

theorem map_eq_iff {α β γ δ : Type*} {f : α → β} {g : α → γ} {k : α → δ}
    (hfg : ∀ x y, k x = k y → (f x = f y ↔ g x = g y)) {xs ys : List α} (h : xs.map k = ys.map k) :
    xs.map f = ys.map f ↔ xs.map g = ys.map g := by
  induction xs generalizing ys with
  | nil => simp [List.map_eq_nil_iff.mp h.symm]
  | cons x xs ih =>
    obtain ⟨y, ys, rfl, hy, hys⟩ := List.map_eq_cons_iff.mp h.symm
    simp only [List.map_cons, List.cons.injEq, ih hys.symm, hfg x y hy.symm]

/-- The same instructions are sent exactly if the values are the same characters. -/
theorem compileWhere_case (h : lower p = lower q) :
    (compileWhere schema 0 p).sent = (compileWhere schema 0 q).sent ↔
      (emitted schema p).map (fun pass ↦ literal (valueStart pass)) =
        (emitted schema q).map (fun pass ↦ literal (valueStart pass)) := by
  have hpasses : (emitted schema p).map lower = (emitted schema q).map lower := by
    rw [← emitted_lower, h, emitted_lower]
  rw [compileWhere_emits, compileWhere_emits, Nat.sub_zero, ← emitted, ← emitted]
  exact map_eq_iff (fun _ _ ↦ passInstruction_eq_iff) hpasses

theorem compileWhere_accepts_lower (ptr : List UInt8) :
    (compileWhere schema 0 (lower ptr)).error = none ↔ (compileWhere schema 0 ptr).error = none := by
  rw [compileWhere_accepts (Nat.zero_le _), compileWhere_accepts (Nat.zero_le _), conditions,
    conditions, passes_lower, List.map_map]
  simp only [List.length_map, List.forall_mem_map, Function.comp_apply, colName_lower,
    findColumnIndex_lower]

end Passes

def Agree (c d : Compiled) : Prop := c.sent = d.sent ∧ (c.error = none ↔ d.error = none)

section SelectList

variable (schema : TableSchema) (memory : List UInt8)

theorem scanColumn_lower (ptr : List UInt8) :
    scanColumn (lower ptr) = (lower (scanColumn ptr).1, lower (scanColumn ptr).2) := by
  rw [scanColumn, skipBlanks_lower]
  refine scan_lower (tolower_stable (b := true) fun ch hch ↦ ?_) 63 _
  simp [letter_no_end hch]

theorem skipSeparators_lower (ptr : List UInt8) :
    skipSeparators (lower ptr) = lower (skipSeparators ptr) := by
  refine dropWhile_lower (tolower_stable (b := false) fun ch hch ↦ ?_) ptr
  simp [letter_no_end hch]

theorem checkSelect_lower (ptr : List UInt8) :
    (checkSelect schema (lower ptr)).error = none ↔ (checkSelect schema ptr).error = none := by
  have hend (ptr : List UInt8) : peek (lower ptr) = 0 ↔ peek ptr = 0 := by
    rw [peek_lower, tolower_eq_iff (by decide)]
  have hbad (ptr : List UInt8) : ((scanColumn (lower ptr)).1 ≠ [] ∧
      findColumnIndex schema (scanColumn (lower ptr)).1 = none) ↔
        ((scanColumn ptr).1 ≠ [] ∧ findColumnIndex schema (scanColumn ptr).1 = none) := by
    rw [scanColumn_lower, findColumnIndex_lower, ne_eq, List.map_eq_nil_iff]
  fun_induction checkSelect schema ptr with
  | case1 ptr h => rw [checkSelect, if_pos ((hend ptr).mpr h)]
  | case2 ptr h colName hunknown =>
    rw [checkSelect, if_neg (mt (hend ptr).mp h), if_pos ((hbad ptr).mpr hunknown)]
    simp [fail]
  | case3 ptr h colName hknown ih =>
    rw [checkSelect, if_neg (mt (hend ptr).mp h), if_neg (mt (hbad ptr).mp hknown),
      scanColumn_lower, skipSeparators_lower]
    exact ih

theorem aggregateColumn_lower (ptr : List UInt8) :
    aggregateColumn (lower ptr) = lower (aggregateColumn ptr) := by
  rw [aggregateColumn, scan_lower (tolower_stable (b := true) fun ch hch ↦ ?_)]
  · rfl
  · simp [letter_no_end hch]

theorem compileCount_lower (ptr : List UInt8) :
    Agree (compileCount schema (lower ptr)) (compileCount schema ptr) := by
  simp only [Agree, compileCount, aggregateColumn_lower, findColumnIndex_lower]
  cases findColumnIndex schema (aggregateColumn ptr) with
  | none => exact ⟨rfl, by simp [fail]⟩
  | some colIdx => exact ⟨rfl, .rfl⟩

theorem compileSum_lower (ptr : List UInt8) :
    Agree (compileSum schema memory (lower ptr)) (compileSum schema memory ptr) := by
  simp only [Agree, compileSum, aggregateColumn_lower, findColumnIndex_lower]
  cases findColumnIndex schema (aggregateColumn ptr) with
  | none => exact ⟨rfl, by simp [fail]⟩
  | some colIdx =>
    simp only
    split_ifs
    · exact ⟨rfl, by simp [fail]⟩
    · exact ⟨rfl, .rfl⟩

theorem compileSelect_lower (list : List UInt8) :
    Agree (compileSelect schema memory (lower list)) (compileSelect schema memory list) := by
  have hstar : peek (lower list) ≠ 42 ↔ peek list ≠ 42 := by
    rw [peek_lower, ne_eq, tolower_eq_iff (by decide)]
  simp only [compileSelect, compare_lower, hstar, ← List.map_drop]
  split_ifs
  · exact compileCount_lower _ _
  · exact compileSum_lower _ _ _
  · exact ⟨by rw [Emitted.checkSelect_sent, Emitted.checkSelect_sent], checkSelect_lower _ list⟩
  · exact ⟨rfl, .rfl⟩

end SelectList

section Fragments

variable (sql : List UInt8)

theorem selectFragment_lower (selectPos fromPos : Option ℕ) :
    selectFragment (lower sql) selectPos fromPos = lower (selectFragment sql selectPos fromPos) := by
  unfold selectFragment
  split
  · rw [apply_ite lower, ← List.map_drop, ← List.map_take, trimCopy_lower]
    rfl
  · rfl

theorem whereFragment_lower (wherePos : Option ℕ) :
    whereFragment (lower sql) wherePos = lower (whereFragment sql wherePos) := by
  cases wherePos with
  | none => rfl
  | some w =>
    simp only [whereFragment, findSqlKeyword_lower, List.length_map]
    rw [apply_ite lower, ← List.map_drop, ← List.map_take, trimCopy_lower]
    rfl

variable {sql}

theorem fragments_case {other : List UInt8} (h : lower sql = lower other)
    (request request' : QueryRequest) :
    lower (extractSqlFragments sql request).selectList =
        lower (extractSqlFragments other request').selectList ∧
      lower (extractSqlFragments sql request).whereClause =
        lower (extractSqlFragments other request').whereClause := by
  have hselect (text : List UInt8) (request : QueryRequest) :
      lower (extractSqlFragments text request).selectList =
        (extractSqlFragments (lower text) request).selectList := by
    simp only [extractSqlFragments, findSqlKeyword_lower, selectFragment_lower, peek_lower,
      tolower_eq_iff (show (0 : UInt8).toNat < 48 by decide)]
    rw [apply_ite lower]
    rfl
  have hwhere (text : List UInt8) (request : QueryRequest) :
      lower (extractSqlFragments text request).whereClause =
        (extractSqlFragments (lower text) request).whereClause := by
    simp only [extractSqlFragments, findSqlKeyword_lower, whereFragment_lower]
  rw [hselect, hselect, hwhere, hwhere, h]
  exact ⟨rfl, rfl⟩

end Fragments

end FpgaDatabase.Firmware.LowerCase
