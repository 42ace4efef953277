import FpgaDatabase.Firmware.WhereRoundTrip

namespace FpgaDatabase.Firmware.NumberLiterals

open CString Request Table Compile Emitted Conditions WhereText WhereRoundTrip
open Hardware.Stages Hardware.Pipeline Hardware.Program

inductive Number : List UInt8 → ℤ → Prop
  | unsigned {digits : List UInt8} (h : digits.all isdigit = true) (hlen : 2 ≤ digits.length) :
      Number digits (decimal digits)
  | plus {digits : List UInt8} (h : digits.all isdigit = true) (hne : digits ≠ []) :
      Number (43 :: digits) (decimal digits)
  | minus {digits : List UInt8} (h : digits.all isdigit = true) (hne : digits ≠ []) :
      Number (45 :: digits) (-decimal digits)

/-- The meaning of an operator over the integers. -/
def Holds : Operator → ℤ → ℤ → Prop
  | .eq, x, k | .eqEq, x, k => x = k
  | .ne, x, k => x ≠ k
  | .lt, x, k => x < k
  | .le, x, k => x ≤ k
  | .gt, x, k => k < x
  | .ge, x, k => k ≤ x

/-- The numbers whose comparison survives the cut to one byte. -/
def KeepsMeaning (op : Operator) (k : ℤ) : Prop :=
  (0 ≤ k ∧ k ≤ 255) ∨
    (k < 0 ∧ (256 ∣ k ∨ k < -2147483648) ∧ (op = .lt ∨ op = .ge)) ∨
      (255 < k ∧ (k % 256 = 255 ∨ 2147483648 ≤ k) ∧ (op = .le ∨ op = .gt))

/-- The range of `long`. -/
def clamp (k : ℤ) : ℤ := max (-2147483648) (min 2147483647 k)

section Value

variable {value tail : List UInt8} {k : ℤ} {c : Comparison}

theorem digit_ne (ch : UInt8) :
    isdigit ch = true → ch ≠ 39 ∧ ch ≠ 45 ∧ ch ≠ 43 ∧ isspace ch = false ∧ isNameChar ch = true := by
  revert ch
  exact forall_byte (by decide +kernel)

theorem takeWhile_digits {digits : List UInt8} (h : digits.all isdigit = true)
    (he : peek tail = 0 ∨ peek tail = 32) : (digits ++ tail).takeWhile isdigit = digits := by
  refine takeWhile_append_stop h ?_
  rcases he with h | h <;> rw [h] <;> rfl

theorem atoi_number (h : Number value k) (he : peek tail = 0 ∨ peek tail = 32) :
    atoi (value ++ tail) = clamp k := by
  cases h with
  | unsigned h hlen =>
    have hne : value ≠ [] := by
      rintro rfl
      cases hlen
    have hdigits := takeWhile_digits h he
    obtain ⟨d, ds, rfl⟩ := List.exists_cons_of_ne_nil hne
    obtain ⟨-, h₁, h₂, h₃, -⟩ := digit_ne d (List.all_eq_true.mp h d List.mem_cons_self)
    have hnumeral : numeral (d :: ds ++ tail) = ⟨false, decimal (d :: ds)⟩ := by
      rw [numeral, List.cons_append, List.dropWhile_cons_of_neg (by simp [h₃])]
      rw [List.cons_append] at hdigits
      simp [h₁, h₂, hdigits]
    rw [atoi, hnumeral, clamp]
    simp only [Bool.false_eq_true, if_false, longMax]
    omega
  | @plus digits h hne =>
    have hnumeral : numeral (43 :: digits ++ tail) = ⟨false, decimal digits⟩ := by
      rw [numeral, List.cons_append, List.dropWhile_cons_of_neg (by decide)]
      simp [takeWhile_digits h he]
    rw [atoi, hnumeral, clamp]
    simp only [Bool.false_eq_true, if_false, longMax]
    omega
  | @minus digits h hne =>
    have hnumeral : numeral (45 :: digits ++ tail) = ⟨true, decimal digits⟩ := by
      rw [numeral, List.cons_append, List.dropWhile_cons_of_neg (by decide)]
      simp [takeWhile_digits h he]
    rw [atoi, hnumeral, clamp]
    simp only [if_true, longMax]
    omega

theorem number_ends (h : Number value k) (he : Ends value tail) :
    peek tail = 0 ∨ peek tail = 32 := by
  rcases he with he | he | he
  · exact .inl he
  · exact .inr he
  · obtain ⟨ch, -, rfl⟩ := quoted_form he
    cases h with
    | unsigned h hlen => cases h

/-- A number of more than one character is read by `atoi`. -/
theorem scanValue_number (h : Number value k) (he : Ends value tail) :
    (scanValue (value ++ tail)).1 = clamp k := by
  have hend := number_ends h he
  rw [← atoi_number h hend]
  cases h with
  | unsigned h hlen =>
    match value, hlen with
    | d :: e :: ds, _ =>
      obtain ⟨hd, he, -⟩ : isdigit d = true ∧ isdigit e = true ∧ _ := by
        simpa [and_assoc] using h
      obtain ⟨h₁, -⟩ := digit_ne d hd
      obtain ⟨-, -, -, -, h₂⟩ := digit_ne e he
      obtain ⟨h₃, h₄, -⟩ := nameChar_ne h₂
      simp [scanValue, h₁, hd, h₃, h₄]
  | plus h hne => simp [scanValue, isdigit]
  | minus h hne => simp [scanValue, isdigit]

end Value

section Comparison

variable {op : Operator} {k : ℤ}

theorem opResult_code (op : Operator) (value b : Byte) :
    opResult (code op) value b = true ↔ Holds op b.toNat value.toNat := by
  cases op <;> simp [opResult, code, Holds, BitVec.lt_def, BitVec.le_def, ← BitVec.toNat_inj]

/-- The byte of a number: the number itself if it fits, and otherwise the least or the
largest byte only for some. -/
theorem byte_clamp (k : ℤ) : (clamp k % 256 < 256 ∧ 0 ≤ clamp k % 256) ∧
    (0 ≤ k → k ≤ 255 → clamp k % 256 = k) ∧
      (k < 0 → (clamp k % 256 = 0 ↔ 256 ∣ k ∨ k < -2147483648)) ∧
        (255 < k → (clamp k % 256 = 255 ↔ k % 256 = 255 ∨ 2147483648 ≤ k)) := by
  rw [clamp]
  omega

/-- A comparison with the byte `n` in place of `k`, on every byte. -/
def Agrees (op : Operator) (n k : ℤ) : Prop :=
  ∀ m : ℤ, 0 ≤ m → m < 256 → (Holds op m n ↔ Holds op m k)

theorem agrees_below {n : ℤ} (hn : 0 ≤ n ∧ n < 256) (hk : k < 0) :
    Agrees op n k ↔ n = 0 ∧ (op = .lt ∨ op = .ge) := by
  constructor
  · intro h
    have h₁ := h n hn.1 hn.2
    have h₂ := h 0 (by omega) (by omega)
    cases op <;> simp only [Holds] at h₁ h₂ <;> simp <;> grind
  · rintro ⟨rfl, rfl | rfl⟩ m h₁ h₂ <;> simp only [Holds] <;> omega

theorem agrees_above {n : ℤ} (hn : 0 ≤ n ∧ n < 256) (hk : 255 < k) :
    Agrees op n k ↔ n = 255 ∧ (op = .le ∨ op = .gt) := by
  constructor
  · intro h
    have h₁ := h n hn.1 hn.2
    have h₂ := h 255 (by omega) (by omega)
    cases op <;> simp only [Holds] at h₁ h₂ <;> simp <;> grind
  · rintro ⟨rfl, rfl | rfl⟩ m h₁ h₂ <;> simp only [Holds] <;> omega

theorem agrees_clamp_iff (op : Operator) (k : ℤ) : Agrees op (clamp k % 256) k ↔ KeepsMeaning op k := by
  obtain ⟨⟨hlt, hnonneg⟩, hin, hbelow, habove⟩ := byte_clamp k
  rcases lt_or_ge k 0 with hk | hk
  · rw [agrees_below ⟨hnonneg, hlt⟩ hk, hbelow hk, KeepsMeaning]
    simp only [hk, true_and, show ¬ (0 ≤ k ∧ k ≤ 255) by omega, show ¬ 255 < k by omega, false_and,
      false_or, or_false]
  · rcases le_or_gt k 255 with hk' | hk'
    · rw [hin hk hk', KeepsMeaning]
      exact iff_of_true (fun _ _ _ ↦ Iff.rfl) (.inl ⟨hk, hk'⟩)
    · rw [agrees_above ⟨hnonneg, hlt⟩ hk', habove hk', KeepsMeaning]
      simp only [hk', true_and, show ¬ (0 ≤ k ∧ k ≤ 255) by omega, show ¬ k < 0 by omega, false_and,
        false_or]

theorem byte_agrees_iff (op : Operator) (k : ℤ) :
    (∀ b : Byte, opResult (code op) (BitVec.ofInt 8 (clamp k)) b = true ↔ Holds op b.toNat k) ↔
      KeepsMeaning op k := by
  have hbyte : ((BitVec.ofInt 8 (clamp k)).toNat : ℤ) = clamp k % 256 := by
    rw [BitVec.toNat_ofInt]
    omega
  rw [← agrees_clamp_iff, Agrees]
  simp only [opResult_code, hbyte]
  constructor
  · intro h m hm hlt
    have hb := h (BitVec.ofNat 8 m.toNat)
    rwa [BitVec.toNat_ofNat, show ((m.toNat % 2 ^ 8 : ℕ) : ℤ) = m by omega] at hb
  · intro h b
    have := b.isLt
    exact h b.toNat (by omega) (by omega)

end Comparison

section Clause

variable {table : LoadedTable} {request : QueryRequest} {cs : List Comparison} {c : Comparison}

/-- A clause is compiled if it has at most four conditions, on known columns. -/
theorem compilable_prints {schema : TableSchema} (htext : Prints cs request.whereClause)
    (hfits : request.whereClause.length < sqlMaxLen) :
    Compilable schema (conditions request.whereMemory) ↔
      cs.length ≤ 4 ∧ ∀ c ∈ cs, findColumnIndex schema c.name ≠ none := by
  obtain ⟨tail, ht, hmem⟩ := whereMemory_eq hfits
  have hpasses := (passes_prints ht htext).1
  have hnames : (conditions request.whereMemory).map Condition.colName = cs.map Comparison.name := by
    rw [hmem, conditions, List.map_map]
    generalize passes (request.whereClause ++ tail) = ps at hpasses
    clear htext
    induction hpasses with
    | nil => rfl
    | cons hstands hrest ih =>
      rw [List.map_cons, List.map_cons, ih, Function.comp_apply, (scanCondition_stands hstands).1]
  have hlen := congrArg List.length hnames
  rw [List.length_map, List.length_map] at hlen
  have hknown : (∀ cond ∈ conditions request.whereMemory,
      findColumnIndex schema cond.colName ≠ none) ↔
        ∀ c ∈ cs, findColumnIndex schema c.name ≠ none := by
    rw [← List.forall_mem_map (f := Condition.colName)
        (P := fun name ↦ findColumnIndex schema name ≠ none), hnames, List.forall_mem_map]
  rw [Compilable, hlen, hknown]

theorem accepted_instruction (htext : Prints cs request.whereClause)
    (hfits : request.whereClause.length < sqlMaxLen)
    (haccepted : (compileAndSendInstructions request table).error = none) {i : ℕ}
    (hi : cs[i]? = some c) :
    ∃ inst tail, (wheres (compileAndSendInstructions request table).sent)[i]? = some inst ∧
      Ends c.value tail ∧ whereOp inst = code c.op ∧
        whereValue inst = BitVec.ofInt 8 (scanValue (c.value ++ tail)).1 := by
  obtain ⟨⟨hlen, hknown⟩, -⟩ := (compile_accepts request table).mp haccepted
  obtain ⟨tail, ht, hmem⟩ := whereMemory_eq hfits
  have hpasses := (passes_prints ht htext).1
  rw [← hmem, List.forall₂_iff_get] at hpasses
  obtain ⟨hsame, hall⟩ := hpasses
  simp only [List.get_eq_getElem] at hall
  obtain ⟨hlt, rfl⟩ := List.getElem?_eq_some_iff.mp hi
  have hlt' : i < (passes request.whereMemory).length := hsame ▸ hlt
  obtain ⟨-, hop, tail', hends, hval⟩ := scanCondition_stands (hall i hlt hlt')
  have hsent : wheres (compileAndSendInstructions request table).sent =
      (conditions request.whereMemory).map (instructionOf table.schema) := by
    rw [wheres_emitted, compileWhere_sends (Nat.zero_le _) hknown]
    exact List.take_of_length_le (by rwa [List.length_map])
  refine ⟨instructionOf table.schema (scanCondition (passes request.whereMemory)[i]).1, tail', ?_,
    hends, ?_, ?_⟩
  · rw [hsent, conditions, List.map_map, List.getElem?_map, List.getElem?_eq_getElem hlt',
      Option.map_some, Function.comp_apply]
  · rw [instructionOf, whereOp_where, hop, bitVec_opCode]
  · rw [instructionOf, whereValue_where, hval]

end Clause

/-- What exactly a number may be for the filter to compare with the number itself. -/
theorem number_keeps_meaning_iff (table : LoadedTable) (request : QueryRequest)
    (cs : List Comparison) (htext : Prints cs request.whereClause)
    (hfits : request.whereClause.length < sqlMaxLen)
    (haccepted : (compileAndSendInstructions request table).error = none) (i : ℕ)
    (c : Comparison) (hi : cs[i]? = some c) (k : ℤ) (hk : Number c.value k) :
    ∃ inst, (wheres (compileAndSendInstructions request table).sent)[i]? = some inst ∧
      ((∀ b : Byte, opResult (whereOp inst) (whereValue inst) b = true ↔ Holds c.op b.toNat k) ↔
        KeepsMeaning c.op k) := by
  obtain ⟨inst, tail, hinst, hends, hop, hvalue⟩ :=
    accepted_instruction htext hfits haccepted hi
  refine ⟨inst, hinst, ?_⟩
  rw [hop, hvalue, scanValue_number hk hends]
  exact byte_agrees_iff c.op k

section Examples

def below (value : String) : QueryRequest := ⟨[], [], ascii "*", ascii "a < " ++ ascii value, 0⟩

theorem below_prints (value : String) (hv : isValue (ascii value) = true) :
    Prints [⟨ascii "a", .lt, ascii value⟩] (below value).whereClause := by
  have h : Prints [⟨ascii "a", .lt, ascii value⟩]
      (blanks 0 ++ (Comparison.text ⟨ascii "a", .lt, ascii value⟩ 1 1 ++ [])) :=
    .clause 0 1 1 ⟨(by decide : isName (ascii "a") = true), hv⟩ (.inl rfl) (.done 0)
  rwa [List.append_nil] at h

theorem below_accepted (value : String) (hv : isValue (ascii value) = true)
    (hfits : (below value).whereClause.length < sqlMaxLen) :
    (compileAndSendInstructions (below value) lettersTable).error = none := by
  rw [compile_accepts, compilable_prints (below_prints value hv) hfits]
  have hcolumn : findColumnIndex lettersTable.schema (ascii "a") ≠ none := by decide
  exact ⟨⟨Nat.le_add_left 1 3, fun c hc ↦ by rwa [List.mem_singleton.mp hc]⟩, rfl⟩

/-- `a < 300` becomes `a < 44`. -/
theorem below_300_cut : ∃ inst,
    (compileAndSendInstructions (below "300") lettersTable).error = none ∧
    Prints [⟨ascii "a", .lt, ascii "300"⟩] (below "300").whereClause ∧
    Number (ascii "300") 300 ∧
    (wheres (compileAndSendInstructions (below "300") lettersTable).sent)[0]? = some inst ∧
    opResult (whereOp inst) (whereValue inst) 50#8 = false ∧ Holds .lt 50 300 := by
  have haccepted := below_accepted "300" (by decide) (by decide)
  have hprints := below_prints "300" (by decide)
  have hnumber : Number (ascii "300") 300 := .unsigned (by decide) (by decide)
  obtain ⟨inst, tail, hinst, hends, hop, hvalue⟩ :=
    accepted_instruction hprints (by decide) haccepted (i := 0) rfl
  refine ⟨inst, haccepted, hprints, hnumber, hinst, ?_, by simp [Holds]⟩
  rw [hop, hvalue, scanValue_number hnumber hends]
  decide

theorem below_53_kept : ∃ inst,
    (wheres (compileAndSendInstructions (below "53") lettersTable).sent)[0]? = some inst ∧
      ∀ b : Byte, opResult (whereOp inst) (whereValue inst) b = true ↔ Holds .lt b.toNat 53 := by
  obtain ⟨inst, hinst, hiff⟩ := number_keeps_meaning_iff lettersTable (below "53")
    [⟨ascii "a", .lt, ascii "53"⟩] (below_prints "53" (by decide)) (by decide)
    (below_accepted "53" (by decide) (by decide)) 0 _ rfl 53 (.unsigned (by decide) (by decide))
  exact ⟨inst, hinst, hiff.mpr (.inl ⟨by decide, by decide⟩)⟩

end Examples

end FpgaDatabase.Firmware.NumberLiterals
