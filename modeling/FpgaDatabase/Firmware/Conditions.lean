import FpgaDatabase.Firmware.Emitted

namespace FpgaDatabase.Firmware.Conditions

open CString Request Table Compile Emitted Hardware.Pipeline Hardware.Program

abbrev startsWithAnd (ptr : List UInt8) : Prop :=
  asciiStrncasecmpLocal ptr (ascii "AND ") 4 = 0

section Pointers

variable (pass : List UInt8)

/-- The pointer of a pass of the WHERE loop before its name, its operator and its value. -/
def nameStart : List UInt8 := if startsWithAnd pass then skipBlanks (pass.drop 4) else pass

def operatorStart : List UInt8 := skipBlanks (scan isNameChar 63 (nameStart pass)).2

def valueStart : List UInt8 := skipBlanks (scan isOperatorChar 3 (operatorStart pass)).2

theorem scanCondition_eq : scanCondition pass =
    (⟨(scan isNameChar 63 (nameStart pass)).1, (scan isOperatorChar 3 (operatorStart pass)).1,
      (scanValue (valueStart pass)).1⟩, (scanValue (valueStart pass)).2) := by
  rw [scanCondition, valueStart, operatorStart, nameStart]

theorem scanCondition_rest : (scanCondition pass).2 = (scanValue (valueStart pass)).2 := by
  rw [scanCondition_eq]

end Pointers

/-- Where the passes of the WHERE loop begin, if none of them is stopped by an error. -/
def passes (ptr : List UInt8) : List (List UInt8) :=
  if peek (skipBlanks ptr) = 0 then []
  else skipBlanks ptr :: passes (scanCondition (skipBlanks ptr)).2
termination_by ptr.length
decreasing_by
  exact (scanCondition_length ‹_› (peek_skipBlanks ptr)).trans_le (skipBlanks_length_le ptr)

def conditions (ptr : List UInt8) : List Condition :=
  (passes ptr).map (fun pass ↦ (scanCondition pass).1)

/-- At most four conditions, each on a column of the table. -/
def Compilable (schema : TableSchema) (conds : List Condition) : Prop :=
  conds.length ≤ 4 ∧ ∀ cond ∈ conds, findColumnIndex schema cond.colName ≠ none

def instructionOf (schema : TableSchema) (cond : Condition) : Instruction :=
  whereInstruction ((findColumnIndex schema cond.colName).getD 0) cond.val (opCode cond.opStr)

section Loop

variable {ptr : List UInt8}

theorem conditions_nil (h : peek (skipBlanks ptr) = 0) : conditions ptr = [] := by
  rw [conditions, passes, if_pos h, List.map_nil]

theorem conditions_cons (h : peek (skipBlanks ptr) ≠ 0) :
    conditions ptr = (scanCondition (skipBlanks ptr)).1 ::
      conditions (scanCondition (skipBlanks ptr)).2 := by
  rw [conditions, passes, if_neg h, List.map_cons]
  rfl

variable {schema : TableSchema} {whereCount : ℕ}

theorem compileWhere_accepts (hw : whereCount ≤ 4) :
    (compileWhere schema whereCount ptr).error = none ↔
      whereCount + (conditions ptr).length ≤ 4 ∧
        ∀ cond ∈ conditions ptr, findColumnIndex schema cond.colName ≠ none := by
  fun_induction compileWhere schema whereCount ptr with
  | case1 whereCount ptr h => simp [done, conditions_nil h, hw]
  | case2 whereCount ptr h cond hcol =>
    rw [conditions_cons h, List.forall_mem_cons]
    refine iff_of_false (by simp [fail]) ?_
    rintro ⟨-, hknown, -⟩
    exact hknown hcol
  | case3 whereCount ptr h cond colIdx hcol hfull =>
    rw [conditions_cons h, List.length_cons]
    refine iff_of_false (by simp [fail]) ?_
    rintro ⟨hlen, -⟩
    omega
  | case4 whereCount ptr h cond colIdx hcol hroom ih =>
    have hcond : findColumnIndex schema (scanCondition (skipBlanks ptr)).1.colName = some colIdx :=
      hcol
    rw [conditions_cons h, List.forall_mem_cons, List.length_cons, hcond]
    simp only [Compiled.andThen, send]
    rw [ih (by omega)]
    constructor
    · rintro ⟨hlen, hall⟩
      exact ⟨by omega, by simp, hall⟩
    · rintro ⟨hlen, -, hall⟩
      exact ⟨by omega, hall⟩

/-- With known columns only, every condition is sent until there are four. -/
theorem compileWhere_sends (hw : whereCount ≤ 4)
    (hknown : ∀ cond ∈ conditions ptr, findColumnIndex schema cond.colName ≠ none) :
    (compileWhere schema whereCount ptr).sent =
      ((conditions ptr).map (instructionOf schema)).take (4 - whereCount) := by
  fun_induction compileWhere schema whereCount ptr with
  | case1 whereCount ptr h => simp [done, conditions_nil h]
  | case2 whereCount ptr h cond hcol =>
    rw [conditions_cons h, List.forall_mem_cons] at hknown
    exact absurd hcol hknown.1
  | case3 whereCount ptr h cond colIdx hcol hfull =>
    rw [Nat.sub_eq_zero_of_le hfull]
    rfl
  | case4 whereCount ptr h cond colIdx hcol hroom ih =>
    have hcond : findColumnIndex schema (scanCondition (skipBlanks ptr)).1.colName = some colIdx :=
      hcol
    rw [conditions_cons h, List.forall_mem_cons] at hknown
    rw [conditions_cons h, List.map_cons, show 4 - whereCount = (4 - (whereCount + 1)) + 1 by omega,
      List.take_succ_cons, ← ih (by omega) hknown.2, instructionOf, hcond]
    rfl

end Loop

theorem compileLimit_error (limit : ℕ) : (compileLimit limit).error = none := by
  unfold compileLimit
  split_ifs <;> rfl

theorem andThen_error (c next : Compiled) :
    (c.andThen next).error = none ↔ c.error = none ∧ next.error = none := by
  unfold Compiled.andThen
  cases hc : c.error with
  | none => simp
  | some message => simp [hc]

theorem compile_accepts (request : QueryRequest) (table : LoadedTable) :
    (compileAndSendInstructions request table).error = none ↔
      Compilable table.schema (conditions request.whereMemory) ∧
        (compileSelect table.schema table.memory request.selectList).error = none := by
  rw [compileAndSendInstructions, andThen_error, andThen_error,
    compileWhere_accepts (Nat.zero_le _), Nat.zero_add]
  simp [compileLimit_error, Compilable]

def columnA : LoadedTable := ⟨⟨1, 1, 1, 4, [[65]]⟩, []⟩

end FpgaDatabase.Firmware.Conditions
