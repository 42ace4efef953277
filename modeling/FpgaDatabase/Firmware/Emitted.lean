import FpgaDatabase.Firmware.Compile
import FpgaDatabase.Hardware.Program
import Mathlib.Tactic.IntervalCases

namespace FpgaDatabase.Firmware.Emitted

open CString Request Table Compile Hardware.Stages Hardware.Pipeline Hardware.Program

section Fields

variable (colIdx op limit : ℕ) (val : ℤ)

theorem opcode_where : opcode (whereInstruction colIdx val op) = 0b0001#4 := by
  apply BitVec.eq_of_getLsbD_eq
  intro i hi
  interval_cases i <;> simp [opcode, whereInstruction]

theorem opcode_limit : opcode (limitInstruction limit) = 0b0010#4 := by
  apply BitVec.eq_of_getLsbD_eq
  intro i hi
  interval_cases i <;> simp [opcode, limitInstruction]

theorem opcode_aggregate (w : Word) : opcode (aggregateInstruction w colIdx) = w.setWidth 4 := by
  apply BitVec.eq_of_getLsbD_eq
  intro i hi
  interval_cases i <;> simp [opcode, aggregateInstruction]

theorem whereColumn_where : whereColumn (whereInstruction colIdx val op) = colIdx % 64 := by
  have hfield : (whereInstruction colIdx val op).extractLsb' 11 6 = BitVec.ofNat 6 colIdx := by
    rw [whereInstruction, ← BitVec.setWidth_ofNat_of_le (show 6 ≤ 32 by omega)]
    generalize BitVec.ofNat 32 colIdx = w
    apply BitVec.eq_of_getLsbD_eq
    intro i hi
    interval_cases i <;> simp
  rw [whereColumn, hfield, BitVec.toNat_ofNat]

theorem whereOp_where : whereOp (whereInstruction colIdx val op) = BitVec.ofNat 3 op := by
  rw [whereInstruction, ← BitVec.setWidth_ofNat_of_le (show 3 ≤ 32 by omega)]
  generalize BitVec.ofNat 32 op = w
  apply BitVec.eq_of_getLsbD_eq
  intro i hi
  interval_cases i <;> simp [whereOp]

theorem whereValue_where : whereValue (whereInstruction colIdx val op) = BitVec.ofInt 8 val := by
  have hint : (BitVec.ofInt 32 val).setWidth 8 = BitVec.ofInt 8 val := by
    apply BitVec.eq_of_toNat_eq
    simp only [BitVec.toNat_setWidth, BitVec.toNat_ofInt]
    omega
  rw [← hint]
  apply BitVec.eq_of_getLsbD_eq
  intro i hi
  interval_cases i <;> simp [whereValue, whereInstruction]

theorem ofInt_signed (v : UInt8) : BitVec.ofInt 8 (signed v) = v.toBitVec := by
  have hlt := v.toNat_lt
  apply BitVec.eq_of_toNat_eq
  rw [BitVec.toNat_ofInt, UInt8.toNat_toBitVec, signed]
  split_ifs <;> omega

theorem limitValue_limit : limitValue (limitInstruction limit) = BitVec.ofNat 8 limit := by
  rw [limitInstruction, ← BitVec.setWidth_ofNat_of_le (show 8 ≤ 32 by omega)]
  generalize BitVec.ofNat 32 limit = w
  apply BitVec.eq_of_getLsbD_eq
  intro i hi
  interval_cases i <;> simp [limitValue]

end Fields

def IsWhere (inst : Instruction) : Prop :=
  ∃ colIdx val op, inst = whereInstruction colIdx val op

def IsAggregate (inst : Instruction) : Prop :=
  ∃ colIdx, inst = aggregateInstruction 3 colIdx ∨ inst = aggregateInstruction 4 colIdx

/-- The WHERE loop sends WHERE instructions only, and never more than four. -/
theorem compileWhere_sent (schema : TableSchema) (whereCount : ℕ) (ptr : List UInt8) :
    (∀ inst ∈ (compileWhere schema whereCount ptr).sent, IsWhere inst) ∧
      (compileWhere schema whereCount ptr).sent.length ≤ 4 - whereCount := by
  fun_induction compileWhere schema whereCount ptr with
  | case1 whereCount ptr h => simp [done]
  | case2 whereCount ptr h cond hcol => simp [fail]
  | case3 whereCount ptr h cond colIdx hcol hfull => simp [fail]
  | case4 whereCount ptr h cond colIdx hcol hroom ih =>
    obtain ⟨hall, hlen⟩ := ih
    constructor
    · intro inst hinst
      rcases List.mem_cons.mp hinst with rfl | hrest
      · exact ⟨_, _, _, rfl⟩
      · exact hall inst hrest
    · simp only [Compiled.andThen, send, List.length_append, List.length_singleton]
      omega

theorem checkSelect_sent (schema : TableSchema) (ptr : List UInt8) :
    (checkSelect schema ptr).sent = [] := by
  fun_induction checkSelect schema ptr with
  | case1 ptr h => rfl
  | case2 ptr h colName hbad => rfl
  | case3 ptr h colName hgood ih => exact ih

theorem compileSelect_sent (schema : TableSchema) (memory selectList : List UInt8) :
    ∀ inst ∈ (compileSelect schema memory selectList).sent, IsAggregate inst := by
  have hcount (ptr : List UInt8) : ∀ inst ∈ (compileCount schema ptr).sent, IsAggregate inst := by
    cases hcol : findColumnIndex schema (aggregateColumn ptr) with
    | none => simp [compileCount, hcol, fail]
    | some colIdx =>
      simp only [compileCount, hcol, send, List.mem_singleton, forall_eq]
      exact ⟨colIdx, .inl rfl⟩
  have hsum (ptr : List UInt8) :
      ∀ inst ∈ (compileSum schema memory ptr).sent, IsAggregate inst := by
    cases hcol : findColumnIndex schema (aggregateColumn ptr) with
    | none => simp [compileSum, hcol, fail]
    | some colIdx =>
      simp only [compileSum, hcol]
      split_ifs
      · simp [fail]
      · simp only [send, List.mem_singleton, forall_eq]
        exact ⟨colIdx, .inr rfl⟩
  unfold compileSelect
  split_ifs
  · exact hcount _
  · exact hsum _
  · simp [checkSelect_sent]
  · simp [done]

theorem wheres_of_isWhere {prog : List Instruction} (h : ∀ inst ∈ prog, IsWhere inst) :
    wheres prog = prog := by
  rw [wheres, List.filter_eq_self]
  intro inst hinst
  obtain ⟨colIdx, val, op, rfl⟩ := h inst hinst
  simp [opcode_where]

theorem opcode_of_isAggregate {inst : Instruction} (h : IsAggregate inst) :
    opcode inst ≠ 0b0001#4 ∧ opcode inst ≠ 0b0010#4 := by
  obtain ⟨colIdx, rfl | rfl⟩ := h
  · rw [opcode_aggregate]
    decide
  · rw [opcode_aggregate]
    decide

theorem andThen_sent (c next : Compiled) :
    (c.andThen next).sent = c.sent ++ if c.error = none then next.sent else [] := by
  rw [Compiled.andThen]
  cases hc : c.error with
  | none => simp
  | some message => simp

/-- The three parts of what was sent; a part after an error is missing. -/
theorem sent_parts (request : QueryRequest) (table : LoadedTable) :
    ∃ selects, (∀ inst ∈ selects, IsAggregate inst) ∧
      (compileAndSendInstructions request table).sent = (compileLimit request.limit).sent ++
        (compileWhere table.schema 0 request.whereMemory).sent ++ selects := by
  have hlimit : (compileLimit request.limit).error = none := by
    unfold compileLimit
    split_ifs <;> rfl
  rw [compileAndSendInstructions, andThen_sent, if_pos hlimit, andThen_sent]
  split_ifs with hwhere
  · exact ⟨_, compileSelect_sent table.schema table.memory request.selectList,
      (List.append_assoc _ _ _).symm⟩
  · exact ⟨[], by simp, (List.append_assoc _ _ _).symm⟩

theorem wheres_emitted (request : QueryRequest) (table : LoadedTable) :
    wheres (compileAndSendInstructions request table).sent =
      (compileWhere table.schema 0 request.whereMemory).sent := by
  obtain ⟨selects, hselects, hsent⟩ := sent_parts request table
  obtain ⟨hall, -⟩ := compileWhere_sent table.schema 0 request.whereMemory
  have hlimit : wheres (compileLimit request.limit).sent = [] := by
    unfold compileLimit
    split_ifs <;> simp [wheres, send, done, opcode_limit]
  have hagg : wheres selects = [] := by
    rw [wheres, List.filter_eq_nil_iff]
    intro inst hinst
    simpa using (opcode_of_isAggregate (hselects inst hinst)).1
  have hwhere := wheres_of_isWhere hall
  rw [hsent]
  simp only [wheres, List.filter_append] at hlimit hagg hwhere ⊢
  rw [hlimit, hagg, hwhere, List.nil_append, List.append_nil]

theorem wheres_emitted_length (request : QueryRequest) (table : LoadedTable) :
    (wheres (compileAndSendInstructions request table).sent).length ≤ 4 := by
  rw [wheres_emitted]
  exact (compileWhere_sent _ 0 _).2

theorem limitOf_emitted (request : QueryRequest) (table : LoadedTable) :
    limitOf (compileAndSendInstructions request table).sent =
      if 0 < request.limit then some (request.limit % 256) else none := by
  obtain ⟨selects, hselects, hsent⟩ := sent_parts request table
  obtain ⟨hall, -⟩ := compileWhere_sent table.schema 0 request.whereMemory
  have hno : ∀ inst ∈ (compileWhere table.schema 0 request.whereMemory).sent ++ selects,
      ¬ decide (opcode inst = 0b0010#4) = true := by
    intro inst hinst
    rcases List.mem_append.mp hinst with hw | ha
    · obtain ⟨colIdx, val, op, rfl⟩ := hall inst hw
      simp [opcode_where]
    · simpa using (opcode_of_isAggregate (hselects inst ha)).2
  rw [limitOf, limitRegister, hsent, List.append_assoc, List.filter_append,
    List.filter_eq_nil_iff.mpr hno, List.append_nil]
  unfold compileLimit
  split_ifs
  · simp [send, opcode_limit, limitValue_limit]
  · simp [done]

theorem compile_star {request : QueryRequest} (table : LoadedTable)
    (hw : request.whereClause = []) (hs : request.selectList = ascii "*") :
    compileAndSendInstructions request table = compileLimit request.limit := by
  have hmem : peek (skipBlanks request.whereMemory) = 0 := by
    rw [QueryRequest.whereMemory, hw]
    rfl
  have hwhere : compileWhere table.schema 0 request.whereMemory = done := by
    rw [compileWhere, if_pos hmem]
  have hselect : compileSelect table.schema table.memory request.selectList = done := by
    rw [hs, compileSelect, if_neg (by decide), if_neg (by decide), if_neg (by decide)]
  rw [compileAndSendInstructions, hwhere, hselect, compileLimit]
  split_ifs <;> rfl

end FpgaDatabase.Firmware.Emitted
