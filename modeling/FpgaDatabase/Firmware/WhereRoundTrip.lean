import FpgaDatabase.Firmware.WhereText

namespace FpgaDatabase.Firmware.WhereRoundTrip

open CString Request Table Compile Emitted Conditions WhereText
open Hardware.Stages Hardware.Pipeline Hardware.Program

def code : Operator → BitVec 3
  | .eq | .eqEq => 0b000#3
  | .ne => 0b001#3
  | .lt => 0b010#3
  | .le => 0b011#3
  | .gt => 0b100#3
  | .ge => 0b101#3

/-- A value that stands for one byte: a letter, a digit or a character in quotes. -/
inductive Literal : List UInt8 → UInt8 → Prop
  | letter {ch : UInt8} (h : isalpha ch = true) : Literal [ch] ch
  | digit {ch : UInt8} (h : isdigit ch = true) : Literal [ch] ch
  | quoted {ch : UInt8} (h : ch ≠ 0) : Literal [39, ch, 39] ch

/-- A column of the schema is named by one character, in either case. -/
def Names (ch : UInt8) (column : List UInt8) : Prop :=
  ∃ d, column.takeWhile (· ≠ 0) = [d] ∧ tolower d = tolower ch

structure FirstNamed (schema : TableSchema) (ch : UInt8) (idx : ℕ) : Prop where
  lt_count : idx < schema.columnCount
  named : ∃ column, schema.columns[idx]? = some column ∧ Names ch column
  first : ∀ i < idx, ∀ column, schema.columns[i]? = some column → ¬ Names ch column

structure Plain (schema : TableSchema) (c : Comparison) : Prop where
  name : ∃ ch, c.name = [ch] ∧ (isalnum ch = true ∨ ch = 95) ∧
    ∃ i column, i < schema.columnCount ∧ schema.columns[i]? = some column ∧ Names ch column
  value : ∃ b, Literal c.value b

/-- What the fields of a WHERE instruction say about its condition. -/
structure Programs (schema : TableSchema) (c : Comparison) (inst : Instruction) : Prop where
  opcode : opcode inst = 0b0001#4
  column : ∃ ch, c.name = [ch] ∧ FirstNamed schema ch (whereColumn inst)
  column_lt : whereColumn inst < maxColumns
  value : ∃ b, Literal c.value b ∧ whereValue inst = b.toBitVec
  op : whereOp inst = code c.op

section Columns

variable {schema : TableSchema} {ch : UInt8} {column : List UInt8} {idx : ℕ}

theorem peek_of_takeWhile {d : UInt8} (h : column.takeWhile (· ≠ 0) = [d]) : peek column = d := by
  cases column with
  | nil => cases h
  | cons e es =>
    by_cases h₀ : e = 0
    · simp [h₀] at h
    · rw [List.takeWhile_cons_of_pos (by simpa using h₀)] at h
      exact (List.cons.inj h).1

theorem names_iff :
    Names ch column ↔ asciiStrncasecmpLocal column [ch] 1 = 0 ∧ strlen column = 1 := by
  rw [asciiStrncasecmpLocal_succ, strlen, List.length_eq_one_iff]
  constructor
  · rintro ⟨d, hd, hlower⟩
    rw [peek_of_takeWhile hd]
    exact ⟨⟨hlower, rfl⟩, d, hd⟩
  · rintro ⟨⟨hlower, -⟩, d, hd⟩
    rw [peek_of_takeWhile hd] at hlower
    exact ⟨d, hd, hlower⟩

theorem findColumnIndex_first :
    findColumnIndex schema [ch] = some idx ↔ FirstNamed schema ch idx := by
  have htest (i : ℕ) (hi : i < schema.columns.length) :
      decide (asciiStrncasecmpLocal schema.columns[i] [ch] 1 = 0 ∧ strlen schema.columns[i] = 1) =
        true ↔ Names ch schema.columns[i] := by
    rw [decide_eq_true_eq, names_iff]
  rw [findColumnIndex, List.findIdx?_eq_some_iff_getElem]
  simp only [List.length_take, List.getElem_take, List.length_singleton]
  constructor
  · rintro ⟨hlt, hnamed, hfirst⟩
    have hi : idx < schema.columns.length := by omega
    refine ⟨by omega, ⟨_, List.getElem?_eq_getElem hi, (htest _ hi).mp hnamed⟩, ?_⟩
    intro i hlt' column hcolumn
    obtain ⟨hi', rfl⟩ := List.getElem?_eq_some_iff.mp hcolumn
    exact fun hn ↦ hfirst i hlt' ((htest i hi').mpr hn)
  · rintro ⟨hcount, ⟨column, hcolumn, hnamed⟩, hfirst⟩
    obtain ⟨hi, rfl⟩ := List.getElem?_eq_some_iff.mp hcolumn
    refine ⟨by omega, (htest idx hi).mpr hnamed, ?_⟩
    intro i hlt htrue
    have hi' : i < schema.columns.length := by omega
    exact hfirst i hlt _ (List.getElem?_eq_getElem hi') ((htest i hi').mp htrue)

theorem findColumnIndex_named {i : ℕ} (hi : i < schema.columnCount)
    (hcolumn : schema.columns[i]? = some column) (hnamed : Names ch column) :
    ∃ idx, findColumnIndex schema [ch] = some idx := by
  rw [← Option.isSome_iff_exists, findColumnIndex, List.findIdx?_isSome, List.any_eq_true]
  have hmem : column ∈ schema.columns.take schema.columnCount :=
    List.mem_iff_getElem?.mpr ⟨i, by rwa [List.getElem?_take_of_lt hi]⟩
  exact ⟨column, hmem, by simpa using names_iff.mp hnamed⟩

end Columns

section Instructions

variable {schema : TableSchema} {c : Comparison} {cs : List Comparison} {pass value tail : List UInt8}
  {b : UInt8}

theorem bitVec_opCode (op : Operator) : BitVec.ofNat 3 (opCode op.spelling) = code op := by
  cases op <;> decide

theorem scanCondition_stands (h : Stands c pass) :
    (scanCondition pass).1.colName = c.name ∧ (scanCondition pass).1.opStr = c.op.spelling ∧
      ∃ tail, Ends c.value tail ∧ (scanCondition pass).1.val = (scanValue (c.value ++ tail)).1 := by
  obtain ⟨hc, j, k, tail, hpass, hends⟩ := h
  obtain ⟨hname, hop, hvalue⟩ := pass_reads hc hpass
  rw [scanCondition_eq]
  exact ⟨hname, hop, tail, hends, by rw [hvalue]⟩

theorem scanValue_literal (h : Literal value b) (he : Ends value tail) :
    (scanValue (value ++ tail)).1 = signed b := by
  have hchar (hb : isalnum b = true) (hval : value = [b]) :
      (scanValue (value ++ tail)).1 = signed b := by
    subst hval
    have hend : peek tail = 0 ∨ peek tail = 32 := by
      rcases he with h | h | h
      · exact .inl h
      · exact .inr h
      · cases h
    exact congrArg Prod.fst (scanValue_alnum hb hend)
  cases h with
  | letter h => exact hchar (by simp [isalnum, h]) rfl
  | digit h => exact hchar (by simp [isalnum, h]) rfl
  | quoted h => rw [scanValue_quoted]

theorem instruction_programs (hcols : schema.columns.length ≤ maxColumns) (hc : Plain schema c)
    (h : Stands c pass) : findColumnIndex schema (scanCondition pass).1.colName ≠ none ∧
      Programs schema c (instructionOf schema (scanCondition pass).1) := by
  obtain ⟨⟨ch, hname, -, i, column, hi, hcolumn, hnamed⟩, b, hliteral⟩ := hc
  obtain ⟨hcolName, hop, tail, hends, hval⟩ := scanCondition_stands h
  obtain ⟨idx, hidx⟩ := findColumnIndex_named hi hcolumn hnamed
  have hfirst := findColumnIndex_first.mp hidx
  have hlt : idx < maxColumns := by
    obtain ⟨column', hcolumn', -⟩ := hfirst.named
    exact (List.getElem?_eq_some_iff.mp hcolumn').1.trans_le hcols
  have hslice : idx % 64 = idx := Nat.mod_eq_of_lt (hlt.trans (by decide))
  rw [hcolName, hname, hidx]
  refine ⟨Option.some_ne_none _, ?_⟩
  rw [instructionOf, hcolName, hname, hidx, Option.getD_some, hop, hval,
    scanValue_literal hliteral hends]
  exact
    { opcode := opcode_where _ _ _
      column := ⟨ch, hname, by rwa [whereColumn_where, hslice]⟩
      column_lt := by rwa [whereColumn_where, hslice]
      value := ⟨b, hliteral, by rw [whereValue_where, ofInt_signed]⟩
      op := by rw [whereOp_where, bitVec_opCode] }

theorem conditions_program (hcols : schema.columns.length ≤ maxColumns)
    (hplain : ∀ c ∈ cs, Plain schema c) {ptr : List UInt8}
    (h : List.Forall₂ Stands cs (passes ptr)) :
    (∀ cond ∈ conditions ptr, findColumnIndex schema cond.colName ≠ none) ∧
      List.Forall₂ (Programs schema) cs ((conditions ptr).map (instructionOf schema)) := by
  rw [conditions]
  generalize passes ptr = ps at h ⊢
  induction h with
  | nil => simp
  | cons hstands hrest ih =>
    rw [List.forall_mem_cons] at hplain
    obtain ⟨hknown, hprograms⟩ := instruction_programs hcols hplain.1 hstands
    obtain ⟨hknowns, hall⟩ := ih hplain.2
    exact ⟨List.forall_mem_cons.mpr ⟨hknown, hknowns⟩, .cons hprograms hall⟩

end Instructions

theorem compile_star_sent {request : QueryRequest} (table : LoadedTable)
    (hs : request.selectList = ascii "*") :
    (compileAndSendInstructions request table).sent = (compileLimit request.limit).sent ++
        (compileWhere table.schema 0 request.whereMemory).sent ∧
      ((compileAndSendInstructions request table).error = none ↔
        (compileWhere table.schema 0 request.whereMemory).error = none) := by
  have hselect : compileSelect table.schema table.memory request.selectList = done := by
    rw [hs, compileSelect, if_neg (by decide), if_neg (by decide), if_neg (by decide)]
  have hdone (c : Compiled) : (c.andThen done).sent = c.sent ∧ (c.andThen done).error = c.error := by
    cases hc : c.error <;> simp [Compiled.andThen, hc, done]
  rw [compileAndSendInstructions, hselect]
  constructor
  · rw [Compiled.andThen, compileLimit_error]
    simp only [(hdone _).1]
  · rw [andThen_error, (hdone _).2]
    simp [compileLimit_error]

/-- The conditions of a clause come back from the fields of the instructions it compiles
to; the compilation stops behind the fourth. -/
theorem where_round_trip (table : LoadedTable) (hcols : table.schema.columns.length ≤ maxColumns)
    (request : QueryRequest) (hstar : request.selectList = ascii "*") (cs : List Comparison)
    (hplain : ∀ c ∈ cs, Plain table.schema c) (htext : Prints cs request.whereClause)
    (hfits : request.whereClause.length < sqlMaxLen) :
    ∃ insts, (compileAndSendInstructions request table).sent =
        (compileLimit request.limit).sent ++ insts ∧
      List.Forall₂ (Programs table.schema) (cs.take 4) insts ∧
      ((compileAndSendInstructions request table).error = none ↔ cs.length ≤ 4) := by
  obtain ⟨tail, ht, hmem⟩ := whereMemory_eq hfits
  have hpasses := (passes_prints ht htext).1
  rw [← hmem] at hpasses
  obtain ⟨hknown, hprograms⟩ := conditions_program hcols hplain hpasses
  obtain ⟨hsent, herror⟩ := compile_star_sent table hstar
  refine ⟨_, hsent, ?_, ?_⟩
  · rw [compileWhere_sends (Nat.zero_le _) hknown]
    exact List.forall₂_take _ hprograms
  · have hlen : (conditions request.whereMemory).length = cs.length := by
      rw [conditions, List.length_map, hpasses.length_eq]
    rw [herror, compileWhere_accepts (Nat.zero_le _), hlen, Nat.zero_add]
    exact and_iff_left hknown

section Examples

def lettersTable : LoadedTable := ⟨⟨1, 2, 1, 4, [[65], [98]]⟩, []⟩

def quotedRequest : QueryRequest := ⟨[], [], ascii "*", ascii "a='x'  aNd B >=5", 0⟩

def quotedConds : List Comparison :=
  [⟨ascii "a", .eq, ascii "'x'"⟩, ⟨ascii "B", .ge, ascii "5"⟩]

theorem quoted_prints : Prints quotedConds quotedRequest.whereClause := by
  have hsecond : Continues [⟨ascii "B", .ge, ascii "5"⟩] (ascii "  aNd B >=5") :=
    .and 2 0 1 0 (show isAnd (ascii "aNd") = true by decide) ⟨by decide, by decide⟩ (.inl rfl)
      (.done 0)
  exact .clause 0 0 0 ⟨by decide, by decide⟩ (.inr (.inl rfl)) hsecond

theorem quoted_round_trip : (compileAndSendInstructions quotedRequest lettersTable).sent.length = 2 ∧
    (compileAndSendInstructions quotedRequest lettersTable).error = none := by
  have hplain : ∀ c ∈ quotedConds, Plain lettersTable.schema c := by
    simp only [quotedConds, List.forall_mem_cons, List.not_mem_nil, false_implies, implies_true,
      and_true]
    exact ⟨⟨⟨97, rfl, .inl (by decide), 0, [65], by decide, rfl, 65, by decide, by decide⟩,
        120, .quoted (by decide)⟩,
      ⟨⟨66, rfl, .inl (by decide), 1, [98], by decide, rfl, 98, by decide, by decide⟩,
        53, .digit (by decide)⟩⟩
  obtain ⟨insts, hsent, hall, herror⟩ := where_round_trip lettersTable (by decide) quotedRequest rfl
    quotedConds hplain quoted_prints (by decide)
  refine ⟨?_, herror.mpr (by decide)⟩
  rw [hsent]
  exact hall.length_eq.symm

end Examples

end FpgaDatabase.Firmware.WhereRoundTrip
