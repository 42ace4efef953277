import FpgaDatabase.Firmware.Aggregates
import FpgaDatabase.Firmware.Conditions
import Mathlib.Data.List.GetD

namespace FpgaDatabase.Firmware.SumCheck

open CString Request Table Compile Conditions Aggregates

variable {table : LoadedTable} {file : List UInt8} {c : Fin 4}

/-- The comparison is one of signed characters; bytes from 128 on are below '0'. -/
theorem digit_compare (b : UInt8) :
    ¬ (signed b < 48 ∨ 57 < signed b) ↔ 48 ≤ b.toNat ∧ b.toNat ≤ 57 := by
  have hb := b.toNat_lt
  unfold signed
  split_ifs <;> omega

/-- The cell that the check reads is in the first row. -/
theorem memory_first (hload : loadTable file = some table) :
    (table.rows = [] ∧ table.memory = []) ∨
      ∃ r rest, table.rows = r :: rest ∧ table.memory ≠ [] ∧ table.memory.getD c 0 = r c := by
  obtain ⟨-, hmem, -, -⟩ := loadTable_memory hload
  cases hrows : table.rows with
  | nil =>
    rw [hrows] at hmem
    exact .inl ⟨rfl, hmem⟩
  | cons r rest =>
    have hfirst : table.memory = r.bytes ++ rest.flatMap Cells.bytes := by
      rw [hmem, hrows, List.flatMap_cons]
    have hlen : r.bytes.length = 4 := by simp [Cells.bytes]
    refine .inr ⟨r, rest, rfl, ?_, ?_⟩
    · intro hnil
      rw [hfirst, List.append_eq_nil_iff] at hnil
      rw [hnil.1] at hlen
      cases hlen
    · rw [hfirst, List.getD_append _ _ _ _ (by omega), r.bytes_getD c.isLt]

theorem compileSum_accepts (hload : loadTable file = some table) {ptr : List UInt8}
    (hcol : findColumnIndex table.schema (aggregateColumn ptr) = some (c : ℕ)) :
    (compileSum table.schema table.memory ptr).error = none ↔
      ∀ r, table.rows.head? = some r → isDigit c r = true := by
  simp only [compileSum, hcol, cellSize, Nat.mul_one]
  rcases memory_first (c := c) hload with ⟨hrows, hmem⟩ | ⟨r, rest, hrows, hmem, hcell⟩
  · simp [hrows, hmem, send]
  · have hdigit : isDigit c r = true ↔ ¬ (signed (r c) < 48 ∨ 57 < signed (r c)) := by
      rw [digit_compare, isDigit, Bool.and_eq_true, decide_eq_true_eq, decide_eq_true_eq]
    rw [hrows, hcell, List.head?_cons]
    simp only [Option.some.injEq, forall_eq', hdigit]
    split_ifs with hbad
    · exact iff_of_false (by simp [fail]) (fun hgood ↦ hgood hbad.2)
    · exact iff_of_true rfl (fun hgood ↦ hbad ⟨hmem, hgood⟩)

theorem compileSelect_sum {selectList : List UInt8} (schema : TableSchema) (memory : List UInt8)
    (hsum : asciiStrncasecmpLocal selectList (ascii "SUM(") 4 = 0) :
    compileSelect schema memory selectList = compileSum schema memory (selectList.drop 4) := by
  have hcount : ¬ asciiStrncasecmpLocal selectList (ascii "COUNT(") 6 = 0 := by
    intro hcount
    have hs := ((asciiStrncasecmpLocal_succ selectList (ascii "SUM(") 3).mp hsum).1
    have hc := ((asciiStrncasecmpLocal_succ selectList (ascii "COUNT(") 5).mp hcount).1
    rw [hs] at hc
    revert hc
    decide
  rw [compileSelect, if_neg hcount, if_pos hsum]

/-- SUM is refused on every column with text, and accepted on every column of digits,
exactly when the first row is no exception: the WHERE clause compiles and the first
row holds text if any row does. A request whose WHERE clause is refused is as it
should be if the column holds text. -/
theorem sum_refused_iff (file : List UInt8) (table : LoadedTable)
    (hload : loadTable file = some table) (request : QueryRequest)
    (hsum : asciiStrncasecmpLocal request.selectList (ascii "SUM(") 4 = 0) (c : Fin 4)
    (hcol : findColumnIndex table.schema (aggregateColumn (request.selectList.drop 4)) =
      some (c : ℕ)) :
    (((∃ r ∈ table.rows, isDigit c r = false) →
        (compileAndSendInstructions request table).error ≠ none) ∧
      ((∀ r ∈ table.rows, isDigit c r = true) →
        (compileAndSendInstructions request table).error = none)) ↔
    ((Compilable table.schema (conditions request.whereMemory) →
        (∃ r ∈ table.rows, isDigit c r = false) →
        ∃ r, table.rows.head? = some r ∧ isDigit c r = false) ∧
      (¬ Compilable table.schema (conditions request.whereMemory) →
        ∃ r ∈ table.rows, isDigit c r = false)) := by
  have haccepts := compile_accepts request table
  rw [compileSelect_sum _ _ hsum, compileSum_accepts hload hcol] at haccepts
  have hhead : (∃ r, table.rows.head? = some r ∧ isDigit c r = false) →
      ∃ r ∈ table.rows, isDigit c r = false := by
    rintro ⟨r, hr, htext⟩
    exact ⟨r, List.mem_of_head? hr, htext⟩
  have hall : (∀ r ∈ table.rows, isDigit c r = true) ↔
      ¬ ∃ r ∈ table.rows, isDigit c r = false := by
    simp
  have hfirst : (∀ r, table.rows.head? = some r → isDigit c r = true) ↔
      ¬ ∃ r, table.rows.head? = some r ∧ isDigit c r = false := by
    simp
  rw [hfirst] at haccepts
  rw [ne_eq, haccepts, hall]
  generalize Compilable table.schema (conditions request.whereMemory) = accepted
  generalize (∃ r, table.rows.head? = some r ∧ isDigit c r = false) = first at *
  generalize (∃ r ∈ table.rows, isDigit c r = false) = text at *
  constructor
  · rintro ⟨hrefused, haccepted⟩
    refine ⟨fun ha ht ↦ ?_, fun ha ↦ ?_⟩
    · by_contra hf
      exact hrefused ht ⟨ha, hf⟩
    · by_contra ht
      exact ha (haccepted ht).1
  · rintro ⟨hwhere, hnowhere⟩
    refine ⟨fun ht ⟨ha, hf⟩ ↦ hf (hwhere ha ht), fun ht ↦ ⟨?_, fun hf ↦ ht (hhead hf)⟩⟩
    by_contra ha
    exact ht (hnowhere ha)

def twoRows (first second : UInt8) : List UInt8 :=
  ascii "TBL8" ++ [1, 0, 0, 0, 1, 0, 0, 0] ++ [2, 0, 0, 0, 4, 0, 0, 0] ++ [0, 0, 0, 0] ++
    ascii "A   " ++ [first, 32, 32, 32] ++ [second, 32, 32, 32]

def sumA : QueryRequest := ⟨ascii "SELECT SUM(A) FROM T", ascii "T", ascii "SUM(A)", [], 0⟩

theorem compilable_sumA (schema : TableSchema) : Compilable schema (conditions sumA.whereMemory) := by
  rw [conditions_nil (by decide)]
  exact ⟨by decide, by simp⟩

/-- A letter in the second row is not seen. -/
theorem sum_of_text_accepted : ∃ table, loadTable (twoRows 49 97) = some table ∧
    findColumnIndex table.schema (aggregateColumn (sumA.selectList.drop 4)) = some 0 ∧
    (∃ r ∈ table.rows, isDigit 0 r = false) ∧
    (compileAndSendInstructions sumA table).error = none := by
  obtain ⟨table, hload⟩ : ∃ table, loadTable (twoRows 49 97) = some table :=
    Option.isSome_iff_exists.mp (by decide)
  have hcol : (loadTable (twoRows 49 97)).map (fun table ↦
      findColumnIndex table.schema (aggregateColumn (sumA.selectList.drop 4))) = some (some 0) := by
    decide
  have hrows : (loadTable (twoRows 49 97)).map LoadedTable.rows =
      some [![49, 32, 32, 32], ![97, 32, 32, 32]] := by
    decide
  rw [hload, Option.map_some, Option.some.injEq] at hcol hrows
  refine ⟨table, hload, hcol, ?_, ?_⟩
  · rw [hrows]
    decide
  · rw [compile_accepts, compileSelect_sum _ _ (by decide), compileSum_accepts (c := 0) hload hcol,
      hrows]
    refine ⟨compilable_sumA _, fun r hr ↦ ?_⟩
    obtain rfl := Option.some.inj hr
    decide

theorem sum_of_text_refused : ∃ table, loadTable (twoRows 97 49) = some table ∧
    (compileAndSendInstructions sumA table).error ≠ none := by
  obtain ⟨table, hload⟩ : ∃ table, loadTable (twoRows 97 49) = some table :=
    Option.isSome_iff_exists.mp (by decide)
  have hcol : (loadTable (twoRows 97 49)).map (fun table ↦
      findColumnIndex table.schema (aggregateColumn (sumA.selectList.drop 4))) = some (some 0) := by
    decide
  have hrows : (loadTable (twoRows 97 49)).map LoadedTable.rows =
      some [![97, 32, 32, 32], ![49, 32, 32, 32]] := by
    decide
  rw [hload, Option.map_some, Option.some.injEq] at hcol hrows
  have htext : ∃ r ∈ table.rows, isDigit 0 r = false := by
    rw [hrows]
    decide
  refine ⟨table, hload, ((sum_refused_iff _ table hload sumA (by decide) 0 hcol).mpr ⟨?_, ?_⟩).1
    htext⟩
  · intro _ _
    rw [hrows]
    exact ⟨![97, 32, 32, 32], rfl, by decide⟩
  · intro _
    exact htext

end FpgaDatabase.Firmware.SumCheck
