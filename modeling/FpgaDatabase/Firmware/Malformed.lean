import FpgaDatabase.Firmware.Tokens
import FpgaDatabase.Firmware.UnknownColumns

namespace FpgaDatabase.Firmware.Malformed

open CString Request Table Compile Conditions WhereText Tokens UnknownColumns

/-- When the compilation accepts conjunctions only. Of the tokens it refuses none but names. -/
theorem accepts_only_conjunctions_iff (table : LoadedTable) (hfits : Fits table.schema)
    (request : QueryRequest) (hnul : 0 ∉ request.whereClause) (hlist : 0 ∉ request.selectList) :
    ((compileAndSendInstructions request table).error = none → Conjunction request.whereClause) ↔
      ¬ Compilable table.schema (conditions request.whereMemory) ∨
        ¬ SelectCompilable table request.selectList ∨ ¬ Flaw request.whereClause := by
  rw [compile_accepts, compileSelect_accepts hfits hlist, conjunction_iff hnul]
  tauto

section Examples

def whereRequest (clause : String) : QueryRequest := ⟨[], [], ascii "*", ascii clause, 0⟩

def onlyPass (clause : String) : List UInt8 := skipBlanks (whereRequest clause).whereMemory

def isSinglePass (clause : String) : Bool :=
  peek (onlyPass clause) ≠ 0 && peek (skipBlanks (scanCondition (onlyPass clause)).2) = 0 &&
    (findColumnIndex columnA.schema (scanCondition (onlyPass clause)).1.colName).isSome

theorem singlePass_accepted {clause : String} (h : isSinglePass clause = true) :
    passes (whereRequest clause).whereMemory = [onlyPass clause] ∧
      (compileAndSendInstructions (whereRequest clause) columnA).error = none := by
  simp only [isSinglePass, Bool.and_eq_true, decide_eq_true_eq] at h
  obtain ⟨⟨hfirst, hlast⟩, hcolumn⟩ := h
  have hpasses : passes (whereRequest clause).whereMemory = [onlyPass clause] := by
    rw [passes, ← onlyPass, if_neg hfirst, passes, if_pos hlast]
  refine ⟨hpasses, ?_⟩
  rw [compile_accepts, conditions, hpasses, List.map_singleton]
  refine ⟨⟨by simp, ?_⟩, rfl⟩
  rw [List.forall_mem_singleton]
  exact Option.isSome_iff_ne_none.mp hcolumn

def malformed : List String := ["a <> 1", "a => 1", "a =< 1", "a ! 1", "a 1", "a ="]

theorem malformed_accepted : malformed.Forall (fun clause ↦
    (compileAndSendInstructions (whereRequest clause) columnA).error = none ∧
      ¬ Conjunction (ascii clause)) := by
  have hall : malformed.all (fun clause ↦ !(ascii clause).contains 0 && isSinglePass clause &&
      decide (Flaw (ascii clause))) = true := by
    decide +kernel
  rw [List.forall_iff_forall_mem]
  intro clause hclause
  have h := List.all_eq_true.mp hall clause hclause
  simp only [Bool.and_eq_true, Bool.not_eq_true', decide_eq_true_eq] at h
  obtain ⟨⟨hnul, hsingle⟩, hflaw⟩ := h
  refine ⟨(singlePass_accepted hsingle).2, ?_⟩
  rw [conjunction_iff (by simpa using hnul), not_not]
  exact hflaw

theorem comparison_accepted :
    (compileAndSendInstructions (whereRequest "a <= 7") columnA).error = none ∧
      Conjunction (whereRequest "a <= 7").whereClause := by
  have haccepted := (singlePass_accepted (show isSinglePass "a <= 7" = true by decide +kernel)).2
  have hflaw : ¬ Flaw (whereRequest "a <= 7").whereClause := by
    decide +kernel
  exact ⟨haccepted, (accepts_only_conjunctions_iff columnA fits_columnA (whereRequest "a <= 7")
    (by decide) (by decide)).mpr (.inr (.inr hflaw)) haccepted⟩

end Examples

end FpgaDatabase.Firmware.Malformed
