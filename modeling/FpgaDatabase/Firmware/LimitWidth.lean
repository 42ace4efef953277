import FpgaDatabase.Firmware.Emitted
import FpgaDatabase.Hardware.Refinement
import FpgaDatabase.Hardware.UserHw

namespace FpgaDatabase.Firmware.LimitWidth

open Hardware.Stages Hardware.Pipeline Hardware.Streaming Hardware.Program Hardware.Refinement
open Hardware.UserHw Library.Execution Library.Quota CString Request Table Compile Emitted

variable {request : QueryRequest} {table : LoadedTable} {loads data : List (Inputs generics)}
  {s : Traced generics}

/-- Rows without an aggregate are capped at 256. -/
theorem parseRequestBody_limit {body : List UInt8} (hparse : parseRequestBody body = some request) :
    request.limit ≤ queryMaxRows ∨ isAggregate request.sql = true := by
  obtain ⟨-, -, -, hlimit⟩ := parseRequestBody_some hparse
  rw [hlimit, capLimit]
  split_ifs with h
  · exact .inl le_rfl
  · by_cases hle : parseLimit body ≤ queryMaxRows
    · exact .inl hle
    · right
      by_contra hagg
      exact h ⟨by omega, hagg⟩

/-- The rows that pass are as many as the low byte of the limit allows, and at least
one of those that match. -/
theorem written_emitted (hlimit : 1 ≤ request.limit) (p : State generics)
    (hl : ∀ i ∈ loads, LoadCycle i)
    (hp : instructions loads = (compileAndSendInstructions request table).sent)
    (hr : Run traced StreamCycle (programmed p loads) data s) (he : Exhausted s.1)
    (hd : Drained s.1) :
    (written s.1 s.2).length = min (max 1 (request.limit % 256))
      (s.2.accepted.filter (selects (compileAndSendInstructions request table).sent)).length := by
  obtain ⟨rows, c⟩ := stream_coupled hl hp hr
  have hmatch := rowMatches_of_holds
    (holds_loaded p.fetcher (compileAndSendInstructions request table).sent)
    (wheres_emitted_length request table)
  rw [written_of_drained c he hd, answer, quota_of_holds (holds_loaded _ _), limitOf_emitted,
    if_pos (by omega), Option.map_some, upTo_length, funext hmatch]

/-- The limit that the parser admits is honoured exactly up to 255, or as long as its
low byte is not exceeded. -/
theorem limit_honoured_iff (body : List UInt8) (request : QueryRequest)
    (hparse : parseRequestBody body = some request) (hlimit : 1 ≤ request.limit)
    (table : LoadedTable) (p : State generics) (loads data : List (Inputs generics))
    (hl : ∀ i ∈ loads, LoadCycle i)
    (hp : instructions loads = (compileAndSendInstructions request table).sent)
    (s : Traced generics) (hr : Run traced StreamCycle (programmed p loads) data s)
    (he : Exhausted s.1) (hd : Drained s.1) :
    ((written s.1 s.2).length = min request.limit
        (s.2.accepted.filter (selects (compileAndSendInstructions request table).sent)).length ↔
      request.limit ≤ 255 ∨
        (s.2.accepted.filter (selects (compileAndSendInstructions request table).sent)).length ≤
          max 1 (request.limit % 256)) ∧
    (isAggregate request.sql = false → request.limit ≤ 256) := by
  refine ⟨?_, ?_⟩
  · rw [written_emitted hlimit p hl hp hr he hd]
    omega
  · intro hagg
    rcases parseRequestBody_limit hparse with hle | htrue
    · exact hle
    · rw [hagg] at htrue
      cases htrue

section Examples

def limitBody (digits : String) : List UInt8 :=
  ascii "TABLE=t\nLIMIT=" ++ ascii digits ++ ascii "\nSQL=SELECT * FROM t\n"

def limitRequest (limit : ℕ) : QueryRequest :=
  ⟨ascii "SELECT * FROM t", ascii "t", ascii "*", [], limit⟩

def anyTable : LoadedTable := ⟨⟨1, 1, 2, 4, [ascii "A"]⟩, []⟩

theorem compile_limitRequest {limit : ℕ} (h : 0 < limit) :
    (compileAndSendInstructions (limitRequest limit) anyTable).sent = [limitInstruction limit] := by
  rw [compile_star anyTable rfl rfl, compileLimit, if_pos (show 0 < (limitRequest limit).limit from h)]
  rfl

def limitLoad (limit : ℕ) : List (Inputs generics) :=
  [{ instruction := limitInstruction limit, loadInst := true }]

theorem loadCycle_limitLoad (limit : ℕ) : ∀ i ∈ limitLoad limit, LoadCycle i := by
  intro i hi
  rw [limitLoad, List.mem_singleton] at hi
  subst hi
  exact ⟨rfl, rfl, rfl⟩

def rowPushed : Inputs generics := { din := 7, dinValid := true }
def rowAwaited : Inputs generics := {}

def twoRows : List (Inputs generics) :=
  [rowPushed, rowPushed, rowAwaited, rowAwaited, rowAwaited, rowAwaited]

theorem run_twoRows (limit : ℕ) (h : limit = 1 ∨ limit = 256) :
    Run traced StreamCycle (programmed (.powerUp generics) (limitLoad limit)) twoRows
      (twoRows.foldl traced (programmed (.powerUp generics) (limitLoad limit))) := by
  rcases h with rfl | rfl <;>
  exact .cons ⟨⟨rfl, rfl, by decide +kernel⟩, rfl, by decide +kernel⟩ <|
    .cons ⟨⟨rfl, rfl, by decide +kernel⟩, rfl, by decide +kernel⟩ <|
    .cons ⟨⟨rfl, rfl, by decide +kernel⟩, rfl, by decide +kernel⟩ <|
    .cons ⟨⟨rfl, rfl, by decide +kernel⟩, rfl, by decide +kernel⟩ <|
    .cons ⟨⟨rfl, rfl, by decide +kernel⟩, rfl, by decide +kernel⟩ <|
    .cons ⟨⟨rfl, rfl, by decide +kernel⟩, rfl, by decide +kernel⟩ <| .nil _

/-- LIMIT 256 lets one of two rows through. -/
theorem limit_256_lets_one_through : ∃ request s,
    parseRequestBody (limitBody "256") = some request ∧ request.limit = 256 ∧
    instructions (limitLoad 256) = (compileAndSendInstructions request anyTable).sent ∧
    Run traced StreamCycle (programmed (.powerUp generics) (limitLoad 256)) twoRows s ∧
    Exhausted s.1 ∧ Drained s.1 ∧
    (s.2.accepted.filter (selects (compileAndSendInstructions request anyTable).sent)).length = 2 ∧
    (written s.1 s.2).length = 1 := by
  refine ⟨limitRequest 256, _, by decide +kernel, rfl, (compile_limitRequest (by omega)).symm,
    run_twoRows 256 (.inr rfl), .inr (by decide +kernel),
    ⟨by decide +kernel, by decide +kernel, by decide +kernel⟩, ?_, by decide +kernel⟩
  rw [compile_limitRequest (by omega)]
  decide +kernel

theorem limit_one_honoured : ∃ s, parseRequestBody (limitBody "1") = some (limitRequest 1) ∧
    Run traced StreamCycle (programmed (.powerUp generics) (limitLoad 1)) twoRows s ∧
    (written s.1 s.2).length = min 1 (s.2.accepted.filter (selects
      (compileAndSendInstructions (limitRequest 1) anyTable).sent)).length := by
  have hrun := run_twoRows 1 (.inl rfl)
  exact ⟨_, by decide +kernel, hrun, (limit_honoured_iff (limitBody "1") (limitRequest 1)
    (by decide +kernel) (by decide) anyTable (.powerUp generics) (limitLoad 1) twoRows
    (loadCycle_limitLoad 1) (compile_limitRequest (by omega)).symm _ hrun (.inr (by decide +kernel))
    ⟨by decide +kernel, by decide +kernel, by decide +kernel⟩).1.mpr (.inl (by decide))⟩

end Examples

end FpgaDatabase.Firmware.LimitWidth
