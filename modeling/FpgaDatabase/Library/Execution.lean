import Mathlib.Data.List.Basic
import Mathlib.Order.WellFounded

namespace FpgaDatabase.Library.Execution

variable {σ ι : Type*} {step : σ → ι → σ} {ok : σ → ι → Prop} {s t u : σ} {i : ι} {is js : List ι}

/-- A finite run of a clocked machine. Every input is admissible in the state
that consumes it. -/
inductive Run (step : σ → ι → σ) (ok : σ → ι → Prop) : σ → List ι → σ → Prop
  | nil (s : σ) : Run step ok s [] s
  | cons {s t : σ} {i : ι} {is : List ι} :
      ok s i → Run step ok (step s i) is t → Run step ok s (i :: is) t

theorem Run.append (h : Run step ok s is t) (h' : Run step ok t js u) :
    Run step ok s (is ++ js) u := by
  induction h with
  | nil => exact h'
  | cons hi _ ih => exact .cons hi (ih h')

theorem run_cons_iff : Run step ok s (i :: is) t ↔ ok s i ∧ Run step ok (step s i) is t := by
  constructor
  · rintro (_ | ⟨hi, hr⟩)
    exact ⟨hi, hr⟩
  · rintro ⟨hi, hr⟩
    exact .cons hi hr

instance decidableRun [∀ s i, Decidable (ok s i)] (s : σ) :
    ∀ is : List ι, Decidable (Run step ok s is (is.foldl step s))
  | [] => .isTrue (.nil s)
  | i :: is =>
    letI := decidableRun (step s i) is
    decidable_of_iff (ok s i ∧ Run step ok (step s i) is (is.foldl step (step s i)))
      run_cons_iff.symm

/-- The invariant rule: what every admissible step preserves, a run preserves. -/
theorem Run.invariant {I : σ → Prop} (hI : ∀ s i, I s → ok s i → I (step s i))
    (h : Run step ok s is t) (hs : I s) : I t := by
  induction h with
  | nil => exact hs
  | cons hi _ ih => exact ih (hI _ _ hs hi)

theorem Run.mono {ok' : σ → ι → Prop} {I : σ → Prop} (hI : ∀ s i, I s → ok s i → I (step s i))
    (hok : ∀ s i, I s → ok s i → ok' s i) (h : Run step ok s is t) (hs : I s) :
    Run step ok' s is t := by
  induction h with
  | nil => exact .nil _
  | cons hi _ ih => exact .cons (hok _ _ hs hi) (ih (hI _ _ hs hi))

/-- The progress rule: a run whose rank falls at every state that is not final
reaches a final state. -/
theorem exists_of_rank {α : Type*} [LT α] [WellFoundedLT α] (rank : σ → α) (run : ℕ → σ)
    (final : σ → Prop) (h : ∀ n, ¬ final (run n) → rank (run (n + 1)) < rank (run n)) :
    ∃ n, final (run n) := by
  have key : ∀ a n, rank (run n) = a → ∃ m, final (run m) := by
    intro a
    induction a using WellFoundedLT.induction with
    | ind a ih =>
      intro n hn
      by_cases hf : final (run n)
      · exact ⟨n, hf⟩
      · exact ih _ (hn ▸ h n hf) (n + 1) rfl
  exact key _ 0 rfl

end FpgaDatabase.Library.Execution
