import Mathlib.Logic.Function.Iterate
import Mathlib.Order.Preorder.Finite

namespace FpgaDatabase.Library.Linked

open Function

variable {α β : Type*} {next : α → α} {live : α → Bool} {probe : α → Option β} {a : α} {as : List α}
  {r : β} {fuel : ℕ}

/-- The nodes from `a` on, linked by `next`, up to one whose successor is not live. -/
inductive Chain (next : α → α) (live : α → Bool) : α → List α → Prop
  | last {a : α} : live (next a) = false → Chain next live a [a]
  | link {a : α} {as : List α} :
      live (next a) = true → Chain next live (next a) as → Chain next live a (a :: as)

inductive Walk (next : α → α) (live : α → Bool) : α → List α → Prop
  | one (a : α) : Walk next live a [a]
  | link {a : α} {as : List α} :
      live (next a) = true → Walk next live (next a) as → Walk next live a (a :: as)

/-- Node after node is probed until a probe answers or the chain ends. -/
def search (next : α → α) (live : α → Bool) (probe : α → Option β) : ℕ → α → Option (Option β)
  | 0, _ => none
  | fuel + 1, a =>
    match probe a with
    | some r => some (some r)
    | none => if live (next a) then search next live probe fuel (next a) else some none

theorem search_chain (h : Chain next live a as) (hf : as.length ≤ fuel) :
    search next live probe fuel a = some (as.findSome? probe) := by
  induction h generalizing fuel with
  | @last a hl =>
    obtain ⟨fuel, rfl⟩ := Nat.exists_eq_succ_of_ne_zero (Nat.one_le_iff_ne_zero.mp hf)
    cases hp : probe a <;> simp [search, hp, hl]
  | @link a as hl _ ih =>
    rw [List.length_cons] at hf
    obtain ⟨fuel, rfl⟩ := Nat.exists_eq_succ_of_ne_zero (show fuel ≠ 0 by omega)
    have hrest := ih (show as.length ≤ fuel by omega)
    cases hp : probe a with
    | none => simp [search, hp, hl, hrest]
    | some r => simp [search, hp]

/-- A search that succeeds has seen only the beginning of the chain. -/
theorem search_eq_some_iff : (∃ fuel, search next live probe fuel a = some (some r)) ↔
    ∃ as, Walk next live a as ∧ as.findSome? probe = some r := by
  constructor
  · rintro ⟨fuel, h⟩
    induction fuel generalizing a with
    | zero => cases h
    | succ fuel ih =>
      cases hp : probe a with
      | some r' =>
        simp only [search, hp, Option.some.injEq] at h
        exact ⟨[a], .one a, by simp [hp, h]⟩
      | none =>
        simp only [search, hp] at h
        split at h
        · next hl =>
          obtain ⟨as, hw, hs⟩ := ih h
          exact ⟨a :: as, .link hl hw, by simp [hp, hs]⟩
        · cases h
  · rintro ⟨as, hw, hs⟩
    induction hw with
    | one a => exact ⟨1, by cases hp : probe a <;> simp_all [search]⟩
    | @link a as hl _ ih =>
      cases hp : probe a with
      | some r' =>
        refine ⟨1, ?_⟩
        simpa [search, hp] using hs
      | none =>
        rw [List.findSome?_cons, hp] at hs
        obtain ⟨fuel, h⟩ := ih hs
        exact ⟨fuel + 1, by simp [search, hp, hl, h]⟩

def Passes (next : α → α) (live : α → Bool) (probe : α → Option β) (a : α) (m : ℕ) : Prop :=
  probe (next^[m] a) = none ∧ live (next^[m + 1] a) = true

theorem search_eq_none_iff :
    search next live probe fuel a = none ↔ ∀ m < fuel, Passes next live probe a m := by
  induction fuel generalizing a with
  | zero => simp [search]
  | succ fuel ih =>
    rw [Nat.forall_lt_succ_left]
    have hshift (m : ℕ) : Passes next live probe a (m + 1) ↔ Passes next live probe (next a) m := by
      simp only [Passes, iterate_succ_apply]
    simp only [hshift]
    rw [← ih]
    cases hp : probe a with
    | some r => simp [search, Passes, hp]
    | none =>
      by_cases hl : live (next a) = true
      · simp [search, Passes, hp, hl]
      · simp [search, Passes, hp, hl]

/-- The chain returns to a node it has visited, and nothing on the way ended the search. -/
def Circles (next : α → α) (live : α → Bool) (probe : α → Option β) (a : α) : Prop :=
  ∃ i j, i < j ∧ next^[i] a = next^[j] a ∧ ∀ m < j, Passes next live probe a m

theorem passes_of_circle {i j : ℕ} (hij : i < j) (he : next^[i] a = next^[j] a)
    (hp : ∀ m < j, Passes next live probe a m) (m : ℕ) : Passes next live probe a m := by
  induction m using Nat.strong_induction_on with
  | _ m ih =>
    by_cases hm : m < j
    · exact hp m hm
    · -- one round less leads to the same node
      have hback (k : ℕ) : next^[k + j] a = next^[k + i] a := by
        rw [iterate_add_apply, iterate_add_apply, he]
      have h₀ : next^[m] a = next^[m - j + i] a := by
        rw [← hback, Nat.sub_add_cancel (by omega)]
      have h₁ : next^[m + 1] a = next^[m - j + i + 1] a := by
        rw [iterate_succ_apply', iterate_succ_apply', h₀]
      have hprev := ih (m - j + i) (by omega)
      exact ⟨h₀ ▸ hprev.1, h₁ ▸ hprev.2⟩

/-- With finitely many live nodes a search ends unless it runs in a circle. -/
theorem search_ends_iff {s : Set α} (hs : s.Finite) (hlive : ∀ a, live a = true → a ∈ s) :
    (∃ fuel o, search next live probe fuel a = some o) ↔ ¬ Circles next live probe a := by
  constructor
  · rintro ⟨fuel, o, h⟩ ⟨i, j, hij, he, hp⟩
    have hnone : search next live probe fuel a = none :=
      search_eq_none_iff.mpr fun m _ ↦ passes_of_circle hij he hp m
    rw [hnone] at h
    cases h
  · intro hc
    by_contra hn
    have hforever : ∀ m, Passes next live probe a m := by
      intro m
      have hnone : search next live probe (m + 1) a = none := by
        rw [Option.eq_none_iff_forall_ne_some]
        intro o ho
        exact hn ⟨m + 1, o, ho⟩
      exact search_eq_none_iff.mp hnone m (by omega)
    have hmaps : ∀ m : ℕ, next^[m + 1] a ∈ s := fun m ↦ hlive _ (hforever m).2
    obtain ⟨i, j, hij, he⟩ := hs.exists_lt_map_eq_of_forall_mem hmaps
    exact hc ⟨i + 1, j + 1, by omega, he, fun m _ ↦ hforever m⟩

end FpgaDatabase.Library.Linked
