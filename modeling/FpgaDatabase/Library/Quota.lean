import Mathlib.Data.List.Basic

namespace FpgaDatabase.Library.Quota

variable {α : Type*} {q : Option ℕ} {xs ys : List α} {x : α}

/-- The first elements of a list, as many as an optional quota allows. -/
def upTo (q : Option ℕ) (xs : List α) : List α :=
  match q with
  | none => xs
  | some n => xs.take n

def Room (q : Option ℕ) (k : ℕ) : Prop := ∀ n, q = some n → k < n

instance (q : Option ℕ) (k : ℕ) : Decidable (Room q k) :=
  match q with
  | none => isTrue (fun _ h ↦ nomatch h)
  | some n => decidable_of_iff (k < n) ⟨fun h _ he ↦ by cases he; exact h, fun h ↦ h n rfl⟩

@[simp] theorem room_none (k : ℕ) : Room none k := fun _ h ↦ nomatch h

@[simp] theorem room_some (n k : ℕ) : Room (some n) k ↔ k < n :=
  ⟨fun h ↦ h n rfl, fun h _ he ↦ by cases he; exact h⟩

@[simp] theorem upTo_nil (q : Option ℕ) : upTo q ([] : List α) = [] := by
  cases q <;> simp [upTo]

theorem upTo_append_room (h : Room q xs.length) : upTo q (xs ++ [x]) = upTo q xs ++ [x] := by
  cases q with
  | none => rfl
  | some n =>
    have hn : xs.length < n := by simpa using h
    simp only [upTo, List.take_append]
    rw [List.take_of_length_le (l := [x]) (by simp only [List.length_singleton]; omega)]

theorem upTo_append_full (h : ¬ Room q xs.length) : upTo q (xs ++ ys) = upTo q xs := by
  cases q with
  | none => simp at h
  | some n =>
    have hn : n ≤ xs.length := by simpa using h
    simp only [upTo, List.take_append]
    rw [Nat.sub_eq_zero_of_le hn, List.take_zero, List.append_nil]

theorem upTo_length (q : Option ℕ) (xs : List α) :
    (upTo q xs).length = match q with | none => xs.length | some n => min n xs.length := by
  cases q <;> simp [upTo]

def remaining (q : Option ℕ) (k : ℕ) : Option ℕ := q.map (· - k)

theorem upTo_append (q : Option ℕ) (xs ys : List α) :
    upTo q (xs ++ ys) = upTo q xs ++ upTo (remaining q (upTo q xs).length) ys := by
  cases q with
  | none => rfl
  | some n =>
    have h : n - (xs.take n).length = n - xs.length := by
      rw [List.length_take]
      omega
    simp only [upTo, remaining, Option.map_some, List.take_append, h]

end FpgaDatabase.Library.Quota
