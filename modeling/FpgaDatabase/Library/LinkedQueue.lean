import Mathlib.Data.List.Nodup
import Mathlib.Logic.Function.Basic

namespace FpgaDatabase.Library.LinkedQueue

open Function

variable {α : Type*}

/-- The header of a queue. The links between the items are kept outside of it. -/
structure Queue (α : Type*) where
  head : Option α
  tail : Option α
  len : ℕ
  deriving DecidableEq

def empty : Queue α := ⟨none, none, 0⟩

section Operations

variable [DecidableEq α] (next : α → Option α) (q : Queue α) (x : α)

def enqueue : (α → Option α) × Queue α :=
  let cleared := update next x none
  match q.head with
  | none => (cleared, ⟨some x, some x, q.len + 1⟩)
  | some first =>
    (match q.tail with
    | none => cleared
    | some last => update cleared last (some x), ⟨some first, some x, q.len + 1⟩)

def dequeue : Option α × (α → Option α) × Queue α :=
  match q.head with
  | none => (none, next, q)
  | some first =>
    (some first, update next first none,
      ⟨next first, if next first = none then none else q.tail, q.len - 1⟩)

/-- Whether `x` is met on the way from an item; `none` stands for a way that is too long. -/
def search : ℕ → Option α → Option Bool
  | _, none => some false
  | 0, some _ => none
  | fuel + 1, some y => if y = x then some true else search fuel (next y)

end Operations

section Contents

variable {next next' : α → Option α} {q q' : Queue α} {xs ys : List α} {x y : α}

def Linked (next : α → Option α) : List α → Prop
  | [] => True
  | x :: xs => next x = xs.head? ∧ Linked next xs

theorem Linked.congr (h : Linked next xs) (hsame : ∀ x ∈ xs, next' x = next x) : Linked next' xs := by
  induction xs with
  | nil => trivial
  | cons x xs ih =>
    obtain ⟨hx, hxs⟩ := List.forall_mem_cons.mp hsame
    exact ⟨hx.trans h.1, ih h.2 hxs⟩

structure Holds (next : α → Option α) (q : Queue α) (xs : List α) : Prop where
  head : q.head = xs.head?
  tail : q.tail = xs.getLast?
  len : q.len = xs.length
  linked : Linked next xs
  nodup : xs.Nodup

theorem holds_empty (next : α → Option α) : Holds next empty [] :=
  ⟨rfl, rfl, rfl, trivial, List.nodup_nil⟩

theorem Holds.congr (h : Holds next q xs) (hsame : ∀ x ∈ xs, next' x = next x) : Holds next' q xs :=
  ⟨h.head, h.tail, h.len, h.linked.congr hsame, h.nodup⟩

theorem Holds.len_eq_zero (h : Holds next q xs) : q.len = 0 ↔ xs = [] := by
  rw [h.len, List.length_eq_zero_iff]

variable [DecidableEq α]

theorem Linked.concat {last : α} (h : Linked next (xs ++ [last])) (hx : x ∉ xs ++ [last])
    (hnodup : (xs ++ [last]).Nodup) :
    Linked (update (update next x none) last (some x)) (xs ++ [last] ++ [x]) := by
  induction xs with
  | nil =>
    have hne : x ≠ last := by simpa using hx
    refine ⟨update_self _ _ _, ?_, trivial⟩
    rw [update_of_ne hne, update_self]
    rfl
  | cons y ys ih =>
    simp only [List.cons_append, List.mem_cons, not_or] at hx
    rw [List.cons_append, List.nodup_cons] at hnodup
    have hlast : y ≠ last := by
      rintro rfl
      exact hnodup.1 (by simp)
    refine ⟨?_, ih h.2 hx.2 hnodup.2⟩
    rw [update_of_ne hlast, update_of_ne (Ne.symm hx.1), h.1]
    cases ys <;> rfl

theorem Holds.enqueue (h : Holds next q xs) (hx : x ∉ xs) :
    Holds (enqueue next q x).1 (enqueue next q x).2 (xs ++ [x]) := by
  have hnodup : (xs ++ [x]).Nodup := by
    simpa [List.nodup_append] using ⟨h.nodup, fun y hy hyx ↦ hx (hyx ▸ hy)⟩
  rcases List.eq_nil_or_concat xs with rfl | ⟨front, last, rfl⟩
  · have hhead : q.head = none := h.head
    have hlen : q.len = 0 := h.len
    simp only [LinkedQueue.enqueue, hhead, hlen]
    exact ⟨rfl, rfl, rfl, ⟨update_self _ _ _, trivial⟩, hnodup⟩
  · rw [List.concat_eq_append] at h hx hnodup ⊢
    obtain ⟨first, hfirst⟩ : ∃ first, (front ++ [last]).head? = some first := by
      cases front <;> exact ⟨_, rfl⟩
    have htail : q.tail = some last := by rw [h.tail, List.getLast?_concat]
    simp only [LinkedQueue.enqueue, h.head, hfirst, htail]
    refine ⟨?_, by rw [List.getLast?_concat], ?_, h.linked.concat hx h.nodup, hnodup⟩
    · rw [List.head?_append, hfirst]
      rfl
    · simp [h.len]

theorem enqueue_next (hx : y ≠ x) (htail : q.tail ≠ some y) :
    (enqueue next q x).1 y = next y := by
  unfold LinkedQueue.enqueue
  cases q.head with
  | none => exact update_of_ne hx _ _
  | some first =>
    cases hlast : q.tail with
    | none => exact update_of_ne hx _ _
    | some last =>
      have hne : y ≠ last := fun h ↦ htail (hlast.trans (congrArg some h.symm))
      exact (update_of_ne hne _ _).trans (update_of_ne hx _ _)

theorem Holds.enqueue_other (h : Holds next q xs) (h' : Holds next q' ys) (hx : x ∉ ys)
    (hdisjoint : xs.Disjoint ys) : Holds (LinkedQueue.enqueue next q x).1 q' ys := by
  refine h'.congr fun y hy ↦ enqueue_next ?_ ?_
  · rintro rfl
    exact hx hy
  · intro htail
    rw [h.tail] at htail
    exact hdisjoint (List.mem_of_getLast? htail) hy

theorem Holds.dequeue_nil (h : Holds next q []) : dequeue next q = (none, next, q) := by
  have hhead : q.head = none := h.head
  simp only [LinkedQueue.dequeue, hhead]

/-- The first item comes out, and its link is cut. -/
theorem Holds.dequeue (h : Holds next q (x :: xs)) :
    ∃ q', dequeue next q = (some x, update next x none, q') ∧ Holds (update next x none) q' xs := by
  have hhead : q.head = some x := h.head
  have hnext : next x = xs.head? := h.linked.1
  obtain ⟨hx, hnodup⟩ := List.nodup_cons.mp h.nodup
  refine ⟨⟨next x, if next x = none then none else q.tail, q.len - 1⟩,
    by simp only [LinkedQueue.dequeue, hhead], hnext, ?_, ?_, ?_, hnodup⟩
  · cases xs with
    | nil => simp [hnext]
    | cons y ys =>
      have htail := h.tail
      rw [List.getLast?_cons_cons] at htail
      simp [hnext, htail]
  · rw [h.len]
    rfl
  · refine h.linked.2.congr fun y hy ↦ update_of_ne ?_ _ _
    rintro rfl
    exact hx hy

theorem Holds.cut (h : Holds next q xs) (hx : x ∉ xs) : Holds (update next x none) q xs := by
  refine h.congr fun y hy ↦ update_of_ne ?_ _ _
  rintro rfl
  exact hx hy

theorem search_linked (h : Linked next xs) {fuel : ℕ} (hfuel : xs.length ≤ fuel) :
    search next x fuel xs.head? = some (decide (x ∈ xs)) := by
  induction xs generalizing fuel with
  | nil => cases fuel <;> rfl
  | cons y ys ih =>
    obtain ⟨fuel, rfl⟩ : ∃ k, fuel = k + 1 := ⟨fuel - 1, by simp at hfuel; omega⟩
    have hrest := ih h.2 (Nat.le_of_succ_le_succ hfuel)
    rw [List.head?_cons, search, h.1, hrest]
    by_cases hyx : y = x
    · simp [hyx]
    · simp [hyx, Ne.symm hyx]

theorem Holds.search (h : Holds next q xs) {fuel : ℕ} (hfuel : xs.length ≤ fuel) :
    search next x fuel q.head = some (decide (x ∈ xs)) := by
  rw [h.head]
  exact search_linked h.linked hfuel

end Contents

end FpgaDatabase.Library.LinkedQueue
