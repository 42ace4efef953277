import Mathlib.Data.List.Basic
import Mathlib.Logic.Function.Basic
import Mathlib.Data.Int.ModEq

namespace FpgaDatabase.Library.RingBuffer

open Function

variable {α : Type*} {d r n : ℕ} {m : ℕ → α} {x : α}

/-- The `n` cells of a circular memory of `d` cells from position `r` on. -/
def window (d : ℕ) (m : ℕ → α) (r n : ℕ) : List α :=
  (List.range n).map (fun i ↦ m ((r + i) % d))

def advance (d r : ℕ) : ℕ := if r = d - 1 then 0 else r + 1

@[simp] theorem window_length (d : ℕ) (m : ℕ → α) (r n : ℕ) : (window d m r n).length = n := by
  simp [window]

@[simp] theorem window_zero (d : ℕ) (m : ℕ → α) (r : ℕ) : window d m r 0 = [] := rfl

theorem advance_lt (hr : r < d) : advance d r < d := by
  unfold advance
  split <;> omega

theorem advance_eq_mod (hr : r < d) : advance d r = (r + 1) % d := by
  unfold advance
  split_ifs with h
  · rw [show r + 1 = d by omega, Nat.mod_self]
  · rw [Nat.mod_eq_of_lt (by omega)]

theorem window_succ (hr : r < d) :
    window d m r (n + 1) = m r :: window d m (advance d r) n := by
  rw [window, List.range_succ_eq_map, List.map_cons, List.map_map, Nat.add_zero,
    Nat.mod_eq_of_lt hr]
  refine congrArg _ (List.map_congr_left fun i _ ↦ ?_)
  simp only [comp_apply, Nat.succ_eq_add_one]
  rw [advance_eq_mod hr, Nat.mod_add_mod, Nat.add_right_comm, Nat.add_assoc]

theorem window_append : window d m r (n + 1) = window d m r n ++ [m ((r + n) % d)] := by
  simp [window, List.range_succ]

/-- Writing the cell behind a window that does not fill the memory leaves the
window alone. -/
theorem window_update (hn : n < d) : window d (update m ((r + n) % d) x) r n = window d m r n := by
  refine List.map_congr_left fun i hi ↦ update_of_ne ?_ _ _
  have hi : i < n := List.mem_range.mp hi
  intro he
  have hmod : (n - i) % d = 0 := by
    have h := (Nat.modEq_iff_dvd' (show r + i ≤ r + n by omega)).mp he
    rw [show r + n - (r + i) = n - i by omega] at h
    exact Nat.mod_eq_zero_of_dvd h
  rw [Nat.mod_eq_of_lt (by omega)] at hmod
  omega

theorem window_write (hn : n < d) :
    window d (update m ((r + n) % d) x) r (n + 1) = window d m r n ++ [x] := by
  rw [window_append, window_update hn, update_self]

end FpgaDatabase.Library.RingBuffer
