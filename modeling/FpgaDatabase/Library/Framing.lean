import Mathlib.Data.List.Basic

namespace FpgaDatabase.Library.Framing

variable {α : Type} [DecidableEq α] {idle : α} {n m : ℕ} {line frame : List α}

/-- A receiver of frames of a fixed length: it waits for a symbol that is not the idle one
and shifts in a frame from there on. -/
structure Receiver (α : Type) where
  frames : List (List α)
  shift : List α

def Receiver.step (idle : α) (n : ℕ) (r : Receiver α) (a : α) : Receiver α :=
  if r.shift = [] ∧ a = idle then r
  else if (r.shift ++ [a]).length = n then ⟨r.frames ++ [r.shift ++ [a]], []⟩
  else ⟨r.frames, r.shift ++ [a]⟩

def received (idle : α) (n : ℕ) (line : List α) : Receiver α :=
  line.foldl (Receiver.step idle n) ⟨[], []⟩

theorem received_idle (h : (received idle n line).shift = []) (m : ℕ) :
    received idle n (line ++ List.replicate m idle) = received idle n line := by
  rw [received, List.foldl_append, ← received]
  generalize received idle n line = r at h
  induction m with
  | zero => rfl
  | succ m ih =>
    rw [List.replicate_succ, List.foldl_cons, Receiver.step, if_pos ⟨h, rfl⟩, ih]

theorem shift_rest {frames : List (List α)} {taken rest : List α} (htaken : taken ≠ [])
    (hrest : rest ≠ []) (hlen : (taken ++ rest).length = n) :
    rest.foldl (Receiver.step idle n) ⟨frames, taken⟩ = ⟨frames ++ [taken ++ rest], []⟩ := by
  induction rest generalizing taken with
  | nil => exact absurd rfl hrest
  | cons a rest ih =>
    rw [List.foldl_cons, Receiver.step, if_neg (fun h ↦ htaken h.1)]
    simp only
    cases rest with
    | nil => rw [if_pos hlen, List.foldl_nil]
    | cons a' rest =>
      have hshort : (taken ++ [a]).length ≠ n := by
        simp only [List.length_append, List.length_cons, List.length_nil] at hlen ⊢
        omega
      rw [if_neg hshort, ih (by simp) (by simp) (by rw [← hlen]; simp)]
      simp

theorem received_frame (h : (received idle n line).shift = []) (hlen : frame.length = n)
    (hn : 1 < n) (hhead : frame.head? ≠ some idle) :
    received idle n (line ++ frame) = ⟨(received idle n line).frames ++ [frame], []⟩ := by
  rw [received, List.foldl_append, ← received]
  generalize received idle n line = r at h
  obtain ⟨frames, shift⟩ := r
  obtain rfl : shift = [] := h
  obtain ⟨a, rest, rfl⟩ := List.exists_cons_of_ne_nil (show frame ≠ [] by
    rintro rfl
    simp only [List.length_nil] at hlen
    omega)
  have hne : a ≠ idle := fun ha ↦ hhead (congrArg some ha)
  have hshort : ([] ++ [a] : List α).length ≠ n := by
    simp only [List.nil_append, List.length_cons, List.length_nil]
    omega
  rw [List.foldl_cons, Receiver.step, if_neg (fun h ↦ hne h.2)]
  simp only
  rw [if_neg hshort]
  refine shift_rest (by simp) ?_ hlen
  rintro rfl
  simp only [List.length_cons, List.length_nil] at hlen
  omega

end FpgaDatabase.Library.Framing
