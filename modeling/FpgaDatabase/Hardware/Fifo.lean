import FpgaDatabase.Library.RingBuffer

namespace FpgaDatabase.Hardware.Fifo

open Function Library.RingBuffer

/-- The signals of `FIFO.vhd`. The memory survives a reset. -/
structure Registers (α : Type) where
  memory : ℕ → α
  wrPtr : ℕ
  rdPtr : ℕ
  count : ℕ
  dout : α

variable {α : Type} {depth : ℕ}

namespace Registers

def reset [Zero α] (f : Registers α) : Registers α :=
  { f with wrPtr := 0, rdPtr := 0, count := 0, dout := 0 }

/-- The branch `rising_edge(clk)` of the process. All right-hand sides read the
values before the edge. -/
def clock (depth : ℕ) (wrEn rdEn : Bool) (din : α) (f : Registers α) : Registers α where
  memory := if wrEn ∧ f.count < depth then update f.memory f.wrPtr din else f.memory
  wrPtr := if wrEn ∧ f.count < depth then advance depth f.wrPtr else f.wrPtr
  rdPtr := if rdEn ∧ 0 < f.count then advance depth f.rdPtr else f.rdPtr
  count :=
    if (wrEn ∧ f.count < depth) ∧ (rdEn = false ∨ f.count = 0) then f.count + 1
    else if (rdEn ∧ 0 < f.count) ∧ (wrEn = false ∨ f.count = depth) then f.count - 1
    else f.count
  dout := if rdEn ∧ 0 < f.count then f.memory f.rdPtr else f.dout

def full (depth : ℕ) (f : Registers α) : Bool := f.count = depth

def empty (f : Registers α) : Bool := f.count = 0

structure Consistent (depth : ℕ) (f : Registers α) : Prop where
  rdPtr_lt : f.rdPtr < depth
  count_le : f.count ≤ depth
  wrPtr_eq : f.wrPtr = (f.rdPtr + f.count) % depth

theorem Consistent.wrPtr_lt {f : Registers α} (h : f.Consistent depth) : f.wrPtr < depth := by
  rw [h.wrPtr_eq]
  exact Nat.mod_lt _ (Nat.zero_lt_of_lt h.rdPtr_lt)

theorem reset_consistent [Zero α] (f : Registers α) (h : 0 < depth) :
    f.reset.Consistent depth := ⟨h, Nat.zero_le _, by simp [reset]⟩

def contents (depth : ℕ) (f : Registers α) : List α := window depth f.memory f.rdPtr f.count

@[simp] theorem contents_length (f : Registers α) : (f.contents depth).length = f.count := by
  simp [contents]

theorem write_contents {f : Registers α} (h : f.Consistent depth) (hn : f.count < depth) (x : α) :
    window depth (update f.memory f.wrPtr x) f.rdPtr (f.count + 1) = f.contents depth ++ [x] := by
  rw [h.wrPtr_eq, window_write hn, contents]

theorem read_contents {f : Registers α} (h : f.Consistent depth) {n : ℕ} (hn : f.count = n + 1) :
    f.contents depth = f.memory f.rdPtr :: window depth f.memory (advance depth f.rdPtr) n := by
  rw [contents, hn, window_succ h.rdPtr_lt]

theorem clock_count (f : Registers α) (hc : f.count ≤ depth) (wrEn rdEn : Bool) (din : α) :
    (f.clock depth wrEn rdEn din).count =
      f.count + (if wrEn ∧ f.count < depth then 1 else 0) - (if rdEn ∧ 0 < f.count then 1 else 0) := by
  cases wrEn <;> cases rdEn <;> simp only [clock] <;> split_ifs <;> simp_all
  omega

theorem clock_consistent {f : Registers α} (h : f.Consistent depth) (wrEn rdEn : Bool) (din : α) :
    (f.clock depth wrEn rdEn din).Consistent depth := by
  have hr := h.rdPtr_lt
  have hc := h.count_le
  have hcount := clock_count f hc wrEn rdEn din
  have hwr : advance depth f.wrPtr = (f.rdPtr + (f.count + 1)) % depth := by
    rw [advance_eq_mod h.wrPtr_lt, h.wrPtr_eq, Nat.mod_add_mod, Nat.add_assoc]
  have hrd (n : ℕ) : (advance depth f.rdPtr + n) % depth = (f.rdPtr + (n + 1)) % depth := by
    rw [advance_eq_mod hr, Nat.mod_add_mod, Nat.add_assoc, Nat.add_comm 1]
  refine ⟨?_, ?_, ?_⟩
  · simp only [clock]
    split_ifs
    · exact advance_lt hr
    · exact hr
  · rw [hcount]
    split_ifs <;> omega
  · rw [hcount]
    simp only [clock]
    split_ifs with h₁ h₂
    · rw [hwr, hrd, Nat.sub_add_cancel (by omega)]
    · rw [hwr, Nat.sub_zero]
    · rw [hrd, h.wrPtr_eq, Nat.sub_add_cancel (by omega), Nat.add_zero]
    · exact h.wrPtr_eq

/-- One cycle of the process is one step of a bounded queue. -/
theorem clock_contents {f : Registers α} (h : f.Consistent depth) (wrEn rdEn : Bool) (din : α) :
    (f.clock depth wrEn rdEn din).contents depth =
      (f.contents depth).drop (if rdEn ∧ 0 < f.count then 1 else 0) ++
        (if wrEn ∧ f.count < depth then [din] else []) := by
  have hc := h.count_le
  rw [contents, clock_count f hc]
  simp only [clock]
  split_ifs with h₁ h₂ h₂
  · obtain ⟨n, hn⟩ := Nat.exists_eq_succ_of_ne_zero h₂.2.ne'
    have hcons := write_contents h h₁.2 din
    rw [read_contents h hn, window_succ h.rdPtr_lt] at hcons
    rw [Nat.add_sub_cancel, read_contents h hn, List.drop_one, List.tail_cons]
    exact (List.cons.inj hcons).2
  · rw [Nat.sub_zero, write_contents h h₁.2, List.drop_zero]
  · obtain ⟨n, hn⟩ := Nat.exists_eq_succ_of_ne_zero h₂.2.ne'
    rw [read_contents h hn, hn]
    simp
  · simp [contents]

theorem clock_dout {f : Registers α} (h : f.Consistent depth) (wrEn rdEn : Bool) (din : α) :
    (f.clock depth wrEn rdEn din).dout =
      if rdEn then ((f.contents depth).head?).getD f.dout else f.dout := by
  cases hn : f.count with
  | zero => cases rdEn <;> simp [clock, contents, hn]
  | succ n => cases rdEn <;> simp [clock, read_contents h hn, hn]

end Registers

def Queue (depth : ℕ) (α : Type) := {f : Registers α // f.Consistent depth}

namespace Queue

variable (f : Queue depth α)

def contents : List α := f.val.contents depth

def dout : α := f.val.dout

def full : Bool := f.val.full depth

def empty : Bool := f.val.empty

def reset [Zero α] : Queue depth α :=
  ⟨f.val.reset, f.val.reset_consistent (Nat.zero_lt_of_lt f.property.rdPtr_lt)⟩

def clock (wrEn rdEn : Bool) (din : α) : Queue depth α :=
  ⟨f.val.clock depth wrEn rdEn din, Registers.clock_consistent f.property wrEn rdEn din⟩

def powerUp [Zero α] (h : 0 < depth) : Queue depth α :=
  ⟨⟨fun _ ↦ 0, 0, 0, 0, 0⟩, h, Nat.zero_le _, by simp⟩

theorem contents_le : f.contents.length ≤ depth := by
  rw [contents, Registers.contents_length]
  exact f.property.count_le

@[simp] theorem empty_iff : f.empty = true ↔ f.contents = [] := by
  rw [← List.length_eq_zero_iff, contents, Registers.contents_length]
  simp [empty, Registers.empty]

@[simp] theorem full_iff : f.full = true ↔ f.contents.length = depth := by
  rw [contents, Registers.contents_length]
  simp [full, Registers.full]

@[simp] theorem reset_contents [Zero α] : f.reset.contents = [] := rfl

@[simp] theorem reset_dout [Zero α] : f.reset.dout = 0 := rfl

variable (wrEn rdEn : Bool) (din : α)

theorem clock_contents : (f.clock wrEn rdEn din).contents =
    f.contents.drop (if rdEn then 1 else 0) ++
      (if wrEn ∧ f.contents.length < depth then [din] else []) := by
  have h := Registers.clock_contents f.property wrEn rdEn din
  have hl : f.contents.length = f.val.count := Registers.contents_length f.val
  rw [show (f.clock wrEn rdEn din).contents =
    (f.val.clock depth wrEn rdEn din).contents depth from rfl, h, hl]
  congr 1
  cases hn : f.val.count with
  | zero =>
    have he : f.val.contents depth = [] := by simp [Registers.contents, hn]
    rw [contents, he]
    simp
  | succ n => cases rdEn <;> simp [contents]

theorem clock_dout : (f.clock wrEn rdEn din).dout =
    if rdEn then (f.contents.head?).getD f.dout else f.dout :=
  Registers.clock_dout f.property wrEn rdEn din

end Queue

end FpgaDatabase.Hardware.Fifo
