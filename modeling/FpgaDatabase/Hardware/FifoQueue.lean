import FpgaDatabase.Hardware.Fifo
import FpgaDatabase.Library.BoundedQueue

namespace FpgaDatabase.Hardware.FifoQueue

open Fifo Library.BoundedQueue

variable {α : Type} {depth : ℕ}

structure Cycle (α : Type) where
  rst : Bool
  wrEn : Bool
  rdEn : Bool
  din : α

/-- The process of `FIFO.vhd`; a reset has precedence over the clock. -/
def process [Zero α] (depth : ℕ) (f : Registers α) (c : Cycle α) : Registers α :=
  if c.rst then f.reset else f.clock depth c.wrEn c.rdEn c.din

/-- The registers at power-up. `dout` has no initial value. -/
def initial [Zero α] (dout : α) : Registers α := ⟨fun _ ↦ 0, 0, 0, 0, dout⟩

def queueCycle [Zero α] (depth : ℕ) (q : Queue α) (c : Cycle α) : Queue α :=
  if c.rst then ⟨[], 0⟩ else q.step depth c.wrEn c.rdEn c.din

structure Simulates (depth : ℕ) (f : Registers α) (q : Queue α) : Prop where
  consistent : f.Consistent depth
  contents : q.contents = f.contents depth
  out : q.out = f.dout

namespace Simulates

variable {f : Registers α} {q : Queue α}

theorem count (h : Simulates depth f q) : q.contents.length = f.count := by
  rw [h.contents, Registers.contents_length]

theorem accepts_iff (h : Simulates depth f q) (wrEn : Bool) :
    q.accepts depth wrEn = true ↔ wrEn = true ∧ f.count < depth := by
  simp [Queue.accepts, h.count]

theorem yields_iff (h : Simulates depth f q) (rdEn : Bool) :
    q.yields rdEn = true ↔ rdEn = true ∧ 0 < f.count := by
  simp [Queue.yields, h.count]

theorem clock (h : Simulates depth f q) (wrEn rdEn : Bool) (din : α) :
    Simulates depth (f.clock depth wrEn rdEn din) (q.step depth wrEn rdEn din) := by
  refine ⟨Registers.clock_consistent h.consistent wrEn rdEn din, ?_, ?_⟩
  · rw [Registers.clock_contents h.consistent, ← h.contents]
    simp only [Queue.step, h.accepts_iff, h.yields_iff]
  · have hread := Registers.clock_dout h.consistent wrEn rdEn din
    rw [← h.contents, ← h.out] at hread
    rw [hread]
    cases hq : q.contents <;> cases rdEn <;> simp [Queue.step, Queue.yields, hq]

theorem process [Zero α] (h : Simulates depth f q) (c : Cycle α) :
    Simulates depth (process depth f c) (queueCycle depth q c) := by
  rw [FifoQueue.process, queueCycle]
  split_ifs
  · exact ⟨f.reset_consistent (Nat.zero_lt_of_lt h.consistent.rdPtr_lt), rfl, rfl⟩
  · exact h.clock c.wrEn c.rdEn c.din

end Simulates

theorem simulates_initial [Zero α] (hd : 0 < depth) (dout : α) :
    Simulates depth (initial dout) ⟨[], dout⟩ :=
  ⟨⟨hd, Nat.zero_le _, (Nat.zero_mod _).symm⟩, rfl, rfl⟩

/-- Through any sequence of cycles `FIFO.vhd` is a bounded queue: the window of `count`
words from `rd_ptr` on is its contents, and both accept and yield in the same cycles. -/
theorem fifo_simulates_queue [Zero α] (hd : 0 < depth) (dout : α) (cycles : List (Cycle α)) :
    let f := cycles.foldl (process depth) (initial dout)
    let q := cycles.foldl (queueCycle depth) ⟨[], dout⟩
    Simulates depth f q ∧
      (∀ wrEn, q.accepts depth wrEn = true ↔ wrEn = true ∧ f.count < depth) ∧
      (∀ rdEn, q.yields rdEn = true ↔ rdEn = true ∧ 0 < f.count) ∧
      (f.full depth = true ↔ q.contents.length = depth) ∧
      (f.empty = true ↔ q.contents = []) := by
  intro f q
  have h : Simulates depth f q :=
    List.foldl_rel (simulates_initial hd dout) fun c _ _ _ hc ↦ hc.process c
  refine ⟨h, h.accepts_iff, h.yields_iff, ?_, ?_⟩
  · rw [h.count, Registers.full, decide_eq_true_eq]
  · rw [← List.length_eq_zero_iff, h.count, Registers.empty, decide_eq_true_eq]

theorem one_place :
    let cycles : List (Cycle ℕ) := [⟨false, true, false, 5⟩, ⟨false, true, true, 7⟩]
    let f := cycles.foldl (process 1) (initial 0)
    f.dout = 5 ∧ f.empty = true := by
  intro cycles f
  obtain ⟨h, -, -, -, hempty⟩ := fifo_simulates_queue (by decide : 0 < 1) 0 cycles
  exact ⟨h.out.symm, hempty.mpr rfl⟩

end FpgaDatabase.Hardware.FifoQueue
