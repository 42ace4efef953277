import Mathlib.Data.BitVec

namespace FpgaDatabase.Hardware.Stages

abbrev Byte := BitVec 8
abbrev Word := BitVec 32

/-- The combinational part of `whereFilter.vhd`. Comparisons are unsigned and the
two unused operation codes never match. -/
def opResult (op : BitVec 3) (value din : Byte) : Bool :=
  if op = 0b000#3 then din = value
  else if op = 0b001#3 then din ≠ value
  else if op = 0b010#3 then din < value
  else if op = 0b011#3 then din ≤ value
  else if op = 0b100#3 then value < din
  else if op = 0b101#3 then value ≤ din
  else false

structure Limit (w : ℕ) where
  countValue : Byte
  internalHit : Bool
  dout : BitVec w
  validOut : Bool
  doneOut : Bool

namespace Limit

variable {w : ℕ}

def reset : Limit w := ⟨0, false, 0, false, false⟩

def clock (limitValue : Byte) (active : Bool) (din : BitVec w) (validIn doneIn : Bool)
    (l : Limit w) : Limit w :=
  if active = false then
    { l with dout := din, validOut := validIn, internalHit := false, doneOut := doneIn }
  else if validIn ∧ l.internalHit = false ∧ doneIn = false then
    { countValue := l.countValue + 1
      dout := din
      validOut := true
      internalHit := if limitValue ≤ l.countValue + 1 then true else l.internalHit
      doneOut := doneIn }
  else { l with dout := din, validOut := false, doneOut := doneIn || l.internalHit }

def limitHit (active : Bool) (l : Limit w) : Bool := if active then l.internalHit else false

variable (l : Limit w) (limitValue : Byte) (active validIn doneIn : Bool) (din : BitVec w)

@[simp] theorem clock_dout : (l.clock limitValue active din validIn doneIn).dout = din := by
  unfold clock
  split_ifs <;> rfl

/-- A row leaves the stage exactly when it is valid and neither the limit nor, for
an active limit, the end-of-data token came first. -/
theorem clock_validOut : (l.clock limitValue active din validIn doneIn).validOut =
    (validIn && !(l.limitHit active) && !(active && doneIn)) := by
  unfold clock limitHit
  cases active <;> cases validIn <;> cases doneIn <;> cases l.internalHit <;> rfl

theorem clock_doneOut : (l.clock limitValue active din validIn doneIn).doneOut =
    (doneIn || l.limitHit active) := by
  unfold clock limitHit
  cases active <;> cases validIn <;> cases doneIn <;> cases l.internalHit <;> simp

theorem clock_countValue :
    (l.clock limitValue active din validIn doneIn).countValue =
      if active ∧ validIn ∧ l.internalHit = false ∧ doneIn = false then l.countValue + 1
      else l.countValue := by
  unfold clock
  cases active <;> cases validIn <;> cases doneIn <;> cases l.internalHit <;> simp

theorem clock_limitHit : (l.clock limitValue active din validIn doneIn).limitHit active =
    (l.limitHit active ||
      (active && validIn && !doneIn && decide (limitValue ≤ l.countValue + 1))) := by
  unfold clock limitHit
  cases active <;> cases validIn <;> cases doneIn <;> cases l.internalHit <;> simp

end Limit

/-- `count.vhd`: the column value is not read. -/
def countClock (valid : Bool) (countValue : Word) : Word :=
  if valid then countValue + 1 else countValue

/-- `sum.vhd`: the subtraction has the eight bits of the column. -/
def sumClock (valid : Bool) (din : Byte) (sumValue : Word) : Word :=
  if valid then sumValue + (din - 48).setWidth 32 else sumValue

end FpgaDatabase.Hardware.Stages
