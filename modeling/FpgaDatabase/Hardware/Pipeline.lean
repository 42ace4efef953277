import FpgaDatabase.Hardware.Fifo
import FpgaDatabase.Hardware.Stages
import Mathlib.Data.List.FinRange

namespace FpgaDatabase.Hardware.Pipeline

open Function Fifo Stages

/-- The generics of the entity that vary; `DATA_WIDTH` is 8 and `INSTRUCTION_WIDTH`
is 32, the only values the instances of `count` and `sum` fit. -/
structure Generics where
  numCols : ℕ
  fifoDepth : ℕ
  numWhere : ℕ
  fifoDepth_pos : 0 < fifoDepth

abbrev Row (g : Generics) := BitVec (8 * g.numCols)
abbrev Instruction := Word

variable {g : Generics}

/-- Column `k` of a row. A column index past the last one is a range error of the
source; it reads zeros here. -/
def column (row : Row g) (k : ℕ) : Byte := row.extractLsb' (k * 8) 8

section Decoding

variable (inst : Instruction)

def opcode : BitVec 4 := inst.extractLsb' 28 4
def whereColumn : ℕ := (inst.extractLsb' 11 6).toNat
def whereValue : Byte := inst.extractLsb' 3 8
def whereOp : BitVec 3 := inst.extractLsb' 0 3
def limitValue : Byte := inst.extractLsb' 0 8
def countColumn : ℕ := (inst.extractLsb' 0 6).toNat

def whereTest (row : Row g) : Bool :=
  opResult (whereOp inst) (whereValue inst) (column row (whereColumn inst))

end Decoding

structure Fetcher (g : Generics) where
  whereInst : Fin g.numWhere → Instruction
  whereActiveCnt : ℕ
  limitValReg : Byte
  limitActive : Bool
  countColIdx : ℕ
  countActive : Bool
  sumActive : Bool

namespace Fetcher

/-- `limit_val_reg` and `count_col_idx` are not reset. -/
def reset (f : Fetcher g) : Fetcher g :=
  { f with
    whereInst := fun _ ↦ 0, whereActiveCnt := 0, limitActive := false, countActive := false,
    sumActive := false }

def load (inst : Instruction) (f : Fetcher g) : Fetcher g :=
  if opcode inst = 0b0001#4 then
    if h : f.whereActiveCnt < g.numWhere then
      { f with
        whereInst := update f.whereInst ⟨f.whereActiveCnt, h⟩ inst
        whereActiveCnt := f.whereActiveCnt + 1 }
    else f
  else if opcode inst = 0b0010#4 then
    { f with limitValReg := limitValue inst, limitActive := true }
  else if opcode inst = 0b0011#4 then
    { f with countColIdx := countColumn inst, countActive := true }
  else if opcode inst = 0b0100#4 then
    { f with countColIdx := countColumn inst, sumActive := true }
  else f

def clock (loadInst : Bool) (inst : Instruction) (f : Fetcher g) : Fetcher g :=
  if loadInst then f.load inst else f

@[simp] theorem clock_false (f : Fetcher g) (inst : Instruction) : f.clock false inst = f := rfl

def whereValidAnd (f : Fetcher g) (whereValidOut : Fin g.numWhere → Bool) (valid : Bool) : Bool :=
  (List.finRange g.numWhere).foldl
    (fun allValid k ↦ if k.val < f.whereActiveCnt then allValid && whereValidOut k else allValid)
    valid

end Fetcher

structure Inputs (g : Generics) where
  rst : Bool := false
  din : Row g := 0
  dinValid : Bool := false
  eof : Bool := false
  instruction : Instruction := 0
  loadInst : Bool := false
  rdOutFifo : Bool := false

structure State (g : Generics) where
  fetcher : Fetcher g
  inFifo : Queue g.fifoDepth (Row g)
  whereValidOut : Fin g.numWhere → Bool
  whereStageDout : Row g
  rdEnPipe1 : Bool
  rdEnPipe2 : Bool
  stage1Done : Bool
  limit : Limit (8 * g.numCols)
  count : Word
  sum : Word
  outFifo : Queue g.fifoDepth (Row g)
  stage3Done : Bool

namespace State

def powerUp (g : Generics) : State g where
  fetcher := ⟨fun _ ↦ 0, 0, 0, false, 0, false, false⟩
  inFifo := .powerUp g.fifoDepth_pos
  whereValidOut := fun _ ↦ false
  whereStageDout := 0
  rdEnPipe1 := false
  rdEnPipe2 := false
  stage1Done := false
  limit := .reset
  count := 0
  sum := 0
  outFifo := .powerUp g.fifoDepth_pos
  stage3Done := false

def limitHit (p : State g) : Bool := p.limit.limitHit p.fetcher.limitActive

def fifoRdEn (p : State g) (i : Inputs g) : Bool :=
  !i.loadInst && !p.inFifo.empty && !p.limitHit

def whereValidAnd (p : State g) : Bool :=
  p.fetcher.whereValidAnd p.whereValidOut p.rdEnPipe2

def countValidIn (p : State g) : Bool := p.limit.validOut && !p.limit.doneOut

def outFifoWrEn (p : State g) (i : Inputs g) : Bool :=
  p.limit.validOut && !i.loadInst && !p.limit.doneOut

def countDin (p : State g) : Byte := column p.limit.dout p.fetcher.countColIdx

def reset (p : State g) : State g where
  fetcher := p.fetcher.reset
  inFifo := p.inFifo.reset
  whereValidOut := fun _ ↦ false
  whereStageDout := 0
  rdEnPipe1 := false
  rdEnPipe2 := false
  stage1Done := false
  limit := .reset
  count := 0
  sum := 0
  outFifo := p.outFifo.reset
  stage3Done := false

def clock (p : State g) (i : Inputs g) : State g where
  fetcher := p.fetcher.clock i.loadInst i.instruction
  inFifo := p.inFifo.clock i.dinValid (p.fifoRdEn i) i.din
  whereValidOut := fun k ↦ whereTest (p.fetcher.whereInst k) p.inFifo.dout
  whereStageDout := p.inFifo.dout
  rdEnPipe1 := p.fifoRdEn i
  rdEnPipe2 := p.rdEnPipe1
  stage1Done := i.eof && p.inFifo.empty
  limit := p.limit.clock p.fetcher.limitValReg p.fetcher.limitActive p.whereStageDout
    p.whereValidAnd p.stage1Done
  count := countClock p.countValidIn p.count
  sum := sumClock p.countValidIn p.countDin p.sum
  outFifo := p.outFifo.clock (p.outFifoWrEn i) i.rdOutFifo p.limit.dout
  stage3Done := if i.loadInst then false else p.limit.doneOut

/-- The registers as seen within a cycle: `rst` acts without waiting for the edge. -/
def settle (rst : Bool) (p : State g) : State g := if rst then p.reset else p

def cycle (p : State g) (i : Inputs g) : State g := if i.rst then p.reset else p.clock i

end State

end FpgaDatabase.Hardware.Pipeline
