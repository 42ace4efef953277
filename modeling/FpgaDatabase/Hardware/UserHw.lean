import FpgaDatabase.Hardware.Pipeline

namespace FpgaDatabase.Hardware.UserHw

open Function Fifo Stages Pipeline

abbrev generics : Generics := ⟨4, 128, 4, by decide⟩

structure Bus where
  reset : Bool := false
  address : BitVec 7 := 0
  read : Bool := false
  write : Bool := false
  writedata : Word := 0
  byteenable : BitVec 4 := 0xF

def addrControl : BitVec 7 := 0
def addrDataIn : BitVec 7 := 1
def addrInstruction : BitVec 7 := 2
def addrStatus : BitVec 7 := 3
def addrDataOut : BitVec 7 := 4
def addrAccumulator : BitVec 7 := 5
def addrSum : BitVec 7 := 6

def mergeBytes (byteenable : BitVec 4) (old new : Word) : Word :=
  let lane (k : ℕ) : Byte :=
    if byteenable.getLsbD k then new.extractLsb' (k * 8) 8 else old.extractLsb' (k * 8) 8
  lane 3 ++ lane 2 ++ lane 1 ++ lane 0

structure State where
  readPrev : Bool
  writePrev : Bool
  dataInReg : Word
  instReg : Word
  dinValidCtrl : Bool
  loadInst : Bool
  rdOutFifo : Bool
  swRst : Bool
  eofCtrl : Bool
  pipeline : Pipeline.State generics

namespace State

variable (s : State) (b : Bus)

def inputs : Inputs generics where
  rst := s.swRst
  din := s.dataInReg
  dinValid := s.dinValidCtrl
  eof := s.eofCtrl
  instruction := s.instReg
  loadInst := s.loadInst
  rdOutFifo := s.rdOutFifo

def powerUp : State :=
  ⟨false, false, 0, 0, false, false, false, false, false, .powerUp generics⟩

/-- The branch `reset` of the processes. -/
def clear : State :=
  ⟨false, false, 0, 0, false, false, false, false, false, s.pipeline.reset⟩

def writePulse : Bool := b.write && !s.writePrev

def clock : State :=
  let control := s.writePulse b && b.address == addrControl
  { readPrev := b.read
    writePrev := b.write
    dataInReg := if s.writePulse b ∧ b.address = addrDataIn then
      mergeBytes b.byteenable s.dataInReg b.writedata else s.dataInReg
    instReg := if s.writePulse b ∧ b.address = addrInstruction then
      mergeBytes b.byteenable s.instReg b.writedata else s.instReg
    dinValidCtrl := control && b.writedata.getLsbD 0
    loadInst := control && b.writedata.getLsbD 1
    rdOutFifo := control && b.writedata.getLsbD 2
    swRst := control && b.writedata.getLsbD 3
    eofCtrl :=
      if control then
        if b.writedata.getLsbD 3 then false
        else if b.writedata.getLsbD 4 then true
        else s.eofCtrl
      else s.eofCtrl
    pipeline := s.pipeline.cycle s.inputs }

def cycle : State := if b.reset then s.clear else s.clock b

end State

def statusWord (p : Pipeline.State generics) : Word :=
  BitVec.ofNat 32 (p.outFifo.full.toNat + 2 * p.outFifo.empty.toNat + 4 * p.stage3Done.toNat +
    8 * p.inFifo.empty.toNat + 16 * p.inFifo.full.toNat)

def readdata (s : State) (b : Bus) : Word :=
  let p := s.pipeline.settle (b.reset || s.swRst)
  if b.read then
    if b.address = addrStatus then statusWord p
    else if b.address = addrDataOut then p.outFifo.dout
    else if b.address = addrAccumulator then p.count
    else if b.address = addrSum then p.sum
    else 0
  else 0

/-- What the processor asks of the bus. Offsets are in bytes, as in `IOWR_32DIRECT`
and `IORD_32DIRECT`; `delay` is time spent away from the bus. -/
inductive BusOp
  | write (offset : ℕ) (data : Word)
  | read (offset : ℕ)
  | delay

/-- The freedom the bus has in carrying out one operation: how much longer than two
cycles a read lasts, and how many idle cycles follow beyond the required ones. -/
structure Timing where
  hold : ℕ
  gap : ℕ

def writeBus (offset : ℕ) (data : Word) : Bus :=
  { address := BitVec.ofNat 7 (offset / 4), write := true, writedata := data }

def readBus (offset : ℕ) : Bus := { address := BitVec.ofNat 7 (offset / 4), read := true }

def idleCycles (n : ℕ) (s : State) : State := (fun s ↦ s.cycle {})^[n] s

/-- A write is seen for one cycle and followed by at least one idle cycle. A read
lasts at least two cycles and its value is taken in the last of them. -/
def exec (s : State) (t : Timing) : BusOp → State × Word
  | .write offset data => (idleCycles (t.gap + 1) (s.cycle (writeBus offset data)), 0)
  | .read offset =>
    let s' := (fun s ↦ s.cycle (readBus offset))^[t.hold + 1] s
    (idleCycles t.gap (s'.cycle (readBus offset)), readdata s' (readBus offset))
  | .delay => (idleCycles t.gap s, 0)

def execAll (s : State) (timing : ℕ → Timing) : List BusOp → State × List Word
  | [] => (s, [])
  | op :: ops =>
    let r := exec s (timing 0) op
    let r' := execAll r.1 (fun k ↦ timing (k + 1)) ops
    (r'.1, r.2 :: r'.2)

/-- Between two operations the control pulses are over and the edge detector is armed. -/
structure AtRest (s : State) : Prop where
  writePrev : s.writePrev = false
  dinValidCtrl : s.dinValidCtrl = false
  loadInst : s.loadInst = false
  rdOutFifo : s.rdOutFifo = false
  swRst : s.swRst = false

def quiet (eof : Bool) : Inputs generics := { eof }

theorem clock_quiet (p : Pipeline.State generics) (i : Inputs generics)
    (h₁ : i.dinValid = false) (h₂ : i.loadInst = false) (h₃ : i.rdOutFifo = false) :
    p.clock i = p.clock (quiet i.eof) := by
  have hq : ∀ (f : Queue generics.fifoDepth (Row generics)) (rd : Bool) (x y : Row generics),
      f.clock false rd x = f.clock false rd y := by
    intro f rd x y
    apply Subtype.ext
    simp [Queue.clock, Registers.clock]
  have hr : p.fifoRdEn i = p.fifoRdEn (quiet i.eof) := by simp [Pipeline.State.fifoRdEn, h₂, quiet]
  have hw : p.outFifoWrEn i = p.outFifoWrEn (quiet i.eof) := by
    simp [Pipeline.State.outFifoWrEn, h₂, quiet]
  simp only [Pipeline.State.clock, hr, hw, h₁, h₂, h₃]
  simp only [quiet, Fetcher.clock_false]
  rw [hq _ _ i.din 0]
  rfl

def quietly (eof : Bool) (n : ℕ) (p : Pipeline.State generics) : Pipeline.State generics :=
  (fun p ↦ p.clock (quiet eof))^[n] p

@[simp] theorem quietly_zero (eof : Bool) (p : Pipeline.State generics) :
    quietly eof 0 p = p := rfl

theorem quietly_succ (eof : Bool) (n : ℕ) (p : Pipeline.State generics) :
    quietly eof (n + 1) p = (quietly eof n p).clock (quiet eof) := iterate_succ_apply' _ n p

theorem quietly_add (eof : Bool) (m n : ℕ) (p : Pipeline.State generics) :
    quietly eof (m + n) p = quietly eof m (quietly eof n p) := iterate_add_apply _ m n p

variable {s : State} {b : Bus}

/-- Two states that agree up to their pipelines, the second one `n` quiet cycles later. -/
structure Waits (n : ℕ) (s t : State) : Prop where
  atRest : AtRest t
  dataInReg : t.dataInReg = s.dataInReg
  instReg : t.instReg = s.instReg
  eofCtrl : t.eofCtrl = s.eofCtrl
  pipeline : t.pipeline = quietly s.eofCtrl n s.pipeline

theorem Waits.refl (h : AtRest s) : Waits 0 s s := ⟨h, rfl, rfl, rfl, rfl⟩

theorem Waits.trans {m n : ℕ} {t u : State} (h : Waits m s t) (h' : Waits n t u) :
    Waits (n + m) s u := by
  refine ⟨h'.atRest, h'.dataInReg.trans h.dataInReg, h'.instReg.trans h.instReg,
    h'.eofCtrl.trans h.eofCtrl, ?_⟩
  rw [h'.pipeline, h.pipeline, h.eofCtrl, quietly_add]

theorem AtRest.pipeline_clock (h : AtRest s) :
    s.pipeline.cycle s.inputs = quietly s.eofCtrl 1 s.pipeline := by
  have hc : s.pipeline.cycle s.inputs = s.pipeline.clock s.inputs := by
    simp [Pipeline.State.cycle, State.inputs, h.swRst]
  rw [hc, clock_quiet _ _ h.dinValidCtrl h.loadInst h.rdOutFifo]
  rfl

/-- A cycle without a write ends every pulse and keeps every other register. -/
theorem cycle_released (s : State) (hr : b.reset = false) (hw : b.write = false) :
    AtRest (s.cycle b) ∧ (s.cycle b).dataInReg = s.dataInReg ∧
      (s.cycle b).instReg = s.instReg ∧ (s.cycle b).eofCtrl = s.eofCtrl ∧
      (s.cycle b).pipeline = s.pipeline.cycle s.inputs := by
  have hp : s.writePulse b = false := by simp [State.writePulse, hw]
  have hc : s.cycle b = s.clock b := by simp [State.cycle, hr]
  rw [hc]
  refine ⟨⟨hw, ?_, ?_, ?_, ?_⟩, ?_, ?_, ?_, rfl⟩ <;> simp [State.clock, hp]

theorem waits_one (h : AtRest s) (hr : b.reset = false) (hw : b.write = false) :
    Waits 1 s (s.cycle b) := by
  obtain ⟨h₁, h₂, h₃, h₄, h₅⟩ := cycle_released s hr hw
  exact ⟨h₁, h₂, h₃, h₄, h₅.trans h.pipeline_clock⟩

theorem waits_iterate (h : AtRest s) (hr : b.reset = false) (hw : b.write = false) (n : ℕ) :
    Waits n s ((fun s ↦ s.cycle b)^[n] s) := by
  induction n with
  | zero => exact .refl h
  | succ n ih =>
    rw [iterate_succ_apply', Nat.add_comm]
    exact ih.trans (waits_one ih.atRest hr hw)

theorem waits_idle (h : AtRest s) (n : ℕ) : Waits n s (idleCycles n s) :=
  waits_iterate h rfl rfl n

theorem exec_delay (h : AtRest s) (t : Timing) : Waits t.gap s (exec s t .delay).1 :=
  waits_idle h t.gap

/-- A read changes nothing but time; its value is sampled after `hold + 1` cycles. -/
theorem exec_read (h : AtRest s) (t : Timing) (offset : ℕ) :
    Waits (t.hold + 2 + t.gap) s (exec s t (.read offset)).1 ∧
      ∃ s', Waits (t.hold + 1) s s' ∧
        (exec s t (.read offset)).2 = readdata s' (readBus offset) := by
  have h₁ := waits_iterate (b := readBus offset) h rfl rfl (t.hold + 1)
  have h₂ := waits_one (b := readBus offset) h₁.atRest rfl rfl
  have h₃ := waits_idle h₂.atRest t.gap
  refine ⟨?_, _, h₁, rfl⟩
  have h₄ := (h₁.trans h₂).trans h₃
  rwa [show t.gap + (1 + (t.hold + 1)) = t.hold + 2 + t.gap by omega] at h₄

theorem mergeBytes_all (old new : Word) : mergeBytes 0xF old new = new := by
  have he : mergeBytes 0xF old new = new.extractLsb' 24 8 ++ new.extractLsb' 16 8 ++
      new.extractLsb' 8 8 ++ new.extractLsb' 0 8 := rfl
  rw [he]
  apply BitVec.eq_of_toNat_eq
  simp only [BitVec.toNat_append, BitVec.extractLsb'_toNat]
  rw [← Nat.shiftLeft_add_eq_or_of_lt (by omega), ← Nat.shiftLeft_add_eq_or_of_lt (by omega),
    ← Nat.shiftLeft_add_eq_or_of_lt (by omega)]
  simp only [Nat.shiftLeft_eq, Nat.shiftRight_eq_div_pow]
  omega

def pulse (s : State) (w : Word) (eof : Bool) : Inputs generics where
  rst := w.getLsbD 3
  din := s.dataInReg
  dinValid := w.getLsbD 0
  eof := eof
  instruction := s.instReg
  loadInst := w.getLsbD 1
  rdOutFifo := w.getLsbD 2

def eofAfter (s : State) (w : Word) : Bool :=
  if w.getLsbD 3 then false else if w.getLsbD 4 then true else s.eofCtrl

theorem writePulse_of_rest (h : AtRest s) (offset : ℕ) (w : Word) :
    s.writePulse (writeBus offset w) = true := by
  simp [State.writePulse, writeBus, h.writePrev]

theorem exec_write_eq (s : State) (t : Timing) (offset : ℕ) (w : Word) :
    (exec s t (.write offset w)).1 = idleCycles t.gap ((s.cycle (writeBus offset w)).cycle {}) :=
  rfl

theorem exec_control (h : AtRest s) (t : Timing) (w : Word) :
    AtRest (exec s t (.write 0 w)).1 ∧
    (exec s t (.write 0 w)).1.dataInReg = s.dataInReg ∧
    (exec s t (.write 0 w)).1.instReg = s.instReg ∧
    (exec s t (.write 0 w)).1.eofCtrl = eofAfter s w ∧
    (exec s t (.write 0 w)).1.pipeline = quietly (eofAfter s w) t.gap
      ((quietly s.eofCtrl 1 s.pipeline).cycle (pulse s w (eofAfter s w))) := by
  have hp := writePulse_of_rest h 0 w
  have hc : ((writeBus 0 w).address == addrControl) = true := rfl
  have hd : (writeBus 0 w).address ≠ addrDataIn := by simp [writeBus, addrDataIn]
  have hi : (writeBus 0 w).address ≠ addrInstruction := by simp [writeBus, addrInstruction]
  have hin : (s.cycle (writeBus 0 w)).inputs = pulse s w (eofAfter s w) := by
    change (s.clock (writeBus 0 w)).inputs = _
    simp only [State.inputs, State.clock, hp, hc, hd, hi, Bool.and_self, Bool.true_and, if_true,
      and_false, if_false]
    rfl
  obtain ⟨h₁, h₂, h₃, h₄, h₅⟩ := cycle_released (b := {}) (s.cycle (writeBus 0 w)) rfl rfl
  have hw := waits_idle h₁ t.gap
  have heof : (s.cycle (writeBus 0 w)).eofCtrl = eofAfter s w := congrArg Inputs.eof hin
  rw [exec_write_eq]
  refine ⟨hw.atRest, ?_, ?_, ?_, ?_⟩
  · rw [hw.dataInReg, h₂]
    exact congrArg Inputs.din hin
  · rw [hw.instReg, h₃]
    exact congrArg Inputs.instruction hin
  · rw [hw.eofCtrl, h₄, heof]
  · rw [hw.pipeline, h₄, heof, h₅, hin]
    exact congrArg (fun p ↦ quietly _ _ (Pipeline.State.cycle p _)) h.pipeline_clock

theorem exec_write (h : AtRest s) (t : Timing) (offset : ℕ) (w : Word)
    (ho : BitVec.ofNat 7 (offset / 4) ≠ addrControl) :
    AtRest (exec s t (.write offset w)).1 ∧
    (exec s t (.write offset w)).1.dataInReg =
      (if BitVec.ofNat 7 (offset / 4) = addrDataIn then w else s.dataInReg) ∧
    (exec s t (.write offset w)).1.instReg =
      (if BitVec.ofNat 7 (offset / 4) = addrInstruction then w else s.instReg) ∧
    (exec s t (.write offset w)).1.eofCtrl = s.eofCtrl ∧
    (exec s t (.write offset w)).1.pipeline = quietly s.eofCtrl (t.gap + 2) s.pipeline := by
  have hp := writePulse_of_rest h offset w
  have hc : ((writeBus offset w).address == addrControl) = false := by
    simpa [writeBus] using ho
  have hin : (s.cycle (writeBus offset w)).dinValidCtrl = false ∧
      (s.cycle (writeBus offset w)).loadInst = false ∧
      (s.cycle (writeBus offset w)).rdOutFifo = false ∧
      (s.cycle (writeBus offset w)).swRst = false ∧
      (s.cycle (writeBus offset w)).eofCtrl = s.eofCtrl := by
    change (s.clock _).dinValidCtrl = _ ∧ (s.clock _).loadInst = _ ∧ (s.clock _).rdOutFifo = _ ∧
      (s.clock _).swRst = _ ∧ (s.clock _).eofCtrl = _
    simp [State.clock, hp, hc]
  obtain ⟨i₁, i₂, i₃, i₄, i₅⟩ := hin
  obtain ⟨h₁, h₂, h₃, h₄, h₅⟩ := cycle_released (b := {}) (s.cycle (writeBus offset w)) rfl rfl
  have hw := waits_idle h₁ t.gap
  have hm (old : Word) : mergeBytes (writeBus offset w).byteenable old
      (writeBus offset w).writedata = w := mergeBytes_all old w
  rw [exec_write_eq]
  refine ⟨hw.atRest, ?_, ?_, ?_, ?_⟩
  · rw [hw.dataInReg, h₂]
    change (s.clock (writeBus offset w)).dataInReg = _
    simp only [State.clock, hp, true_and, hm]
    rfl
  · rw [hw.instReg, h₃]
    change (s.clock (writeBus offset w)).instReg = _
    simp only [State.clock, hp, true_and, hm]
    rfl
  · rw [hw.eofCtrl, h₄, i₅]
  · have hq : (s.cycle (writeBus offset w)).pipeline.cycle (s.cycle (writeBus offset w)).inputs =
        quietly s.eofCtrl 1 (s.cycle (writeBus offset w)).pipeline := by
      rw [Pipeline.State.cycle, show (s.cycle (writeBus offset w)).inputs.rst = false from i₄,
        if_neg Bool.false_ne_true, clock_quiet _ _ i₁ i₂ i₃,
        show (s.cycle (writeBus offset w)).inputs.eof = s.eofCtrl from i₅]
      rfl
    have hpl : (s.cycle (writeBus offset w)).pipeline = quietly s.eofCtrl 1 s.pipeline :=
      h.pipeline_clock
    rw [hw.pipeline, h₄, i₅, h₅, hq, hpl, ← quietly_add, ← quietly_add]

end FpgaDatabase.Hardware.UserHw
