import FpgaDatabase.Firmware.Driver
import FpgaDatabase.Hardware.Isolation

namespace FpgaDatabase.Firmware.Isolation

open Hardware Hardware.Stages Hardware.UserHw Hardware.Isolation Driver

inductive Reachable : State → Prop
  | powerUp : Reachable .powerUp
  | reset {s : State} : Reachable s → Reachable s.clear
  | exec {s : State} (t : Timing) (op : BusOp) : Reachable s → Reachable (exec s t op).1

inductive DriverOp
  | sendInstruction (instruction : Word)
  | writeWord (word : Word)
  | readStatus
  | readDataOut
  | readAccumulator
  | readSum
  | signalEof
  | delay
  deriving DecidableEq

def DriverOp.bus : DriverOp → List BusOp
  | .sendInstruction instruction => hwSendInstruction instruction
  | .writeWord word => hwWriteWord word
  | .readStatus => hwReadStatus
  | .readDataOut => hwReadDataOut
  | .readAccumulator => [.read accumulatorOffset]
  | .readSum => [.read sumOffset]
  | .signalEof => hwSignalEof
  | .delay => [.delay]

def query (ops : List DriverOp) : List BusOp := hwClear ++ ops.flatMap DriverOp.bus

/-- A COUNT or SUM instruction is sent before the first data word. -/
def AggregateFirst (ops : List DriverOp) : Prop :=
  ∃ before instruction after, ops = before ++ .sendInstruction instruction :: after ∧
    (Pipeline.opcode instruction = 0b0011#4 ∨ Pipeline.opcode instruction = 0b0100#4) ∧
    ∀ word, .writeWord word ∉ before

theorem Reachable.atRest {s : State} (h : Reachable s) : AtRest s := by
  induction h with
  | powerUp => exact ⟨rfl, rfl, rfl, rfl, rfl⟩
  | reset _ _ => exact ⟨rfl, rfl, rfl, rfl, rfl⟩
  | exec t op _ ih =>
    cases op with
    | write offset data =>
      rw [exec_write_eq]
      exact (waits_idle (cycle_released _ rfl rfl).1 t.gap).atRest
    | read offset => exact (exec_read ih t offset).1.atRest
    | delay => exact (exec_delay ih t).atRest

abbrev Registers := Pipeline.State generics

/-- A relation between two runs that every pair of cycles keeps, with data words only
where `data` allows them, and that makes the readings agree, of sums where `sums` asks
for it. -/
structure Coupling (data : Bool) (sums : Prop)
    (R : Registers → Registers → Prop) : Prop where
  clock {p q : Registers} {i j : Pipeline.Inputs generics} : R p q → Driven i j →
    (i.dinValid = true → data = true) → R (p.clock i) (q.clock j)
  status {p q : Registers} : R p q → Alike p q
  sum {p q : Registers} : R p q → sums → p.sum = q.sum

structure Paired (R : Registers → Registers → Prop)
    (s t : State) : Prop where
  left : AtRest s
  right : AtRest t
  eofCtrl : s.eofCtrl = t.eofCtrl
  pipeline : R s.pipeline t.pipeline

namespace Coupling

variable {data : Bool} {sums : Prop}
  {R : Registers → Registers → Prop} {s t : State}

theorem quietly (c : Coupling data sums R) {p q : Registers} (h : R p q)
    (eof : Bool) (n : ℕ) : R (quietly eof n p) (quietly eof n q) := by
  induction n with
  | zero => exact h
  | succ n ih =>
    rw [quietly_succ, quietly_succ]
    exact c.clock ih (.refl _) (fun hv ↦ absurd hv Bool.false_ne_true)

theorem waits (c : Coupling data sums R) (h : Paired R s t) {n : ℕ} {s' t' : State}
    (hs : Waits n s s') (ht : Waits n t t') : Paired R s' t' := by
  refine ⟨hs.atRest, ht.atRest, ?_, ?_⟩
  · rw [hs.eofCtrl, ht.eofCtrl, h.eofCtrl]
  · rw [hs.pipeline, ht.pipeline, h.eofCtrl]
    exact c.quietly h.pipeline _ _

theorem readdata (c : Coupling data sums R) (h : Paired R s t) (offset : ℕ)
    (hv : BitVec.ofNat 7 (offset / 4) = addrSum → sums) :
    readdata s (readBus offset) = readdata t (readBus offset) := by
  have ha := c.status h.pipeline
  have hsum := c.sum h.pipeline
  simp only [UserHw.readdata, readBus, h.left.swRst, h.right.swRst, Bool.false_or,
    Pipeline.State.settle, if_neg Bool.false_ne_true, if_true]
  split_ifs with h₁ h₂ h₃ h₄
  · simp only [statusWord, ha.outFifo.full, ha.outFifo.empty, ha.stage3Done, ha.inFifo.empty,
      ha.inFifo.full]
  · exact ha.outFifo.dout
  · exact ha.count
  · exact hsum (hv h₄)
  · rfl

theorem read (c : Coupling data sums R) (h : Paired R s t) (τ : Timing) (offset : ℕ) :
    Paired R (exec s τ (.read offset)).1 (exec t τ (.read offset)).1 ∧
      ((BitVec.ofNat 7 (offset / 4) = addrSum → sums) →
        (exec s τ (.read offset)).2 = (exec t τ (.read offset)).2) := by
  obtain ⟨hs, s', hs', vs⟩ := exec_read h.left τ offset
  obtain ⟨ht, t', ht', vt⟩ := exec_read h.right τ offset
  refine ⟨c.waits h hs ht, fun hv ↦ ?_⟩
  rw [vs, vt]
  exact c.readdata (c.waits h hs' ht') offset hv

theorem delay (c : Coupling data sums R) (h : Paired R s t) (τ : Timing) :
    Paired R (exec s τ .delay).1 (exec t τ .delay).1 :=
  c.waits h (exec_delay h.left τ) (exec_delay h.right τ)

theorem write (c : Coupling data sums R) (h : Paired R s t) (τ : Timing) (offset : ℕ)
    (word : Word) (ho : BitVec.ofNat 7 (offset / 4) ≠ addrControl) :
    Paired R (exec s τ (.write offset word)).1 (exec t τ (.write offset word)).1 := by
  obtain ⟨hs, -, -, es, ps⟩ := exec_write h.left τ offset word ho
  obtain ⟨ht, -, -, et, pt⟩ := exec_write h.right τ offset word ho
  refine ⟨hs, ht, ?_, ?_⟩
  · rw [es, et, h.eofCtrl]
  · rw [ps, pt, h.eofCtrl]
    exact c.quietly h.pipeline _ _

/-- A control write leads from one coupling to another if its pulse does. -/
theorem pulsed {data' : Bool} {sums' : Prop} {R' : Registers → Registers → Prop}
    (c : Coupling data sums R) (c' : Coupling data' sums' R') (h : Paired R s t) (τ : Timing)
    (word : Word) (hr : word.getLsbD 3 = false)
    (hk : ∀ (p q : Registers) (eof : Bool), R p q →
      R' (p.clock (pulse s word eof)) (q.clock (pulse t word eof))) :
    Paired R' (exec s τ (.write controlOffset word)).1
      (exec t τ (.write controlOffset word)).1 := by
  obtain ⟨hs, -, -, es, ps⟩ := exec_control h.left τ word
  obtain ⟨ht, -, -, et, pt⟩ := exec_control h.right τ word
  have he : eofAfter s word = eofAfter t word := by
    simp only [eofAfter, h.eofCtrl]
  have hc (p : Registers) (u : State) (eof : Bool) :
      p.cycle (pulse u word eof) = p.clock (pulse u word eof) := by
    simp only [Pipeline.State.cycle, pulse, hr, if_neg Bool.false_ne_true]
  refine ⟨hs, ht, es.trans (he.trans et.symm), ?_⟩
  rw [controlOffset, ps, pt, he, h.eofCtrl, hc, hc]
  exact c'.quietly (hk _ _ _ (c.quietly h.pipeline _ _)) _ _

theorem control (c : Coupling data sums R) (h : Paired R s t) (τ : Timing) (word : Word)
    (hr : word.getLsbD 3 = false)
    (hd : word.getLsbD 0 = true → data = true ∧ s.dataInReg = t.dataInReg)
    (hi : word.getLsbD 1 = true → s.instReg = t.instReg) :
    Paired R (exec s τ (.write controlOffset word)).1 (exec t τ (.write controlOffset word)).1 := by
  apply c.pulsed c h τ word hr
  intro p q eof hpq
  exact c.clock hpq ⟨rfl, fun hv ↦ (hd hv).2, rfl, rfl, hi, rfl, rfl⟩ (fun hv ↦ (hd hv).1)

end Coupling

theorem execAll_length (s : State) (timing : ℕ → Timing) (ops : List BusOp) :
    (execAll s timing ops).2.length = ops.length := by
  induction ops generalizing s timing with
  | nil => rfl
  | cons op ops ih => exact congrArg (· + 1) (ih _ _)

theorem execAll_append (s : State) (timing : ℕ → Timing) (ops ops' : List BusOp) :
    execAll s timing (ops ++ ops') =
      ((execAll (execAll s timing ops).1 (fun k ↦ timing (ops.length + k)) ops').1,
        (execAll s timing ops).2 ++
          (execAll (execAll s timing ops).1 (fun k ↦ timing (ops.length + k)) ops').2) := by
  induction ops generalizing s timing with
  | nil => simp [execAll]
  | cons op ops ih =>
    simp only [List.cons_append, execAll, ih, List.length_cons]
    simp only [Nat.add_right_comm]

/-- Two runs of the same accesses read the same values, those of the sum register only
where `sums` asks for it. -/
def Agree (sums : Prop) (ops : List BusOp) (vs ws : List Word) : Prop :=
  ∀ (k : ℕ) (op : BusOp), ops[k]? = some op → (op = BusOp.read sumOffset → sums) → vs[k]? = ws[k]?

theorem Agree.append {sums : Prop} {ops ops' : List BusOp} {vs vs' ws ws' : List Word}
    (hv : vs.length = ops.length) (hw : ws.length = ops.length)
    (h : Agree sums ops vs ws) (h' : Agree sums ops' vs' ws') :
    Agree sums (ops ++ ops') (vs ++ vs') (ws ++ ws') := by
  intro k op hop hsum
  rw [List.getElem?_append] at hop ⊢
  rw [List.getElem?_append, hv, hw]
  split_ifs at hop ⊢ with hk
  · exact h k op hop hsum
  · exact h' _ op hop hsum

def Tracks (sums : Prop) (R : Registers → Registers → Prop) (s t : State)
    (timing : ℕ → Timing) (ops : List BusOp) : Prop :=
  Paired R (execAll s timing ops).1 (execAll t timing ops).1 ∧
    Agree sums ops (execAll s timing ops).2 (execAll t timing ops).2

theorem Tracks.append {sums : Prop} {R R' : Registers → Registers → Prop} {s t : State}
    {timing : ℕ → Timing} {ops ops' : List BusOp} (h : Tracks sums R s t timing ops)
    (h' : Tracks sums R' (execAll s timing ops).1 (execAll t timing ops).1
      (fun k ↦ timing (ops.length + k)) ops') :
    Tracks sums R' s t timing (ops ++ ops') := by
  rw [Tracks, execAll_append, execAll_append]
  exact ⟨h'.1, h.2.append (execAll_length _ _ _) (execAll_length _ _ _) h'.2⟩

theorem agree_silent (sums : Prop) (ops : List BusOp) (ws : List Word) : Agree sums ops ws ws :=
  fun _ _ _ _ ↦ rfl

namespace Coupling

variable {data : Bool} {sums : Prop} {R : Registers → Registers → Prop} {s t : State}

theorem tracks_read (c : Coupling data sums R) (h : Paired R s t) (timing : ℕ → Timing)
    (offset : ℕ) (ho : BitVec.ofNat 7 (offset / 4) = addrSum → offset = sumOffset) :
    Tracks sums R s t timing [.read offset] := by
  obtain ⟨hp, hv⟩ := c.read h (timing 0) offset
  refine ⟨hp, fun k op hop hsum ↦ ?_⟩
  cases k with
  | zero =>
    obtain rfl : BusOp.read offset = op := Option.some.inj hop
    exact congrArg some (hv (fun ha ↦ hsum (ho ha ▸ rfl)))
  | succ k => rfl

/-- `hw_write_word` and `hw_send_instruction`: the register is written before the pulse
that uses it. -/
theorem tracks_data (c : Coupling true sums R) (h : Paired R s t) (timing : ℕ → Timing)
    (word : Word) : Tracks sums R s t timing (hwWriteWord word) := by
  have hp := c.write h (timing 0) dataInOffset word (by decide)
  obtain ⟨-, ds, -⟩ := exec_write h.left (timing 0) dataInOffset word (by decide)
  obtain ⟨-, dt, -⟩ := exec_write h.right (timing 0) dataInOffset word (by decide)
  refine ⟨?_, agree_silent _ _ _⟩
  exact c.control hp (timing 1) controlDinValid rfl (fun _ ↦ ⟨rfl, ds.trans dt.symm⟩)
    (fun hv ↦ absurd hv (by decide))

theorem tracks_instruction (c : Coupling data sums R) (h : Paired R s t) (timing : ℕ → Timing)
    (instruction : Word) : Tracks sums R s t timing (hwSendInstruction instruction) := by
  have hp := c.write h (timing 0) instructionOffset instruction (by decide)
  obtain ⟨-, -, is, -⟩ := exec_write h.left (timing 0) instructionOffset instruction (by decide)
  obtain ⟨-, -, it, -⟩ := exec_write h.right (timing 0) instructionOffset instruction (by decide)
  refine ⟨?_, agree_silent _ _ _⟩
  exact c.control hp (timing 1) controlLoadInst rfl (fun hv ↦ absurd hv (by decide))
    (fun _ ↦ is.trans it.symm)

/-- A control word that neither resets nor uses a register. -/
theorem tracks_pulse (c : Coupling data sums R) (h : Paired R s t) (timing : ℕ → Timing)
    (word : Word) (hr : word.getLsbD 3 = false) (hd : word.getLsbD 0 = false)
    (hi : word.getLsbD 1 = false) :
    Tracks sums R s t timing [.write controlOffset word] := by
  refine ⟨?_, agree_silent _ _ _⟩
  exact c.control h (timing 0) word hr (fun hv ↦ absurd (hd.symm.trans hv) Bool.false_ne_true)
    (fun hv ↦ absurd (hi.symm.trans hv) Bool.false_ne_true)

theorem tracks_driver (c : Coupling data sums R) (h : Paired R s t) (timing : ℕ → Timing)
    (op : DriverOp) (hop : ∀ word, op = .writeWord word → data = true) :
    Tracks sums R s t timing op.bus := by
  cases op with
  | sendInstruction instruction => exact c.tracks_instruction h timing instruction
  | writeWord word =>
    obtain rfl := hop word rfl
    exact c.tracks_data h timing word
  | readStatus => exact c.tracks_read h timing statusOffset (by decide)
  | readDataOut =>
    have hp := c.tracks_pulse h timing controlRdOutFifo rfl rfl rfl
    exact hp.append (c.tracks_read hp.1 _ dataOutOffset (by decide))
  | readAccumulator => exact c.tracks_read h timing accumulatorOffset (by decide)
  | readSum => exact c.tracks_read h timing sumOffset (by decide)
  | signalEof => exact c.tracks_pulse h timing controlInputEof rfl rfl rfl
  | delay => exact ⟨c.delay h (timing 0), agree_silent _ _ _⟩

theorem tracks_all (c : Coupling data sums R) (h : Paired R s t) (timing : ℕ → Timing)
    (ops : List DriverOp) (hops : ∀ word, .writeWord word ∈ ops → data = true) :
    Tracks sums R s t timing (ops.flatMap DriverOp.bus) := by
  induction ops generalizing s t timing with
  | nil => exact ⟨h, agree_silent _ _ _⟩
  | cons op ops ih =>
    have hop := c.tracks_driver h timing op (fun word hw ↦ hops word (by simp [hw]))
    exact hop.append (ih hop.1 _ (fun word hw ↦ hops word (by simp [hw])))

end Coupling

theorem alike_coupling : Coupling true False Alike :=
  ⟨fun h hd _ ↦ h.clock hd, id, fun _ ↦ False.elim⟩

/-- Before the first data word neither run has anything to add up. -/
theorem drained_coupling :
    Coupling false True (fun p q ↦ Alike p q ∧ Drained p ∧ Drained q) := by
  refine ⟨?_, fun h ↦ h.1, fun h _ ↦ h.2.1.sum.trans h.2.2.sum.symm⟩
  intro p q i j ⟨ha, hp, hq⟩ hd hi
  have hv : i.dinValid = false := by simpa using hi
  exact ⟨ha.clock hd, hp.clock hv, hq.clock (hd.dinValid ▸ hv)⟩

theorem tracks_clear {s t : State} (hs : AtRest s) (ht : AtRest t) (sums : Prop)
    (timing : ℕ → Timing) :
    Tracks sums (fun p q ↦ Alike p q ∧ Drained p ∧ Drained q) s t timing hwClear := by
  obtain ⟨rs, -, -, es, ps⟩ := exec_control hs (timing 0) controlRst
  obtain ⟨rt, -, -, et, pt⟩ := exec_control ht (timing 0) controlRst
  refine ⟨⟨rs, rt, es.trans et.symm, ?_⟩, agree_silent _ _ _⟩
  have hq (u : State) (hu : (exec u (timing 0) (.write 0 controlRst)).1.pipeline =
      quietly (eofAfter u controlRst) (timing 0).gap ((quietly u.eofCtrl 1 u.pipeline).cycle
        (pulse u controlRst (eofAfter u controlRst)))) :
      (execAll u timing hwClear).1.pipeline =
        quietly false (timing 0).gap (quietly u.eofCtrl 1 u.pipeline).reset := hu
  rw [hq s ps, hq t pt]
  exact drained_coupling.quietly ⟨.reset _ _, .reset _, .reset _⟩ _ _

theorem tallied_coupling : Coupling true True (fun p q ↦ Alike p q ∧ Tallied p q) :=
  ⟨fun h hd _ ↦ ⟨h.1.clock hd, h.2.clock h.1 hd⟩, fun h ↦ h.1, fun h _ ↦ h.2.sum⟩

theorem driven_load {s t : State} (h : s.instReg = t.instReg) (eof : Bool) :
    Driven (pulse s controlLoadInst eof) (pulse t controlLoadInst eof) :=
  ⟨rfl, fun hv ↦ absurd hv Bool.false_ne_true, rfl, rfl, fun _ ↦ h, rfl, rfl⟩

theorem tracks_aggregate {s t : State}
    (h : Paired (fun p q ↦ Alike p q ∧ Drained p ∧ Drained q) s t) (timing : ℕ → Timing)
    (instruction : Word) (ho : Pipeline.opcode instruction = 0b0011#4 ∨
      Pipeline.opcode instruction = 0b0100#4) :
    Tracks True (fun p q ↦ Alike p q ∧ Tallied p q) s t timing (hwSendInstruction instruction) := by
  have hp := drained_coupling.write h (timing 0) instructionOffset instruction (by decide)
  obtain ⟨-, -, is, -⟩ := exec_write h.left (timing 0) instructionOffset instruction (by decide)
  obtain ⟨-, -, it, -⟩ := exec_write h.right (timing 0) instructionOffset instruction (by decide)
  refine ⟨drained_coupling.pulsed tallied_coupling hp (timing 1) controlLoadInst rfl ?_,
    agree_silent _ _ _⟩
  intro p q eof ⟨ha, hl, hr⟩
  have hd := driven_load (is.trans it.symm) eof
  refine ⟨ha.clock hd, .of_load hl hr hd rfl rfl ?_⟩
  simp only [pulse, is]
  exact ho

theorem queries_isolated {s t : State} (hs : Reachable s) (ht : Reachable t)
    (timing : ℕ → Timing) (ops : List DriverOp) :
    Agree (AggregateFirst ops) (query ops) (execAll s timing (query ops)).2
      (execAll t timing (query ops)).2 := by
  by_cases ha : AggregateFirst ops
  · have hc := tracks_clear hs.atRest ht.atRest True timing
    obtain ⟨before, instruction, after, rfl, ho, hb⟩ := ha
    have h₁ := hc.append (drained_coupling.tracks_all hc.1 _ before
      (fun word hw ↦ absurd hw (hb word)))
    have h₂ := h₁.append (tracks_aggregate h₁.1 _ instruction ho)
    have h₃ := h₂.append (tallied_coupling.tracks_all h₂.1 _ after (fun _ _ ↦ rfl))
    have hq : query (before ++ .sendInstruction instruction :: after) =
        hwClear ++ before.flatMap DriverOp.bus ++ hwSendInstruction instruction ++
          after.flatMap DriverOp.bus := by
      simp only [query, List.flatMap_append, List.flatMap_cons, DriverOp.bus, List.append_assoc]
    rw [hq]
    exact fun k op hop _ ↦ h₃.2 k op hop (fun _ ↦ trivial)
  · have hc := tracks_clear hs.atRest ht.atRest False timing
    have hp : Paired Alike (execAll s timing hwClear).1 (execAll t timing hwClear).1 :=
      ⟨hc.1.left, hc.1.right, hc.1.eofCtrl, hc.1.pipeline.1⟩
    have h := hc.append (alike_coupling.tracks_all hp _ ops (fun _ _ ↦ rfl))
    exact fun k op hop hsum ↦ h.2 k op hop (fun hop' ↦ ha (hsum hop'))

/-- A query that was given up with two rows and the end of data pending. -/
def aborted : State :=
  (execAll .powerUp (fun _ ↦ ⟨0, 0⟩) (query [.sendInstruction 0x20000001, .sendInstruction 0x30000002,
    .writeWord 0x31323334, .writeWord 0x35363738, .signalEof])).1

theorem Reachable.execAll {s : State} (h : Reachable s) (timing : ℕ → Timing) (ops : List BusOp) :
    Reachable (execAll s timing ops).1 := by
  induction ops generalizing s timing with
  | nil => exact h
  | cons op ops ih => exact ih (h.exec _ op) _

theorem isolated_from_aborted :
    aborted.dataInReg = 0x35363738 ∧ aborted.eofCtrl = true ∧ Agree True
      (query [.sendInstruction 0x40000000, .writeWord 0x39, .signalEof, .readStatus, .readSum])
      (execAll .powerUp (fun _ ↦ ⟨1, 2⟩)
        (query [.sendInstruction 0x40000000, .writeWord 0x39, .signalEof, .readStatus, .readSum])).2
      (execAll aborted (fun _ ↦ ⟨1, 2⟩)
        (query [.sendInstruction 0x40000000, .writeWord 0x39, .signalEof, .readStatus,
          .readSum])).2 := by
  refine ⟨by decide +kernel, by decide +kernel, ?_⟩
  have h := queries_isolated .powerUp (Reachable.powerUp.execAll _ _ : Reachable aborted)
    (fun _ ↦ ⟨1, 2⟩)
    [.sendInstruction 0x40000000, .writeWord 0x39, .signalEof, .readStatus, .readSum]
  have ha : AggregateFirst
      [.sendInstruction 0x40000000, .writeWord 0x39, .signalEof, .readStatus, .readSum] :=
    ⟨[], 0x40000000, _, rfl, .inr (by decide), by simp⟩
  exact fun k op hop _ ↦ h k op hop (fun _ ↦ ha)

end FpgaDatabase.Firmware.Isolation
