import FpgaDatabase.Hardware.UserHw

namespace FpgaDatabase.Hardware.BusWrites

open Stages UserHw

inductive Effect
  | dataIn (byteenable : BitVec 4) (data : Word)
  | instruction (byteenable : BitVec 4) (data : Word)
  | dinValid
  | loadInst
  | rdOutFifo
  | swRst
  | eofSet
  | eofClear
deriving DecidableEq

/-- Writing `sw_rst` clears `eof_ctrl`, also when the same word would set it. -/
def controlEffects (w : Word) : List Effect :=
  (if w.getLsbD 0 then [.dinValid] else []) ++ (if w.getLsbD 1 then [.loadInst] else []) ++
    (if w.getLsbD 2 then [.rdOutFifo] else []) ++ (if w.getLsbD 3 then [.swRst] else []) ++
    (if w.getLsbD 3 then [.eofClear] else if w.getLsbD 4 then [.eofSet] else [])

def decode (b : Bus) : List Effect :=
  if b.address = addrControl then controlEffects b.writedata
  else if b.byteenable = 0 then []
  else if b.address = addrDataIn then [.dataIn b.byteenable b.writedata]
  else if b.address = addrInstruction then [.instruction b.byteenable b.writedata]
  else []

/-- The interface has no wait states: a cycle with `write` up is a whole transfer. -/
def requested (b : Bus) : List Effect := if b.write then decode b else []

def performed (s : State) (b : Bus) : List Effect := if s.writePulse b then decode b else []

structure Ports where
  dataInReg : Word
  instReg : Word
  dinValidCtrl : Bool
  loadInst : Bool
  rdOutFifo : Bool
  swRst : Bool
  eofCtrl : Bool

def ports (s : State) : Ports :=
  ⟨s.dataInReg, s.instReg, s.dinValidCtrl, s.loadInst, s.rdOutFifo, s.swRst, s.eofCtrl⟩

def Ports.release (r : Ports) : Ports :=
  { r with dinValidCtrl := false, loadInst := false, rdOutFifo := false, swRst := false }

def Effect.act (r : Ports) : Effect → Ports
  | .dataIn byteenable data => { r with dataInReg := mergeBytes byteenable r.dataInReg data }
  | .instruction byteenable data => { r with instReg := mergeBytes byteenable r.instReg data }
  | .dinValid => { r with dinValidCtrl := true }
  | .loadInst => { r with loadInst := true }
  | .rdOutFifo => { r with rdOutFifo := true }
  | .swRst => { r with swRst := true }
  | .eofSet => { r with eofCtrl := true }
  | .eofClear => { r with eofCtrl := false }

theorem mergeBytes_none (old new : Word) : mergeBytes 0#4 old new = old :=
  (show mergeBytes 0#4 old new = mergeBytes 0xF new old from rfl).trans (mergeBytes_all new old)

theorem act_controlEffects (r : Ports) (w : Word) :
    (controlEffects w).foldl Effect.act r.release =
      { r with
        dinValidCtrl := w.getLsbD 0, loadInst := w.getLsbD 1, rdOutFifo := w.getLsbD 2
        swRst := w.getLsbD 3
        eofCtrl := if w.getLsbD 3 then false else if w.getLsbD 4 then true else r.eofCtrl } := by
  unfold controlEffects
  generalize w.getLsbD 0 = b₀, w.getLsbD 1 = b₁, w.getLsbD 2 = b₂, w.getLsbD 3 = b₃,
    w.getLsbD 4 = b₄
  cases b₀ <;> cases b₁ <;> cases b₂ <;> cases b₃ <;> cases b₄ <;> rfl

/-- After a cycle the registers hold what they held before, with all pulses over and
the effects of this cycle applied. -/
theorem ports_clock (s : State) (b : Bus) :
    ports (s.clock b) = (performed s b).foldl Effect.act (ports s).release := by
  unfold performed
  cases hp : s.writePulse b with
  | false => simp [ports, State.clock, hp, Ports.release]
  | true =>
    simp only [if_true, decode]
    by_cases hc : b.address = addrControl
    · have hd : addrControl ≠ addrDataIn := by decide
      have hi : addrControl ≠ addrInstruction := by decide
      rw [if_pos hc, act_controlEffects]
      simp [ports, State.clock, hp, hc, hd, hi]
    · rw [if_neg hc]
      by_cases he : b.byteenable = 0
      · simp [ports, State.clock, hp, hc, he, mergeBytes_none, Ports.release]
      · rw [if_neg he]
        by_cases hd : b.address = addrDataIn
        · have hi : addrDataIn ≠ addrInstruction := by decide
          have hc' : addrDataIn ≠ addrControl := by decide
          simp [ports, State.clock, hp, hc', hd, hi, Ports.release, Effect.act]
        · by_cases hi : b.address = addrInstruction
          · have hd' : addrInstruction ≠ addrDataIn := by decide
            have hc' : addrInstruction ≠ addrControl := by decide
            simp [ports, State.clock, hp, hc', hd', hi, Ports.release, Effect.act]
          · simp [ports, State.clock, hp, hc, hd, hi, Ports.release]

def effects : State → List Bus → List Effect
  | _, [] => []
  | s, b :: bs => performed s b ++ effects (s.cycle b) bs

/-- No write that asks for something comes right after a write cycle. -/
def Spaced : Bool → List Bus → Prop
  | _, [] => True
  | writePrev, b :: bs => (writePrev = true → requested b = []) ∧ Spaced b.write bs

theorem performed_eq (s : State) (b : Bus) :
    performed s b = if s.writePrev then [] else requested b := by
  unfold performed requested State.writePulse
  cases b.write <;> cases s.writePrev <;> rfl

theorem performed_length_le (s : State) (b : Bus) :
    (performed s b).length ≤ (requested b).length := by
  rw [performed_eq]
  split_ifs
  · exact Nat.zero_le _
  · exact le_rfl

variable {s : State} {trace : List Bus}

theorem writePrev_cycle {b : Bus} (hb : b.reset = false) : (s.cycle b).writePrev = b.write := by
  simp [State.cycle, hb, State.clock]

theorem effects_length_le (s : State) (trace : List Bus) :
    (effects s trace).length ≤ (trace.flatMap requested).length := by
  induction trace generalizing s with
  | nil => exact le_rfl
  | cons b bs ih =>
    rw [effects, List.flatMap_cons, List.length_append, List.length_append]
    exact Nat.add_le_add (performed_length_le s b) (ih (s.cycle b))

/-- Nothing is ever repeated, so the two sequences agree only if every cycle does all
it was asked for. -/
theorem effects_cons_iff (s : State) (b : Bus) (bs : List Bus) :
    effects s (b :: bs) = (b :: bs).flatMap requested ↔
      performed s b = requested b ∧ effects (s.cycle b) bs = bs.flatMap requested := by
  rw [effects, List.flatMap_cons]
  constructor
  · intro h
    have hlen := congrArg List.length h
    have h₁ := performed_length_le s b
    have h₂ := effects_length_le (s.cycle b) bs
    rw [List.length_append, List.length_append] at hlen
    exact List.append_inj h (by omega)
  · rintro ⟨h₁, h₂⟩
    rw [h₁, h₂]

theorem effects_eq_iff (hr : ∀ b ∈ trace, b.reset = false) :
    effects s trace = trace.flatMap requested ↔ Spaced s.writePrev trace := by
  induction trace generalizing s with
  | nil => simp [effects, Spaced]
  | cons b bs ih =>
    have hb := hr b (by simp)
    rw [effects_cons_iff, ih (fun c hc ↦ hr c (by simp [hc])), writePrev_cycle hb, Spaced,
      performed_eq]
    cases s.writePrev
    · simp only [Bool.false_eq_true, if_false, false_implies]
    · simp only [if_true, true_implies, eq_comm (a := [])]

/-- The registers follow the effects of each cycle, every pulse for one cycle, and
these effects are the writes of the trace exactly when no write that asks for
something comes right after a write cycle. -/
theorem bus_writes_iff (s : State) (trace : List Bus) (hr : ∀ b ∈ trace, b.reset = false) :
    (∀ before b after, trace = before ++ b :: after →
      ports ((before.foldl State.cycle s).cycle b) =
        (performed (before.foldl State.cycle s) b).foldl Effect.act
          (ports (before.foldl State.cycle s)).release) ∧
    (effects s trace = trace.flatMap requested ↔ Spaced s.writePrev trace) := by
  refine ⟨?_, effects_eq_iff hr⟩
  intro before b after ht
  have hb : b.reset = false := hr b (by simp [ht])
  rw [State.cycle, if_neg (by simp [hb])]
  exact ports_clock _ b

section Examples

def writeWord (w : Word) : List Bus := [writeBus 4 w, writeBus 0 1]

def writeWordSpaced (w : Word) : List Bus := [writeBus 4 w, {}, writeBus 0 1, {}]

theorem spaced_word_written :
    effects State.powerUp (writeWordSpaced 7) = [.dataIn 0xF 7, .dinValid] ∧
      effects State.powerUp (writeWordSpaced 7) = (writeWordSpaced 7).flatMap requested :=
  ⟨by decide, (bus_writes_iff State.powerUp (writeWordSpaced 7) (by decide)).2.mpr (by
    refine ⟨?_, ?_, ?_, ?_, trivial⟩ <;> decide)⟩

theorem adjacent_pulse_dropped :
    (∀ b ∈ writeWord 7, b.reset = false) ∧
    (writeWord 7).flatMap requested = [.dataIn 0xF 7, .dinValid] ∧
    effects State.powerUp (writeWord 7) = [.dataIn 0xF 7] ∧
    ((writeWord 7).foldl State.cycle State.powerUp).dinValidCtrl = false := by
  decide

end Examples

end FpgaDatabase.Hardware.BusWrites
