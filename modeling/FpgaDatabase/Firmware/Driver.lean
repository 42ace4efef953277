import FpgaDatabase.Hardware.UserHw

namespace FpgaDatabase.Firmware.Driver

open Hardware.Stages Hardware.Pipeline Hardware.UserHw

def controlOffset : ℕ := 0
def dataInOffset : ℕ := 4
def instructionOffset : ℕ := 8
def statusOffset : ℕ := 12
def dataOutOffset : ℕ := 16
def accumulatorOffset : ℕ := 20
def sumOffset : ℕ := 24

def controlDinValid : Word := 0x01
def controlLoadInst : Word := 0x02
def controlRdOutFifo : Word := 0x04
def controlRst : Word := 0x08
def controlInputEof : Word := 0x10

def statusOutFifoEmpty : Word := 0x02
def statusDone : Word := 0x04
def statusInFifoFull : Word := 0x10

def hwClear : List BusOp := [.write controlOffset controlRst]

def hwWriteWord (word : Word) : List BusOp :=
  [.write dataInOffset word, .write controlOffset controlDinValid]

def hwSendInstruction (instruction : Word) : List BusOp :=
  [.write instructionOffset instruction, .write controlOffset controlLoadInst]

def hwSignalEof : List BusOp := [.write controlOffset controlInputEof]

def hwReadStatus : List BusOp := [.read statusOffset]

/-- The FIFO has one cycle of latency, so the pulse comes first. -/
def hwReadDataOut : List BusOp :=
  [.write controlOffset controlRdOutFifo, .read dataOutOffset]

def readLe32 (raw : List UInt8) : Word :=
  let byte (k : ℕ) : Word := (raw.getD k 0).toBitVec.setWidth 32
  byte 0 ||| byte 1 <<< 8 ||| byte 2 <<< 16 ||| byte 3 <<< 24

/-- The bytes of a word in memory; the processor is little-endian. -/
def wordBytes (w : Word) : List UInt8 :=
  (List.range 4).map (fun k ↦ UInt8.ofBitVec (w.extractLsb' (k * 8) 8))

theorem readLe32_wordBytes (w : Word) (rest : List UInt8) : readLe32 (wordBytes w ++ rest) = w := by
  have he : readLe32 (wordBytes w ++ rest) = (w.extractLsb' 0 8).setWidth 32 |||
      (w.extractLsb' 8 8).setWidth 32 <<< 8 ||| (w.extractLsb' 16 8).setWidth 32 <<< 16 |||
      (w.extractLsb' 24 8).setWidth 32 <<< 24 := rfl
  rw [he]
  apply BitVec.eq_of_getLsbD_eq
  intro i hi
  simp only [BitVec.getLsbD_or, BitVec.getLsbD_shiftLeft, BitVec.getLsbD_setWidth,
    BitVec.getLsbD_extractLsb']
  grind

def stallMaxCycles : ℕ := 5000000

/-- The arguments of `feed_source_to_hardware`. The source is in memory, as
`load_table_from_sd` leaves it. -/
structure Params where
  memory : List UInt8
  totalBytes : ℕ
  waitForDone : Bool
  captureLimitBytes : ℤ

/-- The calls of `drain_output_words`: after a word, while the input is full, and
while waiting for completion. -/
inductive Site
  | feeding
  | stalled
  | waiting
  deriving DecidableEq

/-- The bus accesses and delays of `feed_source_to_hardware` and of the functions it
calls, in the order of the source. -/
inductive Pc
  | pollInput
  | writeData (word : Word)
  | writeValid
  | drainStatus (site : Site)
  | drainPop (site : Site)
  | drainRead (site : Site)
  | stallDelay
  | signalEof
  | waitStatus
  | waitDelay
  | returned (code : ℤ)
  deriving DecidableEq

structure Feed where
  pc : Pc
  bytesSent : ℕ
  memoryOffset : ℕ
  stallGuard : ℕ
  captured : List UInt8

def busOp : Pc → Option BusOp
  | .pollInput | .drainStatus _ | .waitStatus => some (.read statusOffset)
  | .writeData word => some (.write dataInOffset word)
  | .writeValid => some (.write controlOffset controlDinValid)
  | .drainPop _ => some (.write controlOffset controlRdOutFifo)
  | .drainRead _ => some (.read dataOutOffset)
  | .stallDelay | .waitDelay => some .delay
  | .signalEof => some (.write controlOffset controlInputEof)
  | .returned _ => none

/-- The test of the feed loop. Counters are 32-bit. -/
def loopHead (params : Params) (f : Feed) : Feed :=
  if f.bytesSent < params.totalBytes then { f with pc := .pollInput }
  else { f with pc := .signalEof }

/-- `source_read_word` and, if it succeeds, the first half of `hw_write_word`. -/
def sourceReadWord (params : Params) (f : Feed) : Feed :=
  if params.memory.length < (f.memoryOffset + 4) % 2 ^ 32 then { f with pc := .returned (-1) }
  else
    { f with
      pc := .writeData (readLe32 (params.memory.drop f.memoryOffset))
      memoryOffset := (f.memoryOffset + 4) % 2 ^ 32 }

def drained (params : Params) (f : Feed) : Site → Feed
  | .feeding => loopHead params f
  | .stalled => { f with pc := .stallDelay }
  | .waiting => { f with pc := .waitStatus }

def capture (params : Params) (f : Feed) (word : Word) : List UInt8 :=
  if (f.captured.length : ℤ) < params.captureLimitBytes then f.captured ++ wordBytes word
  else f.captured

def resume (params : Params) (f : Feed) (value : Word) : Feed :=
  match f.pc with
  | .pollInput =>
    if value &&& statusInFifoFull ≠ 0 then { f with pc := .drainStatus .stalled }
    else sourceReadWord params f
  | .writeData _ => { f with pc := .writeValid }
  | .writeValid =>
    { f with
      pc := .drainStatus .feeding
      bytesSent := (f.bytesSent + 4) % 2 ^ 32
      stallGuard := 0 }
  | .drainStatus site =>
    if value &&& statusOutFifoEmpty = 0 then { f with pc := .drainPop site }
    else drained params f site
  | .drainPop site => { f with pc := .drainRead site }
  | .drainRead site => { f with pc := .drainStatus site, captured := capture params f value }
  | .stallDelay =>
    if stallMaxCycles < f.stallGuard + 1 then
      { f with pc := .returned 0, stallGuard := f.stallGuard + 1 }
    else loopHead params { f with stallGuard := f.stallGuard + 1 }
  | .signalEof =>
    if params.waitForDone then { f with pc := .drainStatus .waiting, stallGuard := 0 }
    else { f with pc := .returned 1 }
  | .waitStatus =>
    if value &&& statusOutFifoEmpty ≠ 0 ∧ value &&& statusDone ≠ 0 then
      { f with pc := .returned 1 }
    else { f with pc := .waitDelay }
  | .waitDelay =>
    if f.stallGuard + 1 < stallMaxCycles then
      { f with pc := .drainStatus .waiting, stallGuard := f.stallGuard + 1 }
    else { f with pc := .returned 0, stallGuard := f.stallGuard + 1 }
  | .returned _ => f

def feedStart (params : Params) : Feed := loopHead params ⟨.pollInput, 0, 0, 0, []⟩

def feedStep (params : Params) (x : Feed × State) (t : Timing) : Feed × State :=
  match busOp x.1.pc with
  | none => x
  | some op => (resume params x.1 (exec x.2 t op).2, (exec x.2 t op).1)

def feedSourceToHardware (params : Params) (timing : ℕ → Timing) (s : State) :
    ℕ → Feed × State
  | 0 => (feedStart params, s)
  | n + 1 => feedStep params (feedSourceToHardware params timing s n) (timing n)

def setup (prog : List Instruction) : List BusOp := hwClear ++ prog.flatMap hwSendInstruction

end FpgaDatabase.Firmware.Driver
