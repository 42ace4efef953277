import FpgaDatabase.Firmware.Pace
import Mathlib.Data.Prod.Lex

namespace FpgaDatabase.Firmware.FeedInvariant

open Hardware.Fifo Hardware.Stages Hardware.Pipeline Hardware.Streaming Hardware.Program
open Hardware.Pacing Hardware.UserHw Driver Pace Library.Quota

variable {f : Fetcher generics} {p : Pipe} {h : Hist} {s : Hardware.UserHw.State} {t : Timing}
  {n m k : ℕ}

theorem status_full (p : Pipe) :
    statusWord p &&& statusInFifoFull ≠ 0 ↔ p.inFifo.contents.length = 128 := by
  have hf : p.inFifo.full = true ↔ p.inFifo.contents.length = 128 := Queue.full_iff p.inFifo
  rw [← hf, statusWord]
  cases p.outFifo.full <;> cases p.outFifo.empty <;> cases p.stage3Done <;>
    cases p.inFifo.empty <;> cases p.inFifo.full <;> decide

theorem status_empty (p : Pipe) :
    statusWord p &&& statusOutFifoEmpty = 0 ↔ p.outFifo.contents ≠ [] := by
  rw [← not_iff_not, not_not, ← Queue.empty_iff, statusWord]
  cases p.outFifo.full <;> cases p.outFifo.empty <;> cases p.stage3Done <;>
    cases p.inFifo.empty <;> cases p.inFifo.full <;> decide

theorem status_done (p : Pipe) : statusWord p &&& statusDone ≠ 0 ↔ p.stage3Done = true := by
  rw [statusWord]
  cases p.outFifo.full <;> cases p.outFifo.empty <;> cases p.stage3Done <;>
    cases p.inFifo.empty <;> cases p.inFifo.full <;> decide

/-- A status read samples the pipeline after at least one cycle and takes at least
one more. -/
theorem exec_status (hs : AtRest s) (t : Timing) :
    ∃ k j, 1 ≤ k ∧ 1 ≤ j ∧ Waits (j + k) s (exec s t (.read statusOffset)).1 ∧
      (exec s t (.read statusOffset)).2 = statusWord (quietly s.eofCtrl k s.pipeline) := by
  obtain ⟨hw, s', hs', hv⟩ := exec_read hs t statusOffset
  refine ⟨t.hold + 1, 1 + t.gap, by omega, by omega, ?_, ?_⟩
  · rwa [show 1 + t.gap + (t.hold + 1) = t.hold + 2 + t.gap by omega]
  · rw [hv, ← hs'.pipeline]
    simp [readdata, readBus, statusOffset, addrStatus, Hardware.Pipeline.State.settle,
      hs'.atRest.swRst]

theorem exec_dataOut (hs : AtRest s) (t : Timing) :
    ∃ k, Waits k s (exec s t (.read dataOutOffset)).1 ∧
      (exec s t (.read dataOutOffset)).2 = s.pipeline.outFifo.dout := by
  obtain ⟨hw, s', hs', hv⟩ := exec_read hs t dataOutOffset
  refine ⟨_, hw, ?_⟩
  rw [hv, ← dout_quietly s.pipeline s.eofCtrl (t.hold + 1), ← hs'.pipeline]
  simp [readdata, readBus, dataOutOffset, addrStatus, addrDataOut,
    Hardware.Pipeline.State.settle, hs'.atRest.swRst]

structure Job (params : Params) (T : List Word) : Prop where
  memory : params.memory = T.flatMap wordBytes
  total : params.totalBytes = 4 * T.length
  small : 4 * T.length < 2 ^ 32
  wait : params.waitForDone = true

def capacity (params : Params) : ℕ := ((params.captureLimitBytes + 3) / 4).toNat

def stored (params : Params) (ws : List Word) : List UInt8 :=
  (ws.take (capacity params)).flatMap wordBytes

theorem wordBytes_length (w : Word) : (wordBytes w).length = 4 := by simp [wordBytes]

theorem flatMap_wordBytes_length (ws : List Word) : (ws.flatMap wordBytes).length = 4 * ws.length := by
  induction ws with
  | nil => rfl
  | cons w ws ih =>
    rw [List.flatMap_cons, List.length_append, wordBytes_length, ih, List.length_cons]
    omega

theorem capture_stored {params : Params} {x : Feed} {ws : List Word}
    (hx : x.captured = stored params ws) (w : Word) :
    capture params x w = stored params (ws ++ [w]) := by
  have hlen : x.captured.length = 4 * min (capacity params) ws.length := by
    rw [hx, stored, flatMap_wordBytes_length, List.length_take]
  unfold capture
  by_cases hw : ws.length < capacity params
  · have hlt : (x.captured.length : ℤ) < params.captureLimitBytes := by
      rw [hlen]
      unfold capacity at hw ⊢
      omega
    rw [if_pos hlt, hx, stored, stored, List.take_of_length_le (by omega),
      List.take_of_length_le (by simp only [List.length_append, List.length_singleton]; omega),
      List.flatMap_append]
    simp
  · have hge : ¬ (x.captured.length : ℤ) < params.captureLimitBytes := by
      rw [hlen]
      unfold capacity at hw ⊢
      omega
    rw [if_neg hge, hx, stored, stored, List.take_append, Nat.sub_eq_zero_of_le (by omega)]
    simp

theorem drop_flatMap_wordBytes (T : List Word) (k : ℕ) :
    (T.flatMap wordBytes).drop (4 * k) = (T.drop k).flatMap wordBytes := by
  induction T generalizing k with
  | nil => simp
  | cons w T ih =>
    cases k with
    | zero => rfl
    | succ k =>
      rw [List.flatMap_cons, List.drop_succ_cons, ← ih, List.drop_append,
        List.drop_eq_nil_of_le (by rw [wordBytes_length]; omega), wordBytes_length,
        List.nil_append, show 4 * (k + 1) - 4 = 4 * k by omega]

theorem sourceWord {params : Params} {T : List Word} (job : Job params T) {sent : ℕ}
    (hs : sent < T.length) : readLe32 (params.memory.drop (4 * sent)) = T[sent] := by
  rw [job.memory, drop_flatMap_wordBytes, List.drop_eq_getElem_cons hs, List.flatMap_cons,
    readLe32_wordBytes]

variable {params : Params} {T taken : List Word} {x : Feed} {u : Hardware.UserHw.State}
  {sent ahead : ℕ} {e : Bool}

/-- The variables of the firmware against the state of the hardware, after `sent`
words of the table. `taken` are the words that have been captured; `n` and `m` are
the pace of the pipeline. -/
structure Sync (f : Fetcher generics) (params : Params) (T : List Word) (x : Feed)
    (s : Hardware.UserHw.State) (h : Hist) (sent ahead : ℕ) (taken : List Word) (e : Bool)
    (n m : ℕ) : Prop where
  rest : AtRest s
  sent_le : sent ≤ T.length
  bytes : x.bytesSent = 4 * sent
  offset : x.memoryOffset = 4 * (sent + ahead)
  captured : x.captured = stored params taken
  accepted : h.accepted = T.take sent
  eof : s.eofCtrl = e
  fresh : e = false → h.eofSeen = false
  paced : Paced f n m s.pipeline h

theorem Sync.waits (hs : Sync f params T x s h sent ahead taken e n m) (hm : m < 128)
    (he : e = true → n < 2) (hw : Waits k s u) :
    ∃ h', Sync f params T x u h' sent ahead taken e (n - k) m ∧ h'.popped = h.popped := by
  obtain ⟨h', hp, ha, ho, hf⟩ := hs.paced.quietly hm he k
  refine ⟨h', ⟨hw.atRest, hs.sent_le, hs.bytes, hs.offset, hs.captured, ha.trans hs.accepted,
    hw.eofCtrl.trans hs.eof, ?_, ?_⟩, ho⟩
  · intro h₀
    rw [hf h₀, hs.fresh h₀]
  · rw [hw.pipeline, hs.eof]
    exact hp

theorem Sync.congr {y : Feed} (hs : Sync f params T x s h sent ahead taken e n m)
    (h₁ : y.bytesSent = x.bytesSent) (h₂ : y.memoryOffset = x.memoryOffset)
    (h₃ : y.captured = x.captured) : Sync f params T y s h sent ahead taken e n m :=
  ⟨hs.rest, hs.sent_le, h₁.trans hs.bytes, h₂.trans hs.offset, h₃.trans hs.captured, hs.accepted,
    hs.eof, hs.fresh, hs.paced⟩

theorem Sync.mono {n' m' : ℕ} (hs : Sync f params T x s h sent ahead taken e n m) (hn : n ≤ n')
    (hm : m ≤ m') : Sync f params T x s h sent ahead taken e n' m' :=
  ⟨hs.rest, hs.sent_le, hs.bytes, hs.offset, hs.captured, hs.accepted, hs.eof, hs.fresh,
    hs.paced.mono hn hm⟩

def eofAt : Site → Bool
  | .waiting => true
  | _ => false

def lagAt : Site → ℕ
  | .waiting => 1
  | _ => 3

/-- What each call of `drain_output_words` may rely on. -/
def AtSite (T : List Word) (x : Feed) (p : Pipe) (sent : ℕ) : Site → Prop
  | .feeding => True
  | .stalled => Stuck p ∧ sent < T.length
  | .waiting => sent = T.length ∧
      ((x.stallGuard = 0 ∧ Ending 2 p) ∨ (x.stallGuard = 1 ∧ Ending 0 p))

/-- The invariant of `feed_source_to_hardware`, by the next bus access. -/
def Phase (f : Fetcher generics) (params : Params) (T : List Word) (x : Feed)
    (s : Hardware.UserHw.State) (h : Hist) (sent : ℕ) : Prop :=
  match x.pc with
  | .pollInput => Sync f params T x s h sent 0 h.popped false 1 2 ∧ sent < T.length
  | .writeData word => Sync f params T x s h sent 1 h.popped false 0 2 ∧
      T[sent]? = some word ∧ s.pipeline.inFifo.contents.length < 128
  | .writeValid => Sync f params T x s h sent 1 h.popped false 0 2 ∧
      T[sent]? = some s.dataInReg ∧ s.pipeline.inFifo.contents.length < 128
  | .drainStatus site =>
      Sync f params T x s h sent 0 h.popped (eofAt site) (lagAt site) 3 ∧
      AtSite T x s.pipeline sent site
  | .drainPop site => Sync f params T x s h sent 0 h.popped (eofAt site) 1 3 ∧
      AtSite T x s.pipeline sent site ∧ s.pipeline.outFifo.contents ≠ []
  | .drainRead site => ∃ ws, Sync f params T x s h sent 0 ws (eofAt site) 1 3 ∧
      AtSite T x s.pipeline sent site ∧ h.popped = ws ++ [s.pipeline.outFifo.dout]
  | .stallDelay => Sync f params T x s h sent 0 h.popped false 1 2 ∧ Stuck s.pipeline ∧
      sent < T.length
  | .signalEof => Sync f params T x s h sent 0 h.popped false 1 2 ∧ sent = T.length
  | .waitStatus => Sync f params T x s h sent 0 h.popped true 1 2 ∧ sent = T.length ∧
      Ending 0 s.pipeline ∧
      (x.stallGuard = 0 ∨ (x.stallGuard = 1 ∧ s.pipeline.outFifo.contents = []))
  | .waitDelay => Sync f params T x s h sent 0 h.popped true 1 2 ∧ sent = T.length ∧
      Ending 0 s.pipeline ∧ x.stallGuard = 0
  | .returned code =>
      (code = 1 ∧ Sync f params T x s h sent 0 h.popped true 1 2 ∧ sent = T.length ∧
        Complete s.pipeline) ∨
      (code = 0 ∧ Sync f params T x s h sent 0 h.popped false 1 2 ∧ Stuck s.pipeline ∧
        sent < T.length)

def wordsLeft (T : List Word) (x : Feed) : ℕ :=
  match x.pc with
  | .returned _ => 0
  | .waitStatus | .waitDelay => 1
  | .drainStatus .waiting | .drainPop .waiting | .drainRead .waiting => 1
  | _ => 2 + (T.length - x.bytesSent / 4)

def operationsLeft : Pc → ℕ
  | .drainStatus .feeding | .drainPop .feeding | .drainRead .feeding => 4
  | .pollInput => 3
  | .writeData _ | .drainStatus _ | .drainPop _ | .drainRead _ => 2
  | .writeValid | .stallDelay | .waitStatus => 1
  | .signalEof | .waitDelay | .returned _ => 0

def popsLeft (p : Pipe) : Pc → ℕ
  | .drainStatus _ => 3 * load p + 1
  | .drainPop _ => 3 * load p
  | .drainRead _ => 3 * load p + 2
  | _ => 0

/-- What is left to do: words to send, tries of the stall guard, operations of a
try, and rows to pop. -/
def rank (T : List Word) (y : Feed × Hardware.UserHw.State) : ℕ ×ₗ ℕ ×ₗ ℕ ×ₗ ℕ :=
  toLex (wordsLeft T y.1, toLex (stallMaxCycles + 1 - y.1.stallGuard,
    toLex (operationsLeft y.1.pc, popsLeft y.2.pipeline y.1.pc)))

end FpgaDatabase.Firmware.FeedInvariant
