import FpgaDatabase.Firmware.SdDriver
import Mathlib.Tactic.IntervalCases

namespace FpgaDatabase.Firmware.SdSpi

open CString SdDriver

abbrev Word := BitVec 32

/-- The data and direction registers of the ports, the number of times SD_DAT was read,
and the bits that a selected card has sampled: those on SD_CMD when the clock rises. -/
structure Board where
  sdClk : Word
  cmdDir : Word
  cmdData : Word
  datDir : Word
  ledRed : Word
  reads : ℕ
  sent : List Bool

section Pins

def sdCsBit : Word := 1 <<< 17

def Board.selected (b : Board) : Bool := !b.ledRed.getLsbD 17

def spiClk (b : Board) (high : Bool) : Board :=
  let rises := high && !b.sdClk.getLsbD 0
  { b with
    sdClk := if high then 1 else 0
    sent := if rises && b.selected && b.cmdDir.getLsbD 0 then b.sent ++ [b.cmdData.getLsbD 0]
      else b.sent }

def spiMosi (b : Board) (bit : UInt8) : Board :=
  { b with cmdDir := 1, cmdData := if bit ≠ 0 then 1 else 0 }

/-- `dat n` is what read number `n` of the SD_DAT port returns. -/
def spiMiso (dat : ℕ → Word) (b : Board) : Board × UInt8 :=
  ({ b with datDir := 0, reads := b.reads + 1 }, UInt8.ofBitVec ((dat b.reads &&& 1).setWidth 8))

def spiCsAssert (b : Board) : Board := { b with ledRed := b.ledRed &&& ~~~sdCsBit }

def spiCsDeassert (b : Board) : Board := { b with ledRed := b.ledRed ||| sdCsBit }

end Pins

section Bytes

variable (dat : ℕ → Word)

def spiXferBit (out : UInt8) (x : Board × UInt8) (i : ℕ) : Board × UInt8 :=
  let b := spiClk (spiMosi x.1 ((out >>> UInt8.ofNat i) &&& 1)) true
  let (b, bit) := spiMiso dat b
  (spiClk b false, (x.2 <<< 1) ||| bit)

def spiXfer (b : Board) (out : UInt8) : Board × UInt8 :=
  [7, 6, 5, 4, 3, 2, 1, 0].foldl (spiXferBit dat out) (b, 0)

def spiSend (b : Board) (bytes : List UInt8) : Board :=
  bytes.foldl (fun b out ↦ (spiXfer dat b out).1) b

def spiDummy (b : Board) (count : ℕ) : Board := spiSend dat b (List.replicate count 0xFF)

/-- The loops of `sd_cmd` and `sd_wait_token`, which end early at the first byte of
interest. -/
def poll (stop : UInt8 → Bool) : ℕ → Board → Board × Option UInt8
  | 0, b => (b, none)
  | retries + 1, b =>
    match spiXfer dat b 0xFF with
    | (b, byte) => if stop byte then (b, some byte) else poll stop retries b

def byteOf (w : Word) : UInt8 := UInt8.ofBitVec (w.setWidth 8)

def commandBytes (cmd : UInt8) (arg : Word) (crc7 : UInt8) : List UInt8 :=
  [0x40 ||| cmd, byteOf (arg >>> 24), byteOf (arg >>> 16), byteOf (arg >>> 8), byteOf arg, crc7]

def isResponse (r1 : UInt8) : Bool := r1 &&& 0x80 = 0

def sdCmd (b : Board) (cmd : UInt8) (arg : Word) (crc7 : UInt8) : Board × UInt8 :=
  match poll dat isResponse 8 (spiSend dat b (commandBytes cmd arg crc7)) with
  | (b, some r1) => (b, r1)
  | (b, none) => (b, 0xFF)

def isToken (byte : UInt8) : Bool := byte = 0xFE || byte &&& 0xF0 = 0

def sdWaitToken (b : Board) (maxRetries : ℕ) : Board × Bool :=
  match poll dat isToken maxRetries b with
  | (b, some byte) => (b, byte = 0xFE)
  | (b, none) => (b, false)

def readBytes : ℕ → ℕ → Board → Buffer → Board × Buffer
  | 0, _, b, buf => (b, buf)
  | count + 1, i, b, buf =>
    match spiXfer dat b 0xFF with
    | (b, byte) => readBytes count (i + 1) b (Function.update buf i byte)

end Bytes

def sdCmd17 : UInt8 := 17
def sdcardV2hc : ℤ := 3

structure SectorRead where
  board : Board
  buf : Buffer
  ret : ℤ

def sdReadSector (dat : ℕ → Word) (gCardType : ℤ) (b : Board) (sector : Word) (buf : Buffer) :
    SectorRead :=
  let addr := if gCardType = sdcardV2hc then sector else sector * 512
  let leave (b : Board) : Board := spiCsDeassert (spiDummy dat b 1)
  let b := spiDummy dat (spiCsAssert b) 1
  match sdCmd dat b sdCmd17 addr 0xFF with
  | (b, r1) =>
    if r1 ≠ 0 then ⟨leave b, buf, 0⟩
    else
      match sdWaitToken dat b 2000 with
      | (b, false) => ⟨leave b, buf, 0⟩
      | (b, true) =>
        match readBytes dat 512 0 b buf with
        | (b, buf) => ⟨leave (spiSend dat b [0xFF, 0xFF]), buf, 1⟩

def bits (byte : UInt8) : List Bool := [7, 6, 5, 4, 3, 2, 1, 0].map (byte.toBitVec.getLsbD ·)

def samples (dat : ℕ → Word) (start count : ℕ) : List Bool :=
  (List.range' start count).map (fun n ↦ (dat n).getLsbD 0)

/-- From read number `start` on, the card sends the bytes `s`. The other lines of the
port may hold anything. -/
def Carries (dat : ℕ → Word) (start : ℕ) (s : ℕ → UInt8) : Prop :=
  ∀ k, samples dat (start + 8 * k) 8 = bits (s k)

/-- The card is selected, has sent `count` bytes, and has received the bits `out`. -/
structure Session (start : ℕ) (led : Word) (b : Board) (count : ℕ) (out : List Bool) : Prop where
  ledRed : b.ledRed = led
  clock : b.sdClk = 0
  reads : b.reads = start + 8 * count
  sent : b.sent = out

section Transfer

variable {dat : ℕ → Word} {start : ℕ} {led : Word} {s : ℕ → UInt8} {b : Board} {count : ℕ}
  {out : List Bool}

def shiftIn (byte : UInt8) (bit : Bool) : UInt8 := (byte <<< 1) ||| (if bit then 1 else 0)

theorem shiftIn_bits (byte : UInt8) : (bits byte).foldl shiftIn 0 = byte := by
  revert byte
  exact forall_byte (by decide +kernel)

theorem mosi_bit (byte : UInt8) : ∀ i < 8,
    (byte >>> UInt8.ofNat i) &&& 1 ≠ 0 ↔ byte.toBitVec.getLsbD i = true := by
  revert byte
  exact forall_byte (by decide +kernel)

theorem miso_bit (w : Word) :
    UInt8.ofBitVec ((w &&& 1).setWidth 8) = if w.getLsbD 0 then 1 else 0 := by
  have hw : w &&& 1 = if w.getLsbD 0 then 1 else 0 := by
    apply BitVec.eq_of_getLsbD_eq
    intro i hi
    rw [BitVec.getLsbD_and]
    rcases Nat.eq_zero_or_pos i with rfl | hpos
    · cases w.getLsbD 0 <;> rfl
    · have hone : (1 : Word).getLsbD i = false := by
        change (1#32).getLsbD i = false
        simp [BitVec.getLsbD_one, Nat.ne_of_gt hpos]
      rw [hone, Bool.and_false]
      split_ifs
      · exact hone.symm
      · exact BitVec.getLsbD_zero.symm
  rw [hw]
  split_ifs <;> rfl

theorem xferBit_spec (dat : ℕ → Word) (hsel : b.ledRed.getLsbD 17 = false) (byte acc : UInt8) {i : ℕ} (hi : i < 8) :
    ∃ b', spiXferBit dat byte (b, acc) i = (b', shiftIn acc ((dat b.reads).getLsbD 0)) ∧
      b'.ledRed = b.ledRed ∧ b'.sdClk = 0 ∧ b'.reads = b.reads + 1 ∧
      b'.sent = b.sent ++ if b.sdClk.getLsbD 0 then [] else [byte.toBitVec.getLsbD i] := by
  refine ⟨_, Prod.ext rfl ?_, rfl, rfl, rfl, ?_⟩
  · simp only [spiXferBit, spiMiso, spiClk, spiMosi, shiftIn, miso_bit]
  · have hone : (1 : Word).getLsbD 0 = true := rfl
    have hbit : (if (byte >>> UInt8.ofNat i) &&& 1 ≠ 0 then (1 : Word) else 0).getLsbD 0 =
        byte.toBitVec.getLsbD i := by
      rw [if_congr (mosi_bit byte i hi) rfl rfl]
      cases byte.toBitVec.getLsbD i <;> rfl
    simp only [spiXferBit, spiMiso, spiClk, spiMosi, Board.selected, hsel, hbit, hone, Bool.false_and,
      Bool.true_and, Bool.not_false, Bool.and_true, if_false, Bool.false_eq_true]
    cases b.sdClk.getLsbD 0 <;> simp

theorem xferBits_spec (dat : ℕ → Word) (hsel : b.ledRed.getLsbD 17 = false) (hclk : b.sdClk = 0)
    (byte acc : UInt8) (is : List ℕ) (his : ∀ i ∈ is, i < 8) :
    ∃ b', is.foldl (spiXferBit dat byte) (b, acc) =
        (b', (samples dat b.reads is.length).foldl shiftIn acc) ∧
      b'.ledRed = b.ledRed ∧ b'.sdClk = 0 ∧ b'.reads = b.reads + is.length ∧
      b'.sent = b.sent ++ is.map (byte.toBitVec.getLsbD ·) := by
  induction is generalizing b acc with
  | nil => exact ⟨b, rfl, rfl, hclk, rfl, (List.append_nil _).symm⟩
  | cons i is ih =>
    rw [List.forall_mem_cons] at his
    obtain ⟨b₁, hbit, hled, hclk₁, hreads, hsent⟩ := xferBit_spec dat hsel byte acc his.1
    obtain ⟨b₂, hrest, hled₂, hclk₂, hreads₂, hsent₂⟩ := ih (hled ▸ hsel) hclk₁
      (shiftIn acc ((dat b.reads).getLsbD 0)) his.2
    have hlow : (0 : Word).getLsbD 0 = false := rfl
    rw [hclk, hlow, if_neg Bool.false_ne_true] at hsent
    refine ⟨b₂, ?_, hled₂.trans hled, hclk₂, ?_, ?_⟩
    · rw [List.foldl_cons, hbit, hrest, hreads, samples, samples, List.length_cons, List.range'_succ,
        List.map_cons, List.foldl_cons]
    · rw [hreads₂, hreads, List.length_cons]
      omega
    · rw [hsent₂, hsent, List.append_assoc, List.map_cons]
      rfl

theorem spiXfer_first (hcarry : Carries dat start s) (hsel : b.ledRed.getLsbD 17 = false)
    (hreads : b.reads = start + 8 * count) (byte : UInt8) :
    ∃ b', spiXfer dat b byte = (b', s count) ∧ Session start b.ledRed b' (count + 1)
      (b.sent ++ (bits byte).drop (if b.sdClk.getLsbD 0 then 1 else 0)) := by
  obtain ⟨b₁, hbit, hled, hclk, hreads₁, hsent⟩ :=
    xferBit_spec dat hsel byte 0 (show 7 < 8 by decide)
  obtain ⟨b₂, hrest, hled₂, hclk₂, hreads₂, hsent₂⟩ := xferBits_spec dat (hled ▸ hsel) hclk byte
    (shiftIn 0 ((dat b.reads).getLsbD 0)) [6, 5, 4, 3, 2, 1, 0] (by decide)
  refine ⟨b₂, ?_, hled₂.trans hled, hclk₂, ?_, ?_⟩
  · rw [spiXfer, List.foldl_cons, hbit, hrest, Prod.mk.injEq]
    refine ⟨rfl, ?_⟩
    rw [← shiftIn_bits (s count), ← hcarry count, ← hreads, hreads₁]
    rfl
  · rw [hreads₂, hreads₁, hreads]
    simp only [List.length_cons, List.length_nil]
    omega
  · rw [hsent₂, hsent, List.append_assoc]
    cases b.sdClk.getLsbD 0 <;> rfl

theorem spiXfer_next (hcarry : Carries dat start s) (hsel : led.getLsbD 17 = false)
    (h : Session start led b count out) (byte : UInt8) :
    ∃ b', spiXfer dat b byte = (b', s count) ∧
      Session start led b' (count + 1) (out ++ bits byte) := by
  obtain ⟨b', hxfer, hsession⟩ := spiXfer_first hcarry (h.ledRed ▸ hsel) h.reads byte
  have hlow : (0 : Word).getLsbD 0 = false := rfl
  rw [h.clock, hlow, if_neg Bool.false_ne_true, List.drop_zero, h.ledRed, h.sent] at hsession
  exact ⟨b', hxfer, hsession⟩

theorem spiSend_spec (hcarry : Carries dat start s) (hsel : led.getLsbD 17 = false)
    (h : Session start led b count out) (bytes : List UInt8) :
    Session start led (spiSend dat b bytes) (count + bytes.length) (out ++ bytes.flatMap bits) := by
  induction bytes generalizing b count out with
  | nil => simpa [spiSend] using h
  | cons byte bytes ih =>
    obtain ⟨b', hxfer, hsession⟩ := spiXfer_next hcarry hsel h byte
    have hrest := ih hsession
    rw [spiSend, List.foldl_cons, hxfer, List.flatMap_cons, ← List.append_assoc, List.length_cons,
      Nat.add_comm bytes.length, ← Nat.add_assoc]
    exact hrest

def idle (n : ℕ) : List Bool := (List.replicate n (0xFF : UInt8)).flatMap bits

theorem idle_succ (n : ℕ) : bits 0xFF ++ idle n = idle (n + 1) := by
  rw [idle, idle, List.replicate_succ, List.flatMap_cons]

theorem idle_add (m n : ℕ) : idle m ++ idle n = idle (m + n) := by
  rw [idle, idle, idle, List.replicate_add, List.flatMap_append]

structure FirstAt (stop : UInt8 → Bool) (s : ℕ → UInt8) (count retries k : ℕ) : Prop where
  inTime : k < retries
  stops : stop (s (count + k)) = true
  before : ∀ q < k, stop (s (count + q)) = false

theorem poll_spec (hcarry : Carries dat start s) (hsel : led.getLsbD 17 = false)
    (h : Session start led b count out) (stop : UInt8 → Bool) (retries : ℕ) :
    (∃ k b', FirstAt stop s count retries k ∧
      poll dat stop retries b = (b', some (s (count + k))) ∧
      Session start led b' (count + (k + 1)) (out ++ idle (k + 1))) ∨
    ∃ b', (∀ q < retries, stop (s (count + q)) = false) ∧ poll dat stop retries b = (b', none) ∧
      Session start led b' (count + retries) (out ++ idle retries) := by
  induction retries generalizing b count out with
  | zero =>
    refine .inr ⟨b, fun q hq ↦ absurd hq (Nat.not_lt_zero q), rfl, ?_⟩
    simpa [idle] using h
  | succ retries ih =>
    obtain ⟨b₁, hxfer, hsession⟩ := spiXfer_next hcarry hsel h 0xFF
    by_cases hstop : stop (s count) = true
    · refine .inl ⟨0, b₁, ⟨Nat.succ_pos _, hstop, fun q hq ↦ absurd hq (Nat.not_lt_zero q)⟩, ?_, ?_⟩
      · simp only [poll, hxfer, hstop, if_true]
        rfl
      · rw [← idle_succ]
        simpa [idle] using hsession
    · rw [Bool.not_eq_true] at hstop
      have hshift (q : ℕ) : count + (q + 1) = count + 1 + q := by omega
      have hbefore {n : ℕ} (hn : ∀ q < n, stop (s (count + 1 + q)) = false) :
          ∀ q < n + 1, stop (s (count + q)) = false := by
        intro q hq
        cases q with
        | zero => exact hstop
        | succ q =>
          rw [hshift]
          exact hn q (by omega)
      have hpoll : poll dat stop (retries + 1) b = poll dat stop retries b₁ := by
        simp only [poll, hxfer, hstop, Bool.false_eq_true, if_false]
      rcases ih hsession with ⟨k, b₂, hfirst, hfound, hend⟩ | ⟨b₂, hnone, hfound, hend⟩
      · refine .inl ⟨k + 1, b₂, ⟨by have := hfirst.inTime; omega, ?_, hbefore hfirst.before⟩, ?_, ?_⟩
        · rw [hshift]
          exact hfirst.stops
        · rw [hpoll, hfound, hshift k]
        · rw [List.append_assoc, idle_succ] at hend
          rwa [hshift]
      · refine .inr ⟨b₂, hbefore hnone, hpoll.trans hfound, ?_⟩
        rw [List.append_assoc, idle_succ] at hend
        rwa [hshift]

theorem readBytes_spec (hcarry : Carries dat start s) (hsel : led.getLsbD 17 = false)
    (h : Session start led b count out) (n i : ℕ) (buf : Buffer) :
    ∃ b', readBytes dat n i b buf =
        (b', fun j ↦ if i ≤ j ∧ j < i + n then s (count + (j - i)) else buf j) ∧
      Session start led b' (count + n) (out ++ idle n) := by
  induction n generalizing b count out i buf with
  | zero =>
    refine ⟨b, ?_, by simpa [idle] using h⟩
    rw [readBytes, Prod.mk.injEq]
    refine ⟨rfl, funext fun j ↦ (if_neg ?_).symm⟩
    omega
  | succ n ih =>
    obtain ⟨b₁, hxfer, hsession⟩ := spiXfer_next hcarry hsel h 0xFF
    obtain ⟨b₂, hread, hend⟩ := ih hsession (i + 1) (Function.update buf i (s count))
    rw [List.append_assoc, idle_succ] at hend
    refine ⟨b₂, ?_, by rwa [Nat.add_assoc, Nat.add_comm 1] at hend⟩
    simp only [readBytes, hxfer, hread, Prod.mk.injEq, true_and]
    funext j
    rcases Nat.lt_trichotomy j i with hj | rfl | hj
    · rw [if_neg (by omega), if_neg (by omega), Function.update_of_ne (by omega)]
    · rw [if_neg (by omega), if_pos (by omega), Function.update_self, Nat.sub_self, Nat.add_zero]
    · by_cases hend : j < i + (n + 1)
      · rw [if_pos (by omega), if_pos (by omega)]
        congr 1
        omega
      · rw [if_neg (by omega), if_neg (by omega), Function.update_of_ne (by omega)]

end Transfer

/-- The bytes of the card for which a sector is read. Byte 0 passes during the dummy byte
and bytes 1 to 6 during the command; byte `7 + k` is the response and byte `8 + k + t`
the token. -/
structure Delivers (s : ℕ → UInt8) (k t : ℕ) : Prop where
  early : k < 8
  busy : ∀ q < k, s (7 + q) &&& 0x80 ≠ 0
  accepted : s (7 + k) = 0
  inTime : t < 2000
  noError : ∀ q < t, s (8 + k + q) &&& 0xF0 ≠ 0
  token : s (8 + k + t) = 0xFE
  first : ∀ q < t, s (8 + k + q) ≠ 0xFE

/-- How the pins are left: the card is no longer selected. -/
structure Left (start : ℕ) (led : Word) (b : Board) (count : ℕ) (out : List Bool) : Prop where
  ledRed : b.ledRed = led ||| sdCsBit
  clock : b.sdClk = 0
  reads : b.reads = start + 8 * count
  sent : b.sent = out

section Sector

variable {dat : ℕ → Word} {start : ℕ} {led : Word} {s : ℕ → UInt8} {b : Board} {count k t : ℕ}
  {out : List Bool}

theorem Delivers.response (h : Delivers s k t) : FirstAt isResponse s 7 8 k := by
  refine ⟨h.early, ?_, fun q hq ↦ ?_⟩
  · rw [isResponse, h.accepted]
    rfl
  · simpa [isResponse] using h.busy q hq

theorem Delivers.starts (h : Delivers s k t) : FirstAt isToken s (8 + k) 2000 t := by
  refine ⟨h.inTime, ?_, fun q hq ↦ ?_⟩
  · rw [isToken, h.token]
    rfl
  · simpa [isToken] using ⟨h.first q hq, h.noError q hq⟩

theorem delivers_of_first (hresponse : FirstAt isResponse s 7 8 k) (haccepted : s (7 + k) = 0)
    (hstart : FirstAt isToken s (8 + k) 2000 t) (htoken : s (8 + k + t) = 0xFE) :
    Delivers s k t := by
  have hbefore (q : ℕ) (hq : q < t) :
      s (8 + k + q) ≠ 0xFE ∧ s (8 + k + q) &&& 0xF0 ≠ 0 := by
    simpa [isToken] using hstart.before q hq
  refine ⟨hresponse.inTime, fun q hq ↦ ?_, haccepted, hstart.inTime, fun q hq ↦ (hbefore q hq).2,
    htoken, fun q hq ↦ (hbefore q hq).1⟩
  simpa [isResponse] using hresponse.before q hq

theorem FirstAt.unique {stop : UInt8 → Bool} {retries k k' : ℕ} (h : FirstAt stop s count retries k)
    (h' : FirstAt stop s count retries k') : k = k' := by
  rcases Nat.lt_trichotomy k k' with hlt | heq | hlt
  · have hstops := h.stops
    rw [h'.before k hlt] at hstops
    cases hstops
  · exact heq
  · have hstops := h'.stops
    rw [h.before k' hlt] at hstops
    cases hstops

theorem leave_spec (hcarry : Carries dat start s) (hsel : led.getLsbD 17 = false)
    (h : Session start led b count out) :
    Left start led (spiCsDeassert (spiDummy dat b 1)) (count + 1) (out ++ idle 1) := by
  have hdummy := spiSend_spec hcarry hsel h [0xFF]
  exact ⟨congrArg (· ||| sdCsBit) hdummy.ledRed, hdummy.clock, hdummy.reads, hdummy.sent⟩

theorem sdCmd_spec (hcarry : Carries dat start s) (hsel : led.getLsbD 17 = false)
    (h : Session start led b 1 out) (cmd : UInt8) (arg : Word) (crc7 : UInt8) :
    (∃ k b', FirstAt isResponse s 7 8 k ∧ sdCmd dat b cmd arg crc7 = (b', s (7 + k)) ∧
      Session start led b' (8 + k) (out ++ (commandBytes cmd arg crc7).flatMap bits ++ idle (k + 1))) ∨
    ∃ b', (∀ k, ¬ FirstAt isResponse s 7 8 k) ∧ sdCmd dat b cmd arg crc7 = (b', 0xFF) ∧
      Session start led b' 15 (out ++ (commandBytes cmd arg crc7).flatMap bits ++ idle 8) := by
  have hcommand : Session start led (spiSend dat b (commandBytes cmd arg crc7)) 7 _ :=
    spiSend_spec hcarry hsel h (commandBytes cmd arg crc7)
  rcases poll_spec hcarry hsel hcommand isResponse 8 with
    ⟨k, b', hfirst, hpoll, hsession⟩ | ⟨b', hnone, hpoll, hsession⟩
  · refine .inl ⟨k, b', hfirst, ?_, ?_⟩
    · rw [sdCmd, hpoll]
    · rwa [show 8 + k = 7 + (k + 1) by omega]
  · refine .inr ⟨b', fun k hk ↦ ?_, ?_, hsession⟩
    · have hstops := hk.stops
      rw [hnone k hk.inTime] at hstops
      cases hstops
    · rw [sdCmd, hpoll]

theorem sdWaitToken_spec (hcarry : Carries dat start s) (hsel : led.getLsbD 17 = false)
    (h : Session start led b count out) (maxRetries : ℕ) :
    (∃ t b', FirstAt isToken s count maxRetries t ∧ s (count + t) = 0xFE ∧
      sdWaitToken dat b maxRetries = (b', true) ∧
      Session start led b' (count + (t + 1)) (out ++ idle (t + 1))) ∨
    ∃ b' n, (∀ t, FirstAt isToken s count maxRetries t → s (count + t) ≠ 0xFE) ∧
      sdWaitToken dat b maxRetries = (b', false) ∧
      Session start led b' (count + n) (out ++ idle n) := by
  rcases poll_spec hcarry hsel h isToken maxRetries with
    ⟨t, b', hfirst, hpoll, hsession⟩ | ⟨b', hnone, hpoll, hsession⟩
  · by_cases htoken : s (count + t) = 0xFE
    · refine .inl ⟨t, b', hfirst, htoken, ?_, hsession⟩
      rw [sdWaitToken, hpoll]
      simp [htoken]
    · refine .inr ⟨b', t + 1, fun t' ht' ↦ hfirst.unique ht' ▸ htoken, ?_, hsession⟩
      rw [sdWaitToken, hpoll]
      simp [htoken]
  · refine .inr ⟨b', maxRetries, fun t ht ↦ ?_, ?_, hsession⟩
    · have hstops := ht.stops
      rw [hnone t ht.inTime] at hstops
      cases hstops
    · rw [sdWaitToken, hpoll]

/-- The byte in which the card is selected. -/
theorem select_spec (hcarry : Carries dat b.reads s) :
    Session b.reads (b.ledRed &&& ~~~sdCsBit) (spiDummy dat (spiCsAssert b) 1) 1
      (b.sent ++ (bits 0xFF).drop (if b.sdClk.getLsbD 0 then 1 else 0)) := by
  have hselected : (spiCsAssert b).ledRed.getLsbD 17 = false := by
    simp [spiCsAssert, sdCsBit]
  have hreads : (spiCsAssert b).reads = b.reads + 8 * 0 := rfl
  obtain ⟨b', hxfer, hsession⟩ := spiXfer_first hcarry hselected hreads 0xFF
  have hone : spiDummy dat (spiCsAssert b) 1 = b' := congrArg Prod.fst hxfer
  rw [hone]
  exact hsession

/-- The two ways in which the function ends. -/
theorem sector_outcomes (hcarry : Carries dat b.reads s) (gCardType : ℤ) (sector : Word)
    (buf : Buffer) :
    let r := sdReadSector dat gCardType b sector buf
    let out := b.sent ++ (bits 0xFF).drop (if b.sdClk.getLsbD 0 then 1 else 0) ++
      (commandBytes sdCmd17 (if gCardType = sdcardV2hc then sector else sector * 512) 0xFF).flatMap bits
    (∃ k t, Delivers s k t ∧ r.ret = 1 ∧
      r.buf = (fun i ↦ if i < 512 then s (9 + k + t + i) else buf i) ∧
      ∃ n, Left b.reads (b.ledRed &&& ~~~sdCsBit) r.board (9 + k + t + 512 + 2 + 1) (out ++ idle n)) ∨
    ((∀ k t, ¬ Delivers s k t) ∧ r.ret = 0 ∧ r.buf = buf ∧
      ∃ m n, Left b.reads (b.ledRed &&& ~~~sdCsBit) r.board m (out ++ idle n)) := by
  intro r out
  have hsel : (b.ledRed &&& ~~~sdCsBit).getLsbD 17 = false := by
    simp [sdCsBit]
  have hdummy := select_spec hcarry
  have hleave {b' : Board} {count n : ℕ} (h : Session b.reads (b.ledRed &&& ~~~sdCsBit) b' count
      (out ++ idle n)) : Left b.reads (b.ledRed &&& ~~~sdCsBit) (spiCsDeassert (spiDummy dat b' 1))
      (count + 1) (out ++ idle (n + 1)) := by
    have hleft := leave_spec hcarry hsel h
    rwa [List.append_assoc, idle_add] at hleft
  rcases sdCmd_spec hcarry hsel hdummy sdCmd17
    (if gCardType = sdcardV2hc then sector else sector * 512) 0xFF with
    ⟨k, b₁, hresponse, hcmd, hsession₁⟩ | ⟨b₁, hnone, hcmd, hsession₁⟩
  · by_cases haccepted : s (7 + k) = 0
    · rcases sdWaitToken_spec hcarry hsel hsession₁ 2000 with
        ⟨t, b₂, hstart, htoken, hwait, hsession₂⟩ | ⟨b₂, n, hnone, hwait, hsession₂⟩
      · obtain ⟨b₃, hread, hsession₃⟩ := readBytes_spec hcarry hsel hsession₂ 512 0 buf
        have hcrc := spiSend_spec hcarry hsel hsession₃ [0xFF, 0xFF]
        have hr : r = ⟨spiCsDeassert (spiDummy dat (spiSend dat b₃ [0xFF, 0xFF]) 1),
            fun i ↦ if 0 ≤ i ∧ i < 0 + 512 then s (8 + k + (t + 1) + (i - 0)) else buf i, 1⟩ := by
          simp only [r, sdReadSector, hcmd, haccepted, hwait, hread, ne_eq, not_true_eq_false, if_false]
        refine .inl ⟨k, t, delivers_of_first hresponse haccepted hstart htoken, ?_, ?_, ?_⟩
        · rw [hr]
        · rw [hr]
          funext i
          simp only [Nat.zero_le, true_and, Nat.zero_add, Nat.sub_zero]
          rw [show 8 + k + (t + 1) + i = 9 + k + t + i by omega]
        · rw [hr, show 9 + k + t + 512 + 2 + 1 = 8 + k + (t + 1) + 512 + [(0xFF : UInt8), 0xFF].length + 1 by
            simp only [List.length_cons, List.length_nil]
            omega]
          refine ⟨k + 1 + (t + 1) + 512 + 2 + 1, hleave ?_⟩
          have htwo : [(0xFF : UInt8), 0xFF].flatMap bits = idle 2 := rfl
          rw [← idle_add, ← idle_add, ← idle_add]
          simpa only [out, htwo, List.append_assoc] using hcrc
      · have hr : r = ⟨spiCsDeassert (spiDummy dat b₂ 1), buf, 0⟩ := by
          simp only [r, sdReadSector, hcmd, haccepted, hwait, ne_eq, not_true_eq_false, if_false]
        refine .inr ⟨fun k' t' h ↦ ?_, by rw [hr], by rw [hr], 8 + k + n + 1, k + 1 + n + 1, ?_⟩
        · obtain rfl := h.response.unique hresponse
          exact hnone t' h.starts h.token
        · rw [hr]
          apply hleave
          rw [← idle_add, ← List.append_assoc]
          exact hsession₂
    · have hr : r = ⟨spiCsDeassert (spiDummy dat b₁ 1), buf, 0⟩ := by
        simp only [r, sdReadSector, hcmd, ne_eq, haccepted, not_false_eq_true, if_true]
      refine .inr ⟨fun k' t' h ↦ ?_, by rw [hr], by rw [hr], 8 + k + 1, k + 1 + 1, ?_⟩
      · obtain rfl := h.response.unique hresponse
        exact haccepted h.accepted
      · rw [hr]
        exact hleave hsession₁
  · have hff : (0xFF : UInt8) ≠ 0 := by decide
    have hr : r = ⟨spiCsDeassert (spiDummy dat b₁ 1), buf, 0⟩ := by
      simp only [r, sdReadSector, hcmd, ne_eq, hff, not_false_eq_true, if_true]
    refine .inr ⟨fun k t h ↦ hnone k h.response, by rw [hr], by rw [hr], 15 + 1, 8 + 1, ?_⟩
    rw [hr]
    exact hleave hsession₁

/-- The command on the wire: the index, the address from its most significant bit on, and
the byte in the place of the checksum. -/
theorem commandBytes_bits (address : Word) : (commandBytes sdCmd17 address 0xFF).flatMap bits =
    bits 0x51 ++ (List.range 32).map (fun i ↦ address.getLsbD (31 - i)) ++ bits 0xFF := by
  have hbyte (n : ℕ) : bits (byteOf (address >>> n)) =
      [7, 6, 5, 4, 3, 2, 1, 0].map (fun i ↦ address.getLsbD (n + i)) := by
    rw [bits]
    refine List.map_congr_left fun i hi ↦ ?_
    have hi' : i < 8 := by
      revert i
      decide
    simp [byteOf, hi']
  have hlow : bits (byteOf address) = [7, 6, 5, 4, 3, 2, 1, 0].map (fun i ↦ address.getLsbD (0 + i)) :=
    hbyte 0
  simp only [commandBytes, List.flatMap_cons, List.flatMap_nil, hbyte, hlow]
  rfl

theorem idle_eq (n : ℕ) : idle n = List.replicate (8 * n) true := by
  induction n with
  | zero => rfl
  | succ n ih =>
    rw [← idle_succ, ih, Nat.mul_succ, Nat.add_comm, List.replicate_add]
    rfl

theorem cs_bits (led : Word) : ((led &&& ~~~sdCsBit) ||| sdCsBit).getLsbD 17 = true ∧
    ∀ i ≠ 17, ((led &&& ~~~sdCsBit) ||| sdCsBit).getLsbD i = led.getLsbD i := by
  refine ⟨by simp [sdCsBit], fun i hi ↦ ?_⟩
  have hbit : sdCsBit.getLsbD i = false := by
    rw [show sdCsBit = BitVec.twoPow 32 17 from rfl, BitVec.getLsbD_twoPow]
    simp [Ne.symm hi]
  rw [BitVec.getLsbD_or, BitVec.getLsbD_and, BitVec.getLsbD_not, hbit]
  by_cases h32 : i < 32
  · simp [h32]
  · simp [BitVec.getLsbD_of_ge led i (by omega)]

end Sector

/-- Whatever the card sends, a sector is read exactly when it answers the command and
starts a block in time, and the pins are left at rest. -/
theorem sector_read (dat : ℕ → Word) (b : Board) (s : ℕ → UInt8) (hcarry : Carries dat b.reads s)
    (gCardType : ℤ) (sector : Word) (buf : Buffer) :
    let r := sdReadSector dat gCardType b sector buf
    let address := if gCardType = sdcardV2hc then sector else sector * 512
    (r.ret = 1 ↔ ∃ k t, Delivers s k t) ∧
    (∀ k t, Delivers s k t → r.buf = (fun i ↦ if i < 512 then s (9 + k + t + i) else buf i) ∧
      r.board.reads = b.reads + 8 * (9 + k + t + 512 + 2 + 1)) ∧
    (r.ret ≠ 1 → r.ret = 0 ∧ r.buf = buf) ∧
    (∃ m n, r.board.sent = b.sent ++ List.replicate m true ++ (bits 0x51 ++
      (List.range 32).map (fun i ↦ address.getLsbD (31 - i)) ++ bits 0xFF) ++
      List.replicate n true) ∧
    r.board.ledRed.getLsbD 17 = true ∧ (∀ i ≠ 17, r.board.ledRed.getLsbD i = b.ledRed.getLsbD i) ∧
    r.board.sdClk = 0 := by
  intro r address
  have hpins {m n : ℕ} (h : Left b.reads (b.ledRed &&& ~~~sdCsBit) r.board m
      (b.sent ++ (bits 0xFF).drop (if b.sdClk.getLsbD 0 then 1 else 0) ++
        (commandBytes sdCmd17 address 0xFF).flatMap bits ++ idle n)) :
      (∃ m n, r.board.sent = b.sent ++ List.replicate m true ++ (bits 0x51 ++
        (List.range 32).map (fun i ↦ address.getLsbD (31 - i)) ++ bits 0xFF) ++
        List.replicate n true) ∧
      r.board.ledRed.getLsbD 17 = true ∧ (∀ i ≠ 17, r.board.ledRed.getLsbD i = b.ledRed.getLsbD i) ∧
      r.board.sdClk = 0 := by
    obtain ⟨hset, hother⟩ := cs_bits b.ledRed
    have hdummy (skipped : ℕ) (hs : skipped ≤ 1) : (bits 0xFF).drop skipped =
        List.replicate (8 - skipped) true := by
      interval_cases skipped <;> rfl
    refine ⟨⟨8 - (if b.sdClk.getLsbD 0 then 1 else 0), 8 * n, ?_⟩, h.ledRed ▸ hset, fun i hi ↦ h.ledRed ▸ hother i hi, h.clock⟩
    rw [h.sent, commandBytes_bits, idle_eq, hdummy _ (by split_ifs <;> omega)]
  rcases sector_outcomes hcarry gCardType sector buf with
    ⟨k, t, hdelivers, hret, hbuf, n, hleft⟩ | ⟨hnone, hret, hbuf, m, n, hleft⟩
  · refine ⟨⟨fun _ ↦ ⟨k, t, hdelivers⟩, fun _ ↦ hret⟩, fun k' t' h ↦ ?_, fun h ↦ absurd hret h, hpins hleft⟩
    obtain rfl := h.response.unique hdelivers.response
    obtain rfl := h.starts.unique hdelivers.starts
    exact ⟨hbuf, hleft.reads⟩
  · have hzero : ¬ r.ret = 1 := by
      intro hone
      rw [show r.ret = 0 from hret] at hone
      cases hone
    exact ⟨⟨fun hone ↦ absurd hone hzero, fun ⟨k, t, h⟩ ↦ absurd h (hnone k t)⟩,
      fun k t h ↦ absurd h (hnone k t), fun _ ↦ ⟨hret, hbuf⟩, hpins hleft⟩

def wire (s : ℕ → UInt8) (n : ℕ) : Word :=
  if (s (n / 8)).toBitVec.getLsbD (7 - n % 8) then 1 else 0

theorem carries_wire (s : ℕ → UInt8) : Carries (wire s) 0 s := by
  intro k
  have hbit (w : Bool) : (if w then (1 : Word) else 0).getLsbD 0 = w := by
    cases w <;> rfl
  have hread (j : ℕ) (hj : j < 8) :
      (wire s (0 + 8 * k + j)).getLsbD 0 = (s k).toBitVec.getLsbD (7 - j) := by
    rw [wire, hbit, show (0 + 8 * k + j) / 8 = k by omega, show (0 + 8 * k + j) % 8 = j by omega]
  have hcount : List.range' (0 + 8 * k) 8 = (List.range 8).map (0 + 8 * k + ·) := List.range'_eq_map_range
  have hall : (List.range 8).map (fun j ↦ (wire s (0 + 8 * k + j)).getLsbD 0) = bits (s k) :=
    List.map_congr_left fun j hj ↦ hread j (List.mem_range.mp hj)
  rw [samples, hcount, List.map_map]
  exact hall

/-- Zeros, and a token behind the first of them that counts. -/
theorem sector_of_zeros : (sdReadSector (wire fun k ↦ if k = 8 then 0xFE else 0) sdcardV2hc
    ⟨0, 0, 0, 0, 0, 0, []⟩ 5 (fun _ ↦ 1)).ret = 1 := by
  have hread := (sector_read (wire fun k ↦ if k = 8 then 0xFE else 0) ⟨0, 0, 0, 0, 0, 0, []⟩ _
    (carries_wire _) sdcardV2hc 5 (fun _ ↦ 1)).1
  refine hread.mpr ⟨0, 0, ?_⟩
  exact ⟨by decide, fun q hq ↦ absurd hq (Nat.not_lt_zero q), rfl, by decide,
    fun q hq ↦ absurd hq (Nat.not_lt_zero q), rfl, fun q hq ↦ absurd hq (Nat.not_lt_zero q)⟩

section Card

/-- The card of the driver, on the wire: a read fails or brings the sector. -/
structure Serves (card : Card) (log : Log) (sector : ℕ) (s : ℕ → UInt8) : Prop where
  fails : card.fails log.length = true → ∀ k t, ¬ Delivers s k t
  delivers : card.fails log.length = false → ∃ k t, Delivers s k t ∧
    ∀ i < 512, s (9 + k + t + i) = card.image sector i

/-- What the driver above the wire takes for granted. -/
theorem sdReadSector_card {dat : ℕ → Word} {b : Board} {s : ℕ → UInt8} {card : Card} {log : Log}
    {sector : Word} (hcarry : Carries dat b.reads s) (h : Serves card log sector.toNat s)
    (gCardType : ℤ) (buf : Buffer) :
    match card.sdReadSector log sector.toNat with
    | none => (sdReadSector dat gCardType b sector buf).ret = 0 ∧
        (sdReadSector dat gCardType b sector buf).buf = buf
    | some image => (sdReadSector dat gCardType b sector buf).ret = 1 ∧
        ∀ i < 512, (sdReadSector dat gCardType b sector buf).buf i = image i := by
  rcases sector_outcomes hcarry gCardType sector buf with
    ⟨k, t, hdelivers, hret, hbuf, -⟩ | ⟨hnone, hret, hbuf, -⟩
  · cases hfails : card.fails log.length with
    | true => exact absurd hdelivers (h.fails hfails k t)
    | false =>
      obtain ⟨k', t', hdelivers', hbytes⟩ := h.delivers hfails
      obtain rfl := hdelivers'.response.unique hdelivers.response
      obtain rfl := hdelivers'.starts.unique hdelivers.starts
      rw [Card.sdReadSector, hfails, if_neg Bool.false_ne_true]
      refine ⟨hret, fun i hi ↦ ?_⟩
      rw [hbuf]
      exact (if_pos hi).trans (hbytes i hi)
  · cases hfails : card.fails log.length with
    | true =>
      rw [Card.sdReadSector, hfails, if_pos rfl]
      exact ⟨hret, hbuf⟩
    | false =>
      obtain ⟨k, t, hdelivers, -⟩ := h.delivers hfails
      exact absurd hdelivers (hnone k t)

end Card

end FpgaDatabase.Firmware.SdSpi
