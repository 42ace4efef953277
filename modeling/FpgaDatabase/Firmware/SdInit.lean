import FpgaDatabase.Firmware.SdSpi
import FpgaDatabase.Library.Framing

namespace FpgaDatabase.Firmware.SdInit

open CString SdDriver SdSpi Library.Framing

section Source

def sdCmd0 : UInt8 := 0
def sdCmd8 : UInt8 := 8
def sdCmd16 : UInt8 := 16
def sdCmd55 : UInt8 := 55
def sdCmd58 : UInt8 := 58
def sdAcmd41 : UInt8 := 41

def sdR1Idle : UInt8 := 0x01
def sdR1Illegal : UInt8 := 0x04

def sdcardV1 : ℤ := 1
def sdcardV2 : ℤ := 2

variable (dat : ℕ → Word)

def powerUp (b : Board) : Board := spiDummy dat (spiCsDeassert (spiClk b false)) 10

def ask (b : Board) (cmd : UInt8) (arg : Word) (crc7 : UInt8) : Board × UInt8 :=
  sdCmd dat (spiDummy dat (spiCsAssert b) 1) cmd arg crc7

def leave (b : Board) : Board := spiCsDeassert (spiDummy dat b 1)

def untilReady (arg : Word) : ℕ → UInt8 → Board → Board × UInt8
  | 0, r1, b => (b, r1)
  | retries + 1, _, b =>
    let b := leave dat (ask dat b sdCmd55 0 0xFF).1
    match ask dat b sdAcmd41 arg 0xFF with
    | (b, r1) => if r1 = 0 then (leave dat b, r1) else untilReady arg retries r1 (leave dat b)

structure Init where
  board : Board
  gCardType : ℤ
  ret : ℤ

def sdInit (b : Board) : Init :=
  match ask dat (powerUp dat b) sdCmd0 0 0x95 with
  | (b, r1) =>
    let b := leave dat b
    if r1 ≠ sdR1Idle then ⟨b, 0, 0⟩
    else
      match ask dat b sdCmd8 0x1AA 0x87 with
      | (b, r1) =>
        if r1 &&& sdR1Illegal = 0 then
          match readBytes dat 4 0 b (fun _ ↦ 0) with
          | (b, ocr) =>
            let b := leave dat b
            if ocr 3 &&& 0xAA ≠ 0xAA then ⟨b, 0, 0⟩
            else
              match untilReady dat 0x40000000 2000 r1 b with
              | (b, r1) =>
                if r1 ≠ 0 then ⟨b, 0, 0⟩
                else
                  match readBytes dat 4 0 (ask dat b sdCmd58 0 0xFF).1 ocr with
                  | (b, ocr) =>
                    ⟨leave dat b, if ocr 0 &&& 0x40 ≠ 0 then sdcardV2hc else sdcardV2, 1⟩
        else
          match untilReady dat 0 2000 r1 (leave dat b) with
          | (b, r1) =>
            if r1 ≠ 0 then ⟨b, 0, 0⟩
            else ⟨leave dat (ask dat b sdCmd16 512 0xFF).1, sdcardV1, 1⟩

end Source

section Bytes

structure Exchange where
  cmd : UInt8
  arg : Word
  crc7 : UInt8
  r1 : UInt8
  data : List UInt8
  deriving DecidableEq

def Exchange.frame (e : Exchange) : List Bool := (commandBytes e.cmd e.arg e.crc7).flatMap bits

/-- What was said, in `bytes` bytes. -/
structure Talk where
  bytes : ℕ
  said : List Exchange
  deriving DecidableEq

variable (s : ℕ → UInt8)

/-- The response to a command that ends before byte `p`: how many bytes it takes, and
which one it is. -/
def respond (p : ℕ) : ℕ × UInt8 :=
  match (List.range 8).find? (fun k ↦ isResponse (s (p + k))) with
  | some k => (k + 1, s (p + k))
  | none => (8, 0xFF)

/-- A byte passes before the command and another behind all that is read. -/
def Talk.ask (t : Talk) (cmd : UInt8) (arg : Word) (crc7 : UInt8) (extra : UInt8 → ℕ) :
    Talk × Exchange :=
  let (n, r1) := respond s (t.bytes + 7)
  let e : Exchange :=
    ⟨cmd, arg, crc7, r1, (List.range (extra r1)).map (fun i ↦ s (t.bytes + 7 + n + i))⟩
  (⟨t.bytes + 7 + n + extra r1 + 1, t.said ++ [e]⟩, e)

def Talk.untilReady (arg : Word) : ℕ → UInt8 → Talk → Talk × UInt8
  | 0, r1, t => (t, r1)
  | retries + 1, _, t =>
    match (t.ask s sdCmd55 0 0xFF (fun _ ↦ 0)).1.ask s sdAcmd41 arg 0xFF (fun _ ↦ 0) with
    | (t, e) => if e.r1 = 0 then (t, e.r1) else Talk.untilReady arg retries e.r1 t

def legalData (r1 : UInt8) : ℕ := if r1 &&& sdR1Illegal = 0 then 4 else 0

/-- `sd_init` with whole bytes, and the type it finds. -/
def conversation : Talk × ℤ :=
  match Talk.ask s ⟨10, []⟩ sdCmd0 0 0x95 (fun _ ↦ 0) with
  | (t, e) =>
    if e.r1 ≠ sdR1Idle then (t, 0)
    else
      match t.ask s sdCmd8 0x1AA 0x87 legalData with
      | (t, e) =>
        if e.r1 &&& sdR1Illegal = 0 then
          if e.data.getD 3 0 &&& 0xAA ≠ 0xAA then (t, 0)
          else
            match t.untilReady s 0x40000000 2000 e.r1 with
            | (t, r1) =>
              if r1 ≠ 0 then (t, 0)
              else
                match t.ask s sdCmd58 0 0xFF (fun _ ↦ 4) with
                | (t, e) => (t, if e.data.getD 0 0 &&& 0x40 ≠ 0 then sdcardV2hc else sdcardV2)
        else
          match t.untilReady s 0 2000 e.r1 with
          | (t, r1) =>
            if r1 ≠ 0 then (t, 0)
            else ((t.ask s sdCmd16 512 0xFF (fun _ ↦ 0)).1, sdcardV1)

end Bytes

section Wire

variable {dat : ℕ → Word} {start : ℕ} {led : Word} {s : ℕ → UInt8} {b : Board} {t : Talk}
  {before : List Bool}

theorem carries_from (hcarry : Carries dat start s) (p : ℕ) :
    Carries dat (start + 8 * p) (fun k ↦ s (p + k)) := by
  intro k
  rw [← hcarry (p + k), Nat.mul_add, Nat.add_assoc]

theorem respond_first {p k : ℕ} (h : FirstAt isResponse (fun k ↦ s (p + k)) 7 8 k) :
    respond s (p + 7) = (k + 1, s (p + (7 + k))) := by
  have hfind : (List.range 8).find? (fun k ↦ isResponse (s (p + 7 + k))) = some k := by
    rw [List.find?_range_eq_some]
    have hstops : isResponse (s (p + (7 + k))) = true := h.stops
    refine ⟨by rwa [Nat.add_assoc], List.mem_range.mpr h.inTime, fun q hq ↦ ?_⟩
    have hbefore : isResponse (s (p + (7 + q))) = false := h.before q hq
    rw [Nat.add_assoc, hbefore]
    rfl
  rw [respond, hfind, ← Nat.add_assoc]

theorem respond_none {p : ℕ} (h : ∀ k, ¬ FirstAt isResponse (fun k ↦ s (p + k)) 7 8 k) :
    respond s (p + 7) = (8, 0xFF) := by
  cases hfind : (List.range 8).find? (fun k ↦ isResponse (s (p + 7 + k))) with
  | none => rw [respond, hfind]
  | some k =>
    rw [List.find?_range_eq_some] at hfind
    obtain ⟨hstops, hk, hbefore⟩ := hfind
    refine absurd ⟨List.mem_range.mp hk, ?_, fun q hq ↦ ?_⟩ (h k)
    · show isResponse (s (p + (7 + k))) = true
      rwa [← Nat.add_assoc]
    · have hq' := hbefore q hq
      show isResponse (s (p + (7 + q))) = false
      rwa [Nat.add_assoc, Bool.not_eq_true'] at hq'

theorem ask_spec {p : ℕ} {out : List Bool} (hcarry : Carries dat start s)
    (hsel : led.getLsbD 17 = false) (h : Left start led b p out) (cmd : UInt8) (arg : Word)
    (crc7 : UInt8) :
    ∃ b', ask dat b cmd arg crc7 = (b', (respond s (p + 7)).2) ∧
      Session start led b' (p + 7 + (respond s (p + 7)).1)
        (out ++ idle 1 ++ (commandBytes cmd arg crc7).flatMap bits ++
          idle (respond s (p + 7)).1) := by
  have hcarry' : Carries dat b.reads (fun k ↦ s (p + k)) := by
    rw [h.reads]
    exact carries_from hcarry p
  have hled : b.ledRed &&& ~~~sdCsBit = led := by
    apply BitVec.eq_of_getLsbD_eq
    intro i hi
    rw [h.ledRed]
    by_cases h₁₇ : i = 17
    · rw [h₁₇, hsel]
      simp [sdCsBit]
    · have hbit : sdCsBit.getLsbD i = false := by
        rw [show sdCsBit = BitVec.twoPow 32 17 from rfl, BitVec.getLsbD_twoPow]
        simp [Ne.symm h₁₇]
      rw [BitVec.getLsbD_and, BitVec.getLsbD_or, BitVec.getLsbD_not, hbit]
      simp [hi]
  have hselected := select_spec hcarry'
  have hlow : (0 : Word).getLsbD 0 = false := rfl
  have hone : (bits 0xFF).drop 0 = idle 1 := rfl
  rw [hled, h.clock, hlow, if_neg Bool.false_ne_true, hone, h.sent, h.reads] at hselected
  have hshift {b' : Board} {n : ℕ} {out' : List Bool} (hs : Session (start + 8 * p) led b' n out') :
      Session start led b' (p + n) out' :=
    ⟨hs.ledRed, hs.clock, by rw [hs.reads]; omega, hs.sent⟩
  rcases sdCmd_spec (carries_from hcarry p) hsel hselected cmd arg crc7 with
    ⟨k, b', hfirst, hcmd, hsession⟩ | ⟨b', hnone, hcmd, hsession⟩
  · rw [respond_first hfirst]
    refine ⟨b', hcmd, ?_⟩
    have hcount : p + 7 + (k + 1) = p + (8 + k) := by omega
    rw [hcount]
    exact hshift hsession
  · rw [respond_none hnone]
    refine ⟨b', hcmd, ?_⟩
    rw [Nat.add_assoc p 7 8]
    exact hshift hsession

theorem start_bit (cmd : UInt8) : cmd < 0x40 → (0x40 ||| cmd).toBitVec.getLsbD 7 = false := by
  revert cmd
  exact forall_byte (by decide +kernel)

theorem frame_bits {cmd : UInt8} (hcmd : cmd < 0x40) (arg : Word) (crc7 : UInt8) :
    ((commandBytes cmd arg crc7).flatMap bits).length = 48 ∧
      ((commandBytes cmd arg crc7).flatMap bits).head? ≠ some true := by
  constructor
  · simp [commandBytes, bits]
  · rw [commandBytes, List.flatMap_cons, bits]
    simp only [List.map_cons, List.cons_append, List.head?_cons, start_bit cmd hcmd]
    decide

/-- All that the selected card has heard are the commands of a conversation. -/
structure Heard (start : ℕ) (led : Word) (before : List Bool) (b : Board) (t : Talk) : Prop where
  rest : ∃ added, Left start led b t.bytes (before ++ added) ∧ added.length + 80 = 8 * t.bytes ∧
    received true 48 added = ⟨t.said.map Exchange.frame, []⟩

theorem Heard.ask_read (hcarry : Carries dat start s) (hsel : led.getLsbD 17 = false)
    (h : Heard start led before b t) {cmd : UInt8} (hcmd : cmd < 0x40) (arg : Word) (crc7 : UInt8)
    (extra : UInt8 → ℕ) :
    ∃ b', ask dat b cmd arg crc7 = (b', (t.ask s cmd arg crc7 extra).2.r1) ∧
      ∀ buf, ∃ b'' buf', readBytes dat (extra (t.ask s cmd arg crc7 extra).2.r1) 0 b' buf = (b'', buf') ∧
        (∀ i < extra (t.ask s cmd arg crc7 extra).2.r1,
          buf' i = (t.ask s cmd arg crc7 extra).2.data.getD i 0) ∧
        Heard start led before (leave dat b'') (t.ask s cmd arg crc7 extra).1 := by
  obtain ⟨added, hleft, hlength, hreceived⟩ := h.rest
  obtain ⟨b', hask, hsession⟩ := ask_spec hcarry hsel hleft cmd arg crc7
  generalize hrespond : respond s (t.bytes + 7) = response at hask hsession
  obtain ⟨n, r1⟩ := response
  have htalk : t.ask s cmd arg crc7 extra = (⟨t.bytes + 7 + n + extra r1 + 1, t.said ++
      [⟨cmd, arg, crc7, r1, (List.range (extra r1)).map (fun i ↦ s (t.bytes + 7 + n + i))⟩]⟩,
      ⟨cmd, arg, crc7, r1, (List.range (extra r1)).map (fun i ↦ s (t.bytes + 7 + n + i))⟩) := by
    simp only [Talk.ask, hrespond]
  rw [htalk]
  refine ⟨b', hask, fun buf ↦ ?_⟩
  obtain ⟨b'', hread, hend⟩ := readBytes_spec hcarry hsel hsession (extra r1) 0 buf
  refine ⟨b'', _, hread, fun i hi ↦ ?_, ⟨added ++ idle 1 ++
    (commandBytes cmd arg crc7).flatMap bits ++ idle (n + extra r1 + 1), ?_, ?_, ?_⟩⟩
  · have hi' : i < extra r1 := hi
    simp [hi']
  · have hleave := leave_spec hcarry hsel hend
    simp only [← idle_add, List.append_assoc] at hleave ⊢
    exact hleave
  · simp only [List.length_append, idle_eq, List.length_replicate, (frame_bits hcmd arg crc7).1]
    omega
  · have hrest : (received true 48 added).shift = [] := by rw [hreceived]
    obtain ⟨hlen, hhead⟩ := frame_bits hcmd arg crc7
    have hone : received true 48 (added ++ idle 1) = received true 48 added := by
      rw [idle_eq]
      exact received_idle hrest _
    have hframe := received_frame (hone ▸ hrest) hlen (by decide) hhead
    rw [idle_eq (n + _ + 1), received_idle (by rw [hframe]), hframe, hone, hreceived, List.map_append]
    rfl

theorem Heard.ask (hcarry : Carries dat start s) (hsel : led.getLsbD 17 = false)
    (h : Heard start led before b t) {cmd : UInt8} (hcmd : cmd < 0x40) (arg : Word) (crc7 : UInt8) :
    ∃ b', SdInit.ask dat b cmd arg crc7 = (b', (t.ask s cmd arg crc7 (fun _ ↦ 0)).2.r1) ∧
      Heard start led before (leave dat b') (t.ask s cmd arg crc7 (fun _ ↦ 0)).1 := by
  obtain ⟨b', hask, hread⟩ := h.ask_read hcarry hsel hcmd arg crc7 (fun _ ↦ 0)
  obtain ⟨b'', buf', hnone, -, hheard⟩ := hread (fun _ ↦ 0)
  obtain ⟨rfl, -⟩ := Prod.mk.inj hnone
  exact ⟨b', hask, hheard⟩

theorem Heard.untilReady (hcarry : Carries dat start s) (hsel : led.getLsbD 17 = false)
    (h : Heard start led before b t) (arg : Word) (retries : ℕ) (r1 : UInt8) :
    ∃ b', SdInit.untilReady dat arg retries r1 b = (b', (t.untilReady s arg retries r1).2) ∧
      Heard start led before b' (t.untilReady s arg retries r1).1 := by
  induction retries generalizing b t r1 with
  | zero => exact ⟨b, rfl, h⟩
  | succ retries ih =>
    obtain ⟨b₁, hask₁, h₁⟩ := h.ask hcarry hsel (show sdCmd55 < 0x40 by decide) 0 0xFF
    obtain ⟨b₂, hask₂, h₂⟩ := h₁.ask hcarry hsel (show sdAcmd41 < 0x40 by decide) arg 0xFF
    simp only [SdInit.untilReady, Talk.untilReady, hask₁, hask₂]
    split_ifs with hready
    · exact ⟨_, rfl, h₂⟩
    · exact ih h₂ _

/-- A card that is not selected hears nothing. -/
theorem xferBit_quiet (dat : ℕ → Word) (hsel : b.ledRed.getLsbD 17 = true) (byte acc : UInt8) (i : ℕ) :
    ∃ b' acc', spiXferBit dat byte (b, acc) i = (b', acc') ∧ b'.ledRed = b.ledRed ∧ b'.sdClk = 0 ∧
      b'.reads = b.reads + 1 ∧ b'.sent = b.sent := by
  refine ⟨_, _, rfl, rfl, rfl, rfl, ?_⟩
  simp [spiClk, spiMosi, Board.selected, hsel]

theorem xferBits_quiet (dat : ℕ → Word) (hsel : b.ledRed.getLsbD 17 = true) (hclk : b.sdClk = 0)
    (byte acc : UInt8) (is : List ℕ) :
    ∃ b' acc', is.foldl (spiXferBit dat byte) (b, acc) = (b', acc') ∧ b'.ledRed = b.ledRed ∧
      b'.sdClk = 0 ∧ b'.reads = b.reads + is.length ∧ b'.sent = b.sent := by
  induction is generalizing b acc with
  | nil => exact ⟨b, acc, rfl, rfl, hclk, rfl, rfl⟩
  | cons i is ih =>
    obtain ⟨b₁, acc₁, hbit, hled₁, hclk₁, hreads₁, hsent₁⟩ := xferBit_quiet dat hsel byte acc i
    obtain ⟨b₂, acc₂, hrest, hled₂, hclk₂, hreads₂, hsent₂⟩ := ih (hled₁ ▸ hsel) hclk₁ acc₁
    refine ⟨b₂, acc₂, ?_, hled₂.trans hled₁, hclk₂, ?_, hsent₂.trans hsent₁⟩
    · rw [List.foldl_cons, hbit, hrest]
    · rw [hreads₂, hreads₁, List.length_cons]
      omega

theorem spiDummy_quiet (dat : ℕ → Word) (hsel : b.ledRed.getLsbD 17 = true) (hclk : b.sdClk = 0)
    (count : ℕ) :
    (spiDummy dat b count).ledRed = b.ledRed ∧ (spiDummy dat b count).sdClk = 0 ∧
      (spiDummy dat b count).reads = b.reads + 8 * count ∧
      (spiDummy dat b count).sent = b.sent := by
  induction count generalizing b with
  | zero => exact ⟨rfl, hclk, rfl, rfl⟩
  | succ count ih =>
    obtain ⟨b₁, acc, hbits, hled, hclk₁, hreads, hsent⟩ :=
      xferBits_quiet dat hsel hclk 0xFF 0 [7, 6, 5, 4, 3, 2, 1, 0]
    have hxfer : spiXfer dat b 0xFF = (b₁, acc) := hbits
    have hnext : spiDummy dat b (count + 1) = spiDummy dat b₁ count := by
      rw [spiDummy, spiSend, List.replicate_succ, List.foldl_cons, hxfer]
      rfl
    obtain ⟨hled', hclk', hreads', hsent'⟩ := ih (hled ▸ hsel) hclk₁
    rw [hnext]
    refine ⟨hled'.trans hled, hclk', ?_, hsent'.trans hsent⟩
    rw [hreads', hreads]
    simp only [List.length_cons, List.length_nil]
    omega

theorem powerUp_spec (dat : ℕ → Word) (b : Board) :
    Left b.reads (b.ledRed &&& ~~~sdCsBit) (powerUp dat b) 10 b.sent := by
  have hset : (spiCsDeassert (spiClk b false)).ledRed.getLsbD 17 = true := by
    simp [spiCsDeassert, spiClk, sdCsBit]
  obtain ⟨hled, hclk, hreads, hsent⟩ := spiDummy_quiet dat hset rfl 10
  refine ⟨?_, hclk, hreads, hsent⟩
  rw [powerUp, hled]
  apply BitVec.eq_of_getLsbD_eq
  intro i hi
  have hbit : (spiCsDeassert (spiClk b false)).ledRed = b.ledRed ||| sdCsBit := rfl
  rw [hbit, BitVec.getLsbD_or, BitVec.getLsbD_or, BitVec.getLsbD_and, BitVec.getLsbD_not]
  cases sdCsBit.getLsbD i <;> simp [hi]

theorem heard_powerUp (dat : ℕ → Word) (b : Board) :
    Heard b.reads (b.ledRed &&& ~~~sdCsBit) b.sent (powerUp dat b) ⟨10, []⟩ := by
  refine ⟨[], ?_, rfl, rfl⟩
  rw [List.append_nil]
  exact powerUp_spec dat b

/-- How the function ends: the conversation has been heard and its type is returned. -/
structure Ended (start : ℕ) (led : Word) (before : List Bool) (r : Init) (c : Talk × ℤ) : Prop where
  heard : Heard start led before r.board c.1
  gCardType : r.gCardType = c.2
  ret : r.ret = if c.2 = 0 then 0 else 1

theorem init_ended (hcarry : Carries dat b.reads s) :
    Ended b.reads (b.ledRed &&& ~~~sdCsBit) b.sent (sdInit dat b) (conversation s) := by
  have hsel : (b.ledRed &&& ~~~sdCsBit).getLsbD 17 = false := by
    simp [sdCsBit]
  have hstart := heard_powerUp dat b
  generalize b.ledRed &&& ~~~sdCsBit = led at hsel hstart
  obtain ⟨b₀, hask₀, h₀⟩ := hstart.ask hcarry hsel (show sdCmd0 < 0x40 by decide) 0 0x95
  simp only [sdInit, conversation, hask₀]
  generalize Talk.ask s ⟨10, []⟩ sdCmd0 0 0x95 (fun _ ↦ 0) = x₀ at h₀
  obtain ⟨t₀, e₀⟩ := x₀
  by_cases hidle : e₀.r1 ≠ sdR1Idle
  · simp only [if_pos hidle]
    exact ⟨h₀, rfl, rfl⟩
  simp only [if_neg hidle]
  obtain ⟨b₁, hask₁, hread₁⟩ :=
    h₀.ask_read hcarry hsel (show sdCmd8 < 0x40 by decide) 0x1AA 0x87 legalData
  simp only [hask₁]
  generalize Talk.ask s t₀ sdCmd8 0x1AA 0x87 legalData = x₁ at hread₁
  obtain ⟨t₁, e₁⟩ := x₁
  simp only at hread₁ ⊢
  obtain ⟨b₂, ocr, hread₁, hocr, h₁⟩ := hread₁ (fun _ ↦ 0)
  by_cases hlegal : e₁.r1 &&& sdR1Illegal = 0
  · rw [legalData, if_pos hlegal] at hread₁ hocr
    simp only [if_pos hlegal, hread₁, hocr 3 (by decide)]
    by_cases hvoltage : e₁.data.getD 3 0 &&& 0xAA ≠ 0xAA
    · simp only [if_pos hvoltage]
      exact ⟨h₁, rfl, rfl⟩
    simp only [if_neg hvoltage]
    obtain ⟨b₃, hready, h₂⟩ := h₁.untilReady hcarry hsel 0x40000000 2000 e₁.r1
    simp only [hready]
    generalize Talk.untilReady s 0x40000000 2000 e₁.r1 t₁ = x₂ at h₂
    obtain ⟨t₂, r1⟩ := x₂
    by_cases hbusy : r1 ≠ 0
    · simp only [if_pos hbusy]
      exact ⟨h₂, rfl, rfl⟩
    simp only [if_neg hbusy]
    obtain ⟨b₄, hask₃, hread₃⟩ :=
      h₂.ask_read hcarry hsel (show sdCmd58 < 0x40 by decide) 0 0xFF (fun _ ↦ 4)
    obtain ⟨b₅, ocr', hread₃, hocr', h₃⟩ := hread₃ ocr
    simp only [hask₃, hread₃, hocr' 0 (by decide)]
    exact ⟨h₃, rfl, (if_neg (by split_ifs <;> simp [sdcardV2hc, sdcardV2])).symm⟩
  · rw [legalData, if_neg hlegal] at hread₁
    obtain ⟨rfl, -⟩ := Prod.mk.inj hread₁
    simp only [if_neg hlegal]
    obtain ⟨b₃, hready, h₂⟩ := h₁.untilReady hcarry hsel 0 2000 e₁.r1
    simp only [hready]
    generalize Talk.untilReady s 0 2000 e₁.r1 t₁ = x₂ at h₂
    obtain ⟨t₂, r1⟩ := x₂
    by_cases hbusy : r1 ≠ 0
    · simp only [if_pos hbusy]
      exact ⟨h₂, rfl, rfl⟩
    simp only [if_neg hbusy]
    obtain ⟨b₄, hask₃, h₃⟩ := h₂.ask hcarry hsel (show sdCmd16 < 0x40 by decide) 512 0xFF
    simp only [hask₃]
    exact ⟨h₃, rfl, rfl⟩

end Wire

section Protocol

def reset (r1 : UInt8) : Exchange := ⟨sdCmd0, 0, 0x95, r1, []⟩

def interface (r1 : UInt8) (data : List UInt8) : Exchange := ⟨sdCmd8, 0x1AA, 0x87, r1, data⟩

def poll (arg : Word) (rounds : List (UInt8 × UInt8)) : List Exchange :=
  rounds.flatMap (fun r ↦ [⟨sdCmd55, 0, 0xFF, r.1, []⟩, ⟨sdAcmd41, arg, 0xFF, r.2, []⟩])

/-- The card is asked until it says that it is ready, so many times at most. -/
inductive Polled : ℕ → List (UInt8 × UInt8) → Bool → Prop
  | tired : Polled 0 [] false
  | ready {n : ℕ} (r : UInt8) : Polled (n + 1) [(r, 0)] true
  | busy {n : ℕ} {rounds : List (UInt8 × UInt8)} {ready : Bool} (r : UInt8) {r' : UInt8} :
      r' ≠ 0 → Polled n rounds ready → Polled (n + 1) ((r, r') :: rounds) ready

/-- The dialogues of an initialisation with the types that they lead to; 0 is none. -/
inductive Script : List Exchange → ℤ → Prop
  | noReset {r : UInt8} : r ≠ sdR1Idle → Script [reset r] 0
  | voltage {r : UInt8} {r7 : List UInt8} : r &&& sdR1Illegal = 0 → r7.length = 4 →
      r7.getD 3 0 &&& 0xAA ≠ 0xAA → Script [reset sdR1Idle, interface r r7] 0
  | busyV2 {r : UInt8} {r7 : List UInt8} {rounds : List (UInt8 × UInt8)} :
      r &&& sdR1Illegal = 0 → r7.length = 4 → r7.getD 3 0 &&& 0xAA = 0xAA →
      Polled 2000 rounds false →
      Script ([reset sdR1Idle, interface r r7] ++ poll 0x40000000 rounds) 0
  | readyV2 {r r' : UInt8} {r7 ocr : List UInt8} {rounds : List (UInt8 × UInt8)} :
      r &&& sdR1Illegal = 0 → r7.length = 4 → r7.getD 3 0 &&& 0xAA = 0xAA →
      Polled 2000 rounds true → ocr.length = 4 →
      Script ([reset sdR1Idle, interface r r7] ++ poll 0x40000000 rounds ++
        [⟨sdCmd58, 0, 0xFF, r', ocr⟩])
        (if ocr.getD 0 0 &&& 0x40 ≠ 0 then sdcardV2hc else sdcardV2)
  | busyV1 {r : UInt8} {rounds : List (UInt8 × UInt8)} : r &&& sdR1Illegal ≠ 0 →
      Polled 2000 rounds false → Script ([reset sdR1Idle, interface r []] ++ poll 0 rounds) 0
  | readyV1 {r r' : UInt8} {rounds : List (UInt8 × UInt8)} : r &&& sdR1Illegal ≠ 0 →
      Polled 2000 rounds true →
      Script ([reset sdR1Idle, interface r []] ++ poll 0 rounds ++
        [⟨sdCmd16, 512, 0xFF, r', []⟩]) sdcardV1

def Answered (s : ℕ → UInt8) : ℕ → List Exchange → Prop
  | _, [] => True
  | p, e :: es => (respond s (p + 7)).2 = e.r1 ∧
      e.data = (List.range e.data.length).map (fun i ↦ s (p + 7 + (respond s (p + 7)).1 + i)) ∧
      Answered s (p + 7 + (respond s (p + 7)).1 + e.data.length + 1) es

variable {s : ℕ → UInt8} {t : Talk} {arg : Word} {retries : ℕ} {r1 : UInt8}

theorem respond_le (s : ℕ → UInt8) (p : ℕ) : (respond s p).1 ≤ 8 := by
  rw [respond]
  cases hfind : (List.range 8).find? (fun k ↦ isResponse (s (p + k))) with
  | none => exact le_rfl
  | some k =>
    have hk := List.mem_range.mp (List.mem_of_find?_eq_some hfind)
    exact hk

structure Follows (s : ℕ → UInt8) (t : Talk) (limit : ℕ) : Prop where
  answered : ∀ es, Answered s t.bytes es → Answered s 10 (t.said ++ es)
  bytes_le : t.bytes ≤ limit

theorem follows_start (s : ℕ → UInt8) : Follows s ⟨10, []⟩ 10 := ⟨fun _ h ↦ h, le_rfl⟩

theorem Follows.ask {limit n : ℕ} (h : Follows s t limit) (cmd : UInt8) (arg : Word) (crc7 : UInt8)
    (extra : UInt8 → ℕ) (hn : ∀ r1, extra r1 ≤ n) :
    Follows s (t.ask s cmd arg crc7 extra).1 (limit + 16 + n) := by
  refine ⟨fun es hes ↦ ?_, ?_⟩
  · have hnext := h.answered ((t.ask s cmd arg crc7 extra).2 :: es) ?_
    · simpa [Talk.ask, List.append_assoc] using hnext
    · refine ⟨rfl, ?_, ?_⟩
      · simp [Talk.ask]
      · simpa [Talk.ask] using hes
  · have hle := h.bytes_le
    have hresponse := respond_le s (t.bytes + 7)
    have hextra := hn (respond s (t.bytes + 7)).2
    simp only [Talk.ask]
    omega

theorem Follows.untilReady {limit : ℕ} (h : Follows s t limit) (arg : Word) (retries : ℕ)
    (r1 : UInt8) (hr1 : 0 < retries ∨ r1 ≠ 0) :
    ∃ rounds ready, (t.untilReady s arg retries r1).1.said = t.said ++ poll arg rounds ∧
      Polled retries rounds ready ∧ (ready = true ↔ (t.untilReady s arg retries r1).2 = 0) ∧
      Follows s (t.untilReady s arg retries r1).1 (limit + 32 * retries) := by
  induction retries generalizing t r1 limit with
  | zero =>
    have hne : r1 ≠ 0 := hr1.resolve_left (lt_irrefl 0)
    refine ⟨[], false, by simp [Talk.untilReady, poll], .tired, ?_, h⟩
    simp [Talk.untilReady, hne]
  | succ retries ih =>
    have h₁ := h.ask sdCmd55 0 0xFF (fun _ ↦ 0) (fun _ ↦ le_rfl)
    have h₂ := h₁.ask sdAcmd41 arg 0xFF (fun _ ↦ 0) (fun _ ↦ le_rfl)
    obtain ⟨r, hsaid⟩ : ∃ r,
        ((t.ask s sdCmd55 0 0xFF (fun _ ↦ 0)).1.ask s sdAcmd41 arg 0xFF (fun _ ↦ 0)).1.said =
          t.said ++ poll arg [(r,
            ((t.ask s sdCmd55 0 0xFF (fun _ ↦ 0)).1.ask s sdAcmd41 arg 0xFF (fun _ ↦ 0)).2.r1)] := by
      refine ⟨(t.ask s sdCmd55 0 0xFF (fun _ ↦ 0)).2.r1, ?_⟩
      simp [Talk.ask, poll]
    simp only [Talk.untilReady]
    generalize (t.ask s sdCmd55 0 0xFF (fun _ ↦ 0)).1.ask s sdAcmd41 arg 0xFF (fun _ ↦ 0) = x at h₂ hsaid
    obtain ⟨t₂, e⟩ := x
    simp only at h₂ hsaid ⊢
    by_cases hready : e.r1 = 0
    · simp only [if_pos hready]
      refine ⟨[(r, e.r1)], true, hsaid, ?_, iff_of_true rfl hready, h₂.answered, ?_⟩
      · rw [hready]
        exact .ready r
      · have hle := h₂.bytes_le
        omega
    · simp only [if_neg hready]
      obtain ⟨rounds, ready, hrest, hpolled, hend, hfollows⟩ := ih h₂ e.r1 (.inr hready)
      refine ⟨(r, e.r1) :: rounds, ready, ?_, .busy r hready hpolled, hend, hfollows.answered, ?_⟩
      · rw [hrest, hsaid, List.append_assoc]
        rfl
      · have hle := hfollows.bytes_le
        omega

theorem legalData_le (r1 : UInt8) : legalData r1 ≤ 4 := by
  unfold legalData
  split_ifs <;> omega

theorem Follows.mono {limit limit' : ℕ} (h : Follows s t limit) (hle : limit ≤ limit') :
    Follows s t limit' :=
  ⟨h.answered, h.bytes_le.trans hle⟩

theorem conversation_script (s : ℕ → UInt8) :
    Script (conversation s).1.said (conversation s).2 ∧ Follows s (conversation s).1 64066 := by
  have h₀ := (follows_start s).ask sdCmd0 0 0x95 (fun _ ↦ 0) (fun _ ↦ le_rfl)
  have hsaid₀ : (Talk.ask s ⟨10, []⟩ sdCmd0 0 0x95 (fun _ ↦ 0)).1.said =
      [reset (Talk.ask s ⟨10, []⟩ sdCmd0 0 0x95 (fun _ ↦ 0)).2.r1] := rfl
  simp only [conversation]
  generalize Talk.ask s ⟨10, []⟩ sdCmd0 0 0x95 (fun _ ↦ 0) = x₀ at h₀ hsaid₀
  obtain ⟨t₀, e₀⟩ := x₀
  simp only at h₀ hsaid₀ ⊢
  by_cases hidle : e₀.r1 ≠ sdR1Idle
  · simp only [if_pos hidle]
    exact ⟨hsaid₀ ▸ .noReset hidle, h₀.mono (by decide)⟩
  simp only [if_neg hidle]
  rw [not_not.mp hidle] at hsaid₀
  have h₁ := h₀.ask sdCmd8 0x1AA 0x87 legalData legalData_le
  obtain ⟨r7, hsaid₁, hr7, hdata⟩ : ∃ r7, (t₀.ask s sdCmd8 0x1AA 0x87 legalData).1.said =
      [reset sdR1Idle, interface (t₀.ask s sdCmd8 0x1AA 0x87 legalData).2.r1 r7] ∧
      r7.length = legalData (t₀.ask s sdCmd8 0x1AA 0x87 legalData).2.r1 ∧
      r7 = (t₀.ask s sdCmd8 0x1AA 0x87 legalData).2.data := by
    refine ⟨_, ?_, ?_, rfl⟩
    · simp [Talk.ask, hsaid₀, interface]
    · simp [Talk.ask]
  generalize t₀.ask s sdCmd8 0x1AA 0x87 legalData = x₁ at h₁ hsaid₁ hr7 hdata
  obtain ⟨t₁, e₁⟩ := x₁
  simp only at h₁ hsaid₁ hr7 hdata ⊢
  subst hdata
  by_cases hlegal : e₁.r1 &&& sdR1Illegal = 0
  · simp only [if_pos hlegal]
    rw [legalData, if_pos hlegal] at hr7
    by_cases hvoltage : e₁.data.getD 3 0 &&& 0xAA ≠ 0xAA
    · simp only [if_pos hvoltage]
      exact ⟨hsaid₁ ▸ .voltage hlegal hr7 hvoltage, h₁.mono (by decide)⟩
    simp only [if_neg hvoltage]
    obtain ⟨rounds, ready, hsaid₂, hpolled, hready, h₂⟩ :=
      h₁.untilReady 0x40000000 2000 e₁.r1 (.inl (by decide))
    generalize t₁.untilReady s 0x40000000 2000 e₁.r1 = x₂ at hsaid₂ hready h₂
    obtain ⟨t₂, r1⟩ := x₂
    simp only at hsaid₂ hready h₂ ⊢
    rw [hsaid₁] at hsaid₂
    by_cases hbusy : r1 ≠ 0
    · simp only [if_pos hbusy]
      obtain rfl : ready = false := Bool.eq_false_iff.mpr (fun hr ↦ hbusy (hready.mp hr))
      exact ⟨hsaid₂ ▸ .busyV2 hlegal hr7 (not_not.mp hvoltage) hpolled, h₂.mono (by decide)⟩
    simp only [if_neg hbusy]
    obtain rfl : ready = true := hready.mpr (not_not.mp hbusy)
    have h₃ := h₂.ask sdCmd58 0 0xFF (fun _ ↦ 4) (fun _ ↦ le_rfl)
    refine ⟨?_, h₃.mono (by decide)⟩
    have hsaid₃ : (t₂.ask s sdCmd58 0 0xFF (fun _ ↦ 4)).1.said = t₂.said ++
        [⟨sdCmd58, 0, 0xFF, (t₂.ask s sdCmd58 0 0xFF (fun _ ↦ 4)).2.r1,
          (t₂.ask s sdCmd58 0 0xFF (fun _ ↦ 4)).2.data⟩] := rfl
    rw [hsaid₃, hsaid₂]
    exact .readyV2 hlegal hr7 (not_not.mp hvoltage) hpolled (by simp [Talk.ask])
  · simp only [if_neg hlegal]
    rw [legalData, if_neg hlegal, List.length_eq_zero_iff] at hr7
    rw [hr7] at hsaid₁
    obtain ⟨rounds, ready, hsaid₂, hpolled, hready, h₂⟩ :=
      h₁.untilReady 0 2000 e₁.r1 (.inl (by decide))
    generalize t₁.untilReady s 0 2000 e₁.r1 = x₂ at hsaid₂ hready h₂
    obtain ⟨t₂, r1⟩ := x₂
    simp only at hsaid₂ hready h₂ ⊢
    rw [hsaid₁] at hsaid₂
    by_cases hbusy : r1 ≠ 0
    · simp only [if_pos hbusy]
      obtain rfl : ready = false := Bool.eq_false_iff.mpr (fun hr ↦ hbusy (hready.mp hr))
      exact ⟨hsaid₂ ▸ .busyV1 hlegal hpolled, h₂.mono (by decide)⟩
    simp only [if_neg hbusy]
    obtain rfl : ready = true := hready.mpr (not_not.mp hbusy)
    have h₃ := h₂.ask sdCmd16 512 0xFF (fun _ ↦ 0) (fun _ ↦ le_rfl)
    refine ⟨?_, h₃.mono (by decide)⟩
    have hsaid₃ : (t₂.ask s sdCmd16 512 0xFF (fun _ ↦ 0)).1.said = t₂.said ++
        [⟨sdCmd16, 512, 0xFF, (t₂.ask s sdCmd16 512 0xFF (fun _ ↦ 0)).2.r1, []⟩] := rfl
    rw [hsaid₃, hsaid₂]
    exact .readyV1 hlegal hpolled

end Protocol

/-- Whatever the card sends, it is left 80 clocks to power up and then hears the frames of
one of the dialogues and nothing else; the type is known exactly if 1 is returned. -/
theorem init_protocol (dat : ℕ → Word) (b : Board) (s : ℕ → UInt8) (hcarry : Carries dat b.reads s) :
    let r := sdInit dat b
    ((powerUp dat b).reads = b.reads + 80 ∧ (powerUp dat b).sent = b.sent ∧
      (powerUp dat b).ledRed.getLsbD 17 = true) ∧
    (∃ said added, Script said r.gCardType ∧ Answered s 10 said ∧
      r.board.sent = b.sent ++ added ∧
      received true 48 added = ⟨said.map Exchange.frame, []⟩ ∧
      r.board.reads = b.reads + 80 + added.length ∧ added.length ≤ 8 * 64056) ∧
    (r.ret = 1 ↔ r.gCardType ≠ 0) ∧ (r.ret = 0 ∨ r.ret = 1) ∧
    r.board.ledRed.getLsbD 17 = true ∧ (∀ i ≠ 17, r.board.ledRed.getLsbD i = b.ledRed.getLsbD i) ∧
    r.board.sdClk = 0 := by
  intro r
  obtain ⟨hset, hother⟩ := cs_bits b.ledRed
  have hup := powerUp_spec dat b
  have hend : Ended _ _ _ r _ := init_ended hcarry
  obtain ⟨hscript, hfollows⟩ := conversation_script s
  obtain ⟨added, hleft, hlength, hreceived⟩ := hend.heard.rest
  have hle := hfollows.bytes_le
  have hanswered : Answered s 10 (conversation s).1.said := by
    simpa using hfollows.answered [] trivial
  rw [← hend.gCardType] at hscript
  have hret := hend.ret
  rw [← hend.gCardType] at hret
  refine ⟨⟨hup.reads, hup.sent, hup.ledRed ▸ hset⟩, ⟨_, added, hscript, hanswered, hleft.sent,
    hreceived, ?_, ?_⟩, ?_, ?_, hleft.ledRed ▸ hset, fun i hi ↦ hleft.ledRed ▸ hother i hi, hleft.clock⟩
  · rw [hleft.reads]
    omega
  · omega
  · rw [hret]
    split_ifs with htype <;> simp [htype]
  · rw [hret]
    split_ifs <;> simp

section Cards

/-- A card: whether it knows CMD8, how it is addressed, how often it answers that it is
still busy, and its blocks. -/
structure SdCard where
  version2 : Bool
  highCapacity : Bool
  polls : ℕ
  image : ℕ → Sector
  new_of_large : highCapacity = true → version2 = true

variable (card : SdCard)

/-- What the card answers to a command behind earlier ones. A card of high capacity is not
ready for a host that does not ask for it. -/
def SdCard.response (earlier : List Exchange) (cmd : UInt8) (arg : Word) : UInt8 :=
  if cmd = sdCmd0 then 1
  else if cmd = sdCmd8 then if card.version2 then 1 else 5
  else if cmd = sdCmd55 then 1
  else if cmd = sdAcmd41 then
    if earlier.countP (fun e ↦ e.cmd = sdAcmd41) < card.polls ∨
      (card.highCapacity && !arg.getLsbD 30) then 1 else 0
  else 0

/-- A dialogue with this card: CMD8 echoes its pattern, and CMD58 tells the capacity. -/
structure SdCard.Plays (said : List Exchange) : Prop where
  r1 : ∀ i e, said[i]? = some e → e.r1 = card.response (said.take i) e.cmd e.arg
  echo : ∀ e ∈ said, e.cmd = sdCmd8 → card.version2 = true → e.data.getD 3 0 = byteOf e.arg
  capacity : ∀ e ∈ said, e.cmd = sdCmd58 →
    (e.data.getD 0 0 &&& 0x40 ≠ 0 ↔ card.highCapacity = true)

variable {card} {dat : ℕ → Word} {b : Board} {s : ℕ → UInt8} {arg : Word} {rounds : List (UInt8 × UInt8)} {n polls : ℕ} {ready : Bool}

theorem SdCard.Plays.answer {earlier later : List Exchange} {e : Exchange}
    (h : card.Plays (earlier ++ e :: later)) : e.r1 = card.response earlier e.cmd e.arg := by
  have hr := h.r1 earlier.length e (by simp)
  rwa [List.take_left] at hr

theorem SdCard.Plays.version {r : UInt8} {r7 : List UInt8} {rest : List Exchange}
    (h : card.Plays ([reset sdR1Idle, interface r r7] ++ rest)) :
    r &&& sdR1Illegal = 0 ↔ card.version2 = true := by
  have hr := h.r1 1 (interface r r7) rfl
  have hothers : sdCmd8 ≠ sdCmd0 := by decide
  simp only [interface, SdCard.response, hothers, if_false, if_true] at hr
  rw [hr]
  cases card.version2 <;> decide

def SdCard.block (card : SdCard) (address : Word) : ℕ :=
  if card.highCapacity then address.toNat else address.toNat / 512

/-- To the one frame that it hears the card sends the block that is asked for, or no
block at all. -/
def SdCard.Serves (card : SdCard) (s : ℕ → UInt8) (frames : List (List Bool)) : Prop :=
  ∀ address, frames = [(commandBytes sdCmd17 address 0xFF).flatMap bits] → ∀ k t, Delivers s k t →
    ∀ i < 512, s (9 + k + t + i) = card.image (card.block address) i

def SdCard.Sound (card : SdCard) (read : Word × Buffer) (r : SectorRead) : Prop :=
  (r.ret = 0 ∧ r.buf = read.2) ∨ (r.ret = 1 ∧ ∀ i < 512, r.buf i = card.image read.1.toNat i)

end Cards

section Examples

def quietBoard : Board := ⟨0, 0, 0, 0, 0, 0, []⟩

def largeBytes (n : ℕ) : UInt8 :=
  if n = 17 ∨ n = 26 ∨ n = 29 ∨ n = 39 then 1 else if n = 30 then 0xAA else if n = 58 then 0x40
  else if n = 71 then 0xFE else if 72 ≤ n then 7 else 0

theorem large_conversation : conversation largeBytes =
    (⟨63, [reset 1, interface 1 [0, 0, 1, 0xAA], ⟨sdCmd55, 0, 0xFF, 1, []⟩,
      ⟨sdAcmd41, 0x40000000, 0xFF, 0, []⟩, ⟨sdCmd58, 0, 0xFF, 0, [0x40, 0, 0, 0]⟩]⟩, sdcardV2hc) := by
  decide +kernel

/-- The card hears its five frames and nothing else, and is recognised. -/
theorem large_card_heard :
    let r := sdInit (wire largeBytes) quietBoard
    (powerUp (wire largeBytes) quietBoard).reads = 80 ∧
    received true 48 r.board.sent =
      ⟨[reset 1, interface 1 [0, 0, 1, 0xAA], ⟨sdCmd55, 0, 0xFF, 1, []⟩,
        ⟨sdAcmd41, 0x40000000, 0xFF, 0, []⟩, ⟨sdCmd58, 0, 0xFF, 0, [0x40, 0, 0, 0]⟩].map
          Exchange.frame, []⟩ ∧
    r.gCardType = sdcardV2hc ∧ r.ret = 1 ∧ r.board.reads = 80 + r.board.sent.length ∧
    r.board.ledRed.getLsbD 17 = true ∧ r.board.sdClk = 0 := by
  have hcarry : Carries (wire largeBytes) quietBoard.reads largeBytes := carries_wire largeBytes
  have hprotocol := init_protocol (wire largeBytes) quietBoard largeBytes hcarry
  have hend : Ended _ _ _ (sdInit (wire largeBytes) quietBoard) _ := init_ended hcarry
  generalize sdInit (wire largeBytes) quietBoard = r at hprotocol hend ⊢
  obtain ⟨⟨hpower, -, -⟩, ⟨said, added, -, -, hsent, -, hreads, -⟩, hret, -, hselect, -, hclock⟩ :=
    hprotocol
  obtain ⟨heard, hleft, -, hreceived⟩ := hend.heard.rest
  have hadded : r.board.sent = added := hsent.trans (List.nil_append added)
  have hheard : r.board.sent = heard := hleft.sent.trans (List.nil_append heard)
  have htype : r.gCardType = sdcardV2hc := by rw [hend.gCardType, large_conversation]
  rw [← hheard, large_conversation] at hreceived
  rw [← hadded] at hreads
  exact ⟨hpower, hreceived, htype, hret.mpr (by rw [htype]; decide), hreads, hselect, hclock⟩

end Examples

end FpgaDatabase.Firmware.SdInit
