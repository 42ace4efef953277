import FpgaDatabase.Network.PacketPool

namespace FpgaDatabase.Network.EthernetDriver

open Function PacketPool

section Source

def ioAddr : ℕ := 0
def ioData : ℕ := 1

def ncr : ℕ := 0x00
def nsr : ℕ := 0x01
def tcr : ℕ := 0x02
def rcr : ℕ := 0x05
def etxcsr : ℕ := 0x30
def mrcmdx : ℕ := 0xF0
def mrcmd : ℕ := 0xF2
def mwcmd : ℕ := 0xF8
def isr : ℕ := 0xFE
def imr : ℕ := 0xFF

def intrSet : ℕ := 0x81
def parSet : ℕ := 0x80
def pktReady : ℕ := 0x01
def maxPacketSize : ℕ := 1522

def ethhdrSize : ℕ := 16
def ethhdrBias : ℕ := 2

/-- The chip behind its two ports. It answers as it does; `iord` reads the data port. -/
structure Chip (σ : Type*) where
  iowr : ℕ → ℕ → σ → σ
  iord : σ → ℕ × σ

/-- A semaphore of one task, which is suspended on it if it waits. -/
structure Semaphore where
  cnt : ℕ
  waiting : Bool
  deriving DecidableEq

def osSemPost (e : Semaphore) : Semaphore :=
  if e.waiting then { e with waiting := false }
  else if e.cnt < 65535 then { e with cnt := e.cnt + 1 }
  else e

structure Shared where
  pool : Pool
  rcvdqSem : Semaphore
  ifInDiscards : ℕ
  autoReset : ℕ

variable {σ : Type*} (c : Chip σ) (iface : ℕ)

def iow (reg data : ℕ) (s : σ) : σ := c.iowr ioData data (c.iowr ioAddr reg s)

def ior (reg : ℕ) (s : σ) : ℕ × σ := c.iord (c.iowr ioAddr reg s)

/-- The first of the two reads is a dummy. -/
def rxReady (s : σ) : ℕ × σ :=
  match c.iord (ior c mrcmdx s).2 with
  | (rv, s) => (rv &&& 0x03, s)

/-- The rounds of a loop that counts to `rxLen` by twos. The bus has sixteen lines, so the
counter is far from its end. -/
def rounds (rxLen : ℕ) : ℕ := (rxLen + 1) / 2

def dump : ℕ → σ → σ
  | 0, s => s
  | n + 1, s => dump n (c.iord s).2

def copyIn : ℕ → ℕ → List UInt8 → σ → List UInt8 × σ
  | 0, _, memory, s => (memory, s)
  | n + 1, i, memory, s =>
    match c.iord s with
    | (tmp, s) =>
      copyIn n (i + 2) ((memory.set i (UInt8.ofNat (tmp &&& 0xFF))).set (i + 1)
        (UInt8.ofNat ((tmp >>> 8) &&& 0xFF))) s

def eType (memory : List UInt8) : ℕ :=
  (memory[alignType + ethhdrBias + 12]?.getD 0).toNat +
    256 * (memory[alignType + ethhdrBias + 13]?.getD 0).toNat

def fillIn (rxLen : ℕ) (b : Netbuf) : Netbuf :=
  { b with
    prot := ethhdrSize
    plen := (rxLen + 4294967282) % 4294967296
    net := some iface
    type := eType b.memory }

/-- The body of the loop in `dm9000a_isr`. -/
def receiveOne (s : σ) (d : Shared) : σ × Shared :=
  match c.iord (c.iowr ioAddr mrcmd s) with
  | (rxSts, s) =>
    match c.iord s with
    | (rxLen, s) =>
      if rxSts &&& 0xBF00 = 0 ∧ rxLen < maxPacketSize then
        match pkAlloc d.pool (rxLen + ethhdrBias) with
        | (none, pool) =>
          (dump c (rounds rxLen) s,
            { d with pool := pool, ifInDiscards := (d.ifInDiscards + 1) % 4294967296 })
        | (some pkt, pool) =>
          match copyIn c (rounds rxLen) (alignType + ethhdrBias) (pool.buf pkt).memory s with
          | (memory, s) =>
            let b := fillIn iface rxLen { pool.buf pkt with memory := memory }
            (s, { d with
              pool := putq (pool.setBuf pkt b) .rcvdq pkt
              rcvdqSem := osSemPost d.rcvdqSem })
      else (dump c (rounds rxLen) s, d)

def receive : ℕ → ℕ × σ → Shared → Option (ℕ × σ × Shared)
  | 0, (rxRdy, s), d => if rxRdy = pktReady then none else some (rxRdy, s, d)
  | n + 1, (rxRdy, s), d =>
    if rxRdy = pktReady then
      match receiveOne c iface s d with
      | (s, d) => receive n (rxReady c s) d
    else some (rxRdy, s, d)

def resetNic (s : σ) : σ :=
  let s := iow c ncr 0x00 (iow c ncr 0x03 (iow c ncr 0x00 (iow c ncr 0x03 s)))
  let s := iow c 0x0A 0x29 (iow c 0x09 0x5A (iow c 0x08 0x3F (iow c ncr 0x00 s)))
  let s := iow c etxcsr 0x83 (iow c 0x2D 0x80 (iow c 0x0F 0x00 s))
  iow c rcr 0x39 (iow c imr intrSet s)

def dm9000aIsr (fuel : ℕ) (s : σ) (d : Shared) : Option (σ × Shared) :=
  match receive c iface fuel (rxReady c (ior c isr (iow c imr parSet s)).2) d with
  | none => none
  | some (rxRdy, s, d) =>
    let (s, d) :=
      if rxRdy &&& 0x02 ≠ 0 then (resetNic c s, { d with autoReset := d.autoReset + 1 }) else (s, d)
    some (iow c imr intrSet (iow c isr 0x3F s), d)

end Source

section Documentation

/-- A frame as the chip stores it, checksum included. `pad` fills the last word of an odd one. -/
structure Frame where
  status : UInt8
  bytes : List UInt8
  pad : UInt8
  deriving DecidableEq

def Frame.padded (f : Frame) : List UInt8 :=
  if f.bytes.length % 2 = 0 then f.bytes else f.bytes ++ [f.pad]

def pairs : List UInt8 → List ℕ
  | a :: b :: bs => (a.toNat + 256 * b.toNat) :: pairs bs
  | _ => []

/-- The words in the receive memory: a flag byte and the status, the length, and the bytes. -/
def Frame.words (f : Frame) : List ℕ := (256 * f.status.toNat + 1) :: f.bytes.length :: pairs f.padded

structure Regs where
  index : ℕ
  imr : ℕ
  txplh : ℕ
  txpll : ℕ
  fifo : List ℕ
  sent : List (List UInt8)
  deriving DecidableEq

def unpack (ws : List ℕ) : List UInt8 :=
  ws.flatMap fun w ↦ [UInt8.ofNat (w % 256), UInt8.ofNat (w / 256)]

def Regs.write (port v : ℕ) (r : Regs) : Regs :=
  if port = ioAddr then { r with index := v }
  else if r.index = EthernetDriver.imr then { r with imr := v }
  else if r.index = 0xFD then { r with txplh := v }
  else if r.index = 0xFC then { r with txpll := v }
  else if r.index = mwcmd then { r with fifo := r.fifo ++ [v] }
  else if r.index = tcr ∧ v % 2 = 1 then
    { r with fifo := [], sent := r.sent ++ [(unpack r.fifo).take (256 * r.txplh + r.txpll)] }
  else r

/-- What the driver takes for granted about the chip as long as it is not reset. `position` is
how far the receive memory was read, and `fetched` the word that MRCMDX brings next. Frames may
arrive at any time. -/
structure Documented {σ : Type*} (c : Chip σ) where
  regs : σ → Regs
  arrived : σ → List Frame
  position : σ → ℕ
  fetched : σ → ℕ
  short : ∀ s, ∀ f ∈ arrived s, f.bytes.length < 65536
  write_regs : ∀ port v s, port = ioAddr ∨ (regs s).index ≠ ncr →
    regs (c.iowr port v s) = (regs s).write port v
  write_position : ∀ port v s, port = ioAddr ∨ (regs s).index ≠ ncr →
    position (c.iowr port v s) = position s
  write_arrived : ∀ port v s, port = ioAddr ∨ (regs s).index ≠ ncr →
    arrived s <+: arrived (c.iowr port v s)
  read_regs : ∀ s, regs (c.iord s).2 = regs s
  read_arrived : ∀ s, arrived s <+: arrived (c.iord s).2
  read_position : ∀ s, (regs s).index ≠ mrcmd → position (c.iord s).2 = position s
  read_memory : ∀ s w, (regs s).index = mrcmd → ((arrived s).flatMap Frame.words)[position s]? = some w →
    (c.iord s).1 = w ∧ position (c.iord s).2 = position s + 1
  prefetch : ∀ s, (regs s).index = mrcmdx →
    fetched (c.iord s).2 = ((arrived s).flatMap Frame.words)[position s]?.getD 0
  read_fetched : ∀ s, (regs s).index = mrcmdx → (c.iord s).1 &&& 0x03 = fetched s &&& 0x03

end Documentation

section Frames

variable {memory : List UInt8} {f : Frame} {i : ℕ} {bs : List UInt8}

def overwrite (memory : List UInt8) (i : ℕ) (bs : List UInt8) : List UInt8 :=
  memory.take i ++ bs ++ memory.drop (i + bs.length)

theorem length_overwrite (h : i + bs.length ≤ memory.length) :
    (overwrite memory i bs).length = memory.length := by
  simp only [overwrite, List.length_append, List.length_take, List.length_drop]
  omega

theorem overwrite_take (bs : List UInt8) (h : i ≤ memory.length) :
    (overwrite memory i bs).take i = memory.take i := by
  rw [overwrite, List.append_assoc, List.take_left' (List.length_take_of_le h)]

theorem overwrite_drop (bs : List UInt8) (h : i ≤ memory.length) :
    (overwrite memory i bs).drop i = bs ++ memory.drop (i + bs.length) := by
  rw [overwrite, List.append_assoc, List.drop_left' (List.length_take_of_le h)]

theorem overwrite_behind {j : ℕ} (h : i ≤ memory.length) (hj : i + bs.length ≤ j) :
    (overwrite memory i bs)[j]? = memory[j]? := by
  obtain ⟨k, rfl⟩ := Nat.exists_eq_add_of_le hj
  rw [Nat.add_assoc, ← List.getElem?_drop, overwrite_drop _ h, List.getElem?_append_right (by omega),
    List.getElem?_drop]
  congr 1
  omega

/-- The two bytes of a word are stored, and those of the other words behind them. -/
theorem overwrite_cons {a b : UInt8} (h : i + 2 ≤ memory.length) :
    overwrite ((memory.set i a).set (i + 1) b) (i + 2) bs = overwrite memory i (a :: b :: bs) := by
  obtain ⟨front, x, y, back, rfl, rfl⟩ :
      ∃ front x y back, memory = front ++ x :: y :: back ∧ i = front.length := by
    have hlen : (memory.drop i).length = memory.length - i := List.length_drop
    match hdrop : memory.drop i with
    | [] | [_] =>
      rw [hdrop] at hlen
      simp at hlen
      omega
    | x :: y :: back =>
      exact ⟨memory.take i, x, y, back, by rw [← hdrop, List.take_append_drop],
        (List.length_take_of_le (by omega)).symm⟩
  have hset : ((front ++ x :: y :: back).set front.length a).set (front.length + 1) b =
      (front ++ [a, b]) ++ back := by simp
  have hdrop (zs : List UInt8) (k : ℕ) : (front ++ zs).drop (front.length + k) = zs.drop k :=
    List.drop_length_add_append k
  rw [hset, overwrite, overwrite, List.take_left' (by simp), List.take_left, Nat.add_assoc,
    List.append_assoc front [a, b] back, hdrop, hdrop, List.length_cons, List.length_cons,
    Nat.add_comm 2]
  simp

theorem Frame.even_padded (f : Frame) : f.padded.length = 2 * rounds f.bytes.length := by
  rw [Frame.padded, rounds]
  split_ifs with h
  · omega
  · rw [List.length_append, List.length_singleton]
    omega

theorem Frame.padded_take (f : Frame) : f.padded.take f.bytes.length = f.bytes := by
  rw [Frame.padded]
  split_ifs
  · exact List.take_length
  · exact List.take_left

theorem length_pairs : ∀ {n : ℕ} {bs : List UInt8}, bs.length = 2 * n → (pairs bs).length = n
  | 0, [], _ => rfl
  | n + 1, a :: b :: bs, h => by
    rw [pairs, List.length_cons, length_pairs (by simpa [Nat.mul_succ] using h)]

theorem low_byte (a b : UInt8) : UInt8.ofNat ((a.toNat + 256 * b.toNat) &&& 0xFF) = a := by
  have hlow : (a.toNat + 256 * b.toNat) &&& 0xFF = a.toNat := by
    rw [show 0xFF = 2 ^ 8 - 1 from rfl, Nat.and_two_pow_sub_one_eq_mod]
    have ha := a.toNat_lt
    omega
  rw [hlow, UInt8.ofNat_toNat]

theorem high_byte (a b : UInt8) : UInt8.ofNat ((a.toNat + 256 * b.toNat) >>> 8 &&& 0xFF) = b := by
  have hhigh : (a.toNat + 256 * b.toNat) >>> 8 &&& 0xFF = b.toNat := by
    rw [Nat.shiftRight_eq_div_pow, show 0xFF = 2 ^ 8 - 1 from rfl, Nat.and_two_pow_sub_one_eq_mod]
    have ha := a.toNat_lt
    have hb := b.toNat_lt
    omega
  rw [hhigh, UInt8.ofNat_toNat]

end Frames

section Delivery

variable {iface : ℕ} {f : Frame} {b : Netbuf} {p : Packet} {x : Shared}
  {items : QueueId → List Packet} {held : Packet → ℕ}

def Frame.good (f : Frame) : Prop := f.status &&& 0xBF = 0 ∧ f.bytes.length < maxPacketSize

instance : Decidable f.good := by
  unfold Frame.good
  infer_instance

def received (iface : ℕ) (f : Frame) (b : Netbuf) : Netbuf :=
  fillIn iface f.bytes.length
    { b with memory := overwrite b.memory (alignType + ethhdrBias) f.padded }

/-- What the driver is for: a good frame goes into the queue if there is a buffer for it. -/
def takeIn (iface : ℕ) (x : Shared) (f : Frame) : Shared :=
  if f.good then
    match pkAlloc x.pool (f.bytes.length + ethhdrBias) with
    | (none, pool) => { x with pool := pool, ifInDiscards := (x.ifInDiscards + 1) % 4294967296 }
    | (some pkt, pool) =>
      { x with
        pool := putq (pool.setBuf pkt (received iface f (pool.buf pkt))) .rcvdq pkt
        rcvdqSem := osSemPost x.rcvdqSem }
  else x

structure Carries (iface : ℕ) (f : Frame) (b : Netbuf) : Prop where
  bytes : (b.memory.drop (alignType + ethhdrBias)).take f.bytes.length = f.bytes
  prot : b.prot = ethhdrSize
  plen : b.plen = (f.bytes.length + 4294967282) % 4294967296
  net : b.net = some iface
  type : ∀ lo hi, f.bytes[12]? = some lo → f.bytes[13]? = some hi → b.type = lo.toNat + 256 * hi.toNat

theorem even_bufsiz (p : Packet) : bufsiz p % 2 = 0 := by
  rw [bufsiz]
  split_ifs <;> rfl

/-- An odd frame needs a byte more than was asked for, but no buffer has an odd size. -/
theorem padded_fits (hb : Framed p b) (hlen : f.bytes.length + ethhdrBias ≤ bufsiz p) :
    alignType + ethhdrBias + f.padded.length ≤ alignType + b.blen := by
  have heven := even_bufsiz p
  rw [f.even_padded, hb.blen, rounds]
  simp only [alignType, ethhdrBias] at hlen ⊢
  omega

theorem framed_received (iface : ℕ) (hb : Framed p b) (hlen : f.bytes.length + ethhdrBias ≤ bufsiz p) :
    Framed p (received iface f b) := by
  have hfits := padded_fits hb hlen
  have hin : alignType + ethhdrBias ≤ b.memory.length := by
    rw [hb.length]
    simp only [alignType, ethhdrBias] at hfits ⊢
    omega
  refine ⟨hb.blen, ?_, ?_⟩
  · rw [received, fillIn, length_overwrite (by rw [hb.length]; omega), hb.length]
  · have hfront : (overwrite b.memory (alignType + ethhdrBias) f.padded).take alignType =
        b.memory.take alignType := by
      have htake := congrArg (List.take alignType)
        (overwrite_take f.padded hin)
      rwa [List.take_take, List.take_take, Nat.min_eq_left (by simp [alignType])] at htake
    rw [← hb.guards, guardBands, guardBands, received, fillIn, hfront, overwrite_behind hin hfits]

theorem carries_received (hb : Framed p b) (hlen : f.bytes.length + ethhdrBias ≤ bufsiz p) :
    Carries iface f (received iface f b) := by
  have hfits := padded_fits hb hlen
  have hin : alignType + ethhdrBias ≤ b.memory.length := by
    rw [hb.length]
    simp only [alignType, ethhdrBias] at hfits ⊢
    omega
  have hdrop := overwrite_drop f.padded hin
  have hshort : f.bytes.length ≤ f.padded.length := by
    rw [f.even_padded, rounds]
    omega
  have hbyte {k : ℕ} {v : UInt8} (hk : f.bytes[k]? = some v) :
      (overwrite b.memory (alignType + ethhdrBias) f.padded)[alignType + ethhdrBias + k]? = some v := by
    obtain ⟨hlt, -⟩ := List.getElem?_eq_some_iff.mp hk
    rw [← List.getElem?_drop, hdrop, List.getElem?_append_left (by omega),
      ← List.getElem?_take_of_lt hlt, f.padded_take, hk]
  refine ⟨?_, rfl, rfl, rfl, fun lo hi hlo hhi ↦ ?_⟩
  · rw [received, fillIn, hdrop, List.take_append_of_le_length hshort, f.padded_take]
  · simp only [received, fillIn, eType, hbyte hlo, hbyte hhi, Option.getD_some]

/-- The frames that are kept while there are `big` and `lil` buffers left. -/
def stored : ℕ → ℕ → List Frame → List Frame
  | _, _, [] => []
  | big, lil, f :: fs =>
    if ¬ f.good then stored big lil fs
    else if ¬ (lilbufsiz < f.bytes.length + ethhdrBias ∨ lil = 0) then f :: stored big (lil - 1) fs
    else if big = 0 then stored big lil fs
    else f :: stored (big - 1) lil fs

/-- The free queue that the buffer for a frame comes from. -/
def source (items : QueueId → List Packet) (f : Frame) : QueueId :=
  if lilbufsiz < f.bytes.length + ethhdrBias ∨ items .lilfreeq = [] then .bigfreeq else .lilfreeq

theorem source_ne : source items f ≠ .rcvdq := by
  rw [source]
  split_ifs <;> simp

/-- A frame that is taken in becomes the last packet of the queue, and no other packet changes. -/
theorem takeIn_cases (h : Sound x.pool items held) (iface : ℕ) (f : Frame) :
    (∃ p rest, items (source items f) = p :: rest ∧ f.good ∧
      Sound (takeIn iface x f).pool
        (update (update items (source items f) rest) .rcvdq (items .rcvdq ++ [p])) held ∧
      Carries iface f ((takeIn iface x f).pool.buf p) ∧
      (∀ q, q ≠ p → (takeIn iface x f).pool.buf q = x.pool.buf q) ∧
      (takeIn iface x f).pool.memestats = x.pool.memestats ∧
      (takeIn iface x f).rcvdqSem = osSemPost x.rcvdqSem ∧
      (takeIn iface x f).ifInDiscards = x.ifInDiscards) ∨
    (f.good ∧ source items f = .bigfreeq ∧ items .bigfreeq = [] ∧
      takeIn iface x f = { x with ifInDiscards := (x.ifInDiscards + 1) % 4294967296 }) ∨
    ¬ f.good ∧ takeIn iface x f = x := by
  by_cases hgood : f.good
  · rcases h.alloc (f.bytes.length + ethhdrBias) with
      ⟨i, p, rest, s', hi, hitems, hlen, halloc, hsound, hstats, hothers, hp⟩ | ⟨halloc, hnone⟩
    · obtain rfl : i = source items f := hi
      have hmem : p ∈ items (source items f) := hitems ▸ List.mem_cons_self
      have hframed : Framed p (s'.buf p) := hsound.framed p
      have hone : update held p 1 p = 1 := update_self _ _ _
      have hedit := hsound.edit (by rw [hone]; exact Nat.one_pos)
        (framed_received iface hframed hlen) rfl
      have hput := hedit.putq (i := .rcvdq) (by rw [hone]; exact Nat.one_pos) (.inr ⟨rfl, hone⟩)
      have hheld : update (update held p 1) p 0 = held := by
        rw [update_idem, ← h.idle _ p hmem, update_eq_self]
      rw [hheld, update_of_ne source_ne.symm] at hput
      have htake : takeIn iface x f =
          { x with
            pool := putq (s'.setBuf p (received iface f (s'.buf p))) .rcvdq p
            rcvdqSem := osSemPost x.rcvdqSem } := by
        rw [takeIn, if_pos hgood, halloc]
      rw [htake]
      refine .inl ⟨p, rest, hitems, hgood, hput, ?_, fun q hq ↦ ?_, hstats, rfl, rfl⟩
      · simp only [putq, Pool.setBuf, update_self]
        exact carries_received hframed hlen
      · simp only [putq, Pool.setBuf, update_of_ne hq]
        exact hothers q hq
    · have hshort : ¬ bigbufsiz < f.bytes.length + ethhdrBias := by
        have hlen := hgood.2
        simp only [maxPacketSize, ethhdrBias, bigbufsiz] at hlen ⊢
        omega
      obtain ⟨hbig, hempty⟩ := hnone.resolve_left hshort
      exact .inr (.inl ⟨hgood, if_pos hbig, hempty, by rw [takeIn, if_pos hgood, halloc]⟩)
  · exact .inr (.inr ⟨hgood, if_neg hgood⟩)

/-- What a number of frames does to the queue. `new` are the packets that it has got, and `kept`
the frames in them: all the good ones but those for which there was no free buffer. -/
structure Delivery (iface : ℕ) (held : Packet → ℕ) (x : Shared) (items : QueueId → List Packet)
    (fs : List Frame) (x' : Shared) (items' : QueueId → List Packet) (new : List Packet)
    (kept : List Frame) : Prop where
  sound : Sound x'.pool items' held
  queue : items' .rcvdq = items .rcvdq ++ new
  carried : List.Forall₂ (fun p f ↦ Carries iface f (x'.pool.buf p)) new kept
  chosen : kept.Sublist (fs.filter (fun f ↦ decide f.good))
  stored : kept = stored (items .bigfreeq).length (items .lilfreeq).length fs
  same : ∀ p, 0 < held p ∨ p ∈ items .rcvdq → x'.pool.buf p = x.pool.buf p
  memestats : x'.pool.memestats = x.pool.memestats
  posted : x'.rcvdqSem = osSemPost^[new.length] x.rcvdqSem
  discards : (x'.ifInDiscards + kept.length) % 4294967296 =
    (x.ifInDiscards + (fs.filter (fun f ↦ decide f.good)).length) % 4294967296

/-- A frame that is not taken in changes no more than the counter. -/
theorem Delivery.passed {n : ℕ}
    (h : Delivery iface held { x with ifInDiscards := n } items fs x' items' new kept)
    (hstored : EthernetDriver.stored (items .bigfreeq).length (items .lilfreeq).length (f :: fs) =
      EthernetDriver.stored (items .bigfreeq).length (items .lilfreeq).length fs)
    (hdiscards : (n + (fs.filter (fun f ↦ decide f.good)).length) % 4294967296 =
      (x.ifInDiscards + ((f :: fs).filter (fun f ↦ decide f.good)).length) % 4294967296) :
    Delivery iface held x items (f :: fs) x' items' new kept :=
  ⟨h.sound, h.queue, h.carried, h.chosen.trans ((List.sublist_cons_self f fs).filter _),
    h.stored.trans hstored.symm, h.same, h.memestats, h.posted, h.discards.trans hdiscards⟩

theorem stored_taken {p : Packet} {rest queued : List Packet} (hgood : f.good)
    (hitems : items (source items f) = p :: rest) (fs : List Frame) :
    stored (items .bigfreeq).length (items .lilfreeq).length (f :: fs) =
      f :: stored (update (update items (source items f) rest) .rcvdq queued .bigfreeq).length
        (update (update items (source items f) rest) .rcvdq queued .lilfreeq).length fs := by
  have hempty : (items .lilfreeq).length = 0 ↔ items .lilfreeq = [] := List.length_eq_zero_iff
  by_cases hbig : lilbufsiz < f.bytes.length + ethhdrBias ∨ items .lilfreeq = []
  · rw [source, if_pos hbig] at hitems ⊢
    rw [stored, if_neg (not_not_intro hgood), if_neg (not_not_intro (hbig.imp_right hempty.mpr)),
      if_neg (by simp [hitems])]
    simp [hitems, update_of_ne]
  · rw [source, if_neg hbig] at hitems ⊢
    rw [stored, if_neg (not_not_intro hgood), if_pos fun hor ↦ hbig (hor.imp_right hempty.mp)]
    simp [hitems, update_of_ne]

theorem stored_dropped (hgood : f.good) (hbig : source items f = .bigfreeq)
    (hempty : items .bigfreeq = []) (fs : List Frame) :
    stored (items .bigfreeq).length (items .lilfreeq).length (f :: fs) =
      stored (items .bigfreeq).length (items .lilfreeq).length fs := by
  have hlil : lilbufsiz < f.bytes.length + ethhdrBias ∨ (items .lilfreeq).length = 0 := by
    by_contra hfits
    rw [List.length_eq_zero_iff] at hfits
    rw [source, if_neg hfits] at hbig
    cases hbig
  rw [stored, if_neg (not_not_intro hgood), if_neg (not_not_intro hlil), if_pos (by simp [hempty])]

/-- The driver keeps the order, and it counts what it has no buffer for. -/
theorem foldl_takeIn (h : Sound x.pool items held) (iface : ℕ) (fs : List Frame) :
    ∃ items' new kept, Delivery iface held x items fs (fs.foldl (takeIn iface) x) items' new kept := by
  induction fs generalizing x items with
  | nil =>
    exact ⟨items, [], [], h, (List.append_nil _).symm, .nil, List.Sublist.refl _, rfl, fun _ _ ↦ rfl,
      rfl, rfl, rfl⟩
  | cons f fs ih =>
    rcases takeIn_cases h iface f with
      ⟨p, rest, hitems, hgood, hsound, hcarries, hothers, hstats, hsem, hdiscards⟩ |
      ⟨hgood, hbig, hempty, htake⟩ | ⟨hbad, htake⟩
    · obtain ⟨items', new, kept, hrest⟩ := ih hsound
      have hqueue := hrest.queue
      rw [update_self, List.append_assoc] at hqueue
      have hp : p ∈ update (update items (source items f) rest) .rcvdq (items .rcvdq ++ [p]) .rcvdq := by
        simp
      have hmem : p ∈ items (source items f) := hitems ▸ List.mem_cons_self
      refine ⟨items', p :: new, f :: kept, hrest.sound, hqueue, .cons ?_ hrest.carried, ?_, ?_,
        fun q hq ↦ ?_, hrest.memestats.trans hstats, ?_, ?_⟩
      · rw [List.foldl_cons, hrest.same p (.inr hp)]
        exact hcarries
      · rw [List.filter_cons_of_pos (by simpa using hgood)]
        exact hrest.chosen.cons_cons f
      · rw [stored_taken hgood hitems, ← hrest.stored]
      · have hne : q ≠ p := by
          rintro rfl
          rcases hq with hheld | hq
          · exact h.not_mem hheld hmem
          · exact h.apart _ _ source_ne hmem hq
        refine (hrest.same q (hq.imp_right fun hq ↦ ?_)).trans (hothers q hne)
        rw [update_self]
        exact List.mem_append_left _ hq
      · rw [List.foldl_cons, hrest.posted, hsem]
        rfl
      · have hcount := hrest.discards
        rw [hdiscards] at hcount
        rw [List.foldl_cons, List.filter_cons_of_pos (by simpa using hgood), List.length_cons,
          List.length_cons]
        omega
    · obtain ⟨items', new, kept, hrest⟩ :=
        ih (x := { x with ifInDiscards := (x.ifInDiscards + 1) % 4294967296 }) h
      refine ⟨items', new, kept, ?_⟩
      rw [List.foldl_cons, htake]
      refine hrest.passed (stored_dropped hgood hbig hempty fs) ?_
      rw [List.filter_cons_of_pos (by simpa using hgood), List.length_cons]
      omega
    · obtain ⟨items', new, kept, hrest⟩ := ih h
      refine ⟨items', new, kept, ?_⟩
      rw [List.foldl_cons, htake]
      refine hrest.passed (n := x.ifInDiscards) (by rw [stored, if_pos hbad]) ?_
      rw [List.filter_cons_of_neg (by simpa using hbad)]

theorem sound_takeIn (h : Sound x.pool items held) (iface : ℕ) (f : Frame) :
    ∃ items', Sound (takeIn iface x f).pool items' held := by
  rcases takeIn_cases h iface f with ⟨p, rest, -, -, hsound, -⟩ | ⟨-, -, -, htake⟩ | ⟨-, htake⟩
  · exact ⟨_, hsound⟩
  · exact ⟨items, by rwa [htake]⟩
  · exact ⟨items, by rwa [htake]⟩

end Delivery

section Reading

variable {σ : Type*} {c : Chip σ} {d : Documented c} {since done : List Frame} {s : σ} {f : Frame}
  {port v reg k : ℕ}

/-- The frames `done` were read as a whole. Those of `since` are known to have arrived. -/
structure Ready (d : Documented c) (since done : List Frame) (s : σ) : Prop where
  position : d.position s = (done.flatMap Frame.words).length
  done : done <+: d.arrived s
  since : since <+: d.arrived s

/-- The next frame is being read, and `k` of its words are behind. -/
structure Inside (d : Documented c) (since done : List Frame) (f : Frame) (k : ℕ) (s : σ) : Prop where
  index : (d.regs s).index = mrcmd
  position : d.position s = (done.flatMap Frame.words).length + k
  done : done ++ [f] <+: d.arrived s
  since : since <+: d.arrived s

theorem Ready.iowr (h : Ready d since done s) (hport : port = ioAddr ∨ (d.regs s).index ≠ ncr) :
    Ready d since done (c.iowr port v s) :=
  ⟨(d.write_position port v s hport).trans h.position, h.done.trans (d.write_arrived port v s hport),
    h.since.trans (d.write_arrived port v s hport)⟩

theorem Ready.iord (h : Ready d since done s) (hindex : (d.regs s).index ≠ mrcmd) :
    Ready d since done (c.iord s).2 :=
  ⟨(d.read_position s hindex).trans h.position, h.done.trans (d.read_arrived s),
    h.since.trans (d.read_arrived s)⟩

@[simp] theorem regs_addr (d : Documented c) (reg : ℕ) (s : σ) :
    d.regs (c.iowr ioAddr reg s) = { d.regs s with index := reg } := by
  rw [d.write_regs ioAddr reg s (.inl rfl), Regs.write, if_pos rfl]

theorem regs_iow (d : Documented c) (hreg : reg ≠ ncr) (v : ℕ) (s : σ) :
    d.regs (iow c reg v s) = Regs.write ioData v { d.regs s with index := reg } := by
  rw [iow, d.write_regs ioData v _ (.inr (by rw [regs_addr]; exact hreg)), regs_addr]

theorem Ready.iow (h : Ready d since done s) (hreg : reg ≠ ncr) (v : ℕ) :
    Ready d since done (iow c reg v s) :=
  (h.iowr (.inl rfl)).iowr (.inr (by rw [regs_addr]; exact hreg))

theorem Ready.ior (h : Ready d since done s) (hreg : reg ≠ mrcmd) :
    Ready d since done (ior c reg s).2 :=
  (h.iowr (.inl rfl)).iord (by rw [regs_addr]; exact hreg)

theorem Ready.rxReady (h : Ready d since done s) :
    Ready d since done (rxReady c s).2 ∧
      d.regs (rxReady c s).2 = { d.regs s with index := mrcmdx } ∧
      ((rxReady c s).1 = pktReady ∧ (∃ f, done ++ [f] <+: d.arrived (rxReady c s).2) ∨
        (rxReady c s).1 = 0 ∧ since <+: done) := by
  have haddr : Ready d since done (c.iowr ioAddr mrcmdx s) := h.iowr (.inl rfl)
  have hindex : (d.regs (c.iowr ioAddr mrcmdx s)).index = mrcmdx := by rw [regs_addr]
  have hne : mrcmdx ≠ mrcmd := by decide
  have hfirst := haddr.iord (hindex.symm ▸ hne)
  have hindex' : (d.regs (c.iord (c.iowr ioAddr mrcmdx s)).2).index = mrcmdx := by
    rw [d.read_regs, hindex]
  have hfetched := d.prefetch _ hindex
  rw [haddr.position] at hfetched
  refine ⟨hfirst.iord (hindex'.symm ▸ hne), by rw [EthernetDriver.rxReady, EthernetDriver.ior, d.read_regs,
    d.read_regs, regs_addr], ?_⟩
  have hvalue : (EthernetDriver.rxReady c s).1 =
      d.fetched (c.iord (c.iowr ioAddr mrcmdx s)).2 &&& 0x03 := d.read_fetched _ hindex'
  obtain ⟨rest, hrest⟩ := haddr.done
  rw [hvalue, hfetched, ← hrest, List.flatMap_append, List.getElem?_append_right le_rfl, Nat.sub_self]
  cases rest with
  | nil =>
    refine .inr ⟨rfl, ?_⟩
    rw [List.append_nil] at hrest
    exact hrest ▸ haddr.since
  | cons f rest =>
    refine .inl ⟨?_, f, ?_⟩
    · have hflag : (256 * f.status.toNat + 1) &&& 0x03 = 1 := by
        rw [show 0x03 = 2 ^ 2 - 1 from rfl, Nat.and_two_pow_sub_one_eq_mod]
        omega
      exact hflag
    · have hmore : done ++ [f] <+: d.arrived (c.iowr ioAddr mrcmdx s) := ⟨rest, by rw [← hrest]; simp⟩
      exact (hmore.trans (d.read_arrived _)).trans (d.read_arrived _)

theorem Inside.next (h : Inside d since done f k s) {w : ℕ} (hw : f.words[k]? = some w) :
    (c.iord s).1 = w ∧ Inside d since done f (k + 1) (c.iord s).2 := by
  obtain ⟨hlt, -⟩ := List.getElem?_eq_some_iff.mp hw
  have hword : ((d.arrived s).flatMap Frame.words)[d.position s]? = some w := by
    obtain ⟨rest, hrest⟩ := h.done
    rw [← hrest, h.position, List.append_assoc, List.flatMap_append,
      List.getElem?_append_right (Nat.le_add_right _ _), Nat.add_sub_cancel_left]
    exact (List.getElem?_append_left hlt).trans hw
  obtain ⟨hvalue, hposition⟩ := d.read_memory s w h.index hword
  refine ⟨hvalue, ?_, ?_, h.done.trans (d.read_arrived s), h.since.trans (d.read_arrived s)⟩
  · rw [d.read_regs, h.index]
  · rw [hposition, h.position, Nat.add_assoc]

theorem good_status (status : UInt8) :
    (256 * status.toNat + 1) &&& 0xBF00 = 0 ↔ status &&& 0xBF = 0 := by
  have h := status.toNat_lt
  rw [← UInt8.toNat_inj, UInt8.toNat_and]
  generalize status.toNat = n at h
  revert n
  decide +kernel

theorem Inside.ready (h : Inside d since done f f.words.length s) : Ready d since (done ++ [f]) s := by
  refine ⟨?_, h.done, h.since⟩
  rw [h.position, List.flatMap_append, List.length_append, List.flatMap_singleton]

theorem Inside.dump {n : ℕ} (h : Inside d since done f k s) (hn : k + n ≤ f.words.length) :
    Inside d since done f (k + n) (dump c n s) ∧ d.regs (dump c n s) = d.regs s := by
  induction n generalizing k s with
  | zero => exact ⟨h, rfl⟩
  | succ n ih =>
    obtain ⟨-, hnext⟩ := h.next (List.getElem?_eq_getElem (show k < f.words.length by omega))
    obtain ⟨hrest, hregs⟩ := ih hnext (by omega)
    rw [Nat.add_right_comm, Nat.add_assoc] at hrest
    exact ⟨hrest, hregs.trans (d.read_regs s)⟩

theorem Inside.copyIn {n i : ℕ} {bs memory : List UInt8} (h : Inside d since done f k s)
    (hbs : bs.length = 2 * n) (hwords : f.words.drop k = pairs bs) (hroom : i + bs.length ≤ memory.length) :
    (copyIn c n i memory s).1 = overwrite memory i bs ∧
      Inside d since done f (k + n) (copyIn c n i memory s).2 ∧
      d.regs (copyIn c n i memory s).2 = d.regs s := by
  induction n generalizing k i bs memory s with
  | zero =>
    obtain rfl : bs = [] := List.length_eq_zero_iff.mp hbs
    refine ⟨?_, h, rfl⟩
    rw [overwrite, List.append_nil, List.length_nil, Nat.add_zero, List.take_append_drop]
    rfl
  | succ n ih =>
    obtain ⟨a, b, rest, rfl⟩ : ∃ a b rest, bs = a :: b :: rest := by
      match bs, hbs with
      | a :: b :: rest, _ => exact ⟨a, b, rest, rfl⟩
    simp only [List.length_cons] at hbs hroom
    have hhead : f.words[k]? = some (a.toNat + 256 * b.toNat) := by
      rw [← Nat.add_zero k, ← List.getElem?_drop, hwords]
      rfl
    have htail : f.words.drop (k + 1) = pairs rest := by
      rw [← List.drop_drop, hwords]
      rfl
    obtain ⟨hvalue, hnext⟩ := h.next hhead
    obtain ⟨hcopy, hinside, hregs⟩ := ih hnext (by omega) htail
      (show i + 2 + rest.length ≤ ((memory.set i a).set (i + 1) b).length by
        simp only [List.length_set]; omega)
    have hstep : EthernetDriver.copyIn c (n + 1) i memory s =
        EthernetDriver.copyIn c n (i + 2) ((memory.set i a).set (i + 1) b) (c.iord s).2 := by
      have hlow : UInt8.ofNat ((c.iord s).1 &&& 0xFF) = a := by rw [hvalue, low_byte]
      have hhigh : UInt8.ofNat ((c.iord s).1 >>> 8 &&& 0xFF) = b := by rw [hvalue, high_byte]
      rw [← hlow, ← hhigh]
      rfl
    rw [hstep]
    refine ⟨hcopy.trans (overwrite_cons (by omega)), ?_, hregs.trans (d.read_regs s)⟩
    rw [Nat.add_right_comm, Nat.add_assoc] at hinside
    exact hinside

/-- The frame at the front is taken in, and the driver stands before the next one. -/
theorem Ready.receiveOne {x : Shared} {items : QueueId → List Packet} {held : Packet → ℕ}
    (h : Ready d since done s) (hf : done ++ [f] <+: d.arrived s) (hx : Sound x.pool items held)
    (iface : ℕ) :
    Ready d since (done ++ [f]) (receiveOne c iface s x).1 ∧
      d.regs (receiveOne c iface s x).1 = { d.regs s with index := mrcmd } ∧
      (receiveOne c iface s x).2 = takeIn iface x f := by
  have hstart : Inside d since done f 0 (c.iowr ioAddr mrcmd s) :=
    ⟨by rw [regs_addr], (d.write_position _ _ _ (.inl rfl)).trans h.position,
      hf.trans (d.write_arrived _ _ _ (.inl rfl)), h.since.trans (d.write_arrived _ _ _ (.inl rfl))⟩
  obtain ⟨hsts, hflag⟩ := hstart.next rfl
  obtain ⟨hlen, hdata⟩ := hflag.next rfl
  have hregs : d.regs (c.iord (c.iord (c.iowr ioAddr mrcmd s)).2).2 = { d.regs s with index := mrcmd } := by
    rw [d.read_regs, d.read_regs, regs_addr]
  generalize hs₁ : c.iord (c.iowr ioAddr mrcmd s) = r₁ at hsts hlen hdata hregs
  obtain ⟨rxSts, s₁⟩ := r₁
  obtain rfl : rxSts = 256 * f.status.toNat + 1 := hsts
  generalize hs₂ : c.iord s₁ = r₂ at hlen hdata hregs
  obtain ⟨rxLen, s₂⟩ := r₂
  obtain rfl : rxLen = f.bytes.length := hlen
  have hpairs : (pairs f.padded).length = rounds f.bytes.length := length_pairs f.even_padded
  have hend : 0 + 1 + 1 + rounds f.bytes.length = f.words.length := by
    rw [Frame.words, List.length_cons, List.length_cons, hpairs]
    omega
  obtain ⟨hdump, hdumpregs⟩ := hdata.dump (n := rounds f.bytes.length) (Nat.le_of_eq hend)
  have hdumped := (hend ▸ hdump).ready
  have hgood : (256 * f.status.toNat + 1) &&& 0xBF00 = 0 ∧ f.bytes.length < maxPacketSize ↔ f.good :=
    and_congr_left' (good_status f.status)
  simp only [EthernetDriver.receiveOne, hs₁, hs₂, takeIn, hgood]
  by_cases hf : f.good
  · rw [if_pos hf, if_pos hf]
    rcases hx.alloc (f.bytes.length + ethhdrBias) with
      ⟨i, p, rest, s', -, -, hroom, halloc, hsound, -⟩ | ⟨halloc, -⟩
    · have hframed := hsound.framed p
      have hfits := padded_fits hframed hroom
      obtain ⟨hcopy, hcopied, hcopyregs⟩ := hdata.copyIn f.even_padded rfl
        (show alignType + ethhdrBias + f.padded.length ≤ (s'.buf p).memory.length by
          rw [hframed.length]; omega)
      simp only [halloc, hcopy]
      exact ⟨(hend ▸ hcopied).ready, hcopyregs.trans hregs, rfl⟩
    · simp only [halloc]
      exact ⟨hdumped, hdumpregs.trans hregs, trivial⟩
  · rw [if_neg hf, if_neg hf]
    exact ⟨hdumped, hdumpregs.trans hregs, rfl⟩

end Reading

section Interrupt

variable {σ : Type*} {c : Chip σ} {d : Documented c} {since done : List Frame} {s : σ} {x : Shared}
  {items : QueueId → List Packet} {held : Packet → ℕ} {n rxRdy : ℕ}

/-- The loop takes in frames until there are none left, unless they keep arriving. -/
theorem Ready.receive (h : Ready d since done s) (hx : Sound x.pool items held) (iface : ℕ)
    (hrdy : rxRdy = pktReady ∧ (∃ f, done ++ [f] <+: d.arrived s) ∨ rxRdy = 0 ∧ since <+: done) :
    (∃ fs s' i, receive c iface n (rxRdy, s) x = some (0, s', fs.foldl (takeIn iface) x) ∧
      Ready d since (done ++ fs) s' ∧ since <+: done ++ fs ∧ d.regs s' = { d.regs s with index := i }) ∨
    receive c iface n (rxRdy, s) x = none ∧
      ∃ fs s', fs.length = n + 1 ∧ done ++ fs <+: d.arrived s' := by
  induction n generalizing done s x items rxRdy with
  | zero =>
    rcases hrdy with ⟨rfl, f, hf⟩ | ⟨rfl, hdone⟩
    · exact .inr ⟨rfl, [f], s, rfl, hf⟩
    · exact .inl ⟨[], s, _, rfl, by rwa [List.append_nil], by rwa [List.append_nil], rfl⟩
  | succ n ih =>
    rcases hrdy with ⟨rfl, f, hf⟩ | ⟨rfl, hdone⟩
    · obtain ⟨hready, hregs, htake⟩ := h.receiveOne hf hx iface
      obtain ⟨hlook, hlookregs, hrdy⟩ := hready.rxReady
      have hstep : EthernetDriver.receive c iface (n + 1) (pktReady, s) x =
          EthernetDriver.receive c iface n
            (EthernetDriver.rxReady c (EthernetDriver.receiveOne c iface s x).1) (takeIn iface x f) := by
        rw [← htake]
        rfl
      obtain ⟨items', hx'⟩ := sound_takeIn hx iface f
      rw [hstep]
      rcases ih hlook hx' hrdy with
        ⟨fs, s', i, hrest, hdone, hsince, hi⟩ | ⟨hrest, fs, s', hlen, hmore⟩
      · rw [List.append_assoc] at hdone hsince
        refine .inl ⟨f :: fs, s', i, hrest, hdone, hsince, ?_⟩
        rw [hi, hlookregs, hregs]
      · rw [List.append_assoc] at hmore
        exact .inr ⟨hrest, f :: fs, s', congrArg (· + 1) hlen, hmore⟩
    · exact .inl ⟨[], s, _, rfl, by rwa [List.append_nil], by rwa [List.append_nil], rfl⟩

/-- The interrupt leaves the chip with no frame that was there when it began, and takes in what
it reads in the order of arrival. The index register then points to IMR. -/
theorem Ready.interrupt (h : Ready d since done s) (hx : Sound x.pool items held) (iface fuel : ℕ) :
    (∃ fs s', dm9000aIsr c iface fuel s x = some (s', fs.foldl (takeIn iface) x) ∧
      Ready d since (done ++ fs) s' ∧ since <+: done ++ fs ∧
      d.regs s' = { d.regs s with index := imr, imr := intrSet }) ∨
    dm9000aIsr c iface fuel s x = none ∧
      ∃ fs s', fs.length = fuel + 1 ∧ done ++ fs <+: d.arrived s' := by
  have hmask := h.iow (show imr ≠ ncr by decide) parSet
  have hstatus := hmask.ior (show isr ≠ mrcmd by decide)
  have hstatusregs : d.regs (EthernetDriver.ior c isr (EthernetDriver.iow c imr parSet s)).2 =
      { d.regs s with index := isr, imr := parSet } := by
    rw [EthernetDriver.ior, d.read_regs, regs_addr, regs_iow d (by decide)]
    rfl
  obtain ⟨hlook, hlookregs, hrdy⟩ := hstatus.rxReady
  rcases hlook.receive (n := fuel) hx iface hrdy with
    ⟨fs, s', i, hrest, hdone, hsince, hi⟩ | ⟨hrest, hmore⟩
  · have hclear := hdone.iow (show isr ≠ ncr by decide) 0x3F
    have hopen := hclear.iow (show imr ≠ ncr by decide) intrSet
    refine .inl ⟨fs, _, by simp only [dm9000aIsr, hrest]; rfl, hopen, hsince, ?_⟩
    rw [regs_iow d (by decide), regs_iow d (by decide), hi, hlookregs, hstatusregs]
    rfl
  · exact .inr ⟨by simp only [dm9000aIsr, hrest], hmore⟩

/-- An interrupt comes to its end if frames do not arrive forever. It then has read whatever was in
the chip when it began, and the frames among them that are good and find a buffer are in the queue,
unchanged and in the order of arrival; the others are counted. -/
theorem interrupt_delivers (h : Ready d (d.arrived s) done s) (hx : Sound x.pool items held)
    (iface fuel : ℕ) (hfew : ∀ s', (d.arrived s').length ≤ done.length + fuel) :
    ∃ fs s' x' items' new kept, dm9000aIsr c iface fuel s x = some (s', x') ∧
      Ready d (d.arrived s) (done ++ fs) s' ∧ d.arrived s <+: done ++ fs ∧
      Delivery iface held x items fs x' items' new kept ∧
      d.regs s' = { d.regs s with index := imr, imr := intrSet } := by
  rcases h.interrupt hx iface fuel with
    ⟨fs, s', hisr, hdone, hsince, hregs⟩ | ⟨-, fs, s', hlen, hmore⟩
  · obtain ⟨items', new, kept, hdelivery⟩ := foldl_takeIn hx iface fs
    exact ⟨fs, s', _, items', new, kept, hisr, hdone, hsince, hdelivery, hregs⟩
  · have hmany := hmore.length_le
    have hbound := hfew s'
    rw [List.length_append, hlen] at hmany
    omega

end Interrupt

section Sample

structure SampleState where
  time : ℕ
  regs : Regs
  position : ℕ
  fetched : ℕ
  deriving DecidableEq

variable (coming : List (List Frame))

def sampleArrived (s : SampleState) : List Frame := (coming.take s.time).flatten

def sampleChip : Chip SampleState where
  iowr port v s := { s with time := s.time + 1, regs := s.regs.write port v }
  iord s :=
    let word := ((sampleArrived coming s).flatMap Frame.words)[s.position]?.getD 0
    if s.regs.index = mrcmd then (word, { s with time := s.time + 1, position := s.position + 1 })
    else if s.regs.index = mrcmdx then (s.fetched, { s with time := s.time + 1, fetched := word })
    else (0x0C, { s with time := s.time + 1 })

theorem sampleArrived_succ (s : SampleState) (r : Regs) (i w : ℕ) :
    sampleArrived coming s <+: sampleArrived coming ⟨s.time + 1, r, i, w⟩ := by
  rw [sampleArrived, sampleArrived, List.take_add_one, List.flatten_append]
  exact List.prefix_append _ _

theorem sampleArrived_within (s : SampleState) : sampleArrived coming s <+: coming.flatten := by
  refine ⟨(coming.drop s.time).flatten, ?_⟩
  rw [sampleArrived, ← List.flatten_append, List.take_append_drop]

def sampleDocumented (h : ∀ f ∈ coming.flatten, f.bytes.length < 65536) :
    Documented (sampleChip coming) where
  regs := SampleState.regs
  arrived := sampleArrived coming
  position := SampleState.position
  fetched := SampleState.fetched
  short s f hf := h f ((sampleArrived_within coming s).subset hf)
  write_regs _ _ _ _ := rfl
  write_position _ _ _ _ := rfl
  write_arrived _ _ s _ := sampleArrived_succ coming s _ _ _
  read_regs s := by
    simp only [sampleChip]
    split_ifs <;> rfl
  read_arrived s := by
    simp only [sampleChip]
    split_ifs <;> exact sampleArrived_succ coming s _ _ _
  read_position s hindex := by
    simp only [sampleChip, if_neg hindex]
    split_ifs <;> rfl
  read_memory s w hindex hw := by
    simp only [sampleChip, if_pos hindex, hw]
    exact ⟨rfl, trivial⟩
  prefetch s hindex := by
    have hne : s.regs.index ≠ mrcmd := by
      rw [hindex]
      decide
    simp only [sampleChip, if_neg hne, if_pos hindex]
  read_fetched s hindex := by
    have hne : s.regs.index ≠ mrcmd := by
      rw [hindex]
      decide
    simp only [sampleChip, if_neg hne, if_pos hindex]

def sampleComing : List (List Frame) :=
  [[⟨0, [1, 2, 3, 4, 5, 6, 7, 8, 9, 10, 11, 12, 8, 0, 69, 0], 0⟩], [], [⟨2, [1, 2, 3], 0⟩]]

def running : SampleState := ⟨0, ⟨imr, intrSet, 0, 0, [], []⟩, 0, 0⟩

theorem sampleComing_short : ∀ f ∈ sampleComing.flatten, f.bytes.length < 65536 := by decide

theorem sampleArrived_few (s : SampleState) : (sampleArrived sampleComing s).length ≤ 2 :=
  (sampleArrived_within sampleComing s).length_le

theorem interrupt_delivers_two :
    ∃ fs s' x' items' new kept,
      dm9000aIsr (sampleChip sampleComing) 0 2 running ⟨pkInit 16, ⟨0, false⟩, 0, 0⟩ = some (s', x') ∧
      Ready (sampleDocumented sampleComing sampleComing_short) (sampleArrived sampleComing running) fs s' ∧
      sampleArrived sampleComing running <+: fs ∧
      Delivery 0 (fun _ ↦ 0) ⟨pkInit 16, ⟨0, false⟩, 0, 0⟩
        (fun i ↦ (List.finRange _).filter (fun p ↦ decide (home p = i))) fs x' items' new kept ∧
      s'.regs = { running.regs with index := imr, imr := intrSet } :=
  interrupt_delivers (d := sampleDocumented sampleComing sampleComing_short) (s := running)
    ⟨rfl, List.nil_prefix, List.prefix_refl _⟩ (x := ⟨pkInit 16, ⟨0, false⟩, 0, 0⟩)
    (sound_pkInit 16) 0 2 sampleArrived_few

end Sample

end FpgaDatabase.Network.EthernetDriver
