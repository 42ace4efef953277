import FpgaDatabase.Network.EthernetDriver

namespace FpgaDatabase.Network.Transmission

open Function PacketPool EthernetDriver

section Source

/-- A write to one of the ports. An interrupt can come between any two of them. -/
inductive Access
  | addr (reg : ℕ)
  | data (v : ℕ)
  deriving DecidableEq

variable {σ : Type*} (c : Chip σ)

def Access.perform : Access → σ → σ
  | .addr reg, s => c.iowr ioAddr reg s
  | .data v, s => c.iowr ioData v s

def iowAccesses (reg v : ℕ) : List Access := [.addr reg, .data v]

def txWords (dataPtr : List UInt8) (txLen : ℕ) : List ℕ :=
  (List.range (rounds txLen)).map fun i ↦
    (dataPtr[2 * i + 1]?.getD 0).toNat <<< 8 ||| (dataPtr[2 * i]?.getD 0).toNat

/-- `TransmitPacket` up to the loop that waits. -/
def requestAccesses (dataPtr : List UInt8) (txLen : ℕ) : List Access :=
  iowAccesses imr parSet ++ (iowAccesses 0xFD (txLen >>> 8 &&& 0xFF) ++ iowAccesses 0xFC (txLen &&& 0xFF) ++
    .addr mwcmd :: (txWords dataPtr txLen).map .data ++ iowAccesses tcr 0x01)

def closeAccesses : List Access := iowAccesses nsr 0x00 ++ iowAccesses imr intrSet

inductive Transmit
  | idle
  | request (pkt : Packet) (left : List Access)
  | poll (pkt : Packet)
  | look (pkt : Packet)
  | close (pkt : Packet) (left : List Access)
  deriving DecidableEq

def sendLen (plen : ℕ) : ℕ :=
  let slen := (plen + 4294967294) % 4294967296
  if slen < 64 then 64 else slen

def dataPtr (b : Netbuf) : List UInt8 := b.memory.drop (alignType + b.prot + ethhdrBias)

def pktSend (pkt : Packet) (b : Netbuf) : Transmit :=
  .request pkt (requestAccesses (dataPtr b) (sendLen b.plen))

def Transmit.step : Transmit → σ → Transmit × σ
  | .idle, s => (.idle, s)
  | .request pkt (a :: left), s => (.request pkt left, a.perform c s)
  | .request pkt [], s | .poll pkt, s => (.look pkt, c.iowr ioAddr nsr s)
  | .look pkt, s =>
    match c.iord s with
    | (v, s) => (if v &&& 0x0C = 0 then .poll pkt else .close pkt closeAccesses, s)
  | .close pkt (a :: left), s => (.close pkt left, a.perform c s)
  | .close _ [], s => (.idle, s)

end Source

section Accesses

variable {σ : Type*} {c : Chip σ} {d : Documented c} {since done : List Frame} {s : σ} {r : Regs}
  {a : Access} {as pre left : List Access} {reg v txLen : ℕ} {bytes : List UInt8}

def Regs.access (r : Regs) : Access → Regs
  | .addr reg => r.write ioAddr reg
  | .data v => r.write ioData v

def Access.Harmless (a : Access) (r : Regs) : Prop := (∃ reg, a = .addr reg) ∨ r.index ≠ ncr

theorem regs_perform (h : a.Harmless (d.regs s)) :
    d.regs (a.perform c s) = Regs.access (d.regs s) a := by
  cases a with
  | addr reg => exact d.write_regs _ _ _ (.inl rfl)
  | data v => exact d.write_regs _ _ _ (.inr (h.resolve_left (by simp)))

theorem ready_perform (hs : Ready d since done s) (h : a.Harmless (d.regs s)) :
    Ready d since done (a.perform c s) := by
  cases a with
  | addr reg => exact hs.iowr (.inl rfl)
  | data v => exact hs.iowr (.inr (h.resolve_left (by simp)))

theorem write_data_index : (r.write ioData v).index = r.index := by
  rw [Regs.write, if_neg (by decide)]
  split_ifs <;> rfl

theorem write_data_imr (h : r.index ≠ imr) : (r.write ioData v).imr = r.imr := by
  rw [Regs.write, if_neg (by decide), if_neg h]
  split_ifs <;> rfl

/-- A register that is not selected stays unselected, and IMR then keeps its value. -/
theorem foldl_access_index (has : ∀ a ∈ as, a ≠ .addr reg) (hr : r.index ≠ reg) :
    (as.foldl Regs.access r).index ≠ reg := by
  induction as generalizing r with
  | nil => exact hr
  | cons a as ih =>
    obtain ⟨ha, hrest⟩ := List.forall_mem_cons.mp has
    refine ih hrest ?_
    cases a with
    | addr reg' => exact fun h ↦ ha (congrArg Access.addr h)
    | data v => rwa [Regs.access, write_data_index]

theorem foldl_access_imr (has : ∀ a ∈ as, a ≠ .addr imr) (hr : r.index ≠ imr) :
    (as.foldl Regs.access r).imr = r.imr := by
  induction as generalizing r with
  | nil => rfl
  | cons a as ih =>
    obtain ⟨ha, hrest⟩ := List.forall_mem_cons.mp has
    cases a with
    | addr reg' => exact ih hrest fun h ↦ ha (congrArg Access.addr h)
    | data v =>
      refine (ih hrest ?_).trans (write_data_imr hr)
      rwa [Regs.access, write_data_index]

theorem write_data_sent (h : r.index ≠ tcr) : (r.write ioData v).sent = r.sent := by
  rw [Regs.write, if_neg (by decide)]
  split_ifs with _ _ _ _ hsend
  all_goals first | rfl | exact absurd hsend.1 h

theorem foldl_access_sent (has : ∀ a ∈ as, a ≠ .addr tcr) (hr : r.index ≠ tcr) :
    (as.foldl Regs.access r).sent = r.sent := by
  induction as generalizing r with
  | nil => rfl
  | cons a as ih =>
    obtain ⟨ha, hrest⟩ := List.forall_mem_cons.mp has
    cases a with
    | addr reg' => exact ih hrest fun h ↦ ha (congrArg Access.addr h)
    | data v =>
      refine (ih hrest ?_).trans (write_data_sent hr)
      rwa [Regs.access, write_data_index]

theorem foldl_access_words (ws : List ℕ) (hr : r.index = mwcmd) :
    (ws.map Access.data).foldl Regs.access r = { r with fifo := r.fifo ++ ws } := by
  induction ws generalizing r with
  | nil => rw [List.append_nil]; rfl
  | cons w ws ih =>
    have hw : Regs.access r (.data w) = { r with fifo := r.fifo ++ [w] } := by
      rw [Regs.access, Regs.write, hr]
      rfl
    rw [List.map_cons, List.foldl_cons, hw, ih (r := { r with fifo := r.fifo ++ [w] }) hr, List.append_assoc]
    rfl

/-- What the loop in `TransmitPacket` writes are the bytes from `data_ptr` on. -/
theorem unpack_txWords (h : 2 * rounds txLen ≤ bytes.length) :
    unpack (txWords bytes txLen) = bytes.take (2 * rounds txLen) := by
  rw [txWords]
  generalize rounds txLen = n at h ⊢
  induction n with
  | zero => rfl
  | succ n ih =>
    have hlow : bytes[2 * n]? = some bytes[2 * n] := List.getElem?_eq_getElem (by omega)
    have hhigh : bytes[2 * n + 1]? = some bytes[2 * n + 1] := List.getElem?_eq_getElem (by omega)
    have hword (lo hi : UInt8) : unpack [hi.toNat <<< 8 ||| lo.toNat] = [lo, hi] := by
      have hor : hi.toNat <<< 8 ||| lo.toNat = hi.toNat * 256 + lo.toNat := by
        rw [Nat.shiftLeft_eq, Nat.mul_comm, ← Nat.two_pow_add_eq_or_of_lt lo.toNat_lt, Nat.mul_comm]
      have hlo := lo.toNat_lt
      have hdiv : (hi.toNat * 256 + lo.toNat) / 256 = hi.toNat := by omega
      have hmod : (hi.toNat * 256 + lo.toNat) % 256 = lo.toNat := by omega
      simp [unpack, hor, hdiv, hmod]
    rw [List.range_succ, List.map_append, unpack, List.flatMap_append, ← unpack, ← unpack, ih (by omega),
      List.map_singleton, hlow, hhigh, Option.getD_some, Option.getD_some, hword, Nat.mul_succ,
      List.take_add_one, List.take_add_one, hlow, hhigh, List.append_assoc]
    rfl

theorem length_parts (h : txLen < 65536) : 256 * (txLen >>> 8 &&& 0xFF) + (txLen &&& 0xFF) = txLen := by
  rw [Nat.shiftRight_eq_div_pow, show 0xFF = 2 ^ 8 - 1 from rfl, Nat.and_two_pow_sub_one_eq_mod,
    Nat.and_two_pow_sub_one_eq_mod]
  omega

theorem harmless_next (has : ∀ a ∈ as, a ≠ .addr ncr) (h : .addr reg :: as = pre ++ a :: left)
    (hreg : reg ≠ ncr) : a.Harmless (pre.foldl Regs.access r) := by
  cases pre with
  | nil => exact .inl ⟨reg, (List.cons.inj h).1.symm⟩
  | cons b pre =>
    obtain ⟨rfl, rfl⟩ := List.cons.inj h
    exact .inr (foldl_access_index (r := Regs.access r (.addr reg))
      (fun a ha ↦ has a (List.mem_append_left _ ha)) hreg)

def loadAccesses (dataPtr : List UInt8) (txLen : ℕ) : List Access :=
  .data (txLen >>> 8 &&& 0xFF) :: iowAccesses 0xFC (txLen &&& 0xFF) ++
    .addr mwcmd :: (txWords dataPtr txLen).map .data ++ iowAccesses tcr 0x01

theorem requestAccesses_eq (bytes : List UInt8) (txLen : ℕ) :
    requestAccesses bytes txLen =
      .addr imr :: .data parSet :: .addr 0xFD :: loadAccesses bytes txLen := rfl

theorem not_mem_loadAccesses (h : reg ∉ [0xFC, mwcmd, tcr]) :
    ∀ a ∈ loadAccesses bytes txLen, a ≠ .addr reg := by
  rintro a ha rfl
  simp only [List.mem_cons, List.not_mem_nil, or_false, not_or] at h
  simp [loadAccesses, iowAccesses, h] at ha

/-- Before the first two accesses were made, interrupts are as they were; then they are masked. -/
theorem request_masked (h : requestAccesses bytes txLen = pre ++ left) :
    pre = [] ∨ pre = [.addr imr] ∨ (pre.foldl Regs.access r).imr = parSet := by
  rw [requestAccesses_eq] at h
  match pre, h with
  | [], _ => exact .inl rfl
  | [_], h =>
    obtain ⟨rfl, -⟩ := List.cons.inj h
    exact .inr (.inl rfl)
  | [_, _], h =>
    simp only [List.cons_append, List.cons.injEq] at h
    obtain ⟨rfl, rfl, -⟩ := h
    exact .inr (.inr rfl)
  | _ :: _ :: _ :: pre, h =>
    simp only [List.cons_append, List.cons.injEq] at h
    obtain ⟨rfl, rfl, rfl, h⟩ := h
    exact .inr (.inr (foldl_access_imr (r := { r with index := 0xFD, imr := parSet })
      (fun a ha ↦ not_mem_loadAccesses (by decide) a (h ▸ List.mem_append_left left ha))
      (show 0xFD ≠ imr by decide)))

theorem close_masked (h : closeAccesses = pre ++ left) :
    (pre.foldl Regs.access r).sent = r.sent ∧
      ((pre.foldl Regs.access r).imr = r.imr ∨ pre = closeAccesses) := by
  have hpre : pre <+: closeAccesses := ⟨left, h.symm⟩
  simp only [closeAccesses, iowAccesses, List.cons_append, List.nil_append, List.prefix_cons_iff,
    List.prefix_nil] at hpre
  obtain rfl | ⟨_, rfl, rfl | ⟨_, rfl, rfl | ⟨_, rfl, rfl | ⟨_, rfl, rfl⟩⟩⟩⟩ := hpre
  · exact ⟨rfl, .inl rfl⟩
  · exact ⟨rfl, .inl rfl⟩
  · exact ⟨rfl, .inl rfl⟩
  · exact ⟨rfl, .inl rfl⟩
  · exact ⟨rfl, .inr rfl⟩

/-- The frame is sent by the last access. -/
theorem request_unsent (h : requestAccesses bytes txLen = pre ++ left) (hleft : left ≠ []) :
    (pre.foldl Regs.access r).sent = r.sent := by
  obtain ⟨body, hbody, hends⟩ : ∃ body, (∀ a ∈ body, a ≠ Access.addr tcr) ∧
      requestAccesses bytes txLen = Access.addr imr :: body ++ [.addr tcr] ++ [.data 0x01] := by
    refine ⟨.data parSet :: iowAccesses 0xFD (txLen >>> 8 &&& 0xFF) ++ iowAccesses 0xFC (txLen &&& 0xFF) ++
      .addr mwcmd :: (txWords bytes txLen).map .data, ?_, ?_⟩
    · rintro a ha rfl
      simp [iowAccesses, tcr, mwcmd] at ha
    · simp [requestAccesses, iowAccesses]
  have hpre : pre <+: Access.addr imr :: body ++ [.addr tcr] := by
    refine ⟨left.dropLast, ?_⟩
    rw [← List.dropLast_append_of_ne_nil hleft, ← h, hends, List.dropLast_concat]
  have hsent (front : List Access) (hfront : ∀ a ∈ front, a ≠ Access.addr tcr) :
      ((.addr imr :: front).foldl Regs.access r).sent = r.sent :=
    foldl_access_sent (r := { r with index := imr }) hfront (show imr ≠ tcr by decide)
  rcases List.prefix_concat_iff.mp hpre with rfl | hpre
  · rw [List.foldl_append]
    exact hsent body hbody
  · rcases List.prefix_cons_iff.mp hpre with rfl | ⟨front, rfl, hfront⟩
    · rfl
    · exact hsent front fun a ha ↦ hbody a (hfront.subset ha)

/-- All accesses together send one frame. -/
theorem request_sends (hr : r.fifo = []) (hroom : 2 * rounds txLen ≤ bytes.length)
    (hlen : txLen < 65536) :
    ∃ hi lo, (requestAccesses bytes txLen).foldl Regs.access r =
      ⟨tcr, parSet, hi, lo, [], r.sent ++ [bytes.take txLen]⟩ := by
  have hloaded : (requestAccesses bytes txLen).foldl Regs.access r =
      (iowAccesses tcr 0x01).foldl Regs.access ⟨mwcmd, parSet, txLen >>> 8 &&& 0xFF, txLen &&& 0xFF,
        r.fifo ++ txWords bytes txLen, r.sent⟩ := by
    rw [requestAccesses_eq, loadAccesses, List.foldl_cons, List.foldl_cons, List.foldl_cons,
      List.foldl_append, List.foldl_append, List.foldl_cons, foldl_access_words _ rfl]
    rfl
  have hsent : (unpack (r.fifo ++ txWords bytes txLen)).take
      (256 * (txLen >>> 8 &&& 0xFF) + (txLen &&& 0xFF)) = bytes.take txLen := by
    rw [hr, List.nil_append, unpack_txWords hroom, length_parts hlen, List.take_take, Nat.min_eq_left]
    rw [rounds]
    omega
  refine ⟨txLen >>> 8 &&& 0xFF, txLen &&& 0xFF, hloaded.trans ?_⟩
  rw [← hsent]
  rfl

end Accesses

section Sending

variable {σ : Type*} {c : Chip σ} {d : Documented c} {since done : List Frame} {s : σ} {r : Regs}
  {asked : List (List UInt8)} {t : Transmit} {m : ℕ}

/-- No frame is being written, and those of `asked` were sent. -/
structure Resting (m : ℕ) (asked : List (List UInt8)) (r : Regs) : Prop where
  imr : r.imr = m
  fifo : r.fifo = []
  sent : r.sent = asked

/-- How the registers stand at each point of a transmission. `asked` are the frames that the
driver was given, the present one being the last. -/
def Sending (asked : List (List UInt8)) : Transmit → Regs → Prop
  | .idle, r => Resting intrSet asked r
  | .request _ left, r => ∃ earlier bytes txLen pre r₀, asked = earlier ++ [bytes.take txLen] ∧
      2 * rounds txLen ≤ bytes.length ∧ txLen < 65536 ∧ Resting intrSet earlier r₀ ∧
      requestAccesses bytes txLen = pre ++ left ∧ r = pre.foldl Regs.access r₀
  | .poll _, r => Resting parSet asked r
  | .look _, r => Resting parSet asked r ∧ r.index = nsr
  | .close _ left, r => ∃ pre r₀, Resting parSet asked r₀ ∧ closeAccesses = pre ++ left ∧
      r = pre.foldl Regs.access r₀

theorem sending_begin (h : Sending asked .idle r) {b : Netbuf} (pkt : Packet)
    (hroom : 2 * rounds (sendLen b.plen) ≤ (dataPtr b).length) (hlen : sendLen b.plen < 65536) :
    Sending (asked ++ [(dataPtr b).take (sendLen b.plen)]) (pktSend pkt b) r :=
  ⟨asked, dataPtr b, sendLen b.plen, [], r, rfl, hroom, hlen, h, rfl, rfl⟩

/-- An interrupt can come in only where it does no harm. -/
theorem sending_interrupt (h : Sending asked t r) (hopen : r.imr &&& 0x3F ≠ 0) :
    Sending asked t { r with index := imr, imr := intrSet } := by
  have hmasked (hr : r.imr = parSet) : False := by
    rw [hr] at hopen
    exact hopen rfl
  cases t with
  | idle => exact ⟨rfl, h.fifo, h.sent⟩
  | request pkt left =>
    obtain ⟨earlier, bytes, txLen, pre, r₀, hasked, hroom, hlen, hrest, haccesses, rfl⟩ := h
    rcases request_masked (r := r₀) haccesses with rfl | rfl | hr
    · exact ⟨earlier, bytes, txLen, [], { r₀ with index := imr, imr := intrSet }, hasked, hroom, hlen,
        ⟨rfl, hrest.fifo, hrest.sent⟩, haccesses, rfl⟩
    · refine ⟨earlier, bytes, txLen, [.addr imr], r₀, hasked, hroom, hlen, hrest, haccesses, ?_⟩
      rw [← hrest.imr]
      rfl
    · exact (hmasked hr).elim
  | poll pkt => exact (hmasked h.imr).elim
  | look pkt => exact (hmasked h.1.imr).elim
  | close pkt left =>
    obtain ⟨pre, r₀, hrest, haccesses, rfl⟩ := h
    rcases (close_masked (r := r₀) haccesses).2 with hr | rfl
    · exact (hmasked (hr.trans hrest.imr)).elim
    · exact ⟨closeAccesses, r₀, hrest, haccesses, rfl⟩

theorem sending_step (hready : Ready d since done s) (h : Sending asked t (d.regs s)) :
    Ready d since done (t.step c s).2 ∧ Sending asked (t.step c s).1 (d.regs (t.step c s).2) := by
  have hlook {pkt : Packet} {s : σ} (hready : Ready d since done s)
      (h : Resting parSet asked (d.regs s)) :
      Ready d since done (c.iowr ioAddr nsr s) ∧
        Sending asked (.look pkt) (d.regs (c.iowr ioAddr nsr s)) := by
    refine ⟨hready.iowr (.inl rfl), ?_⟩
    rw [regs_addr]
    exact ⟨⟨h.imr, h.fifo, h.sent⟩, rfl⟩
  match t, h with
  | .idle, h => exact ⟨hready, h⟩
  | .request pkt (a :: left), h =>
    obtain ⟨earlier, bytes, txLen, pre, r₀, hasked, hroom, hlen, hrest, haccesses, hr⟩ := h
    have hharmless : a.Harmless (d.regs s) := by
      rw [hr]
      refine harmless_next (fun a ha ↦ ?_) (haccesses ▸ requestAccesses_eq bytes txLen).symm (by decide)
      simp only [List.mem_cons] at ha
      rcases ha with rfl | rfl | ha
      · simp
      · simp [ncr]
      · exact not_mem_loadAccesses (by decide) a ha
    refine ⟨ready_perform hready hharmless, earlier, bytes, txLen, pre ++ [a], r₀, hasked, hroom,
      hlen, hrest, by rw [haccesses, List.append_assoc]; rfl, ?_⟩
    rw [Transmit.step, regs_perform hharmless, List.foldl_append, ← hr]
    rfl
  | .request pkt [], h =>
    obtain ⟨earlier, bytes, txLen, pre, r₀, rfl, hroom, hlen, hrest, haccesses, hr⟩ := h
    rw [List.append_nil] at haccesses
    obtain ⟨hi, lo, hsends⟩ := request_sends hrest.fifo hroom hlen
    rw [← haccesses, hsends, hrest.sent] at hr
    exact hlook hready (hr ▸ ⟨rfl, rfl, rfl⟩)
  | .poll pkt, h => exact hlook hready h
  | .look pkt, ⟨hrest, hindex⟩ =>
    have hread : Ready d since done (c.iord s).2 := hready.iord (hindex ▸ by decide)
    have hregs : Resting parSet asked (d.regs (c.iord s).2) := by rwa [d.read_regs]
    refine ⟨hread, ?_⟩
    by_cases hv : (c.iord s).1 &&& 0x0C = 0
    · have hstep : Transmit.step c (.look pkt) s = (.poll pkt, (c.iord s).2) := by
        simp only [Transmit.step, hv, if_true]
      rw [hstep]
      exact hregs
    · have hstep : Transmit.step c (.look pkt) s = (.close pkt closeAccesses, (c.iord s).2) := by
        simp only [Transmit.step, hv, if_false]
      rw [hstep]
      exact ⟨[], _, hregs, rfl, rfl⟩
  | .close pkt (a :: left), h =>
    obtain ⟨pre, r₀, hrest, haccesses, hr⟩ := h
    have hharmless : a.Harmless (d.regs s) := by
      rw [hr]
      refine harmless_next (fun a ha ↦ ?_) haccesses (by decide)
      rintro rfl
      simp [iowAccesses, ncr, imr] at ha
    refine ⟨ready_perform hready hharmless, pre ++ [a], r₀, hrest,
      by rw [haccesses, List.append_assoc]; rfl, ?_⟩
    rw [Transmit.step, regs_perform hharmless, List.foldl_append, ← hr]
    rfl
  | .close pkt [], h =>
    obtain ⟨pre, r₀, hrest, haccesses, hr⟩ := h
    rw [List.append_nil] at haccesses
    refine ⟨hready, ?_⟩
    rw [Transmit.step, hr, ← haccesses]
    exact ⟨rfl, hrest.fifo, hrest.sent⟩

/-- What the chip has sent is what it was given, but for the frame that is being written. -/
theorem sending_sent (h : Sending asked t r) :
    r.sent = asked ∨ ∃ bytes, asked = r.sent ++ [bytes] := by
  cases t with
  | idle => exact .inl h.sent
  | request pkt left =>
    obtain ⟨earlier, bytes, txLen, pre, r₀, rfl, hroom, hlen, hrest, haccesses, rfl⟩ := h
    by_cases hleft : left = []
    · rw [hleft, List.append_nil] at haccesses
      obtain ⟨hi, lo, hsends⟩ := request_sends hrest.fifo hroom hlen
      refine .inl ?_
      rw [← haccesses, hsends, hrest.sent]
    · refine .inr ⟨bytes.take txLen, ?_⟩
      rw [request_unsent haccesses hleft, hrest.sent]
  | poll pkt => exact .inl h.sent
  | look pkt => exact .inl h.1.sent
  | close pkt left =>
    obtain ⟨pre, r₀, hrest, haccesses, rfl⟩ := h
    exact .inl ((close_masked haccesses).1.trans hrest.sent)

end Sending

end FpgaDatabase.Network.Transmission
