import FpgaDatabase.Library.Execution
import FpgaDatabase.Network.Transmission

namespace FpgaDatabase.Network.Traffic

open Function Library.Execution PacketPool EthernetDriver Transmission

section Source

def niUp : ℕ := 1
def niDown : ℕ := 2

/-- Where `tk_netmain` is: before `OSSemPend`, in it, behind it, in the loop of `pktdemux`, or
there with a packet from the queue. `discard` and `store` are the two halves of `ifInDiscards++`. -/
inductive Netmain
  | block
  | pend
  | check
  | demux
  | got (pkt : Packet)
  | discard (ifc : ℕ)
  | store (discards : ℕ)
  deriving DecidableEq

/-- Whether the task goes on at once. -/
def osSemPend (e : Semaphore) : Semaphore × Bool :=
  if 0 < e.cnt then ({ e with cnt := e.cnt - 1 }, true) else ({ e with waiting := true }, false)

inductive Handler
  | ipRcv
  | arprcv
  | pkFree
  deriving DecidableEq

def iptp : ℕ := 0x0008
def arptp : ℕ := 0x0608

def handler (type : ℕ) : Handler :=
  if type = iptp then .ipRcv else if type = arptp then .arprcv else .pkFree

/-- A packet as `pktdemux` hands it on, and the status that it has found the interface in. -/
structure Demuxed where
  status : ℕ
  handler : Handler
  pkt : Netbuf

/-- The chip, what the interrupt shares with the tasks, and the calls that are under way.
`owned` counts how often the tasks hold a packet outside of them, and `posting` how many of them
have put one into `rcvdq` and not yet called `SignalPktDemux`. `given` records what `pktdemux`
hands on, `looped` what the tasks put into the queue, and `asked` the frames that
`TransmitPacket` is called for. -/
structure System (σ : Type*) where
  chip : σ
  shared : Shared
  netmain : Netmain
  transmit : Transmit
  choosing : List QueueId
  validating : List Packet
  releasing : List Packet
  posting : ℕ
  owned : Packet → ℕ
  adminStatus : ℕ → ℕ
  given : List Demuxed
  looped : List Netbuf
  asked : List (List UInt8)
  panicked : Bool

/-- What happens between two points at which the processor can turn to something else. -/
inductive Event
  | interrupt (fuel : ℕ)
  | netmain
  | timeout
  | choose (len : ℕ)
  | take (i : QueueId)
  | write (pkt : Packet) (b : Netbuf)
  | clone (pkt : Packet)
  | free (pkt : Packet)
  | enqueue (pkt : Packet)
  | post
  | setStatus (ifc status : ℕ)
  | validate (pkt : Packet)
  | release (pkt : Packet)
  | send (pkt : Packet)
  | transmit

variable {σ : Type*} (c : Chip σ) (iface : ℕ) (y : System σ)

def System.setPool (pool : Pool) : System σ := { y with shared := { y.shared with pool := pool } }

def corrupt (b : Netbuf) : Bool :=
  b.memory.head? ≠ some marker || b.memory[alignType + b.blen]? ≠ some marker

def netmainStep : System σ :=
  match y.netmain with
  | .block =>
    match osSemPend y.shared.rcvdqSem with
    | (e, now) =>
      { y with shared := { y.shared with rcvdqSem := e }, netmain := if now then .check else .pend }
  | .pend => { y with netmain := .check }
  | .check => { y with netmain := if (y.shared.pool.queue .rcvdq).len = 0 then .block else .demux }
  | .demux =>
    if (y.shared.pool.queue .rcvdq).len = 0 then { y with netmain := .block }
    else
      match getq y.shared.pool .rcvdq with
      | (none, _) => { y with panicked := true }
      | (some pkt, pool) => { y.setPool pool with netmain := .got pkt }
  | .got pkt =>
    let b := y.shared.pool.buf pkt
    match b.net with
    | none => { y with panicked := true }  -- `ifc` is a null pointer
    | some ifc =>
      let status := y.adminStatus ifc
      if status = niDown then
        { y with
          netmain := .discard ifc
          given := y.given ++ [⟨status, .pkFree, b⟩]
          validating := pkt :: y.validating }
      else if corrupt b then { y with panicked := true }
      else
        let x : Demuxed := ⟨status, handler b.type, b⟩
        let y := { y with netmain := .demux, given := y.given ++ [x] }
        match handler b.type with
        | .pkFree => { y with validating := pkt :: y.validating }
        | _ => { y with owned := update y.owned pkt (y.owned pkt + 1) }
  -- The other interfaces have counters of their own.
  | .discard ifc =>
    { y with netmain := if ifc = iface then .store y.shared.ifInDiscards else .demux }
  | .store discards =>
    { y with
      shared := { y.shared with ifInDiscards := (discards + 1) % 4294967296 }
      netmain := .demux }

def transmitStep : System σ :=
  match y.transmit.step c y.chip with
  | (t, s) =>
    { y with
      chip := s
      transmit := t
      validating :=
        match y.transmit with
        | .close pkt [] => pkt :: y.validating
        | _ => y.validating }

def step : Event → System σ
  | .interrupt fuel =>
    match dm9000aIsr c iface fuel y.chip y.shared with
    | some (s, x) => { y with chip := s, shared := x }
    | none => y
  | .netmain => netmainStep iface y
  | .timeout =>
    { y with shared := { y.shared with rcvdqSem := { y.shared.rcvdqSem with waiting := false } } }
  | .choose len =>
    match chooseQueue y.shared.pool len with
    | none => y
    | some i => { y with choosing := i :: y.choosing }
  | .take i =>
    match takeFrom y.shared.pool i with
    | (none, pool) => { y.setPool pool with choosing := y.choosing.erase i }
    | (some pkt, pool) =>
      { y.setPool pool with
        choosing := y.choosing.erase i
        owned := update y.owned pkt (y.owned pkt + 1) }
  | .write pkt b => y.setPool (y.shared.pool.setBuf pkt b)
  | .clone pkt =>
    let b := y.shared.pool.buf pkt
    { y.setPool (y.shared.pool.setBuf pkt { b with inuse := (b.inuse + 1) % 4294967296 }) with
      owned := update y.owned pkt (y.owned pkt + 1) }
  | .free pkt =>
    { y with
      owned := update y.owned pkt (y.owned pkt - 1)
      validating := pkt :: y.validating }
  | .enqueue pkt =>
    { y.setPool (putq y.shared.pool .rcvdq pkt) with
      owned := update y.owned pkt (y.owned pkt - 1)
      posting := y.posting + 1
      looped := y.looped ++ [y.shared.pool.buf pkt] }
  | .post =>
    { y with
      shared := { y.shared with rcvdqSem := osSemPost y.shared.rcvdqSem }
      posting := y.posting - 1 }
  | .setStatus ifc status => { y with adminStatus := update y.adminStatus ifc status }
  | .validate pkt =>
    match pkValidate y.shared.pool pkt with
    | none => { y with validating := y.validating.erase pkt, releasing := pkt :: y.releasing }
    | some err =>
      let pool := y.shared.pool
      { y.setPool { pool with memestats := update pool.memestats err (pool.memestats err + 1) } with
        validating := y.validating.erase pkt }
  | .release pkt =>
    { y.setPool (release y.shared.pool pkt) with releasing := y.releasing.erase pkt }
  | .send pkt =>
    let b := y.shared.pool.buf pkt
    { y with
      owned := update y.owned pkt (y.owned pkt - 1)
      transmit := pktSend pkt b
      asked := y.asked ++ [(dataPtr b).take (sendLen b.plen)] }
  | .transmit => transmitStep c y

def Netmain.packets : Netmain → List Packet
  | .got pkt => [pkt]
  | _ => []

def busyWith : Transmit → List Packet
  | .idle => []
  | .request pkt _ | .poll pkt | .look pkt | .close pkt _ => [pkt]

def Netmain.counts : Netmain → Bool
  | .discard _ | .store _ => true
  | _ => false

def System.held (pkt : Packet) : ℕ :=
  y.owned pkt + y.netmain.packets.count pkt + (busyWith y.transmit).count pkt +
    y.validating.count pkt + y.releasing.count pkt

/-- When an event can occur. The interrupt gets through if IMR lets it, and comes to its end.
The tasks keep to the packets that they own and to the bounds of the buffers, do not write
into a buffer that is being sent, and send what lies in its buffer, one packet at a time. What they
put into `rcvdq` belongs to an interface and is nobody else's. -/
def ok (d : Documented c) (y : System σ) : Event → Prop
  | .interrupt fuel =>
    (d.regs y.chip).imr &&& 0x3F ≠ 0 ∧ (dm9000aIsr c iface fuel y.chip y.shared).isSome
  | .netmain => y.shared.rcvdqSem.waiting = false
  | .timeout => y.netmain = .pend
  | .choose _ => True
  | .take i => i ∈ y.choosing
  | .write pkt b =>
    0 < y.owned pkt ∧ pkt ∉ busyWith y.transmit ∧ Framed pkt b ∧ b.inuse = (y.shared.pool.buf pkt).inuse
  | .clone pkt => 0 < y.owned pkt ∧ y.held pkt + 1 < 4294967296
  | .free pkt => 0 < y.owned pkt
  | .enqueue pkt => 0 < y.owned pkt ∧ y.held pkt = 1 ∧ (y.shared.pool.buf pkt).net ≠ none
  | .post => 0 < y.posting
  | .setStatus _ _ => True
  | .validate pkt => pkt ∈ y.validating
  | .release pkt => pkt ∈ y.releasing
  | .send pkt =>
    let b := y.shared.pool.buf pkt
    0 < y.owned pkt ∧ y.transmit = .idle ∧ b.prot + ethhdrBias + 2 * rounds (sendLen b.plen) ≤ b.blen
  | .transmit => y.transmit ≠ .idle

/-- Behind `netmain_init`: all packets are free, the interfaces are up, and the tasks are about
to begin. -/
def start (maxLnh : ℕ) (s : σ) : System σ :=
  ⟨s, ⟨pkInit maxLnh, ⟨0, false⟩, 0, 0⟩, .block, .idle, [], [], [], 0, fun _ ↦ 0, fun _ ↦ niUp, [], [], [],
    false⟩

end Source

section Waking

variable {e : Semaphore} {rcvd : List Packet}

theorem osSemPost_waiting (e : Semaphore) : (osSemPost e).waiting = false := by
  rw [osSemPost]
  split_ifs with h <;> simp_all

theorem osSemPost_cnt (h : e.waiting = false) : 0 < (osSemPost e).cnt := by
  rw [osSemPost, if_neg (by simp [h])]
  split_ifs with hlt
  · exact Nat.succ_pos _
  · omega

theorem posts_waiting (n : ℕ) (h : e.waiting = false) : (osSemPost^[n] e).waiting = false := by
  induction n with
  | zero => exact h
  | succ n ih =>
    rw [iterate_succ_apply']
    exact osSemPost_waiting _

/-- The task is not suspended while there are packets in the queue, and it will not be, but for
those that somebody is just going to announce. -/
structure Awake (e : Semaphore) (pc : Netmain) (rcvd : List Packet) (posting : ℕ) : Prop where
  suspended : e.waiting = true → pc = .pend
  woken : rcvd ≠ [] → posting = 0 → e.waiting = false
  posted : rcvd ≠ [] → posting = 0 → pc = .block → 0 < e.cnt

theorem Awake.post {pc : Netmain} {posting : ℕ} (h : Awake e pc rcvd posting) :
    Awake (osSemPost e) pc rcvd (posting - 1) := by
  have hwaiting := osSemPost_waiting e
  refine ⟨fun hwait ↦ ?_, fun _ _ ↦ hwaiting, fun _ _ hpc ↦ osSemPost_cnt ?_⟩
  · rw [hwaiting] at hwait
    cases hwait
  · by_contra hwait
    rw [h.suspended (by simpa using hwait)] at hpc
    cases hpc

theorem Awake.posts {pc : Netmain} {posting : ℕ} (h : Awake e pc rcvd posting) (new : List Packet) :
    Awake (osSemPost^[new.length] e) pc (rcvd ++ new) posting := by
  cases new with
  | nil => rwa [List.append_nil]
  | cons p new =>
    rw [List.length_cons, iterate_succ_apply']
    have hwaiting := osSemPost_waiting (osSemPost^[new.length] e)
    refine ⟨fun h ↦ ?_, fun _ _ ↦ hwaiting, fun _ _ hpc ↦ osSemPost_cnt (posts_waiting _ ?_)⟩
    · rw [hwaiting] at h
      cases h
    · by_contra hwait
      rw [h.suspended (by simpa using hwait)] at hpc
      cases hpc

theorem Awake.goOn {pc pc' : Netmain} {posting : ℕ} (h : Awake e pc rcvd posting)
    (hrun : e.waiting = false) (hpc : rcvd ≠ [] → pc' ≠ .block) : Awake e pc' rcvd posting :=
  ⟨fun hwait ↦ absurd (hrun.symm.trans hwait) (by simp), h.woken, fun hne _ hblock ↦ absurd hblock (hpc hne)⟩

end Waking

section Invariant

variable {σ : Type*} {c : Chip σ} {d : Documented c} {iface : ℕ} {y y' : System σ} {p : Packet}
  {items items' : QueueId → List Packet} {rcvd : List Packet} {done : List Frame}
  {kept : List (Frame ⊕ Netbuf)}

/-- Where a packet in the queue comes from: from the chip, or from a task. -/
def Brings (iface : ℕ) (b : Netbuf) : Frame ⊕ Netbuf → Prop
  | .inl f => Carries iface f b
  | .inr b' => b = b'

/-- What has come in is on its way in the order in which it came, or was handed on. -/
structure Inbound (iface : ℕ) (y : System σ) (rcvd : List Packet) (done : List Frame)
    (entries : List (Frame ⊕ Netbuf)) : Prop where
  chosen : (entries.filterMap Sum.getLeft?).Sublist (done.filter (fun f ↦ decide f.good))
  looped : entries.filterMap Sum.getRight? = y.looped
  discards : (∀ x ∈ y.given, x.status ≠ niDown) →
    (y.shared.ifInDiscards + (entries.filterMap Sum.getLeft?).length) % 4294967296 =
      (done.filter (fun f ↦ decide f.good)).length % 4294967296
  carried : List.Forall₂ (Brings iface)
    (y.given.map Demuxed.pkt ++ (y.netmain.packets ++ rcvd).map y.shared.pool.buf) entries
  handlers : ∀ x ∈ y.given,
    x.handler = if x.status = niDown then .pkFree else handler x.pkt.type
  located : ∀ b ∈ y.looped, b.net ≠ none
  counting : y.netmain.counts = true → ∃ x ∈ y.given, x.status = niDown
  awake : Awake y.shared.rcvdqSem y.netmain rcvd y.posting
  sane : y.panicked = false

theorem Inbound.congr (h : Inbound iface y rcvd done kept) (hnetmain : y'.netmain = y.netmain)
    (hgiven : y'.given = y.given) (hlooped : y'.looped = y.looped) (hposting : y'.posting = y.posting)
    (hsem : y'.shared.rcvdqSem = y.shared.rcvdqSem)
    (hdiscards : y'.shared.ifInDiscards = y.shared.ifInDiscards) (hpanicked : y'.panicked = y.panicked)
    (hbuf : ∀ p ∈ y.netmain.packets ++ rcvd, y'.shared.pool.buf p = y.shared.pool.buf p) :
    Inbound iface y' rcvd done kept := by
  have hcarried : (y.netmain.packets ++ rcvd).map y'.shared.pool.buf =
      (y.netmain.packets ++ rcvd).map y.shared.pool.buf := List.map_congr_left hbuf
  refine ⟨h.chosen, hlooped ▸ h.looped, ?_, ?_, hgiven ▸ h.handlers, hlooped ▸ h.located, ?_, ?_,
    hpanicked.trans h.sane⟩
  · rw [hgiven, hdiscards]
    exact h.discards
  · rw [hgiven, hnetmain, hcarried]
    exact h.carried
  · rw [hgiven, hnetmain]
    exact h.counting
  · rw [hsem, hnetmain, hposting]
    exact h.awake

structure Consistent (d : Documented c) (iface : ℕ) (y : System σ) (items : QueueId → List Packet)
    (done : List Frame) (kept : List (Frame ⊕ Netbuf)) : Prop where
  ready : Ready d [] done y.chip
  sending : Sending y.asked y.transmit (d.regs y.chip)
  sound : Sound y.shared.pool items y.held
  inbound : Inbound iface y (items .rcvdq) done kept
  alone : ∀ p, y.netmain = .got p → y.held p = 1
  choosing : ∀ i ∈ y.choosing, i ≠ .rcvdq
  memestats : ∀ err, y.shared.pool.memestats err = 0

theorem Consistent.aside (h : Consistent d iface y items done kept) {q : Packet}
    (hp : p ∈ y.netmain.packets ++ items .rcvdq) (hq : y.netmain.packets.count q < y.held q) : p ≠ q := by
  rintro rfl
  rcases List.mem_append.mp hp with hgot | hrcvd
  · cases hpc : y.netmain with
    | got p' =>
      rw [hpc, Netmain.packets, List.mem_singleton] at hgot
      subst hgot
      rw [h.alone p hpc, hpc, Netmain.packets, List.count_singleton_self] at hq
      exact absurd hq (Nat.lt_irrefl 1)
    | _ =>
      rw [hpc] at hgot
      exact absurd hgot List.not_mem_nil
  · rw [h.sound.idle _ p hrcvd] at hq
    exact absurd hq (Nat.not_lt_zero _)

/-- An event in which no packet moves between a queue and its holders leaves the reception alone. -/
theorem Consistent.congr (h : Consistent d iface y items done kept) (hready : Ready d [] done y'.chip)
    (hsending : Sending y'.asked y'.transmit (d.regs y'.chip)) (hheld : y'.held = y.held)
    (hchoosing : ∀ i ∈ y'.choosing, i ≠ .rcvdq) (hshared : y'.shared = y.shared)
    (hnetmain : y'.netmain = y.netmain) (hgiven : y'.given = y.given) (hlooped : y'.looped = y.looped)
    (hposting : y'.posting = y.posting) (hpanicked : y'.panicked = y.panicked) :
    Consistent d iface y' items done kept := by
  refine ⟨hready, hsending, ?_, ?_, fun q hq ↦ ?_, hchoosing, fun err ↦ ?_⟩
  · rw [hheld, hshared]
    exact h.sound
  · exact h.inbound.congr hnetmain hgiven hlooped hposting (by rw [hshared]) (by rw [hshared]) hpanicked
      fun _ _ ↦ by rw [hshared]
  · rw [hheld]
    exact h.alone q (hnetmain.symm.trans hq)
  · rw [hshared]
    exact h.memestats err

theorem Consistent.interrupt {fuel : ℕ} (h : Consistent d iface y items done kept)
    (hopen : (d.regs y.chip).imr &&& 0x3F ≠ 0)
    (hends : (dm9000aIsr c iface fuel y.chip y.shared).isSome) :
    ∃ items' done' kept', Consistent d iface (step c iface y (.interrupt fuel)) items' done' kept' := by
  rcases h.ready.interrupt h.sound iface fuel with ⟨fs, s', hisr, hready, -, hregs⟩ | ⟨hisr, -⟩
  · obtain ⟨items', new, kept', hdelivery⟩ := foldl_takeIn h.sound iface fs
    have hstep : step c iface y (.interrupt fuel) =
        { y with chip := s', shared := fs.foldl (takeIn iface) y.shared } := by simp only [step, hisr]
    rw [hstep]
    have hframes : (kept ++ kept'.map Sum.inl).filterMap Sum.getLeft? =
        kept.filterMap Sum.getLeft? ++ kept' := by
      simp [List.filterMap_append, Function.comp_def]
    have hpackets : (kept ++ kept'.map Sum.inl).filterMap Sum.getRight? =
        kept.filterMap Sum.getRight? := by
      simp [List.filterMap_append, Function.comp_def]
    refine ⟨items', done ++ fs, kept ++ kept'.map .inl, hready, ?_, hdelivery.sound,
      ⟨?_, hpackets.trans h.inbound.looped, fun hup ↦ ?_, ?_, h.inbound.handlers, h.inbound.located,
        h.inbound.counting, ?_, h.inbound.sane⟩, h.alone, h.choosing, ?_⟩
    · simp only
      rw [hregs]
      exact sending_interrupt h.sending hopen
    · rw [hframes, List.filter_append]
      exact h.inbound.chosen.append hdelivery.chosen
    · have hbefore := h.inbound.discards hup
      have hafter := hdelivery.discards
      simp only [hframes, List.filter_append, List.length_append] at hafter ⊢
      omega
    · have hsame : (y.netmain.packets ++ items .rcvdq).map (fs.foldl (takeIn iface) y.shared).pool.buf =
          (y.netmain.packets ++ items .rcvdq).map y.shared.pool.buf := by
        refine List.map_congr_left fun p hp ↦ hdelivery.same p ?_
        rcases List.mem_append.mp hp with hp | hp
        · refine .inl ?_
          have hcount := List.count_pos_iff.mpr hp
          simp only [System.held]
          omega
        · exact .inr hp
      simp only
      rw [hdelivery.queue, ← List.append_assoc y.netmain.packets, List.map_append, hsame,
        ← List.append_assoc]
      refine List.rel_append h.inbound.carried ?_
      rw [List.forall₂_map_left_iff, List.forall₂_map_right_iff]
      exact hdelivery.carried
    · simp only
      rw [hdelivery.queue, hdelivery.posted]
      exact h.inbound.awake.posts new
    · simp only
      rw [hdelivery.memestats]
      exact h.memestats
  · rw [hisr] at hends
    cases hends

theorem Consistent.goOn {pc : Netmain} {e : Semaphore} (h : Consistent d iface y items done kept)
    (hbefore : y.netmain.packets = []) (hafter : pc.packets = [])
    (hcounts : pc.counts = true → y.netmain.counts = true)
    (hawake : Awake e pc (items .rcvdq) y.posting) :
    Consistent d iface
      { y with shared := { y.shared with rcvdqSem := e }, netmain := pc } items done kept := by
  have hheld : System.held { y with shared := { y.shared with rcvdqSem := e }, netmain := pc } = y.held := by
    funext p
    simp only [System.held, hbefore, hafter]
  refine ⟨h.ready, h.sending, hheld ▸ h.sound, ⟨h.inbound.chosen, h.inbound.looped, h.inbound.discards, ?_,
    h.inbound.handlers, h.inbound.located, fun hc ↦ h.inbound.counting (hcounts hc), hawake,
    h.inbound.sane⟩, fun p hp ↦ ?_, h.choosing, h.memestats⟩
  · have hcarried := h.inbound.carried
    rw [hbefore] at hcarried
    simp only
    rwa [hafter]
  · simp only at hp
    rw [hp] at hafter
    cases hafter

theorem corrupt_framed {b : Netbuf} (h : Framed p b) : corrupt b = false := by
  have hguards := h.guards
  simp only [guardBands, Bool.and_eq_true, decide_eq_true_eq] at hguards
  have hhead : (b.memory.take alignType).head? = some marker := by
    rw [hguards.1]
    rfl
  rw [List.head?_take, if_neg (by decide)] at hhead
  simp [corrupt, hhead, hguards.2]

/-- The packet at the front of the queue is `pktdemux`'s from now on. -/
theorem Consistent.dequeue {rest : List Packet} (h : Consistent d iface y items done kept)
    (hpc : y.netmain = .demux) (hrun : y.shared.rcvdqSem.waiting = false)
    (hitems : items .rcvdq = p :: rest) :
    ∃ pool, getq y.shared.pool .rcvdq = (some p, pool) ∧
      Consistent d iface { y.setPool pool with netmain := .got p } (update items .rcvdq rest) done kept := by
  obtain ⟨pool, hget, hsound, hbuf, hstats⟩ := h.sound.getq hitems
  have hidle : y.held p = 0 := h.sound.idle .rcvdq p (hitems ▸ List.mem_cons_self)
  have hheld : System.held { y.setPool pool with netmain := .got p } = update y.held p 1 := by
    funext q
    by_cases hq : q = p
    · subst hq
      simp only [System.held, hpc, Netmain.packets, List.count_nil, System.setPool, update_self,
        List.count_singleton_self] at hidle ⊢
      omega
    · rw [update_of_ne hq]
      simp [System.held, System.setPool, hpc, Netmain.packets, Ne.symm hq]
  have hawake := h.inbound.awake
  have hcarried := h.inbound.carried
  rw [hpc, hitems] at hawake hcarried
  refine ⟨pool, hget, h.ready, h.sending, hheld ▸ hsound, ⟨h.inbound.chosen, h.inbound.looped,
    h.inbound.discards, ?_, h.inbound.handlers, h.inbound.located, by simp [Netmain.counts], ?_,
    h.inbound.sane⟩, fun q hq ↦ ?_, h.choosing, fun err ↦ ?_⟩
  · simp only [System.setPool, hbuf, update_self]
    exact hcarried
  · exact ⟨fun hwait ↦ absurd (hrun.symm.trans hwait) (by simp), fun _ ↦ hawake.woken (by simp), by simp⟩
  · obtain rfl : p = q := by simpa using hq
    rw [hheld, update_self]
  · exact (congrFun hstats err).trans (h.memestats err)

theorem brought {bs : List Netbuf} {b : Netbuf} (h : List.Forall₂ (Brings iface) bs kept) (hb : b ∈ bs) :
    ∃ e ∈ kept, Brings iface b e := by
  obtain ⟨i, hi, rfl⟩ := List.getElem_of_mem hb
  obtain ⟨hlen, hall⟩ := List.forall₂_iff_get.mp h
  exact ⟨kept[i], List.getElem_mem _, hall i hi (hlen ▸ hi)⟩

theorem Consistent.located (h : Consistent d iface y items done kept) (hpc : y.netmain = .got p) :
    (y.shared.pool.buf p).net ≠ none := by
  have hcarried := h.inbound.carried
  rw [hpc] at hcarried
  obtain ⟨e, he, hbrings⟩ := brought hcarried
    (List.mem_append_right _ (List.mem_map_of_mem (List.mem_append_left _ (List.mem_singleton_self p))))
  cases e with
  | inl f => simp [Carries.net hbrings]
  | inr b =>
    obtain rfl : y.shared.pool.buf p = b := hbrings
    refine h.inbound.located _ ?_
    rw [← h.inbound.looped]
    exact List.mem_filterMap.mpr ⟨_, he, rfl⟩

/-- `pktdemux` hands a packet on. -/
theorem Consistent.handOn (h : Consistent d iface y items done kept) (x : Demuxed) (pc : Netmain)
    (owned : Packet → ℕ) (validating : List Packet) (hpc : y.netmain = .got p)
    (hheld : ∀ q, owned q + validating.count q = y.owned q + y.validating.count q + [p].count q)
    (hpkt : x.pkt = y.shared.pool.buf p)
    (hhandler : x.handler = if x.status = niDown then .pkFree else handler x.pkt.type)
    (hafter : pc.packets = []) (hblock : pc ≠ .block)
    (hcounts : pc.counts = true → x.status = niDown) (hrun : y.shared.rcvdqSem.waiting = false) :
    Consistent d iface
      { y with netmain := pc, given := y.given ++ [x], owned := owned, validating := validating }
      items done kept := by
  have hsame : System.held
      { y with netmain := pc, given := y.given ++ [x], owned := owned, validating := validating } =
        y.held := by
    funext q
    have hq := hheld q
    simp only [System.held, hpc, hafter]
    simp only [Netmain.packets, List.count_nil]
    omega
  have hcarried := h.inbound.carried
  rw [hpc] at hcarried
  refine ⟨h.ready, h.sending, hsame ▸ h.sound, ⟨h.inbound.chosen, h.inbound.looped, fun hup ↦ ?_, ?_, ?_,
    h.inbound.located, fun hc ↦ ?_, h.inbound.awake.goOn hrun fun _ ↦ hblock, h.inbound.sane⟩,
    fun q hq ↦ ?_, h.choosing, h.memestats⟩
  · exact h.inbound.discards fun x hx ↦ hup x (List.mem_append_left _ hx)
  · simp only [List.map_append, List.map_singleton, hpkt, hafter, List.append_assoc]
    exact hcarried
  · intro x' hx'
    rcases List.mem_append.mp hx' with hx' | hx'
    · exact h.inbound.handlers x' hx'
    · rw [List.mem_singleton.mp hx']
      exact hhandler
  · exact ⟨x, by simp, hcounts hc⟩
  · simp only at hq
    rw [hq] at hafter
    cases hafter

theorem Consistent.netmain (h : Consistent d iface y items done kept)
    (hrun : y.shared.rcvdqSem.waiting = false) :
    ∃ items' done' kept', Consistent d iface (step c iface y .netmain) items' done' kept' := by
  have hempty := (h.sound.holds .rcvdq).len_eq_zero
  have hawake := h.inbound.awake
  -- A move of the program counter that takes no packet out of the queue and discards none.
  have hmove (pc : Netmain) (hbefore : y.netmain.packets = []) (hafter : pc.packets = [])
      (hcounts : pc.counts = false) (hblock : items .rcvdq ≠ [] → pc ≠ .block) :
      ∃ items' done' kept', Consistent d iface { y with netmain := pc } items' done' kept' :=
    ⟨items, done, kept, h.goOn (e := y.shared.rcvdqSem) hbefore hafter (by simp [hcounts])
      (hawake.goOn hrun hblock)⟩
  simp only [step, netmainStep]
  cases hpc : y.netmain with
  | block =>
    by_cases hcnt : 0 < y.shared.rcvdqSem.cnt
    · simp only [osSemPend, if_pos hcnt, if_true]
      exact ⟨items, done, kept, h.goOn (by rw [hpc]; rfl) rfl (by simp [Netmain.counts])
        ⟨fun hwait ↦ absurd (hrun.symm.trans hwait) (by simp), hawake.woken, by simp⟩⟩
    · simp only [osSemPend, if_neg hcnt]
      have hposted (hne : items .rcvdq ≠ []) : y.posting ≠ 0 :=
        fun hzero ↦ hcnt (hawake.posted hne hzero hpc)
      exact ⟨items, done, kept, h.goOn (by rw [hpc]; rfl) rfl (by simp [Netmain.counts])
        ⟨fun _ ↦ rfl, fun hne hzero ↦ absurd hzero (hposted hne), fun hne hzero ↦ absurd hzero (hposted hne)⟩⟩
  | pend => exact hmove .check (by rw [hpc]; rfl) rfl rfl (by simp)
  | check =>
    by_cases hlen : (y.shared.pool.queue .rcvdq).len = 0
    · simp only [if_pos hlen]
      exact hmove .block (by rw [hpc]; rfl) rfl rfl fun hne ↦ absurd (hempty.mp hlen) hne
    · simp only [if_neg hlen]
      exact hmove .demux (by rw [hpc]; rfl) rfl rfl (by simp)
  | demux =>
    by_cases hlen : (y.shared.pool.queue .rcvdq).len = 0
    · simp only [if_pos hlen]
      exact hmove .block (by rw [hpc]; rfl) rfl rfl fun hne ↦ absurd (hempty.mp hlen) hne
    · obtain ⟨p, rest, hitems⟩ := List.exists_cons_of_ne_nil (fun hnil ↦ hlen (hempty.mpr hnil))
      obtain ⟨pool, hget, hnext⟩ := h.dequeue hpc hrun hitems
      simp only [if_neg hlen, hget]
      exact ⟨_, done, kept, hnext⟩
  | got p =>
    obtain ⟨ifc, hifc⟩ := Option.ne_none_iff_exists'.mp (h.located hpc)
    have hfreed (q : Packet) : y.owned q + (p :: y.validating).count q =
        y.owned q + y.validating.count q + [p].count q := by
      rw [← List.singleton_append, List.count_append]
      omega
    have htaken (q : Packet) : update y.owned p (y.owned p + 1) q + y.validating.count q =
        y.owned q + y.validating.count q + [p].count q := by
      by_cases hq : q = p
      · subst hq
        rw [update_self, List.count_singleton_self]
        omega
      · simp [update_of_ne hq, Ne.symm hq]
    simp only [hifc]
    refine ⟨items, done, kept, ?_⟩
    by_cases hdown : y.adminStatus ifc = niDown
    · simp only [if_pos hdown]
      exact h.handOn _ (.discard ifc) _ _ hpc hfreed rfl (if_pos hdown).symm rfl (by simp)
        (fun _ ↦ hdown) hrun
    · simp only [if_neg hdown, corrupt_framed (h.sound.framed p), Bool.false_eq_true, if_false]
      have hhand (owned : Packet → ℕ) (validating : List Packet)
          (hheld : ∀ q, owned q + validating.count q = y.owned q + y.validating.count q + [p].count q) :=
        h.handOn ⟨y.adminStatus ifc, handler (y.shared.pool.buf p).type, y.shared.pool.buf p⟩ .demux owned
          validating hpc hheld rfl (if_neg hdown).symm rfl (by simp) (by simp [Netmain.counts]) hrun
      cases hhandler : handler (y.shared.pool.buf p).type with
      | pkFree =>
        have hnext := hhand y.owned (p :: y.validating) hfreed
        rw [hhandler] at hnext
        exact hnext
      | _ =>
        have hnext := hhand (update y.owned p (y.owned p + 1)) y.validating htaken
        rw [hhandler] at hnext
        exact hnext
  | discard ifc =>
    refine ⟨items, done, kept, h.goOn (e := y.shared.rcvdqSem) (by rw [hpc]; rfl) ?_ (by simp [hpc, Netmain.counts])
      (hawake.goOn hrun fun _ ↦ ?_)⟩
    all_goals split_ifs <;> simp [Netmain.packets]
  | store discards =>
    obtain ⟨x, hx, hdown⟩ := h.inbound.counting (by rw [hpc]; rfl)
    have hnext := hmove .demux (by rw [hpc]; rfl) rfl rfl (by simp)
    obtain ⟨items', done', kept', hnext⟩ := hnext
    refine ⟨items', done', kept', hnext.ready, hnext.sending, hnext.sound, ⟨hnext.inbound.chosen,
      hnext.inbound.looped, fun hup ↦ absurd hdown (hup x hx), hnext.inbound.carried,
      hnext.inbound.handlers, hnext.inbound.located, hnext.inbound.counting, hnext.inbound.awake,
      hnext.inbound.sane⟩, hnext.alone, hnext.choosing, hnext.memestats⟩

theorem Consistent.timeout (h : Consistent d iface y items done kept) (hpc : y.netmain = .pend) :
    Consistent d iface (step c iface y .timeout) items done kept := by
  refine h.goOn (by rw [hpc]; rfl) (by rw [hpc]; rfl) (fun hc ↦ hc)
    ⟨by simp, fun _ _ ↦ rfl, fun _ _ hblock ↦ ?_⟩
  rw [hpc] at hblock
  cases hblock

theorem Consistent.choose (h : Consistent d iface y items done kept) (len : ℕ) :
    Consistent d iface (step c iface y (.choose len)) items done kept := by
  simp only [step]
  cases hchoose : chooseQueue y.shared.pool len with
  | none => exact h
  | some i =>
    refine h.congr h.ready h.sending rfl (fun j hj ↦ ?_) rfl rfl rfl rfl rfl rfl
    rcases List.mem_cons.mp hj with rfl | hj
    · exact chooseQueue_ne hchoose
    · exact h.choosing j hj

theorem held_owned (y : System σ) (pool : Pool) (choosing : List QueueId) (p : Packet) :
    System.held { y.setPool pool with choosing := choosing, owned := update y.owned p (y.owned p + 1) } =
      update y.held p (y.held p + 1) := by
  funext q
  by_cases hq : q = p
  · subst hq
    simp only [System.held, System.setPool, update_self]
    omega
  · simp only [System.held, System.setPool, update_of_ne hq]

theorem Consistent.work {pool : Pool} {choosing : List QueueId} {owned : Packet → ℕ}
    {validating releasing : List Packet} (h : Consistent d iface y items done kept) (p : Packet)
    (hsound : Sound pool items' (System.held { y.setPool pool with
      choosing := choosing, owned := owned, validating := validating, releasing := releasing }))
    (hrcvdq : items' .rcvdq = items .rcvdq) (haside : ∀ q ∈ y.netmain.packets ++ items .rcvdq, q ≠ p)
    (hbuf : ∀ q, q ≠ p → pool.buf q = y.shared.pool.buf q)
    (hstats : pool.memestats = y.shared.pool.memestats)
    (hheld : ∀ q, q ≠ p → owned q + validating.count q + releasing.count q =
      y.owned q + y.validating.count q + y.releasing.count q)
    (hchoosing : ∀ i ∈ choosing, i ∈ y.choosing) :
    Consistent d iface { y.setPool pool with
      choosing := choosing, owned := owned, validating := validating, releasing := releasing }
      items' done kept := by
  refine ⟨h.ready, h.sending, hsound, ?_, fun q hq ↦ ?_, fun i hi ↦ h.choosing i (hchoosing i hi), ?_⟩
  · rw [hrcvdq]
    exact h.inbound.congr rfl rfl rfl rfl rfl rfl rfl fun q hq ↦ hbuf q (haside q hq)
  · have hgot : y.netmain = .got q := hq
    have hne : q ≠ p := haside q (List.mem_append_left _ (by rw [hgot]; exact List.mem_singleton_self q))
    have hone := h.alone q hgot
    have hsame := hheld q hne
    simp only [System.held, System.setPool] at hone ⊢
    omega
  · intro err
    exact (congrFun hstats err).trans (h.memestats err)

theorem Consistent.take {i : QueueId} (h : Consistent d iface y items done kept) (hi : i ∈ y.choosing) :
    ∃ items', Consistent d iface (step c iface y (.take i)) items' done kept := by
  have hne := h.choosing i hi
  simp only [step]
  cases hitems : items i with
  | nil =>
    rw [h.sound.takeFrom_nil hitems]
    exact ⟨items, h.congr h.ready h.sending rfl (fun j hj ↦ h.choosing j (List.mem_of_mem_erase hj))
      rfl rfl rfl rfl rfl rfl⟩
  | cons p rest =>
    obtain ⟨pool, htake, hsound, hstats, -, hbuf, -⟩ := h.sound.takeFrom hne hitems
    have hmem : p ∈ items i := hitems ▸ List.mem_cons_self
    have hidle : y.held p = 0 := h.sound.idle i p hmem
    rw [htake]
    refine ⟨update items i rest, h.work p ?_ (update_of_ne (Ne.symm hne) _ _) ?_ hbuf hstats ?_
      fun j hj ↦ List.mem_of_mem_erase hj⟩
    · have hheld := held_owned y pool (y.choosing.erase i) p
      rw [hidle] at hheld
      exact hheld.symm ▸ hsound
    · intro q hq
      rintro rfl
      rcases List.mem_append.mp hq with hq | hq
      · have hcount := List.count_pos_iff.mpr hq
        simp only [System.held] at hidle
        omega
      · exact h.sound.apart _ _ hne hmem hq
    · intro q hq
      rw [update_of_ne hq]
      rfl

theorem Consistent.others (h : Consistent d iface y items done kept)
    (hp : 0 < y.owned p ∨ p ∈ y.validating ∨ p ∈ y.releasing) :
    0 < y.held p ∧ ∀ q ∈ y.netmain.packets ++ items .rcvdq, q ≠ p := by
  have hcount : y.netmain.packets.count p < y.held p := by
    simp only [System.held]
    rcases hp with hp | hp | hp
    · omega
    · have hpos := List.count_pos_iff.mpr hp
      omega
    · have hpos := List.count_pos_iff.mpr hp
      omega
  exact ⟨Nat.lt_of_le_of_lt (Nat.zero_le _) hcount, fun q hq ↦ h.aside hq hcount⟩

theorem Consistent.write {b : Netbuf} (h : Consistent d iface y items done kept) (hp : 0 < y.owned p)
    (hb : Framed p b) (hinuse : b.inuse = (y.shared.pool.buf p).inuse) :
    Consistent d iface (step c iface y (.write p b)) items done kept := by
  obtain ⟨hheld, haside⟩ := h.others (.inl hp)
  exact h.work p (h.sound.edit hheld hb hinuse) rfl haside (fun q hq ↦ update_of_ne hq _ _) rfl
    (fun _ _ ↦ rfl) fun _ hi ↦ hi

theorem Consistent.clone (h : Consistent d iface y items done kept) (hp : 0 < y.owned p)
    (hlt : y.held p + 1 < 4294967296) :
    Consistent d iface (step c iface y (.clone p)) items done kept := by
  obtain ⟨hheld, haside⟩ := h.others (.inl hp)
  have hinuse := (h.sound.counted p hheld).1
  have hup : ((y.shared.pool.buf p).inuse + 1) % 4294967296 = y.held p + 1 := by
    rw [hinuse]
    exact Nat.mod_eq_of_lt hlt
  simp only [step]
  rw [hup]
  refine h.work p ?_ rfl haside (fun q hq ↦ update_of_ne hq _ _) rfl (fun q hq ↦ ?_) fun _ hi ↦ hi
  · exact (held_owned y _ _ p).symm ▸ h.sound.recount hheld (Nat.succ_pos _) hlt
  · rw [update_of_ne hq]
    rfl

theorem Consistent.free (h : Consistent d iface y items done kept) (hp : 0 < y.owned p) :
    Consistent d iface (step c iface y (.free p)) items done kept := by
  obtain ⟨-, haside⟩ := h.others (.inl hp)
  have hsame : System.held (step c iface y (.free p)) = y.held := by
    funext q
    by_cases hq : q = p
    · subst hq
      simp only [step, System.held, update_self, List.count_cons_self]
      omega
    · simp only [step, System.held, update_of_ne hq, List.count_cons_of_ne (Ne.symm hq)]
  refine h.work p (hsame.symm ▸ h.sound) rfl haside (fun _ _ ↦ rfl) rfl (fun q hq ↦ ?_) fun _ hi ↦ hi
  rw [update_of_ne hq, List.count_cons_of_ne (Ne.symm hq)]

/-- A task puts a packet into the queue, and has to call `SignalPktDemux` then. -/
theorem Consistent.enqueue (h : Consistent d iface y items done kept) (hp : 0 < y.owned p)
    (hone : y.held p = 1) (hnet : (y.shared.pool.buf p).net ≠ none) :
    ∃ items' kept', Consistent d iface (step c iface y (.enqueue p)) items' done kept' := by
  have hput := h.sound.putq (i := .rcvdq) (by rw [hone]; exact Nat.one_pos) (.inr ⟨rfl, hone⟩)
  have hgone : System.held (step c iface y (.enqueue p)) = update y.held p 0 := by
    funext q
    by_cases hq : q = p
    · subst hq
      simp only [System.held] at hone
      simp only [step, System.held, System.setPool, update_self]
      omega
    · simp only [step, System.held, System.setPool, update_of_ne hq]
  have hqueue : update items .rcvdq (items .rcvdq ++ [p]) .rcvdq = items .rcvdq ++ [p] := update_self _ _ _
  have hframes : (kept ++ [Sum.inr (y.shared.pool.buf p)]).filterMap Sum.getLeft? =
      kept.filterMap Sum.getLeft? := by
    rw [List.filterMap_append]
    exact List.append_nil _
  have hpackets : (kept ++ [Sum.inr (y.shared.pool.buf p)]).filterMap Sum.getRight? =
      y.looped ++ [y.shared.pool.buf p] := by
    rw [List.filterMap_append, h.inbound.looped]
    rfl
  refine ⟨_, kept ++ [.inr (y.shared.pool.buf p)], h.ready, h.sending, hgone ▸ hput, ⟨?_, hpackets, ?_, ?_,
    h.inbound.handlers, ?_, h.inbound.counting, ?_, h.inbound.sane⟩, fun q hq ↦ ?_, h.choosing, h.memestats⟩
  · rw [hframes]
    exact h.inbound.chosen
  · rw [hframes]
    exact h.inbound.discards
  · rw [hqueue, ← List.append_assoc, List.map_append, ← List.append_assoc]
    exact List.rel_append h.inbound.carried (.cons rfl .nil)
  · intro b hb
    rcases List.mem_append.mp hb with hb | hb
    · exact h.inbound.located b hb
    · rw [List.mem_singleton.mp hb]
      exact hnet
  · rw [hqueue]
    exact ⟨h.inbound.awake.suspended, by simp [step], by simp [step]⟩
  · have hgot : y.netmain = .got q := hq
    have hne : q ≠ p := (h.others (.inl hp)).2 q (by simp [hgot, Netmain.packets])
    rw [hgone, update_of_ne hne]
    exact h.alone q hgot

theorem Consistent.post (h : Consistent d iface y items done kept) :
    Consistent d iface (step c iface y .post) items done kept :=
  ⟨h.ready, h.sending, h.sound, ⟨h.inbound.chosen, h.inbound.looped, h.inbound.discards, h.inbound.carried,
    h.inbound.handlers, h.inbound.located, h.inbound.counting, h.inbound.awake.post, h.inbound.sane⟩,
    h.alone, h.choosing, h.memestats⟩

theorem Consistent.validate (h : Consistent d iface y items done kept) (hp : p ∈ y.validating) :
    Consistent d iface (step c iface y (.validate p)) items done kept := by
  obtain ⟨hheld, haside⟩ := h.others (.inr (.inl hp))
  have hstep : step c iface y (.validate p) =
      { y with validating := y.validating.erase p, releasing := p :: y.releasing } := by
    simp only [step, h.sound.validate hheld]
  have hpos := List.count_pos_iff.mpr hp
  have hsame : System.held
      { y with validating := y.validating.erase p, releasing := p :: y.releasing } = y.held := by
    funext q
    by_cases hq : q = p
    · subst hq
      simp only [System.held, List.count_erase_self, List.count_cons_self]
      omega
    · simp only [System.held, List.count_erase_of_ne hq, List.count_cons_of_ne (Ne.symm hq)]
  rw [hstep]
  refine h.work p (hsame.symm ▸ h.sound) rfl haside (fun _ _ ↦ rfl) rfl (fun q hq ↦ ?_) fun _ hi ↦ hi
  rw [List.count_erase_of_ne hq, List.count_cons_of_ne (Ne.symm hq)]

theorem Consistent.release (h : Consistent d iface y items done kept) (hp : p ∈ y.releasing) :
    ∃ items', Consistent d iface (step c iface y (.release p)) items' done kept := by
  obtain ⟨hheld, haside⟩ := h.others (.inr (.inr hp))
  obtain ⟨hlast, hmany⟩ := h.sound.release hheld
  have hpos := List.count_pos_iff.mpr hp
  have hdown : System.held { y.setPool (PacketPool.release y.shared.pool p) with
      releasing := y.releasing.erase p } = update y.held p (y.held p - 1) := by
    funext q
    by_cases hq : q = p
    · subst hq
      simp only [System.held, System.setPool, List.count_erase_self, update_self]
      omega
    · simp only [System.held, System.setPool, List.count_erase_of_ne hq, update_of_ne hq]
  have hrest {items' : QueueId → List Packet}
      (hsound : Sound (PacketPool.release y.shared.pool p) items' (update y.held p (y.held p - 1)))
      (hrcvdq : items' .rcvdq = items .rcvdq) :
      Consistent d iface (step c iface y (.release p)) items' done kept := by
    refine h.work p (hdown.symm ▸ hsound) hrcvdq haside (fun q hq ↦ release_buf hq) release_memestats
      (fun q hq ↦ ?_) fun _ hi ↦ hi
    rw [List.count_erase_of_ne hq]
    rfl
  by_cases hone : y.held p = 1
  · have hsound := hlast hone
    rw [show 0 = y.held p - 1 by omega] at hsound
    exact ⟨_, hrest hsound (update_of_ne home_ne.symm _ _)⟩
  · exact ⟨items, hrest (hmany (by omega)) rfl⟩

theorem Consistent.send (h : Consistent d iface y items done kept) (hp : 0 < y.owned p)
    (hidle : y.transmit = .idle)
    (hroom : (y.shared.pool.buf p).prot + ethhdrBias + 2 * rounds (sendLen (y.shared.pool.buf p).plen) ≤
      (y.shared.pool.buf p).blen) :
    Consistent d iface (step c iface y (.send p)) items done kept := by
  have hframed := h.sound.framed p
  have hsize : bufsiz p ≤ 1536 := by
    rw [bufsiz]
    split_ifs <;> decide
  have hsending := h.sending
  rw [hidle] at hsending
  have hbegin := sending_begin hsending p (b := y.shared.pool.buf p) (by
      rw [dataPtr, List.length_drop, hframed.length]
      simp only [alignType] at hroom ⊢
      omega) (by
      rw [hframed.blen] at hroom
      simp only [rounds] at hroom
      omega)
  have hsame : System.held (step c iface y (.send p)) = y.held := by
    funext q
    by_cases hq : q = p
    · subst hq
      simp only [step, System.held, hidle, busyWith, pktSend, update_self, List.count_singleton_self,
        List.count_nil]
      omega
    · simp [step, System.held, hidle, busyWith, pktSend, update_of_ne hq, Ne.symm hq]
  exact h.congr h.ready hbegin hsame h.choosing rfl rfl rfl rfl rfl rfl

theorem held_transmit (y : System σ) : System.held (transmitStep c y) = y.held := by
  funext q
  simp only [transmitStep]
  cases ht : y.transmit with
  | idle => simp [System.held, ht, Transmit.step, busyWith]
  | request pkt left => cases left <;> simp [System.held, ht, Transmit.step, busyWith]
  | poll pkt => simp [System.held, ht, Transmit.step, busyWith]
  | look pkt =>
    simp only [System.held, ht, Transmit.step]
    split_ifs <;> rfl
  | close pkt left =>
    cases left with
    | nil =>
      rw [System.held, System.held, ht]
      simp only [Transmit.step, busyWith, List.count_cons, List.count_nil]
      omega
    | cons a left => simp [System.held, ht, Transmit.step, busyWith]

theorem Consistent.transmit (h : Consistent d iface y items done kept) :
    Consistent d iface (step c iface y .transmit) items done kept := by
  obtain ⟨hready, hsending⟩ := sending_step (c := c) h.ready h.sending
  exact h.congr hready hsending (held_transmit y) h.choosing rfl rfl rfl rfl rfl rfl

theorem consistent_step (h : ∃ items done kept, Consistent d iface y items done kept) {e : Event}
    (hok : ok c iface d y e) :
    ∃ items done kept, Consistent d iface (step c iface y e) items done kept := by
  obtain ⟨items, done, kept, h⟩ := h
  cases e with
  | interrupt fuel => exact h.interrupt hok.1 hok.2
  | netmain => exact h.netmain hok
  | timeout => exact ⟨items, done, kept, h.timeout hok⟩
  | choose len => exact ⟨items, done, kept, h.choose len⟩
  | take i =>
    obtain ⟨items', hnext⟩ := h.take hok
    exact ⟨items', done, kept, hnext⟩
  | write p b => exact ⟨items, done, kept, h.write hok.1 hok.2.2.1 hok.2.2.2⟩
  | clone p => exact ⟨items, done, kept, h.clone hok.1 hok.2⟩
  | free p => exact ⟨items, done, kept, h.free hok⟩
  | enqueue p =>
    obtain ⟨items', kept', hnext⟩ := h.enqueue hok.1 hok.2.1 hok.2.2
    exact ⟨items', done, kept', hnext⟩
  | post => exact ⟨items, done, kept, h.post⟩
  | setStatus ifc status =>
    exact ⟨items, done, kept, h.congr h.ready h.sending rfl h.choosing rfl rfl rfl rfl rfl rfl⟩
  | validate p => exact ⟨items, done, kept, h.validate hok⟩
  | release p =>
    obtain ⟨items', hnext⟩ := h.release hok
    exact ⟨items', done, kept, hnext⟩
  | send p => exact ⟨items, done, kept, h.send hok.1 hok.2.1 hok.2.2⟩
  | transmit => exact ⟨items, done, kept, h.transmit⟩

theorem consistent_start {s : σ} (hposition : d.position s = 0) (hregs : Resting intrSet [] (d.regs s))
    (iface maxLnh : ℕ) :
    ∃ items done kept, Consistent d iface (start maxLnh s) items done kept := by
  have hheld : System.held (start maxLnh s) = fun _ ↦ 0 := rfl
  have hrcvd : (List.finRange _).filter (fun p ↦ decide (home p = .rcvdq)) = [] :=
    List.filter_eq_nil_iff.mpr fun p _ ↦ by simpa using home_ne
  refine ⟨_, [], [], ⟨hposition, List.nil_prefix, List.nil_prefix⟩, hregs,
    hheld ▸ sound_pkInit maxLnh, ⟨List.Sublist.refl _, rfl, fun _ ↦ rfl, ?_, by simp [start], by simp [start],
      by simp [start, Netmain.counts], ?_, rfl⟩, by simp [start], by simp [start], fun err ↦ ?_⟩
  · simp only [start, hrcvd]
    exact .nil
  · simp only [start, hrcvd]
    exact ⟨by simp, by simp, by simp⟩
  · rw [start, pkInit_memestats]

theorem consistent_run {s : σ} {maxLnh : ℕ} {es : List Event} (hposition : d.position s = 0)
    (hregs : Resting intrSet [] (d.regs s))
    (h : Run (step c iface) (ok c iface d) (start maxLnh s) es y) :
    ∃ items done kept, Consistent d iface y items done kept :=
  Run.invariant (I := fun y ↦ ∃ items done kept, Consistent d iface y items done kept)
    (fun _ _ h hok ↦ consistent_step h hok) h (consistent_start hposition hregs iface maxLnh)

end Invariant

section Halves

variable {σ : Type*} {c : Chip σ} {iface len : ℕ} {y : System σ} {p : Packet} {i : QueueId}

/-- Without an interrupt in between, the two halves of an allocation are `pk_alloc`. -/
theorem choose_take (h : chooseQueue y.shared.pool len = some i) :
    (step c iface (step c iface y (.choose len)) (.take i)).shared.pool = (pkAlloc y.shared.pool len).2 := by
  simp only [step, pkAlloc, h]
  cases takeFrom y.shared.pool i with
  | mk found pool => cases found <;> rfl

/-- The two halves of giving back are `pk_free`. -/
theorem validate_release (h : pkValidate y.shared.pool p = none) :
    (step c iface (step c iface y (.validate p)) (.release p)).shared.pool = pkFree y.shared.pool p := by
  simp only [step, pkFree, h]
  rfl

end Halves

section Runs

variable {σ : Type*} {c : Chip σ} {d : Documented c} {iface maxLnh : ℕ} {s : σ} {y : System σ}
  {es : List Event}

/-- What the network hands on is what has come in, in this order: the frames from the chip, each
with all of its bytes, but for the bad ones and those that are counted as discarded, and the
packets that the tasks have put in between; the rest of them are in the queue, and the task is not
asleep then, unless somebody is just going to wake it. It never finds a packet corrupt. -/
theorem frames_handed_on (hposition : d.position s = 0) (hregs : Resting intrSet [] (d.regs s))
    (h : Run (step c iface) (ok c iface d) (start maxLnh s) es y) :
    ∃ done entries rcvd, done <+: d.arrived y.chip ∧
      d.position y.chip = (done.flatMap Frame.words).length ∧
      (entries.filterMap Sum.getLeft?).Sublist (done.filter (fun f ↦ decide f.good)) ∧
      entries.filterMap Sum.getRight? = y.looped ∧
      ((∀ x ∈ y.given, x.status ≠ niDown) →
        (y.shared.ifInDiscards + (entries.filterMap Sum.getLeft?).length) % 4294967296 =
          (done.filter (fun f ↦ decide f.good)).length % 4294967296) ∧
      Library.LinkedQueue.Holds y.shared.pool.next (y.shared.pool.queue .rcvdq) rcvd ∧
      List.Forall₂ (Brings iface)
        (y.given.map Demuxed.pkt ++ (y.netmain.packets ++ rcvd).map y.shared.pool.buf) entries ∧
      (∀ x ∈ y.given, x.handler = if x.status = niDown then .pkFree else handler x.pkt.type) ∧
      Awake y.shared.rcvdqSem y.netmain rcvd y.posting ∧ y.panicked = false := by
  obtain ⟨items, done, entries, hy⟩ := consistent_run hposition hregs h
  exact ⟨done, entries, items .rcvdq, hy.ready.done, hy.ready.position, hy.inbound.chosen, hy.inbound.looped,
    hy.inbound.discards, hy.sound.holds _, hy.inbound.carried, hy.inbound.handlers, hy.inbound.awake,
    hy.inbound.sane⟩

/-- Wherever interrupts come in, the chip sends the frames that `TransmitPacket` is called for,
each as a whole and in this order; between two calls it has sent all of them. -/
theorem frames_sent (hposition : d.position s = 0) (hregs : Resting intrSet [] (d.regs s))
    (h : Run (step c iface) (ok c iface d) (start maxLnh s) es y) :
    ((d.regs y.chip).sent = y.asked ∨ ∃ bytes, y.asked = (d.regs y.chip).sent ++ [bytes]) ∧
      (y.transmit = .idle → (d.regs y.chip).sent = y.asked ∧ (d.regs y.chip).imr = intrSet) := by
  obtain ⟨items, done, kept, hy⟩ := consistent_run hposition hregs h
  refine ⟨sending_sent hy.sending, fun hidle ↦ ?_⟩
  have hrest := hy.sending
  rw [hidle] at hrest
  exact ⟨hrest.sent, hrest.imr⟩

instance decidableFramed (p : Packet) (b : Netbuf) : Decidable (Framed p b) :=
  decidable_of_iff (b.blen = bufsiz p ∧ b.memory.length = alignType + b.blen + 1 ∧ guardBands b = true)
    ⟨fun h ↦ ⟨h.1, h.2.1, h.2.2⟩, fun h ↦ ⟨h.blen, h.length, h.guards⟩⟩

instance decidableOk (c : Chip σ) (iface : ℕ) (d : Documented c) (y : System σ) :
    ∀ e, Decidable (ok c iface d y e)
  | .interrupt _ => inferInstanceAs (Decidable (_ ∧ _))
  | .netmain => inferInstanceAs (Decidable (_ = _))
  | .timeout => inferInstanceAs (Decidable (_ = _))
  | .choose _ => inferInstanceAs (Decidable True)
  | .take i => inferInstanceAs (Decidable (i ∈ y.choosing))
  | .write _ _ => inferInstanceAs (Decidable (_ ∧ _ ∧ _ ∧ _))
  | .clone _ => inferInstanceAs (Decidable (_ ∧ _))
  | .free _ => inferInstanceAs (Decidable (_ < _))
  | .enqueue _ => inferInstanceAs (Decidable (_ ∧ _ ∧ _))
  | .post => inferInstanceAs (Decidable (_ < _))
  | .setStatus _ _ => inferInstanceAs (Decidable True)
  | .validate p => inferInstanceAs (Decidable (p ∈ y.validating))
  | .release p => inferInstanceAs (Decidable (p ∈ y.releasing))
  | .send _ => inferInstanceAs (Decidable (_ ∧ _ ∧ _))
  | .transmit => inferInstanceAs (Decidable (_ ≠ _))

/-- A frame comes in, is handed on, looped back, handed on again and sent back. Another interrupt
hits the first access. -/
def echo : List Event :=
  [.interrupt 2, .netmain, .netmain, .netmain, .netmain, .enqueue ⟨30, by decide⟩, .netmain, .post,
    .setStatus 1 niDown, .netmain, .send ⟨30, by decide⟩, .transmit, .interrupt 2] ++
    List.replicate 47 .transmit ++ [.validate ⟨30, by decide⟩, .release ⟨30, by decide⟩]

abbrev echoed : System SampleState := echo.foldl (step (sampleChip sampleComing) 0) (start 16 running)

abbrev documented : Documented (sampleChip sampleComing) :=
  sampleDocumented sampleComing sampleComing_short

theorem run_echo : Run (step (sampleChip sampleComing) 0) (ok (sampleChip sampleComing) 0 documented)
    (start 16 running) echo echoed := by
  decide +kernel

theorem frames_handed_on_echo :
    ∃ done entries rcvd, done <+: documented.arrived echoed.chip ∧
      documented.position echoed.chip = (done.flatMap Frame.words).length ∧
      (entries.filterMap Sum.getLeft?).Sublist (done.filter (fun f ↦ decide f.good)) ∧
      entries.filterMap Sum.getRight? = echoed.looped ∧
      ((∀ x ∈ echoed.given, x.status ≠ niDown) →
        (echoed.shared.ifInDiscards + (entries.filterMap Sum.getLeft?).length) % 4294967296 =
          (done.filter (fun f ↦ decide f.good)).length % 4294967296) ∧
      Library.LinkedQueue.Holds echoed.shared.pool.next (echoed.shared.pool.queue .rcvdq) rcvd ∧
      List.Forall₂ (Brings 0) (echoed.given.map Demuxed.pkt ++
        (echoed.netmain.packets ++ rcvd).map echoed.shared.pool.buf) entries ∧
      (∀ x ∈ echoed.given, x.handler = if x.status = niDown then .pkFree else handler x.pkt.type) ∧
      Awake echoed.shared.rcvdqSem echoed.netmain rcvd echoed.posting ∧ echoed.panicked = false :=
  frames_handed_on (d := documented) rfl ⟨rfl, rfl, rfl⟩ run_echo

theorem frames_sent_echo :
    echoed.transmit = .idle ∧ echoed.asked.length = 1 ∧ (documented.regs echoed.chip).sent = echoed.asked := by
  have hidle : echoed.transmit = .idle := by decide +kernel
  refine ⟨hidle, by decide +kernel, ?_⟩
  exact ((frames_sent (d := documented) rfl ⟨rfl, rfl, rfl⟩ run_echo).2 hidle).1

end Runs

end FpgaDatabase.Network.Traffic
