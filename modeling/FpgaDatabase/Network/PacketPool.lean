import FpgaDatabase.Library.LinkedQueue
import Mathlib.Data.Fintype.Card

namespace FpgaDatabase.Network.PacketPool

open Function Library.LinkedQueue

section Source

def lilbufs : ℕ := 30
def lilbufsiz : ℕ := 128
def bigbufs : ℕ := 30
def bigbufsiz : ℕ := 1536
def alignType : ℕ := 4

/-- A `PACKET` is the number of the netbuf in `pktlog`. -/
abbrev Packet := Fin (bigbufs + lilbufs)

/-- The members of a `netbuf` but its queue link. `memory` is what was allocated for the buffer:
`ALIGN_TYPE` markers, `nb_blen` bytes and another marker. `nb_prot` counts from `nb_buff` on. -/
structure Netbuf where
  memory : List UInt8
  blen : ℕ
  prot : ℕ
  plen : ℕ
  net : Option ℕ
  type : ℕ
  inuse : ℕ
  deriving DecidableEq

inductive QueueId
  | bigfreeq
  | lilfreeq
  | rcvdq
  deriving DecidableEq

inductive MemErr
  | badRegularBufLen
  | guardBandViolated
  | multipleFree
  | inconsistentLocation
  deriving DecidableEq

structure Pool where
  next : Packet → Option Packet
  buf : Packet → Netbuf
  queue : QueueId → Queue Packet
  memestats : MemErr → ℕ
  maxLnh : ℕ

variable (s : Pool) (i : QueueId) (p : Packet)

def Pool.setBuf (b : Netbuf) : Pool := { s with buf := update s.buf p b }

def getq : Option Packet × Pool :=
  let r := dequeue s.next (s.queue i)
  (r.1, { s with next := r.2.1, queue := update s.queue i r.2.2 })

def putq : Pool :=
  let r := enqueue s.next (s.queue i) p
  { s with next := r.1, queue := update s.queue i r.2 }

def bufsiz : ℕ := if p.val < bigbufs then bigbufsiz else lilbufsiz

def marker : UInt8 := 77

def newBuffer : Netbuf :=
  ⟨List.replicate alignType marker ++ List.replicate (bufsiz p) 0 ++ [marker], bufsiz p, 0, 0, none, 0, 0⟩

def pkInit (maxLnh : ℕ) : Pool :=
  (List.finRange (bigbufs + lilbufs)).foldl
    (fun s p ↦ putq s (if p.val < bigbufs then .bigfreeq else .lilfreeq) p)
    ⟨fun _ ↦ none, newBuffer, fun _ ↦ empty, fun _ ↦ 0, maxLnh⟩

def chooseQueue (len : ℕ) : Option QueueId :=
  if bigbufsiz < len then none
  else if lilbufsiz < len ∨ (s.queue .lilfreeq).len = 0 then some .bigfreeq
  else some .lilfreeq

/-- The rest of `pk_alloc`. An interrupt can come in between if a task calls it. -/
def takeFrom : Option Packet × Pool :=
  match getq s i with
  | (none, s) => (none, s)
  | (some p, s) =>
    (some p, s.setBuf p { s.buf p with prot := s.maxLnh, plen := 0, net := none, inuse := 1 })

def pkAlloc (len : ℕ) : Option Packet × Pool :=
  match chooseQueue s len with
  | none => (none, s)
  | some i => takeFrom s i

/-- Whether the walk through a free queue meets the packet. No queue is longer than that. -/
def alreadyIn : Bool := search s.next p (bigbufs + lilbufs) (s.queue i).head = some true

def guardBands (b : Netbuf) : Bool :=
  b.memory.take alignType = List.replicate alignType marker &&
    b.memory[alignType + b.blen]? = some marker

def pkValidate : Option MemErr :=
  if s.next p ≠ none ∧ 1 ≤ (s.buf p).inuse then some .inconsistentLocation
  else if (s.buf p).blen = bigbufsiz ∧ alreadyIn s .bigfreeq p then some .multipleFree
  else if (s.buf p).blen = lilbufsiz ∧ alreadyIn s .lilfreeq p then some .multipleFree
  else if (s.buf p).blen ≠ bigbufsiz ∧ (s.buf p).blen ≠ lilbufsiz then some .badRegularBufLen
  else if ¬ guardBands (s.buf p) then some .guardBandViolated
  else none

/-- What `pk_free` does with a packet that was found valid. The count is unsigned. -/
def release : Pool :=
  let b := s.buf p
  let s := s.setBuf p { b with inuse := (b.inuse + 4294967295) % 4294967296 }
  if 1 < b.inuse then s
  else if b.blen = bigbufsiz then putq s .bigfreeq p
  else if b.blen = lilbufsiz then putq s .lilfreeq p
  else s

def pkFree : Pool :=
  match pkValidate s p with
  | some err => { s with memestats := update s.memestats err (s.memestats err + 1) }
  | none => release s p

end Source

section Places

variable {s s' : Pool} {items : QueueId → List Packet} {held : Packet → ℕ} {i j : QueueId}
  {p : Packet} {rest : List Packet} {n : ℕ}

/-- Every packet is in exactly one place: in one of the queues, once, or with those who hold
it, and then it is linked to nothing. `held` counts how often it is held. -/
structure Placed (s : Pool) (items : QueueId → List Packet) (held : Packet → ℕ) : Prop where
  holds : ∀ i, Holds s.next (s.queue i) (items i)
  apart : ∀ i j, i ≠ j → (items i).Disjoint (items j)
  idle : ∀ i, ∀ p ∈ items i, held p = 0
  loose : ∀ p, (∀ i, p ∉ items i) → 0 < held p ∧ s.next p = none

theorem Placed.congr (h : Placed s items held) (hnext : s'.next = s.next) (hqueue : s'.queue = s.queue) :
    Placed s' items held := by
  refine ⟨fun i ↦ ?_, h.apart, h.idle, fun p hp ↦ ?_⟩
  · rw [hnext, hqueue]
    exact h.holds i
  · rw [hnext]
    exact h.loose p hp

theorem Placed.not_mem (h : Placed s items held) (hp : 0 < held p) : p ∉ items i :=
  fun hmem ↦ absurd (h.idle i p hmem) (Nat.ne_of_gt hp)

theorem Placed.count (h : Placed s items held) (hp : 0 < held p) (hn : 0 < n) :
    Placed s items (update held p n) := by
  refine ⟨h.holds, h.apart, fun i q hq ↦ ?_, fun q hq ↦ ?_⟩
  · have hne : q ≠ p := by
      rintro rfl
      exact h.not_mem hp hq
    rw [update_of_ne hne]
    exact h.idle i q hq
  · by_cases hne : q = p
    · subst hne
      rw [update_self]
      exact ⟨hn, (h.loose q hq).2⟩
    · rw [update_of_ne hne]
      exact h.loose q hq

theorem Placed.getq (h : Placed s items held) (hi : items i = p :: rest) (hn : 0 < n) :
    ∃ q, getq s i = (some p, { s with next := update s.next p none, queue := update s.queue i q }) ∧
      Placed { s with next := update s.next p none, queue := update s.queue i q }
        (update items i rest) (update held p n) := by
  have hholds := h.holds i
  rw [hi] at hholds
  obtain ⟨q, hget, hrest⟩ := hholds.dequeue
  have hout : p ∉ rest := (List.nodup_cons.mp hholds.nodup).1
  have helse (j : QueueId) (hj : j ≠ i) : p ∉ items j :=
    fun hmem ↦ h.apart j i hj hmem (hi ▸ List.mem_cons_self)
  have hafter (j : QueueId) : p ∉ update items i rest j := by
    by_cases hj : j = i
    · rw [hj, update_self]
      exact hout
    · rw [update_of_ne hj]
      exact helse j hj
  have hsub (j : QueueId) : update items i rest j ⊆ items j := by
    by_cases hj : j = i
    · rw [hj, update_self, hi]
      exact List.subset_cons_self p rest
    · rw [update_of_ne hj]
      exact List.Subset.refl _
  refine ⟨q, by rw [PacketPool.getq, hget], ?_, ?_, ?_, ?_⟩
  · intro j
    by_cases hj : j = i
    · subst hj
      simp only [update_self]
      exact hrest
    · simp only [update_of_ne hj]
      exact (h.holds j).cut (helse j hj)
  · exact fun j k hjk x hx hx' ↦ h.apart j k hjk (hsub j hx) (hsub k hx')
  · intro j x hx
    have hne : x ≠ p := by
      rintro rfl
      exact hafter j hx
    rw [update_of_ne hne]
    exact h.idle j x (hsub j hx)
  · intro x hx
    by_cases hne : x = p
    · subst hne
      exact ⟨by rw [update_self]; exact hn, update_self _ _ _⟩
    · rw [update_of_ne hne]
      refine (h.loose x fun j hmem ↦ hx j ?_).imp_right fun hnone ↦ (update_of_ne hne _ _).trans hnone
      by_cases hj : j = i
      · subst hj
        rw [hi] at hmem
        rw [update_self]
        exact (List.mem_cons.mp hmem).resolve_left hne
      · rwa [update_of_ne hj]

theorem Placed.getq_nil (h : Placed s items held) (hi : items i = []) : PacketPool.getq s i = (none, s) := by
  have hholds := h.holds i
  rw [hi] at hholds
  rw [PacketPool.getq, hholds.dequeue_nil, update_eq_self]

theorem Placed.putq (h : Placed s items held) (hp : 0 < held p) (i : QueueId) :
    Placed (putq s i p) (update items i (items i ++ [p])) (update held p 0) := by
  have hout (j : QueueId) : p ∉ items j := h.not_mem hp
  refine ⟨?_, ?_, ?_, ?_⟩
  · intro j
    by_cases hj : j = i
    · subst hj
      simp only [PacketPool.putq, update_self]
      exact (h.holds j).enqueue (hout j)
    · simp only [PacketPool.putq, update_of_ne hj]
      exact (h.holds i).enqueue_other (h.holds j) (hout j) (h.apart i j (Ne.symm hj))
  · have hone (j : QueueId) (hj : j ≠ i) : (items i ++ [p]).Disjoint (items j) := by
      rw [List.disjoint_append_left, List.singleton_disjoint]
      exact ⟨h.apart i j (Ne.symm hj), hout j⟩
    intro j k hjk
    by_cases hj : j = i
    · subst hj
      rw [update_self, update_of_ne (Ne.symm hjk)]
      exact hone k (Ne.symm hjk)
    · rw [update_of_ne hj]
      by_cases hk : k = i
      · subst hk
        rw [update_self]
        exact List.disjoint_symm (hone j hj)
      · rw [update_of_ne hk]
        exact h.apart j k hjk
  · intro j x hx
    by_cases hne : x = p
    · rw [hne, update_self]
    · rw [update_of_ne hne]
      refine h.idle j x ?_
      by_cases hj : j = i
      · subst hj
        rw [update_self] at hx
        exact (List.mem_append.mp hx).resolve_right fun hlast ↦ hne (List.mem_singleton.mp hlast)
      · rwa [update_of_ne hj] at hx
  · intro x hx
    have hxi := hx i
    rw [update_self, List.mem_append, List.mem_singleton, not_or] at hxi
    rw [update_of_ne hxi.2]
    have hbefore (j : QueueId) : x ∉ items j := by
      by_cases hj : j = i
      · rw [hj]
        exact hxi.1
      · have hxj := hx j
        rwa [update_of_ne hj] at hxj
    refine (h.loose x hbefore).imp_right fun hnone ↦ (enqueue_next hxi.2 fun htail ↦ ?_).trans hnone
    rw [(h.holds i).tail] at htail
    exact hxi.1 (List.mem_of_getLast? htail)

end Places

section Packets

variable {s s' : Pool} {items : QueueId → List Packet} {held : Packet → ℕ} {i j : QueueId}
  {p : Packet} {rest : List Packet} {n len : ℕ}

/-- A buffer of the right size with its markers. -/
structure Framed (p : Packet) (b : Netbuf) : Prop where
  blen : b.blen = bufsiz p
  length : b.memory.length = alignType + b.blen + 1
  guards : guardBands b = true

/-- What holds of the packets whenever no function of `pktalloc.c` is at work on them. -/
structure Sound (s : Pool) (items : QueueId → List Packet) (held : Packet → ℕ) : Prop
    extends Placed s items held where
  framed : ∀ p, Framed p (s.buf p)
  big : ∀ p ∈ items .bigfreeq, p.val < bigbufs
  lil : ∀ p ∈ items .lilfreeq, ¬ p.val < bigbufs
  received : ∀ p ∈ items .rcvdq, (s.buf p).inuse = 1
  counted : ∀ p, 0 < held p → (s.buf p).inuse = held p ∧ held p < 4294967296

theorem bufsiz_big : bufsiz p = bigbufsiz ↔ p.val < bigbufs := by
  rw [bufsiz]
  split_ifs with h <;> simp [h, bigbufsiz, lilbufsiz]

theorem bufsiz_lil : bufsiz p = lilbufsiz ↔ ¬ p.val < bigbufs := by
  rw [bufsiz]
  split_ifs with h <;> simp [h, bigbufsiz, lilbufsiz]

def home (p : Packet) : QueueId := if p.val < bigbufs then .bigfreeq else .lilfreeq

theorem home_big : home p = .bigfreeq ↔ p.val < bigbufs := by
  rw [home]
  split_ifs with h <;> simp [h]

theorem home_lil : home p = .lilfreeq ↔ ¬ p.val < bigbufs := by
  rw [home]
  split_ifs with h <;> simp [h]

theorem home_ne : home p ≠ .rcvdq := by
  rw [home]
  split_ifs <;> simp

theorem Placed.alreadyIn (h : Placed s items held) (i : QueueId) :
    alreadyIn s i p = decide (p ∈ items i) := by
  have hshort : (items i).length ≤ bigbufs + lilbufs := by
    have hcard := List.Nodup.length_le_card (h.holds i).nodup
    rwa [Fintype.card_fin] at hcard
  rw [PacketPool.alreadyIn, (h.holds i).search hshort]
  simp

/-- Whoever holds a packet can give it back. -/
theorem Sound.validate (h : Sound s items held) (hp : 0 < held p) : pkValidate s p = none := by
  have hframed := h.framed p
  have hnext := (h.loose p fun i ↦ h.not_mem hp).2
  have hbig : alreadyIn s .bigfreeq p = false := by
    rw [h.alreadyIn]
    exact decide_eq_false (h.not_mem hp)
  have hlil : alreadyIn s .lilfreeq p = false := by
    rw [h.alreadyIn]
    exact decide_eq_false (h.not_mem hp)
  have hsize : bufsiz p = bigbufsiz ∨ bufsiz p = lilbufsiz := by
    rw [bufsiz_big, bufsiz_lil]
    exact Decidable.em _
  rw [pkValidate, hframed.blen, hnext, hbig, hlil, hframed.guards]
  rcases hsize with hsize | hsize <;> simp [hsize]

/-- Someone who gives back a packet twice in a row is found out. -/
theorem Sound.validate_free (h : Sound s items held) (hp : p ∈ items (home p)) :
    pkValidate s p = some .inconsistentLocation ∨ pkValidate s p = some .multipleFree := by
  rw [pkValidate, (h.framed p).blen]
  split_ifs with hlink hbig hlil
  · exact .inl rfl
  · exact .inr rfl
  · exact .inr rfl
  all_goals
    by_cases hsmall : p.val < bigbufs
    · rw [home_big.mpr hsmall] at hp
      exact absurd ⟨bufsiz_big.mpr hsmall, (h.alreadyIn _).trans (decide_eq_true hp)⟩ hbig
    · rw [home_lil.mpr hsmall] at hp
      exact absurd ⟨bufsiz_lil.mpr hsmall, (h.alreadyIn _).trans (decide_eq_true hp)⟩ hlil

/-- An allocation takes the first packet of the chosen queue. -/
theorem Sound.takeFrom (h : Sound s items held) (hfree : i ≠ .rcvdq) (hi : items i = p :: rest) :
    ∃ s', PacketPool.takeFrom s i = (some p, s') ∧
      Sound s' (update items i rest) (update held p 1) ∧ s'.memestats = s.memestats ∧
      s'.maxLnh = s.maxLnh ∧ (∀ q, q ≠ p → s'.buf q = s.buf q) ∧
      s'.buf p = { s.buf p with prot := s.maxLnh, plen := 0, net := none, inuse := 1 } := by
  obtain ⟨q, hget, hplaced⟩ := h.getq hi Nat.one_pos
  have hmem : p ∈ items i := hi ▸ List.mem_cons_self
  have hsub (j : QueueId) : ∀ x ∈ update items i rest j, x ∈ items j := by
    intro x hx
    by_cases hj : j = i
    · subst hj
      rw [update_self] at hx
      exact hi ▸ List.mem_cons_of_mem p hx
    · rwa [update_of_ne hj] at hx
  refine ⟨Pool.setBuf { s with next := update s.next p none, queue := update s.queue i q } p
    { s.buf p with prot := s.maxLnh, plen := 0, net := none, inuse := 1 },
    by rw [PacketPool.takeFrom, hget], ⟨hplaced.congr rfl rfl, ?_, ?_, ?_, ?_, ?_⟩, rfl, rfl, ?_, ?_⟩
  · intro x
    by_cases hx : x = p
    · subst hx
      have hframed := h.framed x
      simp only [Pool.setBuf, update_self]
      exact ⟨hframed.blen, hframed.length, hframed.guards⟩
    · simp only [Pool.setBuf, update_of_ne hx]
      exact h.framed x
  · exact fun x hx ↦ h.big x (hsub _ x hx)
  · exact fun x hx ↦ h.lil x (hsub _ x hx)
  · intro x hx
    have hne : x ≠ p := by
      rintro rfl
      exact h.apart _ _ hfree hmem (hsub _ x hx)
    simp only [Pool.setBuf, update_of_ne hne]
    exact h.received x (hsub _ x hx)
  · intro x hx
    by_cases hne : x = p
    · subst hne
      simp only [Pool.setBuf, update_self]
      exact ⟨trivial, by decide⟩
    · rw [update_of_ne hne] at hx ⊢
      simp only [Pool.setBuf, update_of_ne hne]
      exact h.counted x hx
  · intro x hx
    simp only [Pool.setBuf, update_of_ne hx]
  · simp only [Pool.setBuf, update_self]

/-- Whoever takes a packet from the receive queue is its only owner. -/
theorem Sound.getq (h : Sound s items held) (hi : items .rcvdq = p :: rest) :
    ∃ s', PacketPool.getq s .rcvdq = (some p, s') ∧
      Sound s' (update items .rcvdq rest) (update held p 1) ∧ s'.buf = s.buf ∧
      s'.memestats = s.memestats := by
  obtain ⟨q, hget, hplaced⟩ := h.toPlaced.getq hi Nat.one_pos
  refine ⟨_, hget, ⟨hplaced, h.framed, h.big, h.lil, fun x hx ↦ ?_, fun x hx ↦ ?_⟩, rfl, rfl⟩
  · rw [update_self] at hx
    exact h.received x (hi ▸ List.mem_cons_of_mem p hx)
  · by_cases hne : x = p
    · subst hne
      rw [update_self]
      exact ⟨h.received x (hi ▸ List.mem_cons_self), by decide⟩
    · rw [update_of_ne hne] at hx ⊢
      exact h.counted x hx

theorem Sound.takeFrom_nil (h : Sound s items held) (hi : items i = []) :
    PacketPool.takeFrom s i = (none, s) := by
  rw [PacketPool.takeFrom, h.getq_nil hi]

/-- An allocation takes a small buffer if the request fits one and there is one left, otherwise a
big one. It fails only if the request is too long or there is none left. -/
theorem Sound.alloc (h : Sound s items held) (len : ℕ) :
    (∃ i p rest s', i = (if lilbufsiz < len ∨ items .lilfreeq = [] then .bigfreeq else .lilfreeq) ∧
      items i = p :: rest ∧ len ≤ bufsiz p ∧ pkAlloc s len = (some p, s') ∧
      Sound s' (update items i rest) (update held p 1) ∧ s'.memestats = s.memestats ∧
      (∀ q, q ≠ p → s'.buf q = s.buf q) ∧
      s'.buf p = { s.buf p with prot := s.maxLnh, plen := 0, net := none, inuse := 1 }) ∨
    pkAlloc s len = (none, s) ∧
      (bigbufsiz < len ∨ (lilbufsiz < len ∨ items .lilfreeq = []) ∧ items .bigfreeq = []) := by
  have hfound {i : QueueId}
      (hi : i = if lilbufsiz < len ∨ items .lilfreeq = [] then .bigfreeq else .lilfreeq)
      (hchoose : chooseQueue s len = some i)
      (hfree : i ≠ .rcvdq) (hroom : ∀ p ∈ items i, len ≤ bufsiz p) (hne : items i ≠ []) :
      ∃ i p rest s', i = (if lilbufsiz < len ∨ items .lilfreeq = [] then .bigfreeq else .lilfreeq) ∧
        items i = p :: rest ∧ len ≤ bufsiz p ∧
        pkAlloc s len = (some p, s') ∧ Sound s' (update items i rest) (update held p 1) ∧
        s'.memestats = s.memestats ∧ (∀ q, q ≠ p → s'.buf q = s.buf q) ∧
        s'.buf p = { s.buf p with prot := s.maxLnh, plen := 0, net := none, inuse := 1 } := by
    obtain ⟨p, rest, hitems⟩ := List.exists_cons_of_ne_nil hne
    obtain ⟨s', htake, hsound, hstats, -, hothers, hp⟩ := h.takeFrom hfree hitems
    refine ⟨i, p, rest, s', hi, hitems, hroom p (hitems ▸ List.mem_cons_self), ?_, hsound, hstats,
      hothers, hp⟩
    rw [pkAlloc, hchoose]
    exact htake
  by_cases hlong : bigbufsiz < len
  · exact .inr ⟨by rw [pkAlloc, chooseQueue, if_pos hlong], .inl hlong⟩
  · have hempty := (h.holds .lilfreeq).len_eq_zero
    by_cases hbig : lilbufsiz < len ∨ items .lilfreeq = []
    · have hchoose : chooseQueue s len = some .bigfreeq := by
        rw [chooseQueue, if_neg hlong, if_pos (hbig.imp_right hempty.mpr)]
      by_cases hnil : items .bigfreeq = []
      · refine .inr ⟨?_, .inr ⟨hbig, hnil⟩⟩
        rw [pkAlloc, hchoose]
        exact h.takeFrom_nil hnil
      · refine .inl (hfound (if_pos hbig).symm hchoose (by simp) (fun p hp ↦ ?_) hnil)
        rw [bufsiz_big.mpr (h.big p hp)]
        exact Nat.not_lt.mp hlong
    · have hchoose : chooseQueue s len = some .lilfreeq := by
        rw [chooseQueue, if_neg hlong, if_neg fun hor ↦ hbig (hor.imp_right hempty.mp)]
      have hfit := not_or.mp hbig
      refine .inl (hfound (if_neg hbig).symm hchoose (by simp) (fun p hp ↦ ?_) hfit.2)
      rw [bufsiz_lil.mpr (h.lil p hp)]
      exact Nat.not_lt.mp hfit.1

theorem Sound.rewrite {held' : Packet → ℕ} {b : Netbuf} (h : Sound s items held)
    (hplaced : Placed s items held') (hothers : ∀ q, q ≠ p → held' q = held q) (hb : Framed p b)
    (hreceived : p ∈ items .rcvdq → b.inuse = 1)
    (hcounted : 0 < held' p → b.inuse = held' p ∧ held' p < 4294967296) :
    Sound (s.setBuf p b) items held' := by
  refine ⟨hplaced.congr rfl rfl, fun x ↦ ?_, h.big, h.lil, fun x hx ↦ ?_, fun x hx ↦ ?_⟩
  all_goals
    by_cases hne : x = p
    · subst hne
      simp only [Pool.setBuf, update_self]
      first
        | exact hb
        | exact hreceived hx
        | exact hcounted hx
    · simp only [Pool.setBuf, update_of_ne hne]
      first
        | exact h.framed x
        | exact h.received x hx
        | exact hothers x hne ▸ h.counted x (hothers x hne ▸ hx)

theorem Sound.edit (h : Sound s items held) (hp : 0 < held p) {b : Netbuf} (hb : Framed p b)
    (hinuse : b.inuse = (s.buf p).inuse) : Sound (s.setBuf p b) items held := by
  refine h.rewrite h.toPlaced (fun _ _ ↦ rfl) hb (fun hmem ↦ absurd hmem (h.not_mem hp)) fun hp ↦ ?_
  rw [hinuse]
  exact h.counted p hp

theorem Sound.recount (h : Sound s items held) (hp : 0 < held p) (hn : 0 < n) (hlt : n < 4294967296) :
    Sound (s.setBuf p { s.buf p with inuse := n }) items (update held p n) := by
  have hframed := h.framed p
  refine h.rewrite (h.count hp hn) (fun q hq ↦ update_of_ne hq _ _)
    ⟨hframed.blen, hframed.length, hframed.guards⟩ (fun hmem ↦ absurd hmem (h.not_mem hp)) fun _ ↦ ?_
  rw [update_self]
  exact ⟨rfl, hlt⟩

/-- A packet that is held goes into a queue: into its free queue, or, held once, into the other. -/
theorem Sound.putq (h : Sound s items held) (hp : 0 < held p)
    (hi : i = home p ∨ i = .rcvdq ∧ held p = 1) :
    Sound (PacketPool.putq s i p) (update items i (items i ++ [p])) (update held p 0) := by
  have hmem {j : QueueId} {x : Packet} (hx : x ∈ update items i (items i ++ [p]) j) :
      x ∈ items j ∨ j = i ∧ x = p := by
    by_cases hj : j = i
    · subst hj
      rw [update_self, List.mem_append, List.mem_singleton] at hx
      exact hx.imp_right fun hx ↦ ⟨rfl, hx⟩
    · rw [update_of_ne hj] at hx
      exact .inl hx
  refine ⟨h.toPlaced.putq hp i, h.framed, ?_, ?_, ?_, ?_⟩
  · intro x hx
    rcases hmem hx with hx | ⟨hj, rfl⟩
    · exact h.big x hx
    · rcases hi with hi | ⟨hi, -⟩
      · exact home_big.mp (hi.symm.trans hj.symm)
      · exact absurd (hi.symm.trans hj.symm) (by simp)
  · intro x hx
    rcases hmem hx with hx | ⟨hj, rfl⟩
    · exact h.lil x hx
    · rcases hi with hi | ⟨hi, -⟩
      · exact home_lil.mp (hi.symm.trans hj.symm)
      · exact absurd (hi.symm.trans hj.symm) (by simp)
  · intro x hx
    rcases hmem hx with hx | ⟨hj, rfl⟩
    · exact h.received x hx
    · rcases hi with hi | ⟨-, hone⟩
      · exact absurd (hi.symm.trans hj.symm) home_ne
      · exact (h.counted x hp).1.trans hone
  · intro x hx
    by_cases hne : x = p
    · rw [hne, update_self] at hx
      exact absurd hx (Nat.lt_irrefl 0)
    · rw [update_of_ne hne] at hx ⊢
      exact h.counted x hx

theorem chooseQueue_ne {len : ℕ} (h : chooseQueue s len = some i) : i ≠ .rcvdq := by
  rw [chooseQueue] at h
  split_ifs at h
  all_goals
    cases h
    simp

theorem release_buf {q : Packet} (hq : q ≠ p) : (PacketPool.release s p).buf q = s.buf q := by
  rw [PacketPool.release]
  split_ifs <;> exact update_of_ne hq _ _

theorem release_memestats : (PacketPool.release s p).memestats = s.memestats := by
  rw [PacketPool.release]
  split_ifs <;> rfl

/-- What becomes of a packet that is given back. -/
theorem Sound.release (h : Sound s items held) (hp : 0 < held p) :
    (held p = 1 → Sound (PacketPool.release s p) (update items (home p) (items (home p) ++ [p]))
      (update held p 0)) ∧
    (1 < held p → Sound (PacketPool.release s p) items (update held p (held p - 1))) := by
  obtain ⟨hinuse, hlt⟩ := h.counted p hp
  have hframed := h.framed p
  have hdown : ((s.buf p).inuse + 4294967295) % 4294967296 = held p - 1 := by
    rw [hinuse]
    omega
  constructor
  · intro hone
    have hback : PacketPool.release s p =
        (PacketPool.putq s (home p) p).setBuf p { s.buf p with inuse := held p - 1 } := by
      rw [PacketPool.release, hdown, hinuse, hone, if_neg (by decide), home]
      by_cases hsmall : p.val < bigbufs
      · rw [if_pos (hframed.blen.trans (bufsiz_big.mpr hsmall)), if_pos hsmall]
        rfl
      · have hbig : (s.buf p).blen ≠ bigbufsiz := fun hbig ↦
          hsmall (bufsiz_big.mp (hframed.blen.symm.trans hbig))
        rw [if_neg hbig, if_pos (hframed.blen.trans (bufsiz_lil.mpr hsmall)), if_neg hsmall]
        rfl
    have hput := h.putq hp (.inl rfl)
    rw [hback]
    refine hput.rewrite hput.toPlaced (fun _ _ ↦ rfl)
      ⟨hframed.blen, hframed.length, hframed.guards⟩ (fun hmem ↦ ?_) fun hpos ↦ ?_
    · rw [update_of_ne home_ne.symm] at hmem
      exact absurd hmem (h.not_mem hp)
    · rw [update_self] at hpos
      exact absurd hpos (Nat.lt_irrefl 0)
  · intro hmany
    rw [PacketPool.release, hdown, if_pos (by rw [hinuse]; exact hmany)]
    exact h.recount hp (by omega) (by omega)

end Packets

section Start

variable {s : Pool} {items : QueueId → List Packet} {held : Packet → ℕ} {l : List Packet}

theorem Placed.foldl_putq (h : Placed s items held) (hnodup : l.Nodup) (hheld : ∀ p ∈ l, 0 < held p) :
    Placed (l.foldl (fun s p ↦ PacketPool.putq s (home p) p) s)
      (fun i ↦ items i ++ l.filter (fun p ↦ home p = i)) (fun p ↦ if p ∈ l then 0 else held p) := by
  induction l generalizing s items held with
  | nil => simpa using h
  | cons p l ih =>
    obtain ⟨hp, hl⟩ := List.forall_mem_cons.mp hheld
    obtain ⟨hout, hnodup⟩ := List.nodup_cons.mp hnodup
    have hrest : ∀ q ∈ l, 0 < update held p 0 q := by
      intro q hq
      have hne : q ≠ p := by
        rintro rfl
        exact hout hq
      rw [update_of_ne hne]
      exact hl q hq
    have hput := ih (h.putq hp (home p)) hnodup hrest
    have hitems : (fun i ↦ items i ++ (p :: l).filter (fun p ↦ decide (home p = i))) = fun i ↦
        update items (home p) (items (home p) ++ [p]) i ++ l.filter (fun p ↦ decide (home p = i)) := by
      funext i
      by_cases hi : home p = i
      · subst hi
        simp
      · rw [update_of_ne (Ne.symm hi), List.filter_cons_of_neg (by simpa using hi)]
    have hcounts : (fun q ↦ if q ∈ p :: l then 0 else held q) = fun q ↦
        if q ∈ l then 0 else update held p 0 q := by
      funext q
      by_cases hq : q = p <;> simp [hq]
    rw [hitems, hcounts]
    exact hput

theorem buf_foldl (l : List Packet) (s : Pool) :
    (l.foldl (fun s p ↦ putq s (home p) p) s).buf = s.buf := by
  induction l generalizing s with
  | nil => rfl
  | cons p l ih => exact ih _

theorem pkInit_memestats (maxLnh : ℕ) : (pkInit maxLnh).memestats = fun _ ↦ 0 := by
  have hfold (l : List Packet) (s : Pool) :
      (l.foldl (fun s p ↦ putq s (home p) p) s).memestats = s.memestats := by
    induction l generalizing s with
    | nil => rfl
    | cons p l ih => exact ih _
  exact hfold _ _

theorem framed_newBuffer (p : Packet) : Framed p (newBuffer p) := by
  refine ⟨rfl, by simp [newBuffer, Nat.add_assoc], ?_⟩
  have hstart : (newBuffer p).memory.take alignType = List.replicate alignType marker := by
    rw [newBuffer, List.append_assoc]
    exact List.take_left' List.length_replicate
  have hend : (newBuffer p).memory[alignType + (newBuffer p).blen]? = some marker := by
    rw [newBuffer]
    simp
  rw [guardBands, hstart, hend]
  simp

theorem sound_pkInit (maxLnh : ℕ) :
    Sound (pkInit maxLnh) (fun i ↦ (List.finRange _).filter (fun p ↦ home p = i)) (fun _ ↦ 0) := by
  have hstart : Placed ⟨fun _ ↦ none, newBuffer, fun _ ↦ empty, fun _ ↦ 0, maxLnh⟩ (fun _ ↦ [])
      (fun _ ↦ 1) :=
    ⟨fun _ ↦ holds_empty _, fun _ _ _ ↦ List.disjoint_nil_left _,
      fun _ _ h ↦ absurd h List.not_mem_nil, fun _ _ ↦ ⟨Nat.one_pos, rfl⟩⟩
  have hplaced := hstart.foldl_putq (List.nodup_finRange _) fun _ _ ↦ Nat.one_pos
  simp only [List.nil_append, List.mem_finRange, if_true] at hplaced
  have hbuf : (pkInit maxLnh).buf = newBuffer := buf_foldl _ _
  have hmem {i : QueueId} {p : Packet}
      (hp : p ∈ (List.finRange _).filter (fun p ↦ decide (home p = i))) : home p = i := by
    simpa using hp
  exact ⟨hplaced, fun p ↦ hbuf ▸ framed_newBuffer p, fun p hp ↦ home_big.mp (hmem hp),
    fun p hp ↦ home_lil.mp (hmem hp), fun p hp ↦ absurd (hmem hp) home_ne,
    fun p hp ↦ absurd hp (Nat.lt_irrefl 0)⟩

end Start

end FpgaDatabase.Network.PacketPool
