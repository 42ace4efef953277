import Mathlib.Tactic.Ring

namespace FpgaDatabase.Library.Utf8

/-- A code point that is not complete yet: its bits so far, the number of bytes still to
come, and the range of the next one. -/
structure Pending where
  bits : ℕ
  left : ℕ
  lower : UInt8
  upper : UInt8

def replacement : ℕ := 0xFFFD

/-- The first byte of a sequence of two, three or four. The ranges leave out overlong
sequences, surrogates and numbers that are too large. -/
def lead (b : UInt8) : Option Pending :=
  if 0xC2 ≤ b ∧ b ≤ 0xDF then some ⟨b.toNat % 32, 1, 0x80, 0xBF⟩
  else if 0xE0 ≤ b ∧ b ≤ 0xEF then
    some ⟨b.toNat % 16, 2, if b = 0xE0 then 0xA0 else 0x80, if b = 0xED then 0x9F else 0xBF⟩
  else if 0xF0 ≤ b ∧ b ≤ 0xF4 then
    some ⟨b.toNat % 8, 3, if b = 0xF0 then 0x90 else 0x80, if b = 0xF4 then 0x8F else 0xBF⟩
  else none

def start (rest : Option Pending → List ℕ) (b : UInt8) : List ℕ :=
  if b < 0x80 then b.toNat :: rest none
  else
    match lead b with
    | some p => rest (some p)
    | none => replacement :: rest none

/-- Decoding with replacement. A byte that does not continue a sequence ends it, and is
looked at again. -/
def decodeFrom : Option Pending → List UInt8 → List ℕ
  | none, [] => []
  | some _, [] => [replacement]
  | none, b :: bs => start (fun p ↦ decodeFrom p bs) b
  | some p, b :: bs =>
    if p.lower ≤ b ∧ b ≤ p.upper then
      let bits := p.bits * 64 + b.toNat % 64
      if p.left = 1 then bits :: decodeFrom none bs
      else decodeFrom (some ⟨bits, p.left - 1, 0x80, 0xBF⟩) bs
    else replacement :: start (fun p ↦ decodeFrom p bs) b

def decode (bs : List UInt8) : List ℕ := decodeFrom none bs

theorem decodeFrom_none_cons (b : UInt8) (bs : List UInt8) :
    decodeFrom none (b :: bs) = start (fun p ↦ decodeFrom p bs) b := rfl

theorem decodeFrom_some_cons (p : Pending) (b : UInt8) (bs : List UInt8) :
    decodeFrom (some p) (b :: bs) =
      if p.lower ≤ b ∧ b ≤ p.upper then
        if p.left = 1 then (p.bits * 64 + b.toNat % 64) :: decodeFrom none bs
        else decodeFrom (some ⟨p.bits * 64 + b.toNat % 64, p.left - 1, 0x80, 0xBF⟩) bs
      else replacement :: start (fun p ↦ decodeFrom p bs) b := rfl

/-- The next byte is not an ASCII code, and neither will the number be that is being
read. -/
def Pending.Sound (p : Pending) : Prop :=
  0x80 ≤ p.lower ∧ p.upper ≤ 0xBF ∧ 1 ≤ p.left ∧
    0x80 ≤ p.bits * 64 ^ p.left + p.lower.toNat % 64 * 64 ^ (p.left - 1)

instance (p : Pending) : Decidable p.Sound := inferInstanceAs (Decidable (_ ∧ _))

theorem lead_sound {b : UInt8} {p : Pending} (h : lead b = some p) : p.Sound := by
  have hall : ∀ n < 256, (lead (UInt8.ofNat n)).all (fun p ↦ decide p.Sound) = true := by
    decide +kernel
  have hb := hall b.toNat b.toNat_lt
  rw [UInt8.ofNat_toNat, h] at hb
  simpa using hb

/-- Another byte of the sequence does not make the number smaller. -/
theorem Pending.Sound.grow {p : Pending} {b : UInt8} (h : p.Sound) (hlow : p.lower ≤ b)
    (hhigh : b ≤ p.upper) : 0x80 ≤ (p.bits * 64 + b.toNat % 64) * 64 ^ (p.left - 1) := by
  obtain ⟨h₁, h₂, h₃, h₄⟩ := h
  rw [UInt8.le_iff_toNat_le] at h₁ h₂ hlow hhigh
  have hmod : p.lower.toNat % 64 ≤ b.toNat % 64 := by
    simp only [UInt8.reduceToNat] at h₁ h₂
    omega
  have hpow : 64 ^ p.left = 64 * 64 ^ (p.left - 1) := by
    rw [← Nat.pow_succ', show (p.left - 1).succ = p.left by omega]
  calc 0x80 ≤ p.bits * 64 ^ p.left + p.lower.toNat % 64 * 64 ^ (p.left - 1) := h₄
    _ ≤ p.bits * 64 ^ p.left + b.toNat % 64 * 64 ^ (p.left - 1) := by gcongr
    _ = (p.bits * 64 + b.toNat % 64) * 64 ^ (p.left - 1) := by rw [hpow]; ring

theorem Pending.Sound.next {p : Pending} {b : UInt8} (h : p.Sound) (hlow : p.lower ≤ b)
    (hhigh : b ≤ p.upper) (hleft : p.left ≠ 1) :
    Pending.Sound ⟨p.bits * 64 + b.toNat % 64, p.left - 1, 0x80, 0xBF⟩ := by
  have hgrow := h.grow hlow hhigh
  have hpos := h.2.2.1
  refine ⟨by simp, by simp, by simp only; omega, ?_⟩
  simp only
  omega

variable {p : Option Pending} {xs ys : List UInt8} {b : UInt8}

def Valid (p : Option Pending) : Prop := ∀ q, p = some q → q.Sound

theorem valid_none : Valid none := fun _ h ↦ nomatch h

theorem Pending.Sound.valid {q : Pending} (h : q.Sound) : Valid (some q) := by
  intro q' hq'
  cases hq'
  exact h

theorem start_append {f g : Option Pending → List ℕ} {tail : List ℕ}
    (h : ∀ p, Valid p → f p = g p ++ tail) (b : UInt8) : start f b = start g b ++ tail := by
  unfold start
  split_ifs
  · rw [h none valid_none]
    rfl
  · split
    · next q hq => exact h (some q) (lead_sound hq).valid
    · rw [h none valid_none]
      rfl

/-- An ASCII code stands for itself, whatever comes before it. -/
theorem decodeFrom_ascii (hp : Valid p) (hb : b < 0x80) (xs ys : List UInt8) :
    decodeFrom p (xs ++ b :: ys) = decodeFrom p xs ++ b.toNat :: decode ys := by
  induction xs generalizing p with
  | nil =>
    cases p with
    | none =>
      rw [List.nil_append, decodeFrom_none_cons, start, if_pos hb]
      rfl
    | some q =>
      have hlow : ¬ (q.lower ≤ b ∧ b ≤ q.upper) := by
        intro h
        have := (hp q rfl).1
        rw [UInt8.le_iff_toNat_le] at this h
        rw [UInt8.lt_iff_toNat_lt] at hb
        omega
      rw [List.nil_append, decodeFrom_some_cons, if_neg hlow, start, if_pos hb]
      rfl
  | cons c xs ih =>
    cases p with
    | none => exact start_append (fun p hp ↦ ih hp) c
    | some q =>
      simp only [List.cons_append, decodeFrom_some_cons]
      split_ifs with hrange hleft
      · rw [ih valid_none]
        rfl
      · exact ih ((hp q rfl).next hrange.1 hrange.2 hleft).valid
      · rw [start_append (fun p hp ↦ ih hp) c]
        rfl

theorem decode_append_ascii (hb : b < 0x80) (xs ys : List UInt8) :
    decode (xs ++ b :: ys) = decode xs ++ b.toNat :: decode ys :=
  decodeFrom_ascii valid_none hb xs ys

theorem decode_append_of_ascii (h : ∀ b ∈ xs, b < 0x80) (ys : List UInt8) :
    decode (xs ++ ys) = xs.map UInt8.toNat ++ decode ys := by
  induction xs with
  | nil => rfl
  | cons b xs ih =>
    obtain ⟨hb, hxs⟩ := List.forall_mem_cons.mp h
    rw [← List.nil_append (b :: xs ++ ys), List.cons_append, decode_append_ascii hb, ih hxs]
    rfl

theorem decode_ascii (h : ∀ b ∈ xs, b < 0x80) : decode xs = xs.map UInt8.toNat := by
  have happend := decode_append_of_ascii h []
  rwa [List.append_nil, show decode [] = [] from rfl, List.append_nil] at happend

theorem decode_lone (h : ¬ b < 0x80) : decode [b] = [replacement] := by
  rw [decode, decodeFrom_none_cons, start, if_neg h]
  cases lead b with
  | none => rfl
  | some q => rfl

theorem mem_start {f : Option Pending → List ℕ} {c : ℕ} (hc : c < 0x80)
    (h : ∀ p, Valid p → c ∈ f p → c ∈ xs.map UInt8.toNat) (hmem : c ∈ start f b) :
    c ∈ (b :: xs).map UInt8.toNat := by
  unfold start at hmem
  rw [List.map_cons, List.mem_cons]
  split_ifs at hmem
  · exact (List.mem_cons.mp hmem).imp_right (h none valid_none)
  · split at hmem
    · next q hq => exact .inr (h (some q) (lead_sound hq).valid hmem)
    · rcases List.mem_cons.mp hmem with rfl | hmem
      · exact absurd hc (by decide)
      · exact .inr (h none valid_none hmem)

/-- An ASCII code in the text is an ASCII code of the input. -/
theorem mem_decodeFrom {c : ℕ} (hp : Valid p) (hc : c < 0x80) (h : c ∈ decodeFrom p xs) :
    c ∈ xs.map UInt8.toNat := by
  induction xs generalizing p with
  | nil =>
    cases p with
    | none => cases h
    | some q =>
      rw [show decodeFrom (some q) [] = [replacement] from rfl, List.mem_singleton] at h
      exact absurd hc (by rw [h]; decide)
  | cons b xs ih =>
    cases p with
    | none => exact mem_start hc (fun p hp ↦ ih hp) h
    | some q =>
      rw [decodeFrom_some_cons] at h
      split_ifs at h with hrange hleft
      · rcases List.mem_cons.mp h with rfl | h
        · have hgrow := (hp q rfl).grow hrange.1 hrange.2
          rw [hleft] at hgrow
          omega
        · exact List.mem_cons_of_mem _ (ih valid_none h)
      · exact List.mem_cons_of_mem _ (ih ((hp q rfl).next hrange.1 hrange.2 hleft).valid h)
      · rcases List.mem_cons.mp h with rfl | h
        · exact absurd hc (by decide)
        · exact mem_start hc (fun p hp ↦ ih hp) h

theorem mem_decode {c : ℕ} (hc : c < 0x80) (h : c ∈ decode xs) : c ∈ xs.map UInt8.toNat :=
  mem_decodeFrom valid_none hc h

section Encoding

variable {c : ℕ} {s : List ℕ} {b : UInt8}

/-- The bytes of a code point; a surrogate that stands alone is replaced. -/
def encodePoint (c : ℕ) : List UInt8 :=
  if c.isValidChar then String.utf8EncodeChar (Char.ofNat c) else [0xEF, 0xBF, 0xBD]

def encode (s : List ℕ) : List UInt8 := s.flatMap encodePoint

theorem val_ofNat (h : c.isValidChar) : (Char.ofNat c).val.toNat = c := by
  rw [Char.ofNat, dif_pos h]
  rfl

theorem encodePoint_ascii (h : c < 0x80) : encodePoint c = [UInt8.ofNat c] := by
  have hvalid : c.isValidChar := .inl (by omega)
  rw [encodePoint, if_pos hvalid, String.utf8EncodeChar]
  simp only [val_ofNat hvalid, show c ≤ 0x7f by omega, if_true]

theorem encodePoint_high (h : 0x80 ≤ c) : ∀ b ∈ encodePoint c, 0x80 ≤ b := by
  unfold encodePoint
  split_ifs with hvalid
  · have hmark (n : ℕ) (hlow : 0x80 ≤ n) (hhigh : n < 0x100) : 0x80 ≤ UInt8.ofNat n := by
      rw [UInt8.le_iff_toNat_le, UInt8.toNat_ofNat', Nat.mod_eq_of_lt hhigh]
      exact hlow
    rw [String.utf8EncodeChar]
    simp only [val_ofNat hvalid, show ¬ c ≤ 0x7f by omega, if_false]
    split_ifs <;> simp only [List.forall_mem_cons, List.not_mem_nil, false_implies, implies_true,
      and_true]
    · exact ⟨hmark _ (by omega) (by omega), hmark _ (by omega) (by omega)⟩
    · exact ⟨hmark _ (by omega) (by omega), hmark _ (by omega) (by omega),
        hmark _ (by omega) (by omega)⟩
    · exact ⟨hmark _ (by omega) (by omega), hmark _ (by omega) (by omega),
        hmark _ (by omega) (by omega), hmark _ (by omega) (by omega)⟩
  · simp only [List.forall_mem_cons, List.not_mem_nil, false_implies, implies_true, and_true]
    decide

theorem encodePoint_ne_nil (c : ℕ) : encodePoint c ≠ [] := by
  unfold encodePoint
  split_ifs
  · exact String.utf8EncodeChar_ne_nil
  · simp

theorem encode_append (s t : List ℕ) : encode (s ++ t) = encode s ++ encode t :=
  List.flatMap_append

theorem encode_ascii (h : ∀ c ∈ s, c < 0x80) : encode s = s.map UInt8.ofNat := by
  induction s with
  | nil => rfl
  | cons c cs ih =>
    rw [List.forall_mem_cons] at h
    rw [encode, List.flatMap_cons, encodePoint_ascii h.1, List.map_cons, ← ih h.2]
    rfl

theorem mem_encode (hb : b < 0x80) : b ∈ encode s ↔ b.toNat ∈ s := by
  have hlt : b.toNat < 0x80 := UInt8.lt_iff_toNat_lt.mp hb
  rw [encode, List.mem_flatMap]
  constructor
  · rintro ⟨c, hc, hmem⟩
    rcases Nat.lt_or_ge c 0x80 with hsmall | hlarge
    · rw [encodePoint_ascii hsmall, List.mem_singleton] at hmem
      rwa [hmem, UInt8.toNat_ofNat', Nat.mod_eq_of_lt (by omega)]
    · exact absurd hb (UInt8.not_lt.mpr (encodePoint_high hlarge b hmem))
  · intro hmem
    exact ⟨b.toNat, hmem, by simp [encodePoint_ascii hlt]⟩

end Encoding

section RoundTrip

variable {c n : ℕ} {s : List ℕ} {rest : List UInt8} {p : Pending}

theorem toNat_ofNat (h : n < 256) : (UInt8.ofNat n).toNat = n := by
  rw [UInt8.toNat_ofNat', Nat.mod_eq_of_lt h]

theorem decodeFrom_lead (hlow : 0x80 ≤ n) (hn : n < 256) (h : lead (UInt8.ofNat n) = some p) :
    decodeFrom none (UInt8.ofNat n :: rest) = decodeFrom (some p) rest := by
  have hhigh : ¬ UInt8.ofNat n < 0x80 := by
    rw [UInt8.lt_iff_toNat_lt, toNat_ofNat hn]
    exact Nat.not_lt.mpr hlow
  rw [decodeFrom_none_cons, start, if_neg hhigh, h]

theorem decodeFrom_next {bits left : ℕ} {lower upper : UInt8} (hn : n < 64)
    (hlow : lower.toNat ≤ n + 128) (hhigh : n + 128 ≤ upper.toNat) :
    decodeFrom (some ⟨bits, left, lower, upper⟩) (UInt8.ofNat (n + 128) :: rest) =
      if left = 1 then (bits * 64 + n) :: decodeFrom none rest
      else decodeFrom (some ⟨bits * 64 + n, left - 1, 0x80, 0xBF⟩) rest := by
  have hbyte : (UInt8.ofNat (n + 128)).toNat = n + 128 := toNat_ofNat (by omega)
  have hbits : (n + 128) % 64 = n := by omega
  rw [decodeFrom_some_cons, if_pos, hbyte, hbits]
  rw [UInt8.le_iff_toNat_le, UInt8.le_iff_toNat_le, hbyte]
  exact ⟨hlow, hhigh⟩

theorem decodeFrom_plain {bits left : ℕ} (hn : n < 64) :
    decodeFrom (some ⟨bits, left, 0x80, 0xBF⟩) (UInt8.ofNat (n + 128) :: rest) =
      if left = 1 then (bits * 64 + n) :: decodeFrom none rest
      else decodeFrom (some ⟨bits * 64 + n, left - 1, 0x80, 0xBF⟩) rest :=
  decodeFrom_next hn (Nat.le_add_left _ _) (Nat.add_le_add_right (Nat.le_of_lt_succ hn) 128)

theorem lead_two (hlow : 0xC2 ≤ n) (hhigh : n ≤ 0xDF) :
    lead (UInt8.ofNat n) = some ⟨n % 32, 1, 0x80, 0xBF⟩ := by
  have hn : n < 256 := by omega
  rw [lead, if_pos, toNat_ofNat hn]
  simp only [UInt8.le_iff_toNat_le, toNat_ofNat hn, UInt8.reduceToNat]
  omega

theorem lead_three (hlow : 0xE0 ≤ n) (hhigh : n ≤ 0xEF) :
    lead (UInt8.ofNat n) = some ⟨n % 16, 2, if n = 0xE0 then 0xA0 else 0x80,
      if n = 0xED then 0x9F else 0xBF⟩ := by
  have hn : n < 256 := by omega
  simp only [lead, UInt8.le_iff_toNat_le, ← UInt8.toNat_inj, toNat_ofNat hn, UInt8.reduceToNat]
  rw [if_neg (by omega), if_pos ⟨hlow, hhigh⟩]

theorem lead_four (hlow : 0xF0 ≤ n) (hhigh : n ≤ 0xF4) :
    lead (UInt8.ofNat n) = some ⟨n % 8, 3, if n = 0xF0 then 0x90 else 0x80,
      if n = 0xF4 then 0x8F else 0xBF⟩ := by
  have hn : n < 256 := by omega
  simp only [lead, UInt8.le_iff_toNat_le, ← UInt8.toNat_inj, toNat_ofNat hn, UInt8.reduceToNat]
  rw [if_neg (by omega), if_neg (by omega), if_pos ⟨hlow, hhigh⟩]

theorem decode_two (hlow : 0x80 ≤ c) (hhigh : c ≤ 0x7FF) (rest : List UInt8) :
    decode (UInt8.ofNat (c / 64 % 32 + 192) :: UInt8.ofNat (c % 64 + 128) :: rest) =
      c :: decode rest := by
  have hlead := lead_two (n := c / 64 % 32 + 192) (by omega) (by omega)
  have hbits : (c / 64 % 32 + 192) % 32 * 64 + c % 64 = c := by omega
  rw [decode, decodeFrom_lead (by omega) (by omega) hlead,
    decodeFrom_plain (Nat.mod_lt _ (by decide)), if_pos rfl, hbits, decode]

theorem decode_three (hlow : 0x800 ≤ c) (hhigh : c ≤ 0xFFFF) (hc : c < 0xD800 ∨ 0xDFFF < c)
    (rest : List UInt8) :
    decode (UInt8.ofNat (c / 4096 % 16 + 224) :: UInt8.ofNat (c / 64 % 64 + 128) ::
      UInt8.ofNat (c % 64 + 128) :: rest) = c :: decode rest := by
  have hlead := lead_three (n := c / 4096 % 16 + 224) (by omega) (by omega)
  have hlower : (if c / 4096 % 16 + 224 = 0xE0 then (0xA0 : UInt8) else 0x80).toNat ≤
      c / 64 % 64 + 128 := by
    split_ifs <;> simp only [UInt8.reduceToNat] <;> omega
  have hupper : c / 64 % 64 + 128 ≤
      (if c / 4096 % 16 + 224 = 0xED then (0x9F : UInt8) else 0xBF).toNat := by
    split_ifs <;> simp only [UInt8.reduceToNat] <;> omega
  have hbits : ((c / 4096 % 16 + 224) % 16 * 64 + c / 64 % 64) * 64 + c % 64 = c := by omega
  rw [decode, decodeFrom_lead (by omega) (by omega) hlead,
    decodeFrom_next (Nat.mod_lt _ (by decide)) hlower hupper, if_neg (by decide),
    decodeFrom_plain (Nat.mod_lt _ (by decide)), if_pos rfl, hbits, decode]

theorem decode_four (hlow : 0x10000 ≤ c) (hhigh : c < 0x110000) (rest : List UInt8) :
    decode (UInt8.ofNat (c / 262144 % 8 + 240) :: UInt8.ofNat (c / 4096 % 64 + 128) ::
      UInt8.ofNat (c / 64 % 64 + 128) :: UInt8.ofNat (c % 64 + 128) :: rest) = c :: decode rest := by
  have hlead := lead_four (n := c / 262144 % 8 + 240) (by omega) (by omega)
  have hlower : (if c / 262144 % 8 + 240 = 0xF0 then (0x90 : UInt8) else 0x80).toNat ≤
      c / 4096 % 64 + 128 := by
    split_ifs <;> simp only [UInt8.reduceToNat] <;> omega
  have hupper : c / 4096 % 64 + 128 ≤
      (if c / 262144 % 8 + 240 = 0xF4 then (0x8F : UInt8) else 0xBF).toNat := by
    split_ifs <;> simp only [UInt8.reduceToNat] <;> omega
  have hbits : (((c / 262144 % 8 + 240) % 8 * 64 + c / 4096 % 64) * 64 + c / 64 % 64) * 64 +
      c % 64 = c := by omega
  rw [decode, decodeFrom_lead (by omega) (by omega) hlead,
    decodeFrom_next (Nat.mod_lt _ (by decide)) hlower hupper, if_neg (by decide),
    decodeFrom_plain (Nat.mod_lt _ (by decide)), if_neg (by decide), decodeFrom_plain (Nat.mod_lt _ (by decide)), if_pos rfl, hbits, decode]

theorem decode_encodePoint (h : c.isValidChar) (rest : List UInt8) :
    decode (encodePoint c ++ rest) = c :: decode rest := by
  have hrange : c < 0xD800 ∨ 0xDFFF < c ∧ c < 0x110000 := h
  rcases Nat.lt_or_ge c 0x80 with hone | hone
  · have hcode : (UInt8.ofNat c).toNat = c := toNat_ofNat (by omega)
    have hbyte : UInt8.ofNat c < 0x80 := by
      rw [UInt8.lt_iff_toNat_lt, hcode]
      exact hone
    rw [encodePoint_ascii hone, List.singleton_append, ← List.nil_append (UInt8.ofNat c :: rest),
      decode_append_ascii hbyte, hcode]
    rfl
  · rw [encodePoint, if_pos h, String.utf8EncodeChar]
    simp only [val_ofNat h]
    rw [if_neg (by omega)]
    split_ifs with htwo hthree
    · exact decode_two hone htwo rest
    · exact decode_three (by omega) hthree (by omega) rest
    · exact decode_four (by omega) (by omega) rest

/-- What was encoded is decoded again. -/
theorem decode_encode (h : ∀ c ∈ s, c.isValidChar) : decode (encode s) = s := by
  induction s with
  | nil => rfl
  | cons c cs ih =>
    obtain ⟨hc, hcs⟩ := List.forall_mem_cons.mp h
    rw [encode, List.flatMap_cons, decode_encodePoint hc]
    exact congrArg (c :: ·) (ih hcs)

end RoundTrip
end FpgaDatabase.Library.Utf8
