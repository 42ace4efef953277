import Mathlib.Data.List.DropRight

namespace FpgaDatabase.Firmware.CString

def ascii (text : String) : List UInt8 := text.toList.map (fun c ↦ UInt8.ofNat c.toNat)

theorem forall_byte {P : UInt8 → Prop} (h : ∀ n < 256, P (UInt8.ofNat n)) (b : UInt8) : P b := by
  have hb := h b.toNat b.toNat_lt
  rwa [UInt8.ofNat_toNat] at hb

section Ctype

variable (ch : UInt8)

def isspace : Bool := ch = 32 || (9 ≤ ch && ch ≤ 13)
def isdigit : Bool := 48 ≤ ch && ch ≤ 57
def isupper : Bool := 65 ≤ ch && ch ≤ 90
def islower : Bool := 97 ≤ ch && ch ≤ 122
def isalpha : Bool := isupper ch || islower ch
def isalnum : Bool := isalpha ch || isdigit ch
def tolower : UInt8 := if isupper ch then ch + 32 else ch

end Ctype

theorem alnum_range {ch : UInt8} (h : isalnum ch = true) :
    (48 ≤ ch.toNat ∧ ch.toNat ≤ 57) ∨ (65 ≤ ch.toNat ∧ ch.toNat ≤ 90) ∨
      (97 ≤ ch.toNat ∧ ch.toNat ≤ 122) := by
  simp only [isalnum, isalpha, isdigit, isupper, islower, Bool.or_eq_true, Bool.and_eq_true,
    decide_eq_true_eq, UInt8.le_iff_toNat_le] at h
  have e₁ : (48 : UInt8).toNat = 48 := rfl
  have e₂ : (57 : UInt8).toNat = 57 := rfl
  have e₃ : (65 : UInt8).toNat = 65 := rfl
  have e₄ : (90 : UInt8).toNat = 90 := rfl
  have e₅ : (97 : UInt8).toNat = 97 := rfl
  have e₆ : (122 : UInt8).toNat = 122 := rfl
  omega

theorem alnum_ne {ch k : UInt8} (h : isalnum ch = true) (hk : k.toNat < 48) : ch ≠ k := by
  rintro rfl
  have := alnum_range h
  omega

theorem isalpha_iff {ch : UInt8} : isalpha ch = true ↔
    (65 ≤ ch.toNat ∧ ch.toNat ≤ 90) ∨ (97 ≤ ch.toNat ∧ ch.toNat ≤ 122) := by
  simp [isalpha, isupper, islower, UInt8.le_iff_toNat_le]

theorem letter_alnum {ch : UInt8} (h : isalpha ch = true) : isalnum ch = true := by
  simp [isalnum, h]

theorem letter_ne {ch k : UInt8} (h : isalpha ch = true) (hk : k.toNat < 48) : ch ≠ k :=
  alnum_ne (letter_alnum h) hk

theorem toNat_tolower (ch : UInt8) : (tolower ch).toNat =
    if 65 ≤ ch.toNat ∧ ch.toNat ≤ 90 then ch.toNat + 32 else ch.toNat := by
  have hup : isupper ch = true ↔ 65 ≤ ch.toNat ∧ ch.toNat ≤ 90 := by
    simp [isupper, UInt8.le_iff_toNat_le]
  rw [tolower, apply_ite UInt8.toNat]
  simp only [hup, UInt8.toNat_add, UInt8.reduceToNat]
  split_ifs with h
  · exact Nat.mod_eq_of_lt (by omega)
  · rfl

/-- Two characters that differ in their case only are letters. -/
theorem letters_of_tolower {a b : UInt8} (h : tolower a = tolower b) :
    a = b ∨ (isalpha a = true ∧ isalpha b = true) := by
  have hnat := congrArg UInt8.toNat h
  rw [toNat_tolower, toNat_tolower] at hnat
  rw [isalpha_iff, isalpha_iff, ← UInt8.toNat_inj]
  split_ifs at hnat <;> omega

theorem isspace_of_alnum {ch : UInt8} (h : isalnum ch = true) : isspace ch = false := by
  have hr := alnum_range h
  have hblank : ch ≠ 32 := alnum_ne h (by decide)
  have hafter : ¬ ch ≤ 13 := by
    intro hle
    have hle' : ch.toNat ≤ 13 := UInt8.le_iff_toNat_le.mp hle
    omega
  simp [isspace, hblank, hafter]

/-- The byte at a pointer. A pointer is the memory from its address on, and memory
past the end of the list reads as zeros. -/
def peek (mem : List UInt8) : UInt8 := mem.headD 0

@[simp] theorem peek_cons (ch : UInt8) (mem : List UInt8) : peek (ch :: mem) = ch := rfl

theorem peek_append_zero {rest tail : List UInt8} (ht : peek tail = 0) :
    peek (rest ++ tail) = peek rest := by
  cases rest with
  | nil => exact ht
  | cons ch chs => rfl

theorem takeWhile_append_stop {word rest : List UInt8} {p : UInt8 → Bool} (hall : word.all p = true)
    (hstop : p (peek rest) = false) : (word ++ rest).takeWhile p = word := by
  have hrest : rest.takeWhile p = [] := by
    cases rest with
    | nil => rfl
    | cons ch chs => exact List.takeWhile_cons_of_neg (by simpa using hstop)
  rw [List.takeWhile_append_of_pos (List.all_eq_true.mp hall), hrest, List.append_nil]

def strlen (mem : List UInt8) : ℕ := (mem.takeWhile (· ≠ 0)).length

/-- `strstr`, on a text that ends with its list or with a zero. -/
def strstr (needle : List UInt8) : List UInt8 → Option (List UInt8)
  | [] => if needle = [] then some [] else none
  | c :: cs =>
    if needle.isPrefixOf (c :: cs) then some (c :: cs)
    else if c = 0 then none
    else strstr needle cs

def decimal (digits : List UInt8) : ℕ := digits.foldl (fun n d ↦ 10 * n + (d.toNat - 48)) 0

structure Numeral where
  negative : Bool
  magnitude : ℕ

def numeral (text : List UInt8) : Numeral :=
  let text := text.dropWhile isspace
  let signed := peek text = 45 || peek text = 43
  let digits := if signed then text.tail else text
  ⟨peek text = 45, decimal (digits.takeWhile isdigit)⟩

def ulongMax : ℕ := 0xFFFFFFFF
def longMax : ℕ := 0x7FFFFFFF

/-- `strtoul` in base 10 with a 32-bit `unsigned long`. -/
def strtoul (text : List UInt8) : ℕ :=
  let n := numeral text
  if ulongMax < n.magnitude then ulongMax
  else if n.negative then (ulongMax + 1 - n.magnitude) % (ulongMax + 1)
  else n.magnitude

/-- `atoi` with a 32-bit `long`. -/
def atoi (text : List UInt8) : ℤ :=
  let n := numeral text
  if n.negative then -(min (longMax + 1) n.magnitude : ℕ) else (min longMax n.magnitude : ℕ)

def trailing (ch : UInt8) : Bool := ch = 0 || ch = 32 || ch = 13 || ch = 10 || ch = 9

theorem trailing_of_isspace {b : UInt8} (hzero : b ≠ 0) (hspace : isspace b = false) :
    trailing b = false := by
  by_contra htrail
  simp only [trailing, Bool.not_eq_false, Bool.or_eq_true, decide_eq_true_eq, hzero,
    false_or] at htrail
  rcases htrail with ((rfl | rfl) | rfl) | rfl <;> revert hspace <;> decide

def trimCopy (dstSize : ℕ) (src : List UInt8) : List UInt8 :=
  ((src.dropWhile isspace).rdropWhile trailing).take (dstSize - 1)

theorem trimCopy_plain (dstSize : ℕ) {src : List UInt8}
    (hfirst : ∀ ch ∈ src.head?, isspace ch = false)
    (hlast : ∀ ch ∈ src.getLast?, trailing ch = false) :
    trimCopy dstSize src = src.take (dstSize - 1) := by
  have hfront : src.dropWhile isspace = src := by
    cases src with
    | nil => rfl
    | cons ch chs => exact List.dropWhile_cons_of_neg (by simp [hfirst ch rfl])
  have hback : src.rdropWhile trailing = src := by
    rw [List.rdropWhile_eq_self_iff]
    intro hne
    simp [hlast _ (List.getLast?_eq_some_getLast hne)]
  rw [trimCopy, hfront, hback]

def sanitizeIdentifier (value : List UInt8) : Bool :=
  !value.isEmpty && value.all (fun ch ↦ isalnum ch || ch = 95)

def asciiStrncasecmpLocal (lhs rhs : List UInt8) : ℕ → ℤ
  | 0 => 0
  | count + 1 =>
    if tolower (peek lhs) ≠ tolower (peek rhs) then
      (tolower (peek lhs)).toNat - (tolower (peek rhs)).toNat
    else asciiStrncasecmpLocal lhs.tail rhs.tail count

theorem asciiStrncasecmpLocal_succ (lhs rhs : List UInt8) (count : ℕ) :
    asciiStrncasecmpLocal lhs rhs (count + 1) = 0 ↔
      tolower (peek lhs) = tolower (peek rhs) ∧
        asciiStrncasecmpLocal lhs.tail rhs.tail count = 0 := by
  rw [asciiStrncasecmpLocal]
  split_ifs with h
  · have hne : (tolower (peek lhs)).toNat ≠ (tolower (peek rhs)).toNat :=
      fun he ↦ h (UInt8.toNat_inj.mp he)
    constructor
    · intro h₀
      omega
    · intro h₀
      exact absurd h₀.1 h
  · rw [ne_eq, not_not] at h
    simp [h]

def isSqlBoundary (ch : UInt8) : Bool := ch = 0 || isspace ch || ch = 44 || ch = 40 || ch = 41

/-- The position of a keyword from `cursor` on; `before` is the byte in front of it. -/
def findKeywordFrom (keyword : List UInt8) (before : UInt8) : List UInt8 → Option ℕ
  | [] => none
  | c :: cs =>
    if c = 0 then none
    else if isSqlBoundary before ∧ asciiStrncasecmpLocal (c :: cs) keyword keyword.length = 0 ∧
        isSqlBoundary ((c :: cs).getD keyword.length 0) then some 0
    else (findKeywordFrom keyword c cs).map (· + 1)

def findSqlKeyword (sql : List UInt8) (keyword : String) : Option ℕ :=
  findKeywordFrom (ascii keyword) 32 sql

end FpgaDatabase.Firmware.CString
