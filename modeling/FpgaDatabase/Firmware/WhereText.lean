import FpgaDatabase.Firmware.Conditions

namespace FpgaDatabase.Firmware.WhereText

open CString Compile Conditions

inductive Operator
  | eq
  | eqEq
  | ne
  | lt
  | le
  | gt
  | ge
  deriving DecidableEq

namespace Operator

def spelling : Operator → List UInt8
  | eq => ascii "="
  | eqEq => ascii "=="
  | ne => ascii "!="
  | lt => ascii "<"
  | le => ascii "<="
  | gt => ascii ">"
  | ge => ascii ">="

end Operator

structure Comparison where
  name : List UInt8
  op : Operator
  value : List UInt8

def blanks (n : ℕ) : List UInt8 := List.replicate n 32

def Comparison.text (c : Comparison) (j k : ℕ) : List UInt8 :=
  c.name ++ (blanks j ++ (c.op.spelling ++ (blanks k ++ c.value)))

def isAnd (word : List UInt8) : Bool := word.map tolower = ascii "and"

/-- A name has at most 63 characters. -/
def isName (word : List UInt8) : Bool :=
  !word.isEmpty && word.length ≤ 63 && word.all isNameChar && !isAnd word

def isQuoted : List UInt8 → Bool
  | [first, ch, last] => first = 39 && ch ≠ 0 && last = 39
  | _ => false

/-- A word that is more than white space and does not begin with a quote. -/
def isWord (word : List UInt8) : Bool :=
  word.all isNameChar && word.any (fun ch ↦ !isspace ch) && peek word ≠ 39 && !isAnd word

def isValue (value : List UInt8) : Bool := isQuoted value || isWord value

structure Comparison.WellFormed (c : Comparison) : Prop where
  name : isName c.name = true
  value : isValue c.value = true

/-- A word ends at a blank or with the text, a quoted value at its closing quote. -/
def Ends (value rest : List UInt8) : Prop := peek rest = 0 ∨ peek rest = 32 ∨ isQuoted value = true

/-- What can follow a comparison: the comparisons that AND joins to it, with blanks
around every token. -/
inductive Continues : List Comparison → List UInt8 → Prop
  | done (n : ℕ) : Continues [] (blanks n)
  | and (l m j k : ℕ) {word rest : List UInt8} {c : Comparison} {cs : List Comparison}
      (hword : isAnd word = true) (hc : c.WellFormed) (hends : Ends c.value rest)
      (hrest : Continues cs rest) :
      Continues (c :: cs) (blanks l ++ (word ++ 32 :: (blanks m ++ (c.text j k ++ rest))))

inductive Prints : List Comparison → List UInt8 → Prop
  | blank (n : ℕ) : Prints [] (blanks n)
  | clause (l j k : ℕ) {rest : List UInt8} {c : Comparison} {cs : List Comparison}
      (hc : c.WellFormed) (hends : Ends c.value rest) (hrest : Continues cs rest) :
      Prints (c :: cs) (blanks l ++ (c.text j k ++ rest))

section Tokens

variable {word rest tail : List UInt8} {c : Comparison}

theorem peek_append (hne : word ≠ []) (rest : List UInt8) : peek (word ++ rest) = peek word := by
  obtain ⟨ch, chs, rfl⟩ := List.exists_cons_of_ne_nil hne
  rfl

theorem skipBlanks_blanks (n : ℕ) (ptr : List UInt8) :
    skipBlanks (blanks n ++ ptr) = skipBlanks ptr := by
  simp [skipBlanks, blanks]

theorem skipBlanks_split (ptr : List UInt8) : ∃ n, ptr = blanks n ++ skipBlanks ptr := by
  refine ⟨(ptr.takeWhile (· = 32)).length, ?_⟩
  have hblanks : ptr.takeWhile (· = 32) = blanks (ptr.takeWhile (· = 32)).length := by
    rw [blanks, List.eq_replicate_iff]
    exact ⟨rfl, fun ch hch ↦ by simpa using List.mem_takeWhile_imp hch⟩
  conv_lhs => rw [← List.takeWhile_append_dropWhile (p := (· = 32)) (l := ptr), hblanks]
  rfl

theorem scan_append {p : UInt8 → Bool} {bound : ℕ} (hall : word.all p = true)
    (hlen : word.length ≤ bound) (hstop : p (peek rest) = false) :
    scan p bound (word ++ rest) = (word, rest) := by
  have hword : ((word ++ rest).take bound).takeWhile p = word := by
    rw [List.take_append, List.take_of_length_le hlen]
    cases hroom : bound - word.length with
    | zero =>
      rw [List.take_zero, List.append_nil]
      exact List.takeWhile_eq_self_iff.mpr (List.all_eq_true.mp hall)
    | succ n =>
      refine takeWhile_append_stop hall ?_
      cases rest <;> exact hstop
  rw [scan, hword, List.drop_left]

theorem scan_split (p : UInt8 → Bool) (bound : ℕ) (ptr : List UInt8) :
    (scan p bound ptr).1 ++ (scan p bound ptr).2 = ptr := by
  have hprefix : (ptr.take bound).takeWhile p <+: ptr :=
    (List.takeWhile_prefix p).trans (List.take_prefix _ _)
  rw [scan]
  exact List.prefix_iff_eq_append.mp hprefix

theorem scan_all (p : UInt8 → Bool) (bound : ℕ) (ptr : List UInt8) :
    (scan p bound ptr).1.all p = true := by
  rw [List.all_eq_true]
  exact fun ch hch ↦ List.mem_takeWhile_imp hch

theorem nameChar_ne {ch : UInt8} (h : isNameChar ch = true) :
    ch ≠ 32 ∧ ch ≠ 0 ∧ isOperatorChar ch = false := by
  simp only [isNameChar, ne_eq, Bool.and_eq_true, decide_eq_true_eq, Bool.not_eq_true'] at h
  exact ⟨h.1.1, h.2, h.1.2⟩

theorem peek_nameChar (hall : word.all isNameChar = true) (hne : word ≠ []) :
    isNameChar (peek word) = true := by
  obtain ⟨ch, chs, rfl⟩ := List.exists_cons_of_ne_nil hne
  exact List.all_eq_true.mp hall ch (List.mem_cons_self)

theorem not_nameChar {ch : UInt8} (h : ch = 32 ∨ ch = 0 ∨ isOperatorChar ch = true) :
    isNameChar ch = false := by
  rcases h with rfl | rfl | h
  · rfl
  · rfl
  · simp [isNameChar, h]

theorem spelling_chars (op : Operator) : op.spelling.all isOperatorChar = true ∧
    op.spelling ≠ [] ∧ op.spelling.length ≤ 3 := by
  cases op <;> decide

/-- A value begins with a character of its own. -/
theorem value_start (h : isValue word = true) : word ≠ [] ∧ isNameChar (peek word) = true := by
  rw [isValue, Bool.or_eq_true] at h
  rcases h with h | h
  · match word, h with
    | [first, ch, last], h =>
      simp only [isQuoted, Bool.and_eq_true, decide_eq_true_eq] at h
      obtain ⟨⟨rfl, -⟩, -⟩ := h
      exact ⟨List.cons_ne_nil _ _, rfl⟩
  · simp only [isWord, Bool.and_eq_true] at h
    have hne : word ≠ [] := by
      rintro rfl
      simp at h
    exact ⟨hne, peek_nameChar h.1.1.1 hne⟩

end Tokens

section Keyword

variable {word ptr : List UInt8}

theorem isAnd_chars (h : isAnd word = true) : word.all isNameChar = true ∧ word.length = 3 := by
  have hletter (ch : UInt8) : isalpha (tolower ch) = true → isNameChar ch = true := by
    revert ch
    exact forall_byte (by decide +kernel)
  have hword : word.map tolower = ascii "and" := of_decide_eq_true h
  refine ⟨?_, by simpa [ascii] using congrArg List.length hword⟩
  rw [List.all_eq_true]
  intro ch hch
  apply hletter
  have hmem : tolower ch ∈ ascii "and" := by
    rw [← hword]
    exact List.mem_map_of_mem hch
  exact List.all_eq_true.mp (by decide) _ hmem

/-- The test for AND looks for the word with a blank behind it. -/
theorem startsWithAnd_iff :
    startsWithAnd ptr ↔ ∃ word rest, isAnd word = true ∧ ptr = word ++ 32 :: rest := by
  have hblank (ch : UInt8) : tolower ch = 32 ↔ ch = 32 := by
    revert ch
    exact forall_byte (by decide +kernel)
  have hchars : startsWithAnd ptr ↔ tolower (peek ptr) = 97 ∧ tolower (peek ptr.tail) = 110 ∧
      tolower (peek ptr.tail.tail) = 100 ∧ peek ptr.tail.tail.tail = 32 := by
    rw [startsWithAnd, asciiStrncasecmpLocal_succ, asciiStrncasecmpLocal_succ,
      asciiStrncasecmpLocal_succ, asciiStrncasecmpLocal_succ, ← hblank]
    exact ⟨fun ⟨h₁, h₂, h₃, h₄, _⟩ ↦ ⟨h₁, h₂, h₃, h₄⟩,
      fun ⟨h₁, h₂, h₃, h₄⟩ ↦ ⟨h₁, h₂, h₃, h₄, rfl⟩⟩
  rw [hchars]
  constructor
  · rintro ⟨h₁, h₂, h₃, h₄⟩
    match ptr with
    | [] | [_] | [_, _] | [_, _, _] => exact absurd (show (0 : UInt8) = 32 from h₄) (by decide)
    | a :: b :: c :: d :: rest =>
      have hd : d = 32 := h₄
      refine ⟨[a, b, c], rest, ?_, by rw [hd]; rfl⟩
      rw [peek_cons] at h₁
      simp only [List.tail_cons, peek_cons] at h₂ h₃
      simp [isAnd, h₁, h₂, h₃, ascii]
  · rintro ⟨word, rest, hword, rfl⟩
    obtain ⟨-, hlen⟩ := isAnd_chars hword
    match word, hlen with
    | [a, b, c], _ => simpa [isAnd, ascii] using hword

end Keyword

section Scanner

variable {c : Comparison} {value pass tail : List UInt8} {j k : ℕ}

theorem stop_at_operator (j : ℕ) (op : Operator) (rest : List UInt8) :
    isNameChar (peek (blanks j ++ (op.spelling ++ rest))) = false := by
  apply not_nameChar
  cases j with
  | zero =>
    refine .inr (.inr ?_)
    cases op <;> rfl
  | succ j => exact .inl rfl

theorem text_append (c : Comparison) (j k : ℕ) (tail : List UInt8) : c.text j k ++ tail =
    c.name ++ (blanks j ++ (c.op.spelling ++ (blanks k ++ (c.value ++ tail)))) := by
  simp [Comparison.text]

theorem name_chars (h : isName c.name = true) : c.name ≠ [] ∧ c.name.length ≤ 63 ∧
    c.name.all isNameChar = true ∧ isAnd c.name = false := by
  simpa [isName, and_assoc] using h

theorem text_not_and (hc : c.WellFormed) (j k : ℕ) (tail : List UInt8) : ¬ startsWithAnd (c.text j k ++ tail) := by
  rw [startsWithAnd_iff, text_append]
  rintro ⟨word, rest, hword, htext⟩
  obtain ⟨-, -, hall, hnot⟩ := name_chars hc.name
  have hname := takeWhile_append_stop hall
    (stop_at_operator j c.op (blanks k ++ (c.value ++ tail)))
  rw [htext, takeWhile_append_stop (isAnd_chars hword).1 (not_nameChar (.inl rfl))] at hname
  rw [← hname, hword] at hnot
  cases hnot

theorem pass_reads (hc : c.WellFormed) (hpass : nameStart pass = c.text j k ++ tail) :
    (scan isNameChar 63 (nameStart pass)).1 = c.name ∧
      (scan isOperatorChar 3 (operatorStart pass)).1 = c.op.spelling ∧
      valueStart pass = c.value ++ tail := by
  obtain ⟨-, hlen, hall, -⟩ := name_chars hc.name
  obtain ⟨hvalue, hfirst⟩ := value_start hc.value
  obtain ⟨hops, hop, hoplen⟩ := spelling_chars c.op
  obtain ⟨hv₁, -, hv₃⟩ := nameChar_ne hfirst
  rw [← peek_append hvalue tail] at hv₁ hv₃
  have hname : scan isNameChar 63 (nameStart pass) =
      (c.name, blanks j ++ (c.op.spelling ++ (blanks k ++ (c.value ++ tail)))) := by
    rw [hpass, text_append]
    exact scan_append hall hlen (stop_at_operator _ _ _)
  have hopstart : operatorStart pass = c.op.spelling ++ (blanks k ++ (c.value ++ tail)) := by
    rw [operatorStart, hname, skipBlanks_blanks]
    apply skipBlanks_of_ne
    rw [peek_append hop]
    cases c.op <;> decide
  have hoper : scan isOperatorChar 3 (operatorStart pass) =
      (c.op.spelling, blanks k ++ (c.value ++ tail)) := by
    rw [hopstart]
    refine scan_append hops hoplen ?_
    cases k with
    | zero => exact hv₃
    | succ k => rfl
  refine ⟨by rw [hname], by rw [hoper], ?_⟩
  rw [valueStart, hoper, skipBlanks_blanks]
  exact skipBlanks_of_ne hv₁

theorem skipWord_append (hall : value.all isNameChar = true) (he : peek tail = 0 ∨ peek tail = 32) :
    skipWord (value ++ tail) = tail := by
  rw [skipWord, List.dropWhile_append_of_pos]
  · exact skipWord_eq he
  · intro ch hch
    obtain ⟨h₁, h₂, -⟩ := nameChar_ne (List.all_eq_true.mp hall ch hch)
    simp [h₁, h₂]

theorem quoted_form (h : isQuoted value = true) : ∃ ch, ch ≠ 0 ∧ value = [39, ch, 39] := by
  match value, h with
  | [first, ch, last], h =>
    simp only [isQuoted, Bool.and_eq_true, decide_eq_true_eq] at h
    obtain ⟨⟨rfl, hch⟩, rfl⟩ := h
    exact ⟨ch, hch, rfl⟩

theorem scanValue_quoted (ch : UInt8) (tail : List UInt8) :
    scanValue ([39, ch, 39] ++ tail) = (signed ch, tail) := by
  simp [scanValue]

theorem word_ends (hw : isWord value = true) (he : Ends value tail) :
    peek tail = 0 ∨ peek tail = 32 := by
  rcases he with h | h | h
  · exact .inl h
  · exact .inr h
  · obtain ⟨ch, -, rfl⟩ := quoted_form h
    simp [isWord] at hw

theorem scanValue_rest (hv : isValue value = true) (he : Ends value tail) :
    (scanValue (value ++ tail)).2 = tail := by
  rw [isValue, Bool.or_eq_true] at hv
  rcases hv with hq | hw
  · obtain ⟨ch, -, rfl⟩ := quoted_form hq
    rw [scanValue_quoted]
  · have hend := word_ends hw he
    simp only [isWord, Bool.and_eq_true, decide_eq_true_eq] at hw
    obtain ⟨⟨⟨hall, hsome⟩, hquote⟩, -⟩ := hw
    have hskip := skipWord_append hall hend
    cases value with
    | nil => simp at hsome
    | cons ch chs =>
      have hfirst : ¬ peek (ch :: chs ++ tail) = 39 := hquote
      rw [scanValue, if_neg hfirst]
      split_ifs with halpha hdigit
      · exact hskip
      · -- A digit is read as a character only if the word ends behind it.
        rw [Bool.and_eq_true, Bool.or_eq_true, decide_eq_true_eq, decide_eq_true_eq] at hdigit
        cases chs with
        | nil => rfl
        | cons d ds =>
          obtain ⟨h₁, h₂, -⟩ := nameChar_ne (List.all_eq_true.mp hall d (by simp))
          exact absurd hdigit.2 (not_or_intro h₁ h₂)
      · exact hskip

end Scanner

section Passes

variable {c : Comparison} {cs : List Comparison} {ptr pass rest tail text : List UInt8} {j k : ℕ}

/-- The pass stands in front of the comparison, or in front of the AND before it. -/
def Stands (c : Comparison) (pass : List UInt8) : Prop :=
  c.WellFormed ∧ ∃ j k tail, nameStart pass = c.text j k ++ tail ∧ Ends c.value tail

theorem text_start (hc : c.WellFormed) (j k : ℕ) (tail : List UInt8) :
    isNameChar (peek (c.text j k ++ tail)) = true := by
  obtain ⟨hne, -, hall, -⟩ := name_chars hc.name
  rw [text_append, peek_append hne]
  exact peek_nameChar hall hne

theorem ends_append (ht : peek tail = 0) (he : Ends c.value rest) : Ends c.value (rest ++ tail) := by
  rwa [Ends, peek_append_zero ht]

theorem passes_comparison (hc : c.WellFormed) (he : Ends c.value rest)
    (hptr : skipBlanks ptr = pass) (hpass : nameStart pass = c.text j k ++ rest)
    (hne : peek pass ≠ 0) : passes ptr = pass :: passes rest := by
  have hnext : (scanCondition pass).2 = rest := by
    rw [scanCondition_rest, (pass_reads hc hpass).2.2]
    exact scanValue_rest hc.value he
  rw [passes, hptr, if_neg hne, hnext]

/-- Every pass of the loop stands at one comparison of the text, in order, and every
pass but the first at an AND. -/
theorem passes_continues (ht : peek tail = 0) (h : Continues cs rest) :
    List.Forall₂ Stands cs (passes (rest ++ tail)) ∧
      ∀ pass ∈ passes (rest ++ tail), startsWithAnd pass := by
  induction h with
  | done n =>
    have hend : peek (skipBlanks (blanks n ++ tail)) = 0 := by
      rw [skipBlanks_blanks, skipBlanks_of_ne (by rw [ht]; decide), ht]
    rw [passes, if_pos hend]
    simp
  | and l m j k hword hc hends hrest ih =>
    rename_i word rest c cs
    have hand : startsWithAnd (word ++ 32 :: (blanks m ++ (c.text j k ++ (rest ++ tail)))) :=
      startsWithAnd_iff.mpr ⟨word, _, hword, rfl⟩
    obtain ⟨hall, hlen⟩ := isAnd_chars hword
    have hne : word ≠ [] := by
      rintro rfl
      cases hlen
    obtain ⟨h₁, h₂, -⟩ := nameChar_ne (peek_nameChar hall hne)
    obtain ⟨h₃, -, -⟩ := nameChar_ne (text_start hc j k (rest ++ tail))
    have hpass : nameStart (word ++ 32 :: (blanks m ++ (c.text j k ++ (rest ++ tail)))) =
        c.text j k ++ (rest ++ tail) := by
      have hdrop : (word ++ 32 :: (blanks m ++ (c.text j k ++ (rest ++ tail)))).drop 4 =
          blanks m ++ (c.text j k ++ (rest ++ tail)) := by
        rw [← List.drop_drop (i := 1) (j := 3), ← hlen, List.drop_left]
        rfl
      rw [nameStart, if_pos hand, hdrop, skipBlanks_blanks, skipBlanks_of_ne h₃]
    have hptr : skipBlanks (blanks l ++ (word ++ 32 :: (blanks m ++ (c.text j k ++ rest))) ++ tail)
        = word ++ 32 :: (blanks m ++ (c.text j k ++ (rest ++ tail))) := by
      simp only [List.append_assoc, List.cons_append]
      rw [skipBlanks_blanks, skipBlanks_of_ne (by rwa [peek_append hne])]
    have hends' := ends_append ht hends
    rw [passes_comparison hc hends' hptr hpass (by rwa [peek_append hne])]
    exact ⟨.cons ⟨hc, j, k, _, hpass, hends'⟩ ih.1, List.forall_mem_cons.mpr ⟨hand, ih.2⟩⟩

theorem passes_prints (ht : peek tail = 0) (h : Prints cs text) :
    List.Forall₂ Stands cs (passes (text ++ tail)) ∧
      (∀ pass ∈ (passes (text ++ tail)).head?, ¬ startsWithAnd pass) ∧
        ∀ pass ∈ (passes (text ++ tail)).tail, startsWithAnd pass := by
  cases h with
  | blank n =>
    have hpasses : passes (blanks n ++ tail) = [] :=
      List.forall₂_nil_left_iff.mp (passes_continues ht (.done n)).1
    rw [hpasses]
    simp
  | clause l j k hc hends hrest =>
    rename_i rest c cs
    obtain ⟨hstands, hands⟩ := passes_continues ht hrest
    have hnot := text_not_and hc j k (rest ++ tail)
    obtain ⟨h₁, h₂, -⟩ := nameChar_ne (text_start hc j k (rest ++ tail))
    have hpass : nameStart (c.text j k ++ (rest ++ tail)) = c.text j k ++ (rest ++ tail) :=
      if_neg hnot
    have hptr : skipBlanks (blanks l ++ (c.text j k ++ rest) ++ tail) =
        c.text j k ++ (rest ++ tail) := by
      simp only [List.append_assoc]
      rw [skipBlanks_blanks, skipBlanks_of_ne h₁]
    have hends' := ends_append ht hends
    rw [passes_comparison hc hends' hptr hpass h₂]
    refine ⟨.cons ⟨hc, j, k, _, hpass, hends'⟩ hstands, ?_, hands⟩
    rintro pass ⟨rfl⟩
    exact hnot

end Passes

end FpgaDatabase.Firmware.WhereText
