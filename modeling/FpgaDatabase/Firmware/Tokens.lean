import FpgaDatabase.Firmware.WhereText

namespace FpgaDatabase.Firmware.Tokens

open CString Compile Conditions WhereText

/-- A list of comparisons joined by AND. -/
def Conjunction (clause : List UInt8) : Prop := ∃ cs, Prints cs clause

def isSpelling (text : List UInt8) : Bool :=
  [Operator.eq, .eqEq, .ne, .lt, .le, .gt, .ge].any (fun op ↦ op.spelling = text)

/-- The token at the start of a text. A quoted character is one only behind an operator. -/
def firstToken (operand : Bool) (text : List UInt8) : List UInt8 :=
  if isOperatorChar (peek text) then text.takeWhile isOperatorChar
  else if operand && isQuoted (text.take 3) then text.take 3
  else text.takeWhile isNameChar

theorem firstToken_pos (operand : Bool) {text : List UInt8} (hzero : peek text ≠ 0)
    (hblank : peek text ≠ 32) :
    0 < text.length ∧ 0 < (firstToken operand text).length := by
  cases text with
  | nil => exact absurd rfl hzero
  | cons ch chs =>
    rw [peek_cons] at hzero hblank
    refine ⟨Nat.succ_pos _, ?_⟩
    rw [firstToken, peek_cons]
    split_ifs with hop hquoted
    · simp [hop]
    · simp
    · simp [isNameChar, hop, hzero, hblank]

/-- The tokens of a text up to its end: runs of operator characters, quoted characters and words.
`operand` says that an operator stands in front. -/
def tokens (operand : Bool) (text : List UInt8) : List (List UInt8) :=
  if peek (skipBlanks text) = 0 then []
  else
    let token := firstToken operand (skipBlanks text)
    token :: tokens (isOperatorChar (peek token)) ((skipBlanks text).drop token.length)
termination_by text.length
decreasing_by
  have hpos := firstToken_pos operand ‹_› (peek_skipBlanks text)
  have hle := skipBlanks_length_le text
  rw [List.length_drop]
  omega

/-- What the tokens of a clause are, counted in fours: a name, an operator, a value and AND. -/
def fits (i : ℕ) (token : List UInt8) : Bool :=
  match i % 4 with
  | 0 => isName token
  | 1 => isSpelling token
  | 2 => isValue token
  | _ => isAnd token

/-- A token that does not belong where it stands, or a clause that ends behind a name, an
operator or AND. -/
inductive Flaw (clause : List UInt8) : Prop
  | misplaced {i : ℕ} {token : List UInt8} : (tokens false clause)[i]? = some token →
      fits i token = false → Flaw clause
  | cut : tokens false clause ≠ [] → (tokens false clause).length % 4 ≠ 3 → Flaw clause

instance (clause : List UInt8) : Decidable (Flaw clause) :=
  decidable_of_iff ((∃ t ∈ (tokens false clause).zipIdx, fits t.2 t.1 = false) ∨
      tokens false clause ≠ [] ∧ (tokens false clause).length % 4 ≠ 3) <| by
    constructor
    · rintro (⟨⟨token, i⟩, hmem, hbad⟩ | ⟨hne, hcut⟩)
      · exact .misplaced (List.mem_zipIdx_iff_getElem?.mp hmem) hbad
      · exact .cut hne hcut
    · rintro (@⟨i, token, htoken, hbad⟩ | ⟨hne, hcut⟩)
      · exact .inl ⟨(token, i), List.mem_zipIdx_iff_getElem?.mpr htoken, hbad⟩
      · exact .inr ⟨hne, hcut⟩

section Lexer

variable {operand : Bool} {text rest token value : List UInt8} {toks : List (List UInt8)}
  {c : Comparison} {n l j k : ℕ}

theorem tokens_append (hfirst : firstToken operand (token ++ rest) = token) (hne : token ≠ [])
    (hzero : peek token ≠ 0) (hblank : peek token ≠ 32) :
    tokens operand (blanks n ++ (token ++ rest)) =
      token :: tokens (isOperatorChar (peek token)) rest := by
  have hstart : skipBlanks (blanks n ++ (token ++ rest)) = token ++ rest := by
    rw [skipBlanks_blanks]
    exact skipBlanks_of_ne (by rwa [peek_append hne])
  rw [tokens, hstart, if_neg (by rwa [peek_append hne])]
  simp only [hfirst, List.drop_left]

theorem tokens_word (hall : token.all isNameChar = true) (hne : token ≠ [])
    (hstop : isNameChar (peek rest) = false) :
    tokens false (blanks n ++ (token ++ rest)) = token :: tokens false rest := by
  obtain ⟨hblank, hzero, hop⟩ := nameChar_ne (peek_nameChar hall hne)
  rw [tokens_append _ hne hzero hblank, hop]
  rw [firstToken, peek_append hne, hop, if_neg Bool.false_ne_true, Bool.false_and,
    if_neg Bool.false_ne_true]
  exact takeWhile_append_stop hall hstop

theorem tokens_operator (op : Operator) (hstop : isOperatorChar (peek rest) = false) :
    tokens operand (blanks n ++ (op.spelling ++ rest)) = op.spelling :: tokens true rest := by
  obtain ⟨hall, hne, -⟩ := spelling_chars op
  have hop : isOperatorChar (peek op.spelling) = true ∧ peek op.spelling ≠ 0 ∧
      peek op.spelling ≠ 32 := by
    cases op <;> decide
  rw [tokens_append _ hne hop.2.1 hop.2.2, hop.1]
  rw [firstToken, peek_append hne, if_pos hop.1]
  exact takeWhile_append_stop hall hstop

theorem tokens_value (hv : isValue value = true) (he : Ends value rest) :
    tokens true (blanks n ++ (value ++ rest)) = value :: tokens false rest := by
  obtain ⟨hne, hfirst⟩ := value_start hv
  obtain ⟨hblank, hzero, hop⟩ := nameChar_ne hfirst
  rw [tokens_append _ hne hzero hblank, hop]
  rw [firstToken, peek_append hne, hop, if_neg Bool.false_ne_true, Bool.true_and]
  rw [isValue, Bool.or_eq_true] at hv
  rcases hv with hq | hw
  · obtain ⟨ch, -, rfl⟩ := quoted_form hq
    exact if_pos hq
  · have hend := word_ends hw he
    simp only [isWord, Bool.and_eq_true, decide_eq_true_eq] at hw
    obtain ⟨⟨⟨hall, -⟩, hquote⟩, -⟩ := hw
    have hplain : ¬ isQuoted ((value ++ rest).take 3) = true := by
      intro hq
      obtain ⟨ch, -, htake⟩ := quoted_form hq
      refine hquote ?_
      rw [← peek_append hne rest]
      cases hline : value ++ rest with
      | nil =>
        rw [hline] at htake
        cases htake
      | cons first more =>
        rw [hline] at htake
        exact (List.cons.inj htake).1
    rw [if_neg hplain]
    exact takeWhile_append_stop hall (not_nameChar (hend.symm.imp_right .inl))

theorem tokens_comparison (hc : c.WellFormed) (he : Ends c.value rest) :
    tokens false (blanks l ++ (c.text j k ++ rest)) =
      c.name :: c.op.spelling :: c.value :: tokens false rest := by
  obtain ⟨hne, -, hall, -⟩ := name_chars hc.name
  obtain ⟨hvalue, hfirst⟩ := value_start hc.value
  obtain ⟨-, -, hplain⟩ := nameChar_ne hfirst
  have hstop : isOperatorChar (peek (blanks k ++ (c.value ++ rest))) = false := by
    cases k with
    | zero => rwa [← peek_append hvalue rest] at hplain
    | succ k => rfl
  rw [text_append, tokens_word hall hne (stop_at_operator _ _ _), tokens_operator c.op hstop,
    tokens_value hc.value he]

end Lexer

section Reading

variable {operand : Bool} {text rest token : List UInt8} {toks : List (List UInt8)}

theorem not_mem_skipBlanks (h : 0 ∉ text) : 0 ∉ skipBlanks text :=
  fun hmem ↦ h ((List.dropWhile_sublist _).subset hmem)

theorem peek_ne_zero (h : 0 ∉ text) (hne : text ≠ []) : peek text ≠ 0 := by
  obtain ⟨ch, chs, rfl⟩ := List.exists_cons_of_ne_nil hne
  rintro rfl
  exact h List.mem_cons_self

theorem tokens_nil (hnul : 0 ∉ text) (h : tokens operand text = []) : ∃ n, text = blanks n := by
  obtain ⟨n, hn⟩ := skipBlanks_split text
  refine ⟨n, ?_⟩
  rw [tokens, ite_eq_left_iff] at h
  have hend : peek (skipBlanks text) = 0 := by
    by_contra hne
    cases h hne
  have hnil : skipBlanks text = [] := by
    by_contra hne
    exact peek_ne_zero (not_mem_skipBlanks hnul) hne hend
  rwa [hnil, List.append_nil] at hn

theorem firstToken_prefix (operand : Bool) (text : List UInt8) : firstToken operand text <+: text := by
  rw [firstToken]
  split_ifs
  · exact List.takeWhile_prefix _
  · exact List.take_prefix _ _
  · exact List.takeWhile_prefix _

theorem tokens_cons (h : tokens operand text = token :: toks) :
    ∃ n rest, text = blanks n ++ (token ++ rest) ∧ token ≠ [] ∧
      firstToken operand (token ++ rest) = token ∧
      toks = tokens (isOperatorChar (peek token)) rest := by
  obtain ⟨n, hn⟩ := skipBlanks_split text
  rw [tokens] at h
  split_ifs at h with hzero
  obtain ⟨htoken, htoks⟩ := List.cons.inj h
  have hpos := (firstToken_pos operand hzero (peek_skipBlanks text)).2
  have hsplit : token ++ (skipBlanks text).drop token.length = skipBlanks text :=
    List.prefix_iff_eq_append.mp (htoken ▸ firstToken_prefix operand (skipBlanks text))
  refine ⟨n, (skipBlanks text).drop token.length, by rw [hsplit, ← hn], ?_, by rwa [hsplit], ?_⟩
  · rw [htoken] at hpos
    exact List.ne_nil_of_length_pos hpos
  · rw [← htoks, htoken]

theorem peek_takeWhile {p : UInt8 → Bool} (hzero : p 0 = false)
    (h : (token ++ rest).takeWhile p = token) : p (peek rest) = false := by
  cases rest with
  | nil => exact hzero
  | cons ch chs =>
    by_contra hch
    rw [Bool.not_eq_false, peek_cons] at hch
    have hall : ∀ c ∈ token, p c = true := by
      rw [← h]
      exact fun c hc ↦ List.mem_takeWhile_imp hc
    rw [List.takeWhile_append_of_pos hall, List.takeWhile_cons_of_pos hch] at h
    simp at h

theorem word_read (hall : token.all isNameChar = true) (h : tokens false text = token :: toks) :
    ∃ n rest, text = blanks n ++ (token ++ rest) ∧ isNameChar (peek rest) = false ∧
      toks = tokens false rest := by
  obtain ⟨n, rest, htext, hne, hfirst, htoks⟩ := tokens_cons h
  obtain ⟨-, -, hop⟩ := nameChar_ne (peek_nameChar hall hne)
  rw [firstToken, peek_append hne, hop, if_neg Bool.false_ne_true, Bool.false_and,
    if_neg Bool.false_ne_true] at hfirst
  exact ⟨n, rest, htext, peek_takeWhile rfl hfirst, by rw [htoks, hop]⟩

theorem spelling_isSpelling (op : Operator) : isSpelling op.spelling = true := by
  cases op <;> decide

theorem operator_read (hspelling : isSpelling token = true) (h : tokens operand text = token :: toks) :
    ∃ n rest, ∃ op : Operator, op.spelling = token ∧ text = blanks n ++ (token ++ rest) ∧
      toks = tokens true rest := by
  obtain ⟨n, rest, htext, -, -, htoks⟩ := tokens_cons h
  obtain ⟨op, -, hop⟩ := List.any_eq_true.mp hspelling
  rw [decide_eq_true_eq] at hop
  refine ⟨n, rest, op, hop, htext, ?_⟩
  rw [htoks, ← hop]
  cases op <;> rfl

theorem value_read (hv : isValue token = true) (h : tokens true text = token :: toks) :
    ∃ n rest, text = blanks n ++ (token ++ rest) ∧
      (isQuoted token = true ∨ isNameChar (peek rest) = false) ∧ toks = tokens false rest := by
  obtain ⟨n, rest, htext, hne, hfirst, htoks⟩ := tokens_cons h
  obtain ⟨-, -, hop⟩ := nameChar_ne (value_start hv).2
  refine ⟨n, rest, htext, ?_, by rw [htoks, hop]⟩
  rw [firstToken, peek_append hne, hop, if_neg Bool.false_ne_true, Bool.true_and] at hfirst
  split_ifs at hfirst with hquoted
  · exact .inl (hfirst ▸ hquoted)
  · exact .inr (peek_takeWhile rfl hfirst)

theorem tokens_blank (operand : Bool) (text : List UInt8) :
    tokens operand (32 :: text) = tokens operand text := by
  have hskip : skipBlanks (32 :: text) = skipBlanks text := rfl
  conv_rhs => rw [tokens]
  rw [tokens, hskip]

theorem tokens_blanks (operand : Bool) (n : ℕ) : tokens operand (blanks n) = [] := by
  induction n with
  | zero =>
    rw [tokens]
    rfl
  | succ n ih => rwa [blanks, List.replicate_succ, tokens_blank]

/-- What stands behind a word, if no operator may. -/
theorem end_or_blank (hstop : isNameChar (peek rest) = false)
    (hop : isOperatorChar (peek rest) = false) : peek rest = 0 ∨ peek rest = 32 := by
  by_contra hne
  rw [not_or] at hne
  simp [isNameChar, hop, hne.1, hne.2] at hstop

theorem operator_next (hop : isOperatorChar (peek rest) = true) :
    ∃ token toks, tokens false rest = token :: toks ∧ isOperatorChar (peek token) = true := by
  have hstart : skipBlanks rest = rest := by
    apply skipBlanks_of_ne
    rintro hblank
    rw [hblank] at hop
    cases hop
  have hzero : peek rest ≠ 0 := by
    rintro hzero
    rw [hzero] at hop
    cases hop
  rw [tokens, hstart, if_neg hzero]
  refine ⟨_, _, rfl, ?_⟩
  rw [firstToken, if_pos hop]
  cases rest with
  | nil => cases hop
  | cons ch chs =>
    rw [peek_cons] at hop
    rwa [List.takeWhile_cons_of_pos hop, peek_cons]

end Reading

section Clause

variable {text clause : List UInt8} {toks : List (List UInt8)} {token : List UInt8} {i : ℕ}

def Placed (i : ℕ) (toks : List (List UInt8)) : Prop :=
  ∀ j token, toks[j]? = some token → fits (i + j) token = true

theorem placed_cons : Placed i (token :: toks) ↔ fits i token = true ∧ Placed (i + 1) toks := by
  constructor
  · intro h
    refine ⟨h 0 token rfl, fun j t ht ↦ ?_⟩
    rw [Nat.add_assoc, Nat.add_comm 1]
    exact h (j + 1) t ht
  · rintro ⟨htoken, hrest⟩ j t ht
    cases j with
    | zero =>
      cases ht
      exact htoken
    | succ j =>
      rw [Nat.add_comm j, ← Nat.add_assoc]
      exact hrest j t ht

theorem placed_four : Placed (i + 4) toks ↔ Placed i toks := by
  refine forall₂_congr fun j t ↦ ?_
  rw [show i + 4 + j = (i + j) + 4 by omega, fits, fits, Nat.add_mod_right]

/-- No operator stands where a name or AND belongs. -/
theorem no_operator {rest : List UInt8} (hi : i % 4 = 0 ∨ i % 4 = 3)
    (h : Placed i (tokens false rest)) : isOperatorChar (peek rest) = false := by
  by_contra hop
  obtain ⟨token, toks, htoks, htoken⟩ := operator_next (Bool.not_eq_false _ ▸ hop)
  rw [htoks, placed_cons] at h
  have hname : isNameChar (peek token) = true := by
    rcases hi with hi | hi
    · obtain ⟨hne, -, hall, -⟩ := name_chars (c := ⟨token, .eq, []⟩) (by simpa [fits, hi] using h.1)
      exact peek_nameChar hall hne
    · obtain ⟨hall, hthree⟩ := isAnd_chars (by simpa [fits, hi] using h.1)
      exact peek_nameChar hall (by rintro rfl; cases hthree)
  rw [(nameChar_ne hname).2.2] at htoken
  cases htoken

theorem comparison_read (hne : tokens false text ≠ []) (hplaced : Placed 0 (tokens false text))
    (hlen : (tokens false text).length % 4 = 3) :
    ∃ (c : Comparison) (l j k : ℕ) (rest : List UInt8), c.WellFormed ∧
      text = blanks l ++ (c.text j k ++ rest) ∧ Ends c.value rest ∧
      Placed 3 (tokens false rest) ∧ (tokens false rest).length % 4 = 0 := by
  match htoks : tokens false text, hne with
  | [_], _ | [_, _], _ =>
    rw [htoks] at hlen
    cases hlen
  | name :: operator :: value :: toks, _ =>
    rw [htoks, placed_cons, placed_cons, placed_cons] at hplaced
    obtain ⟨hname, hspelling, hvalue, hrest⟩ := hplaced
    obtain ⟨l, rest₁, htext, -, h₁⟩ := word_read (name_chars (c := ⟨name, .eq, []⟩) hname).2.2.1 htoks
    obtain ⟨j, rest₂, op, hop, hrest₁, h₂⟩ := operator_read hspelling h₁.symm
    obtain ⟨k, rest, hrest₂, hends, rfl⟩ := value_read hvalue h₂.symm
    refine ⟨⟨name, op, value⟩, l, j, k, rest, ⟨hname, hvalue⟩, ?_, ?_, hrest, ?_⟩
    · rw [htext, hrest₁, hrest₂, text_append, hop]
    · rw [Ends]
      rcases hends with hquoted | hstop
      · exact .inr (.inr hquoted)
      · exact (end_or_blank hstop (no_operator (.inr rfl) hrest)).imp_right .inl
    · rw [htoks] at hlen
      simp only [List.length_cons] at hlen
      omega

theorem comparison_suffix (c : Comparison) (l j k : ℕ) (rest : List UInt8) :
    rest <:+ blanks l ++ (c.text j k ++ rest) :=
  ⟨blanks l ++ c.text j k, List.append_assoc _ _ _⟩

theorem continues_read (hnul : 0 ∉ text) (hplaced : Placed 3 (tokens false text))
    (hlen : (tokens false text).length % 4 = 0) : ∃ cs, Continues cs text := by
  induction hn : text.length using Nat.strong_induction_on generalizing text with
  | _ n ih =>
    match htoks : tokens false text with
    | [] =>
      obtain ⟨l, rfl⟩ := tokens_nil hnul htoks
      exact ⟨[], .done l⟩
    | word :: toks =>
      rw [htoks, placed_cons, placed_four (i := 0)] at hplaced
      obtain ⟨hword, hrest⟩ := hplaced
      obtain ⟨hall, hthree⟩ := isAnd_chars hword
      obtain ⟨l, behind, htext, hstop, rfl⟩ := word_read hall htoks
      rw [htoks, List.length_cons] at hlen
      have hnul' : 0 ∉ behind := fun hmem ↦ hnul (by rw [htext]; simp [hmem])
      have hsome : tokens false behind ≠ [] := by
        intro hnil
        rw [hnil] at hlen
        cases hlen
      obtain ⟨tail, rfl⟩ : ∃ tail, behind = 32 :: tail := by
        cases behind with
        | nil => exact absurd (by rw [tokens]; rfl) hsome
        | cons ch chs =>
          rcases end_or_blank hstop (no_operator (.inl rfl) hrest) with hzero | hblank
          · rw [peek_cons] at hzero
            exact absurd List.mem_cons_self (hzero ▸ hnul')
          · exact ⟨chs, by rw [← hblank, peek_cons]⟩
      rw [tokens_blank] at hsome hrest hlen
      obtain ⟨c, m, j, k, rest, hc, htail, hends, hplaced, hlen'⟩ :=
        comparison_read hsome hrest (by omega)
      have hsuffix : rest <:+ 32 :: tail :=
        (htail ▸ comparison_suffix c m j k rest).trans (List.suffix_cons 32 tail)
      have hshorter : rest.length < n := by
        have hle := hsuffix.length_le
        have hlength := congrArg List.length htext
        simp only [List.length_append, hthree] at hlength
        omega
      obtain ⟨cs, hcs⟩ := ih rest.length hshorter (fun hmem ↦ hnul' (hsuffix.subset hmem)) hplaced
        hlen' rfl
      refine ⟨c :: cs, ?_⟩
      rw [htext, htail]
      exact .and l m j k hword hc hends hcs

theorem placed_continues {cs : List Comparison} (h : Continues cs text) :
    Placed 3 (tokens false text) ∧ (tokens false text).length % 4 = 0 := by
  induction h with
  | done n =>
    rw [tokens_blanks]
    exact ⟨fun _ _ h ↦ (nomatch h), rfl⟩
  | and l m j k hword hc hends hrest ih =>
    obtain ⟨hall, hthree⟩ := isAnd_chars hword
    have hne := List.ne_nil_of_length_pos (by rw [hthree]; decide)
    rw [tokens_word hall hne (not_nameChar (.inl rfl)), tokens_blank, tokens_comparison hc hends]
    simp only [placed_cons, placed_four (i := 3), List.length_cons]
    exact ⟨⟨hword, hc.name, spelling_isSpelling _, hc.value, ih.1⟩, by omega⟩

/-- The clauses of the grammar are those without a flaw. -/
theorem conjunction_iff (hnul : 0 ∉ clause) : Conjunction clause ↔ ¬ Flaw clause := by
  have hflaw : ¬ Flaw clause ↔ Placed 0 (tokens false clause) ∧
      (tokens false clause ≠ [] → (tokens false clause).length % 4 = 3) := by
    constructor
    · intro h
      refine ⟨fun i token htoken ↦ ?_, fun hne ↦ by_contra fun hlen ↦ h (.cut hne hlen)⟩
      rw [Nat.zero_add]
      by_contra hbad
      exact h (.misplaced htoken (Bool.eq_false_of_not_eq_true hbad))
    · rintro ⟨hplaced, hlen⟩ (⟨htoken, hbad⟩ | ⟨hne, hcut⟩)
      · have hgood := hplaced _ _ htoken
        rw [Nat.zero_add, hbad] at hgood
        cases hgood
      · exact hcut (hlen hne)
  rw [hflaw]
  constructor
  · rintro ⟨cs, hcs⟩
    cases hcs with
    | blank n =>
      rw [tokens_blanks]
      exact ⟨fun _ _ h ↦ (nomatch h), fun h ↦ absurd rfl h⟩
    | clause l j k hc hends hrest =>
      obtain ⟨hplaced, hlen⟩ := placed_continues hrest
      rw [tokens_comparison hc hends]
      simp only [placed_cons, List.length_cons]
      exact ⟨⟨hc.name, spelling_isSpelling _, hc.value, hplaced⟩, fun _ ↦ by omega⟩
  · rintro ⟨hplaced, hlen⟩
    by_cases hne : tokens false clause = []
    · obtain ⟨n, rfl⟩ := tokens_nil hnul hne
      exact ⟨[], .blank n⟩
    · obtain ⟨c, l, j, k, rest, hc, htext, hends, hrest, hlen'⟩ :=
        comparison_read hne hplaced (hlen hne)
      have hsuffix : rest <:+ clause := htext ▸ comparison_suffix c l j k rest
      obtain ⟨cs, hcs⟩ := continues_read (fun hmem ↦ hnul (hsuffix.subset hmem)) hrest hlen'
      exact ⟨c :: cs, htext ▸ .clause l j k hc hends hcs⟩

end Clause

end FpgaDatabase.Firmware.Tokens
