import FpgaDatabase.Firmware.CString
import Mathlib.Data.List.GetD
import Mathlib.Data.Nat.Find

namespace FpgaDatabase.Firmware.Keywords

open CString

/-- The text begins with the keyword, in any case, and the keyword ends there. -/
def Begins (keyword text : List UInt8) : Prop :=
  ∃ word after, text = word ++ after ∧ word.map tolower = keyword.map tolower ∧
    ∀ ch ∈ after.head?, isSqlBoundary ch = true

/-- The keyword stands at position `p` of the text, between boundaries. The start and the
end of the text are boundaries as well. -/
def OccursAt (keyword text : List UInt8) (p : ℕ) : Prop :=
  p < text.length ∧ (∀ ch ∈ (text.take p).getLast?, isSqlBoundary ch = true) ∧
    Begins keyword (text.drop p)

def OccursFrom (first : UInt8) (keyword text : List UInt8) (p : ℕ) : Prop :=
  p < text.length ∧ isSqlBoundary ((text.take p).getLastD first) = true ∧
    Begins keyword (text.drop p)

section Search

variable {first c : UInt8} {keyword text tail rest : List UInt8} {p : ℕ}

theorem occursAt_iff : OccursAt keyword text p ↔ OccursFrom 32 keyword text p := by
  refine and_congr_right fun _ ↦ and_congr_left fun _ ↦ ?_
  cases (text.take p).eq_nil_or_concat with
  | inl h =>
    rw [h]
    exact iff_of_true (fun ch hch ↦ nomatch hch) rfl
  | inr h =>
    obtain ⟨before, ch, h⟩ := h
    simp [h]

theorem occursFrom_zero (text : List UInt8) : OccursFrom first keyword (c :: text) 0 ↔
    isSqlBoundary first = true ∧ Begins keyword (c :: text) :=
  and_iff_right (Nat.succ_pos _)

theorem occursFrom_succ (text : List UInt8) :
    OccursFrom first keyword (c :: text) (p + 1) ↔ OccursFrom c keyword text p := by
  rw [OccursFrom, OccursFrom, List.take_succ_cons, List.getLastD_cons, List.drop_succ_cons,
    List.length_cons, Nat.add_lt_add_iff_right]

theorem begins_iff_peek : Begins keyword text ↔ ∃ word after, text = word ++ after ∧
    word.map tolower = keyword.map tolower ∧ isSqlBoundary (peek after) = true := by
  have hhead (after : List UInt8) :
      (∀ ch ∈ after.head?, isSqlBoundary ch = true) ↔ isSqlBoundary (peek after) = true := by
    cases after with
    | nil => exact iff_of_true (fun ch hch ↦ nomatch hch) rfl
    | cons ch chs => simp
  simp only [Begins, hhead]

theorem isSqlBoundary_letter (h : isalpha c = true) : isSqlBoundary c = false := by
  have hne (k : UInt8) (hk : k.toNat < 48) : c ≠ k := letter_ne h hk
  simp [isSqlBoundary, isspace_of_alnum (letter_alnum h), hne 0 (by decide), hne 44 (by decide),
    hne 40 (by decide), hne 41 (by decide)]

theorem tolower_boundary_ne (hb : isSqlBoundary first = true) (hc : isalpha c = true) :
    tolower first ≠ tolower c := by
  intro h
  rcases letters_of_tolower h with rfl | ⟨hletter, -⟩
  · rw [isSqlBoundary_letter hc] at hb
    cases hb
  · rw [isSqlBoundary_letter hletter] at hb
    cases hb

/-- The comparison reads no byte behind a boundary that could make it succeed. -/
theorem compare_iff (hk : keyword.all isalpha = true) (hnul : 0 ∉ text)
    (ht : isSqlBoundary (peek tail) = true) : asciiStrncasecmpLocal (text ++ tail) keyword keyword.length = 0 ↔
      ∃ word after, text = word ++ after ∧ word.map tolower = keyword.map tolower := by
  induction keyword generalizing text with
  | nil => exact iff_of_true rfl ⟨[], text, rfl, rfl⟩
  | cons k ks ih =>
    rw [List.all_cons, Bool.and_eq_true] at hk
    rw [List.length_cons, asciiStrncasecmpLocal_succ]
    cases text with
    | nil =>
      refine iff_of_false ?_ ?_
      · rintro ⟨hfirst, -⟩
        exact tolower_boundary_ne ht hk.1 hfirst
      · rintro ⟨word, after, htext, hword⟩
        rw [(List.append_eq_nil_iff.mp htext.symm).1] at hword
        cases hword
    | cons c cs =>
      rw [List.mem_cons, not_or] at hnul
      rw [List.cons_append, peek_cons, peek_cons, List.tail_cons, List.tail_cons, ih hk.2 hnul.2]
      constructor
      · rintro ⟨hfirst, word, after, rfl, hword⟩
        exact ⟨c :: word, after, rfl, by rw [List.map_cons, List.map_cons, hfirst, hword]⟩
      · rintro ⟨word, after, htext, hword⟩
        cases word with
        | nil => cases hword
        | cons d ds =>
          cases htext
          obtain ⟨hfirst, hrest⟩ := List.cons.inj hword
          exact ⟨hfirst, ds, after, rfl, hrest⟩

/-- The byte behind the keyword is looked at only if the keyword is there. -/
theorem match_iff (hk : keyword.all isalpha = true) (hnul : 0 ∉ text)
    (ht : isSqlBoundary (peek tail) = true) :
    (asciiStrncasecmpLocal (text ++ tail) keyword keyword.length = 0 ∧
      isSqlBoundary ((text ++ tail).getD keyword.length 0) = true) ↔ Begins keyword text := by
  rw [compare_iff hk hnul ht, begins_iff_peek]
  have hafter {word after : List UInt8} (htext : text = word ++ after)
      (hword : word.map tolower = keyword.map tolower) :
      isSqlBoundary ((text ++ tail).getD keyword.length 0) = isSqlBoundary (peek after) := by
    have hlen : word.length = keyword.length := by simpa using congrArg List.length hword
    rw [htext, List.append_assoc, ← hlen, List.getD_append_right _ _ _ _ le_rfl, Nat.sub_self]
    cases after with
    | nil =>
      rw [List.nil_append, ← List.headD_eq_getD]
      exact ht
    | cons ch chs => rfl
  constructor
  · rintro ⟨⟨word, after, htext, hword⟩, hend⟩
    exact ⟨word, after, htext, hword, by rwa [hafter htext hword] at hend⟩
  · rintro ⟨word, after, htext, hword, hend⟩
    exact ⟨⟨word, after, htext, hword⟩, by rwa [hafter htext hword]⟩

theorem findKeywordFrom_hit (hk : keyword.all isalpha = true) (hnul : 0 ∉ c :: text)
    (ht : isSqlBoundary (peek tail) = true) (h : OccursFrom first keyword (c :: text) 0) :
    findKeywordFrom keyword first (c :: text ++ tail) = some 0 := by
  have hc : c ≠ 0 := fun h ↦ hnul (h ▸ List.mem_cons_self)
  rw [occursFrom_zero, ← match_iff hk hnul ht, List.cons_append] at h
  rw [List.cons_append, findKeywordFrom, if_neg hc, if_pos h]

theorem findKeywordFrom_skip (hk : keyword.all isalpha = true) (hnul : 0 ∉ c :: text)
    (ht : isSqlBoundary (peek tail) = true) (h : ¬ OccursFrom first keyword (c :: text) 0) :
    findKeywordFrom keyword first (c :: text ++ tail) =
      (findKeywordFrom keyword c (text ++ tail)).map (· + 1) := by
  have hc : c ≠ 0 := fun h ↦ hnul (h ▸ List.mem_cons_self)
  rw [occursFrom_zero, ← match_iff hk hnul ht, List.cons_append] at h
  rw [List.cons_append, findKeywordFrom, if_neg hc, if_neg h]

/-- The search finds the least position. -/
theorem findKeywordFrom_some (hk : keyword.all isalpha = true) (hnul : 0 ∉ text)
    (ht : peek tail = 0) : findKeywordFrom keyword first (text ++ tail) = some p ↔
      OccursFrom first keyword text p ∧ ∀ q < p, ¬ OccursFrom first keyword text q := by
  have hb : isSqlBoundary (peek tail) = true := by
    rw [ht]
    rfl
  induction text generalizing first p with
  | nil =>
    refine iff_of_false ?_ fun h ↦ Nat.not_lt_zero _ h.1.1
    cases tail with
    | nil => exact fun h ↦ nomatch h
    | cons ch chs =>
      have hch : ch = 0 := ht
      simp [findKeywordFrom, hch]
  | cons c cs ih =>
    by_cases h₀ : OccursFrom first keyword (c :: cs) 0
    · rw [findKeywordFrom_hit hk hnul hb h₀]
      constructor
      · rintro ⟨⟩
        exact ⟨h₀, fun q hq ↦ absurd hq (Nat.not_lt_zero q)⟩
      · rintro ⟨-, hleast⟩
        rcases Nat.eq_zero_or_pos p with rfl | hp
        · rfl
        · exact absurd h₀ (hleast 0 hp)
    · rw [findKeywordFrom_skip hk hnul hb h₀]
      have hrest (q : ℕ) : findKeywordFrom keyword c (cs ++ tail) = some q ↔
          OccursFrom c keyword cs q ∧ ∀ r < q, ¬ OccursFrom c keyword cs r :=
        ih fun h ↦ hnul (List.mem_cons_of_mem c h)
      cases p with
      | zero => simp [h₀]
      | succ p =>
        rw [Option.map_eq_some_iff]
        constructor
        · rintro ⟨q, hq, hqp⟩
          obtain rfl : q = p := Nat.succ_inj.mp hqp
          obtain ⟨hocc, hleast⟩ := (hrest q).mp hq
          refine ⟨occursFrom_succ cs |>.mpr hocc, fun q' hq' ↦ ?_⟩
          cases q' with
          | zero => exact h₀
          | succ q' => exact fun h ↦ hleast q' (Nat.lt_of_succ_lt_succ hq') (occursFrom_succ cs |>.mp h)
        · rintro ⟨hocc, hleast⟩
          refine ⟨p, (hrest p).mpr ⟨occursFrom_succ cs |>.mp hocc, fun q hq h ↦ ?_⟩, rfl⟩
          exact hleast (q + 1) (Nat.succ_lt_succ hq) (occursFrom_succ cs |>.mpr h)

theorem findKeywordFrom_none (hk : keyword.all isalpha = true) (hnul : 0 ∉ text)
    (ht : peek tail = 0) : findKeywordFrom keyword first (text ++ tail) = none ↔
      ∀ p, ¬ OccursFrom first keyword text p := by
  constructor
  · intro hnone p hocc
    classical
    -- If the keyword occurs at all there is a least position, and the search finds it.
    have hex : ∃ p, OccursFrom first keyword text p := ⟨p, hocc⟩
    have hfound := (findKeywordFrom_some hk hnul ht).mpr
      ⟨Nat.find_spec hex, fun q hq ↦ Nat.find_min hex hq⟩
    rw [hnone] at hfound
    cases hfound
  · intro hnever
    cases hsearch : findKeywordFrom keyword first (text ++ tail) with
    | none => rfl
    | some p => exact absurd ((findKeywordFrom_some hk hnul ht).mp hsearch).1 (hnever p)

/-- No keyword reaches over a boundary. -/
theorem findKeywordFrom_append (hk : keyword.all isalpha = true) (hne : keyword ≠ [])
    (hnul : 0 ∉ text) (hc : c ≠ 0) (hb : isSqlBoundary c = true) :
    findKeywordFrom keyword first (text ++ c :: rest) = (findKeywordFrom keyword first text).or
      ((findKeywordFrom keyword c rest).map (· + (text.length + 1))) := by
  induction text generalizing first with
  | nil =>
    obtain ⟨k, ks, rfl⟩ := List.exists_cons_of_ne_nil hne
    rw [List.all_cons, Bool.and_eq_true] at hk
    have hcmp : ¬ asciiStrncasecmpLocal (c :: rest) (k :: ks) (k :: ks).length = 0 := by
      rw [List.length_cons, asciiStrncasecmpLocal_succ]
      exact fun h ↦ tolower_boundary_ne hb hk.1 h.1
    have hnil : findKeywordFrom (k :: ks) first [] = none := rfl
    rw [hnil, Option.none_or, List.nil_append, findKeywordFrom, if_neg hc,
      if_neg fun h ↦ hcmp h.2.1]
    rfl
  | cons x xs ih =>
    have hxs : 0 ∉ xs := fun h ↦ hnul (List.mem_cons_of_mem x h)
    have hend : isSqlBoundary (peek []) = true := rfl
    by_cases h₀ : OccursFrom first keyword (x :: xs) 0
    · have hhit := findKeywordFrom_hit hk hnul hend h₀
      rw [List.append_nil] at hhit
      have hb' : isSqlBoundary (peek (c :: rest)) = true := hb
      rw [findKeywordFrom_hit hk hnul hb' h₀, hhit, Option.some_or]
    · have hskip := findKeywordFrom_skip hk hnul hend h₀
      rw [List.append_nil, List.append_nil] at hskip
      have hb' : isSqlBoundary (peek (c :: rest)) = true := hb
      rw [findKeywordFrom_skip hk hnul hb' h₀, hskip, ih hxs]
      cases findKeywordFrom keyword x xs with
      | some p => rfl
      | none =>
        rw [Option.none_or, Option.map_none, Option.none_or, Option.map_map]
        rfl

theorem findKeywordFrom_first {other : UInt8} (h : isSqlBoundary first = isSqlBoundary other)
    (text : List UInt8) :
    findKeywordFrom keyword first text = findKeywordFrom keyword other text := by
  cases text with
  | nil => rfl
  | cons ch chs => rw [findKeywordFrom, findKeywordFrom, h]

end Search

def isGap (gap : List UInt8) : Bool := gap.all (fun ch ↦ ch = 32 || ch = 9)

section Gaps

variable {keyword part gap rest : List UInt8} {first : UInt8}

theorem gap_boundary {ch : UInt8} (h : (ch = 32 || ch = 9) = true) :
    ch ≠ 0 ∧ isSqlBoundary ch = true ∧ isspace ch = true ∧ trailing ch = true := by
  rw [Bool.or_eq_true, decide_eq_true_eq, decide_eq_true_eq] at h
  rcases h with rfl | rfl <;> decide

theorem findKeywordFrom_gap (hk : keyword.all isalpha = true) (hne : keyword ≠ [])
    (hgap : isGap gap = true) (hfirst : isSqlBoundary first = true) :
    findKeywordFrom keyword first (gap ++ rest) =
      (findKeywordFrom keyword 32 rest).map (· + gap.length) := by
  induction gap generalizing first with
  | nil =>
    rw [List.nil_append, findKeywordFrom_first (show isSqlBoundary first = isSqlBoundary 32 from hfirst)]
    simp
  | cons c cs ih =>
    rw [isGap, List.all_cons, Bool.and_eq_true] at hgap
    obtain ⟨hc, hb, -⟩ := gap_boundary hgap.1
    have happend : findKeywordFrom keyword first ([] ++ c :: (cs ++ rest)) = _ :=
      findKeywordFrom_append hk hne List.not_mem_nil hc hb
    rw [List.nil_append, ih hgap.2 hb, Option.map_map] at happend
    rw [List.cons_append, happend]
    rfl

/-- The search goes through a text part by part. -/
theorem findKeywordFrom_part (hk : keyword.all isalpha = true) (hne : keyword ≠ [])
    (hnul : 0 ∉ part) (hgap : isGap gap = true) (hlen : gap ≠ []) :
    findKeywordFrom keyword first (part ++ (gap ++ rest)) = (findKeywordFrom keyword first part).or
      ((findKeywordFrom keyword 32 rest).map (· + (part.length + gap.length))) := by
  obtain ⟨c, cs, rfl⟩ := List.exists_cons_of_ne_nil hlen
  rw [isGap, List.all_cons, Bool.and_eq_true] at hgap
  obtain ⟨hc, hb, -⟩ := gap_boundary hgap.1
  rw [List.cons_append, findKeywordFrom_append hk hne hnul hc hb,
    findKeywordFrom_gap hk hne hgap.2 hb, Option.map_map]
  congr 2
  funext n
  simp only [Function.comp_apply, List.length_cons]
  omega

theorem findKeywordFrom_end (hk : keyword.all isalpha = true) (hne : keyword ≠ [])
    (hnul : 0 ∉ part) (hgap : isGap gap = true) :
    findKeywordFrom keyword first (part ++ gap) = findKeywordFrom keyword first part := by
  by_cases hlen : gap = []
  · rw [hlen, List.append_nil]
  · have hpart : findKeywordFrom keyword first (part ++ (gap ++ [])) = _ :=
      findKeywordFrom_part hk hne hnul hgap hlen
    rw [List.append_nil] at hpart
    rw [hpart, findKeywordFrom, Option.map_none, Option.or_none]

end Gaps

section Case

variable {lhs lhs' : List UInt8}

theorem peek_case (h : lhs.map tolower = lhs'.map tolower) :
    tolower (peek lhs) = tolower (peek lhs') := by
  have hpeek (text : List UInt8) : tolower (peek text) = peek (text.map tolower) := by
    cases text <;> rfl
  rw [hpeek, hpeek, h]

/-- Neither the comparison nor the search depends on the case of a text. -/
theorem compare_case (h : lhs.map tolower = lhs'.map tolower) (rhs : List UInt8) (count : ℕ) :
    asciiStrncasecmpLocal lhs rhs count = asciiStrncasecmpLocal lhs' rhs count := by
  induction count generalizing lhs lhs' rhs with
  | zero => rfl
  | succ count ih =>
    have htail : lhs.tail.map tolower = lhs'.tail.map tolower := by
      rw [List.map_tail, List.map_tail, h]
    rw [asciiStrncasecmpLocal, asciiStrncasecmpLocal, peek_case h, ih htail]

theorem boundary_case {a b : UInt8} (h : tolower a = tolower b) :
    isSqlBoundary a = isSqlBoundary b := by
  rcases letters_of_tolower h with rfl | ⟨ha, hb⟩
  · rfl
  · rw [isSqlBoundary_letter ha, isSqlBoundary_letter hb]

theorem findKeywordFrom_case (h : lhs.map tolower = lhs'.map tolower) (keyword : List UInt8)
    {first other : UInt8} (hfirst : tolower first = tolower other) :
    findKeywordFrom keyword first lhs = findKeywordFrom keyword other lhs' := by
  induction lhs generalizing lhs' first other with
  | nil =>
    rw [List.map_eq_nil_iff.mp h.symm]
    rfl
  | cons c cs ih =>
    obtain ⟨d, ds, rfl, hc, hcs⟩ := List.map_eq_cons_iff.mp h.symm
    have hzero : c = 0 ↔ d = 0 := by
      rcases letters_of_tolower hc with rfl | ⟨hd, hc'⟩
      · rfl
      · refine iff_of_false ?_ ?_ <;> rintro rfl
        · exact absurd hc' (by decide)
        · exact absurd hd (by decide)
    have hafter : isSqlBoundary ((c :: cs).getD keyword.length 0) =
        isSqlBoundary ((d :: ds).getD keyword.length 0) := by
      apply boundary_case
      have hget (text : List UInt8) (n : ℕ) :
          tolower (text.getD n 0) = (text.map tolower).getD n 0 := (List.getD_map ..).symm
      rw [hget, hget, h]
    rw [findKeywordFrom, findKeywordFrom, compare_case h, boundary_case hfirst, hafter,
      ih hcs.symm hc.symm]
    simp only [hzero]

end Case

section Keyword

variable {keyword : String} {text tail : List UInt8}

theorem findSqlKeyword_some (hk : (ascii keyword).all isalpha = true) (hnul : 0 ∉ text)
    (ht : peek tail = 0) {p : ℕ} : findSqlKeyword (text ++ tail) keyword = some p ↔
      OccursAt (ascii keyword) text p ∧ ∀ q < p, ¬ OccursAt (ascii keyword) text q := by
  simp only [occursAt_iff]
  exact findKeywordFrom_some hk hnul ht

theorem findSqlKeyword_none (hk : (ascii keyword).all isalpha = true) (hnul : 0 ∉ text)
    (ht : peek tail = 0) : findSqlKeyword (text ++ tail) keyword = none ↔
      ∀ p, ¬ OccursAt (ascii keyword) text p := by
  simp only [occursAt_iff]
  exact findKeywordFrom_none hk hnul ht

end Keyword

/-- The search returns the first place at which the keyword stands on its own, whatever
lies behind the terminator. -/
theorem keyword_search (keyword : String) (hk : (ascii keyword).all isalpha = true)
    (text : List UInt8) (hnul : 0 ∉ text) (behind : List UInt8) :
    (∀ p, findSqlKeyword (text ++ 0 :: behind) keyword = some p ↔
      OccursAt (ascii keyword) text p ∧ ∀ q < p, ¬ OccursAt (ascii keyword) text q) ∧
    (findSqlKeyword (text ++ 0 :: behind) keyword = none ↔
      ∀ p, ¬ OccursAt (ascii keyword) text p) ∧
    ∀ other, findSqlKeyword (text ++ 0 :: other) keyword =
      findSqlKeyword (text ++ 0 :: behind) keyword := by
  refine ⟨fun p ↦ findSqlKeyword_some hk hnul rfl, findSqlKeyword_none hk hnul rfl, fun other ↦ ?_⟩
  apply Option.ext
  intro p
  rw [findSqlKeyword_some hk hnul rfl, findSqlKeyword_some hk hnul rfl]

/-- The word behind a comma counts, the beginning of a longer word does not. -/
theorem from_found : OccursAt (ascii "FROM") (ascii "SELECT FROMA,from T") 13 :=
  (((keyword_search "FROM" (by decide) (ascii "SELECT FROMA,from T") (by decide)
    (ascii "FROM")).1 13).mp (by decide)).1

end FpgaDatabase.Firmware.Keywords
