import FpgaDatabase.Reference.ClientRequest

namespace FpgaDatabase.Reference.SqlMatches

open Client ClientRequest

section Selection

/-- What the dot of a regular expression does not take. -/
def isLineEnd (c : ℕ) : Bool := c = 10 || c = 13 || c = 0x2028 || c = 0x2029

/-- `\s+from\b`, matched at the start of a text. -/
def endsList (rest : Text) : Bool :=
  let word := rest.dropWhile isSpace
  (rest.head?.any isSpace) && toLowerCase (word.take 4) = text "from" &&
    !((word.drop 4).head?.any isWordChar)

/-- `.+?`, up to the first place where the list can end. -/
def lazyList : Text → Option Text
  | [] => none
  | c :: cs =>
    if isLineEnd c then none
    else if endsList cs then some [c]
    else (lazyList cs).map (c :: ·)

/-- The group of `\bselect\s+(.+?)\s+from\b`. White space behind the keyword is given
back from its end if no list begins there. -/
def matchSelect (inWord : Bool) : Text → Option Text
  | [] => none
  | c :: cs =>
    let rest := (c :: cs).drop 6
    let found :=
      if inWord = false ∧ toLowerCase ((c :: cs).take 6) = text "select" then
        (List.range (rest.takeWhile isSpace).length).reverse.findSome? (fun k ↦
          lazyList (rest.drop (k + 1)))
      else none
    found.or (matchSelect (isWordChar c) cs)

/-- `toLowerCase` of what the user has typed, as far as the result is ASCII: the Kelvin
sign has the letter k for its lower case. -/
def lowerTyped (s : Text) : Text := toLowerCase (s.map (fun c ↦ if c = 0x212A then 107 else c))

def extractSelectedColumns (sql : Text) (availableColumns : List Text) : List Text :=
  match matchSelect false sql with
  | none => availableColumns
  | some group =>
    let raw := trim group
    if raw = text "*" then availableColumns
    else
      let selected := ((raw.splitOn 44).map (fun item ↦ lowerTyped (trim item))).filter (· ≠ [])
      let filtered := selected.filter (availableColumns.map toLowerCase).contains
      if filtered ≠ [] then filtered else availableColumns

end Selection

section Passed

variable {keyword part rest word group : Text} {cls : ℕ → Bool} {c : ℕ}

/-- A text in which no word is the keyword, up to a character that is in no word. -/
inductive Passed (keyword : Text) : Text → Prop
  | nil : Passed keyword []
  | word {word rest : Text} {c : ℕ} (hword : ∀ d ∈ word, isWordChar d = true)
      (hne : toLowerCase word ≠ keyword) (hc : isWordChar c = false)
      (hrest : Passed keyword rest) : Passed keyword (word ++ c :: rest)

theorem Passed.append (h : Passed keyword part) (hrest : Passed keyword rest) :
    Passed keyword (part ++ rest) := by
  induction h with
  | nil => exact hrest
  | word hword hne hc _ ih =>
    rw [List.append_assoc, List.cons_append]
    exact .word hword hne hc ih

structure IsKeyword (keyword : Text) : Prop where
  nonempty : keyword ≠ []
  chars : ∀ d ∈ keyword, isWordChar d = true

theorem isWordChar_lower (c : ℕ) :
    isWordChar (if 65 ≤ c ∧ c ≤ 90 then c + 32 else c) = isWordChar c := by
  rw [Bool.eq_iff_iff]
  simp only [isWordChar, isDecimal, Bool.or_eq_true, Bool.and_eq_true, decide_eq_true_eq]
  split_ifs <;> omega

theorem wordChars_of_lower (h : ∀ d ∈ toLowerCase word, isWordChar d = true) :
    ∀ d ∈ word, isWordChar d = true := by
  intro d hd
  have hlower := h _ (List.mem_map_of_mem hd)
  rwa [isWordChar_lower] at hlower

theorem isWordChar_space (h : isWordChar c = true) : isSpace c = false := by
  have hrange := isWordChar_range h
  simp only [isSpace, Bool.or_eq_false_iff, Bool.and_eq_false_iff, decide_eq_false_iff_not]
  omega

/-- Inside a word no match begins. -/
theorem matchGroup_within (hword : ∀ d ∈ word, isWordChar d = true) (hc : isWordChar c = false) :
    matchGroup keyword cls true (word ++ c :: rest) = matchGroup keyword cls false rest := by
  induction word with
  | nil =>
    rw [List.nil_append, matchGroup]
    simp [hc]
  | cons d ds ih =>
    obtain ⟨hd, hds⟩ := List.forall_mem_cons.mp hword
    rw [List.cons_append, matchGroup]
    simp [hd, ih hds]

theorem take_keyword (hk : IsKeyword keyword)
    (hc : isWordChar c = false)
    (h : toLowerCase ((word ++ c :: rest).take keyword.length) = keyword) :
    keyword.length ≤ word.length := by
  by_contra hlong
  have hmem : c ∈ (word ++ c :: rest).take keyword.length := by
    rw [List.take_append]
    apply List.mem_append_right
    obtain ⟨n, hn⟩ := Nat.exists_eq_succ_of_ne_zero (show keyword.length - word.length ≠ 0 by omega)
    rw [hn, List.take_succ_cons]
    exact List.mem_cons_self
  have hchar := wordChars_of_lower (fun d hd ↦ hk.chars d (h ▸ hd)) c hmem
  rw [hc] at hchar
  cases hchar

theorem matchGroup_word (hk : IsKeyword keyword) (hword : ∀ d ∈ word, isWordChar d = true)
    (hne : toLowerCase word ≠ keyword) (hc : isWordChar c = false) :
    matchGroup keyword cls false (word ++ c :: rest) = matchGroup keyword cls false rest := by
  have hmiss : ¬ (toLowerCase ((word ++ c :: rest).take keyword.length) = keyword ∧
      (((word ++ c :: rest).drop keyword.length).head?.any isSpace) = true) := by
    rintro ⟨hfound, hspace⟩
    have hle := take_keyword hk hc hfound
    rw [List.take_append_of_le_length hle] at hfound
    rw [List.drop_append_of_le_length hle] at hspace
    cases hdrop : word.drop keyword.length with
    | nil =>
      rw [List.drop_eq_nil_iff] at hdrop
      rw [List.take_of_length_le hdrop] at hfound
      exact hne hfound
    | cons d ds =>
      have hd : d ∈ word := List.mem_of_mem_drop (hdrop ▸ List.mem_cons_self)
      rw [hdrop, List.cons_append, List.head?_cons, Option.any_some,
        isWordChar_space (hword d hd)] at hspace
      cases hspace
  cases word with
  | nil =>
    rw [List.nil_append] at hmiss ⊢
    rw [matchGroup, if_neg (fun h ↦ hmiss ⟨h.2.1, h.2.2.1⟩), hc]
  | cons d ds =>
    obtain ⟨hd, hds⟩ := List.forall_mem_cons.mp hword
    rw [List.cons_append] at hmiss ⊢
    rw [matchGroup, if_neg (fun h ↦ hmiss ⟨h.2.1, h.2.2.1⟩), hd]
    exact matchGroup_within hds hc

theorem matchGroup_passed (hk : IsKeyword keyword) (h : Passed keyword part) :
    matchGroup keyword cls false (part ++ rest) = matchGroup keyword cls false rest := by
  induction h with
  | nil => rfl
  | word hword hne hc _ ih =>
    rw [List.append_assoc, List.cons_append, matchGroup_word hk hword hne hc, ih]

theorem matchGroup_spaceless {inWord : Bool} (h : ∀ d ∈ part, isSpace d = false) :
    matchGroup keyword cls inWord part = none := by
  induction part generalizing inWord with
  | nil => rfl
  | cons d ds ih =>
    rw [matchGroup, if_neg, ih (fun e he ↦ h e (List.mem_cons_of_mem d he))]
    rintro ⟨-, -, hspace, -⟩
    obtain ⟨e, he, hspace⟩ := (Option.any_eq_true _ _).mp hspace
    rw [h e (List.mem_of_mem_drop (List.mem_of_mem_head? he))] at hspace
    cases hspace

/-- A text that would be passed over, were there one more character, has no match. -/
theorem matchGroup_end (hk : IsKeyword keyword) (h : Passed keyword (part ++ [c])) :
    matchGroup keyword cls false part = none := by
  generalize hwhole : part ++ [c] = whole at h
  induction h generalizing part with
  | nil => simp at hwhole
  | @word word rest d hword hne hd hrest ih =>
    rcases List.eq_nil_or_concat rest with rfl | ⟨front, e, rfl⟩
    · rw [List.append_singleton_inj] at hwhole
      rw [hwhole.1]
      exact matchGroup_spaceless (fun e he ↦ isWordChar_space (hword e he))
    · rw [List.concat_eq_append, ← List.cons_append, ← List.append_assoc,
        List.append_singleton_inj] at hwhole
      obtain ⟨rfl, rfl⟩ := hwhole
      rw [matchGroup_word hk hword hne hd]
      exact ih (by rw [List.concat_eq_append])

theorem matchGroup_hit (hk : IsKeyword keyword) (hword : toLowerCase word = keyword)
    (hne : group ≠ []) (hspace : ∀ d ∈ group.head?, isSpace d = false)
    (hgroup : ∀ d ∈ group, cls d = true) (hrest : ∀ d ∈ rest.head?, cls d = false) :
    matchGroup keyword cls false (word ++ 32 :: (group ++ rest)) = some group := by
  have hlen : word.length = keyword.length := by
    rw [← hword, toLowerCase, List.length_map]
  obtain ⟨g, gs, rfl⟩ := List.exists_cons_of_ne_nil hne
  have htake : (((g :: gs) ++ rest).dropWhile isSpace).takeWhile cls = g :: gs := by
    rw [List.cons_append, List.dropWhile_cons_of_neg (by simp [hspace g rfl]), ← List.cons_append,
      List.takeWhile_append_of_pos hgroup]
    have hstop : rest.takeWhile cls = [] := by
      cases rest with
      | nil => rfl
      | cons d ds => exact List.takeWhile_cons_of_neg (by simp [hrest d rfl])
    rw [hstop, List.append_nil]
  cases word with
  | nil => exact absurd (List.length_eq_zero_iff.mp hlen.symm) hk.nonempty
  | cons d ds =>
    have hfound : ((d :: ds) ++ 32 :: ((g :: gs) ++ rest)).take keyword.length = d :: ds :=
      List.take_left' hlen
    have hafter : ((d :: ds) ++ 32 :: ((g :: gs) ++ rest)).drop keyword.length =
        32 :: ((g :: gs) ++ rest) := List.drop_left' hlen
    have hblank : (32 :: ((g :: gs) ++ rest)).dropWhile isSpace =
        ((g :: gs) ++ rest).dropWhile isSpace := List.dropWhile_cons_of_pos rfl
    rw [List.cons_append] at hfound hafter ⊢
    rw [matchGroup]
    simp only [hfound, hafter, hblank, htake]
    rw [if_pos ⟨trivial, hword, rfl, hne⟩]

end Passed

section Lists

variable {list rest word frm : Text} {c : ℕ}

theorem lazyList_skip (hc : isLineEnd c = false) (h : endsList rest = false) :
    lazyList (c :: rest) = (lazyList rest).map (c :: ·) := by
  rw [lazyList, if_neg (by simp [hc]), if_neg (by simp [h])]

theorem endsList_from (hfrom : toLowerCase frm = text "from")
    (hrest : ∀ d ∈ rest.head?, isWordChar d = false) : endsList (32 :: (frm ++ rest)) = true := by
  have hlen : frm.length = 4 := by
    have hmap := congrArg List.length hfrom
    rwa [toLowerCase, List.length_map] at hmap
  have hfirst : (32 :: (frm ++ rest)).dropWhile isSpace = frm ++ rest := by
    cases frm with
    | nil => cases hlen
    | cons d ds =>
      have hchars : ∀ e ∈ toLowerCase (d :: ds), isWordChar e = true := by
        rw [hfrom]
        decide
      have hd : isSpace d = false :=
        isWordChar_space (wordChars_of_lower hchars d List.mem_cons_self)
      rw [List.dropWhile_cons_of_pos rfl, List.cons_append, List.dropWhile_cons_of_neg (by simp [hd])]
  have hend : rest.head?.any isWordChar = false := by
    cases rest with
    | nil => rfl
    | cons d ds => exact hrest d rfl
  simp only [endsList, hfirst, List.take_left' hlen, List.drop_left' hlen, hfrom, hend]
  rfl

theorem matchSelect_head (hword : toLowerCase word = text "select") (hne : list ≠ [])
    (hspace : ∀ d ∈ list.head?, isSpace d = false) (h : lazyList (list ++ rest) = some list) :
    matchSelect false (word ++ 32 :: (list ++ rest)) = some list := by
  have hlen : word.length = 6 := by
    have hmap := congrArg List.length hword
    rwa [toLowerCase, List.length_map] at hmap
  have hrun : (32 :: (list ++ rest)).takeWhile isSpace = [32] := by
    obtain ⟨d, ds, rfl⟩ := List.exists_cons_of_ne_nil hne
    rw [List.takeWhile_cons_of_pos rfl, List.cons_append,
      List.takeWhile_cons_of_neg (by simp [hspace d rfl])]
  cases word with
  | nil => cases hlen
  | cons d ds =>
    have hfound : ((d :: ds) ++ 32 :: (list ++ rest)).take 6 = d :: ds := List.take_left' hlen
    have hafter : ((d :: ds) ++ 32 :: (list ++ rest)).drop 6 = 32 :: (list ++ rest) :=
      List.drop_left' hlen
    rw [List.cons_append] at hfound hafter ⊢
    rw [matchSelect]
    simp only [hfound, hafter, hrun, hword, and_self, if_true]
    change Option.or ([0].findSome? (fun k ↦ lazyList ((32 :: (list ++ rest)).drop (k + 1)))) _ = _
    rw [List.findSome?_cons, List.drop_succ_cons, List.drop_zero, h]
    rfl

end Lists

end FpgaDatabase.Reference.SqlMatches
