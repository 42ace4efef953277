import Mathlib.Data.List.Basic

namespace FpgaDatabase.Library.Words

variable {α : Type*} {sep : α → Bool} {text u t word after : List α} {c : α}

/-- A word between `before` and `after`: the longest run without a separator around its place. -/
def WordAt (sep : α → Bool) (before word after : List α) : Prop :=
  word ≠ [] ∧ (∀ ch ∈ word, sep ch = false) ∧ (∀ ch ∈ before.getLast?, sep ch = true) ∧
    ∀ ch ∈ after.head?, sep ch = true

def Word (sep : α → Bool) (text word after : List α) : Prop :=
  ∃ before, text = before ++ (word ++ after) ∧ WordAt sep before word after

theorem Word.ne_nil (h : Word sep text word after) : word ≠ [] := by
  obtain ⟨-, -, hne, -⟩ := h
  exact hne

theorem not_word_nil : ¬ Word sep [] word after := by
  rintro ⟨before, htext, hne, -⟩
  obtain ⟨-, hrest⟩ := List.append_eq_nil_iff.mp htext.symm
  exact hne (List.append_eq_nil_iff.mp hrest).1

/-- A run of characters without separators is as long as the text allows. -/
theorem run_unique (hword : ∀ ch ∈ word, sep ch = false) (hafter : ∀ ch ∈ after.head?, sep ch = true)
    (hu : ∀ ch ∈ u, sep ch = false) (ht : ∀ ch ∈ t.head?, sep ch = true)
    (h : word ++ after = u ++ t) : word = u ∧ after = t := by
  have hrun {xs ys : List α} (hxs : ∀ ch ∈ xs, sep ch = false) (hys : ∀ ch ∈ ys.head?, sep ch = true) :
      (xs ++ ys).takeWhile (!sep ·) = xs := by
    have hstop : ys.takeWhile (!sep ·) = [] := by
      cases ys with
      | nil => rfl
      | cons y ys => exact List.takeWhile_cons_of_neg (by simp [hys y rfl])
    rw [List.takeWhile_append_of_pos (by simpa using hxs), hstop, List.append_nil]
  have heq : word = u := by rw [← hrun hword hafter, h, hrun hu ht]
  exact ⟨heq, List.append_cancel_left (heq ▸ h)⟩

/-- A word behind a separator is a word of the whole text. -/
theorem word_behind (front : List α) (ht : ∀ ch ∈ t.head?, sep ch = true) (h : Word sep t word after) :
    Word sep (front ++ t) word after := by
  obtain ⟨before, rfl, hne, hword, hbefore, hafter⟩ := h
  refine ⟨front ++ before, by simp, hne, hword, fun ch hch ↦ ?_, hafter⟩
  cases before with
  | nil =>
    -- Nothing would separate the word from what is in front of it.
    obtain ⟨d, ds, rfl⟩ := List.exists_cons_of_ne_nil hne
    have hd := ht d rfl
    rw [hword d List.mem_cons_self] at hd
    cases hd
  | cons d before =>
    rw [List.getLast?_append_of_ne_nil _ (by simp)] at hch
    exact hbefore ch hch

theorem word_append (hu : ∀ ch ∈ u, sep ch = false) (ht : ∀ ch ∈ t.head?, sep ch = true)
    (h : Word sep (u ++ t) word after) : (word = u ∧ after = t) ∨ Word sep t word after := by
  obtain ⟨before, htext, hne, hword, hbefore, hafter⟩ := h
  cases before.eq_nil_or_concat with
  | inl hnil =>
    subst hnil
    exact .inl (run_unique hword hafter hu ht htext.symm)
  | inr hlast =>
    obtain ⟨front, d, rfl⟩ := hlast
    have hd : sep d = true := hbefore d (by simp)
    rcases List.append_eq_append_iff.mp htext with ⟨more, hmore, hrest⟩ | ⟨more, hmore, hrest⟩
    · refine .inr ⟨more, hrest, hne, hword, fun ch hch ↦ hbefore ch ?_, hafter⟩
      rw [hmore]
      exact List.mem_getLast?_append_of_mem_getLast? hch
    · have hmem : d ∈ u := by
        rw [hmore]
        simp
      rw [hu d hmem] at hd
      cases hd

theorem word_skip (hc : sep c = true) : Word sep (c :: t) word after ↔ Word sep t word after := by
  constructor
  · rintro ⟨before, htext, hne, hword, hbefore, hafter⟩
    cases before with
    | nil =>
      obtain ⟨d, ds, rfl⟩ := List.exists_cons_of_ne_nil hne
      cases htext
      rw [hword c List.mem_cons_self] at hc
      cases hc
    | cons d before =>
      cases htext
      refine ⟨before, rfl, hne, hword, fun ch hch ↦ hbefore ch ?_, hafter⟩
      exact show ch ∈ ([c] ++ before).getLast? from List.mem_getLast?_append_of_mem_getLast? hch
  · rintro ⟨before, rfl, hne, hword, hbefore, hafter⟩
    refine ⟨c :: before, rfl, hne, hword, fun ch hch ↦ ?_, hafter⟩
    cases before with
    | nil =>
      obtain rfl : c = ch := by simpa using hch
      exact hc
    | cons d before => exact hbefore ch (by simpa using hch)

theorem word_dropWhile {p : α → Bool} (hp : ∀ ch, p ch = true → sep ch = true) :
    Word sep (text.dropWhile p) word after ↔ Word sep text word after := by
  induction text with
  | nil => rfl
  | cons c cs ih =>
    by_cases hc : p c = true
    · rw [List.dropWhile_cons_of_pos hc, ih, word_skip (hp c hc)]
    · rw [List.dropWhile_cons_of_neg hc]

/-- A front of one character at most is a word of its own or separates. -/
theorem word_short (hu : u.length ≤ 1) (ht : ∀ ch ∈ t.head?, sep ch = true)
    (h : Word sep (u ++ t) word after) : word = u ∨ Word sep t word after := by
  match u, hu with
  | [], _ => exact .inr h
  | [c], _ =>
    by_cases hc : sep c = true
    · exact .inr ((word_skip hc).mp h)
    · have hrun : ∀ ch ∈ [c], sep ch = false := by simpa using hc
      exact (word_append hrun ht h).imp_left And.left

end FpgaDatabase.Library.Words
