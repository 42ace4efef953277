import FpgaDatabase.Reference.QueryText
import FpgaDatabase.Reference.SqlMatches

namespace FpgaDatabase.Reference.QueryRead

open Firmware.CString Firmware.Request Firmware.Clauses Library.Utf8 Agreement QueryText
open Client ClientRequest SqlMatches
open Firmware.Response (dec)

section Page

variable {columns : List UInt8} {q : Asked} {w : Spelling} {keyword other : String}
  {comma chs word xs : List UInt8} {cs : List Cond} {ch c : UInt8}

def small (keyword : String) : Text := latin ((ascii keyword).map tolower)

theorem latin_append (xs ys : List UInt8) : latin (xs ++ ys) = latin xs ++ latin ys := List.map_append

theorem latin_injective : Function.Injective latin :=
  List.map_injective_iff.mpr (fun _ _ h ↦ UInt8.toNat_inj.mp h)

theorem toLowerCase_latin (xs : List UInt8) : toLowerCase (latin xs) = latin (xs.map tolower) := by
  rw [toLowerCase, latin, latin, List.map_map, List.map_map]
  refine List.map_congr_left fun b _ ↦ ?_
  exact (toNat_tolower b).symm

theorem spells_iff : toLowerCase (latin word) = small keyword ↔ Spells word keyword := by
  rw [toLowerCase_latin, small, latin_injective.eq_iff]
  rfl

theorem isKeyword_small (hk : keyword ∈ sqlKeywords) : IsKeyword (small keyword) := by
  have hall : ∀ k ∈ sqlKeywords, small k ≠ [] ∧ (small k).all isWordChar = true := by decide
  exact ⟨(hall keyword hk).1, List.all_eq_true.mp (hall keyword hk).2⟩

theorem isWordChar_latin (h : isalnum ch = true ∨ ch = 95) : isWordChar ch.toNat = true := by
  rcases h with h | rfl
  · have hrange := alnum_range h
    simp only [isWordChar, isDecimal, Bool.or_eq_true, Bool.and_eq_true, decide_eq_true_eq]
    omega
  · rfl

theorem wordChars_latin (h : ∀ ch ∈ word, isalnum ch = true ∨ ch = 95) :
    ∀ d ∈ latin word, isWordChar d = true := by
  intro d hd
  obtain ⟨ch, hch, rfl⟩ := List.mem_map.mp hd
  exact isWordChar_latin (h ch hch)

theorem spells_chars (hk : keyword ∈ sqlKeywords) (h : Spells word keyword) :
    ∀ ch ∈ word, isalnum ch = true ∨ ch = 95 :=
  fun ch hch ↦ .inl (letter_alnum (spells_letters hk h ch hch))

theorem not_spells_short (hk : keyword ∈ sqlKeywords) (h : word.length < 4) : ¬ Spells word keyword := by
  have hall : ∀ keyword ∈ sqlKeywords, 4 ≤ (ascii keyword).length := by decide
  intro hspells
  have hlong := hall keyword hk
  rw [← hspells.length] at hlong
  omega

theorem not_spells_other (hword : Spells word other) (hk : keyword ∈ sqlKeywords)
    (hother : other ∈ sqlKeywords) (hne : keyword ≠ other) : ¬ Spells word keyword := by
  have hall : ∀ k ∈ sqlKeywords, ∀ o ∈ sqlKeywords, k ≠ o →
      (ascii o).map tolower ≠ (ascii k).map tolower := by
    decide
  intro hspells
  exact hall keyword hk other hother hne (hword.symm.trans hspells)

theorem passed_word (word : List UInt8) (hword : ∀ ch ∈ word, isalnum ch = true ∨ ch = 95)
    (hne : ¬ Spells word keyword) (hc : isWordChar c.toNat = false)
    (hrest : Passed (small keyword) (latin xs)) :
    Passed (small keyword) (latin (word ++ c :: xs)) := by
  rw [latin_append]
  exact .word (wordChars_latin hword) (fun h ↦ hne (spells_iff.mp h)) hc hrest

/-- Characters in no word are passed over, one by one. -/
theorem passed_between (hk : keyword ∈ sqlKeywords)
    (h : xs.any (fun ch ↦ isWordChar ch.toNat) = false) :
    Passed (small keyword) (latin xs) := by
  induction xs with
  | nil => exact .nil
  | cons c xs ih =>
    obtain ⟨hc, hxs⟩ := Bool.or_eq_false_iff.mp h
    exact passed_word [] (fun ch hch ↦ nomatch hch) (not_spells_short hk (by decide)) hc
      (ih hxs)

theorem passed_append {ys : List UInt8} (hxs : Passed (small keyword) (latin xs))
    (hys : Passed (small keyword) (latin ys)) : Passed (small keyword) (latin (xs ++ ys)) := by
  rw [latin_append]
  exact hxs.append hys

theorem passed_blank (hword : ∀ ch ∈ word, isalnum ch = true ∨ ch = 95)
    (hne : ¬ Spells word keyword) : Passed (small keyword) (latin (word ++ [32])) :=
  passed_word word hword hne rfl .nil

theorem passed_listText (hk : keyword ∈ sqlKeywords) (hcomma : comma = [44] ∨ comma = [44, 32])
    (h : ∀ ch ∈ chs, isalnum ch = true) :
    Passed (small keyword) (latin (listText comma chs ++ [32])) := by
  have hshort {ch : UInt8} : ¬ Spells [ch] keyword := not_spells_short hk (by decide : 1 < 4)
  induction chs with
  | nil =>
    exact passed_between hk rfl
  | cons ch chs ih =>
    obtain ⟨hch, hchs⟩ := List.forall_mem_cons.mp h
    have hfirst : ∀ d ∈ [ch], isalnum d = true ∨ d = 95 := by simp [hch]
    cases chs with
    | nil => exact passed_blank hfirst hshort
    | cons ch' chs =>
      have hrest := ih hchs
      rcases hcomma with rfl | rfl
      · exact passed_word [ch] hfirst hshort rfl hrest
      · have hblank : Passed (small keyword) (latin [32]) := passed_between hk rfl
        have hsecond := passed_append hblank hrest
        exact passed_word [ch] hfirst hshort (show isWordChar 44 = false from rfl) hsecond

theorem passed_cond (hk : keyword ∈ sqlKeywords) {d : Cond} (hcol : isalnum d.col = true)
    (hval : isalnum d.val = true) : Passed (small keyword) (latin (d.text ++ [32])) := by
  have hshort {ch : UInt8} : ¬ Spells [ch] keyword := not_spells_short hk (by decide : 1 < 4)
  have hop : (ascii d.op.spelling ++ [32]).any (fun ch ↦ isWordChar ch.toNat) = false := by
    cases d.op <;> rfl
  have htext : d.text ++ [32] =
      ([d.col] ++ [32]) ++ ((ascii d.op.spelling ++ [32]) ++ ([d.val] ++ [32])) := by
    simp [Cond.text]
  rw [htext]
  exact passed_append (passed_blank (by simp [hcol]) hshort)
    (passed_append (passed_between hk hop) (passed_blank (by simp [hval]) hshort))

theorem passed_clause (hk : keyword ∈ sqlKeywords) (d : Cond)
    (h : ∀ c ∈ d :: cs, isalnum c.col = true ∧ isalnum c.val = true) :
    Passed (small keyword) (latin (clause (d :: cs) ++ [32])) := by
  induction cs generalizing d with
  | nil =>
    obtain ⟨hcol, hval⟩ := h d List.mem_cons_self
    rw [clause, joined, List.flatMap_nil, List.append_nil]
    exact passed_cond hk hcol hval
  | cons e cs ih =>
    obtain ⟨⟨hcol, hval⟩, hrest⟩ := List.forall_mem_cons.mp h
    have htext : clause (d :: e :: cs) ++ [32] =
        (d.text ++ [32]) ++ ((ascii "AND" ++ [32]) ++ (clause (e :: cs) ++ [32])) := by
      simp [clause, joined, ascii]
    have halnum : ∀ ch ∈ ascii "AND", isalnum ch = true ∨ ch = 95 :=
      fun ch hch ↦ .inl (List.all_eq_true.mp (rfl : (ascii "AND").all isalnum = true) ch hch)
    have hand : Passed (small keyword) (latin (ascii "AND" ++ [32])) :=
      passed_blank halnum (not_spells_short hk (by decide))
    rw [htext]
    exact passed_append (passed_cond hk hcol hval) (passed_append hand (ih e hrest))

theorem isSpace_alnum (h : isalnum ch = true) : isSpace ch.toNat = false :=
  isWordChar_space (isWordChar_latin (.inl h))

/-- The scripts agree with the page about what is no white space. -/
theorem isSpace_wordChar {c : ℕ} (h : isWordChar c = true) : FpgaTest.isSpace c = false := by
  have hall : ∀ c < 128, isWordChar c = true → FpgaTest.isSpace c = false := by decide
  have hrange := isWordChar_range h
  exact hall c (by omega) h

theorem isLineEnd_alnum (h : isalnum ch = true) : isLineEnd ch.toNat = false := by
  have hrange := alnum_range h
  simp only [isLineEnd, Bool.or_eq_false_iff, decide_eq_false_iff_not]
  omega

theorem endsList_single {a b : ℕ} (rest : Text) (ha : isSpace a = false) (hb : b = 44 ∨ b = 32) :
    endsList (a :: b :: rest) = false ∧ endsList (32 :: a :: b :: rest) = false := by
  have hnot : toLowerCase ((a :: b :: rest).take 4) ≠ Client.text "from" := by
    intro h
    have hsecond := congrArg (·[1]?) h
    rcases hb with rfl | rfl
    · exact absurd (Option.some.inj hsecond) (by decide)
    · exact absurd (Option.some.inj hsecond) (by decide)
  have hdrop : (32 :: a :: b :: rest).dropWhile isSpace = a :: b :: rest := by
    rw [List.dropWhile_cons_of_pos rfl, List.dropWhile_cons_of_neg (by simp [ha])]
  constructor
  · simp [endsList, ha]
  · simp only [endsList, hdrop, hnot, decide_false, Bool.and_false, Bool.false_and]

theorem listText_single (hcomma : comma = [44] ∨ comma = [44, 32]) (ch : UInt8) (chs : List UInt8)
    (tail : Text) : ∃ b rest, latin (listText comma (ch :: chs)) ++ 32 :: tail =
      ch.toNat :: b :: rest ∧ (b = 44 ∨ b = 32) := by
  cases chs with
  | nil => exact ⟨32, tail, rfl, .inr rfl⟩
  | cons ch' chs =>
    rcases hcomma with rfl | rfl
    · exact ⟨44, _, rfl, .inl rfl⟩
    · exact ⟨44, _, rfl, .inl rfl⟩

/-- The page looks for the end of a list at its end only. -/
theorem lazyList_listText (hcomma : comma = [44] ∨ comma = [44, 32])
    (h : ∀ ch ∈ chs, isalnum ch = true) {frm rest : Text} (hfrom : toLowerCase frm = Client.text "from")
    (hrest : ∀ d ∈ rest.head?, isWordChar d = false) :
    lazyList (latin (listText comma chs) ++ 32 :: (frm ++ rest)) =
      some (latin (listText comma chs)) := by
  have hend := endsList_from hfrom hrest
  have hlast {c : ℕ} (hc : isLineEnd c = false) : lazyList (c :: 32 :: (frm ++ rest)) = some [c] := by
    rw [lazyList, if_neg (by simp [hc]), if_pos hend]
  induction chs with
  | nil => exact hlast rfl
  | cons ch chs ih =>
    obtain ⟨hch, hchs⟩ := List.forall_mem_cons.mp h
    cases chs with
    | nil => exact hlast (isLineEnd_alnum hch)
    | cons ch' chs =>
      have hrest' := ih hchs
      obtain ⟨b, tail, hlist, hb⟩ := listText_single hcomma ch' chs (frm ++ rest)
      obtain ⟨hstart, hblank⟩ := endsList_single tail
        (isSpace_alnum (hchs ch' List.mem_cons_self)) hb
      rw [← hlist] at hstart hblank
      have hcommaEnd (tail : Text) : endsList (44 :: tail) = false := rfl
      rcases hcomma with rfl | rfl
      · have htext : latin (listText [44] (ch :: ch' :: chs)) =
            ch.toNat :: 44 :: latin (listText [44] (ch' :: chs)) := rfl
        rw [htext, List.cons_append, List.cons_append, lazyList_skip (isLineEnd_alnum hch) (hcommaEnd _),
          lazyList_skip rfl hstart, hrest']
        rfl
      · have htext : latin (listText [44, 32] (ch :: ch' :: chs)) =
            ch.toNat :: 44 :: 32 :: latin (listText [44, 32] (ch' :: chs)) := rfl
        rw [htext, List.cons_append, List.cons_append, List.cons_append,
          lazyList_skip (isLineEnd_alnum hch) (hcommaEnd _), lazyList_skip rfl hblank,
          lazyList_skip rfl hstart, hrest']
        rfl

/-- The items of a list, as the page splits and trims them. -/
theorem split_listText (hcomma : comma = [44] ∨ comma = [44, 32])
    (h : ∀ ch ∈ chs, isalnum ch = true) (hne : chs ≠ []) (gap : Text) (hgap : gap = [] ∨ gap = [32]) :
    ((gap ++ latin (listText comma chs)).splitOn 44).map (fun item ↦ lowerTyped (trim item)) =
      chs.map (fun ch ↦ [(tolower ch).toNat]) := by
  have hitem {gap : Text} {ch : UInt8} (hgap : gap = [] ∨ gap = [32]) (hch : isalnum ch = true) :
      44 ∉ gap ++ [ch.toNat] ∧ lowerTyped (trim (gap ++ [ch.toNat])) = [(tolower ch).toNat] := by
    have hrange := alnum_range hch
    have htrim : trim (gap ++ [ch.toNat]) = [ch.toNat] := by
      have hspace := isSpace_alnum hch
      rcases hgap with rfl | rfl
      · simp [trim, hspace, List.rdropWhile]
      · have hblank : isSpace 32 = true := rfl
        simp [trim, hspace, hblank, List.rdropWhile]
    constructor
    · rcases hgap with rfl | rfl <;> simp <;> omega
    · rw [htrim, lowerTyped, toLowerCase, List.map_singleton, List.map_singleton, toNat_tolower,
        if_neg (show ch.toNat ≠ 0x212A by omega)]
  induction chs generalizing gap with
  | nil => exact absurd rfl hne
  | cons ch chs ih =>
    obtain ⟨hch, hchs⟩ := List.forall_mem_cons.mp h
    obtain ⟨hplain, hlower⟩ := hitem hgap hch
    cases chs with
    | nil =>
      have hlist : latin (listText comma [ch]) = [ch.toNat] := rfl
      rw [hlist, List.splitOn_eq_singleton hplain, List.map_singleton, hlower, List.map_singleton]
    | cons ch' chs =>
      rcases hcomma with rfl | rfl
      · have htext : gap ++ latin (listText [44] (ch :: ch' :: chs)) =
            (gap ++ [ch.toNat]) ++ 44 :: ([] ++ latin (listText [44] (ch' :: chs))) := by
          simp [latin, listText]
        rw [htext, List.splitOn_append_cons_self_of_not_mem hplain, List.map_cons, hlower,
          ih hchs (List.cons_ne_nil _ _) [] (.inl rfl)]
        rfl
      · have htext : gap ++ latin (listText [44, 32] (ch :: ch' :: chs)) =
            (gap ++ [ch.toNat]) ++ 44 :: ([32] ++ latin (listText [44, 32] (ch' :: chs))) := by
          simp [latin, listText]
        rw [htext, List.splitOn_append_cons_self_of_not_mem hplain, List.map_cons, hlower,
          ih hchs (List.cons_ne_nil _ _) [32] (.inr rfl)]
        rfl

theorem passed_front (hq : q.Valid columns) (hcols : Columns columns) (hw : w.Valid)
    (hk : keyword ∈ sqlKeywords) (hne : keyword ≠ "SELECT") :
    Passed (small keyword) (latin (w.select ++ [32] ++ (listText w.comma q.selected ++ [32]))) := by
  have hselect : "SELECT" ∈ sqlKeywords := by decide
  exact passed_append (passed_blank (spells_chars hselect hw.select)
    (not_spells_other hw.select hk hselect hne))
    (passed_listText hk hw.comma (hq.selected_alnum hcols))

theorem passed_body (hq : q.Valid columns) (hcols : Columns columns) (hw : w.Valid) :
    Passed (small "LIMIT") (latin (w.select ++ [32] ++ (listText w.comma q.selected ++ [32]) ++
      (w.frm ++ [32] ++ (q.table ++ whereText w.whr q.conditions ++ [32])))) := by
  have hlimit : "LIMIT" ∈ sqlKeywords := by decide
  have hfrom : "FROM" ∈ sqlKeywords := by decide
  have hwhere : "WHERE" ∈ sqlKeywords := by decide
  have htable : Passed (small "LIMIT") (latin (q.table ++ [32])) :=
    passed_blank (table_chars hq).2 (hq.table_word "LIMIT" hlimit)
  have hrest : Passed (small "LIMIT") (latin (q.table ++ whereText w.whr q.conditions ++ [32])) := by
    cases hconds : q.conditions with
    | nil =>
      rw [whereText, List.append_nil]
      exact htable
    | cons c cs =>
      have halnum := valid_alnum hcols hq.conditions
      rw [hconds] at halnum
      have htext : q.table ++ whereText w.whr (c :: cs) ++ [32] =
          (q.table ++ [32]) ++ ((w.whr ++ [32]) ++ (clause (c :: cs) ++ [32])) := by
        simp [whereText]
      rw [htext]
      exact passed_append htable (passed_append (passed_blank (spells_chars hwhere hw.whr)
        (not_spells_other hw.whr hlimit hwhere (by decide))) (passed_clause hlimit c halnum))
  exact passed_append (passed_front hq hcols hw hlimit (by decide))
    (passed_append (passed_blank (spells_chars hfrom hw.frm)
      (not_spells_other hw.frm hlimit hfrom (by decide))) hrest)

theorem match_table (hq : q.Valid columns) (hcols : Columns columns) (hw : w.Valid) :
    matchGroup (small "FROM") isWordChar false (latin (q.text w)) = some (latin q.table) := by
  have hfrom : "FROM" ∈ sqlKeywords := by decide
  obtain ⟨hne, hchars⟩ := table_chars hq
  have hne' : latin q.table ≠ [] := by simpa [latin] using hne
  have htext : latin (q.text w) = latin (w.select ++ [32] ++ (listText w.comma q.selected ++ [32])) ++
      (latin w.frm ++ 32 :: (latin q.table ++ latin (whereText w.whr q.conditions ++
        limitText w.limit q.limit))) := by
    simp [Asked.text, latin]
  have hstop : ∀ d ∈ (latin (whereText w.whr q.conditions ++ limitText w.limit q.limit)).head?,
      isWordChar d = false := by
    cases q.conditions with
    | nil =>
      cases q.limit with
      | none => simp [whereText, limitText, latin]
      | some n =>
        rintro d ⟨rfl⟩
        rfl
    | cons c cs =>
      rintro d ⟨rfl⟩
      rfl
  have hword := wordChars_latin hchars
  rw [htext, matchGroup_passed (isKeyword_small hfrom)
    (passed_front hq hcols hw hfrom (by decide)), matchGroup_hit (isKeyword_small hfrom)
      (spells_iff.mpr hw.frm) hne' (fun d hd ↦ isWordChar_space (hword d (List.mem_of_mem_head? hd)))
        hword hstop]

theorem page_table (hq : q.Valid columns) (hcols : Columns columns) (hw : w.Valid) :
    extractTable (latin (q.text w)) = latin q.table := by
  have hkey : Client.text "from" = small "FROM" := by decide
  rw [extractTable, hkey, match_table hq hcols hw]
  rfl

theorem decimal_numbers : ∀ n < 256, latin (dec n) ≠ [] ∧ (latin (dec n)).all isDecimal = true ∧
    toDouble ((latin (dec n)).foldl (fun n c ↦ 10 * n + (c - 48)) 0) = some n ∧
      numberText (some n) = latin (dec n) ∧ trimCopy 16 (dec n) = dec n ∧ strtoul (dec n) = n := by
  decide +kernel

theorem match_limit (hq : q.Valid columns) (hcols : Columns columns) (hw : w.Valid) :
    matchGroup (small "LIMIT") isDecimal false (latin (q.text w)) =
      q.limit.map (fun n ↦ latin (dec n)) := by
  have hk : "LIMIT" ∈ sqlKeywords := by decide
  have hpassed := passed_body hq hcols hw
  cases hlimit : q.limit with
  | none =>
    have htext : latin (q.text w) ++ [32] = latin (w.select ++ [32] ++
        (listText w.comma q.selected ++ [32]) ++ (w.frm ++ [32] ++
          (q.table ++ whereText w.whr q.conditions ++ [32]))) := by
      simp [Asked.text, limitText, hlimit, latin]
    rw [← htext] at hpassed
    exact matchGroup_end (isKeyword_small hk) hpassed
  | some n =>
    have hn : n < 256 := Nat.lt_succ_of_le (hq.limit n hlimit).2
    obtain ⟨hne, hdigits, -⟩ := decimal_numbers n hn
    have hclass := List.all_eq_true.mp hdigits
    have htext : latin (q.text w) = latin (w.select ++ [32] ++
        (listText w.comma q.selected ++ [32]) ++ (w.frm ++ [32] ++
          (q.table ++ whereText w.whr q.conditions ++ [32]))) ++
            (latin w.limit ++ 32 :: (latin (dec n) ++ [])) := by
      simp [Asked.text, limitText, hlimit, latin]
    have hspace : ∀ d ∈ (latin (dec n)).head?, isSpace d = false := by
      intro d hd
      apply isWordChar_space
      rw [isWordChar, hclass d (List.mem_of_mem_head? hd)]
      rfl
    have hend : ∀ d ∈ ([] : Text).head?, isDecimal d = false := by simp
    rw [htext, matchGroup_passed (isKeyword_small hk) hpassed, matchGroup_hit (isKeyword_small hk)
      (spells_iff.mpr hw.limit) hne hspace hclass hend]
    rfl

theorem page_limit (hq : q.Valid columns) (hcols : Columns columns) (hw : w.Valid) :
    extractLimit (latin (q.text w)) = some (q.limit.getD 0) := by
  have hkey : Client.text "limit" = small "LIMIT" := by decide
  rw [extractLimit, hkey, match_limit hq hcols hw]
  cases hlimit : q.limit with
  | none => rfl
  | some n =>
    have hn : n < 256 := Nat.lt_succ_of_le (hq.limit n hlimit).2
    exact (decimal_numbers n hn).2.2.1

theorem trimmed_of_ends {s : Text} {space : ℕ → Bool} (hfirst : ∀ c ∈ s.head?, space c = false)
    (hlast : ∀ c ∈ s.getLast?, space c = false) : (s.dropWhile space).rdropWhile space = s := by
  have hfront : s.dropWhile space = s := by
    cases s with
    | nil => rfl
    | cons c cs => exact List.dropWhile_cons_of_neg (by simp [hfirst c rfl])
  rw [hfront, List.rdropWhile_eq_self_iff]
  intro hne
  simp [hlast _ (List.getLast?_eq_some_getLast hne)]

theorem trim_plain {s : Text} (hfirst : ∀ c ∈ s.head?, isSpace c = false)
    (hlast : ∀ c ∈ s.getLast?, isSpace c = false) : trim s = s :=
  trimmed_of_ends hfirst hlast

theorem page_selected (hq : q.Valid columns) (hcols : Columns columns) (hw : w.Valid) :
    extractSelectedColumns (latin (q.text w)) (names columns) =
      if q.selected = [] then names columns
      else q.selected.map (fun ch ↦ [(tolower ch).toNat]) := by
  have hselected := hq.selected_alnum hcols
  have hkey : Client.text "select" = small "SELECT" := by decide
  have hfrom : toLowerCase (latin w.frm) = Client.text "from" := by
    have hsmall : Client.text "from" = small "FROM" := by decide
    rw [hsmall]
    exact spells_iff.mpr hw.frm
  have hrest : ∀ d ∈ (32 :: (latin q.table ++ latin (whereText w.whr q.conditions ++
      limitText w.limit q.limit))).head?, isWordChar d = false := by
    rintro d ⟨rfl⟩
    rfl
  obtain ⟨first, tail, hhead, hfirst⟩ := listText_first w.comma hselected
  obtain ⟨front, last, htail, hlast⟩ := listText_last w.comma hselected
  have hplain {ch : UInt8} (h : isalnum ch = true ∨ ch = 42) : isSpace ch.toNat = false := by
    rcases h with h | rfl
    · exact isSpace_alnum h
    · rfl
  have hmatch : matchSelect false (latin (q.text w)) = some (latin (listText w.comma q.selected)) := by
    have htext : latin (q.text w) = latin w.select ++ 32 :: (latin (listText w.comma q.selected) ++
        32 :: (latin w.frm ++ 32 :: (latin q.table ++ latin (whereText w.whr q.conditions ++
          limitText w.limit q.limit)))) := by
      simp [Asked.text, latin]
    rw [htext]
    refine matchSelect_head (hkey ▸ spells_iff.mpr hw.select) ?_ ?_
      (lazyList_listText hw.comma hselected hfrom hrest)
    · simp [hhead, latin]
    · rw [hhead]
      rintro d ⟨rfl⟩
      exact hplain hfirst
  have htrim : trim (latin (listText w.comma q.selected)) = latin (listText w.comma q.selected) := by
    apply trim_plain
    · rw [hhead]
      rintro d ⟨rfl⟩
      exact hplain hfirst
    · rw [htail, latin_append]
      simp only [latin, List.map_singleton, List.getLast?_concat]
      rintro d ⟨rfl⟩
      exact hplain hlast
  rw [extractSelectedColumns, hmatch]
  simp only [htrim]
  by_cases hnil : q.selected = []
  · rw [if_pos, if_pos hnil]
    rw [hnil]
    rfl
  · have hstar : latin (listText w.comma q.selected) ≠ Client.text "*" := by
      obtain ⟨ch, chs, hchs⟩ := List.exists_cons_of_ne_nil hnil
      have hlist : ∃ rest, listText w.comma q.selected = ch :: rest := by
        rw [hchs]
        cases chs with
        | nil => exact ⟨[], rfl⟩
        | cons ch' chs => exact ⟨_, rfl⟩
      obtain ⟨rest, hlist⟩ := hlist
      have halnum := hselected ch (hchs ▸ List.mem_cons_self)
      intro hstar
      rw [hlist] at hstar
      have hch : ch.toNat = 42 := (List.cons.inj hstar).1
      have hrange := alnum_range halnum
      omega
    have hsplit := split_listText hw.comma hselected hnil [] (.inl rfl)
    rw [List.nil_append] at hsplit
    rw [if_neg hstar, if_neg hnil, hsplit]
    have hitems : (q.selected.map (fun ch ↦ [(tolower ch).toNat])).filter (· ≠ []) =
        q.selected.map (fun ch ↦ [(tolower ch).toNat]) := by
      rw [List.filter_eq_self]
      intro item hitem
      obtain ⟨ch, -, rfl⟩ := List.mem_map.mp hitem
      simp
    have havailable : (q.selected.map (fun ch ↦ [(tolower ch).toNat])).filter
        ((names columns).map toLowerCase).contains = q.selected.map (fun ch ↦ [(tolower ch).toNat]) := by
      rw [List.filter_eq_self]
      intro item hitem
      obtain ⟨ch, hch, rfl⟩ := List.mem_map.mp hitem
      obtain ⟨column, hcolumn, hlower⟩ := hq.selected ch hch
      have hname : toLowerCase [column.toNat] = [(tolower ch).toNat] := by
        rw [← hlower]
        exact toLowerCase_latin [column]
      rw [List.contains_iff_mem, ← hname]
      exact List.mem_map_of_mem (List.mem_map_of_mem hcolumn)
    rw [hitems, havailable, if_pos (by simpa using hnil)]

end Page

section Request

variable {columns : List UInt8} {q : Asked} {w : Spelling} {sql : Text}

theorem encode_latin {bytes : List UInt8} (h : Visible bytes) : encode (latin bytes) = bytes := by
  rw [encode_ascii, latin, List.map_map]
  · conv_rhs => rw [← List.map_id bytes]
    exact List.map_congr_left fun b _ ↦ UInt8.ofNat_toNat
  · intro c hc
    obtain ⟨b, hb, rfl⟩ := List.mem_map.mp hc
    exact (h b hb).2

theorem visible_unbroken {text : List UInt8} (htext : Visible text) : ∀ ch ∈ text, ch ≠ 10 ∧ ch ≠ 0 := by
  intro ch hch
  have hrange := (htext ch hch).1
  constructor <;> rintro rfl <;> revert hrange <;> decide

theorem text_last (hcols : Columns columns) (hq : q.Valid columns) :
    ∃ front last, q.text w = front ++ [last] ∧ (isalnum last = true ∨ last = 95) := by
  have hback (xs ys : List UInt8)
      (h : ∃ front last, ys = front ++ [last] ∧ (isalnum last = true ∨ last = 95)) :
      ∃ front last, xs ++ ys = front ++ [last] ∧ (isalnum last = true ∨ last = 95) := by
    obtain ⟨front, last, rfl, hlast⟩ := h
    exact ⟨xs ++ front, last, (List.append_assoc _ _ _).symm, hlast⟩
  refine hback _ _ (hback _ _ (hback _ _ (hback _ _ (hback _ _ (hback _ _ ?_)))))
  cases hlimit : q.limit with
  | some n =>
    obtain ⟨hne, -⟩ := decimal_numbers n (Nat.lt_succ_of_le (hq.limit n hlimit).2)
    have hne' : dec n ≠ [] := by simpa [latin] using hne
    refine hback _ _ (hback _ _ (hback _ _ (hback _ _ (hback _ _ ?_))))
    refine ⟨(dec n).dropLast, (dec n).getLast hne', (List.dropLast_append_getLast hne').symm, .inl ?_⟩
    have hdigit := Firmware.Response.dec_digit (List.getLast_mem hne')
    simp [isalnum, isdigit, UInt8.le_iff_toNat_le, hdigit]
  | none =>
    rw [limitText, List.append_nil]
    obtain ⟨hne, hchars⟩ := table_chars hq
    cases hconds : q.conditions with
    | nil =>
      rw [whereText, List.append_nil]
      exact ⟨q.table.dropLast, q.table.getLast hne, (List.dropLast_append_getLast hne).symm,
        hchars _ (List.getLast_mem hne)⟩
    | cons c cs =>
      obtain ⟨front, last, htext, hlast⟩ := joined_last (c := c) cs
      obtain ⟨d, hd, rfl⟩ := List.mem_map.mp hlast
      have halnum := valid_alnum hcols hq.conditions d (hconds ▸ hd)
      exact hback _ _ (hback _ _ (hback _ _ (hback _ _ ⟨front, d.val, htext, .inl halnum.2⟩)))

theorem plain_word {ch : UInt8} (h : isalnum ch = true ∨ ch = 95) :
    isspace ch = false ∧ trailing ch = false := by
  rcases h with h | rfl
  · exact plain_char (.inl h)
  · decide

theorem text_trimmed (hcols : Columns columns) (hq : q.Valid columns) (hw : w.Valid)
    (hlen : (q.text w).length ≤ 255) : trimCopy sqlMaxLen (q.text w) = q.text w := by
  rw [trimCopy_plain, List.take_of_length_le (Nat.le_trans hlen (by decide))]
  · intro ch hch
    have hselect := spells_letters (by decide) hw.select
    obtain ⟨s, ss, hs⟩ : ∃ s ss, w.select = s :: ss := by
      apply List.exists_cons_of_ne_nil
      intro hnil
      have hlength := hw.select.length
      rw [hnil] at hlength
      exact absurd hlength (by decide)
    rw [hs] at hselect
    rw [Asked.text, hs, List.cons_append, List.head?_cons, Option.mem_some_iff] at hch
    rw [← hch]
    exact isspace_of_alnum (letter_alnum (hselect s List.mem_cons_self))
  · obtain ⟨front, last, htext, hlast⟩ := text_last (w := w) hcols hq
    rw [htext, List.getLast?_concat]
    rintro ch ⟨rfl⟩
    exact (plain_word hlast).2

theorem table_trimmed (hq : q.Valid columns) : trimCopy tableMaxLen q.table = q.table := by
  obtain ⟨hne, hchars⟩ := table_chars hq
  rw [trimCopy_plain, List.take_of_length_le (show q.table.length ≤ tableMaxLen - 1 from hq.table_length)]
  · exact fun ch hch ↦ (plain_word (hchars ch (List.mem_of_mem_head? hch))).1
  · exact fun ch hch ↦ (plain_word (hchars ch (List.mem_of_getLast? hch))).2

/-- The three lines of a query, and what the firmware makes of them. -/
theorem parse_lines (hcols : Columns columns) (hq : q.Valid columns) (hw : w.Valid)
    (hlen : (q.text w).length ≤ 255) {rest : List UInt8} (hrest : peek rest = 10 ∨ peek rest = 0) :
    parseRequestBody (ascii "TABLE=" ++ q.table ++ 10 :: (ascii "LIMIT=" ++ dec (q.limit.getD 0) ++
      10 :: (ascii "SQL=" ++ q.text w ++ rest))) = some (q.request w) := by
  obtain ⟨-, -, -, -, htrim, hvalue⟩ := decimal_numbers _ hq.limit_lt
  have htableChars := visible_unbroken (visible_table hq)
  have hlimitChars := visible_unbroken (visible_dec (q.limit.getD 0))
  have hkeyed {key : String} {value : List UInt8}
      (h : (ascii key).all (fun ch ↦ ch ≠ 10 && ch ≠ 0) = true)
      (hvalue : ∀ ch ∈ value, ch ≠ 10 ∧ ch ≠ 0) : ∀ ch ∈ ascii key ++ value, ch ≠ 10 ∧ ch ≠ 0 :=
    List.forall_mem_append.mpr ⟨line_chars h, hvalue⟩
  generalize hbody : ascii "TABLE=" ++ q.table ++ 10 :: (ascii "LIMIT=" ++ dec (q.limit.getD 0) ++
    10 :: (ascii "SQL=" ++ q.text w ++ rest)) = body
  have htable : extractLineValue body "TABLE=" tableMaxLen = some q.table := by
    rw [← hbody, extractLineValue, extractFrom_hit (by decide) (line_chars (by decide)) htableChars
      (.inl rfl), table_trimmed hq]
  have hsql : extractLineValue body "SQL=" sqlMaxLen = some (q.text w) := by
    rw [← hbody, extractLineValue, extractFrom_skip (hkeyed (by decide) htableChars) rfl,
      extractFrom_skip (hkeyed (by decide) hlimitChars) rfl, extractFrom_hit (by decide)
        (line_chars (by decide)) (visible_unbroken (visible_text hq hcols hw)) hrest,
      text_trimmed hcols hq hw hlen]
  have hlimit : parseLimit body = q.limit.getD 0 := by
    have hfound : extractLineValue body "LIMIT=" 16 = some (dec (q.limit.getD 0)) := by
      rw [← hbody, extractLineValue, extractFrom_skip (hkeyed (by decide) htableChars) rfl,
        extractFrom_hit (by decide) (line_chars (by decide)) hlimitChars (.inl rfl), htrim]
    rw [parseLimit, hfound]
    simp only [hvalue]
    split_ifs with hpos
    · rfl
    · exact (Nat.eq_zero_of_not_pos hpos).symm
  have hcap : capLimit (q.text w) (q.limit.getD 0) = q.limit.getD 0 := by
    have hlt := hq.limit_lt
    have hmax : queryMaxRows = 256 := rfl
    rw [capLimit, if_neg (fun h ↦ absurd h.1 (by omega))]
  simp only [parseRequestBody, htable, hsql, Option.bind_eq_bind, Option.bind_some, hq.table_chars,
    Bool.not_true, Bool.false_eq_true, if_false]
  rw [hlimit, hcap, text_fragments hq hcols hw hlen]
  rfl

/-- What the page sends, and what the firmware makes of it. -/
theorem query_sent (hcols : Columns columns) (hq : q.Valid columns) (hw : w.Valid)
    (hlen : (q.text w).length ≤ 255) (hsql : normalizeSql sql = latin (q.text w)) :
    ∃ payload, buildRequestBody sql = some payload ∧
      parseRequestBody (encode payload.body) = some (q.request w) ∧
      payload.sql = latin (q.text w) ∧ payload.table = latin q.table ∧
      payload.limit = some (q.limit.getD 0) := by
  have htable := page_table hq hcols hw
  have hlimit := page_limit hq hcols hw
  have hne : latin q.table ≠ [] := by simpa [latin] using (table_chars hq).1
  obtain ⟨payload, hbuilt⟩ : ∃ payload, buildRequestBody sql = some payload := by
    simp only [buildRequestBody, hsql, htable, if_neg hne]
    exact ⟨_, rfl⟩
  have hfields : payload.table = latin q.table ∧ payload.limit = some (q.limit.getD 0) ∧
      payload.sql = latin (q.text w) := by
    have hbuilt' := hbuilt
    simp only [buildRequestBody, hsql, htable, hlimit, if_neg hne, Option.some.injEq] at hbuilt'
    rw [← hbuilt']
    exact ⟨rfl, rfl, rfl⟩
  obtain ⟨htable', hlimit', hsql'⟩ := hfields
  obtain ⟨-, -, -, hbody⟩ := buildRequestBody_some hbuilt
  obtain ⟨-, -, -, htext, -⟩ := decimal_numbers _ hq.limit_lt
  rw [htable', hlimit', hsql', htext, encode_latin (visible_table hq), encode_latin (visible_dec _),
    encode_latin (visible_text hq hcols hw)] at hbody
  refine ⟨payload, hbuilt, ?_, hsql', htable', hlimit'⟩
  rw [hbody]
  exact parse_lines hcols hq hw hlen (.inl rfl)

/-- However a user types a query, the page sends it, and both read the same in it: the
table, the columns, the conditions and the limit. -/
theorem query_read (columns : List UInt8) (hcols : Columns columns) (q : Asked)
    (hq : q.Valid columns) (w : Spelling) (hw : w.Valid) (hlen : (q.text w).length ≤ 255)
    (sql : Text) (hsql : normalizeSql sql = latin (q.text w)) :
    ∃ payload, buildRequestBody sql = some payload ∧
      parseRequestBody (encode payload.body) = some (q.request w) ∧
      payload.sql = latin (q.text w) ∧ payload.table = latin q.table ∧
      payload.limit = some (q.limit.getD 0) ∧
      extractSelectedColumns payload.sql (names columns) =
        if q.selected = [] then names columns
        else q.selected.map (fun ch ↦ [(tolower ch).toNat]) := by
  obtain ⟨payload, hbuilt, hparse, hsql', htable, hlimit⟩ := query_sent hcols hq hw hlen hsql
  refine ⟨payload, hbuilt, hparse, hsql', htable, hlimit, ?_⟩
  rw [hsql']
  exact page_selected hq hcols hw

end Request

section Examples

/-- `B` of the rows of `alunos` with `A >= 5`, at most two. -/
def sampleAsked : Asked := ⟨[98], ascii "alunos", [⟨65, .ge, 53⟩], some 2⟩

def sampleSpelling : Spelling :=
  ⟨ascii "select", ascii "From", ascii "WHERE", ascii "limit", [44, 32]⟩

theorem sampleAsked_valid : sampleAsked.Valid sampleColumns := by
  refine ⟨?_, by decide, by decide, by decide, ?_, by decide, ?_⟩
  · intro ch hch
    rw [List.mem_singleton.mp hch]
    exact ⟨66, by decide, by decide⟩
  · intro c hc
    rw [List.mem_singleton.mp hc]
    exact ⟨by decide, by decide⟩
  · rintro n ⟨rfl⟩
    decide

theorem sampleSpelling_valid : sampleSpelling.Valid :=
  ⟨by decide, by decide, by decide, by decide, .inr rfl⟩

theorem columns_sample : Columns sampleColumns :=
  ⟨by decide, by decide, by decide +kernel, by decide +kernel⟩

theorem sample_read : ∃ payload,
    buildRequestBody (text " select b\n  From alunos\tWHERE A >= 5\n limit 2 ") = some payload ∧
      parseRequestBody (encode payload.body) = some (sampleAsked.request sampleSpelling) := by
  obtain ⟨payload, hbuilt, hparse, -⟩ := query_read sampleColumns columns_sample sampleAsked
    sampleAsked_valid sampleSpelling sampleSpelling_valid (by decide +kernel)
    (text " select b\n  From alunos\tWHERE A >= 5\n limit 2 ") (by decide +kernel)
  exact ⟨payload, hbuilt, hparse⟩

end Examples

end FpgaDatabase.Reference.QueryRead
