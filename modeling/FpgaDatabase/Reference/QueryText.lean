import FpgaDatabase.Firmware.Clauses
import FpgaDatabase.Firmware.Response
import FpgaDatabase.Firmware.UnknownColumns
import FpgaDatabase.Reference.Agreement

namespace FpgaDatabase.Reference.QueryText

open Firmware.CString Firmware.Request Firmware.Table Firmware.Keywords Firmware.Clauses
open Firmware.Compile Firmware.UnknownColumns Agreement
open Firmware.Response (dec)

section Texts

/-- A query on one table. An empty list of columns stands for all of them. -/
structure Asked where
  selected : List UInt8
  table : List UInt8
  conditions : List Cond
  limit : Option ℕ

/-- How a user writes the keywords and what stands between two columns. -/
structure Spelling where
  select : List UInt8
  frm : List UInt8
  whr : List UInt8
  limit : List UInt8
  comma : List UInt8

structure Spelling.Valid (w : Spelling) : Prop where
  select : Spells w.select "SELECT"
  frm : Spells w.frm "FROM"
  whr : Spells w.whr "WHERE"
  limit : Spells w.limit "LIMIT"
  comma : w.comma = [44] ∨ w.comma = [44, 32]

def listText (comma : List UInt8) : List UInt8 → List UInt8
  | [] => ascii "*"
  | [ch] => [ch]
  | ch :: chs => ch :: (comma ++ listText comma chs)

def whereText (whr : List UInt8) : List Cond → List UInt8
  | [] => []
  | c :: cs => [32] ++ (whr ++ ([32] ++ clause (c :: cs)))

def limitText (word : List UInt8) : Option ℕ → List UInt8
  | none => []
  | some n => [32] ++ (word ++ ([32] ++ dec n))

def Asked.text (q : Asked) (w : Spelling) : List UInt8 :=
  w.select ++ ([32] ++ (listText w.comma q.selected ++ ([32] ++ (w.frm ++ ([32] ++
    (q.table ++ (whereText w.whr q.conditions ++ limitText w.limit q.limit)))))))

def Asked.request (q : Asked) (w : Spelling) : QueryRequest :=
  ⟨q.text w, q.table, listText w.comma q.selected, clause q.conditions, q.limit.getD 0⟩

/-- A query on a table with the given columns, as far as the words and the buffers of the
firmware allow one. -/
structure Asked.Valid (q : Asked) (columns : List UInt8) : Prop where
  selected : ∀ ch ∈ q.selected, ∃ column ∈ columns, tolower column = tolower ch
  table_chars : sanitizeIdentifier q.table = true
  table_length : q.table.length ≤ 31
  table_word : ∀ keyword ∈ sqlKeywords, ¬ Spells q.table keyword
  conditions : ∀ c ∈ q.conditions, c.Valid columns
  conditions_length : q.conditions.length ≤ 4
  limit : ∀ n ∈ q.limit, 1 ≤ n ∧ n ≤ 255

end Texts

section Keywords

variable {keyword : String} {xs ys word : List UInt8} {ch : UInt8}

theorem spells_letters (hk : keyword ∈ sqlKeywords) (h : Spells word keyword) :
    ∀ ch ∈ word, isalpha ch = true :=
  letters_of_map (keyword_letters hk).1 h

theorem letters_nul (h : ∀ ch ∈ word, isalpha ch = true) : 0 ∉ word :=
  fun h₀ ↦ absurd (h 0 h₀) (by decide)

/-- No keyword reaches over a boundary. -/
theorem noKeyword_append (hxs : NoKeyword xs) (hys : NoKeyword ys) (hnul : 0 ∉ xs)
    (hnul' : 0 ∉ ys) (hne : ch ≠ 0) (hb : isSqlBoundary ch = true) :
    NoKeyword (xs ++ ch :: ys) := by
  intro keyword hk
  obtain ⟨hletters, hnil⟩ := keyword_letters hk
  have hmem : 0 ∉ xs ++ ch :: ys := by
    simp only [List.mem_append, List.mem_cons, not_or]
    exact ⟨hnul, hne.symm, hnul'⟩
  rw [← find_none hk hmem]
  have hfind : findSqlKeyword (xs ++ ch :: ys) keyword = _ :=
    findKeywordFrom_append hletters hnil hnul hne hb
  have hleft : findKeywordFrom (ascii keyword) 32 xs = none := find_absent hk hnul hxs
  have hright : findKeywordFrom (ascii keyword) ch ys = none := by
    rw [findKeywordFrom_first (show isSqlBoundary ch = isSqlBoundary 32 from hb)]
    exact find_absent hk hnul' hys
  rw [hfind, hleft, hright]
  rfl

theorem noKeyword_short (h : xs.length < 4) : NoKeyword xs := by
  have hall : ∀ keyword ∈ sqlKeywords, 4 ≤ (ascii keyword).length := by decide
  rintro keyword hk p ⟨-, -, front, after, hxs, hword, -⟩
  have hlong := hall keyword hk
  have hlen := congrArg List.length hxs
  have hsame := congrArg List.length hword
  rw [List.length_drop, List.length_append] at hlen
  rw [List.length_map, List.length_map] at hsame
  omega

theorem noKeyword_blank (hxs : NoKeyword xs) (hys : NoKeyword ys) (hnul : 0 ∉ xs)
    (hnul' : 0 ∉ ys) : NoKeyword (xs ++ 32 :: ys) :=
  noKeyword_append hxs hys hnul hnul' (by decide) (by decide)

/-- A word without boundaries is no keyword, or it is one as a whole. -/
theorem noKeyword_word (hword : ∀ ch ∈ word, isSqlBoundary ch = false)
    (hnot : ∀ keyword ∈ sqlKeywords, ¬ Spells word keyword) : NoKeyword word := by
  rintro keyword hk p ⟨hp, hbefore, front, after, hdrop, hspelled, hafter⟩
  have hstart : p = 0 := by
    by_contra hpos
    have hlast : (word.take p).getLast? = some (word[p - 1]) := by
      rw [List.getLast?_take, if_neg hpos, List.getElem?_eq_getElem (by omega)]
      rfl
    have hboundary := hbefore _ hlast
    rw [hword _ (List.getElem_mem _)] at hboundary
    cases hboundary
  subst hstart
  have hend : after = [] := by
    cases after with
    | nil => rfl
    | cons ch chs =>
      have hmem : ch ∈ word := by
        rw [List.drop_zero] at hdrop
        rw [hdrop]
        simp
      have hboundary := hafter ch rfl
      rw [hword ch hmem] at hboundary
      cases hboundary
  rw [List.drop_zero, hend, List.append_nil] at hdrop
  rw [← hdrop] at hspelled
  exact hnot keyword hk hspelled

end Keywords

section Characters

variable {columns : List UInt8} {q : Asked} {w : Spelling} {comma chs : List UInt8} {cs : List Cond}

theorem isalnum_tolower {a b : UInt8} (h : tolower a = tolower b) (ha : isalnum a = true) :
    isalnum b = true := by
  rcases letters_of_tolower h with rfl | ⟨-, hb⟩
  · exact ha
  · exact letter_alnum hb

theorem Asked.Valid.selected_alnum (hq : q.Valid columns) (hcols : Columns columns) :
    ∀ ch ∈ q.selected, isalnum ch = true := by
  intro ch hch
  obtain ⟨column, hcolumn, hlower⟩ := hq.selected ch hch
  exact isalnum_tolower hlower (hcols.alnum column hcolumn)

def Visible (text : List UInt8) : Prop := ∀ b ∈ text, 32 ≤ b.toNat ∧ b.toNat < 128

theorem visible_append {xs ys : List UInt8} (hxs : Visible xs) (hys : Visible ys) :
    Visible (xs ++ ys) :=
  List.forall_mem_append.mpr ⟨hxs, hys⟩

theorem visible_all {text : List UInt8}
    (h : text.all (fun b ↦ 32 ≤ b.toNat && b.toNat < 128) = true) : Visible text := by
  intro b hb
  simpa using List.all_eq_true.mp h b hb

theorem visible_alnum {text : List UInt8} (h : ∀ ch ∈ text, isalnum ch = true) : Visible text := by
  intro b hb
  have hrange := alnum_range (h b hb)
  omega

theorem visible_blank : Visible [32] := visible_all rfl

theorem visible_spells {keyword : String} {word : List UInt8} (hk : keyword ∈ sqlKeywords)
    (h : Spells word keyword) : Visible word :=
  visible_alnum (fun ch hch ↦ letter_alnum (spells_letters hk h ch hch))

theorem visible_listText (hcomma : comma = [44] ∨ comma = [44, 32])
    (h : ∀ ch ∈ chs, isalnum ch = true) : Visible (listText comma chs) := by
  induction chs with
  | nil => exact visible_all rfl
  | cons ch chs ih =>
    obtain ⟨hch, hchs⟩ := List.forall_mem_cons.mp h
    have hfirst : Visible [ch] := visible_alnum (by simpa using hch)
    cases chs with
    | nil => exact hfirst
    | cons ch' chs =>
      have hbetween : Visible comma := by
        apply visible_all
        rcases hcomma with rfl | rfl <;> rfl
      exact visible_append hfirst (visible_append hbetween (ih hchs))

theorem visible_cond {c : Cond} (hcol : isalnum c.col = true) (hval : isalnum c.val = true) :
    Visible c.text := by
  have hop : Visible (ascii c.op.spelling) := by
    apply visible_all
    cases c.op <;> rfl
  have hcol' : Visible [c.col] := visible_alnum (by simpa using hcol)
  have hval' : Visible [c.val] := visible_alnum (by simpa using hval)
  exact visible_append hcol' (visible_append visible_blank
    (visible_append hop (visible_append visible_blank hval')))

theorem visible_clause (h : ∀ c ∈ cs, isalnum c.col = true ∧ isalnum c.val = true) :
    Visible (clause cs) := by
  have hand : Visible (ascii " AND ") := visible_all rfl
  cases cs with
  | nil => exact fun b hb ↦ nomatch hb
  | cons c cs =>
    obtain ⟨hc, hcs⟩ := List.forall_mem_cons.mp h
    refine visible_append (visible_cond hc.1 hc.2) ?_
    intro b hb
    obtain ⟨d, hd, hb⟩ := List.mem_flatMap.mp hb
    exact visible_append hand (visible_cond (hcs d hd).1 (hcs d hd).2) b hb

theorem visible_dec (n : ℕ) : Visible (dec n) := by
  intro b hb
  have hdigit := Firmware.Response.dec_digit hb
  omega

theorem Asked.Valid.limit_lt (hq : q.Valid columns) : q.limit.getD 0 < 256 := by
  cases hlimit : q.limit with
  | none => decide
  | some n => exact Nat.lt_succ_of_le (hq.limit n hlimit).2

theorem table_chars (hq : q.Valid columns) :
    q.table ≠ [] ∧ ∀ ch ∈ q.table, isalnum ch = true ∨ ch = 95 := by
  have h := hq.table_chars
  rw [sanitizeIdentifier, Bool.and_eq_true, List.all_eq_true] at h
  refine ⟨by simpa using h.1, fun ch hch ↦ ?_⟩
  simpa using h.2 ch hch

theorem visible_table (hq : q.Valid columns) : Visible q.table := by
  intro b hb
  rcases (table_chars hq).2 b hb with h | rfl
  · have hrange := alnum_range h
    omega
  · decide

theorem visible_text (hq : q.Valid columns) (hcols : Columns columns) (hw : w.Valid) :
    Visible (q.text w) := by
  have hwhere : Visible (whereText w.whr q.conditions) := by
    cases hconds : q.conditions with
    | nil => exact fun b hb ↦ nomatch hb
    | cons c cs =>
      have halnum := valid_alnum hcols hq.conditions
      rw [hconds] at halnum
      exact visible_append visible_blank (visible_append (visible_spells (by decide) hw.whr)
        (visible_append visible_blank (visible_clause halnum)))
  have hlimit : Visible (limitText w.limit q.limit) := by
    cases q.limit with
    | none => exact fun b hb ↦ nomatch hb
    | some n =>
      exact visible_append visible_blank (visible_append (visible_spells (by decide) hw.limit)
        (visible_append visible_blank (visible_dec n)))
  exact visible_append (visible_spells (by decide) hw.select) (visible_append visible_blank
    (visible_append (visible_listText hw.comma (hq.selected_alnum hcols)) (visible_append visible_blank
      (visible_append (visible_spells (by decide) hw.frm) (visible_append visible_blank
        (visible_append (visible_table hq) (visible_append hwhere hlimit)))))))

theorem visible_nul {text : List UInt8} (h : Visible text) : 0 ∉ text :=
  fun h₀ ↦ absurd (h 0 h₀).1 (by decide)

end Characters

section Clauses

variable {columns : List UInt8} {q : Asked} {w : Spelling} {comma chs : List UInt8} {cs : List Cond}

theorem listText_last (comma : List UInt8) (h : ∀ ch ∈ chs, isalnum ch = true) :
    ∃ front last, listText comma chs = front ++ [last] ∧ (isalnum last = true ∨ last = 42) := by
  induction chs with
  | nil => exact ⟨[], 42, rfl, .inr rfl⟩
  | cons ch chs ih =>
    obtain ⟨hch, hchs⟩ := List.forall_mem_cons.mp h
    cases chs with
    | nil => exact ⟨[], ch, rfl, .inl hch⟩
    | cons ch' chs =>
      obtain ⟨front, last, hlist, hlast⟩ := ih hchs
      refine ⟨ch :: (comma ++ front), last, ?_, hlast⟩
      rw [listText, hlist]
      · simp
      · simp

theorem listText_first (comma : List UInt8) (h : ∀ ch ∈ chs, isalnum ch = true) :
    ∃ first rest, listText comma chs = first :: rest ∧ (isalnum first = true ∨ first = 42) := by
  cases chs with
  | nil => exact ⟨42, [], rfl, .inr rfl⟩
  | cons ch chs =>
    have hch := h ch List.mem_cons_self
    cases chs with
    | nil => exact ⟨ch, [], rfl, .inl hch⟩
    | cons ch' chs => exact ⟨ch, _, rfl, .inl hch⟩

theorem noKeyword_listText (hcomma : comma = [44] ∨ comma = [44, 32])
    (h : ∀ ch ∈ chs, isalnum ch = true) : NoKeyword (listText comma chs) := by
  induction chs with
  | nil => exact noKeyword_short (show (ascii "*").length < 4 by decide)
  | cons ch chs ih =>
    obtain ⟨hch, hchs⟩ := List.forall_mem_cons.mp h
    cases chs with
    | nil => exact noKeyword_short (by simp [listText])
    | cons ch' chs =>
      have hrest := ih hchs
      have hnul := visible_nul (visible_listText hcomma hchs)
      have hfirst : NoKeyword [ch] := noKeyword_short (by simp)
      have hfirstNul : 0 ∉ [ch] := visible_nul (visible_alnum (by simpa using hch))
      rcases hcomma with rfl | rfl
      · exact noKeyword_append hfirst hrest hfirstNul hnul (by decide) (by decide)
      · have hblank : NoKeyword ([] ++ 32 :: listText [44, 32] (ch' :: chs)) :=
          noKeyword_blank (noKeyword_short (by decide)) hrest (by decide) hnul
        have hblankNul : 0 ∉ [] ++ 32 :: listText [44, 32] (ch' :: chs) := by
          rw [List.nil_append, List.mem_cons, not_or]
          exact ⟨by decide, hnul⟩
        exact noKeyword_append hfirst hblank hfirstNul hblankNul (by decide) (by decide)

theorem plain_char {ch : UInt8} (h : isalnum ch = true ∨ ch = 42) :
    isspace ch = false ∧ trailing ch = false := by
  rcases h with h | rfl
  · exact ⟨isspace_of_alnum h, trailing_of_isspace (alnum_ne h (by decide)) (isspace_of_alnum h)⟩
  · decide

theorem clause_listText (hcomma : comma = [44] ∨ comma = [44, 32])
    (h : ∀ ch ∈ chs, isalnum ch = true) : Clause (listText comma chs) := by
  obtain ⟨first, rest, hhead, hfirst⟩ := listText_first comma h
  obtain ⟨front, last, htail, hlast⟩ := listText_last comma h
  refine ⟨?_, ?_, ?_, noKeyword_listText hcomma h⟩
  · rw [hhead]
    exact List.cons_ne_nil _ _
  · rw [hhead]
    rintro ch ⟨rfl⟩
    exact (plain_char hfirst).1
  · rw [htail, List.getLast?_concat]
    rintro ch ⟨rfl⟩
    exact (plain_char hlast).2

theorem noKeyword_cond {c : Cond} (hcol : isalnum c.col = true) (hval : isalnum c.val = true) :
    NoKeyword c.text := by
  have hop : (ascii c.op.spelling).length < 4 ∧ 0 ∉ ascii c.op.spelling := by
    cases c.op <;> decide
  have hval' : 0 ∉ [c.val] := visible_nul (visible_alnum (by simpa using hval))
  have hright : 0 ∉ ascii c.op.spelling ++ 32 :: [c.val] := by
    rw [List.mem_append, List.mem_cons, not_or, not_or]
    exact ⟨hop.2, by decide, hval'⟩
  have hcol' : 0 ∉ [c.col] := visible_nul (visible_alnum (by simpa using hcol))
  exact noKeyword_blank (noKeyword_short (by simp)) (noKeyword_blank (noKeyword_short hop.1)
    (noKeyword_short (by simp)) hop.2 hval') hcol' hright

theorem noKeyword_clause (h : ∀ c ∈ cs, isalnum c.col = true ∧ isalnum c.val = true) :
    NoKeyword (clause cs) := by
  cases cs with
  | nil => exact noKeyword_short (by decide)
  | cons c cs =>
    induction cs generalizing c with
    | nil =>
      obtain ⟨hcol, hval⟩ := h c List.mem_cons_self
      rw [clause, joined, List.flatMap_nil, List.append_nil]
      exact noKeyword_cond hcol hval
    | cons d cs ih =>
      obtain ⟨⟨hcol, hval⟩, hrest⟩ := List.forall_mem_cons.mp h
      have hnul := visible_nul (visible_clause hrest)
      have hand : NoKeyword (ascii "AND" ++ 32 :: clause (d :: cs)) :=
        noKeyword_blank (noKeyword_short (by decide)) (ih d hrest) (by decide) hnul
      have handNul : 0 ∉ ascii "AND" ++ 32 :: clause (d :: cs) := by
        rw [List.mem_append, List.mem_cons, not_or, not_or]
        exact ⟨by decide, by decide, hnul⟩
      have htext : clause (c :: d :: cs) = c.text ++ 32 :: (ascii "AND" ++ 32 :: clause (d :: cs)) := by
        simp [clause, joined, ascii]
      rw [htext]
      exact noKeyword_blank (noKeyword_cond hcol hval) hand (visible_nul (visible_cond hcol hval))
        handNul

theorem joined_last {c : Cond} (cs : List Cond) :
    ∃ front last, c.text ++ joined cs = front ++ [last] ∧ last ∈ (c :: cs).map Cond.val := by
  induction cs generalizing c with
  | nil =>
    refine ⟨c.col :: 32 :: (ascii c.op.spelling ++ [32]), c.val, ?_, List.mem_cons_self⟩
    simp [Cond.text, joined]
  | cons d cs ih =>
    obtain ⟨front, last, htext, hlast⟩ := ih (c := d)
    refine ⟨c.text ++ ascii " AND " ++ front, last, ?_, List.mem_cons_of_mem _ hlast⟩
    rw [joined, List.flatMap_cons, List.append_assoc (ascii " AND "), ← joined, htext]
    simp only [List.append_assoc]

theorem clause_conds (hne : cs ≠ []) (h : ∀ c ∈ cs, isalnum c.col = true ∧ isalnum c.val = true) :
    Clause (clause cs) := by
  obtain ⟨c, cs, rfl⟩ := List.exists_cons_of_ne_nil hne
  refine ⟨by simp [clause, Cond.text], ?_, ?_, noKeyword_clause h⟩
  · rintro ch ⟨rfl⟩
    exact isspace_of_alnum (h c List.mem_cons_self).1
  · obtain ⟨front, last, htext, hlast⟩ := joined_last (c := c) cs
    rw [clause, htext, List.getLast?_concat]
    rintro ch ⟨rfl⟩
    obtain ⟨d, hd, rfl⟩ := List.mem_map.mp hlast
    exact (plain_char (.inl (h d hd).2)).2

theorem noKeyword_table (hq : q.Valid columns) : NoKeyword q.table := by
  refine noKeyword_word (fun ch hch ↦ ?_) hq.table_word
  rcases (table_chars hq).2 ch hch with h | rfl
  · have hne (k : UInt8) (hk : k.toNat < 48) : ch ≠ k := alnum_ne h hk
    simp [isSqlBoundary, isspace_of_alnum h, hne 0 (by decide), hne 44 (by decide),
      hne 40 (by decide), hne 41 (by decide)]
  · decide

theorem gap_blank : Gap [32] := ⟨rfl, by decide⟩

theorem noKeyword_dec (n : ℕ) : NoKeyword (dec n) := by
  have hdigit {ch : UInt8} (hch : ch ∈ dec n) : isdigit ch = true := by
    have h := Firmware.Response.dec_digit hch
    simpa [isdigit, UInt8.le_iff_toNat_le] using h
  refine noKeyword_word (fun ch hch ↦ ?_) (fun keyword hk hspells ↦ ?_)
  · have halnum : isalnum ch = true := by simp [isalnum, hdigit hch]
    have hne (k : UInt8) (hk : k.toNat < 48) : ch ≠ k := alnum_ne halnum hk
    simp [isSqlBoundary, isspace_of_alnum halnum, hne 0 (by decide), hne 44 (by decide),
      hne 40 (by decide), hne 41 (by decide)]
  · have hlen := hspells.length
    have hne : dec n ≠ [] := by
      intro hnil
      rw [hnil] at hlen
      exact (keyword_letters hk).2 (List.length_eq_zero_iff.mp hlen.symm)
    obtain ⟨ch, chs, hdec⟩ := List.exists_cons_of_ne_nil hne
    have hmem : ch ∈ dec n := hdec ▸ List.mem_cons_self
    have hletter := isalpha_iff.mp (spells_letters hk hspells ch hmem)
    have hrange := Firmware.Response.dec_digit hmem
    omega

theorem limit_trailer (hw : w.Valid) (limit : Option ℕ) :
    Trailer (limitText w.limit limit) ∧
      ∀ p, ¬ OccursAt (ascii "WHERE") (limitText w.limit limit) p := by
  cases limit with
  | none => exact ⟨.blank (show isGap [] = true by decide), fun p h ↦ absurd h.1 (Nat.not_lt_zero p)⟩
  | some n =>
    have hpart : "LIMIT" ∈ ["LIMIT", "ORDER", "GROUP"] := by decide
    refine ⟨.part gap_blank hpart hw.limit gap_blank.boundary, ?_⟩
    have hnul := letters_nul (spells_letters (by decide) hw.limit)
    have hdec := visible_nul (visible_dec n)
    have hmem : "WHERE" ∈ sqlKeywords := by decide
    have hword : findSqlKeyword w.limit "WHERE" = none :=
      find_word hw.limit hmem (by decide) (by decide)
    have hblank : findSqlKeyword ([] ++ ([32] ++ (w.limit ++ ([32] ++ dec n)))) "WHERE" = none := by
      rw [find_skip hmem (by decide) gap_blank rfl, find_skip hmem hnul gap_blank hword,
        find_absent hmem hdec (noKeyword_dec n)]
      rfl
    have hall : 0 ∉ limitText w.limit (some n) := by
      simp only [limitText, List.mem_append, not_or]
      exact ⟨by decide, hnul, by decide, hdec⟩
    exact (find_none hmem hall).mp hblank

/-- The firmware takes the select list and the conditions out of the text. -/
theorem text_fragments (hq : q.Valid columns) (hcols : Columns columns) (hw : w.Valid)
    (hlen : (q.text w).length ≤ 255) (request : QueryRequest) :
    extractSqlFragments (q.text w) request =
      { request with
        selectList := listText w.comma q.selected
        whereClause := clause q.conditions } := by
  have hlist := clause_listText hw.comma (hq.selected_alnum hcols)
  have hnul := visible_nul (visible_text hq hcols hw)
  have hlen' : (q.text w).length < sqlMaxLen := Nat.lt_succ_of_le hlen
  have htext : q.text w = w.select ++ ([32] ++ (listText w.comma q.selected ++ ([32] ++
      (w.frm ++ ([32] ++ (q.table ++ (whereText w.whr q.conditions ++
        limitText w.limit q.limit))))))) := rfl
  obtain ⟨hselect, hfrom, hrest⟩ := head_find htext hnul hw.select gap_blank hlist gap_blank hw.frm
    gap_blank
  have hselected := selectFragment_clause htext hlen' hw.select gap_blank hlist gap_blank
  have hpeek : peek (listText w.comma q.selected) ≠ 0 := by
    obtain ⟨first, rest, hfirst, hchar⟩ := listText_first w.comma (hq.selected_alnum hcols)
    rw [hfirst, peek_cons]
    rintro rfl
    revert hchar
    decide
  have htable := visible_nul (visible_table hq)
  obtain ⟨htrailer, hnoWhere⟩ := limit_trailer hw q.limit
  have hlimitNul : 0 ∉ limitText w.limit q.limit := by
    rw [Asked.text] at hnul
    simp only [List.mem_append, not_or] at hnul
    exact hnul.2.2.2.2.2.2.2.2
  have hwhere : whereFragment (q.text w) (findSqlKeyword (q.text w) "WHERE") = clause q.conditions := by
    rw [hrest "WHERE" (by decide)]
    cases hconds : q.conditions with
    | nil =>
      rw [whereText, List.nil_append, tail_none (noKeyword_table hq) htable htrailer
        ((find_none (by decide) hlimitNul).mpr hnoWhere)]
      rfl
    | cons c cs =>
      have hclause := clause_conds (hconds ▸ List.cons_ne_nil c cs) (valid_alnum hcols hq.conditions)
      rw [hconds] at hclause
      have htail : whereText w.whr (c :: cs) ++ limitText w.limit q.limit =
          [32] ++ (w.whr ++ ([32] ++ (clause (c :: cs) ++ limitText w.limit q.limit))) := by
        simp only [whereText, List.append_assoc]
      have hword := letters_nul (spells_letters (by decide) hw.whr)
      have hskip {k : String} (hk : k ∈ sqlKeywords) :
          findSqlKeyword (q.table ++ ([32] ++ (w.whr ++ ([32] ++
            (clause (c :: cs) ++ limitText w.limit q.limit))))) k = _ :=
        find_skip hk htable gap_blank (find_absent hk htable (noKeyword_table hq))
      have hfive : w.whr.length = 5 := hw.whr.length
      have hsplit : q.text w = (w.select ++ ([32] ++ (listText w.comma q.selected ++ ([32] ++
          (w.frm ++ [32])))) ++ (q.table ++ [32])) ++ (w.whr ++ ([32] ++
            (clause (c :: cs) ++ limitText w.limit q.limit))) := by
        simp [Asked.text, hconds, whereText]
      have hfragment := whereFragment_clause _ hsplit hlen' hnul hw.whr gap_blank hclause htrailer ?_
      · rw [htail, hskip (by decide), find_hit hw.whr (by decide) hword gap_blank.boundary,
          Option.map_some, Option.map_some, Nat.zero_add, Nat.add_comm (q.table.length + _),
          ← List.length_append, ← List.length_append, hfragment]
      · intro k hk
        have hk' : k ∈ ["WHERE", "LIMIT", "ORDER", "GROUP"] ∧ k ∈ sqlKeywords ∧ k ≠ "WHERE" := by
          revert k
          decide
        rw [hrest k hk'.1, hconds, htail, hskip hk'.2.1, find_skip hk'.2.1 hword gap_blank
          (find_word hw.whr hk'.2.1 (by decide) hk'.2.2), Option.map_map, Option.map_map]
        congr 1
        funext n
        simp only [Function.comp_apply, List.length_append, hfive]
        omega
  simp only [extractSqlFragments, hselect, hfrom, hselected, if_neg hpeek, hwhere]

end Clauses

end FpgaDatabase.Reference.QueryText
