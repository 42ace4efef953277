import FpgaDatabase.Firmware.Keywords
import FpgaDatabase.Firmware.Request

namespace FpgaDatabase.Firmware.Clauses

open CString Request Keywords

def sqlKeywords : List String := ["SELECT", "FROM", "WHERE", "LIMIT", "ORDER", "GROUP"]

def Spells (word : List UInt8) (keyword : String) : Prop :=
  word.map tolower = (ascii keyword).map tolower

instance (word : List UInt8) (keyword : String) : Decidable (Spells word keyword) :=
  inferInstanceAs (Decidable (_ = _))

/-- No keyword stands on its own in the text. -/
def NoKeyword (text : List UInt8) : Prop :=
  ∀ keyword ∈ sqlKeywords, ∀ p, ¬ OccursAt (ascii keyword) text p

/-- The text between two keywords, without the white space around it. -/
structure Clause (text : List UInt8) : Prop where
  nonempty : text ≠ []
  first : ∀ ch ∈ text.head?, isspace ch = false
  last : ∀ ch ∈ text.getLast?, trailing ch = false
  noKeyword : NoKeyword text

structure Gap (gap : List UInt8) : Prop where
  blank : isGap gap = true
  nonempty : gap ≠ []

/-- What follows the last clause: nothing but blanks, or the keyword of a further part
and any text behind it, further parts included. -/
inductive Trailer : List UInt8 → Prop
  | blank {gap : List UInt8} (hgap : isGap gap = true) : Trailer gap
  | part {gap word rest : List UInt8} {keyword : String} (hgap : Gap gap)
      (hkeyword : keyword ∈ ["LIMIT", "ORDER", "GROUP"]) (hword : Spells word keyword)
      (hrest : isSqlBoundary (peek rest) = true) : Trailer (gap ++ (word ++ rest))

inductive Tail : Option (List UInt8) → List UInt8 → Prop
  | unfiltered {trailer : List UInt8} (htrailer : Trailer trailer)
      (hwhere : ∀ p, ¬ OccursAt (ascii "WHERE") trailer p) : Tail none trailer
  | filtered {gap word gap' w trailer : List UInt8} (hgap : Gap gap) (hword : Spells word "WHERE")
      (hgap' : Gap gap') (hw : Clause w) (htrailer : Trailer trailer) :
      Tail (some w) (gap ++ (word ++ (gap' ++ (w ++ trailer))))

inductive Query (s : List UInt8) (w : Option (List UInt8)) : List UInt8 → Prop
  | mk {select gap gap' frm gap'' t tail : List UInt8} (hselect : Spells select "SELECT")
      (hgap : Gap gap) (hs : Clause s) (hgap' : Gap gap') (hfrom : Spells frm "FROM")
      (hgap'' : Gap gap'') (ht : NoKeyword t) (htail : Tail w tail) :
      Query s w (select ++ (gap ++ (s ++ (gap' ++ (frm ++ (gap'' ++ (t ++ tail)))))))

section Search

variable {keyword other : String} {part word gap rest : List UInt8}

theorem keyword_letters (h : keyword ∈ sqlKeywords) :
    (ascii keyword).all isalpha = true ∧ ascii keyword ≠ [] := by
  revert keyword
  decide

theorem Spells.length (h : Spells word keyword) : word.length = (ascii keyword).length := by
  simpa [Spells] using congrArg List.length h

theorem Gap.boundary (h : Gap gap) : isSqlBoundary (peek (gap ++ rest)) = true := by
  obtain ⟨c, cs, rfl⟩ := List.exists_cons_of_ne_nil h.nonempty
  have hblank := h.blank
  rw [isGap, List.all_cons, Bool.and_eq_true] at hblank
  exact (gap_boundary hblank.1).2.1

theorem find_none (h : keyword ∈ sqlKeywords) (hnul : 0 ∉ part) :
    findSqlKeyword part keyword = none ↔ ∀ p, ¬ OccursAt (ascii keyword) part p := by
  have hnone : findSqlKeyword (part ++ []) keyword = none ↔ _ :=
    findSqlKeyword_none (keyword_letters h).1 hnul rfl
  rwa [List.append_nil] at hnone

theorem find_absent (h : keyword ∈ sqlKeywords) (hnul : 0 ∉ part) (hpart : NoKeyword part) :
    findSqlKeyword part keyword = none :=
  (find_none h hnul).mpr (hpart keyword h)

theorem find_skip (h : keyword ∈ sqlKeywords) (hnul : 0 ∉ part) (hgap : Gap gap)
    (hpart : findSqlKeyword part keyword = none) :
    findSqlKeyword (part ++ (gap ++ rest)) keyword =
      (findSqlKeyword rest keyword).map (· + (part.length + gap.length)) := by
  obtain ⟨hk, hne⟩ := keyword_letters h
  have hfind : findSqlKeyword (part ++ (gap ++ rest)) keyword = _ :=
    findKeywordFrom_part hk hne hnul hgap.blank hgap.nonempty
  have hnone : findKeywordFrom (ascii keyword) 32 part = none := hpart
  rw [hfind, hnone, Option.none_or]
  rfl

theorem find_word (hword : Spells word other) (h : keyword ∈ sqlKeywords)
    (hother : other ∈ sqlKeywords) (hne : keyword ≠ other) :
    findSqlKeyword word keyword = none := by
  have hcase : findSqlKeyword word keyword = findSqlKeyword (ascii other) keyword :=
    findKeywordFrom_case hword _ rfl
  have hall : ∀ k ∈ sqlKeywords, ∀ o ∈ sqlKeywords, k ≠ o → findSqlKeyword (ascii o) k = none := by
    decide
  rw [hcase, hall keyword h other hother hne]

theorem find_hit (hword : Spells word keyword) (h : keyword ∈ sqlKeywords) (hnul : 0 ∉ word)
    (hrest : isSqlBoundary (peek rest) = true) :
    findSqlKeyword (word ++ rest) keyword = some 0 := by
  obtain ⟨hk, hne⟩ := keyword_letters h
  cases word with
  | nil => exact absurd (List.length_eq_zero_iff.mp hword.length.symm) hne
  | cons c cs =>
    refine findKeywordFrom_hit hk hnul hrest ((occursFrom_zero cs).mpr ⟨rfl, c :: cs, [], ?_, hword, ?_⟩)
    · rw [List.append_nil]
    · exact fun ch hch ↦ nomatch hch

end Search

section Copy

variable {text mid gap gap' : List UInt8}

theorem slice (front mid back : List UInt8) (h : text = front ++ (mid ++ back)) :
    (text.drop front.length).take (front.length + mid.length - front.length) = mid := by
  rw [h, List.drop_left, Nat.add_sub_cancel_left, List.take_left]

theorem trimCopy_framed (hgap : isGap gap = true) (hgap' : isGap gap' = true) (hmid : Clause mid)
    (hlen : mid.length < sqlMaxLen) : trimCopy sqlMaxLen (gap ++ (mid ++ gap')) = mid := by
  have hblank {gap : List UInt8} (h : isGap gap = true) (ch : UInt8) (hch : ch ∈ gap) :
      isspace ch = true ∧ trailing ch = true :=
    (gap_boundary (List.all_eq_true.mp h ch hch)).2.2
  have hfront : (gap ++ (mid ++ gap')).dropWhile isspace = mid ++ gap' := by
    rw [List.dropWhile_append_of_pos fun ch hch ↦ (hblank hgap ch hch).1]
    obtain ⟨c, cs, rfl⟩ := List.exists_cons_of_ne_nil hmid.nonempty
    have hc := hmid.first c rfl
    exact List.dropWhile_cons_of_neg (by simp [hc])
  have hback : (mid ++ gap').rdropWhile trailing = mid := by
    have hlast : mid.rdropWhile trailing = mid := by
      rw [List.rdropWhile_eq_self_iff]
      intro hne
      simp [hmid.last _ (List.getLast?_eq_some_getLast hne)]
    rw [List.rdropWhile, List.reverse_append, List.dropWhile_append_of_pos]
    · exact hlast
    · exact fun ch hch ↦ (hblank hgap' ch (List.mem_reverse.mp hch)).2
  rw [trimCopy, hfront, hback, List.take_of_length_le]
  omega

theorem earliest {fallback wherePos e : ℕ} {a b c : Option ℕ} (hwhere : wherePos < e)
    (hend : e < fallback) (ha : ∀ p ∈ a, e ≤ p) (hb : ∀ p ∈ b, e ≤ p) (hc : ∀ p ∈ c, e ≤ p)
    (h : a = some e ∨ b = some e ∨ c = some e) :
    earliestSqlClauseEnd fallback wherePos a b c = e := by
  have hstep {n : ℕ} {p : Option ℕ} (hn : e ≤ n) (hp : ∀ q ∈ p, e ≤ q) :
      e ≤ clauseEnd n wherePos p ∧ (n = e ∨ p = some e → clauseEnd n wherePos p = e) := by
    cases p with
    | none => simpa [clauseEnd] using hn
    | some q =>
      have hq := hp q rfl
      simp only [clauseEnd, Option.some_inj]
      split_ifs <;> omega
  have h₁ := hstep hend.le ha
  have h₂ := hstep h₁.1 hb
  have h₃ := hstep h₂.1 hc
  refine h₃.2 ?_
  rcases h with h | h | h
  · exact .inl (h₂.2 (.inl (h₁.2 (.inr h))))
  · exact .inl (h₂.2 (.inr h))
  · exact .inr h

end Copy

section Extraction

variable {s w tail text : List UInt8} {keyword : String}

/-- The keyword that ends the WHERE clause, and what the searches find from there on. -/
theorem trailer_find {trailer : List UInt8} (htrailer : Trailer trailer) (hnul : 0 ∉ w)
    (hnul' : 0 ∉ trailer) (hw : Clause w) :
    (∃ gap, isGap gap = true ∧ trailer = gap ∧
      ∀ keyword ∈ ["LIMIT", "ORDER", "GROUP"], findSqlKeyword (w ++ trailer) keyword = none) ∨
    ∃ gap rest, isGap gap = true ∧ rest ≠ [] ∧ trailer = gap ++ rest ∧
      (∀ keyword ∈ ["LIMIT", "ORDER", "GROUP"], ∀ p ∈ findSqlKeyword (w ++ trailer) keyword,
        w.length + gap.length ≤ p) ∧
      ∃ keyword ∈ ["LIMIT", "ORDER", "GROUP"],
        findSqlKeyword (w ++ trailer) keyword = some (w.length + gap.length) := by
  have hparts : ∀ k ∈ ["LIMIT", "ORDER", "GROUP"], k ∈ sqlKeywords := by decide
  cases htrailer with
  | blank hgap =>
    refine .inl ⟨_, hgap, rfl, fun keyword hkeyword ↦ ?_⟩
    obtain ⟨hk, hne⟩ := keyword_letters (hparts keyword hkeyword)
    have hend : findSqlKeyword (w ++ trailer) keyword = _ := findKeywordFrom_end hk hne hnul hgap
    rw [hend]
    exact find_absent (hparts keyword hkeyword) hnul hw.noKeyword
  | part hgap hkeyword hword hrest =>
    rename_i gap word rest keyword
    rw [List.mem_append, List.mem_append, not_or, not_or] at hnul'
    have hfind {k : String} (hk : k ∈ ["LIMIT", "ORDER", "GROUP"]) :
        findSqlKeyword (w ++ (gap ++ (word ++ rest))) k = _ :=
      find_skip (hparts k hk) hnul hgap (find_absent (hparts k hk) hnul hw.noKeyword)
    have hhit := find_hit hword (hparts keyword hkeyword) hnul'.2.1 hrest
    refine .inr ⟨gap, word ++ rest, hgap.blank, ?_, rfl, ?_, keyword, hkeyword, ?_⟩
    · intro hnil
      rw [hnil] at hhit
      cases hhit
    · intro k hk p hp
      rw [Option.mem_def, hfind hk, Option.map_eq_some_iff] at hp
      obtain ⟨q, -, rfl⟩ := hp
      exact Nat.le_add_left _ _
    · rw [hfind hkeyword, hhit, Option.map_some, Nat.zero_add]

theorem whereFragment_cut {word gap gap' rest : List UInt8} (front : List UInt8)
    (hsql : text = front ++ (word ++ (gap ++ (w ++ (gap' ++ rest))))) (hlen : text.length < sqlMaxLen)
    (hword : Spells word "WHERE") (hgap : isGap gap = true) (hgap' : isGap gap' = true)
    (hw : Clause w) (hend : earliestSqlClauseEnd text.length front.length
      (findSqlKeyword text "LIMIT") (findSqlKeyword text "ORDER") (findSqlKeyword text "GROUP") =
        front.length + 5 + (gap.length + w.length + gap'.length)) :
    whereFragment text (some front.length) = w := by
  have hfive : word.length = 5 := hword.length
  have hwlen := List.length_pos_of_ne_nil hw.nonempty
  have hslice := slice (front ++ word) (gap ++ (w ++ gap')) rest
    (show text = front ++ word ++ (gap ++ (w ++ gap') ++ rest) by simp [hsql])
  simp only [List.length_append, hfive, ← Nat.add_assoc] at hslice
  rw [whereFragment]
  simp only [hend]
  rw [if_pos (by omega)]
  simp only [← Nat.add_assoc, hslice]
  apply trimCopy_framed hgap hgap' hw
  have htotal := congrArg List.length hsql
  simp only [List.length_append] at htotal
  omega

theorem whereFragment_clause {word gap trailer : List UInt8} (front : List UInt8)
    (hsql : text = front ++ (word ++ (gap ++ (w ++ trailer)))) (hlen : text.length < sqlMaxLen)
    (hnul : 0 ∉ text) (hword : Spells word "WHERE") (hgap : Gap gap) (hw : Clause w)
    (htrailer : Trailer trailer) (hparts : ∀ keyword ∈ ["LIMIT", "ORDER", "GROUP"],
      findSqlKeyword text keyword =
        (findSqlKeyword (w ++ trailer) keyword).map (· + (front.length + 5 + gap.length))) :
    whereFragment text (some front.length) = w := by
  have hfive : word.length = 5 := hword.length
  have hwlen := List.length_pos_of_ne_nil hw.nonempty
  have htotal := congrArg List.length hsql
  simp only [List.length_append] at htotal
  have hmem : 0 ∉ w ∧ 0 ∉ trailer := by
    rw [hsql] at hnul
    simp only [List.mem_append, not_or] at hnul
    exact ⟨hnul.2.2.2.1, hnul.2.2.2.2⟩
  rcases trailer_find htrailer hmem.1 hmem.2 hw with
    ⟨gap', hgap', rfl, hnone⟩ | ⟨gap', rest, hgap', hrest, rfl, hbehind, k, hk, hfound⟩
  · -- No part follows, and the clause goes to the end of the text.
    refine whereFragment_cut front (by rw [hsql, List.append_nil]) hlen hword hgap.blank hgap' hw ?_
    rw [hparts "LIMIT" (by decide), hparts "ORDER" (by decide), hparts "GROUP" (by decide),
      hnone _ (by decide), hnone _ (by decide), hnone _ (by decide)]
    simp only [Option.map_none, earliestSqlClauseEnd, clauseEnd]
    omega
  · have hrest' := List.length_pos_of_ne_nil hrest
    rw [List.length_append] at htotal
    have hafter (keyword : String) (hkeyword : keyword ∈ ["LIMIT", "ORDER", "GROUP"]) (p : ℕ)
        (hp : p ∈ findSqlKeyword text keyword) :
        front.length + 5 + (gap.length + w.length + gap'.length) ≤ p := by
      rw [Option.mem_def, hparts keyword hkeyword, Option.map_eq_some_iff] at hp
      obtain ⟨q, hq, rfl⟩ := hp
      have hle := hbehind keyword hkeyword q hq
      omega
    have hk' : findSqlKeyword text k =
        some (front.length + 5 + (gap.length + w.length + gap'.length)) := by
      rw [hparts k hk, hfound, Option.map_some, Option.some_inj]
      omega
    refine whereFragment_cut front hsql hlen hword hgap.blank hgap' hw (earliest ?_ ?_ ?_ ?_ ?_ ?_)
    · omega
    · omega
    · exact hafter "LIMIT" (by decide)
    · exact hafter "ORDER" (by decide)
    · exact hafter "GROUP" (by decide)
    · simp only [List.mem_cons, List.not_mem_nil, or_false] at hk
      rcases hk with rfl | rfl | rfl
      · exact .inl hk'
      · exact .inr (.inl hk')
      · exact .inr (.inr hk')

theorem selectFragment_clause {select gap gap' rest : List UInt8}
    (htext : text = select ++ (gap ++ (s ++ (gap' ++ rest)))) (hlen : text.length < sqlMaxLen)
    (hselect : Spells select "SELECT") (hgap : Gap gap) (hs : Clause s) (hgap' : Gap gap') :
    selectFragment text (some 0) (some (6 + (gap ++ (s ++ gap')).length)) = s := by
  have hsix : select.length = 6 := hselect.length
  have hspos := List.length_pos_of_ne_nil hs.nonempty
  have hslice := slice select (gap ++ (s ++ gap')) rest
    (show text = select ++ (gap ++ (s ++ gap') ++ rest) by simp [htext])
  rw [hsix] at hslice
  rw [selectFragment]
  simp only [Nat.zero_add, hslice]
  rw [if_pos (by simp only [List.length_append]; omega)]
  apply trimCopy_framed hgap.blank hgap'.blank hs
  have htotal := congrArg List.length htext
  simp only [List.length_append] at htotal
  omega

theorem head_find {select gap gap' frm gap'' rest : List UInt8}
    (htext : text = select ++ (gap ++ (s ++ (gap' ++ (frm ++ (gap'' ++ rest))))))
    (hnul : 0 ∉ text) (hselect : Spells select "SELECT") (hgap : Gap gap) (hs : Clause s)
    (hgap' : Gap gap') (hfrom : Spells frm "FROM") (hgap'' : Gap gap'') :
    findSqlKeyword text "SELECT" = some 0 ∧
    findSqlKeyword text "FROM" = some (6 + (gap ++ (s ++ gap')).length) ∧
    ∀ keyword ∈ ["WHERE", "LIMIT", "ORDER", "GROUP"], findSqlKeyword text keyword =
      (findSqlKeyword rest keyword).map
        (· + (select ++ (gap ++ (s ++ (gap' ++ (frm ++ gap''))))).length) := by
  rw [htext] at hnul
  simp only [List.mem_append, not_or] at hnul
  obtain ⟨hnul₁, -, hnul₂, -, hnul₃, -⟩ := hnul
  have hsix : select.length = 6 := hselect.length
  have hskip {k : String} (hk : k ∈ sqlKeywords) (hne : k ≠ "SELECT") :
      findSqlKeyword text k = ((findSqlKeyword (frm ++ (gap'' ++ rest)) k).map
        (· + (s.length + gap'.length))).map (· + (select.length + gap.length)) := by
    rw [htext, find_skip hk hnul₁ hgap (find_word hselect hk (by decide) hne),
      find_skip hk hnul₂ hgap' (find_absent hk hnul₂ hs.noKeyword)]
  refine ⟨?_, ?_, fun k hk ↦ ?_⟩
  · rw [htext]
    exact find_hit hselect (by decide) hnul₁ hgap.boundary
  · rw [hskip (by decide) (by decide), find_hit hfrom (by decide) hnul₃ hgap''.boundary]
    simp only [Option.map_some, Option.some_inj, List.length_append]
    omega
  · have hk' : k ∈ sqlKeywords ∧ k ≠ "SELECT" ∧ k ≠ "FROM" := by
      revert k
      decide
    rw [hskip hk'.1 hk'.2.1, find_skip hk'.1 hnul₃ hgap'' (find_word hfrom hk'.1 (by decide) hk'.2.2),
      Option.map_map, Option.map_map]
    congr 1
    funext n
    simp only [Function.comp_apply, List.length_append]
    omega

theorem tail_none {t trailer : List UInt8} (ht : NoKeyword t) (hnul : 0 ∉ t)
    (htrailer : Trailer trailer) (hnone : findSqlKeyword trailer "WHERE" = none) :
    findSqlKeyword (t ++ trailer) "WHERE" = none := by
  have hmem : "WHERE" ∈ sqlKeywords := by decide
  obtain ⟨hk, hne⟩ := keyword_letters hmem
  have hpart := find_absent hmem hnul ht
  cases htrailer with
  | blank hgap =>
    have hend : findSqlKeyword (t ++ trailer) "WHERE" = _ := findKeywordFrom_end hk hne hnul hgap
    rw [hend]
    exact hpart
  | part hgap =>
    rename_i gap word rest _ _ _ _
    have hgapped : findSqlKeyword (gap ++ (word ++ rest)) "WHERE" = _ :=
      findKeywordFrom_gap hk hne hgap.blank rfl
    rw [hnone, eq_comm, Option.map_eq_none_iff] at hgapped
    have hrest : findSqlKeyword (word ++ rest) "WHERE" = none := hgapped
    rw [find_skip hmem hnul hgap hpart, hrest, Option.map_none]

end Extraction

/-- The two clauses of a query are found, however its keywords are written and whatever
parts follow. -/
theorem clause_extraction (s : List UInt8) (w : Option (List UInt8)) (text : List UInt8)
    (hquery : Query s w text) (hlen : text.length ≤ 255) (hnul : 0 ∉ text)
    (request : QueryRequest) :
    (extractSqlFragments text request).selectList = s ∧
      (extractSqlFragments text request).whereClause = w.getD [] := by
  have hlen' : text.length < sqlMaxLen := Nat.lt_succ_of_le hlen
  obtain @⟨select, gap, gap', frm, gap'', t, tail, hselect, hgap, hs, hgap', hfrom, hgap'', ht, htail⟩ :=
    hquery
  generalize htext : select ++ (gap ++ (s ++ (gap' ++ (frm ++ (gap'' ++ (t ++ tail)))))) = text at hlen' hnul
  obtain ⟨hfs, hff, hfind⟩ := head_find htext.symm hnul hselect hgap hs hgap' hfrom hgap''
  have hmem : 0 ∉ t ∧ 0 ∉ tail := by
    rw [← htext] at hnul
    simp only [List.mem_append, not_or] at hnul
    exact hnul.2.2.2.2.2.2
  have hselected := selectFragment_clause htext.symm hlen' hselect hgap hs hgap'
  refine ⟨?_, ?_⟩
  · have hpeek : peek s ≠ 0 := by
      obtain ⟨c, cs, rfl⟩ := List.exists_cons_of_ne_nil hs.nonempty
      rintro rfl
      rw [← htext] at hnul
      simp at hnul
    simp only [extractSqlFragments, hfs, hff, hselected, if_neg hpeek]
  · change whereFragment text (findSqlKeyword text "WHERE") = w.getD []
    rw [hfind "WHERE" (by decide)]
    cases htail with
    | unfiltered htrailer hwhere =>
      rw [tail_none ht hmem.1 htrailer ((find_none (by decide) hmem.2).mpr hwhere)]
      rfl
    | filtered hgap₃ hword hgap₄ hw htrailer =>
      rename_i gap₃ word gap₄ w trailer
      have hnul' := hmem.2
      simp only [List.mem_append, not_or] at hnul'
      have hfive : word.length = 5 := hword.length
      have hend : isSqlBoundary (peek (gap₄ ++ (w ++ trailer))) = true := hgap₄.boundary
      have hhit := find_hit hword (by decide) hnul'.2.1 hend
      have hskip {k : String} (hk : k ∈ sqlKeywords) :
          findSqlKeyword (t ++ (gap₃ ++ (word ++ (gap₄ ++ (w ++ trailer))))) k = _ :=
        find_skip hk hmem.1 hgap₃ (find_absent hk hmem.1 ht)
      have hclause := whereFragment_clause
        (select ++ (gap ++ (s ++ (gap' ++ (frm ++ gap'')))) ++ (t ++ gap₃)) (by simp [← htext]) hlen' hnul hword hgap₄ hw htrailer ?_
      · rw [hskip (by decide), hhit, Option.map_some, Option.map_some, Nat.zero_add,
          Nat.add_comm (t.length + gap₃.length), ← List.length_append, ← List.length_append, hclause]
        rfl
      · intro k hk
        have hk' : k ∈ ["WHERE", "LIMIT", "ORDER", "GROUP"] ∧ k ∈ sqlKeywords ∧ k ≠ "WHERE" := by
          revert k
          decide
        rw [hfind k hk'.1, hskip hk'.2.1, find_skip hk'.2.1 hnul'.2.1 hgap₄
          (find_word hword hk'.2.1 (by decide) hk'.2.2), Option.map_map, Option.map_map]
        congr 1
        funext n
        simp only [Function.comp_apply, List.length_append, hfive]
        omega

theorem clauses_found :
    let text := ascii "select COUNT(*)\tFrom T, FROMAGE where (a=1) ORDER BY a LIMIT 3"
    (extractSqlFragments text ⟨[], [], [], [], 0⟩).selectList = ascii "COUNT(*)" ∧
      (extractSqlFragments text ⟨[], [], [], [], 0⟩).whereClause = ascii "(a=1)" := by
  have hclause (part : List UInt8) (hnul : 0 ∉ part)
      (h : ∀ keyword ∈ sqlKeywords, findSqlKeyword part keyword = none) : NoKeyword part :=
    fun keyword hkeyword ↦ (find_none hkeyword hnul).mp (h keyword hkeyword)
  have hblank : Gap [32] := ⟨rfl, by decide⟩
  have htext : ascii "select COUNT(*)\tFrom T, FROMAGE where (a=1) ORDER BY a LIMIT 3" =
      ascii "select" ++ ([32] ++ (ascii "COUNT(*)" ++ ([9] ++ (ascii "From" ++ ([32] ++
        (ascii "T, FROMAGE" ++ ([32] ++ (ascii "where" ++ ([32] ++ (ascii "(a=1)" ++
          ([32] ++ (ascii "ORDER" ++ ascii " BY a LIMIT 3")))))))))))) := by
    decide
  have hs : Clause (ascii "COUNT(*)") := by
    refine ⟨by decide, ?_, ?_, hclause _ (by decide) (by decide)⟩ <;> rintro ch ⟨rfl⟩ <;> rfl
  have hw : Clause (ascii "(a=1)") := by
    refine ⟨by decide, ?_, ?_, hclause _ (by decide) (by decide)⟩ <;> rintro ch ⟨rfl⟩ <;> rfl
  have hquery := Query.mk (show Spells (ascii "select") "SELECT" by decide) hblank hs
    (⟨rfl, by decide⟩ : Gap [9]) (show Spells (ascii "From") "FROM" by decide) hblank
    (hclause (ascii "T, FROMAGE") (by decide) (by decide))
    (.filtered hblank (show Spells (ascii "where") "WHERE" by decide) hblank hw
      (.part hblank (show "ORDER" ∈ ["LIMIT", "ORDER", "GROUP"] by decide)
        (show Spells (ascii "ORDER") "ORDER" by decide)
        (show isSqlBoundary (peek (ascii " BY a LIMIT 3")) = true by decide)))
  rw [← htext] at hquery
  exact clause_extraction _ _ _ hquery (by decide) (by decide) _

end FpgaDatabase.Firmware.Clauses
