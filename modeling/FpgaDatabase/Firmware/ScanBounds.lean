import FpgaDatabase.Firmware.WhereText

namespace FpgaDatabase.Firmware.ScanBounds

open CString Request Table Compile Conditions WhereText

/-- The passes of the WHERE loop that are begun, the one that ends in an error included. -/
def executed (schema : TableSchema) (whereCount : ℕ) (ptr : List UInt8) : List (List UInt8) :=
  if peek (skipBlanks ptr) = 0 then []
  else
    let cond := (scanCondition (skipBlanks ptr)).1
    if findColumnIndex schema cond.colName = none ∨ 4 ≤ whereCount then [skipBlanks ptr]
    else skipBlanks ptr :: executed schema (whereCount + 1) (scanCondition (skipBlanks ptr)).2
termination_by ptr.length
decreasing_by
  exact (scanCondition_length ‹_› (peek_skipBlanks ptr)).trans_le (skipBlanks_length_le ptr)

/-- The pointer of a pass at its beginning and where each of its inner loops stops; it
only moves forward from one to the next. -/
def pointers (pass : List UInt8) : List (List UInt8) :=
  [pass, nameStart pass, (scan isNameChar 63 (nameStart pass)).2, operatorStart pass,
    (scan isOperatorChar 3 (operatorStart pass)).2, valueStart pass, (scanCondition pass).2]

/-- The value of the pass is a quote with the terminator right behind it. -/
def EndsInQuote (pass : List UInt8) : Prop :=
  peek (valueStart pass) = 39 ∧ peek (valueStart pass).tail = 0

def columnPasses (ptr : List UInt8) : List (List UInt8) :=
  if peek ptr = 0 then [] else ptr :: columnPasses (skipSeparators (scanColumn ptr).2)
termination_by ptr.length
decreasing_by exact scanColumn_length ‹_›

def columnPointers (pass : List UInt8) : List (List UInt8) :=
  [pass, skipBlanks pass, (scanColumn pass).2, skipSeparators (scanColumn pass).2]

def aggregatePointers (ptr : List UInt8) : List (List UInt8) :=
  [ptr, (scan (fun ch ↦ ch ≠ 41 && ch ≠ 0) 63 ptr).2]

def selectPointers (ptr : List UInt8) : List (List UInt8) :=
  if asciiStrncasecmpLocal ptr (ascii "COUNT(") 6 = 0 then aggregatePointers (ptr.drop 6)
  else if asciiStrncasecmpLocal ptr (ascii "SUM(") 4 = 0 then aggregatePointers (ptr.drop 4)
  else if peek ptr ≠ 42 then (columnPasses ptr).flatMap columnPointers
  else []

def whereEnd (request : QueryRequest) : List UInt8 :=
  request.whereMemory.drop request.whereClause.length

/-- The scan of the WHERE clause: no pointer passes the terminator, every iteration moves
forward, there are finitely many, and the two buffers are large enough. -/
structure WhereStays (schema : TableSchema) (request : QueryRequest) : Prop where
  inside : ∀ pass ∈ executed schema 0 request.whereMemory, ∀ p ∈ pointers pass,
    whereEnd request <:+ p
  advances : ∀ pass ∈ executed schema 0 request.whereMemory,
    (scanCondition pass).2.length < pass.length
  ends : (executed schema 0 request.whereMemory).length ≤ request.whereClause.length
  colName : ∀ pass ∈ executed schema 0 request.whereMemory,
    (scanCondition pass).1.colName.length ≤ 63
  opStr : ∀ pass ∈ executed schema 0 request.whereMemory, (scanCondition pass).1.opStr.length ≤ 3

/-- The scan of the select list, whatever lies behind its terminator. -/
structure SelectStays (selectList nul : List UInt8) : Prop where
  inside : ∀ p ∈ selectPointers (selectList ++ nul), nul <:+ p
  advances : ∀ pass ∈ columnPasses (selectList ++ nul),
    (skipSeparators (scanColumn pass).2).length < pass.length
  ends : (columnPasses (selectList ++ nul)).length ≤ selectList.length
  colName : ∀ pass, (scanColumn pass).1.length ≤ 63 ∧ (aggregateColumn pass).length ≤ 63

def Within (nul ptr : List UInt8) : Prop := ∃ text, 0 ∉ text ∧ ptr = text ++ nul

section Split

variable {text front rest tail : List UInt8}

theorem split_at_zero (h : front ++ rest = text ++ tail) (hfront : 0 ∉ front)
    (ht : peek tail = 0) : ∃ text', text = front ++ text' ∧ rest = text' ++ tail := by
  rcases List.append_eq_append_iff.mp h with ⟨text', htext, hrest⟩ | ⟨more, hmore, htail⟩
  · exact ⟨text', htext, hrest⟩
  · cases more with
    | nil => exact ⟨[], by simpa using hmore.symm, htail.symm⟩
    | cons ch chs =>
      rw [htail] at ht
      have hch : ch = 0 := ht
      rw [hmore, hch] at hfront
      exact absurd (by simp) hfront

theorem skipBlanks_append (ht : peek tail = 0) :
    skipBlanks (text ++ tail) = skipBlanks text ++ tail := by
  obtain ⟨n, hn⟩ := skipBlanks_split text
  conv_lhs => rw [hn]
  rw [List.append_assoc, skipBlanks_blanks]
  apply skipBlanks_of_ne
  rw [peek_append_zero ht]
  exact peek_skipBlanks text

theorem and_split (hand : startsWithAnd (text ++ tail)) (ht : peek tail = 0) :
    ∃ word m rest, isAnd word = true ∧ text = word ++ 32 :: (blanks m ++ rest) ∧
      nameStart (text ++ tail) = rest ++ tail := by
  obtain ⟨word, after, hword, hafter⟩ := startsWithAnd_iff.mp hand
  obtain ⟨hletters, hthree⟩ := isAnd_chars hword
  have hzero : 0 ∉ word ++ [32] := by
    rw [List.mem_append, not_or]
    refine ⟨fun hmem ↦ ?_, by decide⟩
    exact (nameChar_ne (List.all_eq_true.mp hletters 0 hmem)).2.1 rfl
  have hsplit : (word ++ [32]) ++ after = text ++ tail := by
    rw [hafter, List.append_assoc]
    rfl
  obtain ⟨behind, htext, rfl⟩ := split_at_zero hsplit hzero ht
  obtain ⟨m, hm⟩ := skipBlanks_split behind
  refine ⟨word, m, skipBlanks behind, hword, ?_, ?_⟩
  · rw [htext, ← hm, List.append_assoc]
    rfl
  · have hfour : (word ++ [32]).length = 4 := by
      rw [List.length_append, hthree]
      rfl
    rw [nameStart, if_pos hand, ← hsplit, ← hfour, List.drop_left, skipBlanks_append ht]

end Split

section Pointer

variable {nul ptr pass : List UInt8} {p : UInt8 → Bool}

theorem Within.suffix (h : Within nul ptr) : nul <:+ ptr := by
  obtain ⟨text, -, rfl⟩ := h
  exact ⟨text, rfl⟩

theorem within_drop {front : List UInt8} (hnul : peek nul = 0) (h : Within nul (front ++ ptr))
    (hfront : 0 ∉ front) : Within nul ptr := by
  obtain ⟨text, htext, happend⟩ := h
  obtain ⟨rest, rfl, hrest⟩ := split_at_zero happend hfront hnul
  exact ⟨rest, fun hmem ↦ htext (List.mem_append_right _ hmem), hrest⟩

theorem within_tail (hnul : peek nul = 0) (h : Within nul ptr) (hne : peek ptr ≠ 0) :
    Within nul ptr.tail := by
  cases ptr with
  | nil => exact absurd rfl hne
  | cons ch chs =>
    have hch : 0 ∉ [ch] := by simpa using Ne.symm (show ch ≠ 0 from hne)
    exact within_drop hnul (show Within nul ([ch] ++ chs) from h) hch

theorem within_dropWhile (hnul : peek nul = 0) (hp : p 0 = false) (h : Within nul ptr) :
    Within nul (ptr.dropWhile p) := by
  rw [← List.takeWhile_append_dropWhile (p := p) (l := ptr)] at h
  refine within_drop hnul h fun hmem ↦ ?_
  rw [List.mem_takeWhile_imp hmem] at hp
  cases hp

theorem within_scan (hnul : peek nul = 0) (hp : p 0 = false) (bound : ℕ) (h : Within nul ptr) :
    Within nul (scan p bound ptr).2 := by
  rw [← scan_split p bound ptr] at h
  refine within_drop hnul h fun hmem ↦ ?_
  rw [List.all_eq_true.mp (scan_all p bound ptr) 0 hmem] at hp
  cases hp

theorem within_nameStart (hnul : peek nul = 0) (h : Within nul pass) :
    Within nul (nameStart pass) := by
  by_cases hand : startsWithAnd pass
  · obtain ⟨text, htext, rfl⟩ := h
    obtain ⟨word, m, rest, -, rfl, hstart⟩ := and_split hand hnul
    refine ⟨rest, fun hmem ↦ htext ?_, hstart⟩
    simp [hmem]
  · rwa [nameStart, if_neg hand]

theorem within_valueStart (hnul : peek nul = 0) (h : Within nul pass) :
    ∀ p ∈ [pass, nameStart pass, (scan isNameChar 63 (nameStart pass)).2, operatorStart pass,
      (scan isOperatorChar 3 (operatorStart pass)).2, valueStart pass], Within nul p := by
  have h₁ := within_nameStart hnul h
  have h₂ := within_scan (p := isNameChar) hnul rfl 63 h₁
  have h₃ := within_dropWhile (p := (· = 32)) hnul rfl h₂
  have h₄ := within_scan (p := isOperatorChar) hnul rfl 3 h₃
  have h₅ := within_dropWhile (p := (· = 32)) hnul rfl h₄
  simp only [List.forall_mem_cons, List.not_mem_nil, false_implies, implies_true, and_true]
  exact ⟨h, h₁, h₂, h₃, h₄, h₅⟩

/-- The scan of a value stays in the text unless it begins at a quote that ends it. -/
theorem within_scanValue (hnul : peek nul = 0) (h : Within nul ptr)
    (hquote : ¬ (peek ptr = 39 ∧ peek ptr.tail = 0)) : Within nul (scanValue ptr).2 := by
  have hword : Within nul (skipWord ptr) := within_dropWhile hnul rfl h
  rw [scanValue]
  split_ifs with hfirst halpha hdigit
  · have hbehind : peek ptr.tail ≠ 0 := fun hz ↦ hquote ⟨hfirst, hz⟩
    have h₁ := within_tail hnul h (by rw [hfirst]; decide)
    have h₂ : Within nul (ptr.drop 2) := by
      rw [← List.tail_drop, List.drop_one]
      exact within_tail hnul h₁ hbehind
    simp only
    split_ifs with hlast
    · exact within_tail hnul h₂ (by rw [hlast]; decide)
    · exact h₂
  · exact hword
  · refine within_tail hnul h fun hz ↦ ?_
    rw [hz] at hdigit
    exact absurd hdigit (by simp [isdigit])
  · exact hword

/-- Behind such a quote the pointer is past the terminator. -/
theorem scanValue_past (hnul : peek nul = 0) (hne : nul ≠ []) (h : Within nul ptr)
    (hquote : peek ptr = 39 ∧ peek ptr.tail = 0) : ¬ nul <:+ (scanValue ptr).2 := by
  obtain ⟨text, htext, rfl⟩ := h
  have hptr : text ++ nul = 39 :: nul := by
    match text, htext, hquote with
    | [], _, hquote => exact absurd (hnul.symm.trans hquote.1) (by decide)
    | [ch], _, hquote => rw [show ch = 39 from hquote.1]; rfl
    | ch :: d :: ds, htext, hquote =>
      have hd : d = 0 := hquote.2
      simp [hd] at htext
  have hshort : (scanValue (39 :: nul)).2.length < nul.length := by
    have hpos := List.length_pos_iff.mpr hne
    simp only [scanValue, peek_cons, if_true, List.drop_succ_cons, List.drop_one]
    split_ifs <;> simp only [List.length_tail] <;> omega
  rw [hptr]
  exact fun hsuffix ↦ absurd hsuffix.length_le (by omega)

theorem within_match {key : List UInt8} (hnul : peek nul = 0) (hkey : 0 ∉ key)
    (hmatch : asciiStrncasecmpLocal ptr key key.length = 0) (h : Within nul ptr) :
    Within nul (ptr.drop key.length) := by
  have hzero (ch : UInt8) : tolower ch = 0 → ch = 0 := by
    revert ch
    exact forall_byte (by decide +kernel)
  induction key generalizing ptr with
  | nil => exact h
  | cons ch chs ih =>
    rw [List.length_cons, asciiStrncasecmpLocal_succ] at hmatch
    rw [List.mem_cons, not_or] at hkey
    have hne : peek ptr ≠ 0 := by
      intro hz
      rw [hz] at hmatch
      exact hkey.1 (hzero ch hmatch.1.symm).symm
    rw [List.length_cons, ← List.drop_tail]
    exact ih hkey.2 hmatch.2 (within_tail hnul h hne)

end Pointer

section WhereLoop

variable {schema : TableSchema} {whereCount : ℕ} {nul ptr : List UInt8}

theorem scan_bound (p : UInt8 → Bool) (bound : ℕ) (ptr : List UInt8) :
    (scan p bound ptr).1.length ≤ bound :=
  ((List.takeWhile_prefix p).length_le).trans (List.length_take_le _ _)

theorem scanCondition_bounds (pass : List UInt8) :
    (scanCondition pass).1.colName.length ≤ 63 ∧ (scanCondition pass).1.opStr.length ≤ 3 := by
  rw [scanCondition_eq]
  exact ⟨scan_bound isNameChar 63 (nameStart pass), scan_bound isOperatorChar 3 (operatorStart pass)⟩

theorem executed_advances :
    ∀ pass ∈ executed schema whereCount ptr, (scanCondition pass).2.length < pass.length := by
  fun_induction executed schema whereCount ptr with
  | case1 whereCount ptr h => simp
  | case2 whereCount ptr h cond hstop =>
    rw [List.forall_mem_singleton]
    exact scanCondition_length h (peek_skipBlanks ptr)
  | case3 whereCount ptr h cond hgo ih =>
    exact List.forall_mem_cons.mpr ⟨scanCondition_length h (peek_skipBlanks ptr), ih⟩

theorem pointers_within {pass : List UInt8} (hnul : peek nul = 0) (h : Within nul pass)
    (hquote : ¬ EndsInQuote pass) :
    (∀ p ∈ pointers pass, nul <:+ p) ∧ Within nul (scanCondition pass).2 := by
  have hfront := within_valueStart hnul h
  have hnext : Within nul (scanCondition pass).2 := by
    rw [scanCondition_rest]
    exact within_scanValue hnul (hfront _ (by simp)) hquote
  refine ⟨fun p hp ↦ ?_, hnext⟩
  have hp' : p ∈ [pass, nameStart pass, (scan isNameChar 63 (nameStart pass)).2, operatorStart pass,
      (scan isOperatorChar 3 (operatorStart pass)).2, valueStart pass] ++ [(scanCondition pass).2] := hp
  rcases List.mem_append.mp hp' with hfirst | hlast
  · exact (hfront p hfirst).suffix
  · rw [List.mem_singleton.mp hlast]
    exact hnext.suffix

theorem executed_within (hnul : peek nul = 0) (h : Within nul ptr)
    (hquote : ∀ pass ∈ executed schema whereCount ptr, ¬ EndsInQuote pass) :
    (∀ pass ∈ executed schema whereCount ptr, ∀ p ∈ pointers pass, nul <:+ p) ∧
      (executed schema whereCount ptr).length + nul.length ≤ ptr.length := by
  fun_induction executed schema whereCount ptr with
  | case1 whereCount ptr hend => simp [h.suffix.length_le]
  | case2 whereCount ptr hgo cond hstop =>
    rw [List.forall_mem_singleton] at hquote ⊢
    have hpass : Within nul (skipBlanks ptr) := within_dropWhile hnul rfl h
    obtain ⟨hin, hnext⟩ := pointers_within hnul hpass hquote
    have h₁ := scanCondition_length hgo (peek_skipBlanks ptr)
    have h₂ := hnext.suffix.length_le
    have h₃ := skipBlanks_length_le ptr
    exact ⟨hin, by rw [List.length_singleton]; omega⟩
  | case3 whereCount ptr hgo cond hmore ih =>
    rw [List.forall_mem_cons] at hquote ⊢
    have hpass : Within nul (skipBlanks ptr) := within_dropWhile hnul rfl h
    obtain ⟨hin, hnext⟩ := pointers_within hnul hpass hquote.1
    obtain ⟨hall, hlen⟩ := ih hnext hquote.2
    have h₁ := scanCondition_length hgo (peek_skipBlanks ptr)
    have h₃ := skipBlanks_length_le ptr
    exact ⟨⟨hin, hall⟩, by rw [List.length_cons]; omega⟩

theorem pass_safe {pass : List UInt8} (hnul : peek nul = 0) (hne : nul ≠ []) (h : Within nul pass)
    (hin : ∀ p ∈ pointers pass, nul <:+ p) : ¬ EndsInQuote pass := by
  intro hquote
  have hvalue : Within nul (valueStart pass) := within_valueStart hnul h _ (by simp)
  have hlast := hin (scanCondition pass).2 (by simp [pointers])
  rw [scanCondition_rest] at hlast
  exact scanValue_past hnul hne hvalue hquote hlast

theorem executed_safe (hnul : peek nul = 0) (hne : nul ≠ []) (h : Within nul ptr)
    (hin : ∀ pass ∈ executed schema whereCount ptr, ∀ p ∈ pointers pass, nul <:+ p) :
    ∀ pass ∈ executed schema whereCount ptr, ¬ EndsInQuote pass := by
  fun_induction executed schema whereCount ptr with
  | case1 whereCount ptr hend => simp
  | case2 whereCount ptr hgo cond hstop =>
    rw [List.forall_mem_singleton] at hin ⊢
    exact pass_safe hnul hne (within_dropWhile (p := (· = 32)) hnul rfl h) hin
  | case3 whereCount ptr hgo cond hmore ih =>
    rw [List.forall_mem_cons] at hin ⊢
    have hpass : Within nul (skipBlanks ptr) := within_dropWhile hnul rfl h
    have hsafe := pass_safe hnul hne hpass hin.1
    exact ⟨hsafe, ih (pointers_within hnul hpass hsafe).2 hin.2⟩

end WhereLoop

section SelectList

variable {nul ptr selectList : List UInt8}

theorem columnPasses_advances : ∀ pass ∈ columnPasses ptr,
    (skipSeparators (scanColumn pass).2).length < pass.length := by
  fun_induction columnPasses ptr with
  | case1 ptr h => simp
  | case2 ptr h ih => exact List.forall_mem_cons.mpr ⟨scanColumn_length h, ih⟩

theorem column_within (hnul : peek nul = 0) (h : Within nul ptr) :
    ∀ p ∈ columnPointers ptr, Within nul p := by
  have h₁ : Within nul (skipBlanks ptr) := within_dropWhile hnul rfl h
  have h₂ : Within nul (scanColumn ptr).2 := within_scan hnul rfl 63 h₁
  have h₃ : Within nul (skipSeparators (scanColumn ptr).2) := within_dropWhile hnul rfl h₂
  simp only [columnPointers, List.forall_mem_cons, List.not_mem_nil, false_implies, implies_true,
    and_true]
  exact ⟨h, h₁, h₂, h₃⟩

theorem columnPasses_within (hnul : peek nul = 0) (h : Within nul ptr) :
    (∀ pass ∈ columnPasses ptr, Within nul pass) ∧
      (columnPasses ptr).length + nul.length ≤ ptr.length := by
  fun_induction columnPasses ptr with
  | case1 ptr hend => simp [h.suffix.length_le]
  | case2 ptr hgo ih =>
    have hnext := column_within hnul h (skipSeparators (scanColumn ptr).2) (by simp [columnPointers])
    obtain ⟨hall, hlen⟩ := ih hnext
    have hless := scanColumn_length hgo
    exact ⟨List.forall_mem_cons.mpr ⟨h, hall⟩, by rw [List.length_cons]; omega⟩

theorem aggregate_within (hnul : peek nul = 0) (h : Within nul ptr) :
    ∀ p ∈ aggregatePointers ptr, nul <:+ p := by
  have hscan := within_scan (p := fun ch ↦ ch ≠ 41 && ch ≠ 0) hnul rfl 63 h
  simp only [aggregatePointers, List.forall_mem_cons, List.not_mem_nil, false_implies, implies_true,
    and_true]
  exact ⟨h.suffix, hscan.suffix⟩

theorem select_stays (hnul : peek nul = 0) (hlist : 0 ∉ selectList) : SelectStays selectList nul := by
  have h : Within nul (selectList ++ nul) := ⟨selectList, hlist, rfl⟩
  obtain ⟨hpasses, hlen⟩ := columnPasses_within hnul h
  refine ⟨?_, columnPasses_advances, ?_, fun pass ↦ ⟨scan_bound _ _ _, scan_bound _ _ _⟩⟩
  · unfold selectPointers
    split_ifs with hcount hsum hstar
    · exact aggregate_within hnul (within_match hnul (by decide) hcount h)
    · exact aggregate_within hnul (within_match hnul (by decide) hsum h)
    · intro p hp
      obtain ⟨pass, hpass, hp⟩ := List.mem_flatMap.mp hp
      exact (column_within hnul (hpasses pass hpass) p hp).suffix
    · simp
  · rw [List.length_append] at hlen
    omega

end SelectList

section Fragments

variable {sql : List UInt8} {request : QueryRequest}

theorem fragments_zero (hsql : 0 ∉ sql) : 0 ∉ (extractSqlFragments sql request).whereClause ∧
    0 ∉ (extractSqlFragments sql request).selectList := by
  constructor
  · exact fun hmem ↦ hsql ((whereFragment_part sql _).subset hmem)
  · intro hmem
    simp only [extractSqlFragments] at hmem
    split_ifs at hmem
    · exact absurd hmem (by decide)
    · exact hsql ((selectFragment_part sql _ _).subset hmem)

theorem whereEnd_fragments (hsql : 0 ∉ sql) {r : QueryRequest}
    (hr : r = extractSqlFragments sql request) :
    peek (whereEnd r) = 0 ∧ whereEnd r ≠ [] ∧ Within (whereEnd r) r.whereMemory ∧
      r.whereMemory.length = r.whereClause.length + (whereEnd r).length := by
  have hlen : r.whereClause.length < sqlMaxLen := by
    rw [hr]
    exact whereFragment_length _ _
  obtain ⟨tail, ht, hmem⟩ := whereMemory_eq hlen
  have hend : whereEnd r = tail := by rw [whereEnd, hmem, List.drop_left]
  have hsize : r.whereMemory.length = sqlMaxLen + 4 := by
    simp only [QueryRequest.whereMemory, List.length_append, List.length_replicate, List.length_map,
      List.length_range]
    omega
  have hsum : r.whereMemory.length = r.whereClause.length + tail.length := by
    rw [hmem, List.length_append]
  rw [hend]
  refine ⟨ht, ?_, ⟨r.whereClause, hr ▸ (fragments_zero hsql).1, hmem⟩, hsum⟩
  rintro rfl
  rw [List.length_nil] at hsum
  omega

end Fragments

/-- The scanners stay in their texts unless the loop comes to a quote that ends the
clause. -/
theorem scanners_stay_iff (schema : TableSchema) (sql : List UInt8) (hsql : 0 ∉ sql)
    (request : QueryRequest) :
    (WhereStays schema (extractSqlFragments sql request) ∧
        ∀ nul, peek nul = 0 → SelectStays (extractSqlFragments sql request).selectList nul) ↔
      ∀ pass ∈ executed schema 0 (extractSqlFragments sql request).whereMemory,
        ¬ EndsInQuote pass := by
  obtain ⟨hnul, hne, hwithin, hlen⟩ := whereEnd_fragments hsql
    (show extractSqlFragments sql request = _ from rfl)
  constructor
  · rintro ⟨hwhere, -⟩
    exact executed_safe hnul hne hwithin hwhere.inside
  · intro hquote
    obtain ⟨hin, hcount⟩ := executed_within hnul hwithin hquote
    refine ⟨⟨hin, executed_advances, by omega, ?_, ?_⟩, fun nul h₀ ↦ ?_⟩
    · exact fun pass _ ↦ (scanCondition_bounds pass).1
    · exact fun pass _ ↦ (scanCondition_bounds pass).2
    · exact select_stays h₀ (fragments_zero hsql).2

section Examples

def whereQuery (clause : String) : QueryRequest :=
  extractSqlFragments (ascii "SELECT * FROM T WHERE " ++ ascii clause) ⟨[], [], [], [], 0⟩

theorem first_executed {schema : TableSchema} {whereCount : ℕ} {ptr : List UInt8}
    (h : peek (skipBlanks ptr) ≠ 0) : skipBlanks ptr ∈ executed schema whereCount ptr := by
  rw [executed, if_neg h]
  dsimp only
  split_ifs <;> simp

/-- A quote at the end of the clause: the pointer passes the terminator. -/
theorem open_quote_past : ¬ WhereStays columnA.schema (whereQuery "a = '") := by
  intro h
  have hpast : peek (skipBlanks (whereQuery "a = '").whereMemory) ≠ 0 ∧
      (scanCondition (skipBlanks (whereQuery "a = '").whereMemory)).2.length <
        (whereEnd (whereQuery "a = '")).length := by
    decide +kernel
  have hlast : whereEnd (whereQuery "a = '") <:+
      (scanCondition (skipBlanks (whereQuery "a = '").whereMemory)).2 :=
    h.inside _ (first_executed hpast.1) _ (List.mem_of_getLast? rfl)
  exact absurd hlast.length_le (by omega)

theorem closed_quote_stays : WhereStays columnA.schema (whereQuery "a = 'x'") := by
  have hpass : ¬ peek (skipBlanks (whereQuery "a = 'x'").whereMemory) = 0 ∧
      ¬ (findColumnIndex columnA.schema
        (scanCondition (skipBlanks (whereQuery "a = 'x'").whereMemory)).1.colName = none ∨ 4 ≤ 0) ∧
      peek (skipBlanks (scanCondition (skipBlanks (whereQuery "a = 'x'").whereMemory)).2) = 0 ∧
      ¬ (peek (valueStart (skipBlanks (whereQuery "a = 'x'").whereMemory)) = 39 ∧
        peek (valueStart (skipBlanks (whereQuery "a = 'x'").whereMemory)).tail = 0) := by
    decide +kernel
  obtain ⟨hfirst, hcolumn, hlast, hvalue⟩ := hpass
  have hquote : ∀ pass ∈ executed columnA.schema 0 (whereQuery "a = 'x'").whereMemory,
      ¬ EndsInQuote pass := by
    rw [executed, if_neg hfirst]
    dsimp only
    rw [if_neg hcolumn, executed, if_pos hlast, List.forall_mem_singleton]
    exact hvalue
  exact ((scanners_stay_iff columnA.schema _ (by decide) _).mpr hquote).1

end Examples

end FpgaDatabase.Firmware.ScanBounds
