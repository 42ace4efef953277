import FpgaDatabase.Library.Words
import FpgaDatabase.Firmware.Keywords
import FpgaDatabase.Firmware.SumCheck
import FpgaDatabase.Firmware.WhereText

namespace FpgaDatabase.Firmware.UnknownColumns

open CString Request Table Compile Conditions Library.Words
open WhereText hiding isWord

def isItemSeparator (ch : UInt8) : Bool := ch = 44 || ch = 32 || ch = 0

def isSelectSeparator (ch : UInt8) : Bool := isSqlBoundary ch || ch = 42

def isIdentifierChar (ch : UInt8) : Bool := isalnum ch || ch = 95

def IsAggregateName (word : List UInt8) : Prop :=
  word.map tolower = ascii "count" ∨ word.map tolower = ascii "sum"

/-- The select list names a column. COUNT and SUM in front of a parenthesis are no columns. -/
def NamedInSelect (list name : List UInt8) : Prop :=
  ∃ after, Word isSelectSeparator list name after ∧ ¬ (IsAggregateName name ∧ peek after = 40)

/-- A name in front of an operator, outside quotes. -/
def ComparedIn (clause name : List UInt8) : Prop :=
  ∃ before gap after, clause = before ++ (name ++ (gap ++ after)) ∧
    WordAt (!isIdentifierChar ·) before name (gap ++ after) ∧ gap.all isspace = true ∧
    isOperatorChar (peek after) = true ∧ Even (before.count 39)

def ReadIn (memory name : List UInt8) : Prop := ∃ cond ∈ conditions memory, cond.colName = name

inductive Mentions (request : QueryRequest) (name : List UInt8) : Prop
  | select : NamedInSelect request.selectList name → Mentions request name
  | compared : ComparedIn request.whereClause name → Mentions request name
  | read : ReadIn request.whereMemory name → Mentions request name

def beforeParenthesis (ch : UInt8) : Bool := ch ≠ 41 && ch ≠ 0

def afterParenthesis (ptr : List UInt8) : List UInt8 := (ptr.dropWhile beforeParenthesis).tail

/-- What the compilation does not look at: the list behind a star or behind the
parenthesis of an aggregate it begins with. -/
def unchecked (list : List UInt8) : List UInt8 :=
  if asciiStrncasecmpLocal list (ascii "COUNT(") 6 = 0 then afterParenthesis (list.drop 6)
  else if asciiStrncasecmpLocal list (ascii "SUM(") 4 = 0 then afterParenthesis (list.drop 4)
  else if peek list ≠ 42 then []
  else list.tail

/-- A mention that is not looked up: in the rest of the select list, or in a value. -/
inductive Overlooked (request : QueryRequest) (name : List UInt8) : Prop
  | select : NamedInSelect (unchecked request.selectList) name → Overlooked request name
  | value : ComparedIn request.whereClause name → ¬ ReadIn request.whereMemory name →
      Overlooked request name

def Known (schema : TableSchema) (name : List UInt8) : Prop := findColumnIndex schema name ≠ none

def Fits (schema : TableSchema) : Prop := ∀ column ∈ schema.columns, column.length ≤ cellSize

/-- The table begins with a text in the column. -/
def TextFirst (table : LoadedTable) (name : List UInt8) : Prop :=
  ∃ colIdx, findColumnIndex table.schema name = some colIdx ∧ table.memory ≠ [] ∧
    isdigit (table.memory.getD (colIdx * cellSize) 0) = false

/-- What the compilation looks up in the select list has to be there. -/
def SelectCompilable (table : LoadedTable) (list : List UInt8) : Prop :=
  if asciiStrncasecmpLocal list (ascii "COUNT(") 6 = 0 then
    Known table.schema (aggregateColumn (list.drop 6))
  else if asciiStrncasecmpLocal list (ascii "SUM(") 4 = 0 then
    Known table.schema (aggregateColumn (list.drop 4)) ∧
      ¬ TextFirst table (aggregateColumn (list.drop 4))
  else if peek list ≠ 42 then
    ∀ name after, Word isItemSeparator list name after → Known table.schema name
  else True

section Scan

variable {p : UInt8 → Bool} {bound : ℕ} {ptr : List UInt8}

theorem scan_short (h : (scan p bound ptr).1.length < bound) :
    scan p bound ptr = (ptr.takeWhile p, ptr.dropWhile p) := by
  have hword : (scan p bound ptr).1 = ptr.takeWhile p := by
    have htake : (scan p bound ptr).1 = (ptr.takeWhile p).take bound := List.take_takeWhile.symm
    rw [htake, List.length_take] at h
    rw [htake, List.take_of_length_le (by omega)]
  have hrest : ptr.takeWhile p ++ (scan p bound ptr).2 = ptr.takeWhile p ++ ptr.dropWhile p := by
    rw [← hword, scan_split, hword, List.takeWhile_append_dropWhile]
  exact Prod.ext hword (List.append_cancel_left hrest)

theorem dropWhile_stops (p : UInt8 → Bool) (ptr : List UInt8) :
    ∀ ch ∈ (ptr.dropWhile p).head?, p ch = false := by
  intro ch hch
  have h := List.head?_dropWhile_not p ptr
  rw [Option.mem_def.mp hch] at h
  exact h

end Scan

section Lookup

variable {schema : TableSchema} {name : List UInt8}

theorem fits_loaded {file : List UInt8} {table : LoadedTable} (h : loadTable file = some table) :
    Fits table.schema := by
  obtain ⟨schema, rows, hschema, -, -, -, rfl⟩ := loadTable_some h
  unfold loadTableSchemaFromBuf at hschema
  simp only [Option.ite_none_left_eq_some, Option.some.injEq] at hschema
  obtain ⟨-, -, -, -, -, rfl⟩ := hschema
  intro column hcolumn
  obtain ⟨index, -, rfl⟩ := List.mem_map.mp hcolumn
  exact List.length_take_le _ _

theorem Known.length (h : Known schema name) (hfits : Fits schema) : name.length ≤ 1 := by
  obtain ⟨i, hi⟩ := Option.ne_none_iff_exists'.mp h
  rw [findColumnIndex, List.findIdx?_eq_some_iff_getElem] at hi
  obtain ⟨hlt, hcolumn, -⟩ := hi
  rw [decide_eq_true_eq] at hcolumn
  rw [← hcolumn.2, strlen]
  refine (List.takeWhile_sublist _).length_le.trans ?_
  exact hfits _ (List.mem_of_mem_take (List.getElem_mem hlt))

end Lookup

section Items

variable {schema : TableSchema} {ptr name after : List UInt8} {sep : UInt8 → Bool}

theorem itemSeparator_select {ch : UInt8} (h : isItemSeparator ch = true) :
    isSelectSeparator ch = true := by
  simp only [isItemSeparator, Bool.or_eq_true, decide_eq_true_eq] at h
  rcases h with (rfl | rfl) | rfl <;> rfl

theorem scanColumn_eq (ptr : List UInt8) :
    scanColumn ptr = scan (!isItemSeparator ·) 63 (skipBlanks ptr) := by
  rw [scanColumn]
  congr 1
  funext ch
  simp [isItemSeparator, Bool.not_or]

theorem word_skipBlanks (hsep : ∀ ch, isItemSeparator ch = true → sep ch = true) :
    Word sep (skipBlanks ptr) name after ↔ Word sep ptr name after :=
  word_dropWhile fun ch hch ↦ hsep ch (by
    rw [decide_eq_true_eq] at hch
    rw [hch]
    rfl)

theorem word_skipSeparators (hsep : ∀ ch, isItemSeparator ch = true → sep ch = true) :
    Word sep (skipSeparators ptr) name after ↔ Word sep ptr name after :=
  word_dropWhile fun ch hch ↦ hsep ch (by
    rw [decide_eq_true_eq] at hch
    rcases hch with rfl | rfl <;> rfl)

theorem scanColumn_short (h : (scanColumn ptr).1.length ≤ 1) :
    scanColumn ptr = ((skipBlanks ptr).takeWhile (!isItemSeparator ·),
      (skipBlanks ptr).dropWhile (!isItemSeparator ·)) := by
  rw [scanColumn_eq] at h ⊢
  exact scan_short (by omega)

theorem scanColumn_stops (hsep : ∀ ch, isItemSeparator ch = true → sep ch = true)
    (h : (scanColumn ptr).1.length ≤ 1) : ∀ ch ∈ (scanColumn ptr).2.head?, sep ch = true := by
  intro ch hch
  rw [scanColumn_short h] at hch
  exact hsep ch (by simpa using dropWhile_stops _ _ ch hch)

theorem scanColumn_split (ptr : List UInt8) :
    (scanColumn ptr).1 ++ (scanColumn ptr).2 = skipBlanks ptr := scan_split _ _ _

/-- The words of a select list are its first item, if that is short, and the words behind it. -/
theorem item_words (hsep : ∀ ch, isItemSeparator ch = true → sep ch = true)
    (hshort : (scanColumn ptr).1.length ≤ 1) (h : Word sep ptr name after) :
    name = (scanColumn ptr).1 ∨ Word sep (skipSeparators (scanColumn ptr).2) name after := by
  rw [← word_skipBlanks hsep, ← scanColumn_split] at h
  rw [word_skipSeparators hsep]
  exact word_short hshort (scanColumn_stops hsep hshort) h

theorem item_words_rest (hsep : ∀ ch, isItemSeparator ch = true → sep ch = true)
    (hshort : (scanColumn ptr).1.length ≤ 1)
    (h : Word sep (skipSeparators (scanColumn ptr).2) name after) : Word sep ptr name after := by
  rw [word_skipSeparators hsep] at h
  rw [← word_skipBlanks hsep, ← scanColumn_split]
  exact word_behind _ (scanColumn_stops hsep hshort) h

theorem first_item (h : (scanColumn ptr).1 ≠ []) : ∃ name after,
    Word isItemSeparator ptr name after ∧ (scanColumn ptr).1 = name.take 63 := by
  have hcut : (scanColumn ptr).1 = ((skipBlanks ptr).takeWhile (!isItemSeparator ·)).take 63 := by
    rw [scanColumn_eq]
    exact List.take_takeWhile.symm
  refine ⟨_, (skipBlanks ptr).dropWhile (!isItemSeparator ·), ?_, hcut⟩
  rw [← word_skipBlanks fun _ hch ↦ hch]
  refine ⟨[], (List.takeWhile_append_dropWhile).symm, ?_, ?_, (fun ch hch ↦ nomatch hch), ?_⟩
  · intro hnil
    rw [hnil, List.take_nil] at hcut
    exact h hcut
  · exact fun ch hch ↦ by simpa using List.mem_takeWhile_imp hch
  · exact fun ch hch ↦ by simpa using dropWhile_stops _ _ ch hch

theorem item_or_empty (hfits : Fits schema) (h : ¬ ((scanColumn ptr).1 ≠ [] ∧
    findColumnIndex schema (scanColumn ptr).1 = none)) : (scanColumn ptr).1.length ≤ 1 ∧
      ((scanColumn ptr).1 = [] ∨ Known schema (scanColumn ptr).1) := by
  by_cases hempty : (scanColumn ptr).1 = []
  · exact ⟨by simp [hempty], .inl hempty⟩
  · have hknown : Known schema (scanColumn ptr).1 := fun hnone ↦ h ⟨hempty, hnone⟩
    exact ⟨hknown.length hfits, .inr hknown⟩

theorem scanColumn_rest (ptr : List UInt8) : skipSeparators (scanColumn ptr).2 <:+ ptr :=
  (List.dropWhile_suffix _).trans ((List.drop_suffix _ _).trans (List.dropWhile_suffix _))

/-- An accepted list has known names only, however finely it is cut. -/
theorem checkSelect_names (hfits : Fits schema) (hnul : 0 ∉ ptr)
    (hsep : ∀ ch, isItemSeparator ch = true → sep ch = true)
    (h : (checkSelect schema ptr).error = none) (hname : Word sep ptr name after) :
    Known schema name := by
  fun_induction checkSelect schema ptr with
  | case1 ptr hend =>
    cases ptr with
    | nil => exact absurd hname not_word_nil
    | cons c cs => exact absurd List.mem_cons_self (hend ▸ hnul)
  | case2 ptr hmore colName hunknown => cases h
  | case3 ptr hmore colName hknown ih =>
    obtain ⟨hshort, hitem⟩ := item_or_empty hfits hknown
    rcases item_words hsep hshort hname with rfl | hrest
    · exact hitem.resolve_left (fun hnil ↦ hname.ne_nil hnil)
    · exact ih (fun hmem ↦ hnul ((scanColumn_rest ptr).subset hmem)) h hrest

theorem checkSelect_accepts (hfits : Fits schema) (hnul : 0 ∉ ptr) :
    (checkSelect schema ptr).error = none ↔
      ∀ name after, Word isItemSeparator ptr name after → Known schema name := by
  constructor
  · exact fun h name after hname ↦ checkSelect_names hfits hnul (fun _ hch ↦ hch) h hname
  intro hall
  fun_induction checkSelect schema ptr with
  | case1 ptr hend => rfl
  | case2 ptr hmore colName hunknown =>
    obtain ⟨name, after, hname, hcut⟩ := first_item hunknown.1
    have hknown := hall name after hname
    rw [List.take_of_length_le ((hknown.length hfits).trans (by omega))] at hcut
    exact absurd (hcut ▸ hunknown.2) hknown
  | case3 ptr hmore colName hknown ih =>
    obtain ⟨hshort, -⟩ := item_or_empty hfits hknown
    refine ih (fun hmem ↦ hnul ((scanColumn_rest ptr).subset hmem)) fun name after hname ↦ ?_
    exact hall name after (item_words_rest (fun _ hch ↦ hch) hshort hname)

end Items

section Aggregates

variable {schema : TableSchema} {list ptr word fn name after : List UInt8}

/-- A successful comparison reads the text that it looks for. -/
theorem compare_split (hnul : 0 ∉ fn) (h : asciiStrncasecmpLocal ptr fn fn.length = 0) :
    ∃ word, ptr = word ++ ptr.drop fn.length ∧ word.map tolower = fn.map tolower := by
  induction fn generalizing ptr with
  | nil => exact ⟨[], rfl, rfl⟩
  | cons k ks ih =>
    rw [List.mem_cons, not_or] at hnul
    rw [List.length_cons, asciiStrncasecmpLocal_succ] at h
    cases ptr with
    | nil =>
      rcases letters_of_tolower h.1 with hk | ⟨hletter, -⟩
      · exact absurd hk hnul.1
      · exact absurd hletter (by decide)
    | cons c cs =>
      obtain ⟨word, hcs, hword⟩ := ih hnul.2 h.2
      have hc : tolower c = tolower k := h.1
      refine ⟨c :: word, ?_, by rw [List.map_cons, List.map_cons, hc, hword]⟩
      exact congrArg (c :: ·) hcs

theorem isSelectSeparator_letter {ch : UInt8} (h : isalpha ch = true) :
    isSelectSeparator ch = false := by
  have hstar : ch ≠ 42 := letter_ne h (by decide)
  simp [isSelectSeparator, Keywords.isSqlBoundary_letter h, hstar]

theorem letters_of_map (hfn : fn.all isalpha = true) (h : word.map tolower = fn.map tolower) :
    ∀ ch ∈ word, isalpha ch = true := by
  induction fn generalizing word with
  | nil => simp [List.map_eq_nil_iff.mp h]
  | cons k ks ih =>
    rw [List.all_cons, Bool.and_eq_true] at hfn
    obtain ⟨c, cs, rfl, hc, hcs⟩ := List.map_eq_cons_iff.mp h
    rw [List.forall_mem_cons]
    refine ⟨?_, ih hfn.2 hcs⟩
    rcases letters_of_tolower hc with rfl | ⟨hletter, -⟩
    · exact hfn.1
    · exact hletter

theorem aggregate_split (hfn : fn.all isalpha = true)
    (h : asciiStrncasecmpLocal list (fn ++ [40]) (fn ++ [40]).length = 0) :
    ∃ word, list = word ++ 40 :: list.drop (fn ++ [40]).length ∧
      word.map tolower = fn.map tolower := by
  have hnul : 0 ∉ fn ++ [40] := by
    rw [List.mem_append, not_or]
    exact ⟨fun hmem ↦ absurd (List.all_eq_true.mp hfn 0 hmem) (by decide), by decide⟩
  obtain ⟨start, hlist, hstart⟩ := compare_split hnul h
  rw [List.map_append, List.map_eq_append_iff] at hstart
  obtain ⟨word, last, rfl, hword, hlast⟩ := hstart
  obtain ⟨ch, rfl, hch⟩ := List.map_eq_singleton_iff.mp hlast
  have hparen : ch = 40 := by
    rcases letters_of_tolower hch with rfl | ⟨-, hletter⟩
    · rfl
    · exact absurd hletter (by decide)
  refine ⟨word, ?_, hword⟩
  rw [hparen, List.append_assoc] at hlist
  exact hlist

/-- With a known argument, the names left are those behind the parenthesis. -/
theorem argument_names (hfits : Fits schema) (hknown : Known schema (aggregateColumn ptr)) :
    (∀ name, NamedInSelect ptr name → Known schema name) ↔
      ∀ name, NamedInSelect (afterParenthesis ptr) name → Known schema name := by
  have hlen := hknown.length hfits
  have hscan : aggregateColumn ptr = ptr.takeWhile beforeParenthesis :=
    congrArg Prod.fst (scan_short (show (scan beforeParenthesis 63 ptr).1.length < 63 from
      Nat.lt_of_le_of_lt hlen (by decide)))
  have hstops : ∀ ch ∈ (ptr.dropWhile beforeParenthesis).head?, isSelectSeparator ch = true := by
    intro ch hch
    have hstop : beforeParenthesis ch = false := dropWhile_stops _ _ ch hch
    have hend : ch = 41 ∨ ch = 0 := by
      by_contra hne
      simp [beforeParenthesis, not_or.mp hne] at hstop
    rcases hend with rfl | rfl <;> rfl
  have hrest {name after : List UInt8} :
      Word isSelectSeparator (ptr.dropWhile beforeParenthesis) name after ↔
        Word isSelectSeparator (afterParenthesis ptr) name after := by
    rw [afterParenthesis]
    cases hdrop : ptr.dropWhile beforeParenthesis with
    | nil => rfl
    | cons c cs =>
      rw [hdrop] at hstops
      exact word_skip (hstops c rfl)
  constructor
  · rintro hall name ⟨after, hname, hplain⟩
    refine hall name ⟨after, ?_, hplain⟩
    rw [← List.takeWhile_append_dropWhile (p := beforeParenthesis) (l := ptr)]
    exact word_behind _ hstops (hrest.mpr hname)
  · rintro hall name ⟨after, hname, hplain⟩
    rw [← List.takeWhile_append_dropWhile (p := beforeParenthesis) (l := ptr), ← hscan] at hname
    rcases word_short hlen hstops hname with rfl | hbehind
    · exact hknown
    · exact hall name ⟨after, hrest.mp hbehind, hplain⟩

theorem function_names (hfn : ∀ ch ∈ word, isalpha ch = true) (hagg : IsAggregateName word) :
    (∀ name, NamedInSelect (word ++ 40 :: ptr) name → Known schema name) ↔
      ∀ name, NamedInSelect ptr name → Known schema name := by
  have hparen : isSelectSeparator 40 = true := rfl
  have hhead : ∀ ch ∈ (40 :: ptr).head?, isSelectSeparator ch = true := by
    rintro ch ⟨rfl⟩
    exact hparen
  constructor
  · rintro hall name ⟨after, hname, hplain⟩
    exact hall name ⟨after, word_behind word hhead ((word_skip hparen).mpr hname), hplain⟩
  · rintro hall name ⟨after, hname, hplain⟩
    have hrun : ∀ ch ∈ word, isSelectSeparator ch = false :=
      fun ch hch ↦ isSelectSeparator_letter (hfn ch hch)
    rcases word_append hrun hhead hname with ⟨rfl, rfl⟩ | hbehind
    · exact absurd ⟨hagg, rfl⟩ hplain
    · exact hall name ⟨after, (word_skip hparen).mp hbehind, hplain⟩

theorem aggregate_names (fn : List UInt8) (hfits : Fits schema) (hfn : fn.all isalpha = true)
    (hagg : ∀ word, word.map tolower = fn.map tolower → IsAggregateName word)
    (h : asciiStrncasecmpLocal list (fn ++ [40]) (fn ++ [40]).length = 0)
    (hknown : Known schema (aggregateColumn (list.drop (fn ++ [40]).length))) :
    (∀ name, NamedInSelect list name → Known schema name) ↔
      ∀ name, NamedInSelect (afterParenthesis (list.drop (fn ++ [40]).length)) name →
        Known schema name := by
  obtain ⟨word, hlist, hword⟩ := aggregate_split hfn h
  have hnames : (∀ name, NamedInSelect (word ++ 40 :: list.drop (fn ++ [40]).length) name →
      Known schema name) ↔ _ := function_names (letters_of_map hfn hword) (hagg word hword)
  rw [← hlist] at hnames
  exact hnames.trans (argument_names hfits hknown)

end Aggregates

section Select

variable {table : LoadedTable} {list : List UInt8}

theorem compileCount_accepts (schema : TableSchema) (ptr : List UInt8) :
    (compileCount schema ptr).error = none ↔ Known schema (aggregateColumn ptr) := by
  simp only [compileCount, Known]
  cases findColumnIndex schema (aggregateColumn ptr) with
  | none => exact iff_of_false (by simp [fail]) (by simp)
  | some colIdx => exact iff_of_true rfl (by simp)

theorem isdigit_signed (ch : UInt8) : isdigit ch = false ↔ signed ch < 48 ∨ 57 < signed ch := by
  rw [← not_iff_not, SumCheck.digit_compare]
  simp [isdigit, UInt8.le_iff_toNat_le]

theorem compileSum_accepts (table : LoadedTable) (ptr : List UInt8) :
    (compileSum table.schema table.memory ptr).error = none ↔
      Known table.schema (aggregateColumn ptr) ∧ ¬ TextFirst table (aggregateColumn ptr) := by
  simp only [compileSum, Known, TextFirst]
  cases hcol : findColumnIndex table.schema (aggregateColumn ptr) with
  | none => exact iff_of_false (by simp [fail]) (fun h ↦ h.1 rfl)
  | some colIdx =>
    simp only [Option.some.injEq, exists_eq_left', isdigit_signed]
    split_ifs with htext
    · exact iff_of_false (by simp [fail]) (fun h ↦ h.2 htext)
    · exact iff_of_true rfl ⟨by simp, htext⟩

theorem compileSelect_accepts (hfits : Fits table.schema) (hnul : 0 ∉ list) :
    (compileSelect table.schema table.memory list).error = none ↔ SelectCompilable table list := by
  rw [compileSelect, SelectCompilable]
  split_ifs with hcount hsum hplain
  · exact compileCount_accepts _ _
  · exact compileSum_accepts _ _
  · exact checkSelect_accepts hfits hnul
  · exact iff_of_true rfl trivial

/-- In a list that compiles, only names that are not looked at can be unknown. -/
theorem select_names (hfits : Fits table.schema) (hnul : 0 ∉ list) (h : SelectCompilable table list) :
    (∀ name, NamedInSelect list name → Known table.schema name) ↔
      ∀ name, NamedInSelect (unchecked list) name → Known table.schema name := by
  rw [SelectCompilable] at h
  rw [unchecked]
  split_ifs at h ⊢ with hcount hsum hplain
  · exact aggregate_names (ascii "COUNT") hfits (by decide) (fun _ ↦ .inl) hcount h
  · exact aggregate_names (ascii "SUM") hfits (by decide) (fun _ ↦ .inr) hsum h.1
  · constructor
    · rintro - name ⟨after, hname, -⟩
      exact absurd hname not_word_nil
    · rintro - name ⟨after, hname, -⟩
      have haccepted := (checkSelect_accepts hfits hnul).mpr h
      exact checkSelect_names hfits hnul (fun _ ↦ itemSeparator_select) haccepted hname
  · cases list with
    | nil => rfl
    | cons c cs =>
      have hc : c = 42 := by simpa using hplain
      have hstar : isSelectSeparator c = true := by
        rw [hc]
        rfl
      simp only [NamedInSelect, word_skip hstar, List.tail_cons]

end Select

/-- When a request with an unknown column is refused: it is refused for what the
compilation looks at, or every name that it does not look at is a column. -/
theorem unknown_column_refused_iff (table : LoadedTable) (hfits : Fits table.schema)
    (request : QueryRequest) (hnul : 0 ∉ request.selectList) :
    ((∃ name, Mentions request name ∧ findColumnIndex table.schema name = none) →
      (compileAndSendInstructions request table).error ≠ none) ↔
    (¬ Compilable table.schema (conditions request.whereMemory) ∨
      ¬ SelectCompilable table request.selectList ∨
        ∀ name, Overlooked request name → Known table.schema name) := by
  rw [ne_eq, compile_accepts, compileSelect_accepts hfits hnul]
  by_cases hwhere : Compilable table.schema (conditions request.whereMemory)
  swap
  · exact iff_of_true (fun _ h ↦ hwhere h.1) (.inl hwhere)
  by_cases hselect : SelectCompilable table request.selectList
  swap
  · exact iff_of_true (fun _ h ↦ hselect h.2) (.inr (.inl hselect))
  have hread : ∀ name, ReadIn request.whereMemory name → Known table.schema name := by
    rintro name ⟨cond, hcond, rfl⟩
    exact hwhere.2 cond hcond
  simp only [hwhere, hselect, and_self, not_true_eq_false, imp_false, not_exists, not_and, false_or]
  constructor
  · rintro hall name (hrest | ⟨hcompared, -⟩)
    · refine (select_names hfits hnul hselect).mp (fun name hname ↦ ?_) name hrest
      exact hall name (.select hname)
    · exact hall name (.compared hcompared)
  · rintro hall name (hname | hname | hname)
    · refine (select_names hfits hnul hselect).mpr (fun name hname ↦ ?_) name hname
      exact hall name (.select hname)
    · by_cases h : ReadIn request.whereMemory name
      · exact hread name h
      · exact hall name (.value hname h)
    · exact hread name hname

section Examples

def selectRequest (list : String) : QueryRequest := ⟨[], [], ascii list, [], 0⟩

theorem fits_columnA : Fits columnA.schema := by
  intro column hcolumn
  rw [List.mem_singleton.mp hcolumn]
  decide

theorem conditions_selectRequest (list : String) :
    conditions (selectRequest list).whereMemory = [] :=
  conditions_nil rfl

/-- The column Z is unknown, but neither list is looked at so far. -/
theorem hidden_column_accepted : ["*, Z", "COUNT(A), Z"].Forall (fun list ↦
    (compileAndSendInstructions (selectRequest list) columnA).error = none ∧
      ∃ name, Mentions (selectRequest list) name ∧ findColumnIndex columnA.schema name = none) := by
  have hlast (front : List UInt8) (hfront : ∀ ch ∈ front.getLast?, isSelectSeparator ch = true)
      (request : QueryRequest) (hrequest : request.selectList = front ++ [90]) :
      ∃ name, Mentions request name ∧ findColumnIndex columnA.schema name = none := by
    refine ⟨[90], .select ⟨[], ⟨front, hrequest, by simp, ?_, hfront, by simp⟩, ?_⟩, by decide⟩
    · exact List.forall_mem_singleton.mpr rfl
    · exact fun h ↦ absurd h.2 (by decide)
  refine ⟨⟨?_, hlast (ascii "*, ") ?_ _ rfl⟩, ?_, hlast (ascii "COUNT(A), ") ?_ _ rfl⟩
  · rw [compile_accepts, conditions_selectRequest]
    exact ⟨⟨by simp, by simp⟩, rfl⟩
  · rintro ch ⟨rfl⟩
    rfl
  · rw [compile_accepts, conditions_selectRequest]
    exact ⟨⟨by simp, by simp⟩, by decide⟩
  · rintro ch ⟨rfl⟩
    rfl

/-- A plain list is looked at to its end. -/
theorem plain_list_refused :
    (compileAndSendInstructions (selectRequest "A, Z") columnA).error ≠ none := by
  have hword : Word isItemSeparator (ascii "A, Z") [90] [] := by
    refine ⟨ascii "A, ", rfl, by simp, List.forall_mem_singleton.mpr rfl, ?_, by simp⟩
    rintro ch ⟨rfl⟩
    rfl
  have hnamed : NamedInSelect (ascii "A, Z") [90] := by
    refine ⟨[], ⟨ascii "A, ", rfl, by simp, List.forall_mem_singleton.mpr rfl, ?_, by simp⟩, ?_⟩
    · rintro ch ⟨rfl⟩
      rfl
    · exact fun h ↦ absurd h.2 (by decide)
  have hrefused : ¬ SelectCompilable columnA (ascii "A, Z") := by
    intro h
    rw [SelectCompilable, if_neg (by decide), if_neg (by decide), if_pos (by decide)] at h
    exact h _ _ hword (by decide)
  exact (unknown_column_refused_iff columnA fits_columnA (selectRequest "A, Z") (by decide)).mpr
    (.inr (.inl hrefused)) ⟨[90], .select hnamed, by decide⟩

end Examples

end FpgaDatabase.Firmware.UnknownColumns
