import FpgaDatabase.Firmware.FeedOutcome
import FpgaDatabase.Firmware.WhereRoundTrip
import FpgaDatabase.Reference.FpgaTest

namespace FpgaDatabase.Reference.Agreement

open Hardware.Stages Hardware.Pipeline Hardware.Streaming Hardware.Program Hardware.UserHw
open Firmware.CString Firmware.Request Firmware.Table Firmware.Compile Firmware.Emitted
open Firmware.FeedOutcome FpgaTest Firmware.Conditions Firmware.WhereRoundTrip
open Firmware.WhereText hiding isWord

inductive Op
  | eq
  | ne
  | lt
  | le
  | gt
  | ge
  deriving DecidableEq

def Op.spelling : Op → String
  | .eq => "="
  | .ne => "!="
  | .lt => "<"
  | .le => "<="
  | .gt => ">"
  | .ge => ">="

/-- A condition `col op v` on one-character operands. -/
structure Cond where
  col : UInt8
  op : Op
  val : UInt8

def Cond.text (c : Cond) : List UInt8 := c.col :: 32 :: (ascii c.op.spelling ++ [32, c.val])

def joined (cs : List Cond) : List UInt8 := cs.flatMap (fun c ↦ ascii " AND " ++ c.text)

def clause : List Cond → List UInt8
  | [] => []
  | c :: cs => c.text ++ joined cs

/-- A condition on a column of the table, with a letter or digit as its value. -/
structure Cond.Valid (columns : List UInt8) (c : Cond) : Prop where
  col_mem : c.col ∈ columns
  val_alnum : isalnum c.val = true

/-- One to four columns named by letters or digits that differ beyond case. -/
structure Columns (columns : List UInt8) : Prop where
  length_pos : 1 ≤ columns.length
  length_le : columns.length ≤ 4
  alnum : ∀ ch ∈ columns, isalnum ch = true
  distinct : (columns.map tolower).Nodup

def Op.operator : Op → Operator
  | .eq => .eq
  | .ne => .ne
  | .lt => .lt
  | .le => .le
  | .gt => .gt
  | .ge => .ge

def Cond.comparison (c : Cond) : Comparison := ⟨[c.col], c.op.operator, [c.val]⟩

def conditionOf (c : Cond) : Condition := ⟨[c.col], ascii c.op.spelling, signed c.val⟩

section Grammar

variable {c : Cond} {cs : List Cond} {pass tail : List UInt8}

theorem operator_spelling (op : Op) : op.operator.spelling = ascii op.spelling := by
  cases op <;> rfl

theorem comparison_text (c : Cond) : c.comparison.text 1 1 = c.text := by
  obtain ⟨col, op, val⟩ := c
  cases op <;> rfl

theorem comparison_wellFormed (hcol : isalnum c.col = true) (hval : isalnum c.val = true) :
    c.comparison.WellFormed := by
  have hand (ch : UInt8) : isAnd [ch] = false := decide_eq_false (by simp [ascii])
  have hquote : c.val ≠ 39 := alnum_ne hval (by decide)
  constructor
  · simp [isName, Cond.comparison, isNameChar_of_alnum hcol, hand]
  · simp [isValue, Firmware.WhereText.isWord, Cond.comparison, isNameChar_of_alnum hval, hand, hquote,
      isspace_of_alnum hval]

theorem comparison_ends (c : Cond) (cs : List Cond) : Ends c.comparison.value (joined cs) := by
  cases cs with
  | nil => exact .inl rfl
  | cons d ds => exact .inr (.inl rfl)

theorem continues_joined (h : ∀ c ∈ cs, isalnum c.col = true ∧ isalnum c.val = true) :
    Continues (cs.map Cond.comparison) (joined cs) := by
  induction cs with
  | nil => exact .done 0
  | cons c cs ih =>
    obtain ⟨⟨hcol, hval⟩, hrest⟩ := List.forall_mem_cons.mp h
    have hjoined : joined (c :: cs) = blanks 1 ++ (ascii "AND" ++ 32 ::
        (blanks 0 ++ (c.comparison.text 1 1 ++ joined cs))) := by
      rw [comparison_text]
      simp only [joined, List.flatMap_cons, List.append_assoc]
      rfl
    rw [List.map_cons, hjoined]
    exact .and 1 0 1 1 (by decide) (comparison_wellFormed hcol hval) (comparison_ends c cs)
      (ih hrest)

theorem prints_clause (h : ∀ c ∈ cs, isalnum c.col = true ∧ isalnum c.val = true) :
    Prints (cs.map Cond.comparison) (clause cs) := by
  cases cs with
  | nil => exact .blank 0
  | cons c cs =>
    obtain ⟨⟨hcol, hval⟩, hrest⟩ := List.forall_mem_cons.mp h
    have hclause : clause (c :: cs) = blanks 0 ++ (c.comparison.text 1 1 ++ joined cs) := by
      rw [comparison_text]
      rfl
    rw [List.map_cons, hclause]
    exact .clause 0 1 1 (comparison_wellFormed hcol hval) (comparison_ends c cs)
      (continues_joined hrest)

theorem scanned_condition (hval : isalnum c.val = true) (h : Stands c.comparison pass) :
    (scanCondition pass).1 = conditionOf c := by
  obtain ⟨hname, hop, tail, hends, hv⟩ := scanCondition_stands h
  have hliteral : Literal c.comparison.value c.val := by
    rcases Bool.or_eq_true_iff.mp hval with halpha | hdigit
    · exact .letter halpha
    · exact .digit hdigit
  rw [scanValue_literal hliteral hends] at hv
  rw [conditionOf, ← operator_spelling]
  generalize (scanCondition pass).1 = cond at hname hop hv
  obtain ⟨colName, opStr, val⟩ := cond
  rw [Condition.mk.injEq]
  exact ⟨hname, hop, hv⟩

theorem conditions_clause (h : ∀ c ∈ cs, isalnum c.col = true ∧ isalnum c.val = true)
    (ht : peek tail = 0) : conditions (clause cs ++ tail) = cs.map conditionOf := by
  have hstands := (passes_prints ht (prints_clause h)).1
  rw [List.forall₂_map_left_iff] at hstands
  rw [conditions]
  generalize passes (clause cs ++ tail) = ps at hstands
  induction hstands with
  | nil => rfl
  | cons hpass hrest ih =>
    rw [List.forall_mem_cons] at h
    rw [List.map_cons, List.map_cons, scanned_condition h.1.2 hpass, ih h.2]

end Grammar

structure HasColumns (schema : TableSchema) (columns : List UInt8) : Prop where
  names : schema.columns = columns.map (fun ch ↦ [ch])
  count : schema.columnCount = columns.length

def condInstruction (columns : List UInt8) (c : Cond) : Instruction :=
  whereInstruction (columns.idxOf c.col) (signed c.val) (opCode (ascii c.op.spelling))

/-- The character names a column, in either case. -/
def Refers (columns : List UInt8) (ch : UInt8) : Prop := ∃ d ∈ columns, tolower d = tolower ch

def spelled (columns : List UInt8) (ch : UInt8) : UInt8 :=
  (columns.find? (fun d ↦ tolower d = tolower ch)).getD ch

def Cond.respelled (columns : List UInt8) (c : Cond) : Cond := { c with col := spelled columns c.col }

def respelled (columns : List UInt8) (cs : List Cond) : List Cond := cs.map (Cond.respelled columns)

section Spelling

variable {columns : List UInt8} {schema : TableSchema} {ch : UInt8} {c : Cond}

theorem spelled_mem (h : Refers columns ch) :
    spelled columns ch ∈ columns ∧ tolower (spelled columns ch) = tolower ch := by
  obtain ⟨d, hd, hlower⟩ := h
  have hsome : (columns.find? (fun d ↦ tolower d = tolower ch)).isSome := by
    rw [List.find?_isSome]
    exact ⟨d, hd, by simpa using hlower⟩
  obtain ⟨e, he⟩ := Option.isSome_iff_exists.mp hsome
  have hsame : tolower e = tolower ch := by simpa using List.find?_some he
  rw [spelled, he, Option.getD_some]
  exact ⟨List.mem_of_find?_eq_some he, hsame⟩

theorem spelled_self (hcols : Columns columns) (hmem : ch ∈ columns) : spelled columns ch = ch := by
  obtain ⟨hin, hlower⟩ := spelled_mem ⟨ch, hmem, rfl⟩
  exact List.inj_on_of_nodup_map hcols.distinct hin hmem hlower


theorem findColumnIndex_lower {d : UInt8} (h : tolower d = tolower ch) :
    findColumnIndex schema [ch] = findColumnIndex schema [d] := by
  rw [findColumnIndex, findColumnIndex]
  congr 1
  funext column
  rw [decide_eq_decide]
  exact names_iff.symm.trans ((by rw [Names, Names, h] : Names ch column ↔ Names d column).trans
    names_iff)

theorem refers_of_found (hschema : HasColumns schema columns)
    (h : findColumnIndex schema [ch] ≠ none) : Refers columns ch := by
  obtain ⟨idx, hidx⟩ := Option.ne_none_iff_exists'.mp h
  obtain ⟨-, ⟨column, hcolumn, d, hd, hlower⟩, -⟩ := findColumnIndex_first.mp hidx
  rw [hschema.names, List.getElem?_map] at hcolumn
  obtain ⟨e, he, rfl⟩ := Option.map_eq_some_iff.mp hcolumn
  rw [← peek_of_takeWhile hd] at hlower
  exact ⟨e, List.mem_of_getElem? he, hlower⟩

end Spelling

section Compiler

variable {columns : List UInt8} {schema : TableSchema} {cs : List Cond} {tail : List UInt8}

theorem findColumnIndex_mem (hcols : Columns columns) (hschema : HasColumns schema columns)
    {ch : UInt8} (hmem : ch ∈ columns) :
    findColumnIndex schema [ch] = some (columns.idxOf ch) := by
  have hlt : columns.idxOf ch < columns.length := List.idxOf_lt_length_of_mem hmem
  have hidx : columns[columns.idxOf ch]? = some ch := by
    rw [List.getElem?_eq_getElem hlt, List.getElem_idxOf]
  have hne : ch ≠ 0 := alnum_ne (hcols.alnum ch hmem) (by decide)
  rw [findColumnIndex_first]
  refine ⟨by rwa [hschema.count], ⟨[ch], ?_, ch, by simp [hne], rfl⟩, ?_⟩
  · rw [hschema.names, List.getElem?_map, hidx, Option.map_some]
  · -- No column before it has the same name, since the names differ beyond case.
    rintro i hi column hcolumn ⟨d, hd, hlower⟩
    have hi' : i < columns.length := hi.trans hlt
    rw [hschema.names, List.getElem?_map, List.getElem?_eq_getElem hi', Option.map_some,
      Option.some_inj] at hcolumn
    have hsame : columns[i] = d := by rw [← peek_of_takeWhile hd, ← hcolumn, peek_cons]
    have heq : (columns.map tolower)[i]? = (columns.map tolower)[columns.idxOf ch]? := by
      rw [List.getElem?_map, List.getElem?_map, List.getElem?_eq_getElem hi', hidx,
        Option.map_some, Option.map_some, hsame, hlower]
    have hinj := (List.getElem?_inj (by simpa using hi') hcols.distinct).mp heq
    omega

theorem valid_alnum (hcols : Columns columns) (hvalid : ∀ c ∈ cs, c.Valid columns) :
    ∀ d ∈ cs, isalnum d.col = true ∧ isalnum d.val = true :=
  fun d hd ↦ ⟨hcols.alnum _ (hvalid d hd).col_mem, (hvalid d hd).val_alnum⟩

theorem findColumnIndex_spelled (hcols : Columns columns) (hschema : HasColumns schema columns)
    {ch : UInt8} (h : Refers columns ch) :
    findColumnIndex schema [ch] = some (columns.idxOf (spelled columns ch)) := by
  obtain ⟨hmem, hlower⟩ := spelled_mem h
  rw [findColumnIndex_lower hlower, findColumnIndex_mem hcols hschema hmem]

theorem conditionOf_known (hcols : Columns columns) (hschema : HasColumns schema columns) :
    (∀ cond ∈ cs.map conditionOf, findColumnIndex schema cond.colName ≠ none) ↔
      ∀ c ∈ cs, Refers columns c.col := by
  rw [List.forall_mem_map]
  refine forall₂_congr fun c _ ↦ ⟨refers_of_found hschema, fun h ↦ ?_⟩
  rw [conditionOf, findColumnIndex_spelled hcols hschema h]
  exact Option.some_ne_none _

theorem instructionOf_cond (hcols : Columns columns) (hschema : HasColumns schema columns)
    {c : Cond} (h : Refers columns c.col) :
    instructionOf schema (conditionOf c) = condInstruction columns (c.respelled columns) := by
  rw [instructionOf, conditionOf, findColumnIndex_spelled hcols hschema h]
  rfl

theorem compilable_conds (hcols : Columns columns) (hschema : HasColumns schema columns)
    (halnum : ∀ c ∈ cs, isalnum c.col = true ∧ isalnum c.val = true) (ht : peek tail = 0) :
    Compilable schema (conditions (clause cs ++ tail)) ↔
      cs.length ≤ 4 ∧ ∀ c ∈ cs, Refers columns c.col := by
  rw [conditions_clause halnum ht, Compilable, List.length_map, conditionOf_known hcols hschema]

/-- Every condition compiles to one instruction, in whichever case it names its column. -/
theorem compileWhere_conds (hcols : Columns columns) (hschema : HasColumns schema columns)
    (halnum : ∀ c ∈ cs, isalnum c.col = true ∧ isalnum c.val = true) (ht : peek tail = 0)
    (hn : cs.length ≤ 4) (hrefers : ∀ c ∈ cs, Refers columns c.col) :
    compileWhere schema 0 (clause cs ++ tail) =
      ⟨(respelled columns cs).map (condInstruction columns), none⟩ := by
  have hcompilable := (compilable_conds hcols hschema halnum ht).mpr ⟨hn, hrefers⟩
  have hsent := compileWhere_sends (Nat.zero_le 4) hcompilable.2
  have herror := (compileWhere_accepts (Nat.zero_le 4)).mpr
    ⟨by simpa using hcompilable.1, hcompilable.2⟩
  rw [conditions_clause halnum ht, List.map_map, List.take_of_length_le (by simpa using hn)] at hsent
  generalize compileWhere schema 0 (clause cs ++ tail) = compiled at hsent herror
  obtain ⟨sent, error⟩ := compiled
  rw [Compiled.mk.injEq, respelled, List.map_map]
  refine ⟨hsent.trans (List.map_congr_left fun c hc ↦ ?_), herror⟩
  exact instructionOf_cond hcols hschema (hrefers c hc)

theorem valid_refers (hvalid : ∀ c ∈ cs, c.Valid columns) : ∀ c ∈ cs, Refers columns c.col :=
  fun c hc ↦ ⟨c.col, (hvalid c hc).col_mem, rfl⟩

theorem respelled_self (hcols : Columns columns) (hmem : ∀ c ∈ cs, c.col ∈ columns) :
    respelled columns cs = cs := by
  refine (List.map_congr_left fun c hc ↦ ?_).trans (List.map_id cs)
  rw [Cond.respelled, spelled_self hcols (hmem c hc), id]

theorem valid_respelled (halnum : ∀ c ∈ cs, isalnum c.col = true ∧ isalnum c.val = true)
    (hrefers : ∀ c ∈ cs, Refers columns c.col) :
    ∀ c ∈ respelled columns cs, c.Valid columns := by
  rw [respelled, List.forall_mem_map]
  exact fun c hc ↦ ⟨(spelled_mem (hrefers c hc)).1, (halnum c hc).2⟩

theorem text_length (c : Cond) : c.text.length ≤ 6 := by
  obtain ⟨col, op, val⟩ := c
  cases op <;> simp [Cond.text, Op.spelling, ascii]

theorem clause_length (hn : cs.length ≤ 4) : (clause cs).length < 256 := by
  have hjoined (ds : List Cond) : (joined ds).length ≤ 11 * ds.length := by
    induction ds with
    | nil => simp [joined]
    | cons d ds ih =>
      have hd := text_length d
      have hand : (ascii " AND ").length = 5 := rfl
      simp only [joined, List.flatMap_cons, List.length_append, List.length_cons, hand] at ih ⊢
      omega
  cases cs with
  | nil => simp [clause]
  | cons c cs =>
    have hc := text_length c
    have hj := hjoined cs
    rw [List.length_cons] at hn
    rw [clause, List.length_append]
    omega

end Compiler

def latin (text : List UInt8) : Str := text.map UInt8.toNat

section Python

variable {columns : List UInt8} {c : Cond} {cs : List Cond}

theorem splitAnd_cons {x : ℕ} {rest : Str}
    (h : ∀ t, x :: rest ≠ 32 :: 65 :: 78 :: 68 :: 32 :: t) :
    splitAnd (x :: rest) = (splitAnd rest).modifyHead (x :: ·) := by
  rw [splitAnd]
  intro t hx hrest
  exact h t (by rw [hx, hrest])

theorem splitAnd_word {xs : Str} (hxs : ∀ x ∈ xs, x ≠ 32) (rest : Str) :
    splitAnd (xs ++ rest) = (splitAnd rest).modifyHead (xs ++ ·) := by
  induction xs with
  | nil =>
    rw [List.nil_append]
    cases splitAnd rest <;> rfl
  | cons x xs ih =>
    rw [List.cons_append, splitAnd_cons, ih (fun y hy ↦ hxs y (by simp [hy]))]
    · simp [Function.comp_def]
    · intro t he
      exact hxs x (by simp) (List.cons.inj he).1

theorem latin_text (c : Cond) :
    latin c.text = [c.col.toNat] ++ 32 :: (str c.op.spelling ++ 32 :: [c.val.toNat]) := by
  have hop : (ascii c.op.spelling).map UInt8.toNat = str c.op.spelling := by
    cases c.op <;> decide
  simp [latin, Cond.text, hop]

theorem spelling_head (op : Op) (rest : Str) : ∃ x t, str op.spelling ++ rest = x :: t ∧ x ≠ 65 := by
  cases op <;> exact ⟨_, _, rfl, by decide⟩

theorem splitAnd_text (hcol : isalnum c.col = true) (hval : isalnum c.val = true) {rest : Str}
    (hrest : rest.head? ≠ some 78) :
    splitAnd (latin c.text ++ rest) = (splitAnd rest).modifyHead (latin c.text ++ ·) := by
  have hc := alnum_range hcol
  have hv := alnum_range hval
  have hop : ∀ x ∈ str c.op.spelling, x ≠ 32 := by
    cases c.op <;> decide
  have h₁ (t : Str) : 32 :: (str c.op.spelling ++ (32 :: ([c.val.toNat] ++ rest))) ≠
      32 :: 65 :: 78 :: 68 :: 32 :: t := by
    obtain ⟨x, u, hx, hne⟩ := spelling_head c.op (32 :: ([c.val.toNat] ++ rest))
    rw [hx]
    intro he
    exact hne (List.cons.inj (List.cons.inj he).2).1
  have h₂ (t : Str) : 32 :: ([c.val.toNat] ++ rest) ≠ 32 :: 65 :: 78 :: 68 :: 32 :: t := by
    intro he
    simp only [List.singleton_append, List.cons.injEq] at he
    obtain ⟨-, -, hr⟩ := he
    apply hrest
    rw [hr]
    rfl
  have hsplit : latin c.text ++ rest = [c.col.toNat] ++ (32 :: (str c.op.spelling ++
      (32 :: ([c.val.toNat] ++ rest)))) := by
    rw [latin_text]
    simp
  rw [hsplit, splitAnd_word (by simp only [List.mem_singleton, forall_eq]; omega),
    splitAnd_cons h₁, splitAnd_word hop, splitAnd_cons h₂,
    splitAnd_word (by simp only [List.mem_singleton, forall_eq]; omega), latin_text]
  simp [Function.comp_def]

theorem splitAnd_clause (hvalid : ∀ d ∈ c :: cs, isalnum d.col = true ∧ isalnum d.val = true) :
    splitAnd (latin (clause (c :: cs))) = (c :: cs).map (fun d ↦ latin d.text) := by
  induction cs generalizing c with
  | nil =>
    obtain ⟨hcol, hval⟩ := hvalid c (by simp)
    have h := splitAnd_text hcol hval (show ([] : Str).head? ≠ some 78 by simp)
    simpa [clause, joined, splitAnd] using h
  | cons d cs ih =>
    obtain ⟨hcol, hval⟩ := hvalid c (by simp)
    have hrest : latin (clause (c :: d :: cs)) = latin c.text ++
        (32 :: 65 :: 78 :: 68 :: 32 :: latin (clause (d :: cs))) := by
      simp only [clause, joined, latin, List.flatMap_cons, List.map_append, List.append_assoc]
      rfl
    rw [hrest, splitAnd_text hcol hval (by simp), splitAnd, ih (fun e he ↦ hvalid e (by simp_all))]
    simp

theorem isSpace_of_alnum {ch : UInt8} (h : isalnum ch = true) : isSpace ch.toNat = false := by
  have hr := alnum_range h
  simp only [isSpace, Bool.or_eq_false_iff, Bool.and_eq_false_iff, decide_eq_false_iff_not]
  omega

theorem isWord_of_alnum {ch : UInt8} (h : isalnum ch = true) : isWord ch.toNat = true := by
  have hr := alnum_range h
  simp only [isWord, isDecimal, Bool.or_eq_true, Bool.and_eq_true, decide_eq_true_eq]
  omega

theorem strip_text (hcol : isalnum c.col = true) (hval : isalnum c.val = true) :
    strip (latin c.text) = latin c.text := by
  have hfront : (latin c.text).dropWhile isSpace = latin c.text := by
    rw [latin_text, List.singleton_append, List.dropWhile_cons, isSpace_of_alnum hcol]
    rfl
  have hback : latin c.text =
      ([c.col.toNat] ++ 32 :: (str c.op.spelling ++ [32])) ++ [c.val.toNat] := by
    rw [latin_text]
    simp
  rw [strip, hfront, hback, List.rdropWhile_concat_neg _ _ _ (by simp [isSpace_of_alnum hval])]

theorem takeWhile_spelling (op : Op) (rest : Str) :
    (str op.spelling ++ 32 :: rest).takeWhile isOperator = str op.spelling ∧
      (str op.spelling ++ 32 :: rest).dropWhile isOperator = 32 :: rest ∧
      (str op.spelling ++ 32 :: rest).dropWhile isSpace = str op.spelling ++ 32 :: rest ∧
      str op.spelling ≠ [] := by
  cases op <;> exact ⟨rfl, rfl, rfl, by decide⟩

theorem matchCondition_text (hcol : isalnum c.col = true) (hval : isalnum c.val = true) :
    matchCondition (latin c.text) = some ([c.col.toNat], str c.op.spelling, [c.val.toNat]) := by
  have h₁ := isWord_of_alnum hcol
  have h₂ := isWord_of_alnum hval
  have h₃ := isSpace_of_alnum hval
  have hword : isWord 32 = false := by decide
  have hspace : isSpace 32 = true := by decide
  obtain ⟨t₁, t₂, t₃, t₄⟩ := takeWhile_spelling c.op [c.val.toNat]
  rw [latin_text, matchCondition]
  simp only [List.singleton_append, List.takeWhile_cons, List.dropWhile_cons, h₁, h₂, h₃, hword,
    hspace, if_true, Bool.false_eq_true, if_false, t₁, t₂, t₃, List.takeWhile_nil]
  rw [if_neg (by simp [t₄])]

/-- The reference parser reads the conditions back. -/
theorem parseConditions_clause
    (hvalid : ∀ d ∈ cs, isalnum d.col = true ∧ isalnum d.val = true) :
    parseConditions (latin (clause cs)) =
      cs.map (fun d ↦ ([d.col.toNat], str d.op.spelling, [d.val.toNat])) := by
  cases cs with
  | nil => rfl
  | cons c cs =>
    have hne : latin (clause (c :: cs)) ≠ [] := by simp [latin, clause, Cond.text]
    rw [parseConditions, if_neg hne, splitAnd_clause hvalid, List.filterMap_map,
      ← List.filterMap_eq_map]
    refine List.filterMap_congr fun d hd ↦ ?_
    obtain ⟨hcol, hval⟩ := hvalid d hd
    simp only [Function.comp_apply]
    rw [strip_text hcol hval, matchCondition_text hcol hval]

end Python

section Comparison

theorem float_digit (n : ℕ) : float [n] = if isDecimal n then some (n - 48) else none := by
  cases h : isDecimal n <;> simp [float, h]

theorem compareNat_eq (m n : ℕ) :
    compare m n = if m < n then .lt else if m = n then .eq else .gt := rfl

/-- Blank cells are below every letter and digit, as their bytes are, and one-character
numbers and strings are ordered as their bytes are. -/
theorem compareCells_byte (b : UInt8) {v : UInt8} (hv : isalnum v = true) :
    compareCells (decodeFixed [b]) [v.toNat] = compare b.toNat v.toNat := by
  have hr := alnum_range hv
  by_cases hblank : b.toNat = 32 ∨ b.toNat = 0
  · have hnil : decodeFixed [b] = [] := by
      rcases hblank with h | h <;> simp [decodeFixed, List.rdropWhile, h]
    have hlt : b.toNat < v.toNat := by omega
    have hcmp : compareCells [] [v.toNat] = .lt := by
      have hnone : float [] = none := by simp [float]
      simp [compareCells, hnone]
    rw [hnil, hcmp, compareNat_eq, if_pos hlt]
  · have hone : decodeFixed [b] = [b.toNat] := by
      push Not at hblank
      simp [decodeFixed, List.rdropWhile, hblank.1, hblank.2]
    have hsingle (m n : ℕ) : ([m] : Str) < [n] ↔ m < n := by
      simp [List.cons_lt_cons_iff]
    rw [hone, compareCells, float_digit, float_digit]
    cases hb : isDecimal b.toNat <;> cases hd : isDecimal v.toNat <;>
      simp only [if_true, Bool.false_eq_true, if_false, hsingle, List.cons.injEq, and_true,
        compareNat_eq]
    simp only [isDecimal, Bool.and_eq_true, decide_eq_true_eq] at hb hd
    have h₁ : b.toNat - 48 < v.toNat - 48 ↔ b.toNat < v.toNat := by omega
    have h₂ : b.toNat - 48 = v.toNat - 48 ↔ b.toNat = v.toNat := by omega
    simp only [h₁, h₂]

def Op.holds (op : Op) (m n : ℕ) : Bool :=
  match op with
  | .eq => m = n
  | .ne => m ≠ n
  | .lt => m < n
  | .le => m ≤ n
  | .gt => n < m
  | .ge => n ≤ m

theorem verdict_compare (op : Op) (m n : ℕ) :
    verdict (str op.spelling) (compare m n) = op.holds m n := by
  have hverdict : verdict (str op.spelling) (compare m n) = match op with
      | .eq => decide (compare m n = .eq)
      | .ne => decide (compare m n ≠ .eq)
      | .lt => decide (compare m n = .lt)
      | .le => decide (compare m n ≠ .gt)
      | .gt => decide (compare m n = .gt)
      | .ge => decide (compare m n ≠ .lt) := by
    cases op <;> rfl
  rw [hverdict]
  rcases Nat.lt_trichotomy m n with h | h | h
  · rw [Nat.compare_eq_lt.mpr h]
    cases op <;> simp [Op.holds] <;> omega
  · rw [Nat.compare_eq_eq.mpr h]
    cases op <;> simp [Op.holds] <;> omega
  · rw [Nat.compare_eq_gt.mpr h]
    cases op <;> simp [Op.holds] <;> omega

theorem opResult_holds (op : Op) (b v : UInt8) :
    opResult (BitVec.ofNat 3 (opCode (ascii op.spelling))) v.toBitVec b.toBitVec =
      op.holds b.toNat v.toNat := by
  have heq : b.toBitVec = v.toBitVec ↔ b.toNat = v.toNat := by
    rw [UInt8.toBitVec_inj, UInt8.toNat_inj]
  cases op with
  | eq => exact decide_eq_decide.mpr heq
  | ne => exact decide_eq_decide.mpr (not_congr heq)
  | lt => rfl
  | le => rfl
  | gt => rfl
  | ge => rfl

/-- The instruction of a condition tests the cell as the condition says. -/
theorem cellTest_cond {columns : List UInt8} (hcols : Columns columns) {c : Cond}
    (hc : c.Valid columns) (r : Cells) :
    cellTest (condInstruction columns c) r =
      c.op.holds (r.bytes.getD (columns.idxOf c.col) 0).toNat c.val.toNat := by
  have hlt : columns.idxOf c.col < columns.length := List.idxOf_lt_length_of_mem hc.col_mem
  have hle := hcols.length_le
  rw [cellTest, condInstruction, whereOp_where, whereValue_where, whereColumn_where,
    Nat.mod_eq_of_lt (by omega), ofInt_signed, opResult_holds]

end Comparison

section Dictionary

variable {columns : List UInt8}

theorem lookup_reverse {α β : Type*} [BEq α] [LawfulBEq α] {l : List (α × β)} {i : ℕ} {k : α}
    {v : β} (hi : l[i]? = some (k, v)) (hnodup : (l.map Prod.fst).Nodup) :
    l.reverse.lookup k = some v := by
  obtain ⟨hlt, hget⟩ := List.getElem?_eq_some_iff.mp hi
  rw [List.lookup_eq_some_iff]
  refine ⟨(l.drop (i + 1)).reverse, (l.take i).reverse, ?_, ?_⟩
  · conv_lhs => rw [← List.take_append_drop i l, List.drop_eq_getElem_cons hlt, hget]
    simp
  · intro p hp
    rw [List.mem_reverse] at hp
    obtain ⟨j, hj⟩ := List.mem_iff_getElem?.mp hp
    rw [List.getElem?_drop] at hj
    rw [bne_iff_ne]
    intro hk
    have hsame : (l.map Prod.fst)[i]? = (l.map Prod.fst)[i + 1 + j]? := by
      rw [List.getElem?_map, List.getElem?_map, hi, hj, Option.map_some, Option.map_some, hk]
    have hinj := (List.getElem?_inj (by simpa using hlt) hnodup).mp hsame
    omega

def names (columns : List UInt8) : List Str := columns.map (fun ch ↦ [ch.toNat])

def decodeRow (r : Cells) : List Str := r.bytes.map (fun b ↦ decodeFixed [b])

theorem rowDict_mem (hcols : Columns columns) {ch : UInt8} (hmem : ch ∈ columns) (r : Cells) :
    rowDict (names columns) (decodeRow r) [ch.toNat] =
      some (decodeFixed [r.bytes.getD (columns.idxOf ch) 0]) := by
  have hlt : columns.idxOf ch < columns.length := List.idxOf_lt_length_of_mem hmem
  have hle := hcols.length_le
  have hlen : r.bytes.length = 4 := by simp [Cells.bytes]
  have hname : (names columns)[columns.idxOf ch]? = some [ch.toNat] := by
    rw [names, List.getElem?_map, List.getElem?_eq_getElem hlt, List.getElem_idxOf,
      Option.map_some]
  have hcell : (decodeRow r)[columns.idxOf ch]? =
      some (decodeFixed [r.bytes.getD (columns.idxOf ch) 0]) := by
    have hlt' : columns.idxOf ch < r.bytes.length := by omega
    rw [decodeRow, List.getElem?_map, List.getD_eq_getElem?_getD, List.getElem?_eq_getElem hlt']
    rfl
  have hkeys : ((names columns).zip (decodeRow r)).map Prod.fst = names columns := by
    apply List.map_fst_zip
    simp only [names, decodeRow, List.length_map, hlen]
    exact hle
  have hnodup : (names columns).Nodup := by
    have hinj : Function.Injective (fun ch : UInt8 ↦ ([ch.toNat] : Str)) := by
      intro a b hab
      exact UInt8.toNat_inj.mp (List.cons.inj hab).1
    exact hcols.distinct.of_map.map hinj
  apply lookup_reverse (i := columns.idxOf ch) _ (by rw [hkeys]; exact hnodup)
  rw [List.getElem?_zip_eq_some]
  exact ⟨hname, hcell⟩

theorem rowDict_absent {ch : UInt8} (h : ch ∉ columns) (r : Cells) :
    rowDict (names columns) (decodeRow r) [ch.toNat] = none := by
  rw [rowDict, List.lookup_eq_none_iff]
  intro p hp
  rw [List.mem_reverse] at hp
  obtain ⟨d, hd, hname⟩ := List.mem_map.mp (List.of_mem_zip hp).1
  rw [bne_iff_ne, ← hname]
  intro he
  exact h (UInt8.toNat_inj.mp (List.cons.inj he).1 ▸ hd)

end Dictionary

section Rows

variable {columns : List UInt8} {cs : List Cond} {schema : TableSchema} {request : QueryRequest}
  {prog : List Instruction}

def rowHolds (columns : List UInt8) (cs : List Cond) (r : Cells) : Bool :=
  cs.all (fun c ↦ c.op.holds (r.bytes.getD (columns.idxOf c.col) 0).toNat c.val.toNat)

/-- The reference looks for the columns as they are written. -/
theorem evaluateRow_conds (hcols : Columns columns)
    (halnum : ∀ c ∈ cs, isalnum c.col = true ∧ isalnum c.val = true) (r : Cells) :
    evaluateRow (rowDict (names columns) (decodeRow r)) (parseConditions (latin (clause cs))) = true ↔
      (∀ c ∈ cs, c.col ∈ columns) ∧ rowHolds columns cs r = true := by
  rw [parseConditions_clause halnum, evaluateRow, rowHolds, List.all_map, List.all_eq_true,
    List.all_eq_true, ← forall₂_and]
  refine forall₂_congr fun c hc ↦ ?_
  by_cases hmem : c.col ∈ columns
  · simp only [Function.comp_apply, rowDict_mem hcols hmem, compareCells_byte _ (halnum c hc).2,
      verdict_compare, hmem, true_and]
  · simp [rowDict_absent hmem, hmem]

theorem evaluateRow_clause (hcols : Columns columns) (hvalid : ∀ c ∈ cs, c.Valid columns)
    (r : Cells) :
    evaluateRow (rowDict (names columns) (decodeRow r)) (parseConditions (latin (clause cs))) =
      rowHolds columns cs r := by
  rw [Bool.eq_iff_iff, evaluateRow_conds hcols (valid_alnum hcols hvalid)]
  exact and_iff_right fun c hc ↦ (hvalid c hc).col_mem

theorem matching_conds (hcols : Columns columns) (hvalid : ∀ c ∈ cs, c.Valid columns)
    (hw : wheres prog = cs.map (condInstruction columns)) (r : Cells) :
    matching prog r = rowHolds columns cs r := by
  rw [matching, hw, rowHolds, List.all_map, Bool.eq_iff_iff, List.all_eq_true, List.all_eq_true]
  refine forall₂_congr fun c hc ↦ ?_
  rw [Function.comp_apply, cellTest_cond hcols (hvalid c hc)]

theorem compileWhere_request (hcols : Columns columns) (hschema : HasColumns schema columns)
    (halnum : ∀ c ∈ cs, isalnum c.col = true ∧ isalnum c.val = true) (hle : cs.length ≤ 4)
    (hrefers : ∀ c ∈ cs, Refers columns c.col) (hclause : request.whereClause = clause cs) :
    compileWhere schema 0 request.whereMemory =
      ⟨(respelled columns cs).map (condInstruction columns), none⟩ := by
  have hlen : request.whereClause.length < sqlMaxLen := by
    rw [hclause]
    exact clause_length hle
  obtain ⟨tail, ht, hmem⟩ := whereMemory_eq hlen
  rw [hmem, hclause]
  exact compileWhere_conds hcols hschema halnum ht hle hrefers

end Rows

/-- A clause is accepted if all its columns are columns of the table, in either case, and then it
tests every row as the reference evaluator does if the columns are spelled as in the table. The
evaluator itself takes other spellings for unknown columns, so that it agrees exactly if there are
none or the row fails the test. -/
theorem compiled_filter_agrees_iff (columns : List UInt8) (hcols : Columns columns)
    (conds : List Cond) (hle : conds.length ≤ 4)
    (halnum : ∀ c ∈ conds, isalnum c.col = true ∧ isalnum c.val = true) (table : LoadedTable)
    (hschema : HasColumns table.schema columns) (request : QueryRequest)
    (hclause : request.whereClause = clause conds) (f : Fetcher generics) (r : Cells) :
    ((compileWhere table.schema 0 request.whereMemory).error = none ↔
      ∀ c ∈ conds, Refers columns c.col) ∧
    ((∀ c ∈ conds, Refers columns c.col) →
      rowMatches (loaded f (compileAndSendInstructions request table).sent) r.word =
        evaluateRow (rowDict (names columns) (decodeRow r))
          (parseConditions (latin (clause (respelled columns conds)))) ∧
      (rowMatches (loaded f (compileAndSendInstructions request table).sent) r.word =
        evaluateRow (rowDict (names columns) (decodeRow r))
          (parseConditions (latin request.whereClause)) ↔
        (∀ c ∈ conds, c.col ∈ columns) ∨
          rowHolds columns (respelled columns conds) r = false)) := by
  refine ⟨?_, fun hrefers ↦ ?_⟩
  · have hlen : request.whereClause.length < sqlMaxLen := by
      rw [hclause]
      exact clause_length hle
    obtain ⟨tail, ht, hmem⟩ := whereMemory_eq hlen
    rw [compileWhere_accepts (Nat.zero_le 4), Nat.zero_add, hmem, hclause]
    exact (compilable_conds hcols hschema halnum ht).trans (and_iff_right hle)
  have hvalid := valid_respelled halnum hrefers
  have hwheres : wheres (compileAndSendInstructions request table).sent =
      (respelled columns conds).map (condInstruction columns) := by
    rw [wheres_emitted, compileWhere_request hcols hschema halnum hle hrefers hclause]
  have hrow : rowMatches (loaded f (compileAndSendInstructions request table).sent) r.word =
      rowHolds columns (respelled columns conds) r := by
    rw [rowMatches_word f (wheres_emitted_length request table), matching_conds hcols hvalid hwheres]
  refine ⟨by rw [hrow, evaluateRow_clause hcols hvalid], ?_⟩
  rw [hrow, hclause, Bool.eq_iff_iff, evaluateRow_conds hcols halnum]
  by_cases hspelled : ∀ c ∈ conds, c.col ∈ columns
  · rw [respelled_self hcols hspelled]
    exact iff_of_true (by rw [and_iff_right hspelled]) (.inl hspelled)
  · simp [hspelled]

section Examples

def sampleColumns : List UInt8 := [65, 66]

def sampleConds : List Cond := [⟨65, .ge, 53⟩, ⟨66, .ne, 97⟩]

def sampleTable : LoadedTable := ⟨⟨1, 2, 1, 4, [[65], [66]]⟩, []⟩

def sampleRequest : QueryRequest := ⟨[], [], ascii "*", clause sampleConds, 0⟩

def sampleRow : Cells := ![55, 32, 0, 0]

theorem sample_columns : Columns sampleColumns :=
  ⟨by decide, by decide, by decide +kernel, by decide +kernel⟩

theorem sample_agrees : evaluateRow (rowDict (names sampleColumns) (decodeRow sampleRow))
      (parseConditions (latin sampleRequest.whereClause)) = true ∧
    rowMatches (loaded (State.powerUp generics).fetcher
      (compileAndSendInstructions sampleRequest sampleTable).sent) sampleRow.word = true := by
  have halnum : ∀ c ∈ sampleConds, isalnum c.col = true ∧ isalnum c.val = true := by
    simp only [sampleConds, List.forall_mem_cons, List.not_mem_nil, false_implies, implies_true,
      and_true]
    exact ⟨⟨by decide, by decide⟩, ⟨by decide, by decide⟩⟩
  have hspelled : ∀ c ∈ sampleConds, c.col ∈ sampleColumns := by
    simp only [sampleConds, List.forall_mem_cons, List.not_mem_nil, false_implies, implies_true,
      and_true]
    exact ⟨by decide, by decide⟩
  have hreference : evaluateRow (rowDict (names sampleColumns) (decodeRow sampleRow))
      (parseConditions (latin sampleRequest.whereClause)) = true := by decide
  have hagrees := (compiled_filter_agrees_iff sampleColumns sample_columns sampleConds (by decide)
    halnum sampleTable ⟨rfl, rfl⟩ sampleRequest rfl (State.powerUp generics).fetcher sampleRow).2
    fun c hc ↦ ⟨c.col, hspelled c hc, rfl⟩
  exact ⟨hreference, (hagrees.2.mpr (.inl hspelled)).trans hreference⟩

def lowerRequest : QueryRequest := ⟨[], [], ascii "*", clause [⟨97, .eq, 53⟩], 0⟩

def upperTable : LoadedTable := ⟨⟨1, 1, 1, 4, [[65]]⟩, []⟩

/-- The row with a 5 passes the filter, and the reference knows no column a. -/
theorem lower_case_disagrees :
    (compileWhere upperTable.schema 0 lowerRequest.whereMemory).error = none ∧
    rowMatches (loaded (State.powerUp generics).fetcher
      (compileAndSendInstructions lowerRequest upperTable).sent) (Cells.word ![53, 32, 32, 32]) = true ∧
    evaluateRow (rowDict (names [65]) (decodeRow ![53, 32, 32, 32]))
      (parseConditions (latin lowerRequest.whereClause)) = false := by
  have hcols : Columns [65] := ⟨by decide, by decide, by decide +kernel, by decide +kernel⟩
  have hschema : HasColumns upperTable.schema [65] := ⟨rfl, rfl⟩
  have halnum : ∀ c ∈ [(⟨97, .eq, 53⟩ : Cond)], isalnum c.col = true ∧ isalnum c.val = true :=
    List.forall_mem_singleton.mpr ⟨by decide, by decide⟩
  have hrefers : ∀ c ∈ [(⟨97, .eq, 53⟩ : Cond)], Refers [65] c.col :=
    List.forall_mem_singleton.mpr ⟨65, by decide, by decide⟩
  have hcompiled : compileWhere upperTable.schema 0 lowerRequest.whereMemory =
      ⟨[condInstruction [65] ⟨65, .eq, 53⟩], none⟩ :=
    compileWhere_request hcols hschema halnum (by decide) hrefers rfl
  have hwheres : wheres (compileAndSendInstructions lowerRequest upperTable).sent =
      [(⟨65, .eq, 53⟩ : Cond)].map (condInstruction [65]) := by
    rw [wheres_emitted, hcompiled]
    rfl
  refine ⟨by rw [hcompiled], ?_, by decide⟩
  rw [rowMatches_word _ (wheres_emitted_length lowerRequest upperTable),
    matching_conds hcols (List.forall_mem_singleton.mpr ⟨by decide, by decide⟩) hwheres]
  decide

end Examples

end FpgaDatabase.Reference.Agreement
