import FpgaDatabase.Firmware.Completion
import FpgaDatabase.Firmware.SumCheck
import FpgaDatabase.Reference.Agreement
import FpgaDatabase.Reference.WrittenTables

namespace FpgaDatabase.Reference.AggregateLimit

open Hardware.Stages Hardware.Pipeline Hardware.Streaming Hardware.Program Hardware.UserHw
open Library.Quota Firmware.CString Firmware.Driver Firmware.FeedInvariant Firmware.FeedRun
open Firmware.Request Firmware.Compile Firmware.Emitted Firmware.Conditions
open Firmware.FeedOutcome Firmware.Response Firmware.Aggregates Firmware.SumCheck
open Firmware.Completion FpgaTest TableFormat WrittenTables Agreement
open Firmware.Table (loadTable loadTableSchemaFromBuf loadTable_some loadTable_memory field
  headerBytes sdFileMaxSize TableSchema LoadedTable Cells findColumnIndex)

section Readers

variable {file : List UInt8} {table : LoadedTable} {contents : Contents} {columns : List UInt8}

theorem unpack32_eq (raw : List UInt8) : unpack32 raw = (readLe32 raw).toNat := by
  have hlt (k : ℕ) : (raw.getD k 0).toNat < 256 := (raw.getD k 0).toNat_lt
  have h₀ := hlt 0
  have h₁ := hlt 1
  have h₂ := hlt 2
  have h₃ := hlt 3
  have hpack : pack32 (unpack32 raw) = [raw.getD 0 0, raw.getD 1 0, raw.getD 2 0, raw.getD 3 0] := by
    simp only [pack32, unpack32, List.cons.injEq, and_true, ← UInt8.toNat_inj, UInt8.toNat_ofNat']
    omega
  have hread : readLe32 raw = readLe32 (pack32 (unpack32 raw) ++ []) := by
    rw [hpack]
    rfl
  rw [hread, pack32_eq, readLe32_wordBytes, BitVec.toNat_ofNat, Nat.mod_eq_of_lt]
  unfold unpack32
  omega

theorem unpack32_header {offset : ℕ} (hoff : offset + 4 ≤ 28) :
    unpack32 ((file.take 28).drop offset) = field file offset := by
  have hget (k : ℕ) (hk : k < 4) : ((file.take 28).drop offset).getD k 0 =
      (file.drop offset).getD k 0 := by
    rw [List.getD_eq_getElem?_getD, List.getD_eq_getElem?_getD, List.getElem?_drop,
      List.getElem?_drop, List.getElem?_take_of_lt (by omega)]
  rw [field, ← unpack32_eq, unpack32, unpack32, hget 0 (by omega), hget 1 (by omega),
    hget 2 (by omega), hget 3 (by omega)]

theorem readRows_ok {columnCount n : ℕ} {handle : List UInt8} {rows : List (List Str)}
    (h : readRows columnCount 4 n handle = .ok rows) :
    4 * n ≤ handle.length ∧ rows = (List.range n).map (fun i ↦
      decodeCells columnCount ((handle.drop (4 * i)).take 4)) := by
  induction n generalizing handle rows with
  | zero =>
    cases h
    exact ⟨Nat.zero_le _, rfl⟩
  | succ n ih =>
    rw [readRows] at h
    split_ifs at h with hlen
    obtain ⟨rows', hrows', h⟩ := bind_ok h
    cases h
    obtain ⟨hle, rfl⟩ := ih hrows'
    rw [List.length_drop] at hle
    rw [List.length_take] at hlen
    refine ⟨by omega, ?_⟩
    rw [List.range_succ_eq_map, List.map_cons, List.map_map]
    congr 1
    refine List.map_congr_left fun i _ ↦ ?_
    rw [List.drop_drop, Function.comp_apply, Nat.succ_eq_add_one, Nat.mul_succ, Nat.add_comm]

theorem take_row {memory : List UInt8} {n i : ℕ} (hfits : 4 * n ≤ memory.length) (hi : i < n) :
    (memory.drop (4 * i)).take 4 =
      Cells.bytes (fun j ↦ (memory.take (4 * n)).getD (4 * i + j) 0) := by
  apply List.ext_getElem
  · simp only [List.length_take, List.length_drop, Cells.bytes, List.length_ofFn]
    omega
  · intro k hk _
    rw [List.length_take] at hk
    have hk' : 4 * i + k < memory.length := by omega
    simp only [Cells.bytes, List.getElem_take, List.getElem_drop, List.getElem_ofFn]
    rw [List.getD_eq_getElem _ _ (by rw [List.length_take]; omega), List.getElem_take]

theorem loadTable_header (hload : loadTable file = some table) :
    table.schema.columnCount = field file 8 ∧
      table.schema.rowCount = min ((file.length - 28) / 4) (field file 12) ∧
      table.memory = (file.drop 28).take (4 * table.schema.rowCount) := by
  obtain ⟨schema, hschema, hrest⟩ := Option.bind_eq_some_iff.mp hload
  have hwidth := (Firmware.Table.loadSchema_rowWidth hschema).1
  unfold loadTableSchemaFromBuf at hschema
  simp only [Option.ite_none_left_eq_some, Option.some.injEq] at hschema
  obtain ⟨-, -, -, -, -, rfl⟩ := hschema
  have hbytes : headerBytes = 28 := rfl
  simp only [hbytes, Option.ite_none_left_eq_some, Option.some.injEq] at hrest hwidth
  obtain ⟨-, rfl⟩ := hrest
  simp only [hwidth, Nat.mul_comm, and_self]

/-- The rows that the reference reads are the first rows of the loaded table. -/
theorem readTable_rows (hload : loadTable file = some table)
    (hread : readTable file (some 255) = .ok contents) :
    contents.rows = (table.rows.take 255).map (fun r ↦
      decodeCells table.schema.columnCount r.bytes) ∧
    contents.columns = decodeCells table.schema.columnCount ((file.drop 24).take 4) := by
  obtain ⟨hcolumns, hcount, hmemory⟩ := loadTable_header hload
  have hsize : headerSize = 28 := rfl
  simp only [readTable, hsize, unpack32_header (show 8 + 4 ≤ 28 by omega),
    unpack32_header (show 12 + 4 ≤ 28 by omega), unpack32_header (show 16 + 4 ≤ 28 by omega)] at hread
  split_ifs at hread with _ _ _ _ hwidth
  obtain ⟨rows, hrows, hread⟩ := bind_ok hread
  cases hread
  have hwidth' : field file 16 = 4 := by
    rw [← not_ne_iff]
    exact hwidth
  rw [hwidth'] at hrows
  obtain ⟨hlong, rfl⟩ := readRows_ok hrows
  rw [List.length_drop] at hlong
  have hmin : (min (255 : ℤ) (field file 12)).toNat = min 255 table.schema.rowCount := by omega
  have hfits : 4 * table.schema.rowCount ≤ (file.drop 28).length := by
    rw [List.length_drop]
    omega
  refine ⟨?_, ?_⟩
  · rw [hmin, LoadedTable.rows, ← List.map_take, List.take_range, List.map_map, hmemory, hcolumns]
    refine List.map_congr_left fun i hi ↦ ?_
    rw [List.mem_range] at hi
    rw [take_row hfits (show i < table.schema.rowCount by omega)]
    rfl
  · rw [hcolumns, List.drop_take]

theorem byteAt {index : ℕ} (h : index < file.length) :
    (file.drop index).take 1 = [file[index]] := by
  rw [List.drop_eq_getElem_cons h, List.take_succ_cons, List.take_zero]

theorem readTable_columns (hcols : Columns columns) (hload : loadTable file = some table)
    (hschema : HasColumns table.schema columns)
    (hread : readTable file (some 255) = .ok contents) : contents.columns = names columns := by
  obtain ⟨schema, n, hload', hwidth, hfits, -, rfl⟩ := loadTable_some hload
  have hcount := (Firmware.Table.loadSchema_rowWidth hload').2.2
  have hbytes : headerBytes = 28 := rfl
  unfold loadTableSchemaFromBuf at hload'
  simp only [Option.ite_none_left_eq_some, Option.some.injEq] at hload'
  obtain ⟨-, -, -, -, -, rfl⟩ := hload'
  rw [(readTable_rows hload hread).2]
  have hlen : field file 8 = columns.length := hschema.count
  have hnames : (List.range (field file 8)).map (fun index ↦
      trimCopy 2 ((file.drop (24 + index * 1)).take 1)) = columns.map (fun ch ↦ [ch]) := hschema.names
  simp only at hcount
  apply List.ext_getElem
  · simp [decodeCells, names, hlen]
  · intro i hi hi'
    have hi₂ : i < columns.length := by simpa [names] using hi'
    have hlt : 24 + i < file.length := by omega
    have hname : trimCopy 2 [file[24 + i]] = [columns[i]] := by
      have hget := congrArg (·[i]?) hnames
      simp only [List.getElem?_map, List.getElem?_range (show i < field file 8 by omega),
        Option.map_some, Nat.mul_one, byteAt hlt, List.getElem?_eq_getElem hi₂,
        Option.some.injEq] at hget
      exact hget
    have hbyte : file[24 + i] = columns[i] := by
      have hin := trimCopy_part 2 [file[24 + i]]
      rw [hname] at hin
      have hmem := hin.subset (List.mem_singleton_self _)
      exact (List.mem_singleton.mp hmem).symm
    have halnum := hcols.alnum _ (List.getElem_mem hi₂)
    have hr := alnum_range halnum
    have hcell : (((file.drop 24).take 4).drop (i * cellSize)).take cellSize = [columns[i]] := by
      have h₁ : cellSize = 1 := rfl
      rw [h₁, Nat.mul_one, List.drop_take, List.take_take, List.drop_drop,
        min_eq_left (by omega), byteAt hlt, hbyte]
    simp only [decodeCells, names, List.getElem_map, List.getElem_range, hcell]
    simp only [decodeFixed, List.map_cons, List.map_nil, List.rdropWhile_singleton]
    rw [if_neg]
    simp only [Bool.or_eq_true, decide_eq_true_eq]
    omega

theorem decodeCells_row (r : Cells) {n : ℕ} (hn : n ≤ 4) :
    decodeCells n r.bytes = (decodeRow r).take n := by
  have hlen : r.bytes.length = 4 := by simp [Cells.bytes]
  apply List.ext_getElem
  · simp [decodeCells, decodeRow, hlen, hn]
  · intro i hi hi'
    have hi₂ : i < n := by simpa [decodeCells] using hi
    have h₁ : cellSize = 1 := rfl
    simp only [decodeCells, decodeRow, h₁, Nat.mul_one, List.getElem_map, List.getElem_range,
      List.getElem_take, byteAt (show i < r.bytes.length by omega)]

theorem rowDict_take (cols row : List Str) :
    rowDict cols (row.take cols.length) = rowDict cols row := by
  have hzip : cols.zip (row.take cols.length) = cols.zip row := by
    have htake : (cols.zip row).take cols.length =
        (cols.take cols.length).zip (row.take cols.length) := List.take_zipWith
    rw [List.take_length, List.take_of_length_le (by simp)] at htake
    exact htake.symm
  funext col
  rw [rowDict, rowDict, hzip]

end Readers

inductive Aggregate
  | count
  | sum

section Expected

/-- `int` on a cell, which has at most one character. -/
def int (s : Str) : Option ℕ := float s

def columnTotal (index : ℕ) : List (List Str) → Option ℕ
  | [] => some 0
  | r :: rows => do
    let value ← (r[index]?).bind int
    let total ← columnTotal index rows
    some (value + total)

/-- The expected value of `run_query`, for a query without errors. -/
def expectedValue (file : List UInt8) (agg : Aggregate) (col whereClause : Str) : Option ℕ :=
  match readTable file (some 255) with
  | .error _ => none
  | .ok contents =>
    let matched := contents.rows.filter (fun r ↦
      evaluateRow (rowDict contents.columns r) (parseConditions whereClause))
    match agg with
    | .count => some matched.length
    | .sum => do
      let index ← contents.columns.idxOf? col
      columnTotal index matched

def Aggregate.total (agg : Aggregate) (c : Fin 4) (rows : List Cells) : ℕ :=
  match agg with
  | .count => rows.length
  | .sum => digitSum c rows

variable {file : List UInt8} {table : LoadedTable} {contents : Contents} {columns : List UInt8}
  {conds : List Cond} {c : Fin 4} {ch : UInt8} {agg : Aggregate} {rows : List Cells}

theorem total_append (xs ys : List Cells) :
    agg.total c (xs ++ ys) = agg.total c xs + agg.total c ys := by
  cases agg with
  | count => exact List.length_append
  | sum => exact digitSum_append xs ys

theorem int_digit {r : Cells} (h : isDigit c r = true) :
    int (decodeFixed [r c]) = some (digit c r) := by
  simp only [isDigit, Bool.and_eq_true, decide_eq_true_eq] at h
  have hcell : decodeFixed [r c] = [(r c).toNat] := by
    simp only [decodeFixed, List.map_cons, List.map_nil, List.rdropWhile_singleton]
    rw [if_neg]
    simp only [Bool.or_eq_true, decide_eq_true_eq]
    omega
  have hdec : isDecimal (r c).toNat = true := by
    simpa only [isDecimal, Bool.and_eq_true, decide_eq_true_eq] using h
  rw [hcell, int, float_digit, if_pos hdec, digit]

theorem columnTotal_digits {n : ℕ} (hn : n ≤ 4) (hc : (c : ℕ) < n)
    (h : ∀ r ∈ rows, isDigit c r = true) :
    columnTotal c (rows.map (fun r ↦ decodeCells n r.bytes)) = some (digitSum c rows) := by
  induction rows with
  | nil => rfl
  | cons r rows ih =>
    rw [List.forall_mem_cons] at h
    have hcell : (decodeCells n r.bytes)[(c : ℕ)]? = some (decodeFixed [r c]) := by
      have hbyte : r.bytes[(c : ℕ)]? = some (r c) := by
        rw [Cells.bytes, List.getElem?_ofFn, dif_pos c.isLt]
      rw [decodeCells_row r hn, List.getElem?_take_of_lt hc, decodeRow, List.getElem?_map, hbyte]
      rfl
    rw [List.map_cons, columnTotal, ih h.2, hcell, Option.bind_some, int_digit h.1]
    rfl

/-- How many rows the reference evaluates: no row satisfies a condition on a column that the
table spells otherwise. -/
def rowsRead (columns : List UInt8) (conds : List Cond) : ℕ :=
  if ∀ d ∈ conds, d.col ∈ columns then 255 else 0

theorem matched_rows (hcols : Columns columns) (hload : loadTable file = some table)
    (hschema : HasColumns table.schema columns)
    (hread : readTable file (some 255) = .ok contents)
    (halnum : ∀ d ∈ conds, isalnum d.col = true ∧ isalnum d.val = true) :
    contents.rows.filter (fun r ↦
      evaluateRow (rowDict contents.columns r) (parseConditions (latin (clause conds)))) =
      ((table.rows.take (rowsRead columns conds)).filter
        (rowHolds columns (respelled columns conds))).map (fun r ↦
          decodeCells columns.length r.bytes) := by
  have hwidth : (names columns).length = columns.length := by simp [names]
  have hrow (r : Cells) : evaluateRow (rowDict contents.columns (decodeCells columns.length r.bytes))
      (parseConditions (latin (clause conds))) = true ↔
        (∀ d ∈ conds, d.col ∈ columns) ∧ rowHolds columns conds r = true := by
    rw [readTable_columns hcols hload hschema hread, decodeCells_row r hcols.length_le, ← hwidth,
      rowDict_take, evaluateRow_conds hcols halnum]
  rw [(readTable_rows hload hread).1, hschema.count, List.filter_map]
  congr 1
  by_cases hspelled : ∀ d ∈ conds, d.col ∈ columns
  · rw [rowsRead, if_pos hspelled, respelled_self hcols hspelled]
    refine List.filter_congr fun r _ ↦ ?_
    rw [Function.comp_apply, Bool.eq_iff_iff, hrow, and_iff_right hspelled]
  · rw [rowsRead, if_neg hspelled, List.take_zero, List.filter_nil, List.filter_eq_nil_iff]
    intro r _ hr
    exact hspelled ((hrow r).mp hr).1

/-- The reference counts, or adds up, over the first rows that satisfy the conditions; it adds up
no column that the table spells otherwise. -/
theorem expectedValue_eq (hcols : Columns columns) (hload : loadTable file = some table)
    (hschema : HasColumns table.schema columns)
    (hread : readTable file (some 255) = .ok contents)
    (halnum : ∀ d ∈ conds, isalnum d.col = true ∧ isalnum d.val = true)
    (hc : columns[(c : ℕ)]? = some (spelled columns ch))
    (hdigits : ∀ r ∈ table.rows, isDigit c r = true) (n : ℕ) :
    expectedValue file agg [ch.toNat] (latin (clause conds)) = some n ↔
      (agg = .sum → ch ∈ columns) ∧ n = agg.total c ((table.rows.take (rowsRead columns conds)).filter
        (rowHolds columns (respelled columns conds))) := by
  have hlt : (c : ℕ) < columns.length := (List.getElem?_eq_some_iff.mp hc).1
  have hnames := readTable_columns hcols hload hschema hread
  have hmatched := matched_rows hcols hload hschema hread halnum
  simp only [expectedValue, hread, hmatched]
  cases agg with
  | count => simp [Aggregate.total, eq_comm]
  | sum =>
    by_cases hmem : ch ∈ columns
    · rw [spelled_self hcols hmem] at hc
      have hindex : contents.columns.idxOf? [ch.toNat] = some (c : ℕ) := by
        have hget : columns[(c : ℕ)] = ch := Option.some_inj.mp (by rw [← hc, List.getElem?_eq_getElem])
        rw [hnames, List.idxOf?_eq_some_iff]
        refine ⟨by simpa [names] using hlt, by simp [names, hget], fun j hj ↦ ?_⟩
        have hj' : j < columns.length := by omega
        simp only [names, List.getElem_map]
        intro he
        have hsame : columns[j]? = columns[(c : ℕ)]? := by
          rw [List.getElem?_eq_getElem hj', hc, UInt8.toNat_inj.mp (List.cons.inj he).1]
        have hinj := (List.getElem?_inj hj' hcols.distinct.of_map).mp hsame
        omega
      have hall : ∀ r ∈ (table.rows.take (rowsRead columns conds)).filter
          (rowHolds columns (respelled columns conds)), isDigit c r = true :=
        fun r hr ↦ hdigits r (List.mem_of_mem_take (List.mem_of_mem_filter hr))
      simp only [hindex, Option.bind_eq_bind, Option.bind_some,
        columnTotal_digits hcols.length_le hlt hall, Option.some_inj, hmem, implies_true, true_and]
      exact eq_comm
    · have hindex : contents.columns.idxOf? [ch.toNat] = none := by
        rw [hnames, List.idxOf?_eq_none_iff, names, List.mem_map]
        rintro ⟨d, hd, he⟩
        exact hmem (UInt8.toNat_inj.mp (List.cons.inj he).1 ▸ hd)
      simp [hindex, hmem]

end Expected

section Compiled

variable {columns : List UInt8} {schema : TableSchema} {conds : List Cond} {request : QueryRequest}
  {body : List UInt8}

theorem compilable_clause (hcols : Columns columns) (hschema : HasColumns schema columns)
    (halnum : ∀ d ∈ conds, isalnum d.col = true ∧ isalnum d.val = true)
    (hparse : parseRequestBody body = some request) (hclause : request.whereClause = clause conds) :
    Compilable schema (conditions request.whereMemory) ↔
      conds.length ≤ 4 ∧ ∀ d ∈ conds, Refers columns d.col := by
  have hlen : request.whereClause.length < sqlMaxLen := by
    rw [parseRequestBody_fragments hparse]
    exact whereFragment_length _ _
  obtain ⟨tail, ht, hmem⟩ := whereMemory_eq hlen
  rw [hmem, hclause, compilable_conds hcols hschema halnum ht]

end Compiled

section Aggregates

def Aggregate.keyword : Aggregate → String
  | .count => "COUNT"
  | .sum => "SUM"

def Aggregate.selectList (agg : Aggregate) (ch : UInt8) : List UInt8 :=
  ascii agg.keyword ++ [40, ch, 41]

def Aggregate.instruction (agg : Aggregate) (c : Fin 4) : Instruction :=
  match agg with
  | .count => aggregateInstruction 3 c
  | .sum => aggregateInstruction 4 c

def Aggregate.register : Aggregate → ℕ
  | .count => accumulatorOffset
  | .sum => sumOffset

variable {agg : Aggregate} {ch : UInt8} {c : Fin 4} {request : QueryRequest} {body file : List UInt8}
  {table : LoadedTable}

theorem aggregateColumn_one (hch : isalnum ch = true) : aggregateColumn [ch, 41] = [ch] := by
  have h₁ : ch ≠ 41 := alnum_ne hch (by decide)
  have h₂ : ch ≠ 0 := alnum_ne hch (by decide)
  simp [aggregateColumn, scan, h₁, h₂]

theorem limit_of_aggregate (hparse : parseRequestBody body = some request)
    (hselect : request.selectList = agg.selectList ch) : request.limit = parseLimit body := by
  obtain ⟨-, -, hsql, hlimit⟩ := parseRequestBody_some hparse
  have hnul : 0 ∉ request.sql := fun h₀ ↦ ((extractFrom_line hsql).2 0 h₀).2 rfl
  have hinfix : agg.selectList ch <:+: request.sql := by
    rw [← hselect, parseRequestBody_fragments hparse]
    simp only [extractSqlFragments]
    split_ifs with hempty
    · rw [parseRequestBody_fragments hparse] at hselect
      simp only [extractSqlFragments, if_pos hempty] at hselect
      cases agg <;> cases hselect
    · exact selectFragment_part _ _ _
  have hagg : isAggregate request.sql = true := by
    rw [isAggregate, Bool.or_eq_true]
    cases agg with
    | count => exact .inl (strstr_isSome (List.IsInfix.trans ⟨[], [ch, 41], rfl⟩ hinfix) (by decide) hnul)
    | sum => exact .inr (strstr_isSome (List.IsInfix.trans ⟨[], [ch, 41], rfl⟩ hinfix) (by decide) hnul)
  rw [hlimit, capLimit, if_neg]
  rintro ⟨-, hnot⟩
  exact hnot hagg

theorem keyword_count (ch : UInt8) :
    asciiStrncasecmpLocal (Aggregate.count.selectList ch) (ascii "COUNT(") 6 = 0 := rfl

theorem keyword_sum (ch : UInt8) :
    ¬ asciiStrncasecmpLocal (Aggregate.sum.selectList ch) (ascii "COUNT(") 6 = 0 ∧
      asciiStrncasecmpLocal (Aggregate.sum.selectList ch) (ascii "SUM(") 4 = 0 := by
  refine ⟨?_, rfl⟩
  rw [asciiStrncasecmpLocal_succ]
  rintro ⟨hfirst, -⟩
  have hbad : tolower 83 = tolower 67 := hfirst
  revert hbad
  decide

theorem compileSelect_aggregate (hload : loadTable file = some table) (hch : isalnum ch = true)
    (hcol : findColumnIndex table.schema [ch] = some (c : ℕ))
    (hdigits : ∀ r ∈ table.rows, isDigit c r = true) :
    compileSelect table.schema table.memory (agg.selectList ch) = send (agg.instruction c) := by
  have hcolumn := aggregateColumn_one hch
  cases agg with
  | count =>
    rw [compileSelect, if_pos (keyword_count ch)]
    change compileCount table.schema [ch, 41] = _
    simp only [compileCount, hcolumn, hcol]
    rfl
  | sum =>
    have hcol' : findColumnIndex table.schema (aggregateColumn [ch, 41]) = some (c : ℕ) := by
      rw [hcolumn, hcol]
    have herror := (compileSum_accepts hload hcol').mpr
      (fun r hr ↦ hdigits r (List.mem_of_head? hr))
    rw [compileSelect_sum _ _ (keyword_sum ch).2]
    change compileSum table.schema table.memory [ch, 41] = _
    simp only [compileSum, hcol'] at herror ⊢
    split_ifs at herror ⊢ with hbad
    · cases herror
    · rfl

/-- An aggregate of a column that the table does not have is refused. -/
theorem compileSelect_unknown {schema : TableSchema} {memory : List UInt8} (hch : isalnum ch = true)
    (hcol : findColumnIndex schema [ch] = none) :
    (compileSelect schema memory (agg.selectList ch)).error ≠ none := by
  have hcolumn := aggregateColumn_one hch
  cases agg with
  | count =>
    rw [compileSelect, if_pos (keyword_count ch)]
    change (compileCount schema [ch, 41]).error ≠ none
    simp [compileCount, hcolumn, hcol, fail]
  | sum =>
    rw [compileSelect_sum _ _ (keyword_sum ch).2]
    change (compileSum schema memory [ch, 41]).error ≠ none
    simp [compileSum, hcolumn, hcol, fail]

end Aggregates

section Reported

variable {request : QueryRequest} {file : List UInt8} {table : LoadedTable} {code : ℤ}
  {captured : List UInt8} {s u : Hardware.UserHw.State} {timing timing' : ℕ → Timing}

/-- The feed of `process_request` after a compiled program: how it ended, what it
captured, and the peripheral it left. A table without rows is not fed. -/
inductive Fed (request : QueryRequest) (table : LoadedTable) (s : Hardware.UserHw.State)
    (timing timing' : ℕ → Timing) : ℤ → List UInt8 → Hardware.UserHw.State → Prop
  | fed {n : ℕ} {code : ℤ} (hpos : 0 < table.totalBytes)
      (hn : (feedRun (queryParams request table) (compileAndSendInstructions request table).sent
        timing timing' s n).1.pc = .returned code) :
      Fed request table s timing timing' code
        (feedRun (queryParams request table) (compileAndSendInstructions request table).sent
          timing timing' s n).1.captured
        (feedRun (queryParams request table) (compileAndSendInstructions request table).sent
          timing timing' s n).2
  | skipped (hzero : table.totalBytes = 0) :
      Fed request table s timing timing' 0 []
        (execAll s timing (setup (compileAndSendInstructions request table).sent)).1

theorem settled_of_fed (hload : loadTable file = some table) (hfile : file.length ≤ sdFileMaxSize)
    (hs : AtRest s) (h : Fed request table s timing timing' code captured u) :
    Settled (loaded s.pipeline.fetcher (compileAndSendInstructions request table).sent)
      (table.rows.map Cells.word) u ∧ 0 ≤ code := by
  have ready := ready_setup hs (compileAndSendInstructions request table).sent timing
  obtain ⟨hsmall, hparams⟩ := loadTable_rows hload hfile
    (Firmware.Table.captureLimitBytes request.limit table.schema)
  have job : Job (queryParams request table) (table.rows.map Cells.word) := by
    rw [queryParams, hparams]
    exact job_rows _ hsmall _
  cases h with
  | fed hpos hn =>
    refine ⟨settled_of_returned ready job hn, ?_⟩
    rcases returns_cases ready job hn with ⟨rfl, -⟩ | ⟨rfl, -⟩ <;> decide
  | skipped hzero =>
    have hnil : table.rows = [] := by
      have hlen := (loadTable_memory hload).2.2.1
      rw [LoadedTable.totalBytes] at hzero
      exact List.length_eq_zero_iff.mp (by omega)
    rw [hnil]
    exact ⟨settled_of_ready ready, le_rfl⟩

theorem answer_limited (f : Fetcher generics) {prog : List Instruction} {limit : ℕ}
    (hw : (wheres prog).length ≤ 4) (hl : limitOf prog = some limit) (rows : List Cells) :
    answer (loaded f prog) (rows.map Cells.word) =
      ((rows.filter (matching prog)).take (max 1 limit)).map Cells.word := by
  rw [answer, quota_of_holds (holds_loaded f prog), hl, filter_words f hw, Option.map_some, upTo,
    List.map_take]

theorem register_total {agg : Aggregate} {c : Fin 4} {f : Fetcher generics} {rows : List Cells}
    (h : Settled f (table.rows.map Cells.word) u)
    (hanswer : answer f (table.rows.map Cells.word) = rows.map Cells.word)
    (hc : f.countColIdx = c) (hdigits : ∀ r ∈ rows, isDigit c r = true)
    (hlen : 9 * rows.length < 2 ^ 32) (t : Timing) :
    (exec u t (.read agg.register)).2.toNat = agg.total c rows := by
  cases agg with
  | count =>
    rw [Aggregate.register, h.accumulator, hanswer, List.length_map, BitVec.toNat_ofNat]
    exact Nat.mod_eq_of_lt (by omega)
  | sum =>
    rw [Aggregate.register, h.sum, hanswer, sumOf_digits hc hdigits hlen]
    rfl

end Reported

section Answer

variable {request : QueryRequest} {body file : List UInt8} {table : LoadedTable} {agg : Aggregate}
  {ch : UInt8} {c : Fin 4} {columns : List UInt8} {conds : List Cond} {o : Outside}

def Aggregate.value (agg : Aggregate) (o : Outside) : Word :=
  match agg with
  | .count => o.accumulator
  | .sum => o.sum

def valueReply (request : QueryRequest) (schema : TableSchema) (agg : Aggregate) (o : Outside) :
    Reply :=
  ⟨200, "OK", (aggregateText request schema agg.keyword (agg.value o)).take (maxResponseBodySize - 1)⟩

theorem reply_aggregate (hselect : request.selectList = agg.selectList ch)
    (hload : loadTable file = some table) (hfile : o.file = some file) (hstatus : 0 ≤ o.dataStatus)
    (hcompile : (compileAndSendInstructions request table).error = none) :
    reply request o = valueReply request table.schema agg o := by
  obtain ⟨captured, hfeed⟩ : ∃ captured, feedResult o table = some captured := by
    unfold feedResult
    rw [if_neg (not_lt.mpr hstatus)]
    split_ifs
    · exact ⟨_, rfl⟩
    · exact ⟨_, rfl⟩
    · exact ⟨_, rfl⟩
  have hagg : Firmware.Response.aggregate request table.schema o =
      some (aggregateText request table.schema agg.keyword (agg.value o)) := by
    rw [Firmware.Response.aggregate, hselect]
    cases agg with
    | count => exact if_pos (keyword_count ch)
    | sum => rw [if_neg (keyword_sum ch).1, if_pos (keyword_sum ch).2]; rfl
  rw [reply, if_neg (by decide)]
  simp only [hfile, Option.bind_some, hload, hcompile, hfeed, successReply, hagg]
  rfl

/-- What an accepted aggregate query programs. -/
theorem compiled_aggregate (hcols : Columns columns) (hschema : HasColumns table.schema columns)
    (halnum : ∀ d ∈ conds, isalnum d.col = true ∧ isalnum d.val = true) (hle : conds.length ≤ 4)
    (hrefers : ∀ d ∈ conds, Refers columns d.col) (hclause : request.whereClause = clause conds)
    (hselect : compileSelect table.schema table.memory request.selectList =
      send (agg.instruction c)) :
    compileAndSendInstructions request table =
      ⟨(compileLimit request.limit).sent ++ (respelled columns conds).map (condInstruction columns) ++
        [agg.instruction c], none⟩ := by
  have hwhere := compileWhere_request hcols hschema halnum hle hrefers hclause
  rw [compileAndSendInstructions, hwhere, hselect]
  simp only [Compiled.andThen, compileLimit_error, send, List.append_assoc]

theorem column_programmed (f : Fetcher generics) (before : List Instruction) :
    (loaded f (before ++ [agg.instruction c])).countColIdx = c := by
  have hop : opcode (agg.instruction c) = 0b0011#4 ∨ opcode (agg.instruction c) = 0b0100#4 := by
    cases agg with
    | count => exact .inl (opcode_aggregate c 3)
    | sum => exact .inr (opcode_aggregate c 4)
  rw [countColIdx_loaded f before hop (by simp)]
  cases agg <;> revert c <;> decide

end Answer

/-- What `process_request` gets from outside, with both registers as they are read. -/
def observed (file : List UInt8) (code : ℤ) (captured : List UInt8) (u : Hardware.UserHw.State)
    (t t' : Timing) : Outside :=
  ⟨some file, code, captured, (exec u t (.read accumulatorOffset)).2, (exec u t' (.read sumOffset)).2⟩

/-- The value that is read is the aggregate of the rows that the limit lets through. -/
theorem reported_total {request : QueryRequest} {body file : List UInt8} {table : LoadedTable}
    {agg : Aggregate} {ch : UInt8} {c : Fin 4} {columns : List UInt8} {conds : List Cond}
    {before : List Instruction} {f : Fetcher generics} {u : Hardware.UserHw.State}
    (hparse : parseRequestBody body = some request) (hlimit : 1 ≤ parseLimit body)
    (hselect : request.selectList = agg.selectList ch) (hload : loadTable file = some table)
    (hfile : file.length ≤ sdFileMaxSize) (hcols : Columns columns)
    (hvalid : ∀ d ∈ conds, d.Valid columns)
    (hsent : (compileAndSendInstructions request table).sent = before ++ [agg.instruction c])
    (hwheres : wheres (compileAndSendInstructions request table).sent =
      conds.map (condInstruction columns))
    (hdigits : ∀ r ∈ table.rows, isDigit c r = true)
    (hsettled : Settled (loaded f (compileAndSendInstructions request table).sent)
      (table.rows.map Cells.word) u)
    (captured : List UInt8) (code : ℤ) (t t' : Timing) :
    (agg.value (observed file code captured u t t')).toNat =
      agg.total c ((table.rows.filter (rowHolds columns conds)).take
        (max 1 (parseLimit body % 256))) := by
  have hlimitOf : limitOf (compileAndSendInstructions request table).sent =
      some (parseLimit body % 256) := by
    rw [limitOf_emitted, limit_of_aggregate hparse hselect, if_pos (by omega)]
  have hanswer := answer_limited f (wheres_emitted_length request table) hlimitOf table.rows
  rw [funext (matching_conds hcols hvalid hwheres)] at hanswer
  have hcolumn : (loaded f (compileAndSendInstructions request table).sent).countColIdx = c := by
    rw [hsent]
    exact column_programmed f before
  have hall : ∀ r ∈ (table.rows.filter (rowHolds columns conds)).take
      (max 1 (parseLimit body % 256)), isDigit c r = true :=
    fun r hr ↦ hdigits r (List.mem_of_mem_filter (List.mem_of_mem_take hr))
  have hlen : 9 * ((table.rows.filter (rowHolds columns conds)).take
      (max 1 (parseLimit body % 256))).length < 2 ^ 32 := by
    obtain ⟨-, -, h₁, h₂⟩ := loadTable_memory hload
    have h₃ := List.length_filter_le (rowHolds columns conds) table.rows
    unfold sdFileMaxSize at hfile
    rw [List.length_take]
    omega
  cases agg with
  | count =>
    change (exec u t (.read Aggregate.count.register)).2.toNat = _
    exact register_total hsettled hanswer hcolumn hall hlen t
  | sum =>
    change (exec u t' (.read Aggregate.sum.register)).2.toNat = _
    exact register_total hsettled hanswer hcolumn hall hlen t'

/-- An aggregate with a limit agrees with the reference, and both with the whole table, exactly
when the rows that the limit cuts off add nothing, and the rows that the reference does not read
add nothing either. The reference looks for the column of SUM as it is written. -/
theorem aggregate_agrees_iff (body : List UInt8) (request : QueryRequest)
    (hparse : parseRequestBody body = some request) (hlimit : 1 ≤ parseLimit body)
    (agg : Aggregate) (ch : UInt8) (hch : isalnum ch = true)
    (hselect : request.selectList = agg.selectList ch)
    (conds : List Cond) (halnum : ∀ d ∈ conds, isalnum d.col = true ∧ isalnum d.val = true)
    (hclause : request.whereClause = clause conds)
    (file : List UInt8) (hfile : file.length ≤ sdFileMaxSize) (table : LoadedTable)
    (hload : loadTable file = some table) (contents : Contents)
    (hread : readTable file (some 255) = .ok contents)
    (columns : List UInt8) (hcols : Columns columns) (hschema : HasColumns table.schema columns)
    (c : Fin 4) (hc : Refers columns ch → columns[(c : ℕ)]? = some (spelled columns ch))
    (hdigits : ∀ r ∈ table.rows, ∀ j : Fin 4, (j : ℕ) < columns.length → isDigit j r = true)
    (s : Hardware.UserHw.State) (hs : AtRest s) (timing timing' : ℕ → Timing) (code : ℤ)
    (captured : List UInt8) (u : Hardware.UserHw.State)
    (hfed : Fed request table s timing timing' code captured u) (t t' : Timing) :
    ((reply request (observed file code captured u t t')).statusCode = 200 →
      reply request (observed file code captured u t t') =
        valueReply request table.schema agg (observed file code captured u t t') ∧
      expectedValue file agg [ch.toNat] (latin (clause conds)) =
        some (agg.value (observed file code captured u t t')).toNat ∧
      (agg.value (observed file code captured u t t')).toNat =
        agg.total c (table.rows.filter (rowHolds columns (respelled columns conds)))) ↔
    (conds.length ≤ 4 → Refers columns ch → (∀ d ∈ conds, Refers columns d.col) →
      (agg = .sum → ch ∈ columns) ∧
      agg.total c ((table.rows.filter (rowHolds columns (respelled columns conds))).drop
        (max 1 (parseLimit body % 256))) = 0 ∧
      agg.total c ((table.rows.drop (rowsRead columns conds)).filter
        (rowHolds columns (respelled columns conds))) = 0) := by
  by_cases hcompilable : (conds.length ≤ 4 ∧ ∀ d ∈ conds, Refers columns d.col) ∧ Refers columns ch
  · obtain ⟨⟨hle, hrefers⟩, href⟩ := hcompilable
    obtain ⟨hlt, hget⟩ := List.getElem?_eq_some_iff.mp (hc href)
    have hdigitsc : ∀ r ∈ table.rows, isDigit c r = true := fun r hr ↦ hdigits r hr c hlt
    have hidx : columns.idxOf (spelled columns ch) = c := by
      have hlt' := List.idxOf_lt_length_of_mem (spelled_mem href).1
      have hsame : columns[columns.idxOf (spelled columns ch)]? = columns[(c : ℕ)]? := by
        rw [List.getElem?_eq_getElem hlt', List.getElem_idxOf, hc href]
      exact (List.getElem?_inj hlt' hcols.distinct.of_map).mp hsame
    have hselected : compileSelect table.schema table.memory request.selectList =
        send (agg.instruction c) := by
      rw [hselect]
      refine compileSelect_aggregate hload hch ?_ hdigitsc
      rw [findColumnIndex_spelled hcols hschema href, hidx]
    have hcompiled := compiled_aggregate hcols hschema halnum hle hrefers hclause hselected
    obtain ⟨hsettled, hcode⟩ := settled_of_fed hload hfile hs hfed
    have hreply : reply request (observed file code captured u t t') =
        valueReply request table.schema agg (observed file code captured u t t') :=
      reply_aggregate hselect hload rfl hcode (by rw [hcompiled])
    have hwheres : wheres (compileAndSendInstructions request table).sent =
        (respelled columns conds).map (condInstruction columns) := by
      rw [wheres_emitted, compileWhere_request hcols hschema halnum hle hrefers hclause]
    have hvalue := reported_total hparse hlimit hselect hload hfile hcols
      (valid_respelled halnum hrefers) (by rw [hcompiled]) hwheres hdigitsc hsettled captured code t t'
    rw [expectedValue_eq hcols hload hschema hread halnum (hc href) hdigitsc, hvalue]
    generalize rowHolds columns (respelled columns conds) = holds
    have hcut : agg.total c (table.rows.filter holds) =
        agg.total c ((table.rows.filter holds).take (max 1 (parseLimit body % 256))) +
        agg.total c ((table.rows.filter holds).drop (max 1 (parseLimit body % 256))) := by
      rw [← total_append, List.take_append_drop]
    have hunread : agg.total c (table.rows.filter holds) =
        agg.total c ((table.rows.take (rowsRead columns conds)).filter holds) +
        agg.total c ((table.rows.drop (rowsRead columns conds)).filter holds) := by
      rw [← total_append, ← List.filter_append, List.take_append_drop]
    constructor
    · intro h _ _ _
      obtain ⟨-, ⟨hspelled, h₁⟩, h₂⟩ := h (by rw [hreply]; rfl)
      exact ⟨hspelled, by omega, by omega⟩
    · intro h _
      obtain ⟨hspelled, h₁, h₂⟩ := h hle href hrefers
      exact ⟨hreply, ⟨hspelled, by omega⟩, by omega⟩
  · have herror : (compileAndSendInstructions request table).error ≠ none := by
      rw [ne_eq, compile_accepts, compilable_clause hcols hschema halnum hparse hclause, hselect]
      rintro ⟨hwhere, hselected⟩
      refine compileSelect_unknown hch ?_ hselected
      by_contra hcol
      exact hcompilable ⟨hwhere, refers_of_found hschema hcol⟩
    obtain ⟨message, hmessage⟩ := Option.ne_none_iff_exists'.mp herror
    refine iff_of_true (fun h200 ↦ ?_) (fun hle href hrefers ↦ absurd ⟨⟨hle, hrefers⟩, href⟩ hcompilable)
    rw [observed, reply_of_error hload hmessage] at h200
    cases h200

section Examples

def countBody (limit : String) : List UInt8 :=
  ascii "TABLE=T\nLIMIT=" ++ ascii limit ++ ascii "\nSQL=SELECT COUNT(A) FROM T LIMIT " ++ ascii limit

def countRequest (limit : String) (n : ℕ) : QueryRequest :=
  ⟨ascii "SELECT COUNT(A) FROM T LIMIT " ++ ascii limit, ascii "T", ascii "COUNT(A)", [], n⟩

theorem columns_A : Columns [65] := ⟨by decide, by decide, by decide +kernel, by decide +kernel⟩

theorem digits_table : ∃ table contents, loadTable (twoRows 49 50) = some table ∧
    readTable (twoRows 49 50) (some 255) = .ok contents ∧ HasColumns table.schema [65] ∧
    table.rows = [![49, 32, 32, 32], ![50, 32, 32, 32]] := by
  obtain ⟨table, hload⟩ : ∃ table, loadTable (twoRows 49 50) = some table :=
    Option.isSome_iff_exists.mp (by decide)
  have hnames : (loadTable (twoRows 49 50)).map (fun table ↦ table.schema.columns) = some [[65]] := by
    decide
  have hcount : (loadTable (twoRows 49 50)).map (fun table ↦ table.schema.columnCount) = some 1 := by
    decide
  have hrows : (loadTable (twoRows 49 50)).map LoadedTable.rows =
      some [![49, 32, 32, 32], ![50, 32, 32, 32]] := by
    decide
  rw [hload, Option.map_some, Option.some.injEq] at hnames hcount hrows
  exact ⟨table, _, hload, rfl, ⟨hnames, hcount⟩, hrows⟩

theorem digits_fed {table : LoadedTable} (request : QueryRequest)
    (hload : loadTable (twoRows 49 50) = some table)
    (hrows : table.rows = [![49, 32, 32, 32], ![50, 32, 32, 32]]) :
    ∃ captured u, Fed request table .powerUp atOnce atOnce 1 captured u := by
  obtain ⟨hsmall, hparams⟩ := loadTable_rows hload (by decide)
    (Firmware.Table.captureLimitBytes request.limit table.schema)
  have hfits : LimitFits (compileAndSendInstructions request table).sent table.rows := by
    intro limit _ k _ _
    rw [hrows]
    simp
  obtain ⟨n, hn⟩ := ((feed_ends table.rows hsmall (wheres_emitted_length request table)
    atRest_powerUp atOnce atOnce _).1 hfits).1
  rw [← hparams] at hn
  have hpos : 0 < table.totalBytes := by
    have hlen := (loadTable_memory hload).2.2.1
    rw [hrows] at hlen
    rw [LoadedTable.totalBytes, hlen]
    decide
  exact ⟨_, _, .fed hpos hn.returned⟩

theorem parse_count : parseRequestBody (countBody "1") = some (countRequest "1" 1) := by
  decide +kernel

theorem parseLimit_count : parseLimit (countBody "1") = 1 := by decide +kernel

theorem expected_count :
    expectedValue (twoRows 49 50) .count [65] (latin (clause [])) = some 2 := by
  decide +kernel

theorem selectList_count (limit : String) (n : ℕ) :
    (countRequest limit n).selectList = Aggregate.count.selectList 65 := rfl

theorem compile_count {table : LoadedTable} (limit : String) (n : ℕ)
    (hload : loadTable (twoRows 49 50) = some table) (hschema : HasColumns table.schema [65])
    (hrows : table.rows = [![49, 32, 32, 32], ![50, 32, 32, 32]]) :
    compileAndSendInstructions (countRequest limit n) table =
      ⟨(compileLimit n).sent ++ [].map (condInstruction [65]) ++ [Aggregate.count.instruction 0],
        none⟩ := by
  have hdigits : ∀ r ∈ table.rows, isDigit 0 r = true := by
    rw [hrows]
    exact List.all_eq_true.mp (by decide)
  have hcol : findColumnIndex table.schema [65] = some ((0 : Fin 4) : ℕ) :=
    findColumnIndex_mem columns_A hschema (by decide)
  have hno : ∀ P : Cond → Prop, ∀ d ∈ ([] : List Cond), P d := fun _ _ ↦ nofun
  refine compiled_aggregate columns_A hschema (hno _) (by decide) (hno _) rfl ?_
  rw [selectList_count]
  exact compileSelect_aggregate hload (by decide) hcol hdigits

theorem count_cut_by_limit : ∃ table captured u,
    parseRequestBody (countBody "1") = some (countRequest "1" 1) ∧
    loadTable (twoRows 49 50) = some table ∧
    Fed (countRequest "1" 1) table .powerUp atOnce atOnce 1 captured u ∧
    reply (countRequest "1" 1) (observed (twoRows 49 50) 1 captured u ⟨0, 0⟩ ⟨0, 0⟩) =
      valueReply (countRequest "1" 1) table.schema .count
        (observed (twoRows 49 50) 1 captured u ⟨0, 0⟩ ⟨0, 0⟩) ∧
    (Aggregate.count.value (observed (twoRows 49 50) 1 captured u ⟨0, 0⟩ ⟨0, 0⟩)).toNat = 1 ∧
    expectedValue (twoRows 49 50) .count [65] (latin (clause [])) = some 2 := by
  obtain ⟨table, contents, hload, hread, hschema, hrows⟩ := digits_table
  obtain ⟨captured, u, hfed⟩ := digits_fed (countRequest "1" 1) hload hrows
  have hselect := selectList_count "1" 1
  have hcompiled := compile_count "1" 1 hload hschema hrows
  have hdigits : ∀ r ∈ table.rows, isDigit 0 r = true := by
    rw [hrows]
    exact List.all_eq_true.mp (by decide)
  have hwhere : compileWhere table.schema 0 (countRequest "1" 1).whereMemory =
      ⟨(respelled [65] []).map (condInstruction [65]), none⟩ :=
    compileWhere_request columns_A hschema (by simp) (by decide) (by simp) rfl
  have hwheres : wheres (compileAndSendInstructions (countRequest "1" 1) table).sent =
      ([] : List Cond).map (condInstruction [65]) := by
    rw [wheres_emitted, hwhere]
    rfl
  obtain ⟨hsettled, hcode⟩ := settled_of_fed hload (by decide) atRest_powerUp hfed
  have hvalue := reported_total parse_count (by rw [parseLimit_count]) hselect hload (by decide)
    columns_A (by simp) (by rw [hcompiled]) hwheres hdigits hsettled captured 1 ⟨0, 0⟩ ⟨0, 0⟩
  refine ⟨table, captured, u, parse_count, hload, hfed, ?_, ?_, expected_count⟩
  · exact reply_aggregate hselect hload rfl hcode (by rw [hcompiled])
  · rw [hvalue, parseLimit_count, hrows]
    rfl

theorem parse_count_two : parseRequestBody (countBody "2") = some (countRequest "2" 2) := by
  decide +kernel

theorem parseLimit_count_two : parseLimit (countBody "2") = 2 := by decide +kernel

theorem count_within_limit : ∃ table captured u, loadTable (twoRows 49 50) = some table ∧
    Fed (countRequest "2" 2) table .powerUp atOnce atOnce 1 captured u ∧
    ((reply (countRequest "2" 2) (observed (twoRows 49 50) 1 captured u ⟨0, 0⟩ ⟨0, 0⟩)).statusCode =
        200 →
      reply (countRequest "2" 2) (observed (twoRows 49 50) 1 captured u ⟨0, 0⟩ ⟨0, 0⟩) =
        valueReply (countRequest "2" 2) table.schema .count
          (observed (twoRows 49 50) 1 captured u ⟨0, 0⟩ ⟨0, 0⟩) ∧
      expectedValue (twoRows 49 50) .count [65] (latin (clause [])) =
        some (Aggregate.count.value (observed (twoRows 49 50) 1 captured u ⟨0, 0⟩ ⟨0, 0⟩)).toNat ∧
      (Aggregate.count.value (observed (twoRows 49 50) 1 captured u ⟨0, 0⟩ ⟨0, 0⟩)).toNat =
        Aggregate.count.total 0 (table.rows.filter (rowHolds [65] []))) := by
  obtain ⟨table, contents, hload, hread, hschema, hrows⟩ := digits_table
  obtain ⟨captured, u, hfed⟩ := digits_fed (countRequest "2" 2) hload hrows
  have hdigits : ∀ r ∈ table.rows, ∀ j : Fin 4, (j : ℕ) < [(65 : UInt8)].length →
      isDigit j r = true := by
    intro r hr j hj
    obtain rfl : j = 0 := Fin.ext (by simpa using hj)
    rw [hrows] at hr
    exact List.all_eq_true.mp (by decide) r hr
  refine ⟨table, captured, u, hload, hfed, (aggregate_agrees_iff (countBody "2")
    (countRequest "2" 2) parse_count_two (by rw [parseLimit_count_two]; decide) .count 65 (by decide)
    (selectList_count "2" 2) [] (by simp) rfl (twoRows 49 50) (by decide) table hload contents hread
    [65] columns_A hschema 0 (fun _ ↦ rfl) hdigits .powerUp atRest_powerUp atOnce atOnce 1 captured u
    hfed ⟨0, 0⟩ ⟨0, 0⟩).mpr fun _ _ _ ↦ ?_⟩
  rw [parseLimit_count_two, hrows]
  exact ⟨fun h ↦ (nomatch h), rfl, rfl⟩

end Examples

end FpgaDatabase.Reference.AggregateLimit
