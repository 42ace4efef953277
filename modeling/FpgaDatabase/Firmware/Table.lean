import FpgaDatabase.Firmware.CString
import FpgaDatabase.Firmware.Driver
import Mathlib.Tactic.IntervalCases

namespace FpgaDatabase.Firmware.Table

open CString Driver Hardware.Stages

def maxColumns : ℕ := 4
def cellSize : ℕ := 1
def headerBytes : ℕ := 24 + maxColumns * cellSize
def sdFileMaxSize : ℕ := 262144

structure TableSchema where
  version : ℕ
  columnCount : ℕ
  rowCount : ℕ
  rowWidth : ℕ
  columns : List (List UInt8)
  deriving DecidableEq

def findColumnIndex (schema : TableSchema) (colName : List UInt8) : Option ℕ :=
  (schema.columns.take schema.columnCount).findIdx? (fun column ↦
    asciiStrncasecmpLocal column colName colName.length = 0 ∧ strlen column = colName.length)

def field (buf : List UInt8) (offset : ℕ) : ℕ := (readLe32 (buf.drop offset)).toNat

def loadTableSchemaFromBuf (buf : List UInt8) : Option TableSchema :=
  let columnCount := field buf 8
  if buf.length < headerBytes then none
  else if buf.take 4 ≠ ascii "TBL8" then none
  else if field buf 4 ≠ 1 then none
  else if columnCount = 0 ∨ maxColumns < columnCount then none
  else if field buf 16 ≠ maxColumns * cellSize then none
  else some
    { version := field buf 4
      columnCount
      rowCount := field buf 12
      rowWidth := field buf 16
      columns := (List.range columnCount).map (fun index ↦
        trimCopy (cellSize + 1) ((buf.drop (24 + index * cellSize)).take cellSize)) }

/-- A loaded table: the schema, with the row count cut to what the buffer holds, and
the rows as `source` presents them. -/
structure LoadedTable where
  schema : TableSchema
  memory : List UInt8

def LoadedTable.totalBytes (table : LoadedTable) : ℕ := table.memory.length

/-- `load_table_from_sd` from the point at which the file is in `sd_file_buffer`. -/
def loadTable (file : List UInt8) : Option LoadedTable := do
  let schema ← loadTableSchemaFromBuf file
  let availableRows := (file.length - headerBytes) / schema.rowWidth
  if availableRows = 0 then none
  else
    let schema := { schema with rowCount := min availableRows schema.rowCount }
    some ⟨schema, (file.drop headerBytes).take (schema.rowCount * schema.rowWidth)⟩

def captureLimitBytes (limit : ℕ) (schema : TableSchema) : ℕ :=
  let effectiveLimit := if 0 < limit then limit else schema.rowCount
  min (min effectiveLimit schema.rowCount * schema.rowWidth) (256 * maxColumns * cellSize)

/-- A row of a table file: one byte for each of the four columns. -/
abbrev Cells := Fin 4 → UInt8

namespace Cells

variable (r : Cells)

def bytes : List UInt8 := List.ofFn r

def word : Word := readLe32 r.bytes

theorem word_eq : r.word = (r 0).toBitVec.setWidth 32 ||| (r 1).toBitVec.setWidth 32 <<< 8 |||
    (r 2).toBitVec.setWidth 32 <<< 16 ||| (r 3).toBitVec.setWidth 32 <<< 24 := rfl

theorem bytes_getD {k : ℕ} (hk : k < 4) : r.bytes.getD k 0 = r ⟨k, hk⟩ := by
  interval_cases k <;> rfl

theorem lane_word (k : ℕ) : r.word.extractLsb' (k * 8) 8 = (r.bytes.getD k 0).toBitVec := by
  apply BitVec.eq_of_getLsbD_eq
  intro i hi
  by_cases hk : k < 4
  · rw [bytes_getD r hk, word_eq]
    simp only [BitVec.getLsbD_or, BitVec.getLsbD_shiftLeft, BitVec.getLsbD_setWidth,
      BitVec.getLsbD_extractLsb']
    interval_cases k <;> grind
  · have hb : r.bytes.getD k 0 = 0 := by simp [bytes, hk]
    rw [hb, BitVec.getLsbD_extractLsb', BitVec.getLsbD_of_ge _ _ (by omega)]
    simp

theorem wordBytes_word : wordBytes r.word = r.bytes := by
  have hlanes : wordBytes r.word = (List.range 4).map (fun k ↦ r.bytes.getD k 0) := by
    refine List.map_congr_left fun k _ ↦ ?_
    rw [lane_word]
  rw [hlanes]
  rfl

end Cells

def LoadedTable.rows (table : LoadedTable) : List Cells :=
  (List.range table.schema.rowCount).map (fun i j ↦ table.memory.getD (4 * i + j) 0)

theorem flatMap_cells (n : ℕ) (mem : List UInt8) (hmem : mem.length = 4 * n) :
    ((List.range n).map (fun i (j : Fin 4) ↦ mem.getD (4 * i + j) 0)).flatMap Cells.bytes = mem := by
  induction n generalizing mem with
  | zero =>
    rw [List.length_eq_zero_iff.mp hmem]
    rfl
  | succ n ih =>
    match mem, hmem with
    | a :: b :: c :: d :: rest, hmem =>
      have hrest : rest.length = 4 * n := by
        simp only [List.length_cons] at hmem
        omega
      have hshift (i : ℕ) (j : Fin 4) : (a :: b :: c :: d :: rest).getD (4 * (i + 1) + j) 0 =
          rest.getD (4 * i + j) 0 := by
        rw [show 4 * (i + 1) + j = 4 * i + j + 4 by omega]
        rfl
      rw [List.range_succ_eq_map, List.map_cons, List.flatMap_cons, List.map_map]
      simp only [Function.comp_def, Nat.succ_eq_add_one, hshift]
      rw [ih rest hrest]
      rfl

theorem loadSchema_rowWidth {file : List UInt8} {schema : TableSchema}
    (h : loadTableSchemaFromBuf file = some schema) :
    schema.rowWidth = 4 ∧ 1 ≤ schema.columnCount ∧ schema.columnCount ≤ 4 := by
  unfold loadTableSchemaFromBuf at h
  simp only [Option.ite_none_left_eq_some, Option.some.injEq, not_not] at h
  obtain ⟨-, -, -, hcount, hwidth, rfl⟩ := h
  have hcols : maxColumns = 4 := rfl
  exact ⟨hwidth, by simp only; omega, by simp only; omega⟩

theorem loadTable_some {file : List UInt8} {table : LoadedTable}
    (h : loadTable file = some table) :
    ∃ schema rows, loadTableSchemaFromBuf file = some schema ∧ schema.rowWidth = 4 ∧
      headerBytes + 4 * rows ≤ file.length ∧ rows ≤ schema.rowCount ∧
      table = ⟨{ schema with rowCount := rows }, (file.drop headerBytes).take (4 * rows)⟩ := by
  obtain ⟨schema, hschema, hrest⟩ := Option.bind_eq_some_iff.mp h
  have hwidth : schema.rowWidth = 4 := (loadSchema_rowWidth hschema).1
  rw [hwidth] at hrest
  simp only [Option.ite_none_left_eq_some, Option.some.injEq] at hrest
  obtain ⟨hrows, rfl⟩ := hrest
  refine ⟨schema, min ((file.length - headerBytes) / 4) schema.rowCount, hschema, hwidth, ?_,
    min_le_right _ _, ?_⟩
  · omega
  · rw [Nat.mul_comm, hwidth]

theorem loadTable_memory {file : List UInt8} {table : LoadedTable}
    (h : loadTable file = some table) :
    table.rows.length = table.schema.rowCount ∧ table.memory = table.rows.flatMap Cells.bytes ∧
      table.memory.length = 4 * table.rows.length ∧ table.memory.length ≤ file.length := by
  obtain ⟨schema, rows, -, -, hfits, -, rfl⟩ := loadTable_some h
  have hlen : ((file.drop headerBytes).take (4 * rows)).length = 4 * rows := by
    rw [List.length_take, List.length_drop]
    omega
  refine ⟨by simp [LoadedTable.rows], ?_, ?_, ?_⟩
  · exact (flatMap_cells _ _ hlen).symm
  · rw [hlen]
    simp [LoadedTable.rows]
  · rw [hlen]
    omega

end FpgaDatabase.Firmware.Table
