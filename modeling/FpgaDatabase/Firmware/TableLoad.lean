import FpgaDatabase.Firmware.Request
import FpgaDatabase.Firmware.SdCopy
import FpgaDatabase.Firmware.Table

namespace FpgaDatabase.Firmware.TableLoad

open CString Driver Table SdDriver SdSearch SdCopy

def tableFileSuffix : List UInt8 := ascii ".tbl"

def fnameSize : ℕ := Request.tableMaxLen + 8

def bytesAt (buf : Buffer) (first count : ℕ) : List UInt8 :=
  (List.range count).map (fun k ↦ buf (first + k))

def headerField (buf : Buffer) (offset : ℕ) : ℕ := (readLe32 (bytesAt buf offset 4)).toNat

/-- `load_table_schema_from_buf` with what it leaves in `schema`: once the magic is
recognised the fields are overwritten, valid or not. `columns` are the names stored;
`memset` clears the others. -/
def loadSchema (buf : Buffer) (bufBytes : ℤ) (schema : TableSchema) : Bool × TableSchema :=
  let header : TableSchema :=
    ⟨headerField buf 4, headerField buf 8, headerField buf 12, headerField buf 16, []⟩
  if bufBytes < headerBytes then (false, schema)
  else if bytesAt buf 0 4 ≠ ascii "TBL8" then (false, schema)
  else if header.version ≠ 1 then (false, header)
  else if header.columnCount = 0 ∨ maxColumns < header.columnCount then (false, header)
  else if header.rowWidth ≠ maxColumns * cellSize then (false, header)
  else (true,
    { header with
      columns := (List.range header.columnCount).map (fun index ↦
        trimCopy (cellSize + 1) (bytesAt buf (24 + index * cellSize) cellSize)) })

/-- What the caller passes by reference. `memorySize` stands for `source->memory_size`
and `total_bytes`, which are written together. -/
structure Target where
  schema : TableSchema
  memorySize : ℕ

def blank : Target := ⟨⟨0, 0, 0, 0, []⟩, 0⟩

/-- A returned call. `fileBytes` is the result of the last call of `sd_read_file`, and
`found` the entry it read. -/
structure Loaded where
  ret : Bool
  target : Target
  buf : Buffer
  fileBytes : ℤ
  found : Found

/-- The rows as `source` presents them: `source->memory` points behind the header. -/
def Loaded.memory (l : Loaded) : List UInt8 := bytesAt l.buf headerBytes l.target.memorySize

/-- The rest of `load_table_from_sd`, once a file has been read. -/
def acceptFile (o : Outcome) (target : Target) : Loaded :=
  let refused (schema : TableSchema) : Loaded :=
    ⟨false, { target with schema }, o.buf, o.ret, o.found⟩
  if o.ret < headerBytes then refused target.schema
  else
    match loadSchema o.buf o.ret target.schema with
    | (false, schema) => refused schema
    | (true, schema) =>
      let availableBytes := (o.ret - headerBytes).toNat
      let availableRows := if schema.rowWidth = 0 then 0 else availableBytes / schema.rowWidth
      if availableRows = 0 then refused schema
      else
        let schema :=
          if availableRows < schema.rowCount then { schema with rowCount := availableRows }
          else schema
        ⟨true, ⟨schema, u32 (schema.rowCount * schema.rowWidth)⟩, o.buf, o.ret, o.found⟩

def after (card : Card) (log : Log) : Card :=
  ⟨card.image, fun n ↦ card.fails (log.length + n)⟩

/-- The file of a table is asked for with the suffix and, if that fails, without it. -/
def readTableFile (card : Card) (tableName : List UInt8) (fuel : ℕ) (buf : Buffer) :
    Option Outcome := do
  let o ← sdReadFile card (tableName ++ tableFileSuffix) sdFileMaxSize fuel buf
  if o.ret < 0 then sdReadFile (after card o.log) tableName sdFileMaxSize fuel o.buf
  else some o

def loadTableFromSd (card : Card) (tableName : List UInt8) (fuel : ℕ) (buf : Buffer)
    (target : Target) : Option Loaded :=
  let written := (tableName ++ tableFileSuffix).length
  let refused : Loaded := ⟨false, target, buf, 0, notFound⟩
  if !sanitizeIdentifier tableName then some refused
  else if written = 0 ∨ fnameSize ≤ written then some refused
  else (readTableFile card tableName fuel buf).map (fun o ↦ acceptFile o target)

def Loads (card : Card) (tableName : List UInt8) (buf : Buffer) (target : Target) (l : Loaded) :
    Prop :=
  ∃ fuel, loadTableFromSd card tableName fuel buf target = some l

/-- A file that is found under the name with the suffix is not asked for again. -/
theorem loads_of_read {card : Card} {tableName : List UInt8} {fuel : ℕ} {buf : Buffer} {o : Outcome}
    (hname : sanitizeIdentifier tableName = true)
    (hshort : tableName.length < Request.tableMaxLen)
    (ho : sdReadFile card (tableName ++ tableFileSuffix) sdFileMaxSize fuel buf = some o)
    (hret : 0 ≤ o.ret) (target : Target) :
    Loads card tableName buf target (acceptFile o target) := by
  have hread : readTableFile card tableName fuel buf = some o := by
    rw [readTableFile, ho, Option.bind_eq_bind, Option.bind_some, if_neg (by omega)]
  have hlen : (tableName ++ tableFileSuffix).length = tableName.length + 4 := List.length_append
  have hsize : fnameSize = Request.tableMaxLen + 8 := rfl
  refine ⟨fuel, ?_⟩
  rw [loadTableFromSd, if_neg (by simp [hname]), if_neg (by omega), hread]
  rfl

section Fuel

variable {card : Card} {tableName : List UInt8} {fuel fuel' : ℕ} {buf : Buffer} {target : Target}

theorem readTableFile_mono {o : Outcome} (h : readTableFile card tableName fuel buf = some o)
    (hf : fuel ≤ fuel') : readTableFile card tableName fuel' buf = some o := by
  have hread {card : Card} {name : List UInt8} {buf : Buffer} {o : Outcome}
      (h : sdReadFile card name sdFileMaxSize fuel buf = some o) :
      sdReadFile card name sdFileMaxSize fuel' buf = some o :=
    sdReadFile_iff.mpr ((sdReadFile_iff.mp h).mono hf)
  obtain ⟨o₁, h₁, h⟩ := Option.bind_eq_some_iff.mp h
  refine Option.bind_eq_some_iff.mpr ⟨o₁, hread h₁, ?_⟩
  split_ifs at h ⊢
  · exact hread h
  · exact h

theorem loadTableFromSd_mono {l : Loaded} (h : loadTableFromSd card tableName fuel buf target = some l)
    (hf : fuel ≤ fuel') : loadTableFromSd card tableName fuel' buf target = some l := by
  unfold loadTableFromSd at h ⊢
  simp only at h ⊢
  split_ifs at h ⊢
  · exact h
  · exact h
  · obtain ⟨o, ho, rfl⟩ := Option.map_eq_some_iff.mp h
    rw [readTableFile_mono ho hf, Option.map_some]

theorem Loads.unique {l l' : Loaded} (h : Loads card tableName buf target l)
    (h' : Loads card tableName buf target l') : l = l' := by
  obtain ⟨n, h⟩ := h
  obtain ⟨m, h'⟩ := h'
  have h₁ := loadTableFromSd_mono h (le_max_left n m)
  have h₂ := loadTableFromSd_mono h' (le_max_right n m)
  exact Option.some.inj (h₁.symm.trans h₂)

end Fuel

section Bytes

variable {buf buf' : Buffer} {first count n : ℕ}

@[simp] theorem length_bytesAt (buf : Buffer) (first count : ℕ) :
    (bytesAt buf first count).length = count := by simp [bytesAt]

theorem bytesAt_congr (h : Set.EqOn buf buf' (Set.Iio n)) (hn : first + count ≤ n) :
    bytesAt buf first count = bytesAt buf' first count := by
  refine List.map_congr_left fun k hk ↦ h ?_
  have := List.mem_range.mp hk
  simp only [Set.mem_Iio]
  omega

theorem take_drop_bytesAt (buf : Buffer) {first count n : ℕ} (hn : first + count ≤ n) :
    ((bytesAt buf 0 n).drop first).take count = bytesAt buf first count := by
  apply List.ext_getElem
  · simp
    omega
  · intro i hi hi'
    simp [bytesAt]

theorem readLe32_take (raw : List UInt8) : readLe32 (raw.take 4) = readLe32 raw := by
  have hget {k : ℕ} (hk : k < 4) : (raw.take 4).getD k 0 = raw.getD k 0 := by
    simp [List.getD_eq_getElem?_getD, hk]
  simp only [readLe32, hget (show 0 < 4 by omega), hget (show 1 < 4 by omega),
    hget (show 2 < 4 by omega), hget (show 3 < 4 by omega)]

theorem field_bytesAt (buf : Buffer) {offset : ℕ} (hn : offset + 4 ≤ n) :
    field (bytesAt buf 0 n) offset = headerField buf offset := by
  rw [field, headerField, ← take_drop_bytesAt buf hn, readLe32_take]

end Bytes

section Accept

variable {o : Outcome} {target : Target}

def delivered (o : Outcome) : List UInt8 := bytesAt o.buf 0 o.ret.toNat

theorem loadSchema_delivered (buf : Buffer) {n : ℕ} (schema : TableSchema) (hn : headerBytes ≤ n) :
    loadTableSchemaFromBuf (bytesAt buf 0 n) =
      if (loadSchema buf n schema).1 then some (loadSchema buf n schema).2 else none := by
  have hlen : headerBytes = 28 := rfl
  have hfields (offset : ℕ) (h : offset ≤ 24) :
      field (bytesAt buf 0 n) offset = headerField buf offset :=
    field_bytesAt buf (by omega)
  have hmagic : (bytesAt buf 0 n).take 4 = bytesAt buf 0 4 :=
    take_drop_bytesAt buf (show 0 + 4 ≤ n by omega)
  unfold loadTableSchemaFromBuf loadSchema
  simp only [hfields 4 (by omega), hfields 8 (by omega), hfields 12 (by omega),
    hfields 16 (by omega), hmagic, length_bytesAt, Nat.not_lt.mpr hn, if_false,
    Int.not_lt.mpr (Int.ofNat_le.mpr hn)]
  by_cases h₁ : bytesAt buf 0 4 ≠ ascii "TBL8"
  · rw [if_pos h₁, if_pos h₁]
    rfl
  · rw [if_neg h₁, if_neg h₁]
    by_cases h₂ : headerField buf 4 ≠ 1
    · rw [if_pos h₂, if_pos h₂]
      rfl
    · rw [if_neg h₂, if_neg h₂]
      by_cases h₃ : headerField buf 8 = 0 ∨ maxColumns < headerField buf 8
      · rw [if_pos h₃, if_pos h₃]
        rfl
      · rw [if_neg h₃, if_neg h₃]
        by_cases h₄ : headerField buf 16 ≠ maxColumns * cellSize
        · rw [if_pos h₄, if_pos h₄]
          rfl
        · rw [if_neg h₄, if_neg h₄, if_pos rfl]
          simp only [Option.some.injEq, TableSchema.mk.injEq, true_and]
          refine List.map_congr_left fun index hindex ↦ ?_
          have := List.mem_range.mp hindex
          have hcols : maxColumns = 4 := rfl
          have hcell : cellSize = 1 := rfl
          rw [hcell, take_drop_bytesAt buf (by omega)]

theorem clamp_rows (schema : TableSchema) (rows : ℕ) :
    (if rows < schema.rowCount then { schema with rowCount := rows } else schema) =
      { schema with rowCount := min rows schema.rowCount } := by
  split_ifs with h
  · rw [min_eq_left h.le]
  · rw [min_eq_right (by omega)]

/-- The file is accepted exactly if its bytes are a table, and then the caller gets that
table. -/
theorem acceptFile_delivered (o : Outcome) (target : Target) (hle : o.ret ≤ sdFileMaxSize) :
    match loadTable (delivered o) with
    | some table => (acceptFile o target).ret = true ∧
        (acceptFile o target).target = ⟨table.schema, table.memory.length⟩ ∧
        (acceptFile o target).memory = table.memory
    | none => (acceptFile o target).ret = false := by
  unfold acceptFile delivered
  have hlen : headerBytes = 28 := rfl
  have hmax : sdFileMaxSize = 262144 := rfl
  by_cases hshort : o.ret < headerBytes
  · have hnone : loadTableSchemaFromBuf (bytesAt o.buf 0 o.ret.toNat) = none := by
      rw [loadTableSchemaFromBuf, if_pos (by rw [length_bytesAt]; omega)]
    rw [loadTable, hnone, if_pos hshort]
    rfl
  · obtain ⟨n, hn⟩ := Int.eq_ofNat_of_zero_le (show 0 ≤ o.ret by omega)
    rw [hn] at hle hshort ⊢
    rw [if_neg hshort, Int.toNat_natCast]
    have hload := loadSchema_delivered o.buf target.schema (show headerBytes ≤ n by omega)
    cases hs : loadSchema o.buf n target.schema with
    | mk ok schema =>
      rw [hs] at hload
      cases ok with
      | false =>
        rw [loadTable, hload]
        rfl
      | true =>
        rw [if_pos rfl] at hload
        have hwidth : schema.rowWidth = 4 := (loadSchema_rowWidth hload).1
        have hrows : (if schema.rowWidth = 0 then 0
            else ((n : ℤ) - headerBytes).toNat / schema.rowWidth) = (n - headerBytes) / 4 := by
          rw [hwidth, if_neg (by omega), show ((n : ℤ) - headerBytes).toNat = n - headerBytes by omega]
        rw [loadTable, hload]
        simp only [Option.bind_eq_bind, Option.bind_some, length_bytesAt, hrows, clamp_rows]
        simp only [hwidth]
        by_cases hnone : (n - headerBytes) / 4 = 0
        · rw [if_pos hnone, if_pos hnone]
        · rw [if_neg hnone, if_neg hnone]
          have hfits : headerBytes + min ((n - headerBytes) / 4) schema.rowCount * 4 ≤ n := by
            omega
          have hsize : u32 (min ((n - headerBytes) / 4) schema.rowCount * 4) =
              min ((n - headerBytes) / 4) schema.rowCount * 4 := Nat.mod_eq_of_lt (by omega)
          simp only [hsize, take_drop_bytesAt _ hfits, length_bytesAt,
            Loaded.memory, true_and]

theorem loadTable_bounds {file : List UInt8} {table : LoadedTable}
    (h : loadTable file = some table) :
    table.memory.length = table.schema.rowCount * table.schema.rowWidth ∧
      table.schema.rowWidth = 4 ∧ headerBytes + table.memory.length ≤ file.length ∧
      1 ≤ table.schema.columnCount ∧ table.schema.columnCount ≤ 4 := by
  obtain ⟨schema, rows, hschema, hwidth, hfits, -, rfl⟩ := loadTable_some h
  have hlen : ((file.drop headerBytes).take (4 * rows)).length = 4 * rows := by
    rw [List.length_take, List.length_drop]
    omega
  refine ⟨?_, hwidth, ?_, (loadSchema_rowWidth hschema).2⟩
  · rw [hlen, hwidth, Nat.mul_comm]
  · rw [hlen]
    exact hfits

theorem acceptFile_frame (o : Outcome) (target : Target) :
    (acceptFile o target).buf = o.buf ∧ (acceptFile o target).fileBytes = o.ret ∧
      (acceptFile o target).found = o.found := by
  unfold acceptFile
  split_ifs
  · exact ⟨rfl, rfl, rfl⟩
  · split
    · exact ⟨rfl, rfl, rfl⟩
    · simp only
      split_ifs <;> exact ⟨rfl, rfl, rfl⟩

theorem acceptFile_ret (hle : o.ret ≤ sdFileMaxSize) (h : (acceptFile o target).ret = true) :
    ∃ table, loadTable (delivered o) = some table ∧
      (acceptFile o target).target = ⟨table.schema, table.memory.length⟩ ∧
      (acceptFile o target).memory = table.memory := by
  have hd := acceptFile_delivered o target hle
  split at hd
  · next table ht => exact ⟨table, ht, hd.2⟩
  · rw [h] at hd
    cases hd

end Accept

end FpgaDatabase.Firmware.TableLoad
