import FpgaDatabase.Firmware.Fat32
import FpgaDatabase.Firmware.FreshTable
import FpgaDatabase.Reference.TableFormat

namespace FpgaDatabase.Reference.WrittenTables

open FpgaTest TableFormat Firmware.CString Firmware.Driver Firmware.SdDriver Firmware.SdSearch
open Firmware.TableLoad Firmware.FreshTable Firmware.FatVolume Firmware.FatRead Firmware.Fat32
open Firmware.Table (loadTable loadTableSchemaFromBuf field headerBytes sdFileMaxSize TableSchema
  LoadedTable)

variable {columns : List Str} {rows : List (List Str)} {file : List UInt8} {n : ℕ}

section Numbers

theorem pack32_eq (n : ℕ) : pack32 n = wordBytes (BitVec.ofNat 32 n) := by
  have hbyte (k : ℕ) : (UInt8.ofBitVec ((BitVec.ofNat 32 n).extractLsb' (k * 8) 8)).toNat =
      n % 4294967296 / 2 ^ (k * 8) % 256 := by
    rw [UInt8.toNat_ofBitVec, BitVec.extractLsb'_toNat, BitVec.toNat_ofNat,
      Nat.shiftRight_eq_div_pow]
  have hwords : wordBytes (BitVec.ofNat 32 n) =
      [UInt8.ofBitVec ((BitVec.ofNat 32 n).extractLsb' (0 * 8) 8),
        UInt8.ofBitVec ((BitVec.ofNat 32 n).extractLsb' (1 * 8) 8),
        UInt8.ofBitVec ((BitVec.ofNat 32 n).extractLsb' (2 * 8) 8),
        UInt8.ofBitVec ((BitVec.ofNat 32 n).extractLsb' (3 * 8) 8)] := rfl
  rw [hwords, pack32]
  simp only [List.cons.injEq, and_true, ← UInt8.toNat_inj, hbyte, UInt8.toNat_ofNat']
  omega

end Numbers

section Firmware

theorem length_packHeader (columnCount rowCount : ℕ) :
    (packHeader columnCount rowCount).length = 24 := by
  simp [packHeader, magic, pack32]

theorem length_rowBytes (row : List Str) : (rowBytes row).length = 4 := by
  simp [rowBytes, maxColumns]

theorem length_flatMap_rowBytes (rows : List (List Str)) :
    (rows.flatMap rowBytes).length = 4 * rows.length := by
  simp [List.length_flatMap, length_rowBytes, Nat.mul_comm]

theorem length_written (h : Written columns rows file) : file.length = 28 + 4 * rows.length := by
  have hle := h.columns_le
  rw [h.file_eq]
  simp only [List.length_append, length_packHeader, List.length_map, List.length_replicate,
    length_flatMap_rowBytes]
  omega

theorem header_written (h : Written columns rows file) (read : List UInt8 → ℕ)
    (hread : ∀ n rest, n < 4294967296 → read (pack32 n ++ rest) = n) :
    read (file.drop 4) = 1 ∧ read (file.drop 8) = columns.length ∧
      read (file.drop 12) = rows.length ∧ read (file.drop 16) = 4 := by
  have hcols := h.columns_le
  have hrows := h.rows_lt
  have hfile : ∃ rest, file = magic ++ (pack32 1 ++ (pack32 columns.length ++
      (pack32 rows.length ++ (pack32 4 ++ rest)))) := by
    refine ⟨pack32 0 ++ columns.map cellByte ++ List.replicate (4 - columns.length) 0 ++
      rows.flatMap rowBytes, ?_⟩
    rw [h.file_eq]
    simp [packHeader, version, rowWidth, maxColumns, cellSize, List.append_assoc]
  obtain ⟨rest, rfl⟩ := hfile
  exact ⟨hread 1 _ (by omega), hread _ _ (by omega), hread _ _ hrows, hread 4 _ (by omega)⟩

theorem name_written (h : Written columns rows file) {index : ℕ} (hi : index < columns.length) :
    (file.drop (24 + index)).take 1 = [cellByte columns[index]] := by
  have hdrop : file.drop (24 + index) = cellByte columns[index] :: (columns.map cellByte).drop (index + 1) ++
      (List.replicate (4 - columns.length) 0 ++ rows.flatMap rowBytes) := by
    rw [h.file_eq, List.append_assoc, List.append_assoc, ← List.drop_drop,
      List.drop_left' (length_packHeader _ _), List.drop_append_of_le_length (by simp; omega),
      List.drop_eq_getElem_cons (by simpa using hi), List.getElem_map]
  rw [hdrop]
  rfl

theorem body_written (h : Written columns rows file) : file.drop 28 = rows.flatMap rowBytes := by
  have hle := h.columns_le
  rw [h.file_eq, List.drop_left']
  simp only [List.length_append, length_packHeader, List.length_map, List.length_replicate]
  omega

theorem magic_written (h : Written columns rows file) : file.take 4 = ascii "TBL8" := by
  rw [h.file_eq]
  rfl

theorem schema_written (h : Written columns rows file) :
    loadTableSchemaFromBuf file = some ⟨1, columns.length, rows.length, 4,
      columns.map (fun c ↦ trimCopy 2 [cellByte c])⟩ := by
  obtain ⟨h₁, h₂, h₃, h₄⟩ := header_written h (fun raw ↦ (readLe32 raw).toNat) (fun n rest hn ↦ by
    rw [pack32_eq, readLe32_wordBytes, BitVec.toNat_ofNat, Nat.mod_eq_of_lt (by omega)])
  have hlen := length_written h
  have hpos := h.columns_pos
  have hle := h.columns_le
  have hcols : Firmware.Table.maxColumns = 4 := rfl
  have hcell : Firmware.Table.cellSize = 1 := rfl
  have hbytes : headerBytes = 28 := rfl
  simp only [loadTableSchemaFromBuf, field, h₁, h₂, h₃, h₄]
  rw [if_neg (by omega), if_neg (by simp [magic_written h]), if_neg (by simp), if_neg (by omega),
    if_neg (by simp [hcols, hcell])]
  simp only [Option.some.injEq, TableSchema.mk.injEq, true_and, hcell, Nat.mul_one]
  apply List.ext_getElem
  · simp
  · intro i hi hi'
    simp [name_written h (show i < columns.length by simpa using hi)]

/-- The firmware takes a written table for what it is, unless it has no rows. -/
theorem loadTable_written (h : Written columns rows file) (hrows : rows ≠ []) :
    loadTable file = some ⟨⟨1, columns.length, rows.length, 4,
      columns.map (fun c ↦ trimCopy 2 [cellByte c])⟩, rows.flatMap rowBytes⟩ := by
  have hlen := length_written h
  have hpos := List.length_pos_of_ne_nil hrows
  have hbytes : headerBytes = 28 := rfl
  have hbody := length_flatMap_rowBytes rows
  have hcount : (file.length - 28) / 4 = rows.length := by omega
  rw [loadTable, schema_written h]
  simp only [Option.bind_eq_bind, Option.bind_some, hbytes, hcount]
  rw [if_neg (by omega), min_self, body_written h, List.take_of_length_le (by omega)]

end Firmware

section Reader

theorem readRows_written (columnCount : ℕ) {n : ℕ} {rows : List (List Str)} (hn : n ≤ rows.length) :
    readRows columnCount 4 n (rows.flatMap rowBytes) =
      .ok ((rows.take n).map (fun row ↦ decodeCells columnCount (rowBytes row))) := by
  induction n generalizing rows with
  | zero => rfl
  | succ n ih =>
    obtain ⟨row, rows, rfl⟩ := List.exists_cons_of_ne_nil (List.ne_nil_of_length_pos (Nat.zero_lt_of_lt hn))
    have hlen := length_rowBytes row
    rw [readRows, List.flatMap_cons, List.take_left' hlen, List.drop_left' hlen,
      ih (Nat.le_of_succ_le_succ hn), if_neg (by simp [hlen])]
    rfl

theorem readTable_limited (h : Written columns rows file) (limit : Option ℤ) {n : ℕ}
    (hn : (match limit with
      | none => rows.length
      | some k => (min k rows.length).toNat) = n) :
    readTable file limit = .ok
      ⟨columns.map (fun c ↦ decodeFixed [cellByte c]),
        (rows.take n).map (fun row ↦ decodeCells columns.length (rowBytes row)), rows.length, 4⟩ := by
  have hlen := length_written h
  have hpos := h.columns_pos
  have hle := h.columns_le
  have hhead {m : ℕ} (hm : 4 ≤ m) := header_written h (fun raw ↦ unpack32 (raw.take m))
    (fun n rest hn ↦ by
      have hp : (pack32 n).length = 4 := by simp [pack32]
      rw [List.take_append, List.take_of_length_le (by omega)]
      exact unpack32_pack32 _ hn)
  have hsize : headerSize = 28 := rfl
  have hmax : maxColumns = 4 := rfl
  have hcell : cellSize = 1 := rfl
  simp only [readTable, hsize, List.drop_take, (hhead (show 4 ≤ 28 - 4 by omega)).1,
    (hhead (show 4 ≤ 28 - 8 by omega)).2.1, (hhead (show 4 ≤ 28 - 12 by omega)).2.2.1,
    (hhead (show 4 ≤ 28 - 16 by omega)).2.2.2]
  have hle' : n ≤ rows.length := by
    cases limit with
    | none => exact hn.symm.le
    | some k =>
      simp only at hn
      omega
  have hmagic : (file.take 28).take 4 = magic := by
    rw [List.take_take, h.file_eq]
    rfl
  rw [if_neg (by rw [List.length_take]; omega), if_neg (by simp [hmagic]), if_neg (by simp [version]),
    if_neg (by omega), if_neg (by simp [hmax, hcell]), body_written h]
  have hnames : decodeCells columns.length ((file.drop 24).take (28 - 24)) =
      columns.map (fun c ↦ decodeFixed [cellByte c]) := by
    apply List.ext_getElem
    · simp [decodeCells]
    · intro i hi hi'
      have hi'' : i < columns.length := by simpa using hi'
      have hname := name_written h hi''
      simp only [decodeCells, hcell, Nat.mul_one, List.getElem_map, List.getElem_range]
      rw [List.drop_take, List.take_take, List.drop_drop, min_eq_left (by omega), hname]
  rw [hnames]
  cases limit with
  | none =>
    simp only at hn ⊢
    rw [hn, readRows_written _ hle']
    rfl
  | some k =>
    simp only at hn ⊢
    rw [hn, readRows_written _ hle']
    rfl

theorem readTable_written (h : Written columns rows file) :
    readTable file none = .ok
      ⟨columns.map (fun c ↦ decodeFixed [cellByte c]),
        rows.map (fun row ↦ decodeCells columns.length (rowBytes row)), rows.length, 4⟩ := by
  have hall := readTable_limited h none rfl
  rwa [List.take_length] at hall

/-- A limit leaves the first rows. -/
theorem readTable_take (h : Written columns rows file) {contents : Contents}
    (hread : readTable file none = .ok contents) (n : ℕ) :
    readTable file (some n) = .ok { contents with rows := contents.rows.take n } := by
  have htake : (min (n : ℤ) rows.length).toNat = min n rows.length := by omega
  have hsome := readTable_limited h (some n) htake
  rw [readTable_written h, Except.ok.injEq] at hread
  rw [hsome, ← hread, ← List.map_take, ← List.take_eq_take_min]

end Reader

section Cards

variable {v : Volume} {e : Slot} {name tableName : List UInt8} {buf : Buffer} {target : Target}

def Located (v : Volume) (name : List UInt8) (e : Slot) : Prop :=
  if v.layout.fat32 then Reached v name e
  else firstAsked name v.root = some e ∨
    firstAsked name v.root = none ∧ firstAsked name v.tables = some e

theorem lookup_eq (name : List UInt8) (slots : List Slot) :
    lookup (wantedFile name) slots = (firstAsked name slots).elim notFound foundAt := rfl

theorem read_located (he : e ∈ files v.root ++ files v.tables) (hs : fileSizeOf e ≠ 0)
    (h : Located v name e) (bufSize : ℕ) (buf : Buffer) :
    ∃ o, Returns (sound v.image) name bufSize buf o ∧ o.ret = (min (fileSizeOf e) bufSize : ℕ) ∧
      ∀ i < min (fileSizeOf e) bufSize, (v.clustersOf e)[i]? = some (o.buf i) := by
  have hf := v.file_chain e he
  rw [if_neg hs] at hf
  have hpos : startOf v.layout e ≠ 0 := by
    have := hf.1.head.1
    omega
  unfold Located at h
  cases hfat : v.layout.fat32 with
  | true =>
    rw [hfat, if_pos rfl] at h
    have hlow : ru16 e.entry 26 = startOf v.layout e := by
      rw [← startOf_mod hfat, Nat.mod_eq_of_lt h.start]
    obtain ⟨o, h₁, h₂, h₃, -⟩ := copy_located hs hf.1 hf.2 hlow (locate_of_reached hfat h hpos)
    exact ⟨o, h₁, h₂, h₃⟩
  | false =>
    rw [hfat, if_neg (by simp)] at h
    have hne : (foundAt e).cluster ≠ 0 := by
      rw [← startOf_fat16 hfat] at hpos
      exact hpos
    refine copy_fat16 hfat he hs ?_
    rcases h with hroot | ⟨hroot, htables⟩
    · have hy := yields_root v (wantedFile name)
      rw [lookup_eq, hroot] at hy
      exact locate_root hy hne
    · have hc : (lookup (wantedFile name) v.root).cluster = 0 := by
        rw [lookup_eq, hroot]
        rfl
      rcases locate_in_tables hfat hc with ⟨f, -, hnil, -⟩ | hl
      · rw [hnil] at htables
        cases htables
      · rwa [lookup_eq, htables] at hl

/-- The card holds these bytes as the file of a table. -/
structure Holds (v : Volume) (tableName file : List UInt8) (e : Slot) : Prop where
  name : sanitizeIdentifier tableName = true
  short : tableName.length < Firmware.Request.tableMaxLen
  mem : e ∈ files v.root ++ files v.tables
  located : Located v (tableName ++ tableFileSuffix) e
  size : fileSizeOf e = file.length
  bytes : ∀ i < file.length, (v.clustersOf e)[i]? = file[i]?

/-- Loading a table that the card holds comes down to loading its bytes. -/
theorem load_held (h : Holds v tableName file e) (hne : file ≠ [])
    (hsize : file.length ≤ sdFileMaxSize) (buf : Buffer) (target : Target) :
    ∃ l, Loads (sound v.image) tableName buf target l ∧
      match loadTable file with
      | some table => l.ret = true ∧ l.target = ⟨table.schema, table.memory.length⟩ ∧
          l.memory = table.memory
      | none => l.ret = false := by
  have hpos := List.length_pos_of_ne_nil hne
  obtain ⟨o, ⟨fuel, ho⟩, hret, hbuf⟩ := read_located h.mem (by rw [h.size]; omega) h.located
    sdFileMaxSize buf
  rw [h.size, min_eq_left hsize] at hret hbuf
  have hdelivered : delivered o = file := by
    rw [delivered, hret, Int.toNat_natCast]
    apply List.ext_getElem?
    intro i
    by_cases hi : i < file.length
    · rw [← h.bytes i hi, hbuf i hi]
      simp [bytesAt, hi]
    · simp [bytesAt, hi]
  have haccept := acceptFile_delivered o target (sdReadFile_le ho)
  rw [hdelivered] at haccept
  exact ⟨acceptFile o target, loads_of_read h.name h.short ho (by omega) target, haccept⟩

end Cards

section RoundTrip

variable {v : Volume} {e : Slot} {tableName : List UInt8}

/-- The bytes of a name that `read_table` reports; `trim_copy` takes the control
characters from TAB to CR for white space. -/
def shownName (name : Str) : List UInt8 :=
  if name.any (fun c ↦ 9 ≤ c && c ≤ 13) then [] else name.map UInt8.ofNat

theorem trimCopy_name (b : UInt8) : trimCopy 2 [b] = shownName (decodeFixed [b]) := by
  revert b
  exact forall_byte (by decide +kernel)

theorem getElem?_rows (rows : List (List Str)) {i j : ℕ} (hi : i < rows.length) (hj : j < 4) :
    (rows.flatMap rowBytes)[4 * i + j]? = some (cellByte (rows[i].getD j [])) := by
  induction rows generalizing i with
  | nil => exact absurd hi (Nat.not_lt_zero i)
  | cons row rows ih =>
    have hlen := length_rowBytes row
    rw [List.flatMap_cons]
    cases i with
    | zero =>
      rw [List.getElem?_append_left (by omega), Nat.mul_zero, Nat.zero_add, rowBytes,
        List.getElem?_map, List.getElem?_range (show j < maxColumns from hj)]
      rfl
    | succ i =>
      rw [List.getElem?_append_right (by omega), hlen, show 4 * (i + 1) + j - 4 = 4 * i + j by omega]
      exact ih (by simpa using hi)

/-- The firmware reads back what the table writer has written. -/
theorem written_table_loads (hw : writeTable columns rows = .ok file)
    (hsize : file.length ≤ sdFileMaxSize) (hrows : rows ≠ []) (hcard : Holds v tableName file e)
    (buf : Buffer) (target : Target) :
    ∃ l contents, Loads (sound v.image) tableName buf target l ∧ l.ret = true ∧
      readTable file none = .ok contents ∧
      l.target.schema.columnCount = columns.length ∧ l.target.schema.rowCount = rows.length ∧
      l.target.schema.columns = contents.columns.map shownName ∧
      ∀ (i : ℕ) (hi : i < rows.length) (j : ℕ), j < 4 →
        ∃ byte, encodeFixed (rows[i].getD j []) cellSize = .ok [byte] ∧
          l.memory[4 * i + j]? = some byte := by
  have h := writeTable_ok hw
  have hne : file ≠ [] := by
    have := length_written h
    exact List.ne_nil_of_length_pos (by omega)
  obtain ⟨l, hl, hload⟩ := load_held hcard hne hsize buf target
  rw [loadTable_written h hrows] at hload
  obtain ⟨hret, htarget, hmemory⟩ := hload
  refine ⟨l, _, hl, hret, readTable_written h, ?_, ?_, ?_, ?_⟩
  · rw [htarget]
  · rw [htarget]
  · rw [htarget, List.map_map]
    exact List.map_congr_left fun c _ ↦ trimCopy_name (cellByte c)
  · intro i hi j hj
    refine ⟨cellByte (rows[i].getD j []), h.cells _ (List.getElem_mem hi) j, ?_⟩
    rw [hmemory]
    exact getElem?_rows rows hi hj

theorem holds_oneFile {nm : List UInt8} (hname : sanitizeIdentifier tableName = true)
    (hshort : tableName.length < Firmware.Request.tableMaxLen)
    (hs : Firmware.OneFile.Storable nm) (hnm : nm = to83 (tableName ++ tableFileSuffix))
    (hlen : file.length ≤ 512) (hne : file ≠ []) :
    Holds (Firmware.OneFile.volume hs hlen hne) tableName file (Firmware.OneFile.slot nm file) := by
  have hfiles : files (Firmware.OneFile.volume hs hlen hne).root = [Firmware.OneFile.slot nm file] :=
    Firmware.OneFile.files_root hs
  refine ⟨hname, hshort, ?_, .inl ?_, Firmware.OneFile.fileSizeOf_slot hlen, ?_⟩
  · rw [hfiles]
    exact List.mem_append_left _ (List.mem_singleton_self _)
  · rw [firstAsked, show entries (Firmware.OneFile.volume hs hlen hne).root = _ from
      Firmware.OneFile.entries_root hs, List.find?_cons_of_pos (asked_slot hs (.inl hnm))]
  · intro i hi
    rw [Firmware.OneFile.clustersOf_slot hs hlen hne (by omega)]
    simp [hi]

theorem holds_alunos (hlen : file.length ≤ 512) (hne : file ≠ []) :
    Holds (Firmware.OneFile.volume storable_alunos hlen hne) (ascii "alunos") file
      (Firmware.OneFile.slot (ascii "ALUNOS  TBL") file) :=
  holds_oneFile (by decide) (by decide) storable_alunos (by decide) hlen hne

def alunosFile : List UInt8 :=
  magic ++ [1, 0, 0, 0, 2, 0, 0, 0, 2, 0, 0, 0, 4, 0, 0, 0, 0, 0, 0, 0] ++ [105, 110, 0, 0] ++
    [49, 65, 32, 32] ++ [50, 32, 32, 32]

theorem write_alunos : writeTable [str "i", str "n"] [[str "1", str "A"], [str "2", str ""]] =
    .ok alunosFile := by
  rfl

theorem alunos_read_back : ∃ l contents,
    Loads (sound (Firmware.OneFile.image (ascii "ALUNOS  TBL") alunosFile)) (ascii "alunos")
      (fun _ ↦ 0) blank l ∧ l.ret = true ∧ readTable alunosFile none = .ok contents ∧
    l.target.schema.columnCount = 2 ∧ l.target.schema.rowCount = 2 ∧
    l.target.schema.columns = contents.columns.map shownName ∧ l.memory[4 * 0 + 1]? = some 65 := by
  have hlen : alunosFile.length ≤ 512 := by decide
  have hne : alunosFile ≠ [] := by decide
  obtain ⟨l, contents, h₁, h₂, h₃, h₄, h₅, h₆, h₇⟩ := written_table_loads write_alunos (by decide)
    (by simp) (holds_alunos hlen hne) (fun _ ↦ 0) blank
  obtain ⟨byte, hbyte, hmem⟩ := h₇ 0 (by decide) 1 (by decide)
  cases hbyte
  exact ⟨l, contents, h₁, h₂, h₃, h₄, h₅, h₆, hmem⟩

def emptyFile : List UInt8 :=
  magic ++ [1, 0, 0, 0, 1, 0, 0, 0, 0, 0, 0, 0, 4, 0, 0, 0, 0, 0, 0, 0] ++ [110, 0, 0, 0]

def tabFile : List UInt8 :=
  magic ++ [1, 0, 0, 0, 1, 0, 0, 0, 1, 0, 0, 0, 4, 0, 0, 0, 0, 0, 0, 0] ++ [9, 0, 0, 0] ++
    [49, 32, 32, 32]

/-- A table without rows is not loaded at all, and a column named by a TAB loses its
name. -/
theorem tables_not_read_back :
    (writeTable [str "n"] [] = .ok emptyFile ∧
      ∃ v e, Holds v (ascii "alunos") emptyFile e ∧
        (∃ l, Loads (sound v.image) (ascii "alunos") (fun _ ↦ 0) blank l) ∧
        ¬ ∃ l, Loads (sound v.image) (ascii "alunos") (fun _ ↦ 0) blank l ∧ l.ret = true) ∧
    (writeTable [[9]] [[str "1"]] = .ok tabFile ∧
      ∃ v e, Holds v (ascii "alunos") tabFile e ∧ ∃ l contents,
        Loads (sound v.image) (ascii "alunos") (fun _ ↦ 0) blank l ∧ l.ret = true ∧
        readTable tabFile none = .ok contents ∧ contents.columns = [[9]] ∧
        l.target.schema.columns = [[]]) := by
  refine ⟨⟨rfl, ?_⟩, rfl, ?_⟩
  · have hlen : emptyFile.length ≤ 512 := by decide
    have hne : emptyFile ≠ [] := by decide
    have hholds := holds_alunos hlen hne
    obtain ⟨l, hl, hret⟩ := load_held hholds hne (by decide) (fun _ ↦ 0) blank
    have hnone : (loadTable emptyFile).isNone = true := by decide +kernel
    rw [Option.isNone_iff_eq_none.mp hnone] at hret
    refine ⟨_, _, hholds, ⟨l, hl⟩, ?_⟩
    rintro ⟨l', hl', hret'⟩
    rw [hl'.unique hl, hret] at hret'
    cases hret'
  · have hlen : tabFile.length ≤ 512 := by decide
    have hne : tabFile ≠ [] := by decide
    have hholds := holds_alunos hlen hne
    have hwritten : Written [[9]] [[str "1"]] tabFile := writeTable_ok rfl
    obtain ⟨l, hl, hload⟩ := load_held hholds hne (by decide) (fun _ ↦ 0) blank
    rw [loadTable_written hwritten (by simp)] at hload
    refine ⟨_, _, hholds, l, _, hl, hload.1, readTable_written hwritten, by decide, ?_⟩
    rw [hload.2.1]
    decide

end RoundTrip

end FpgaDatabase.Reference.WrittenTables
