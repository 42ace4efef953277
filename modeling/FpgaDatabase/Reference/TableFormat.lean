import FpgaDatabase.Reference.FpgaTest
import Mathlib.Data.List.GetD

namespace FpgaDatabase.Reference.TableFormat

open FpgaTest

def magic : List UInt8 := [84, 66, 76, 56]
def version : ℕ := 1
def maxColumns : ℕ := 4
def cellSize : ℕ := 1
def headerSize : ℕ := 24 + maxColumns * cellSize

/-- The exceptions: those of `table_format.py` itself, that of the codec, and that of
`struct.pack`. -/
inductive Failure
  | noColumns
  | tooManyColumns
  | raggedRow
  | tooLong
  | notLatin1
  | tooManyRows
  | shortHeader
  | badMagic
  | badVersion
  | badColumnCount
  | badRowWidth
  | truncated
deriving DecidableEq

section Writing

def encodeFixed (text : Str) (size : ℕ) : Except Failure (List UInt8) :=
  let encoded := text.map UInt8.ofNat
  if ¬ text.all (· < 256) then .error .notLatin1
  else if size < encoded.length then .error .tooLong
  else .ok (encoded ++ List.replicate (size - encoded.length) 32)

def encodeCells (cells : List Str) : Except Failure (List UInt8) :=
  (cells.mapM (encodeFixed · cellSize)).map List.flatten

/-- The format `I` of `struct.pack`, in little-endian order. -/
def pack32 (n : ℕ) : List UInt8 :=
  [UInt8.ofNat n, UInt8.ofNat (n / 256), UInt8.ofNat (n / 65536), UInt8.ofNat (n / 16777216)]

def rowWidth : ℕ := maxColumns * cellSize

def normalizeRow (columns row : List Str) : Except Failure (List UInt8) :=
  if row.length ≠ columns.length then .error .raggedRow
  else encodeCells (row ++ List.replicate (maxColumns - row.length) [])

def packHeader (columnCount rowCount : ℕ) : List UInt8 :=
  magic ++ pack32 version ++ pack32 columnCount ++ pack32 rowCount ++ pack32 rowWidth ++ pack32 0

def writeTable (columns : List Str) (rows : List (List Str)) : Except Failure (List UInt8) :=
  if columns = [] then .error .noColumns
  else if maxColumns < columns.length then .error .tooManyColumns
  else do
    let normalizedRows ← rows.mapM (normalizeRow columns)
    if 4294967296 ≤ normalizedRows.length then .error .tooManyRows
    else
      let names ← encodeCells columns
      .ok (packHeader columns.length normalizedRows.length ++ names ++
        List.replicate ((maxColumns - columns.length) * cellSize) 0 ++ normalizedRows.flatten)

end Writing

section Reading

def unpack32 (raw : List UInt8) : ℕ :=
  (raw.getD 0 0).toNat + 256 * (raw.getD 1 0).toNat + 65536 * (raw.getD 2 0).toNat +
    16777216 * (raw.getD 3 0).toNat

def decodeCells (columnCount : ℕ) (blob : List UInt8) : List Str :=
  (List.range columnCount).map (fun index ↦
    decodeFixed ((blob.drop (index * cellSize)).take cellSize))

def readRows (columnCount width : ℕ) : ℕ → List UInt8 → Except Failure (List (List Str))
  | 0, _ => .ok []
  | n + 1, handle =>
    let rowBlob := handle.take width
    if rowBlob.length ≠ width then .error .truncated
    else do
      let rows ← readRows columnCount width n (handle.drop width)
      .ok (decodeCells columnCount rowBlob :: rows)

structure Contents where
  columns : List Str
  rows : List (List Str)
  rowCount : ℕ
  rowWidth : ℕ

def readTable (file : List UInt8) (limit : Option ℤ) : Except Failure Contents :=
  let header := file.take headerSize
  let columnCount := unpack32 (header.drop 8)
  let rowCount := unpack32 (header.drop 12)
  let width := unpack32 (header.drop 16)
  if header.length ≠ headerSize then .error .shortHeader
  else if header.take 4 ≠ magic then .error .badMagic
  else if unpack32 (header.drop 4) ≠ version then .error .badVersion
  else if columnCount = 0 ∨ maxColumns < columnCount then .error .badColumnCount
  else if width ≠ maxColumns * cellSize then .error .badRowWidth
  else do
    let rowsToRead := match limit with
      | none => rowCount
      | some n => (min n rowCount).toNat
    let rows ← readRows columnCount width rowsToRead (file.drop headerSize)
    .ok ⟨decodeCells columnCount (header.drop 24), rows, rowCount, width⟩

end Reading

theorem unpack32_pack32 {n : ℕ} (rest : List UInt8) (hn : n < 4294967296) :
    unpack32 (pack32 n ++ rest) = n := by
  simp only [unpack32, pack32, List.cons_append, List.getD_cons_zero, List.getD_cons_succ,
    UInt8.toNat_ofNat']
  omega

section Accepted

variable {columns : List Str} {rows : List (List Str)} {file : List UInt8}

theorem bind_ok {α β : Type} {x : Except Failure α} {f : α → Except Failure β} {r : β}
    (h : x.bind f = .ok r) : ∃ a, x = .ok a ∧ f a = .ok r := by
  cases x with
  | error e => cases h
  | ok a => exact ⟨a, rfl, h⟩

theorem map_ok {α β : Type} {x : Except Failure α} {f : α → β} {r : β} (h : x.map f = .ok r) :
    ∃ a, x = .ok a ∧ f a = r := by
  cases x with
  | error e => cases h
  | ok a => exact ⟨a, rfl, Except.ok.inj h⟩

theorem mapM_ok {α β : Type} {f : α → Except Failure β} {g : α → β}
    (hf : ∀ a r, f a = .ok r → r = g a) {as : List α} {rs : List β} (h : as.mapM f = .ok rs) :
    rs = as.map g ∧ ∀ a ∈ as, f a = .ok (g a) := by
  induction as generalizing rs with
  | nil =>
    cases h
    exact ⟨rfl, by simp⟩
  | cons a as ih =>
    rw [List.mapM_cons] at h
    obtain ⟨r, hr, h⟩ := bind_ok h
    obtain ⟨rs', hrs, h⟩ := bind_ok h
    cases h
    obtain ⟨rfl, hall⟩ := ih hrs
    have hr' := hf a r hr
    subst hr'
    exact ⟨rfl, List.forall_mem_cons.mpr ⟨hr, hall⟩⟩

def cellByte (text : Str) : UInt8 := UInt8.ofNat (text.headD 32)

theorem encodeFixed_ok {text : Str} {r : List UInt8} (h : encodeFixed text cellSize = .ok r) :
    r = [cellByte text] := by
  unfold encodeFixed at h
  simp only [List.length_map] at h
  split_ifs at h with h₁ h₂
  cases h
  match text, h₂ with
  | [], _ => rfl
  | [c], _ => rfl
  | c :: d :: rest, h₂ => exact absurd h₂ (by simp [cellSize])

theorem flatten_singletons (cells : List Str) :
    (cells.map (fun c ↦ [cellByte c])).flatten = cells.map cellByte := by
  induction cells with
  | nil => rfl
  | cons c cells ih => rw [List.map_cons, List.flatten_cons, ih]; rfl

theorem encodeCells_ok {cells : List Str} {r : List UInt8} (h : encodeCells cells = .ok r) :
    r = cells.map cellByte ∧ ∀ c ∈ cells, encodeFixed c cellSize = .ok [cellByte c] := by
  obtain ⟨rs, hrs, rfl⟩ := map_ok h
  obtain ⟨rfl, hall⟩ := mapM_ok (fun _ _ ↦ encodeFixed_ok) hrs
  exact ⟨flatten_singletons cells, hall⟩

def rowBytes (row : List Str) : List UInt8 :=
  (List.range maxColumns).map (fun j ↦ cellByte (row.getD j []))

theorem normalizeRow_ok {row : List Str} {r : List UInt8} (hcols : columns.length ≤ maxColumns)
    (h : normalizeRow columns row = .ok r) :
    r = rowBytes row ∧ ∀ j, encodeFixed (row.getD j []) cellSize = .ok [cellByte (row.getD j [])] := by
  unfold normalizeRow at h
  split_ifs at h with hlen
  rw [ne_eq, not_not] at hlen
  obtain ⟨rfl, hall⟩ := encodeCells_ok h
  refine ⟨?_, ?_⟩
  · apply List.ext_getElem
    · simp [rowBytes]
      omega
    · intro j hj hj'
      by_cases hrow : j < row.length
      · simp [rowBytes, hrow]
      · simp [rowBytes, List.getElem_append, hrow]
  · intro j
    by_cases hrow : j < row.length
    · rw [List.getD_eq_getElem _ _ hrow]
      exact hall _ (List.mem_append_left _ (List.getElem_mem hrow))
    · rw [List.getD_eq_default _ _ (by omega)]
      rfl

structure Written (columns : List Str) (rows : List (List Str)) (file : List UInt8) : Prop where
  columns_pos : 1 ≤ columns.length
  columns_le : columns.length ≤ 4
  rows_lt : rows.length < 4294967296
  names : ∀ c ∈ columns, encodeFixed c cellSize = .ok [cellByte c]
  cells : ∀ row ∈ rows, ∀ j, encodeFixed (row.getD j []) cellSize = .ok [cellByte (row.getD j [])]
  file_eq : file = packHeader columns.length rows.length ++ columns.map cellByte ++
    List.replicate (4 - columns.length) 0 ++ rows.flatMap rowBytes

theorem writeTable_ok (h : writeTable columns rows = .ok file) : Written columns rows file := by
  unfold writeTable at h
  split_ifs at h with hempty hmany
  obtain ⟨normalizedRows, hrows, h⟩ := bind_ok h
  split_ifs at h with hlt
  obtain ⟨names, hnames, h⟩ := bind_ok h
  have hcols : columns.length ≤ maxColumns := by omega
  obtain ⟨rfl, hcells⟩ := mapM_ok (g := rowBytes) (fun row r hr ↦ (normalizeRow_ok hcols hr).1) hrows
  obtain ⟨rfl, hall⟩ := encodeCells_ok hnames
  cases h
  refine ⟨List.length_pos_of_ne_nil hempty, hcols, ?_, hall, ?_, ?_⟩
  · rw [List.length_map] at hlt
    omega
  · intro row hrow
    exact (normalizeRow_ok hcols (hcells row hrow)).2
  · rw [List.length_map, ← List.flatMap_def]
    simp [maxColumns, cellSize]

end Accepted

end FpgaDatabase.Reference.TableFormat
