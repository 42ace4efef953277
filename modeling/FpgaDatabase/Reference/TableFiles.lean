import FpgaDatabase.Reference.WrittenTables

namespace FpgaDatabase.Reference.TableFiles

open FpgaTest TableFormat WrittenTables

/-- What stands under the path of a table, if anything does. -/
abbrev Output := Option (List UInt8)

/-- `open("wb")` truncates. -/
def openWb (_output : Output) : Output := some []

def write (bytes : List UInt8) (handle : Output) : Output := handle.map (· ++ bytes)

/-- `write_table` with its effect on the file, in the order of the source. -/
def writeTableTo (columns : List Str) (rows : List (List Str)) (output : Output) :
    Except Failure Unit × Output :=
  if columns = [] then (.error .noColumns, output)
  else if maxColumns < columns.length then (.error .tooManyColumns, output)
  else
    match rows.mapM (normalizeRow columns) with
    | .error failure => (.error failure, output)
    | .ok normalizedRows =>
      if 4294967296 ≤ normalizedRows.length then (.error .tooManyRows, output)
      else
        match encodeCells columns with
        | .error failure => (.error failure, output)
        | .ok names =>
          let names := names ++ List.replicate ((maxColumns - columns.length) * cellSize) 0
          let handle := openWb output
          let handle := write (packHeader columns.length normalizedRows.length) handle
          let handle := write names handle
          (.ok (), normalizedRows.foldl (fun handle row ↦ write row handle) handle)

def OneByte (text : Str) : Prop := text.length ≤ 1 ∧ ∀ ch ∈ text, ch < 256

structure Writable (columns : List Str) (rows : List (List Str)) : Prop where
  columns_pos : 1 ≤ columns.length
  columns_le : columns.length ≤ 4
  rows_even : ∀ row ∈ rows, row.length = columns.length
  names : ∀ c ∈ columns, OneByte c
  cells : ∀ row ∈ rows, ∀ c ∈ row, OneByte c

/-- `text.rstrip(" \x00")`. -/
def rstrip (text : Str) : Str := text.rdropWhile (fun ch ↦ ch = 32 || ch = 0)

def firstRows (limit : Option ℕ) (rows : List (List Str)) : List (List Str) :=
  match limit with
  | none => rows
  | some k => rows.take k

section Effect

variable {columns : List Str} {rows : List (List Str)} {output : Output} {file : List UInt8}

theorem write_foldl (chunks : List (List UInt8)) (bytes : List UInt8) :
    chunks.foldl (fun handle row ↦ write row handle) (some bytes) =
      some (bytes ++ chunks.flatten) := by
  induction chunks generalizing bytes with
  | nil => simp
  | cons chunk chunks ih =>
    rw [List.foldl_cons, List.flatten_cons, ← List.append_assoc]
    exact ih (bytes ++ chunk)

/-- The file is opened only when nothing can fail any more. -/
theorem writeTableTo_eq (columns : List Str) (rows : List (List Str)) (output : Output) :
    writeTableTo columns rows output = match writeTable columns rows with
      | .error failure => (.error failure, output)
      | .ok file => (.ok (), some file) := by
  rw [writeTableTo, writeTable]
  split_ifs with hempty hmany
  · rfl
  · rfl
  · cases hrows : rows.mapM (normalizeRow columns) with
    | error failure => rfl
    | ok normalizedRows =>
      simp only [bind, Except.bind]
      split_ifs with hlt
      · rfl
      · cases hnames : encodeCells columns with
        | error failure => rfl
        | ok names =>
          refine Prod.ext rfl ((write_foldl normalizedRows _).trans ?_)
          simp only [List.nil_append, List.append_assoc]

theorem encodeFixed_iff (text : Str) :
    encodeFixed text cellSize = .ok [cellByte text] ↔ OneByte text := by
  constructor
  · intro h
    unfold encodeFixed at h
    simp only [List.length_map] at h
    split_ifs at h with hlatin hlong
    refine ⟨Nat.le_of_not_lt hlong, ?_⟩
    simpa using hlatin
  · rintro ⟨hlen, hlatin⟩
    unfold encodeFixed
    have hall : text.all (· < 256) = true := by simpa using hlatin
    simp only [List.length_map]
    rw [if_neg (by simp [hall]), if_neg (show ¬ cellSize < text.length from Nat.not_lt.mpr hlen)]
    match text, hlen with
    | [], _ => rfl
    | [c], _ => rfl

theorem mapM_of_ok {α β : Type} {f : α → Except Failure β} {g : α → β} {as : List α}
    (h : ∀ a ∈ as, f a = .ok (g a)) : as.mapM f = .ok (as.map g) := by
  induction as with
  | nil => rfl
  | cons a as ih =>
    rw [List.forall_mem_cons] at h
    rw [List.mapM_cons, h.1, ih h.2]
    rfl

theorem encodeCells_iff (cells : List Str) :
    (∃ bytes, encodeCells cells = .ok bytes) ↔ ∀ c ∈ cells, OneByte c := by
  constructor
  · rintro ⟨bytes, h⟩ c hc
    exact (encodeFixed_iff c).mp ((encodeCells_ok h).2 c hc)
  · intro h
    have hall : cells.mapM (encodeFixed · cellSize) = .ok (cells.map fun c ↦ [cellByte c]) :=
      mapM_of_ok fun c hc ↦ (encodeFixed_iff c).mpr (h c hc)
    exact ⟨_, by rw [encodeCells, hall]; rfl⟩

theorem normalizeRow_iff (hcols : columns.length ≤ 4) (row : List Str) :
    normalizeRow columns row = .ok (rowBytes row) ↔
      row.length = columns.length ∧ ∀ c ∈ row, OneByte c := by
  have hempty : OneByte [] := ⟨Nat.zero_le _, fun ch hch ↦ nomatch hch⟩
  constructor
  · intro h
    unfold normalizeRow at h
    split_ifs at h with hlen
    refine ⟨not_not.mp hlen, fun c hc ↦ ?_⟩
    exact (encodeCells_iff _).mp ⟨_, h⟩ c (List.mem_append_left _ hc)
  · rintro ⟨hlen, hcells⟩
    obtain ⟨bytes, hbytes⟩ := (encodeCells_iff (row ++ List.replicate (maxColumns - row.length) [])).mpr (by
      intro c hc
      rcases List.mem_append.mp hc with hc | hc
      · exact hcells c hc
      · rwa [List.eq_of_mem_replicate hc])
    have hrow : normalizeRow columns row = .ok bytes := by
      rw [normalizeRow, if_neg (not_not.mpr hlen), hbytes]
    rw [hrow, (normalizeRow_ok hcols hrow).1]

/-- The tables that are written are those that the format can hold. -/
theorem writeTable_iff : (∃ file, writeTable columns rows = .ok file) ↔
    Writable columns rows ∧ rows.length < 4294967296 := by
  constructor
  · rintro ⟨file, h⟩
    have hw := writeTable_ok h
    unfold writeTable at h
    split_ifs at h
    obtain ⟨normalizedRows, hrows, -⟩ := bind_ok h
    obtain ⟨-, hall⟩ := mapM_ok (g := rowBytes)
      (fun row r hr ↦ (normalizeRow_ok hw.columns_le hr).1) hrows
    have hrow (row : List Str) (hmem : row ∈ rows) :=
      (normalizeRow_iff hw.columns_le row).mp (hall row hmem)
    exact ⟨⟨hw.columns_pos, hw.columns_le, fun row hmem ↦ (hrow row hmem).1,
      fun c hc ↦ (encodeFixed_iff c).mp (hw.names c hc), fun row hmem ↦ (hrow row hmem).2⟩, hw.rows_lt⟩
  · rintro ⟨h, hlt⟩
    have hrows : rows.mapM (normalizeRow columns) = .ok (rows.map rowBytes) :=
      mapM_of_ok fun row hrow ↦
        (normalizeRow_iff h.columns_le row).mpr ⟨h.rows_even row hrow, h.cells row hrow⟩
    obtain ⟨names, hnames⟩ := (encodeCells_iff columns).mpr h.names
    have hpos := h.columns_pos
    have hempty : columns ≠ [] := List.ne_nil_of_length_pos hpos
    rw [writeTable, if_neg hempty, if_neg (show ¬ maxColumns < columns.length from
      Nat.not_lt.mpr h.columns_le), hrows]
    simp only [bind, Except.bind, List.length_map, hnames]
    rw [if_neg (by omega)]
    exact ⟨_, rfl⟩

end Effect

section Reading

variable {columns : List Str} {rows : List (List Str)} {file : List UInt8} {text : Str}

theorem decodeFixed_cell (h : OneByte text) : decodeFixed [cellByte text] = rstrip text := by
  match text, h with
  | [], _ => rfl
  | [c], h =>
    have hc : c < 256 := h.2 c List.mem_cons_self
    have hbyte : (UInt8.ofNat c).toNat = c := by
      rw [UInt8.toNat_ofNat', Nat.mod_eq_of_lt hc]
    simp only [decodeFixed, cellByte, List.headD_cons, List.map_cons, List.map_nil, hbyte, rstrip]

theorem decodeCells_row {row : List Str} (hlen : row.length ≤ 4) (h : ∀ c ∈ row, OneByte c) :
    decodeCells row.length (rowBytes row) = row.map rstrip := by
  have hcells : decodeCells row.length (rowBytes row) =
      (List.range row.length).map (fun i ↦ rstrip (row.getD i [])) := by
    refine List.map_congr_left fun i hi ↦ ?_
    have hi' : i < row.length := List.mem_range.mp hi
    have hget : (rowBytes row)[i]? = some (cellByte (row.getD i [])) := by
      rw [rowBytes, List.getElem?_map, List.getElem?_range (show i < maxColumns from by
        unfold maxColumns; omega)]
      rfl
    have hone : ((rowBytes row).drop (i * cellSize)).take cellSize = [cellByte (row.getD i [])] := by
      obtain ⟨hlt, hval⟩ := List.getElem?_eq_some_iff.mp hget
      rw [show i * cellSize = i from Nat.mul_one i, List.drop_eq_getElem_cons hlt, hval]
      rfl
    rw [hone, decodeFixed_cell]
    rw [List.getD_eq_getElem _ _ hi']
    exact h _ (List.getElem_mem hi')
  rw [hcells]
  apply List.ext_getElem
  · simp
  · intro i hi hi'
    have hi'' : i < row.length := by simpa using hi
    simp [hi'']

theorem readTable_back (hw : Written columns rows file) (h : Writable columns rows)
    (limit : Option ℕ) :
    readTable file (limit.map (↑)) = .ok ⟨columns.map rstrip,
      (firstRows limit rows).map (fun row ↦ row.map rstrip), rows.length, 4⟩ := by
  have hcolumns : columns.map (fun c ↦ decodeFixed [cellByte c]) = columns.map rstrip :=
    List.map_congr_left fun c hc ↦ decodeFixed_cell (h.names c hc)
  have hrows (n : ℕ) : (rows.take n).map (fun row ↦ decodeCells columns.length (rowBytes row)) =
      (rows.take n).map (fun row ↦ row.map rstrip) := by
    refine List.map_congr_left fun row hrow ↦ ?_
    have hmem := List.mem_of_mem_take hrow
    have heven := h.rows_even row hmem
    rw [← heven]
    exact decodeCells_row (heven ▸ h.columns_le) (h.cells row hmem)
  cases limit with
  | none =>
    have hread := readTable_limited hw none rfl
    rwa [hcolumns, hrows, List.take_length] at hread
  | some k =>
    have hread := readTable_limited hw (some (k : ℤ)) rfl
    have hmin : (min (k : ℤ) rows.length).toNat = min k rows.length := by omega
    rw [hcolumns, hrows] at hread
    simp only [hmin] at hread
    rw [Option.map_some, hread, ← List.take_take, List.take_length]
    rfl

end Reading

/-- A table that the format can hold is read back from its file; any other leaves the
file as it was. -/
theorem table_round_trip (columns : List Str) (rows : List (List Str)) (output : Output) :
    ((writeTableTo columns rows output).1 = .ok () ↔
      Writable columns rows ∧ rows.length < 4294967296) ∧
    ((writeTableTo columns rows output).1 ≠ .ok () →
      (writeTableTo columns rows output).2 = output) ∧
    ((writeTableTo columns rows output).1 = .ok () →
      ∃ file, (writeTableTo columns rows output).2 = some file ∧ ∀ limit : Option ℕ,
        readTable file (limit.map (↑)) = .ok ⟨columns.map rstrip,
          (firstRows limit rows).map (fun row ↦ row.map rstrip), rows.length, 4⟩) := by
  have hiff : (∃ file, writeTable columns rows = .ok file) ↔ _ := writeTable_iff
  rw [writeTableTo_eq]
  cases hwrite : writeTable columns rows with
  | error failure =>
    refine ⟨iff_of_false (fun h ↦ nomatch h) ?_, fun _ ↦ rfl, fun h ↦ nomatch h⟩
    intro hwritable
    obtain ⟨file, hfile⟩ := hiff.mpr hwritable
    rw [hwrite] at hfile
    cases hfile
  | ok file =>
    have hwritable := hiff.mp ⟨file, hwrite⟩
    refine ⟨iff_of_true rfl hwritable, fun h ↦ absurd rfl h, fun _ ↦ ⟨file, rfl, ?_⟩⟩
    exact readTable_back (writeTable_ok hwrite) hwritable.1

/-- More rows than the header can count are refused, for all that they are well formed. -/
theorem long_table_refused : Writable [str "A"] (List.replicate 4294967296 [str "1"]) ∧
    (writeTableTo [str "A"] (List.replicate 4294967296 [str "1"]) none).1 ≠ .ok () := by
  have hone (text : Str) (h : text = str "A" ∨ text = str "1") : OneByte text := by
    rcases h with rfl | rfl <;> exact ⟨by decide, by decide⟩
  have hrow (row : List Str) (h : row ∈ List.replicate 4294967296 [str "1"]) : row = [str "1"] :=
    List.eq_of_mem_replicate h
  refine ⟨⟨by decide, by decide, ?_, ?_, ?_⟩, ?_⟩
  · intro row hmem
    rw [hrow row hmem]
    rfl
  · intro c hc
    exact hone c (.inl (List.mem_singleton.mp hc))
  · intro row hmem c hc
    rw [hrow row hmem] at hc
    exact hone c (.inr (List.mem_singleton.mp hc))
  · intro h
    have hlt := writeTable_iff.mp (show
        ∃ file, writeTable [str "A"] (List.replicate 4294967296 [str "1"]) = .ok file by
      rw [writeTableTo_eq] at h
      cases hwrite : writeTable [str "A"] (List.replicate 4294967296 [str "1"]) with
      | error failure =>
        rw [hwrite] at h
        cases h
      | ok file => exact ⟨file, rfl⟩)
    rw [List.length_replicate] at hlt
    exact absurd hlt.2 (Nat.lt_irrefl _)

end FpgaDatabase.Reference.TableFiles
