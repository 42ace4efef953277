import FpgaDatabase.Firmware.Compile

namespace FpgaDatabase.Firmware.Response

open CString Request Table Compile Hardware.Stages

def maxResponseBodySize : ℕ := 8192
def userHwBase : ℕ := 0x2000000

section Formatting

/-- The conversion `%s`. -/
def str (text : List UInt8) : List UInt8 := text.takeWhile (· ≠ 0)

/-- The conversions `%d` and `%lu` of a number that is not negative. -/
def dec (n : ℕ) : List UInt8 := (Nat.toDigits 10 n).map (fun c ↦ UInt8.ofNat c.toNat)

def store (buffer : List UInt8) (offset : ℕ) (bytes : List UInt8) : List UInt8 :=
  buffer.take offset ++ bytes ++ buffer.drop (offset + bytes.length)

/-- `snprintf` into a buffer from `offset` on, with the rest of it as the size. -/
def snprintf (buffer : List UInt8) (offset : ℕ) (text : List UInt8) : List UInt8 :=
  store buffer offset (text.take (buffer.length - offset - 1) ++ [0])

/-- The new contents of the buffer and, on success, the new offset. -/
def appendf (buffer : List UInt8) (offset : ℕ) (text : List UInt8) : List UInt8 × Option ℕ :=
  if buffer.length ≤ offset then (buffer, none)
  else
    (snprintf buffer offset text,
      if buffer.length - offset ≤ text.length then none else some (offset + text.length))

end Formatting

def header (statusCode : ℕ) (statusText : String) (bodyLen : ℕ) : List UInt8 :=
  ascii "HTTP/1.1 " ++ dec statusCode ++ ascii " " ++ ascii statusText ++ ascii "\r\n" ++
    ascii "Content-Type: text/plain; charset=utf-8\r\n" ++
    ascii "Content-Length: " ++ dec bodyLen ++ ascii "\r\n" ++
    ascii "Access-Control-Allow-Origin: *\r\n" ++ ascii "Connection: close\r\n" ++ ascii "\r\n"

def errorText (message : List UInt8) : List UInt8 :=
  ascii "STATUS=ERROR\nMESSAGE=" ++ str message ++ ascii "\n"

def printable (ch : UInt8) : UInt8 :=
  if ch < 32 ∨ 126 < ch ∨ ch = 124 ∨ ch = 13 ∨ ch = 10 then 95 else ch

def cellToText (dstSize : ℕ) (src : List UInt8) : List UInt8 :=
  (((src.take cellSize).rdropWhile (fun ch ↦ ch = 0 ∨ ch = 32)).take (dstSize - 1)).map printable

/-- What `process_request` gets from outside: the file that the card holds under the
name of the table, and what the peripheral did with the rows. -/
structure Outside where
  file : Option (List UInt8)
  dataStatus : ℤ
  captured : List UInt8
  accumulator : Word
  sum : Word
  deriving DecidableEq

def feedResult (o : Outside) (table : LoadedTable) : Option (List UInt8) :=
  if 0 < table.totalBytes then
    if o.dataStatus < 0 then none
    else if o.dataStatus = 0 then some []
    else some o.captured
  else some []

section Success

variable (request : QueryRequest) (schema : TableSchema)

def mode : List UInt8 := ascii "board-sdcard"

def aggregateText (column : String) (value : Word) : List UInt8 :=
  ascii "STATUS=OK\n" ++ ascii "MODE=" ++ mode ++ ascii "\nTABLE=" ++ str request.table ++
    ascii "\nSQL=" ++ str request.sql ++ ascii "\nSCANNED_ROWS=" ++ dec schema.rowCount ++
    ascii "\nRETURNED_ROWS=1\nCOLUMNS=" ++ ascii column ++ ascii "\nROW=" ++ dec value.toNat ++
    ascii "\n"

/-- The branches of `build_success_body` that write the whole text at once. -/
def aggregate (o : Outside) : Option (List UInt8) :=
  if asciiStrncasecmpLocal request.selectList (ascii "COUNT(") 6 = 0 then
    some (aggregateText request schema "COUNT" o.accumulator)
  else if asciiStrncasecmpLocal request.selectList (ascii "SUM(") 4 = 0 then
    some (aggregateText request schema "SUM" o.sum)
  else none

def returnedRows (capturedSize : ℕ) : ℕ :=
  let rows := if schema.rowWidth ≠ 0 then capturedSize / schema.rowWidth else 0
  if 0 < request.limit ∧ request.limit < rows then request.limit else rows

def rowTexts (captured : List UInt8) (row : ℕ) : List (List UInt8) :=
  [ascii "ROW="] ++
    (List.range schema.columnCount).map (fun col ↦ (if col = 0 then [] else ascii "|") ++
      cellToText (cellSize + 1) (captured.drop (row * schema.rowWidth + col * cellSize))) ++
    [ascii "\n"]

/-- The texts that `build_success_body` appends, one call of `appendf` each. -/
def successTexts (captured : List UInt8) : List (List UInt8) :=
  [ascii "STATUS=OK\n", ascii "MODE=" ++ mode ++ ascii "\n",
    ascii "TABLE=" ++ str request.table ++ ascii "\n",
    ascii "SQL=" ++ str request.sql ++ ascii "\n",
    ascii "SCANNED_ROWS=" ++ dec schema.rowCount ++ ascii "\n",
    ascii "RETURNED_ROWS=" ++ dec (returnedRows request schema captured.length) ++ ascii "\n",
    ascii "COLUMNS="] ++
    (List.range schema.columnCount).map (fun col ↦
      (if col = 0 then [] else ascii ",") ++ str (schema.columns.getD col [])) ++
    [ascii "\n"] ++
    (List.range (returnedRows request schema captured.length)).flatMap (rowTexts schema captured)

end Success

def notFoundMessage (table : List UInt8) : List UInt8 :=
  let text := ascii "Tabela '" ++ str table ++ ascii "' nao encontrada no SD.\nColoque '" ++
    str table ++ ascii ".tbl' na raiz ou em /tables/ (FAT16)."
  if text.length < 256 then text else ascii "Tabela nao encontrada no SD."

structure Reply where
  statusCode : ℕ
  statusText : String
  body : List UInt8
  deriving DecidableEq

def Reply.sends (r : Reply) : List (List UInt8) :=
  header r.statusCode r.statusText r.body.length :: if 0 < r.body.length then [r.body] else []

def errorReply (statusCode : ℕ) (statusText : String) (message : List UInt8) : Reply :=
  ⟨statusCode, statusText, (errorText message).take (maxResponseBodySize - 1)⟩

def successReply (request : QueryRequest) (schema : TableSchema) (captured : List UInt8)
    (o : Outside) : Reply :=
  match aggregate request schema o with
  | some text => ⟨200, "OK", text.take (maxResponseBodySize - 1)⟩
  | none =>
    let body := (successTexts request schema captured).flatten
    if body.length < maxResponseBodySize then ⟨200, "OK", body⟩
    else errorReply 500 "Internal Server Error" (ascii "Falha ao montar a resposta HTTP.")

def reply (request : QueryRequest) (o : Outside) : Reply :=
  if userHwBase = 0 then
    errorReply 500 "Internal Server Error" (ascii "USER_HW_0_BASE ausente no system.h.")
  else match o.file.bind loadTable with
  | none => errorReply 404 "Not Found" (notFoundMessage request.table)
  | some table =>
    match (compileAndSendInstructions request table).error with
    | some message => errorReply 400 "Bad Request" message
    | none =>
      match feedResult o table with
      | none =>
        errorReply 500 "Internal Server Error"
          (ascii "Dados da tabela truncados antes do envio completo ao hardware.")
      | some captured => successReply request table.schema captured o

structure Holds (buffer text : List UInt8) : Prop where
  nul : 0 ∉ text
  ends : ∃ rest, buffer = text ++ 0 :: rest

namespace Holds

variable {buffer text : List UInt8}

theorem strlen (h : Holds buffer text) : strlen buffer = text.length := by
  obtain ⟨rest, rfl⟩ := h.ends
  rw [CString.strlen, List.takeWhile_append_of_pos]
  · simp
  · intro ch hch
    have hne : ch ≠ 0 := by
      rintro rfl
      exact h.nul hch
    simpa using hne

theorem take (h : Holds buffer text) : buffer.take text.length = text := by
  obtain ⟨rest, rfl⟩ := h.ends
  exact List.take_left

end Holds

section Stored

variable {buffer text : List UInt8} {offset : ℕ}

theorem store_length {bytes : List UInt8} (h : offset + bytes.length ≤ buffer.length) :
    (store buffer offset bytes).length = buffer.length := by
  simp only [store, List.length_append, List.length_take, List.length_drop]
  omega

theorem snprintf_length (h : offset < buffer.length) (text : List UInt8) :
    (snprintf buffer offset text).length = buffer.length := by
  apply store_length
  simp only [List.length_append, List.length_take, List.length_singleton]
  omega

theorem snprintf_holds (hpre : 0 ∉ buffer.take offset)
    (htext : 0 ∉ text) :
    Holds (snprintf buffer offset text)
      (buffer.take offset ++ text.take (buffer.length - offset - 1)) := by
  refine ⟨?_, buffer.drop (offset + (text.take (buffer.length - offset - 1) ++ [0]).length), ?_⟩
  · rw [List.mem_append, not_or]
    exact ⟨hpre, fun hm ↦ htext (List.mem_of_mem_take hm)⟩
  · simp only [snprintf, store, List.append_assoc, List.singleton_append]

theorem appendf_length (buffer : List UInt8) (offset : ℕ) (text : List UInt8) :
    (appendf buffer offset text).1.length = buffer.length := by
  unfold appendf
  split_ifs with h
  · rfl
  · exact snprintf_length (by omega) text
  · exact snprintf_length (by omega) text

end Stored

section NulFree

theorem str_nul (text : List UInt8) : 0 ∉ str text := by
  intro h
  simpa using List.mem_takeWhile_imp h

theorem dec_digit {n : ℕ} {ch : UInt8} (h : ch ∈ dec n) : 48 ≤ ch.toNat ∧ ch.toNat ≤ 57 := by
  obtain ⟨c, hc, rfl⟩ := List.mem_map.mp h
  have hd := Nat.isDigit_of_mem_toDigits (by decide) (by decide) hc
  simp only [Char.isDigit, Bool.and_eq_true, decide_eq_true_eq, ge_iff_le] at hd
  have h₁ : 48 ≤ c.toNat := hd.1
  have h₂ : c.toNat ≤ 57 := hd.2
  rw [UInt8.toNat_ofNat']
  omega

theorem dec_nul (n : ℕ) : 0 ∉ dec n := by
  intro h
  have hd := (dec_digit h).1
  exact absurd hd (by decide)

theorem printable_nul (ch : UInt8) : printable ch ≠ 0 := by
  unfold printable
  split_ifs with h
  · decide
  · rintro rfl
    exact h (.inl (by decide))

theorem cellToText_nul (dstSize : ℕ) (src : List UInt8) : 0 ∉ cellToText dstSize src := by
  intro h
  obtain ⟨ch, -, h₀⟩ := List.mem_map.mp h
  exact printable_nul ch h₀

theorem errorText_nul (message : List UInt8) : 0 ∉ errorText message :=
  List.not_mem_append (List.not_mem_append (by decide) (str_nul _)) (by decide)

theorem aggregate_nul {request : QueryRequest} {schema : TableSchema} {o : Outside}
    {text : List UInt8} (h : aggregate request schema o = some text) : 0 ∉ text := by
  have hall (column : String) (value : Word) (hc : 0 ∉ ascii column) :
      0 ∉ aggregateText request schema column value := by
    simp only [aggregateText, List.mem_append, not_or]
    refine ⟨⟨⟨⟨⟨⟨⟨⟨⟨⟨⟨⟨⟨?_, ?_⟩, ?_⟩, ?_⟩, str_nul _⟩, ?_⟩, str_nul _⟩, ?_⟩, dec_nul _⟩, ?_⟩, hc⟩, ?_⟩,
      dec_nul _⟩, ?_⟩ <;> decide
  unfold aggregate at h
  split_ifs at h
  · exact Option.some.inj h ▸ hall "COUNT" o.accumulator (by decide)
  · exact Option.some.inj h ▸ hall "SUM" o.sum (by decide)

theorem rowTexts_nul (schema : TableSchema) (captured : List UInt8) (row : ℕ) :
    ∀ text ∈ rowTexts schema captured row, 0 ∉ text := by
  intro text ht
  simp only [rowTexts, List.mem_append, List.mem_map, List.mem_singleton] at ht
  rcases ht with (rfl | ⟨col, -, rfl⟩) | rfl
  · decide
  · refine List.not_mem_append ?_ (cellToText_nul _ _)
    split_ifs <;> decide
  · decide

theorem successTexts_nul (request : QueryRequest) (schema : TableSchema) (captured : List UInt8) :
    ∀ text ∈ successTexts request schema captured, 0 ∉ text := by
  intro text ht
  simp only [successTexts, List.mem_append, List.mem_map, List.mem_flatMap, List.mem_cons,
    List.not_mem_nil, or_false] at ht
  rcases ht with ((hfixed | ⟨col, -, rfl⟩) | rfl) | ⟨row, -, ht⟩
  · rcases hfixed with rfl | rfl | rfl | rfl | rfl | rfl | rfl
    · decide
    · decide
    · exact List.not_mem_append (List.not_mem_append (by decide) (str_nul _)) (by decide)
    · exact List.not_mem_append (List.not_mem_append (by decide) (str_nul _)) (by decide)
    · exact List.not_mem_append (List.not_mem_append (by decide) (dec_nul _)) (by decide)
    · exact List.not_mem_append (List.not_mem_append (by decide) (dec_nul _)) (by decide)
    · decide
  · refine List.not_mem_append ?_ (str_nul _)
    split_ifs <;> decide
  · decide
  · exact rowTexts_nul schema captured row text ht

end NulFree

end FpgaDatabase.Firmware.Response
