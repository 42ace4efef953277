import FpgaDatabase.Firmware.AnswerSize
import FpgaDatabase.Reference.ClientRoundTrip

namespace FpgaDatabase.Reference.AnswerRows

open Firmware.CString Firmware.Request Firmware.Table Firmware.Response Firmware.AnswerSize
open Firmware.Compile ClientRoundTrip

def linesOf (key : String) (body : List UInt8) : List (List UInt8) :=
  (body.splitOn 10).filter (fun line ↦ (ascii key).isPrefixOf line)

section Count

variable {request : QueryRequest} {schema : TableSchema} {reqBody buf : List UInt8}

theorem linesOf_body (hparse : parseRequestBody reqBody = some request)
    (hschema : loadTableSchemaFromBuf buf = some schema) (captured : List UInt8) :
    linesOf "RETURNED_ROWS=" (successTexts request schema captured).flatten =
        [ascii "RETURNED_ROWS=" ++ dec (returnedRows request schema captured.length)] ∧
      (linesOf "ROW=" (successTexts request schema captured).flatten).length =
        returnedRows request schema captured.length := by
  have hlines : (successTexts request schema captured).flatten.splitOn 10 =
      bodyLines request schema captured ++ [[]] := by
    rw [flatten_successTexts]
    exact splitOn_lines (bodyLines_newline hparse hschema)
  constructor
  · rw [linesOf, hlines, bodyLines, List.filter_append, List.filter_append]
    have hrows : ((List.range (rowCount request schema captured)).map (fun row ↦ ascii "ROW=" ++
        [124].intercalate (cellTexts schema captured row))).filter
          (fun line ↦ (ascii "RETURNED_ROWS=").isPrefixOf line) = [] := by
      rw [List.filter_eq_nil_iff]
      intro line hline
      obtain ⟨row, -, rfl⟩ := List.mem_map.mp hline
      exact Bool.not_eq_true _ |>.mpr rfl
    rw [hrows]
    rfl
  · rw [linesOf, hlines, bodyLines, List.filter_append, List.filter_append]
    have hrows : ((List.range (rowCount request schema captured)).map (fun row ↦ ascii "ROW=" ++
        [124].intercalate (cellTexts schema captured row))).filter
          (fun line ↦ (ascii "ROW=").isPrefixOf line) =
        (List.range (rowCount request schema captured)).map (fun row ↦ ascii "ROW=" ++
          [124].intercalate (cellTexts schema captured row)) := by
      rw [List.filter_eq_self]
      intro line hline
      obtain ⟨row, -, rfl⟩ := List.mem_map.mp hline
      rfl
    rw [hrows, List.length_append, List.length_append, List.length_map, List.length_range]
    exact Nat.zero_add _

/-- `process_request` never reports that the answer could not be put together. -/
theorem reply_built (hparse : parseRequestBody reqBody = some request) {o : Outside}
    (hcaptured : o.captured.length ≤ 4 * queryMaxRows) : reply request o ≠
      errorReply 500 "Internal Server Error" (ascii "Falha ao montar a resposta HTTP.") := by
  have hcode {r : Reply} (h : r.statusCode ≠ 500) (message : List UInt8) :
      r ≠ errorReply 500 "Internal Server Error" message := by
    rintro rfl
    exact h rfl
  rw [reply, if_neg (by decide)]
  cases htable : o.file.bind loadTable with
  | none => exact hcode (show (404 : ℕ) ≠ 500 by decide) _
  | some table =>
    obtain ⟨file, -, hload⟩ := Option.bind_eq_some_iff.mp htable
    simp only
    cases (compileAndSendInstructions request table).error with
    | some message => exact hcode (show (400 : ℕ) ≠ 500 by decide) _
    | none =>
      simp only
      cases hfeed : feedResult o table with
      | none =>
        change errorReply 500 "Internal Server Error"
          (ascii "Dados da tabela truncados antes do envio completo ao hardware.") ≠ _
        decide
      | some captured =>
        have hlen : captured.length ≤ 4 * queryMaxRows := by
          rw [feedResult] at hfeed
          split_ifs at hfeed
          · rw [← Option.some.inj hfeed]
            exact Nat.zero_le _
          · rwa [← Option.some.inj hfeed]
          · rw [← Option.some.inj hfeed]
            exact Nat.zero_le _
        refine hcode ?_ _
        change (successReply request table.schema captured o).statusCode ≠ 500
        rw [successReply]
        cases aggregate request table.schema o with
        | some text => exact show (200 : ℕ) ≠ 500 by decide
        | none =>
          simp only
          rw [if_pos (successTexts_length hparse (modest_of_table hload) hlen)]
          exact show (200 : ℕ) ≠ 500 by decide

end Count

/-- Every answer that is no aggregate fits: the function returns 1, the buffer holds all of
the text, no cell is read from behind the captured bytes, and the rows are as many as
announced. -/
theorem answer_fits (reqBody : List UInt8) (request : QueryRequest)
    (hparse : parseRequestBody reqBody = some request) (buf : List UInt8) (schema : TableSchema)
    (hschema : loadTableSchemaFromBuf buf = some schema) (captured : List UInt8)
    (hcaptured : captured.length ≤ queryMaxRows * maxColumns * cellSize) (o : Outside)
    (hplain : aggregate request schema o = none) (buffer : List UInt8)
    (hbuffer : buffer.length = maxResponseBodySize) :
    let text := (successTexts request schema captured).flatten
    let rows := if request.limit = 0 then captured.length / schema.rowWidth
      else min (captured.length / schema.rowWidth) request.limit
    (∃ buffer', buildSuccessBody buffer request schema captured o = (buffer', some text.length) ∧
      Holds buffer' text) ∧ text.length < maxResponseBodySize ∧
    linesOf "RETURNED_ROWS=" text = [ascii "RETURNED_ROWS=" ++ dec rows] ∧
    (linesOf "ROW=" text).length = rows ∧
    (∀ row < rows, (∀ col < schema.columnCount,
      row * schema.rowWidth + col * cellSize + cellSize ≤ captured.length) ∧
      ∀ behind, rowTexts schema (captured ++ behind) row = rowTexts schema captured row) ∧
    successReply request schema captured o = ⟨200, "OK", text⟩ ∧
    ∀ o : Outside, o.captured.length ≤ queryMaxRows * maxColumns * cellSize → reply request o ≠
      errorReply 500 "Internal Server Error" (ascii "Falha ao montar a resposta HTTP.") := by
  intro text rows
  have modest := modest_of_load hschema
  have hsize : queryMaxRows * maxColumns * cellSize = 4 * queryMaxRows := rfl
  rw [hsize] at hcaptured ⊢
  have hroom : text.length < maxResponseBodySize := successTexts_length hparse modest hcaptured
  have hrows : returnedRows request schema captured.length = rows := by
    have hwidth : schema.rowWidth ≠ 0 := by
      rw [modest.rowWidth]
      decide
    simp only [returnedRows, if_pos hwidth, rows]
    split_ifs <;> omega
  obtain ⟨hannounced, hcount⟩ := linesOf_body hparse hschema captured
  rw [hrows] at hannounced hcount
  refine ⟨buildSuccessBody_fits hplain (hbuffer ▸ hroom), hroom, hannounced, hcount,
    fun row hrow ↦ ⟨fun col hcol ↦ ?_, fun behind ↦ ?_⟩, ?_, fun o ↦ reply_built hparse⟩
  · rw [← hrows] at hrow
    have hcols := modest.columnCount
    exact row_read modest.rowWidth hrow (by omega)
  · rw [← hrows] at hrow
    exact rowTexts_append modest hrow behind
  · rw [successReply, hplain]
    exact if_pos hroom

def twoBody : List UInt8 := ascii "TABLE=T\nSQL=SELECT * FROM T\nLIMIT=2\n"

def twoRequest : QueryRequest := ⟨ascii "SELECT * FROM T", ascii "T", ascii "*", [], 2⟩

def twoFile : List UInt8 :=
  ascii "TBL8" ++ [1, 0, 0, 0, 2, 0, 0, 0, 9, 0, 0, 0, 4, 0, 0, 0, 0, 0, 0, 0] ++ ascii "AB  "

theorem two_rows : (linesOf "ROW=" (successTexts twoRequest ⟨1, 2, 9, 4, [ascii "A", ascii "B"]⟩
    (ascii "1a  2b  3c  ")).flatten).length = 2 :=
  (answer_fits twoBody twoRequest (by decide +kernel) twoFile ⟨1, 2, 9, 4, [ascii "A", ascii "B"]⟩
    (by decide) (ascii "1a  2b  3c  ") (by decide) ⟨none, 0, [], 0, 0⟩ (by decide)
    (List.replicate maxResponseBodySize 0) List.length_replicate).2.2.2.1

end FpgaDatabase.Reference.AnswerRows
