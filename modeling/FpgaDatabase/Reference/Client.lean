import FpgaDatabase.Library.Utf8
import Mathlib.Data.List.DropRight

namespace FpgaDatabase.Reference.Client

open Library.Utf8

/-- A text of the page, as its code points. -/
abbrev Text := List ℕ

def text (s : String) : Text := s.toList.map Char.toNat

/-- `response.text()`: UTF-8, less a byte order mark. -/
def responseText (body : List UInt8) : Text :=
  decode (if List.isPrefixOf [0xEF, 0xBB, 0xBF] body then body.drop 3 else body)

section Strings

/-- What `trim` takes for white space. -/
def isSpace (c : ℕ) : Bool :=
  (9 ≤ c && c ≤ 13) || c = 32 || c = 0xA0 || c = 0x1680 || (0x2000 ≤ c && c ≤ 0x200A) ||
    c = 0x2028 || c = 0x2029 || c = 0x202F || c = 0x205F || c = 0x3000 || c = 0xFEFF

def trim (s : Text) : Text := (s.dropWhile isSpace).rdropWhile isSpace

/-- `toLowerCase`, on ASCII; column names hold nothing else that has two cases. -/
def toLowerCase (s : Text) : Text := s.map (fun c ↦ if 65 ≤ c ∧ c ≤ 90 then c + 32 else c)

def chop (line : Text) : Text := if line.getLast? = some 13 then line.dropLast else line

/-- `split(/\r?\n/)`. -/
def splitLines (s : Text) : List Text :=
  let pieces := s.splitOn 10
  pieces.dropLast.map chop ++ [pieces.getLastD []]

end Strings

section Response

/-- The result of `parseResponse`: the assignments to `meta` in their order, and the
rows. -/
structure Parsed where
  assignments : List (Text × Text)
  rows : List Text

def rowOf (line : Text) : Option Text :=
  if (text "ROW=").isPrefixOf line then some (line.drop 4) else none

def assignmentOf (line : Text) : Option (Text × Text) :=
  if (text "ROW=").isPrefixOf line then none
  else if 61 ∈ line then some (line.takeWhile (· ≠ 61), (line.dropWhile (· ≠ 61)).tail)
  else none

def parseResponse (s : Text) : Parsed :=
  ⟨(splitLines s).filterMap assignmentOf, (splitLines s).filterMap rowOf⟩

def Parsed.meta (p : Parsed) (key : String) : Option Text :=
  p.assignments.reverse.lookup (text key)

end Response

section Table

variable (response : Parsed) (selectedColumns : List Text)

def allColumns : List Text :=
  ((((response.meta "COLUMNS").getD []).splitOn 44).map trim).filter (· ≠ [])

def finalColumns : List (Text × ℕ) :=
  let visibleColumns := selectedColumns.map toLowerCase
  let columnIndexes := (allColumns response).zipIdx.filter (fun entry ↦
    visibleColumns.contains (toLowerCase entry.1))
  if columnIndexes ≠ [] then columnIndexes else (allColumns response).zipIdx

structure Shown where
  head : List Text
  body : List (List Text)
deriving DecidableEq

def tabulate : Shown :=
  let columns := finalColumns response selectedColumns
  ⟨columns.map Prod.fst, response.rows.map (fun rowLine ↦ columns.map (fun entry ↦
    (rowLine.splitOn 124).getD entry.2 []))⟩

def renderTable : Option Shown :=
  if allColumns response = [] ∨ response.rows = [] then none
  else some (tabulate response selectedColumns)

end Table

end FpgaDatabase.Reference.Client
