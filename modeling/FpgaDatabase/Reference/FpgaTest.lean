import Mathlib.Data.List.DropRight
import Mathlib.Data.List.Defs

namespace FpgaDatabase.Reference.FpgaTest

/-- A Python string, as its code points. -/
abbrev Str := List ℕ

def str (text : String) : Str := text.toList.map Char.toNat

section Classes

variable (c : ℕ)

/-- White space, for `strip` and in the class `\s`. -/
def isSpace : Bool :=
  (9 ≤ c && c ≤ 13) || (28 ≤ c && c ≤ 32) || c = 0x85 || c = 0xA0 || c = 0x1680 ||
    (0x2000 ≤ c && c ≤ 0x200A) || c = 0x2028 || c = 0x2029 || c = 0x202F || c = 0x205F || c = 0x3000

def isDecimal : Bool := 48 ≤ c && c ≤ 57

/-- The class `\w`, in the first 256 code points. -/
def isWord : Bool :=
  isDecimal c || (65 ≤ c && c ≤ 90) || (97 ≤ c && c ≤ 122) || c = 95 ||
    c = 0xAA || c = 0xB2 || c = 0xB3 || c = 0xB5 || c = 0xB9 || c = 0xBA ||
    (0xBC ≤ c && c ≤ 0xBE) || (0xC0 ≤ c && c ≠ 0xD7 && c ≠ 0xF7 && !isSpace c)

def isOperator : Bool := c = 60 || c = 62 || c = 61 || c = 33

end Classes

/-- `where_clause.split(' AND ')`. -/
def splitAnd : Str → List Str
  | 32 :: 65 :: 78 :: 68 :: 32 :: rest => [] :: splitAnd rest
  | c :: rest => (splitAnd rest).modifyHead (c :: ·)
  | [] => [[]]

def strip (s : Str) : Str := (s.dropWhile isSpace).rdropWhile isSpace

/-- `upper`: the sharp s becomes two letters, and of the code points from 256 on two become
an ASCII letter by themselves. -/
def upper (s : Str) : Str :=
  s.flatMap (fun c ↦
    if c = 0xDF then [83, 83]
    else if (97 ≤ c ∧ c ≤ 122) ∨ (0xE0 ≤ c ∧ c ≤ 0xFE ∧ c ≠ 0xF7) then [c - 32]
    else if c = 0xB5 then [0x39C]
    else if c = 0xFF then [0x178]
    else if c = 0x131 then [73]
    else if c = 0x17F then [83]
    else [c])

/-- The match of `(\w+)\s*([<>=!]+)\s*(\w+)`. The classes are disjoint, so each run is
the longest one. -/
def matchCondition (p : Str) : Option (Str × Str × Str) :=
  let col := p.takeWhile isWord
  let p₁ := (p.dropWhile isWord).dropWhile isSpace
  let op := p₁.takeWhile isOperator
  let p₂ := (p₁.dropWhile isOperator).dropWhile isSpace
  let val := p₂.takeWhile isWord
  if col = [] ∨ op = [] ∨ val = [] then none else some (col, op, val)

def parseConditions (whereClause : Str) : List (Str × Str × Str) :=
  if whereClause = [] then []
  else (splitAnd whereClause).filterMap (fun p ↦ matchCondition (strip p))

/-- `float` on runs of digits. Python reads other words as well, such as `1e1`, `1_0` and
`inf`, and rounds long numbers; of the words of one character only the digits are numbers,
and a cell has no more. -/
def float (s : Str) : Option ℕ :=
  if s ≠ [] ∧ s.all isDecimal then some (s.foldl (fun n d ↦ 10 * n + (d - 48)) 0) else none

/-- Numbers are compared if both sides are numbers, strings otherwise. -/
def compareCells (cVal val : Str) : Ordering :=
  match float cVal, float val with
  | some cv, some vv => compare cv vv
  | _, _ => if cVal < val then .lt else if cVal = val then .eq else .gt

def verdict (op : Str) (o : Ordering) : Bool :=
  if op = str "=" then o = .eq
  else if op = str "!=" then o ≠ .eq
  else if op = str ">" then o = .gt
  else if op = str "<" then o = .lt
  else if op = str ">=" then o ≠ .lt
  else if op = str "<=" then o ≠ .gt
  else true

/-- `dict(zip(columns, row))`; a later column of the same name wins. -/
def rowDict (columns row : List Str) (col : Str) : Option Str :=
  (columns.zip row).reverse.lookup col

def evaluateRow (dict : Str → Option Str) (conditions : List (Str × Str × Str)) : Bool :=
  conditions.all (fun (col, op, val) ↦
    match dict col with
    | none => false
    | some cVal => verdict op (compareCells cVal val))

/-- `raw.decode("latin-1").rstrip(" \x00")`. -/
def decodeFixed (raw : List UInt8) : Str :=
  (raw.map UInt8.toNat).rdropWhile (fun c ↦ c = 32 || c = 0)

end FpgaDatabase.Reference.FpgaTest
