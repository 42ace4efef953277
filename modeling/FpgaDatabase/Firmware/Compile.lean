import FpgaDatabase.Firmware.Request
import FpgaDatabase.Firmware.Table

namespace FpgaDatabase.Firmware.Compile

open CString Request Table Hardware.Stages Hardware.Pipeline

def skipBlanks (ptr : List UInt8) : List UInt8 := ptr.dropWhile (· = 32)

def isOperatorChar (ch : UInt8) : Bool := ch = 61 || ch = 60 || ch = 62 || ch = 33

def isNameChar (ch : UInt8) : Bool := ch ≠ 32 && !isOperatorChar ch && ch ≠ 0

/-- The longest run of at most `bound` bytes that satisfy `p`. -/
def scan (p : UInt8 → Bool) (bound : ℕ) (ptr : List UInt8) : List UInt8 × List UInt8 :=
  let word := (ptr.take bound).takeWhile p
  (word, ptr.drop word.length)

def skipWord (ptr : List UInt8) : List UInt8 := ptr.dropWhile (fun ch ↦ ch ≠ 32 ∧ ch ≠ 0)

/-- A plain `char` is signed. -/
def signed (ch : UInt8) : ℤ := if ch.toNat < 128 then ch.toNat else ch.toNat - 256

/-- The value of a condition and where the scan goes on. A digit that stands alone
is compared as a character. -/
def scanValue (ptr : List UInt8) : ℤ × List UInt8 :=
  if peek ptr = 39 then
    let rest := ptr.drop 2
    (signed (peek ptr.tail), if peek rest = 39 then rest.tail else rest)
  else if !isdigit (peek ptr) && peek ptr ≠ 45 && peek ptr ≠ 43 && isalpha (peek ptr) then
    (signed (peek ptr), skipWord ptr)
  else if isdigit (peek ptr) && (peek ptr.tail = 32 || peek ptr.tail = 0) then
    (signed (peek ptr), ptr.tail)
  else (atoi ptr, skipWord ptr)

structure Condition where
  colName : List UInt8
  opStr : List UInt8
  val : ℤ

/-- One pass of the WHERE loop over the text, from a byte that is neither a blank
nor the terminator. -/
def scanCondition (ptr : List UInt8) : Condition × List UInt8 :=
  let start := if asciiStrncasecmpLocal ptr (ascii "AND ") 4 = 0 then skipBlanks (ptr.drop 4) else ptr
  let (colName, ptr₁) := scan isNameChar 63 start
  let (opStr, ptr₂) := scan isOperatorChar 3 (skipBlanks ptr₁)
  let (val, ptr₃) := scanValue (skipBlanks ptr₂)
  (⟨colName, opStr, val⟩, ptr₃)

def opCode (opStr : List UInt8) : ℕ :=
  if opStr = ascii "=" ∨ opStr = ascii "==" then 0
  else if opStr = ascii "!=" then 1
  else if opStr = ascii "<" then 2
  else if opStr = ascii "<=" then 3
  else if opStr = ascii ">" then 4
  else if opStr = ascii ">=" then 5
  else 0

def whereInstruction (colIdx : ℕ) (val : ℤ) (op : ℕ) : Instruction :=
  1#32 <<< 28 ||| (BitVec.ofNat 32 colIdx &&& 0x3F) <<< 11 |||
    (BitVec.ofInt 32 val &&& 0xFF) <<< 3 ||| (BitVec.ofNat 32 op &&& 7)

def limitInstruction (limit : ℕ) : Instruction :=
  2#32 <<< 28 ||| (BitVec.ofNat 32 limit &&& 0xFF)

def aggregateInstruction (op : Word) (colIdx : ℕ) : Instruction :=
  op <<< 28 ||| (BitVec.ofNat 32 colIdx &&& 0x3F)

structure Compiled where
  sent : List Instruction
  error : Option (List UInt8)
  deriving DecidableEq

def Compiled.andThen (c : Compiled) (next : Compiled) : Compiled :=
  match c.error with
  | some _ => c
  | none => ⟨c.sent ++ next.sent, next.error⟩

def send (inst : Instruction) : Compiled := ⟨[inst], none⟩

def fail (message : List UInt8) : Compiled := ⟨[], some message⟩

def done : Compiled := ⟨[], none⟩

theorem skipBlanks_length_le (ptr : List UInt8) : (skipBlanks ptr).length ≤ ptr.length :=
  (List.dropWhile_sublist _).length_le

theorem peek_skipBlanks (ptr : List UInt8) : peek (skipBlanks ptr) ≠ 32 := by
  induction ptr with
  | nil => decide
  | cons c cs ih =>
    by_cases hc : c = 32
    · simpa [skipBlanks, hc] using ih
    · simp [skipBlanks, hc, peek]

theorem isNameChar_of_alnum {ch : UInt8} (h : isalnum ch = true) : isNameChar ch = true := by
  have hr := alnum_range h
  have hne (k : UInt8) (hk : k.toNat < 48 ∨ (57 < k.toNat ∧ k.toNat < 65)) : ch ≠ k := by
    rintro rfl
    omega
  simp [isNameChar, isOperatorChar, hne 32 (by decide), hne 61 (by decide), hne 60 (by decide),
    hne 62 (by decide), hne 33 (by decide), hne 0 (by decide)]

theorem skipWord_eq {tail : List UInt8} (h : peek tail = 0 ∨ peek tail = 32) :
    skipWord tail = tail := by
  cases tail with
  | nil => rfl
  | cons ch rest =>
    have hch : ch = 0 ∨ ch = 32 := h
    rcases hch with rfl | rfl <;> rfl

theorem scan_length (p : UInt8 → Bool) (bound : ℕ) (ptr : List UInt8) :
    (scan p bound ptr).2.length ≤ ptr.length := by
  simp [scan]

theorem scan_length_lt {p : UInt8 → Bool} {bound : ℕ} {ptr : List UInt8} (hb : 0 < bound)
    (hne : ptr ≠ []) (hp : p (peek ptr) = true) : (scan p bound ptr).2.length < ptr.length := by
  obtain ⟨c, cs, rfl⟩ := List.exists_cons_of_ne_nil hne
  obtain ⟨b, rfl⟩ := Nat.exists_eq_succ_of_ne_zero hb.ne'
  have hc : p c = true := hp
  simp only [scan, Nat.succ_eq_add_one, List.take_succ_cons, List.takeWhile_cons, hc, if_true,
    List.length_cons, List.drop_succ_cons, List.length_drop]
  omega

theorem scan_eq_self {p : UInt8 → Bool} {bound : ℕ} {ptr : List UInt8}
    (hp : p (peek ptr) = false) : (scan p bound ptr).2 = ptr := by
  cases ptr with
  | nil => simp [scan]
  | cons c cs =>
    have hc : p c = false := hp
    cases bound <;> simp [scan, hc]

theorem scanValue_length (ptr : List UInt8) : (scanValue ptr).2.length ≤ ptr.length := by
  have hw : (skipWord ptr).length ≤ ptr.length := (List.dropWhile_sublist _).length_le
  unfold scanValue
  split_ifs with h₁ h₂ h₃
  · simp only
    split_ifs <;> simp only [List.length_drop, List.length_tail] <;> omega
  · exact hw
  · simp only [List.length_tail]
    omega
  · exact hw

theorem scanValue_alnum {ch : UInt8} {tail : List UInt8} (h : isalnum ch = true)
    (ht : peek tail = 0 ∨ peek tail = 32) : scanValue (ch :: tail) = (signed ch, tail) := by
  have h₁ : ch ≠ 39 := alnum_ne h (by decide)
  have h₂ : ch ≠ 45 := alnum_ne h (by decide)
  have h₃ : ch ≠ 43 := alnum_ne h (by decide)
  have h₄ : ch ≠ 32 := alnum_ne h (by decide)
  have h₅ : ch ≠ 0 := alnum_ne h (by decide)
  have hskip : skipWord (ch :: tail) = tail := by
    have : skipWord (ch :: tail) = skipWord tail := by simp [skipWord, h₄, h₅]
    rw [this, skipWord_eq ht]
  cases hd : isdigit ch with
  | true =>
    rcases ht with ht | ht <;> simp [scanValue, h₁, hd, ht]
  | false =>
    have ha : isalpha ch = true := by simpa [isalnum, hd] using h
    simp [scanValue, h₁, h₂, h₃, hd, ha, hskip]

theorem skipBlanks_of_ne {ptr : List UInt8} (hp : peek ptr ≠ 32) : skipBlanks ptr = ptr := by
  cases ptr with
  | nil => rfl
  | cons c cs =>
    have hc : c ≠ 32 := hp
    simp [skipBlanks, hc]

theorem scanCondition_length {ptr : List UInt8} (h₀ : peek ptr ≠ 0) (h₁ : peek ptr ≠ 32) :
    (scanCondition ptr).2.length < ptr.length := by
  have hne : ptr ≠ [] := by
    rintro rfl
    exact h₀ rfl
  have hpos := List.length_pos_iff.mpr hne
  have tail (q : List UInt8) :
      (scanValue (skipBlanks (scan isOperatorChar 3 (skipBlanks q)).2)).2.length ≤
        (scan isOperatorChar 3 (skipBlanks q)).2.length :=
    (scanValue_length _).trans (skipBlanks_length_le _)
  have hop (q : List UInt8) : (scan isOperatorChar 3 (skipBlanks q)).2.length ≤ q.length :=
    (scan_length _ _ _).trans (skipBlanks_length_le _)
  simp only [scanCondition]
  by_cases hand : asciiStrncasecmpLocal ptr (ascii "AND ") 4 = 0
  · rw [if_pos hand]
    have hstart := skipBlanks_length_le (ptr.drop 4)
    have hname := scan_length isNameChar 63 (skipBlanks (ptr.drop 4))
    have h₂ := tail (scan isNameChar 63 (skipBlanks (ptr.drop 4))).2
    have h₃ := hop (scan isNameChar 63 (skipBlanks (ptr.drop 4))).2
    rw [List.length_drop] at hstart
    omega
  · rw [if_neg hand]
    have h₂ := tail (scan isNameChar 63 ptr).2
    cases hname : isNameChar (peek ptr) with
    | true =>
      have h₃ := hop (scan isNameChar 63 ptr).2
      have h₄ : (scan isNameChar 63 ptr).2.length < ptr.length :=
        scan_length_lt (by omega) hne hname
      omega
    | false =>
      have hoper : isOperatorChar (peek ptr) = true := by
        simpa [isNameChar, h₀, h₁] using hname
      rw [scan_eq_self hname, skipBlanks_of_ne h₁] at h₂ ⊢
      have h₄ : (scan isOperatorChar 3 ptr).2.length < ptr.length :=
        scan_length_lt (by omega) hne hoper
      omega

def compileWhere (schema : TableSchema) (whereCount : ℕ) (ptr : List UInt8) : Compiled :=
  if peek (skipBlanks ptr) = 0 then done
  else
    let cond := (scanCondition (skipBlanks ptr)).1
    match findColumnIndex schema cond.colName with
    | none => fail (ascii "Coluna do WHERE nao existe: " ++ cond.colName)
    | some colIdx =>
      if 4 ≤ whereCount then
        fail (ascii "O limite de condicoes WHERE concatenadas por AND e 4.")
      else
        (send (whereInstruction colIdx cond.val (opCode cond.opStr))).andThen
          (compileWhere schema (whereCount + 1) (scanCondition (skipBlanks ptr)).2)
termination_by ptr.length
decreasing_by
  exact (scanCondition_length ‹_› (peek_skipBlanks ptr)).trans_le (skipBlanks_length_le ptr)

def aggregateColumn (ptr : List UInt8) : List UInt8 :=
  (scan (fun ch ↦ ch ≠ 41 && ch ≠ 0) 63 ptr).1

def compileCount (schema : TableSchema) (ptr : List UInt8) : Compiled :=
  let colName := aggregateColumn ptr
  match findColumnIndex schema colName with
  | none => fail (ascii "Coluna do COUNT nao existe: " ++ colName)
  | some colIdx => send (aggregateInstruction 3 colIdx)

/-- SUM looks at the first row of the table. -/
def compileSum (schema : TableSchema) (memory ptr : List UInt8) : Compiled :=
  let colName := aggregateColumn ptr
  match findColumnIndex schema colName with
  | none => fail (ascii "Coluna do SUM nao existe: " ++ colName)
  | some colIdx =>
    let val := memory.getD (colIdx * cellSize) 0
    if memory ≠ [] ∧ (signed val < 48 ∨ 57 < signed val) then
      fail (ascii "Nao e possivel somar a coluna '" ++ colName ++
        ascii "' pois ela contem texto (valor ascii: '" ++ val :: ascii "')")
    else send (aggregateInstruction 4 colIdx)

def skipSeparators (ptr : List UInt8) : List UInt8 := ptr.dropWhile (fun ch ↦ ch = 32 ∨ ch = 44)

def scanColumn (ptr : List UInt8) : List UInt8 × List UInt8 :=
  scan (fun ch ↦ ch ≠ 44 && ch ≠ 32 && ch ≠ 0) 63 (skipBlanks ptr)

theorem scanColumn_length {ptr : List UInt8} (h : peek ptr ≠ 0) :
    (skipSeparators (scanColumn ptr).2).length < ptr.length := by
  have hsep (q : List UInt8) : (skipSeparators q).length ≤ q.length :=
    (List.dropWhile_sublist _).length_le
  obtain ⟨c, cs, rfl⟩ : ∃ c cs, ptr = c :: cs := by
    cases ptr with
    | nil => exact absurd rfl h
    | cons c cs => exact ⟨c, cs, rfl⟩
  have h₀ : c ≠ 0 := h
  by_cases hblank : c = 32
  · have hskip : skipBlanks (c :: cs) = skipBlanks cs := by simp [skipBlanks, hblank]
    have h₁ := hsep (scanColumn (c :: cs)).2
    have h₂ : (scanColumn (c :: cs)).2.length ≤ (skipBlanks cs).length := by
      rw [scanColumn, hskip]
      exact scan_length _ _ _
    have h₃ := skipBlanks_length_le cs
    rw [List.length_cons]
    omega
  · have hskip : skipBlanks (c :: cs) = c :: cs := skipBlanks_of_ne hblank
    by_cases hcomma : c = 44
    · have hself : (scanColumn (c :: cs)).2 = c :: cs := by
        rw [scanColumn, hskip]
        exact scan_eq_self (by simp [peek, hcomma])
      have h₁ : skipSeparators (c :: cs) = skipSeparators cs := by
        simp [skipSeparators, hcomma]
      rw [hself, h₁, List.length_cons]
      exact Nat.lt_succ_of_le (hsep cs)
    · have h₁ := hsep (scanColumn (c :: cs)).2
      have h₂ : (scanColumn (c :: cs)).2.length < (c :: cs).length := by
        rw [scanColumn, hskip]
        exact scan_length_lt (by omega) (by simp) (by simp [peek, hblank, hcomma, h₀])
      omega

def checkSelect (schema : TableSchema) (ptr : List UInt8) : Compiled :=
  if peek ptr = 0 then done
  else
    let colName := (scanColumn ptr).1
    if colName ≠ [] ∧ findColumnIndex schema colName = none then
      fail (ascii "Coluna do SELECT nao existe: " ++ colName)
    else checkSelect schema (skipSeparators (scanColumn ptr).2)
termination_by ptr.length
decreasing_by exact scanColumn_length ‹_›

def compileSelect (schema : TableSchema) (memory selectList : List UInt8) : Compiled :=
  if asciiStrncasecmpLocal selectList (ascii "COUNT(") 6 = 0 then
    compileCount schema (selectList.drop 6)
  else if asciiStrncasecmpLocal selectList (ascii "SUM(") 4 = 0 then
    compileSum schema memory (selectList.drop 4)
  else if peek selectList ≠ 42 then checkSelect schema selectList
  else done

def compileLimit (limit : ℕ) : Compiled := if 0 < limit then send (limitInstruction limit) else done

def compileAndSendInstructions (request : QueryRequest) (table : LoadedTable) : Compiled :=
  (compileLimit request.limit).andThen
    ((compileWhere table.schema 0 request.whereMemory).andThen
      (compileSelect table.schema table.memory request.selectList))

end FpgaDatabase.Firmware.Compile
