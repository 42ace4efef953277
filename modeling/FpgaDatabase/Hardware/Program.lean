import FpgaDatabase.Hardware.Streaming

namespace FpgaDatabase.Hardware.Program

open Function Fifo Stages Pipeline Streaming Library.Execution Library.Quota

variable {g : Generics}

section Meaning

variable (prog : List Instruction)

def wheres : List Instruction := prog.filter (fun inst ↦ opcode inst = 0b0001#4)

def limitRegister : Option Byte :=
  ((prog.filter (fun inst ↦ opcode inst = 0b0010#4)).getLast?).map limitValue

def limitOf : Option ℕ := (limitRegister prog).map BitVec.toNat

def selects (row : Row g) : Bool := (wheres prog).all (fun inst ↦ whereTest inst row)

/-- The first rows that satisfy every comparison of the program, as many as its
limit allows. -/
def queryAnswer (rows : List (Row g)) : List (Row g) :=
  upTo (limitOf prog) (rows.filter (selects prog))

/-- What the hardware makes of any program: comparisons past the last WHERE stage are
ignored, and a limit of zero lets one row through. -/
def effectiveAnswer (rows : List (Row g)) : List (Row g) :=
  upTo ((limitOf prog).map (max 1))
    (rows.filter (fun row ↦ ((wheres prog).take g.numWhere).all (fun inst ↦ whereTest inst row)))

theorem queryAnswer_append (xs ys : List (Row g)) : queryAnswer prog (xs ++ ys) =
    queryAnswer prog xs ++
      upTo (remaining (limitOf prog) (queryAnswer prog xs).length) (ys.filter (selects prog)) := by
  rw [queryAnswer, List.filter_append, upTo_append]
  rfl

/-- The programs that the hardware supports in full. -/
structure WellFormed (g : Generics) (prog : List Instruction) : Prop where
  wheres_le : (wheres prog).length ≤ g.numWhere
  column_lt : ∀ inst ∈ wheres prog, whereColumn inst < g.numCols
  limit_pos : ∀ n, limitOf prog = some n → 1 ≤ n

end Meaning

def loaded (f : Fetcher g) (prog : List Instruction) : Fetcher g :=
  prog.foldl (fun f inst ↦ f.load inst) f.reset

structure Holds (f : Fetcher g) (prog : List Instruction) : Prop where
  cnt : f.whereActiveCnt = min g.numWhere (wheres prog).length
  inst : ∀ k : Fin g.numWhere, k.val < f.whereActiveCnt →
    (wheres prog)[k.val]? = some (f.whereInst k)
  limit : limitRegister prog = if f.limitActive then some f.limitValReg else none

theorem holds_load {f : Fetcher g} {prog : List Instruction} (h : Holds f prog)
    (inst : Instruction) : Holds (f.load inst) (prog ++ [inst]) := by
  have hcnt := h.cnt
  by_cases h₁ : opcode inst = 0b0001#4
  · have hw : wheres (prog ++ [inst]) = wheres prog ++ [inst] := by
      simp [wheres, List.filter_append, h₁]
    have hl : limitRegister (prog ++ [inst]) = limitRegister prog := by
      simp [limitRegister, List.filter_append, h₁]
    by_cases hn : f.whereActiveCnt < g.numWhere
    · have hlen : f.whereActiveCnt = (wheres prog).length := by omega
      have he : f.load inst = { f with
          whereInst := update f.whereInst ⟨f.whereActiveCnt, hn⟩ inst
          whereActiveCnt := f.whereActiveCnt + 1 } := by
        simp [Fetcher.load, h₁, hn]
      rw [he]
      refine ⟨?_, ?_, by rw [hl]; exact h.limit⟩
      · simp only [hw, List.length_append, List.length_singleton]
        omega
      · intro k hk
        by_cases hk' : k.val = f.whereActiveCnt
        · have hkf : k = ⟨f.whereActiveCnt, hn⟩ := Fin.ext hk'
          simp only [hkf, update_self, hw]
          rw [List.getElem?_append_right (by simp [hlen])]
          simp [hlen]
        · have hlt : k.val < f.whereActiveCnt := by
            simp only at hk
            omega
          have hkf : k ≠ ⟨f.whereActiveCnt, hn⟩ := fun e ↦ hk' (congrArg Fin.val e)
          simp only [update_of_ne hkf, hw]
          rw [List.getElem?_append_left (by omega)]
          exact h.inst k hlt
    · have he : f.load inst = f := by simp [Fetcher.load, h₁, hn]
      rw [he]
      refine ⟨?_, ?_, by rw [hl]; exact h.limit⟩
      · simp only [hw, List.length_append, List.length_singleton]
        omega
      · intro k hk
        rw [hw, List.getElem?_append_left (by omega)]
        exact h.inst k hk
  · have hw : wheres (prog ++ [inst]) = wheres prog := by
      simp [wheres, List.filter_append, h₁]
    by_cases h₂ : opcode inst = 0b0010#4
    · have hl : limitRegister (prog ++ [inst]) = some (limitValue inst) := by
        simp [limitRegister, List.filter_append, h₂]
      have he : f.load inst = { f with limitValReg := limitValue inst, limitActive := true } := by
        simp [Fetcher.load, h₂]
      rw [he]
      exact ⟨by rw [hw]; exact hcnt, by rw [hw]; exact h.inst, by simp [hl]⟩
    · have hl : limitRegister (prog ++ [inst]) = limitRegister prog := by
        simp [limitRegister, List.filter_append, h₂]
      have he : (f.load inst).whereInst = f.whereInst ∧
          (f.load inst).whereActiveCnt = f.whereActiveCnt ∧
          (f.load inst).limitValReg = f.limitValReg ∧
          (f.load inst).limitActive = f.limitActive := by
        simp only [Fetcher.load, h₁, h₂, if_false]
        split_ifs <;> simp
      obtain ⟨e₁, e₂, e₃, e₄⟩ := he
      exact ⟨by rw [hw, e₂]; exact hcnt, by rw [hw, e₁, e₂]; exact h.inst,
        by rw [hl, e₃, e₄]; exact h.limit⟩

theorem holds_loaded (f : Fetcher g) (prog : List Instruction) : Holds (loaded f prog) prog := by
  induction prog using List.reverseRecOn with
  | nil => exact ⟨by simp [loaded, Fetcher.reset, wheres], by simp [loaded, Fetcher.reset],
      by simp [loaded, Fetcher.reset, limitRegister]⟩
  | append_singleton prog inst ih =>
    have hs : loaded f (prog ++ [inst]) = (loaded f prog).load inst := by simp [loaded]
    rw [hs]
    exact holds_load ih inst

theorem quota_of_holds {f : Fetcher g} {prog : List Instruction} (h : Holds f prog) :
    quota f = (limitOf prog).map (max 1) := by
  rw [limitOf, h.limit, quota]
  split_ifs <;> rfl

theorem foldl_and (ks : List (Fin g.numWhere)) (c : ℕ) (verdicts : Fin g.numWhere → Bool)
    (b : Bool) :
    ks.foldl (fun allValid k ↦ if k.val < c then allValid && verdicts k else allValid) b = true ↔
      b = true ∧ ∀ k ∈ ks, k.val < c → verdicts k = true := by
  induction ks generalizing b with
  | nil => simp
  | cons k ks ih =>
    rw [List.foldl_cons, ih, List.forall_mem_cons]
    by_cases hk : k.val < c
    · simp [hk, and_assoc]
    · simp [hk]

theorem rowMatches_iff (f : Fetcher g) (row : Row g) :
    rowMatches f row = true ↔ ∀ k : Fin g.numWhere, k.val < f.whereActiveCnt →
      whereTest (f.whereInst k) row = true := by
  rw [rowMatches, Fetcher.whereValidAnd, foldl_and]
  simp

theorem rowMatches_eq_all {f : Fetcher g} {prog : List Instruction} (h : Holds f prog)
    (row : Row g) :
    rowMatches f row = ((wheres prog).take g.numWhere).all (fun inst ↦ whereTest inst row) := by
  have hcnt := h.cnt
  rw [Bool.eq_iff_iff, rowMatches_iff, List.all_eq_true]
  constructor
  · intro hm inst hi
    obtain ⟨k, hk, rfl⟩ := List.mem_iff_getElem.mp hi
    rw [List.length_take] at hk
    have hk' : k < g.numWhere := by omega
    have he := h.inst ⟨k, hk'⟩ (by simp only; omega)
    simp only [List.getElem?_eq_getElem (show k < (wheres prog).length by omega),
      Option.some.injEq] at he
    rw [List.getElem_take, he]
    exact hm ⟨k, hk'⟩ (by simp only; omega)
  · intro hm k hk
    apply hm
    apply List.mem_of_getElem? (i := k.val)
    rw [List.getElem?_take_of_lt k.isLt]
    exact h.inst k hk

theorem rowMatches_of_holds {f : Fetcher g} {prog : List Instruction} (h : Holds f prog)
    (hw : (wheres prog).length ≤ g.numWhere) (row : Row g) :
    rowMatches f row = selects prog row := by
  rw [rowMatches_eq_all h, List.take_of_length_le hw, selects]

theorem answer_effective (f : Fetcher g) (prog : List Instruction) (rows : List (Row g)) :
    answer (loaded f prog) rows = effectiveAnswer prog rows := by
  have h := holds_loaded f prog
  rw [answer, effectiveAnswer, quota_of_holds h, funext (rowMatches_eq_all h)]

/-- The programmed registers ask for the rows that the program describes. -/
theorem answer_loaded (f : Fetcher g) {prog : List Instruction} (hw : WellFormed g prog)
    (rows : List (Row g)) : answer (loaded f prog) rows = queryAnswer prog rows := by
  have hq : (limitOf prog).map (max 1) = limitOf prog := by
    cases hl : limitOf prog with
    | none => rfl
    | some n => rw [Option.map_some, Nat.max_eq_right (hw.limit_pos n hl)]
  rw [answer_effective, effectiveAnswer, hq, List.take_of_length_le hw.wheres_le]
  rfl

/-- Cycles before the first data word: instructions may be loaded, in any order and
with any pauses. -/
structure LoadCycle (i : Inputs g) : Prop where
  rst : i.rst = false
  dinValid : i.dinValid = false
  eof : i.eof = false

def instructions (loads : List (Inputs g)) : List Instruction :=
  loads.filterMap (fun i ↦ if i.loadInst then some i.instruction else none)

theorem idle_clock {p : State g} (idle : Idle p) {i : Inputs g} (hi : LoadCycle i) :
    Idle (p.clock i) := by
  have hv : p.whereValidAnd = false := by
    rw [State.whereValidAnd, Fetcher.whereValidAnd_eq, idle.rdEnPipe2]
    rfl
  have hr : p.fifoRdEn i = false := by
    rw [State.fifoRdEn, (Queue.empty_iff _).mpr idle.inFifo]
    simp
  have hl : p.limit.clock p.fetcher.limitValReg p.fetcher.limitActive p.whereStageDout
      p.whereValidAnd p.stage1Done = { p.limit with dout := p.whereStageDout } := by
    rw [hv, idle.stage1Done]
    simp [Limit.clock, idle.internalHit, idle.validOut, idle.doneOut]
  constructor
  · simp [State.clock, Queue.clock_contents, idle.inFifo, hi.dinValid]
  · simp [State.clock, Queue.clock_contents, idle.outFifo, State.outFifoWrEn, idle.validOut]
  · exact hr
  · exact idle.rdEnPipe1
  · simp [State.clock, hi.eof]
  · simp [State.clock, idle.doneOut]
  · simp [State.clock, hl, idle.countValue]
  · simp [State.clock, hl, idle.internalHit]
  · simp [State.clock, hl, idle.validOut]
  · simp [State.clock, hl, idle.doneOut]
  · simp [State.clock, countClock, State.countValidIn, idle.validOut, idle.count]
  · simp [State.clock, sumClock, State.countValidIn, idle.validOut, idle.sum]

theorem load_run {p : State g} (idle : Idle p) (loads : List (Inputs g))
    (hl : ∀ i ∈ loads, LoadCycle i) :
    Idle (loads.foldl State.cycle p) ∧ (loads.foldl State.cycle p).fetcher =
      (instructions loads).foldl (fun f inst ↦ f.load inst) p.fetcher := by
  induction loads generalizing p with
  | nil => exact ⟨idle, rfl⟩
  | cons i loads ih =>
    have hi := hl i (by simp)
    have hc : p.cycle i = p.clock i := by simp [State.cycle, hi.rst]
    have hrest := ih (idle_clock idle hi) (fun j hj ↦ hl j (by simp [hj]))
    rw [List.foldl_cons, hc]
    refine ⟨hrest.1, ?_⟩
    rw [hrest.2]
    cases hli : i.loadInst <;>
      simp [instructions, State.clock, Fetcher.clock, hli]

end FpgaDatabase.Hardware.Program
