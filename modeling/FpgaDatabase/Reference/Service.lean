import FpgaDatabase.Firmware.Isolation
import FpgaDatabase.Firmware.Replies
import FpgaDatabase.Reference.EndToEnd

namespace FpgaDatabase.Reference.Service

open Hardware.Stages Hardware.Pipeline Hardware.Streaming Hardware.Program Hardware.UserHw
open Library.Execution Library.Quota Firmware.CString Firmware.Driver Firmware.FeedInvariant
open Firmware.FeedRun Firmware.Request Firmware.Compile Firmware.Emitted Firmware.FeedOutcome
open Firmware.Response Firmware.Aggregates Firmware.Completion Firmware.Isolation
open Firmware.Tasks Firmware.Admission Firmware.Replies
open Firmware.Conditions Firmware.AnswerSize AggregateLimit
open Firmware.Table (loadTable loadTable_memory sdFileMaxSize TableSchema LoadedTable
  Cells captureLimitBytes findColumnIndex)

section Answers

def found (prog : List Instruction) (rows : List Cells) : List Cells :=
  upTo ((limitOf prog).map (max 1)) (rows.filter (matching prog))

def isAggregate (inst : Instruction) : Bool := opcode inst = 0b0011#4 ∨ opcode inst = 0b0100#4

/-- The column that the last COUNT or SUM of a program names. -/
def totalledColumn (start : ℕ) (prog : List Instruction) : ℕ :=
  prog.foldl (fun c inst ↦ if isAggregate inst then countColumn inst else c) start

def total (c : ℕ) (rows : List Cells) : Word :=
  rows.foldl (fun s r ↦ sumClock true (r.bytes.getD c 0).toBitVec s) 0

def limitFits (prog : List Instruction) (rows : List Cells) : Bool :=
  match limitOf prog with
  | none => true
  | some limit => (List.range (rows.length + 1)).all (fun k ↦
      max 1 limit ≤ ((rows.take k).filter (matching prog)).length → rows.length ≤ k + 128)

/-- What the answer is built from, after a feed that may have been given up. -/
def capturedRows (request : QueryRequest) (table : LoadedTable) (prog : List Instruction) :
    List UInt8 :=
  if limitFits prog table.rows then
    ((found prog table.rows).take (captureLimitBytes request.limit table.schema / 4)).flatMap
      Cells.bytes
  else []

/-- The purpose of the board: an answer for every request, from nothing but the card. -/
def answerOf (card : List UInt8 → Option (List UInt8)) (request : QueryRequest) : Reply :=
  match (card request.table).bind loadTable with
  | none => errorReply 404 "Not Found" (notFoundMessage request.table)
  | some table =>
    match compileAndSendInstructions request table with
    | ⟨_, some message⟩ => errorReply 400 "Bad Request" message
    | ⟨prog, none⟩ =>
      successReply request table.schema (capturedRows request table prog)
        ⟨none, 1, [], BitVec.ofNat 32 (found prog table.rows).length,
          total (totalledColumn 0 prog) (found prog table.rows)⟩

variable {f : Fetcher generics} {prog : List Instruction} {rows : List Cells} {table : LoadedTable}
  {request : QueryRequest} {file : List UInt8} {card : List UInt8 → Option (List UInt8)}

theorem limitFits_iff : limitFits prog rows = true ↔ LimitFits prog rows := by
  unfold limitFits LimitFits
  cases hlimit : limitOf prog with
  | none => simp
  | some limit =>
    simp only [List.all_eq_true, List.mem_range, decide_eq_true_eq, Option.some.injEq, forall_eq']
    exact ⟨fun h k hk ↦ h k (by omega), fun h k hk ↦ h k (by omega)⟩

theorem answer_found (f : Fetcher generics) (hw : (wheres prog).length ≤ 4) (rows : List Cells) :
    answer (loaded f prog) (rows.map Cells.word) = (found prog rows).map Cells.word := by
  rw [answer, quota_of_holds (holds_loaded f prog), filter_words f hw, found]
  cases limitOf prog with
  | none => rfl
  | some limit => exact List.map_take.symm

theorem countColIdx_eq (f : Fetcher generics) (prog : List Instruction) :
    (loaded f prog).countColIdx = totalledColumn f.reset.countColIdx prog := by
  induction prog using List.reverseRecOn with
  | nil => rfl
  | append_singleton prog inst ih =>
    rw [loaded, totalledColumn, List.foldl_append, List.foldl_append, List.foldl_cons,
      List.foldl_cons, List.foldl_nil, List.foldl_nil]
    change ((loaded f prog).load inst).countColIdx = if _ then _ else totalledColumn _ prog
    rw [Hardware.Isolation.countColIdx_load, ih]
    simp only [isAggregate, decide_eq_true_eq]

/-- With an aggregate in the program the column does not depend on earlier queries. -/
theorem totalledColumn_start (h : prog.any isAggregate = true) (c c' : ℕ) :
    totalledColumn c prog = totalledColumn c' prog := by
  induction prog generalizing c c' with
  | nil => cases h
  | cons inst prog ih =>
    rw [totalledColumn, totalledColumn, List.foldl_cons, List.foldl_cons]
    cases hinst : isAggregate inst with
    | true => rfl
    | false => exact ih (by simpa [hinst] using h) c c'

theorem sumOf_words (f : Fetcher generics) (rows : List Cells) :
    sumOf f (rows.map Cells.word) = total f.countColIdx rows := by
  rw [sumOf, total, List.foldl_map]
  congr 1
  funext s r
  exact congrArg (sumClock true · s) (r.lane_word _)

theorem any_aggregate_sum (hcount : asciiStrncasecmpLocal request.selectList (ascii "COUNT(") 6 ≠ 0)
    (hsum : asciiStrncasecmpLocal request.selectList (ascii "SUM(") 4 = 0)
    (herror : (compileAndSendInstructions request table).error = none) :
    (compileAndSendInstructions request table).sent.any isAggregate = true := by
  rw [compile_accepts, compileSelect, if_neg hcount, if_pos hsum] at herror
  have hwhere : (compileWhere table.schema 0 request.whereMemory).error = none := by
    rw [compileWhere_accepts (Nat.zero_le _), Nat.zero_add]
    exact herror.1
  rw [compileAndSendInstructions, andThen_sent, if_pos (compileLimit_error _), andThen_sent,
    if_pos hwhere, compileSelect, if_neg hcount, if_pos hsum, List.any_append, List.any_append]
  have hselect := herror.2
  simp only [compileSum] at hselect ⊢
  cases hcol : findColumnIndex table.schema (aggregateColumn (request.selectList.drop 4)) with
  | none => simp [hcol, fail] at hselect
  | some colIdx =>
    rw [hcol] at hselect
    simp only at hselect ⊢
    split_ifs at hselect ⊢ with hbad
    · cases hselect
    have hop : isAggregate (aggregateInstruction 4 colIdx) = true :=
      decide_eq_true (.inr (opcode_aggregate colIdx 4))
    simp only [send, List.any_cons, hop, Bool.true_or, Bool.or_true]

structure Gathered (request : QueryRequest) (table : LoadedTable) (o : Outside)
    (d : Hardware.UserHw.State) : Prop where
  compiled : (compileAndSendInstructions request table).error = none
  fed : feedResult o table =
    some (capturedRows request table (compileAndSendInstructions request table).sent)
  settled : ∃ f, Settled (loaded f (compileAndSendInstructions request table).sent)
    (table.rows.map Cells.word) d

/-- What the feed stores of an answer: whole rows, as many as the capture limit allows. -/
theorem stored_found (hload : loadTable file = some table) (f : Fetcher generics)
    (hw : (wheres prog).length ≤ 4) :
    stored (queryParams request table) (answer (loaded f prog) (table.rows.map Cells.word)) =
      ((found prog table.rows).take (captureLimitBytes request.limit table.schema / 4)).flatMap
        Cells.bytes := by
  obtain ⟨k, hk⟩ := captureLimitBytes_rows request.limit (modest_of_table hload).rowWidth
  have hcapacity : capacity (queryParams request table) =
      captureLimitBytes request.limit table.schema / 4 := by
    change (((captureLimitBytes request.limit table.schema : ℤ) + 3) / 4).toNat = _
    omega
  rw [stored, hcapacity, answer_found f hw, ← List.map_take, List.flatMap_map]
  simp only [Cells.wordBytes_word]

/-- The feed leaves the same behind whatever the peripheral held before and however the bus
was timed. -/
theorem gathered_of_fed {o : Outside} {d₀ d : Hardware.UserHw.State} {timing timing' : ℕ → Timing}
    {code : ℤ} {captured : List UInt8} (hload : loadTable file = some table)
    (hfile : file.length ≤ sdFileMaxSize) (hd₀ : AtRest d₀)
    (hcompiled : (compileAndSendInstructions request table).error = none)
    (hfed : Fed request table d₀ timing timing' code captured d)
    (ho : 0 < table.totalBytes → o.dataStatus = code ∧ o.captured = captured) :
    Gathered request table o d := by
  obtain ⟨hsettled, -⟩ := settled_of_fed hload hfile hd₀ hfed
  refine ⟨hcompiled, ?_, _, hsettled⟩
  have hw := wheres_emitted_length request table
  have ready := ready_setup hd₀ (compileAndSendInstructions request table).sent timing
  obtain ⟨hsmall, hparams⟩ := loadTable_rows hload hfile
    (captureLimitBytes request.limit table.schema)
  have job : Job (queryParams request table) (table.rows.map Cells.word) := by
    rw [queryParams, hparams]
    exact job_rows _ hsmall _
  rw [capturedRows]
  cases hfed with
  | skipped hzero =>
    have hrows : table.rows = [] := by
      have hlen := (loadTable_memory hload).2.2.1
      rw [LoadedTable.totalBytes] at hzero
      exact List.length_eq_zero_iff.mp (by omega)
    have hfound : found (compileAndSendInstructions request table).sent [] = [] := by
      rw [found, List.filter_nil]
      cases limitOf (compileAndSendInstructions request table).sent <;> simp [upTo]
    rw [feedResult, if_neg (by omega), hrows, hfound, List.take_nil, List.flatMap_nil, ite_self]
  | fed hpos hn =>
    obtain ⟨hcode, hcaptured⟩ := ho hpos
    rw [feedResult, if_pos hpos, hcode, hcaptured]
    have hiff := (fits_iff d₀.pipeline.fetcher hw table.rows).trans limitFits_iff.symm
    rcases returns_cases ready job hn with ⟨rfl, hfits, hstored⟩ | ⟨rfl, hnot⟩
    · rw [if_neg (by decide), if_neg (by decide), if_pos (hiff.mp hfits)]
      exact congrArg some (hstored.trans (stored_found hload _ hw))
    · rw [if_neg (by decide), if_pos rfl, if_neg (fun h ↦ hnot (hiff.mpr h))]

/-- An answer built from what has been gathered is the answer of the board. -/
theorem reply_gathered {o : Outside} {d : Hardware.UserHw.State} {t : Timing}
    (hfile : o.file = card request.table) (hload : o.file.bind loadTable = some table)
    (hg : Gathered request table o d)
    (hcount : asciiStrncasecmpLocal request.selectList (ascii "COUNT(") 6 = 0 →
      o.accumulator = (exec d t (.read accumulatorOffset)).2)
    (hsum : asciiStrncasecmpLocal request.selectList (ascii "COUNT(") 6 ≠ 0 →
      asciiStrncasecmpLocal request.selectList (ascii "SUM(") 4 = 0 →
        o.sum = (exec d t (.read sumOffset)).2) :
    reply request o = answerOf card request := by
  obtain ⟨hcompiled, hfed, f, hsettled⟩ := hg
  have hanswer := answer_found f (wheres_emitted_length request table) table.rows
  have hcard := hfile ▸ hload
  have hbase : userHwBase ≠ 0 := by decide
  generalize hc : compileAndSendInstructions request table = c at *
  obtain ⟨prog, error⟩ := c
  obtain rfl : error = none := hcompiled
  rw [reply, if_neg hbase, hload, answerOf, hcard]
  simp only [hc, hfed, successReply, aggregate]
  by_cases h₁ : asciiStrncasecmpLocal request.selectList (ascii "COUNT(") 6 = 0
  · rw [if_pos h₁, if_pos h₁, hcount h₁, hsettled.accumulator, hanswer, List.length_map]
  · rw [if_neg h₁, if_neg h₁]
    by_cases h₂ : asciiStrncasecmpLocal request.selectList (ascii "SUM(") 4 = 0
    · have hany := any_aggregate_sum h₁ h₂ (congrArg Compiled.error hc)
      rw [hc] at hany
      rw [if_pos h₂, if_pos h₂, hsum h₁ h₂, hsettled.sum, hanswer, sumOf_words, countColIdx_eq,
        totalledColumn_start hany _ 0]
    · rw [if_neg h₂, if_neg h₂]

theorem answerOf_compiled (hload : (card request.table).bind loadTable = some table)
    (hcompiled : (compileAndSendInstructions request table).error = none) :
    ∃ o, answerOf card request = successReply request table.schema
      (capturedRows request table (compileAndSendInstructions request table).sent) o := by
  obtain ⟨prog, hprog⟩ : ∃ prog, compileAndSendInstructions request table = ⟨prog, none⟩ :=
    ⟨_, by rw [← hcompiled]⟩
  rw [answerOf, hload]
  simp only [hprog]
  exact ⟨_, rfl⟩

end Answers

section System

structure System where
  tasks : Firmware.Tasks.State
  device : Hardware.UserHw.State

def board : System := ⟨start, .powerUp⟩

/-- Which task runs, what it sees, how the bus is timed, and how many accesses its feed makes. -/
structure Input where
  task : Task
  choice : Choice
  timing : ℕ → Timing
  accesses : ℕ

def registerReads (request : QueryRequest) : List BusOp :=
  if asciiStrncasecmpLocal request.selectList (ascii "COUNT(") 6 = 0 then [.read accumulatorOffset]
  else if asciiStrncasecmpLocal request.selectList (ascii "SUM(") 4 = 0 then [.read sumOffset]
  else []

def touched (request : QueryRequest) (i : Input) (d : Hardware.UserHw.State) :
    TxPc → Hardware.UserHw.State
  | .compile _ table =>
    (execAll d i.timing (setup (compileAndSendInstructions request table).sent)).1
  | .feed _ table =>
    if 0 < table.totalBytes then
      (feedSourceToHardware (queryParams request table) i.timing d i.accesses).2
    else d
  | .build _ _ _ _ _ => (execAll d i.timing (registerReads request)).1
  | _ => d

def System.step (s : System) (i : Input) : System where
  tasks := Firmware.Tasks.step s.tasks (i.task, i.choice)
  device := match i.task with
    | .rx => s.device
    | .tx => touched s.tasks.pendingRequest i s.device s.tasks.tx

/-- What `process_request` sees is what the card and the peripheral give it. -/
def Told (card : List UInt8 → Option (List UInt8)) (request : QueryRequest) (i : Input)
    (d : Hardware.UserHw.State) : TxPc → Prop
  | .load o => o.file = card request.table
  | .feed o table => 0 < table.totalBytes →
      (feedSourceToHardware (queryParams request table) i.timing d i.accesses).1.pc =
        .returned o.dataStatus ∧
      o.captured =
        (feedSourceToHardware (queryParams request table) i.timing d i.accesses).1.captured
  | .build o _ _ _ _ =>
      (asciiStrncasecmpLocal request.selectList (ascii "COUNT(") 6 = 0 →
        o.accumulator = (exec d (i.timing 0) (.read accumulatorOffset)).2) ∧
      (asciiStrncasecmpLocal request.selectList (ascii "COUNT(") 6 ≠ 0 →
        asciiStrncasecmpLocal request.selectList (ascii "SUM(") 4 = 0 →
          o.sum = (exec d (i.timing 0) (.read sumOffset)).2)
  | _ => True

def Admissible (card : List UInt8 → Option (List UInt8)) (s : System) (i : Input) : Prop :=
  Undisturbed s.tasks (i.task, i.choice) ∧
    (i.task = .tx → Told card s.tasks.pendingRequest i s.device s.tasks.tx)

/-- What is known, at each point of `process_request`, of the answer it is about to give. -/
def Knows (card : List UInt8 → Option (List UInt8)) (request : QueryRequest) (o : Outside)
    (d : Hardware.UserHw.State) : TxPc → Prop
  | .pend | .check | .load _ => True
  | .compile _ _ => o.file = card request.table
  | .feed _ table => o.file = card request.table ∧ ∃ d₀ timing, AtRest d₀ ∧
      d = (execAll d₀ timing (setup (compileAndSendInstructions request table).sent)).1
  | .build _ _ _ _ _ => o.file = card request.table ∧
      ∃ table, o.file.bind loadTable = some table ∧ Gathered request table o d
  | .notFound | .answer _ _ | .close | .release => reply request o = answerOf card request

variable {card : List UInt8 → Option (List UInt8)} {s : System} {i : Input} {fd : ℤ}
  {request : QueryRequest} {o : Outside} {sent : List (List UInt8)}

theorem reachable_feed {params : Params} {d : Hardware.UserHw.State} (h : Reachable d)
    (timing : ℕ → Timing) (n : ℕ) : Reachable (feedSourceToHardware params timing d n).2 := by
  induction n with
  | zero => exact h
  | succ n ih =>
    rw [feedSourceToHardware, feedStep]
    cases busOp (feedSourceToHardware params timing d n).1.pc with
    | none => exact ih
    | some op => exact ih.exec _ op

theorem reachable_step (h : Reachable s.device) (i : Input) : Reachable (s.step i).device := by
  unfold System.step touched
  cases i.task with
  | rx => exact h
  | tx =>
    cases s.tasks.tx with
    | compile o table => exact h.execAll _ _
    | feed o table =>
      simp only
      split_ifs
      · exact reachable_feed h _ _
      · exact h
    | build o schema captured k offset => exact h.execAll _ _
    | _ => exact h

theorem aggregate_none (schema : TableSchema) (h : aggregate request schema o = none) :
    registerReads request = [] := by
  unfold aggregate at h
  unfold registerReads
  split_ifs at h ⊢
  rfl

theorem knows_tx (hcard : ∀ name file, card name = some file → file.length ≤ sdFileMaxSize)
    (hc : Client s.tasks fd request) (hd : AtRest s.device)
    (hp : Promise request o fd s.tasks.httpResponseBody sent s.tasks.tx)
    (hk : Knows card request o s.device s.tasks.tx)
    (hstage : stage s.tasks.tx = .processing)
    (htold : Told card s.tasks.pendingRequest i s.device s.tasks.tx) :
    Knows card request o (touched s.tasks.pendingRequest i s.device s.tasks.tx)
      (txStep i.choice s.tasks).tx := by
  have hbase : userHwBase ≠ 0 := by decide
  rw [hc.pending] at htold ⊢
  unfold txStep
  cases htx : s.tasks.tx with
  | load o' =>
    rw [htx] at hp hk htold
    obtain ⟨rfl, -⟩ := hp
    have hfile : o'.file = card request.table := htold
    simp only [if_neg hbase]
    cases hload : o'.file.bind loadTable with
    | none =>
      change reply request o' = _
      rw [reply, if_neg hbase, hload, answerOf, ← hfile, hload]
    | some table => exact hfile
  | notFound =>
    rw [htx] at hk
    exact hk
  | compile o' table =>
    rw [htx] at hp hk
    obtain ⟨rfl, hload, -⟩ := hp
    have hfile : o'.file = card request.table := hk
    simp only [hc.pending]
    cases herror : (compileAndSendInstructions request table).error with
    | some message =>
      have hcompiled : compileAndSendInstructions request table =
          ⟨(compileAndSendInstructions request table).sent, some message⟩ := by
        rw [← herror]
      change reply request o' = _
      rw [reply, if_neg hbase, hload, answerOf, ← hfile, hload]
      simp only [herror]
      rw [hcompiled]
    | none => exact ⟨hfile, s.device, i.timing, hd, rfl⟩
  | feed o' table =>
    rw [htx] at hp hk htold
    obtain ⟨rfl, hload, herror, -⟩ := hp
    obtain ⟨hfile, d₀, timing, hd₀, hsetup⟩ := hk
    obtain ⟨file, hsome, hload'⟩ := Option.bind_eq_some_iff.mp hload
    have hsize := hcard request.table file (hfile ▸ hsome)
    have hg : Gathered request table o' (touched request i s.device (.feed o' table)) := by
      rw [touched]
      split_ifs with hpos
      · obtain ⟨hn, hcaptured⟩ := htold hpos
        rw [hsetup] at hn hcaptured ⊢
        exact gathered_of_fed hload' hsize hd₀ herror (.fed hpos hn) (fun _ ↦ ⟨rfl, hcaptured⟩)
      · rw [hsetup]
        have hskip : Fed request table d₀ timing timing 0 [] _ := .skipped (by omega)
        exact gathered_of_fed hload' hsize hd₀ herror hskip (fun h ↦ absurd h hpos)
    simp only [hg.fed]
    exact ⟨hfile, table, hload, hg⟩
  | build o' schema captured k offset =>
    rw [htx] at hp hk htold
    obtain rfl : o' = o := hp.1
    obtain ⟨hfile, table, hload, hg⟩ := hk
    have hanswer := reply_gathered hfile hload hg htold.1 htold.2
    simp only [buildStep, hc.pending]
    cases hagg : aggregate request schema o' with
    | some text => exact hanswer
    | none =>
      simp only
      cases (successTexts request schema captured)[k]? with
      | none => exact hanswer
      | some text =>
        simp only
        cases (appendf s.tasks.httpResponseBody offset text).2 with
        | none => exact hanswer
        | some offset' =>
          refine ⟨hfile, table, hload, ?_⟩
          rw [touched, aggregate_none schema hagg]
          exact hg
  | answer a phase =>
    rw [htx] at hk
    simp only
    cases (answerStep s.tasks.httpResponseBody a phase).1 <;> exact hk
  | _ => simp [htx, stage] at hstage

structure Sound (card : List UInt8 → Option (List UInt8)) (s : System) : Prop where
  tasks : Invariant s.tasks
  mail : Mail s.tasks
  device : Reachable s.device
  current : ∀ fd request o, (ledger s.tasks.log).current = some (fd, request) →
    (fd, o) ∈ (ledger s.tasks.log).called → Knows card request o s.device s.tasks.tx
  past : ∀ fd request o, (fd, request) ∈ (ledger s.tasks.log).admitted →
    fd ∈ (ledger s.tasks.log).released → (fd, o) ∈ (ledger s.tasks.log).called →
      reply request o = answerOf card request

theorem sound_board (card : List UInt8 → Option (List UInt8)) : Sound card board := by
  refine ⟨invariant_start, mail_start, .powerUp, ?_, ?_⟩
  · rintro fd request o ⟨⟩
  · intro fd request o hmem
    cases hmem

/-- `rx_task` may admit a client, but leaves the answers alone. -/
theorem sound_rx (h : Sound card s) (htask : i.task = .rx)
    (hu : Undisturbed s.tasks (.rx, i.choice)) : Sound card (s.step i) := by
  have htasks : (s.step i).tasks = rxStep i.choice s.tasks := by
    rw [System.step, htask]
    rfl
  have hdevice : (s.step i).device = s.device := by
    rw [System.step, htask]
  obtain ⟨htx, hcalled, hreleased, -, -, hadm⟩ := rx_ledger (rxStep_effect i.choice s.tasks)
  have hnew {fd : ℤ} {o : Outside} {parsed : QueryRequest} (hrx : s.tasks.rx = .post fd parsed) :
      (fd, o) ∉ (ledger s.tasks.log).called := by
    intro hcall
    have hheld := h.tasks.connections.holding fd (by rw [hrx]; rfl)
    exact hheld.2.2.2 (mem_admitted_of_called h.tasks.books hcall)
  refine ⟨?_, ?_, ?_, ?_, ?_⟩
  · rw [htasks]
    exact invariant_step h.tasks hu.1
  · rw [htasks]
    exact mail_rx h.mail h.tasks hu
  · exact reachable_step h.device i
  · intro fd request o hcur hcall
    rw [htasks, hcalled] at hcall
    rw [htasks, hdevice, htx]
    rw [htasks] at hcur
    rcases hadm with ⟨-, hcur'⟩ | ⟨fd', parsed, hrx, hcur', -⟩
    · exact h.current fd request o (hcur'.symm.trans hcur) hcall
    · obtain ⟨rfl, -⟩ : fd' = fd ∧ parsed = request := by simpa [hcur'] using hcur
      exact absurd hcall (hnew hrx)
  · intro fd request o hmem hrel hcall
    rw [htasks] at hmem hrel hcall
    rw [hcalled] at hcall
    rw [hreleased] at hrel
    rcases hadm with ⟨hadm', -⟩ | ⟨fd', parsed, hrx, -, hadm'⟩
    · exact h.past fd request o (hadm' ▸ hmem) hrel hcall
    · rw [hadm', List.mem_append] at hmem
      rcases hmem with hmem | hmem
      · exact h.past fd request o hmem hrel hcall
      · obtain ⟨rfl, -⟩ : fd = fd' ∧ request = parsed := by simpa using hmem
        exact absurd hcall (hnew hrx)

theorem Sound.keep {s' : System} (h : Sound card s) (htasks : Invariant s'.tasks)
    (hmail : Mail s'.tasks) (hdevice : Reachable s'.device)
    (h₁ : (ledger s'.tasks.log).admitted = (ledger s.tasks.log).admitted)
    (h₂ : (ledger s'.tasks.log).called = (ledger s.tasks.log).called)
    (h₃ : (ledger s'.tasks.log).released = (ledger s.tasks.log).released)
    (h₄ : (ledger s'.tasks.log).current = (ledger s.tasks.log).current)
    (hknows : ∀ fd request o, (ledger s.tasks.log).current = some (fd, request) →
      (fd, o) ∈ (ledger s.tasks.log).called → Knows card request o s'.device s'.tasks.tx) :
    Sound card s' := by
  refine ⟨htasks, hmail, hdevice, ?_, ?_⟩
  · rw [h₂, h₄]
    exact hknows
  · rw [h₁, h₂, h₃]
    exact h.past

theorem sound_tx (hcard : ∀ name file, card name = some file → file.length ≤ sdFileMaxSize)
    (h : Sound card s) (htask : i.task = .tx)
    (hu : Undisturbed s.tasks (.tx, i.choice))
    (htold : Told card s.tasks.pendingRequest i s.device s.tasks.tx) : Sound card (s.step i) := by
  have htasks : (s.step i).tasks = txStep i.choice s.tasks := by
    rw [System.step, htask]
    rfl
  have hdevice : (s.step i).device = touched s.tasks.pendingRequest i s.device s.tasks.tx := by
    rw [System.step, htask]
  have hi : Invariant (s.step i).tasks := htasks ▸ invariant_step h.tasks hu.1
  have hm : Mail (s.step i).tasks := htasks ▸ mail_tx h.mail h.tasks
  have hd := reachable_step h.device i
  have e := txStep_effect i.choice s.tasks
  have hclient (hstage : stage s.tasks.tx ≠ .waiting) := (h.tasks.token.client hstage).2
  have hknows (hstage : stage s.tasks.tx = .processing) (fd : ℤ) (request : QueryRequest)
      (o : Outside) (hcur : (ledger s.tasks.log).current = some (fd, request))
      (hcall : (fd, o) ∈ (ledger s.tasks.log).called) :
      Knows card request o (s.step i).device (s.step i).tasks.tx := by
    obtain ⟨fd₀, r₀, hc⟩ := hclient (by simp [hstage])
    obtain ⟨rfl, rfl⟩ : fd₀ = fd ∧ r₀ = request := by simpa [hc.current] using hcur
    rw [htasks, hdevice]
    exact knows_tx hcard hc h.device.atRest (h.mail.current _ _ o hcur hcall)
      (h.current _ _ o hcur hcall) hstage htold
  rw [← htasks] at e
  generalize s.step i = s' at *
  obtain ⟨t, d⟩ := s'
  simp only at *
  cases e with
  | work hstage _ _ _ _ _ _ sends hlog =>
    obtain ⟨fd', -, hlog⟩ := hlog
    have hl : ledger t.log = ledger s.tasks.log := by rw [hlog, ledger_sends]
    exact h.keep hi hm hd (by rw [hl]) (by rw [hl]) (by rw [hl]) (by rw [hl]) (hknows hstage)
  | skip htx _ => exact h.keep hi hm hd rfl rfl rfl rfl (by simp [htx, Knows])
  | pend htx _ => exact h.keep hi hm hd rfl rfl rfl rfl (by simp [Knows])
  | pass htx hs =>
    obtain ⟨fd, request, hc⟩ := hclient (by rcases htx with htx | htx <;> simp [htx, stage])
    exact absurd (hc.socket ▸ hc.nonneg) (by omega)
  | call o htx hs =>
    refine ⟨hi, hm, hd, fun fd request o' _ _ ↦ trivial, ?_⟩
    intro fd request o' hmem hrel hcall
    simp only [ledger_snoc, Ledger.record, List.mem_append, List.mem_singleton] at hmem hrel hcall
    rcases hcall with hcall | hcall
    · exact h.past fd request o' hmem hrel hcall
    · obtain ⟨fd₀, r₀, hc⟩ := hclient (by simp [htx, stage])
      have hfd : fd = fd₀ := (congrArg Prod.fst hcall).trans hc.socket
      exact absurd (hfd ▸ hrel) (not_released h.tasks hc.current)
  | ret sends hfd =>
    exact h.keep hi hm hd (by rw [ledger_snoc, ledger_sends]; rfl)
      (by rw [ledger_snoc, ledger_sends]; rfl) (by rw [ledger_snoc, ledger_sends]; rfl)
      (by rw [ledger_snoc, ledger_sends]; rfl) (hknows (stage_of_txFd hfd))
  | close htx hs =>
    refine h.keep hi hm hd (by rw [ledger_snoc]; rfl) (by rw [ledger_snoc]; rfl)
      (by rw [ledger_snoc]; rfl) (by rw [ledger_snoc]; rfl) fun fd request o hcur hcall ↦ ?_
    have hk := h.current fd request o hcur hcall
    rw [htx] at hk
    exact hk
  | release htx =>
    obtain ⟨fd₀, r₀, hc⟩ := hclient (by simp [htx, stage])
    refine ⟨hi, hm, hd, by simp [Ledger.record], ?_⟩
    intro fd request o hmem hrel hcall
    simp only [ledger_snoc, Ledger.record, List.mem_append, List.mem_singleton,
      hc.socket] at hmem hrel hcall
    rcases hrel with hrel | rfl
    · exact h.past fd request o hmem hrel hcall
    · have hcur := h.tasks.books.unfinished hmem (not_released h.tasks hc.current)
      have hk := h.current _ _ o hcur hcall
      rw [htx] at hk
      exact hk

theorem sound_step (hcard : ∀ name file, card name = some file → file.length ≤ sdFileMaxSize)
    (h : Sound card s) (hi : Admissible card s i) : Sound card (s.step i) := by
  obtain ⟨hu, htold⟩ := hi
  cases htask : i.task with
  | rx => exact sound_rx h htask (htask ▸ hu)
  | tx => exact sound_tx hcard h htask (htask ▸ hu) (htold htask)

/-- Nothing is sent before the answer is known. -/
theorem knows_sent {d : Hardware.UserHw.State} {body : List UInt8} {tx : TxPc}
    (hp : Promise request o fd body sent tx) (hk : Knows card request o d tx) :
    (sent = [] ∧ ¬ (stage tx = .closing ∨ stage tx = .releasing)) ∨
      reply request o = answerOf card request := by
  cases tx with
  | pend => exact .inl ⟨hp, by simp [stage]⟩
  | check => exact .inl ⟨hp, by simp [stage]⟩
  | load o' => exact .inl ⟨hp.2, by simp [stage]⟩
  | compile o' table => exact .inl ⟨hp.2.2, by simp [stage]⟩
  | feed o' table => exact .inl ⟨hp.2.2.2, by simp [stage]⟩
  | build o' schema captured k offset => exact .inl ⟨hp.2.2.1, by simp [stage]⟩
  | notFound => exact .inr hk
  | answer a phase => exact .inr hk
  | close => exact .inr hk
  | release => exact .inr hk

theorem sound_run (hcard : ∀ name file, card name = some file → file.length ≤ sdFileMaxSize)
    {schedule : List Input} (h : Run System.step (Admissible card) board schedule s) :
    Sound card s :=
  h.invariant (fun _ _ ↦ sound_step hcard) (sound_board card)

theorem Sound.answers (hs : Sound card s)
    (hadmitted : (fd, request) ∈ (ledger s.tasks.log).admitted) :
    sentOn fd s.tasks.log <+: (answerOf card request).sends ∧
      (fd ∈ (ledger s.tasks.log).returned →
        sentOn fd s.tasks.log = (answerOf card request).sends) := by
  obtain ⟨hwaiting, hcalls⟩ := hs.mail.unmixed hs.tasks fd request hadmitted
  have hbooks := hs.tasks.books
  by_cases hrel : fd ∈ (ledger s.tasks.log).released
  · have hcalled : fd ∈ (ledger s.tasks.log).called.map Prod.fst := by
      rw [hbooks.called]
      exact List.mem_append_left _ hrel
    obtain ⟨⟨fd', o⟩, ho, rfl⟩ := List.mem_map.mp hcalled
    rw [← hs.past _ request o hadmitted hrel ho]
    exact hcalls o ho
  have hcur := hbooks.unfinished hadmitted hrel
  have hreturned : fd ∈ (ledger s.tasks.log).returned →
      stage s.tasks.tx = .closing ∨ stage s.tasks.tx = .releasing := by
    intro hmem
    rw [hbooks.returned, List.mem_append] at hmem
    by_contra hno
    simp [hno, hrel] at hmem
  by_cases hcalled : fd ∈ (ledger s.tasks.log).called.map Prod.fst
  · obtain ⟨⟨fd', o⟩, ho, rfl⟩ := List.mem_map.mp hcalled
    have hp := hs.mail.current _ request o hcur ho
    rcases knows_sent hp (hs.current _ request o hcur ho) with ⟨hnil, hno⟩ | hanswer
    · exact ⟨hnil ▸ List.nil_prefix, fun hmem ↦ absurd (hreturned hmem) hno⟩
    · rw [← hanswer]
      exact hcalls o ho
  · refine ⟨hwaiting hcalled ▸ List.nil_prefix, fun hmem ↦ ?_⟩
    rw [called_iff hs.tasks hcur, not_not] at hcalled
    rcases hreturned hmem with hstage | hstage <;> simp [hstage] at hcalled

/-- The board as a whole: whatever clients come and go, however the tasks are interleaved and
the bus is timed, and whatever was asked before, a client is sent nothing but the answer that
the card gives to its request, and all of it once its call has returned. -/
theorem board_answers (card : List UInt8 → Option (List UInt8))
    (hcard : ∀ name file, card name = some file → file.length ≤ sdFileMaxSize)
    (schedule : List Input) (s : System)
    (h : Run System.step (Admissible card) board schedule s) (fd : ℤ) (request : QueryRequest)
    (hadmitted : (fd, request) ∈ (ledger s.tasks.log).admitted) :
    sentOn fd s.tasks.log <+: (answerOf card request).sends ∧
      (fd ∈ (ledger s.tasks.log).returned →
        sentOn fd s.tasks.log = (answerOf card request).sends) :=
  (sound_run hcard h).answers hadmitted

end System

section Pages

open Client QueryText QueryRead EndToEnd Agreement TableFormat FpgaTest

variable {columns file : List UInt8} {q : Asked} {w : Spelling} {table : LoadedTable}
  {contents : Contents} {card : List UInt8 → Option (List UInt8)}

/-- The answer to a query carries the rows that it asks for, or none if the rest of the table
does not fit. -/
theorem answerOf_query (hcols : Columns columns) (hq : q.Valid columns) (hw : w.Valid)
    (hl : Loaded columns file table contents) (hheld : card q.table = some file) :
    ∃ o, (RestFits q contents → answerOf card (q.request w) = successReply (q.request w) table.schema
        ((carried q columns table).flatMap Cells.bytes) o) ∧
      (¬ RestFits q contents →
        answerOf card (q.request w) = successReply (q.request w) table.schema [] o) := by
  obtain ⟨herror, hlimit, hmatching⟩ := compiled hcols hq hw hl
  have hcard : (card (q.request w).table).bind loadTable = some table := by
    change (card q.table).bind loadTable = _
    rw [hheld]
    exact hl.load
  obtain ⟨o, hanswer⟩ := answerOf_compiled hcard herror
  have hfits := limitFits_iff.trans (restFits_iff hcols hq hl hlimit hmatching)
  have hstored : stored (queryParams (q.request w) table) _ = _ :=
    stored_found hl.load (Hardware.UserHw.State.powerUp).pipeline.fetcher
      (wheres_emitted_length (q.request w) table)
  rw [stored_rows hcols hq hw hl] at hstored
  refine ⟨o, fun h ↦ ?_, fun h ↦ ?_⟩
  · rw [hanswer, capturedRows, if_pos (hfits.mpr h), ← hstored]
  · rw [hanswer, capturedRows, if_neg (fun hroom ↦ h (hfits.mp hroom))]

/-- The answer of the board, as the page shows it. -/
theorem shown_answerOf (hcols : Columns columns) (hq : q.Valid columns) (hw : w.Valid)
    (hl : Loaded columns file table contents) {body : List UInt8}
    (hparse : parseRequestBody body = some (q.request w)) (hheld : card q.table = some file) :
    (RestFits q contents → showAnswer (latin (q.text w)) (answerOf card (q.request w)) =
      .ok (expectedTable q columns contents)) ∧
    (¬ RestFits q contents → showAnswer (latin (q.text w)) (answerOf card (q.request w)) =
      .ok none) := by
  obtain ⟨o, hfits, hnot⟩ := answerOf_query hcols hq hw hl hheld
  obtain ⟨hshown, hempty⟩ := shown_answer hcols hq hw hl hparse o
  constructor
  · intro h
    rw [hfits h]
    exact hshown
  · intro h
    rw [hnot h]
    exact hempty

/-- The service, from the page to the page: in every run of the board, whoever else asks and
whatever was asked before, a client that sends the page's query gets an answer that the page
shows as the table that the reference finds, or as nothing if the rest of the table does not
fit in the peripheral. -/
theorem client_served (columns : List UInt8) (hcols : Columns columns) (rows : List (List Str))
    (hrows : rows ≠ []) (file : List UInt8) (hwrite : writeTable (names columns) rows = .ok file)
    (q : Asked) (hq : q.Valid columns) (w : Spelling) (hw : w.Valid)
    (hlen : (q.text w).length ≤ 255) (sql : Text)
    (hsql : ClientRequest.normalizeSql sql = latin (q.text w))
    (card : List UInt8 → Option (List UInt8))
    (hcard : ∀ name file, card name = some file → file.length ≤ sdFileMaxSize)
    (hheld : card q.table = some file) :
    ∃ payload contents, ClientRequest.buildRequestBody sql = some payload ∧
      parseRequestBody (Library.Utf8.encode payload.body) = some (q.request w) ∧
      readTable file none = .ok contents ∧
      ∀ schedule s, Run System.step (Admissible card) board schedule s →
        ∀ fd, (fd, q.request w) ∈ (ledger s.tasks.log).admitted →
          fd ∈ (ledger s.tasks.log).returned →
          ∃ r : Reply, sentOn fd s.tasks.log = r.sends ∧
            (RestFits q contents → showAnswer payload.sql r =
              .ok (expectedTable q columns contents)) ∧
            (¬ RestFits q contents → showAnswer payload.sql r = .ok none) := by
  obtain ⟨payload, hbuilt, hparse, hsqlText, -⟩ := query_sent hcols hq hw hlen hsql
  obtain ⟨table, contents, hl, hread⟩ := loaded_written hcols hrows hwrite
  refine ⟨payload, contents, hbuilt, hparse, hread, fun schedule s h fd hadmitted hreturned ↦ ?_⟩
  have hsent := ((sound_run hcard h).answers hadmitted).2 hreturned
  rw [hsqlText]
  exact ⟨_, hsent, shown_answerOf hcols hq hw hl hparse hheld⟩

end Pages

section Examples

open Client QueryText QueryRead EndToEnd Agreement TableFormat

def quiet (card : List UInt8 → Option (List UInt8)) (request : QueryRequest) : TxPc → Bool
  | .load o => o.file = card request.table
  | .compile _ _ | .feed _ _ => false
  | .build _ _ _ _ _ => registerReads request = []
  | _ => true

variable {card : List UInt8 → Option (List UInt8)} {t t' : Firmware.Tasks.State} {is : List Input}

theorem told_of_quiet {request : QueryRequest} {tx : TxPc} (h : quiet card request tx = true)
    (i : Input) (d : Hardware.UserHw.State) :
    Told card request i d tx ∧ touched request i d tx = d := by
  cases tx with
  | load o =>
    have hfile : o.file = card request.table := of_decide_eq_true h
    exact ⟨hfile, rfl⟩
  | compile o table => cases h
  | feed o table => cases h
  | build o schema captured k offset =>
    have hreads : registerReads request = [] := of_decide_eq_true h
    refine ⟨?_, by rw [touched, hreads]; rfl⟩
    unfold registerReads at hreads
    split_ifs at hreads with hcount hsum
    exact ⟨fun h₁ ↦ absurd h₁ hcount, fun _ h₂ ↦ absurd h₂ hsum⟩
  | _ => exact ⟨trivial, rfl⟩

theorem run_quiet (d : Hardware.UserHw.State) (h : Run step (fun t j ↦ Undisturbed t j ∧
    (j.1 = .tx → quiet card t.pendingRequest t.tx = true)) t
      (is.map (fun i ↦ (i.task, i.choice))) t') :
    Run System.step (Admissible card) ⟨t, d⟩ is ⟨t', d⟩ := by
  induction is generalizing t with
  | nil =>
    cases h
    exact .nil _
  | cons i is ih =>
    obtain ⟨⟨hu, hquiet⟩, hrest⟩ := run_cons_iff.mp h
    have hstep : System.step ⟨t, d⟩ i = ⟨step t (i.task, i.choice), d⟩ := by
      cases htask : i.task with
      | rx => simp only [System.step, htask]
      | tx => simp only [System.step, htask, (told_of_quiet (hquiet htask) i d).2]
    refine .cons ⟨hu, fun htask ↦ (told_of_quiet (hquiet htask) i d).1⟩ ?_
    rw [hstep]
    exact ih hrest

def threeCard (name : List UInt8) : Option (List UInt8) :=
  if name = ascii "alunos" then some threeFile else none

def threeTable : LoadedTable := ⟨⟨1, 2, 3, 4, [[65], [66]]⟩, ascii "7x  3y  9z  "⟩

theorem load_three : loadTable threeFile = some threeTable := by rfl

def threeOutside : Outside := ⟨some threeFile, 1, ascii "7x  9z  ", 0, 0⟩

def threeBody : List UInt8 :=
  ascii "TABLE=alunos\nLIMIT=2\nSQL=select b From alunos WHERE A >= 5 limit 2\n"

def asks (task : Task) (accesses : ℕ) : Input :=
  ⟨task, ⟨3, ascii "\r\n\r\n" ++ threeBody, threeOutside⟩, atOnce, accesses⟩

def arrival : List Input := List.replicate 11 (asks .rx 0) ++ List.replicate 2 (asks .tx 0)

def arrived : Firmware.Tasks.State :=
  (arrival.map (fun i ↦ (i.task, i.choice))).foldl step start

def departure : List Input := List.replicate 23 (asks .tx 0)

def answering : Firmware.Tasks.State :=
  { arrived with tx := .build threeOutside threeTable.schema (ascii "7x  9z  ") 0 0 }

def departed : Firmware.Tasks.State :=
  (departure.map (fun i ↦ (i.task, i.choice))).foldl step answering

abbrev threeRequest : QueryRequest := sampleAsked.request sampleSpelling

theorem arrived_load : arrived.tx = .load threeOutside := by
  have htest : (match arrived.tx with | .load o => decide (o = threeOutside) | _ => false) = true := by
    decide +kernel
  cases htx : arrived.tx with
  | load o =>
    rw [htx] at htest
    rw [of_decide_eq_true htest]
  | _ => simp [htx] at htest

theorem arrived_request : arrived.pendingRequest = threeRequest := by decide +kernel

theorem run_arrival (d : Hardware.UserHw.State) :
    Run System.step (Admissible threeCard) ⟨start, d⟩ arrival ⟨arrived, d⟩ := by
  apply run_quiet
  rw [arrived]
  decide +kernel

theorem run_departure (d : Hardware.UserHw.State) :
    Run System.step (Admissible threeCard) ⟨answering, d⟩ departure ⟨departed, d⟩ := by
  apply run_quiet
  rw [departed]
  decide +kernel

theorem departed_ledger :
    (ledger departed.log).admitted = [(3, threeRequest)] ∧ (ledger departed.log).returned = [3] := by
  decide +kernel

theorem loaded_three : Loaded sampleColumns threeFile threeTable threeContents := by
  obtain ⟨table, contents, hl, hread⟩ := loaded_written columns_sample (by decide) write_three
  obtain rfl : threeTable = table := Option.some.inj (load_three.symm.trans hl.load)
  obtain rfl : threeContents = contents := Except.ok.inj (read_three.symm.trans hread)
  exact hl

theorem undisturbed_tx (t : Firmware.Tasks.State) (c : Choice) : Undisturbed t (.tx, c) :=
  ⟨fun h ↦ (nomatch h), fun h ↦ (nomatch h)⟩

theorem run_three : ∃ schedule d,
    Run System.step (Admissible threeCard) board schedule ⟨departed, d⟩ := by
  obtain ⟨herror, hlimit, hmatching⟩ := compiled columns_sample sampleAsked_valid
    sampleSpelling_valid loaded_three
  have hfits := (restFits_iff columns_sample sampleAsked_valid loaded_three hlimit hmatching).mpr
    restFits_three
  have hsize : threeFile.length ≤ sdFileMaxSize := by decide
  obtain ⟨hpos, job⟩ := job_loaded loaded_three hsize threeRequest
  have ready := ready_setup atRest_powerUp (compileAndSendInstructions threeRequest threeTable).sent
    atOnce
  generalize hd : (execAll .powerUp atOnce
    (setup (compileAndSendInstructions threeRequest threeTable).sent)).1 = d at ready
  obtain ⟨code, n, hn⟩ := feed_returns ready job atOnce
  have hiff := fits_iff (Hardware.UserHw.State.powerUp).pipeline.fetcher
    (wheres_emitted_length threeRequest threeTable) threeTable.rows
  rcases returns_cases ready job hn with ⟨rfl, -, hcaptured⟩ | ⟨-, hnot⟩
  · rw [stored_rows columns_sample sampleAsked_valid sampleSpelling_valid loaded_three] at hcaptured
    have hcarried : (carried sampleAsked sampleColumns threeTable).flatMap Cells.bytes =
        ascii "7x  9z  " := by
      decide +kernel
    have hload : System.step ⟨arrived, .powerUp⟩ (asks .tx 0) =
        ⟨{ arrived with tx := .compile threeOutside threeTable }, .powerUp⟩ := by
      simp only [System.step, asks, step, txStep, arrived_load, touched]
      rfl
    have hcompile : System.step ⟨{ arrived with tx := .compile threeOutside threeTable }, .powerUp⟩
        (asks .tx 0) = ⟨{ arrived with tx := .feed threeOutside threeTable }, d⟩ := by
      rw [← hd]
      simp only [System.step, asks, step, txStep, touched, arrived_request, herror]
    have hfeed :
        System.step ⟨{ arrived with tx := .feed threeOutside threeTable }, d⟩ (asks .tx n) =
          ⟨answering, (feedSourceToHardware (queryParams threeRequest threeTable) atOnce d n).2⟩ := by
      have hresult : feedResult threeOutside threeTable = some (ascii "7x  9z  ") := rfl
      simp only [System.step, asks, step, txStep, touched, arrived_request, hresult, if_pos hpos]
      rfl
    have hrest : Run System.step (Admissible threeCard) ⟨arrived, .powerUp⟩
        (asks .tx 0 :: asks .tx 0 :: asks .tx n :: departure) ⟨departed,
          (feedSourceToHardware (queryParams threeRequest threeTable) atOnce d n).2⟩ := by
      refine .cons ⟨undisturbed_tx _ _, fun _ ↦ ?_⟩ ?_
      · change Told threeCard arrived.pendingRequest (asks .tx 0) .powerUp arrived.tx
        rw [arrived_load, arrived_request]
        rfl
      rw [hload]
      refine .cons ⟨undisturbed_tx _ _, fun _ ↦ trivial⟩ ?_
      rw [hcompile]
      refine .cons ⟨undisturbed_tx _ _, fun _ _ ↦ ?_⟩ ?_
      · change (feedSourceToHardware (queryParams arrived.pendingRequest threeTable) atOnce d n).1.pc
            = .returned 1 ∧ ascii "7x  9z  " = (feedSourceToHardware
              (queryParams arrived.pendingRequest threeTable) atOnce d n).1.captured
        rw [arrived_request]
        exact ⟨hn, hcarried.symm.trans hcaptured.symm⟩
      rw [hfeed]
      exact run_departure _
    exact ⟨_, _, (run_arrival .powerUp).append hrest⟩
  · exact absurd (hiff.mpr hfits) hnot

theorem three_sized : ∀ name file, threeCard name = some file → file.length ≤ sdFileMaxSize := by
  intro name file h
  unfold threeCard at h
  split_ifs at h
  obtain rfl := Option.some.inj h
  decide

theorem board_answers_three : ∃ s : System, (3, threeRequest) ∈ (ledger s.tasks.log).admitted ∧
    sentOn 3 s.tasks.log = (answerOf threeCard threeRequest).sends := by
  obtain ⟨schedule, d, hrun⟩ := run_three
  obtain ⟨hadmitted, hreturned⟩ := departed_ledger
  have hmem : (3, threeRequest) ∈ (ledger departed.log).admitted := by
    rw [hadmitted]
    exact List.mem_singleton_self _
  have hanswers := board_answers threeCard three_sized schedule ⟨departed, d⟩ hrun 3 threeRequest hmem
  exact ⟨⟨departed, d⟩, hmem, hanswers.2 (by rw [hreturned]; exact List.mem_singleton_self _)⟩

theorem client_served_three : ∃ payload s r, ClientRequest.buildRequestBody
      (Client.text " select b\n  From alunos\tWHERE A >= 5\n limit 2 ") = some payload ∧
    (3, threeRequest) ∈ (ledger (System.tasks s).log).admitted ∧
    sentOn 3 s.tasks.log = Reply.sends r ∧
    showAnswer payload.sql r =
      .ok (some ⟨[Client.text "B"], [[Client.text "x"], [Client.text "z"]]⟩) := by
  obtain ⟨schedule, d, hrun⟩ := run_three
  obtain ⟨hadmitted, hreturned⟩ := departed_ledger
  have hmem : (3, threeRequest) ∈ (ledger departed.log).admitted := by
    rw [hadmitted]
    exact List.mem_singleton_self _
  obtain ⟨payload, contents, hbuilt, -, hread, hserved⟩ := client_served sampleColumns columns_sample
    threeRows (by decide) threeFile write_three sampleAsked sampleAsked_valid sampleSpelling
    sampleSpelling_valid (by decide +kernel)
    (Client.text " select b\n  From alunos\tWHERE A >= 5\n limit 2 ") (by decide +kernel) threeCard
    three_sized rfl
  rw [read_three] at hread
  cases hread
  obtain ⟨r, hsent, hshown, -⟩ := hserved schedule ⟨departed, d⟩ hrun 3 hmem
    (by rw [hreturned]; exact List.mem_singleton_self _)
  have hexpected : expectedTable sampleAsked sampleColumns threeContents =
      some ⟨[Client.text "B"], [[Client.text "x"], [Client.text "z"]]⟩ := by
    decide +kernel
  exact ⟨payload, ⟨departed, d⟩, r, hbuilt, hmem, hsent, (hshown restFits_three).trans
    (congrArg Except.ok hexpected)⟩

end Examples

end FpgaDatabase.Reference.Service
