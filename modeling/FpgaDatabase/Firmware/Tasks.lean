import FpgaDatabase.Firmware.Response
import FpgaDatabase.Library.Execution

namespace FpgaDatabase.Firmware.Tasks

open CString Request Table Compile Response

def requestBufferSize : ℕ := 1536

/-- The members of `QueryRequest`, which its assignment copies one after the other. -/
inductive Field
  | sql
  | table
  | selectList
  | whereClause
  | limit
  deriving DecidableEq

def Field.all : List Field := [.sql, .table, .selectList, .whereClause, .limit]

def copyField (src dst : QueryRequest) : Field → QueryRequest
  | .sql => { dst with sql := src.sql }
  | .table => { dst with table := src.table }
  | .selectList => { dst with selectList := src.selectList }
  | .whereClause => { dst with whereClause := src.whereClause }
  | .limit => { dst with limit := src.limit }

/-- The arguments of `send_http_response` other than the body. -/
structure Answer where
  fd : ℤ
  statusCode : ℕ
  statusText : String
  deriving DecidableEq

/-- The steps of `send_error_response`; `send_http_response` starts at `measure`. -/
inductive Phase
  | format (message : List UInt8)
  | measure
  | sendHeader (bodyLen : ℕ)
  | sendBody (bodyLen : ℕ)
  deriving DecidableEq

/-- Where `rx_task` can be preempted. -/
inductive RxPc
  | accept
  | check (fd : ℤ)
  | recv (fd : ℤ)
  | parse (fd : ℤ) (buffer : List UInt8)
  | copy (fd : ℤ) (parsed : QueryRequest) (todo : List Field)
  | post (fd : ℤ) (parsed : QueryRequest)
  | answer (a : Answer) (phase : Phase)
  | close (fd : ℤ)
  deriving DecidableEq

/-- Where `tx_task` can be preempted. The states from `load` to `answer` are inside
`process_request`, the last two inside `close_client_socket`. -/
inductive TxPc
  | pend
  | check
  | load (o : Outside)
  | notFound
  | compile (o : Outside) (table : LoadedTable)
  | feed (o : Outside) (table : LoadedTable)
  | build (o : Outside) (schema : TableSchema) (captured : List UInt8) (k offset : ℕ)
  | answer (a : Answer) (phase : Phase)
  | close
  | release

/-- What happens to connections and requests. `post` is the post of the semaphore,
`call` and `ret` enclose `process_request`, and `release` stores -1. -/
inductive Event
  | accept (fd : ℤ)
  | send (fd : ℤ) (bytes : List UInt8)
  | close (fd : ℤ)
  | post (fd : ℤ) (request : QueryRequest)
  | call (fd : ℤ) (o : Outside)
  | ret (fd : ℤ)
  | release (fd : ℤ)

structure State where
  currentClientSocket : ℤ
  pendingRequest : QueryRequest
  queryReadySem : ℕ
  httpResponseBody : List UInt8
  rx : RxPc
  tx : TxPc
  log : List Event

def start : State where
  currentClientSocket := -1
  pendingRequest := ⟨[], [], [], [], 0⟩
  queryReadySem := 0
  httpResponseBody := List.replicate maxResponseBodySize 0
  rx := .accept
  tx := .pend
  log := []

/-- What the outside world answers: the results of `accept` and `recv`, and what
`process_request` gets to see. -/
structure Choice where
  fd : ℤ
  received : List UInt8
  outside : Outside

def answerStep (body : List UInt8) (a : Answer) :
    Phase → Option Phase × List UInt8 × List Event
  | .format message => (some .measure, snprintf body 0 (errorText message), [])
  | .measure => (some (.sendHeader (strlen body)), body, [])
  | .sendHeader bodyLen =>
    (some (.sendBody bodyLen), body, [.send a.fd (header a.statusCode a.statusText bodyLen)])
  | .sendBody bodyLen =>
    (none, body, if 0 < bodyLen then [.send a.fd (body.take bodyLen)] else [])

def rxStep (c : Choice) (s : State) : State :=
  match s.rx with
  | .accept =>
    if 0 ≤ c.fd then { s with rx := .check c.fd, log := s.log ++ [.accept c.fd] } else s
  | .check fd =>
    if 0 ≤ s.currentClientSocket then
      { s with
        rx := .answer ⟨fd, 503, "Service Unavailable"⟩
          (.format (ascii "O firmware atende uma consulta por vez.")) }
    else { s with rx := .recv fd }
  | .recv fd =>
    if c.received = [] then { s with rx := .close fd }
    else { s with rx := .parse fd (c.received.take (requestBufferSize - 1)) }
  | .parse fd buffer =>
    match parseRequestBody (requestBody buffer) with
    | none =>
      { s with
        rx := .answer ⟨fd, 400, "Bad Request"⟩
          (.format (ascii "Corpo esperado: TABLE=...\\nLIMIT=...\\nSQL=...\\n")) }
    | some parsed => { s with rx := .copy fd parsed Field.all }
  | .copy fd parsed (field :: todo) =>
    { s with
      pendingRequest := copyField parsed s.pendingRequest field
      rx := .copy fd parsed todo }
  | .copy fd parsed [] => { s with currentClientSocket := fd, rx := .post fd parsed }
  | .post fd parsed =>
    { s with
      queryReadySem := s.queryReadySem + 1
      rx := .accept
      log := s.log ++ [.post fd parsed] }
  | .answer a phase =>
    let r := answerStep s.httpResponseBody a phase
    { s with
      httpResponseBody := r.2.1
      rx := match r.1 with
        | some phase => .answer a phase
        | none => .close a.fd
      log := s.log ++ r.2.2 }
  | .close fd => { s with rx := .accept, log := s.log ++ [.close fd] }

def sendErrorResponse (s : State) (statusCode : ℕ) (statusText : String)
    (message : List UInt8) : TxPc :=
  .answer ⟨s.currentClientSocket, statusCode, statusText⟩ (.format message)

/-- One call of `appendf` by `build_success_body`, or the single text of an aggregate. -/
def buildStep (s : State) (o : Outside) (schema : TableSchema) (captured : List UInt8)
    (k offset : ℕ) : State :=
  match aggregate s.pendingRequest schema o with
  | some text =>
    { s with
      httpResponseBody := snprintf s.httpResponseBody 0 text
      tx := .answer ⟨s.currentClientSocket, 200, "OK"⟩ .measure }
  | none =>
    match (successTexts s.pendingRequest schema captured)[k]? with
    | none => { s with tx := .answer ⟨s.currentClientSocket, 200, "OK"⟩ .measure }
    | some text =>
      let r := appendf s.httpResponseBody offset text
      { s with
        httpResponseBody := r.1
        tx := match r.2 with
          | some offset => .build o schema captured (k + 1) offset
          | none => sendErrorResponse s 500 "Internal Server Error"
              (ascii "Falha ao montar a resposta HTTP.") }

def txStep (c : Choice) (s : State) : State :=
  match s.tx with
  | .pend =>
    if 0 < s.queryReadySem then { s with queryReadySem := s.queryReadySem - 1, tx := .check }
    else s
  | .check =>
    if 0 ≤ s.currentClientSocket then
      { s with
        tx := .load c.outside
        log := s.log ++ [.call s.currentClientSocket c.outside] }
    else { s with tx := .pend }
  | .load o =>
    if userHwBase = 0 then
      { s with
        tx := sendErrorResponse s 500 "Internal Server Error"
          (ascii "USER_HW_0_BASE ausente no system.h.") }
    else match o.file.bind loadTable with
    | none => { s with tx := .notFound }
    | some table => { s with tx := .compile o table }
  | .notFound =>
    { s with tx := sendErrorResponse s 404 "Not Found" (notFoundMessage s.pendingRequest.table) }
  | .compile o table =>
    match (compileAndSendInstructions s.pendingRequest table).error with
    | some message => { s with tx := sendErrorResponse s 400 "Bad Request" message }
    | none => { s with tx := .feed o table }
  | .feed o table =>
    match feedResult o table with
    | none =>
      { s with
        tx := sendErrorResponse s 500 "Internal Server Error"
          (ascii "Dados da tabela truncados antes do envio completo ao hardware.") }
    | some captured => { s with tx := .build o table.schema captured 0 0 }
  | .build o schema captured k offset => buildStep s o schema captured k offset
  | .answer a phase =>
    let r := answerStep s.httpResponseBody a phase
    { s with
      httpResponseBody := r.2.1
      tx := match r.1 with
        | some phase => .answer a phase
        | none => .close
      log := s.log ++ r.2.2 ++ match r.1 with
        | some _ => []
        | none => [.ret s.currentClientSocket] }
  | .close =>
    if 0 ≤ s.currentClientSocket then
      { s with tx := .release, log := s.log ++ [.close s.currentClientSocket] }
    else { s with tx := .pend }
  | .release =>
    { s with
      currentClientSocket := -1
      tx := .pend
      log := s.log ++ [.release s.currentClientSocket] }

inductive Task
  | rx
  | tx
  deriving DecidableEq

def step (s : State) : Task × Choice → State
  | (.rx, c) => rxStep c s
  | (.tx, c) => txStep c s

/-- What a log says about connections and requests. `current` is the last admitted
request until its release. -/
structure Ledger where
  accepted : List ℤ := []
  closed : List ℤ := []
  admitted : List (ℤ × QueryRequest) := []
  called : List (ℤ × Outside) := []
  returned : List ℤ := []
  released : List ℤ := []
  current : Option (ℤ × QueryRequest) := none

def Ledger.record (l : Ledger) : Event → Ledger
  | .accept fd => { l with accepted := l.accepted ++ [fd] }
  | .send _ _ => l
  | .close fd => { l with closed := l.closed ++ [fd] }
  | .post fd request =>
    { l with admitted := l.admitted ++ [(fd, request)], current := some (fd, request) }
  | .call fd o => { l with called := l.called ++ [(fd, o)] }
  | .ret fd => { l with returned := l.returned ++ [fd] }
  | .release fd => { l with released := l.released ++ [fd], current := none }

def ledger (log : List Event) : Ledger := log.foldl Ledger.record {}

@[simp] theorem ledger_snoc (log : List Event) (e : Event) :
    ledger (log ++ [e]) = (ledger log).record e := by
  simp [ledger]

@[simp] theorem ledger_sends (log : List Event) (fd : ℤ) (sends : List (List UInt8)) :
    ledger (log ++ sends.map (.send fd)) = ledger log := by
  induction sends generalizing log with
  | nil => simp
  | cons bytes sends ih =>
    rw [List.map_cons, List.append_cons, ih, ledger_snoc]
    rfl

def sentOn (fd : ℤ) (log : List Event) : List (List UInt8) :=
  log.filterMap (fun | .send fd' bytes => if fd' = fd then some bytes else none | _ => none)

def Fresh (s : State) (i : Task × Choice) : Prop :=
  i.1 = .rx → s.rx = .accept → i.2.fd ∉ (ledger s.log).accepted

instance (s : State) (i : Task × Choice) : Decidable (Fresh s i) :=
  inferInstanceAs (Decidable (i.1 = .rx → s.rx = .accept → i.2.fd ∉ (ledger s.log).accepted))

end FpgaDatabase.Firmware.Tasks
