import FpgaDatabase.Firmware.Tasks

namespace FpgaDatabase.Firmware.Admission

open Request Response Tasks Library.Execution

/-- The connection that `rx_task` is busy with. -/
def rxFd : RxPc → Option ℤ
  | .accept => none
  | .check fd | .recv fd | .parse fd _ | .copy fd _ _ | .post fd _ | .close fd => some fd
  | .answer a _ => some a.fd

/-- `rx_task` is `inside` once it has found no client, until it refuses the new one or
makes it the client; then it is `posting`. -/
inductive Side
  | outside
  | inside
  | posting
  deriving DecidableEq

def side : RxPc → Side
  | .accept | .check _ | .answer _ _ | .close _ => .outside
  | .recv _ | .parse _ _ | .copy _ _ _ => .inside
  | .post _ _ => .posting

inductive Stage
  | waiting
  | checking
  | processing
  | closing
  | releasing
  deriving DecidableEq

def stage : TxPc → Stage
  | .pend => .waiting
  | .check => .checking
  | .load _ | .notFound | .compile _ _ | .feed _ _ | .build _ _ _ _ _ | .answer _ _ => .processing
  | .close => .closing
  | .release => .releasing

def txFd : TxPc → Option ℤ
  | .answer a _ => some a.fd
  | _ => none

/-- All that a step of `rx_task` can do to what both tasks see. -/
inductive RxEffect (s : State) : State → Prop
  | work {s' : State} {fd : ℤ} (hfd : rxFd s.rx = some fd) (hfd' : rxFd s'.rx = some fd)
      (hside : side s.rx ≠ .posting) (hside' : side s'.rx = side s.rx ∨ side s'.rx = .outside)
      (hpending : side s.rx = .outside → s'.pendingRequest = s.pendingRequest)
      (hsocket : s'.currentClientSocket = s.currentClientSocket)
      (hsem : s'.queryReadySem = s.queryReadySem) (htx : s'.tx = s.tx)
      (sends : List (List UInt8)) (hlog : s'.log = s.log ++ sends.map (.send fd)) : RxEffect s s'
  | skip : s.rx = .accept → RxEffect s s
  | accept (fd : ℤ) (hrx : s.rx = .accept) (hfd : 0 ≤ fd) :
      RxEffect s { s with rx := .check fd, log := s.log ++ [.accept fd] }
  | enter (fd : ℤ) (hrx : s.rx = .check fd) (hs : s.currentClientSocket < 0) :
      RxEffect s { s with rx := .recv fd }
  | assign (fd : ℤ) (parsed : QueryRequest) (hrx : s.rx = .copy fd parsed []) :
      RxEffect s { s with currentClientSocket := fd, rx := .post fd parsed }
  | post (fd : ℤ) (parsed : QueryRequest) (hrx : s.rx = .post fd parsed) :
      RxEffect s
        { s with
          queryReadySem := s.queryReadySem + 1
          rx := .accept
          log := s.log ++ [.post fd parsed] }
  | close (fd : ℤ) (hrx : s.rx = .close fd) :
      RxEffect s { s with rx := .accept, log := s.log ++ [.close fd] }

theorem answerStep_sends (body : List UInt8) (a : Answer) (phase : Phase) :
    ∃ sends : List (List UInt8), (answerStep body a phase).2.2 = sends.map (.send a.fd) := by
  cases phase with
  | format message => exact ⟨[], rfl⟩
  | measure => exact ⟨[], rfl⟩
  | sendHeader bodyLen => exact ⟨[_], rfl⟩
  | sendBody bodyLen =>
    by_cases h : 0 < bodyLen
    · exact ⟨[_], by rw [answerStep, if_pos h]; rfl⟩
    · exact ⟨[], by rw [answerStep, if_neg h]; rfl⟩

theorem RxEffect.quiet {s : State} {rx : RxPc} {fd : ℤ} (hfd : rxFd s.rx = some fd)
    (hfd' : rxFd rx = some fd) (hside : side s.rx ≠ .posting)
    (hside' : side rx = side s.rx ∨ side rx = .outside) : RxEffect s { s with rx := rx } :=
  .work hfd hfd' hside hside' (fun _ ↦ rfl) rfl rfl rfl [] (by simp)

theorem rxStep_effect (c : Choice) (s : State) : RxEffect s (rxStep c s) := by
  unfold rxStep
  cases hrx : s.rx with
  | accept =>
    by_cases hc : 0 ≤ c.fd
    · simp only [hc, if_true]
      exact .accept c.fd hrx hc
    · simp only [hc, if_false]
      exact .skip hrx
  | check fd =>
    by_cases hs : 0 ≤ s.currentClientSocket
    · simp only [hs, if_true]
      exact .quiet (by rw [hrx]; rfl) rfl (by simp [hrx, side]) (.inr rfl)
    · simp only [hs, if_false]
      exact .enter fd hrx (by omega)
  | recv fd =>
    simp only
    split_ifs
    · exact .quiet (by rw [hrx]; rfl) rfl (by simp [hrx, side]) (.inr rfl)
    · exact .quiet (by rw [hrx]; rfl) rfl (by simp [hrx, side]) (.inl (by rw [hrx]; rfl))
  | parse fd buffer =>
    simp only
    split
    · exact .quiet (by rw [hrx]; rfl) rfl (by simp [hrx, side]) (.inr rfl)
    · exact .quiet (by rw [hrx]; rfl) rfl (by simp [hrx, side]) (.inl (by rw [hrx]; rfl))
  | copy fd parsed todo =>
    cases todo with
    | nil => exact .assign fd parsed hrx
    | cons field todo =>
      exact .work (show rxFd s.rx = some fd by rw [hrx]; rfl) rfl (by simp [hrx, side]) (.inl (by rw [hrx]; rfl))
        (by simp [hrx, side]) rfl rfl rfl [] (by simp)
  | post fd parsed => exact .post fd parsed hrx
  | answer a phase =>
    obtain ⟨sends, hsends⟩ := answerStep_sends s.httpResponseBody a phase
    simp only
    refine .work (show rxFd s.rx = some a.fd by rw [hrx]; rfl) ?_ (by simp [hrx, side]) (.inr ?_) (fun _ ↦ rfl)
      rfl rfl rfl sends (by simp only [hsends])
    · cases (answerStep s.httpResponseBody a phase).1 <;> rfl
    · cases (answerStep s.httpResponseBody a phase).1 <;> rfl
  | close fd => exact .close fd hrx

inductive TxEffect (s : State) : State → Prop
  | work {s' : State} (hstage : stage s.tx = .processing) (hstage' : stage s'.tx = .processing)
      (hfd : txFd s'.tx = txFd s.tx ∨ txFd s'.tx = some s.currentClientSocket)
      (hpending : s'.pendingRequest = s.pendingRequest)
      (hsocket : s'.currentClientSocket = s.currentClientSocket)
      (hsem : s'.queryReadySem = s.queryReadySem) (hrx : s'.rx = s.rx)
      (sends : List (List UInt8))
      (hlog : ∃ fd, (sends = [] ∨ txFd s.tx = some fd) ∧ s'.log = s.log ++ sends.map (.send fd)) :
      TxEffect s s'
  | skip : s.tx = .pend → s.queryReadySem = 0 → TxEffect s s
  | pend (htx : s.tx = .pend) (hsem : 0 < s.queryReadySem) :
      TxEffect s { s with queryReadySem := s.queryReadySem - 1, tx := .check }
  | call (o : Outside) (htx : s.tx = .check) (hs : 0 ≤ s.currentClientSocket) :
      TxEffect s
        { s with
          tx := .load o
          log := s.log ++ [.call s.currentClientSocket o] }
  | pass (htx : s.tx = .check ∨ s.tx = .close) (hs : s.currentClientSocket < 0) :
      TxEffect s { s with tx := .pend }
  | ret {body : List UInt8} (sends : List (List UInt8)) {fd : ℤ} (hfd : txFd s.tx = some fd) :
      TxEffect s
        { s with
          httpResponseBody := body
          tx := .close
          log := s.log ++ sends.map (.send fd) ++ [.ret s.currentClientSocket] }
  | close (htx : s.tx = .close) (hs : 0 ≤ s.currentClientSocket) :
      TxEffect s { s with tx := .release, log := s.log ++ [.close s.currentClientSocket] }
  | release (htx : s.tx = .release) :
      TxEffect s
        { s with
          currentClientSocket := -1
          tx := .pend
          log := s.log ++ [.release s.currentClientSocket] }

theorem TxEffect.quiet {s : State} {body : List UInt8} {tx : TxPc}
    (hstage : stage s.tx = .processing) (hstage' : stage tx = .processing)
    (hfd : txFd tx = txFd s.tx ∨ txFd tx = some s.currentClientSocket) :
    TxEffect s { s with httpResponseBody := body, tx := tx } :=
  .work hstage hstage' hfd rfl rfl rfl rfl [] ⟨0, .inl rfl, by simp⟩

theorem buildStep_effect {s : State} {o : Outside} {schema : Table.TableSchema}
    {captured : List UInt8} {k offset : ℕ} (htx : s.tx = .build o schema captured k offset) :
    TxEffect s (buildStep s o schema captured k offset) := by
  have hstage : stage s.tx = .processing := by rw [htx]; rfl
  unfold buildStep
  split
  · exact .quiet hstage rfl (.inr rfl)
  · split
    · exact .quiet hstage rfl (.inr rfl)
    · refine .quiet hstage ?_ ?_
      · split <;> rfl
      · split
        · exact .inl (by rw [htx]; rfl)
        · exact .inr rfl

theorem TxEffect.frame {s s' : State} (e : TxEffect s s') :
    s'.rx = s.rx ∧ (ledger s'.log).accepted = (ledger s.log).accepted := by
  cases e with
  | work _ _ _ _ _ _ hrx sends hlog =>
    obtain ⟨fd, -, hlog⟩ := hlog
    rw [hlog, ledger_sends]
    exact ⟨hrx, rfl⟩
  | ret sends hfd => simp [-List.append_assoc, Ledger.record]
  | _ => simp [Ledger.record]

theorem txStep_effect (c : Choice) (s : State) : TxEffect s (txStep c s) := by
  unfold txStep
  cases htx : s.tx with
  | pend =>
    by_cases hs : 0 < s.queryReadySem
    · simp only [hs, if_true]
      exact .pend htx hs
    · simp only [hs, if_false]
      exact .skip htx (by omega)
  | check =>
    by_cases hs : 0 ≤ s.currentClientSocket
    · simp only [hs, if_true]
      exact .call c.outside htx hs
    · simp only [hs, if_false]
      exact .pass (.inl htx) (by omega)
  | load o =>
    have hstage : stage s.tx = .processing := by rw [htx]; rfl
    simp only
    split_ifs
    · exact .quiet hstage rfl (.inr rfl)
    · split
      · exact .quiet hstage rfl (.inl (by rw [htx]; rfl))
      · exact .quiet hstage rfl (.inl (by rw [htx]; rfl))
  | notFound => exact .quiet (by rw [htx]; rfl) rfl (.inr rfl)
  | compile o table =>
    have hstage : stage s.tx = .processing := by rw [htx]; rfl
    simp only
    split
    · exact .quiet hstage rfl (.inr rfl)
    · exact .quiet hstage rfl (.inl (by rw [htx]; rfl))
  | feed o table =>
    have hstage : stage s.tx = .processing := by rw [htx]; rfl
    simp only
    split
    · exact .quiet hstage rfl (.inr rfl)
    · exact .quiet hstage rfl (.inl (by rw [htx]; rfl))
  | build o schema captured k offset => exact buildStep_effect htx
  | answer a phase =>
    obtain ⟨sends, hsends⟩ := answerStep_sends s.httpResponseBody a phase
    have hfd : txFd s.tx = some a.fd := by rw [htx]; rfl
    simp only [hsends]
    cases (answerStep s.httpResponseBody a phase).1 with
    | none => exact .ret sends hfd
    | some phase' =>
      refine .work (by rw [htx]; rfl) rfl (.inl (by rw [htx]; rfl)) rfl rfl rfl rfl sends
        ⟨a.fd, .inr hfd, ?_⟩
      simp only [List.append_nil]
  | close =>
    by_cases hs : 0 ≤ s.currentClientSocket
    · simp only [hs, if_true]
      exact .close htx hs
    · simp only [hs, if_false]
      exact .pass (.inr htx) (by omega)
  | release => exact .release htx

/-- The copy of the request is complete once every member is copied. -/
def Copying (s : State) : Prop :=
  ∀ fd parsed todo, s.rx = .copy fd parsed todo →
    todo.foldl (copyField parsed) s.pendingRequest = parsed

theorem copying_rxStep {s : State} (h : Copying s) (c : Choice) : Copying (rxStep c s) := by
  intro fd parsed todo
  unfold rxStep
  cases hrx : s.rx with
  | copy fd' parsed' todo' =>
    cases todo' with
    | nil => simp
    | cons field todo' =>
      rintro ⟨⟩
      exact h _ _ _ hrx
  | parse fd' buffer =>
    simp only
    split
    · simp
    · rintro ⟨⟩
      rfl
  | answer a phase =>
    simp only
    cases (answerStep s.httpResponseBody a phase).1 <;> simp
  | accept =>
    simp only
    split_ifs <;> simp [hrx]
  | check fd' =>
    simp only
    split_ifs <;> simp
  | recv fd' =>
    simp only
    split_ifs <;> simp
  | post fd' parsed' => simp
  | close fd' => simp

theorem copying_tx {s s' : State} (h : Copying s) (e : TxEffect s s') : Copying s' := by
  cases e with
  | work _ _ _ hpending _ _ hrx _ _ =>
    intro fd parsed todo
    rw [hpending, hrx]
    exact h fd parsed todo
  | _ => exact h

/-- A request has been admitted and is not finished. -/
structure Client (s : State) (fd : ℤ) (request : QueryRequest) : Prop where
  current : (ledger s.log).current = some (fd, request)
  socket : s.currentClientSocket = fd
  nonneg : 0 ≤ fd
  pending : s.pendingRequest = request
  outside : side s.rx = .outside

/-- Who is entitled to `pending_request` and `current_client_socket`. -/
inductive Token (s : State) : Prop
  | free (hcur : (ledger s.log).current = none) (hsem : s.queryReadySem = 0)
      (hstage : stage s.tx = .waiting) (hsocket : s.currentClientSocket = -1)
      (hside : side s.rx ≠ .posting)
  | assigned (fd : ℤ) (parsed : QueryRequest) (hcur : (ledger s.log).current = none)
      (hsem : s.queryReadySem = 0) (hstage : stage s.tx = .waiting)
      (hsocket : s.currentClientSocket = fd) (hfd : 0 ≤ fd) (hpending : s.pendingRequest = parsed)
      (hrx : s.rx = .post fd parsed)
  | announced (fd : ℤ) (request : QueryRequest) (hclient : Client s fd request)
      (hsem : s.queryReadySem = 1) (hstage : stage s.tx = .waiting)
  | serving (fd : ℤ) (request : QueryRequest) (hclient : Client s fd request)
      (hsem : s.queryReadySem = 0) (hstage : stage s.tx ≠ .waiting)

/-- Outside its critical part `rx_task` leaves the token where it is. -/
theorem Token.keep {s s' : State} (h : Token s)
    (hcur : (ledger s'.log).current = (ledger s.log).current) (hside : side s.rx ≠ .posting)
    (hside' : side s'.rx = side s.rx ∨ side s'.rx = .outside)
    (hpending : side s.rx = .outside → s'.pendingRequest = s.pendingRequest)
    (hsocket : s'.currentClientSocket = s.currentClientSocket)
    (hsem : s'.queryReadySem = s.queryReadySem) (htx : s'.tx = s.tx) : Token s' := by
  have hclient {fd : ℤ} {request : QueryRequest} (hc : Client s fd request) :
      Client s' fd request := by
    refine ⟨hcur.trans hc.current, hsocket.trans hc.socket, hc.nonneg,
      (hpending hc.outside).trans hc.pending, ?_⟩
    rcases hside' with hs | hs
    · exact hs.trans hc.outside
    · exact hs
  cases h with
  | free h₁ h₂ h₃ h₄ h₅ =>
    refine .free (hcur.trans h₁) (hsem.trans h₂) (htx ▸ h₃) (hsocket.trans h₄) ?_
    rcases hside' with hs | hs <;> rw [hs]
    · exact hside
    · simp
  | assigned fd parsed h₁ h₂ h₃ h₄ h₅ h₆ h₇ => exact absurd (by rw [h₇]; rfl) hside
  | announced fd request h₁ h₂ h₃ => exact .announced fd request (hclient h₁) (hsem.trans h₂) (htx ▸ h₃)
  | serving fd request h₁ h₂ h₃ => exact .serving fd request (hclient h₁) (hsem.trans h₂) (htx ▸ h₃)

theorem token_rx {s s' : State} (h : Token s) (hc : Copying s)
    (hpos : ∀ fd, rxFd s.rx = some fd → 0 ≤ fd) (e : RxEffect s s') : Token s' := by
  cases e with
  | work hfd hfd' hside hside' hpending hsocket hsem htx sends hlog =>
    exact h.keep (by rw [hlog, ledger_sends]) hside hside' hpending hsocket hsem htx
  | skip hrx => exact h
  | accept fd hrx hfd =>
    exact h.keep (by simp [Ledger.record]) (by simp [hrx, side]) (.inr rfl) (fun _ ↦ rfl) rfl rfl rfl
  | enter fd hrx hs =>
    cases h with
    | free h₁ h₂ h₃ h₄ h₅ => exact .free h₁ h₂ h₃ h₄ (by simp [side])
    | assigned fd' parsed h₁ h₂ h₃ h₄ h₅ h₆ h₇ => simp [hrx] at h₇
    | announced fd' request h₁ h₂ h₃ => exact absurd (h₁.socket ▸ h₁.nonneg) (by omega)
    | serving fd' request h₁ h₂ h₃ => exact absurd (h₁.socket ▸ h₁.nonneg) (by omega)
  | assign fd parsed hrx =>
    cases h with
    | free h₁ h₂ h₃ h₄ h₅ =>
      exact .assigned fd parsed h₁ h₂ h₃ rfl (hpos fd (by rw [hrx]; rfl)) (hc fd parsed [] hrx) rfl
    | assigned fd' parsed h₁ h₂ h₃ h₄ h₅ h₆ h₇ => simp [hrx] at h₇
    | announced fd' request h₁ h₂ h₃ => exact absurd h₁.outside (by simp [hrx, side])
    | serving fd' request h₁ h₂ h₃ => exact absurd h₁.outside (by simp [hrx, side])
  | post fd parsed hrx =>
    cases h with
    | free h₁ h₂ h₃ h₄ h₅ => exact absurd (by rw [hrx]; rfl) h₅
    | assigned fd' parsed' h₁ h₂ h₃ h₄ h₅ h₆ h₇ =>
      obtain ⟨rfl, rfl⟩ : fd = fd' ∧ parsed = parsed' := by simpa [hrx] using h₇
      exact .announced fd parsed ⟨by simp [Ledger.record], h₄, h₅, h₆, rfl⟩ (by simp [h₂]) h₃
    | announced fd' request h₁ h₂ h₃ => exact absurd h₁.outside (by simp [hrx, side])
    | serving fd' request h₁ h₂ h₃ => exact absurd h₁.outside (by simp [hrx, side])
  | close fd hrx =>
    exact h.keep (by simp [Ledger.record]) (by simp [hrx, side]) (.inr rfl) (fun _ ↦ rfl) rfl rfl rfl

theorem Token.client {s : State} (h : Token s) (hstage : stage s.tx ≠ .waiting) :
    s.queryReadySem = 0 ∧ ∃ fd request, Client s fd request := by
  cases h with
  | free _ _ h₃ _ _ => exact absurd h₃ hstage
  | assigned _ _ _ _ h₃ _ _ _ _ => exact absurd h₃ hstage
  | announced _ _ _ _ h₃ => exact absurd h₃ hstage
  | serving fd request h₁ h₂ h₃ => exact ⟨h₂, fd, request, h₁⟩

theorem Token.posting {s : State} (h : Token s) {fd : ℤ} {parsed : QueryRequest}
    (hrx : s.rx = .post fd parsed) :
    (ledger s.log).current = none ∧ stage s.tx = .waiting := by
  cases h with
  | free _ _ _ _ h₅ => exact absurd (by rw [hrx]; rfl) h₅
  | assigned _ _ h₁ _ h₃ _ _ _ _ => exact ⟨h₁, h₃⟩
  | announced _ _ h₁ _ _ => exact absurd h₁.outside (by simp [hrx, side])
  | serving _ _ h₁ _ _ => exact absurd h₁.outside (by simp [hrx, side])

theorem token_tx {s s' : State} (h : Token s) (e : TxEffect s s') : Token s' := by
  cases e with
  | work hstage hstage' hfd hpending hsocket hsem hrx sends hlog =>
    obtain ⟨hs, fd, request, hc⟩ := h.client (by simp [hstage])
    obtain ⟨fd', -, hlog⟩ := hlog
    refine .serving fd request ?_ (hsem.trans hs) (by simp [hstage'])
    exact ⟨by rw [hlog, ledger_sends, hc.current], hsocket.trans hc.socket, hc.nonneg,
      hpending.trans hc.pending, hrx ▸ hc.outside⟩
  | skip htx hsem => exact h
  | pend htx hsem =>
    cases h with
    | free h₁ h₂ h₃ h₄ h₅ => omega
    | assigned fd' parsed h₁ h₂ h₃ h₄ h₅ h₆ h₇ => omega
    | announced fd' request h₁ h₂ h₃ =>
      exact .serving fd' request ⟨h₁.current, h₁.socket, h₁.nonneg, h₁.pending, h₁.outside⟩
        (by simp [h₂]) (by simp [stage])
    | serving fd' request h₁ h₂ h₃ => omega
  | call o htx hs =>
    obtain ⟨hsem, fd, request, hc⟩ := h.client (by simp [htx, stage])
    exact .serving fd request ⟨by simpa [Ledger.record] using hc.current, hc.socket, hc.nonneg,
      hc.pending, hc.outside⟩ hsem (by simp [stage])
  | pass htx hs =>
    obtain ⟨hsem, fd, request, hc⟩ := h.client (by rcases htx with htx | htx <;> simp [htx, stage])
    exact absurd (hc.socket ▸ hc.nonneg) (by omega)
  | ret sends hfd =>
    have hstage : stage s.tx ≠ .waiting := by
      intro hw
      cases htx : s.tx <;> simp [htx, stage, txFd] at hw hfd
    obtain ⟨hsem, fd, request, hc⟩ := h.client hstage
    refine .serving fd request ⟨?_, hc.socket, hc.nonneg, hc.pending, hc.outside⟩ hsem
      (by simp [stage])
    simpa [-List.append_assoc, Ledger.record] using hc.current
  | close htx hs =>
    obtain ⟨hsem, fd, request, hc⟩ := h.client (by simp [htx, stage])
    exact .serving fd request ⟨by simpa [Ledger.record] using hc.current, hc.socket, hc.nonneg,
      hc.pending, hc.outside⟩ hsem (by simp [stage])
  | release htx =>
    obtain ⟨hsem, fd, request, hc⟩ := h.client (by simp [htx, stage])
    exact .free (by simp [Ledger.record]) hsem rfl rfl (by simp [hc.outside])

def clientFd (l : Ledger) : List ℤ := (l.current.map Prod.fst).toList

/-- Requests are served in the order of their admission, each by one call. -/
structure Books (s : State) : Prop where
  admitted : ∃ past, (ledger s.log).admitted = past ++ (ledger s.log).current.toList ∧
    past.map Prod.fst = (ledger s.log).released
  called : (ledger s.log).called.map Prod.fst = (ledger s.log).released ++
    if stage s.tx = .waiting ∨ stage s.tx = .checking then [] else clientFd (ledger s.log)
  returned : (ledger s.log).returned = (ledger s.log).released ++
    if stage s.tx = .closing ∨ stage s.tx = .releasing then clientFd (ledger s.log) else []

theorem Books.keep {s s' : State} (h : Books s) (htx : stage s'.tx = stage s.tx)
    (h₁ : (ledger s'.log).admitted = (ledger s.log).admitted)
    (h₂ : (ledger s'.log).called = (ledger s.log).called)
    (h₃ : (ledger s'.log).returned = (ledger s.log).returned)
    (h₄ : (ledger s'.log).released = (ledger s.log).released)
    (h₅ : (ledger s'.log).current = (ledger s.log).current) : Books s' := by
  refine ⟨?_, ?_, ?_⟩
  · rw [h₁, h₄, h₅]
    exact h.admitted
  · rw [h₂, h₄, htx, clientFd, h₅]
    exact h.called
  · rw [h₃, h₄, htx, clientFd, h₅]
    exact h.returned

theorem books_rx {s s' : State} (h : Books s) (ht : Token s) (e : RxEffect s s') : Books s' := by
  cases e with
  | work hfd hfd' hside hside' hpending hsocket hsem htx sends hlog =>
    have hl : ledger s'.log = ledger s.log := by rw [hlog, ledger_sends]
    exact h.keep (by rw [htx]) (by rw [hl]) (by rw [hl]) (by rw [hl]) (by rw [hl]) (by rw [hl])
  | post fd parsed hrx =>
    obtain ⟨h₁, h₃⟩ := ht.posting hrx
    obtain ⟨past, hadm, hpast⟩ := h.admitted
    have hcalled := h.called
    have hreturned := h.returned
    simp only [h₁, Option.toList_none, List.append_nil] at hadm
    simp only [h₃, true_or, if_true, reduceCtorEq, or_self, if_false] at hcalled hreturned
    refine ⟨⟨past, ?_, ?_⟩, ?_, ?_⟩
    · simp [Ledger.record, hadm]
    · simp [Ledger.record, hpast]
    · simp [Ledger.record, h₃, hcalled]
    · simp [Ledger.record, h₃, hreturned]
  | skip hrx => exact h
  | enter fd hrx hs => exact h.keep rfl rfl rfl rfl rfl rfl
  | assign fd parsed hrx => exact h.keep rfl rfl rfl rfl rfl rfl
  | accept fd hrx hfd =>
    exact h.keep rfl (by simp [Ledger.record]) (by simp [Ledger.record]) (by simp [Ledger.record])
      (by simp [Ledger.record]) (by simp [Ledger.record])
  | close fd hrx =>
    exact h.keep rfl (by simp [Ledger.record]) (by simp [Ledger.record]) (by simp [Ledger.record])
      (by simp [Ledger.record]) (by simp [Ledger.record])

theorem stage_of_txFd {tx : TxPc} {fd : ℤ} (h : txFd tx = some fd) : stage tx = .processing := by
  cases tx <;> simp_all [txFd, stage]

theorem books_tx {s s' : State} (h : Books s) (ht : Token s) (e : TxEffect s s') : Books s' := by
  have hcalled := h.called
  have hreturned := h.returned
  cases e with
  | work hstage hstage' hfd hpending hsocket hsem hrx sends hlog =>
    obtain ⟨fd', -, hlog⟩ := hlog
    have hl : ledger s'.log = ledger s.log := by rw [hlog, ledger_sends]
    exact h.keep (by rw [hstage, hstage']) (by rw [hl]) (by rw [hl]) (by rw [hl]) (by rw [hl])
      (by rw [hl])
  | skip htx hsem => exact h
  | pend htx hsem =>
    rw [htx] at hcalled hreturned
    exact ⟨h.admitted, hcalled, hreturned⟩
  | call o htx hs =>
    obtain ⟨hsem, fd, request, hc⟩ := ht.client (by simp [htx, stage])
    rw [htx] at hcalled hreturned
    simp only [stage, or_true, if_true, List.append_nil] at hcalled
    refine ⟨?_, ?_, ?_⟩
    · simpa [Ledger.record] using h.admitted
    · simp [Ledger.record, stage, hcalled, clientFd, hc.current, hc.socket]
    · simpa [Ledger.record, stage, clientFd] using hreturned
  | pass htx hs =>
    obtain ⟨hsem, fd, request, hc⟩ := ht.client (by rcases htx with htx | htx <;> simp [htx, stage])
    exact absurd (hc.socket ▸ hc.nonneg) (by omega)
  | ret sends hfd =>
    have hstage := stage_of_txFd hfd
    obtain ⟨hsem, fd, request, hc⟩ := ht.client (by simp [hstage])
    rw [hstage] at hcalled hreturned
    refine ⟨?_, ?_, ?_⟩
    · simpa [-List.append_assoc, Ledger.record] using h.admitted
    · simpa [-List.append_assoc, Ledger.record, stage, clientFd] using hcalled
    · simp only [reduceCtorEq, or_self, if_false, List.append_nil] at hreturned
      simp [-List.append_assoc, Ledger.record, stage, hreturned, clientFd, hc.current, hc.socket]
  | close htx hs =>
    rw [htx] at hcalled hreturned
    refine ⟨?_, ?_, ?_⟩
    · simpa [Ledger.record] using h.admitted
    · simpa [Ledger.record, stage, clientFd] using hcalled
    · simpa [Ledger.record, stage, clientFd] using hreturned
  | release htx =>
    obtain ⟨hsem, fd, request, hc⟩ := ht.client (by simp [htx, stage])
    obtain ⟨past, hadm, hpast⟩ := h.admitted
    rw [htx] at hcalled hreturned
    simp only [hc.current, Option.toList_some] at hadm
    refine ⟨⟨past ++ [(fd, request)], ?_, ?_⟩, ?_, ?_⟩
    · simp [Ledger.record, hadm]
    · simp [Ledger.record, hpast, hc.socket]
    · simpa [Ledger.record, stage, clientFd, hc.current, hc.socket] using hcalled
    · simpa [Ledger.record, stage, clientFd, hc.current, hc.socket] using hreturned

theorem mem_closed {log : List Event} {fd : ℤ} :
    fd ∈ (ledger log).closed ↔ .close fd ∈ log := by
  induction log using List.reverseRecOn with
  | nil => simp [ledger]
  | append_singleton log e ih =>
    cases e <;> simp [Ledger.record, ih]

/-- A closed connection is neither used nor closed again. -/
def Orderly (e e' : Event) : Prop :=
  ∀ fd, e = .close fd → e' ≠ .close fd ∧ ∀ bytes, e' ≠ .send fd bytes

theorem orderly_append {log log' : List Event} (h : log.Pairwise Orderly)
    (h' : log'.Pairwise Orderly)
    (hfd : ∀ fd ∈ (ledger log).closed, ∀ e ∈ log', e ≠ .close fd ∧ ∀ bytes, e ≠ .send fd bytes) :
    (log ++ log').Pairwise Orderly := by
  refine List.pairwise_append.mpr ⟨h, h', ?_⟩
  rintro e he e' he' fd rfl
  exact hfd fd (mem_closed.mpr he) e' he'

theorem orderly_close {log : List Event} (h : log.Pairwise Orderly) {fd : ℤ}
    (hfd : fd ∉ (ledger log).closed) : (log ++ [Event.close fd]).Pairwise Orderly := by
  apply orderly_append h (by simp)
  intro fd' hfd' e he
  obtain rfl : e = .close fd := by simpa using he
  refine ⟨?_, by simp⟩
  rintro ⟨⟩
  exact hfd hfd'

theorem orderly_sends {log : List Event} (h : log.Pairwise Orderly) {fd : ℤ}
    (sends : List (List UInt8)) (hfd : sends = [] ∨ fd ∉ (ledger log).closed) :
    (log ++ sends.map (Event.send fd)).Pairwise Orderly := by
  apply orderly_append h
  · refine List.pairwise_map.mpr (List.pairwise_of_forall fun _ _ fd' hf ↦ ?_)
    simp at hf
  · intro fd' hfd' e he
    obtain ⟨bytes, hb, rfl⟩ := List.mem_map.mp he
    refine ⟨by simp, ?_⟩
    rintro bytes' ⟨⟩
    rcases hfd with rfl | hfd
    · simp at hb
    · exact hfd hfd'

/-- Every connection is with one of the tasks or closed. -/
structure Connections (s : State) : Prop where
  distinct : (ledger s.log).accepted.Nodup
  holding : ∀ fd, rxFd s.rx = some fd → 0 ≤ fd ∧ fd ∈ (ledger s.log).accepted ∧
    fd ∉ (ledger s.log).closed ∧ fd ∉ (ledger s.log).admitted.map Prod.fst
  accounted : ∀ fd ∈ (ledger s.log).accepted, rxFd s.rx = some fd ∨ fd ∈ (ledger s.log).closed ∨
    ∃ request, (ledger s.log).current = some (fd, request)
  known : ∀ fd, fd ∈ (ledger s.log).closed ∨ fd ∈ (ledger s.log).admitted.map Prod.fst →
    fd ∈ (ledger s.log).accepted
  current : ∀ fd request, (ledger s.log).current = some (fd, request) →
    (fd ∈ (ledger s.log).closed ↔ stage s.tx = .releasing)
  once : ((ledger s.log).admitted.map Prod.fst).Nodup
  answering : ∀ fd, txFd s.tx = some fd → fd = s.currentClientSocket
  orderly : s.log.Pairwise Orderly

theorem Books.mem_admitted {s : State} (h : Books s) {fd : ℤ} {request : QueryRequest}
    (hc : (ledger s.log).current = some (fd, request)) :
    fd ∈ (ledger s.log).admitted.map Prod.fst := by
  obtain ⟨past, hadm, -⟩ := h.admitted
  simp [hadm, hc]

theorem Connections.keep {s s' : State} (h : Connections s) (hrx : rxFd s'.rx = rxFd s.rx)
    (h₁ : (ledger s'.log).accepted = (ledger s.log).accepted)
    (h₂ : (ledger s'.log).closed = (ledger s.log).closed)
    (h₃ : (ledger s'.log).admitted = (ledger s.log).admitted)
    (h₄ : (ledger s'.log).current = (ledger s.log).current)
    (hstage : stage s'.tx = .releasing ↔ stage s.tx = .releasing)
    (hanswering : ∀ fd, txFd s'.tx = some fd → fd = s'.currentClientSocket)
    (horderly : s'.log.Pairwise Orderly) : Connections s' := by
  refine ⟨?_, ?_, ?_, ?_, ?_, ?_, hanswering, horderly⟩
  · exact h₁ ▸ h.distinct
  · rw [hrx, h₁, h₂, h₃]
    exact h.holding
  · rw [hrx, h₁, h₂, h₄]
    exact h.accounted
  · rw [h₁, h₂, h₃]
    exact h.known
  · rw [h₂, h₄, hstage]
    exact h.current
  · exact h₃ ▸ h.once

section Transitions

variable {s : State} {fd : ℤ} {request : QueryRequest}

theorem connections_accept (h : Connections s) (hrx : s.rx = .accept) (hfd : 0 ≤ fd)
    (hnew : fd ∉ (ledger s.log).accepted) :
    Connections { s with rx := .check fd, log := s.log ++ [.accept fd] } := by
  have hnot : ¬ (fd ∈ (ledger s.log).closed ∨ fd ∈ (ledger s.log).admitted.map Prod.fst) :=
    fun hk ↦ hnew (h.known fd hk)
  rw [not_or] at hnot
  refine ⟨?_, ?_, ?_, ?_, ?_, ?_, h.answering, ?_⟩
  · rw [ledger_snoc]
    exact h.distinct.append (List.nodup_singleton fd) (by simpa using hnew)
  · rintro fd' ⟨⟩
    simpa [Ledger.record, hfd] using hnot
  · intro fd' hfd'
    simp only [ledger_snoc, Ledger.record, List.mem_append, List.mem_singleton] at hfd' ⊢
    rcases hfd' with hfd' | rfl
    · rcases h.accounted fd' hfd' with hr | hr
      · simp [hrx, rxFd] at hr
      · exact .inr hr
    · exact .inl rfl
  · intro fd' hfd'
    simp only [ledger_snoc, Ledger.record, List.mem_append] at hfd' ⊢
    exact .inl (h.known fd' hfd')
  · simpa [Ledger.record] using h.current
  · simpa [Ledger.record] using h.once
  · exact orderly_append h.orderly (by simp) (by simp)

theorem connections_post (h : Connections s) (ht : Token s) (hrx : s.rx = .post fd request) :
    Connections
      { s with
        queryReadySem := s.queryReadySem + 1
        rx := .accept
        log := s.log ++ [.post fd request] } := by
  obtain ⟨hpos, hacc, hclosed, hadm⟩ := h.holding fd (by rw [hrx]; rfl)
  refine ⟨?_, ?_, ?_, ?_, ?_, ?_, h.answering, ?_⟩
  · simpa [Ledger.record] using h.distinct
  · rintro fd' ⟨⟩
  · intro fd' hfd'
    simp only [ledger_snoc, Ledger.record] at hfd' ⊢
    rcases h.accounted fd' hfd' with hr | hr | ⟨request', hr⟩
    · obtain rfl : fd = fd' := by simpa [hrx, rxFd] using hr
      exact .inr (.inr ⟨request, rfl⟩)
    · exact .inr (.inl hr)
    · exact absurd hr (by simp [(ht.posting hrx).1])
  · intro fd' hfd'
    simp only [ledger_snoc, Ledger.record, List.map_append, List.mem_append, List.map_cons,
      List.map_nil, List.mem_singleton] at hfd' ⊢
    rcases hfd' with hfd' | hfd' | rfl
    · exact h.known fd' (.inl hfd')
    · exact h.known fd' (.inr hfd')
    · exact hacc
  · intro fd' request' hcur
    simp only [ledger_snoc, Ledger.record, Option.some.injEq, Prod.mk.injEq] at hcur ⊢
    obtain ⟨rfl, -⟩ := hcur
    simp [hclosed, (ht.posting hrx).2]
  · rw [ledger_snoc]
    simp only [Ledger.record, List.map_append]
    exact h.once.append (List.nodup_singleton fd) (by simpa using hadm)
  · exact orderly_append h.orderly (by simp) (by simp)

theorem connections_refused (h : Connections s) (hb : Books s) (hrx : s.rx = .close fd) :
    Connections { s with rx := .accept, log := s.log ++ [.close fd] } := by
  obtain ⟨hpos, hacc, hclosed, hadm⟩ := h.holding fd (by rw [hrx]; rfl)
  refine ⟨?_, ?_, ?_, ?_, ?_, ?_, h.answering, ?_⟩
  · simpa [Ledger.record] using h.distinct
  · rintro fd' ⟨⟩
  · intro fd' hfd'
    simp only [ledger_snoc, Ledger.record, List.mem_append, List.mem_singleton] at hfd' ⊢
    rcases h.accounted fd' hfd' with hr | hr | hr
    · obtain rfl : fd = fd' := by simpa [hrx, rxFd] using hr
      exact .inr (.inl (.inr rfl))
    · exact .inr (.inl (.inl hr))
    · exact .inr (.inr hr)
  · intro fd' hfd'
    simp only [ledger_snoc, Ledger.record, List.mem_append, List.mem_singleton] at hfd' ⊢
    rcases hfd' with (hfd' | rfl) | hfd'
    · exact h.known fd' (.inl hfd')
    · exact hacc
    · exact h.known fd' (.inr hfd')
  · intro fd' request hcur
    have hne : fd' ≠ fd := by
      rintro rfl
      exact hadm (hb.mem_admitted (by simpa [Ledger.record] using hcur))
    simpa [Ledger.record, hne] using h.current fd' request (by simpa [Ledger.record] using hcur)
  · simpa [Ledger.record] using h.once
  · exact orderly_close h.orderly hclosed

theorem connections_closed (h : Connections s) (hb : Books s) (ht : Token s) (htx : s.tx = .close) :
    Connections { s with tx := .release, log := s.log ++ [.close s.currentClientSocket] } := by
  obtain ⟨hsem, fd, request, hc⟩ := ht.client (by simp [htx, stage])
  have hopen : fd ∉ (ledger s.log).closed := by
    rw [h.current fd request hc.current]
    simp [htx, stage]
  have hadm := hb.mem_admitted hc.current
  refine ⟨?_, ?_, ?_, ?_, ?_, ?_, by simp [txFd], ?_⟩
  · simpa [Ledger.record] using h.distinct
  · intro fd' hfd'
    obtain ⟨hpos, hacc, hclosed, hadm'⟩ := h.holding fd' hfd'
    have hne : fd' ≠ fd := fun he ↦ hadm' (he ▸ hadm)
    simp only [ledger_snoc, Ledger.record, List.mem_append, List.mem_singleton, hc.socket]
    exact ⟨hpos, hacc, not_or.mpr ⟨hclosed, hne⟩, hadm'⟩
  · intro fd' hfd'
    simp only [ledger_snoc, Ledger.record, List.mem_append] at hfd' ⊢
    rcases h.accounted fd' hfd' with hr | hr | hr
    · exact .inl hr
    · exact .inr (.inl (.inl hr))
    · exact .inr (.inr hr)
  · intro fd' hfd'
    simp only [ledger_snoc, Ledger.record, List.mem_append, List.mem_singleton,
      hc.socket] at hfd' ⊢
    rcases hfd' with (hfd' | rfl) | hfd'
    · exact h.known fd' (.inl hfd')
    · exact h.known _ (.inr hadm)
    · exact h.known fd' (.inr hfd')
  · intro fd' request' hcur
    obtain ⟨rfl, -⟩ : fd' = fd ∧ request' = request := by
      simpa [Ledger.record, hc.current, eq_comm] using hcur
    simp [Ledger.record, stage, hc.socket]
  · simpa [Ledger.record] using h.once
  · exact orderly_close h.orderly (hc.socket.symm ▸ hopen)

theorem connections_released (h : Connections s) (ht : Token s) (htx : s.tx = .release) :
    Connections
      { s with
        currentClientSocket := -1
        tx := .pend
        log := s.log ++ [.release s.currentClientSocket] } := by
  obtain ⟨hsem, fd, request, hc⟩ := ht.client (by simp [htx, stage])
  have hclosed : fd ∈ (ledger s.log).closed := by
    rw [h.current fd request hc.current, htx]
    rfl
  refine ⟨?_, ?_, ?_, ?_, ?_, ?_, by simp [txFd], ?_⟩
  · simpa [Ledger.record] using h.distinct
  · simpa [Ledger.record] using h.holding
  · intro fd' hfd'
    simp only [ledger_snoc, Ledger.record] at hfd' ⊢
    rcases h.accounted fd' hfd' with hr | hr | ⟨request', hr⟩
    · exact .inl hr
    · exact .inr (.inl hr)
    · obtain ⟨rfl, -⟩ : fd = fd' ∧ request = request' := by simpa [hc.current] using hr
      exact .inr (.inl hclosed)
  · simpa [Ledger.record] using h.known
  · simp [Ledger.record]
  · simpa [Ledger.record] using h.once
  · exact orderly_append h.orderly (by simp) (by simp)

end Transitions

theorem connections_rx {s s' : State} (h : Connections s) (hb : Books s) (ht : Token s)
    (hfresh : ∀ fd, s' = { s with rx := .check fd, log := s.log ++ [.accept fd] } →
      fd ∉ (ledger s.log).accepted) (e : RxEffect s s') : Connections s' := by
  cases e with
  | work hfd hfd' hside hside' hpending hsocket hsem htx sends hlog =>
    have hl : ledger s'.log = ledger s.log := by rw [hlog, ledger_sends]
    refine h.keep (hfd'.trans hfd.symm) (by rw [hl]) (by rw [hl]) (by rw [hl]) (by rw [hl])
      (by rw [htx]) ?_ ?_
    · rw [htx, hsocket]
      exact h.answering
    · rw [hlog]
      exact orderly_sends h.orderly sends (.inr (h.holding _ hfd).2.2.1)
  | skip hrx => exact h
  | enter fd hrx hs =>
    exact h.keep (by rw [hrx]; rfl) rfl rfl rfl rfl .rfl h.answering h.orderly
  | accept fd hrx hfd => exact connections_accept h hrx hfd (hfresh fd rfl)
  | assign fd parsed hrx =>
    refine h.keep (by rw [hrx]; rfl) rfl rfl rfl rfl .rfl ?_ h.orderly
    intro fd' hfd'
    obtain ⟨-, fd'', request, hc⟩ := ht.client (by simp [stage_of_txFd hfd'])
    exact absurd hc.outside (by simp [hrx, side])
  | post fd parsed hrx => exact connections_post h ht hrx
  | close fd hrx => exact connections_refused h hb hrx

theorem connections_tx {s s' : State} (h : Connections s) (hb : Books s) (ht : Token s)
    (e : TxEffect s s') : Connections s' := by
  cases e with
  | work hstage hstage' hfd hpending hsocket hsem hrx sends hlog =>
    obtain ⟨hsem', fd, request, hc⟩ := ht.client (by simp [hstage])
    obtain ⟨fd', hfd', hlog⟩ := hlog
    have hl : ledger s'.log = ledger s.log := by rw [hlog, ledger_sends]
    refine h.keep (by rw [hrx]) (by rw [hl]) (by rw [hl]) (by rw [hl]) (by rw [hl])
      (by rw [hstage, hstage']) ?_ ?_
    · intro fd'' hf
      rw [hsocket]
      rcases hfd with hfd | hfd
      · exact h.answering fd'' (hfd ▸ hf)
      · exact (Option.some.inj (hfd.symm.trans hf)).symm
    · rw [hlog]
      refine orderly_sends h.orderly sends (hfd'.imp id fun hf ↦ ?_)
      rw [h.answering fd' hf, hc.socket, h.current fd request hc.current]
      simp [hstage]
  | skip htx hsem => exact h
  | pend htx hsem =>
    exact h.keep rfl rfl rfl rfl rfl (by simp [htx, stage]) (by simp [txFd]) h.orderly
  | call o htx hs =>
    refine h.keep rfl ?_ ?_ ?_ ?_ (by simp [htx, stage]) (by simp [txFd])
      (orderly_append h.orderly (by simp) (by simp)) <;> simp [Ledger.record]
  | pass htx hs =>
    obtain ⟨hsem, fd, request, hc⟩ := ht.client (by rcases htx with htx | htx <;> simp [htx, stage])
    exact absurd (hc.socket ▸ hc.nonneg) (by omega)
  | @ret body sends fd' hfd =>
    have hstage := stage_of_txFd hfd
    obtain ⟨hsem, fd, request, hc⟩ := ht.client (by simp [hstage])
    have hopen : fd' ∉ (ledger s.log).closed := by
      rw [h.answering fd' hfd, hc.socket, h.current fd request hc.current]
      simp [hstage]
    refine h.keep rfl ?_ ?_ ?_ ?_ (by rw [hstage]; simp [stage]) (by simp [txFd]) ?_
    · simp [-List.append_assoc, Ledger.record]
    · simp [-List.append_assoc, Ledger.record]
    · simp [-List.append_assoc, Ledger.record]
    · simp [-List.append_assoc, Ledger.record]
    · exact orderly_append (orderly_sends h.orderly sends (.inr hopen)) (by simp) (by simp)
  | close htx hs => exact connections_closed h hb ht htx
  | release htx => exact connections_released h ht htx

structure Invariant (s : State) : Prop where
  copying : Copying s
  token : Token s
  books : Books s
  connections : Connections s

theorem invariant_start : Invariant start := by
  refine ⟨?_, ?_, ?_, ?_⟩
  · rintro fd parsed todo ⟨⟩
  · exact .free rfl rfl rfl rfl (by simp [start, side])
  · exact ⟨⟨[], rfl, rfl⟩, rfl, rfl⟩
  · refine ⟨.nil, ?_, ?_, ?_, ?_, .nil, ?_, .nil⟩ <;> simp [start, ledger, rxFd, txFd]

theorem fresh_of_rxStep {s : State} {c : Choice} (hf : Fresh s (.rx, c)) {fd : ℤ}
    (h : rxStep c s = { s with rx := .check fd, log := s.log ++ [.accept fd] }) :
    fd ∉ (ledger s.log).accepted := by
  have hlog := congrArg State.log h
  have hrx := congrArg State.rx h
  unfold rxStep at hlog hrx
  cases hpc : s.rx with
  | accept =>
    by_cases hc : 0 ≤ c.fd
    · simp only [hpc, hc, if_true, RxPc.check.injEq] at hrx
      exact hrx ▸ hf rfl hpc
    · simp [hpc, hc] at hlog
  | answer a phase =>
    simp only [hpc] at hrx
    cases hr : (answerStep s.httpResponseBody a phase).1 <;> simp [hr] at hrx
  | check fd' =>
    by_cases hs : 0 ≤ s.currentClientSocket <;> simp [hpc, hs] at hlog
  | recv fd' =>
    by_cases hs : c.received = [] <;> simp [hpc, hs] at hlog
  | parse fd' buffer =>
    cases hp : parseRequestBody (requestBody buffer) <;> simp [hpc, hp] at hlog
  | copy fd' parsed todo => cases todo <;> simp [hpc] at hlog
  | post fd' parsed => simp [hpc] at hrx
  | close fd' => simp [hpc] at hrx

theorem invariant_step {s : State} {i : Task × Choice} (h : Invariant s) (hf : Fresh s i) :
    Invariant (step s i) := by
  obtain ⟨task, c⟩ := i
  cases task with
  | rx =>
    have e := rxStep_effect c s
    exact ⟨copying_rxStep h.copying c,
      token_rx h.token h.copying (fun fd hfd ↦ (h.connections.holding fd hfd).1) e,
      books_rx h.books h.token e,
      connections_rx h.connections h.books h.token (fun _ ↦ fresh_of_rxStep hf) e⟩
  | tx =>
    have e := txStep_effect c s
    exact ⟨copying_tx h.copying e, token_tx h.token e, books_tx h.books h.token e,
      connections_tx h.connections h.books h.token e⟩

theorem invariant_run {schedule : List (Task × Choice)} {s : State}
    (h : Run step Fresh start schedule s) : Invariant s :=
  h.invariant (fun _ _ ↦ invariant_step) invariant_start

section Safety

variable (s : State) (fd : ℤ)

def calls : ℕ := ((ledger s.log).called.map Prod.fst).count fd

def Announced : Prop :=
  s.queryReadySem = 1 ∧ s.tx = .pend ∧ calls s fd = 0 ∧ fd ∉ (ledger s.log).released

def InService : Prop :=
  s.queryReadySem = 0 ∧ s.tx ≠ .pend ∧ calls s fd = (if stage s.tx = .checking then 0 else 1) ∧
    fd ∉ (ledger s.log).released

def Finished : Prop :=
  fd ∈ (ledger s.log).released ∧ calls s fd = 1 ∧ (ledger s.log).returned.count fd = 1

/-- What the two tasks guarantee in every state. A request is unfinished until its
connection is released, and `rx_task` is done with a connection when it holds it no
longer. -/
structure Safe : Prop where
  one_unfinished :
    ((ledger s.log).admitted.filter (fun a ↦ a.1 ∉ (ledger s.log).released)).length ≤ 1
  stable : ∀ fd request, (fd, request) ∈ (ledger s.log).admitted → fd ∉ (ledger s.log).released →
    s.currentClientSocket = fd ∧ s.pendingRequest = request
  sem_le_one : s.queryReadySem ≤ 1
  served_once : ∀ fd request, (fd, request) ∈ (ledger s.log).admitted →
    Announced s fd ∨ InService s fd ∨ Finished s fd
  closed_once : ∀ fd ∈ (ledger s.log).accepted, rxFd s.rx ≠ some fd →
    (fd ∈ (ledger s.log).admitted.map Prod.fst → fd ∈ (ledger s.log).released) →
    (ledger s.log).closed.count fd = 1
  closed_le_one : ∀ fd, (ledger s.log).closed.count fd ≤ 1
  silent_after_close : ∀ past fd future, s.log = past ++ .close fd :: future →
    ∀ bytes, .send fd bytes ∉ future

end Safety

theorem Books.admitted_fds {s : State} (h : Books s) :
    (ledger s.log).admitted.map Prod.fst =
      (ledger s.log).released ++ clientFd (ledger s.log) := by
  obtain ⟨past, hadm, hpast⟩ := h.admitted
  rw [hadm, List.map_append, hpast, clientFd]
  cases (ledger s.log).current <;> rfl

theorem Books.unfinished {s : State} (h : Books s) {fd : ℤ} {request : QueryRequest}
    (hmem : (fd, request) ∈ (ledger s.log).admitted) (hrel : fd ∉ (ledger s.log).released) :
    (ledger s.log).current = some (fd, request) := by
  obtain ⟨past, hadm, hpast⟩ := h.admitted
  rw [hadm, List.mem_append] at hmem
  rcases hmem with hmem | hmem
  · exact absurd (hpast ▸ List.mem_map_of_mem hmem) hrel
  · simpa using hmem

theorem closed_nodup {log : List Event} (h : log.Pairwise Orderly) : (ledger log).closed.Nodup := by
  induction log using List.reverseRecOn with
  | nil => exact .nil
  | append_singleton log e ih =>
    obtain ⟨hlog, -, he⟩ := List.pairwise_append.mp h
    have ih := ih hlog
    cases e with
    | close fd =>
      rw [ledger_snoc]
      refine ih.append (List.nodup_singleton fd) ?_
      intro fd' hfd' hmem
      obtain rfl : fd' = fd := by simpa using hmem
      exact (he _ (mem_closed.mp hfd') _ (by simp) fd' rfl).1 rfl
    | _ => simpa [Ledger.record] using ih

theorem Invariant.served {s : State} (h : Invariant s) {fd : ℤ} {request : QueryRequest}
    (hmem : (fd, request) ∈ (ledger s.log).admitted) :
    Announced s fd ∨ InService s fd ∨ Finished s fd := by
  have hfds := h.books.admitted_fds
  have hnodup := h.connections.once
  rw [hfds] at hnodup
  have hcalled := h.books.called
  have hreturned := h.books.returned
  by_cases hrel : fd ∈ (ledger s.log).released
  · have hout : fd ∉ clientFd (ledger s.log) :=
      fun hc ↦ (List.disjoint_of_nodup_append hnodup) hrel hc
    have hone : (ledger s.log).released.count fd = 1 :=
      List.count_eq_one_of_mem hnodup.of_append_left hrel
    refine .inr (.inr ⟨hrel, ?_, ?_⟩)
    · rw [calls, hcalled, List.count_append, hone]
      split_ifs <;> simp [List.count_eq_zero.mpr hout]
    · rw [hreturned, List.count_append, hone]
      split_ifs <;> simp [List.count_eq_zero.mpr hout]
  · have hcur := h.books.unfinished hmem hrel
    have hcount : calls s fd =
        if stage s.tx = .waiting ∨ stage s.tx = .checking then 0 else 1 := by
      rw [calls, hcalled, List.count_append, List.count_eq_zero.mpr hrel, clientFd, hcur]
      split_ifs <;> simp
    cases h.token with
    | free h₁ _ _ _ _ => simp [hcur] at h₁
    | assigned _ _ h₁ _ _ _ _ _ _ => simp [hcur] at h₁
    | announced fd' request' hc hsem hstage =>
      have htx : s.tx = .pend := by
        cases htx : s.tx <;> simp [htx, stage] at hstage
        rfl
      exact .inl ⟨hsem, htx, by simpa [hstage] using hcount, hrel⟩
    | serving fd' request' hc hsem hstage =>
      refine .inr (.inl ⟨hsem, fun htx ↦ hstage (by rw [htx]; rfl), ?_, hrel⟩)
      simpa [hstage] using hcount

theorem Invariant.safe {s : State} (h : Invariant s) : Safe s := by
  have hclosed := closed_nodup h.connections.orderly
  refine ⟨?_, ?_, ?_, fun fd request ↦ h.served, ?_, ?_, ?_⟩
  · obtain ⟨past, hadm, hpast⟩ := h.books.admitted
    have hnone : past.filter (fun a ↦ a.1 ∉ (ledger s.log).released) = [] := by
      rw [List.filter_eq_nil_iff]
      intro a ha
      simp [← hpast, List.mem_map_of_mem ha]
    rw [hadm, List.filter_append, hnone, List.nil_append]
    refine (List.length_filter_le _ _).trans ?_
    cases (ledger s.log).current <;> simp
  · intro fd request hmem hrel
    have hcur := h.books.unfinished hmem hrel
    have hclient {fd' : ℤ} {request' : QueryRequest} (hc : Client s fd' request') :
        s.currentClientSocket = fd ∧ s.pendingRequest = request := by
      obtain ⟨rfl, rfl⟩ : fd = fd' ∧ request = request' := by
        simpa [hcur] using hc.current
      exact ⟨hc.socket, hc.pending⟩
    cases h.token with
    | free h₁ _ _ _ _ => simp [hcur] at h₁
    | assigned _ _ h₁ _ _ _ _ _ _ => simp [hcur] at h₁
    | announced _ _ hc _ _ => exact hclient hc
    | serving _ _ hc _ _ => exact hclient hc
  · cases h.token <;> omega
  · intro fd hacc hrx hdone
    refine List.count_eq_one_of_mem hclosed ?_
    rcases h.connections.accounted fd hacc with hr | hr | ⟨request, hr⟩
    · exact absurd hr hrx
    · exact hr
    · have hmem := h.books.mem_admitted hr
      have hfds := h.books.admitted_fds ▸ h.connections.once
      exact absurd (hdone hmem) (fun hrel ↦ (List.disjoint_of_nodup_append hfds) hrel
        (by simp [clientFd, hr]))
  · exact List.nodup_iff_count_le_one.mp hclosed
  · intro past fd future hlog bytes hmem
    have horderly := hlog ▸ h.connections.orderly
    obtain ⟨-, hrest, -⟩ := List.pairwise_append.mp horderly
    exact ((List.pairwise_cons.mp hrest).1 _ hmem fd rfl).2 bytes rfl

theorem tasks_safe {schedule : List (Task × Choice)} {s : State}
    (h : Run step Fresh start schedule s) : Safe s := (invariant_run h).safe

def someChoice (fd : ℤ) : Choice :=
  ⟨fd, CString.ascii "\r\n\r\nTABLE=T\nSQL=SELECT *\n", ⟨none, 0, [], 0, 0⟩⟩

/-- One client is admitted, a second one is refused while the first is served. -/
def twoClients : List (Task × Choice) :=
  List.replicate 11 (.rx, someChoice 3) ++ List.replicate 3 (.tx, someChoice 0) ++
    List.replicate 7 (.rx, someChoice 4) ++ List.replicate 8 (.tx, someChoice 0)

theorem two_clients_safe : Run step Fresh start twoClients (twoClients.foldl step start) ∧
    (ledger (twoClients.foldl step start).log).closed = [4, 3] ∧
    Safe (twoClients.foldl step start) := by
  have h : Run step Fresh start twoClients (twoClients.foldl step start) := by decide +kernel
  exact ⟨h, by decide +kernel, tasks_safe h⟩

end FpgaDatabase.Firmware.Admission
