import FpgaDatabase.Firmware.Admission

namespace FpgaDatabase.Firmware.Replies

open CString Request Table Compile Response Tasks Admission Library.Execution

def writesBody : RxPc → Bool
  | .answer _ (.format _) => true
  | _ => false

def building : TxPc → Bool
  | .build _ _ _ k _ => 0 < k
  | .answer _ (.format _) => false
  | .answer _ _ => true
  | _ => false

/-- A step that does not write `http_response_body` under the hands of `tx_task`. -/
def Undisturbed (s : State) (i : Task × Choice) : Prop :=
  Fresh s i ∧ (i.1 = .rx → writesBody s.rx = true → building s.tx = false)

instance (s : State) (i : Task × Choice) : Decidable (Undisturbed s i) :=
  inferInstanceAs (Decidable (Fresh s i ∧
    (i.1 = .rx → writesBody s.rx = true → building s.tx = false)))

/-- Nothing but the answer to its own request is sent to a client. -/
def Unmixed (s : State) : Prop :=
  ∀ fd request, (fd, request) ∈ (ledger s.log).admitted →
    (fd ∉ (ledger s.log).called.map Prod.fst → sentOn fd s.log = []) ∧
    ∀ o, (fd, o) ∈ (ledger s.log).called →
      sentOn fd s.log <+: (reply request o).sends ∧
      (fd ∈ (ledger s.log).returned → sentOn fd s.log = (reply request o).sends)

section Sent

variable {fd : ℤ} {log : List Event}

theorem sentOn_snoc {e : Event} (h : ∀ bytes, e ≠ .send fd bytes) :
    sentOn fd (log ++ [e]) = sentOn fd log := by
  cases e with
  | send fd' bytes =>
    have hne : fd' ≠ fd := fun he ↦ h bytes (he ▸ rfl)
    simp [sentOn, hne]
  | _ => simp [sentOn]

theorem sentOn_own (sends : List (List UInt8)) :
    sentOn fd (log ++ sends.map (.send fd)) = sentOn fd log ++ sends := by
  induction sends generalizing log with
  | nil => simp
  | cons bytes sends ih =>
    rw [List.map_cons, List.append_cons, ih]
    simp [sentOn]

theorem sentOn_other {fd' : ℤ} (hne : fd' ≠ fd) (sends : List (List UInt8)) :
    sentOn fd (log ++ sends.map (.send fd')) = sentOn fd log := by
  induction sends generalizing log with
  | nil => simp
  | cons bytes sends ih =>
    rw [List.map_cons, List.append_cons, ih, sentOn_snoc]
    rintro bytes' ⟨⟩
    exact hne rfl

end Sent

structure Progress (body : List UInt8) (texts : List (List UInt8)) (k offset : ℕ) : Prop where
  offset_eq : offset = (texts.take k).flatten.length
  fits : offset < body.length
  written : 0 < k → Holds body (texts.take k).flatten

/-- What `tx_task` has ready at each point of `process_request`, and what it has sent. -/
def Promise (request : QueryRequest) (o : Outside) (fd : ℤ) (body : List UInt8)
    (sent : List (List UInt8)) : TxPc → Prop
  | .pend | .check => sent = []
  | .load o' => o' = o ∧ sent = []
  | .notFound => reply request o = errorReply 404 "Not Found" (notFoundMessage request.table) ∧
      sent = []
  | .compile o' table => o' = o ∧ o.file.bind loadTable = some table ∧ sent = []
  | .feed o' table => o' = o ∧ o.file.bind loadTable = some table ∧
      (compileAndSendInstructions request table).error = none ∧ sent = []
  | .build o' schema captured k offset => o' = o ∧
      reply request o = successReply request schema captured o ∧ sent = [] ∧
      (aggregate request schema o = none →
        Progress body (successTexts request schema captured) k offset)
  | .answer a (.format message) => a.fd = fd ∧
      reply request o = errorReply a.statusCode a.statusText message ∧ sent = []
  | .answer a .measure => a.fd = fd ∧ a.statusCode = (reply request o).statusCode ∧
      a.statusText = (reply request o).statusText ∧ Holds body (reply request o).body ∧ sent = []
  | .answer a (.sendHeader n) => a.fd = fd ∧ a.statusCode = (reply request o).statusCode ∧
      a.statusText = (reply request o).statusText ∧ Holds body (reply request o).body ∧
      n = (reply request o).body.length ∧ sent = []
  | .answer a (.sendBody n) => a.fd = fd ∧ Holds body (reply request o).body ∧
      n = (reply request o).body.length ∧
      sent = [header (reply request o).statusCode (reply request o).statusText n]
  | .close | .release => sent = (reply request o).sends

theorem Promise.rewrite {request : QueryRequest} {o : Outside} {fd : ℤ} {body body' : List UInt8}
    {sent : List (List UInt8)} {tx : TxPc} (h : Promise request o fd body sent tx)
    (hb : building tx = false) (hl : body'.length = body.length) :
    Promise request o fd body' sent tx := by
  cases tx with
  | build o' schema captured k offset =>
    obtain ⟨h₁, h₂, h₃, h₄⟩ := h
    have hk : k = 0 := by simpa [building] using hb
    refine ⟨h₁, h₂, h₃, fun ha ↦ ?_⟩
    have hp := h₄ ha
    exact ⟨hp.offset_eq, hl ▸ hp.fits, by omega⟩
  | answer a phase =>
    cases phase with
    | format message => exact h
    | measure => simp [building] at hb
    | sendHeader n => simp [building] at hb
    | sendBody n => simp [building] at hb
  | _ => exact h

section Building

variable {body : List UInt8} {texts : List (List UInt8)} {k offset : ℕ} {text : List UInt8}

theorem Progress.take_eq (h : Progress body texts k offset) :
    body.take offset = (texts.take k).flatten := by
  rcases Nat.eq_zero_or_pos k with rfl | hk
  · simp [h.offset_eq]
  · rw [h.offset_eq]
    exact (h.written hk).take

theorem flatten_take_succ (hk : texts[k]? = some text) :
    (texts.take (k + 1)).flatten = (texts.take k).flatten ++ text := by
  rw [List.take_add_one, hk]
  simp

theorem Progress.append (h : Progress body texts k offset) (hnul : ∀ t ∈ texts, 0 ∉ t)
    (hk : texts[k]? = some text) {offset' : ℕ} (ha : (appendf body offset text).2 = some offset') :
    Progress (appendf body offset text).1 texts (k + 1) offset' := by
  have hfits := h.fits
  have hpre : 0 ∉ body.take offset := by
    rw [h.take_eq]
    intro hm
    obtain ⟨t, ht, h₀⟩ := List.mem_flatten.mp hm
    exact hnul t (List.mem_of_mem_take ht) h₀
  rw [appendf, if_neg (by omega)] at ha ⊢
  simp only at ha ⊢
  split_ifs at ha with hlen
  obtain rfl := Option.some.inj ha
  have hholds := snprintf_holds hpre (hnul text (List.mem_of_getElem? hk))
  rw [List.take_of_length_le (l := text) (by omega), h.take_eq, ← flatten_take_succ hk] at hholds
  refine ⟨?_, ?_, fun _ ↦ hholds⟩
  · rw [flatten_take_succ hk, List.length_append, ← h.offset_eq]
  · rw [snprintf_length (by omega)]
    omega

theorem Progress.too_long (h : Progress body texts k offset) (hk : texts[k]? = some text)
    (ha : (appendf body offset text).2 = none) : body.length ≤ texts.flatten.length := by
  have hfits := h.fits
  rw [appendf, if_neg (by omega)] at ha
  simp only at ha
  split_ifs at ha with hlen
  have hsplit : texts.flatten = (texts.take (k + 1)).flatten ++ (texts.drop (k + 1)).flatten := by
    rw [← List.flatten_append, List.take_append_drop]
  rw [hsplit, flatten_take_succ hk, List.length_append, List.length_append, ← h.offset_eq]
  omega

theorem Progress.finish (h : Progress body texts k offset) (hne : texts ≠ [])
    (hk : texts[k]? = none) : Holds body texts.flatten ∧ texts.flatten.length < body.length := by
  have hlen : texts.length ≤ k := List.getElem?_eq_none_iff.mp hk
  have hpos : 0 < k := Nat.lt_of_lt_of_le (List.length_pos_iff.mpr hne) hlen
  have htake := List.take_of_length_le hlen
  refine ⟨htake ▸ h.written hpos, ?_⟩
  rw [← htake, ← h.offset_eq]
  exact h.fits

end Building

section Step

variable {s : State} {fd : ℤ} {request : QueryRequest} {o : Outside} {sent : List (List UInt8)}

theorem promise_measure {a : Answer} {body text : List UInt8}
    (hreply : reply request o = ⟨a.statusCode, a.statusText, text⟩) (hfd : a.fd = fd)
    (hholds : Holds body text) (hsent : sent = []) :
    Promise request o fd body sent (.answer a .measure) := by
  refine ⟨hfd, ?_, ?_, ?_, hsent⟩ <;> rw [hreply]
  exact hholds

theorem promise_build {schema : TableSchema} {captured : List UInt8} {k offset : ℕ}
    (hc : Client s fd request) (hl : s.httpResponseBody.length = maxResponseBodySize)
    (h : Promise request o fd s.httpResponseBody sent (.build o schema captured k offset)) :
    Promise request o fd (buildStep s o schema captured k offset).httpResponseBody sent
      (buildStep s o schema captured k offset).tx := by
  obtain ⟨-, hreply, hsent, hprogress⟩ := h
  unfold buildStep
  rw [hc.pending]
  cases hagg : aggregate request schema o with
  | some text =>
    have hsuccess : reply request o = ⟨200, "OK", text.take (maxResponseBodySize - 1)⟩ := by
      rw [hreply, successReply, hagg]
    have hholds : Holds (snprintf s.httpResponseBody 0 text) _ :=
      snprintf_holds (by simp) (aggregate_nul hagg)
    rw [List.take_zero, List.nil_append, hl] at hholds
    exact promise_measure hsuccess hc.socket hholds hsent
  | none =>
    have hp := hprogress hagg
    simp only
    cases hk : (successTexts request schema captured)[k]? with
    | none =>
      obtain ⟨hholds, hfits⟩ := hp.finish (by simp [successTexts]) hk
      have hsuccess : reply request o =
          ⟨200, "OK", (successTexts request schema captured).flatten⟩ := by
        rw [hreply, successReply, hagg]
        exact if_pos (hl ▸ hfits)
      exact promise_measure hsuccess hc.socket hholds hsent
    | some text =>
      simp only
      cases ha : (appendf s.httpResponseBody offset text).2 with
      | some offset' =>
        exact ⟨rfl, hreply, hsent, fun _ ↦ hp.append (successTexts_nul _ _ _) hk ha⟩
      | none =>
        have hlong := hp.too_long hk ha
        refine ⟨hc.socket, ?_, hsent⟩
        rw [hreply, successReply, hagg]
        exact if_neg (by omega)

theorem promise_answer {a : Answer} {phase : Phase}
    (hl : s.httpResponseBody.length = maxResponseBodySize)
    (h : Promise request o fd s.httpResponseBody sent (.answer a phase)) :
    Promise request o fd (answerStep s.httpResponseBody a phase).2.1
      (sent ++ (answerStep s.httpResponseBody a phase).2.2.filterMap
        (fun | .send _ bytes => some bytes | _ => none))
      (match (answerStep s.httpResponseBody a phase).1 with
        | some phase => .answer a phase
        | none => .close) := by
  cases phase with
  | format message =>
    obtain ⟨hfd, hreply, hsent⟩ := h
    have hholds : Holds (snprintf s.httpResponseBody 0 (errorText message)) _ :=
      snprintf_holds (by simp) (errorText_nul message)
    rw [List.take_zero, List.nil_append, hl] at hholds
    exact promise_measure hreply hfd hholds (by simpa [answerStep] using hsent)
  | measure =>
    obtain ⟨hfd, hcode, htext, hholds, hsent⟩ := h
    exact ⟨hfd, hcode, htext, hholds, hholds.strlen, by simpa [answerStep] using hsent⟩
  | sendHeader n =>
    obtain ⟨hfd, hcode, htext, hholds, hn, hsent⟩ := h
    exact ⟨hfd, hholds, hn, by simp [answerStep, hsent, hcode, htext]⟩
  | sendBody n =>
    obtain ⟨hfd, hholds, hn, hsent⟩ := h
    simp only [answerStep, Promise, Reply.sends, hsent, hn]
    split_ifs
    · simp [hholds.take]
    · rfl

theorem promise_tx (hc : Client s fd request)
    (hl : s.httpResponseBody.length = maxResponseBodySize) (hstage : stage s.tx = .processing)
    (h : Promise request o fd s.httpResponseBody (sentOn fd s.log) s.tx) (c : Choice) :
    Promise request o fd (txStep c s).httpResponseBody (sentOn fd (txStep c s).log)
      (txStep c s).tx := by
  have hbase : userHwBase ≠ 0 := by decide
  unfold txStep
  cases htx : s.tx with
  | load o' =>
    rw [htx] at h
    obtain ⟨rfl, hsent⟩ := h
    simp only [if_neg hbase]
    cases hload : o'.file.bind loadTable with
    | none => exact ⟨by rw [reply, if_neg hbase, hload], hsent⟩
    | some table => exact ⟨rfl, hload, hsent⟩
  | notFound =>
    rw [htx] at h
    refine ⟨hc.socket, ?_, h.2⟩
    rw [hc.pending]
    exact h.1
  | compile o' table =>
    rw [htx] at h
    obtain ⟨rfl, hload, hsent⟩ := h
    simp only [hc.pending]
    cases hcompile : (compileAndSendInstructions request table).error with
    | some message =>
      refine ⟨hc.socket, ?_, hsent⟩
      rw [reply, if_neg hbase, hload]
      simp only [hcompile]
    | none => exact ⟨rfl, hload, hcompile, hsent⟩
  | feed o' table =>
    rw [htx] at h
    obtain ⟨rfl, hload, hcompile, hsent⟩ := h
    simp only
    cases hfeed : feedResult o' table with
    | none =>
      refine ⟨hc.socket, ?_, hsent⟩
      rw [reply, if_neg hbase, hload]
      simp only [hcompile, hfeed]
    | some captured =>
      refine ⟨rfl, ?_, hsent, fun _ ↦ ⟨rfl, by simp [hl, maxResponseBodySize], by omega⟩⟩
      rw [reply, if_neg hbase, hload]
      simp only [hcompile, hfeed]
  | build o' schema captured k offset =>
    rw [htx] at h
    obtain rfl : o' = o := h.1
    have hlog : (buildStep s o' schema captured k offset).log = s.log := by
      unfold buildStep
      split
      · rfl
      · split <;> rfl
    simp only [hlog]
    exact promise_build hc hl h
  | answer a phase =>
    rw [htx] at h
    have hfd : a.fd = fd := by
      cases phase <;> exact h.1
    have hstep := promise_answer hl h
    obtain ⟨sends, hsends⟩ := answerStep_sends s.httpResponseBody a phase
    have hsent : sentOn fd (s.log ++ (answerStep s.httpResponseBody a phase).2.2) =
        sentOn fd s.log ++ (answerStep s.httpResponseBody a phase).2.2.filterMap
          (fun | .send _ bytes => some bytes | _ => none) := by
      rw [hsends, hfd, sentOn_own]
      simp [List.filterMap_map]
    rw [← hsent] at hstep
    simp only
    cases hnext : (answerStep s.httpResponseBody a phase).1 with
    | some phase' =>
      rw [hnext] at hstep
      simpa using hstep
    | none =>
      rw [hnext] at hstep
      simp only at hstep ⊢
      rwa [sentOn_snoc (by simp)]
  | _ => simp [htx, stage] at hstage

end Step

def unanswered : RxPc → Option ℤ
  | .check fd | .recv fd | .parse fd _ | .copy fd _ _ | .post fd _ => some fd
  | _ => none

theorem rxFd_of_unanswered {rx : RxPc} {fd : ℤ} (h : unanswered rx = some fd) :
    rxFd rx = some fd := by
  cases rx <;> simp_all [unanswered, rxFd]

theorem unanswered_rxStep {c : Choice} {s : State} {fd : ℤ}
    (h : unanswered (rxStep c s).rx = some fd) :
    (rxStep c s = { s with rx := .check fd, log := s.log ++ [.accept fd] }) ∨
      (unanswered s.rx = some fd ∧ (rxStep c s).log = s.log) := by
  unfold rxStep at h ⊢
  cases hrx : s.rx with
  | accept =>
    by_cases hc : 0 ≤ c.fd
    · simp only [hrx, hc, if_true, unanswered, Option.some.injEq] at h ⊢
      exact .inl (by rw [h])
    · simp [hrx, hc, unanswered] at h
  | check fd' =>
    by_cases hs : 0 ≤ s.currentClientSocket
    · simp [hrx, hs, unanswered] at h
    · simpa [hrx, hs, unanswered] using h
  | recv fd' =>
    by_cases hs : c.received = []
    · simp [hrx, hs, unanswered] at h
    · simpa [hrx, hs, unanswered] using h
  | parse fd' buffer =>
    cases hp : parseRequestBody (requestBody buffer) with
    | none => simp [hrx, hp, unanswered] at h
    | some parsed => simpa [hrx, hp, unanswered] using h
  | copy fd' parsed todo =>
    cases todo <;> simpa [hrx, unanswered] using h
  | post fd' parsed => simp [hrx, unanswered] at h
  | answer a phase =>
    simp only [hrx] at h
    cases hr : (answerStep s.httpResponseBody a phase).1 <;> simp [hr, unanswered] at h
  | close fd' => simp [hrx, unanswered] at h

theorem rxStep_body {c : Choice} {s : State} (h : writesBody s.rx = false) :
    (rxStep c s).httpResponseBody = s.httpResponseBody := by
  unfold rxStep
  cases hrx : s.rx with
  | answer a phase =>
    cases phase with
    | format message => simp [hrx, writesBody] at h
    | _ => rfl
  | accept =>
    simp only
    split_ifs <;> rfl
  | check fd =>
    simp only
    split_ifs <;> rfl
  | recv fd =>
    simp only
    split_ifs <;> rfl
  | parse fd buffer =>
    simp only
    split <;> rfl
  | copy fd parsed todo => cases todo <;> rfl
  | post fd parsed => rfl
  | close fd => rfl

theorem answerStep_length {body : List UInt8} (h : body.length = maxResponseBodySize) (a : Answer)
    (phase : Phase) : (answerStep body a phase).2.1.length = maxResponseBodySize := by
  cases phase with
  | format message => exact (snprintf_length (by rw [h]; decide) _).trans h
  | _ => exact h

theorem rxStep_length {c : Choice} {s : State}
    (h : s.httpResponseBody.length = maxResponseBodySize) :
    (rxStep c s).httpResponseBody.length = maxResponseBodySize := by
  cases hw : writesBody s.rx with
  | false => rw [rxStep_body hw, h]
  | true =>
    unfold rxStep
    cases hrx : s.rx with
    | answer a phase => exact answerStep_length h a phase
    | _ => simp [hrx, writesBody] at hw

theorem txStep_length {c : Choice} {s : State}
    (h : s.httpResponseBody.length = maxResponseBodySize) :
    (txStep c s).httpResponseBody.length = maxResponseBodySize := by
  unfold txStep
  cases htx : s.tx with
  | answer a phase => exact answerStep_length h a phase
  | build o schema captured k offset =>
    simp only [buildStep]
    split
    · exact (snprintf_length (by rw [h]; decide) _).trans h
    · split
      · exact h
      · exact (appendf_length _ _ _).trans h
  | pend =>
    simp only
    split_ifs <;> exact h
  | check =>
    simp only
    split_ifs <;> exact h
  | load o =>
    simp only
    split_ifs
    · exact h
    · split <;> exact h
  | notFound => exact h
  | compile o table =>
    simp only
    split <;> exact h
  | feed o table =>
    simp only
    split <;> exact h
  | close =>
    simp only
    split_ifs <;> exact h
  | release => exact h

theorem sentOn_rx {s s' : State} (e : RxEffect s s') {fd : ℤ} (hfd : rxFd s.rx ≠ some fd) :
    sentOn fd s'.log = sentOn fd s.log := by
  cases e with
  | work hf _ _ _ _ _ _ _ sends hlog =>
    rw [hlog, sentOn_other]
    rintro rfl
    exact hfd hf
  | skip hrx => rfl
  | accept fd' hrx _ => exact sentOn_snoc (by simp)
  | enter fd' hrx hs => rfl
  | assign fd' parsed hrx => rfl
  | post fd' parsed hrx => exact sentOn_snoc (by simp)
  | close fd' hrx => exact sentOn_snoc (by simp)

theorem sentOn_tx {s s' : State} (hc : Connections s) (e : TxEffect s s') {fd : ℤ}
    (hfd : fd ≠ s.currentClientSocket) : sentOn fd s'.log = sentOn fd s.log := by
  have hother {fd' : ℤ} (hf : txFd s.tx = some fd') : fd' ≠ fd := by
    rintro rfl
    exact hfd (hc.answering fd' hf)
  cases e with
  | work _ _ _ _ _ _ _ sends hlog =>
    obtain ⟨fd', hf, hlog⟩ := hlog
    rw [hlog]
    rcases hf with rfl | hf
    · simp
    · exact sentOn_other (hother hf) sends
  | skip htx hsem => rfl
  | pend htx hsem => rfl
  | call o htx hs => exact sentOn_snoc (by simp)
  | pass htx hs => rfl
  | ret sends hf => exact (sentOn_snoc (by simp)).trans (sentOn_other (hother hf) sends)
  | close htx hs => exact sentOn_snoc (by simp)
  | release htx => exact sentOn_snoc (by simp)

/-- What has been sent, and what is in the buffer for the current client. -/
structure Mail (s : State) : Prop where
  length : s.httpResponseBody.length = maxResponseBodySize
  unknown : ∀ fd, fd ∉ (ledger s.log).accepted → sentOn fd s.log = []
  untouched : ∀ fd, unanswered s.rx = some fd → sentOn fd s.log = []
  waiting : ∀ fd request, (ledger s.log).current = some (fd, request) →
    fd ∉ (ledger s.log).called.map Prod.fst → sentOn fd s.log = []
  current : ∀ fd request o, (ledger s.log).current = some (fd, request) →
    (fd, o) ∈ (ledger s.log).called →
    Promise request o fd s.httpResponseBody (sentOn fd s.log) s.tx
  past : ∀ fd request o, (fd, request) ∈ (ledger s.log).admitted → fd ∈ (ledger s.log).released →
    (fd, o) ∈ (ledger s.log).called → sentOn fd s.log = (reply request o).sends

theorem mail_start : Mail start := by
  refine ⟨List.length_replicate, ?_, ?_, ?_, ?_, ?_⟩ <;> simp [start, ledger, sentOn, unanswered]

theorem mem_admitted_of_called {s : State} (hb : Books s) {fd : ℤ} {o : Outside}
    (h : (fd, o) ∈ (ledger s.log).called) : fd ∈ (ledger s.log).admitted.map Prod.fst := by
  have hmem : fd ∈ (ledger s.log).called.map Prod.fst := List.mem_map_of_mem h
  rw [hb.called] at hmem
  rw [hb.admitted_fds]
  split_ifs at hmem
  · exact List.mem_append_left _ (by simpa using hmem)
  · exact hmem

theorem rx_ledger {s s' : State} (e : RxEffect s s') :
    s'.tx = s.tx ∧ (ledger s'.log).called = (ledger s.log).called ∧
    (ledger s'.log).released = (ledger s.log).released ∧
    (ledger s'.log).returned = (ledger s.log).returned ∧
    (∀ fd ∈ (ledger s.log).accepted, fd ∈ (ledger s'.log).accepted) ∧
    (((ledger s'.log).admitted = (ledger s.log).admitted ∧
        (ledger s'.log).current = (ledger s.log).current) ∨
      ∃ fd parsed, s.rx = .post fd parsed ∧ (ledger s'.log).current = some (fd, parsed) ∧
        (ledger s'.log).admitted = (ledger s.log).admitted ++ [(fd, parsed)]) := by
  cases e with
  | work _ _ _ _ _ _ _ htx sends hlog =>
    rw [hlog, ledger_sends]
    exact ⟨htx, rfl, rfl, rfl, fun _ ↦ id, .inl ⟨rfl, rfl⟩⟩
  | skip hrx => exact ⟨rfl, rfl, rfl, rfl, fun _ ↦ id, .inl ⟨rfl, rfl⟩⟩
  | accept fd hrx hfd =>
    rw [ledger_snoc]
    exact ⟨rfl, rfl, rfl, rfl, fun _ ↦ List.mem_append_left _, .inl ⟨rfl, rfl⟩⟩
  | enter fd hrx hs => exact ⟨rfl, rfl, rfl, rfl, fun _ ↦ id, .inl ⟨rfl, rfl⟩⟩
  | assign fd parsed hrx => exact ⟨rfl, rfl, rfl, rfl, fun _ ↦ id, .inl ⟨rfl, rfl⟩⟩
  | post fd parsed hrx =>
    rw [ledger_snoc]
    exact ⟨rfl, rfl, rfl, rfl, fun _ ↦ id, .inr ⟨fd, parsed, hrx, rfl, rfl⟩⟩
  | close fd hrx =>
    rw [ledger_snoc]
    exact ⟨rfl, rfl, rfl, rfl, fun _ ↦ id, .inl ⟨rfl, rfl⟩⟩

theorem mail_rx {s : State} {c : Choice} (h : Mail s) (hi : Invariant s)
    (hu : Undisturbed s (.rx, c)) : Mail (rxStep c s) := by
  have e := rxStep_effect c s
  obtain ⟨htx, hcalled, hreleased, -, haccepted, hadm⟩ := rx_ledger e
  have hsent {fd : ℤ} (hfd : fd ∈ (ledger s.log).admitted.map Prod.fst) :
      sentOn fd (rxStep c s).log = sentOn fd s.log :=
    sentOn_rx e (fun hr ↦ (hi.connections.holding fd hr).2.2.2 hfd)
  have hpost {fd : ℤ} {parsed : QueryRequest} (hrx : s.rx = .post fd parsed) :
      sentOn fd (rxStep c s).log = [] ∧ fd ∉ (ledger s.log).admitted.map Prod.fst := by
    refine ⟨?_, (hi.connections.holding fd (by rw [hrx]; rfl)).2.2.2⟩
    have hlog : (rxStep c s).log = s.log ++ [.post fd parsed] := by rw [rxStep, hrx]
    rw [hlog, sentOn_snoc (by simp)]
    exact h.untouched fd (by rw [hrx]; rfl)
  refine ⟨rxStep_length h.length, ?_, ?_, ?_, ?_, ?_⟩
  · intro fd hfd
    have hnot : fd ∉ (ledger s.log).accepted := fun hm ↦ hfd (haccepted fd hm)
    rw [sentOn_rx e (fun hr ↦ hnot (hi.connections.holding fd hr).2.1)]
    exact h.unknown fd hnot
  · intro fd hfd
    rcases unanswered_rxStep hfd with hstep | ⟨hrx, hlog⟩
    · rw [hstep, sentOn_snoc (by simp)]
      exact h.unknown fd (fresh_of_rxStep hu.1 hstep)
    · rw [hlog]
      exact h.untouched fd hrx
  · intro fd request hcur hnot
    rcases hadm with ⟨-, hcur'⟩ | ⟨fd', parsed, hrx, hcur', -⟩
    · rw [hcur'] at hcur
      rw [hsent (hi.books.mem_admitted hcur)]
      exact h.waiting fd request hcur (hcalled ▸ hnot)
    · obtain ⟨rfl, -⟩ : fd' = fd ∧ parsed = request := by simpa [hcur'] using hcur
      exact (hpost hrx).1
  · intro fd request o hcur hmem
    rw [hcalled] at hmem
    rcases hadm with ⟨-, hcur'⟩ | ⟨fd', parsed, hrx, hcur', -⟩
    · rw [hcur'] at hcur
      have hp := h.current fd request o hcur hmem
      rw [hsent (hi.books.mem_admitted hcur), htx]
      cases hw : writesBody s.rx with
      | false => rwa [rxStep_body hw]
      | true => exact hp.rewrite (hu.2 rfl hw) ((rxStep_length h.length).trans h.length.symm)
    · obtain ⟨rfl, -⟩ : fd' = fd ∧ parsed = request := by simpa [hcur'] using hcur
      exact absurd (mem_admitted_of_called hi.books hmem) (hpost hrx).2
  · intro fd request o hmem hrel hcall
    rw [hcalled] at hcall
    have hold := mem_admitted_of_called hi.books hcall
    rw [hsent hold]
    rcases hadm with ⟨hadm', -⟩ | ⟨fd', parsed, hrx, -, hadm'⟩
    · exact h.past fd request o (hadm' ▸ hmem) (hreleased ▸ hrel) hcall
    · rw [hadm', List.mem_append] at hmem
      rcases hmem with hmem | hmem
      · exact h.past fd request o hmem (hreleased ▸ hrel) hcall
      · obtain ⟨rfl, -⟩ : fd = fd' ∧ request = parsed := by simpa using hmem
        exact absurd hold (hpost hrx).2

section Client

variable {s : State} {fd : ℤ} {request : QueryRequest}

theorem not_released (hi : Invariant s) (hcur : (ledger s.log).current = some (fd, request)) :
    fd ∉ (ledger s.log).released := by
  intro hrel
  have hnodup := hi.books.admitted_fds ▸ hi.connections.once
  exact (List.disjoint_of_nodup_append hnodup) hrel (by simp [clientFd, hcur])

theorem called_iff (hi : Invariant s) (hcur : (ledger s.log).current = some (fd, request)) :
    fd ∈ (ledger s.log).called.map Prod.fst ↔
      ¬ (stage s.tx = .waiting ∨ stage s.tx = .checking) := by
  rw [hi.books.called]
  split_ifs with h
  · simpa [h] using not_released hi hcur
  · simp [h, clientFd, hcur]

end Client

theorem mail_waiting {s s' : State} (h : Mail s) (hi : Invariant s)
    (hstage : stage s.tx = .waiting) (hrx : s'.rx = s.rx) (hlog : s'.log = s.log)
    (hbody : s'.httpResponseBody = s.httpResponseBody) : Mail s' := by
  refine ⟨hbody ▸ h.length, hlog ▸ h.unknown, ?_, hlog ▸ h.waiting, ?_, hlog ▸ h.past⟩
  · rw [hrx, hlog]
    exact h.untouched
  · rw [hlog]
    intro fd request o hcur hmem
    exact absurd (.inl hstage) ((called_iff hi hcur).mp (List.mem_map_of_mem hmem))

structure OnlyTo (fd₀ : ℤ) (s s' : State) : Prop where
  length : s'.httpResponseBody.length = maxResponseBodySize
  unknown : ∀ fd, fd ∉ (ledger s'.log).accepted → sentOn fd s'.log = []
  untouched : ∀ fd, unanswered s'.rx = some fd → sentOn fd s'.log = []
  sent : ∀ fd, fd ≠ fd₀ → sentOn fd s'.log = sentOn fd s.log

section Steps

variable {s s' : State} {fd₀ : ℤ} {r₀ : QueryRequest}

theorem onlyTo_tx (h : Mail s) (hi : Invariant s) (hc : Client s fd₀ r₀) (c : Choice) :
    OnlyTo fd₀ s (txStep c s) := by
  have e := txStep_effect c s
  have hadm := hi.books.mem_admitted hc.current
  have hsent {fd : ℤ} (hne : fd ≠ fd₀) : sentOn fd (txStep c s).log = sentOn fd s.log :=
    sentOn_tx hi.connections e (hc.socket ▸ hne)
  obtain ⟨hrx, haccepted⟩ := e.frame
  refine ⟨txStep_length (c := c) h.length, fun fd hfd ↦ ?_, fun fd hfd ↦ ?_, fun fd ↦ hsent⟩
  · rw [haccepted] at hfd
    have hne : fd ≠ fd₀ := fun he ↦ hfd (he ▸ hi.connections.known fd₀ (.inr hadm))
    rw [hsent hne]
    exact h.unknown fd hfd
  · rw [hrx] at hfd
    have hheld := hi.connections.holding fd (rxFd_of_unanswered hfd)
    have hne : fd ≠ fd₀ := fun he ↦ hheld.2.2.2 (he ▸ hadm)
    rw [hsent hne]
    exact h.untouched fd hfd

theorem Mail.released (h : Mail s) (hi : Invariant s) (ho : OnlyTo fd₀ s s')
    (hcur₀ : (ledger s.log).current = some (fd₀, r₀)) {fd : ℤ} {request : QueryRequest} {o : Outside}
    (hm : (fd, request) ∈ (ledger s.log).admitted) (hr : fd ∈ (ledger s.log).released)
    (hcall : (fd, o) ∈ (ledger s.log).called) : sentOn fd s'.log = (reply request o).sends := by
  have hne : fd ≠ fd₀ := fun he ↦ not_released hi hcur₀ (he ▸ hr)
  rw [ho.sent fd hne]
  exact h.past fd request o hm hr hcall

/-- A step of `tx_task` within a call or behind it keeps the account, if it keeps what its
own client is promised. -/
theorem Mail.keep (h : Mail s) (hi : Invariant s) (ho : OnlyTo fd₀ s s')
    (hcur₀ : (ledger s.log).current = some (fd₀, r₀))
    (hcalled : fd₀ ∈ (ledger s.log).called.map Prod.fst)
    (h₁ : (ledger s'.log).admitted = (ledger s.log).admitted)
    (h₂ : (ledger s'.log).called = (ledger s.log).called)
    (h₃ : (ledger s'.log).released = (ledger s.log).released)
    (h₄ : (ledger s'.log).current = (ledger s.log).current)
    (hpromise : ∀ o, (fd₀, o) ∈ (ledger s.log).called →
      Promise r₀ o fd₀ s'.httpResponseBody (sentOn fd₀ s'.log) s'.tx) : Mail s' := by
  refine ⟨ho.length, ho.unknown, ho.untouched, ?_, ?_, ?_⟩
  · intro fd request hcur hnot
    obtain ⟨rfl, rfl⟩ : fd₀ = fd ∧ r₀ = request := by simpa [h₄, hcur₀] using hcur
    exact absurd hcalled (h₂ ▸ hnot)
  · intro fd request o hcur hm
    obtain ⟨rfl, rfl⟩ : fd₀ = fd ∧ r₀ = request := by simpa [h₄, hcur₀] using hcur
    exact hpromise o (h₂ ▸ hm)
  · rw [h₁, h₂, h₃]
    exact fun fd request o hm hr hcall ↦ h.released hi ho hcur₀ hm hr hcall

theorem mail_call (h : Mail s) (hi : Invariant s) (hc : Client s fd₀ r₀) (htx : s.tx = .check)
    {o : Outside} (ho : OnlyTo fd₀ s
      { s with tx := .load o, log := s.log ++ [.call s.currentClientSocket o] }) :
    Mail { s with tx := .load o, log := s.log ++ [.call s.currentClientSocket o] } := by
  have hrel := not_released hi hc.current
  have hnew : fd₀ ∉ (ledger s.log).called.map Prod.fst :=
    fun hm ↦ (called_iff hi hc.current).mp hm (by simp [htx, stage])
  have hunique {fd : ℤ} {request : QueryRequest}
      (hcur : (ledger s.log).current = some (fd, request)) : fd = fd₀ ∧ request = r₀ := by
    simpa [hc.current, eq_comm] using hcur
  refine ⟨ho.length, ho.unknown, ho.untouched, ?_, ?_, ?_⟩
  · intro fd request hcur hnot
    obtain ⟨rfl, rfl⟩ := hunique (by simpa [Ledger.record] using hcur)
    simp [Ledger.record, hc.socket] at hnot
  · intro fd request o' hcur hm
    obtain ⟨rfl, rfl⟩ := hunique (by simpa [Ledger.record] using hcur)
    simp only [ledger_snoc, Ledger.record, List.mem_append, List.mem_singleton, hc.socket,
      Prod.mk.injEq, true_and] at hm
    rcases hm with hm | rfl
    · exact absurd (List.mem_map_of_mem hm) hnew
    · refine ⟨rfl, ?_⟩
      rw [sentOn_snoc (by simp)]
      exact h.waiting _ _ hc.current hnew
  · intro fd request o' hm hr hcall
    simp only [ledger_snoc, Ledger.record, List.mem_append, List.mem_singleton, hc.socket,
      Prod.mk.injEq] at hm hr hcall
    rcases hcall with hcall | ⟨rfl, -⟩
    · exact h.released hi ho hc.current hm hr hcall
    · exact absurd hr hrel

theorem mail_release (h : Mail s) (hi : Invariant s) (hc : Client s fd₀ r₀) (htx : s.tx = .release)
    (ho : OnlyTo fd₀ s
      { s with
        currentClientSocket := -1
        tx := .pend
        log := s.log ++ [.release s.currentClientSocket] }) :
    Mail
      { s with
        currentClientSocket := -1
        tx := .pend
        log := s.log ++ [.release s.currentClientSocket] } := by
  have hrel := not_released hi hc.current
  refine ⟨ho.length, ho.unknown, ho.untouched, by simp [Ledger.record], by simp [Ledger.record], ?_⟩
  intro fd request o hm hr hcall
  simp only [ledger_snoc, Ledger.record, List.mem_append, List.mem_singleton,
    hc.socket] at hm hr hcall
  rcases hr with hr | rfl
  · exact h.released hi ho hc.current hm hr hcall
  · obtain ⟨-, rfl⟩ : fd = fd ∧ request = r₀ := by
      simpa [hc.current, eq_comm] using hi.books.unfinished hm hrel
    have hp := h.current _ _ o hc.current hcall
    rw [htx] at hp
    rw [sentOn_snoc (by simp)]
    exact hp

end Steps

theorem mail_tx {s : State} {c : Choice} (h : Mail s) (hi : Invariant s) : Mail (txStep c s) := by
  have e := txStep_effect c s
  by_cases hstage : stage s.tx = .waiting
  · have htx : s.tx = .pend := by
      cases htx : s.tx <;> simp [htx, stage] at hstage
      rfl
    rw [txStep, htx]
    simp only
    split_ifs
    · exact mail_waiting h hi hstage rfl rfl rfl
    · exact h
  obtain ⟨-, fd₀, r₀, hc⟩ := hi.token.client hstage
  have ho := onlyTo_tx h hi hc c
  have hpromise (o : Outside) (hs : stage s.tx = .processing)
      (hm : (fd₀, o) ∈ (ledger s.log).called) :=
    promise_tx hc h.length hs (h.current fd₀ r₀ o hc.current hm) c
  have hcalled := called_iff hi hc.current
  generalize txStep c s = s' at *
  cases e with
  | work hs hs' _ _ _ _ _ sends hlog =>
    obtain ⟨fd', -, hlog⟩ := hlog
    have hl : ledger s'.log = ledger s.log := by rw [hlog, ledger_sends]
    exact h.keep hi ho hc.current (hcalled.mpr (by simp [hs])) (by rw [hl]) (by rw [hl])
      (by rw [hl]) (by rw [hl]) fun o ↦ hpromise o hs
  | skip htx _ => exact absurd (by rw [htx]; rfl) hstage
  | pend htx _ => exact absurd (by rw [htx]; rfl) hstage
  | pass htx hs => exact absurd (hc.socket ▸ hc.nonneg) (by omega)
  | call o htx hs => exact mail_call h hi hc htx ho
  | ret sends hfd =>
    have hs := stage_of_txFd hfd
    exact h.keep hi ho hc.current (hcalled.mpr (by simp [hs])) (by rw [ledger_snoc, ledger_sends]; rfl)
      (by rw [ledger_snoc, ledger_sends]; rfl) (by rw [ledger_snoc, ledger_sends]; rfl)
      (by rw [ledger_snoc, ledger_sends]; rfl) fun o ↦ hpromise o hs
  | close htx hs =>
    refine h.keep hi ho hc.current (hcalled.mpr (by simp [htx, stage])) (by rw [ledger_snoc]; rfl)
      (by rw [ledger_snoc]; rfl) (by rw [ledger_snoc]; rfl) (by rw [ledger_snoc]; rfl) fun o hm ↦ ?_
    have hp := h.current fd₀ r₀ o hc.current hm
    rw [htx] at hp
    rw [sentOn_snoc (by simp)]
    exact hp
  | release htx => exact mail_release h hi hc htx ho

theorem promise_sent {request : QueryRequest} {o : Outside} {fd : ℤ} {body : List UInt8}
    {sent : List (List UInt8)} {tx : TxPc} (h : Promise request o fd body sent tx) :
    sent <+: (reply request o).sends := by
  have hnil (hs : sent = []) : sent <+: (reply request o).sends := hs ▸ List.nil_prefix
  cases tx with
  | pend => exact hnil h
  | check => exact hnil h
  | load o' => exact hnil h.2
  | notFound => exact hnil h.2
  | compile o' table => exact hnil h.2.2
  | feed o' table => exact hnil h.2.2.2
  | build o' schema captured k offset => exact hnil h.2.2.1
  | answer a phase =>
    cases phase with
    | format message => exact hnil h.2.2
    | measure => exact hnil h.2.2.2.2
    | sendHeader n => exact hnil h.2.2.2.2.2
    | sendBody n =>
      obtain ⟨-, -, rfl, rfl⟩ := h
      exact List.prefix_append [_] _
  | close => exact (show sent = _ from h) ▸ List.prefix_rfl
  | release => exact (show sent = _ from h) ▸ List.prefix_rfl

theorem Mail.unmixed {s : State} (h : Mail s) (hi : Invariant s) : Unmixed s := by
  intro fd request hmem
  by_cases hrel : fd ∈ (ledger s.log).released
  · have hcalled : fd ∈ (ledger s.log).called.map Prod.fst := by
      rw [hi.books.called]
      exact List.mem_append_left _ hrel
    refine ⟨fun hnot ↦ absurd hcalled hnot, fun o ho ↦ ?_⟩
    have hsent := h.past fd request o hmem hrel ho
    exact ⟨hsent ▸ List.prefix_rfl, fun _ ↦ hsent⟩
  · have hcur := hi.books.unfinished hmem hrel
    refine ⟨h.waiting fd request hcur, fun o ho ↦ ?_⟩
    have hp := h.current fd request o hcur ho
    refine ⟨promise_sent hp, fun hret ↦ ?_⟩
    rw [hi.books.returned, List.mem_append] at hret
    have hstage : stage s.tx = .closing ∨ stage s.tx = .releasing := by
      by_contra hno
      simp [hno, hrel] at hret
    cases htx : s.tx with
    | close =>
      rw [htx] at hp
      exact hp
    | release =>
      rw [htx] at hp
      exact hp
    | _ => simp [htx, stage] at hstage

/-- As long as nobody writes `http_response_body` under the hands of `tx_task`, every
client gets the answer to its own request. -/
theorem replies_unmixed {schedule : List (Task × Choice)} {s : State}
    (h : Run step Undisturbed start schedule s) : Unmixed s := by
  have hinv : Invariant s ∧ Mail s := by
    refine h.invariant (I := fun s ↦ Invariant s ∧ Mail s) ?_ ⟨invariant_start, mail_start⟩
    rintro s ⟨task, c⟩ ⟨hi, hm⟩ hu
    refine ⟨invariant_step hi hu.1, ?_⟩
    cases task with
    | rx => exact mail_rx hm hi hu
    | tx => exact mail_tx hm hi
  exact hinv.2.unmixed hinv.1

theorem two_clients_unmixed :
    Run step Undisturbed start twoClients (twoClients.foldl step start) ∧
      (ledger (twoClients.foldl step start).log).returned = [3] ∧
      Unmixed (twoClients.foldl step start) := by
  have h : Run step Undisturbed start twoClients (twoClients.foldl step start) := by
    decide +kernel
  exact ⟨h, by decide +kernel, replies_unmixed h⟩

/-- A second client is refused between the first client's `snprintf` and `strlen`. -/
def refusedMeanwhile : List (Task × Choice) :=
  List.replicate 11 (.rx, someChoice 3) ++ List.replicate 5 (.tx, someChoice 0) ++
    List.replicate 3 (.rx, someChoice 4) ++ List.replicate 3 (.tx, someChoice 0)

theorem refusal_reaches_first_client :
    Run step Fresh start refusedMeanwhile (refusedMeanwhile.foldl step start) ∧
      sentOn 3 (refusedMeanwhile.foldl step start).log =
        [header 404 "Not Found" 61,
          errorText (ascii "O firmware atende uma consulta por vez.")] ∧
      ¬ Unmixed (refusedMeanwhile.foldl step start) := by
  -- one evaluation of the run answers for everything that its log shows
  have hlog : sentOn 3 (refusedMeanwhile.foldl step start).log =
        [header 404 "Not Found" 61,
          errorText (ascii "O firmware atende uma consulta por vez.")] ∧
      (3, ⟨ascii "SELECT *", ascii "T", ascii "*", [], 0⟩) ∈
        (ledger (refusedMeanwhile.foldl step start).log).admitted ∧
      (3, ⟨none, 0, [], 0, 0⟩) ∈ (ledger (refusedMeanwhile.foldl step start).log).called ∧
      3 ∈ (ledger (refusedMeanwhile.foldl step start).log).returned := by
    decide +kernel
  obtain ⟨hsent, hadmitted, hcalled, hreturned⟩ := hlog
  refine ⟨by decide +kernel, hsent, fun h ↦ ?_⟩
  have heq := ((h 3 _ hadmitted).2 _ hcalled).2 hreturned
  rw [hsent] at heq
  exact absurd heq (by decide +kernel)

end FpgaDatabase.Firmware.Replies
