import Allgres.Core

/-! What a submitted step may ask for, and where it has it from. It never queues a
model call, and a delegated task starts queued and without steps. -/

namespace Allgres

open Raise Rows

def Next.Ok : Next → Prop
  | .queue req => req.isLlm = false
  | .delegate child _ => child.status = .queued ∧ child.stepCount = 0
  | _ => True

/-- Whatever step the code returns, it asks for something in `P`. -/
def Asking {ε : Type} (P : Next → Prop) (x : Except ε Step) : Prop :=
  Returns (fun s => P s.next) x

theorem asking_orRefuse {P : Next → Prop} {x : Except Refusal Step} (h : Asking P x) :
    Asking P (orRefuse x) := by
  intro s hs
  cases x with
  | error r => cases hs
  | ok t =>
    obtain rfl : t = s := by simpa [orRefuse] using hs
    exact h t rfl

theorem asking_refuse {P : Next → Prop} (reason : String) (fields : List (String × Json)) :
    Asking P (orRefuse (refuse reason fields)) :=
  asking_orRefuse (returns_error _)

namespace Turn

variable (pg : Postgres) (T : Turn) (v : Json)

/-- The row a delegation inserts. -/
def child (T : Turn) (v : Json) (target : Uuid) : Task :=
  { taskId := T.db.nextId
    sessionId := T.task.sessionId
    agentId := target
    parentTaskId := some T.task.taskId
    input := (v.get "input").getD (.object [])
    createdAt := T.now
    updatedAt := T.now
    delegationDepth := T.task.delegationDepth + 1 }

/-- The request of an outgoing call, from its draft. -/
def outboundOf (d : Draft) (name : Option String) (bound : Option (Function × Option Uuid))
    (url : String) (headers : Json) : Outbound :=
  { kind := d.kind
    function := name
    url
    method := d.method
    requestHeaders := headers
    requestBody := d.body
    allowPrivate := d.connection.any (·.allowPrivateNetwork)
    connectionId := d.connection.map (·.connectionId)
    authKind := d.connection.bind (·.authKind)
    idempotencyKey := headers.text "idempotency-key"
    procedureFunctionId := bound.map (·.1.functionId)
    procedureId := bound.bind (·.2) }

/-- The request of a search, to the endpoint of a provider. -/
def searchOf (p : Provider) (kind : OutboundKind) (v : Json) : Outbound :=
  { kind
    url := embeddingsUrl p
    requestHeaders := contentTypeJson
    requestBody := .object [("model", .ofText p.embeddingModel),
      ("input", .str (left (orEmpty (v.text "query")) 8000))]
    allowPrivate := p.allowPrivateNetwork
    providerId := some p.providerId
    authKind := some .authorization }

/-- What a step of this turn can ask for. -/
inductive Asks (pg : Postgres) (T : Turn) : Next → Prop
  | again : Asks pg T .again
  | finalAnswer (answer : String) : Asks pg T (.finalAnswer answer)
  | fail (error : String) : Asks pg T (.fail error)
  | awaitHuman (reason : String) : Asks pg T (.awaitHuman reason)
  | awaitChildren (h : ∃ c ∈ T.db.tasks, c.parentTaskId = some T.task.taskId ∧
      c.status.finished = false) : Asks pg T .awaitChildren
  | delegate {v : Json} {target : Uuid} (wait : Bool) (h : T.delegateTarget v = .ok target) :
      Asks pg T (.delegate (T.child v target) wait)
  | sql {text : Option String} {sql : String}
      (h : fnValidateSql pg T.cfg T.task.agentId text = .ok sql) :
      Asks pg T (.queue (.sql T.task.agentId sql))
  | function (f : Function) (args : Json) :
      Asks pg T (.queue (.function f.functionId T.task.agentId args))
  | procedure (p : Procedure) (args : Json) :
      Asks pg T (.queue (.procedure p.procedureId T.task.agentId args))
  | outgoing {v args orig headers : Json} {name : Option String}
      {bound : Option (Function × Option Uuid)} {d : Draft} {url : String}
      (hd : T.draftCall name args orig bound = .ok d) (hu : d.url = some url)
      (hc : checkOutboundUrl (some url) (d.connection.any (·.allowPrivateNetwork)) = none)
      (hh : T.operationHeaders v url d = .ok headers) :
      Asks pg T (.queue (.outbound (outboundOf d name bound url headers)))
  | search {p : Provider} {kind : OutboundKind} (v : Json) (hp : embeddingProvider? T.cfg = some p)
      (hk : kind ≠ .llm) (hc : checkOutboundUrl (some (embeddingsUrl p)) p.allowPrivateNetwork = none) :
      Asks pg T (.queue (.outbound (searchOf p kind v)))

theorem executeSql_asks : Asking (T.Asks pg) (T.executeSql pg v) := by
  unfold executeSql
  split
  · exact returns_error _
  · rename_i h
    exact returns_ok (.sql h)

/-- What an outgoing call that is queued went through. -/
theorem outgoingCall_eq_ok {name : Option String} {args orig : Json}
    {bound : Option (Function × Option Uuid)} {s : Step}
    (hs : T.outgoingCall v name args orig bound = .ok s) :
    ∃ d url headers, T.draftCall name args orig bound = .ok d ∧ d.url = some url ∧
      checkOutboundUrl (some url) (d.connection.any (·.allowPrivateNetwork)) = none ∧
      T.operationHeaders v url d = .ok headers ∧
      s.next = .queue (.outbound (outboundOf d name bound url headers)) := by
  unfold outgoingCall at hs
  obtain ⟨d, hd, hs⟩ := bind_eq_ok.mp hs
  dsimp only at hs
  split at hs
  · rename_i u hu hc
    obtain ⟨url, hurl, hs⟩ := bind_eq_ok.mp hs
    obtain rfl : u = url := by simpa using hurl
    have hrest : ∀ x : Except Refusal Step, x = .ok s →
        x = (do
          let headers ← T.operationHeaders v u d
          pure (T.queueCall (.outbound (outboundOf d name bound u headers)) "call_function"
            [("function", .ofText name), ("args", args)])) →
          ∃ headers, T.operationHeaders v u d = .ok headers ∧
            s.next = .queue (.outbound (outboundOf d name bound u headers)) := by
      rintro x rfl hx
      obtain ⟨headers, hh, hx⟩ := bind_eq_ok.mp hx.symm
      obtain rfl := Except.ok.inj hx
      exact ⟨headers, hh, rfl⟩
    have hqueued : ∃ headers, T.operationHeaders v u d = .ok headers ∧
        s.next = .queue (.outbound (outboundOf d name bound u headers)) := by
      split at hs
      · obtain ⟨_, _, hs⟩ := bind_eq_ok.mp hs
        exact hrest _ hs rfl
      · exact hrest _ hs rfl
    obtain ⟨headers, hh, hn⟩ := hqueued
    exact ⟨d, u, headers, hd, hu, hu ▸ hc, hh, hn⟩
  · obtain ⟨_, hurl, _⟩ := bind_eq_ok.mp hs
    cases hurl

theorem outgoingCall_asks (name : Option String) (args orig : Json)
    (bound : Option (Function × Option Uuid)) :
    Asking (T.Asks pg) (T.outgoingCall v name args orig bound) := by
  intro s hs
  obtain ⟨d, url, headers, hd, hu, hc, hh, hn⟩ := T.outgoingCall_eq_ok v hs
  rw [hn]
  exact .outgoing hd hu hc hh

theorem callFunction_asks : Asking (T.Asks pg) (T.callFunction v) := by
  unfold callFunction
  refine returns_seq fun callee => ?_
  cases callee with
  | plpgsql f =>
    unfold queueFunction
    exact returns_ite (fun _ => returns_error _) fun _ => returns_ok (.function f _)
  | outgoing name args bound => exact T.outgoingCall_asks pg v name args _ bound

theorem runProcedure_asks : Asking (T.Asks pg) (T.runProcedure v) := by
  unfold runProcedure
  dsimp only
  split
  · exact returns_error _
  · split
    · exact returns_error _
    · rename_i p _
      exact returns_ite (fun _ => returns_error _) fun _ => returns_ok (.procedure p _)

theorem delegate_asks : Asking (T.Asks pg) (T.delegate v) := by
  unfold delegate
  intro s hs
  obtain ⟨target, ht, hs⟩ := bind_eq_ok.mp hs
  obtain ⟨wait, _, hs⟩ := bind_eq_ok.mp hs
  obtain rfl := Except.ok.inj hs
  cases hd : T.delegateTarget v with
  | error r => simp [hd, orRefuse] at ht
  | ok i =>
    obtain rfl : i = target := by simpa [hd, orRefuse] using ht
    exact .delegate _ hd

theorem embeddingQuery_asks {kind : OutboundKind} (h : kind ≠ .llm) (action : String) :
    Asking (T.Asks pg) (T.embeddingQuery v kind action) := by
  unfold embeddingQuery
  split
  · exact returns_error _
  · exact returns_error _
  · rename_i p _ hp
    dsimp only
    split
    · exact returns_error _
    · rename_i hc
      exact returns_ok (.search v hp h hc)

theorem searchCapabilities_asks : Asking (T.Asks pg) (T.searchCapabilities v) := by
  unfold searchCapabilities
  refine returns_bind (T.embeddingQuery_asks pg v (by simp) _) fun s hs => returns_pure ?_
  exact hs

theorem finalAnswer_asks : Asking (T.Asks pg) (T.finalAnswer v) := by
  unfold finalAnswer
  dsimp only
  split
  · exact returns_error _
  · exact returns_ok (.finalAnswer _)

theorem awaitChildren_asks : Asking (T.Asks pg) T.awaitChildren := by
  unfold awaitChildren
  refine returns_ite (fun h => returns_ok (.awaitChildren ?_)) fun _ => returns_error _
  simpa using h

section Administration

variable {P : Next → Prop} (h : P .again)

include h

theorem functionOverride_again : Asking P (T.functionOverride v) := by
  unfold functionOverride
  refine returns_seq fun target => ?_
  split
  · exact asking_refuse _ _
  · unfold startOverride
    refine returns_seq fun percent => returns_seq fun cap => returns_seq fun _ =>
      returns_ite (fun _ => ?_) fun _ => returns_pure h
    exact returns_seq fun samples => returns_seq fun r => returns_pure h
  · unfold promoteOverride
    refine returns_seq fun e => returns_seq fun _ => returns_seq fun slack => ?_
    dsimp only
    split
    · exact returns_pure h
    · exact returns_pure h
  · unfold rejectOverride
    exact returns_seq fun e => returns_seq fun _ => returns_seq fun _ =>
      returns_ite (fun _ => returns_pure h) fun _ => returns_pure h

theorem policyChange_again : Asking P (T.policyChange pg v) := by
  unfold policyChange
  refine returns_seq fun changes => returns_seq fun target => returns_ite (fun _ => ?_) fun _ => ?_
  · exact returns_seq fun r => returns_pure h
  · split
    · exact returns_pure h
    · exact returns_pure h

theorem proposeChange_again : Asking P (T.proposeChange pg v) := by
  unfold proposeChange
  exact returns_ite (fun _ => T.functionOverride_again v h) fun _ => T.policyChange_again pg v h

theorem createAgent_again : Asking P (T.createAgent pg v) := by
  unfold createAgent
  refine returns_guard fun _ => returns_guard fun _ => returns_ite (fun _ => ?_) fun _ =>
    returns_pure h
  exact returns_seq fun r => returns_pure h

theorem createFunction_again : Asking P (T.createFunction pg v) := by
  unfold createFunction
  refine returns_guard fun _ => returns_ite (fun _ => ?_) fun _ => returns_pure h
  split
  · exact returns_pure h
  · exact returns_error _

theorem updateFunction_again : Asking P (T.updateFunction pg v) := by
  unfold updateFunction
  refine returns_seq fun target => returns_ite (fun _ => ?_) fun _ => returns_pure h
  split
  · exact returns_pure h
  · exact asking_refuse _ _

theorem proposeFix_again : Asking P (T.proposeFix pg v) := by
  unfold proposeFix
  refine returns_seq fun kt => returns_ite (fun _ => ?_) fun _ => returns_pure h
  exact returns_seq fun r => returns_pure h

theorem remember_again : Asking P (T.remember pg v) := by
  unfold remember
  split
  · exact asking_refuse _ _
  · exact returns_seq fun compacted => returns_pure h

end Administration

theorem act_asks (a : Action) : Asking (T.Asks pg) (T.act pg a v) := by
  cases a with
  | finalAnswer =>
    rw [act]
    exact asking_orRefuse (T.finalAnswer_asks pg v)
  | executeSql =>
    rw [act]
    exact asking_orRefuse (T.executeSql_asks pg v)
  | callFunction =>
    rw [act]
    exact asking_orRefuse (T.callFunction_asks pg v)
  | runProcedure =>
    rw [act]
    exact asking_orRefuse (T.runProcedure_asks pg v)
  | delegate =>
    rw [act]
    exact T.delegate_asks pg v
  | searchAgents =>
    rw [act]
    exact asking_orRefuse (T.embeddingQuery_asks pg v (by simp) _)
  | searchCapabilities =>
    rw [act]
    exact asking_orRefuse (T.searchCapabilities_asks pg v)
  | recallMemories =>
    rw [act]
    exact asking_orRefuse (T.embeddingQuery_asks pg v (by simp) _)
  | awaitHuman =>
    rw [act]
    exact returns_ok (.awaitHuman _)
  | proposeChange =>
    rw [act]
    exact T.proposeChange_again pg v .again
  | remember =>
    rw [act]
    exact T.remember_again pg v .again
  | createAgent =>
    rw [act]
    exact T.createAgent_again pg v .again
  | proposeFix =>
    rw [act]
    exact T.proposeFix_again pg v .again
  | awaitChildren =>
    rw [act]
    exact asking_orRefuse (T.awaitChildren_asks pg)
  | createFunction =>
    rw [act]
    exact asking_orRefuse (T.createFunction_again pg v .again)
  | updateFunction =>
    rw [act]
    exact T.updateFunction_again pg v .again

theorem settle_asks {x : Except Halt Step} (h : Asking (T.Asks pg) x) :
    Asking (T.Asks pg) (T.settle x) := by
  unfold settle
  split
  · exact returns_ok (h _ rfl)
  · exact returns_ok .again
  · exact returns_error _

theorem llmResponse_asks : Asking (T.Asks pg) (T.llmResponse pg v) := by
  unfold llmResponse
  refine returns_bind (T.settle_asks pg ?_) fun s hs => returns_pure ?_
  · split
    · exact returns_error _
    · exact T.act_asks pg _ _
  · exact hs

/-- The spec of a step: whatever it asks for is one of these. -/
theorem payloadStep_asks (payload : Json) : Asking (T.Asks pg) (T.payloadStep pg payload) := by
  unfold payloadStep
  refine returns_ite (fun _ => T.llmResponse_asks pg payload) fun _ => ?_
  refine returns_ite (fun _ => returns_ok ?_) fun _ => ?_
  · simp only [errorStep]
    split_ifs
    · exact .fail _
    · exact .again
  · exact returns_ite (fun _ => returns_ok .again) fun _ =>
      returns_ite (fun _ => returns_ok .again) fun _ => returns_ok .again

/-- The headers an outgoing call may be drafted with. -/
def Drafted (args h : Json) : Prop :=
  h = .object [("accept", .str acceptAny)] ∨
    h = .object [("accept", .str "application/json, text/event-stream"),
      ("content-type", .str "application/json")] ∨
    h = (agentHeaders args).merge (.object [("accept", .str acceptAny)])

theorem draftCall_spec (name : Option String) (args orig : Json)
    (bound : Option (Function × Option Uuid)) :
    Returns (fun d => (d.kind = .function ∨ d.kind = .mcp) ∧ Drafted args d.headers)
      (T.draftCall name args orig bound) := by
  unfold draftCall
  refine returns_ite (fun _ => returns_ok ⟨by simp [httpGetDraft], .inl rfl⟩) fun _ => ?_
  refine returns_ite (fun _ => ?_) fun _ => returns_ite (fun _ => ?_) fun _ => returns_error _
  · unfold mcpDraft
    split
    · exact returns_error _
    · split
      · exact returns_error _
      · exact returns_ok ⟨by simp, .inr (.inl rfl)⟩
  · have hrest : ∀ (method : Method) (uc : Option String × Option ApiConnection) (body : Json),
        Returns (fun d : Draft => (d.kind = .function ∨ d.kind = .mcp) ∧ Drafted args d.headers)
          (pure
          { kind := .function
            method
            url := uc.1
            headers := (agentHeaders args).merge (.object [("accept", .str acceptAny)])
            body
            connection := uc.2 } : Except Refusal Draft) :=
      fun _ _ _ => returns_pure ⟨by simp, .inr (.inr rfl)⟩
    unfold httpRequestDraft
    dsimp only
    split
    · refine returns_seq fun m => ?_
      split
      · exact returns_seq fun uc => hrest m uc _
      · split
        · exact returns_seq fun uc => hrest m uc _
        · split
          · exact returns_seq fun uc => hrest m uc _
          · exact returns_seq fun uc => hrest m uc _
    · exact returns_bind (P := fun _ => False) (returns_error _) fun _ h => h.elim

theorem isLlm_outbound {o : Outbound} (h : o.kind ≠ .llm) : (Request.outbound o).isLlm = false := by
  simp [Request.isLlm, h]

theorem Asks.ok {T : Turn} {next : Next} (h : T.Asks pg next) : next.Ok := by
  cases h with
  | again => trivial
  | finalAnswer answer => trivial
  | fail error => trivial
  | awaitHuman reason => trivial
  | awaitChildren h => trivial
  | delegate wait h => exact ⟨rfl, rfl⟩
  | sql h => rfl
  | function f args => rfl
  | procedure p args => rfl
  | outgoing hd hu hc hh =>
    apply isLlm_outbound
    rcases (T.draftCall_spec _ _ _ _ _ hd).1 with hk | hk <;> simp [outboundOf, hk]
  | search v hp hk hc => exact isLlm_outbound hk

theorem payloadStep_ok (payload : Json) : Asking Next.Ok (T.payloadStep pg payload) :=
  fun s hs => (T.payloadStep_asks pg payload s hs).ok

end Turn

end Allgres
