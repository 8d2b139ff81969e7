import Allgres.Administration
import Allgres.JsonText
import Allgres.ValidateSql

/-! The actions of a model reply. An action checks the reply against the state
before it and says what the step does; a refused reply is logged and costs a step. -/

namespace Allgres

open Raise Rows

/-- The state an action decides on. -/
structure Turn where
  db : Db
  now : Time
  task : Task
  agent : Agent
  policy : Option Policy

/-- What a step does with its task, beside raising the step count. -/
inductive Next where
  | again
  | queue (req : Request)
  | delegate (child : Task) (wait : Bool)
  | finalAnswer (answer : String)
  | fail (error : String)
  | awaitHuman (reason : String)
  | awaitChildren

structure Step where
  cfg : Config
  logs : List (LogRole × Json) := []
  logAt : Nat := 1
  selected : Option (CapabilityType × Option String) := none
  compacted : Option (Uuid × Option Time) := none
  next : Next := .again
  result : Json

def continued : Json :=
  .object [("action", .str "continue")]

structure Refusal where
  content : Json
  result : Json := continued

/-- How an action ends early: with a refusal, or with an exception nobody handles. -/
inductive Halt where
  | refuse (r : Refusal)
  | raise (message : String)

def refusal (reason : String) (fields : List (String × Json)) : Refusal :=
  { content := .object (("reason", .str reason) :: fields) }

def refuse {α : Type} (reason : String) (fields : List (String × Json)) : Except Refusal α :=
  .error (refusal reason fields)

def orRefuse {α : Type} : Except Refusal α → Except Halt α
  | .ok v => .ok v
  | .error r => .error (.refuse r)

def orRaise {α : Type} : Except String α → Except Halt α
  | .ok v => .ok v
  | .error e => .error (.raise e)

/-- A cast of a possibly absent text. -/
def castOr {α : Type} (cast : String → Option α) (type : String) (s : Option String) :
    Except Halt (Option α) :=
  match s with
  | none => .ok none
  | some t => match cast t with
    | some v => .ok (some v)
    | none => .error (.raise ("invalid input syntax for type " ++ type ++ ": \"" ++ t ++ "\""))

/-- Whether a text is absent or can be cast. -/
def castable {α : Type} (cast : String → Option α) (s : Option String) : Bool :=
  s.all fun t => (cast t).isSome

namespace Turn

def cfg (T : Turn) : Config := T.db.cfg

def permitted (T : Turn) (type : ResourceType) (ref : Option String) : Bool :=
  agentHasPermission T.cfg T.task.agentId type ref

/-- A step that only goes on, under the given result. -/
def goOn (T : Turn) (logs : List (LogRole × Json)) (fields : List (String × Json)) : Step :=
  { cfg := T.cfg, logs, result := .object (("action", .str "continue") :: fields) }

/-- A step that queues a call, with the id the row is about to get. -/
def queueCall (T : Turn) (req : Request) (action : String) (fields : List (String × Json)) :
    Step :=
  { cfg := T.cfg
    next := .queue req
    result := .object (("action", .str action) :: fields ++
      [("call_id", .str (uuidText T.db.nextId))]) }

def finalAnswer (T : Turn) (parsed : Json) : Except Refusal Step :=
  let answer := (nullIfEmpty (parsed.text "answer")).or
    ((nullIfEmpty (parsed.text "content")).or (nullIfEmpty (parsed.text "final_answer")))
  match answer with
  | none => .error
      { content := .object [("reason", .str "final_answer_missing_answer"), ("parsed", parsed)]
        result := .object [("action", .str "continue"),
          ("reason", .str "final_answer_missing_answer")] }
  | some answer =>
    .ok { cfg := T.cfg, next := .finalAnswer answer, result := .object [("action", .str "done")] }

def executeSql (pg : Postgres) (T : Turn) (parsed : Json) : Except Refusal Step :=
  match fnValidateSql pg T.cfg T.task.agentId (parsed.text "sql") with
  | .error e => .error { content := .object [("sql", .ofText (parsed.text "sql")),
      ("message", .str e)] }
  | .ok sql => .ok (T.queueCall (.sql T.task.agentId sql) "execute_sql" [("sql", .str sql)])

/-- What `call_function` resolved a name to: a PL/pgSQL function to run, or the
name, arguments and granting procedure of an outgoing call. -/
inductive Callee where
  | plpgsql (f : Function)
  | outgoing (name : Option String) (args : Json) (bound : Option (Function × Option Uuid))

def sameName (f : Function) (name : Option String) : Bool :=
  lower f.name = lower (orEmpty name) && f.isActive

def procedureGrants (T : Turn) (functionId : Uuid) : List Procedure :=
  T.cfg.bindings.filterMap fun b =>
    if b.functionId = functionId then
      (T.cfg.procedure? b.procedureId).filter fun p =>
        p.isActive ∧ (agentPermissionRefs T.cfg T.task.agentId .procedure).contains p.name
    else none

def resolveFunction (T : Turn) (name : Option String) (args : Json) : Except Refusal Callee :=
  if T.permitted .function name then
    match T.cfg.functions.find? (sameName · name) with
    | some f => .ok (if f.handler = .plpgsql then .plpgsql f else .outgoing name args none)
    | none => .ok (.outgoing name args none)
  else
    let bound := T.cfg.functions.find? fun f =>
      sameName f name ∧ T.procedureGrants f.functionId ≠ []
    match bound with
    | none => refuse "function_not_permitted" [("function", .ofText name)]
    | some f =>
      if f.handler = .plpgsql then .ok (.plpgsql f)
      else
        let procedureId := (T.procedureGrants f.functionId).head?.map (·.procedureId)
        .ok (.outgoing (some f.handler.text) f.argsTemplate (some (f, procedureId)))

def methodOf (s : String) : Option Method :=
  if s = "GET" then some .get else if s = "POST" then some .post
  else if s = "PUT" then some .put else if s = "PATCH" then some .patch
  else if s = "DELETE" then some .delete else none

def Method.text : Method → String
  | .get => "GET" | .post => "POST" | .put => "PUT" | .patch => "PATCH" | .delete => "DELETE"

def acceptAny : String := "application/json, text/plain, */*"

def protectedHeaders : List String :=
  ["authorization", "x-api-key", "host", "content-length"]

/-- The headers an agent may set itself: lower-cased, never a credential header. -/
def agentHeaders (args : Json) : Json :=
  match args.get "headers" with
  | some (.obj fs) => .object ((fs.filter fun f => lower f.1 ∉ protectedHeaders).map fun f =>
      (lower f.1, Json.ofText f.2.asText))
  | _ => .object []

/-- `^[a-zA-Z][a-zA-Z0-9+.-]*://`. -/
def isAbsoluteUrl (path : String) : Bool :=
  (splitScheme path.toList).isSome

def connectionUrl (c : ApiConnection) (path : String) : String :=
  rtrim c.baseUrl '/' ++ "/" ++ ltrim path '/'

/-- The parts of an outgoing request before its URL is checked. -/
structure Draft where
  kind : OutboundKind
  method : Method
  url : Option String
  headers : Json
  body : Json := .object []
  connection : Option ApiConnection := none

def httpGetDraft (args : Json) : Draft :=
  { kind := .function
    method := .get
    url := args.text "url"
    headers := .object [("accept", .str acceptAny)] }

def mcpDraft (T : Turn) (name : Option String) (args orig : Json)
    (bound : Option (Function × Option Uuid)) : Except Refusal Draft :=
  match bound.bind fun b => b.1.mcpConnectionId with
  | none => refuse "unknown_function" [("function", .ofText name)]
  | some id => match (T.cfg.connection? id).filter (·.isEnabled) with
    | none => refuse "mcp_connection_unavailable" [("function", .ofText name)]
    | some conn => .ok
        { kind := .mcp
          method := .post
          url := some conn.baseUrl
          headers := .object [("accept", .str "application/json, text/event-stream"),
            ("content-type", .str "application/json")]
          body := .object [("jsonrpc", .str "2.0"), ("id", .num "1"),
            ("method", .str "tools/call"),
            ("params", .object [("name", .ofText (args.text "tool")), ("arguments", orig)])]
          connection := some conn }

def httpRequestDraft (T : Turn) (args : Json) : Except Refusal Draft := do
  let method ← match methodOf (upper ((trimmed (args.text "method")).getD "GET")) with
    | some m => .ok m
    | none => refuse "unsupported_http_method" [("method", .ofText (args.text "method"))]
  let (url, connection) ← match trimmed (args.text "connection") with
    | none => .ok (args.text "url", none)
    | some name => match T.cfg.connections.find? fun c => c.name = name ∧ c.isEnabled with
      | none => refuse "unknown_connection" [("connection", .str name)]
      | some conn =>
        let path := orEmpty (args.text "path")
        if isAbsoluteUrl path then
          refuse "connection_path_must_be_relative" [("path", .str path)]
        else .ok (some (connectionUrl conn path), some conn)
  let sendsBody := method = .post ∨ method = .put ∨ method = .patch
  pure
    { kind := .function
      method
      url
      headers := (agentHeaders args).merge (.object [("accept", .str acceptAny)])
      body := if sendsBody then (args.get "body").getD (.object []) else .object []
      connection }

def draftCall (T : Turn) (name : Option String) (args orig : Json)
    (bound : Option (Function × Option Uuid)) : Except Refusal Draft :=
  if name = some "http_get" then .ok (httpGetDraft args)
  else if name = some "mcp_call" then T.mcpDraft name args orig bound
  else if name = some "http_request" then T.httpRequestDraft args
  else refuse "unknown_function" [("function", .ofText name)]

/-- Whether a call may be repeated under the key of an earlier one. -/
def sameOperation (T : Turn) (c : Call) (method : Method) (url : String) (d : Draft)
    (custom : Option String) : Option String :=
  match c.req with
  | .outbound o =>
    let connectionId := d.connection.map (·.connectionId)
    if c.taskId = T.task.taskId ∧ (c.status = .lost ∨ c.status = .harvested) ∧
        o.method = method ∧ o.url = url ∧ o.requestBody = d.body ∧
        o.requestHeaders.without "idempotency-key" = d.headers.without "idempotency-key" ∧
        o.connectionId = connectionId ∧ (custom = none ∨ custom = o.idempotencyKey) then
      o.idempotencyKey
    else none
  | _ => none

def outboundOperationKey (T : Turn) (retry : Option String) (method : Method) (url : String)
    (d : Draft) : Except String String :=
  let custom := d.headers.text "idempotency-key"
  match retry with
  -- a new operation gets a random key
  | none => .ok (custom.getD (uuidText T.db.nextId))
  | some s => match castUuid s with
    | none => .error ("invalid input syntax for type uuid: \"" ++ s ++ "\"")
    | some id =>
      match (T.db.call? .outboundCalls id).bind fun c => T.sameOperation c method url d custom with
      | some key => .ok key
      | none =>
        .error "retry_of_call_id must identify the same completed/lost request in this task"

def operationHeaders (T : Turn) (parsed : Json) (url : String) (d : Draft) :
    Except Refusal Json :=
  if d.method = .get then .ok d.headers
  else match T.outboundOperationKey (parsed.text "retry_of_call_id") d.method url d with
    | .ok key => .ok (d.headers.merge (.object [("idempotency-key", .str key)]))
    | .error e => .error
        { content := .object [("reason", .str "invalid_retry"), ("message", .str e)]
          result := .object [("action", .str "continue"), ("reason", .str "invalid_retry")] }

def queueFunction (T : Turn) (f : Function) (name : Option String) (args : Json) :
    Except Refusal Step :=
  if f.buildStatus ≠ .built then
    refuse "function_not_built" [("function", .ofText name),
      ("build_status", .str f.buildStatus.text)]
  else .ok { T.queueCall (.function f.functionId T.task.agentId args) "call_function"
      [("function", .ofText name)] with selected := some (.function, some f.name) }

def outgoingCall (T : Turn) (parsed : Json) (name : Option String) (args orig : Json)
    (bound : Option (Function × Option Uuid)) : Except Refusal Step := do
  let d ← T.draftCall name args orig bound
  let allowPrivate := d.connection.any (·.allowPrivateNetwork)
  let url ← match d.url, checkOutboundUrl d.url allowPrivate with
    | some u, none => .ok u
    | _, reason => refuse (orEmpty reason) [("url", .ofText d.url)]
  if bound = none ∧ T.permitted .httpHost (urlHost (some url)) = false then
    refuse "http_host_not_permitted" [("host", .ofText (urlHost (some url)))]
  let headers ← T.operationHeaders parsed url d
  let o : Outbound :=
    { kind := d.kind
      function := name
      url
      method := d.method
      requestHeaders := headers
      requestBody := d.body
      allowPrivate
      connectionId := d.connection.map (·.connectionId)
      authKind := d.connection.bind (·.authKind)
      idempotencyKey := headers.text "idempotency-key"
      procedureFunctionId := bound.map (·.1.functionId)
      procedureId := bound.bind (·.2) }
  pure (T.queueCall (.outbound o) "call_function" [("function", .ofText name), ("args", args)])

def callFunction (T : Turn) (parsed : Json) : Except Refusal Step := do
  let name := parsed.text "function"
  let args := (parsed.get "args").getD (.object [])
  match ← T.resolveFunction name args with
  | .plpgsql f => T.queueFunction f name args
  | .outgoing name' args' bound => T.outgoingCall parsed name' args' args bound

def runProcedure (T : Turn) (parsed : Json) : Except Refusal Step :=
  let name := trimmed (parsed.text "procedure")
  match name.filter fun n => (agentPermissionRefs T.cfg T.task.agentId .procedure).contains n with
  | none => refuse "procedure_not_permitted" [("procedure", .ofText name)]
  | some n => match T.cfg.procedures.find? fun p => p.name = n ∧ p.isActive with
    | none => refuse "unknown_procedure" [("procedure", .str n)]
    | some p =>
      if p.body = none ∨ p.buildStatus ≠ .built then
        refuse "procedure_not_built" [("procedure", .str n),
          ("build_status", .str p.buildStatus.text)]
      else .ok (T.queueCall
        (.procedure p.procedureId T.task.agentId ((parsed.get "args").getD (.object [])))
        "run_procedure" [("procedure", .str n)])

/-- The common body of `search_agents`, `search_capabilities` and `recall`. -/
def embeddingQuery (T : Turn) (parsed : Json) (kind : OutboundKind) (action : String) :
    Except Refusal Step :=
  match trimmed (parsed.text "query"), embeddingProvider? T.cfg with
  | none, _ => refuse (action ++ "_needs_query") []
  | some _, none => refuse "no_embedding_provider_configured" []
  | some _, some p =>
    let url := embeddingsUrl p
    match checkOutboundUrl (some url) p.allowPrivateNetwork with
    | some reason => refuse reason [("url", .str url)]
    | none =>
      let o : Outbound :=
        { kind
          url
          requestHeaders := contentTypeJson
          requestBody := .object [("model", .ofText p.embeddingModel),
            ("input", .str (left (orEmpty (parsed.text "query")) 8000))]
          allowPrivate := p.allowPrivateNetwork
          providerId := some p.providerId
          authKind := some .authorization }
      .ok (T.queueCall (.outbound o) action [("query", .ofText (parsed.text "query"))])

def searchAgents (T : Turn) (parsed : Json) : Except Refusal Step :=
  T.embeddingQuery parsed .embedding "search_agents"

/-- Marks a procedure as selected although `v_procedure_name` is never set on this path. -/
def searchCapabilities (T : Turn) (parsed : Json) : Except Refusal Step := do
  let s ← T.embeddingQuery parsed .capabilitySearch "search_capabilities"
  pure { s with selected := some (.procedure, none) }

def recallMemories (T : Turn) (parsed : Json) : Except Refusal Step :=
  T.embeddingQuery parsed .recallMemories "recall"

/-- A task and the tasks it was delegated from. -/
def ancestors (tasks : List Task) : Nat → Option Uuid → List Task
  | 0, _ => []
  | _ + 1, none => []
  | n + 1, some id => match tasks.find? (·.taskId = id) with
    | some t => t :: ancestors tasks n t.parentTaskId
    | none => []

/-- The checks of `delegate`, up to the row it inserts. -/
def delegateTarget (T : Turn) (parsed : Json) : Except Refusal Uuid :=
  let name := parsed.text "agent_name"
  let field := ("agent_name", Json.ofText name)
  match T.cfg.agents.find? fun a => some a.name = name ∧ a.isActive with
  | none => refuse "delegate_unknown" [field]
  | some target =>
    let chain := ancestors T.db.tasks (T.db.tasks.length + 1) (some T.task.taskId)
    let sessionTasks := (T.db.tasks.filter (·.sessionId = T.task.sessionId)).length
    if !T.permitted .agent name then refuse "delegate_not_permitted" [field]
    else if T.policy.any fun p => T.task.delegationDepth + 1 > p.maxDelegationDepth then
      refuse "delegate_depth_exceeded" [field, ("depth", .ofInt T.task.delegationDepth),
        ("max_delegation_depth", .ofInt ((T.policy.map (·.maxDelegationDepth)).getD 0))]
    else if chain.any (·.agentId = target.agentId) then refuse "delegate_cycle" [field]
    else if T.policy.any fun p => sessionTasks ≥ p.maxSessionTasks then
      refuse "delegate_session_task_limit" [field, ("session_tasks", .ofInt sessionTasks),
        ("max_session_tasks", .ofInt ((T.policy.map (·.maxSessionTasks)).getD 0))]
    else .ok target.agentId

/-- The text of `wait` is cast after the child row is inserted, outside every exception block. -/
def delegate (T : Turn) (parsed : Json) : Except Halt Step := do
  let target ← orRefuse (T.delegateTarget parsed)
  let wait ← castOr castBool "boolean" (parsed.text "wait")
  let child : Task :=
    { taskId := T.db.nextId
      sessionId := T.task.sessionId
      agentId := target
      parentTaskId := some T.task.taskId
      input := (parsed.get "input").getD (.object [])
      createdAt := T.now
      updatedAt := T.now
      delegationDepth := T.task.delegationDepth + 1 }
  pure
    { cfg := T.cfg
      next := .delegate child (wait.getD false)
      result := .object [("action", .str "continue"),
        ("child_task_id", .str (uuidText T.db.nextId))] }

def awaitHuman (T : Turn) (parsed : Json) : Step :=
  { cfg := T.cfg
    next := .awaitHuman (orEmpty (parsed.text "reason"))
    result := .object [("action", .str "wait")] }

def awaitChildren (T : Turn) : Except Refusal Step :=
  let pending := T.db.tasks.any fun c =>
    c.parentTaskId = some T.task.taskId ∧ ¬ c.status.finished
  if pending then
    .ok { cfg := T.cfg, next := .awaitChildren, result := .object [("action", .str "wait")] }
  else refuse "no_pending_children_to_await" []

end Turn

end Allgres
