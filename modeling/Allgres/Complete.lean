import Allgres.Claim
import Mathlib.Algebra.Order.Ring.Unbundled.Rat

/-! The four completions. A call is completed only from `in_flight`; the submitted
step may raise without undoing the harvest, everything before it may not. -/

namespace Allgres

open Raise Rows

def selectedEvent (db : Db) (taskId : Uuid) (type : CapabilityType) (name : Option String) :
    Option SearchEvent :=
  (sortDesc (·.createdAt) (db.events.filter fun e => e.taskId = some taskId ∧
    e.outcome = .selected ∧ db.cfg.capabilities.any fun k =>
      some k.capabilityId = e.selectedCapabilityId ∧ k.capabilityType = type ∧
        some k.name = name)).head?

def latency (now : Time) (e : SearchEvent) : Int :=
  (now : Int) - e.createdAt

/-- The milliseconds are cast to a four-byte integer before they are bounded below. -/
def latencyFits (now : Time) (e : SearchEvent) : Bool :=
  -2147483648 ≤ latency now e && latency now e ≤ 2147483647

def markCapabilityOutcome (now : Time) (db : Db) (taskId : Uuid) (type : CapabilityType)
    (name : Option String) (succeeded : Bool) : Except String Db :=
  match selectedEvent db taskId type name with
  | none => .ok db
  | some e =>
    if latencyFits now e then
      let mark := fun r : SearchEvent =>
        { r with
          outcome := if succeeded then .succeeded else .failed
          executionLatencyMs := some (max 0 (latency now e)) }
      .ok { db with events := update (·.eventId = e.eventId) mark db.events }
    else .error "integer out of range"

def recordCapabilityRemoteCost (db : Db) (taskId : Uuid) (cost : Rat) : Db :=
  let picked := db.events.filter fun e => e.taskId = some taskId ∧ e.selectedCapabilityId.isSome
  match (sortDesc (·.createdAt) picked).head? with
  | none => db
  | some e =>
    let add := fun r : SearchEvent => { r with costUsd := some (r.costUsd.getD 0 + max cost 0) }
    { db with events := update (·.eventId = e.eventId) add db.events }

def connectionCost (c : Config) (id : Option Uuid) : Rat :=
  ((id.bind c.connection?).map (·.costPerCallUsd)).getD 0

def isSuccess (status : Option Int) : Bool :=
  status.any fun s => 200 ≤ s && s < 300

def statusText (status : Option Int) : String :=
  toString (status.getD 0)

def functionResult (fields : List (String × Json)) : Json :=
  .object [("type", .str "function_result"), ("content", .object fields)]

def jsonOfStatus (status : Option Int) : Json :=
  match status with
  | some n => .ofInt n
  | none => .null

def httpError (word : String) (status : Option Int) (body : Option String) : Json :=
  errorPayload (word ++ " http " ++ statusText status ++ ": " ++ left (orEmpty body) 2000)

def completeFunctionKind (now : Time) (db : Db) (q : Call) (o : Outbound) (status : Option Int)
    (body : Option String) : Except String (Db × Json) := do
  let payload := functionResult [("status", jsonOfStatus status),
    ("call_id", .str (uuidText q.callId)), ("body", .str (left (orEmpty body) 16000)),
    ("procedure_function_id", .ofText (o.procedureFunctionId.map uuidText)),
    ("procedure_id", .ofText (o.procedureId.map uuidText))]
  match (o.procedureFunctionId.bind db.cfg.function?).map (·.name) with
  | none => pure (db, payload)
  | some name =>
    let marked ← markCapabilityOutcome now db q.taskId .function (some name) (isSuccess status)
    pure (recordCapabilityRemoteCost marked q.taskId (connectionCost db.cfg o.connectionId),
      payload)

/-- The `isError` flag of an MCP result, cast from its text. -/
def mcpIsError (v : Json) : Option String :=
  (v.get "result").bind fun r => r.text "isError"

def mcpContent (v : Json) : Json :=
  (((v.get "result").bind fun r => r.get "content").or (v.get "result")).getD .null

def mcpErrorText (v : Json) : String :=
  orEmpty (((v.get "result").bind fun r => r.get "content").bind fun c =>
    (c.item 0).bind fun x => x.text "text")

def mcpPayload (name : Option String) (status : Option Int) (body : Option String) :
    Except String Json :=
  let prefix_ := "mcp function " ++ name.getD "unknown"
  if !isSuccess status then .ok (httpError "mcp" status body)
  else match body.bind Json.parse with
    | none => .ok (errorPayload (prefix_ ++ " returned invalid JSON: " ++ left (orEmpty body) 500))
    | some v =>
      if v.has "error" then
        .ok (errorPayload (prefix_ ++ " failed: " ++
          ((v.get "error").bind fun e => e.text "message").getD "unknown error"))
      else do
        let flag ← castOrRaise castBool "boolean" (mcpIsError v)
        pure (if flag.getD false then
            errorPayload (prefix_ ++ " reported a tool error: " ++ left (mcpErrorText v) 500)
          else functionResult [("function", .ofText name), ("result", mcpContent v)])

def completeMcpKind (db : Db) (q : Call) (o : Outbound) (status : Option Int)
    (body : Option String) : Except String (Db × Json) := do
  let name := (o.procedureFunctionId.bind db.cfg.function?).map (·.name)
  let payload ← mcpPayload name status body
  pure (recordCapabilityRemoteCost db q.taskId (connectionCost db.cfg o.connectionId), payload)

def embeddingField (v : Option Json) : Option Json :=
  v.bind fun v => (v.get "data").bind fun d => (d.item 0).bind fun x => x.get "embedding"

def castVector : List Json → Except String (List (Option Float8))
  | [] => .ok []
  | x :: xs => do
    let a ← castOrRaise castFloat8 "double precision" x.asText
    let as ← castVector xs
    pure (a :: as)

/-- `array_agg` over `jsonb_array_elements_text`, which refuses a value that is no array. -/
def queryVector (v : Option Json) : Except String (List (Option Float8)) :=
  match embeddingField v with
  | none => .ok []
  | some (.arr xs) => castVector xs
  | some (.obj _) => .error "cannot extract elements from an object"
  | some _ => .error "cannot extract elements from a scalar"

section Ranking

variable {α : Type}

/-- Nulls last, as in the `LIMIT` of the scan. -/
def closer (pg : Postgres) (a b : α × Option Float8) : Bool :=
  match a.2, b.2 with
  | some x, some y => pg.float8Le y x
  | some _, none => true
  | none, b => b.isNone

/-- Nulls first, as in the `ORDER BY` of the aggregate. -/
def listedBefore (pg : Postgres) (a b : α × Option Float8) : Bool :=
  match a.2, b.2 with
  | some x, some y => pg.float8Le y x
  | none, _ => true
  | some _, b => b.isSome

def topRanked (pg : Postgres) (n : Nat) (rows : List (α × Option Float8)) :
    List (α × Option Float8) :=
  ((rows.insertionSort fun a b => closer pg a b).take n).insertionSort fun a b =>
    listedBefore pg a b

def withSimilarity (pg : Postgres) (rows : List (α × List (Option Float8))) (query : List (Option Float8)) :
    Except String (List (α × Option Float8)) := do
  let sims ← pg.similarities (rows.map (·.2)) query
  pure ((rows.map (·.1)).zip sims)

end Ranking

def similarityJson (s : Option Float8) : Json :=
  match s with
  | some x => .num x
  | none => .null

/-- The stored vectors that are comparable with a query. -/
def embedded {α : Type} (dims : Nat) (model : Option String)
    (vector : α → Option (List (Option Float8))) (modelOf : α → Option String) (a : α) :
    Option (α × List (Option Float8)) :=
  match vector a with
  | some v => if v.length = dims ∧ (modelOf a).isSome ∧ modelOf a = model then some (a, v) else none
  | none => none

def rankAgentsByEmbedding (pg : Postgres) (c : Config) (query : List (Option Float8))
    (requester : Option Uuid) (model : Option String) : Except String Json := do
  let rows := c.agents.filterMap fun a =>
    if a.isActive ∧ requester.any (fun r => a.agentId ≠ r ∧
        agentHasPermission c r .agent (some a.name)) then
      embedded query.length model (·.embedding) (·.embeddingModel) a
    else none
  let ranked ← withSimilarity pg rows query
  pure (.arr ((topRanked pg 5 ranked).map fun r =>
    .object [("agent_id", .str (uuidText r.1.agentId)), ("name", .str r.1.name),
      ("similarity", similarityJson r.2)]))

def rankMemoriesByEmbedding (pg : Postgres) (now : Time) (c : Config)
    (query : List (Option Float8)) (requester : Option Uuid) (model : Option String) :
    Except String Json := do
  let rows := c.memories.filterMap fun m =>
    if some m.agentId = requester ∧ m.expiresAt.all (now < ·) then
      embedded query.length model (·.embedding) (·.embeddingModel) m
    else none
  let ranked ← withSimilarity pg rows query
  pure (.arr ((topRanked pg 5 ranked).map fun r =>
    .object [("memory_id", .str (uuidText r.1.memoryId)), ("memory_type", .str r.1.memoryType),
      ("content", .str (left r.1.content 500)), ("similarity", similarityJson r.2)]))

def capabilityPermitted (c : Config) (requester : Uuid) (k : Capability) : Bool :=
  match k.capabilityType with
  | .agent => agentHasPermission c requester .agent (some k.name)
  | .function => agentHasPermission c requester .function (some k.name)
  | .procedure => agentHasPermission c requester .procedure (some k.name)
  | .plan => false

def keywordHit (pg : Postgres) (text : Option String) (k : Capability) : Bool :=
  (trimmed text).isSome && pg.keywordMatch k.searchDocument (orEmpty text)

/-- With the extension the limit is taken by similarity, without it by the boosted score. -/
def topCapabilities (pg : Postgres) (text : Option String) (rows : List (Capability × Option Float8)) :
    List (Capability × Option Float8) :=
  let score := fun r : Capability × Option Float8 =>
    let base := if pg.vectorAvailable then r.2 else some (r.2.getD "-1")
    (r, base.map fun s => if keywordHit pg text r.1 then pg.keywordBoost s else s)
  let kept := if pg.vectorAvailable then
      ((rows.insertionSort fun a b => closer pg a b).take 5).map score
    else ((rows.map score).insertionSort fun a b => closer pg a b).take 5
  (kept.insertionSort fun a b => listedBefore pg a b).map (·.1)

def rankCapabilitiesByEmbedding (pg : Postgres) (now : Time) (db : Db)
    (query : List (Option Float8)) (requester : Option Uuid) (model text : Option String)
    (taskId : Uuid) : Except String (Db × Json) := do
  let rows := db.cfg.capabilities.filterMap fun k =>
    if k.lifecycle = .published ∧ requester.any (capabilityPermitted db.cfg · k) then
      embedded query.length model (·.embedding) (·.embeddingModel) k
    else none
  let ranked ← withSimilarity pg rows query
  let out := Json.arr ((topCapabilities pg text ranked).map fun r =>
    .object [("capability_id", .str (uuidText r.1.capabilityId)),
      ("type", .str r.1.capabilityType.text), ("name", .str r.1.name),
      ("description", .str (left r.1.description 1000)), ("metadata", r.1.metadata),
      ("similarity", similarityJson r.2), ("keyword_match", .bool (keywordHit pg text r.1))])
  let event : SearchEvent :=
    { eventId := db.nextId
      taskId := some taskId
      requesterAgentId := requester
      queryText := text.map (left · 2000)
      embeddingModel := model
      candidates := out
      createdAt := now }
  pure ({ db with events := db.events ++ [event], nextId := db.nextId + 1 }, out)

def expectedModel (c : Config) (o : Outbound) : Option String :=
  (o.providerId.bind c.provider?).bind fun p =>
    (o.requestBody.text "model").map fun m => p.name ++ ":" ++ m

def noEmbedding : Json :=
  errorPayload "embedding response had no usable data[0].embedding"

def rankedPayload (status : Option Int) (ranked : Json) : Json :=
  functionResult [("status", jsonOfStatus status), ("body", .str ranked.render)]

/-- The common part of the three searches. -/
def completeSearch (db : Db) (status : Option Int) (body : Option String)
    (rank : List (Option Float8) → Except String (Db × Json)) : Except String (Db × Json) :=
  if !isSuccess status then .ok (db, httpError "embedding" status body)
  else do
    let query ← queryVector (body.bind Json.parse)
    if query = [] then pure (db, noEmbedding)
    else
      let (db', ranked) ← rank query
      pure (db', rankedPayload status ranked)

def requesterOf (db : Db) (taskId : Uuid) : Option Uuid :=
  (db.task? taskId).map (·.agentId)

def completeEmbeddingKind (pg : Postgres) (db : Db) (q : Call) (o : Outbound)
    (status : Option Int) (body : Option String) : Except String (Db × Json) :=
  completeSearch db status body fun query => do
    let ranked ← rankAgentsByEmbedding pg db.cfg query (requesterOf db q.taskId)
      (expectedModel db.cfg o)
    pure (db, ranked)

def completeRecallKind (pg : Postgres) (now : Time) (db : Db) (q : Call) (o : Outbound)
    (status : Option Int) (body : Option String) : Except String (Db × Json) :=
  completeSearch db status body fun query => do
    let ranked ← rankMemoriesByEmbedding pg now db.cfg query (requesterOf db q.taskId)
      (expectedModel db.cfg o)
    pure (db, ranked)

/-- `v_mcp_fname` is never set on this path, so the outcome names no function. -/
def completeCapabilitySearchKind (pg : Postgres) (now : Time) (db : Db) (q : Call) (o : Outbound)
    (status : Option Int) (body : Option String) : Except String (Db × Json) := do
  let (db', payload) ← completeSearch db status body fun query =>
    rankCapabilitiesByEmbedding pg now db query (requesterOf db q.taskId) (expectedModel db.cfg o)
      (o.requestBody.text "input") q.taskId
  let marked ← markCapabilityOutcome now db' q.taskId .function none
    (payload.text "type" ≠ some "error")
  pure (marked, payload)

/-- The path element `0`, which also names a key of an object. -/
def pathZero (v : Json) : Option Json :=
  (v.item 0).or (v.get "0")

def choiceText (v : Json) : Option String :=
  (v.get "choices").bind fun cs => (pathZero cs).bind fun c =>
    (c.get "message").bind fun m => m.text "content"

def contentText (v : Json) : Option String :=
  (v.get "content").bind fun cs => (pathZero cs).bind fun c => c.text "text"

def llmTextFromHttp (body : Option String) : Option String :=
  match body.bind Json.parse with
  | none => body
  | some v => (choiceText v).or ((contentText v).or body)

/-- The token counts of a response; a count that is no integer makes them unknown. -/
def llmUsageFromHttp (body : Option String) : Option (Option Int × Option Int) :=
  match (body.bind Json.parse).bind fun v => v.get "usage" with
  | none => none
  | some u =>
    let counts := fun prompt completion => (do
      let p ← castOrRaise castInt "integer" (nullIfEmpty (u.text prompt))
      let c ← castOrRaise castInt "integer" (nullIfEmpty (u.text completion))
      pure (p, c) : Except String (Option Int × Option Int)).toOption
    if (u.text "prompt_tokens").isSome then counts "prompt_tokens" "completion_tokens"
    else if (u.text "input_tokens").isSome then counts "input_tokens" "output_tokens"
    else none

def callCost (c : Config) (o : Outbound) (usage : Option (Option Int × Option Int)) : Option Rat :=
  usage.bind fun u =>
    (c.prices.find? fun p => some p.providerId = o.providerId ∧
      some p.model = o.requestBody.text "model").map fun p =>
      (((u.1.getD 0 : Int) : Rat) / 1000) * p.inputPricePer1k +
        (((u.2.getD 0 : Int) : Rat) / 1000) * p.outputPricePer1k

def chargeSchedule (c : Config) (id : Uuid) (cost : Rat) : Config :=
  let charge := fun s : Schedule =>
    let spent := s.spentCostUsd + cost
    { s with
      spentCostUsd := spent
      isActive := s.isActive && !s.maxCostUsd.any (· ≤ spent) }
  { c with schedules := update (·.scheduleId = id) charge c.schedules }

def scheduleOf (db : Db) (taskId : Uuid) : Option Uuid :=
  (db.task? taskId).bind fun t => (db.session? t.sessionId).bind (·.scheduleId)

def refusesResponseFormat (status : Option Int) (body : Option String) : Bool :=
  status = some 400 && body.any fun b =>
    (lower b).toList.tails.any ("response_format.type".toList.isPrefixOf ·)

def dropResponseFormat (c : Config) (id : Option Uuid) : Config :=
  let hit := fun p : Provider => decide (some p.providerId = id)
  let drop := fun p : Provider => { p with responseFormatJsonObject := false }
  { c with providers := update hit drop c.providers }

def completeLlmKind (db : Db) (q : Call) (o : Outbound) (status : Option Int)
    (body : Option String) : Db × Json :=
  if status.any fun s => 200 ≤ s && s < 400 then
    let text := llmTextFromHttp body
    let payload := Json.object [("type", .str "llm_response"), ("content", .ofText text),
      ("parsed", (extractFirstJson text).getD .null)]
    let usage := llmUsageFromHttp body
    let cost := callCost db.cfg o usage
    let db := db.updateCall q.callId fun c =>
      { c with
        promptTokens := usage.bind (·.1)
        completionTokens := usage.bind (·.2)
        costUsd := cost }
    match cost, scheduleOf db q.taskId with
    | some x, some id => ({ db with cfg := chargeSchedule db.cfg id x }, payload)
    | _, _ => (db, payload)
  else
    let db := if refusesResponseFormat status body then
        { db with cfg := dropResponseFormat db.cfg o.providerId } else db
    (db, httpError "llm" status body)

def completeKind (pg : Postgres) (now : Time) (db : Db) (q : Call) (o : Outbound)
    (status : Option Int) (body : Option String) : Except String (Db × Json) :=
  match o.kind with
  | .function => completeFunctionKind now db q o status body
  | .mcp => completeMcpKind db q o status body
  | .embedding => completeEmbeddingKind pg db q o status body
  | .capabilitySearch => completeCapabilitySearchKind pg now db q o status body
  | .recallMemories => completeRecallKind pg now db q o status body
  | .llm => .ok (completeLlmKind db q o status body)

namespace Db

def harvest (db : Db) (id : Uuid) (now : Time) : Db :=
  db.updateCall id fun c => { c with status := .harvested, updatedAt := now }

def harvestResponse (db : Db) (id : Uuid) (status : Option Int) (body : Option String)
    (now : Time) : Db :=
  db.updateCall id fun c =>
    { c with
      status := .harvested
      responseStatus := status
      responseBody := some (left (orEmpty body) 200000)
      updatedAt := now }

def pauseAmbiguousOutbound (db : Db) (q : Call) (reason : String) (now : Time) : Db :=
  let lost := db.updateCall q.callId fun c =>
    { c with status := .lost, error := some reason, updatedAt := now }
  match (lost.task? q.taskId).filter (·.status = .running) with
  | none => lost
  | some t =>
    let paused := lost.updateTask t.taskId fun r =>
      { r with status := .waitingHuman, updatedAt := now }
    (paused.insertApproval t.taskId (.ambiguous q.callId reason) now (now + dayMillis)).appendLog
      t.taskId t.stepCount .error (.object [("reason", .str "outbound_result_unknown"),
        ("call_id", .str (uuidText q.callId)), ("detail", .str reason)]) now

end Db

/-- Submit a result to a task that is still running, whatever the step raises. -/
def submitIfRunning (pg : Postgres) (now : Time) (db : Db) (taskId : Uuid) (payload : Json) :
    Db × Json :=
  if db.running taskId then
    match fnSubmitResult pg now db taskId payload with
    | .ok r => r
    | .error e => (db, .object [("action", .str "error"), ("message", .str e)])
  else (db, .object [("action", .str "skipped"), ("reason", .str "task_not_running")])

def failedReasons : List String :=
  ["unknown_action", "payload_rejected", "final_answer_missing_answer"]

def outcomeOf (result : Json) : Outcome :=
  if result.text "action" = some "error" ∨ (result.text "action" = some "continue" ∧
      (result.text "reason").any failedReasons.contains) then .failure
  else .success

def stale (q : Call) : Json :=
  .object [("submit", .object [("action", .str "stale"), ("reason", .str "call_not_in_flight"),
      ("status", .str q.status.text)]), ("call_id", .str (uuidText q.callId))]

def completed (q : Call) (result : Json) : Json :=
  .object [("submit", result), ("call_id", .str (uuidText q.callId))]

def isMutation (o : Outbound) : Bool :=
  (o.kind = .function || o.kind = .mcp) && o.method != .get

def isAmbiguous (o : Outbound) (status : Option Int) : Bool :=
  isMutation o && status.all fun s => s = 0 || 500 ≤ s

def scoreOutcome (db : Db) (q : Call) (o : Outbound) (result : Json) : Db :=
  if o.kind = .llm ∧ o.procedureFunctionId.isSome then
    db.updateCall q.callId fun c => { c with outcome := some (outcomeOf result) }
  else db

/-- The completion of a claimed call. -/
def harvestOutbound (pg : Postgres) (now : Time) (db : Db) (q : Call) (o : Outbound)
    (status : Option Int) (body : Option String) : Except String (Db × Json) :=
  if isAmbiguous o status then
    let noted := db.updateCall q.callId fun c =>
      { c with responseStatus := status, responseBody := some (left (orEmpty body) 200000) }
    .ok (noted.pauseAmbiguousOutbound q "transport_or_server_result_unknown" now,
      completed q (.object [("action", .str "wait")]))
  else do
    let (db', payload) ← completeKind pg now (db.harvestResponse q.callId status body now) q o
      status body
    let (db'', result) := submitIfRunning pg now db' q.taskId payload
    pure (scoreOutcome db'' q o result, completed q result)

def fnCompleteOutbound (pg : Postgres) (now : Time) (db : Db) (callId : Uuid)
    (status : Option Int) (body : Option String) : Except String (Db × Json) :=
  match db.call? .outboundCalls callId with
  | none => .error "fn_complete_outbound: not found"
  | some q =>
    if q.status ≠ .inFlight then .ok (db, stale q)
    else match q.req with
      | .outbound o => harvestOutbound pg now db q o status body
      | _ => .error "fn_complete_outbound: not found"

/-- What the worker reports of a statement or a routine it ran. -/
structure LocalResult where
  ok : Option Bool
  result : Option Json := none
  rowCount : Option Int := none
  truncated : Option Bool := none
  error : Option String := none

def sqlPayload (sql : String) (r : LocalResult) : Json :=
  if r.ok.getD false then
    functionResult [("sql", .str sql), ("result", .object [("ok", .bool true),
      ("row_count", .ofInt (r.rowCount.getD 0)), ("truncated", .bool (r.truncated.getD false)),
      ("rows", r.result.getD (.arr []))])]
  else errorPayload ("sql: " ++ left sql 200 ++ " -- " ++ r.error.getD "execution failed")

def routinePayload (type word : String) (name : Option String) (id : Uuid) (r : LocalResult) :
    Json :=
  if r.ok.getD false then
    .object [("type", .str type), ("content", .object [(word, .ofText name),
      ("result", r.result.getD .null)])]
  else errorPayload (word ++ " " ++ name.getD (uuidText id) ++ " failed: " ++
    r.error.getD "execution failed")

/-- The part of a local completion behind its fence, by what was called. -/
def completeLocalRequest (now : Time) (db : Db) (q : Call) (r : LocalResult) :
    Except String (Db × Json) :=
  match q.req with
  | .sql _ sql => .ok (db, sqlPayload sql r)
  | .function id _ _ => do
    let name := (db.cfg.function? id).map (·.name)
    let db' ← markCapabilityOutcome now db q.taskId .function name (r.ok.getD false)
    pure (db', routinePayload "function_result" "function" name id r)
  | .procedure id _ _ => do
    let name := (db.cfg.procedure? id).map (·.name)
    let db' ← markCapabilityOutcome now db q.taskId .procedure name (r.ok.getD false)
    pure (db', routinePayload "procedure_result" "procedure" name id r)
  | .outbound _ => .error "fn_complete_outbound: not found"

def completionName : Queue → String
  | .outboundCalls => "fn_complete_outbound"
  | .sqlCalls => "fn_complete_sql"
  | .functionCalls => "fn_complete_function_call"
  | .procedureCalls => "fn_complete_procedure_call"

/-- `fn_complete_sql`, `fn_complete_function_call` and `fn_complete_procedure_call`, by queue. -/
def fnCompleteLocal (pg : Postgres) (now : Time) (db : Db) (queue : Queue) (callId : Uuid)
    (r : LocalResult) : Except String (Db × Json) :=
  match db.call? queue callId with
  | none => .error (completionName queue ++ ": not found")
  | some q =>
    if q.status ≠ .inFlight then .ok (db, stale q)
    else do
      let (db', payload) ← completeLocalRequest now (db.harvest q.callId now) q r
      let (db'', result) := submitIfRunning pg now db' q.taskId payload
      pure (db'', completed q result)

end Allgres
