import Allgres.CallStates
import Allgres.EmbeddingFreshness
import Allgres.Logins
import Allgres.PerformHttp
import Allgres.Pool
import Allgres.ProviderProbes

/-! The `allgres runtime` worker. The SPI thread goes round its loop: it submits the results of the
HTTP threads, tells them of cancellations and claims new calls for them. Other sessions commit
between any two of its transactions, and the process can die at any point. -/

namespace Allgres.RuntimeWorker

open Raise Rows Runs ThreadPool PerformHttp

def httpThreads : Nat :=
  4

def capacity : Nat :=
  httpThreads * 2

/-- Twice `HTTP_TIMEOUT`. -/
def watchdogSeconds : Int :=
  90

inductive OutboundQueue where
  | outbound
  | oauth
  | agentEmbedding
  | providerProbe
  deriving DecidableEq

/-- A call goes by its queue and its id: ids of different tables never coincide. -/
abbrev CallKey := OutboundQueue × Uuid

structure OutboundJob where
  callId : Uuid
  queue : OutboundQueue
  call : Json

structure OutboundResult where
  callId : Uuid
  queue : OutboundQueue
  status : Int
  body : String

def OutboundJob.key (j : OutboundJob) : CallKey :=
  (j.queue, j.callId)

def OutboundResult.key (r : OutboundResult) : CallKey :=
  (r.queue, r.callId)

section Calls

def kindText : OutboundKind → String
  | .llm => "llm"
  | .function => "function"
  | .embedding => "embedding"
  | .capabilitySearch => "capability_search"
  | .recallMemories => "recall"
  | .mcp => "mcp"

/-- What `fn_claim_outbound` returns of a call. -/
def outboundCall : Handed → Json
  | .outbound callId taskId kind function url method headers body allowPrivate => .object [
      ("call_id", .str (uuidText callId)), ("task_id", .str (uuidText taskId)),
      ("kind", .str (kindText kind)), ("function", .ofText function), ("url", .str url),
      ("method", .str (Turn.Method.text method)), ("headers", headers), ("body", body),
      ("allow_private", .bool allowPrivate)]
  | _ => .null

def outboundJob (h : Handed) : OutboundJob where
  callId := h.callId
  queue := .outbound
  call := outboundCall h

/-- What the claims of the other queues return, with the kind that the worker inserts. -/
def operatorCall (queue : OutboundQueue) (r : OperatorRequest) : Json :=
  let request := [("call_id", Json.str (uuidText r.callId)), ("url", .str r.url),
    ("headers", r.headers), ("allow_private", .bool r.allowPrivate)]
  match queue with
  | .oauth => .object (request ++ [("body", r.body), ("kind", .str "oauth")])
  | .agentEmbedding => .object (request ++ [("body", r.body), ("kind", .str "embedding")])
  | _ => .object (request ++ [("method", .str "GET"), ("kind", .str "function")])

def operatorJob (queue : OutboundQueue) (r : OperatorRequest) : OutboundJob where
  callId := r.callId
  queue := queue
  call := operatorCall queue r

end Calls

/-- Where the SPI thread stands in its loop. -/
inductive Phase where
  | harvest
  | submit (result : OutboundResult)
  | look
  | ask (ids : List CallKey)
  | flag (lost : List CallKey)
  | claim (queue : OutboundQueue)
  | send (queue : OutboundQueue) (calls : List OutboundJob)

structure Worker where
  phase : Phase := .harvest
  inFlight : Nat := 0
  pool : Pool OutboundJob OutboundResult := .idle httpThreads
  /-- `OUTBOUND_CANCEL_FLAGS`. -/
  flags : List (CallKey × Bool) := []

structure System where
  db : Db
  worker : Worker := {}

/-- What the SPI thread finds at a step: the time, whether `drop_privileges` succeeds, whether the
pump is due and the extension installed, the draws of a dispatch and the rows others hold. -/
structure Tick where
  now : Time
  dropped : Bool := true
  due : Bool := true
  installed : Bool := true
  roll : Uuid → Rat := fun _ => 0
  locked : List Uuid := []

section Transactions

variable (pg : Postgres) (t : Tick)

def sanitized (body : String) : String :=
  truncateUtf8 (String.ofList (body.toList.filter (· ≠ Char.ofNat 0))) maxResponseBytes

def submit (db : Db) (r : OutboundResult) : Except String Db :=
  let status := some r.status
  let body := some (sanitized r.body)
  match r.queue with
  | .outbound => (fnCompleteOutbound pg t.now db r.callId status body).map (·.1)
  | .oauth =>
    (fnCompleteOauth t.now db.cfg r.callId status body).map fun x => { db with cfg := x.1 }
  | .agentEmbedding =>
    (fnCompleteAgentEmbedding pg t.now db.cfg r.callId status body).map fun x =>
      { db with cfg := x.1 }
  | .providerProbe =>
    (fnCompleteProviderProbe t.now db.cfg r.callId status body).map fun x => { db with cfg := x.1 }

def fnCheckLostOutbound (db : Db) (ids : List CallKey) : List CallKey :=
  (db.calls.filter fun q => q.req.queue = .outboundCalls ∧ q.status = .lost ∧
    ids.contains (.outbound, q.callId)).map fun q => (.outbound, q.callId)

def dispatchAndClaim (limit : Nat) (db : Db) : Except String (Db × List Handed) := do
  let watched := fnWatchdog pg t.now (some watchdogSeconds) t.locked db
  let (dispatched, _) ← fnDispatchTasks pg t.now t.roll t.locked watched
  pure (fnClaim pg t.now .outboundCalls (some limit) none t.locked dispatched)

def claimJobs (limit : Nat) (queue : OutboundQueue) (db : Db) :
    Except String (Db × List OutboundJob) :=
  match queue with
  | .outbound => (dispatchAndClaim pg t limit db).map fun r => (r.1, r.2.map outboundJob)
  | .oauth => (fnClaimOauth t.now (some limit) t.locked db.cfg).map fun r =>
      ({ db with cfg := r.1 }, r.2.map (operatorJob .oauth))
  | .agentEmbedding =>
    let r := fnClaimAgentEmbedding t.now (some limit) t.locked db.cfg
    .ok ({ db with cfg := r.1 }, r.2.map (operatorJob .agentEmbedding))
  | .providerProbe =>
    let r := fnClaimProviderProbe t.now (some limit) t.locked db.cfg
    .ok ({ db with cfg := r.1 }, r.2.map (operatorJob .providerProbe))

end Transactions

def OutboundQueue.next : OutboundQueue → Option OutboundQueue
  | outbound => some .oauth
  | oauth => some .agentEmbedding
  | agentEmbedding => some .providerProbe
  | providerProbe => none

/-- After the last queue come the sandbox, functions and procedures, and the next iteration. -/
def afterQueue (queue : OutboundQueue) : Phase :=
  match queue.next with
  | some q => .claim q
  | none => .harvest

def afterFlags (t : Tick) : Phase :=
  if t.due && t.installed then .claim .outbound else .harvest

namespace System

variable (pg : Postgres) (s : System)

/-- The process dies: its threads, channels and flags are gone. -/
def crash : System :=
  { db := s.db }

def goto (phase : Phase) : System :=
  { s with worker := { s.worker with phase } }

def setFlags (flags : List (CallKey × Bool)) : System :=
  { s with worker := { s.worker with flags } }

/-- One step of the loop. A raise in a transaction ends the process. -/
def spi (t : Tick) : System :=
  let w := s.worker
  match w.phase with
  | .harvest => match w.pool.receive with
    | some (r, pool) =>
      { s with worker := { w with phase := .submit r, inFlight := w.inFlight - 1, pool } }
    | none => s.goto .look
  | .submit r =>
    if t.dropped then match submit pg t s.db r with
      | .ok db => { db, worker := { w with phase := .harvest } }
      | .error _ => s.crash
    else s.goto .harvest
  | .look => s.goto (if w.flags = [] then afterFlags t else .ask (w.flags.map (·.1)))
  | .ask ids =>
    let lost := if t.dropped then fnCheckLostOutbound s.db ids else []
    s.goto (if lost = [] then afterFlags t else .flag lost)
  | .flag lost =>
    (s.setFlags (w.flags.map fun f => (f.1, f.2 || lost.contains f.1))).goto (afterFlags t)
  | .claim queue =>
    if w.inFlight < capacity ∧ t.dropped then
      match claimJobs pg t (capacity - w.inFlight) queue s.db with
      | .ok (db, calls) => { db, worker := { w with phase := .send queue calls } }
      | .error _ => s.crash
    else s.goto (afterQueue queue)
  | .send queue [] => s.goto (afterQueue queue)
  | .send queue (job :: calls) =>
    { s with worker :=
      { w with phase := .send queue calls, inFlight := w.inFlight + 1, pool := w.pool.send job } }

/-- `CancelGuard::register`. -/
def register (i : Nat) : System :=
  match s.worker.pool.threads[i]? with
  | some (.taken j) =>
    { s with worker :=
      { s.worker with
        pool := s.worker.pool.enter i
        flags := (j.key, false) :: s.worker.flags.filter (·.1 ≠ j.key) } }
  | _ => s

def answer (U : Ureq) (parse : String → Option Json) (j : OutboundJob) : OutboundResult :=
  let performed := performHttp U parse j.call
  { callId := j.callId
    queue := j.queue
    status := performed.status
    body := performed.text }

/-- `perform_http` returns, and its guard is dropped. -/
def perform (i : Nat) (U : Ureq) (parse : String → Option Json) : System :=
  match s.worker.pool.threads[i]? with
  | some (.working j) =>
    { s with worker :=
      { s.worker with
        pool := s.worker.pool.finish i (answer U parse)
        flags := s.worker.flags.filter (·.1 ≠ j.key) } }
  | _ => s

end System

/-- The functions that only the worker calls. -/
def Op.reserved : Op → Bool
  | .claim queue _ _ _ => queue = .outboundCalls
  | .completeOutbound _ _ _ => true
  | _ => false

/-- An event is a transaction of another session or a request on the socket, a step of the SPI
thread, a step of an HTTP thread, or the end of the process. The network is free to answer each
performance as it likes. -/
inductive WorkerEvent where
  | session (e : Event)
  | tick (t : Tick)
  | take (thread : Nat)
  | register (thread : Nat)
  | perform (thread : Nat) (U : Ureq) (parse : String → Option Json)
  | deliver (thread : Nat)
  | crash

def step (pg : Postgres) (s : System) : WorkerEvent → System
  | .session e => if Op.reserved e.op then s else { s with db := Allgres.step pg s.db e }
  | .tick t => s.spi pg t
  | .take i => { s with worker := { s.worker with pool := s.worker.pool.take i } }
  | .register i => s.register i
  | .perform i U parse => s.perform i U parse
  | .deliver i => { s with worker := { s.worker with pool := s.worker.pool.deliver i } }
  | .crash => s.crash

/-- An empty database and a worker that has just started. -/
def start (c : Config) : System :=
  { db := Allgres.start c }

end Allgres.RuntimeWorker
