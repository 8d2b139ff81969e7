import Allgres.Builds
import Allgres.Runs
import Allgres.Subtransaction

/-! The jobs that the worker runs in a subtransaction of its session, and what they leave behind. -/

namespace Allgres

open Runs

def sqlStatementTimeoutMs : Nat :=
  5000

def procedureCallTimeoutMs : Nat :=
  60000

def validPgRole (s : String) : Bool :=
  validSqlIdent s "allgres_agent_"

/-- The role a call runs under. -/
def roleOr (pgRole : Option String) : String :=
  (pgRole.filter validPgRole).getD "sandbox"

/-- `dollar_quote` adds an `x` to the tag as long as the body has it. -/
def freshTag (body : List Char) : Nat → List Char → List Char
  | 0, tag => tag
  | n + 1, tag =>
    if ('$' :: tag ++ ['$']) <:+: body then freshTag body n (tag ++ ['x']) else tag

def bodyTag (nanos : Nat) (body : List Char) : List Char :=
  freshTag body body.length ("body_".toList ++ Nat.toDigits 16 nanos)

def dollarQuote (nanos : Nat) (body : String) : String :=
  let tag := '$' :: bodyTag nanos body.toList ++ ['$']
  String.ofList (tag ++ '\n' :: body.toList ++ '\n' :: tag)

def declaration (kind : RoutineKind) (sqlIdent : String) : String :=
  match kind with
  | .procedure => "PROCEDURE allgres_functions." ++ sqlIdent ++ "(p_args jsonb, INOUT p_result jsonb)"
  | .function => "FUNCTION allgres_functions." ++ sqlIdent ++ "(p_args jsonb) RETURNS jsonb"

def createRoutine (kind : RoutineKind) (sqlIdent : String) (nanos : Nat) (source : String) : Statement :=
  ⟨"CREATE OR REPLACE " ++ declaration kind sqlIdent ++ " LANGUAGE plpgsql SECURITY INVOKER AS " ++
    dollarQuote nanos source ++ ";", []⟩

def guardedSource (sqlIdent body terminator : String) : String :=
  "BEGIN\nPERFORM allgres_private.assert_local_execution('" ++ sqlIdent ++ "');\n" ++ body ++ "\n" ++
    terminator ++ "\nEND;"

section Closures

variable {δ : Type} (P : PgServer δ)

/-- A closure goes on once its settings are made, and gives up when one of them is refused. -/
def prepared (settings : List Statement) (refusal : String) (f : Closure δ) : Closure δ := fun s =>
  match prepare P settings s with
  | (s', .returned true) => f s'
  | (s', .returned false) => (s', .returned (.error refusal))
  | (s', .thrown e) => (s', .thrown e)

/-- `Spi::run(st)?`. -/
def runThen (st : WorkerSession δ → Statement) (f : Closure δ) : Closure δ := fun s =>
  match spi P (st s) s with
  | (s', .returned (.ok _)) => f s'
  | (s', .returned (.error e)) => (s', .returned (.error e))
  | (s', .thrown e) => (s', .thrown e)

def returnNull : Closure δ := fun s =>
  (s, .returned (.ok .null))

def create (kind : RoutineKind) (sqlIdent source : String) (s : WorkerSession δ) : Statement :=
  createRoutine kind sqlIdent (P.nanos s.clock) source

def createGuarded (kind : RoutineKind) (sqlIdent body : String) : Closure δ := fun s =>
  match runInSubtransaction (runThen P (create P kind sqlIdent (guardedSource sqlIdent body "")) returnNull) s with
  | (s', .ok _) => (s', .returned (.ok .null))
  | (s', .error _) => runThen P (create P kind sqlIdent (guardedSource sqlIdent body ";")) returnNull s'

def buildSettings : List Statement :=
  [⟨"SET LOCAL ROLE allgres_function_admin", []⟩]

def checkBodies : Statement :=
  ⟨"SET LOCAL check_function_bodies = on", []⟩

def guardedBuild (kind : RoutineKind) (sqlIdent body : String) : Closure δ :=
  prepared P buildSettings "allgres_function_admin role unavailable"
    (runThen P (fun _ => checkBodies)
      (runThen P (create P kind sqlIdent body) (createGuarded P kind sqlIdent body)))

/-- A call under the statement timeout. -/
def timedCall (ms : Nat) (call : Statement) (whenNone : Except String Json) : Closure δ := fun s =>
  match spi P call (s.enableTimeout ms) with
  | (s', .returned (.ok (some v))) => (s'.disableTimeout, .returned (.ok v))
  | (s', .returned (.ok none)) => (s'.disableTimeout, .returned whenNone)
  | (s', .returned (.error e)) => (s'.disableTimeout, .returned (.error e))
  | (s', .thrown e) => (s', .thrown e)

end Closures

def sandboxSettings (agentId role : String) : List Statement :=
  [⟨"SET LOCAL ROLE " ++ role, []⟩, ⟨"SET LOCAL search_path = pg_temp", []⟩,
    ⟨"SET LOCAL transaction_read_only = on", []⟩,
    ⟨"SET LOCAL statement_timeout = '" ++ toString sqlStatementTimeoutMs ++ "ms'", []⟩,
    ⟨"SELECT set_config('allgres.agent_id', $1, true)", [.str agentId]⟩]

def callSettings (queue callId role : String) (ms : Nat) : List Statement :=
  [⟨"SELECT allgres_private.begin_local_execution('" ++ queue ++ "', $1::uuid)", [.str callId]⟩,
    ⟨"SET LOCAL ROLE " ++ role, []⟩, ⟨"SET LOCAL search_path = pg_temp", []⟩,
    ⟨"SET LOCAL statement_timeout = '" ++ toString ms ++ "ms'", []⟩]

def sandboxedCall (sql : String) : Statement :=
  ⟨"SELECT allgres_public.fn_run_sandboxed_sql($1)", [.str sql]⟩

def functionStatement (sqlIdent : String) (args : Json) : Statement :=
  ⟨"SELECT allgres_functions." ++ sqlIdent ++ "($1::jsonb)", [args]⟩

def procedureStatement (sqlIdent : String) (args : Json) : Statement :=
  ⟨"CALL allgres_functions." ++ sqlIdent ++ "($1::jsonb, '\x7b\x7d'::jsonb)", [args]⟩

section Runs

variable {δ : Type} (P : PgServer δ)

def runSandboxedSql (agentId sql : String) (pgRole : Option String) (s : WorkerSession δ) :
    WorkerSession δ × Except String Json :=
  transaction (runInSubtransaction (prepared P (sandboxSettings agentId (roleOr pgRole)) "sandbox role unavailable"
    (timedCall P sqlStatementTimeoutMs (sandboxedCall sql) (.error "sandboxed execution returned nothing")))) s

def runGuardedBuild (kind : RoutineKind) (sqlIdent body : String) (s : WorkerSession δ) :
    WorkerSession δ × Except String Json :=
  if validSqlIdent sqlIdent kind.identStart then
    transaction (runInSubtransaction (guardedBuild P kind sqlIdent body)) s
  else (s, .error "invalid sql_ident")

def runFunctionCall (callId sqlIdent : String) (args : Json) (pgRole : Option String) (s : WorkerSession δ) :
    WorkerSession δ × Except String Json :=
  if validSqlIdent sqlIdent "fn_" then
    transaction (runInSubtransaction (prepared P
      (callSettings "function_calls" callId (roleOr pgRole) sqlStatementTimeoutMs) "function role unavailable"
      (timedCall P sqlStatementTimeoutMs (functionStatement sqlIdent args) (.ok .null)))) s
  else (s, .error "invalid sql_ident")

def runProcedureCall (callId sqlIdent : String) (args : Json) (pgRole : Option String) (s : WorkerSession δ) :
    WorkerSession δ × Except String Json :=
  if validSqlIdent sqlIdent "proc_" then
    transaction (runInSubtransaction (prepared P
      (callSettings "procedure_calls" callId (roleOr pgRole) procedureCallTimeoutMs) "procedure role unavailable"
      (timedCall P procedureCallTimeoutMs (procedureStatement sqlIdent args) (.ok .null)))) s
  else (s, .error "invalid sql_ident")

end Runs

inductive PumpJob where
  | sandboxedSql (agentId sql : String) (pgRole : Option String)
  | build (kind : RoutineKind) (sqlIdent body : String)
  | functionCall (callId sqlIdent : String) (args : Json) (pgRole : Option String)
  | procedureCall (callId sqlIdent : String) (args : Json) (pgRole : Option String)

def runJob {δ : Type} (P : PgServer δ) (s : WorkerSession δ) : PumpJob → WorkerSession δ × Except String Json
  | .sandboxedSql agentId sql pgRole => runSandboxedSql P agentId sql pgRole s
  | .build kind sqlIdent body => runGuardedBuild P kind sqlIdent body s
  | .functionCall callId sqlIdent args pgRole => runFunctionCall P callId sqlIdent args pgRole s
  | .procedureCall callId sqlIdent args pgRole => runProcedureCall P callId sqlIdent args pgRole s

def jobStep {δ : Type} (P : PgServer δ) (s : WorkerSession δ) (job : PumpJob) : WorkerSession δ :=
  (runJob P s job).1

/-- What a job owes the session it ran in. -/
structure Hygienic {δ : Type} (s : WorkerSession δ) (r : WorkerSession δ × Except String Json) : Prop where
  depth : r.1.begun.length = s.begun.length
  rolledBack : ∀ e, r.2 = .error e → r.1.db = s.db
  disarmed : r.1.timer = none

section Calm

variable {δ : Type} (P : PgServer δ)

/-- A statement is answered or raises an error, and what it is answered with is taken further. -/
def settles {α : Type} (r : WorkerSession δ × Ended (Except String α)) (next : WorkerSession δ → Bool) : Bool :=
  match r with
  | (s, .returned (.ok _)) => next s
  | (_, .returned (.error _)) => false
  | (_, .thrown _) => true

/-- The settings are made, or one of them raises an error. -/
def readies (settings : List Statement) (s : WorkerSession δ) (next : WorkerSession δ → Bool) : Bool :=
  match prepare P settings s with
  | (s', .returned b) => b && next s'
  | (_, .thrown _) => true

/-- A call is answered, or the error it raises comes once its timer has fired. -/
def callSettles (call : Statement) (needsValue : Bool) (s : WorkerSession δ) : Bool :=
  let r := P.exec s.clock call s.db
  match r.outcome with
  | .ok v => v.isSome || !needsValue
  | .err _ => false
  | .raised _ => r.fired

def buildSettles (kind : RoutineKind) (sqlIdent body : String) (s : WorkerSession δ) : Bool :=
  settles (spi P checkBodies s) fun s₁ =>
    settles (spi P (create P kind sqlIdent body s₁) s₁) fun s₂ =>
      match spi P (create P kind sqlIdent (guardedSource sqlIdent body "") s₂.beginSub) s₂.beginSub with
      | (_, .returned (.ok _)) => true
      | (_, .returned (.error _)) => false
      | (s₃, .thrown _) =>
        settles (spi P (create P kind sqlIdent (guardedSource sqlIdent body ";") s₃.rollbackSub) s₃.rollbackSub)
          fun _ => true

end Calm

/-- The session inside of the subtransaction of a job. -/
def WorkerSession.inJob {δ : Type} (s : WorkerSession δ) : WorkerSession δ :=
  s.startTransaction.beginSub

/-- No statement of the job is answered with an error code or, where a value is due, with none; the
role of the worker is there; and no error is raised under a running timer but by this timer. -/
def PumpJob.calm {δ : Type} (P : PgServer δ) (s : WorkerSession δ) : PumpJob → Bool
  | .sandboxedSql agentId sql pgRole =>
    readies P (sandboxSettings agentId (roleOr pgRole)) s.inJob (callSettles P (sandboxedCall sql) true)
  | .build kind sqlIdent body =>
    !validSqlIdent sqlIdent kind.identStart ||
      readies P buildSettings s.inJob (buildSettles P kind sqlIdent body)
  | .functionCall callId sqlIdent args pgRole =>
    !validSqlIdent sqlIdent "fn_" ||
      readies P (callSettings "function_calls" callId (roleOr pgRole) sqlStatementTimeoutMs) s.inJob
        (callSettles P (functionStatement sqlIdent args) false)
  | .procedureCall callId sqlIdent args pgRole =>
    !validSqlIdent sqlIdent "proc_" ||
      readies P (callSettings "procedure_calls" callId (roleOr pgRole) procedureCallTimeoutMs) s.inJob
        (callSettles P (procedureStatement sqlIdent args) false)

end Allgres
