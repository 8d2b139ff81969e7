import Allgres.Machine

/-! The builds of functions and procedures. A build is claimed from the table, deployed as
an object of `allgres_functions` by a worker, and reported; edits and the watchdog may
come between any two of these. -/

namespace Allgres

open Raise Rows Runs

inductive RoutineKind where
  | function | procedure
  deriving DecidableEq

/-- The columns of a function or of a procedure that a build reads and writes. -/
structure BuildRow where
  id : Uuid
  sqlIdent : Option String
  body : Option String
  status : BuildStatus
  updatedAt : Time
  routine : Bool := true

/-- One of the two tables, with the rows its claim looks for. -/
structure BuildTable (α : Type) where
  row : α → BuildRow
  takes : BuildRow → Bool
  setStatus : BuildStatus → Time → α → α
  row_setStatus : ∀ s t a, row (setStatus s t a) =
    { row a with
      status := s
      updatedAt := t }

def functionTable : BuildTable Function where
  row := fun f =>
    { id := f.functionId
      sqlIdent := f.sqlIdent
      body := f.body
      status := f.buildStatus
      updatedAt := f.updatedAt
      routine := f.handler = .plpgsql }
  takes := (·.routine)
  setStatus := fun s t f => { f with buildStatus := s, updatedAt := t }
  row_setStatus := fun _ _ _ => rfl

def procedureTable : BuildTable Procedure where
  row := fun p =>
    { id := p.procedureId
      sqlIdent := p.sqlIdent
      body := p.body
      status := p.buildStatus
      updatedAt := p.updatedAt }
  takes := (·.body.isSome)
  setStatus := fun s t p => { p with buildStatus := s, updatedAt := t }
  row_setStatus := fun _ _ _ => rfl

/-- One entry of the list a claim returns. -/
structure BuildRequest where
  id : Uuid
  sqlIdent : Option String
  body : Option String

section Table

variable {α : Type} (T : BuildTable α)

def pickedBuilds (limit : Option Int) (locked : List Uuid) (rows : List α) : List α :=
  (sortBy (fun a => (T.row a).updatedAt) (rows.filter fun a => (T.row a).status = .pending ∧
    T.takes (T.row a) ∧ !locked.contains (T.row a).id)).take (claimLimit limit)

/-- The common body of the two claims. -/
def claimBuilds (now : Time) (limit : Option Int) (locked : List Uuid) (rows : List α) :
    List α × List BuildRequest :=
  let picked := pickedBuilds T limit locked rows
  let hit := fun a => (picked.map fun b => (T.row b).id).contains (T.row a).id
  (update hit (T.setStatus .building now) rows,
    picked.map fun a => ⟨(T.row a).id, (T.row a).sqlIdent, (T.row a).body⟩)

/-- The common body of the two completions, which are fenced on the status alone. -/
def completeBuild (now : Time) (id : Uuid) (ok : Option Bool) (rows : List α) : List α :=
  let hit := fun a => decide ((T.row a).id = id ∧ (T.row a).status = .building)
  update hit (T.setStatus (if ok.getD false then .built else .failed) now) rows

end Table

def fnClaimFunctionBuilds (pg : Postgres) (now : Time) (limit : Option Int) (locked : List Uuid)
    (c : Config) : Config × List BuildRequest :=
  let r := claimBuilds functionTable now limit locked c.functions
  (syncCapabilityIndex pg now { c with functions := r.1 }, r.2)

def fnClaimProcedureBuilds (pg : Postgres) (now : Time) (limit : Option Int) (locked : List Uuid)
    (c : Config) : Config × List BuildRequest :=
  let r := claimBuilds procedureTable now limit locked c.procedures
  (syncCapabilityIndex pg now { c with procedures := r.1 }, r.2)

def fnCompleteFunctionBuild (pg : Postgres) (now : Time) (id : Uuid) (ok : Option Bool)
    (c : Config) : Config :=
  syncCapabilityIndex pg now { c with functions := completeBuild functionTable now id ok c.functions }

def fnCompleteProcedureBuild (pg : Postgres) (now : Time) (id : Uuid) (ok : Option Bool)
    (c : Config) : Config :=
  syncCapabilityIndex pg now
    { c with procedures := completeBuild procedureTable now id ok c.procedures }

/-- A build that a worker has claimed. -/
structure BuildJob where
  claim : Nat
  kind : RoutineKind
  id : Uuid
  sqlIdent : String
  body : String
  outcome : Option Bool := none
  reported : Bool := false
  deriving DecidableEq

/-- The tables, what the workers hold, and the body last deployed to each object. -/
structure Builds where
  cfg : Config
  jobs : List BuildJob := []
  objects : RoutineKind → String → Option String := fun _ _ => none
  claims : Nat := 0

def RoutineKind.identStart : RoutineKind → String
  | function => "fn_"
  | procedure => "proc_"

def isHexDigit (ch : Char) : Bool :=
  ch.isDigit || ('a' ≤ ch && ch ≤ 'f') || ('A' ≤ ch && ch ≤ 'F')

def validSqlIdent (s start : String) : Bool :=
  start.toList.isPrefixOf s.toList && (s.toList.drop start.length).length = 32 &&
    (s.toList.drop start.length).all isHexDigit

namespace Builds

/-- The worker skips an entry without a name or a body. -/
def jobOf (n : Nat) (kind : RoutineKind) (r : BuildRequest) : Option BuildJob :=
  match r.sqlIdent, r.body with
  | some sqlIdent, some body => some { claim := n, kind, id := r.id, sqlIdent, body }
  | _, _ => none

def hold (s : Builds) (kind : RoutineKind) (r : Config × List BuildRequest) : Builds :=
  { s with
    cfg := r.1
    jobs := s.jobs ++ r.2.filterMap (jobOf s.claims kind)
    claims := s.claims + 1 }

def isJob (n : Nat) (kind : RoutineKind) (id : Uuid) (j : BuildJob) : Bool :=
  j.claim = n ∧ j.kind = kind ∧ j.id = id

/-- `run_guarded_build`: the object is replaced when the statements succeed. -/
def runGuardedBuild (s : Builds) (j : BuildJob) (created : Bool) : Builds :=
  let ok := validSqlIdent j.sqlIdent j.kind.identStart && created
  { s with
    objects := fun kind ident =>
      if ok ∧ kind = j.kind ∧ ident = j.sqlIdent then some j.body else s.objects kind ident
    jobs := update (isJob j.claim j.kind j.id) (fun k => { k with outcome := some ok }) s.jobs }

def submitBuildResult (pg : Postgres) (now : Time) (s : Builds) (j : BuildJob) (ok : Bool) :
    Builds :=
  { s with
    cfg := match j.kind with
      | .function => fnCompleteFunctionBuild pg now j.id (some ok) s.cfg
      | .procedure => fnCompleteProcedureBuild pg now j.id (some ok) s.cfg
    jobs := update (isJob j.claim j.kind j.id) (fun k => { k with reported := true }) s.jobs }

end Builds

inductive BuildOp where
  | updateFunction (id : Uuid) (description body : Option String) (paramSchema : Option Json)
  | setProcedure (id : Uuid) (content : Option String) (enabled : Option Bool)
      (body : Option String)
  | claim (kind : RoutineKind) (limit : Option Int) (locked : List Uuid)
  | deploy (claim : Nat) (kind : RoutineKind) (id : Uuid) (created : Bool)
  | complete (claim : Nat) (kind : RoutineKind) (id : Uuid)
  | watchdog (seconds : Option Int)

structure BuildEvent where
  now : Time
  op : BuildOp

def buildStep (pg : Postgres) (s : Builds) (e : BuildEvent) : Builds :=
  match e.op with
  | .updateFunction id description body paramSchema =>
    match fnUpdateFunction pg e.now s.cfg id description body paramSchema with
    | .ok r => { s with cfg := r.1 }
    | .error _ => s
  | .setProcedure id content enabled body =>
    match fnSetProcedure pg e.now s.cfg id content enabled body with
    | .ok r => { s with cfg := r.1 }
    | .error _ => s
  | .claim .function limit locked =>
    s.hold .function (fnClaimFunctionBuilds pg e.now limit locked s.cfg)
  | .claim .procedure limit locked =>
    s.hold .procedure (fnClaimProcedureBuilds pg e.now limit locked s.cfg)
  | .deploy n kind id created =>
    match s.jobs.find? fun j => Builds.isJob n kind id j && j.outcome.isNone with
    | some j => s.runGuardedBuild j created
    | none => s
  | .complete n kind id =>
    match s.jobs.find? fun j => Builds.isJob n kind id j && !j.reported with
    | some j => match j.outcome with
      | some ok => Builds.submitBuildResult pg e.now s j ok
      | none => s
    | none => s
  | .watchdog seconds => { s with cfg := resetBuilds pg e.now seconds s.cfg }

namespace Builds

def table (s : Builds) : RoutineKind → List BuildRow
  | .function => s.cfg.functions.map functionTable.row
  | .procedure => s.cfg.procedures.map procedureTable.row

def jobsOf (s : Builds) (kind : RoutineKind) (id : Uuid) : List BuildJob :=
  s.jobs.filter fun j => j.kind = kind ∧ j.id = id

/-- The body last deployed to the object of a row. -/
def object (s : Builds) (kind : RoutineKind) (sqlIdent : Option String) : Option String :=
  sqlIdent.bind (s.objects kind)

/-- No claim acts late: none deploys another body once the last claim of the row has
deployed, and none reports a success that ends a build before that. -/
def timely (s : Builds) (e : BuildEvent) : Bool :=
  match e.op with
  | .deploy n kind id _ => (s.jobsOf kind id).getLast?.all fun l => l.outcome != some true ||
      (s.jobsOf kind id).all fun j => j.claim != n || j.body = l.body
  | .complete n kind id => (s.jobsOf kind id).getLast?.all fun l => l.outcome = some true ||
      !(s.table kind).any (fun r => r.id = id ∧ r.status = .building) ||
      (s.jobsOf kind id).all fun j => j.claim != n || j.outcome != some true
  | _ => true

/-- Every routine that is built has its body in its object. -/
def Deployed (s : Builds) : Prop :=
  (∀ f ∈ s.cfg.functions, f.handler = .plpgsql → f.buildStatus = .built →
    s.object .function f.sqlIdent = f.body) ∧
  ∀ p ∈ s.cfg.procedures, p.buildStatus = .built → s.object .procedure p.sqlIdent = p.body

end Builds

end Allgres
