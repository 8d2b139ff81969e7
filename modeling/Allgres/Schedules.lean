import Allgres.Sessions

/-! Schedules: the rows that spawn sessions by themselves, and the sweep that fires them. -/

namespace Allgres

open Raise Rows

namespace Schedule

def reachedLimit (s : Schedule) (now : Time) : Bool :=
  s.maxRuns.any (· ≤ s.runCount) || s.endsAt.any (· ≤ now) || s.maxCostUsd.any (· ≤ s.spentCostUsd)

/-- `now() + make_interval(secs => interval_seconds)`. -/
def nextAfter (s : Schedule) (now : Time) : Time :=
  now + s.intervalSeconds.val * 1000

/-- The columns that both firing paths write. -/
def fired (now : Time) (sessionId : Uuid) (s : Schedule) : Schedule :=
  { s with
    runCount := s.runCount + 1
    lastRunAt := some now
    lastSessionId := some sessionId
    isActive := !(s.maxRuns.any (· ≤ s.runCount + 1) || s.endsAt.any (· ≤ now) ||
      s.maxCostUsd.any (· ≤ s.spentCostUsd)) }

def postponed (now : Time) (s : Schedule) : Schedule :=
  { s with nextRunAt := s.nextAfter now }

def isDue (s : Schedule) (now : Time) : Bool :=
  s.isActive && s.nextRunAt ≤ now

end Schedule

def Db.schedule? (db : Db) (id : Uuid) : Option Schedule :=
  db.cfg.schedules.find? (·.scheduleId = id)

def Db.updateSchedule (db : Db) (id : Uuid) (f : Schedule → Schedule) : Db :=
  { db with cfg := { db.cfg with schedules := update (·.scheduleId = id) f db.cfg.schedules } }

def positive (n : Option Int) (message : String) : Except String {n : Nat // 0 < n} :=
  match n with
  | some (.ofNat (n + 1)) => .ok ⟨n + 1, Nat.succ_pos n⟩
  | _ => .error message

def isPositive (n : Option Int) : Bool :=
  n.all (0 < ·)

def fnCreateSchedule (now : Time) (db : Db) (name : Option String) (agentId : Uuid)
    (goal : Option String) (intervalSeconds maxRuns : Option Int) (endsAt startAt : Option Time)
    (maxCostUsd : Option Rat) : Except String (Db × Uuid) := do
  raiseIf (trimmed name = none) "schedule name is required"
  raiseIf (trimmed goal = none) "schedule goal is required"
  raiseIf (db.cfg.agentActive agentId = false) "agent inactive or missing"
  let intervalSeconds ← positive intervalSeconds "interval_seconds must be a positive number of seconds"
  raiseIf (isPositive maxRuns = false) "max_runs must be a positive number"
  raiseIf (maxCostUsd.all (0 < ·) = false) "max_cost_usd must be a positive number"
  let name := btrim (orEmpty name)
  raiseIf (db.cfg.schedules.any (·.scheduleId = db.nextId) = true)
    "duplicate key value violates unique constraint \"schedules_pkey\""
  raiseIf (db.cfg.schedules.any (·.name = name) = true)
    "duplicate key value violates unique constraint \"schedules_name_key\""
  let row : Schedule :=
    { scheduleId := db.nextId
      name
      agentId
      goal := btrim (orEmpty goal)
      intervalSeconds
      nextRunAt := startAt.getD now
      maxRuns := maxRuns.map (·.toNat)
      endsAt
      maxCostUsd }
  let db' :=
    { db with
      cfg := { db.cfg with schedules := db.cfg.schedules ++ [row] }
      nextId := db.nextId + 1 }
  pure (db', db.nextId)

/-- The arguments of `fn_set_schedule`; an absent one leaves its column alone. -/
structure ScheduleChange where
  goal : Option String := none
  intervalSeconds : Option Int := none
  isActive : Option Bool := none
  maxRuns : Option Int := none
  clearMaxRuns : Bool := false
  endsAt : Option Time := none
  clearEndsAt : Bool := false
  maxCostUsd : Option Rat := none
  clearMaxCostUsd : Bool := false

def ScheduleChange.apply (ch : ScheduleChange) (intervalSeconds : {n : Nat // 0 < n}) (s : Schedule) :
    Schedule :=
  { s with
    goal := (nullIfEmpty ch.goal).getD s.goal
    intervalSeconds
    isActive := ch.isActive.getD s.isActive
    maxRuns := if ch.clearMaxRuns then none else (ch.maxRuns.map (·.toNat)).or s.maxRuns
    endsAt := if ch.clearEndsAt then none else ch.endsAt.or s.endsAt
    maxCostUsd := if ch.clearMaxCostUsd then none else ch.maxCostUsd.or s.maxCostUsd }

def fnSetSchedule (db : Db) (scheduleId : Uuid) (ch : ScheduleChange) : Except String Db := do
  match db.schedule? scheduleId with
  | none => .error "schedule not found"
  | some s =>
    let intervalSeconds ← if ch.intervalSeconds.isSome then
        positive ch.intervalSeconds "interval_seconds must be a positive number of seconds"
      else pure s.intervalSeconds
    raiseIf (ch.maxCostUsd.all (0 < ·) = false) "max_cost_usd must be a positive number"
    -- here only the constraint of the column tells
    raiseIf (ch.clearMaxRuns = false ∧ isPositive ch.maxRuns = false)
      "new row for relation \"schedules\" violates check constraint \"schedules_max_runs_check\""
    pure (db.updateSchedule scheduleId (ch.apply intervalSeconds))

def fnDeleteSchedule (db : Db) (scheduleId : Uuid) : Except String Db := do
  raiseIf (db.schedule? scheduleId = none) "schedule not found"
  -- the sessions of the schedule stay, without it
  let leave := fun s : Session => { s with scheduleId := none }
  pure { db with
    cfg := { db.cfg with schedules := db.cfg.schedules.filter (·.scheduleId ≠ scheduleId) }
    sessions := update (·.scheduleId = some scheduleId) leave db.sessions }

/-- The body of the loop of `fn_run_schedules`, which counts what it fires. -/
def runSchedule (now : Time) (acc : Db × Nat) (r : Schedule) : Db × Nat :=
  let (db, n) := acc
  if r.reachedLimit now then
    (db.updateSchedule r.scheduleId fun s => { s with isActive := false }, n)
  else match fnCreateSession now db r.agentId (some r.goal) none (some r.scheduleId) with
    | .error _ => (db.updateSchedule r.scheduleId (·.postponed now), n)
    | .ok (db', sessionId, _) =>
      (db'.updateSchedule r.scheduleId fun s => (s.fired now sessionId).postponed now, n + 1)

def dueSchedules (now : Time) (locked : List Uuid) (db : Db) : List Schedule :=
  db.cfg.schedules.filter fun s => s.isDue now && !locked.contains s.scheduleId

/-- `locked` are the rows that other transactions hold. -/
def fnRunSchedules (now : Time) (locked : List Uuid) (db : Db) : Db × Nat :=
  (dueSchedules now locked db).foldl (runSchedule now) (db, 0)

def fnRunScheduleNow (now : Time) (db : Db) (scheduleId : Uuid) : Except String (Db × Uuid × Uuid) := do
  match db.schedule? scheduleId with
  | none => .error "schedule not found"
  | some s =>
    raiseIf (s.isActive = false) "schedule is not active"
    raiseIf (s.reachedLimit now = true) "schedule has already reached a stop condition"
    let (db', sessionId, taskId) ← fnCreateSession now db s.agentId (some s.goal) none (some s.scheduleId)
    pure (db'.updateSchedule scheduleId (·.fired now sessionId), sessionId, taskId)

end Allgres
