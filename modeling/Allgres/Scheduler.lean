import Allgres.Ledger
import Allgres.Queueing
import Allgres.Schedules

/-! Schedules beside the rest of the machine. A session belongs to a schedule only when the
sweep or an operator has fired it; the other operations never write a schedule, but for the
cost that the completion of a call charges to it. -/

namespace Allgres

open Raise Rows Runs

/-- `plane` is an operation of the machine. -/
inductive ScheduleOp where
  | create (name : Option String) (agentId : Uuid) (goal : Option String)
      (intervalSeconds maxRuns : Option Int) (endsAt startAt : Option Time) (maxCostUsd : Option Rat)
  | set (scheduleId : Uuid) (change : ScheduleChange)
  | delete (scheduleId : Uuid)
  | runSchedules (locked : List Uuid)
  | runNow (scheduleId : Uuid)
  | plane (op : Op)

structure ScheduleEvent where
  now : Time
  op : ScheduleOp

/-- The constraints of `llm_model_prices`. -/
def ModelPrice.isValid (p : ModelPrice) : Bool :=
  0 ≤ p.inputPricePer1k && 0 ≤ p.outputPricePer1k

/-- `p_schedule_id` can be given by the sweep alone, and edits leave the schedules to the
functions for them. -/
def spares (c : Config) : Op → Bool
  | .createSession _ _ _ scheduleId => scheduleId.isNone
  | .edit change => decide ((change c).schedules = c.schedules) && (change c).prices.all (·.isValid)
  | _ => true

def performSchedule (pg : Postgres) (now : Time) (db : Db) : ScheduleOp → Except String Db
  | .create name agentId goal intervalSeconds maxRuns endsAt startAt maxCostUsd =>
    (fnCreateSchedule now db name agentId goal intervalSeconds maxRuns endsAt startAt maxCostUsd).map (·.1)
  | .set scheduleId change => fnSetSchedule db scheduleId change
  | .delete scheduleId => fnDeleteSchedule db scheduleId
  | .runSchedules locked => .ok (fnRunSchedules now locked db).1
  | .runNow scheduleId => (fnRunScheduleNow now db scheduleId).map (·.1)
  | .plane op => if spares db.cfg op then perform pg now db op else .error "not permitted"

def scheduleStep (pg : Postgres) (db : Db) (e : ScheduleEvent) : Db :=
  match performSchedule pg e.now db e.op with
  | .ok db' => db'
  | .error _ => db

/-- The state before the first event: no schedule, session, task or call. -/
def unscheduled (c : Config) : Db :=
  start { c with schedules := [] }

theorem scheduleStep_cases (pg : Postgres) (db : Db) (e : ScheduleEvent) :
    scheduleStep pg db e = db ∨ performSchedule pg e.now db e.op = .ok (scheduleStep pg db e) := by
  unfold scheduleStep
  split
  · rename_i h
    exact .inr h
  · exact .inl rfl

section Functions

variable {now : Time} {db db' : Db}

/-- A created session is the last one, with the schedule it is given. -/
theorem fnCreateSession_adds {agentId : Uuid} {goal : Option String}
    {projectId scheduleId : Option Uuid} {ids : Uuid × Uuid}
    (h : fnCreateSession now db agentId goal projectId scheduleId = .ok (db', ids)) :
    db'.cfg = db.cfg ∧ db'.calls = db.calls ∧
      ∃ s : Session, s.scheduleId = scheduleId ∧ db'.sessions = db.sessions ++ [s] := by
  unfold fnCreateSession at h
  obtain ⟨_, _, h⟩ := bind_eq_ok.mp h
  obtain ⟨_, _, h⟩ := bind_eq_ok.mp h
  obtain ⟨_, _, h⟩ := bind_eq_ok.mp h
  obtain ⟨rfl, -⟩ := Prod.mk.inj (Except.ok.inj h)
  exact ⟨rfl, rfl, _, rfl, rfl⟩

/-- A new schedule has an id of its own and has spent nothing. -/
theorem fnCreateSchedule_spec {name : Option String} {agentId : Uuid} {goal : Option String}
    {intervalSeconds maxRuns : Option Int} {endsAt startAt : Option Time} {maxCostUsd : Option Rat} {id : Uuid}
    (h : fnCreateSchedule now db name agentId goal intervalSeconds maxRuns endsAt startAt maxCostUsd =
      .ok (db', id)) :
    ∃ row : Schedule, row.spentCostUsd = 0 ∧ (∀ s ∈ db.cfg.schedules, s.scheduleId ≠ row.scheduleId) ∧
      db' =
        { db with
          cfg := { db.cfg with schedules := db.cfg.schedules ++ [row] }
          nextId := db.nextId + 1 } := by
  unfold fnCreateSchedule at h
  obtain ⟨_, _, h⟩ := bind_eq_ok.mp h
  obtain ⟨_, _, h⟩ := bind_eq_ok.mp h
  obtain ⟨_, _, h⟩ := bind_eq_ok.mp h
  obtain ⟨_, _, h⟩ := bind_eq_ok.mp h
  obtain ⟨_, _, h⟩ := bind_eq_ok.mp h
  obtain ⟨_, _, h⟩ := bind_eq_ok.mp h
  obtain ⟨_, hkey, h⟩ := bind_eq_ok.mp h
  obtain ⟨_, _, h⟩ := bind_eq_ok.mp h
  obtain ⟨rfl, -⟩ := Prod.mk.inj (Except.ok.inj h)
  have hnew : ∀ s ∈ db.cfg.schedules, s.scheduleId ≠ db.nextId := by simpa using raiseIf_eq_ok.mp hkey
  exact ⟨_, rfl, hnew, rfl⟩

/-- What the setter and the sweep keep of a schedule. -/
def KeepsSpent (f : Schedule → Schedule) : Prop :=
  ∀ s, (f s).scheduleId = s.scheduleId ∧ (f s).spentCostUsd = s.spentCostUsd

theorem fnSetSchedule_spec {id : Uuid} {change : ScheduleChange} :
    Returns (fun d => ∃ f, KeepsSpent f ∧ d = db.updateSchedule id f) (fnSetSchedule db id change) := by
  unfold fnSetSchedule
  split
  · exact returns_error _
  · dsimp only
    split
    · refine returns_seq fun n => returns_seq fun _ => returns_seq fun _ => returns_pure ?_
      exact ⟨change.apply n, fun s => ⟨rfl, rfl⟩, rfl⟩
    · refine returns_seq fun n => returns_seq fun _ => returns_seq fun _ => returns_pure ?_
      exact ⟨change.apply n, fun s => ⟨rfl, rfl⟩, rfl⟩

theorem fnDeleteSchedule_spec {id : Uuid} :
    Returns (fun d => d =
      { db with
        cfg := { db.cfg with schedules := db.cfg.schedules.filter (·.scheduleId ≠ id) }
        sessions := update (·.scheduleId = some id) (fun s => { s with scheduleId := none }) db.sessions })
      (fnDeleteSchedule db id) := by
  unfold fnDeleteSchedule
  exact returns_seq fun _ => returns_pure rfl

/-- An operator fires a schedule that is active and has no limit behind it. -/
theorem fnRunScheduleNow_spec {id : Uuid} {ids : Uuid × Uuid}
    (h : fnRunScheduleNow now db id = .ok (db', ids)) :
    ∃ r d f, db.schedule? id = some r ∧ r.isActive = true ∧ r.reachedLimit now = false ∧
      fnCreateSession now db r.agentId (some r.goal) none (some id) = .ok (d, ids) ∧
        KeepsSpent f ∧ db' = d.updateSchedule id f := by
  unfold fnRunScheduleNow at h
  cases hr : db.schedule? id with
  | none => simp [hr] at h
  | some r =>
    simp only [hr] at h
    obtain ⟨_, hactive, h⟩ := bind_eq_ok.mp h
    obtain ⟨_, hlimit, h⟩ := bind_eq_ok.mp h
    obtain ⟨⟨d, sessionId, taskId⟩, hok, h⟩ := bind_eq_ok.mp h
    obtain ⟨rfl, rfl⟩ := Prod.mk.inj (Except.ok.inj h)
    have hid : r.scheduleId = id := by simpa using List.find?_some hr
    have ha : r.isActive = true := by simpa using raiseIf_eq_ok.mp hactive
    have hl : r.reachedLimit now = false := by simpa using raiseIf_eq_ok.mp hlimit
    exact ⟨r, d, Schedule.fired now sessionId, rfl, ha, hl, hid ▸ hok, fun s => ⟨rfl, rfl⟩, rfl⟩

end Functions

/-- The id of a call and how far it is. -/
def Call.stage (c : Call) : Uuid × CallStatus :=
  (c.callId, c.status)

/-- The completion of a call to a model: its cost and the charge are written between
steps that are free. -/
structure PaidFor (pg : Postgres) (now : Time) (db db' : Db) (q : Call) (o : Outbound)
    (status : Option Int) (body : Option String) : Prop where
  call : db.call? .outboundCalls q.callId = some q
  req : q.req = .outbound o
  inFlight : q.status = .inFlight
  llm : o.kind = .llm
  after : Unspent (completeLlmKind (db.harvestResponse q.callId status body now) q o status body).1 db'
  stages : Extends Call.stage (fun _ => True)
    (completeLlmKind (db.harvestResponse q.callId status body now) q o status body).1.calls db'.calls

section Spending

variable {pg : Postgres} {now : Time} {db db' : Db}

/-- A submitted step adds calls and touches none. -/
theorem fnSubmitResult_calls (db : Db) (id : Uuid) (payload : Json) :
    Returns (fun r => Extends Call.stage (fun _ => True) db.calls r.1.calls)
      (fnSubmitResult pg now db id payload) := by
  unfold fnSubmitResult
  split
  · exact returns_error _
  · rename_i t ht
    refine returns_ite (fun _ => returns_error _) fun _ => ?_
    split
    · refine returns_ok (extends_of_map_eq ?_)
      rw [Db.failTask, calls_maybeCompleteSession]
      rfl
    · refine returns_seq fun s => returns_pure ?_
      have hrec : (db.record t s now).calls = db.calls := congrArg Core.calls (Db.core_record db t s now)
      rcases applyNext_calls (db.record t s now) t s.next now with h | ⟨req, -, h⟩
      · rw [h, hrec]
        exact Extends.refl _ _ _
      · rw [h, Db.insertCall, hrec]
        exact extends_append trivial

theorem submitIfRunning_calls (db : Db) (id : Uuid) (payload : Json) :
    Extends Call.stage (fun _ => True) db.calls (submitIfRunning pg now db id payload).1.calls := by
  unfold submitIfRunning
  split
  · split
    · rename_i hok
      exact fnSubmitResult_calls db id payload _ hok
    · exact Extends.refl _ _ _
  · exact Extends.refl _ _ _

theorem scoreOutcome_calls (db : Db) (q : Call) (o : Outbound) (result : Json) :
    Extends Call.stage (fun _ => True) db.calls (scoreOutcome db q o result).calls := by
  unfold scoreOutcome
  split
  · exact extends_update fun _ => rfl
  · exact Extends.refl _ _ _

/-- A call to a model in flight is paid for when it comes back. -/
theorem fnCompleteOutbound_llm (pg : Postgres) (now : Time) {q : Call} {o : Outbound} (status : Option Int) (body : Option String)
    (hq : db.call? .outboundCalls q.callId = some q) (ho : q.req = .outbound o) (hst : q.status = .inFlight)
    (hk : o.kind = .llm) : ∃ d result, fnCompleteOutbound pg now db q.callId status body = .ok (d, result) ∧
      PaidFor pg now db d q o status body := by
  have hread : completeKind pg now (db.harvestResponse q.callId status body now) q o status body =
      .ok (completeLlmKind (db.harvestResponse q.callId status body now) q o status body) := by
    unfold completeKind
    rw [hk]
  have hplain : isAmbiguous o status = false := by simp [isAmbiguous, isMutation, hk]
  unfold fnCompleteOutbound
  rw [hq]
  simp only [hst, ne_eq, not_true_eq_false, if_false, ho, harvestOutbound, hplain, hread]
  refine ⟨_, _, rfl, hq, ho, hst, hk, ?_, ?_⟩
  · exact (unspent_submitIfRunning _ _ _).trans (unspent_scoreOutcome _ _ _ _)
  · exact (submitIfRunning_calls _ _ _).trans (scoreOutcome_calls _ _ _ _)

theorem fnCompleteOutbound_paid {id : Uuid} {status : Option Int} {body : Option String} :
    Returns (fun r => Unspent db r.1 ∨ ∃ q o, q.callId = id ∧ PaidFor pg now db r.1 q o status body)
      (fnCompleteOutbound pg now db id status body) := by
  cases hq : db.call? .outboundCalls id with
  | none =>
    unfold fnCompleteOutbound
    rw [hq]
    exact returns_error _
  | some q =>
    obtain ⟨-, rfl, -⟩ := call?_mem hq
    by_cases hllm : ∃ o, q.req = .outbound o ∧ o.kind = .llm ∧ q.status = .inFlight
    · obtain ⟨o, ho, hk, hst⟩ := hllm
      obtain ⟨d, result, hd, hpaid⟩ := fnCompleteOutbound_llm pg now status body hq ho hst hk
      rw [hd]
      exact returns_ok (.inr ⟨q, o, rfl, hpaid⟩)
    · unfold fnCompleteOutbound
      rw [hq]
      refine returns_ite (fun _ => returns_ok (.inl (Unspent.refl db))) fun hst => ?_
      split
      · rename_i o ho
        have hk : o.kind ≠ .llm := fun hk => hllm ⟨o, ho, hk, not_not.mp hst⟩
        have hharvest : Unspent db (db.harvestResponse q.callId status body now) :=
          unspent_updateCalls db fun _ => rfl
        unfold harvestOutbound
        refine returns_ite (fun _ => returns_ok (.inl ?_)) fun _ => ?_
        · have hnote : Unspent db (db.updateCall q.callId fun c =>
              { c with responseStatus := status, responseBody := some (left (orEmpty body) 200000) }) :=
            unspent_updateCalls db fun _ => rfl
          exact hnote.trans (unspent_pauseAmbiguousOutbound _ q _)
        · refine returns_bind (completeKind_unspent hk) fun x hx => returns_pure (.inl ?_)
          exact ((hharvest.trans hx).trans (unspent_submitIfRunning _ _ _)).trans
            (unspent_scoreOutcome _ _ _ _)
      · exact returns_error _

/-- An operation of the machine spends nothing, is an edit, or is the completion of a call
to a model. -/
theorem perform_spends {op : Op} (hs : spares db.cfg op = true) (h : perform pg now db op = .ok db') :
    Unspent db db' ∨ (∃ change, op = .edit change ∧ db' = db.onConfig change) ∨
      ∃ q o status body, op = .completeOutbound q.callId status body ∧
        PaidFor pg now db db' q o status body := by
  have hmap : ∀ {α : Type} {x : Except String (Db × α)}, Returns (fun r => Unspent db r.1) x →
      x.map (·.1) = .ok db' → Unspent db db' := by
    intro α x hx hok
    obtain ⟨a, hok⟩ := map_fst_eq_ok hok
    exact hx _ hok
  cases op with
  | createSession agentId goal projectId scheduleId =>
    obtain rfl : scheduleId = none := by simpa [spares] using hs
    exact .inl (hmap fnCreateSession_unspent h)
  | continueSession sessionId message => exact .inl (hmap fnContinueSession_unspent h)
  | dispatch roll locked => exact .inl (hmap (dispatchLoop_unspent pg now roll _ _ db) h)
  | submit taskId payload => exact .inl (hmap (fnSubmitResult_unspent db taskId payload) h)
  | claim queue limit fallback locked =>
    obtain rfl := Except.ok.inj h
    exact .inl (unspent_claimLoop pg now queue fallback _ db)
  | completeOutbound id status body =>
    obtain ⟨result, h⟩ := map_fst_eq_ok h
    rcases fnCompleteOutbound_paid _ h with hu | ⟨q, o, rfl, hp⟩
    · exact .inl hu
    · exact .inr (.inr ⟨q, o, status, body, rfl, hp⟩)
  | completeLocal queue id r => exact .inl (hmap (fnCompleteLocal_unspent queue id r) h)
  | watchdog seconds locked =>
    obtain rfl := Except.ok.inj h
    exact .inl (fnWatchdog_unspent pg now db seconds locked)
  | decideApproval id accept reply => exact .inl (hmap (fnDecideApproval_unspent id accept reply) h)
  | cancelSession sid reason => exact .inl (hmap (fnCancelSession_unspent sid reason) h)
  | edit change =>
    obtain rfl := Except.ok.inj h
    exact .inr (.inl ⟨change, rfl, rfl⟩)

/-- What the completion does to the schedules, by the cost it finds. -/
theorem completeLlmKind_schedules (db : Db) (q : Call) (o : Outbound) (status : Option Int)
    (body : Option String) :
    (completeLlmKind db q o status body).1.cfg.schedules = db.cfg.schedules ∨
      ∃ x id, scheduleOf db q.taskId = some id ∧
        callCost db.cfg o (llmUsageFromHttp body) = some x ∧
        (completeLlmKind db q o status body).1.cfg.schedules = (chargeSchedule db.cfg id x).schedules := by
  unfold completeLlmKind
  split
  · dsimp only
    split
    · rename_i x id hx hid
      exact .inr ⟨x, id, hid, hx, rfl⟩
    · exact .inl rfl
  · dsimp only
    split_ifs <;> exact .inl rfl

theorem completeLlmKind_sessions (db : Db) (q : Call) (o : Outbound) (status : Option Int)
    (body : Option String) : (completeLlmKind db q o status body).1.sessions = db.sessions := by
  unfold completeLlmKind
  split
  · dsimp only
    split <;> rfl
  · dsimp only
    split_ifs <;> rfl

/-- The rows of the schedules stay, and no session gets a schedule. -/
theorem perform_spares {op : Op} (hs : spares db.cfg op = true) (h : perform pg now db op = .ok db') :
    db'.cfg.schedules.map (·.scheduleId) = db.cfg.schedules.map (·.scheduleId) ∧
      Extends Session.origin (·.2 = none) db.sessions db'.sessions := by
  rcases perform_spends hs h with hu | ⟨change, rfl, rfl⟩ | ⟨q, o, status, body, rfl, hp⟩
  · rw [hu.rates.2]
    exact ⟨rfl, hu.sessions⟩
  · simp only [spares, Bool.and_eq_true, decide_eq_true_eq] at hs
    have hsame : (db.onConfig change).cfg.schedules = db.cfg.schedules := hs.1
    rw [hsame]
    exact ⟨rfl, Extends.refl _ _ _⟩
  · constructor
    · rw [hp.after.rates.2]
      rcases completeLlmKind_schedules (db.harvestResponse q.callId status body now) q o status body with
        he | ⟨x, id, -, -, he⟩
      · rw [he]
        rfl
      · rw [he]
        apply map_update
        intro s
        rfl
    · have hsess := hp.after.sessions
      rw [completeLlmKind_sessions] at hsess
      exact hsess

end Spending

end Allgres
