import Allgres.SweepLife

/-! The control plane as a machine. An event is one transaction: an operation of the
worker, of an agent or of an operator at a time of its own; one that raises leaves
the state as it was. -/

namespace Allgres

open Raise Rows Runs Allgres.Core

/-- `locked` are the rows other transactions hold. An edit changes the tables of the
operators, never a session, task, call or approval. -/
inductive Op where
  | createSession (agentId : Uuid) (goal : Option String) (projectId scheduleId : Option Uuid)
  | continueSession (sessionId : Uuid) (message : Option String)
  | dispatch (roll : Uuid → Rat) (locked : List Uuid)
  | submit (taskId : Uuid) (payload : Json)
  | claim (queue : Queue) (limit : Option Int) (fallback : Option String) (locked : List Uuid)
  | completeOutbound (callId : Uuid) (status : Option Int) (body : Option String)
  | completeLocal (queue : Queue) (callId : Uuid) (result : LocalResult)
  | watchdog (seconds : Option Int) (locked : List Uuid)
  | decideApproval (approvalId : Uuid) (accept : Bool) (reply : Option String)
  | cancelSession (sessionId : Uuid) (reason : Option String)
  | edit (change : Config → Config)

structure Event where
  now : Time
  op : Op

def perform (pg : Postgres) (now : Time) (db : Db) : Op → Except String Db
  | .createSession agentId goal projectId scheduleId =>
    (fnCreateSession now db agentId goal projectId scheduleId).map (·.1)
  | .continueSession sessionId message => (fnContinueSession now db sessionId message).map (·.1)
  | .dispatch roll locked => (fnDispatchTasks pg now roll locked db).map (·.1)
  | .submit taskId payload => (fnSubmitResult pg now db taskId payload).map (·.1)
  | .claim queue limit fallback locked => .ok (fnClaim pg now queue limit fallback locked db).1
  | .completeOutbound callId status body =>
    (fnCompleteOutbound pg now db callId status body).map (·.1)
  | .completeLocal queue callId result =>
    (fnCompleteLocal pg now db queue callId result).map (·.1)
  | .watchdog seconds locked => .ok (fnWatchdog pg now seconds locked db)
  | .decideApproval approvalId accept reply =>
    (fnDecideApproval now db approvalId accept reply).map (·.1)
  | .cancelSession sessionId reason => (fnCancelSession now db sessionId reason).map (·.1)
  | .edit change => .ok (db.onConfig change)

def step (pg : Postgres) (db : Db) (e : Event) : Db :=
  match perform pg e.now db e.op with
  | .ok db' => db'
  | .error _ => db

/-- What a claim gives to the worker. -/
def handed (pg : Postgres) (db : Db) (e : Event) : List Handed :=
  match e.op with
  | .claim queue limit fallback locked => (fnClaim pg e.now queue limit fallback locked db).2
  | _ => []

def handedIds (pg : Postgres) : Db → List Event → List Uuid
  | _, [] => []
  | db, e :: es => (handed pg db e).map Handed.callId ++ handedIds pg (step pg db e) es

/-- The state before the first event. -/
def start (c : Config) : Db :=
  { cfg := c }

theorem wellFormed_start (c : Config) : (start c).core.WellFormed := by
  constructor <;> simp [start, Db.core]

/-- A server for runs without SQL. -/
def bareServer : Postgres where
  rawParser := fun _ => .error "syntax error"
  explain := fun _ _ => .ok 0

theorem map_fst_eq_ok {α : Type} {x : Except String (Db × α)} {db : Db}
    (h : x.map (·.1) = .ok db) : ∃ a, x = .ok (db, a) := by
  cases x with
  | error e => cases h
  | ok r =>
    obtain ⟨d, a⟩ := r
    obtain rfl : d = db := by simpa [Except.map] using h
    exact ⟨a, rfl⟩

/-- A step either raised or performed its operation. -/
theorem step_cases (pg : Postgres) (db : Db) (e : Event) :
    step pg db e = db ∨ perform pg e.now db e.op = .ok (step pg db e) := by
  unfold step
  split
  · rename_i h
    exact .inr h
  · exact .inl rfl

section Evolution

variable {pg : Postgres} {G : Uuid → Label → Life → Prop} {db db' : Db} {now : Time}

theorem Core.Spawned.evolves {s s' : Core} (h : Spawned s s') (hb : ∀ j l, G j .born l) :
    Evolves G s s' := by
  refine ⟨h.grow, fun j => ?_⟩
  rcases h.lives j with he | hm
  · rw [he]
    exact .refl
  · exact .one (hb j _) hm

/-- The labels no condition of this development restricts. -/
def freely (lab : Label) : Prop :=
  match lab with
  | .ask _ | .advance | .queue | .swallow | .resume | .reject | .timeOut | .cancel => False
  | _ => True

def Op.isDispatch : Op → Bool
  | .dispatch _ _ => true
  | _ => false

/-- The other moves of an operation are permitted to the tasks it may move by them. -/
def Permits (pg : Postgres) (G : Uuid → Label → Life → Prop) (now : Time) (db : Db) : Op → Prop
  | .dispatch _ _ => (∀ j (l : Life), l.calls.countP (·.live) = 0 → G j .advance l) ∧
      ∀ t ∈ db.tasks, ∀ p, db.cfg.policy? t.agentId = some p → ∀ l, G t.taskId (.ask p.maxSteps) l
  | .submit i _ => db.running i = true → G i .advance (db.core.life i) ∧ G i .queue (db.core.life i)
  | .completeOutbound id status body => ∀ q, db.call? .outboundCalls id = some q →
      q.status = .inFlight → Swallowed pg now db q status body →
        G q.taskId .swallow (db.core.life q.taskId)
  | .watchdog seconds locked =>
      (∀ a ∈ expiredApprovals now locked (afterReclaim pg now seconds locked db),
        ∀ t, (afterReclaim pg now seconds locked db).task? t.taskId = some t → t.taskId = a.taskId →
          t.status = .waitingHuman →
            G t.taskId .reject ((afterReclaim pg now seconds locked db).core.life t.taskId)) ∧
      ∀ t ∈ (afterExpire pg now seconds locked db).tasks,
        overTurn now (afterExpire pg now seconds locked db).cfg t = true →
        locked.contains t.taskId = false →
          G t.taskId .timeOut ((afterExpire pg now seconds locked db).core.life t.taskId)
  | .decideApproval id accept _ => ∀ a, db.approval? id = some a → a.status = .pending →
      a.expiresAt.any (· ≤ now) = false → ∀ t, db.task? t.taskId = some t →
        t.taskId = a.taskId → t.status = .waitingHuman →
          G t.taskId (if accept then .resume else .reject) (db.core.life t.taskId)
  | .cancelSession sid _ => ∀ t, db.task? t.taskId = some t → t.sessionId = sid →
      unfinished t = true → G t.taskId .cancel (db.core.life t.taskId)
  | _ => True

theorem freely_of_settleLabel {lab : Label} (h : Life.settleLabel lab) (hs : lab ≠ .swallow) :
    freely lab := by
  cases lab <;> simp_all [freely, Life.settleLabel]

theorem freely_of_claimLabel {lab : Label} (h : Life.claimLabel lab) : freely lab := by
  cases lab <;> simp_all [freely, Life.claimLabel]

theorem perform_evolves {op : Op} (hw : db.core.WellFormed)
    (hfree : ∀ i lab l, freely lab → (lab = .start → op.isDispatch = true) → G i lab l)
    (hp : Permits pg G now db op)
    (h : perform pg now db op = .ok db') : Evolves G db.core db'.core := by
  have hb : ∀ j l, G j .born l := fun j l => hfree j .born l trivial nofun
  cases op with
  | createSession agentId goal projectId scheduleId =>
    obtain ⟨⟨sid, tid⟩, h⟩ := map_fst_eq_ok h
    exact (fnCreateSession_spawned hw h).1.evolves hb
  | continueSession sessionId message =>
    obtain ⟨tid, h⟩ := map_fst_eq_ok h
    exact (fnContinueSession_spawned hw h).evolves hb
  | dispatch roll locked =>
    obtain ⟨out, h⟩ := map_fst_eq_ok h
    exact fnDispatchTasks_evolves hw hb (fun j l => hfree j .start l trivial fun _ => rfl) hp.1 hp.2 h
  | submit i payload =>
    obtain ⟨result, h⟩ := map_fst_eq_ok h
    obtain ⟨hrun, hsub⟩ := fnSubmitResult_submitted hw h
    exact hsub.evolves (hp hrun).1 (hp hrun).2 hb
  | claim queue limit fallback locked =>
    obtain rfl := Except.ok.inj h
    refine fnClaim_evolves pg now limit fallback locked hw fun i lab l hl =>
      hfree i lab l (freely_of_claimLabel hl) ?_
    rintro rfl
    exact hl.elim
  | completeOutbound id status body =>
    obtain ⟨result, h⟩ := map_fst_eq_ok h
    rcases fnCompleteOutbound_settled hw h with rfl | ⟨q, lab, hq, hs, hset, hsw⟩
    · exact Evolves.refl _
    · refine hset.evolves ?_ hb
      by_cases hl : lab = .swallow
      · rw [hl]
        exact hp q hq hs (hsw hl)
      · exact hfree _ _ _ (freely_of_settleLabel hset.label hl) fun he => (he ▸ hset.label).elim
  | completeLocal queue id r =>
    obtain ⟨result, h⟩ := map_fst_eq_ok h
    rcases fnCompleteLocal_settled hw h with rfl | ⟨q, lab, hq, hs, hset, hsw⟩
    · exact Evolves.refl _
    · refine hset.evolves (hfree _ _ _ (freely_of_settleLabel hset.label hsw) fun he => ?_) hb
      exact (he ▸ hset.label).elim
  | watchdog seconds locked =>
    obtain rfl := Except.ok.inj h
    exact fnWatchdog_evolves hw (fun i l => hfree i .settle l trivial nofun) hb
      (fun i l => hfree i .wake l trivial nofun) hp.1 hp.2
  | decideApproval id accept reply =>
    obtain ⟨out, h⟩ := map_fst_eq_ok h
    exact fnDecideApproval_evolves hp h
  | cancelSession sid reason =>
    obtain ⟨n, h⟩ := map_fst_eq_ok h
    exact fnCancelSession_evolves hw (fun i l => hfree i .drop l trivial nofun) hp h
  | edit change =>
    obtain rfl := Except.ok.inj h
    exact Evolves.refl _

/-- A step takes every task along moves that are free or permitted to it. -/
theorem step_evolves {e : Event} (hw : db.core.WellFormed)
    (hfree : ∀ i lab l, freely lab → G i lab l) (hp : Permits pg G e.now db e.op) :
    Evolves G db.core (step pg db e).core := by
  rcases step_cases pg db e with he | he
  · rw [he]
    exact Evolves.refl _
  · exact perform_evolves hw (fun i lab l h _ => hfree i lab l h) hp he

end Evolution

theorem permits_true (pg : Postgres) (now : Time) (db : Db) (op : Op) :
    Permits pg (fun _ _ _ => True) now db op := by
  cases op <;> simp [Permits]

theorem step_grow (pg : Postgres) {db : Db} (hw : db.core.WellFormed) (e : Event) :
    Grow db.core (step pg db e).core :=
  (step_evolves (G := fun _ _ _ => True) hw (fun _ _ _ _ => trivial)
    (permits_true pg e.now db e.op)).grow

theorem wellFormed_step (pg : Postgres) {db : Db} (e : Event) (hw : db.core.WellFormed) :
    (step pg db e).core.WellFormed :=
  (step_grow pg hw e).wf hw

theorem wellFormed_run (pg : Postgres) {db : Db} (es : List Event) (hw : db.core.WellFormed) :
    (run (step pg) db es).core.WellFormed := by
  have hstep : ∀ (s : Db) (e : Event), s.core.WellFormed → True →
      (step pg s e).core.WellFormed := fun _ e hs _ => wellFormed_step pg e hs
  exact Runs.invariant hstep hw (along_true db es)

theorem run_grow (pg : Postgres) {db : Db} (es : List Event) (hw : db.core.WellFormed) :
    Grow db.core (run (step pg) db es).core := by
  induction es generalizing db with
  | nil => exact Grow.refl _
  | cons e es ih => exact (step_grow pg hw e).trans (ih (wellFormed_step pg e hw))

end Allgres
