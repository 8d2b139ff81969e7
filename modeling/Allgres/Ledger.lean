import Allgres.Envelope
import Allgres.SessionStates

/-! What spending rests on: the prices, the schedules, the schedule of each session and the
cost of each call. Of the operations of the machine only the completion of a call to a
model writes any of it. -/

namespace Allgres

open Raise Rows

/-- The session and the schedule that spawned it. -/
def Session.origin (s : Session) : Uuid × Option Uuid :=
  (s.sessionId, s.scheduleId)

/-- A call with what it cost. -/
structure Bill where
  callId : Uuid
  taskId : Uuid
  req : Request
  promptTokens : Option Int
  completionTokens : Option Int
  costUsd : Option Rat

def Call.bill (c : Call) : Bill :=
  ⟨c.callId, c.taskId, c.req, c.promptTokens, c.completionTokens, c.costUsd⟩

/-- No price and no schedule is written. -/
def SameRates (c c' : Config) : Prop :=
  c'.prices = c.prices ∧ c'.schedules = c.schedules

/-- No money is spent: what is new has no schedule and no cost. -/
structure Unspent (db db' : Db) : Prop where
  rates : SameRates db.cfg db'.cfg
  sessions : Extends Session.origin (·.2 = none) db.sessions db'.sessions
  calls : Extends Call.bill (·.costUsd = none) db.calls db'.calls

section Rates

variable {c c' : Config} (pg : Postgres) (now : Time)

theorem SameRates.refl (c : Config) : SameRates c c :=
  ⟨rfl, rfl⟩

theorem SameRates.trans {c'' : Config} (h : SameRates c c') (h' : SameRates c' c'') : SameRates c c'' :=
  ⟨h'.1.trans h.1, h'.2.trans h.2⟩

theorem Indexed.rates (h : Indexed c c') : SameRates c c' := by
  obtain ⟨ks, es, n, rfl⟩ := h.eq
  exact ⟨rfl, rfl⟩

theorem sync_rates (c : Config) : SameRates c (syncCapabilityIndex pg now c) :=
  (syncCapabilityIndex_indexed pg now c).rates

theorem fnCreateFunction_rates (c : Config) (name description : Option String) (handler : Handler)
    (args : Json) (body : Option String) (schema : Option Json) (createdBy connection : Option Uuid) :
    Returns (fun r => SameRates c r.1)
      (fnCreateFunction pg now c name description handler args body schema createdBy connection) := by
  unfold fnCreateFunction
  refine returns_seq fun f => returns_seq fun _ => returns_pure ?_
  exact sync_rates pg now _

theorem fnUpdateFunction_rates (c : Config) (id : Uuid) (description body : Option String)
    (schema : Option Json) :
    Returns (fun r => SameRates c r.1) (fnUpdateFunction pg now c id description body schema) := by
  unfold fnUpdateFunction
  split
  · exact returns_error _
  · refine returns_seq fun _ => returns_guard fun _ => returns_pure ?_
    exact sync_rates pg now _

theorem applyFix_rates (c : Config) (kind : FixKind) (target : Uuid) (detail : Json) :
    Returns (fun r => SameRates c r.1) (applyFix pg now c kind target detail) := by
  cases kind with
  | revokePermission => exact returns_ok (SameRates.refl c)
  | deactivateAgent =>
    refine returns_seq fun _ => returns_pure ?_
    exact sync_rates pg now _

theorem writeMemory_rates (c : Config) (agentId : Uuid)
    (content memoryType importance subject days : Option String) (sessionId taskId : Option Uuid) :
    Returns (fun r => SameRates c r.1) (writeMemory pg now c agentId content memoryType importance subject
      days sessionId taskId) := by
  unfold writeMemory
  refine returns_seq fun _ => returns_seq fun _ => returns_pure ?_
  exact (queueEmbedding_indexed _ _ _ now).rates

theorem Overridden.rates (h : Overridden c c') : SameRates c c' := by
  obtain ⟨fs, xs, n, rfl⟩ := h
  exact ⟨rfl, rfl⟩

theorem fnSetPolicy_rates (c : Config) (agentId : Uuid) (change : PolicyChange) :
    Returns (fun r => SameRates c r.1) (fnSetPolicy pg now c agentId change) := by
  rintro ⟨c', answer⟩ hok
  obtain ⟨p, n, hs, d, -, -, rfl, hi⟩ := fnSetPolicy_eq hok
  exact hi.rates

theorem fnCreateAgent_rates (c : Config) (name prompt : Option String) :
    Returns (fun r => SameRates c r.1) (fnCreateAgent pg now c name prompt) := by
  have hensure : ∀ d : Config, ∀ id, SameRates d (ensurePolicy d id pg.defaultPrompt) := by
    intro d id
    unfold ensurePolicy
    split_ifs <;> exact SameRates.refl d
  unfold fnCreateAgent
  refine returns_seq fun _ => returns_seq fun _ => returns_pure ?_
  have hrow : SameRates c { c with
      agents := c.agents ++ [{ agentId := c.nextId, name := btrim (orEmpty name) }]
      nextId := c.nextId + 1 } := ⟨rfl, rfl⟩
  have hmade := (hrow.trans (hensure _ c.nextId)).trans (sync_rates pg now _)
  refine SameRates.trans ?_ (queueEmbedding_indexed _ _ _ now).rates
  split
  · exact hmade.trans (sync_rates pg now _)
  · exact hmade

end Rates

namespace Turn

variable (pg : Postgres) (T : Turn) (v : Json)

theorem functionOverride_rates : Returns (fun s => SameRates T.cfg s.cfg) (T.functionOverride v) := by
  have hqueue : ∀ id, SameRates T.cfg (T.queueOverride v id).cfg := fun id => SameRates.refl _
  unfold functionOverride
  refine returns_seq fun id => ?_
  split
  · exact returns_orRefuse (returns_error _)
  · unfold startOverride
    refine returns_seq fun percent => returns_seq fun cap => returns_seq fun _ =>
      returns_ite (fun _ => returns_seq fun samples => ?_) fun _ => returns_pure (hqueue id)
    refine returns_bind (returns_orRaise (applyStart_overrides T.cfg _ _ _ _ _ _ _ _)) fun x hx =>
      returns_pure ?_
    exact hx.rates
  · unfold promoteOverride
    refine returns_seq fun e => returns_seq fun _ => returns_seq fun slack => ?_
    dsimp only
    split
    · rename_i d hd
      refine returns_pure ?_
      split_ifs at hd
      cases hp : applyFunctionExperimentPromote T.cfg T.now e with
      | error m => simp [hp, Except.toOption] at hd
      | ok d' =>
        obtain rfl : d' = d := by simpa [hp, Except.toOption] using hd
        exact (applyPromote_overrides T.now T.cfg e d' hp).rates
    · exact returns_pure (hqueue id)
  · unfold rejectOverride
    refine returns_seq fun e => returns_seq fun _ => returns_seq fun _ =>
      returns_ite (fun _ => returns_pure (hqueue id)) fun _ => returns_pure ?_
    exact (applyReject_overrides T.cfg e).rates

theorem policyChange_rates : Returns (fun s => SameRates T.cfg s.cfg) (T.policyChange pg v) := by
  unfold policyChange
  refine returns_seq fun changes => returns_seq fun target => returns_ite (fun _ => ?_) fun _ => ?_
  · refine returns_bind (returns_orRaise (fnSetPolicy_rates pg T.now T.cfg _ _)) fun x hx => ?_
    exact returns_pure hx
  · split
    · exact returns_pure (SameRates.refl _)
    · exact returns_pure (SameRates.refl _)

theorem proposeChange_rates : Returns (fun s => SameRates T.cfg s.cfg) (T.proposeChange pg v) := by
  unfold proposeChange
  exact returns_ite (fun _ => T.functionOverride_rates v) fun _ => T.policyChange_rates pg v

theorem createAgent_rates : Returns (fun s => SameRates T.cfg s.cfg) (T.createAgent pg v) := by
  unfold createAgent
  refine returns_guard fun _ => returns_guard fun _ => returns_ite (fun _ => ?_) fun _ => ?_
  · exact returns_bind (returns_orRaise (fnCreateAgent_rates pg T.now T.cfg _ _)) fun x hx =>
      returns_pure hx
  · exact returns_pure (SameRates.refl _)

theorem createFunction_rates : Returns (fun s => SameRates T.cfg s.cfg) (T.createFunction pg v) := by
  unfold createFunction
  refine returns_guard fun _ => returns_ite (fun _ => ?_) fun _ => ?_
  · split
    · rename_i hok
      exact returns_pure (fnCreateFunction_rates pg T.now T.cfg _ _ _ _ _ _ _ _ _ hok)
    · exact returns_error _
  · exact returns_pure (SameRates.refl _)

theorem updateFunction_rates : Returns (fun s => SameRates T.cfg s.cfg) (T.updateFunction pg v) := by
  unfold updateFunction
  refine returns_seq fun target => returns_ite (fun _ => ?_) fun _ => ?_
  · split
    · rename_i hok
      exact returns_pure (fnUpdateFunction_rates pg T.now T.cfg _ _ _ _ _ hok)
    · exact returns_orRefuse (returns_error _)
  · exact returns_pure (SameRates.refl _)

theorem proposeFix_rates : Returns (fun s => SameRates T.cfg s.cfg) (T.proposeFix pg v) := by
  unfold proposeFix
  refine returns_seq fun kt => returns_ite (fun _ => ?_) fun _ => ?_
  · refine returns_bind (returns_orRaise (applyFix_rates pg T.now T.cfg _ _ _)) fun x hx => ?_
    exact returns_pure hx
  · exact returns_pure (SameRates.refl _)

theorem remember_rates : Returns (fun s => SameRates T.cfg s.cfg) (T.remember pg v) := by
  unfold remember
  split
  · exact returns_orRefuse (returns_error _)
  · rename_i hok
    refine returns_seq fun compacted => returns_pure ?_
    exact writeMemory_rates pg T.now T.cfg _ _ _ _ _ _ _ _ _ hok

theorem act_rates (a : Action) : Returns (fun s => SameRates T.cfg s.cfg) (T.act pg a v) := by
  refine T.act_cfg pg v (SameRates.refl T.cfg) a fun ha => ?_
  cases a with
  | proposeChange =>
    rw [act]
    exact T.proposeChange_rates pg v
  | remember =>
    rw [act]
    exact T.remember_rates pg v
  | createAgent =>
    rw [act]
    exact T.createAgent_rates pg v
  | proposeFix =>
    rw [act]
    exact T.proposeFix_rates pg v
  | createFunction =>
    rw [act]
    exact returns_orRefuse (T.createFunction_rates pg v)
  | updateFunction =>
    rw [act]
    exact T.updateFunction_rates pg v
  | _ => cases ha

end Turn

section Steps

variable {db db' db'' : Db} {pg : Postgres} {now : Time}

theorem Unspent.refl (db : Db) : Unspent db db :=
  ⟨SameRates.refl _, Extends.refl _ _ _, Extends.refl _ _ _⟩

theorem Unspent.trans (h : Unspent db db') (h' : Unspent db' db'') : Unspent db db'' :=
  ⟨h.rates.trans h'.rates, h.sessions.trans h'.sessions, h.calls.trans h'.calls⟩

/-- Tasks, logs, approvals and events are free. -/
theorem unspent_of_same (hcfg : SameRates db.cfg db'.cfg) (hs : db'.sessions = db.sessions)
    (hc : db'.calls = db.calls) : Unspent db db' := by
  refine ⟨hcfg, ?_, ?_⟩
  · rw [hs]
    exact Extends.refl _ _ _
  · rw [hc]
    exact Extends.refl _ _ _

theorem Noted.unspent (h : Noted db db') : Unspent db db' :=
  unspent_of_same (h.cfg ▸ SameRates.refl _) h.sessions h.calls

theorem unspent_updateCalls (db : Db) {p : Call → Bool} {f : Call → Call} (hf : ∀ c, (f c).bill = c.bill) :
    Unspent db { db with calls := update p f db.calls } :=
  ⟨SameRates.refl _, Extends.refl _ _ _, extends_update hf⟩

theorem unspent_insertCall (db : Db) (id : Uuid) (req : Request) (now : Time) :
    Unspent db (db.insertCall id req now) :=
  ⟨SameRates.refl _, Extends.refl _ _ _, extends_append rfl⟩

theorem unspent_updateSessions (db : Db) {p : Session → Bool} {f : Session → Session}
    (hf : ∀ s, (f s).origin = s.origin) : Unspent db { db with sessions := update p f db.sessions } :=
  ⟨SameRates.refl _, extends_update hf, Extends.refl _ _ _⟩

theorem unspent_maybeCompleteSession (db : Db) (id : Uuid) (now : Time) :
    Unspent db (db.maybeCompleteSession id now) := by
  rcases maybeCompleteSession_cases db id now with ⟨-, h⟩ | ⟨-, h⟩
  · rw [h]
    exact Unspent.refl db
  · rw [h]
    refine unspent_updateSessions db fun s => ?_
    unfold closeSession
    split_ifs <;> rfl

theorem unspent_failTask (db : Db) (t : Task) (e : String) (v : Json) (now : Time) :
    Unspent db (db.failTask t e v now) := by
  have hrow : Unspent db ((db.updateTask t.taskId fun r =>
      { r with status := .failed, error := some e, updatedAt := now }).appendLog t.taskId t.stepCount
        .error v now) := unspent_of_same (SameRates.refl _) rfl rfl
  exact hrow.trans (unspent_maybeCompleteSession _ _ _)

theorem fnCreateSession_unspent {agentId : Uuid} {goal : Option String} {projectId : Option Uuid} :
    Returns (fun r => Unspent db r.1) (fnCreateSession now db agentId goal projectId none) := by
  unfold fnCreateSession
  refine returns_seq fun _ => returns_seq fun _ => returns_seq fun _ => returns_pure ?_
  exact ⟨SameRates.refl _, extends_append rfl, Extends.refl _ _ _⟩

theorem fnContinueSession_unspent {sessionId : Uuid} {message : Option String} :
    Returns (fun r => Unspent db r.1) (fnContinueSession now db sessionId message) := by
  unfold fnContinueSession
  refine returns_seq fun _ => ?_
  split
  · exact returns_error _
  · refine returns_seq fun _ => returns_seq fun _ => returns_pure ?_
    have hopen : Unspent db (db.updateSession sessionId fun s =>
        { s with status := .open, completedAt := none }) := unspent_updateSessions db fun _ => rfl
    exact hopen.trans (unspent_of_same (SameRates.refl _) rfl rfl)

theorem unspent_record (db : Db) (t : Task) {s : Step} (now : Time) (hs : SameRates db.cfg s.cfg) :
    Unspent db (db.record t s now) := by
  have hset : ∀ (d : Db) cut, Unspent d (d.setCompacted cut) := by
    intro d cut
    cases cut with
    | none => exact Unspent.refl d
    | some c => exact unspent_updateSessions d fun _ => rfl
  have hmark : ∀ (d : Db) type name, Unspent d (markCapabilitySelected d t.taskId type name) := by
    intro d type name
    unfold markCapabilitySelected
    dsimp only
    split <;> exact unspent_of_same (SameRates.refl _) rfl rfl
  have hlogs : Unspent db ({ db with cfg := s.cfg }.appendLogs t.taskId (t.stepCount + s.logAt) s.logs now) :=
    unspent_of_same hs rfl rfl
  unfold Db.record
  dsimp only
  refine Unspent.trans ?_ (hset _ _)
  split
  · exact hlogs
  · exact hlogs.trans (hmark _ _ _)

theorem unspent_applyNext (db : Db) (t : Task) (next : Next) (now : Time) :
    Unspent db (db.applyNext t next now) := by
  have hbump : ∀ (d : Db) f, Unspent d (d.bump t.taskId now f) :=
    fun d f => unspent_of_same (SameRates.refl _) rfl rfl
  cases next with
  | again => exact hbump db id
  | queue req => exact (unspent_insertCall db _ _ _).trans (hbump _ _)
  | delegate child wait => cases wait <;> exact unspent_of_same (SameRates.refl _) rfl rfl
  | finalAnswer answer =>
    refine Unspent.trans ?_ (unspent_maybeCompleteSession _ _ _)
    exact (hbump db _).trans (unspent_updateSessions _ fun _ => rfl)
  | fail error => exact (hbump db _).trans (unspent_maybeCompleteSession _ _ _)
  | awaitHuman reason => exact unspent_of_same (SameRates.refl _) rfl rfl
  | awaitChildren => exact hbump db _

theorem fnSubmitResult_unspent (db : Db) (id : Uuid) (payload : Json) :
    Returns (fun r => Unspent db r.1) (fnSubmitResult pg now db id payload) := by
  unfold fnSubmitResult
  split
  · exact returns_error _
  · rename_i t ht
    refine returns_ite (fun _ => returns_error _) fun _ => ?_
    split
    · exact returns_ok (unspent_failTask db t _ _ now)
    · refine returns_bind (Turn.payloadStep_cfg pg _ payload (SameRates.refl db.cfg) fun a v _ => ?_)
        fun s hs => returns_pure ?_
      · exact Turn.act_rates pg _ v a
      · exact (unspent_record db t now hs).trans (unspent_applyNext _ _ _ _)

theorem unspent_submitQuietly (db : Db) (id : Uuid) (payload : Json) :
    Unspent db (submitQuietly pg now db id payload) := by
  unfold submitQuietly
  split
  · rename_i hok
    exact fnSubmitResult_unspent db id payload _ hok
  · exact Unspent.refl db

theorem unspent_submitIfRunning (db : Db) (id : Uuid) (payload : Json) :
    Unspent db (submitIfRunning pg now db id payload).1 := by
  unfold submitIfRunning
  split
  · split
    · rename_i hok
      exact fnSubmitResult_unspent db id payload _ hok
    · exact Unspent.refl db
  · exact Unspent.refl db

/-- A loop whose rounds are each free. -/
theorem unspent_foldl {α : Type} {f : Db → α → Db} (hf : ∀ d a, Unspent d (f d a)) (as : List α) (db : Db) :
    Unspent db (as.foldl f db) := by
  induction as generalizing db with
  | nil => exact Unspent.refl db
  | cons a as ih => exact (hf db a).trans (ih (f db a))

end Steps

section Dispatch

variable {db : Db} (pg : Postgres) (now : Time)

theorem queueCompaction_unspent (agent : Agent) (sid : Uuid) (before : Option Time) (rows : List Log)
    (cut : Time) : Returns (Unspent db) (queueCompaction pg now db agent sid before rows cut) := by
  unfold queueCompaction
  refine returns_bind fnCreateSession_unspent fun r hr => returns_pure ?_
  exact hr.trans (unspent_of_same (SameRates.refl _) rfl rfl)

theorem maybeTriggerCompaction_unspent (sid : Uuid) (ids : List Uuid) :
    Returns (Unspent db) (maybeTriggerCompaction pg now db sid ids) := by
  have hsame : Returns (Unspent db) (pure db : Except String Db) := returns_pure (Unspent.refl db)
  unfold maybeTriggerCompaction
  split
  · exact hsame
  · refine returns_ite (fun _ => hsame) fun _ => returns_seq fun _ => returns_seq fun _ => ?_
    dsimp only
    refine returns_ite (fun _ => hsame) fun _ => ?_
    split
    · exact hsame
    · exact queueCompaction_unspent pg now _ _ _ _ _

theorem openTurn_unspent (roll : Rat) (t : Task) (p : Policy) :
    Returns (fun r => Unspent db r.1) (openTurn pg now roll db t p) := by
  have hfreeze : ∀ (d : Db) freeze, Unspent d (d.freezeOverride t freeze) := by
    intro d freeze
    cases freeze <;> exact unspent_of_same (SameRates.refl _) rfl rfl
  have hmem : Unspent db
      { db with cfg := touchMemories db.cfg (recalledMemories db.cfg t.agentId now) now } :=
    unspent_of_same ⟨rfl, rfl⟩ rfl rfl
  unfold openTurn
  dsimp only
  split
  · refine returns_bind (maybeTriggerCompaction_unspent pg now _ _) fun d hd => returns_seq fun o => ?_
    exact returns_pure ((hmem.trans hd).trans (hfreeze d _))
  · refine returns_bind (returns_pure hmem) fun d hd => returns_seq fun o => ?_
    exact returns_pure (hd.trans (hfreeze d _))

theorem fnNextStep_unspent (roll : Rat) (id : Uuid) :
    Returns (fun r => Unspent db r.1) (fnNextStep pg now roll db id) := by
  unfold fnNextStep
  split
  · exact returns_error _
  · rename_i t _
    refine returns_ite (fun _ => returns_error _) fun _ => ?_
    have hstart : Unspent db (db.startTurn t now) := by
      unfold Db.startTurn
      split
      · exact unspent_of_same (SameRates.refl _) rfl rfl
      · exact Unspent.refl db
    dsimp only
    split
    · exact returns_ok (hstart.trans (unspent_failTask _ _ _ _ _))
    · exact returns_error _
    · refine returns_ite (fun _ => returns_ok (hstart.trans (unspent_failTask _ _ _ _ _))) fun _ => ?_
      exact returns_mono (openTurn_unspent pg now roll t _) fun r hr => hstart.trans hr

theorem dispatchTask_unspent (roll : Uuid → Rat) (t : Task) :
    Returns (fun r => Unspent db r.1) (dispatchTask pg now roll db t) := by
  unfold dispatchTask
  refine returns_ite (fun _ => returns_ok (Unspent.refl db)) fun _ => ?_
  split
  · exact returns_ok (unspent_submitQuietly db _ _)
  · rename_i hok
    exact returns_ok (fnNextStep_unspent pg now _ _ _ hok)
  · rename_i d spec hok
    have hnext : Unspent db d := fnNextStep_unspent pg now _ _ _ hok
    split
    · exact returns_ok (hnext.trans (unspent_insertCall d _ _ _))
    · split
      · rename_i hsub
        exact returns_ok (hnext.trans (fnSubmitResult_unspent d _ _ _ hsub))
      · exact returns_error _

theorem dispatchLoop_unspent (roll : Uuid → Rat) (n : Nat) (ts : List Task) (db : Db) :
    Returns (fun r => Unspent db r.1) (dispatchLoop pg now roll n ts db) := by
  induction ts generalizing n db with
  | nil => cases n <;> exact returns_ok (Unspent.refl db)
  | cons t ts ih =>
    cases n with
    | zero => exact returns_ok (Unspent.refl db)
    | succ n =>
      rw [dispatchLoop]
      refine returns_bind (dispatchTask_unspent pg now roll t) fun r hr => ?_
      obtain ⟨d, queued⟩ := r
      cases queued with
      | none => exact returns_mono (ih (n + 1) d) fun x hx => hr.trans hx
      | some id => exact returns_bind (ih n d) fun x hx => returns_pure (hr.trans hx)

theorem unspent_guardQueuedCall (db : Db) (queue : Queue) (id : Uuid) :
    Unspent db (guardQueuedCall pg now db queue id).1 := by
  rcases guardQueuedCall_cases pg now db queue id with
    h | ⟨q, t, -, ⟨reason, -, h⟩ | ⟨-, -, h⟩ | ⟨-, h⟩⟩
  · rw [h]
    exact Unspent.refl db
  · rw [h]
    have hlost : Unspent db (db.updateCall q.callId fun c => { c with status := .lost, updatedAt := now }) :=
      unspent_updateCalls db fun _ => rfl
    exact hlost.trans (unspent_failTask _ _ _ _ _)
  · rw [h]
    exact Unspent.refl db
  · rw [h]
    have hprev : Unspent db (db.supersede (latestApproval db t.taskId queue id) now) := by
      cases latestApproval db t.taskId queue id <;> exact unspent_of_same (SameRates.refl _) rfl rfl
    exact hprev.trans (unspent_of_same (SameRates.refl _) rfl rfl)

theorem unspent_claimLoop (queue : Queue) (fallback : Option String) (qs : List Call) (db : Db) :
    Unspent db (claimLoop pg now queue fallback qs db).1 := by
  induction qs generalizing db with
  | nil => exact Unspent.refl db
  | cons q qs ih =>
    have hguard : Unspent db (guardQueuedCall pg now db queue q.callId).1 :=
      unspent_guardQueuedCall pg now db queue q.callId
    rw [claimLoop]
    dsimp only
    split
    · have htake : Unspent (guardQueuedCall pg now db queue q.callId).1
          ((guardQueuedCall pg now db queue q.callId).1.takeCall q.callId now) :=
        unspent_updateCalls _ fun _ => rfl
      exact (hguard.trans htake).trans (ih _)
    · exact hguard.trans (ih _)

end Dispatch

section Completions

variable {db : Db} {pg : Postgres} {now : Time}

theorem unspent_pauseAmbiguousOutbound (db : Db) (q : Call) (reason : String) :
    Unspent db (db.pauseAmbiguousOutbound q reason now) := by
  have hlost : Unspent db (db.updateCall q.callId fun c =>
      { c with status := .lost, error := some reason, updatedAt := now }) := unspent_updateCalls db fun _ => rfl
  unfold Db.pauseAmbiguousOutbound
  dsimp only
  split
  · exact hlost
  · exact hlost.trans (unspent_of_same (SameRates.refl _) rfl rfl)

theorem unspent_scoreOutcome (db : Db) (q : Call) (o : Outbound) (result : Json) :
    Unspent db (scoreOutcome db q o result) := by
  unfold scoreOutcome
  split
  · exact unspent_updateCalls db fun _ => rfl
  · exact Unspent.refl db

/-- Only a call to a model is paid for. -/
theorem completeKind_unspent {q : Call} {o : Outbound} {status : Option Int} {body : Option String}
    (hk : o.kind ≠ .llm) :
    Returns (fun r => Unspent db r.1) (completeKind pg now db q o status body) := by
  have hnoted : ∀ {x : Except String (Db × Json)}, Returns (fun r => Noted db r.1) x →
      Returns (fun r => Unspent db r.1) x := fun hx => returns_mono hx fun r hr => hr.unspent
  have hsearch : ∀ rank : List (Option Float8) → Except String (Db × Json),
      (∀ v, Returns (fun r => Noted db r.1) (rank v)) →
        Returns (fun r => Unspent db r.1) (completeSearch db status body rank) :=
    fun rank h => hnoted (completeSearch_noted h)
  unfold completeKind
  cases hkind : o.kind with
  | function => exact hnoted completeFunctionKind_noted
  | mcp => exact hnoted completeMcpKind_noted
  | embedding => exact hsearch _ fun _ => returns_seq fun _ => returns_pure (Noted.refl db)
  | capabilitySearch => exact hnoted completeCapabilitySearchKind_noted
  | recallMemories => exact hsearch _ fun _ => returns_seq fun _ => returns_pure (Noted.refl db)
  | llm => exact absurd hkind hk

theorem fnCompleteLocal_unspent (queue : Queue) (id : Uuid) (r : LocalResult) :
    Returns (fun x => Unspent db x.1) (fnCompleteLocal pg now db queue id r) := by
  unfold fnCompleteLocal
  split
  · exact returns_error _
  · rename_i q _
    refine returns_ite (fun _ => returns_ok (Unspent.refl db)) fun _ => ?_
    have hharvest : Unspent db (db.harvest q.callId now) := unspent_updateCalls db fun _ => rfl
    refine returns_bind completeLocalRequest_noted fun x hx => returns_pure ?_
    exact (hharvest.trans hx.unspent).trans (unspent_submitIfRunning _ _ _)

end Completions

section Sweeps

variable (pg : Postgres) (now : Time)

theorem bill_timedOut (c : Call) : (c.timedOut now).bill = c.bill := by
  unfold Call.timedOut
  split <;> rfl

theorem unspent_loseCalls (db : Db) (queues : List Queue) (own : Uuid → Bool) (error : String) :
    Unspent db (db.loseCalls queues own error now) :=
  unspent_updateCalls db fun _ => rfl

theorem unspent_reclaimCall (db : Db) (q : Call) : Unspent db (reclaimCall pg now db q) := by
  have hlost : Unspent db (db.updateCall q.callId (·.timedOut now)) :=
    unspent_updateCalls db (bill_timedOut now)
  unfold reclaimCall
  dsimp only
  split
  · split
    · exact hlost.trans (unspent_pauseAmbiguousOutbound _ q _)
    · exact hlost.trans (unspent_submitQuietly _ _ _)
  · exact hlost

theorem unspent_reclaimQueue (db : Db) (seconds : Option Int) (locked : List Uuid) (queue : Queue) :
    Unspent db (reclaimQueue pg now seconds locked queue db) :=
  unspent_foldl (unspent_reclaimCall pg now) _ db

theorem unspent_expireApproval (db : Db) (a : Approval) : Unspent db (expireApproval now db a) := by
  unfold expireApproval
  dsimp only
  split
  · exact unspent_of_same (SameRates.refl _) rfl rfl
  · refine Unspent.trans ?_ (unspent_maybeCompleteSession _ _ _)
    exact unspent_of_same (SameRates.refl _) rfl rfl

theorem unspent_timeoutTurn (db : Db) (t : Task) : Unspent db (timeoutTurn now db t) := by
  unfold timeoutTurn
  dsimp only
  refine Unspent.trans ?_ (unspent_maybeCompleteSession _ _ _)
  refine Unspent.trans ?_ (unspent_loseCalls now _ _ _ _)
  exact unspent_of_same (SameRates.refl _) rfl rfl

theorem unspent_wakeParent (db : Db) (t : Task) : Unspent db (wakeParent now db t) :=
  unspent_of_same (SameRates.refl _) rfl rfl

theorem resetBuilds_rates (seconds : Option Int) (c : Config) :
    SameRates c (resetBuilds pg now seconds c) := by
  unfold resetBuilds
  dsimp only
  split
  · exact SameRates.trans ⟨rfl, rfl⟩ (sync_rates pg now _)
  · exact ⟨rfl, rfl⟩

theorem unspent_onConfig (db : Db) {f : Config → Config} (hf : SameRates db.cfg (f db.cfg)) :
    Unspent db (db.onConfig f) :=
  unspent_of_same hf rfl rfl

theorem fnWatchdog_unspent (db : Db) (seconds : Option Int) (locked : List Uuid) :
    Unspent db (fnWatchdog pg now seconds locked db) := by
  have hqueues := (((unspent_reclaimQueue pg now db seconds locked .outboundCalls).trans
    (unspent_reclaimQueue pg now _ seconds locked .sqlCalls)).trans
      (unspent_reclaimQueue pg now _ seconds locked .functionCalls)).trans
        (unspent_reclaimQueue pg now _ seconds locked .procedureCalls)
  have hconfig : ∀ d : Db, Unspent d (d.onConfig fun c =>
      reclaimOperatorCalls now seconds (resetBuilds pg now seconds c)) :=
    fun d => unspent_onConfig d ((resetBuilds_rates pg now seconds d.cfg).trans ⟨rfl, rfl⟩)
  have hbuilds := hqueues.trans (hconfig _)
  have hexpire : ∀ d : Db, Unspent d (d.expireApprovals now locked) :=
    fun d => unspent_foldl (unspent_expireApproval now) _ d
  have htimeout : ∀ d : Db, Unspent d (d.timeoutTurns now locked) :=
    fun d => unspent_foldl (unspent_timeoutTurn now) _ d
  have hwake : ∀ d : Db, Unspent d (d.wakeParents now locked) :=
    fun d => unspent_foldl (unspent_wakeParent now) _ d
  have hsweeps := ((hbuilds.trans (hexpire _)).trans (htimeout _)).trans (hwake _)
  have hdrop : ∀ d : Db, Unspent d (d.onConfig (dropExpiredMemories now)) :=
    fun d => unspent_onConfig d ⟨rfl, rfl⟩
  exact hsweeps.trans (hdrop _)

end Sweeps

section Operators

variable {db : Db} {now : Time}

theorem fnDecideApproval_unspent (id : Uuid) (accept : Bool) (reply : Option String) :
    Returns (fun r => Unspent db r.1) (fnDecideApproval now db id accept reply) := by
  unfold fnDecideApproval
  split
  · exact returns_error _
  · refine returns_ite (fun _ => returns_error _) fun _ => ?_
    dsimp only
    split
    · exact returns_ok (unspent_of_same (SameRates.refl _) rfl rfl)
    · refine returns_ok ?_
      split
      · exact unspent_of_same (SameRates.refl _) rfl rfl
      · refine Unspent.trans ?_ (unspent_maybeCompleteSession _ _ _)
        exact unspent_of_same (SameRates.refl _) rfl rfl

theorem fnCancelSession_unspent (sessionId : Uuid) (reason : Option String) :
    Returns (fun r => Unspent db r.1) (fnCancelSession now db sessionId reason) := by
  unfold fnCancelSession
  refine returns_seq fun _ => returns_pure ?_
  have hcancel : ∀ (said : String) (ts : List Task), Unspent db (ts.foldl (Db.cancelTask now said) db) :=
    fun said ts => unspent_foldl (f := Db.cancelTask now said)
      (fun d t => unspent_of_same (SameRates.refl _) rfl rfl) ts db
  have hlost := (hcancel ((trimmed reason).getD "Cancelled by operator.") (db.tasks.filter fun t =>
    t.sessionId = sessionId ∧ unfinished t)).trans
      (unspent_loseCalls now _ [.outboundCalls, .sqlCalls] (db.inSession sessionId) "session_cancelled")
  exact hlost.trans ⟨SameRates.refl _, extends_update fun _ => rfl, Extends.refl _ _ _⟩

end Operators

end Allgres
