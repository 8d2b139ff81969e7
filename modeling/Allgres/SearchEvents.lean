import Allgres.SessionStates
import Allgres.Writes

/-! What the operations do to the search events. A search presents its candidates in a new event,
a step that queues a routine selects the latest presented one, and a completion gives a selected
event its outcome; every other operation leaves the events alone. -/

namespace Allgres

open Raise Rows Runs Allgres.Core

namespace Turn

variable (pg : Postgres) (T : Turn) (v : Json)

/-- A step that queues a call of a function selects the function. -/
def Chooses (T : Turn) (s : Step) : Prop :=
  ∀ id agent args, s.next = .queue (.function id agent args) →
    s.cfg = T.cfg ∧ ∃ f ∈ T.cfg.functions, f.functionId = id ∧ s.selected = some (.function, some f.name)

/-- The step queues no call of a function. -/
def NoFunction (n : Next) : Prop :=
  ∀ id agent args, n ≠ .queue (.function id agent args)

theorem chooses_of_noFunction {ε : Type} {x : Except ε Step} (h : Asking NoFunction x) :
    Returns T.Chooses x := by
  intro s hs id agent args hnext
  exact absurd hnext (h s hs id agent args)

theorem noFunction_again : NoFunction .again := by
  intro id agent args h
  cases h

theorem executeSql_noFunction : Asking NoFunction (T.executeSql pg v) := by
  unfold executeSql
  split
  · exact returns_error _
  · exact returns_ok nofun

theorem runProcedure_noFunction : Asking NoFunction (T.runProcedure v) := by
  unfold runProcedure
  dsimp only
  split
  · exact returns_error _
  · split
    · exact returns_error _
    · exact returns_ite (fun _ => returns_error _) fun _ => returns_ok nofun

theorem delegate_noFunction : Asking NoFunction (T.delegate v) := by
  unfold delegate
  exact returns_seq fun _ => returns_seq fun _ => returns_ok nofun

theorem embeddingQuery_noFunction (kind : OutboundKind) (action : String) :
    Asking NoFunction (T.embeddingQuery v kind action) := by
  unfold embeddingQuery
  split
  · exact returns_error _
  · exact returns_error _
  · dsimp only
    split
    · exact returns_error _
    · exact returns_ok nofun

theorem searchCapabilities_noFunction : Asking NoFunction (T.searchCapabilities v) := by
  unfold searchCapabilities
  exact returns_bind (T.embeddingQuery_noFunction v _ _) fun _ hs => returns_pure hs

theorem finalAnswer_noFunction : Asking NoFunction (T.finalAnswer v) := by
  unfold finalAnswer
  dsimp only
  split
  · exact returns_error _
  · exact returns_ok nofun

theorem awaitChildren_noFunction : Asking NoFunction T.awaitChildren := by
  unfold awaitChildren
  exact returns_ite (fun _ => returns_ok nofun) fun _ => returns_error _

theorem outgoingCall_noFunction (name : Option String) (args orig : Json)
    (bound : Option (Function × Option Uuid)) :
    Asking NoFunction (T.outgoingCall v name args orig bound) := by
  intro s hs
  obtain ⟨_, _, _, _, _, _, _, hnext⟩ := T.outgoingCall_eq_ok v hs
  rw [hnext]
  exact nofun

/-- The function that a name resolves to is one of the table. -/
theorem resolveFunction_mem {name : Option String} {args : Json} :
    Returns (fun c => ∀ f, c = .plpgsql f → f ∈ T.cfg.functions) (T.resolveFunction name args) := by
  have hfound : ∀ {f : Function} {p : Function → Bool} {callee : Callee},
      T.cfg.functions.find? p = some f → (callee = .plpgsql f ∨ ∀ g, callee ≠ .plpgsql g) →
      ∀ g, callee = .plpgsql g → g ∈ T.cfg.functions := by
    rintro f p callee hf (rfl | hne) g hg
    · obtain rfl := Callee.plpgsql.inj hg
      exact List.mem_of_find?_eq_some hf
    · exact absurd hg (hne g)
  unfold resolveFunction
  refine returns_ite (fun _ => ?_) fun _ => ?_
  · split
    · rename_i f hf
      refine returns_ok (hfound hf ?_)
      split
      · exact .inl rfl
      · exact .inr nofun
    · exact returns_ok nofun
  · dsimp only
    split
    · exact returns_error _
    · rename_i f hf
      refine returns_ite (fun _ => returns_ok (hfound hf (.inl rfl))) fun _ => ?_
      exact returns_ok (hfound hf (.inr nofun))

theorem callFunction_chooses : Returns T.Chooses (T.callFunction v) := by
  unfold callFunction
  refine returns_bind T.resolveFunction_mem fun callee hcallee => ?_
  cases callee with
  | plpgsql f =>
    unfold queueFunction
    refine returns_ite (fun _ => returns_error _) fun _ => returns_ok ?_
    rintro id agent args ⟨⟩
    exact ⟨rfl, f, hcallee f rfl, rfl, rfl⟩
  | outgoing name args bound =>
    exact T.chooses_of_noFunction (T.outgoingCall_noFunction v name args _ bound)

theorem act_chooses (a : Action) : Returns T.Chooses (T.act pg a v) := by
  have hrefuse : ∀ {x : Except Refusal Step}, Returns T.Chooses x → Returns T.Chooses (orRefuse x) := by
    intro x hx s hs
    cases x with
    | error r => cases hs
    | ok t =>
      obtain rfl := Except.ok.inj hs
      exact hx t rfl
  have hnone : ∀ {x : Except Refusal Step}, Asking NoFunction x → Returns T.Chooses (orRefuse x) :=
    fun hx => hrefuse (T.chooses_of_noFunction hx)
  cases a with
  | finalAnswer =>
    rw [act]
    exact hnone (T.finalAnswer_noFunction v)
  | executeSql =>
    rw [act]
    exact hnone (T.executeSql_noFunction pg v)
  | callFunction =>
    rw [act]
    exact hrefuse (T.callFunction_chooses v)
  | runProcedure =>
    rw [act]
    exact hnone (T.runProcedure_noFunction v)
  | delegate =>
    rw [act]
    exact T.chooses_of_noFunction (T.delegate_noFunction v)
  | searchAgents =>
    rw [act]
    exact hnone (T.embeddingQuery_noFunction v _ _)
  | searchCapabilities =>
    rw [act]
    exact hnone (T.searchCapabilities_noFunction v)
  | recallMemories =>
    rw [act]
    exact hnone (T.embeddingQuery_noFunction v _ _)
  | awaitHuman =>
    rw [act]
    exact returns_ok fun _ _ _ h => by cases h
  | proposeChange =>
    rw [act]
    exact T.chooses_of_noFunction (T.proposeChange_again pg v noFunction_again)
  | remember =>
    rw [act]
    exact T.chooses_of_noFunction (T.remember_again pg v noFunction_again)
  | createAgent =>
    rw [act]
    exact T.chooses_of_noFunction (T.createAgent_again pg v noFunction_again)
  | proposeFix =>
    rw [act]
    exact T.chooses_of_noFunction (T.proposeFix_again pg v noFunction_again)
  | awaitChildren =>
    rw [act]
    exact hnone T.awaitChildren_noFunction
  | createFunction =>
    rw [act]
    exact hrefuse (T.chooses_of_noFunction (T.createFunction_again pg v noFunction_again))
  | updateFunction =>
    rw [act]
    exact T.chooses_of_noFunction (T.updateFunction_again pg v noFunction_again)

/-- A payload that is no reply of a model selects nothing and queues nothing. -/
structure Plain (s : Step) : Prop where
  selected : s.selected = none
  next : ∀ req, s.next ≠ .queue req

theorem payloadStep_plain {payload : Json} (h : payload.text "type" ≠ some "llm_response") :
    Returns Plain (T.payloadStep pg payload) := by
  have hagain : ∀ {s : Step}, s.selected = none → s.next = .again → Plain s :=
    fun hs hn => ⟨hs, fun req => hn ▸ nofun⟩
  unfold payloadStep
  dsimp only
  refine returns_ite (fun htype => absurd htype h) fun _ => returns_ite (fun _ => returns_ok ?_) fun _ =>
    returns_ite (fun _ => returns_ok (hagain rfl rfl)) fun _ =>
      returns_ite (fun _ => returns_ok (hagain rfl rfl)) fun _ => returns_ok (hagain rfl rfl)
  refine ⟨rfl, fun req => ?_⟩
  unfold errorStep
  dsimp only
  split
  · exact nofun
  · exact nofun

theorem payloadStep_chooses (payload : Json) : Returns T.Chooses (T.payloadStep pg payload) := by
  by_cases htype : payload.text "type" = some "llm_response"
  · have hsettle : ∀ {x : Except Halt Step}, Returns T.Chooses x → Returns T.Chooses (T.settle x) := by
      intro x hx
      cases x with
      | ok s => exact returns_ok (hx s rfl)
      | error e =>
        cases e with
        | refuse r => exact returns_ok nofun
        | raise m => exact returns_error _
    unfold payloadStep
    rw [if_pos htype]
    refine returns_bind (hsettle ?_) fun s hs => returns_pure hs
    split
    · exact returns_error _
    · exact T.act_chooses pg _ _
  · intro s hs id agent args hnext
    exact absurd hnext ((T.payloadStep_plain pg htype s hs).next _)

end Turn

section Submitting

variable {pg : Postgres} {now : Time} {db db' : Db} {t : Task}

theorem maybeCompleteSession_events (db : Db) (id : Uuid) (now : Time) :
    (db.maybeCompleteSession id now).events = db.events := by
  rcases maybeCompleteSession_cases db id now with ⟨-, h⟩ | ⟨-, h⟩
  · rw [h]
  · rw [h]

theorem failTask_events (db : Db) (t : Task) (e : String) (v : Json) (now : Time) :
    (db.failTask t e v now).events = db.events :=
  maybeCompleteSession_events _ _ _

theorem applyNext_events (db : Db) (t : Task) (next : Next) (now : Time) :
    (db.applyNext t next now).events = db.events := by
  cases next with
  | delegate child wait => cases wait <;> rfl
  | finalAnswer answer => exact maybeCompleteSession_events _ _ _
  | fail error => exact maybeCompleteSession_events _ _ _
  | _ => rfl

theorem setCompacted_events (db : Db) (cut : Option (Uuid × Option Time)) :
    (db.setCompacted cut).events = db.events := by
  cases cut <;> rfl

theorem record_events (db : Db) (t : Task) (s : Step) (now : Time) :
    (db.record t s now).events = match s.selected with
      | none => db.events
      | some (type, name) => (markCapabilitySelected { db with cfg := s.cfg } t.taskId type name).events := by
  have hmark : ∀ d d' : Db, d.events = d'.events → d.cfg = d'.cfg → ∀ type name,
      (markCapabilitySelected d t.taskId type name).events =
        (markCapabilitySelected d' t.taskId type name).events := by
    intro d d' hevents hcfg type name
    unfold markCapabilitySelected
    rw [hevents, hcfg]
    dsimp only
    split
    · rfl
    · exact hevents
  unfold Db.record
  rw [setCompacted_events]
  cases s.selected with
  | none => rfl
  | some p =>
    obtain ⟨type, name⟩ := p
    exact hmark ({ db with cfg := s.cfg }.appendLogs t.taskId (t.stepCount + s.logAt) s.logs now)
      { db with cfg := s.cfg } rfl rfl type name

theorem record_events_of_none {s : Step} (h : s.selected = none) (db : Db) (t : Task) (now : Time) :
    (db.record t s now).events = db.events := by
  rw [record_events, h]

theorem fnSubmitResult_events {i : Uuid} {payload : Json}
    (h : payload.text "type" ≠ some "llm_response") :
    Returns (fun r => r.1.events = db.events) (fnSubmitResult pg now db i payload) := by
  intro r hr
  obtain ⟨d, result⟩ := r
  obtain ⟨t, -, -, -, ⟨e, v, rfl⟩ | ⟨a, s, -, hs, rfl⟩⟩ := fnSubmitResult_cases hr
  · exact failTask_events _ _ _ _ _
  · rw [applyNext_events]
    exact record_events_of_none (Turn.payloadStep_plain pg _ h s hs).selected db t now

theorem errorPayload_noReply (e : String) : (errorPayload e).text "type" ≠ some "llm_response" := by
  rw [errorPayload_type]
  simp

theorem submitQuietly_events (db : Db) (i : Uuid) (e : String) :
    (submitQuietly pg now db i (errorPayload e)).events = db.events := by
  unfold submitQuietly
  split
  · rename_i h
    exact fnSubmitResult_events (errorPayload_noReply e) _ h
  · rfl

theorem submitIfRunning_events (db : Db) (i : Uuid) {payload : Json}
    (h : payload.text "type" ≠ some "llm_response") :
    (submitIfRunning pg now db i payload).1.events = db.events := by
  unfold submitIfRunning
  split
  · split
    · rename_i hr
      exact fnSubmitResult_events h _ hr
    · rfl
  · rfl

theorem events_foldl {α : Type} {f : Db → α → Db} (hf : ∀ d a, (f d a).events = d.events) (as : List α)
    (db : Db) : (as.foldl f db).events = db.events := by
  induction as generalizing db with
  | nil => rfl
  | cons a as ih => exact (ih (f db a)).trans (hf db a)

theorem fnCreateSession_events {agentId : Uuid} {goal : Option String} {projectId scheduleId : Option Uuid} :
    Returns (fun r => r.1.events = db.events) (fnCreateSession now db agentId goal projectId scheduleId) := by
  unfold fnCreateSession
  exact returns_seq fun _ => returns_seq fun _ => returns_seq fun _ => returns_pure rfl

theorem fnContinueSession_events {sessionId : Uuid} {message : Option String} :
    Returns (fun r => r.1.events = db.events) (fnContinueSession now db sessionId message) := by
  unfold fnContinueSession
  refine returns_seq fun _ => ?_
  split
  · exact returns_error _
  · exact returns_seq fun _ => returns_seq fun _ => returns_pure rfl

end Submitting

section Dispatch

variable {db : Db} (pg : Postgres) (now : Time)

theorem maybeTriggerCompaction_events (sid : Uuid) (ids : List Uuid) :
    Returns (fun d => d.events = db.events) (maybeTriggerCompaction pg now db sid ids) := by
  have hsame : Returns (fun d => d.events = db.events) (pure db : Except String Db) := returns_pure rfl
  unfold maybeTriggerCompaction
  split
  · exact hsame
  · refine returns_ite (fun _ => hsame) fun _ => returns_seq fun _ => returns_seq fun _ => ?_
    dsimp only
    refine returns_ite (fun _ => hsame) fun _ => ?_
    split
    · exact hsame
    · unfold queueCompaction
      exact returns_bind fnCreateSession_events fun r hr => returns_pure hr

theorem openTurn_events (roll : Rat) (t : Task) (p : Policy) :
    Returns (fun r => r.1.events = db.events) (openTurn pg now roll db t p) := by
  have hfreeze : ∀ (d : Db) freeze, (d.freezeOverride t freeze).events = d.events := by
    intro d freeze
    cases freeze <;> rfl
  unfold openTurn
  dsimp only
  split
  · refine returns_bind (maybeTriggerCompaction_events pg now _ _) fun d hd => returns_seq fun o => ?_
    exact returns_pure ((hfreeze d _).trans hd)
  · refine returns_bind (P := fun d => d.events = db.events) (returns_pure rfl) fun d hd =>
      returns_seq fun o => ?_
    exact returns_pure ((hfreeze d _).trans hd)

theorem fnNextStep_events (roll : Rat) (id : Uuid) :
    Returns (fun r => r.1.events = db.events) (fnNextStep pg now roll db id) := by
  unfold fnNextStep
  split
  · exact returns_error _
  · rename_i t _
    refine returns_ite (fun _ => returns_error _) fun _ => ?_
    have hstart : (db.startTurn t now).events = db.events := by
      unfold Db.startTurn
      split <;> rfl
    dsimp only
    split
    · exact returns_ok ((failTask_events _ _ _ _ _).trans hstart)
    · exact returns_error _
    · refine returns_ite (fun _ => returns_ok ((failTask_events _ _ _ _ _).trans hstart)) fun _ => ?_
      exact returns_mono (openTurn_events pg now roll t _) fun r hr => hr.trans hstart

theorem dispatchTask_events (roll : Uuid → Rat) (t : Task) :
    Returns (fun r => r.1.events = db.events) (dispatchTask pg now roll db t) := by
  unfold dispatchTask
  refine returns_ite (fun _ => returns_ok rfl) fun _ => ?_
  split
  · exact returns_ok (submitQuietly_events db _ _)
  · rename_i hok
    exact returns_ok (fnNextStep_events pg now _ _ _ hok)
  · rename_i d spec hok
    have hnext : d.events = db.events := fnNextStep_events pg now _ _ _ hok
    split
    · exact returns_ok hnext
    · split
      · rename_i hsub
        exact returns_ok ((fnSubmitResult_events (errorPayload_noReply _) _ hsub).trans hnext)
      · exact returns_error _

theorem dispatchLoop_events (roll : Uuid → Rat) (n : Nat) (ts : List Task) (db : Db) :
    Returns (fun r => r.1.events = db.events) (dispatchLoop pg now roll n ts db) := by
  induction ts generalizing n db with
  | nil => cases n <;> exact returns_ok rfl
  | cons t ts ih =>
    cases n with
    | zero => exact returns_ok rfl
    | succ n =>
      rw [dispatchLoop]
      refine returns_bind (dispatchTask_events pg now roll t) fun r hr => ?_
      obtain ⟨d, queued⟩ := r
      cases queued with
      | none => exact returns_mono (ih (n + 1) d) fun x hx => hx.trans hr
      | some id => exact returns_bind (ih n d) fun x hx => returns_pure (hx.trans hr)

theorem guardQueuedCall_events (db : Db) (queue : Queue) (id : Uuid) :
    (guardQueuedCall pg now db queue id).1.events = db.events := by
  rcases guardQueuedCall_cases pg now db queue id with
    h | ⟨q, t, -, ⟨reason, -, h⟩ | ⟨-, -, h⟩ | ⟨-, h⟩⟩
  · rw [h]
  · rw [h]
    exact failTask_events _ _ _ _ _
  · rw [h]
  · rw [h]
    have hprev : (db.supersede (latestApproval db t.taskId queue id) now).events = db.events := by
      cases latestApproval db t.taskId queue id <;> rfl
    exact hprev

theorem claimLoop_events (queue : Queue) (fallback : Option String) (qs : List Call) (db : Db) :
    (claimLoop pg now queue fallback qs db).1.events = db.events := by
  induction qs generalizing db with
  | nil => rfl
  | cons q qs ih =>
    have hguard := guardQueuedCall_events pg now db queue q.callId
    rw [claimLoop]
    dsimp only
    split
    · exact (ih _).trans hguard
    · exact (ih _).trans hguard

end Dispatch

section Sweeps

variable (pg : Postgres) (now : Time)

theorem pauseAmbiguousOutbound_events (db : Db) (q : Call) (reason : String) :
    (db.pauseAmbiguousOutbound q reason now).events = db.events := by
  unfold Db.pauseAmbiguousOutbound
  dsimp only
  split <;> rfl

theorem reclaimCall_events (db : Db) (q : Call) : (reclaimCall pg now db q).events = db.events := by
  unfold reclaimCall
  dsimp only
  split
  · split
    · exact pauseAmbiguousOutbound_events now _ q _
    · exact submitQuietly_events _ _ _
  · rfl

theorem expireApproval_events (db : Db) (a : Approval) : (expireApproval now db a).events = db.events := by
  unfold expireApproval
  dsimp only
  split
  · rfl
  · exact maybeCompleteSession_events _ _ _

theorem timeoutTurn_events (db : Db) (t : Task) : (timeoutTurn now db t).events = db.events :=
  maybeCompleteSession_events _ _ _

theorem fnWatchdog_events (db : Db) (seconds : Option Int) (locked : List Uuid) :
    (fnWatchdog pg now seconds locked db).events = db.events := by
  have hqueue : ∀ (d : Db) queue, (reclaimQueue pg now seconds locked queue d).events = d.events :=
    fun d queue => events_foldl (reclaimCall_events pg now) _ d
  have hexpire : ∀ d : Db, (d.expireApprovals now locked).events = d.events :=
    fun d => events_foldl (expireApproval_events now) _ d
  have htimeout : ∀ d : Db, (d.timeoutTurns now locked).events = d.events :=
    fun d => events_foldl (timeoutTurn_events now) _ d
  have hwake : ∀ d : Db, (d.wakeParents now locked).events = d.events :=
    fun d => events_foldl (f := wakeParent now) (fun _ _ => rfl) _ d
  have hconfig : ∀ (d : Db) f, (d.onConfig f).events = d.events := fun _ _ => rfl
  have hqueues := (((hqueue _ .procedureCalls).trans (hqueue _ .functionCalls)).trans
    (hqueue _ .sqlCalls)).trans (hqueue db .outboundCalls)
  have hsweeps : ∀ d : Db, ((((d.expireApprovals now locked).timeoutTurns now locked).wakeParents now
      locked).onConfig (dropExpiredMemories now)).events = d.events :=
    fun d => ((hconfig _ _).trans (hwake _)).trans ((htimeout _).trans (hexpire d))
  exact ((hsweeps _).trans (hconfig _ _)).trans hqueues

theorem fnDecideApproval_events {db : Db} (id : Uuid) (accept : Bool) (reply : Option String) :
    Returns (fun r => r.1.events = db.events) (fnDecideApproval now db id accept reply) := by
  unfold fnDecideApproval
  split
  · exact returns_error _
  · refine returns_ite (fun _ => returns_error _) fun _ => ?_
    dsimp only
    split
    · exact returns_ok rfl
    · refine returns_ok ?_
      split
      · rfl
      · exact maybeCompleteSession_events _ _ _

theorem fnCancelSession_events {db : Db} (sessionId : Uuid) (reason : Option String) :
    Returns (fun r => r.1.events = db.events) (fnCancelSession now db sessionId reason) := by
  unfold fnCancelSession
  refine returns_seq fun _ => returns_pure ?_
  exact events_foldl (f := Db.cancelTask now ((trimmed reason).getD "Cancelled by operator."))
    (fun _ _ => rfl) _ db

end Sweeps

end Allgres
