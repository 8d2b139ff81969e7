import Allgres.CallStates
import Allgres.FinishedTasks
import Allgres.SearchEvents

/-! The outcomes of capabilities. A call that executes what the latest search of its task
presented selects the event of the search when it is queued and decides its outcome when it
completes. -/

namespace Allgres

open Raise Rows Runs Allgres.Core

/-- A request executes a capability: the row it names, or the function of its name where nothing is
bound to it. -/
def Request.executes (req : Request) (k : Capability) : Bool :=
  match req with
  | .function id _ _ => k.capabilityType = .function && k.sourceId = some id
  | .procedure id _ _ => k.capabilityType = .procedure && k.sourceId = some id
  | .outbound o => (o.kind = .function || o.kind = .mcp) && k.capabilityType = .function &&
      match o.procedureFunctionId with
      | some id => k.sourceId = some id
      | none => some k.name = o.function
  | .sql _ _ => false

/-- The event was written for the capability among its candidates. -/
def SearchEvent.offers (v : SearchEvent) (k : Capability) : Bool :=
  match v.candidates with
  | .arr cs => cs.any fun c => c.text "capability_id" = some (uuidText k.capabilityId)
  | _ => false

namespace Db

/-- The latest event of a task whose candidates nothing has been chosen from. -/
def presentedEvent (db : Db) (taskId : Uuid) : Option SearchEvent :=
  (sortDesc (·.createdAt) (db.events.filter fun e => e.taskId = some taskId ∧
    e.outcome = .presented)).head?

def newCalls (db db' : Db) : List Call :=
  db'.calls.filter fun q => db.calls.all (·.callId != q.callId)

end Db

/-- A call that executes a capability, and the event of the search that presented it. -/
structure Execution where
  callId : Uuid
  eventId : Uuid
  capabilityId : Uuid
  deriving DecidableEq

namespace Db

/-- What a call that is queued in this state executes of the candidates of its task. -/
def executionsOf (db : Db) (q : Call) : List Execution :=
  match db.presentedEvent q.taskId with
  | some v => (db.cfg.capabilities.filter fun k => q.req.executes k ∧ v.offers k).map fun k =>
      ⟨q.callId, v.eventId, k.capabilityId⟩
  | none => []

def executions (db db' : Db) : List Execution :=
  (db.newCalls db').flatMap db.executionsOf

/-- The event of the execution has this outcome for its capability. -/
def Marks (db : Db) (x : Execution) (outcome : EventOutcome) : Prop :=
  ∃ v ∈ db.events, v.eventId = x.eventId ∧ v.selectedCapabilityId = some x.capabilityId ∧
    v.outcome = outcome

instance (db : Db) (x : Execution) (outcome : EventOutcome) : Decidable (db.Marks x outcome) :=
  inferInstanceAs (Decidable (∃ v ∈ db.events, v.eventId = x.eventId ∧
    v.selectedCapabilityId = some x.capabilityId ∧ v.outcome = outcome))

/-- The call in flight that an operation reports a result of. -/
def completing (db : Db) (op : Op) : Option Call :=
  (op.completes.bind fun k => db.call? k.1 k.2).filter (·.status = .inFlight)

def harvested (db : Db) (id : Uuid) : Bool :=
  db.calls.any fun q => q.callId = id ∧ q.status = .harvested

end Db

/-- The result that is reported is a success. -/
def Op.succeeded (op : Op) (req : Request) : Bool :=
  match op, req with
  | .completeLocal _ _ r, _ => r.ok.getD false
  | .completeOutbound _ status body, .outbound o =>
    if o.kind = .mcp then
      match mcpPayload none status body with
      | .ok payload => payload.text "type" ≠ some "error"
      | .error _ => false
    else isSuccess status
  | _, _ => false

/-- The database, and the executions of presented capabilities so far. -/
structure SearchRun where
  db : Db
  executions : List Execution := []

namespace SearchRun

def start (c : Config) : SearchRun :=
  { db := Allgres.start c }

def step (pg : Postgres) (w : SearchRun) (e : Event) : SearchRun :=
  { db := Allgres.step pg w.db e
    executions := w.db.executions (Allgres.step pg w.db e) ++ w.executions }

/-- The event of an execution is selected when its call is queued, and succeeded or failed when
the call completes. -/
structure Recorded (pg : Postgres) (w : SearchRun) (e : Event) : Prop where
  selected : ∀ x ∈ w.db.executions (Allgres.step pg w.db e), (w.step pg e).db.Marks x .selected
  finished : ∀ q ∈ w.db.completing e.op, (w.step pg e).db.harvested q.callId = true →
    ∀ x ∈ w.executions, x.callId = q.callId →
      (w.step pg e).db.Marks x (if e.op.succeeded q.req then .succeeded else .failed)

end SearchRun

/-- The row of the index that `mark_capability_selected` finds for a function. -/
def publishedAs (c : Config) (name : String) : Option Uuid :=
  (c.capabilities.find? fun k => k.capabilityType = .function ∧ k.name = name ∧
    k.lifecycle = .published).map (·.capabilityId)

/-- The call is one of a PL/pgSQL function that is published as the capability it executes. -/
def executable (c : Config) (q : Call) (x : Execution) : Bool :=
  match q.req with
  | .function id _ _ => c.functions.all fun f =>
      f.functionId != id || publishedAs c f.name = some x.capabilityId
  | _ => false

/-- The index lists a capability as a function of this name. -/
def listedAs (c : Config) (id : Option Uuid) (name : String) : Bool :=
  c.capabilities.any fun k => some k.capabilityId = id ∧ k.capabilityType = .function ∧
    some k.name = some name

/-- The capability is still listed under the name of the function, and of the selected events of
the task that are listed so the one of the execution is the latest. -/
def attributable (db : Db) (q : Call) (x : Execution) : Bool :=
  match q.req with
  | .function id _ _ => (db.cfg.function? id).any fun f =>
      listedAs db.cfg (some x.capabilityId) f.name &&
        db.events.all fun u => u.taskId != some q.taskId || u.outcome != .selected ||
          !listedAs db.cfg u.selectedCapabilityId f.name || u.eventId = x.eventId ||
            db.events.all fun v => v.eventId != x.eventId || u.createdAt < v.createdAt
  | _ => false

/-- A result that is submitted directly finds no live call of its task. -/
def submitsIdle (db : Db) (e : Event) : Bool :=
  match e.op with
  | .submit i _ => !db.running i || !db.hasLive i fun _ => true
  | _ => true

namespace SearchRun

/-- A step that queues and completes only calls of published functions, as the latest search that
chose one. -/
structure Recordable (pg : Postgres) (w : SearchRun) (e : Event) : Prop where
  idle : submitsIdle w.db e = true
  published : ∀ q ∈ w.db.newCalls (Allgres.step pg w.db e), ∀ x ∈ w.db.executionsOf q,
    executable w.db.cfg q x = true
  latest : ∀ q ∈ w.db.completing e.op, ∀ x ∈ w.executions, x.callId = q.callId →
    attributable w.db q x = true

instance (pg : Postgres) (w : SearchRun) (e : Event) : Decidable (Recordable pg w e) :=
  decidable_of_iff
    (submitsIdle w.db e = true ∧
      (∀ q ∈ w.db.newCalls (Allgres.step pg w.db e), ∀ x ∈ w.db.executionsOf q,
        executable w.db.cfg q x = true) ∧
      ∀ q ∈ w.db.completing e.op, ∀ x ∈ w.executions, x.callId = q.callId → attributable w.db q x = true)
    ⟨fun h => ⟨h.1, h.2.1, h.2.2⟩, fun h => ⟨h.idle, h.published, h.latest⟩⟩

end SearchRun

section Events

variable {db d d' : Db} {t : Uuid} {e v : SearchEvent} {f : SearchEvent → SearchEvent}

/-- The ids of the events come from the counter. -/
structure Stamped (db : Db) : Prop where
  ids : (db.events.map (·.eventId)).Nodup
  lt : ∀ v ∈ db.events, v.eventId < db.nextId

theorem Stamped.of_events (h : Stamped db) (he : d.events = db.events) (hn : db.nextId ≤ d.nextId) :
    Stamped d where
  ids := he ▸ h.ids
  lt := fun v hv => (h.lt v (he ▸ hv)).trans_le hn

/-- The events of the other tasks are left alone. -/
structure Beside (t : Uuid) (db d : Db) : Prop where
  stamped : Stamped d
  others : ∀ v ∈ db.events, v.taskId ≠ some t → v ∈ d.events

theorem Beside.trans (h : Beside t db d) (h' : Beside t d d') : Beside t db d' where
  stamped := h'.stamped
  others := fun v hv hne => h'.others v (h.others v hv hne) hne

theorem beside_of_events (h : Stamped db) (he : d.events = db.events) (hn : db.nextId ≤ d.nextId) :
    Beside t db d where
  stamped := h.of_events he hn
  others := fun _ hv _ => he ▸ hv

theorem mem_update_of_ne (h : Stamped db) (he : e ∈ db.events) (hv : v ∈ db.events) (hne : v ≠ e) :
    v ∈ update (·.eventId = e.eventId) f db.events := by
  have hid : v.eventId ≠ e.eventId := fun heq => hne (eq_of_key (·.eventId) h.ids hv he heq)
  exact mem_update.mpr ⟨v, hv, if_neg (by simpa using hid)⟩

theorem stamped_update (h : Stamped db) (hf : ∀ v, (f v).eventId = v.eventId) (p : SearchEvent → Bool) :
    Stamped { db with events := update p f db.events } where
  ids := by
    rw [map_update hf]
    exact h.ids
  lt := by
    intro v hv
    obtain ⟨v₀, hv₀, rfl⟩ := mem_update.mp hv
    split
    · rw [hf]
      exact h.lt v₀ hv₀
    · exact h.lt v₀ hv₀

theorem beside_update (h : Stamped db) (he : e ∈ db.events) (ht : e.taskId = some t)
    (hf : ∀ v, (f v).eventId = v.eventId) :
    Beside t db { db with events := update (·.eventId = e.eventId) f db.events } where
  stamped := stamped_update h hf _
  others := fun _ hv hne => mem_update_of_ne h he hv fun heq => hne (heq ▸ ht)

theorem mem_presentedEvent (h : db.presentedEvent t = some v) :
    v ∈ db.events ∧ v.taskId = some t ∧ v.outcome = .presented := by
  obtain ⟨hmem, hp⟩ := List.mem_filter.mp (head_sortDesc h).1
  exact ⟨hmem, of_decide_eq_true hp⟩

/-- Nothing but presented events of the task is written. -/
structure Selecting (t : Uuid) (db d : Db) : Prop extends Beside t db d where
  chosen : ∀ v ∈ db.events, v.outcome ≠ .presented → v ∈ d.events

theorem selecting_of_events (h : Stamped db) (he : d.events = db.events) (hn : db.nextId ≤ d.nextId) :
    Selecting t db d where
  toBeside := beside_of_events h he hn
  chosen := fun _ hv _ => he ▸ hv

theorem markCapabilitySelected_selecting (h : Stamped db) (type : CapabilityType) (name : Option String) :
    Selecting t db (markCapabilitySelected db t type name) := by
  unfold markCapabilitySelected
  dsimp only
  split
  · rename_i e k he _
    obtain ⟨hmem, htask, hpresented⟩ := mem_presentedEvent he
    refine ⟨beside_update h hmem htask fun _ => rfl, fun v hv hne => ?_⟩
    exact mem_update_of_ne h hmem hv fun heq => hne (heq ▸ hpresented)
  · exact selecting_of_events h rfl (Nat.le_refl _)

theorem markCapabilitySelected_nextId (db : Db) (t : Uuid) (type : CapabilityType) (name : Option String) :
    (markCapabilitySelected db t type name).nextId = db.nextId := by
  unfold markCapabilitySelected
  dsimp only
  split <;> rfl

theorem markCapabilitySelected_marks {name : String} {id : Uuid} (hv : db.presentedEvent t = some v)
    (hp : publishedAs db.cfg name = some id) :
    ∃ v' ∈ (markCapabilitySelected db t .function (some name)).events, v'.eventId = v.eventId ∧
      v'.selectedCapabilityId = some id ∧ v'.outcome = .selected ∧ v'.taskId = some t := by
  obtain ⟨hmem, htask, -⟩ := mem_presentedEvent hv
  obtain ⟨k, hk, rfl⟩ := Option.map_eq_some_iff.mp hp
  have hfound : db.cfg.capabilities.find? (fun k => k.capabilityType = .function ∧ some k.name = some name ∧
      k.lifecycle = .published) = some k := by
    simpa only [Option.some.injEq] using hk
  have hmark : (markCapabilitySelected db t .function (some name)).events =
      update (·.eventId = v.eventId) (fun r =>
        { r with
          selectedCapabilityId := some k.capabilityId
          outcome := .selected }) db.events := by
    unfold markCapabilitySelected
    unfold Db.presentedEvent at hv
    simp only [hv, hfound]
  rw [hmark]
  exact ⟨_, mem_update.mpr ⟨v, hmem, if_pos (decide_eq_true rfl)⟩, rfl, rfl, rfl, htask⟩

end Events

section Submitting

variable {pg : Postgres} {now : Time} {db : Db} {i : Uuid} {payload : Json}

theorem fnSubmitResult_selecting (hw : db.core.WellFormed) (h : Stamped db) :
    Returns (fun r => Selecting i db r.1) (fnSubmitResult pg now db i payload) := by
  intro r hr
  obtain ⟨d, result⟩ := r
  have hn : db.nextId ≤ d.nextId :=
    ((fnSubmitResult_writes (G := fun _ => True) hw trivial hr).grow hw).nextId
  obtain ⟨t, -, rfl, -, ⟨e, v, rfl⟩ | ⟨a, s, -, -, rfl⟩⟩ := fnSubmitResult_cases hr
  · exact selecting_of_events h (failTask_events _ _ _ _ _) hn
  · have hevents := (applyNext_events (db.record t s now) t s.next now).trans (record_events db t s now)
    cases hsel : s.selected with
    | none =>
      rw [hsel] at hevents
      exact selecting_of_events h hevents hn
    | some p =>
      obtain ⟨type, name⟩ := p
      rw [hsel] at hevents
      have hcfg : Stamped { db with cfg := s.cfg } := ⟨h.ids, h.lt⟩
      have hmark := markCapabilitySelected_selecting (t := t.taskId) hcfg type name
      have hlt : ∀ v ∈ ((db.record t s now).applyNext t s.next now).events,
          v.eventId < ((db.record t s now).applyNext t s.next now).nextId := by
        intro v hv
        rw [hevents] at hv
        have hlt := hmark.stamped.lt v hv
        rw [markCapabilitySelected_nextId] at hlt
        exact hlt.trans_le hn
      exact ⟨⟨⟨hevents ▸ hmark.stamped.ids, hlt⟩, fun v hv hne => hevents ▸ hmark.others v hv hne⟩,
        fun v hv hne => hevents ▸ hmark.chosen v hv hne⟩

theorem submitIfRunning_selecting (hw : db.core.WellFormed) (h : Stamped db) :
    Selecting i db (submitIfRunning pg now db i payload).1 := by
  unfold submitIfRunning
  split
  · split
    · rename_i hr
      exact fnSubmitResult_selecting hw h _ hr
    · exact selecting_of_events h rfl (Nat.le_refl _)
  · exact selecting_of_events h rfl (Nat.le_refl _)

end Submitting

section Completing

variable {pg : Postgres} {now : Time} {db : Db} {q : Call} {o : Outbound} {status : Option Int}
  {body : Option String}

theorem markCapabilityOutcome_beside (h : Stamped db) {t : Uuid} {type : CapabilityType}
    {name : Option String} {ok : Bool} :
    Returns (Beside t db) (markCapabilityOutcome now db t type name ok) := by
  unfold markCapabilityOutcome
  split
  · exact returns_ok (beside_of_events h rfl (Nat.le_refl _))
  · rename_i e he
    obtain ⟨hmem, hp⟩ := List.mem_filter.mp (head_sortDesc he).1
    have htask := (of_decide_eq_true hp).1
    exact returns_ite (fun _ => returns_ok (beside_update h hmem htask fun _ => rfl)) fun _ => returns_error _

theorem recordCapabilityRemoteCost_beside (h : Stamped db) (t : Uuid) (cost : Rat) :
    Beside t db (recordCapabilityRemoteCost db t cost) := by
  unfold recordCapabilityRemoteCost
  dsimp only
  split
  · exact beside_of_events h rfl (Nat.le_refl _)
  · rename_i e he
    obtain ⟨hmem, hp⟩ := List.mem_filter.mp (head_sortDesc he).1
    exact beside_update h hmem (of_decide_eq_true hp).1 fun _ => rfl

theorem rankCapabilitiesByEmbedding_beside (h : Stamped db) {query : List (Option Float8)}
    {requester : Option Uuid} {model text : Option String} {t : Uuid} :
    Returns (fun r => Beside t db r.1)
      (rankCapabilitiesByEmbedding pg now db query requester model text t) := by
  unfold rankCapabilitiesByEmbedding
  refine returns_seq fun _ => returns_pure ⟨⟨?_, fun v hv => ?_⟩, fun v hv _ => List.mem_append_left _ hv⟩
  · dsimp only
    rw [List.map_append, List.nodup_append]
    refine ⟨h.ids, List.nodup_singleton _, fun i hi j hj heq => ?_⟩
    obtain ⟨v, hv, rfl⟩ := List.mem_map.mp hi
    obtain rfl := List.mem_singleton.mp hj
    exact absurd heq (Nat.ne_of_lt (h.lt v hv))
  · rcases List.mem_append.mp hv with hv | hv
    · exact Nat.lt_succ_of_lt (h.lt v hv)
    · obtain rfl := List.mem_singleton.mp hv
      exact Nat.lt_succ_self _

theorem completeSearch_beside (h : Stamped db) {t : Uuid}
    {rank : List (Option Float8) → Except String (Db × Json)}
    (hrank : ∀ v, Returns (fun r => Beside t db r.1) (rank v)) :
    Returns (fun r => Beside t db r.1) (completeSearch db status body rank) := by
  have hsame : Beside t db db := beside_of_events h rfl (Nat.le_refl _)
  unfold completeSearch
  refine returns_ite (fun _ => returns_ok hsame) fun _ => returns_seq fun v => ?_
  refine returns_ite (fun _ => returns_pure hsame) fun _ => ?_
  exact returns_bind (hrank v) fun r hr => returns_pure hr

theorem completeKind_beside (h : Stamped db) :
    Returns (fun r => Beside q.taskId db r.1) (completeKind pg now db q o status body) := by
  have hsame : Beside q.taskId db db := beside_of_events h rfl (Nat.le_refl _)
  unfold completeKind
  cases o.kind with
  | function =>
    unfold completeFunctionKind
    dsimp only
    split
    · exact returns_pure hsame
    · refine returns_bind (markCapabilityOutcome_beside h) fun d hd => returns_pure ?_
      exact hd.trans (recordCapabilityRemoteCost_beside hd.stamped _ _)
  | mcp =>
    unfold completeMcpKind
    exact returns_seq fun _ => returns_pure (recordCapabilityRemoteCost_beside h _ _)
  | embedding => exact completeSearch_beside h fun _ => returns_seq fun _ => returns_pure hsame
  | capabilitySearch =>
    unfold completeCapabilitySearchKind
    refine returns_bind (completeSearch_beside h fun _ => rankCapabilitiesByEmbedding_beside h) fun r hr => ?_
    exact returns_bind (markCapabilityOutcome_beside hr.stamped) fun d hd => returns_pure (hr.trans hd)
  | recallMemories => exact completeSearch_beside h fun _ => returns_seq fun _ => returns_pure hsame
  | llm =>
    refine returns_ok (beside_of_events h ?_ ?_)
    · unfold completeLlmKind
      dsimp only
      split
      · split <;> rfl
      · split <;> rfl
    · unfold completeLlmKind
      dsimp only
      split
      · split <;> exact Nat.le_refl _
      · split <;> exact Nat.le_refl _

theorem completeLocalRequest_beside (h : Stamped db) {r : LocalResult} :
    Returns (fun x => Beside q.taskId db x.1) (completeLocalRequest now db q r) := by
  unfold completeLocalRequest
  split
  · exact returns_ok (beside_of_events h rfl (Nat.le_refl _))
  · exact returns_bind (markCapabilityOutcome_beside h) fun d hd => returns_pure hd
  · exact returns_bind (markCapabilityOutcome_beside h) fun d hd => returns_pure hd
  · exact returns_error _

theorem pauseAmbiguousOutbound_beside (h : Stamped db) (t : Uuid) (q : Call) (reason : String) :
    Beside t db (db.pauseAmbiguousOutbound q reason now) := by
  refine beside_of_events h (pauseAmbiguousOutbound_events now db q reason) ?_
  unfold Db.pauseAmbiguousOutbound
  dsimp only
  split
  · exact Nat.le_refl _
  · exact Nat.le_succ _

theorem wellFormed_updateCall (hw : db.core.WellFormed) (id : Uuid) {f : Call → Call}
    (hf : ∀ c, (f c).ident = c.ident) : (db.updateCall id f).core.WellFormed :=
  (grow_updateCall (s := db.core) (f := f) hf).wf hw

theorem harvestOutbound_beside (hw : db.core.WellFormed) (h : Stamped db) :
    Returns (fun x => Beside q.taskId db x.1) (harvestOutbound pg now db q o status body) := by
  unfold harvestOutbound
  refine returns_ite (fun _ => returns_ok ?_) fun _ => ?_
  · have hnoted := beside_of_events (t := q.taskId) (d := db.updateCall q.callId fun c =>
      { c with responseStatus := status, responseBody := some (left (orEmpty body) 200000) }) h rfl (Nat.le_refl _)
    exact hnoted.trans (pauseAmbiguousOutbound_beside hnoted.stamped _ q _)
  · have hclosed : (db.harvestResponse q.callId status body now).core.WellFormed :=
      wellFormed_updateCall hw _ fun _ => rfl
    have hsame : Beside q.taskId db (db.harvestResponse q.callId status body now) :=
      beside_of_events h rfl (Nat.le_refl _)
    intro x hx
    obtain ⟨r, hr, hx⟩ := bind_eq_ok.mp hx
    obtain rfl := Except.ok.inj hx
    have hd : Beside q.taskId db r.1 := hsame.trans (completeKind_beside hsame.stamped r hr)
    have hwr : r.1.core.WellFormed := (completeKind_reads hr).1.grow.wf hclosed
    have hsub : Selecting q.taskId r.1 (submitIfRunning pg now r.1 q.taskId r.2).1 :=
      submitIfRunning_selecting hwr hd.stamped
    refine hd.trans (hsub.toBeside.trans (beside_of_events hsub.stamped ?_ ?_))
    · unfold scoreOutcome
      split <;> rfl
    · unfold scoreOutcome
      split <;> exact Nat.le_refl _

theorem fnCompleteLocal_beside {queue : Queue} {id : Uuid} {r : LocalResult} (h : Stamped db)
    (hw : db.core.WellFormed) (hq : db.call? queue id = some q) :
    Returns (fun x => Beside q.taskId db x.1) (fnCompleteLocal pg now db queue id r) := by
  have hclosed : (db.harvest q.callId now).core.WellFormed := wellFormed_updateCall hw _ fun _ => rfl
  have hsame : Beside q.taskId db (db.harvest q.callId now) := beside_of_events h rfl (Nat.le_refl _)
  unfold fnCompleteLocal
  rw [hq]
  refine returns_ite (fun _ => returns_ok (beside_of_events h rfl (Nat.le_refl _))) fun _ => ?_
  intro x hx
  obtain ⟨y, hy, hx⟩ := bind_eq_ok.mp hx
  obtain rfl := Except.ok.inj hx
  have hd : Beside q.taskId db y.1 := hsame.trans (completeLocalRequest_beside hsame.stamped y hy)
  have hwr : y.1.core.WellFormed := (completeLocalRequest_reads hy).1.grow.wf hclosed
  exact hd.trans (submitIfRunning_selecting hwr hd.stamped).toBeside

end Completing

end Allgres