import Allgres.Queueing

/-! The verdict on a call to a model: how the call ended and as what it counts. A call is
scored when its turn follows the result of a function of a procedure. -/

namespace Allgres

open Raise Rows Runs Allgres.Core

def Request.isScored : Request → Bool
  | .outbound o => decide (o.kind = .llm) && o.procedureFunctionId.isSome
  | _ => false

structure Verdict where
  callId : Uuid
  req : Request
  ending : Option (CallStatus × Option Int)
  outcome : Option Outcome

def Call.verdict (c : Call) : Verdict :=
  ⟨c.callId, c.req, if c.status.live then none else some (c.status, c.responseStatus), c.outcome⟩

/-- Nobody has answered: a scored call waits without an outcome, or is lost and failed. -/
def Verdict.Unheard (v : Verdict) : Prop :=
  v.req.isScored = true → (v.ending = none ∧ v.outcome = none) ∨
    ((∃ s, v.ending = some (.lost, s)) ∧ v.outcome = some .failure)

/-- No verdict is written but on calls nobody has answered. -/
def Unjudged (db db' : Db) : Prop :=
  Among Call.verdict Verdict.Unheard db.calls db'.calls

/-- The same, apart from one call. -/
def UnjudgedBut (id : Uuid) (db db' : Db) : Prop :=
  Among Call.verdict (fun v => v.Unheard ∨ v.callId = id) db.calls db'.calls

section Rows

variable {db db' db'' : Db}

theorem Unjudged.refl (db : Db) : Unjudged db db :=
  Among.refl _ _ _

theorem Unjudged.trans (h : Unjudged db db') (h' : Unjudged db' db'') : Unjudged db db'' :=
  Among.trans h h'

theorem UnjudgedBut.trans {id : Uuid} (h : UnjudgedBut id db db') (h' : UnjudgedBut id db' db'') :
    UnjudgedBut id db db'' :=
  Among.trans h h'

theorem Unjudged.but (h : Unjudged db db') (id : Uuid) : UnjudgedBut id db db' :=
  Among.mono (fun _ => .inl) h

theorem unjudged_of_calls (h : db'.calls = db.calls) : Unjudged db db' :=
  among_of_map_eq (by rw [h])

theorem Noted.unjudged (h : Noted db db') : Unjudged db db' :=
  unjudged_of_calls h.calls

theorem unjudged_insertCall (db : Db) (id : Uuid) (req : Request) (now : Time) :
    Unjudged db (db.insertCall id req now) :=
  among_append fun _ => .inl ⟨rfl, rfl⟩

theorem unjudgedBut_updateCall (db : Db) (id : Uuid) {f : Call → Call}
    (hf : ∀ c, (f c).callId = c.callId) : UnjudgedBut id db (db.updateCall id f) := by
  refine among_update fun c _ hc => .inr (.inr ?_)
  have hid : c.callId = id := by simpa using hc
  exact (hf c).trans hid

theorem unjudged_foldl {α : Type} {f : Db → α → Db} (hf : ∀ d a, Unjudged d (f d a)) (as : List α) (db : Db) :
    Unjudged db (as.foldl f db) := by
  induction as generalizing db with
  | nil => exact Unjudged.refl db
  | cons a as ih => exact (hf db a).trans (ih (f db a))

end Rows

section Steps

variable {pg : Postgres} {now : Time} {db : Db}

theorem unjudged_failTask (db : Db) (t : Task) (e : String) (v : Json) (now : Time) :
    Unjudged db (db.failTask t e v now) :=
  unjudged_of_calls (by rw [Db.failTask, calls_maybeCompleteSession]; rfl)

/-- A submitted step adds at most a call. -/
theorem fnSubmitResult_queues (db : Db) (id : Uuid) (payload : Json) :
    Returns (fun r => r.1.calls = db.calls ∨
      ∃ req, r.1.calls = (db.insertCall id req now).calls) (fnSubmitResult pg now db id payload) := by
  unfold fnSubmitResult
  split
  · exact returns_error _
  · rename_i t ht
    obtain ⟨-, hid⟩ := mem_of_task? (s := db.core) ht
    refine returns_ite (fun _ => returns_error _) fun _ => ?_
    split
    · refine returns_ok (.inl ?_)
      rw [Db.failTask, calls_maybeCompleteSession]
      rfl
    · refine returns_seq fun s => returns_pure ?_
      have hrec : (db.record t s now).core = db.core := Db.core_record db t s now
      rcases applyNext_calls (db.record t s now) t s.next now with h | ⟨req, -, h⟩
      · exact .inl (h.trans (congrArg Core.calls hrec))
      · refine .inr ⟨req, h.trans ?_⟩
        rw [hid]
        exact congrArg (fun s : Core => (s.insertCall id req now).calls) hrec

theorem unjudged_of_queues {db' : Db} {id : Uuid}
    (h : db'.calls = db.calls ∨ ∃ req, db'.calls = (db.insertCall id req now).calls) : Unjudged db db' := by
  rcases h with h | ⟨req, h⟩
  · exact unjudged_of_calls h
  · unfold Unjudged
    rw [h]
    exact unjudged_insertCall db id req now

theorem fnSubmitResult_unjudged (db : Db) (id : Uuid) (payload : Json) :
    Returns (fun r => Unjudged db r.1) (fnSubmitResult pg now db id payload) :=
  returns_mono (fnSubmitResult_queues db id payload) fun _ => unjudged_of_queues

theorem unjudged_submitQuietly (db : Db) (id : Uuid) (payload : Json) :
    Unjudged db (submitQuietly pg now db id payload) := by
  unfold submitQuietly
  split
  · rename_i hok
    exact fnSubmitResult_unjudged db id payload _ hok
  · exact Unjudged.refl db

theorem submitIfRunning_queues (db : Db) (id : Uuid) (payload : Json) :
    (submitIfRunning pg now db id payload).1.calls = db.calls ∨
      ∃ req, (submitIfRunning pg now db id payload).1.calls = (db.insertCall id req now).calls := by
  unfold submitIfRunning
  split
  · split
    · rename_i hok
      exact fnSubmitResult_queues db id payload _ hok
    · exact .inl rfl
  · exact .inl rfl

theorem unjudged_submitIfRunning (db : Db) (id : Uuid) (payload : Json) :
    Unjudged db (submitIfRunning pg now db id payload).1 :=
  unjudged_of_queues (submitIfRunning_queues db id payload)

end Steps

section Dispatch

variable {db : Db} (pg : Postgres) (now : Time)

theorem fnCreateSession_calls {agentId : Uuid} {goal : Option String} {projectId scheduleId : Option Uuid} :
    Returns (fun r => r.1.calls = db.calls) (fnCreateSession now db agentId goal projectId scheduleId) := by
  rintro ⟨d, ids⟩ hok
  obtain ⟨goal, rfl⟩ := fnCreateSession_eq hok
  rfl

theorem maybeTriggerCompaction_unjudged (sid : Uuid) (ids : List Uuid) :
    Returns (Unjudged db) (maybeTriggerCompaction pg now db sid ids) := by
  have hsame : Returns (Unjudged db) (pure db : Except String Db) := returns_pure (Unjudged.refl db)
  unfold maybeTriggerCompaction
  split
  · exact hsame
  · refine returns_ite (fun _ => hsame) fun _ => returns_seq fun _ => returns_seq fun _ => ?_
    dsimp only
    refine returns_ite (fun _ => hsame) fun _ => ?_
    split
    · exact hsame
    · unfold queueCompaction
      exact returns_bind (fnCreateSession_calls now) fun r hr => returns_pure (unjudged_of_calls hr)

theorem openTurn_unjudged (roll : Rat) (t : Task) (p : Policy) :
    Returns (fun r => Unjudged db r.1) (openTurn pg now roll db t p) := by
  have hfreeze : ∀ (d : Db) freeze, Unjudged d (d.freezeOverride t freeze) := by
    intro d freeze
    cases freeze <;> exact unjudged_of_calls rfl
  have hmem : Unjudged db
      { db with cfg := touchMemories db.cfg (recalledMemories db.cfg t.agentId now) now } :=
    unjudged_of_calls rfl
  unfold openTurn
  dsimp only
  split
  · refine returns_bind (maybeTriggerCompaction_unjudged pg now _ _) fun d hd => returns_seq fun o => ?_
    exact returns_pure ((hmem.trans hd).trans (hfreeze d _))
  · refine returns_bind (returns_pure hmem) fun d hd => returns_seq fun o => ?_
    exact returns_pure (hd.trans (hfreeze d _))

theorem fnNextStep_unjudged (roll : Rat) (id : Uuid) :
    Returns (fun r => Unjudged db r.1) (fnNextStep pg now roll db id) := by
  unfold fnNextStep
  split
  · exact returns_error _
  · rename_i t _
    refine returns_ite (fun _ => returns_error _) fun _ => ?_
    have hstart : Unjudged db (db.startTurn t now) := by
      unfold Db.startTurn
      split <;> exact unjudged_of_calls rfl
    dsimp only
    split
    · exact returns_ok (hstart.trans (unjudged_failTask _ _ _ _ _))
    · exact returns_error _
    · refine returns_ite (fun _ => returns_ok (hstart.trans (unjudged_failTask _ _ _ _ _))) fun _ => ?_
      exact returns_mono (openTurn_unjudged pg now roll t _) fun r hr => hstart.trans hr

theorem dispatchTask_unjudged (roll : Uuid → Rat) (t : Task) :
    Returns (fun r => Unjudged db r.1) (dispatchTask pg now roll db t) := by
  unfold dispatchTask
  refine returns_ite (fun _ => returns_ok (Unjudged.refl db)) fun _ => ?_
  split
  · exact returns_ok (unjudged_submitQuietly db _ _)
  · rename_i hok
    exact returns_ok (fnNextStep_unjudged pg now _ _ _ hok)
  · rename_i d spec hok
    have hnext : Unjudged db d := fnNextStep_unjudged pg now _ _ _ hok
    split
    · exact returns_ok (hnext.trans (unjudged_insertCall d _ _ _))
    · split
      · rename_i hsub
        exact returns_ok (hnext.trans (fnSubmitResult_unjudged d _ _ _ hsub))
      · exact returns_error _

theorem dispatchLoop_unjudged (roll : Uuid → Rat) (n : Nat) (ts : List Task) (db : Db) :
    Returns (fun r => Unjudged db r.1) (dispatchLoop pg now roll n ts db) := by
  induction ts generalizing n db with
  | nil => cases n <;> exact returns_ok (Unjudged.refl db)
  | cons t ts ih =>
    cases n with
    | zero => exact returns_ok (Unjudged.refl db)
    | succ n =>
      rw [dispatchLoop]
      refine returns_bind (dispatchTask_unjudged pg now roll t) fun r hr => ?_
      obtain ⟨d, queued⟩ := r
      cases queued with
      | none => exact returns_mono (ih (n + 1) d) fun x hx => hr.trans hx
      | some id => exact returns_bind (ih n d) fun x hx => returns_pure (hr.trans hx)

end Dispatch

section Completions

variable {db : Db} {pg : Postgres} {now : Time}

theorem completeKind_unjudged {q : Call} {o : Outbound} {status : Option Int} {body : Option String} :
    Returns (fun r => UnjudgedBut q.callId db r.1) (completeKind pg now db q o status body) := by
  have hnoted : ∀ {x : Except String (Db × Json)}, Returns (fun r => Noted db r.1) x →
      Returns (fun r => UnjudgedBut q.callId db r.1) x :=
    fun hx => returns_mono hx fun r hr => hr.unjudged.but _
  have hcalls : ∀ d : Db, d.calls = db.calls → UnjudgedBut q.callId db d :=
    fun d hd => (unjudged_of_calls hd).but _
  unfold completeKind
  cases hkind : o.kind with
  | function => exact hnoted completeFunctionKind_noted
  | mcp => exact hnoted completeMcpKind_noted
  | embedding => exact hnoted (completeSearch_noted fun _ => returns_seq fun _ => returns_pure (Noted.refl db))
  | capabilitySearch => exact hnoted completeCapabilitySearchKind_noted
  | recallMemories =>
    exact hnoted (completeSearch_noted fun _ => returns_seq fun _ => returns_pure (Noted.refl db))
  | llm =>
    refine returns_ok ?_
    unfold completeLlmKind
    dsimp only
    split_ifs
    · split
      · exact unjudgedBut_updateCall db _ fun _ => rfl
      · exact unjudgedBut_updateCall db _ fun _ => rfl
    · exact hcalls _ rfl
    · exact hcalls _ rfl

theorem unjudgedBut_pause (db : Db) (q : Call) (reason : String) :
    UnjudgedBut q.callId db (db.pauseAmbiguousOutbound q reason now) := by
  have hlost : UnjudgedBut q.callId db (db.updateCall q.callId fun c =>
      { c with status := .lost, error := some reason, updatedAt := now }) :=
    unjudgedBut_updateCall db _ fun _ => rfl
  unfold Db.pauseAmbiguousOutbound
  dsimp only
  split
  · exact hlost
  · exact hlost.trans ((unjudged_of_calls rfl).but _)

theorem unjudgedBut_scoreOutcome (db : Db) (q : Call) (o : Outbound) (result : Json) :
    UnjudgedBut q.callId db (scoreOutcome db q o result) := by
  unfold scoreOutcome
  split
  · exact unjudgedBut_updateCall db _ fun _ => rfl
  · exact (Unjudged.refl db).but _

theorem harvestOutbound_unjudged {q : Call} {o : Outbound} {status : Option Int} {body : Option String} :
    Returns (fun r => UnjudgedBut q.callId db r.1) (harvestOutbound pg now db q o status body) := by
  unfold harvestOutbound
  refine returns_ite (fun _ => returns_ok ?_) fun _ => ?_
  · have hnote : UnjudgedBut q.callId db (db.updateCall q.callId fun c =>
        { c with responseStatus := status, responseBody := some (left (orEmpty body) 200000) }) :=
      unjudgedBut_updateCall db _ fun _ => rfl
    exact hnote.trans (unjudgedBut_pause _ q _)
  · have hharvest : UnjudgedBut q.callId db (db.harvestResponse q.callId status body now) :=
      unjudgedBut_updateCall db _ fun _ => rfl
    refine returns_bind completeKind_unjudged fun x hx => returns_pure ?_
    have hsubmit : Unjudged x.1 (submitIfRunning pg now x.1 q.taskId x.2).1 := unjudged_submitIfRunning _ _ _
    exact ((hharvest.trans hx).trans (hsubmit.but q.callId)).trans (unjudgedBut_scoreOutcome _ _ _ _)

theorem fnCompleteOutbound_unjudged {id : Uuid} {status : Option Int} {body : Option String} :
    Returns (fun r => UnjudgedBut id db r.1) (fnCompleteOutbound pg now db id status body) := by
  unfold fnCompleteOutbound
  split
  · exact returns_error _
  · rename_i q hq
    obtain ⟨-, rfl, -⟩ := call?_mem hq
    refine returns_ite (fun _ => returns_ok ((Unjudged.refl db).but _)) fun _ => ?_
    split
    · exact harvestOutbound_unjudged
    · exact returns_error _

theorem fnCompleteLocal_unjudged {queue : Queue} {id : Uuid} {r : LocalResult} :
    Returns (fun x => UnjudgedBut id db x.1) (fnCompleteLocal pg now db queue id r) := by
  unfold fnCompleteLocal
  split
  · exact returns_error _
  · rename_i q hq
    obtain ⟨-, rfl, -⟩ := call?_mem hq
    refine returns_ite (fun _ => returns_ok ((Unjudged.refl db).but _)) fun _ => ?_
    have hharvest : UnjudgedBut q.callId db (db.harvest q.callId now) :=
      unjudgedBut_updateCall db _ fun _ => rfl
    refine returns_bind completeLocalRequest_noted fun x hx => returns_pure ?_
    have hpayload := hharvest.trans (hx.unjudged.but q.callId)
    exact hpayload.trans ((unjudged_submitIfRunning _ _ _).but _)

end Completions

section Sweeps

variable (pg : Postgres) (now : Time)

theorem unheard_timedOut (c : Call) : (c.timedOut now).verdict.Unheard := by
  intro hscored
  have hreq : (c.timedOut now).req = c.req := congrArg (·.2.2) (ident_timedOut now c)
  have hs : c.req.isScored = true := hreq ▸ hscored
  cases ho : c.req with
  | outbound o =>
    rw [ho] at hs
    simp only [Request.isScored, Bool.and_eq_true] at hs
    right
    unfold Call.timedOut
    rw [ho]
    dsimp only [Call.verdict]
    rw [if_pos hs.2]
    exact ⟨⟨c.responseStatus, rfl⟩, rfl⟩
  | _ =>
    rw [ho] at hs
    cases hs

/-- An overdue call fails, whatever becomes of its task. -/
theorem unjudged_reclaimCall (db : Db) (q : Call) : Unjudged db (reclaimCall pg now db q) := by
  have hlost : Unjudged db (db.updateCall q.callId (·.timedOut now)) :=
    among_update fun c _ _ => .inr (unheard_timedOut now c)
  have hpause : Unjudged (db.updateCall q.callId (·.timedOut now))
      ((db.updateCall q.callId (·.timedOut now)).updateCall q.callId fun c =>
        { c with status := .lost, error := some "worker_result_unknown", updatedAt := now }) := by
    refine among_update fun c hc hid => .inl ?_
    have hlost : ∀ c ∈ (db.updateCall q.callId (·.timedOut now)).calls, c.callId = q.callId →
        c.status = .lost := fun _ => lost_updateCall (status_timedOut now)
    have hst : c.status = .lost := hlost c hc (by simpa using hid)
    unfold Call.verdict
    rw [hst]
  unfold reclaimCall
  dsimp only
  split
  · split
    · refine hlost.trans ?_
      unfold Db.pauseAmbiguousOutbound
      dsimp only
      split
      · exact hpause
      · exact hpause.trans (unjudged_of_calls rfl)
    · exact hlost.trans (unjudged_submitQuietly _ _ _)
  · exact hlost

theorem unjudged_loseCalls {db : Db} {queues : List Queue} {own : Uuid → Bool} (error : String)
    (h : ∀ c ∈ db.calls, c.req.isScored = true → c.status.live = true → own c.taskId = false) :
    Unjudged db (db.loseCalls queues own error now) := by
  refine among_update fun c hc hit => .inr fun hscored => ?_
  simp only [decide_eq_true_eq] at hit
  have hown := h c hc hscored hit.2.2
  rw [hit.2.1] at hown
  cases hown

end Sweeps

end Allgres
