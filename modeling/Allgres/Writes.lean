import Allgres.Machine

/-! What a transaction writes, one write after the other. Every operation is a path
of these writes, so what each of them keeps is kept by every operation. -/

namespace Allgres

open Raise Rows Runs Allgres.Core

/-- The columns of a task that never change. -/
def Task.frame (t : Task) : (Uuid × Uuid × Uuid × Option Uuid) × Nat × Time :=
  (t.ident, t.delegationDepth, t.createdAt)

/-- The columns a session is closed by. -/
def Task.verdict (t : Task) : TaskStatus × Option Json × Time :=
  (t.status, t.output, t.updatedAt)

/-- The sessions, tasks, calls and approvals are those of before. -/
structure Aside (db db' : Db) : Prop where
  sessions : db'.sessions = db.sessions
  tasks : db'.tasks = db.tasks
  calls : db'.calls = db.calls
  approvals : db'.approvals = db.approvals
  nextId : db.nextId ≤ db'.nextId

theorem Aside.refl (db : Db) : Aside db db :=
  ⟨rfl, rfl, rfl, rfl, Nat.le_refl _⟩

/-- `G` is what the submitted payloads are. -/
inductive Write (pg : Postgres) (now : Time) (G : Json → Prop) : Db → Db → Prop
  | aside {db db' : Db} (h : Aside db db') : Write pg now G db db'
  | opened {db db' : Db} {agentId : Uuid} {goal : Option String} {projectId scheduleId : Option Uuid}
      {ids : Uuid × Uuid}
      (h : fnCreateSession now db agentId goal projectId scheduleId = .ok (db', ids)) :
      Write pg now G db db'
  | continued {db db' : Db} {sessionId taskId : Uuid} {message : Option String}
      (h : fnContinueSession now db sessionId message = .ok (db', taskId)) : Write pg now G db db'
  | calls {db : Db} {p : Call → Bool} {f : Call → Call} (hf : ∀ c, (f c).ident = c.ident) :
      Write pg now G db { db with calls := update p f db.calls }
  | approvals {db : Db} {p : Approval → Bool} {f : Approval → Approval}
      (hf : ∀ a, (f a).ident = a.ident) :
      Write pg now G db { db with approvals := update p f db.approvals }
  | approval {db : Db} {id : Uuid} {payload : ApprovalPayload} {e : Time}
      (hp : ∀ g, payload = .gate g → ∃ c ∈ db.calls, c.callId = g.callId ∧ c.req.isLlm = false) :
      Write pg now G db (db.insertApproval id payload now e)
  | task {db : Db} {id : Uuid} {f : Task → Task} (hf : ∀ r, (f r).frame = r.frame)
      (hs : ∀ r ∈ db.tasks, r.taskId = id → (f r).verdict = r.verdict ∨
        (r.status.finished = false ∧ (f r).status.finished = false)) :
      Write pg now G db (db.updateTask id f)
  | ended {db : Db} {id sid : Uuid} {f : Task → Task} (hf : ∀ r, (f r).frame = r.frame)
      (ht : ∃ r ∈ db.tasks, r.taskId = id)
      (hs : ∀ r ∈ db.tasks, r.taskId = id → r.sessionId = sid ∧ r.status.finished = false ∧
        (f r).status = .failed ∧ (f r).output = r.output) :
      Write pg now G db ((db.updateTask id f).maybeCompleteSession sid now)
  | asked {db : Db} {t : Task} {spec : LlmSpec} {o : Outbound}
      (ht : db.task? t.taskId = some t) (hr : t.status = .running)
      (ho : buildLlmHttp db.cfg spec = .ok o) :
      Write pg now G db (db.insertCall t.taskId (.outbound o) now)
  | stepped {db : Db} {t : Task} {a : Agent} {payload : Json} {s : Step}
      (hg : G payload) (ht : db.task? t.taskId = some t) (hr : t.status = .running)
      (ha : db.cfg.agent? t.agentId = some a)
      (hs : Turn.payloadStep pg ⟨db, now, t, a, db.cfg.policy? t.agentId⟩ payload = .ok s) :
      Write pg now G db ((db.record t s now).applyNext t s.next now)
  | cancelled {db db' : Db} {sessionId : Uuid} {reason : Option String} {n : Nat}
      (h : fnCancelSession now db sessionId reason = .ok (db', n)) : Write pg now G db db'

abbrev Writes (pg : Postgres) (now : Time) (G : Json → Prop) : Db → Db → Prop :=
  Relation.ReflTransGen (Write pg now G)

theorem Write.grow {pg : Postgres} {now : Time} {G : Json → Prop} {db db' : Db} (h : Write pg now G db db')
    (hw : db.core.WellFormed) : Grow db.core db'.core := by
  have hident : ∀ {f : Task → Task}, (∀ r, (f r).frame = r.frame) → ∀ r, (f r).ident = r.ident :=
    fun hf r => congrArg (·.1) (hf r)
  cases h with
  | aside h =>
    have hcore : db'.core = { db.core with nextId := db'.nextId } := by
      simp only [Db.core, h.tasks, h.calls, h.approvals]
    rw [hcore]
    exact grow_allot _ h.nextId
  | opened h => exact (fnCreateSession_spawned hw h).1.grow
  | continued h => exact (fnContinueSession_spawned hw h).grow
  | calls hf => exact grow_of_idents (Nat.le_refl _) rfl (map_ident_update hf _) rfl
  | approvals hf => exact grow_updateApprovals hf
  | approval hp => exact grow_insertApproval hp
  | task hf _ => exact grow_updateTask (hident hf)
  | ended hf _ _ =>
    rw [Db.core_maybeCompleteSession, Db.core_updateTask]
    exact grow_updateTask (hident hf)
  | asked ht _ _ => exact grow_insertCall ⟨_, (mem_of_task? (s := db.core) ht).1, rfl⟩
  | @stepped t a payload s _ ht hr _ hs =>
    have hok := Turn.payloadStep_ok pg _ payload s hs
    have hcore := Db.core_record db t s now
    have hw' : (db.record t s now).core.WellFormed := hcore.symm ▸ hw
    have ht' : (db.record t s now).task? t.taskId = some t := by
      rw [← Db.task?_core, hcore]
      exact ht
    have hsub := applyNext_submitted hw' ht' hr hok now
    rw [hcore] at hsub
    exact hsub.grow
  | cancelled h =>
    exact (fnCancelSession_evolves (G := fun _ _ _ => True) hw (fun _ _ => trivial)
      (fun _ _ _ _ => trivial) h).grow

section Paths

variable {pg : Postgres} {now : Time} {G : Json → Prop} {db db' : Db}

theorem Writes.trans {db'' : Db} (h : Writes pg now G db db') (h' : Writes pg now G db' db'') :
    Writes pg now G db db'' :=
  Relation.ReflTransGen.trans h h'

theorem Writes.grow (h : Writes pg now G db db') (hw : db.core.WellFormed) :
    Grow db.core db'.core := by
  induction h with
  | refl => exact Grow.refl _
  | tail _ hm ih => exact ih.trans (hm.grow (ih.wf hw))

theorem Writes.wf (h : Writes pg now G db db') (hw : db.core.WellFormed) : db'.core.WellFormed :=
  (h.grow hw).wf hw

/-- What every write keeps in a well-formed state, a path of writes keeps. -/
theorem Writes.invariant {I : Db → Prop} (h : Writes pg now G db db') (hw : db.core.WellFormed)
    (hI : ∀ {d d' : Db}, d.core.WellFormed → I d → Write pg now G d d' → I d') (hdb : I db) :
    I db' := by
  induction h with
  | refl => exact hdb
  | tail hp hm ih => exact hI (Writes.wf hp hw) ih hm

theorem writes_aside (h : Aside db db') : Writes pg now G db db' :=
  .single (.aside h)

theorem writes_log (db : Db) (id : Uuid) (n : Nat) (role : LogRole) (v : Json) :
    Writes pg now G db (db.appendLog id n role v now) :=
  writes_aside ⟨rfl, rfl, rfl, rfl, Nat.le_refl _⟩

theorem writes_cfg (db : Db) (f : Config → Config) : Writes pg now G db (db.onConfig f) :=
  writes_aside ⟨rfl, rfl, rfl, rfl, Nat.le_refl _⟩

theorem writes_updateCall (db : Db) (id : Uuid) {f : Call → Call}
    (hf : ∀ c, (f c).ident = c.ident) : Writes pg now G db (db.updateCall id f) :=
  .single (.calls hf)

theorem eq_of_task? (hw : db.core.WellFormed) {t r : Task} (ht : db.task? t.taskId = some t)
    (hr : r ∈ db.tasks) (hid : r.taskId = t.taskId) : r = t :=
  eq_of_key Task.taskId hw.taskIds hr (mem_of_task? (s := db.core) ht).1 hid

/-- An unfinished task moves between unfinished states. -/
theorem writes_move (hw : db.core.WellFormed) {t : Task} {f : Task → Task}
    (ht : db.task? t.taskId = some t) (hf : ∀ r, (f r).frame = r.frame)
    (hu : t.status.finished = false) (hs : (f t).status.finished = false) :
    Writes pg now G db (db.updateTask t.taskId f) := by
  refine .single (.task hf fun r hr hid => .inr ?_)
  rw [eq_of_task? hw ht hr hid]
  exact ⟨hu, hs⟩

/-- An unfinished task fails, and its session is looked at again. -/
theorem writes_end (hw : db.core.WellFormed) {t : Task} {f : Task → Task}
    (ht : db.task? t.taskId = some t) (hf : ∀ r, (f r).frame = r.frame)
    (hu : t.status.finished = false) (hs : (f t).status = .failed)
    (ho : (f t).output = t.output) :
    Writes pg now G db ((db.updateTask t.taskId f).maybeCompleteSession t.sessionId now) := by
  obtain ⟨htm, -⟩ := mem_of_task? (s := db.core) ht
  refine .single (.ended hf ⟨t, htm, rfl⟩ fun r hr hid => ?_)
  rw [eq_of_task? hw ht hr hid]
  exact ⟨rfl, hu, hs, ho⟩

theorem finished_of_running {t : Task} (h : t.status = .running) : t.status.finished = false := by
  rw [h]
  rfl

/-- `failTask` is a log row and the end of the task. -/
theorem writes_failTask (hw : db.core.WellFormed) {t r : Task} (ht : db.task? r.taskId = some r)
    (hid : t.taskId = r.taskId) (hsid : t.sessionId = r.sessionId)
    (hu : r.status.finished = false) (e : String) (v : Json) :
    Writes pg now G db (db.failTask t e v now) := by
  let logged := db.appendLog t.taskId t.stepCount .error v now
  have hlog : Writes pg now G db logged := writes_log db _ _ _ _
  have hend : Writes pg now G logged ((logged.updateTask r.taskId fun r =>
      { r with status := .failed, error := some e, updatedAt := now }).maybeCompleteSession
        r.sessionId now) :=
    writes_end (hlog.wf hw) ht (fun _ => rfl) hu rfl rfl
  rw [← hid, ← hsid] at hend
  exact hlog.trans hend

/-- A task is ended with a log row of its own. -/
theorem writes_reject (hw : db.core.WellFormed) {t r : Task} (hr : db.task? r.taskId = some r)
    (hid : t.taskId = r.taskId) (hsid : t.sessionId = r.sessionId)
    (hu : r.status.finished = false) (role : LogRole) (v : Json) (e : String) :
    Writes pg now G db (((db.appendLog t.taskId (t.stepCount + 1) role v now).bump t.taskId now
      fun r => { r with status := .failed, error := some e }).maybeCompleteSession
        t.sessionId now) := by
  let logged := db.appendLog t.taskId (t.stepCount + 1) role v now
  have hlog : Writes pg now G db logged := writes_log db _ _ _ _
  have hend : Writes pg now G logged ((logged.bump r.taskId now
      fun r => { r with status := .failed, error := some e }).maybeCompleteSession
        r.sessionId now) :=
    writes_end (hlog.wf hw) hr (fun _ => rfl) hu rfl rfl
  rw [← hid, ← hsid] at hend
  exact hlog.trans hend

/-- A submit that returns is one step, or the end of a task of an inactive agent. -/
theorem fnSubmitResult_cases {i : Uuid} {payload result : Json}
    (h : fnSubmitResult pg now db i payload = .ok (db', result)) :
    ∃ t, db.task? t.taskId = some t ∧ t.taskId = i ∧ t.status = .running ∧
      ((∃ e v, db' = db.failTask t e v now) ∨
        ∃ a s, db.cfg.agent? t.agentId = some a ∧
          Turn.payloadStep pg ⟨db, now, t, a, db.cfg.policy? t.agentId⟩ payload = .ok s ∧
            db' = (db.record t s now).applyNext t s.next now) := by
  unfold fnSubmitResult at h
  cases ht : db.task? i with
  | none => simp [ht] at h
  | some t =>
    obtain ⟨-, rfl⟩ := mem_of_task? (s := db.core) ht
    simp only [ht] at h
    by_cases hr : t.status = .running
    · refine ⟨t, ht, rfl, hr, ?_⟩
      rw [if_neg (by simp [hr])] at h
      split at h
      · obtain ⟨rfl, -⟩ := by simpa using h
        exact .inl ⟨_, _, rfl⟩
      · rename_i a ha
        obtain ⟨st, hst, hk⟩ := bind_eq_ok.mp h
        obtain ⟨rfl, -⟩ := by simpa [pure, Except.pure] using hk
        exact .inr ⟨a, st, (filter_eq_some ha).1, hst, rfl⟩
    · simp [hr] at h

theorem fnSubmitResult_writes (hw : db.core.WellFormed) {i : Uuid} {payload result : Json}
    (hG : G payload) (h : fnSubmitResult pg now db i payload = .ok (db', result)) :
    Writes pg now G db db' := by
  obtain ⟨t, ht, rfl, hr, ⟨e, v, rfl⟩ | ⟨a, s, ha, hs, rfl⟩⟩ := fnSubmitResult_cases h
  · exact writes_failTask hw ht rfl rfl (finished_of_running hr) _ _
  · exact .single (.stepped hG ht hr ha hs)

theorem submitQuietly_writes (hw : db.core.WellFormed) (i : Uuid) {payload : Json} (hG : G payload) :
    Writes pg now G db (submitQuietly pg now db i payload) := by
  unfold submitQuietly
  split
  · rename_i d r h
    exact fnSubmitResult_writes hw hG h
  · exact .refl

theorem submitIfRunning_writes (hw : db.core.WellFormed) (i : Uuid) {payload : Json} (hG : G payload) :
    Writes pg now G db (submitIfRunning pg now db i payload).1 := by
  unfold submitIfRunning
  split
  · split
    · rename_i r h
      exact fnSubmitResult_writes hw hG h
    · exact .refl
  · exact .refl

end Paths

section Dispatch

variable {pg : Postgres} {now : Time} {G : Json → Prop} {db db' : Db} {t : Task}

theorem startTurn_writes (hw : db.core.WellFormed) (ht : db.task? t.taskId = some t) :
    Writes pg now G db (db.startTurn t now) := by
  unfold Db.startTurn
  split
  · rename_i hq
    exact writes_move hw ht (fun _ => rfl) (by rw [hq]; rfl) rfl
  · exact .refl

theorem freezeOverride_writes (t : Task) (freeze : Option Json) :
    Writes pg now G db (db.freezeOverride t freeze) := by
  cases freeze with
  | none => exact .refl
  | some state => exact .single (.task (fun _ => rfl) fun _ _ _ => .inl rfl)

theorem queueCompaction_writes {agent : Agent} {sid : Uuid} {before : Option Time}
    {rows : List Log} {cut : Time}
    (h : queueCompaction pg now db agent sid before rows cut = .ok db') : Writes pg now G db db' := by
  unfold queueCompaction at h
  obtain ⟨⟨created, sid', taskId⟩, hc, h⟩ := bind_eq_ok.mp h
  obtain rfl := by simpa [pure, Except.pure] using h
  have hinput : Writes pg now G created (created.updateTask taskId fun t => { t with
      input := .object [("target_session_id", .str (uuidText sid)),
        ("compact_cutoff", .str (pg.timestampText cut))] }) :=
    .single (.task (fun _ => rfl) fun _ _ _ => .inl rfl)
  exact ((Relation.ReflTransGen.single (.opened hc)).trans hinput).trans (writes_log _ _ _ _ _)

theorem maybeTriggerCompaction_writes {sid : Uuid} {ids : List Uuid}
    (h : maybeTriggerCompaction pg now db sid ids = .ok db') : Writes pg now G db db' := by
  have hsame : (pure db : Except String Db) = .ok db' → Writes pg now G db db' := by
    intro h
    obtain rfl : db = db' := by simpa [pure, Except.pure] using h
    exact .refl
  unfold maybeTriggerCompaction at h
  split at h
  · exact hsame h
  · split at h
    · exact hsame h
    · obtain ⟨_, _, h⟩ := bind_eq_ok.mp h
      obtain ⟨_, _, h⟩ := bind_eq_ok.mp h
      dsimp only at h
      split at h
      · exact hsame h
      · split at h
        · exact hsame h
        · exact queueCompaction_writes h

theorem openTurn_writes {roll : Rat} {p : Policy} {next : NextAction}
    (h : openTurn pg now roll db t p = .ok (db', next)) : Writes pg now G db db' := by
  have hrest : ∀ d : Db, Writes pg now G db d → ∀ (o : Override) (spec : LlmSpec),
      (pure (d.freezeOverride t o.freeze, .callLlm spec) :
        Except String (Db × NextAction)) = .ok (db', next) → Writes pg now G db db' := by
    intro d hd o spec h
    obtain ⟨rfl, -⟩ := by simpa [pure, Except.pure] using h
    exact hd.trans (freezeOverride_writes t _)
  have hmem : Writes pg now G db
      { db with cfg := touchMemories db.cfg (recalledMemories db.cfg t.agentId now) now } :=
    writes_cfg db fun c => touchMemories c (recalledMemories db.cfg t.agentId now) now
  unfold openTurn at h
  dsimp only at h
  split at h
  · obtain ⟨d, hd, h⟩ := bind_eq_ok.mp h
    obtain ⟨o, _, h⟩ := bind_eq_ok.mp h
    exact hrest d (hmem.trans (maybeTriggerCompaction_writes hd)) o _ h
  · obtain ⟨d, hd, h⟩ := bind_eq_ok.mp h
    obtain ⟨o, _, h⟩ := bind_eq_ok.mp h
    obtain rfl := Except.ok.inj hd
    exact hrest _ hmem o _ h

theorem fnNextStep_writes {roll : Rat} {next : NextAction} (hw : db.core.WellFormed)
    (ht : db.task? t.taskId = some t) (h : fnNextStep pg now roll db t.taskId = .ok (db', next)) :
    Writes pg now G db db' := by
  unfold fnNextStep at h
  simp only [ht] at h
  split at h
  · cases h
  · rename_i hst
    have hs : t.status = .queued ∨ t.status = .running := by
      by_cases hq : t.status = .queued
      · exact .inl hq
      · exact .inr (by_contra fun hr => hst ⟨hq, hr⟩)
    have hstart : Writes pg now G db (db.startTurn t now) := startTurn_writes hw ht
    obtain ⟨hgw, -, -, t', ht', hti, hrun, -⟩ := startTurn_life now ht hs
    obtain ⟨r, hr, hid⟩ := hgw.task? hw (i := t.taskId) ht
    have hsid : t.sessionId = t'.sessionId := by
      rw [← Option.some.inj (hr.symm.trans ht')]
      exact (congrArg (·.2.1) hid).symm
    rw [← hti] at ht'
    have hfail : ∀ e v, Writes pg now G db ((db.startTurn t now).failTask t e v now) := by
      intro e v
      exact hstart.trans (writes_failTask (hgw.wf hw) ht' hti.symm hsid (finished_of_running hrun) e v)
    split at h
    · obtain ⟨rfl, -⟩ := by simpa using h
      exact hfail _ _
    · cases h
    · split at h
      · obtain ⟨rfl, -⟩ := by simpa using h
        exact hfail _ _
      · exact hstart.trans (openTurn_writes h)

theorem dispatchTask_writes {roll : Uuid → Rat} {u : Task} {queued : Option Uuid}
    (he : ∀ e, G (errorPayload e)) (hw : db.core.WellFormed) (hu : db.task? t.taskId = some u)
    (hl : (db.core.callsOf t.taskId).countP (·.live) = 0)
    (h : dispatchTask pg now roll db t = .ok (db', queued)) : Writes pg now G db db' := by
  obtain ⟨-, hut⟩ := mem_of_task? (s := db.core) hu
  rw [← hut] at hu hl
  unfold dispatchTask at h
  rw [← hut] at h
  split at h
  · obtain ⟨rfl, -⟩ := by simpa using h
    exact .refl
  · split at h
    · obtain ⟨rfl, -⟩ := by simpa using h
      exact submitQuietly_writes hw _ (he _)
    · rename_i heq
      obtain ⟨rfl, -⟩ := by simpa using h
      exact fnNextStep_writes hw hu heq
    · rename_i d spec heq
      have hd : Writes pg now G db d := fnNextStep_writes hw hu heq
      obtain ⟨-, hnext⟩ := fnNextStep_dispatched (G := fun _ _ => True) hw hu (fun _ => trivial)
        (fun _ _ => trivial) hl heq
      obtain ⟨-, -, -, -, -, -, t', ht', hti, hrun⟩ :=
        hnext.resolve_left (by rintro ⟨r, hr⟩; cases hr)
      split at h
      · rename_i o ho
        obtain ⟨rfl, -⟩ := by simpa using h
        rw [← hti]
        exact hd.tail (.asked ht' hrun ho)
      · split at h
        · rename_i d' r hok
          obtain ⟨rfl, -⟩ := by simpa using h
          exact hd.trans (fnSubmitResult_writes (hd.wf hw) (he _) hok)
        · cases h

theorem dispatchLoop_writes {roll : Uuid → Rat} {ts : List Task} {n : Nat}
    {out : List (Uuid × Uuid)} (he : ∀ e, G (errorPayload e)) (hw : db.core.WellFormed)
    (hr : Ready db ts) (h : dispatchLoop pg now roll n ts db = .ok (db', out)) : Writes pg now G db db' := by
  induction ts generalizing n db out with
  | nil =>
    cases n <;>
    · obtain ⟨rfl, -⟩ := by simpa [dispatchLoop] using h
      exact .refl
  | cons t ts ih =>
    cases n with
    | zero =>
      obtain ⟨rfl, -⟩ := by simpa [dispatchLoop] using h
      exact .refl
    | succ n =>
      rw [dispatchLoop] at h
      obtain ⟨⟨d, queued⟩, hd, h⟩ := bind_eq_ok.mp h
      obtain ⟨u, hu, hag⟩ := hr.rows t (by simp)
      have hdw := dispatchTask_writes he hw hu (hr.idle t (by simp)) hd
      have hdis := dispatchTask_dispatched (G := fun _ _ => True) hw hu hag (fun _ => trivial)
        (fun _ _ => trivial) (fun _ _ _ => trivial) (hr.idle t (by simp)) hd
      have hwd := hdw.wf hw
      have hready := hr.tail hw hdis
      cases queued with
      | none => exact hdw.trans (ih hwd hready h)
      | some id =>
        obtain ⟨⟨d', out'⟩, hloop, h⟩ := bind_eq_ok.mp h
        obtain ⟨rfl, -⟩ := by simpa [pure, Except.pure] using h
        exact hdw.trans (ih hwd hready hloop)

end Dispatch

section Claims

variable {pg : Postgres} {now : Time} {G : Json → Prop} {db : Db} {queue : Queue} {id : Uuid} {q : Call} {t : Task}

theorem guardQueuedCall_writes (queue : Queue) (id : Uuid) (hw : db.core.WellFormed) :
    Writes pg now G db (guardQueuedCall pg now db queue id).1 := by
  rcases guardQueuedCall_cases pg now db queue id with
    h | ⟨q, t, hq, ⟨reason, -, h⟩ | ⟨-, -, h⟩ | ⟨hn, h⟩⟩
  · rw [h]
  · rw [h]
    have hlost : Writes pg now G db (db.updateCall q.callId
        fun c => { c with status := .lost, updatedAt := now }) :=
      writes_updateCall db q.callId fun _ => rfl
    exact hlost.trans
      (writes_failTask (hlost.wf hw) hq.task rfl rfl (finished_of_running hq.running) _ _)
  · rw [h]
  · rw [h, Db.requestApproval]
    have hprev : Writes pg now G db
        (db.supersede (latestApproval db t.taskId queue id) now) := by
      cases latestApproval db t.taskId queue id with
      | none => exact .refl
      | some a => exact .single (.approvals fun _ => rfl)
    have htasks : (db.supersede (latestApproval db t.taskId queue id) now).tasks = db.tasks := by
      cases latestApproval db t.taskId queue id <;> rfl
    have hcalls : (db.supersede (latestApproval db t.taskId queue id) now).calls = db.calls := by
      cases latestApproval db t.taskId queue id <;> rfl
    refine (hprev.tail (.approval ?_)).tail (.task (fun _ => rfl) fun r hr hid => .inr ?_)
    · rintro g ⟨⟩
      exact ⟨q, hcalls ▸ hq.mem.1, rfl, llm_of_needsApproval hw hq.mem.1 hn⟩
    · rw [eq_of_task? hw hq.task (htasks ▸ hr) hid]
      exact ⟨finished_of_running hq.running, rfl⟩

theorem claimLoop_writes (fallback : Option String) {qs : List Call} (hw : db.core.WellFormed) :
    Writes pg now G db (claimLoop pg now queue fallback qs db).1 := by
  induction qs generalizing db with
  | nil => exact .refl
  | cons q qs ih =>
    have hguard : Writes pg now G db (guardQueuedCall pg now db queue q.callId).1 :=
      guardQueuedCall_writes queue q.callId hw
    rw [claimLoop]
    dsimp only
    split
    · have hcall : Writes pg now G (guardQueuedCall pg now db queue q.callId).1
          ((guardQueuedCall pg now db queue q.callId).1.takeCall q.callId now) :=
        writes_updateCall _ _ fun _ => rfl
      exact (hguard.trans hcall).trans (ih ((hguard.trans hcall).wf hw))
    · exact hguard.trans (ih (hguard.wf hw))

end Claims

section Completions

variable {pg : Postgres} {now : Time} {G : Json → Prop} {db db' : Db} {q : Call} {o : Outbound}
  {status : Option Int} {body : Option String} {payload : Json}

/-- Nothing but events are written. -/
structure Noted (db db' : Db) : Prop extends Aside db db' where
  cfg : db'.cfg = db.cfg

theorem Noted.refl (db : Db) : Noted db db :=
  ⟨Aside.refl db, rfl⟩

theorem Noted.trans {db'' : Db} (h : Noted db db') (h' : Noted db' db'') : Noted db db'' :=
  ⟨⟨h'.sessions.trans h.sessions, h'.tasks.trans h.tasks, h'.calls.trans h.calls,
    h'.approvals.trans h.approvals, h.nextId.trans h'.nextId⟩, h'.cfg.trans h.cfg⟩

theorem markCapabilityOutcome_noted {id : Uuid} {k : CapabilityType} {name : Option String}
    {ok : Bool} : Returns (Noted db) (markCapabilityOutcome now db id k name ok) := by
  unfold markCapabilityOutcome
  split
  · exact returns_ok (Noted.refl db)
  · exact returns_ite (fun _ => returns_ok ⟨⟨rfl, rfl, rfl, rfl, Nat.le_refl _⟩, rfl⟩)
      fun _ => returns_error _

theorem noted_recordCapabilityRemoteCost (db : Db) (id : Uuid) (cost : Rat) :
    Noted db (recordCapabilityRemoteCost db id cost) := by
  unfold recordCapabilityRemoteCost
  dsimp only
  split <;> exact ⟨⟨rfl, rfl, rfl, rfl, Nat.le_refl _⟩, rfl⟩

theorem completeFunctionKind_noted :
    Returns (fun r => Noted db r.1) (completeFunctionKind now db q o status body) := by
  unfold completeFunctionKind
  dsimp only
  split
  · exact returns_pure (Noted.refl db)
  · refine returns_bind markCapabilityOutcome_noted fun d hd => returns_pure ?_
    exact hd.trans (noted_recordCapabilityRemoteCost d _ _)

theorem completeMcpKind_noted :
    Returns (fun r => Noted db r.1) (completeMcpKind db q o status body) := by
  unfold completeMcpKind
  exact returns_seq fun _ => returns_pure (noted_recordCapabilityRemoteCost db _ _)

theorem completeSearch_noted {rank : List (Option Float8) → Except String (Db × Json)}
    (h : ∀ v, Returns (fun r => Noted db r.1) (rank v)) :
    Returns (fun r => Noted db r.1) (completeSearch db status body rank) := by
  unfold completeSearch
  refine returns_ite (fun _ => returns_ok (Noted.refl db)) fun _ => returns_seq fun v => ?_
  refine returns_ite (fun _ => returns_pure (Noted.refl db)) fun _ => ?_
  exact returns_bind (h v) fun r hr => returns_pure hr

theorem rankCapabilitiesByEmbedding_noted {query : List (Option Float8)} {requester : Option Uuid}
    {model text : Option String} {taskId : Uuid} :
    Returns (fun r => Noted db r.1)
      (rankCapabilitiesByEmbedding pg now db query requester model text taskId) := by
  unfold rankCapabilitiesByEmbedding
  exact returns_seq fun _ => returns_pure ⟨⟨rfl, rfl, rfl, rfl, Nat.le_succ _⟩, rfl⟩

theorem completeCapabilitySearchKind_noted :
    Returns (fun r => Noted db r.1) (completeCapabilitySearchKind pg now db q o status body) := by
  unfold completeCapabilitySearchKind
  refine returns_bind (completeSearch_noted fun v => rankCapabilitiesByEmbedding_noted) ?_
  intro r hr
  exact returns_bind markCapabilityOutcome_noted fun d hd => returns_pure (hr.trans hd)

theorem completeLlmKind_writes (db : Db) (q : Call) (o : Outbound) (status : Option Int)
    (body : Option String) : Writes pg now G db (completeLlmKind db q o status body).1 := by
  unfold completeLlmKind
  split
  · dsimp only
    have hcall : Writes pg now G db (db.updateCall q.callId fun c =>
        { c with
          promptTokens := (llmUsageFromHttp body).bind (·.1)
          completionTokens := (llmUsageFromHttp body).bind (·.2)
          costUsd := callCost db.cfg o (llmUsageFromHttp body) }) :=
      writes_updateCall db q.callId fun _ => rfl
    split
    · exact hcall.trans (writes_aside ⟨rfl, rfl, rfl, rfl, Nat.le_refl _⟩)
    · exact hcall
  · dsimp only
    split_ifs
    · exact writes_aside ⟨rfl, rfl, rfl, rfl, Nat.le_refl _⟩
    · exact .refl

theorem completeKind_writes (h : completeKind pg now db q o status body = .ok (db', payload)) :
    Writes pg now G db db' := by
  unfold completeKind at h
  split at h
  · exact writes_aside (completeFunctionKind_noted _ h).toAside
  · exact writes_aside (completeMcpKind_noted _ h).toAside
  · exact writes_aside (completeSearch_noted
      (fun _ => returns_seq fun _ => returns_pure (Noted.refl db)) _ h).toAside
  · exact writes_aside (completeCapabilitySearchKind_noted _ h).toAside
  · exact writes_aside (completeSearch_noted
      (fun _ => returns_seq fun _ => returns_pure (Noted.refl db)) _ h).toAside
  · have : Writes pg now G db (completeLlmKind db q o status body).1 :=
      completeLlmKind_writes db q o status body
    rw [Except.ok.inj h] at this
    exact this

theorem pauseAmbiguousOutbound_writes (hw : db.core.WellFormed) (q : Call) (reason : String) :
    Writes pg now G db (db.pauseAmbiguousOutbound q reason now) := by
  let lost := db.updateCall q.callId
    fun c => { c with status := .lost, error := some reason, updatedAt := now }
  have hlost : Writes pg now G db lost := writes_updateCall db q.callId fun _ => rfl
  unfold Db.pauseAmbiguousOutbound
  dsimp only
  split
  · exact hlost
  · rename_i t ht
    obtain ⟨ht, hrun⟩ := filter_eq_some ht
    obtain ⟨-, hti⟩ := mem_of_task? (s := lost.core) ht
    have ht' : db.task? t.taskId = some t := hti ▸ ht
    have hpause : Writes pg now G lost (lost.updateTask t.taskId fun r =>
        { r with status := .waitingHuman, updatedAt := now }) :=
      .single (.task (fun _ => rfl) fun r hr hid => .inr (by
        rw [eq_of_task? hw ht' hr hid]
        exact ⟨finished_of_running (by simpa using hrun), rfl⟩))
    have hask : Write pg now G _ ((lost.updateTask t.taskId fun r =>
        { r with status := .waitingHuman, updatedAt := now }).insertApproval t.taskId
          (.ambiguous q.callId reason) now (now + dayMillis)) := .approval fun g hg => by cases hg
    exact ((hlost.trans hpause).tail hask).trans (writes_log _ _ _ _ _)

theorem scoreOutcome_writes (db : Db) (q : Call) (o : Outbound) (r : Json) :
    Writes pg now G db (scoreOutcome db q o r) := by
  unfold scoreOutcome
  split
  · exact writes_updateCall db q.callId fun _ => rfl
  · exact .refl

theorem harvestOutbound_writes {result : Json}
    (hG : ∀ d p, completeKind pg now (db.harvestResponse q.callId status body now) q o status body =
      .ok (d, p) → G p)
    (hw : db.core.WellFormed) (h : harvestOutbound pg now db q o status body = .ok (db', result)) :
    Writes pg now G db db' := by
  unfold harvestOutbound at h
  split at h
  · obtain ⟨rfl, -⟩ := by simpa using h
    have hnote : Writes pg now G db (db.updateCall q.callId fun c =>
        { c with responseStatus := status, responseBody := some (left (orEmpty body) 200000) }) :=
      writes_updateCall db q.callId fun _ => rfl
    exact hnote.trans (pauseAmbiguousOutbound_writes (hnote.wf hw) q _)
  · obtain ⟨⟨d, payload⟩, hk, h⟩ := bind_eq_ok.mp h
    obtain ⟨rfl, -⟩ := by simpa [pure, Except.pure] using h
    have hharvest : Writes pg now G db (db.harvestResponse q.callId status body now) :=
      writes_updateCall db q.callId fun _ => rfl
    have hread := hharvest.trans (completeKind_writes hk)
    exact (hread.trans (submitIfRunning_writes (hread.wf hw) _ (hG d payload hk))).trans
      (scoreOutcome_writes _ _ _ _)

theorem fnCompleteOutbound_writes {id : Uuid} {result : Json} (hG : ∀ p, G p)
    (hw : db.core.WellFormed)
    (h : fnCompleteOutbound pg now db id status body = .ok (db', result)) :
    Writes pg now G db db' := by
  unfold fnCompleteOutbound at h
  split at h
  · cases h
  · split at h
    · obtain ⟨rfl, -⟩ := by simpa using h
      exact .refl
    · split at h
      · exact harvestOutbound_writes (fun _ p _ => hG p) hw h
      · cases h

theorem completeLocalRequest_noted {r : LocalResult} :
    Returns (fun x => Noted db x.1) (completeLocalRequest now db q r) := by
  unfold completeLocalRequest
  split
  · exact returns_ok (Noted.refl db)
  · exact returns_bind markCapabilityOutcome_noted fun d hd => returns_pure hd
  · exact returns_bind markCapabilityOutcome_noted fun d hd => returns_pure hd
  · exact returns_error _

theorem fnCompleteLocal_writes {queue : Queue} {id : Uuid} {r : LocalResult} {result : Json}
    (hG : ∀ p, p.text "type" ≠ some "llm_response" → G p) (hw : db.core.WellFormed)
    (h : fnCompleteLocal pg now db queue id r = .ok (db', result)) :
    Writes pg now G db db' := by
  unfold fnCompleteLocal at h
  split at h
  · cases h
  · split at h
    · obtain ⟨rfl, -⟩ := by simpa using h
      exact .refl
    · rename_i q hq _
      obtain ⟨⟨d, payload⟩, hk, h⟩ := bind_eq_ok.mp h
      obtain ⟨rfl, -⟩ := by simpa [pure, Except.pure] using h
      have hharvest : Writes pg now G db (db.harvest q.callId now) :=
        writes_updateCall db q.callId fun _ => rfl
      have hread := hharvest.trans (writes_aside (completeLocalRequest_noted _ hk).toAside)
      have htype := (completeLocalRequest_reads hk).2 rfl
      exact hread.trans (submitIfRunning_writes (hread.wf hw) _ (hG payload htype))

end Completions

section Sweeps

variable {pg : Postgres} {now : Time} {G : Json → Prop} {db : Db}

theorem reclaimCall_writes (he : ∀ e, G (errorPayload e)) (hw : db.core.WellFormed) (q : Call) :
    Writes pg now G db (reclaimCall pg now db q) := by
  have hlost : Writes pg now G db (db.updateCall q.callId (·.timedOut now)) :=
    writes_updateCall db q.callId (ident_timedOut now)
  unfold reclaimCall
  dsimp only
  split
  · split
    · exact hlost.trans (pauseAmbiguousOutbound_writes (hlost.wf hw) q _)
    · exact hlost.trans (submitQuietly_writes (hlost.wf hw) _ (he _))
  · exact hlost

/-- A loop whose rounds each write. -/
theorem writes_foldl {α : Type} {f : Db → α → Db}
    (hf : ∀ d a, d.core.WellFormed → Writes pg now G d (f d a)) (as : List α)
    (hw : db.core.WellFormed) : Writes pg now G db (as.foldl f db) := by
  induction as generalizing db with
  | nil => exact .refl
  | cons a as ih => exact (hf db a hw).trans (ih ((hf db a hw).wf hw))

theorem expireApproval_writes (hw : db.core.WellFormed) (a : Approval) :
    Writes pg now G db (expireApproval now db a) := by
  let rejected := db.settleApproval a.approvalId .rejected (some "approval_timeout") now
  have hrej : Writes pg now G db rejected := .single (.approvals fun _ => rfl)
  unfold expireApproval
  dsimp only
  split
  · exact hrej
  · rename_i t ht
    obtain ⟨ht, hst⟩ := filter_eq_some ht
    obtain ⟨-, hti⟩ := mem_of_task? (s := db.core) ht
    have hst : t.status = .waitingHuman := by simpa using hst
    have ht' : rejected.task? t.taskId = some t := hti ▸ ht
    exact hrej.trans (writes_reject (hrej.wf hw) ht' rfl rfl (by rw [hst]; rfl) _ _ _)

/-- A loop whose rounds each change the row of their own task. -/
theorem writes_each {f : Db → Task → Db} {P : Task → Prop}
    (hf : ∀ d t, d.core.WellFormed → d.task? t.taskId = some t → P t →
      Writes pg now G d (f d t) ∧ ∀ i, i ≠ t.taskId → (f d t).task? i = d.task? i)
    {ts : List Task} (hn : (ts.map (·.taskId)).Nodup) (hw : db.core.WellFormed)
    (hts : ∀ t ∈ ts, db.task? t.taskId = some t ∧ P t) : Writes pg now G db (ts.foldl f db) := by
  induction ts generalizing db with
  | nil => exact .refl
  | cons t ts ih =>
    simp only [List.map_cons, List.nodup_cons] at hn
    obtain ⟨ht, hP⟩ := hts t (by simp)
    obtain ⟨hwr, hne⟩ := hf db t hw ht hP
    refine hwr.trans (ih hn.2 (hwr.wf hw) fun u hu => ?_)
    have hut : u.taskId ≠ t.taskId := fun h => hn.1 (List.mem_map.mpr ⟨u, hu, h⟩)
    rw [hne u.taskId hut]
    exact hts u (List.mem_cons_of_mem t hu)

theorem maybeCompleteSession_loseCalls (db : Db) (queues : List Queue) (own : Uuid → Bool)
    (e : String) (sid : Uuid) :
    (db.loseCalls queues own e now).maybeCompleteSession sid now =
      (db.maybeCompleteSession sid now).loseCalls queues own e now := by
  unfold Db.maybeCompleteSession Db.loseCalls
  dsimp only
  split <;> rfl

theorem task?_bump_ne {s : Core} {i j : Uuid} {f : Task → Task} (hf : ∀ t, (f t).ident = t.ident)
    (h : i ≠ j) : (s.bump j now f).task? i = s.task? i := by
  have hu := task?_updateTask (s := s) (j := j) (f := fun t =>
    { f t with stepCount := t.stepCount + 1, updatedAt := now }) (fun t => hf t) i
  simp only [h, if_false, Option.map_id_fun', id] at hu
  exact hu

theorem timeoutTurn_writes (db : Db) (t : Task) (hw : db.core.WellFormed)
    (ht : db.task? t.taskId = some t) (hu : t.status.finished = false) :
    Writes pg now G db (timeoutTurn now db t) ∧
      ∀ i, i ≠ t.taskId → (timeoutTurn now db t).task? i = db.task? i := by
  constructor
  · unfold timeoutTurn
    dsimp only
    rw [maybeCompleteSession_loseCalls]
    have hend : Writes pg now G db (((db.appendLog t.taskId (t.stepCount + 1) .error
        (.object [("reason", .str "turn_timeout")]) now).bump t.taskId now fun r =>
          { r with status := .failed, error := some "turn_timeout" }).maybeCompleteSession
            t.sessionId now) := writes_reject hw ht rfl rfl hu _ _ _
    have hlose : ∀ d : Db, Writes pg now G d
        (d.loseCalls [.outboundCalls, .sqlCalls] (· = t.taskId) "turn_timeout" now) :=
      fun d => .single (.calls fun c => ident_lose c _ _)
    exact hend.trans (hlose _)
  · intro i hi
    have hcore : (timeoutTurn now db t).core = (db.core.bump t.taskId now
        fun r => { r with status := .failed, error := some "turn_timeout" }).loseCalls
          (· = t.taskId) "turn_timeout" now := by
      unfold timeoutTurn
      dsimp only
      rw [Db.core_maybeCompleteSession, Db.core_loseCalls, Db.core_bump, Db.core_appendLog]
    rw [← Db.task?_core, hcore]
    exact task?_bump_ne (s := db.core) (fun _ => rfl) hi

theorem wakeParent_writes (db : Db) (t : Task) (hw : db.core.WellFormed)
    (ht : db.task? t.taskId = some t) (hu : t.status.finished = false) :
    Writes pg now G db (wakeParent now db t) ∧
      ∀ i, i ≠ t.taskId → (wakeParent now db t).task? i = db.task? i := by
  constructor
  · have hlog : ∀ v, Writes pg now G db
        (db.appendLog t.taskId (t.stepCount + 1) .function v now) := fun v => writes_log db _ _ _ _
    have hmove : ∀ d : Db, d.core.WellFormed → d.task? t.taskId = some t →
        Writes pg now G d (d.bump t.taskId now fun r => { r with status := .queued }) :=
      fun d hd htd => writes_move hd htd (fun _ => rfl) hu rfl
    unfold wakeParent
    dsimp only
    exact (hlog _).trans (hmove _ ((hlog _).wf hw) ht)
  · intro i hi
    exact task?_bump_ne (s := db.core) (fun _ => rfl) hi

theorem reclaimQueue_writes (he : ∀ e, G (errorPayload e)) (hw : db.core.WellFormed)
    (seconds : Option Int) (locked : List Uuid) (queue : Queue) : Writes pg now G db (reclaimQueue pg now seconds locked queue db) :=
  writes_foldl (fun _ q hd => reclaimCall_writes he hd q) _ hw

theorem expireApprovals_writes (hw : db.core.WellFormed) (locked : List Uuid) :
    Writes pg now G db (db.expireApprovals now locked) :=
  writes_foldl (fun _ a hd => expireApproval_writes hd a) _ hw

theorem timeoutTurns_writes (hw : db.core.WellFormed) (locked : List Uuid) :
    Writes pg now G db (db.timeoutTurns now locked) := by
  refine writes_each (P := fun t => t.status.finished = false) timeoutTurn_writes
    (hw.taskIds.sublist (List.filter_sublist.map _)) hw fun t ht => ?_
  obtain ⟨htm, hto⟩ := List.mem_filter.mp ht
  simp only [decide_eq_true_eq, overTurn, Bool.and_eq_true] at hto
  exact ⟨task?_of_mem (s := db.core) hw htm, occupies_unfinished hto.1.1⟩

theorem wakeParents_writes (hw : db.core.WellFormed) (locked : List Uuid) :
    Writes pg now G db (db.wakeParents now locked) := by
  refine writes_each (P := fun t => t.status.finished = false) wakeParent_writes
    (hw.taskIds.sublist (List.filter_sublist.map _)) hw fun t ht => ?_
  obtain ⟨htm, hto⟩ := List.mem_filter.mp ht
  simp only [childrenDone, Bool.and_eq_true, decide_eq_true_eq] at hto
  exact ⟨task?_of_mem (s := db.core) hw htm, by rw [hto.1.1]; rfl⟩

theorem fnWatchdog_writes (hG : ∀ e, G (errorPayload e)) (hw : db.core.WellFormed)
    (seconds : Option Int) (locked : List Uuid) :
    Writes pg now G db (fnWatchdog pg now seconds locked db) := by
  have ho : Writes pg now G db (reclaimQueue pg now seconds locked .outboundCalls db) :=
    reclaimQueue_writes hG hw seconds locked .outboundCalls
  have hs := ho.trans (reclaimQueue_writes hG (ho.wf hw) seconds locked .sqlCalls)
  have hf := hs.trans (reclaimQueue_writes hG (hs.wf hw) seconds locked .functionCalls)
  have hp := hf.trans (reclaimQueue_writes hG (hf.wf hw) seconds locked .procedureCalls)
  have hc := hp.trans (writes_cfg _ fun c =>
    reclaimOperatorCalls now seconds (resetBuilds pg now seconds c))
  have he := hc.trans (expireApprovals_writes (hc.wf hw) locked)
  have ht := he.trans (timeoutTurns_writes (he.wf hw) locked)
  have hk := ht.trans (wakeParents_writes (ht.wf hw) locked)
  exact hk.trans (writes_cfg _ (dropExpiredMemories now))

theorem fnDecideApproval_writes {db' : Db} {id : Uuid} {accept : Bool} {reply : Option String}
    {result : Json} (hw : db.core.WellFormed)
    (h : fnDecideApproval now db id accept reply = .ok (db', result)) : Writes pg now G db db' := by
  unfold fnDecideApproval at h
  split at h
  · cases h
  · rename_i v hv
    split at h
    · cases h
    · have hset : ∀ st, Writes pg now G db (db.settleApproval id st reply now) :=
        fun st => .single (.approvals fun _ => rfl)
      dsimp only at h
      split at h
      · obtain ⟨rfl, -⟩ := by simpa using h
        exact hset _
      · rename_i t ht
        obtain ⟨ht, hst⟩ := filter_eq_some ht
        obtain ⟨-, hti⟩ := mem_of_task? (s := db.core) ht
        have ht' : db.task? t.taskId = some t := hti ▸ ht
        have hst : t.status = .waitingHuman := by simpa using hst
        have hu : t.status.finished = false := by rw [hst]; rfl
        obtain ⟨rfl, -⟩ := by simpa using h
        cases accept with
        | true =>
          rw [if_pos rfl]
          have hlog := (hset .approved).trans (writes_log _ t.taskId (t.stepCount + 1) .operator
            (.str ((trimmed reply).getD "Approved.")))
          have hs : (resumeStatus v.payload).finished = false := by
            unfold resumeStatus
            split <;> rfl
          exact hlog.trans (writes_move (hlog.wf hw) ht' (fun _ => rfl) hu hs)
        | false =>
          rw [if_neg (by simp)]
          exact (hset .rejected).trans
            (writes_reject ((hset .rejected).wf hw) ht' rfl rfl hu _ _ _)

end Sweeps

/-- What an operation submits. -/
def Op.submits : Op → Json → Prop
  | .dispatch _ _, p | .watchdog _ _, p => ∃ e, p = errorPayload e
  | .submit _ payload, p => p = payload
  | .completeOutbound _ _ _, _ | .completeLocal _ _ _, _ => True
  | _, _ => False

/-- Every operation that returns is a path of writes. -/
theorem perform_writes {pg : Postgres} {now : Time} {db db' : Db} {op : Op}
    (hw : db.core.WellFormed) (h : perform pg now db op = .ok db') :
    Writes pg now op.submits db db' := by
  cases op with
  | createSession agentId goal projectId scheduleId =>
    obtain ⟨ids, h⟩ := map_fst_eq_ok h
    exact .single (.opened h)
  | continueSession sessionId message =>
    obtain ⟨tid, h⟩ := map_fst_eq_ok h
    exact .single (.continued h)
  | dispatch roll locked =>
    obtain ⟨out, h⟩ := map_fst_eq_ok h
    exact dispatchLoop_writes (fun e => ⟨e, rfl⟩) hw (dispatchable_ready hw locked) h
  | submit i payload =>
    obtain ⟨result, h⟩ := map_fst_eq_ok h
    exact fnSubmitResult_writes hw rfl h
  | claim queue limit fallback locked =>
    obtain rfl := Except.ok.inj h
    exact claimLoop_writes fallback hw
  | completeOutbound id status body =>
    obtain ⟨result, h⟩ := map_fst_eq_ok h
    exact fnCompleteOutbound_writes (fun _ => trivial) hw h
  | completeLocal queue id r =>
    obtain ⟨result, h⟩ := map_fst_eq_ok h
    exact fnCompleteLocal_writes (fun _ _ => trivial) hw h
  | watchdog seconds locked =>
    obtain rfl := Except.ok.inj h
    exact fnWatchdog_writes (fun e => ⟨e, rfl⟩) hw seconds locked
  | decideApproval id accept reply =>
    obtain ⟨out, h⟩ := map_fst_eq_ok h
    exact fnDecideApproval_writes hw h
  | cancelSession sid reason =>
    obtain ⟨n, h⟩ := map_fst_eq_ok h
    exact .single (.cancelled h)
  | edit change =>
    obtain rfl := Except.ok.inj h
    exact writes_cfg db change

theorem step_writes (pg : Postgres) {db : Db} (e : Event) (hw : db.core.WellFormed) :
    Writes pg e.now e.op.submits db (step pg db e) := by
  rcases step_cases pg db e with he | he
  · rw [he]
  · exact perform_writes hw he

/-- What every write keeps holds in every state of a run. -/
theorem run_invariant {pg : Postgres} {I : Db → Prop}
    (hI : ∀ {now : Time} {G : Json → Prop} {d d' : Db}, d.core.WellFormed → I d →
      Write pg now G d d' → I d')
    {db : Db} (hw : db.core.WellFormed) (hdb : I db) (es : List Event) :
    I (run (step pg) db es) := by
  induction es generalizing db with
  | nil => exact hdb
  | cons e es ih =>
    have hstep := step_writes pg e hw
    exact ih (hstep.wf hw) (hstep.invariant hw hI hdb)

end Allgres
