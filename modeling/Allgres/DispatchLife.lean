import Allgres.Evolution

/-! `fn_dispatch_tasks` asks the model once for each task it takes up, and only for
a task without a live call and with steps left. -/

namespace Allgres

open Raise Rows Runs Allgres.Core

theorem errorPayload_type (text : String) : (errorPayload text).text "type" = some "error" :=
  rfl

theorem cfg_maybeCompleteSession (db : Db) (id : Uuid) (now : Time) :
    (db.maybeCompleteSession id now).cfg = db.cfg := by
  unfold Db.maybeCompleteSession
  dsimp only
  split <;> rfl

theorem cfg_record (db : Db) (t : Task) (s : Step) (now : Time) :
    (db.record t s now).cfg = s.cfg := by
  unfold Db.record
  dsimp only
  have hset : ∀ (d : Db) cut, (d.setCompacted cut).cfg = d.cfg := by
    intro d cut
    cases cut <;> rfl
  rw [hset]
  split
  · rfl
  · unfold markCapabilitySelected
    dsimp only
    split <;> rfl

theorem errorStep_next (T : Turn) (payload : Json) :
    (T.errorStep payload).next = .again ∨ ∃ m, (T.errorStep payload).next = .fail m := by
  simp only [Turn.errorStep]
  split_ifs
  · exact .inr ⟨_, rfl⟩
  · exact .inl rfl

/-- An error submitted to a running task is always taken: it costs a step or ends the task. -/
theorem submit_error (pg : Postgres) (now : Time) {db : Db} {t : Task} (text : String)
    (ht : db.task? t.taskId = some t) (hr : t.status = .running) :
    ∃ db' r f, fnSubmitResult pg now db t.taskId (errorPayload text) = .ok (db', r) ∧
      db'.core = db.core.updateTask t.taskId f ∧ db'.cfg = db.cfg ∧
      (∀ t, (f t).ident = t.ident) ∧ (∀ t, (f t).startedAt = t.startedAt) ∧
      ((f t).stepCount = t.stepCount + 1 ∨
        ((f t).status = .failed ∧ (f t).stepCount = t.stepCount)) := by
  unfold fnSubmitResult
  rw [ht]
  simp only [hr, ne_eq, not_true_eq_false, if_false]
  split
  · exact ⟨_, _, _, rfl, Db.core_failTask db t _ _ now, cfg_maybeCompleteSession _ _ _,
      fun _ => rfl, fun _ => rfl, .inr ⟨rfl, rfl⟩⟩
  · rename_i a _
    let T : Turn := ⟨db, now, t, a, db.cfg.policy? t.agentId⟩
    let st := T.errorStep (errorPayload text)
    have hstep : T.payloadStep pg (errorPayload text) = .ok st := rfl
    have hcore : (db.record t st now).core = db.core := Db.core_record db t st now
    have hcfg : (db.record t st now).cfg = db.cfg := cfg_record db t st now
    rw [hstep]
    refine ⟨(db.record t st now).applyNext t st.next now, st.result, ?_⟩
    rcases errorStep_next T (errorPayload text) with hn | ⟨m, hn⟩
    · refine ⟨fun r => { r with stepCount := r.stepCount + 1, updatedAt := now }, rfl, ?_, ?_,
        fun _ => rfl, fun _ => rfl, .inl rfl⟩
      · rw [hn, ← hcore]
        rfl
      · rw [hn, ← hcfg]
        rfl
    · refine ⟨fun r => { r with
          status := .failed
          error := some m
          stepCount := r.stepCount + 1
          updatedAt := now }, rfl, ?_, ?_, fun _ => rfl, fun _ => rfl, .inl rfl⟩
      · rw [hn]
        simp only [Db.applyNext, Db.core_maybeCompleteSession, Db.core_bump, hcore]
        rfl
      · rw [hn]
        exact (cfg_maybeCompleteSession _ _ _).trans hcfg

namespace Core

variable {s s' s'' : Core}

/-- No task moves, but some may be added. -/
structure Spawned (s s' : Core) : Prop where
  grow : Grow s s'
  lives : ∀ j, s'.life j = s.life j ∨ Life.Move .born (s.life j) (s'.life j)

theorem Spawned.refl (s : Core) : Spawned s s :=
  ⟨Grow.refl s, fun _ => .inl rfl⟩

theorem Spawned.quiet (h : Spawned s s') (hg : Grow s' s'')
    (he : ∀ j, s''.life j = s'.life j) : Spawned s s'' := by
  refine ⟨h.grow.trans hg, fun j => ?_⟩
  rw [he j]
  exact h.lives j

theorem spawned_insertTask (hw : s.WellFormed) {t : Task} (hs : t.status = .queued)
    (hn : t.stepCount = 0) : Spawned s (s.insertTask t) := by
  refine ⟨grow_insertTask s t, fun j => ?_⟩
  rw [life_insertTask hw]
  by_cases hj : j = s.nextId
  · right
    rw [if_pos hj, hj, life_nextId hw, hs, hn]
    exact .born
  · left
    rw [if_neg hj]

theorem Spawned.allot {n : Nat} (hn : s.nextId ≤ n) (h : Spawned { s with nextId := n } s') :
    Spawned s s' :=
  ⟨(grow_allot s hn).trans h.grow, h.lives⟩

/-- A task that exists is not born again. -/
theorem Spawned.life_eq (h : Spawned s s') {j : Uuid} {t : Task} (ht : s.task? j = some t) :
    s'.life j = s.life j := by
  rcases h.lives j with he | hm
  · exact he
  · rw [life_of_task? ht] at hm
    cases hm

theorem Spawned.task? (h : Spawned s s') (hw : s.WellFormed) {j : Uuid} {t : Task}
    (ht : s.task? j = some t) : ∃ t', s'.task? j = some t' ∧ t'.ident = t.ident ∧
      t'.status = t.status ∧ t'.stepCount = t.stepCount := by
  obtain ⟨htm, rfl⟩ := mem_of_task? ht
  obtain ⟨t', htm', hid⟩ := h.grow.tasks.kept htm
  have hti : t'.taskId = t.taskId := congrArg (·.1) hid
  have ht' : s'.task? t.taskId = some t' := hti ▸ task?_of_mem (h.grow.wf hw) htm'
  have hl := h.life_eq ht
  rw [life_of_task? ht, life_of_task? ht'] at hl
  simp only [Life.mk.injEq, Option.some.injEq] at hl
  exact ⟨t', ht', hid, hl.1, hl.2.1⟩

end Core

theorem startTask_spawned (db : Db) (hw : db.core.WellFormed) (sessionId agentId : Uuid)
    (goal : String) (now : Time) :
    Spawned db.core (db.startTask sessionId agentId goal now).core := by
  unfold Db.startTask
  exact spawned_insertTask hw rfl rfl

theorem fnCreateSession_spawned {now : Time} {db db' : Db} {agentId sid tid : Uuid}
    {goal : Option String} {projectId scheduleId : Option Uuid} (hw : db.core.WellFormed)
    (h : fnCreateSession now db agentId goal projectId scheduleId = .ok (db', sid, tid)) :
    Spawned db.core db'.core ∧ db'.cfg = db.cfg := by
  unfold fnCreateSession at h
  obtain ⟨_, _, h⟩ := bind_eq_ok.mp h
  obtain ⟨_, _, h⟩ := bind_eq_ok.mp h
  obtain ⟨_, _, h⟩ := bind_eq_ok.mp h
  obtain ⟨rfl, -, -⟩ := by simpa [pure, Except.pure] using h
  have hw' : (db.insertSession
      { sessionId := 0, agentId, projectId, goal := btrim (orEmpty goal), scheduleId }).core.WellFormed :=
    (grow_allot db.core (Nat.le_succ db.nextId)).wf hw
  exact ⟨(startTask_spawned _ hw' _ _ _ now).allot (Nat.le_succ _), rfl⟩

theorem fnContinueSession_spawned {now : Time} {db db' : Db} {sessionId tid : Uuid}
    {message : Option String} (hw : db.core.WellFormed)
    (h : fnContinueSession now db sessionId message = .ok (db', tid)) :
    Spawned db.core db'.core := by
  unfold fnContinueSession at h
  obtain ⟨_, _, h⟩ := bind_eq_ok.mp h
  split at h
  · cases h
  · obtain ⟨_, _, h⟩ := bind_eq_ok.mp h
    obtain ⟨_, _, h⟩ := bind_eq_ok.mp h
    obtain ⟨rfl, -⟩ := by simpa [pure, Except.pure] using h
    exact startTask_spawned (db.updateSession sessionId _) hw _ _ _ now

theorem queueCompaction_spawned {pg : Postgres} {now cut : Time} {db db' : Db} {agent : Agent}
    {sessionId : Uuid} {before : Option Time} {rows : List Log} (hw : db.core.WellFormed)
    (h : queueCompaction pg now db agent sessionId before rows cut = .ok db') :
    Spawned db.core db'.core ∧ db'.cfg = db.cfg := by
  unfold queueCompaction at h
  obtain ⟨⟨created, _, taskId⟩, hc, h⟩ := bind_eq_ok.mp h
  obtain rfl := by simpa [pure, Except.pure] using h
  obtain ⟨hs, hcfg⟩ := fnCreateSession_spawned hw hc
  refine ⟨hs.quiet (grow_updateTask fun _ => rfl) fun j => ?_, hcfg⟩
  rw [Db.core_appendLog, Db.core_updateTask]
  apply life_updateTask_same <;> intro _ <;> rfl

theorem maybeTriggerCompaction_spawned {pg : Postgres} {now : Time} {db db' : Db}
    {sessionId : Uuid} {taskIds : List Uuid}
    (h : maybeTriggerCompaction pg now db sessionId taskIds = .ok db')
    (hw : db.core.WellFormed) :
    Spawned db.core db'.core ∧ db'.cfg = db.cfg := by
  have hsame : (pure db : Except String Db) = .ok db' →
      Spawned db.core db'.core ∧ db'.cfg = db.cfg := by
    intro h
    obtain rfl : db = db' := by simpa [pure, Except.pure] using h
    exact ⟨Spawned.refl _, rfl⟩
  unfold maybeTriggerCompaction at h
  split at h
  · exact hsame h
  · split at h
    · exact hsame h
    · obtain ⟨_, _, h⟩ := bind_eq_ok.mp h
      obtain ⟨_, _, h⟩ := bind_eq_ok.mp h
      dsimp only at h
      split at h
      · exact hsame h
      · split at h
        · exact hsame h
        · exact queueCompaction_spawned hw h

theorem freezeOverride_spawned {s : Core} {db : Db} (h : Spawned s db.core) (t : Task)
    (freeze : Option Json) : Spawned s (db.freezeOverride t freeze).core := by
  cases freeze with
  | none => exact h
  | some state =>
    refine h.quiet (grow_updateTask fun _ => rfl) fun j => ?_
    rw [Db.freezeOverride, Db.core_updateTask]
    apply life_updateTask_same <;> intro _ <;> rfl

theorem openTurn_spawned {pg : Postgres} {now : Time} {roll : Rat} {db db' : Db} {t : Task}
    {p : Policy} {next : NextAction} (hw : db.core.WellFormed)
    (h : openTurn pg now roll db t p = .ok (db', next)) :
    Spawned db.core db'.core ∧ db'.cfg.policies = db.cfg.policies ∧
      ∃ spec, next = .callLlm spec := by
  have hrest : ∀ d : Db, Spawned db.core d.core → d.cfg.policies = db.cfg.policies →
      ∀ (o : Override) (spec : LlmSpec), (pure (d.freezeOverride t o.freeze, .callLlm spec) :
          Except String (Db × NextAction)) = .ok (db', next) →
        Spawned db.core db'.core ∧ db'.cfg.policies = db.cfg.policies ∧
          ∃ spec, next = .callLlm spec := by
    intro d hd hp o spec h
    obtain ⟨rfl, rfl⟩ := by simpa [pure, Except.pure] using h
    refine ⟨freezeOverride_spawned hd t _, ?_, spec, rfl⟩
    rw [← hp]
    cases o.freeze <;> rfl
  unfold openTurn at h
  dsimp only at h
  split at h
  · obtain ⟨d, hd, h⟩ := bind_eq_ok.mp h
    obtain ⟨o, _, h⟩ := bind_eq_ok.mp h
    obtain ⟨hs, hc⟩ := maybeTriggerCompaction_spawned hd hw
    exact hrest d hs (by rw [hc]; rfl) o _ h
  · obtain ⟨d, hd, h⟩ := bind_eq_ok.mp h
    obtain ⟨o, _, h⟩ := bind_eq_ok.mp h
    have hd' := Except.ok.inj hd
    exact hrest d (hd' ▸ Spawned.refl _) (hd' ▸ rfl) o _ h

/-- One task is taken up; the others stay, but for tasks that are added. -/
structure Dispatched (G : Label → Life → Prop) (db db' : Db) (i : Uuid) : Prop where
  grow : Grow db.core db'.core
  policies : db'.cfg.policies = db.cfg.policies
  own : Moves Life.Move G (db.core.life i) (db'.core.life i)
  others : ∀ j, j ≠ i → db'.core.life j = db.core.life j ∨
    Life.Move .born (db.core.life j) (db'.core.life j)

section Dispatch

variable {G : Label → Life → Prop} {db db' : Db} {t : Task}

theorem Dispatched.refl (db : Db) (i : Uuid) : Dispatched G db db i :=
  ⟨Grow.refl _, rfl, .refl, fun _ _ => .inl rfl⟩

theorem dispatched_error (pg : Postgres) (now : Time) (text : String) (ht : db.task? t.taskId = some t)
    (hr : t.status = .running) (ha : G .advance (db.core.life t.taskId)) :
    ∃ db' r, fnSubmitResult pg now db t.taskId (errorPayload text) = .ok (db', r) ∧
      Dispatched G db db' t.taskId := by
  obtain ⟨db', r, f, hok, hcore, hcfg, hf, -, hstep⟩ := submit_error pg now text ht hr
  have hown := advance_updateTask (s := db.core) ht hr hf hstep
  refine ⟨db', r, hok, hcore ▸ grow_updateTask hf, by rw [hcfg], ?_, fun j hj => .inl ?_⟩
  · rw [hcore]
    exact .one ha hown
  · rw [hcore]
    exact life_updateTask_ne hf hj

theorem submitQuietly_dispatched (pg : Postgres) (now : Time) (text : String) (ht : db.task? t.taskId = some t)
    (ha : G .advance (db.core.life t.taskId)) :
    Dispatched G db (submitQuietly pg now db t.taskId (errorPayload text)) t.taskId := by
  unfold submitQuietly
  by_cases hr : t.status = .running
  · obtain ⟨db', r, hok, hd⟩ := dispatched_error pg now text ht hr ha
    rw [hok]
    exact hd
  · have herr : ∃ e, fnSubmitResult pg now db t.taskId (errorPayload text) = .error e := by
      simp [fnSubmitResult, ht, hr]
    obtain ⟨e, he⟩ := herr
    rw [he]
    exact Dispatched.refl db _

theorem startTurn_life (now : Time) (ht : db.task? t.taskId = some t)
    (hs : t.status = .queued ∨ t.status = .running) :
    Grow db.core (db.startTurn t now).core ∧
      (db.startTurn t now).core.life t.taskId =
        ⟨some .running, t.stepCount, db.core.callsOf t.taskId⟩ ∧
      (∀ j, j ≠ t.taskId → (db.startTurn t now).core.life j = db.core.life j) ∧
      ∃ t', (db.startTurn t now).task? t.taskId = some t' ∧ t'.taskId = t.taskId ∧
        t'.status = .running ∧ t'.stepCount = t.stepCount := by
  unfold Db.startTurn
  by_cases hq : t.status = .queued
  · rw [if_pos hq, Db.core_updateTask]
    have hid : ∀ r : Task, ({ r with
        status := .running
        startedAt := r.startedAt.or (some now)
        updatedAt := now } : Task).ident = r.ident := fun _ => rfl
    refine ⟨grow_updateTask fun _ => rfl, life_updateTask hid ht,
      fun j hj => life_updateTask_ne hid hj, ?_⟩
    have ht' := task?_updateTask (s := db.core) (j := t.taskId) hid t.taskId
    rw [Db.task?_core, ht, Option.map_some, if_pos rfl] at ht'
    exact ⟨_, ht', rfl, rfl, rfl⟩
  · have hr : t.status = .running := hs.resolve_left hq
    rw [if_neg hq]
    refine ⟨Grow.refl _, ?_, fun _ _ => rfl, t, ht, rfl, hr, rfl⟩
    rw [life_of_task? (s := db.core) ht, hr]

theorem start_moves (ht : db.task? t.taskId = some t)
    (hs : t.status = .queued ∨ t.status = .running) (hG : ∀ l, G .start l) :
    Moves Life.Move G (db.core.life t.taskId)
      ⟨some .running, t.stepCount, db.core.callsOf t.taskId⟩ := by
  rw [life_of_task? (s := db.core) ht]
  rcases hs with hs | hs
  · rw [hs]
    exact .one (hG _) .start
  · rw [hs]
    exact .refl

theorem born_once {l m n : Life} (h : m = l ∨ Life.Move .born l m)
    (h' : n = m ∨ Life.Move .born m n) : n = l ∨ Life.Move .born l n := by
  rcases h with rfl | h
  · exact h'
  · rcases h' with rfl | h'
    · exact .inr h
    · cases h
      cases h'

theorem Dispatched.trans {db'' : Db} {i : Uuid} (h : Dispatched G db db' i)
    (h' : Dispatched G db' db'' i) : Dispatched G db db'' i :=
  ⟨h.grow.trans h'.grow, h'.policies.trans h.policies, h.own.trans h'.own,
    fun j hj => born_once (h.others j hj) (h'.others j hj)⟩

/-- The turn of a task is opened: the task runs, with as many steps as before. -/
theorem opened_dispatched {now : Time} (ht : db.task? t.taskId = some t)
    (hs : t.status = .queued ∨ t.status = .running) (hG : ∀ l, G .start l)
    (h : Spawned (db.startTurn t now).core db'.core)
    (hp : db'.cfg.policies = (db.startTurn t now).cfg.policies) (hw : db.core.WellFormed) :
    Dispatched G db db' t.taskId ∧
      db'.core.life t.taskId = ⟨some .running, t.stepCount, db.core.callsOf t.taskId⟩ ∧
      ∃ t', db'.task? t'.taskId = some t' ∧ t'.taskId = t.taskId ∧ t'.status = .running := by
  obtain ⟨hg, hlife, hne, t', ht', hti, hrun, hsteps⟩ := startTurn_life now ht hs
  have hcfg : (db.startTurn t now).cfg = db.cfg := by
    unfold Db.startTurn
    split <;> rfl
  have hlife' : db'.core.life t.taskId = ⟨some .running, t.stepCount, db.core.callsOf t.taskId⟩ :=
    (h.life_eq ht').trans hlife
  refine ⟨⟨hg.trans h.grow, by rw [hp, hcfg], ?_, fun j hj => ?_⟩, hlife', ?_⟩
  · rw [hlife']
    exact start_moves ht hs hG
  · have := h.lives j
    rwa [hne j hj] at this
  · obtain ⟨t'', ht'', hid, hst, -⟩ := h.task? (hg.wf hw) ht'
    have hti'' : t''.taskId = t.taskId := (congrArg (·.1) hid).trans hti
    exact ⟨t'', hti'' ▸ ht'', hti'', hst.trans hrun⟩

theorem halted_dispatched (hw : db.core.WellFormed) {now : Time} (ht : db.task? t.taskId = some t)
    (hs : t.status = .queued ∨ t.status = .running) (hG : ∀ l, G .start l)
    (ha : ∀ l : Life, l.calls.countP (·.live) = 0 → G .advance l)
    (hl : (db.core.callsOf t.taskId).countP (·.live) = 0) (e : String) (v : Json) :
    Dispatched G db ((db.startTurn t now).failTask t e v now) t.taskId := by
  obtain ⟨hopen, hlife, t', ht', hti, hrun⟩ :=
    opened_dispatched ht hs hG (Spawned.refl (db.startTurn t now).core) rfl hw
  have hf : ∀ r : Task, ({ r with
      status := .failed
      error := some e
      updatedAt := now } : Task).ident = r.ident := fun _ => rfl
  rw [hti] at ht'
  have hm := advance_updateTask (s := (db.startTurn t now).core) ht' hrun hf (.inr ⟨rfl, rfl⟩)
  refine hopen.trans ⟨?_, ?_, ?_, fun j hj => .inl ?_⟩
  · rw [Db.core_failTask]
    exact grow_updateTask hf
  · exact congrArg Config.policies (cfg_maybeCompleteSession _ _ _)
  · rw [Db.core_failTask]
    exact .one (ha _ (by rw [hlife]; exact hl)) hm
  · rw [Db.core_failTask]
    exact life_updateTask_ne hf hj

/-- What `fn_next_step` answers: the task is ended, or the model is to be asked within
the policy's bound. -/
theorem fnNextStep_dispatched {pg : Postgres} {now : Time} {roll : Rat} {next : NextAction}
    (hw : db.core.WellFormed) (ht : db.task? t.taskId = some t) (hG : ∀ l, G .start l)
    (ha : ∀ l : Life, l.calls.countP (·.live) = 0 → G .advance l)
    (hl : (db.core.callsOf t.taskId).countP (·.live) = 0)
    (h : fnNextStep pg now roll db t.taskId = .ok (db', next)) :
    Dispatched G db db' t.taskId ∧ ((∃ reason, next = .done reason) ∨
      ∃ spec p, next = .callLlm spec ∧ db.cfg.policy? t.agentId = some p ∧
        t.stepCount < p.maxSteps ∧
        db'.core.life t.taskId = ⟨some .running, t.stepCount, db.core.callsOf t.taskId⟩ ∧
        ∃ t', db'.task? t'.taskId = some t' ∧ t'.taskId = t.taskId ∧ t'.status = .running) := by
  unfold fnNextStep at h
  simp only [ht] at h
  split at h
  · cases h
  · rename_i hst
    have hs : t.status = .queued ∨ t.status = .running := by
      by_cases hq : t.status = .queued
      · exact .inl hq
      · exact .inr (by_contra fun hr => hst ⟨hq, hr⟩)
    have hcfg : (db.startTurn t now).cfg = db.cfg := by
      unfold Db.startTurn
      split <;> rfl
    split at h
    · obtain ⟨rfl, rfl⟩ := by simpa using h
      exact ⟨halted_dispatched hw ht hs hG ha hl _ _, .inl ⟨_, rfl⟩⟩
    · cases h
    · rename_i p _ hp
      split at h
      · obtain ⟨rfl, rfl⟩ := by simpa using h
        exact ⟨halted_dispatched hw ht hs hG ha hl _ _, .inl ⟨_, rfl⟩⟩
      · rename_i hlt
        obtain ⟨hgw, -⟩ := startTurn_life now ht hs
        obtain ⟨hsp, hpol, spec, rfl⟩ := openTurn_spawned (hgw.wf hw) h
        obtain ⟨hd, hlife, ht'⟩ := opened_dispatched ht hs hG hsp hpol hw
        rw [hcfg] at hp
        exact ⟨hd, .inr ⟨spec, p, rfl, hp, by omega, hlife, ht'⟩⟩

theorem kind_of_buildLlmHttp (c : Config) (spec : LlmSpec) :
    Returns (fun o => o.kind = .llm) (buildLlmHttp c spec) := by
  unfold buildLlmHttp
  split
  · exact returns_error _
  · split
    · exact returns_error _
    · split
      · exact returns_error _
      · dsimp only
        split
        · exact returns_error _
        · exact returns_seq fun body => returns_pure rfl

theorem asked_dispatched {n m : Nat} {cs : List CallLife} {i : Uuid} {o : Outbound} {now : Time}
    (ht : ∃ t ∈ db.tasks, t.taskId = i) (hlife : db.core.life i = ⟨some .running, n, cs⟩)
    (hl : cs.countP (·.live) = 0) (hn : n < m) (ho : o.kind = .llm) (hG : ∀ l, G (.ask m) l) :
    Dispatched G db (db.insertCall i (.outbound o) now) i := by
  have hcalls : db.core.callsOf i = cs := congrArg Life.calls hlife
  refine ⟨grow_insertCall ht, rfl, ?_, fun j hj => .inl ?_⟩
  · rw [Db.core_insertCall, life_insertCall, hlife, hcalls, if_pos rfl]
    exact .one (hG _) (.ask hl hn (by simp [Request.isLlm, ho]) rfl)
  · rw [Db.core_insertCall, life_insertCall, if_neg hj, List.append_nil]
    rfl

theorem dispatchTask_dispatched {pg : Postgres} {now : Time} {roll : Uuid → Rat} {u : Task}
    {queued : Option Uuid} (hw : db.core.WellFormed) (hu : db.task? t.taskId = some u)
    (hag : u.agentId = t.agentId) (hG : ∀ l, G .start l)
    (ha : ∀ l : Life, l.calls.countP (·.live) = 0 → G .advance l)
    (hask : ∀ p, db.cfg.policy? t.agentId = some p → ∀ l, G (.ask p.maxSteps) l)
    (hl : (db.core.callsOf t.taskId).countP (·.live) = 0)
    (h : dispatchTask pg now roll db t = .ok (db', queued)) :
    Dispatched G db db' t.taskId := by
  obtain ⟨-, hut⟩ := mem_of_task? (s := db.core) hu
  rw [← hut] at hu hl ⊢
  have hadv : G .advance (db.core.life u.taskId) := ha _ hl
  unfold dispatchTask at h
  rw [← hut] at h
  split at h
  · obtain ⟨rfl, -⟩ := by simpa using h
    exact Dispatched.refl db _
  · split at h
    · obtain ⟨rfl, -⟩ := by simpa using h
      exact submitQuietly_dispatched pg now _ hu hadv
    · rename_i heq
      obtain ⟨rfl, -⟩ := by simpa using h
      exact (fnNextStep_dispatched hw hu hG ha hl heq).1
    · rename_i d spec heq
      obtain ⟨hd, hnext⟩ := fnNextStep_dispatched hw hu hG ha hl heq
      obtain ⟨spec', p, hspec, hp, hlt, hlife, t', ht', hti, hrun⟩ :=
        hnext.resolve_left (by rintro ⟨r, hr⟩; cases hr)
      split at h
      · rename_i o ho
        obtain ⟨rfl, -⟩ := by simpa using h
        have hex : ∃ x ∈ d.tasks, x.taskId = u.taskId :=
          ⟨t', (mem_of_task? (s := d.core) ht').1, hti⟩
        exact hd.trans (asked_dispatched hex hlife hl hlt (kind_of_buildLlmHttp _ _ o ho)
          (hask p (hag ▸ hp)))
      · rename_i e _
        have hl' : (d.core.life u.taskId).calls.countP (·.live) = 0 := by
          rw [hlife]
          exact hl
        rw [← hti] at hl' h
        obtain ⟨d', r, hok, hd'⟩ := dispatched_error pg now e ht' hrun (ha _ hl')
        rw [hok] at h
        obtain ⟨rfl, -⟩ := by simpa using h
        rw [hti] at hd'
        exact hd.trans hd'

end Dispatch

theorem Dispatched.evolves {G : Uuid → Label → Life → Prop} {db db' : Db} {i : Uuid}
    (h : Dispatched (G i) db db' i) (hb : ∀ j l, G j .born l) : Evolves G db.core db'.core := by
  refine ⟨h.grow, fun j => ?_⟩
  by_cases hj : j = i
  · rw [hj]
    exact h.own
  · rcases h.others j hj with he | hm
    · rw [he]
      exact .refl
    · exact .one (hb j _) hm

/-- The tasks a dispatch is still to take up: each once, and without a live call. -/
structure Ready (db : Db) (ts : List Task) : Prop where
  nodup : (ts.map (·.taskId)).Nodup
  rows : ∀ t ∈ ts, ∃ u, db.task? t.taskId = some u ∧ u.agentId = t.agentId
  idle : ∀ t ∈ ts, (db.core.callsOf t.taskId).countP (·.live) = 0

theorem Core.Grow.task? {s s' : Core} (h : Grow s s') (hw : s.WellFormed) {i : Uuid} {t : Task}
    (ht : s.task? i = some t) : ∃ t', s'.task? i = some t' ∧ t'.ident = t.ident := by
  obtain ⟨htm, rfl⟩ := mem_of_task? ht
  obtain ⟨t', htm', hid⟩ := h.tasks.kept htm
  have hti : t'.taskId = t.taskId := congrArg (·.1) hid
  exact ⟨t', hti ▸ task?_of_mem (h.wf hw) htm', hid⟩

theorem Ready.tail {G : Label → Life → Prop} {db db' : Db} {t : Task} {ts : List Task}
    (h : Ready db (t :: ts)) (hw : db.core.WellFormed) (hd : Dispatched G db db' t.taskId) :
    Ready db' ts := by
  have hnd := h.nodup
  simp only [List.map_cons, List.nodup_cons, List.mem_map] at hnd
  refine ⟨hnd.2, fun u hu => ?_, fun u hu => ?_⟩
  · obtain ⟨r, hr, hag⟩ := h.rows u (List.mem_cons_of_mem t hu)
    obtain ⟨r', hr', hid⟩ := hd.grow.task? hw hr
    exact ⟨r', hr', (congrArg (·.2.2.1) hid).trans hag⟩
  · have hne : u.taskId ≠ t.taskId := fun he => hnd.1 ⟨u, hu, he⟩
    obtain ⟨r, hr, -⟩ := h.rows u (List.mem_cons_of_mem t hu)
    have hidle := h.idle u (List.mem_cons_of_mem t hu)
    rcases hd.others u.taskId hne with he | hm
    · have hc : db'.core.callsOf u.taskId = db.core.callsOf u.taskId := congrArg Life.calls he
      rw [hc]
      exact hidle
    · rw [life_of_task? (s := db.core) hr] at hm
      cases hm

section DispatchLoop

variable {G : Uuid → Label → Life → Prop} {pg : Postgres} {now : Time} {roll : Uuid → Rat}

theorem dispatchLoop_evolves (hb : ∀ j l, G j .born l) (hs : ∀ j l, G j .start l)
    (ha : ∀ j (l : Life), l.calls.countP (·.live) = 0 → G j .advance l) {ts : List Task} {n : Nat}
    {db db' : Db} {out : List (Uuid × Uuid)} (hw : db.core.WellFormed) (hr : Ready db ts)
    (hask : ∀ t ∈ ts, ∀ p, db.cfg.policy? t.agentId = some p →
      ∀ l, G t.taskId (.ask p.maxSteps) l)
    (h : dispatchLoop pg now roll n ts db = .ok (db', out)) :
    Evolves G db.core db'.core ∧ db'.cfg.policies = db.cfg.policies := by
  induction ts generalizing n db out with
  | nil =>
    cases n <;>
    · obtain ⟨rfl, -⟩ := by simpa [dispatchLoop] using h
      exact ⟨Evolves.refl _, rfl⟩
  | cons t ts ih =>
    cases n with
    | zero =>
      obtain ⟨rfl, -⟩ := by simpa [dispatchLoop] using h
      exact ⟨Evolves.refl _, rfl⟩
    | succ n =>
      rw [dispatchLoop] at h
      obtain ⟨⟨d, queued⟩, hd, h⟩ := bind_eq_ok.mp h
      obtain ⟨u, hu, hag⟩ := hr.rows t (by simp)
      have hdis := dispatchTask_dispatched (G := G t.taskId) hw hu hag (hs _) (ha _)
        (hask t (by simp)) (hr.idle t (by simp)) hd
      have hwd := hdis.grow.wf hw
      have hask' : ∀ t ∈ ts, ∀ p, d.cfg.policy? t.agentId = some p →
          ∀ l, G t.taskId (.ask p.maxSteps) l := by
        intro x hx p hp
        apply hask x (List.mem_cons_of_mem t hx) p
        rw [← hp, Config.policy?, Config.policy?, hdis.policies]
      have hready := hr.tail hw hdis
      cases queued with
      | none =>
        obtain ⟨he, hp⟩ := ih hwd hready hask' h
        exact ⟨(hdis.evolves hb).trans he, hp.trans hdis.policies⟩
      | some id =>
        obtain ⟨⟨d', out'⟩, hloop, h⟩ := bind_eq_ok.mp h
        obtain ⟨rfl, -⟩ := by simpa [pure, Except.pure] using h
        obtain ⟨he, hp⟩ := ih hwd hready hask' hloop
        exact ⟨(hdis.evolves hb).trans he, hp.trans hdis.policies⟩

theorem countP_live_of_hasLiveCall {db : Db} {i : Uuid} (h : db.hasLiveCall i = false) :
    (db.core.callsOf i).countP (·.live) = 0 := by
  rw [List.countP_eq_zero]
  intro c hc hlive
  obtain ⟨d, hd, rfl⟩ := List.mem_map.mp hc
  obtain ⟨hdm, hdt⟩ := List.mem_filter.mp hd
  simp only [Db.hasLiveCall, List.any_eq_false, decide_eq_true_eq, not_and] at h
  exact h d hdm (by simpa using hdt) hlive

theorem dispatchable_ready {db : Db} (hw : db.core.WellFormed) (locked : List Uuid) :
    Ready db (dispatchable db locked) := by
  have hmem : ∀ t ∈ dispatchable db locked, t ∈ db.tasks ∧ db.hasLiveCall t.taskId = false := by
    intro t ht
    have := mem_sortBy.mp ht
    simp only [List.mem_filter, decide_eq_true_eq] at this
    exact ⟨this.1, by simpa using this.2.2.1⟩
  refine ⟨?_, fun t ht => ?_, fun t ht => countP_live_of_hasLiveCall (hmem t ht).2⟩
  · have hperm : (dispatchable db locked).Perm _ := List.perm_insertionSort _ _
    refine ((hperm.map (·.taskId)).nodup_iff).mpr ?_
    exact hw.taskIds.sublist (List.filter_sublist.map _)
  · exact ⟨t, task?_of_mem (s := db.core) hw (hmem t ht).1, rfl⟩

theorem fnDispatchTasks_evolves {db db' : Db} {locked : List Uuid} {out : List (Uuid × Uuid)}
    (hw : db.core.WellFormed) (hb : ∀ j l, G j .born l) (hs : ∀ j l, G j .start l)
    (ha : ∀ j (l : Life), l.calls.countP (·.live) = 0 → G j .advance l)
    (hask : ∀ t ∈ db.tasks, ∀ p, db.cfg.policy? t.agentId = some p →
      ∀ l, G t.taskId (.ask p.maxSteps) l)
    (h : fnDispatchTasks pg now roll locked db = .ok (db', out)) : Evolves G db.core db'.core := by
  refine (dispatchLoop_evolves hb hs ha hw (dispatchable_ready hw locked) ?_ h).1
  intro t ht
  have := mem_sortBy.mp ht
  exact hask t (List.mem_filter.mp this).1

end DispatchLoop


end Allgres
