import Allgres.Writes

/-! A session is open as long as one of its tasks is not over, and a task that is over keeps what
it came to. -/

namespace Allgres

open Raise Rows Runs Allgres.Core

/-- Some task of a session is not over. -/
def Working (tasks : List Task) (sid : Uuid) : Prop :=
  ∃ t ∈ tasks, t.sessionId = sid ∧ t.status.finished = false

structure Agrees (db : Db) : Prop where
  ids : ∀ s ∈ db.sessions, s.sessionId < db.nextId
  status : ∀ s ∈ db.sessions, s.status = .open ↔ Working db.tasks s.sessionId

/-- The agreement may fail in one place: a session without work is still open. -/
structure Pending (sid : Uuid) (db : Db) : Prop where
  ids : ∀ s ∈ db.sessions, s.sessionId < db.nextId
  working : ∀ s ∈ db.sessions, Working db.tasks s.sessionId → s.status = .open
  others : ∀ s ∈ db.sessions, s.sessionId ≠ sid → s.status = .open → Working db.tasks s.sessionId

section Agreement

variable {db db' : Db} {now : Time}

theorem Agrees.of_same (h : Agrees db) (hn : db.nextId ≤ db'.nextId)
    (hs : ∀ s' ∈ db'.sessions, ∃ s ∈ db.sessions, s.sessionId = s'.sessionId ∧ s.status = s'.status)
    (hw : ∀ sid, Working db'.tasks sid ↔ Working db.tasks sid) : Agrees db' := by
  refine ⟨fun s' hs' => ?_, fun s' hs' => ?_⟩
  · obtain ⟨s, hsm, hid, -⟩ := hs s' hs'
    rw [← hid]
    exact (h.ids s hsm).trans_le hn
  · obtain ⟨s, hsm, hid, hst⟩ := hs s' hs'
    rw [hw, ← hid, ← hst]
    exact h.status s hsm

theorem working_update {p : Task → Bool} {f : Task → Task} {tasks : List Task}
    (h : ∀ r ∈ tasks, p r = true →
      (f r).sessionId = r.sessionId ∧ (f r).status.finished = r.status.finished) (sid : Uuid) :
    Working (update p f tasks) sid ↔ Working tasks sid := by
  constructor
  · rintro ⟨t, ht, hsid, hu⟩
    obtain ⟨r, hr, rfl⟩ := mem_update.mp ht
    by_cases hp : p r = true
    · rw [if_pos hp] at hsid hu
      obtain ⟨hs, hf⟩ := h r hr hp
      exact ⟨r, hr, hs ▸ hsid, hf ▸ hu⟩
    · rw [if_neg hp] at hsid hu
      exact ⟨r, hr, hsid, hu⟩
  · rintro ⟨r, hr, hsid, hu⟩
    refine ⟨if p r then f r else r, mem_update.mpr ⟨r, hr, rfl⟩, ?_⟩
    by_cases hp : p r = true
    · rw [if_pos hp]
      obtain ⟨hs, hf⟩ := h r hr hp
      exact ⟨hs.trans hsid, hf.trans hu⟩
    · rw [if_neg hp]
      exact ⟨hsid, hu⟩

/-- A row that ends takes work from its own session only. -/
theorem working_of_ended {p : Task → Bool} {f : Task → Task} {tasks : List Task} {sid : Uuid}
    (h : ∀ r ∈ tasks, p r = true →
      (f r).sessionId = r.sessionId ∧ r.sessionId = sid ∧ (f r).status.finished = true) :
    (∀ i, Working (update p f tasks) i → Working tasks i) ∧
      ∀ i, i ≠ sid → Working tasks i → Working (update p f tasks) i := by
  constructor
  · rintro i ⟨t, ht, hsid, hu⟩
    obtain ⟨r, hr, rfl⟩ := mem_update.mp ht
    by_cases hp : p r = true
    · rw [if_pos hp] at hu
      rw [(h r hr hp).2.2] at hu
      cases hu
    · rw [if_neg hp] at hsid hu
      exact ⟨r, hr, hsid, hu⟩
  · rintro i hi ⟨r, hr, hsid, hu⟩
    have hp : ¬ p r = true := fun hp => hi (hsid ▸ (h r hr hp).2.1)
    exact ⟨r, mem_update.mpr ⟨r, hr, if_neg hp⟩, hsid, hu⟩

theorem Agrees.ended {sid : Uuid} {p : Task → Bool} {f : Task → Task} (h : Agrees db)
    (hf : ∀ r ∈ db.tasks, p r = true →
      (f r).sessionId = r.sessionId ∧ r.sessionId = sid ∧ (f r).status.finished = true) :
    Pending sid { db with tasks := update p f db.tasks } := by
  obtain ⟨hless, hmore⟩ := working_of_ended hf
  exact ⟨h.ids, fun s hs hw => (h.status s hs).mpr (hless _ hw),
    fun s hs hne ho => hmore _ hne ((h.status s hs).mp ho)⟩

/-- The answer of the completed root task that was updated last. -/
def lastAnswer (db : Db) (sid : Uuid) : Option String :=
  (sortDesc (·.updatedAt) ((db.tasks.filter (·.sessionId = sid)).filter fun t =>
    t.status = .completed ∧ t.parentTaskId = none)).head?.bind fun t =>
      t.output.bind fun o => o.text "answer"

def someFailed (db : Db) (sid : Uuid) : Bool :=
  (db.tasks.filter (·.sessionId = sid)).any (·.status = .failed)

/-- How an open session is closed. -/
def closeSession (db : Db) (sid : Uuid) (now : Time) (s : Session) : Session :=
  if someFailed db sid ∧ lastAnswer db sid = none then
    { s with status := .failed, completedAt := some now }
  else
    { s with
      status := .completed
      finalAnswer := (lastAnswer db sid).or s.finalAnswer
      completedAt := some now }

theorem maybeCompleteSession_cases (db : Db) (sid : Uuid) (now : Time) :
    (Working db.tasks sid ∧ db.maybeCompleteSession sid now = db) ∨
      (¬ Working db.tasks sid ∧ db.maybeCompleteSession sid now =
        { db with
          sessions := update (fun s => decide (s.sessionId = sid ∧ s.status = .open))
            (closeSession db sid now) db.sessions }) := by
  have hiff : (db.tasks.filter (·.sessionId = sid)).any (!·.status.finished) = true ↔
      Working db.tasks sid := by
    simp [Working]
  unfold Db.maybeCompleteSession
  dsimp only
  split
  · rename_i hany
    exact .inl ⟨hiff.mp hany, rfl⟩
  · rename_i hany
    exact .inr ⟨fun hw => hany (hiff.mpr hw), rfl⟩

theorem closeSession_id (db : Db) (sid : Uuid) (now : Time) (s : Session) :
    (closeSession db sid now s).sessionId = s.sessionId := by
  unfold closeSession
  split <;> rfl

theorem closeSession_status (db : Db) (sid : Uuid) (now : Time) (s : Session) :
    (closeSession db sid now s).status ≠ .open := by
  unfold closeSession
  split <;> simp

/-- `maybe_complete_session` settles the one session that was left open. -/
theorem Pending.complete {sid : Uuid} (h : Pending sid db) :
    Agrees (db.maybeCompleteSession sid now) := by
  rcases maybeCompleteSession_cases db sid now with ⟨hwork, he⟩ | ⟨hidle, he⟩
  · rw [he]
    refine ⟨h.ids, fun s hs => ⟨fun ho => ?_, h.working s hs⟩⟩
    by_cases hsid : s.sessionId = sid
    · rw [hsid]
      exact hwork
    · exact h.others s hs hsid ho
  · rw [he]
    have hid : ∀ s : Session, (if decide (s.sessionId = sid ∧ s.status = .open) then
        closeSession db sid now s else s).sessionId = s.sessionId := by
      intro s
      split_ifs
      · exact closeSession_id db sid now s
      · rfl
    refine ⟨fun s' hs' => ?_, fun s' hs' => ?_⟩
    · obtain ⟨s, hs, rfl⟩ := mem_update.mp hs'
      rw [hid]
      exact h.ids s hs
    · obtain ⟨s, hs, rfl⟩ := mem_update.mp hs'
      rw [hid]
      by_cases hsid : s.sessionId = sid
      · rw [hsid]
        refine iff_of_false ?_ hidle
        by_cases ho : s.status = .open
        · rw [if_pos (by simp [ho])]
          exact closeSession_status db sid now s
        · rw [if_neg (by simp [ho])]
          exact ho
      · rw [if_neg (by simp [hsid])]
        exact ⟨h.others s hs hsid, h.working s hs⟩

/-- A queued task is added to a session that is open. -/
theorem Agrees.insertTask {t : Task} (h : Agrees db) (hs : Working db.tasks t.sessionId) :
    Agrees (db.insertTask t) := by
  refine ⟨fun s hsm => Nat.lt_succ_of_lt (h.ids s hsm), fun s hsm => ?_⟩
  rw [h.status s hsm]
  constructor
  · rintro ⟨r, hr, hsid, hu⟩
    exact ⟨r, List.mem_append_left _ hr, hsid, hu⟩
  · rintro ⟨r, hr, hsid, hu⟩
    rcases List.mem_append.mp hr with hr | hr
    · exact ⟨r, hr, hsid, hu⟩
    · obtain rfl := List.mem_singleton.mp hr
      rw [← hsid]
      exact hs

theorem fnCreateSession_eq {agentId : Uuid} {goal : Option String}
    {projectId scheduleId : Option Uuid} {ids : Uuid × Uuid}
    (h : fnCreateSession now db agentId goal projectId scheduleId = .ok (db', ids)) :
    ∃ goal', db' = (db.insertSession { sessionId := 0, agentId, projectId, goal := goal', scheduleId }).startTask
      db.nextId agentId goal' now := by
  unfold fnCreateSession at h
  obtain ⟨_, _, h⟩ := bind_eq_ok.mp h
  obtain ⟨_, _, h⟩ := bind_eq_ok.mp h
  obtain ⟨_, _, h⟩ := bind_eq_ok.mp h
  obtain ⟨rfl, -⟩ := Prod.mk.inj (Except.ok.inj h)
  exact ⟨_, rfl⟩

theorem fnContinueSession_eq {sid taskId : Uuid} {message : Option String}
    (h : fnContinueSession now db sid message = .ok (db', taskId)) :
    ∃ s goal, db.session? sid = some s ∧
      (∀ t ∈ db.tasks, t.sessionId = sid → t.parentTaskId = none → unfinished t = false) ∧
      db' = (db.updateSession sid fun s => { s with status := .open, completedAt := none }).startTask
        sid s.agentId goal now := by
  unfold fnContinueSession at h
  obtain ⟨_, _, h⟩ := bind_eq_ok.mp h
  split at h
  · cases h
  · rename_i s hs
    obtain ⟨_, _, h⟩ := bind_eq_ok.mp h
    obtain ⟨_, hroots, h⟩ := bind_eq_ok.mp h
    obtain ⟨rfl, -⟩ := Prod.mk.inj (Except.ok.inj h)
    rw [raiseIf_eq_ok] at hroots
    exact ⟨s, _, hs, by simpa using hroots, rfl⟩

theorem Agrees.opened {agentId : Uuid} {goal : Option String} {projectId scheduleId : Option Uuid}
    {ids : Uuid × Uuid} (h : Agrees db)
    (hc : fnCreateSession now db agentId goal projectId scheduleId = .ok (db', ids)) :
    Agrees db' := by
  obtain ⟨goal', rfl⟩ := fnCreateSession_eq hc
  constructor
  · intro s hs
    rcases List.mem_append.mp hs with hs | hs
    · have := h.ids s hs
      exact Nat.lt_of_lt_of_le this (Nat.le_add_right _ 2)
    · obtain rfl := List.mem_singleton.mp hs
      exact Nat.lt_add_of_pos_right (by decide : 0 < 2)
  · intro s hs
    rcases List.mem_append.mp hs with hs | hs
    · rw [h.status s hs]
      constructor
      · rintro ⟨r, hr, hsid, hu⟩
        exact ⟨r, List.mem_append_left _ hr, hsid, hu⟩
      · rintro ⟨r, hr, hsid, hu⟩
        rcases List.mem_append.mp hr with hr | hr
        · exact ⟨r, hr, hsid, hu⟩
        · obtain rfl := List.mem_singleton.mp hr
          have hlt := h.ids s hs
          rw [← hsid] at hlt
          exact absurd hlt (Nat.lt_irrefl _)
    · obtain rfl := List.mem_singleton.mp hs
      exact iff_of_true rfl ⟨_, List.mem_append_right _ (List.mem_singleton_self _), rfl, rfl⟩

theorem Agrees.continued {sid taskId : Uuid} {message : Option String} (h : Agrees db)
    (hc : fnContinueSession now db sid message = .ok (db', taskId)) : Agrees db' := by
  obtain ⟨s₀, goal, -, -, rfl⟩ := fnContinueSession_eq hc
  have hid : ∀ s : Session, (if decide (s.sessionId = sid) then
      { s with status := .open, completedAt := none } else s).sessionId = s.sessionId := by
    intro s
    split_ifs <;> rfl
  constructor
  · intro s' hs'
    obtain ⟨s, hs, rfl⟩ := mem_update.mp hs'
    rw [hid]
    exact Nat.lt_succ_of_lt (h.ids s hs)
  · intro s' hs'
    obtain ⟨s, hs, rfl⟩ := mem_update.mp hs'
    rw [hid]
    by_cases hsid : s.sessionId = sid
    · rw [if_pos (decide_eq_true hsid)]
      exact iff_of_true rfl ⟨_, List.mem_append_right _ (List.mem_singleton_self _), hsid.symm, rfl⟩
    · rw [if_neg (by simp [hsid]), h.status s hs]
      constructor
      · rintro ⟨r, hr, hrs, hu⟩
        exact ⟨r, List.mem_append_left _ hr, hrs, hu⟩
      · rintro ⟨r, hr, hrs, hu⟩
        rcases List.mem_append.mp hr with hr | hr
        · exact ⟨r, hr, hrs, hu⟩
        · obtain rfl := List.mem_singleton.mp hr
          exact absurd hrs.symm hsid

theorem record_sessions (db : Db) (t : Task) (s : Step) (now : Time) :
    ∀ s' ∈ (db.record t s now).sessions, ∃ r ∈ db.sessions,
      r.sessionId = s'.sessionId ∧ r.status = s'.status ∧ r.finalAnswer = s'.finalAnswer := by
  have hmark : ∀ d : Db, ∀ type name, (markCapabilitySelected d t.taskId type name).sessions =
      d.sessions := by
    intro d type name
    unfold markCapabilitySelected
    dsimp only
    split <;> rfl
  have hset : ∀ d : Db, d.sessions = db.sessions → ∀ s' ∈ (d.setCompacted s.compacted).sessions,
      ∃ r ∈ db.sessions, r.sessionId = s'.sessionId ∧ r.status = s'.status ∧
        r.finalAnswer = s'.finalAnswer := by
    intro d hd s' hs'
    unfold Db.setCompacted at hs'
    split at hs'
    · exact ⟨s', hd ▸ hs', rfl, rfl, rfl⟩
    · obtain ⟨r, hr, rfl⟩ := mem_update.mp hs'
      refine ⟨r, hd ▸ hr, ?_⟩
      split_ifs <;> exact ⟨rfl, rfl, rfl⟩
  unfold Db.record
  dsimp only
  apply hset
  split
  · rfl
  · exact hmark _ _ _

theorem record_tasks (db : Db) (t : Task) (s : Step) (now : Time) :
    (db.record t s now).tasks = db.tasks :=
  congrArg Core.tasks (Db.core_record db t s now)

theorem record_nextId (db : Db) (t : Task) (s : Step) (now : Time) :
    (db.record t s now).nextId = db.nextId :=
  congrArg Core.nextId (Db.core_record db t s now)

theorem Agrees.record (h : Agrees db) (t : Task) (s : Step) (now : Time) :
    Agrees (db.record t s now) := by
  refine h.of_same (record_nextId db t s now).ge (fun s' hs' => ?_) fun sid => ?_
  · obtain ⟨r, hr, hid, hst, -⟩ := record_sessions db t s now s' hs'
    exact ⟨r, hr, hid, hst⟩
  · rw [record_tasks]

/-- A running task that stays in a session without being over. -/
theorem Agrees.bump {t : Task} {f : Task → Task} (h : Agrees db)
    (hw : (db.tasks.map (·.taskId)).Nodup) (ht : t ∈ db.tasks) (hr : t.status = .running)
    (hf : ∀ r, (f r).ident = r.ident) (hs : (f t).status.finished = false) :
    Agrees (db.bump t.taskId now f) := by
  refine h.of_same (Nat.le_refl _) (fun s hs => ⟨s, hs, rfl, rfl⟩) fun sid => ?_
  refine working_update (fun r hrm hp => ?_) sid
  have hrt : r = t := eq_of_key Task.taskId hw hrm ht (by simpa using hp)
  rw [hrt]
  exact ⟨congrArg (·.2.1) (hf t), hs.trans (finished_of_running hr).symm⟩

theorem Agrees.finish {t : Task} (h : Agrees db) (now : Time) (f : Task → Task)
    (hw : (db.tasks.map (·.taskId)).Nodup) (ht : t ∈ db.tasks)
    (hf : ∀ r, (f r).ident = r.ident) (hs : (f t).status.finished = true) :
    Pending t.sessionId (db.bump t.taskId now f) := by
  refine h.ended fun r hrm hp => ?_
  have hrt : r = t := eq_of_key Task.taskId hw hrm ht (by simpa using hp)
  rw [hrt]
  exact ⟨congrArg (·.2.1) (hf t), rfl, hs⟩

theorem Pending.updateSession {sid : Uuid} {f : Session → Session} (h : Pending sid db)
    (hf : ∀ s, (f s).sessionId = s.sessionId ∧ (f s).status = s.status) (i : Uuid) :
    Pending sid (db.updateSession i f) := by
  have hid : ∀ s : Session, (if decide (s.sessionId = i) then f s else s).sessionId = s.sessionId ∧
      (if decide (s.sessionId = i) then f s else s).status = s.status := by
    intro s
    split_ifs
    · exact hf s
    · exact ⟨rfl, rfl⟩
  refine ⟨fun s' hs' => ?_, fun s' hs' hw => ?_, fun s' hs' hne ho => ?_⟩
  · obtain ⟨s, hs, rfl⟩ := mem_update.mp hs'
    rw [(hid s).1]
    exact h.ids s hs
  · obtain ⟨s, hs, rfl⟩ := mem_update.mp hs'
    rw [(hid s).1] at hw
    rw [(hid s).2]
    exact h.working s hs hw
  · obtain ⟨s, hs, rfl⟩ := mem_update.mp hs'
    rw [(hid s).1] at hne ⊢
    rw [(hid s).2] at ho
    exact h.others s hs hne ho

theorem Agrees.applyNext {pg : Postgres} {T : Turn} {t : Task} {next : Next} (h : Agrees db)
    (hw : (db.tasks.map (·.taskId)).Nodup) (hn : ∀ t ∈ db.tasks, t.taskId < db.nextId)
    (ht : t ∈ db.tasks) (hr : t.status = .running) (hT : T.task = t) (hnext : T.Asks pg next) :
    Agrees (db.applyNext t next now) := by
  have hwork : Working db.tasks t.sessionId := ⟨t, ht, rfl, finished_of_running hr⟩
  cases next with
  | again => exact h.bump hw ht hr (fun _ => rfl) (finished_of_running hr)
  | finalAnswer answer =>
    have hf := h.finish now (fun r => { r with
      status := .completed
      output := some (.object [("answer", .str answer)]) }) hw ht (fun _ => rfl) rfl
    have hs := hf.updateSession (f := fun s => { s with finalAnswer := some answer })
      (fun _ => ⟨rfl, rfl⟩) t.sessionId
    exact hs.complete
  | fail e =>
    have hf := h.finish now (fun r => { r with status := .failed, error := some e }) hw ht
      (fun _ => rfl) rfl
    exact hf.complete
  | awaitHuman reason =>
    have hb : Agrees (db.bump t.taskId now fun r => { r with status := .waitingHuman }) :=
      h.bump hw ht hr (fun _ => rfl) rfl
    exact hb.of_same (Nat.le_succ _) (fun s hs => ⟨s, hs, rfl, rfl⟩) fun _ => Iff.rfl
  | awaitChildren => exact h.bump hw ht hr (fun _ => rfl) rfl
  | delegate child wait =>
    obtain ⟨v, target, rfl⟩ : ∃ v target, child = T.child v target := by
      cases hnext
      exact ⟨_, _, rfl⟩
    have hc : (T.child v target).sessionId = t.sessionId := congrArg (·.sessionId) hT
    have hi : Agrees (db.insertTask (T.child v target)) := h.insertTask (hc ▸ hwork)
    have hnd : ((db.insertTask (T.child v target)).tasks.map (·.taskId)).Nodup := by
      simp only [Db.insertTask, List.map_append, List.map_cons, List.map_nil]
      refine List.nodup_append.mpr ⟨hw, by simp, fun a ha b hb hab => ?_⟩
      obtain ⟨r, hr, rfl⟩ := List.mem_map.mp ha
      obtain rfl := List.mem_singleton.mp hb
      exact absurd hab (Nat.ne_of_lt (hn r hr))
    have htm : t ∈ (db.insertTask (T.child v target)).tasks := List.mem_append_left _ ht
    cases wait with
    | true => exact hi.bump hnd htm hr (fun _ => rfl) (finished_of_running hr)
    | false =>
      obtain ⟨hids, hopen, hothers⟩ := hi.finish now (fun r => { r with
        status := .completed
        output := some (.object [("child_task_id", .str (uuidText db.nextId))]) })
        hnd htm (fun _ => rfl) rfl
      refine ⟨hids, fun s hs => ⟨fun ho => ?_, hopen s hs⟩⟩
      by_cases hsid : s.sessionId = t.sessionId
      · have hne : db.nextId ≠ t.taskId := Nat.ne_of_gt (hn t ht)
        refine ⟨{ T.child v target with taskId := db.nextId }, mem_update.mpr ⟨_,
          List.mem_append_right _ (List.mem_singleton_self _), if_neg (by simpa using hne)⟩, ?_, rfl⟩
        exact hc.trans hsid.symm
      · exact hothers s hs hsid ho
  | queue req =>
    have hi : Agrees (db.insertCall t.taskId req now) :=
      h.of_same (Nat.le_succ _) (fun s hs => ⟨s, hs, rfl, rfl⟩) fun _ => Iff.rfl
    exact hi.bump hw ht hr (fun _ => rfl) (finished_of_running hr)

theorem cancelTasks_sessions (now : Time) (said : String) (ts : List Task) (db : Db) :
    (ts.foldl (Db.cancelTask now said) db).sessions = db.sessions ∧
      (ts.foldl (Db.cancelTask now said) db).nextId = db.nextId ∧
      (ts.foldl (Db.cancelTask now said) db).tasks.map Task.frame = db.tasks.map Task.frame := by
  induction ts generalizing db with
  | nil => exact ⟨rfl, rfl, rfl⟩
  | cons t ts ih =>
    obtain ⟨hs, hn, ht⟩ := ih (db.cancelTask now said t)
    rw [List.foldl_cons]
    refine ⟨hs, hn, ht.trans ?_⟩
    exact map_ident_update (f := fun r : Task =>
      { r with
        status := .cancelled
        error := some "operator_cancelled"
        stepCount := r.stepCount + 1
        updatedAt := now }) (fun _ => rfl) db.tasks

/-- Cancelling takes all work from one session and none from another. -/
theorem working_cancelTasks (hw : db.core.WellFormed) (now : Time) (said : String) (sid i : Uuid) :
    Working ((db.tasks.filter fun t => t.sessionId = sid ∧ unfinished t).foldl
      (Db.cancelTask now said) db).tasks i ↔ Working db.tasks i ∧ i ≠ sid := by
  let ts := db.tasks.filter fun t => t.sessionId = sid ∧ unfinished t
  have hmem : ∀ t, t ∈ ts ↔ t ∈ db.tasks ∧ t.sessionId = sid ∧ t.status.finished = false := by
    intro t
    simp [ts, unfinished]
  have hnd : (ts.map (·.taskId)).Nodup := hw.taskIds.sublist (List.filter_sublist.map _)
  obtain ⟨hg, hl⟩ := cancelTasks_life now said hnd
    fun t ht => ⟨t, task?_of_mem hw ((hmem t).mp ht).1⟩
  have hids := (cancelTasks_sessions now said ts db).2.2
  have hw' := hg.wf hw
  constructor
  · rintro ⟨t', ht', hsid, hu⟩
    obtain ⟨t, ht, hid⟩ := mem_of_ident hids ht'
    simp only [Task.frame, Task.ident, Prod.mk.injEq] at hid
    replace hid := hid.1
    have hlife := hl t'.taskId
    rw [life_of_task? (task?_of_mem hw' ht')] at hlife
    by_cases hin : t'.taskId ∈ ts.map (·.taskId)
    · rw [if_pos hin, Life.mk.injEq, Option.some.injEq] at hlife
      rw [hlife.1] at hu
      cases hu
    · rw [if_neg hin, ← hid.1, life_of_task? (task?_of_mem hw ht), Life.mk.injEq,
        Option.some.injEq] at hlife
      have htu : t.status.finished = false := hlife.1 ▸ hu
      refine ⟨⟨t, ht, hid.2.1.trans hsid, htu⟩, fun hi => hin ?_⟩
      exact List.mem_map.mpr ⟨t, (hmem t).mpr ⟨ht, (hid.2.1.trans hsid).trans hi, htu⟩, hid.1⟩
  · rintro ⟨⟨t, ht, hsid, hu⟩, hi⟩
    have hin : t.taskId ∉ ts.map (·.taskId) := by
      intro hin
      obtain ⟨u, hum, hut⟩ := List.mem_map.mp hin
      obtain ⟨hud, hus, -⟩ := (hmem u).mp hum
      rw [eq_of_key Task.taskId hw.taskIds hud ht hut] at hus
      exact hi (hsid.symm.trans hus)
    have hlife := hl t.taskId
    rw [if_neg hin, life_of_task? (task?_of_mem hw ht)] at hlife
    obtain ⟨t', ht', hid⟩ := hg.tasks.kept ht
    simp only [Task.ident, Prod.mk.injEq] at hid
    rw [← hid.1, life_of_task? (task?_of_mem hw' ht'), Life.mk.injEq, Option.some.injEq] at hlife
    exact ⟨t', ht', hid.2.1.trans hsid, hlife.1 ▸ hu⟩

theorem Agrees.cancelled {sid : Uuid} {reason : Option String} {n : Nat} (h : Agrees db)
    (hw : db.core.WellFormed) (hc : fnCancelSession now db sid reason = .ok (db', n)) :
    Agrees db' := by
  unfold fnCancelSession at hc
  obtain ⟨_, _, hc⟩ := bind_eq_ok.mp hc
  obtain ⟨rfl, -⟩ := Prod.mk.inj (Except.ok.inj hc)
  have hwork := working_cancelTasks hw now ((trimmed reason).getD "Cancelled by operator.") sid
  obtain ⟨hsess, hnext, -⟩ := cancelTasks_sessions now ((trimmed reason).getD "Cancelled by operator.")
    (db.tasks.filter fun t => t.sessionId = sid ∧ unfinished t) db
  have hid : ∀ s : Session, (if decide (s.sessionId = sid ∧ s.status = .open) then
      { s with status := .cancelled, completedAt := some now } else s).sessionId = s.sessionId := by
    intro s
    split_ifs <;> rfl
  constructor
  · intro s' hs'
    obtain ⟨s, hs, rfl⟩ := mem_update.mp hs'
    rw [hid]
    exact (h.ids s (hsess ▸ hs)).trans_eq hnext.symm
  · intro s' hs'
    obtain ⟨s, hs, rfl⟩ := mem_update.mp hs'
    rw [hid]
    refine Iff.trans ?_ (hwork s.sessionId).symm
    by_cases hsid : s.sessionId = sid
    · refine iff_of_false ?_ fun hx => hx.2 hsid
      by_cases ho : s.status = .open
      · rw [if_pos (by simp [hsid, ho])]
        simp
      · rw [if_neg (by simp [ho])]
        exact ho
    · rw [if_neg (by simp [hsid]), h.status s (hsess ▸ hs)]
      exact ⟨fun hw => ⟨hw, hsid⟩, fun hw => hw.1⟩

/-- Every write keeps the agreement. -/
theorem Agrees.write {pg : Postgres} {G : Json → Prop} (hw : db.core.WellFormed) (h : Agrees db)
    (hwr : Write pg now G db db') : Agrees db' := by
  have hsame : ∀ s ∈ db.sessions, ∃ r ∈ db.sessions, r.sessionId = s.sessionId ∧
      r.status = s.status := fun s hs => ⟨s, hs, rfl, rfl⟩
  cases hwr with
  | aside ha =>
    refine h.of_same ha.nextId (ha.sessions ▸ hsame) fun sid => ?_
    rw [ha.tasks]
  | opened hc => exact h.opened hc
  | continued hc => exact h.continued hc
  | calls _ => exact h.of_same (Nat.le_refl _) hsame fun _ => Iff.rfl
  | approvals _ => exact h.of_same (Nat.le_refl _) hsame fun _ => Iff.rfl
  | approval _ => exact h.of_same (Nat.le_succ _) hsame fun _ => Iff.rfl
  | task hf hs =>
    refine h.of_same (Nat.le_refl _) hsame (working_update fun r hr hp => ?_)
    refine ⟨congrArg (·.1.2.1) (hf r), ?_⟩
    rcases hs r hr (by simpa using hp) with hv | ⟨hu, hu'⟩
    · exact congrArg (·.1.finished) hv
    · rw [hu, hu']
  | ended hf _ hs =>
    refine (h.ended fun r hr hp => ?_).complete
    obtain ⟨hsid, -, hfail, -⟩ := hs r hr (by simpa using hp)
    exact ⟨congrArg (·.1.2.1) (hf r), hsid, by rw [hfail]; rfl⟩
  | asked _ _ _ => exact h.of_same (Nat.le_succ _) hsame fun _ => Iff.rfl
  | @stepped t a payload s _ ht hr _ hs =>
    have hasks := Turn.payloadStep_asks pg _ payload s hs
    have htm := (mem_of_task? (s := db.core) ht).1
    have htasks := record_tasks db t s now
    refine (h.record t s now).applyNext (htasks ▸ hw.taskIds) ?_ (htasks ▸ htm) hr rfl hasks
    rw [htasks, record_nextId]
    exact hw.taskLt
  | cancelled hc => exact h.cancelled hw hc

end Agreement

/-- In every state of every run, a session is open exactly when one of its tasks is
queued, running or waiting. -/
theorem session_open_iff (pg : Postgres) (c : Config) (es : List Event) :
    ∀ s ∈ (run (step pg) (start c) es).sessions, s.status = .open ↔
      ∃ t ∈ (run (step pg) (start c) es).tasks, t.sessionId = s.sessionId ∧
        (t.status = .queued ∨ t.status = .running ∨ t.status = .waitingHuman ∨
          t.status = .waitingChildren) := by
  have hstart : Agrees (start c) := ⟨by simp [start], by simp [start]⟩
  have hinv : Agrees (run (step pg) (start c) es) :=
    run_invariant (fun hw h hwr => h.write hw hwr) (wellFormed_start c) hstart es
  have hopen : ∀ st : TaskStatus, st.finished = false ↔
      (st = .queued ∨ st = .running ∨ st = .waitingHuman ∨ st = .waitingChildren) := by
    intro st
    cases st <;> simp [TaskStatus.finished]
  intro s hs
  simp only [← hopen]
  exact hinv.status s hs

/-- One agent without a policy, and a goal for it. -/
def clerkConfig : Config where
  agents := [{ agentId := 1, name := "clerk" }]

def clerkSession : Session :=
  { sessionId := 1, agentId := 1, goal := "tidy up" }

def clerkRun : List Event :=
  [⟨10, .createSession 1 (some "tidy up") none none⟩]

theorem clerkSession_open_iff :
    clerkSession ∈ (run (step bareServer) (start clerkConfig) clerkRun).sessions ∧
      (clerkSession.status = .open ↔
        ∃ t ∈ (run (step bareServer) (start clerkConfig) clerkRun).tasks,
          t.sessionId = clerkSession.sessionId ∧ (t.status = .queued ∨ t.status = .running ∨
            t.status = .waitingHuman ∨ t.status = .waitingChildren)) := by
  have hmem : clerkSession ∈ (run (step bareServer) (start clerkConfig) clerkRun).sessions := by
    decide +kernel
  exact ⟨hmem, session_open_iff bareServer clerkConfig clerkRun clerkSession hmem⟩

section Finished

variable {pg : Postgres} {now : Time} {G : Json → Prop} {db db' : Db} {i : Uuid}
  {v : TaskStatus × Option Json × Time}

theorem tasks_maybeCompleteSession (db : Db) (sid : Uuid) (now : Time) :
    (db.maybeCompleteSession sid now).tasks = db.tasks :=
  congrArg Core.tasks (Db.core_maybeCompleteSession db sid now)

/-- A task has the verdict. -/
def Stands (i : Uuid) (v : TaskStatus × Option Json × Time) (tasks : List Task) : Prop :=
  ∃ r ∈ tasks, r.taskId = i ∧ r.verdict = v

theorem Stands.append {tasks : List Task} (h : Stands i v tasks) (more : List Task) :
    Stands i v (tasks ++ more) := by
  obtain ⟨r, hr, hi, hv⟩ := h
  exact ⟨r, List.mem_append_left _ hr, hi, hv⟩

theorem Stands.update {tasks : List Task} {p : Task → Bool} {f : Task → Task} (h : Stands i v tasks)
    (hf : ∀ r, (f r).taskId = r.taskId)
    (hs : ∀ r ∈ tasks, p r = true → r.taskId = i → (f r).verdict = r.verdict) :
    Stands i v (update p f tasks) := by
  obtain ⟨r, hr, hi, hv⟩ := h
  refine ⟨if p r then f r else r, mem_update.mpr ⟨r, hr, rfl⟩, ?_⟩
  by_cases hp : p r = true
  · rw [if_pos hp]
    exact ⟨(hf r).trans hi, (hs r hr hp hi).trans hv⟩
  · rw [if_neg hp]
    exact ⟨hi, hv⟩

/-- A write to an unfinished task leaves the finished ones alone. -/
theorem Stands.bump {t : Task} {f : Task → Task} (h : Stands i v db.tasks) (hne : t.taskId ≠ i)
    (hf : ∀ r, (f r).taskId = r.taskId) : Stands i v (db.bump t.taskId now f).tasks := by
  have hf' : ∀ r : Task, ({ f r with
      stepCount := r.stepCount + 1
      updatedAt := now } : Task).taskId = r.taskId := hf
  exact h.update hf' fun r _ hp hi => absurd ((of_decide_eq_true hp).symm.trans hi) hne

theorem Stands.cancelTasks (said : String) {ts : List Task} (h : Stands i v db.tasks)
    (hne : ∀ t ∈ ts, t.taskId ≠ i) : Stands i v (ts.foldl (Db.cancelTask now said) db).tasks := by
  induction ts generalizing db with
  | nil => exact h
  | cons t ts ih =>
    have hlog : Stands i v
        (db.appendLog t.taskId (t.stepCount + 1) .operator (.str said) now).tasks := h
    have hstep : Stands i v (db.cancelTask now said t).tasks :=
      hlog.bump (hne t (by simp)) fun _ => rfl
    exact ih hstep fun u hu => hne u (List.mem_cons_of_mem t hu)

theorem Stands.applyNext {t : Task} {next : Next} (h : Stands i v db.tasks) (hne : t.taskId ≠ i) :
    Stands i v (db.applyNext t next now).tasks := by
  cases next with
  | again => exact h.bump hne fun _ => rfl
  | queue req =>
    have hins : Stands i v (db.insertCall t.taskId req now).tasks := h
    exact hins.bump hne fun _ => rfl
  | delegate child wait =>
    have hins : Stands i v (db.insertTask child).tasks := h.append _
    cases wait with
    | true => exact hins.bump hne fun _ => rfl
    | false => exact hins.bump hne fun _ => rfl
  | finalAnswer answer =>
    simp only [Db.applyNext, tasks_maybeCompleteSession]
    exact h.bump hne fun _ => rfl
  | fail e =>
    simp only [Db.applyNext, tasks_maybeCompleteSession]
    exact h.bump hne fun _ => rfl
  | awaitHuman reason => exact h.bump hne fun _ => rfl
  | awaitChildren => exact h.bump hne fun _ => rfl

/-- A finished task keeps its verdict. -/
theorem Stands.write (hw : db.core.WellFormed) (h : Stands i v db.tasks) (hv : v.1.finished = true)
    (hwr : Write pg now G db db') : Stands i v db'.tasks := by
  have hfinished : ∀ r ∈ db.tasks, r.taskId = i → r.status.finished = true := by
    obtain ⟨r, hr, hi, hrv⟩ := h
    intro r' hr' hi'
    obtain rfl := eq_of_key Task.taskId hw.taskIds hr' hr (hi'.trans hi.symm)
    rw [show r'.status = v.1 from congrArg (·.1) hrv]
    exact hv
  have hbusy : ∀ r ∈ db.tasks, r.taskId = i → r.status.finished ≠ false := by
    intro r hr hi hu
    rw [hfinished r hr hi] at hu
    cases hu
  cases hwr with
  | aside ha =>
    rw [ha.tasks]
    exact h
  | opened ho =>
    obtain ⟨goal, rfl⟩ := fnCreateSession_eq ho
    exact h.append _
  | continued hc =>
    obtain ⟨s, goal, -, -, rfl⟩ := fnContinueSession_eq hc
    exact h.append _
  | calls _ => exact h
  | approvals _ => exact h
  | approval _ => exact h
  | task hf hs =>
    refine h.update (fun r => congrArg (·.1.1) (hf r)) fun r hr hp hi => ?_
    exact (hs r hr (of_decide_eq_true hp)).resolve_right fun hu => hbusy r hr hi hu.1
  | ended hf _ hs =>
    rw [tasks_maybeCompleteSession]
    refine h.update (fun r => congrArg (·.1.1) (hf r)) fun r hr hp hi => ?_
    exact absurd (hs r hr (of_decide_eq_true hp)).2.1 (hbusy r hr hi)
  | asked _ _ _ => exact h
  | @stepped t a payload s _ ht hr _ _ =>
    have hne : t.taskId ≠ i := by
      intro hi
      exact hbusy t (mem_of_task? (s := db.core) ht).1 hi (finished_of_running hr)
    have hrec : Stands i v (db.record t s now).tasks := by
      rw [record_tasks]
      exact h
    exact hrec.applyNext hne
  | cancelled hc =>
    unfold fnCancelSession at hc
    obtain ⟨_, _, hc⟩ := bind_eq_ok.mp hc
    obtain ⟨rfl, -⟩ := Prod.mk.inj (Except.ok.inj hc)
    refine h.cancelTasks _ fun t ht hi => ?_
    obtain ⟨htm, hto⟩ := List.mem_filter.mp ht
    have hu : t.status.finished = false := by simpa [unfinished] using (of_decide_eq_true hto).2
    exact hbusy t htm hi hu

theorem stands_run (pg : Postgres) (es : List Event) (hw : db.core.WellFormed)
    (hv : v.1.finished = true) (h : Stands i v db.tasks) :
    Stands i v (run (step pg) db es).tasks :=
  run_invariant (fun hw hI hwr => Stands.write hw hI hv hwr) hw h es

end Finished

end Allgres
