import Allgres.SessionStates

/-! What the latest turn of a session has to do with how the session is closed. -/

namespace Allgres

open Raise Rows Runs Allgres.Core

/-- The columns of a task that closing a session reads. -/
def Task.entry (t : Task) : ((Uuid × Uuid × Uuid × Option Uuid) × Nat × Time) ×
    (TaskStatus × Option Json × Time) :=
  (t.frame, t.verdict)

def Task.answer (t : Task) : Option String :=
  t.output.bind fun o => o.text "answer"

/-- The root tasks of a session, one for each turn. -/
def turns (tasks : List Task) (sid : Uuid) : List Task :=
  tasks.filter fun t => t.sessionId = sid ∧ t.parentTaskId = none

/-- The last turn of a session: rows are numbered in the order of their insertion. -/
def LatestTurn (tasks : List Task) (sid : Uuid) (r : Task) : Prop :=
  r ∈ turns tasks sid ∧ ∀ x ∈ turns tasks sid, x.taskId ≤ r.taskId

/-- A delegate that does not wait completes the task with the id of its child for an output. -/
def HandsTo (tasks : List Task) (t u : Task) : Prop :=
  t.status = .completed ∧ u ∈ tasks ∧ u.sessionId = t.sessionId ∧ u.parentTaskId = some t.taskId ∧
    t.output = some (.object [("child_task_id", .str (uuidText u.taskId))])

/-- The task that a turn has come to: its root, or the one it was handed on to. -/
def Carries (tasks : List Task) (r t : Task) : Prop :=
  Relation.ReflTransGen (HandsTo tasks) r t ∧ ∀ u, ¬ HandsTo tasks t u

/-- A session was closed by its latest turn `r`, whose answer is that of `t`. -/
def Follows (s : Session) (r t : Task) : Prop :=
  (r.status = .failed → s.status = .failed) ∧
    (r.status ≠ .failed → s.status = .completed ∧ s.finalAnswer = t.answer)

/-- The completed turn that was updated last. -/
def LastUpdated (tasks : List Task) (sid : Uuid) (y : Task) : Prop :=
  (y ∈ turns tasks sid ∧ y.status = .completed) ∧
    ∀ z ∈ turns tasks sid, z.status = .completed → z.updatedAt ≤ y.updatedAt

/-- What a turn answered itself: nothing where it failed or was handed on. -/
def Task.ownAnswer (t : Task) : Option String :=
  if t.status = .completed then t.answer else none

/-- The end of `x`, which is no cancellation, leaves its session without work. -/
structure EndsWork (old tasks : List Task) (x : Task) : Prop where
  mem : x ∈ tasks
  before : ∀ y ∈ old, y.taskId = x.taskId → y.status.finished = false
  ended : x.status = .completed ∨ x.status = .failed
  idle : ¬ Working tasks x.sessionId

/-- The rows of a session whose latest turn is `r` and whose work ends with `x`: the completed turn
updated last answered what `r` did, and a turn that was handed on ends with the task it came to,
where no task of the session has failed. -/
structure TurnOrdered (tasks : List Task) (r x : Task) : Prop where
  last : ∀ y, LastUpdated tasks r.sessionId y → y.answer = r.ownAnswer
  handed : (∃ u, HandsTo tasks r u) → Carries tasks r x ∧
    ∀ t ∈ tasks, t.sessionId = r.sessionId → t.status ≠ .failed

/-- Where a step ends the work of a session, the rows of the session are in order. -/
def InOrder (pg : Postgres) (db : Db) (e : Event) : Prop :=
  ∀ x, EndsWork db.tasks (step pg db e).tasks x → ∀ r, LatestTurn (step pg db e).tasks x.sessionId r →
    TurnOrdered (step pg db e).tasks r x

section Rows

variable {tasks tasks' tasks'' : List Task} {sid : Uuid}

theorem mem_turns {t : Task} :
    t ∈ turns tasks sid ↔ t ∈ tasks ∧ t.sessionId = sid ∧ t.parentTaskId = none := by
  simp [turns]

/-- The tasks of a session as far as closing it reads them. -/
structure SameRows (tasks tasks' : List Task) (sid : Uuid) : Prop where
  old : ∀ t ∈ tasks, t.sessionId = sid → ∃ t' ∈ tasks', t'.entry = t.entry
  new : ∀ t' ∈ tasks', t'.sessionId = sid → ∃ t ∈ tasks, t'.entry = t.entry

theorem SameRows.refl (tasks : List Task) (sid : Uuid) : SameRows tasks tasks sid :=
  ⟨fun t ht _ => ⟨t, ht, rfl⟩, fun t ht _ => ⟨t, ht, rfl⟩⟩

theorem entry_sessionId {t t' : Task} (h : t'.entry = t.entry) : t'.sessionId = t.sessionId :=
  congrArg (·.1.1.2.1) h

theorem SameRows.trans (h : SameRows tasks tasks' sid) (h' : SameRows tasks' tasks'' sid) :
    SameRows tasks tasks'' sid := by
  constructor
  · intro t ht hs
    obtain ⟨u, hu, he⟩ := h.old t ht hs
    obtain ⟨v, hv, he'⟩ := h'.old u hu ((entry_sessionId he).trans hs)
    exact ⟨v, hv, he'.trans he⟩
  · intro v hv hs
    obtain ⟨u, hu, he'⟩ := h'.new v hv hs
    obtain ⟨t, ht, he⟩ := h.new u hu ((entry_sessionId he').symm.trans hs)
    exact ⟨t, ht, he'.trans he⟩

theorem sameRows_update {p : Task → Bool} {f : Task → Task} (hf : ∀ r, (f r).frame = r.frame)
    (h : ∀ r ∈ tasks, p r = true → r.sessionId = sid → (f r).verdict = r.verdict) :
    SameRows tasks (update p f tasks) sid := by
  have hrow : ∀ r ∈ tasks, r.sessionId = sid → (if p r then f r else r).entry = r.entry := by
    intro r hr hs
    by_cases hp : p r = true
    · rw [if_pos hp]
      exact Prod.ext (hf r) (h r hr hp hs)
    · rw [if_neg hp]
  have hsid : ∀ r, (if p r then f r else r).sessionId = r.sessionId := by
    intro r
    split_ifs
    · exact congrArg (·.1.2.1) (hf r)
    · rfl
  constructor
  · intro r hr hs
    exact ⟨_, mem_update.mpr ⟨r, hr, rfl⟩, hrow r hr hs⟩
  · intro r' hr' hs
    obtain ⟨r, hr, rfl⟩ := mem_update.mp hr'
    exact ⟨r, hr, hrow r hr ((hsid r).symm.trans hs)⟩

theorem sameRows_append {t : Task} (h : t.sessionId ≠ sid) : SameRows tasks (tasks ++ [t]) sid := by
  refine ⟨fun r hr _ => ⟨r, List.mem_append_left _ hr, rfl⟩, fun r hr hs => ?_⟩
  rcases List.mem_append.mp hr with hr | hr
  · exact ⟨r, hr, rfl⟩
  · obtain rfl := List.mem_singleton.mp hr
    exact absurd hs h

/-- A turn that was cancelled is not the latest one. -/
def Superseded (tasks : List Task) (sid : Uuid) : Prop :=
  ∀ t ∈ turns tasks sid, t.status = .cancelled → ∃ x ∈ turns tasks sid, t.taskId < x.taskId

theorem Superseded.update {p : Task → Bool} {f : Task → Task} (h : Superseded tasks sid)
    (hf : ∀ r, (f r).frame = r.frame)
    (hs : ∀ r ∈ tasks, p r = true → (f r).status = .cancelled → r.status = .cancelled) :
    Superseded (update p f tasks) sid := by
  have hframe : ∀ r, (if p r then f r else r).frame = r.frame := by
    intro r
    split_ifs
    · exact hf r
    · rfl
  intro t' ht' hc
  obtain ⟨ht', hsid, hp⟩ := mem_turns.mp ht'
  obtain ⟨t, ht, rfl⟩ := mem_update.mp ht'
  have hfr := hframe t
  have hct : t.status = .cancelled := by
    by_cases hpt : p t = true
    · rw [if_pos hpt] at hc
      exact hs t ht hpt hc
    · rwa [if_neg hpt] at hc
  have hturn : t ∈ turns tasks sid := mem_turns.mpr
    ⟨ht, (congrArg (·.1.2.1) hfr).symm.trans hsid, (congrArg (·.1.2.2.2) hfr).symm.trans hp⟩
  obtain ⟨x, hx, hlt⟩ := h t hturn hct
  obtain ⟨hxm, hxs, hxp⟩ := mem_turns.mp hx
  have hfx := hframe x
  have hids : ∀ r, (if p r then f r else r).taskId = r.taskId :=
    fun r => congrArg (·.1.1) (hframe r)
  refine ⟨_, mem_turns.mpr ⟨mem_update.mpr ⟨x, hxm, rfl⟩, (congrArg (·.1.2.1) hfx).trans hxs,
    (congrArg (·.1.2.2.2) hfx).trans hxp⟩, ?_⟩
  rw [hids, hids]
  exact hlt

theorem Superseded.append {t : Task} (h : Superseded tasks sid) (hs : t.status ≠ .cancelled) :
    Superseded (tasks ++ [t]) sid := by
  intro r hr hc
  obtain ⟨hrm, hrs, hrp⟩ := mem_turns.mp hr
  rcases List.mem_append.mp hrm with hrm | hrm
  · obtain ⟨x, hx, hlt⟩ := h r (mem_turns.mpr ⟨hrm, hrs, hrp⟩) hc
    obtain ⟨hxm, hxs, hxp⟩ := mem_turns.mp hx
    exact ⟨x, mem_turns.mpr ⟨List.mem_append_left _ hxm, hxs, hxp⟩, hlt⟩
  · obtain rfl := List.mem_singleton.mp hrm
    exact absurd hc hs

/-- How a session was closed when its work ended with `x`; `v` is the answer of the completed turn
updated last. -/
structure ClosedWith (tasks : List Task) (s : Session) (x : Task) (v : Option String) : Prop where
  picked : (∃ y, LastUpdated tasks s.sessionId y ∧ y.answer = v) ∨
    v = none ∧ ∀ y ∈ turns tasks s.sessionId, y.status ≠ .completed
  failed : v = none → (∃ t ∈ tasks, t.sessionId = s.sessionId ∧ t.status = .failed) → s.status = .failed
  completed : (v ≠ none ∨ ∀ t ∈ tasks, t.sessionId = s.sessionId → t.status ≠ .failed) →
    s.status = .completed ∧ ∃ w, s.finalAnswer = v.or w ∧ (x.status = .completed → w = x.answer)

/-- A session that is closed was so before and is as it was, or was closed since. -/
def Judged (old : Db) (tasks : List Task) (s : Session) : Prop :=
  (∃ s₀ ∈ old.sessions, s₀.sessionId = s.sessionId ∧ s₀.status = s.status ∧
    s₀.finalAnswer = s.finalAnswer ∧ SameRows old.tasks tasks s₀.sessionId) ∨
  ∃ x v, EndsWork old.tasks tasks x ∧ x.sessionId = s.sessionId ∧ ClosedWith tasks s x v

/-- What a completed task came to: an answer, or a child that goes on with it. -/
def Settled (tasks : List Task) (t : Task) : Prop :=
  t.status = .completed →
    (∃ a, t.output = some (.object [("answer", .str a)])) ∨ ∃ u, HandsTo tasks t u

theorem SameRows.turn_old {t : Task} (h : SameRows tasks tasks' sid) (ht : t ∈ turns tasks sid) :
    ∃ t' ∈ turns tasks' sid, t'.entry = t.entry := by
  obtain ⟨htm, hs, hp⟩ := mem_turns.mp ht
  obtain ⟨t', ht', he⟩ := h.old t htm hs
  exact ⟨t', mem_turns.mpr ⟨ht', (entry_sessionId he).trans hs,
    (congrArg (·.1.1.2.2.2) he).trans hp⟩, he⟩

theorem SameRows.turn_new {t' : Task} (h : SameRows tasks tasks' sid) (ht : t' ∈ turns tasks' sid) :
    ∃ t ∈ turns tasks sid, t'.entry = t.entry := by
  obtain ⟨htm, hs, hp⟩ := mem_turns.mp ht
  obtain ⟨t, ht, he⟩ := h.new t' htm hs
  exact ⟨t, mem_turns.mpr ⟨ht, (entry_sessionId he).symm.trans hs,
    (congrArg (·.1.1.2.2.2) he).symm.trans hp⟩, he⟩

theorem entry_status {t t' : Task} (h : t'.entry = t.entry) : t'.status = t.status :=
  congrArg (·.2.1) h

theorem entry_answer {t t' : Task} (h : t'.entry = t.entry) : t'.answer = t.answer := by
  have ho : t'.output = t.output := congrArg (·.2.2.1) h
  rw [Task.answer, ho, Task.answer]

theorem entry_taskId {t t' : Task} (h : t'.entry = t.entry) : t'.taskId = t.taskId :=
  congrArg (·.1.1.1) h

theorem SameRows.working (h : SameRows tasks tasks' sid) (hw : Working tasks' sid) : Working tasks sid := by
  obtain ⟨t', ht', hs, hu⟩ := hw
  obtain ⟨t, ht, he⟩ := h.new t' ht' hs
  exact ⟨t, ht, (entry_sessionId he).symm.trans hs, by rw [← entry_status he]; exact hu⟩

theorem SameRows.lastUpdated {y' : Task} (h : SameRows tasks tasks' sid) (hy : LastUpdated tasks' sid y') :
    ∃ y, LastUpdated tasks sid y ∧ y'.answer = y.answer := by
  obtain ⟨⟨hym, hyc⟩, hmax⟩ := hy
  obtain ⟨y, hy, he⟩ := h.turn_new hym
  refine ⟨y, ⟨⟨hy, (entry_status he).symm.trans hyc⟩, fun z hz hzc => ?_⟩, entry_answer he⟩
  obtain ⟨z', hz', hze⟩ := h.turn_old hz
  have hle := hmax z' hz' ((entry_status hze).trans hzc)
  have hzt : z'.updatedAt = z.updatedAt := congrArg (·.2.2.2) hze
  have hyt : y'.updatedAt = y.updatedAt := congrArg (·.2.2.2) he
  rwa [hzt, hyt] at hle

theorem SameRows.symm (h : SameRows tasks tasks' sid) : SameRows tasks' tasks sid :=
  ⟨fun t ht hs => (h.new t ht hs).imp fun _ ⟨hm, he⟩ => ⟨hm, he.symm⟩,
    fun t ht hs => (h.old t ht hs).imp fun _ ⟨hm, he⟩ => ⟨hm, he.symm⟩⟩

theorem ClosedWith.congr {s s' : Session} {x x' : Task} {v : Option String} (h : ClosedWith tasks s x v)
    (hr : SameRows tasks tasks' s.sessionId) (hx : x'.entry = x.entry) (hid : s.sessionId = s'.sessionId)
    (hst : s.status = s'.status) (ha : s.finalAnswer = s'.finalAnswer) : ClosedWith tasks' s' x' v := by
  have hnone : (∀ t ∈ tasks', t.sessionId = s.sessionId → t.status ≠ .failed) →
      ∀ t ∈ tasks, t.sessionId = s.sessionId → t.status ≠ .failed := by
    intro hf t ht hs
    obtain ⟨t', ht', he⟩ := hr.old t ht hs
    rw [← entry_status he]
    exact hf t' ht' ((entry_sessionId he).trans hs)
  refine ⟨?_, fun hv hf => ?_, fun hv => ?_⟩
  · rw [← hid]
    rcases h.picked with ⟨y, hy, hv⟩ | ⟨hv, hno⟩
    · obtain ⟨y', hy', he⟩ := hr.symm.lastUpdated hy
      exact .inl ⟨y', hy', he.symm.trans hv⟩
    · refine .inr ⟨hv, fun y' hy' => ?_⟩
      obtain ⟨y, hy, he⟩ := hr.turn_new hy'
      rw [entry_status he]
      exact hno y hy
  · obtain ⟨t', ht', hs, hf⟩ := hf
    obtain ⟨t, ht, he⟩ := hr.new t' ht' (hs.trans hid.symm)
    rw [← hst]
    have hts : t.sessionId = s.sessionId := (entry_sessionId he).symm.trans (hs.trans hid.symm)
    exact h.failed hv ⟨t, ht, hts, (entry_status he).symm.trans hf⟩
  · rw [← hst, ← ha, entry_status hx, entry_answer hx]
    rw [← hid] at hv
    exact h.completed (hv.imp_right hnone)

theorem Judged.congr {old : Db} {s s' : Session} (h : Judged old tasks s)
    (hr : SameRows tasks tasks' s.sessionId) (hid : s.sessionId = s'.sessionId)
    (hst : s.status = s'.status) (ha : s.finalAnswer = s'.finalAnswer) : Judged old tasks' s' := by
  rcases h with ⟨s₀, hs₀, hid₀, hst₀, ha₀, hrows⟩ | ⟨x, v, hx, hxs, hc⟩
  · exact .inl ⟨s₀, hs₀, hid₀.trans hid, hst₀.trans hst, ha₀.trans ha, hrows.trans (hid₀ ▸ hr)⟩
  · obtain ⟨x', hx', he⟩ := hr.old x hx.mem hxs
    have hxid := entry_taskId he
    refine .inr ⟨x', v, ⟨hx', fun y hy => hxid ▸ hx.before y hy, ?_, fun hw => hx.idle ?_⟩,
      (entry_sessionId he).trans (hxs.trans hid), hc.congr hr he hid hst ha⟩
    · rw [entry_status he]
      exact hx.ended
    · rw [entry_sessionId he, hxs] at hw
      rw [hxs]
      exact hr.working hw

theorem Superseded.congr (h : Superseded tasks sid) (hr : SameRows tasks tasks' sid) :
    Superseded tasks' sid := by
  intro t' ht' hc
  obtain ⟨t, ht, he⟩ := hr.turn_new ht'
  obtain ⟨x, hx, hlt⟩ := h t ht ((entry_status he).symm.trans hc)
  obtain ⟨x', hx', hxe⟩ := hr.turn_old hx
  have hxid : x'.taskId = x.taskId := congrArg (·.1.1.1) hxe
  have htid : t'.taskId = t.taskId := congrArg (·.1.1.1) he
  exact ⟨x', hx', by rw [hxid, htid]; exact hlt⟩

end Rows

section Outcomes

variable {tasks tasks' : List Task} {db db' : Db} {now : Time}

theorem HandsTo.congr {t t' u u' : Task} (h : HandsTo tasks t u) (ht : t'.entry = t.entry)
    (hm : u' ∈ tasks') (hu : u'.frame = u.frame) : HandsTo tasks' t' u' := by
  obtain ⟨hc, -, hs, hp, ho⟩ := h
  have hto : t'.output = t.output := congrArg (·.2.2.1) ht
  have hus : u'.sessionId = u.sessionId := congrArg (·.1.2.1) hu
  have hup : u'.parentTaskId = u.parentTaskId := congrArg (·.1.2.2.2) hu
  have hui : u'.taskId = u.taskId := congrArg (·.1.1) hu
  refine ⟨(entry_status ht).trans hc, hm, hus.trans (hs.trans (entry_sessionId ht).symm), ?_, ?_⟩
  · rw [hup, hp, entry_taskId ht]
  · rw [hto, ho, hui]

/-- Every completed task answered or was handed on. -/
def Outcomes (tasks : List Task) : Prop :=
  ∀ t ∈ tasks, Settled tasks t

theorem Settled.congr {t t' : Task} (h : Settled tasks t) (he : t'.entry = t.entry)
    (hk : ∀ r ∈ tasks, ∃ r' ∈ tasks', r'.frame = r.frame) : Settled tasks' t' := by
  intro hc
  have ho : t'.output = t.output := congrArg (·.2.2.1) he
  rcases h ((entry_status he).symm.trans hc) with ⟨a, ha⟩ | ⟨u, hu⟩
  · exact .inl ⟨a, ho.trans ha⟩
  · obtain ⟨u', hu', hf⟩ := hk u hu.2.1
    exact .inr ⟨u', hu.congr he hu' hf⟩

theorem Outcomes.update {p : Task → Bool} {f : Task → Task} (h : Outcomes tasks)
    (hf : ∀ r, (f r).frame = r.frame)
    (hs : ∀ r ∈ tasks, p r = true → (f r).verdict = r.verdict ∨ Settled (update p f tasks) (f r)) :
    Outcomes (update p f tasks) := by
  have hframe : ∀ r, (if p r then f r else r).frame = r.frame := by
    intro r
    split_ifs
    · exact hf r
    · rfl
  have hk : ∀ r ∈ tasks, ∃ r' ∈ Rows.update p f tasks, r'.frame = r.frame :=
    fun r hr => ⟨_, mem_update.mpr ⟨r, hr, rfl⟩, hframe r⟩
  intro t' ht'
  obtain ⟨t, ht, rfl⟩ := mem_update.mp ht'
  by_cases hp : p t = true
  · rw [if_pos hp]
    rcases hs t ht hp with hv | hset
    · exact (h t ht).congr (Prod.ext (hf t) hv) hk
    · exact hset
  · rw [if_neg hp]
    exact (h t ht).congr rfl hk

theorem Outcomes.append {t : Task} (h : Outcomes tasks) (hs : t.status ≠ .completed) :
    Outcomes (tasks ++ [t]) := by
  intro r hr
  rcases List.mem_append.mp hr with hr | hr
  · exact (h r hr).congr rfl fun x hx => ⟨x, List.mem_append_left _ hx, rfl⟩
  · obtain rfl := List.mem_singleton.mp hr
    exact fun hc => absurd hc hs

theorem Outcomes.updateTask {id : Uuid} {f : Task → Task} (h : Outcomes db.tasks)
    (hf : ∀ r, (f r).frame = r.frame)
    (hs : ∀ r ∈ db.tasks, r.taskId = id → (f r).verdict = r.verdict ∨ (f r).status ≠ .completed) :
    Outcomes (db.updateTask id f).tasks := by
  refine Outcomes.update h hf fun r hr hp => ?_
  exact (hs r hr (of_decide_eq_true hp)).imp_right fun hne hc => absurd hc hne

theorem Outcomes.cancelTasks (said : String) {ts : List Task} (h : Outcomes db.tasks) :
    Outcomes (ts.foldl (Db.cancelTask now said) db).tasks := by
  induction ts generalizing db with
  | nil => exact h
  | cons t ts ih =>
    refine ih (Outcomes.updateTask (f := fun r => { r with
      status := .cancelled
      error := some "operator_cancelled"
      stepCount := r.stepCount + 1
      updatedAt := now }) h (fun _ => rfl) fun r _ _ => .inr ?_)
    exact nofun

theorem Outcomes.bump {t : Task} {f : Task → Task} (h : Outcomes db.tasks)
    (hw : (db.tasks.map (·.taskId)).Nodup) (ht : t ∈ db.tasks) (hf : ∀ r, (f r).frame = r.frame)
    (hs : (f t).status ≠ .completed) : Outcomes (db.bump t.taskId now f).tasks := by
  refine Outcomes.updateTask h (fun r => hf r) fun r hr hid => .inr ?_
  rw [eq_of_key Task.taskId hw hr ht hid]
  exact hs

theorem Outcomes.applyNext {pg : Postgres} {T : Turn} {t : Task} {next : Next} (h : Outcomes db.tasks)
    (hw : db.core.WellFormed) (ht : t ∈ db.tasks) (hr : t.status = .running) (hT : T.task = t)
    (hnext : T.Asks pg next) : Outcomes (db.applyNext t next now).tasks := by
  have hrunning : t.status ≠ .completed := by simp [hr]
  cases next with
  | again => exact h.bump hw.taskIds ht (fun _ => rfl) hrunning
  | finalAnswer answer =>
    simp only [Db.applyNext, tasks_maybeCompleteSession]
    refine Outcomes.update (p := fun r => decide (r.taskId = t.taskId)) h (fun _ => rfl) fun r _ _ => .inr ?_
    exact fun _ => .inl ⟨answer, rfl⟩
  | fail e =>
    simp only [Db.applyNext, tasks_maybeCompleteSession]
    exact h.bump hw.taskIds ht (f := fun r => { r with status := .failed, error := some e }) (fun _ => rfl)
      (by simp)
  | awaitHuman reason =>
    exact h.bump hw.taskIds ht (f := fun r => { r with status := .waitingHuman }) (fun _ => rfl) (by simp)
  | awaitChildren =>
    exact h.bump hw.taskIds ht (f := fun r => { r with status := .waitingChildren }) (fun _ => rfl) (by simp)
  | delegate child wait =>
    obtain ⟨v, target, rfl⟩ : ∃ v target, child = T.child v target := by
      cases hnext
      exact ⟨_, _, rfl⟩
    have hi : Outcomes (db.insertTask (T.child v target)).tasks := h.append (by simp [Turn.child])
    have hwi := (grow_insertTask db.core (T.child v target)).wf hw
    have hti : t ∈ (db.insertTask (T.child v target)).tasks := List.mem_append_left _ ht
    cases wait with
    | true => exact hi.bump hwi.taskIds hti (fun _ => rfl) hrunning
    | false =>
      refine Outcomes.update (p := fun r => decide (r.taskId = t.taskId)) hi (fun _ => rfl) fun r hrm hp =>
        .inr fun _ => .inr ?_
      obtain rfl := eq_of_key Task.taskId hwi.taskIds hrm hti (of_decide_eq_true hp)
      -- the child is not the task that delegates
      have hne : db.nextId ≠ r.taskId := Nat.ne_of_gt (hw.taskLt r ht)
      have hs : (T.child v target).sessionId = r.sessionId := congrArg (·.sessionId) hT
      have hp : (T.child v target).parentTaskId = some r.taskId := congrArg (fun x : Task => some x.taskId) hT
      refine ⟨{ T.child v target with taskId := db.nextId }, rfl, mem_update.mpr ⟨_,
        List.mem_append_right _ (List.mem_singleton_self _), if_neg (by simpa using hne)⟩, ?_, ?_, rfl⟩
      · exact hs
      · exact hp
  | queue req =>
    have hins : Outcomes (db.insertCall t.taskId req now).tasks := h
    exact hins.bump hw.taskIds ht (fun _ => rfl) hrunning

theorem Outcomes.write {pg : Postgres} {G : Json → Prop} (hw : db.core.WellFormed) (h : Outcomes db.tasks)
    (hwr : Write pg now G db db') : Outcomes db'.tasks := by
  cases hwr with
  | aside has =>
    rw [has.tasks]
    exact h
  | opened hc =>
    obtain ⟨goal, rfl⟩ := fnCreateSession_eq hc
    exact h.append (by simp)
  | continued hc =>
    obtain ⟨s, goal, -, -, rfl⟩ := fnContinueSession_eq hc
    exact h.append (by simp)
  | calls _ => exact h
  | approvals _ => exact h
  | approval _ => exact h
  | task hf hs =>
    refine h.updateTask hf fun r hr hid => (hs r hr hid).imp_right fun hu hc => ?_
    have hopen := hu.2
    rw [hc] at hopen
    cases hopen
  | ended hf _ hs =>
    rw [tasks_maybeCompleteSession]
    refine h.updateTask hf fun r hr hid => .inr ?_
    simp [(hs r hr hid).2.2.1]
  | asked _ _ _ => exact h
  | @stepped t a payload s _ ht hr _ hs =>
    have hasks := Turn.payloadStep_asks pg _ payload s hs
    have htm := (mem_of_task? (s := db.core) ht).1
    have htasks := record_tasks db t s now
    have hcore := Db.core_record db t s now
    have hrec : Outcomes (db.record t s now).tasks := by
      rw [htasks]
      exact h
    exact hrec.applyNext (hcore ▸ hw) (htasks ▸ htm) hr rfl hasks
  | cancelled hc =>
    unfold fnCancelSession at hc
    obtain ⟨_, _, hc⟩ := bind_eq_ok.mp hc
    obtain ⟨rfl, -⟩ := Prod.mk.inj (Except.ok.inj hc)
    exact Outcomes.cancelTasks _ h

end Outcomes

section Closing

variable {old db db' : Db} {now : Time}

structure Judges (old db : Db) : Prop where
  sids : ∀ t ∈ db.tasks, t.sessionId < db.nextId
  superseded : ∀ s ∈ db.sessions, s.status ≠ .cancelled → Superseded db.tasks s.sessionId
  judged : ∀ s ∈ db.sessions, s.status = .completed ∨ s.status = .failed → Judged old db.tasks s

/-- The tasks of closed sessions stay as they are, and no turn is cancelled. -/
theorem Judges.of_same (h : Judges old db)
    (hopen : ∀ s ∈ db.sessions, Working db.tasks s.sessionId → s.status = .open)
    (hn : db.nextId ≤ db'.nextId) (hsid : ∀ t' ∈ db'.tasks, ∃ t ∈ db.tasks, t.sessionId = t'.sessionId)
    (hs : ∀ s' ∈ db'.sessions, ∃ s ∈ db.sessions, s.sessionId = s'.sessionId ∧
      s.status = s'.status ∧ (s.status ≠ .open → s.finalAnswer = s'.finalAnswer))
    (hrows : ∀ sid, ¬ Working db.tasks sid → SameRows db.tasks db'.tasks sid)
    (hsup : ∀ sid, Superseded db.tasks sid → Superseded db'.tasks sid) : Judges old db' := by
  refine ⟨fun t' ht' => ?_, fun s' hs' hc => ?_, fun s' hs' hc => ?_⟩
  · obtain ⟨t, ht, he⟩ := hsid t' ht'
    rw [← he]
    exact (h.sids t ht).trans_le hn
  · obtain ⟨s, hsm, hid, hst, -⟩ := hs s' hs'
    rw [← hid]
    exact hsup _ (h.superseded s hsm (hst ▸ hc))
  · obtain ⟨s, hsm, hid, hst, ha⟩ := hs s' hs'
    have hclosed : s.status ≠ .open := by
      rw [hst]
      rcases hc with hc | hc <;> simp [hc]
    have hidle : ¬ Working db.tasks s.sessionId := fun hw => hclosed (hopen s hsm hw)
    exact (h.judged s hsm (hst ▸ hc)).congr (hrows _ hidle) hid hst (ha hclosed)

theorem closeSession_with {s : Session} {x : Task} (hx : x.status = .completed → s.finalAnswer = x.answer) :
    ClosedWith db.tasks (closeSession db s.sessionId now s) x (lastAnswer db s.sessionId) := by
  have hdone : ∀ y, y ∈ (db.tasks.filter (·.sessionId = s.sessionId)).filter (fun t =>
      t.status = .completed ∧ t.parentTaskId = none) ↔
        y ∈ turns db.tasks s.sessionId ∧ y.status = .completed := by
    intro y
    rw [mem_turns]
    simp only [List.mem_filter, decide_eq_true_eq]
    tauto
  have hfailed : someFailed db s.sessionId = true ↔
      ∃ t ∈ db.tasks, t.sessionId = s.sessionId ∧ t.status = .failed := by
    simp [someFailed]
  have hid := closeSession_id db s.sessionId now s
  refine ⟨?_, fun hv hf => ?_, fun hv => ?_⟩
  · rw [hid]
    unfold lastAnswer
    cases hh : (sortDesc (·.updatedAt) ((db.tasks.filter (·.sessionId = s.sessionId)).filter
        fun t => t.status = .completed ∧ t.parentTaskId = none)).head? with
    | none =>
      refine .inr ⟨rfl, fun y hy hyc => ?_⟩
      have hmem : y ∈ sortDesc (·.updatedAt) ((db.tasks.filter (·.sessionId = s.sessionId)).filter
          fun t => t.status = .completed ∧ t.parentTaskId = none) := mem_sortDesc.mpr ((hdone y).mpr ⟨hy, hyc⟩)
      rw [List.head?_eq_none_iff.mp hh] at hmem
      cases hmem
    | some y =>
      obtain ⟨hym, hmax⟩ := head_sortDesc hh
      exact .inl ⟨y, ⟨(hdone y).mp hym, fun z hz hzc => hmax z ((hdone z).mpr ⟨hz, hzc⟩)⟩, rfl⟩
  · rw [hid] at hf
    unfold closeSession
    rw [if_pos ⟨hfailed.mpr hf, hv⟩]
  · rw [hid] at hv
    have hno : ¬(someFailed db s.sessionId = true ∧ lastAnswer db s.sessionId = none) := by
      rintro ⟨hf, hnone⟩
      obtain ⟨t, ht, hts, htf⟩ := hfailed.mp hf
      exact hv.elim (fun hne => hne hnone) fun hall => hall t ht hts htf
    unfold closeSession
    rw [if_neg hno]
    exact ⟨rfl, s.finalAnswer, rfl, hx⟩

/-- The tasks that were over stay as they are. -/
def OversKept (old db : Db) : Prop :=
  ∀ i v, v.1.finished = true → Stands i v old.tasks → Stands i v db.tasks

/-- A task at work ends. -/
theorem endsWork_update (hk : OversKept old db) (hn : (db.tasks.map (·.taskId)).Nodup) {t : Task} {f : Task → Task}
    (ht : t ∈ db.tasks) (hu : t.status.finished = false) (hf : ∀ r, (f r).frame = r.frame)
    (hs : (f t).status = .completed ∨ (f t).status = .failed)
    (hidle : ¬ Working (db.updateTask t.taskId f).tasks t.sessionId) :
    EndsWork old.tasks (db.updateTask t.taskId f).tasks (f t) := by
  have hft : (f t).taskId = t.taskId ∧ (f t).sessionId = t.sessionId :=
    ⟨congrArg (·.1.1) (hf t), congrArg (·.1.2.1) (hf t)⟩
  refine ⟨mem_update.mpr ⟨t, ht, if_pos (decide_eq_true rfl)⟩, fun y hy hid => ?_, hs, hft.2.symm ▸ hidle⟩
  by_contra hover
  have hfinished : y.verdict.1.finished = true := Bool.not_eq_false _ ▸ hover
  obtain ⟨z, hz, hzid, hzv⟩ := hk y.taskId y.verdict hfinished ⟨y, hy, rfl, rfl⟩
  obtain rfl := eq_of_key Task.taskId hn hz ht (hzid.trans (hid.trans hft.1))
  have hst : z.status = y.status := congrArg (·.1) hzv
  rw [← hst, hu] at hover
  exact hover rfl

/-- The session is closed when the last of its tasks ends. -/
theorem Judges.complete (h : Judges old db) (sid : Uuid)
    (hends : ¬ Working db.tasks sid → ∃ x, EndsWork old.tasks db.tasks x ∧ x.sessionId = sid ∧
      ∀ s ∈ db.sessions, s.sessionId = sid → x.status = .completed → s.finalAnswer = x.answer) :
    Judges old (db.maybeCompleteSession sid now) := by
  rcases maybeCompleteSession_cases db sid now with ⟨-, he⟩ | ⟨hidle, he⟩
  · rw [he]
    exact h
  · rw [he]
    refine ⟨h.sids, fun s' hs' hc => ?_, fun s' hs' hc => ?_⟩
    · obtain ⟨s, hs, rfl⟩ := mem_update.mp hs'
      by_cases ho : s.sessionId = sid ∧ s.status = .open
      · rw [if_pos (decide_eq_true ho), closeSession_id]
        exact h.superseded s hs (by simp [ho.2])
      · rw [if_neg (by simpa using ho)] at hc ⊢
        exact h.superseded s hs hc
    · obtain ⟨s, hs, rfl⟩ := mem_update.mp hs'
      by_cases ho : s.sessionId = sid ∧ s.status = .open
      · obtain ⟨x, hx, hxs, hans⟩ := hends hidle
        rw [if_pos (decide_eq_true ho), ← ho.1]
        exact .inr ⟨x, _, hx, hxs.trans (ho.1.symm.trans (closeSession_id db s.sessionId now s).symm),
          closeSession_with (hans s hs ho.1)⟩
      · rw [if_neg (by simpa using ho)] at hc ⊢
        exact h.judged s hs hc

/-- A task of a session that is open changes; none is cancelled. -/
theorem Judges.updateTask (h : Judges old db)
    (hopen : ∀ s ∈ db.sessions, Working db.tasks s.sessionId → s.status = .open) {id : Uuid}
    {f : Task → Task} (hf : ∀ r, (f r).frame = r.frame)
    (hv : ∀ r ∈ db.tasks, r.taskId = id → (f r).verdict = r.verdict ∨
      (r.status.finished = false ∧ (f r).status ≠ .cancelled)) : Judges old (db.updateTask id f) := by
  refine h.of_same hopen (Nat.le_refl _) (fun t' ht' => ?_) (fun s hs => ⟨s, hs, rfl, rfl, fun _ => rfl⟩)
    (fun sid hidle => sameRows_update hf fun r hr hp hrs => ?_)
    fun sid hsup => hsup.update hf fun r hr hp hc => ?_
  · obtain ⟨t, ht, rfl⟩ := mem_update.mp ht'
    refine ⟨t, ht, ?_⟩
    split_ifs
    · exact (congrArg (·.1.2.1) (hf t)).symm
    · rfl
  · rcases hv r hr (by simpa using hp) with hv | ⟨hu, -⟩
    · exact hv
    · exact absurd ⟨r, hr, hrs, hu⟩ hidle
  · rcases hv r hr (by simpa using hp) with hv | ⟨-, hne⟩
    · exact (congrArg (·.1) hv).symm.trans hc
    · exact absurd hc hne

theorem Judges.insertTask (h : Judges old db)
    (hopen : ∀ s ∈ db.sessions, Working db.tasks s.sessionId → s.status = .open) {t : Task}
    (ht : Working db.tasks t.sessionId) (hs : t.status ≠ .cancelled) : Judges old (db.insertTask t) := by
  refine h.of_same hopen (Nat.le_succ _) (fun t' ht' => ?_) (fun s hs => ⟨s, hs, rfl, rfl, fun _ => rfl⟩)
    (fun sid hidle => sameRows_append fun he => hidle (he ▸ ht)) fun sid hsup => hsup.append hs
  rcases List.mem_append.mp ht' with ht' | ht'
  · exact ⟨t', ht', rfl⟩
  · obtain ⟨r, hr, hrs, -⟩ := ht
    obtain rfl := List.mem_singleton.mp ht'
    exact ⟨r, hr, hrs⟩

theorem Judges.opened {agentId : Uuid} {goal : Option String} {projectId scheduleId : Option Uuid}
    {ids : Uuid × Uuid} (h : Judges old db) (hids : ∀ s ∈ db.sessions, s.sessionId < db.nextId)
    (hc : fnCreateSession now db agentId goal projectId scheduleId = .ok (db', ids)) :
    Judges old db' := by
  obtain ⟨goal', rfl⟩ := fnCreateSession_eq hc
  refine ⟨fun t ht => ?_, fun s hs hne => ?_, fun s hs hcl => ?_⟩
  · rcases List.mem_append.mp ht with ht | ht
    · exact Nat.lt_of_lt_of_le (h.sids t ht) (Nat.le_add_right _ 2)
    · obtain rfl := List.mem_singleton.mp ht
      exact Nat.lt_add_of_pos_right (by decide : 0 < 2)
  · rcases List.mem_append.mp hs with hs | hs
    · exact (h.superseded s hs hne).append (by simp)
    · obtain rfl := List.mem_singleton.mp hs
      refine Superseded.append (fun r hr hrc => ?_) (by simp)
      obtain ⟨hrm, hrs, -⟩ := mem_turns.mp hr
      have hlt := h.sids r hrm
      rw [hrs] at hlt
      exact absurd hlt (Nat.lt_irrefl _)
  · rcases List.mem_append.mp hs with hs | hs
    · refine (h.judged s hs hcl).congr (sameRows_append fun he => ?_) rfl rfl rfl
      have hlt := hids s hs
      rw [← he] at hlt
      exact absurd hlt (Nat.lt_irrefl _)
    · obtain rfl := List.mem_singleton.mp hs
      simp at hcl

theorem Judges.continued {sid taskId : Uuid} {message : Option String} (h : Judges old db)
    (hids : ∀ s ∈ db.sessions, s.sessionId < db.nextId) (hlt : ∀ t ∈ db.tasks, t.taskId < db.nextId)
    (hc : fnContinueSession now db sid message = .ok (db', taskId)) : Judges old db' := by
  obtain ⟨s₀, goal, hs₀, -, rfl⟩ := fnContinueSession_eq hc
  have hid : ∀ s : Session, (if decide (s.sessionId = sid) then
      { s with status := .open, completedAt := none } else s).sessionId = s.sessionId := by
    intro s
    split_ifs <;> rfl
  refine ⟨fun t ht => ?_, fun s' hs' hne => ?_, fun s' hs' hcl => ?_⟩
  · rcases List.mem_append.mp ht with ht | ht
    · exact Nat.lt_succ_of_lt (h.sids t ht)
    · obtain rfl := List.mem_singleton.mp ht
      have hs₀id : s₀.sessionId = sid := by simpa using List.find?_some hs₀
      have := hids s₀ (List.mem_of_find?_eq_some hs₀)
      rw [hs₀id] at this
      exact Nat.lt_succ_of_lt this
  · obtain ⟨s, hs, rfl⟩ := mem_update.mp hs'
    rw [hid]
    by_cases hsid : s.sessionId = sid
    · intro r hr hrc
      obtain ⟨hrm, hrs, hrp⟩ := mem_turns.mp hr
      rcases List.mem_append.mp hrm with hrm | hrm
      · exact ⟨_, mem_turns.mpr ⟨List.mem_append_right _ (List.mem_singleton_self _), hsid.symm, rfl⟩,
          hlt r hrm⟩
      · obtain rfl := List.mem_singleton.mp hrm
        simp at hrc
    · rw [if_neg (by simp [hsid])] at hne
      exact (h.superseded s hs hne).append (by simp)
  · obtain ⟨s, hs, rfl⟩ := mem_update.mp hs'
    by_cases hsid : s.sessionId = sid
    · rw [if_pos (decide_eq_true hsid)] at hcl
      simp at hcl
    · rw [if_neg (by simp [hsid])] at hcl ⊢
      exact (h.judged s hs hcl).congr (sameRows_append fun he => hsid he.symm) rfl rfl rfl

theorem sameRows_cancelTasks (said : String) {ts : List Task} {i : Uuid}
    (h : ∀ t ∈ ts, ∀ r ∈ db.tasks, r.taskId = t.taskId → r.sessionId ≠ i) :
    SameRows db.tasks (ts.foldl (Db.cancelTask now said) db).tasks i := by
  induction ts generalizing db with
  | nil => exact SameRows.refl _ _
  | cons t ts ih =>
    have hf : ∀ r : Task, ({ r with
        status := .cancelled
        error := some "operator_cancelled"
        stepCount := r.stepCount + 1
        updatedAt := now } : Task).frame = r.frame := fun _ => rfl
    have hstep : SameRows db.tasks (db.cancelTask now said t).tasks i :=
      sameRows_update hf fun r hr hp hrs => absurd hrs (h t (by simp) r hr (by simpa using hp))
    refine hstep.trans (ih fun u hu r' hr' hid => ?_)
    obtain ⟨r, hr, rfl⟩ := mem_update.mp hr'
    have hsame : ∀ x : Task, (if decide (x.taskId = t.taskId) then ({ x with
        status := .cancelled
        error := some "operator_cancelled"
        stepCount := x.stepCount + 1
        updatedAt := now } : Task) else x).frame = x.frame := by
      intro x
      split_ifs <;> rfl
    have hrid := (congrArg (·.1.1) (hsame r)).symm.trans hid
    have hrs := congrArg (·.1.2.1) (hsame r)
    exact fun he => h u (by simp [hu]) r hr hrid (hrs.symm.trans he)

theorem Judges.cancelled {sid : Uuid} {reason : Option String} {n : Nat} (h : Judges old db)
    (ha : Agrees db) (hw : db.core.WellFormed)
    (hc : fnCancelSession now db sid reason = .ok (db', n)) : Judges old db' := by
  unfold fnCancelSession at hc
  obtain ⟨_, _, hc⟩ := bind_eq_ok.mp hc
  obtain ⟨rfl, -⟩ := Prod.mk.inj (Except.ok.inj hc)
  obtain ⟨hsess, hnext, hframes⟩ := cancelTasks_sessions now
    ((trimmed reason).getD "Cancelled by operator.")
    (db.tasks.filter fun t => t.sessionId = sid ∧ unfinished t) db
  have hrows : ∀ s ∈ db.sessions, ¬ (s.sessionId = sid ∧ s.status = .open) →
      SameRows db.tasks ((db.tasks.filter fun t => t.sessionId = sid ∧ unfinished t).foldl
        (Db.cancelTask now ((trimmed reason).getD "Cancelled by operator.")) db).tasks
        s.sessionId := by
    intro s hs ho
    refine sameRows_cancelTasks _ fun t ht r hr hid hrs => ho ?_
    obtain ⟨htm, htp⟩ := List.mem_filter.mp ht
    obtain ⟨hts, htu⟩ : t.sessionId = sid ∧ t.status.finished = false := by
      simpa [unfinished] using htp
    obtain rfl := eq_of_key Task.taskId hw.taskIds hr htm hid
    exact ⟨hrs.symm.trans hts, (ha.status s hs).mpr ⟨r, htm, hrs, htu⟩⟩
  refine ⟨fun t ht => ?_, fun s' hs' hne => ?_, fun s' hs' hcl => ?_⟩
  · obtain ⟨r, hr, he⟩ := mem_of_ident hframes ht
    rw [show t.sessionId = r.sessionId from (congrArg (·.1.2.1) he).symm]
    exact (h.sids r hr).trans_eq hnext.symm
  · obtain ⟨s, hs, rfl⟩ := mem_update.mp hs'
    replace hs : s ∈ db.sessions := hsess ▸ hs
    by_cases ho : s.sessionId = sid ∧ s.status = .open
    · rw [if_pos (decide_eq_true ho)] at hne
      simp at hne
    · rw [if_neg (by simpa using ho)] at hne ⊢
      exact (h.superseded s hs hne).congr (hrows s hs ho)
  · obtain ⟨s, hs, rfl⟩ := mem_update.mp hs'
    replace hs : s ∈ db.sessions := hsess ▸ hs
    by_cases ho : s.sessionId = sid ∧ s.status = .open
    · rw [if_pos (decide_eq_true ho)] at hcl
      simp at hcl
    · rw [if_neg (by simpa using ho)] at hcl ⊢
      exact (h.judged s hs hcl).congr (hrows s hs ho) rfl rfl rfl

theorem Judges.same (h : Judges old db)
    (hopen : ∀ s ∈ db.sessions, Working db.tasks s.sessionId → s.status = .open)
    (hn : db.nextId ≤ db'.nextId) (ht : db'.tasks = db.tasks)
    (hs : ∀ s' ∈ db'.sessions, ∃ s ∈ db.sessions, s.sessionId = s'.sessionId ∧
      s.status = s'.status ∧ (s.status ≠ .open → s.finalAnswer = s'.finalAnswer)) : Judges old db' := by
  refine h.of_same hopen hn (fun t ht' => ⟨t, ht ▸ ht', rfl⟩) hs (fun sid _ => ?_) fun sid hsup => ?_
  · rw [ht]
    exact SameRows.refl _ _
  · rw [ht]
    exact hsup

theorem Judges.bump {t : Task} {f : Task → Task} (h : Judges old db)
    (hopen : ∀ s ∈ db.sessions, Working db.tasks s.sessionId → s.status = .open)
    (hn : (db.tasks.map (·.taskId)).Nodup) (ht : t ∈ db.tasks) (hr : t.status = .running)
    (hf : ∀ r, (f r).frame = r.frame) (hs : (f t).status ≠ .cancelled) :
    Judges old (db.bump t.taskId now f) := by
  refine h.updateTask hopen (fun r => hf r) fun r hrm hid => .inr ?_
  rw [eq_of_key Task.taskId hn hrm ht hid]
  exact ⟨finished_of_running hr, hs⟩

theorem Judges.applyNext {pg : Postgres} {T : Turn} {t : Task} {next : Next} (h : Judges old db)
    (ha : Agrees db) (hk : OversKept old db) (hw : db.core.WellFormed) (ht : t ∈ db.tasks)
    (hr : t.status = .running)
    (hT : T.task = t) (hnext : T.Asks pg next) : Judges old (db.applyNext t next now) := by
  have hopen : ∀ s ∈ db.sessions, Working db.tasks s.sessionId → s.status = .open :=
    fun s hs => (ha.status s hs).mpr
  have hwork : Working db.tasks t.sessionId := ⟨t, ht, rfl, finished_of_running hr⟩
  have hrunning : t.status ≠ .cancelled := by simp [hr]
  have hbump : ∀ f : Task → Task, (∀ r, (f r).frame = r.frame) → (f t).status ≠ .cancelled →
      Judges old (db.bump t.taskId now f) := fun f hf hs => h.bump hopen hw.taskIds ht hr hf hs
  cases next with
  | again => exact hbump id (fun _ => rfl) hrunning
  | finalAnswer answer =>
    let f : Task → Task := fun r =>
      { r with status := .completed, output := some (.object [("answer", .str answer)]) }
    have hf : ∀ r, (f r).frame = r.frame := fun _ => rfl
    have hj : Judges old (db.bump t.taskId now f) := hbump f hf (by simp [f])
    have hpend := ha.finish now f hw.taskIds ht (fun r => congrArg (·.1) (hf r)) rfl
    have hset : Judges old ((db.bump t.taskId now f).updateSession t.sessionId
        fun s => { s with finalAnswer := some answer }) := by
      refine hj.same hpend.working (Nat.le_refl _) rfl fun s' hs' => ?_
      obtain ⟨s, hs, rfl⟩ := mem_update.mp hs'
      refine ⟨s, hs, ?_⟩
      by_cases hsid : s.sessionId = t.sessionId
      · rw [if_pos (decide_eq_true hsid)]
        exact ⟨rfl, rfl, fun hne => absurd (hopen s hs (hsid ▸ hwork)) hne⟩
      · rw [if_neg (by simp [hsid])]
        exact ⟨rfl, rfl, fun _ => rfl⟩
    refine hset.complete t.sessionId fun hidle => ?_
    have hx := endsWork_update hk hw.taskIds ht (finished_of_running hr) (f := fun r => { f r with
      stepCount := r.stepCount + 1
      updatedAt := now }) hf (.inl rfl) hidle
    refine ⟨_, hx, rfl, fun s' hs' hsid _ => ?_⟩
    obtain ⟨s, hs, rfl⟩ := mem_update.mp hs'
    by_cases hid : s.sessionId = t.sessionId
    · rw [if_pos (decide_eq_true hid)]
      rfl
    · rw [if_neg (by simp [hid])] at hsid
      exact absurd hsid hid
  | fail e =>
    let f : Task → Task := fun r => { r with status := .failed, error := some e }
    have hf : ∀ r, (f r).frame = r.frame := fun _ => rfl
    have hj : Judges old (db.bump t.taskId now f) := hbump f hf (by simp [f])
    refine hj.complete t.sessionId fun hidle => ?_
    have hx := endsWork_update hk hw.taskIds ht (finished_of_running hr) (f := fun r => { f r with
      stepCount := r.stepCount + 1
      updatedAt := now }) hf (.inr rfl) hidle
    exact ⟨_, hx, rfl, fun _ _ _ hc => by cases hc⟩
  | awaitHuman reason =>
    have hf : ∀ r : Task, ({ r with status := .waitingHuman } : Task).frame = r.frame := fun _ => rfl
    have hb : Agrees (db.bump t.taskId now fun r => { r with status := .waitingHuman }) :=
      ha.bump hw.taskIds ht hr (fun r => congrArg (·.1) (hf r)) rfl
    have hj := hbump (fun r => { r with status := .waitingHuman }) hf (by simp)
    exact hj.same (fun s hs => (hb.status s hs).mpr) (Nat.le_succ _) rfl
      fun s hs => ⟨s, hs, rfl, rfl, fun _ => rfl⟩
  | awaitChildren => exact hbump _ (fun _ => rfl) (by simp)
  | delegate child wait =>
    obtain ⟨v, target, rfl⟩ : ∃ v target, child = T.child v target := by
      cases hnext
      exact ⟨_, _, rfl⟩
    have hc : (T.child v target).sessionId = t.sessionId := congrArg (·.sessionId) hT
    have hi : Judges old (db.insertTask (T.child v target)) :=
      h.insertTask hopen (hc ▸ hwork) (by simp [Turn.child])
    have hai : Agrees (db.insertTask (T.child v target)) := ha.insertTask (hc ▸ hwork)
    have hwi := (grow_insertTask db.core (T.child v target)).wf hw
    have hti : t ∈ (db.insertTask (T.child v target)).tasks := List.mem_append_left _ ht
    have hopen' := fun s hs => (hai.status s hs).mpr
    cases wait with
    | true => exact hi.bump hopen' hwi.taskIds hti hr (fun _ => rfl) hrunning
    | false =>
      refine hi.bump hopen' hwi.taskIds hti hr (f := fun r => { r with
        status := .completed
        output := some (.object [("child_task_id", .str (uuidText db.nextId))]) })
        (fun _ => rfl) (by simp)
  | queue req =>
    have hi : Judges old (db.insertCall t.taskId req now) := h.same hopen (Nat.le_succ _) rfl
      fun s hs => ⟨s, hs, rfl, rfl, fun _ => rfl⟩
    exact hi.bump hopen hw.taskIds ht hr (fun _ => rfl) hrunning

theorem Judges.write {pg : Postgres} {G : Json → Prop} (hw : db.core.WellFormed) (ha : Agrees db)
    (hk : OversKept old db) (h : Judges old db) (hwr : Write pg now G db db') : Judges old db' := by
  have hopen : ∀ s ∈ db.sessions, Working db.tasks s.sessionId → s.status = .open :=
    fun s hs => (ha.status s hs).mpr
  have hsame : ∀ s ∈ db.sessions, ∃ r ∈ db.sessions, r.sessionId = s.sessionId ∧
      r.status = s.status ∧ (r.status ≠ .open → r.finalAnswer = s.finalAnswer) :=
    fun s hs => ⟨s, hs, rfl, rfl, fun _ => rfl⟩
  cases hwr with
  | aside has => exact h.same hopen has.nextId has.tasks (has.sessions ▸ hsame)
  | opened hc => exact h.opened ha.ids hc
  | continued hc => exact h.continued ha.ids hw.taskLt hc
  | calls _ => exact h.same hopen (Nat.le_refl _) rfl hsame
  | approvals _ => exact h.same hopen (Nat.le_refl _) rfl hsame
  | approval _ => exact h.same hopen (Nat.le_succ _) rfl hsame
  | task hf hs =>
    refine h.updateTask hopen hf fun r hr hid => (hs r hr hid).imp_right fun ⟨hu, hu'⟩ => ⟨hu, ?_⟩
    intro hc
    rw [hc] at hu'
    cases hu'
  | @ended id sid f hf ht hs =>
    have hj : Judges old (db.updateTask id f) := by
      refine h.updateTask hopen hf fun r hr hid => .inr ?_
      obtain ⟨-, hu, hfail, -⟩ := hs r hr hid
      exact ⟨hu, by simp [hfail]⟩
    obtain ⟨t, htm, rfl⟩ := ht
    obtain ⟨rfl, hu, hfail, -⟩ := hs t htm rfl
    refine hj.complete t.sessionId fun hidle => ?_
    have hx := endsWork_update hk hw.taskIds htm hu hf (.inr hfail) hidle
    exact ⟨f t, hx, congrArg (·.1.2.1) (hf t), fun _ _ _ hc => absurd (hc.symm.trans hfail) (by decide)⟩
  | asked _ _ _ => exact h.same hopen (Nat.le_succ _) rfl hsame
  | @stepped t a payload s _ ht hr _ hs =>
    have hasks := Turn.payloadStep_asks pg _ payload s hs
    have htm := (mem_of_task? (s := db.core) ht).1
    have htasks := record_tasks db t s now
    have hcore := Db.core_record db t s now
    have hj : Judges old (db.record t s now) := by
      refine h.same hopen (record_nextId db t s now).ge htasks fun s' hs' => ?_
      obtain ⟨r, hr, hid, hst, hans⟩ := record_sessions db t s now s' hs'
      exact ⟨r, hr, hid, hst, fun _ => hans⟩
    have hkr : OversKept old (db.record t s now) := by
      intro i v hv hst
      rw [htasks]
      exact hk i v hv hst
    exact hj.applyNext (ha.record t s now) hkr (hcore ▸ hw) (htasks ▸ htm) hr rfl hasks
  | cancelled hc => exact h.cancelled ha hw hc

end Closing

section Following

variable {tasks tasks' : List Task} {sid : Uuid} {db db' : Db}

theorem SameRows.path {r r' t : Task} (h : SameRows tasks tasks' sid)
    (hp : Relation.ReflTransGen (HandsTo tasks) r t) (hs : r.sessionId = sid) (he : r'.entry = r.entry) :
    t.sessionId = sid ∧ ∃ t', t'.entry = t.entry ∧ Relation.ReflTransGen (HandsTo tasks') r' t' := by
  induction hp with
  | refl => exact ⟨hs, r', he, .refl⟩
  | @tail b c _ hstep ih =>
    obtain ⟨hb, b', hbe, hpath⟩ := ih
    have hc : c.sessionId = sid := hstep.2.2.1.trans hb
    obtain ⟨c', hc', hce⟩ := h.old c hstep.2.1 hc
    exact ⟨hc, c', hce, hpath.tail (hstep.congr hbe hc' (congrArg (·.1) hce))⟩

theorem Carries.congr {r r' t : Task} (h : Carries tasks r t) (hr : SameRows tasks tasks' sid)
    (hs : r.sessionId = sid) (he : r'.entry = r.entry) : ∃ t', t'.entry = t.entry ∧ Carries tasks' r' t' := by
  obtain ⟨hts, t', hte, hpath⟩ := hr.path h.1 hs he
  refine ⟨t', hte, hpath, fun u' hu' => ?_⟩
  have hus : u'.sessionId = sid := hu'.2.2.1.trans ((entry_sessionId hte).trans hts)
  obtain ⟨u, hu, hue⟩ := hr.new u' hu'.2.1 hus
  exact h.2 u (hu'.congr hte.symm hu (congrArg (·.1) hue).symm)

/-- Every session that is closed, but not cancelled, follows its latest turn. -/
def Following (db : Db) : Prop :=
  ∀ s ∈ db.sessions, s.status = .completed ∨ s.status = .failed →
    ∀ r, LatestTurn db.tasks s.sessionId r → ∃ t, Carries db.tasks r t ∧ Follows s r t

theorem HandsTo.answer {t u : Task} (h : HandsTo tasks t u) : t.answer = none := by
  rw [Task.answer, h.2.2.2.2]
  rfl

theorem not_handsTo_of_answer {t : Task} {a : String} (h : t.answer = some a) (u : Task) : ¬ HandsTo tasks t u := by
  intro hu
  rw [hu.answer] at h
  cases h

/-- A session that was closed with its rows in order follows its latest turn. -/
theorem ClosedWith.follows {s : Session} {r x : Task} {v : Option String} (hc : ClosedWith tasks s x v)
    (hr : LatestTurn tasks s.sessionId r) (hover : r.status = .completed ∨ r.status = .failed)
    (hset : Settled tasks r) (hx : x.status = .completed ∨ x.status = .failed) (hxm : x ∈ tasks)
    (hxs : x.sessionId = s.sessionId) (hord : TurnOrdered tasks r x) :
    ∃ t, Carries tasks r t ∧ Follows s r t := by
  obtain ⟨hrm, hrs, -⟩ := mem_turns.mp hr.1
  have hpicked : v = r.ownAnswer ∨ v = none ∧ ∀ y ∈ turns tasks s.sessionId, y.status ≠ .completed :=
    hc.picked.imp_left fun ⟨y, hy, hv⟩ => hv.symm.trans (hord.last y (hrs.symm ▸ hy))
  rcases hover with hdone | hfail
  · -- the latest turn is over: it answered or was handed on
    have hnf : r.status ≠ .failed := by simp [hdone]
    obtain rfl : v = r.ownAnswer := hpicked.resolve_right fun h => h.2 r hr.1 hdone
    have hown : r.ownAnswer = r.answer := if_pos hdone
    rw [hown] at hc
    rcases hset hdone with ⟨a, ha⟩ | ⟨u, hu⟩
    · have hans : r.answer = some a := by
        rw [Task.answer, ha]
        rfl
      obtain ⟨hst, w, hw, -⟩ := hc.completed (.inl (by simp [hans]))
      refine ⟨r, ⟨.refl, not_handsTo_of_answer hans⟩, fun hf => absurd hf hnf, fun _ => ⟨hst, ?_⟩⟩
      rw [hw, hans]
      rfl
    · obtain ⟨hcar, hnone⟩ := hord.handed ⟨u, hu⟩
      rw [hrs] at hnone
      obtain ⟨hst, w, hw, hwx⟩ := hc.completed (.inr hnone)
      have hxc : x.status = .completed := hx.resolve_right (hnone x hxm hxs)
      refine ⟨x, hcar, fun hf => absurd hf hnf, fun _ => ⟨hst, ?_⟩⟩
      rw [hw, hu.answer, hwx hxc]
      rfl
  · have hown : r.ownAnswer = none := if_neg (by simp [hfail])
    have hv : v = none := hpicked.elim (fun h => h.trans hown) And.left
    refine ⟨r, ⟨.refl, fun u hu => ?_⟩, fun _ => hc.failed hv ⟨r, hrm, hrs, hfail⟩,
      fun hne => absurd hfail hne⟩
    exact absurd (hfail.symm.trans hu.1) (by decide)

theorem following_of_judges (ho : Outcomes db'.tasks) (hj : Judges db db') (hf : Following db)
    (hord : ∀ x, EndsWork db.tasks db'.tasks x → ∀ r, LatestTurn db'.tasks x.sessionId r →
      TurnOrdered db'.tasks r x) :
    Following db' := by
  intro s hs hcl r hr
  obtain ⟨hrm, hrs, -⟩ := mem_turns.mp hr.1
  rcases hj.judged s hs hcl with ⟨s₀, hs₀, hid, hst, hans, hrows⟩ | ⟨x, v, hx, hxs, hc⟩
  · -- closed before this step, with the rows it has now
    obtain ⟨r₀, hr₀, he⟩ := hrows.turn_new (hid.symm ▸ hr.1)
    have hlatest : LatestTurn db.tasks s₀.sessionId r₀ := by
      refine ⟨hr₀, fun y hy => ?_⟩
      obtain ⟨y', hy', hye⟩ := hrows.turn_old hy
      have hle := hr.2 y' (hid ▸ hy')
      rwa [entry_taskId hye, entry_taskId he] at hle
    obtain ⟨t, hcar, hfol⟩ := hf s₀ hs₀ (hst ▸ hcl) r₀ hlatest
    obtain ⟨t', hte, hcar'⟩ := hcar.congr hrows (mem_turns.mp hr₀).2.1 he
    refine ⟨t', hcar', ?_⟩
    rw [Follows, entry_status he, entry_answer hte, ← hst, ← hans]
    exact hfol
  · have hover : r.status.finished = true := by
      by_contra hu
      exact hx.idle ⟨r, hrm, hrs.trans hxs.symm, by simpa using hu⟩
    have hnc : r.status ≠ .cancelled := by
      intro hcan
      have hsc : s.status ≠ .cancelled := by rcases hcl with hcl | hcl <;> simp [hcl]
      obtain ⟨y, hy, hlt⟩ := hj.superseded s hs hsc r hr.1 hcan
      exact absurd (hr.2 y hy) (Nat.not_le.mpr hlt)
    have hends : r.status = .completed ∨ r.status = .failed := by
      cases hst : r.status <;> simp_all [TaskStatus.finished]
    exact hc.follows hr hends (ho r hrm) hx.ended hx.mem hxs (hord x hx r (hxs.symm ▸ hr))

/-- A new step starts where the last one ended. -/
theorem Judges.restart (h : Judges db db') : Judges db' db' :=
  ⟨h.sids, h.superseded, fun s hs _ => .inl ⟨s, hs, rfl, rfl, rfl, .refl _ _⟩⟩

theorem judges_step (pg : Postgres) (e : Event) (hw : db.core.WellFormed) (ha : Agrees db)
    (ho : Outcomes db.tasks) (hj : Judges db db) : Agrees (step pg db e) ∧ OversKept db (step pg db e) ∧
      Outcomes (step pg db e).tasks ∧ Judges db (step pg db e) := by
  refine (step_writes pg e hw).invariant hw (I := fun d => Agrees d ∧ OversKept db d ∧ Outcomes d.tasks ∧
    Judges db d) (fun hw ⟨ha, hk, ho, hj⟩ hwr => ⟨ha.write hw hwr, fun i v hv h => (hk i v hv h).write hw hv hwr,
      ho.write hw hwr, hj.write hw ha hk hwr⟩) ⟨ha, fun _ _ _ h => h, ho, hj⟩

end Following

/-- In every run that leaves the rows of each session in order where its work ends, a session that
is closed, but not cancelled, follows its latest turn. -/
theorem session_follows_latest_turn (pg : Postgres) (c : Config) (es : List Event)
    (hord : Along (step pg) (InOrder pg) (start c) es) :
    ∀ s ∈ (run (step pg) (start c) es).sessions, s.status = .completed ∨ s.status = .failed →
      ∀ r, LatestTurn (run (step pg) (start c) es).tasks s.sessionId r →
        ∃ t, Carries (run (step pg) (start c) es).tasks r t ∧ Follows s r t := by
  let I : Db → Prop := fun db =>
    db.core.WellFormed ∧ Agrees db ∧ Outcomes db.tasks ∧ Judges db db ∧ Following db
  have hstep : ∀ (db : Db) e, I db → InOrder pg db e → I (step pg db e) := by
    intro db e ⟨hw, ha, ho, hj, hf⟩ hin
    obtain ⟨ha', -, ho', hj'⟩ := judges_step pg e hw ha ho hj
    exact ⟨wellFormed_step pg e hw, ha', ho', hj'.restart, following_of_judges ho' hj' hf hin⟩
  have hstart : I (start c) := ⟨wellFormed_start c, ⟨by simp [start], by simp [start]⟩,
    by simp [start, Outcomes], ⟨by simp [start], by simp [start], by simp [start]⟩,
    by simp [start, Following]⟩
  exact (Runs.invariant hstep hstart hord).2.2.2.2

def threadConfig : Config where
  agents := [{ agentId := 1, name := "clerk" }]
  policies := [{
    agentId := 1
    systemPrompt := "serve"
    maxRetries := 0
    llmConfig := .object [("provider", .str "llm"), ("model", .str "m")] }]
  providers := [{ providerId := 3, name := "llm", baseUrl := "https://llm.example" }]
  nextId := 10

/-- One turn with an answer. -/
def answeredRun : List Event :=
  [⟨1, .createSession 1 (some "go") none none⟩, ⟨2, .dispatch (fun _ => 0) []⟩,
    ⟨3, .claim .outboundCalls none none []⟩,
    ⟨4, .completeOutbound 3 (some 200)
      (some "\x7b\"action\":\"final_answer\",\"answer\":\"yes\"\x7d")⟩]

/-- And a second one that fails. -/
def failedTurnRun : List Event :=
  answeredRun ++ [⟨5, .continueSession 1 (some "again")⟩, ⟨6, .dispatch (fun _ => 0) []⟩,
    ⟨7, .claim .outboundCalls none none []⟩, ⟨8, .completeOutbound 5 (some 500) none⟩]

def handedConfig : Config :=
  { threadConfig with
    agents := [{ agentId := 1, name := "clerk" }, { agentId := 2, name := "helper" }]
    policies := threadConfig.policies ++ threadConfig.policies.map fun p => { p with agentId := 2 }
    permissions := [⟨1, .agent, "helper"⟩] }

/-- After a turn with an answer one that is handed on to another agent, which answers it. -/
def handedTurnRun : List Event :=
  answeredRun ++ [⟨5, .continueSession 1 (some "again")⟩, ⟨6, .dispatch (fun _ => 0) []⟩,
    ⟨7, .claim .outboundCalls none none []⟩,
    ⟨8, .completeOutbound 5 (some 200) (some "\x7b\"action\":\"delegate\",\"agent_name\":\"helper\"\x7d")⟩,
    ⟨9, .dispatch (fun _ => 0) []⟩, ⟨10, .claim .outboundCalls none none []⟩,
    ⟨11, .completeOutbound 7 (some 200)
      (some "\x7b\"action\":\"final_answer\",\"answer\":\"no\"\x7d")⟩]

section Direct

variable (old tasks : List Task) (sid : Uuid) (t u : Task)

instance : Decidable (Working tasks sid) :=
  inferInstanceAs (Decidable (∃ t ∈ tasks, _))

instance : Decidable (HandsTo tasks t u) :=
  inferInstanceAs (Decidable (_ ∧ _))

instance : Decidable (LastUpdated tasks sid t) :=
  inferInstanceAs (Decidable (_ ∧ _))

instance : Decidable (EndsWork old tasks t) :=
  decidable_of_iff (t ∈ tasks ∧ (∀ y ∈ old, y.taskId = t.taskId → y.status.finished = false) ∧
    (t.status = .completed ∨ t.status = .failed) ∧ ¬ Working tasks t.sessionId)
    ⟨fun h => ⟨h.1, h.2.1, h.2.2.1, h.2.2.2⟩, fun h => ⟨h.mem, h.before, h.ended, h.idle⟩⟩

/-- Rows in order, with a turn that was handed on once at most. -/
def DirectlyOrdered (tasks : List Task) (r x : Task) : Prop :=
  (∀ y ∈ turns tasks r.sessionId, LastUpdated tasks r.sessionId y → y.answer = r.ownAnswer) ∧
    ((∃ u ∈ tasks, HandsTo tasks r u) → HandsTo tasks r x ∧ (∀ u ∈ tasks, ¬ HandsTo tasks x u) ∧
      ∀ t ∈ tasks, t.sessionId = r.sessionId → t.status ≠ .failed)

instance : Decidable (DirectlyOrdered tasks t u) :=
  inferInstanceAs (Decidable (_ ∧ _))

theorem turnOrdered_of_direct {tasks : List Task} {r x : Task} (h : DirectlyOrdered tasks r x) :
    TurnOrdered tasks r x := by
  refine ⟨fun y hy => h.1 y hy.1.1 hy, fun ⟨u, hu⟩ => ?_⟩
  obtain ⟨hx, hend, hnone⟩ := h.2 ⟨u, hu.2.1, hu⟩
  exact ⟨⟨.single hx, fun v hv => hend v hv.2.1 hv⟩, hnone⟩

end Direct

theorem handed_session_follows :
    ∃ s ∈ (run (step bareServer) (start handedConfig) handedTurnRun).sessions,
      s.status = .completed ∧ s.finalAnswer = some "no" ∧
        ∃ r, LatestTurn (run (step bareServer) (start handedConfig) handedTurnRun).tasks s.sessionId r ∧
          ∃ t, Carries (run (step bareServer) (start handedConfig) handedTurnRun).tasks r t ∧ Follows s r t := by
  have hord : Along (step bareServer) (fun db e => ∀ x ∈ (step bareServer db e).tasks,
      EndsWork db.tasks (step bareServer db e).tasks x → ∀ r ∈ turns (step bareServer db e).tasks x.sessionId,
        (∀ z ∈ turns (step bareServer db e).tasks x.sessionId, z.taskId ≤ r.taskId) →
          DirectlyOrdered (step bareServer db e).tasks r x) (start handedConfig) handedTurnRun := by
    decide +kernel
  have hin : Along (step bareServer) (InOrder bareServer) (start handedConfig) handedTurnRun :=
    hord.mono fun db e h x hx r hr => turnOrdered_of_direct (h x hx.mem hx r hr.1 hr.2)
  have hfollows := session_follows_latest_turn bareServer handedConfig handedTurnRun hin
  have hend : ∃ s ∈ (run (step bareServer) (start handedConfig) handedTurnRun).sessions,
      s.status = .completed ∧ s.finalAnswer = some "no" ∧
        ∃ r ∈ turns (run (step bareServer) (start handedConfig) handedTurnRun).tasks s.sessionId,
          ∀ x ∈ turns (run (step bareServer) (start handedConfig) handedTurnRun).tasks s.sessionId,
            x.taskId ≤ r.taskId := by
    decide +kernel
  obtain ⟨s, hs, hc, hans, r, hr, hlast⟩ := hend
  exact ⟨s, hs, hc, hans, r, ⟨hr, hlast⟩, hfollows s hs (.inl hc) r ⟨hr, hlast⟩⟩

/-- A session whose second turn fails is closed as completed, with the answer of the first. -/
theorem failed_turn_keeps_answer :
    ¬ ∀ (pg : Postgres) (c : Config) (es : List Event),
      ∀ s ∈ (run (step pg) (start c) es).sessions, s.status = .completed ∨ s.status = .failed →
        ∀ r, LatestTurn (run (step pg) (start c) es).tasks s.sessionId r →
          ∃ t, Carries (run (step pg) (start c) es).tasks r t ∧ Follows s r t := by
  intro h
  have hdb := h bareServer threadConfig failedTurnRun
  have hx : ∃ s ∈ (run (step bareServer) (start threadConfig) failedTurnRun).sessions,
      s.status = .completed ∧ s.finalAnswer = some "yes" ∧
        ∃ r ∈ (run (step bareServer) (start threadConfig) failedTurnRun).tasks,
          (r ∈ turns (run (step bareServer) (start threadConfig) failedTurnRun).tasks s.sessionId ∧
            ∀ x ∈ turns (run (step bareServer) (start threadConfig) failedTurnRun).tasks s.sessionId,
              x.taskId ≤ r.taskId) ∧ r.status = .failed := by
    decide +kernel
  generalize run (step bareServer) (start threadConfig) failedTurnRun = db at hdb hx
  obtain ⟨s, hs, hc, -, r, -, hr, hf⟩ := hx
  obtain ⟨t, -, hfollows⟩ := hdb s hs (.inl hc) r hr
  have hfail := hfollows.1 hf
  rw [hc] at hfail
  cases hfail

end Allgres
