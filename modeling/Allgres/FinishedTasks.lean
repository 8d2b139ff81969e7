import Allgres.ApprovalGate

/-! The queues of a finished task. A task that is ended keeps no live call as long as
every operation that ends one finds its queues in a state it cleans up. -/

namespace Allgres

open Raise Rows Runs Allgres.Core

/-- A task has a live call of a kind. -/
def Db.hasLive (db : Db) (i : Uuid) (p : Call → Bool) : Bool :=
  db.calls.any fun c => c.taskId = i && c.status.live && p c

def Db.waits (db : Db) (i : Uuid) : Bool :=
  (db.task? i).any (·.status = .waitingHuman)

def Call.isLocal (c : Call) : Bool :=
  c.req.queue = .functionCalls || c.req.queue = .procedureCalls

/-- An event that may end a task finds no live call which it does not take back. A sweep
takes the overdue calls back first, and a cancellation and the end of a turn take back
outgoing calls and SQL. -/
def clearsQueues (db : Db) (e : Event) : Bool :=
  match e.op with
  | .submit i _ => !db.running i || !db.hasLive i fun _ => true
  | .decideApproval id false _ => (db.approval? id).all fun a =>
      a.status != .pending || a.expiresAt.any (· ≤ e.now) || !db.waits a.taskId ||
        !db.hasLive a.taskId fun _ => true
  | .cancelSession sid _ => db.tasks.all fun t =>
      t.sessionId != sid || t.status.finished || !db.hasLive t.taskId Call.isLocal
  | .watchdog seconds locked =>
      (expiredApprovals e.now locked db).all (fun a => !db.waits a.taskId ||
        !db.hasLive a.taskId fun c => !isOverdue e.now seconds locked c) &&
      db.tasks.all fun t => !overTurn e.now db.cfg t || locked.contains t.taskId ||
        !db.hasLive t.taskId fun c => c.isLocal && !isOverdue e.now seconds locked c
  | _ => true

section Reading

variable {db : Db} {i : Uuid}

theorem liveLocal_life (c : Call) : c.life.liveLocal = (c.status.live && c.isLocal) := by
  unfold CallLife.liveLocal CallLife.remote Call.isLocal CallLife.live Call.life
  cases c.req.queue <;> cases c.status.live <;> simp

theorem countP_callsOf {p : CallLife → Bool} :
    (db.core.life i).calls.countP p = 0 ↔ ∀ c ∈ db.calls, c.taskId = i → p c.life = false := by
  rw [List.countP_eq_zero]
  constructor
  · intro h c hc hi
    have := h c.life (mem_callsOf.mpr ⟨c, hc, hi, rfl⟩)
    simpa using this
  · intro h x hx
    obtain ⟨c, hc, hi, rfl⟩ := mem_callsOf.mp hx
    simp [h c hc hi]

theorem not_hasLive {p : Call → Bool} :
    db.hasLive i p = false ↔ ∀ c ∈ db.calls, c.taskId = i → c.status.live = true → p c = false := by
  simp only [Db.hasLive, List.any_eq_false, Bool.and_eq_true, decide_eq_true_eq, not_and,
    Bool.not_eq_true]
  exact ⟨fun h c hc hi hl => h c hc ⟨hi, hl⟩, fun h c hc ⟨hi, hl⟩ => h c hc hi hl⟩

theorem live_zero (h : db.hasLive i (fun _ => true) = false) :
    (db.core.life i).calls.countP (·.live) = 0 := by
  rw [countP_callsOf]
  intro c hc hi
  cases hl : c.status.live with
  | false => exact hl
  | true => exact absurd (not_hasLive.mp h c hc hi hl) (by simp)

theorem liveLocal_zero (h : db.hasLive i Call.isLocal = false) :
    (db.core.life i).calls.countP (·.liveLocal) = 0 := by
  rw [countP_callsOf]
  intro c hc hi
  rw [liveLocal_life]
  cases hl : c.status.live with
  | false => rfl
  | true => exact not_hasLive.mp h c hc hi hl

theorem waits_of_task? {t : Task} (ht : db.task? i = some t) (hs : t.status = .waitingHuman) :
    db.waits i = true := by
  simp [Db.waits, ht, hs]

end Reading

section Sweep

variable {pg : Postgres} {db : Db} {now : Time} {seconds : Option Int} {locked : List Uuid}

/-- The labels of the sweep for overdue calls. -/
def reclaimLabel (lab : Label) : Prop :=
  lab = .settle ∨ lab = .born

theorem Life.unsettled {l l' : Life} (h : Move .settle l l') : l.calls.countP (·.live) ≠ 0 := by
  have hpos : ∀ (pre post : List CallLife) (c : CallLife), c.status = .inFlight →
      (pre ++ c :: post).countP (·.live) ≠ 0 := by
    intro pre post c hc
    have hl : c.live = true := CallLife.live_of_status (.inr hc)
    simp only [List.countP_append, List.countP_cons, hl, if_true]
    omega
  cases h with
  | settleIdle _ hc _ => exact hpos _ _ _ hc
  | settleStep hc _ _ => exact hpos _ _ _ hc
  | pause hc _ => exact hpos _ _ _ hc

theorem Life.settled_live {l l' : Life} (h : Move .settle l l') (ht : Tidy l) :
    l'.calls.countP (·.live) = 0 := by
  cases h with
  | settleIdle _ hc hs => exact ht.settled (CallLife.live_of_status (.inr hc)) hs
  | settleStep hc hs h =>
    have h0 := ht.settled (CallLife.live_of_status (.inr hc)) hs
    cases h with
    | advance s => exact h0
    | halt => exact h0
  | pause hc _ => exact ht.settled (CallLife.live_of_status (.inr hc)) rfl

/-- The sweep for overdue calls leaves a task alone or without a live call. -/
theorem Life.reclaimed {l l' : Life} (ht : Tidy l)
    (h : Moves Move (fun lab _ => reclaimLabel lab) l l') :
    l' = l ∨ l'.calls.countP (·.live) = 0 := by
  have hmove : ∀ lab m m', (m = l ∨ m.calls.countP (·.live) = 0) → reclaimLabel lab →
      Move lab m m' → m' = l ∨ m'.calls.countP (·.live) = 0 := by
    intro lab m m' hm hG hs
    right
    rcases hG with rfl | rfl
    · rcases hm with rfl | h0
      · exact Life.settled_live hs ht
      · exact absurd h0 (Life.unsettled hs)
    · cases hs
      rfl
  exact Moves.invariant hmove h (.inl rfl)

theorem overTurn_congr {c c' : Config} {t t' : Task} (hc : c'.policies = c.policies)
    (hk : t'.turnKey = t.turnKey) (hs : t'.status = t.status) :
    overTurn now c' t' = overTurn now c t := by
  have hagent : t'.agentId = t.agentId := congrArg (·.1.2.2.1) hk
  have hstart : t'.startedAt = t.startedAt := congrArg (·.2) hk
  unfold overTurn occupies Config.policy?
  rw [hc, hagent, hstart, hs]

theorem policies_afterReclaim (hsw : Swept now db (reclaimAll pg now seconds locked db)) :
    (afterReclaim pg now seconds locked db).cfg.policies = db.cfg.policies := by
  have hreset : ∀ c : Config, (resetBuilds pg now seconds c).policies = c.policies := by
    intro c
    unfold resetBuilds
    dsimp only
    split
    · obtain ⟨_, _, _, h⟩ := (syncCapabilityIndex_indexed pg now _).eq
      rw [h]
    · rfl
  rw [← hsw.cfg]
  exact hreset _

/-- A task the sweep for overdue calls passed by, or one without a live call. -/
def Passed (now : Time) (seconds : Option Int) (locked : List Uuid) (db d : Db) (i : Uuid) : Prop :=
  (d.core.life i = db.core.life i ∧ ∀ c ∈ db.calls, c.taskId = i → c.status.live = true →
    isOverdue now seconds locked c = false) ∨ (d.core.life i).calls.countP (·.live) = 0

/-- What the sweep for overdue calls leaves to the rest of the watchdog. -/
structure Reclaimable (now : Time) (seconds : Option Int) (locked : List Uuid) (db d : Db) : Prop where
  wf : d.core.WellFormed
  approvals : ∀ a ∈ d.approvals, a ∈ db.approvals ∨ a.expiresAt = some (now + dayMillis)
  tasks : d.tasks.map Task.turnKey = db.tasks.map Task.turnKey
  policies : d.cfg.policies = db.cfg.policies
  passed : ∀ i, Passed now seconds locked db d i

theorem afterReclaim_spec (pg : Postgres) (now : Time) (seconds : Option Int) (locked : List Uuid)
    (hw : db.core.WellFormed) (ht : ∀ i, Life.Tidy (db.core.life i)) :
    Reclaimable now seconds locked db (afterReclaim pg now seconds locked db) := by
  obtain ⟨he, hsw, hlost⟩ := reclaimAll_swept (G := fun _ lab _ => reclaimLabel lab) pg now
    seconds locked (fun _ _ => .inl rfl) (fun _ _ => .inr rfl) hw
  refine ⟨he.wf hw, hsw.approvals, hsw.tasks, policies_afterReclaim hsw, fun i => ?_⟩
  unfold Passed
  rw [core_afterReclaim]
  rcases Life.reclaimed (ht i) (he.lives i) with heq | h0
  · refine .inl ⟨heq, fun c hc hi hl => ?_⟩
    by_contra ho
    have ho : isOverdue now seconds locked c = true := by simpa using ho
    have hmem : c.life ∈ (reclaimAll pg now seconds locked db).core.callsOf i := by
      have : c.life ∈ (db.core.life i).calls := mem_callsOf.mpr ⟨c, hc, hi, rfl⟩
      rw [← heq] at this
      exact this
    obtain ⟨c', hc', -, hlife⟩ := mem_callsOf.mp hmem
    have hid : c'.callId = c.callId := congrArg CallLife.id hlife
    have hs : c'.status = c.status := congrArg CallLife.status hlife
    rw [← hs, hlost c hc ho c' hc' hid] at hl
    cases hl
  · exact .inr h0

end Sweep

section Ended

variable {db d : Db} {now : Time} {seconds : Option Int} {locked : List Uuid}

theorem Passed.live_zero {i : Uuid} (h : Passed now seconds locked db d i)
    (hn : d.core.life i = db.core.life i →
      db.hasLive i (fun c => !isOverdue now seconds locked c) = false) :
    (d.core.life i).calls.countP (·.live) = 0 := by
  rcases h with ⟨heq, hnot⟩ | h0
  · rw [heq, countP_callsOf]
    intro c hc hi
    cases hl : c.status.live with
    | false => exact hl
    | true =>
      have hover := not_hasLive.mp (hn heq) c hc hi hl
      rw [hnot c hc hi hl] at hover
      cases hover
  · exact h0

theorem Passed.liveLocal_zero {i : Uuid} (h : Passed now seconds locked db d i)
    (hn : d.core.life i = db.core.life i →
      db.hasLive i (fun c => c.isLocal && !isOverdue now seconds locked c) = false) :
    (d.core.life i).calls.countP (·.liveLocal) = 0 := by
  rcases h with ⟨heq, hnot⟩ | h0
  · rw [heq, countP_callsOf]
    intro c hc hi
    rw [liveLocal_life]
    cases hl : c.status.live with
    | false => rfl
    | true =>
      have hover := not_hasLive.mp (hn heq) c hc hi hl
      rw [hnot c hc hi hl, Bool.not_false, Bool.and_true] at hover
      rw [hover]
      rfl
  · refine Nat.eq_zero_of_le_zero (h0 ▸ List.countP_mono_left fun c _ h => ?_)
    unfold CallLife.liveLocal at h
    simp only [Bool.and_eq_true] at h
    exact h.2

theorem not_expired {m : Time} {a : Approval} (h : a.expiresAt = some (now + m)) :
    a ∉ expiredApprovals now locked db := by
  intro ha
  obtain ⟨-, hp⟩ := List.mem_filter.mp ha
  simp only [h, Option.any_some, decide_eq_true_eq] at hp
  exact absurd hp.2.1 (Nat.not_lt.mpr (Nat.le_add_right now m))

/-- An approval that expires after the sweep for overdue calls had expired before. -/
theorem Reclaimable.expired (h : Reclaimable now seconds locked db d) {a : Approval}
    (ha : a ∈ expiredApprovals now locked d) : a ∈ expiredApprovals now locked db := by
  obtain ⟨ham, hp⟩ := List.mem_filter.mp ha
  rcases h.approvals a ham with hold | hday
  · exact List.mem_filter.mpr ⟨hold, hp⟩
  · exact absurd ha (not_expired hday)

theorem waits_of_life {t : Task}
    (ht : d.task? t.taskId = some t) (hs : t.status = .waitingHuman)
    (heq : d.core.life t.taskId = db.core.life t.taskId) : db.waits t.taskId = true := by
  have hown : (db.core.life t.taskId).status = some .waitingHuman := by
    rw [← heq, life_of_task? (s := d.core) ht, hs]
  obtain ⟨r, hr, -, hrs⟩ := task_of_life hown
  exact waits_of_task? hr hrs

/-- A task that is over its turn when the sweep comes to it. -/
theorem Reclaimable.overTurn (h : Reclaimable now seconds locked db d) (hw : db.core.WellFormed)
    {t : Task} (htm : t ∈ (d.expireApprovals now locked).tasks)
    (hover : Allgres.overTurn now (d.expireApprovals now locked).cfg t = true) :
    (d.expireApprovals now locked).core.life t.taskId = d.core.life t.taskId ∧
      (d.core.life t.taskId = db.core.life t.taskId →
        ∃ r ∈ db.tasks, r.taskId = t.taskId ∧ Allgres.overTurn now db.cfg r = true) := by
  have hany : ∀ a ∈ expiredApprovals now locked d, ∀ t, d.task? t.taskId = some t →
      t.taskId = a.taskId → t.status = .waitingHuman → True := fun _ _ _ _ _ _ => trivial
  obtain ⟨he, hstay, -, hcfg, hkeys⟩ := expireApprovals_life (G := fun _ _ _ => True) now hany
  have htask := task?_of_mem (he.wf h.wf) htm
  have hocc : occupies t = true := by
    unfold Allgres.overTurn at hover
    simp only [Bool.and_eq_true] at hover
    exact hover.1
  have hsame : (d.expireApprovals now locked).core.life t.taskId = d.core.life t.taskId := by
    rcases hstay t.taskId with hs | hs
    · exact hs
    · rw [life_of_task? htask] at hs
      have hf : t.status = .failed := Option.some.inj hs
      have := occupies_unfinished hocc
      rw [hf] at this
      cases this
  refine ⟨hsame, fun heq => ?_⟩
  have hkey : t.turnKey ∈ db.tasks.map Task.turnKey := by
    rw [← h.tasks, ← hkeys]
    exact List.mem_map_of_mem htm
  obtain ⟨r, hr, hrk⟩ := List.mem_map.mp hkey
  have hrid : r.taskId = t.taskId := congrArg (·.1.1) hrk
  have hlife := (life_of_task? htask).symm.trans (hsame.trans heq)
  rw [← hrid, life_of_task? (task?_of_mem hw hr)] at hlife
  have hrs : t.status = r.status := Option.some.inj (congrArg Life.status hlife)
  refine ⟨r, hr, hrid, ?_⟩
  rw [← hover]
  exact (overTurn_congr ((congrArg Config.policies hcfg).trans h.policies) hrk.symm hrs).symm

/-- No task is ended with a call the rest of the watchdog leaves in its queues. -/
theorem Reclaimable.clears (h : Reclaimable now seconds locked db d) (hw : db.core.WellFormed)
    (hc : clearsQueues db ⟨now, .watchdog seconds locked⟩ = true) :
    (∀ a ∈ expiredApprovals now locked d, ∀ t, d.task? t.taskId = some t → t.taskId = a.taskId →
      t.status = .waitingHuman → Life.clears .reject (d.core.life t.taskId)) ∧
    ∀ t ∈ (d.expireApprovals now locked).tasks,
      Allgres.overTurn now (d.expireApprovals now locked).cfg t = true →
      locked.contains t.taskId = false →
        Life.clears .timeOut ((d.expireApprovals now locked).core.life t.taskId) := by
  unfold clearsQueues at hc
  simp only [Bool.and_eq_true, List.all_eq_true, Bool.or_eq_true, Bool.not_eq_true'] at hc
  obtain ⟨hexp, hturn⟩ := hc
  constructor
  · intro a ha t htask hta hst
    refine (h.passed t.taskId).live_zero fun heq => ?_
    have hwait := waits_of_life htask hst heq
    rcases hexp a (h.expired ha) with hnot | hlive
    · rw [← hta, hwait] at hnot
      cases hnot
    · rwa [hta]
  · intro t htm hover hlocked
    obtain ⟨hsame, hbefore⟩ := h.overTurn hw htm hover
    rw [hsame]
    refine (h.passed t.taskId).liveLocal_zero fun heq => ?_
    obtain ⟨r, hr, hrid, hro⟩ := hbefore heq
    rcases hturn r hr with (hno | hno) | hlive
    · rw [hro] at hno
      cases hno
    · rw [hrid, hlocked] at hno
      cases hno
    · rwa [← hrid]

end Ended

section Step

variable {pg : Postgres} {db : Db}

theorem permits_clears {e : Event} (hw : db.core.WellFormed)
    (ht : ∀ i, Life.Tidy (db.core.life i)) (hc : clearsQueues db e = true) :
    Permits pg (fun _ => Life.clears) e.now db e.op := by
  obtain ⟨now, op⟩ := e
  cases op with
  | dispatch roll locked => exact ⟨fun _ _ h => h, fun _ _ _ _ _ => trivial⟩
  | submit i payload =>
    intro hrun
    have h : db.hasLive i (fun _ => true) = false := by simpa [clearsQueues, hrun] using hc
    exact ⟨live_zero h, live_zero h⟩
  | completeOutbound => exact fun _ _ _ _ => trivial
  | watchdog seconds locked => exact (afterReclaim_spec pg now seconds locked hw ht).clears hw hc
  | decideApproval id accept reply =>
    intro a ha hp hx t htask hta hst
    cases accept with
    | true => trivial
    | false =>
      refine live_zero ?_
      have hwait : db.waits a.taskId = true := waits_of_task? (hta ▸ htask) hst
      simpa [clearsQueues, ha, hp, hx, hwait, hta] using hc
  | cancelSession sid reason =>
    intro t htask hsid hu
    refine liveLocal_zero ?_
    simp only [clearsQueues, List.all_eq_true] at hc
    have h := hc t (mem_of_task? (s := db.core) htask).1
    have hf : t.status.finished = false := by simpa [unfinished] using hu
    simpa [hsid, hf] using h
  | _ => trivial

theorem tidy_step (hw : db.core.WellFormed) (ht : ∀ i, Life.Tidy (db.core.life i)) {e : Event}
    (hc : clearsQueues db e = true) (i : Uuid) : Life.Tidy ((step pg db e).core.life i) := by
  have hfree : ∀ (j : Uuid) lab (l : Life), freely lab → Life.clears lab l := by
    intro j lab l hf
    cases lab <;> simp_all [freely, Life.clears]
  have he : Evolves (fun _ => Life.clears) db.core (step pg db e).core :=
    step_evolves hw hfree (permits_clears hw ht hc)
  have hmove : ∀ lab a b, Life.Tidy a → Life.clears lab a → Life.Move lab a b → Life.Tidy b :=
    fun lab a b hI hG hm => Life.tidy_move hm hG hI
  exact Moves.invariant hmove (he.lives i) (ht i)

end Step

/-- In a run whose events all find the queues they leave behind empty, a finished task
has no live call. -/
theorem finished_tasks_idle (pg : Postgres) (c : Config) (es : List Event)
    (h : Along (step pg) (fun db e => clearsQueues db e = true) (start c) es) :
    ∀ t ∈ (run (step pg) (start c) es).tasks, t.status.finished = true →
      ∀ q ∈ (run (step pg) (start c) es).calls, q.taskId = t.taskId → q.status.live = false := by
  have hstep : ∀ (db : Db) e, db.core.WellFormed ∧ (∀ i, Life.Tidy (db.core.life i)) →
      clearsQueues db e = true →
      (step pg db e).core.WellFormed ∧ ∀ i, Life.Tidy ((step pg db e).core.life i) :=
    fun db e ⟨hw, ht⟩ hc => ⟨wellFormed_step pg e hw, tidy_step hw ht hc⟩
  have hstart : ∀ i, Life.Tidy ((start c).core.life i) := fun i => Life.tidy_of_live_zero rfl
  obtain ⟨hw, ht⟩ := Runs.invariant hstep ⟨wellFormed_start c, hstart⟩ h
  intro t htm hf q hq hqt
  have hown := congrArg Life.status (life_of_task? (task?_of_mem hw htm))
  have h0 := (ht t.taskId).finished t.status hown hf
  exact countP_callsOf.mp h0 q hq hqt

/-- The approval of the refund is refused where `gatedRun` gives it. -/
def refusedRun : List Event :=
  gatedRun.dropLast ++ [⟨6, .decideApproval 5 false none⟩]

/-- The user ends the session while its model call is out. -/
def cancelledRun : List Event :=
  gatedRun.take 3 ++ [⟨4, .cancelSession 1 none⟩]

theorem refund_idle :
    ((run (step bareServer) (start gatedConfig) cancelledRun).tasks.filter
      (·.status.finished)).all (fun t =>
        ((run (step bareServer) (start gatedConfig) cancelledRun).calls.filter
          (·.taskId = t.taskId)).all fun q => !q.status.live) = true := by
  have h := finished_tasks_idle bareServer gatedConfig cancelledRun (by decide +kernel)
  simp only [List.all_eq_true, List.mem_filter, decide_eq_true_eq, Bool.not_eq_true']
  exact fun t ⟨ht, hf⟩ q ⟨hq, hqt⟩ => h t ht hf q hq hqt

/-- A refused approval ends the task and leaves the call it was about in its queue. -/
theorem refund_left_queued :
    ¬ ∀ (pg : Postgres) (c : Config) (es : List Event),
      ∀ t ∈ (run (step pg) (start c) es).tasks, t.status.finished = true →
        ∀ q ∈ (run (step pg) (start c) es).calls, q.taskId = t.taskId →
          q.status.live = false := by
  intro h
  exact absurd (h bareServer gatedConfig refusedRun) (by decide +kernel)

end Allgres
