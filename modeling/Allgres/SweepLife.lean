import Allgres.SessionLife

/-! The four passes of the watchdog over tasks and calls: overdue calls are lost,
expired approvals are rejected, turns over their time end, and parents wake. -/

namespace Allgres

open Raise Rows Runs Allgres.Core

def Task.turnKey (t : Task) : (Uuid × Uuid × Uuid × Option Uuid) × Option Time :=
  (t.ident, t.startedAt)

/-- What the sweep for overdue calls leaves alone. -/
structure Swept (now : Time) (db db' : Db) : Prop where
  cfg : db'.cfg = db.cfg
  approvals : ∀ a ∈ db'.approvals, a ∈ db.approvals ∨ a.expiresAt = some (now + dayMillis)
  tasks : db'.tasks.map Task.turnKey = db.tasks.map Task.turnKey
  calls : db'.calls.map Call.ident = db.calls.map Call.ident

theorem Swept.refl (now : Time) (db : Db) : Swept now db db :=
  ⟨rfl, fun _ ha => .inl ha, rfl, rfl⟩

theorem Swept.trans {now : Time} {db db' db'' : Db} (h : Swept now db db')
    (h' : Swept now db' db'') : Swept now db db'' := by
  refine ⟨h'.cfg.trans h.cfg, fun a ha => ?_, h'.tasks.trans h.tasks, h'.calls.trans h.calls⟩
  rcases h'.approvals a ha with ha | ha
  · exact h.approvals a ha
  · exact .inr ha

section Reclaim

variable {db db' : Db} {q : Call} {now : Time}

theorem ident_timedOut (now : Time) (c : Call) : (c.timedOut now).ident = c.ident := by
  unfold Call.timedOut
  split <;> rfl

theorem status_timedOut (now : Time) (c : Call) : (c.timedOut now).status = .lost := by
  unfold Call.timedOut
  split <;> rfl

theorem llm_of_isMutation {q : Call} (h : q.isMutation = true) : q.req.isLlm = false := by
  unfold Call.isMutation at h
  split at h
  · rename_i o ho
    simp only [isMutation, Bool.and_eq_true, Bool.or_eq_true, decide_eq_true_eq] at h
    rw [ho, Request.isLlm]
    rcases h.1 with hk | hk <;> simp [hk]
  · cases h

/-- What one overdue call costs: the call is lost, and only its own row and task change. -/
structure Reclaimed (now : Time) (db db' : Db) (q : Call) : Prop where
  settled : Settled db.core db'.core q .settle
  swept : Swept now db db'
  kept : ∀ c ∈ db.calls, c.callId ≠ q.callId → c ∈ db'.calls
  lost : ∀ c ∈ db'.calls, c.callId = q.callId → c.status = .lost

theorem map_turnKey_update {i : Uuid} {f : Task → Task} (hf : ∀ t, (f t).ident = t.ident)
    (hs : ∀ t, (f t).startedAt = t.startedAt) (ts : List Task) :
    (update (·.taskId = i) f ts).map Task.turnKey = ts.map Task.turnKey :=
  map_update (fun t => by rw [Task.turnKey, Task.turnKey, hf, hs]) ts

theorem kept_updateCall {id : Uuid} {f : Call → Call} {c : Call} (hc : c ∈ db.calls)
    (hne : c.callId ≠ id) : c ∈ (db.updateCall id f).calls :=
  mem_update.mpr ⟨c, hc, by simp [hne]⟩

theorem lost_updateCall {id : Uuid} {f : Call → Call} (hs : ∀ c, (f c).status = .lost) {c : Call} (hc : c ∈ (db.updateCall id f).calls)
    (hci : c.callId = id) : c.status = .lost := by
  obtain ⟨c₀, -, rfl⟩ := mem_update.mp hc
  by_cases h : c₀.callId = id
  · simp [h, hs]
  · simp [h] at hci

/-- What pausing a task leaves alone. -/
theorem pauseAmbiguousOutbound_swept (db : Db) (q : Call) (reason : String) (now : Time) :
    (db.pauseAmbiguousOutbound q reason now).calls = (db.updateCall q.callId
      fun c => { c with status := .lost, error := some reason, updatedAt := now }).calls ∧
    (db.pauseAmbiguousOutbound q reason now).cfg = db.cfg ∧
    (∀ a ∈ (db.pauseAmbiguousOutbound q reason now).approvals,
      a ∈ db.approvals ∨ a.expiresAt = some (now + dayMillis)) ∧
    (db.pauseAmbiguousOutbound q reason now).tasks.map Task.turnKey =
      db.tasks.map Task.turnKey := by
  unfold Db.pauseAmbiguousOutbound
  dsimp only
  split
  · exact ⟨rfl, rfl, fun _ ha => .inl ha, rfl⟩
  · refine ⟨rfl, rfl, fun a ha => ?_, ?_⟩
    · rcases List.mem_append.mp ha with ha | ha
      · exact .inl ha
      · rw [List.mem_singleton.mp ha]
        exact .inr rfl
    · exact map_turnKey_update (f := fun r => { r with status := .waitingHuman, updatedAt := now })
        (fun _ => rfl) (fun _ => rfl) db.tasks

theorem reclaimCall_reclaimed (pg : Postgres) (hw : db.core.WellFormed) (hm : q ∈ db.calls)
    (hq : q.status = .inFlight) : Reclaimed now db (reclaimCall pg now db q) q := by
  let lost := db.updateCall q.callId (·.timedOut now)
  have hclosed : Closed db.core lost.core q .lost :=
    closed_updateCall hw hm (ident_timedOut now) (status_timedOut now)
  have hwl : lost.core.WellFormed := hclosed.grow.wf hw
  have hswept : Swept now db lost :=
    ⟨rfl, fun _ ha => .inl ha, rfl, map_ident_update (ident_timedOut now) _⟩
  have hkept : ∀ c ∈ db.calls, c.callId ≠ q.callId → c ∈ lost.calls :=
    fun c hc hne => kept_updateCall hc hne
  have hlost : ∀ c ∈ lost.calls, c.callId = q.callId → c.status = .lost :=
    fun c hc hci => lost_updateCall (status_timedOut now) hc hci
  have hrun : (db.core.life q.taskId).status = (lost.core.life q.taskId).status :=
    (hclosed.task q.taskId).1.symm
  unfold reclaimCall
  dsimp only
  by_cases hr : lost.running q.taskId = true
  · have hr' : (db.core.life q.taskId).status = some .running :=
      hrun.trans ((running_iff hwl).mp hr)
    rw [if_pos hr]
    by_cases hmut : q.isMutation = true
    · rw [if_pos hmut]
      let reason := "worker_result_unknown"
      let g : Call → Call := fun c =>
        { c.timedOut now with status := .lost, error := some reason, updatedAt := now }
      have hg : ∀ c, (g c).ident = c.ident := ident_timedOut now
      have hcalls : (lost.updateCall q.callId
          fun c => { c with status := .lost, error := some reason, updatedAt := now }).calls =
          (db.updateCall q.callId g).calls :=
        update_update (fun c => by
          rw [show (c.timedOut now).callId = c.callId from congrArg (·.1) (ident_timedOut now c)]) _
      have hcore : lost.core.updateCall q.callId
          (fun c => { c with status := .lost, error := some reason, updatedAt := now }) =
          db.core.updateCall q.callId g := by
        simp only [Core.updateCall]
        exact congrArg (fun cs => { db.core with calls := cs }) hcalls
      have hpause : Closed db.core (lost.core.updateCall q.callId
          fun c => { c with status := .lost, error := some reason, updatedAt := now }) q .lost := by
        rw [hcore]
        exact closed_updateCall hw hm hg fun _ => rfl
      obtain ⟨hc, hcfg, happ, htasks⟩ := pauseAmbiguousOutbound_swept lost q reason now
      refine ⟨pauseAmbiguousOutbound_settled hw hpause hq (llm_of_isMutation hmut),
        ⟨hcfg, happ, htasks, ?_⟩, ?_, ?_⟩
      · rw [hc, hcalls]
        exact map_ident_update hg _
      · rw [hc, hcalls]
        exact fun c hcm hne => kept_updateCall hcm hne
      · rw [hc, hcalls]
        exact fun c hcm hci => lost_updateCall (fun _ => rfl) hcm hci
    · rw [if_neg hmut]
      obtain ⟨t, ht, hti, hts⟩ := task_of_running hwl hr
      obtain ⟨d, r, f, hok, hcore, hcfg, hf, hst, hstep⟩ := submit_error pg now
        (timeoutText q.req.queue) ht hts
      have hd : submitQuietly pg now lost q.taskId (errorPayload (timeoutText q.req.queue)) = d := by
        unfold submitQuietly
        rw [← hti, hok]
      have hadv := advance_updateTask (s := lost.core) ht hts hf hstep
      have hcalls : d.calls = lost.calls := congrArg Core.calls hcore
      have happ : d.approvals = lost.approvals := congrArg Core.approvals hcore
      have htasks : d.tasks = update (·.taskId = t.taskId) f lost.tasks :=
        congrArg Core.tasks hcore
      rw [hti] at hadv hcore
      change Reclaimed now db (submitQuietly pg now lost q.taskId _) q
      rw [hd]
      refine ⟨?_, hswept.trans ⟨hcfg, ?_, ?_, ?_⟩, ?_, ?_⟩
      · exact hclosed.advance hq rfl hr' (hcore ▸ grow_updateTask hf) (hcore ▸ hadv)
          fun j hj => .inl (hcore ▸ life_updateTask_ne hf hj)
      · rw [happ]
        exact fun a ha => .inl ha
      · rw [htasks]
        exact map_turnKey_update hf hst _
      · rw [hcalls]
      · rw [hcalls]
        exact hkept
      · rw [hcalls]
        exact hlost
  · rw [if_neg hr]
    refine ⟨hclosed.idle hq rfl fun hc => hr ((running_iff hwl).mpr (hrun ▸ hc)), hswept, hkept, hlost⟩

variable {G : Uuid → Label → Life → Prop}

/-- A sweep over some of the calls: those are lost, and the rows of the others stay. -/
structure Reclaims (G : Uuid → Label → Life → Prop) (now : Time) (db db' : Db)
    (ids : List Uuid) : Prop where
  evolves : Evolves G db.core db'.core
  swept : Swept now db db'
  kept : ∀ c ∈ db.calls, c.callId ∉ ids → c ∈ db'.calls
  lost : ∀ c ∈ db'.calls, c.callId ∈ ids → c.status = .lost

theorem reclaims_foldl (pg : Postgres) (now : Time) (hs : ∀ i l, G i .settle l) (hb : ∀ i l, G i .born l)
    {qs : List Call} (hw : db.core.WellFormed) (hn : (qs.map (·.callId)).Nodup)
    (hqs : ∀ q ∈ qs, q ∈ db.calls ∧ q.status = .inFlight) :
    Reclaims G now db (qs.foldl (reclaimCall pg now) db) (qs.map (·.callId)) := by
  induction qs generalizing db with
  | nil => exact ⟨Evolves.refl _, Swept.refl now db, fun c hc _ => hc, fun c _ h => by simp at h⟩
  | cons q qs ih =>
    obtain ⟨hqm, hqs'⟩ := hqs q (by simp)
    have hr : Reclaimed now db (reclaimCall pg now db q) q := reclaimCall_reclaimed pg hw hqm hqs'
    simp only [List.map_cons, List.nodup_cons] at hn
    have hne : ∀ p ∈ qs, p.callId ≠ q.callId := fun p hp he =>
      hn.1 (List.mem_map.mpr ⟨p, hp, he⟩)
    have he : Evolves G db.core (reclaimCall pg now db q).core := hr.settled.evolves (hs _ _) hb
    have hw' := he.wf hw
    have hrest := ih hw' hn.2 fun p hp => by
      obtain ⟨hpm, hps⟩ := hqs p (List.mem_cons_of_mem q hp)
      exact ⟨hr.kept p hpm (hne p hp), hps⟩
    rw [List.foldl_cons]
    refine ⟨he.trans hrest.evolves, hr.swept.trans hrest.swept, fun c hc hnot => ?_,
      fun c hc hin => ?_⟩
    · simp only [List.map_cons, List.mem_cons, not_or] at hnot
      exact hrest.kept c (hr.kept c hc hnot.1) hnot.2
    · simp only [List.map_cons, List.mem_cons] at hin
      by_cases hin' : c.callId ∈ qs.map (·.callId)
      · exact hrest.lost c hc hin'
      · have hcq : c.callId = q.callId := hin.resolve_right hin'
        obtain ⟨c₁, hc₁, hci₁⟩ := mem_of_ident hrest.swept.calls hc
        have hci : c₁.callId = c.callId := congrArg (·.1) hci₁
        have hlost := hr.lost c₁ hc₁ (hci.trans hcq)
        have hkept := hrest.kept c₁ hc₁ (hci ▸ hin')
        rwa [eq_of_key Call.callId (hrest.evolves.wf hw').callIds hkept hc hci] at hlost

def isOverdue (now : Time) (seconds : Option Int) (locked : List Uuid) (c : Call) : Bool :=
  decide (c.status = .inFlight) && overdue now (timeoutOf c.req.queue seconds) c.updatedAt &&
    !locked.contains c.callId

theorem mem_overdueCalls {seconds : Option Int} {locked : List Uuid} {queue : Queue} {c : Call} :
    c ∈ overdueCalls now seconds locked queue db ↔
      c ∈ db.calls ∧ c.req.queue = queue ∧ isOverdue now seconds locked c = true := by
  simp only [overdueCalls, List.mem_filter, decide_eq_true_eq, isOverdue, Bool.and_eq_true]
  constructor
  · rintro ⟨hc, rfl, hs, ho, hl⟩
    exact ⟨hc, rfl, ⟨hs, ho⟩, hl⟩
  · rintro ⟨hc, rfl, ⟨hs, ho⟩, hl⟩
    exact ⟨hc, rfl, hs, ho, hl⟩

/-- One pass over a queue. -/
structure QueueSwept (G : Uuid → Label → Life → Prop) (now : Time) (seconds : Option Int)
    (locked : List Uuid) (queue : Queue) (db db' : Db) : Prop where
  evolves : Evolves G db.core db'.core
  swept : Swept now db db'
  kept : ∀ c ∈ db.calls, c.req.queue ≠ queue → c ∈ db'.calls
  lost : ∀ c ∈ db.calls, c.req.queue = queue → isOverdue now seconds locked c = true →
    ∀ c' ∈ db'.calls, c'.callId = c.callId → c'.status = .lost

theorem reclaimQueue_swept (pg : Postgres) (now : Time) (seconds : Option Int) (locked : List Uuid)
    (queue : Queue) (hw : db.core.WellFormed) (hs : ∀ i l, G i .settle l)
    (hb : ∀ i l, G i .born l) :
    QueueSwept G now seconds locked queue db (reclaimQueue pg now seconds locked queue db) := by
  have hn : ((overdueCalls now seconds locked queue db).map (·.callId)).Nodup :=
    hw.callIds.sublist (List.filter_sublist.map _)
  have hr := reclaims_foldl pg now hs hb hw hn fun q hq => by
    obtain ⟨hqm, -, ho⟩ := mem_overdueCalls.mp hq
    simp only [isOverdue, Bool.and_eq_true, decide_eq_true_eq] at ho
    exact ⟨hqm, ho.1.1⟩
  refine ⟨hr.evolves, hr.swept, fun c hc hne => hr.kept c hc fun hin => ?_,
    fun c hc hqu ho c' hc' hci => hr.lost c' hc' ?_⟩
  · obtain ⟨c₁, hc₁, hci⟩ := List.mem_map.mp hin
    obtain ⟨hm₁, hq₁, -⟩ := mem_overdueCalls.mp hc₁
    rw [eq_of_key Call.callId hw.callIds hc hm₁ hci.symm] at hne
    exact hne hq₁
  · rw [hci]
    exact List.mem_map.mpr ⟨c, mem_overdueCalls.mpr ⟨hc, hqu, ho⟩, rfl⟩

def reclaimAll (pg : Postgres) (now : Time) (seconds : Option Int) (locked : List Uuid)
    (db : Db) : Db :=
  [Queue.outboundCalls, .sqlCalls, .functionCalls, .procedureCalls].foldl
    (fun db queue => reclaimQueue pg now seconds locked queue db) db

theorem reclaimQueues_swept (pg : Postgres) (now : Time) (seconds : Option Int)
    (locked : List Uuid) (hs : ∀ i l, G i .settle l) (hb : ∀ i l, G i .born l)
    {queues : List Queue} (hw : db.core.WellFormed) (hn : queues.Nodup) :
    let db' := queues.foldl (fun db queue => reclaimQueue pg now seconds locked queue db) db
    Evolves G db.core db'.core ∧ Swept now db db' ∧
      (∀ c ∈ db.calls, c.req.queue ∉ queues → c ∈ db'.calls) ∧
      ∀ c ∈ db.calls, c.req.queue ∈ queues → isOverdue now seconds locked c = true →
        ∀ c' ∈ db'.calls, c'.callId = c.callId → c'.status = .lost := by
  induction queues generalizing db with
  | nil => exact ⟨Evolves.refl _, Swept.refl now db, fun c hc _ => hc, fun c _ h => by simp at h⟩
  | cons queue queues ih =>
    have h1 := reclaimQueue_swept (G := G) pg now seconds locked queue hw hs hb
    have hw' := h1.evolves.wf hw
    simp only [List.nodup_cons] at hn
    obtain ⟨he, hsw, hkept, hlost⟩ := ih hw' hn.2
    dsimp only
    rw [List.foldl_cons]
    refine ⟨h1.evolves.trans he, h1.swept.trans hsw, fun c hc hnot => ?_, fun c hc hin ho => ?_⟩
    · simp only [List.mem_cons, not_or] at hnot
      exact hkept c (h1.kept c hc hnot.1) hnot.2
    · by_cases hq : c.req.queue = queue
      · intro c' hc' hci
        obtain ⟨c₁, hc₁, hid⟩ := h1.evolves.grow.calls.kept hc
        simp only [Call.ident, Prod.mk.injEq] at hid
        have hl := h1.lost c hc hq ho c₁ hc₁ hid.1
        have hk := hkept c₁ hc₁ (by rw [hid.2.2, hq]; exact hn.1)
        rw [eq_of_key Call.callId (he.wf hw').callIds hc' hk (hci.trans hid.1.symm)]
        exact hl
      · exact hlost c (h1.kept c hc hq) ((List.mem_cons.mp hin).resolve_left hq) ho

theorem reclaimAll_swept (pg : Postgres) (now : Time) (seconds : Option Int) (locked : List Uuid)
    (hs : ∀ i l, G i .settle l) (hb : ∀ i l, G i .born l) (hw : db.core.WellFormed) :
    Evolves G db.core (reclaimAll pg now seconds locked db).core ∧
      Swept now db (reclaimAll pg now seconds locked db) ∧
      ∀ c ∈ db.calls, isOverdue now seconds locked c = true →
        ∀ c' ∈ (reclaimAll pg now seconds locked db).calls, c'.callId = c.callId →
          c'.status = .lost := by
  have hn : [Queue.outboundCalls, .sqlCalls, .functionCalls, .procedureCalls].Nodup := by decide
  obtain ⟨he, hsw, -, hlost⟩ := reclaimQueues_swept pg now seconds locked hs hb hw hn
  refine ⟨he, hsw, fun c hc ho => hlost c hc ?_ ho⟩
  cases c.req.queue <;> simp

end Reclaim

section Expire

variable {G : Uuid → Label → Life → Prop} {db db' : Db} {now : Time}

/-- Expiring an approval leaves a task alone or ends it. -/
theorem expireApproval_life (a : Approval) (now : Time)
    (hG : ∀ t, db.task? t.taskId = some t → t.taskId = a.taskId → t.status = .waitingHuman →
      G t.taskId .reject (db.core.life t.taskId)) :
    Evolves G db.core (expireApproval now db a).core ∧
      (∀ i, (expireApproval now db a).core.life i = db.core.life i ∨
        ((expireApproval now db a).core.life i).status = some .failed) ∧
      (expireApproval now db a).calls = db.calls ∧ (expireApproval now db a).cfg = db.cfg ∧
      (expireApproval now db a).tasks.map Task.turnKey = db.tasks.map Task.turnKey := by
  have hquiet := settleApproval_quiet db a.approvalId .rejected (some "approval_timeout") now
  unfold expireApproval
  dsimp only
  split
  · exact ⟨evolves_of_life_eq hquiet.grow hquiet.life, fun i => .inl (hquiet.life i), rfl, rfl, rfl⟩
  · rename_i t ht
    obtain ⟨ht, hst⟩ := filter_eq_some ht
    obtain ⟨-, hti⟩ := mem_of_task? (s := db.core) ht
    have ht' : db.task? t.taskId = some t := hti ▸ ht
    have hst : t.status = .waitingHuman := by simpa using hst
    let d := (db.settleApproval a.approvalId .rejected (some "approval_timeout") now).appendLog
      t.taskId (t.stepCount + 1) .operator (.str "No response before the approval expired.") now
    have hf : ∀ r : Task, ({ r with
        status := .failed
        error := some "approval_timeout" } : Task).ident = r.ident := fun _ => rfl
    have hcore : ((d.bump t.taskId now fun r =>
        { r with status := .failed, error := some "approval_timeout" }).maybeCompleteSession
          t.sessionId now).core = d.core.bump t.taskId now
            fun r => { r with status := .failed, error := some "approval_timeout" } :=
      Db.core_maybeCompleteSession _ _ _
    refine ⟨reject_evolves (d := d) hquiet ht' hst (hG t ht' hti hst), fun i => ?_, ?_, ?_, ?_⟩
    · rw [hcore]
      by_cases hi : i = t.taskId
      · right
        rw [hi, life_bump (s := d.core) hf ht']
      · left
        rw [life_bump_ne hf hi]
        exact hquiet.life i
    · exact congrArg Core.calls hcore
    · exact cfg_maybeCompleteSession _ _ _
    · have htasks := congrArg Core.tasks hcore
      change (Db.tasks _).map Task.turnKey = _
      refine (congrArg (List.map Task.turnKey) htasks).trans ?_
      exact map_turnKey_update (f := fun t => { t with
        status := .failed
        error := some "approval_timeout"
        stepCount := t.stepCount + 1
        updatedAt := now }) (fun _ => rfl) (fun _ => rfl) db.tasks

theorem task_of_life {s : Core} {i : Uuid} {st : TaskStatus} (h : (s.life i).status = some st) :
    ∃ t, s.task? i = some t ∧ t.taskId = i ∧ t.status = st := by
  simp only [life, Option.map_eq_some_iff] at h
  obtain ⟨t, ht, hs⟩ := h
  exact ⟨t, ht, (mem_of_task? ht).2, hs⟩

theorem expireApprovals_life (now : Time) {as : List Approval}
    (hG : ∀ a ∈ as, ∀ t, db.task? t.taskId = some t → t.taskId = a.taskId →
      t.status = .waitingHuman → G t.taskId .reject (db.core.life t.taskId)) :
    Evolves G db.core (as.foldl (expireApproval now) db).core ∧
      (∀ i, (as.foldl (expireApproval now) db).core.life i = db.core.life i ∨
        ((as.foldl (expireApproval now) db).core.life i).status = some .failed) ∧
      (as.foldl (expireApproval now) db).calls = db.calls ∧
      (as.foldl (expireApproval now) db).cfg = db.cfg ∧
      (as.foldl (expireApproval now) db).tasks.map Task.turnKey = db.tasks.map Task.turnKey := by
  induction as generalizing db with
  | nil => exact ⟨Evolves.refl _, fun _ => .inl rfl, rfl, rfl, rfl⟩
  | cons a as ih =>
    obtain ⟨he, hl, hc, hcfg, ht⟩ := expireApproval_life a now (hG a (by simp))
    have hG' : ∀ b ∈ as, ∀ t, (expireApproval now db a).task? t.taskId = some t →
        t.taskId = b.taskId → t.status = .waitingHuman →
          G t.taskId .reject ((expireApproval now db a).core.life t.taskId) := by
      intro b hb t htask htb hts
      have hlife := life_of_task? (s := (expireApproval now db a).core) htask
      rcases hl t.taskId with hsame | hfail
      · have hst : (db.core.life t.taskId).status = some .waitingHuman := by
          rw [← hsame, hlife, hts]
        obtain ⟨t₀, ht₀, hti₀, hts₀⟩ := task_of_life hst
        have h := hG b (List.mem_cons_of_mem a hb) t₀ (hti₀ ▸ ht₀) (hti₀.trans htb) hts₀
        rw [hti₀] at h
        rw [hsame]
        exact h
      · rw [hlife, hts] at hfail
        cases hfail
    obtain ⟨he', hl', hc', hcfg', ht'⟩ := ih hG'
    rw [List.foldl_cons]
    refine ⟨he.trans he', fun i => ?_, hc'.trans hc, hcfg'.trans hcfg, ht'.trans ht⟩
    rcases hl' i with h' | h'
    · rw [h']
      exact hl i
    · exact .inr h'

end Expire


section EachTask

variable {G : Uuid → Label → Life → Prop} {now : Time}

/-- A loop whose rounds each move the task of their row. -/
theorem evolves_foldl {f : Db → Task → Db} {H : Uuid → Life → Prop}
    (hf : ∀ db t, H t.taskId (db.core.life t.taskId) → Evolves G db.core (f db t).core ∧
      ∀ i, i ≠ t.taskId → (f db t).core.life i = db.core.life i)
    {db : Db} {ts : List Task} (hn : (ts.map (·.taskId)).Nodup)
    (hts : ∀ t ∈ ts, H t.taskId (db.core.life t.taskId)) :
    Evolves G db.core (ts.foldl f db).core := by
  induction ts generalizing db with
  | nil => exact Evolves.refl _
  | cons t ts ih =>
    simp only [List.map_cons, List.nodup_cons] at hn
    obtain ⟨he, hne⟩ := hf db t (hts t (by simp))
    refine he.trans (ih hn.2 fun u hu => ?_)
    have hut : u.taskId ≠ t.taskId := fun h => hn.1 (List.mem_map.mpr ⟨u, hu, h⟩)
    rw [hne u.taskId hut]
    exact hts u (List.mem_cons_of_mem t hu)

theorem timeoutTurn_evolves (now : Time) (db : Db) (t : Task)
    (h : ∃ s, (db.core.life t.taskId).status = some s ∧ s.finished = false ∧
      G t.taskId .timeOut (db.core.life t.taskId)) :
    Evolves G db.core (timeoutTurn now db t).core ∧
      ∀ i, i ≠ t.taskId → (timeoutTurn now db t).core.life i = db.core.life i := by
  obtain ⟨s, hs, hfin, hG⟩ := h
  obtain ⟨r, hr, -, hrs⟩ := task_of_life hs
  have hf : ∀ r : Task, ({ r with
      status := .failed
      error := some "turn_timeout" } : Task).ident = r.ident := fun _ => rfl
  have hcore : (timeoutTurn now db t).core = (db.core.bump t.taskId now
      fun r => { r with status := .failed, error := some "turn_timeout" }).loseCalls
        (· = t.taskId) "turn_timeout" now := by
    unfold timeoutTurn
    dsimp only
    rw [Db.core_maybeCompleteSession, Db.core_loseCalls, Db.core_bump, Db.core_appendLog]
  have hne : ∀ i, i ≠ t.taskId → (timeoutTurn now db t).core.life i = db.core.life i := by
    intro i hi
    rw [hcore, life_loseCalls, if_neg (by simpa using hi), life_bump_ne hf hi]
    rfl
  refine ⟨evolves_at ?_ .timeOut hG ?_ hne, hne⟩
  · rw [hcore]
    exact (grow_bump hf).trans (grow_loseCalls _ _ _ _)
  · rw [hcore, life_loseCalls, if_pos (by simp), life_bump hf hr, life_of_task? hr, hrs]
    exact .timeOut hfin

theorem wakeParent_evolves (now : Time) (hw : ∀ i l, G i .wake l) (db : Db) (t : Task)
    (h : (db.core.life t.taskId).status = some .waitingChildren) :
    Evolves G db.core (wakeParent now db t).core ∧
      ∀ i, i ≠ t.taskId → (wakeParent now db t).core.life i = db.core.life i := by
  obtain ⟨r, hr, -, hrs⟩ := task_of_life h
  have hf : ∀ r : Task, ({ r with status := .queued } : Task).ident = r.ident := fun _ => rfl
  have hcore : (wakeParent now db t).core =
      db.core.bump t.taskId now fun r => { r with status := .queued } := rfl
  have hne : ∀ i, i ≠ t.taskId → (wakeParent now db t).core.life i = db.core.life i := by
    intro i hi
    rw [hcore, life_bump_ne hf hi]
  refine ⟨evolves_at ?_ .wake (hw t.taskId _) ?_ hne, hne⟩
  · rw [hcore]
    exact grow_bump hf
  · rw [hcore, life_bump hf hr, life_of_task? hr, hrs]
    exact .wake

end EachTask

section Watchdog

variable {G : Uuid → Label → Life → Prop} {pg : Postgres} {now : Time} {seconds : Option Int}
  {locked : List Uuid} {db : Db}

/-- The state the approvals are expired in. -/
def afterReclaim (pg : Postgres) (now : Time) (seconds : Option Int) (locked : List Uuid)
    (db : Db) : Db :=
  (reclaimAll pg now seconds locked db).onConfig fun c =>
    reclaimOperatorCalls now seconds (resetBuilds pg now seconds c)

theorem core_afterReclaim (pg : Postgres) (now : Time) (seconds : Option Int) (locked : List Uuid)
    (db : Db) : (afterReclaim pg now seconds locked db).core =
      (reclaimAll pg now seconds locked db).core := rfl

/-- The state the turns are timed out in. -/
def afterExpire (pg : Postgres) (now : Time) (seconds : Option Int) (locked : List Uuid)
    (db : Db) : Db :=
  (afterReclaim pg now seconds locked db).expireApprovals now locked

theorem fnWatchdog_eq (pg : Postgres) (now : Time) (seconds : Option Int) (locked : List Uuid)
    (db : Db) : fnWatchdog pg now seconds locked db =
      (((afterExpire pg now seconds locked db).timeoutTurns now locked).wakeParents now
        locked).onConfig (dropExpiredMemories now) := rfl

theorem reclaimAll_eq (pg : Postgres) (now : Time) (seconds : Option Int) (locked : List Uuid)
    (db : Db) : reclaimAll pg now seconds locked db =
      [Queue.sqlCalls, .functionCalls, .procedureCalls].foldl
        (fun db queue => reclaimQueue pg now seconds locked queue db)
        (reclaimQueue pg now seconds locked .outboundCalls db) := rfl

attribute [irreducible] reclaimAll

theorem occupies_unfinished {t : Task} (h : occupies t = true) : t.status.finished = false := by
  unfold occupies at h
  simp only [Bool.or_eq_true, decide_eq_true_eq] at h
  rcases h with (h | h) | h <;> rw [h] <;> rfl

/-- The sweep behind its first part. -/
theorem sweepRest_evolves {d : Db} (hw : d.core.WellFormed) (hwake : ∀ i l, G i .wake l)
    (hrej : ∀ a ∈ expiredApprovals now locked d, ∀ t, d.task? t.taskId = some t →
      t.taskId = a.taskId → t.status = .waitingHuman → G t.taskId .reject (d.core.life t.taskId))
    (hout : ∀ t ∈ (d.expireApprovals now locked).tasks,
      overTurn now (d.expireApprovals now locked).cfg t = true → locked.contains t.taskId = false →
        G t.taskId .timeOut ((d.expireApprovals now locked).core.life t.taskId)) :
    Evolves G d.core
      (((d.expireApprovals now locked).timeoutTurns now locked).wakeParents now locked).core := by
  obtain ⟨he₂, -⟩ := expireApprovals_life now hrej
  have hw₂ : (d.expireApprovals now locked).core.WellFormed := he₂.wf hw
  have he₃ : Evolves G (d.expireApprovals now locked).core
      ((d.expireApprovals now locked).timeoutTurns now locked).core := by
    refine evolves_foldl (H := fun i l => ∃ s, l.status = some s ∧ s.finished = false ∧
      G i .timeOut l) (timeoutTurn_evolves now) (hw₂.taskIds.sublist (List.filter_sublist.map _)) ?_
    intro t ht
    obtain ⟨htm, hto⟩ := List.mem_filter.mp ht
    simp only [decide_eq_true_eq, Bool.not_eq_eq_eq_not, Bool.not_true] at hto
    have htask := life_of_task? (task?_of_mem hw₂ htm)
    have hocc : occupies t = true := by
      have := hto.1
      unfold overTurn at this
      simp only [Bool.and_eq_true] at this
      exact this.1
    exact ⟨t.status, by rw [htask], occupies_unfinished hocc, hout t htm hto.1 hto.2⟩
  have hw₃ := he₃.wf hw₂
  have he₄ : Evolves G ((d.expireApprovals now locked).timeoutTurns now locked).core
      (((d.expireApprovals now locked).timeoutTurns now locked).wakeParents now locked).core := by
    refine evolves_foldl (H := fun _ l => l.status = some .waitingChildren)
      (wakeParent_evolves now hwake)
      (hw₃.taskIds.sublist (List.filter_sublist.map _)) ?_
    intro t ht
    obtain ⟨htm, hto⟩ := List.mem_filter.mp ht
    simp only [decide_eq_true_eq] at hto
    have hch := hto.1
    unfold childrenDone at hch
    simp only [Bool.and_eq_true, decide_eq_true_eq] at hch
    rw [life_of_task? (task?_of_mem hw₃ htm), hch.1]
  exact (he₂.trans he₃).trans he₄

theorem fnWatchdog_evolves (hw : db.core.WellFormed) (hs : ∀ i l, G i .settle l)
    (hb : ∀ i l, G i .born l) (hwake : ∀ i l, G i .wake l)
    (hrej : ∀ a ∈ expiredApprovals now locked (afterReclaim pg now seconds locked db),
      ∀ t, (afterReclaim pg now seconds locked db).task? t.taskId = some t → t.taskId = a.taskId →
        t.status = .waitingHuman →
          G t.taskId .reject ((afterReclaim pg now seconds locked db).core.life t.taskId))
    (hout : ∀ t ∈ (afterExpire pg now seconds locked db).tasks,
      overTurn now (afterExpire pg now seconds locked db).cfg t = true →
      locked.contains t.taskId = false →
        G t.taskId .timeOut ((afterExpire pg now seconds locked db).core.life t.taskId)) :
    Evolves G db.core (fnWatchdog pg now seconds locked db).core := by
  obtain ⟨he, -⟩ := reclaimAll_swept pg now seconds locked hs hb hw
  rw [← core_afterReclaim] at he
  rw [fnWatchdog_eq, Db.core_onConfig]
  exact he.trans (sweepRest_evolves (he.wf hw) hwake hrej hout)

end Watchdog

end Allgres
