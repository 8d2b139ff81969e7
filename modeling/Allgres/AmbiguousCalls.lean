import Allgres.ApprovalGate

/-! Calls that may have had an effect and whose result is not known. Their task waits
for a human, and nothing is called for it before one approves. -/

namespace Allgres

open Raise Rows Runs Allgres.Core

/-- The log row of a call whose result is not known. -/
def unknownRow (q : Call) (step : Nat) (reason : String) (now : Time) : Log :=
  ⟨q.taskId, step, .error, .object [("reason", .str "outbound_result_unknown"),
    ("call_id", .str (uuidText q.callId)), ("detail", .str reason)], now⟩

/-- A call is lost and its task waits for a human who is told of the call. The row is
the only one that is logged. -/
structure Paused (now : Time) (reason : String) (q : Call) (db db' : Db) : Prop where
  call : Held (· = .lost) db'.core q.callId
  task : ∃ t, db'.task? q.taskId = some t ∧ t.status = .waitingHuman
  approval : ∃ a ∈ db'.approvals, a.taskId = q.taskId ∧ a.status = .pending ∧
    a.payload = .ambiguous q.callId reason
  logs : ∃ n, db'.logs = db.logs ++ [unknownRow q n reason now]

section Pause

variable {pg : Postgres} {db : Db} {now : Time} {q : Call}

theorem pauseAmbiguousOutbound_paused (hw : db.core.WellFormed) (reason : String)
    (hq : ∃ r ∈ db.calls, r.callId = q.callId) (hr : db.running q.taskId = true) :
    Paused now reason q db (db.pauseAmbiguousOutbound q reason now) := by
  obtain ⟨t, ht, hti, hst⟩ := task_of_running hw hr
  have hlost : (db.updateCall q.callId fun c =>
      { c with status := .lost, error := some reason, updatedAt := now }).task? q.taskId = some t :=
    hti ▸ ht
  unfold Db.pauseAmbiguousOutbound
  dsimp only
  rw [hlost, Option.filter_some, if_pos (by simp [hst])]
  dsimp only
  obtain ⟨r, hrm, hrid⟩ := hq
  refine ⟨⟨{ r with status := .lost, error := some reason, updatedAt := now },
      mem_update.mpr ⟨r, hrm, by simp [hrid]⟩, hrid, rfl⟩, ?_, ⟨_, List.mem_append_right _
        (List.mem_singleton_self _), hti, rfl, rfl⟩, ⟨t.stepCount, ?_⟩⟩
  · have hf : ∀ r : Task, ({ r with status := .waitingHuman, updatedAt := now } : Task).ident =
        r.ident := fun _ => rfl
    have htask := task?_updateTask (s := db.core) (j := t.taskId) hf t.taskId
    have hold : db.core.task? t.taskId = some t := ht
    rw [hold] at htask
    simp only [Option.map_some, if_true] at htask
    rw [← hti]
    exact ⟨_, htask, rfl⟩
  · unfold unknownRow
    rw [← hti]
    rfl

/-- For a task that does not run the call is lost, and that is all. -/
theorem pauseAmbiguousOutbound_idle (hw : db.core.WellFormed) (reason : String)
    (hr : db.running q.taskId = false) :
    db.pauseAmbiguousOutbound q reason now = db.updateCall q.callId fun c =>
      { c with status := .lost, error := some reason, updatedAt := now } := by
  have hnone : ((db.updateCall q.callId fun c => { c with
      status := .lost
      error := some reason
      updatedAt := now }).task? q.taskId).filter (·.status = .running) = none := by
    rw [Option.filter_eq_none_iff]
    intro t ht hs
    have hlife := life_of_task? (s := db.core) ht
    have hrun : db.running q.taskId = true := by
      rw [running_iff hw, hlife]
      simpa using hs
    rw [hr] at hrun
    cases hrun
  unfold Db.pauseAmbiguousOutbound
  dsimp only
  rw [hnone]

end Pause

/-- The task waits for a human or is over, and has the calls of a list. -/
def Life.Resting (ids : List Uuid) (l : Life) : Prop :=
  (l.status = some .waitingHuman ∨ ∃ s, l.status = some s ∧ s.finished = true) ∧
    l.calls.map (·.id) = ids

theorem Life.ids_loseRemote (cs : List CallLife) :
    (Life.loseRemote cs).map (·.id) = cs.map (·.id) := by
  unfold Life.loseRemote
  rw [List.map_map]
  refine List.map_congr_left fun c _ => ?_
  unfold Function.comp CallLife.lose
  split_ifs
  · exact CallLife.become_id c .lost
  · rfl

/-- Only a human brings a resting task back. -/
theorem Life.Resting.move {ids : List Uuid} {lab : Label} {l l' : Life} (h : Life.Resting ids l)
    (hlab : lab ≠ .resume) (hm : Life.Move lab l l') : Life.Resting ids l' := by
  obtain ⟨hs, hids⟩ := h
  cases hm with
  | settleIdle hr hc hl => exact ⟨hs, by simpa using hids⟩
  | reject => exact ⟨.inr ⟨.failed, rfl, rfl⟩, hids⟩
  | timeOut hf => exact ⟨.inr ⟨.failed, rfl, rfl⟩, (Life.ids_loseRemote _).trans hids⟩
  | cancel hf => exact ⟨.inr ⟨.cancelled, rfl, rfl⟩, (Life.ids_loseRemote _).trans hids⟩
  | drop hf => exact ⟨.inr ⟨_, rfl, hf⟩, (Life.ids_loseRemote _).trans hids⟩
  | resume => exact absurd rfl hlab
  | _ => simp [TaskStatus.finished] at hs

/-- The event is the approval of something of a task. -/
def approvesTask (i : Uuid) (db : Db) (e : Event) : Bool :=
  match e.op with
  | .decideApproval id true _ => (db.approval? id).any (·.taskId = i)
  | _ => false

/-- Every move but the resumption of a task. -/
def unresumed (i j : Uuid) (lab : Label) (_ : Life) : Prop :=
  j = i → lab ≠ .resume

section Rest

variable {pg : Postgres} {db : Db} {i : Uuid} {ids : List Uuid}

theorem unresumed_of_ne {j : Uuid} {lab : Label} (h : lab ≠ .resume) (l : Life) :
    unresumed i j lab l :=
  fun _ => h

theorem rests_of_evolves {s s' : Core} (h : Evolves (unresumed i) s s')
    (hr : (s.life i).Resting ids) : (s'.life i).Resting ids := by
  have hmove : ∀ lab a b, Life.Resting ids a → unresumed i i lab a → Life.Move lab a b →
      Life.Resting ids b := fun _ _ _ ha hG hm => ha.move (hG rfl) hm
  exact Moves.invariant hmove (h.lives i) hr

theorem unresumed_of_freely (j : Uuid) (lab : Label) (l : Life) (h : freely lab) :
    unresumed i j lab l := by
  intro _ he
  rw [he] at h
  exact h

theorem permits_unresumed {e : Event} (h : approvesTask i db e = false) :
    Permits pg (unresumed i) e.now db e.op := by
  obtain ⟨now, op⟩ := e
  cases op with
  | dispatch roll locked => exact ⟨fun j l _ => unresumed_of_ne (by simp) l,
      fun t _ p _ l => unresumed_of_ne (by simp) l⟩
  | submit j payload => exact fun _ => ⟨unresumed_of_ne (by simp) _, unresumed_of_ne (by simp) _⟩
  | completeOutbound id status body => exact fun q _ _ _ => unresumed_of_ne (by simp) _
  | watchdog seconds locked => exact ⟨fun a _ t _ _ _ => unresumed_of_ne (by simp) _,
      fun t _ _ _ => unresumed_of_ne (by simp) _⟩
  | cancelSession sid reason => exact fun t _ _ _ => unresumed_of_ne (by simp) _
  | decideApproval id accept reply =>
    intro a ha _ _ t _ hta _ hti
    cases accept with
    | false => simp
    | true => simp [approvesTask, ha, ← hta, hti] at h
  | _ => trivial

theorem rests_run (fs : List Event) (hw : db.core.WellFormed)
    (hfs : Along (step pg) (fun s f => approvesTask i s f = false) db fs)
    (hr : (db.core.life i).Resting ids) : ((run (step pg) db fs).core.life i).Resting ids := by
  have hstep : ∀ (s : Db) (f : Event), s.core.WellFormed ∧ (s.core.life i).Resting ids →
      approvesTask i s f = false →
        (step pg s f).core.WellFormed ∧ ((step pg s f).core.life i).Resting ids := by
    intro s f ⟨hws, hrs⟩ hf
    have he : Evolves (unresumed i) s.core (step pg s f).core :=
      step_evolves hws unresumed_of_freely (permits_unresumed hf)
    exact ⟨he.wf hws, rests_of_evolves he hrs⟩
  exact (Runs.invariant hstep ⟨hw, hr⟩ hfs).2

end Rest

/-- The result of a call is not known any more: its completion reports none, or the sweep
takes it back. `d` and `d'` are the states around it, `d'` within the sweep. -/
inductive Lapses (pg : Postgres) (db : Db) (e : Event) (q : Call) : Db → Db → String → Prop
  | answered {o : Outbound} {status : Option Int} {body : Option String}
      (hop : e.op = .completeOutbound q.callId status body) (hreq : q.req = .outbound o)
      (ha : isAmbiguous o status = true) :
      Lapses pg db e q db (step pg db e) "transport_or_server_result_unknown"
  | reclaimed {seconds : Option Int} {locked : List Uuid} {pre post : List Call}
      (hop : e.op = .watchdog seconds locked) (hmut : q.isMutation = true)
      (hdue : overdueCalls e.now seconds locked .outboundCalls db = pre ++ q :: post) :
      Lapses pg db e q (pre.foldl (reclaimCall pg e.now) db)
        (reclaimCall pg e.now (pre.foldl (reclaimCall pg e.now) db) q) "worker_result_unknown"

/-- What a lapse does to the state it finds. Of the calls only its own is written, and for a
task that does not run that is all. -/
structure Lost (now : Time) (reason : String) (q : Call) (d d' : Db) : Prop where
  call : Held (· = .lost) d'.core q.callId
  calls : ∃ f : Call → Call, (∀ c, (f c).ident = c.ident) ∧
    d'.calls = update (·.callId = q.callId) f d.calls
  paused : d.running q.taskId = true → Paused now reason q d d'
  idle : d.running q.taskId = false → d' = { d with calls := d'.calls }

def Db.callIds (db : Db) (i : Uuid) : List Uuid :=
  (db.calls.filter (·.taskId = i)).map (·.callId)

theorem callIds_of_ident {d d' : Db} (h : d'.calls.map (·.ident) = d.calls.map (·.ident))
    (i : Uuid) : d'.callIds i = d.callIds i := by
  have hids : ∀ db : Db,
      db.callIds i = ((db.calls.map (·.ident)).filter (·.2.1 = i)).map (·.1) := by
    intro db
    rw [List.filter_map, List.map_map]
    rfl
  rw [hids d', hids d, h]

section Lapse

variable {pg : Postgres} {db : Db} {e : Event} {q : Call} {now : Time} {reason : String}

/-- No call is added by a lapse. -/
theorem Lost.callIds {d d' : Db} (h : Lost now reason q d d') (i : Uuid) :
    d'.callIds i = d.callIds i := by
  obtain ⟨f, hf, hcalls⟩ := h.calls
  refine callIds_of_ident ?_ i
  rw [hcalls]
  exact map_ident_update hf d.calls

/-- What was written to the call before it is lost makes no difference. -/
theorem Lost.of_written {f : Call → Call} {d' : Db} (hf : ∀ c, (f c).ident = c.ident)
    (h : Lost now reason q (db.updateCall q.callId f) d') : Lost now reason q db d' := by
  obtain ⟨g, hg, hcalls⟩ := h.calls
  have hid : ∀ c, (f c).callId = c.callId := fun c => congrArg (·.1) (hf c)
  refine ⟨h.call, ⟨fun c => g (f c), fun c => (hg _).trans (hf c), ?_⟩, fun hr => ?_, h.idle⟩
  · rw [hcalls]
    exact update_update (fun c => by rw [hid]) db.calls
  · have hp := h.paused hr
    exact ⟨hp.call, hp.task, hp.approval, hp.logs⟩

theorem pauseAmbiguousOutbound_lost (hw : db.core.WellFormed) (reason : String)
    (hq : ∃ r ∈ db.calls, r.callId = q.callId) :
    Lost now reason q db (db.pauseAmbiguousOutbound q reason now) := by
  let f : Call → Call := fun c => { c with status := .lost, error := some reason, updatedAt := now }
  have hcalls : (db.pauseAmbiguousOutbound q reason now).calls =
      update (·.callId = q.callId) f db.calls := by
    unfold Db.pauseAmbiguousOutbound
    dsimp only
    split <;> rfl
  obtain ⟨r, hrm, hrid⟩ := hq
  refine ⟨?_, ⟨f, fun _ => rfl, hcalls⟩,
    pauseAmbiguousOutbound_paused hw reason ⟨r, hrm, hrid⟩, fun hr => ?_⟩
  · refine ⟨f r, ?_, hrid, rfl⟩
    have hmem : f r ∈ update (·.callId = q.callId) f db.calls :=
      mem_update.mpr ⟨r, hrm, by simp [hrid]⟩
    rw [← hcalls] at hmem
    exact hmem
  · rw [pauseAmbiguousOutbound_idle hw reason hr]
    rfl

theorem answered_lost {o : Outbound} {status : Option Int} {body : Option String}
    (hw : db.core.WellFormed) (hq : q ∈ db.calls) (hs : q.status = .inFlight)
    (hop : e.op = .completeOutbound q.callId status body) (hreq : q.req = .outbound o)
    (ha : isAmbiguous o status = true) :
    Lost e.now "transport_or_server_result_unknown" q db (step pg db e) := by
  have hfind : db.call? .outboundCalls q.callId = some q := by
    have := call?_of_mem hw hq
    rwa [hreq] at this
  let f : Call → Call := fun c =>
    { c with responseStatus := status, responseBody := some (left (orEmpty body) 200000) }
  have hstep : step pg db e = (db.updateCall q.callId f).pauseAmbiguousOutbound q
      "transport_or_server_result_unknown" e.now := by
    simp only [step, hop, perform, fnCompleteOutbound, hfind, hs, ne_eq, not_true_eq_false, if_false,
      hreq, harvestOutbound, ha, if_true, Except.map]
    rfl
  rw [hstep]
  have hf : ∀ c, (f c).ident = c.ident := fun _ => rfl
  have hwn : (db.updateCall q.callId f).core.WellFormed :=
    (grow_updateCall (s := db.core) hf).wf hw
  exact .of_written hf (pauseAmbiguousOutbound_lost hwn "transport_or_server_result_unknown"
    ⟨f q, mem_update.mpr ⟨q, hq, by simp⟩, rfl⟩)

/-- The sweep up to one of its calls. -/
theorem reclaims_before (pg : Postgres) {pre post : List Call} {seconds : Option Int}
    {locked : List Uuid} (hw : db.core.WellFormed)
    (hdue : overdueCalls now seconds locked .outboundCalls db = pre ++ q :: post) :
    let d := pre.foldl (reclaimCall pg now) db
    d.core.WellFormed ∧ q ∈ d.calls ∧ q.status = .inFlight ∧
      ∀ (G : Uuid → Label → Life → Prop), (∀ i l, G i .settle l) → (∀ i l, G i .born l) →
        Evolves G (reclaimCall pg now d q).core
          (reclaimQueue pg now seconds locked .outboundCalls db).core := by
  have hmem : ∀ p ∈ pre ++ q :: post, p ∈ db.calls ∧ p.status = .inFlight := by
    intro p hp
    rw [← hdue] at hp
    obtain ⟨hpm, -, ho⟩ := mem_overdueCalls.mp hp
    simp only [isOverdue, Bool.and_eq_true, decide_eq_true_eq] at ho
    exact ⟨hpm, ho.1.1⟩
  have hn : ((pre ++ q :: post).map (·.callId)).Nodup := by
    rw [← hdue]
    exact hw.callIds.sublist (List.filter_sublist.map _)
  rw [List.map_append, List.map_cons, List.nodup_append] at hn
  obtain ⟨hpre, hrest, hdisj⟩ := hn
  have hr : Reclaims (fun _ _ _ => True) now db (pre.foldl (reclaimCall pg now) db)
      (pre.map (·.callId)) :=
    reclaims_foldl pg now (fun _ _ => trivial) (fun _ _ => trivial) hw hpre
      fun p hp => hmem p (by simp [hp])
  have hkept : ∀ p ∈ q :: post, p ∈ (pre.foldl (reclaimCall pg now) db).calls := by
    intro p hp
    refine hr.kept p (hmem p (List.mem_append_right _ hp)).1 fun hin => ?_
    exact hdisj _ hin p.callId (List.mem_map_of_mem hp) rfl
  have hq := hmem q (by simp)
  have hwd := hr.evolves.wf hw
  refine ⟨hwd, hkept q (by simp), hq.2, fun G hs hb => ?_⟩
  have hone : Reclaimed now _ (reclaimCall pg now (pre.foldl (reclaimCall pg now) db) q) q :=
    reclaimCall_reclaimed pg hwd (hkept q (by simp)) hq.2
  simp only [List.nodup_cons, List.mem_map, not_exists, not_and] at hrest
  have hpost := reclaims_foldl (G := G) pg now hs hb (hone.settled.grow.wf hwd) hrest.2 fun p hp =>
    ⟨hone.kept p (hkept p (List.mem_cons_of_mem q hp)) (hrest.1 p hp),
      (hmem p (by simp [hp])).2⟩
  have heq : reclaimQueue pg now seconds locked .outboundCalls db =
      post.foldl (reclaimCall pg now)
        (reclaimCall pg now (pre.foldl (reclaimCall pg now) db) q) := by
    unfold reclaimQueue
    rw [hdue, List.foldl_append, List.foldl_cons]
  rw [heq]
  exact hpost.evolves

/-- The moves of a sweep. -/
def sweepLabel (lab : Label) : Prop :=
  Life.closeLabel lab ∧ lab ≠ .resume

theorem evolves_sweep {seconds : Option Int} {locked : List Uuid}
    (hw : (reclaimQueue pg now seconds locked .outboundCalls db).core.WellFormed) :
    Evolves (fun _ lab _ => sweepLabel lab)
      (reclaimQueue pg now seconds locked .outboundCalls db).core
      (fnWatchdog pg now seconds locked db).core := by
  have hset : sweepLabel .settle := ⟨trivial, by simp⟩
  have hborn : sweepLabel .born := ⟨trivial, by simp⟩
  have hn : [Queue.sqlCalls, .functionCalls, .procedureCalls].Nodup := by decide
  obtain ⟨he, -⟩ := reclaimQueues_swept (G := fun _ lab _ => sweepLabel lab) pg now seconds locked
    (fun _ _ => hset) (fun _ _ => hborn) hw hn
  rw [← reclaimAll_eq, ← core_afterReclaim] at he
  rw [fnWatchdog_eq, Db.core_onConfig]
  refine he.trans (sweepRest_evolves (he.wf hw) ?_ ?_ ?_)
  · exact fun _ _ => ⟨trivial, by simp⟩
  · exact fun _ _ _ _ _ _ => ⟨trivial, by simp⟩
  · exact fun _ _ _ _ => ⟨trivial, by simp⟩

theorem reclaimCall_lost (hw : db.core.WellFormed) (hq : q ∈ db.calls)
    (hmut : q.isMutation = true) :
    Lost now "worker_result_unknown" q db (reclaimCall pg now db q) := by
  let lost := db.updateCall q.callId (·.timedOut now)
  have hid : (q.timedOut now).callId = q.callId := congrArg (·.1) (ident_timedOut now q)
  have hmem : q.timedOut now ∈ lost.calls := mem_update.mpr ⟨q, hq, by simp⟩
  have hwl : lost.core.WellFormed := (grow_updateCall (s := db.core) (ident_timedOut now)).wf hw
  unfold reclaimCall
  dsimp only
  by_cases hr : lost.running q.taskId = true
  · rw [if_pos hr, if_pos hmut]
    exact .of_written (ident_timedOut now)
      (pauseAmbiguousOutbound_lost hwl "worker_result_unknown" ⟨_, hmem, hid⟩)
  · rw [if_neg hr]
    exact ⟨⟨_, hmem, hid, status_timedOut now q⟩, ⟨_, ident_timedOut now, rfl⟩,
      fun h => absurd h hr, fun _ => rfl⟩

/-- A lapse loses the call, and what is left of its event is the rest of a sweep. -/
theorem lapses_lost {d d' : Db} (hw : db.core.WellFormed) (hq : q ∈ db.calls)
    (hs : q.status = .inFlight) (h : Lapses pg db e q d d' reason) :
    Lost e.now reason q d d' ∧ d'.core.WellFormed ∧
      Evolves (fun _ lab _ => sweepLabel lab) d'.core (step pg db e).core := by
  cases h with
  | answered hop hreq ha =>
    exact ⟨answered_lost hw hq hs hop hreq ha, wellFormed_step pg e hw, Evolves.refl _⟩
  | @reclaimed seconds locked pre post hop hmut hdue =>
    obtain ⟨hwd, hqd, -, hrest⟩ := reclaims_before pg hw hdue
    have he := hrest (fun _ lab _ => sweepLabel lab) (fun _ _ => ⟨trivial, by simp⟩)
      fun _ _ => ⟨trivial, by simp⟩
    have hone : Reclaimed e.now _ (reclaimCall pg e.now (pre.foldl (reclaimCall pg e.now) db) q) q :=
      reclaimCall_reclaimed pg hwd hqd hs
    have hw' := hone.settled.grow.wf hwd
    refine ⟨reclaimCall_lost hwd hqd hmut, hw', ?_⟩
    have hstep : step pg db e = fnWatchdog pg e.now seconds locked db := by
      simp only [step, hop, perform]
    rw [hstep]
    exact he.trans (evolves_sweep (he.wf hw'))

end Lapse

theorem ids_callsOf (s : Core) (i : Uuid) :
    (s.callsOf i).map (·.id) = (s.calls.filter (·.taskId = i)).map (·.callId) := by
  simp only [callsOf, List.map_map]
  rfl

/-- In every run: a call of an outside function other than a GET that lapses is lost, and
when its task runs, the task waits for a human who is told of the call, and one row
about it is logged. From the lapse on, no call of the task is added before a human
approves, and a completion that comes later changes nothing. -/
theorem ambiguous_call_waits (pg : Postgres) (c : Config) (es : List Event) (e : Event)
    (q : Call) (d d' : Db) (reason : String) :
    let db := run (step pg) (start c) es
    q ∈ db.calls → q.status = .inFlight → Lapses pg db e q d d' reason →
      Lost e.now reason q d d' ∧
      (∀ fs f, f.op.completes = some (.outboundCalls, q.callId) →
        let later := run (step pg) (step pg db e) fs
        Held (· = .lost) later.core q.callId ∧ step pg later f = later) ∧
      (d.running q.taskId = true → ∀ fs,
        Along (step pg) (fun s f => approvesTask q.taskId s f = false) (step pg db e) fs →
          (run (step pg) (step pg db e) fs).callIds q.taskId = d.callIds q.taskId) := by
  intro db hq hs hl
  have hw : db.core.WellFormed := wellFormed_run pg es (wellFormed_start c)
  have hw' := wellFormed_step pg e hw
  obtain ⟨hlost, hwd, he⟩ := lapses_lost hw hq hs hl
  refine ⟨hlost, fun fs f hf => ?_, fun hr fs hfs => ?_⟩
  · have hedge : ∀ a b, Edge a b → a = .lost → b = .lost := by
      intro a b hab ha
      cases hab <;> simp_all
    have hclosed : Evolves (fun _ lab _ => Life.closeLabel lab) d'.core (step pg db e).core :=
      he.mono fun _ _ _ h => h.1
    have hres : Restatus Edge d'.core (step pg db e).core :=
      (restatus_of_closed hwd hclosed).mono fun _ _ h => edge_of_closes h
    have hlater := run_held pg hedge fs hw' (hres.held hedge hlost.call)
    refine ⟨hlater, step_of_over (wellFormed_run pg fs hw') hf ?_⟩
    obtain ⟨r, hr, hrid, hrs⟩ := hlater
    exact ⟨r, hr, hrid, by rw [hrs]; rfl⟩
  · obtain ⟨t, ht, hts⟩ := (hlost.paused hr).task
    have hlife := life_of_task? (s := d'.core) ht
    have hrest : (d'.core.life q.taskId).Resting (d'.callIds q.taskId) := by
      refine ⟨.inl (by rw [hlife, hts]), ?_⟩
      rw [hlife]
      exact ids_callsOf d'.core q.taskId
    have hrests : Evolves (unresumed q.taskId) d'.core (step pg db e).core :=
      he.mono fun _ _ _ h _ => h.2
    have hlater := rests_run fs hw' hfs (rests_of_evolves hrests hrest)
    rw [← hlost.callIds]
    exact (ids_callsOf _ q.taskId).symm.trans hlater.2

def payConfig : Config where
  agents := [{ agentId := 1, name := "clerk" }]
  policies := [{
    agentId := 1
    systemPrompt := "serve"
    llmConfig := .object [("provider", .str "llm"), ("model", .str "m")] }]
  permissions := [⟨1, .function, "http_request"⟩, ⟨1, .httpHost, "shop.example"⟩]
  providers := [{ providerId := 3, name := "llm", baseUrl := "https://llm.example" }]
  nextId := 10

/-- The reply that asks for a payment, with the fields a repetition adds. -/
def payment (fields : List (String × Json)) : Json :=
  .object [("type", .str "llm_response"), ("parsed", .object (fields ++
    [("action", .str "call_function"), ("function", .str "http_request"),
      ("args", .object [("method", .str "POST"), ("url", .str "https://shop.example/pay")])]))]

/-- The worker holds a payment. -/
def payRun : List Event :=
  [⟨1, .createSession 1 (some "go") none none⟩, ⟨2, .dispatch (fun _ => 0) []⟩,
    ⟨3, .claim .outboundCalls none none []⟩, ⟨4, .completeOutbound 3 (some 500) none⟩,
    ⟨5, .submit 2 (payment [])⟩, ⟨6, .claim .outboundCalls none none []⟩]

def payError : Event :=
  ⟨7, .completeOutbound 4 (some 503) none⟩

theorem payment_in_flight : ∃ q ∈ (run (step bareServer) (start payConfig) payRun).calls,
    q.callId = 4 ∧ q.status = .inFlight ∧
    (run (step bareServer) (start payConfig) payRun).running q.taskId = true ∧
    (match q.req with
      | .outbound o => isAmbiguous o (some 503)
      | _ => false) = true := by
  decide +kernel

theorem payment_lapses : ∃ q ∈ (run (step bareServer) (start payConfig) payRun).calls,
    q.status = .inFlight ∧ (run (step bareServer) (start payConfig) payRun).running q.taskId = true ∧
    Lapses bareServer (run (step bareServer) (start payConfig) payRun) payError q
      (run (step bareServer) (start payConfig) payRun)
      (step bareServer (run (step bareServer) (start payConfig) payRun) payError)
      "transport_or_server_result_unknown" := by
  obtain ⟨q, hq, hid, hs, hr, ha⟩ := payment_in_flight
  generalize run (step bareServer) (start payConfig) payRun = db at hq hr
  refine ⟨q, hq, hs, hr, ?_⟩
  split at ha
  · rename_i o ho
    exact .answered (by rw [hid]; rfl) ho ha
  · cases ha

theorem payment_waits :
    let db := run (step bareServer) (start payConfig) payRun
    ∃ q ∈ db.calls, Paused 7 "transport_or_server_result_unknown" q db
      (step bareServer db payError) := by
  intro db
  obtain ⟨q, hq, hs, hr, hl⟩ := payment_lapses
  have h := ambiguous_call_waits bareServer payConfig payRun payError q db _ _ hq hs hl
  exact ⟨q, hq, h.1.paused hr⟩

/-- The row about the call is an error row of the task. -/
theorem payment_error_logged :
    ¬ ∀ (pg : Postgres) (c : Config) (es : List Event) (e : Event) (q : Call) (reason : String),
      let db := run (step pg) (start c) es
      q ∈ db.calls → q.status = .inFlight → db.running q.taskId = true →
        Lapses pg db e q db (step pg db e) reason →
          ∀ l ∈ (step pg db e).logs, l ∉ db.logs → l.taskId = q.taskId →
            l.role ≠ .function ∧ l.role ≠ .error := by
  intro h
  obtain ⟨q, hq, hs, hr, hl⟩ := payment_lapses
  have hnew : ∃ l ∈ (step bareServer (run (step bareServer) (start payConfig) payRun) payError).logs,
      l ∉ (run (step bareServer) (start payConfig) payRun).logs ∧ l.role = .error ∧
        ∀ q ∈ (run (step bareServer) (start payConfig) payRun).calls, l.taskId = q.taskId := by
    decide +kernel
  obtain ⟨l, hlm, hln, hle, hlt⟩ := hnew
  exact (h bareServer payConfig payRun payError q _ hq hs hr hl l hlm hln (hlt q hq)).2 hle

end Allgres
