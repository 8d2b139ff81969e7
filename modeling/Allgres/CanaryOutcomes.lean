import Allgres.FinishedTasks
import Allgres.Verdicts

/-! The outcomes that the rates of a model override are computed from, over whole runs. -/

namespace Allgres

open Raise Rows Runs Allgres.Core

def finalAnswerText (v : Json) : Option String :=
  (nullIfEmpty (v.text "answer")).or ((nullIfEmpty (v.text "content")).or (nullIfEmpty (v.text "final_answer")))

/-- A reply that names an action, and gives the answer if that is the final one. -/
def isDispatched (parsed : Option Json) : Bool :=
  match actionOf parsed with
  | none => false
  | some (.finalAnswer, v) => (finalAnswerText v).isSome
  | some _ => true

def httpOk (status : Option Int) : Bool :=
  status.any fun s => 200 ≤ s && s < 400

/-- The task runs, and its agent is active. -/
def Db.heeds (db : Db) (id : Uuid) : Bool :=
  (db.task? id).any fun t => t.status = .running && (db.cfg.agent? t.agentId).any (·.isActive)

/-- The outcomes of the scored calls. -/
structure Honest (db : Db) : Prop where
  won : ∀ q ∈ db.calls, q.req.isScored = true → q.outcome = some .success →
    q.status = .harvested ∧ httpOk q.responseStatus = true
  failed : ∀ q ∈ db.calls, q.req.isScored = true →
    q.status = .lost ∨ (q.status = .harvested ∧ httpOk q.responseStatus = false) →
      q.outcome = some .failure

/-- What is asked of a step: the outcomes are honest, and a new success is the completion of the
call with an answer of a model that is dispatched as an action of its task. -/
structure Scored (db : Db) (e : Event) (db' : Db) : Prop extends Honest db' where
  success : ∀ q ∈ db'.calls, q.req.isScored = true → q.outcome = some .success →
    (∃ r ∈ db.calls, r.callId = q.callId ∧ r.outcome = some .success) ∨
      ∃ status body, e.op = .completeOutbound q.callId status body ∧ httpOk status = true ∧
        db.heeds q.taskId = true ∧ isDispatched (extractFirstJson (llmTextFromHttp body)) = true

/-- No scored call comes back as an error of the transport or to a task that does not heed it,
is denied when it is claimed, or is taken back with its turn or its session. -/
def isFair (pg : Postgres) (db : Db) (e : Event) : Bool :=
  match e.op with
  | .completeOutbound id status _ => (db.call? .outboundCalls id).all fun q =>
      q.status != .inFlight || !q.req.isScored || (httpOk status && db.heeds q.taskId)
  | .claim queue limit _ locked => ((claimable db e.now queue locked).take (claimLimit limit)).all fun q =>
      !q.req.isScored || db.tasks.all fun t => t.taskId != q.taskId ||
        (guardReason pg db.cfg t.agentId q.req).isNone
  | .watchdog seconds locked => db.tasks.all fun t => !overTurn e.now db.cfg t || locked.contains t.taskId ||
      db.calls.all fun q => q.taskId != t.taskId || !q.req.isScored || !q.status.live ||
        isOverdue e.now seconds locked q
  | .cancelSession sid _ => db.calls.all fun q => !q.req.isScored || !q.status.live ||
      !db.inSession sid q.taskId
  | _ => true

section Verdicts

variable {db db' : Db} {q r : Call}

theorem ended_of_verdict (h : r.verdict = q.verdict) (hq : q.status.live = false) :
    r.status = q.status ∧ r.responseStatus = q.responseStatus := by
  have hend : r.verdict.ending = q.verdict.ending := congrArg Verdict.ending h
  unfold Call.verdict at hend
  dsimp only at hend
  rw [hq] at hend
  split at hend
  · cases hend
  · simpa using hend

theorem Honest.same (h : Honest db) (hr : r ∈ db.calls) (hv : r.verdict = q.verdict)
    (hs : q.req.isScored = true) :
    (q.outcome = some .success → q.status = .harvested ∧ httpOk q.responseStatus = true) ∧
      (q.status = .lost ∨ (q.status = .harvested ∧ httpOk q.responseStatus = false) →
        q.outcome = some .failure) := by
  have hreq : r.req = q.req := congrArg Verdict.req hv
  have hout : r.outcome = q.outcome := congrArg Verdict.outcome hv
  constructor
  · intro hwon
    obtain ⟨hst, hok⟩ := h.won r hr (hreq ▸ hs) (hout.trans hwon)
    have hdead : r.status.live = false := by rw [hst]; rfl
    have hqr := ended_of_verdict hv.symm hdead
    exact ⟨hqr.1.trans hst, hqr.2 ▸ hok⟩
  · intro hend
    have hdead : q.status.live = false := by
      rcases hend with hl | ⟨hh, -⟩
      · rw [hl]; rfl
      · rw [hh]; rfl
    obtain ⟨hst, hresp⟩ := ended_of_verdict hv hdead
    rw [← hst, ← hresp] at hend
    exact hout ▸ h.failed r hr (hreq ▸ hs) hend

theorem honest_unheard (h : q.verdict.Unheard) (hs : q.req.isScored = true) :
    q.outcome ≠ some .success ∧
      (q.status = .lost ∨ (q.status = .harvested ∧ httpOk q.responseStatus = false) →
        q.outcome = some .failure) := by
  have hout : q.verdict.outcome = q.outcome := rfl
  rcases h hs with ⟨hend, hnone⟩ | ⟨⟨s, hend⟩, hfail⟩
  · rw [hout] at hnone
    refine ⟨by simp [hnone], fun hq => ?_⟩
    have hlive : q.status.live = true := by
      unfold Call.verdict at hend
      dsimp only at hend
      split at hend
      · assumption
      · cases hend
    rcases hq with hq | ⟨hq, -⟩
    · rw [hq] at hlive
      cases hlive
    · rw [hq] at hlive
      cases hlive
  · rw [hout] at hfail
    exact ⟨by simp [hfail], fun _ => hfail⟩

/-- A row that keeps its verdict, or that nobody has answered. -/
theorem Honest.row (h : Honest db)
    (hv : q.verdict ∈ db.calls.map Call.verdict ∨ q.verdict.Unheard) (hs : q.req.isScored = true) :
    ((q.outcome = some .success → q.status = .harvested ∧ httpOk q.responseStatus = true) ∧
      (q.status = .lost ∨ (q.status = .harvested ∧ httpOk q.responseStatus = false) →
        q.outcome = some .failure)) ∧
    (q.outcome = some .success → ∃ r ∈ db.calls, r.callId = q.callId ∧ r.outcome = some .success) := by
  rcases hv with hold | hnew
  · obtain ⟨r, hr, hv⟩ := List.mem_map.mp hold
    have hid : r.callId = q.callId := congrArg Verdict.callId hv
    have hout : r.outcome = q.outcome := congrArg Verdict.outcome hv
    exact ⟨h.same hr hv hs, fun hwon => ⟨r, hr, hid, hout.trans hwon⟩⟩
  · obtain ⟨hne, hfail⟩ := honest_unheard hnew hs
    exact ⟨⟨fun hwon => absurd hwon hne, hfail⟩, fun hwon => absurd hwon hne⟩

theorem scored_of_unjudged {e : Event} (h : Honest db) (hu : Unjudged db db') : Scored db e db' := by
  refine ⟨⟨fun q hq hs => ?_, fun q hq hs => ?_⟩, fun q hq hs hwon => ?_⟩
  · exact ((h.row (hu q hq) hs).1).1
  · exact ((h.row (hu q hq) hs).1).2
  · exact .inl ((h.row (hu q hq) hs).2 hwon)

end Verdicts

section Claims

variable {db : Db} {pg : Postgres} {now : Time}

theorem unique_of_ident {d : Db} (hw : db.core.WellFormed) (h : d.calls.map Call.ident = db.calls.map Call.ident)
    {c q : Call} (hc : c ∈ d.calls) (hq : q ∈ d.calls) (hid : c.callId = q.callId) : c = q := by
  have hids : d.calls.map (·.callId) = db.calls.map (·.callId) := by
    have hmap := congrArg (List.map Prod.fst) h
    rwa [List.map_map, List.map_map] at hmap
  exact eq_of_key Call.callId (hids ▸ hw.callIds) hc hq hid

/-- The guard answers a call that is not to be denied without a verdict. -/
theorem guardQueuedCall_unjudged {d : Db} {queue : Queue} {id : Uuid} (hw : db.core.WellFormed)
    (hcalls : d.calls.map Call.ident = db.calls.map Call.ident)
    (hspare : ∀ q t, Waiting d queue id q t → q.req.isScored = true →
      guardReason pg d.cfg t.agentId q.req = none) :
    Unjudged d (guardQueuedCall pg now d queue id).1 ∧
      (guardQueuedCall pg now d queue id).1.calls.map Call.ident = d.calls.map Call.ident ∧
      (guardQueuedCall pg now d queue id).1.tasks.map Task.ident = d.tasks.map Task.ident := by
  rcases guardQueuedCall_cases pg now d queue id with
    h | ⟨q, t, hq, ⟨reason, hr, h⟩ | ⟨-, -, h⟩ | ⟨-, h⟩⟩
  · rw [h]
    exact ⟨Unjudged.refl d, rfl, rfl⟩
  · rw [h]
    have hlost : Unjudged d (d.updateCall q.callId fun c => { c with status := .lost, updatedAt := now }) := by
      refine among_update fun c hc hid => .inr fun hscored => ?_
      obtain rfl := unique_of_ident hw hcalls hc hq.mem.1 (by simpa using hid)
      rw [hspare c t hq hscored] at hr
      cases hr
    have hcore : (d.denyCall t q reason now).core = (d.core.updateCall q.callId fun c =>
        { c with status := .lost, updatedAt := now }).updateTask t.taskId fun r =>
          { r with status := .failed, error := some reason, updatedAt := now } := Db.core_failTask _ _ _ _ _
    refine ⟨hlost.trans (unjudged_failTask _ _ _ _ _), ?_, ?_⟩
    · have hc := congrArg Core.calls hcore
      refine (congrArg (List.map Call.ident) hc).trans ?_
      apply map_update
      intro c
      rfl
    · have ht := congrArg Core.tasks hcore
      refine (congrArg (List.map Task.ident) ht).trans ?_
      apply map_update
      intro r
      rfl
  · rw [h]
    exact ⟨Unjudged.refl d, rfl, rfl⟩
  · rw [h]
    have hprev : (d.supersede (latestApproval d t.taskId queue id) now).calls = d.calls ∧
        (d.supersede (latestApproval d t.taskId queue id) now).tasks = d.tasks := by
      cases latestApproval d t.taskId queue id <;> exact ⟨rfl, rfl⟩
    refine ⟨unjudged_of_calls hprev.1, congrArg (List.map Call.ident) hprev.1, ?_⟩
    have ht : (d.requestApproval t q (latestApproval d t.taskId queue id) now).tasks =
        update (·.taskId = t.taskId) (fun r => { r with status := .waitingHuman, updatedAt := now })
          (d.supersede (latestApproval d t.taskId queue id) now).tasks := rfl
    rw [ht, hprev.2]
    apply map_update
    intro r
    rfl

theorem takeCall_unjudged {d : Db} {queue : Queue} {id : Uuid} {q : Call} {t : Task}
    (hw : db.core.WellFormed) (hcalls : d.calls.map Call.ident = db.calls.map Call.ident)
    (hq : Waiting d queue id q t) : Unjudged d (d.takeCall id now) := by
  refine among_update fun c hc hid => .inl ?_
  have hcq : c.callId = q.callId := by
    rw [hq.mem.2.1]
    simpa using hid
  obtain rfl := unique_of_ident hw hcalls hc hq.mem.1 hcq
  unfold Call.verdict
  rw [hq.queued]
  rfl

/-- A claim that denies no scored call. -/
theorem claimLoop_unjudged {queue : Queue} {fallback : Option String} (hw : db.core.WellFormed)
    {qs : List Call} (hqs : ∀ q ∈ qs, q ∈ db.calls ∧ (q.req.isScored = true → ∀ t ∈ db.tasks,
      t.taskId = q.taskId → guardReason pg db.cfg t.agentId q.req = none)) {d : Db}
    (hcalls : d.calls.map Call.ident = db.calls.map Call.ident)
    (htasks : d.tasks.map Task.ident = db.tasks.map Task.ident) (hcfg : d.cfg = db.cfg) :
    Unjudged d (claimLoop pg now queue fallback qs d).1 := by
  induction qs generalizing d with
  | nil => exact Unjudged.refl d
  | cons q qs ih =>
    obtain ⟨hqm, hfair⟩ := hqs q (by simp)
    have hspare : ∀ p t, Waiting d queue q.callId p t → p.req.isScored = true →
        guardReason pg d.cfg t.agentId p.req = none := by
      intro p t hp hscored
      obtain ⟨p₀, hp₀, hident⟩ := mem_of_ident hcalls hp.mem.1
      have hid : p₀.callId = q.callId := (congrArg (·.1) hident).trans hp.mem.2.1
      obtain rfl := eq_of_key Call.callId hw.callIds hp₀ hqm hid
      obtain ⟨htm, -⟩ := mem_of_task? (s := d.core) hp.task
      obtain ⟨t₀, ht₀, htident⟩ := mem_of_ident htasks htm
      have hreq : p₀.req = p.req := congrArg (·.2.2) hident
      have htask : p₀.taskId = p.taskId := congrArg (·.2.1) hident
      have hagent : t₀.agentId = t.agentId := congrArg (·.2.2.1) htident
      have htid : t₀.taskId = t.taskId := congrArg (·.1) htident
      rw [hcfg, ← hagent, ← hreq]
      exact hfair (hreq ▸ hscored) t₀ ht₀ (htid.trans (hp.own.trans htask.symm))
    have hgcfg : (guardQueuedCall pg now d queue q.callId).1.cfg = d.cfg := cfg_guardQueuedCall _ _ _ _ _
    obtain ⟨hguard, hgc, hgt⟩ : Unjudged d (guardQueuedCall pg now d queue q.callId).1 ∧
        (guardQueuedCall pg now d queue q.callId).1.calls.map Call.ident = d.calls.map Call.ident ∧
        (guardQueuedCall pg now d queue q.callId).1.tasks.map Task.ident = d.tasks.map Task.ident :=
      guardQueuedCall_unjudged hw hcalls hspare
    have hrest : ∀ p ∈ qs, p ∈ db.calls ∧ (p.req.isScored = true → ∀ t ∈ db.tasks,
        t.taskId = p.taskId → guardReason pg db.cfg t.agentId p.req = none) :=
      fun p hp => hqs p (List.mem_cons_of_mem q hp)
    rw [claimLoop]
    dsimp only
    split
    · rename_i hok
      obtain ⟨hdb, p, t, hwait, -, -⟩ := guardQueuedCall_true hok
      have htake : Unjudged d (d.takeCall q.callId now) := takeCall_unjudged hw hcalls hwait
      rw [hdb]
      refine htake.trans (ih hrest ?_ htasks hcfg)
      refine Eq.trans ?_ hcalls
      apply map_update
      intro c
      rfl
    · exact hguard.trans (ih hrest (hgc.trans hcalls) (hgt.trans htasks) (hgcfg.trans hcfg))

end Claims

section Sweeps

variable {db : Db} {pg : Postgres} {now : Time} {seconds : Option Int} {locked : List Uuid}

def busy (s : TaskStatus) : Bool :=
  s = .running || s = .waitingHuman || s = .waitingChildren

theorem busy_of_reclaim {l l' : Life} (h : Moves Life.Move (fun lab _ => reclaimLabel lab) l l')
    (hb : l'.status.any busy = true) : l.status.any busy = true := by
  have hmove : ∀ lab a b, (b.status.any busy = true → a.status.any busy = true) ∨ ¬ reclaimLabel lab ∨
      ¬ Life.Move lab a b := by
    intro lab a b
    by_cases hlab : reclaimLabel lab
    · by_cases hm : Life.Move lab a b
      · left
        intro hbusy
        rcases hlab with rfl | rfl
        · cases hm with
          | settleIdle hr hc hs => exact hbusy
          | settleStep hc hs hadv => rfl
          | pause hc hm => rfl
        · cases hm with
          | born => cases hbusy
      · exact .inr (.inr hm)
    · exact .inr (.inl hlab)
  exact Moves.lift (R := fun a b : Life => b.status.any busy = true → a.status.any busy = true)
    (fun _ => id) (fun _ _ _ h h' hc => h (h' hc))
    (fun lab a b hG hm => ((hmove lab a b).resolve_right (by simp [hG, hm]))) h hb

theorem unjudged_reclaimAll (db : Db) : Unjudged db (reclaimAll pg now seconds locked db) := by
  have hqueue : ∀ d queue, Unjudged d (reclaimQueue pg now seconds locked queue d) :=
    fun d queue => unjudged_foldl (unjudged_reclaimCall pg now) _ d
  rw [reclaimAll_eq]
  exact (hqueue db .outboundCalls).trans
    (unjudged_foldl (fun d queue => hqueue d queue) [Queue.sqlCalls, .functionCalls, .procedureCalls] _)

/-- What is live after the sweep for overdue calls was live before, and is not overdue. -/
theorem live_before_reclaim (hw : db.core.WellFormed) {c : Call}
    (hc : c ∈ (reclaimAll pg now seconds locked db).calls) (hl : c.status.live = true) :
    ∃ q ∈ db.calls, q.ident = c.ident ∧ q.status.live = true ∧ isOverdue now seconds locked q = false := by
  obtain ⟨he, hsw, hlost⟩ := reclaimAll_swept (G := fun _ lab _ => Life.closeLabel lab) pg now seconds
    locked (fun _ _ => trivial) (fun _ _ => trivial) hw
  obtain ⟨q, hq, hident⟩ := mem_of_ident hsw.calls hc
  have hid : q.callId = c.callId := congrArg (·.1) hident
  obtain ⟨c', hc', hident', hst⟩ := (restatus_of_closed hw he).old q hq
  obtain rfl := eq_of_key Call.callId (he.wf hw).callIds hc' hc ((congrArg (·.1) hident').trans hid)
  have hlive : q.status.live = true := by
    rcases hst with hst | ⟨-, hst | hst⟩ | ⟨-, hst⟩
    · rwa [hst]
    · rw [hst] at hl
      cases hl
    · rw [hst] at hl
      cases hl
    · rw [hst] at hl
      cases hl
  refine ⟨q, hq, hident, hlive, ?_⟩
  by_contra hover
  have hdead := hlost q hq (by simpa using hover) c' hc hid.symm
  rw [hdead] at hl
  cases hl

/-- A task over its turn when the sweep comes to it was over it before. -/
theorem overTurn_before (hw : db.core.WellFormed) {t : Task}
    (ht : t ∈ (afterExpire pg now seconds locked db).tasks)
    (hover : overTurn now (afterExpire pg now seconds locked db).cfg t = true) :
    ∃ r ∈ db.tasks, r.taskId = t.taskId ∧ overTurn now db.cfg r = true := by
  obtain ⟨he, hsw, -⟩ := reclaimAll_swept (G := fun _ lab _ => reclaimLabel lab) pg now seconds locked
    (fun _ _ => .inl rfl) (fun _ _ => .inr rfl) hw
  have hany : ∀ a ∈ expiredApprovals now locked (afterReclaim pg now seconds locked db), ∀ t,
      (afterReclaim pg now seconds locked db).task? t.taskId = some t → t.taskId = a.taskId →
        t.status = .waitingHuman → True := fun _ _ _ _ _ _ => trivial
  have hwd : (afterReclaim pg now seconds locked db).core.WellFormed := he.wf hw
  obtain ⟨hexp, hstay, -, hcfg, hkeys⟩ := expireApprovals_life (G := fun _ _ _ => True) now hany
  have htask := task?_of_mem (hexp.wf hwd) ht
  unfold overTurn at hover
  rw [Bool.and_eq_true] at hover
  obtain ⟨hocc, hclock⟩ := hover
  have hlife := life_of_task? htask
  have hbusy : ((reclaimAll pg now seconds locked db).core.life t.taskId).status.any busy = true := by
    rcases hstay t.taskId with hs | hs
    · have hsame : (reclaimAll pg now seconds locked db).core.life t.taskId = _ := hs.symm.trans hlife
      rw [hsame]
      exact hocc
    · have hf : t.status = .failed := Option.some.inj ((congrArg Life.status hlife).symm.trans hs)
      unfold occupies at hocc
      rw [hf] at hocc
      cases hocc
  have hbefore := busy_of_reclaim (he.lives t.taskId) hbusy
  have hkey : t.turnKey ∈ db.tasks.map Task.turnKey := by
    have htasks : (afterReclaim pg now seconds locked db).tasks.map Task.turnKey =
        db.tasks.map Task.turnKey := hsw.tasks
    rw [← htasks, ← hkeys]
    exact List.mem_map_of_mem ht
  obtain ⟨r, hr, hrk⟩ := List.mem_map.mp hkey
  have hrid : r.taskId = t.taskId := congrArg (·.1.1) hrk
  have hagent : r.agentId = t.agentId := congrArg (·.1.2.2.1) hrk
  have hstart : r.startedAt = t.startedAt := congrArg (·.2) hrk
  rw [← hrid, life_of_task? (task?_of_mem hw hr)] at hbefore
  have hpol : (afterExpire pg now seconds locked db).cfg.policies = db.cfg.policies :=
    (congrArg Config.policies hcfg).trans (policies_afterReclaim hsw)
  refine ⟨r, hr, hrid, ?_⟩
  unfold overTurn
  rw [Bool.and_eq_true]
  refine ⟨hbefore, ?_⟩
  unfold Config.policy? at hclock ⊢
  rw [hpol] at hclock
  rw [hagent, hstart]
  exact hclock

/-- The end of the turns of tasks without a live scored call. -/
theorem unjudged_timeoutTurns {ts : List Task} {d : Db}
    (h : ∀ c ∈ d.calls, c.req.isScored = true → c.status.live = true → ∀ t ∈ ts, c.taskId ≠ t.taskId) :
    Unjudged d (ts.foldl (timeoutTurn now) d) := by
  induction ts generalizing d with
  | nil => exact Unjudged.refl d
  | cons t ts ih =>
    have hcalls : (timeoutTurn now d t).calls = (d.loseCalls [.outboundCalls, .sqlCalls] (· = t.taskId)
        "turn_timeout" now).calls := by
      unfold timeoutTurn
      dsimp only
      rw [calls_maybeCompleteSession]
      rfl
    have hlose : Unjudged d (d.loseCalls [.outboundCalls, .sqlCalls] (· = t.taskId) "turn_timeout" now) :=
      unjudged_loseCalls now _ fun c hc hs hl => by simpa using h c hc hs hl t (by simp)
    rw [List.foldl_cons]
    refine (hlose.trans (unjudged_of_calls hcalls)).trans (ih fun c hc hs hl u hu => ?_)
    rw [hcalls] at hc
    obtain ⟨c₀, hc₀, rfl⟩ := mem_update.mp hc
    split at hl
    · cases hl
    · rename_i hnot
      rw [if_neg hnot] at hs ⊢
      exact h c₀ hc₀ hs hl u (List.mem_cons_of_mem t hu)

theorem fnWatchdog_unjudged (hw : db.core.WellFormed)
    (hfair : ∀ t ∈ db.tasks, overTurn now db.cfg t = true → locked.contains t.taskId = false →
      ∀ q ∈ db.calls, q.taskId = t.taskId → q.req.isScored = true → q.status.live = true →
        isOverdue now seconds locked q = true) :
    Unjudged db (fnWatchdog pg now seconds locked db) := by
  have hexpire : ∀ a, ∀ d : Db, (expireApproval now d a).calls = d.calls := by
    intro a d
    unfold expireApproval
    dsimp only
    split
    · rfl
    · rw [calls_maybeCompleteSession]
      rfl
  have hcalls : (afterExpire pg now seconds locked db).calls = (reclaimAll pg now seconds locked db).calls := by
    have hfold : ∀ (as : List Approval) (d : Db), (as.foldl (expireApproval now) d).calls = d.calls := by
      intro as
      induction as with
      | nil => exact fun _ => rfl
      | cons a as ih => exact fun d => (ih _).trans (hexpire a d)
    exact hfold _ _
  have hstart : Unjudged db (afterExpire pg now seconds locked db) :=
    (unjudged_reclaimAll db).trans (unjudged_of_calls hcalls)
  have hturns : Unjudged (afterExpire pg now seconds locked db)
      ((afterExpire pg now seconds locked db).timeoutTurns now locked) := by
    refine unjudged_timeoutTurns fun c hc hs hl t ht hown => ?_
    obtain ⟨htm, hto⟩ := List.mem_filter.mp ht
    simp only [decide_eq_true_eq, Bool.not_eq_true'] at hto
    obtain ⟨r, hr, hrid, hover⟩ := overTurn_before hw htm hto.1
    rw [hcalls] at hc
    obtain ⟨q, hq, hident, hlive, hnot⟩ := live_before_reclaim hw hc hl
    have hreq : q.req = c.req := congrArg (·.2.2) hident
    have htask : q.taskId = c.taskId := congrArg (·.2.1) hident
    have hdue := hfair r hr hover (hrid ▸ hto.2) q hq (htask.trans (hown.trans hrid.symm)) (hreq ▸ hs) hlive
    rw [hdue] at hnot
    cases hnot
  have hwake : ∀ d : Db, Unjudged d (d.wakeParents now locked) :=
    fun d => unjudged_foldl (fun d t => (unjudged_of_calls rfl : Unjudged d (wakeParent now d t))) _ d
  rw [fnWatchdog_eq]
  exact ((hstart.trans hturns).trans (hwake _)).trans (unjudged_of_calls rfl)

theorem fnCancelSession_unjudged {sid : Uuid} {reason : Option String}
    (hfair : ∀ q ∈ db.calls, q.req.isScored = true → q.status.live = true → db.inSession sid q.taskId = false) :
    Returns (fun r => Unjudged db r.1) (fnCancelSession now db sid reason) := by
  unfold fnCancelSession
  refine returns_seq fun _ => returns_pure ?_
  have hlose : Unjudged db (db.loseCalls [.outboundCalls, .sqlCalls] (db.inSession sid) "session_cancelled" now) :=
    unjudged_loseCalls now _ hfair
  have hcalls : ∀ d : Db, d.calls = db.calls → (d.loseCalls [.outboundCalls, .sqlCalls] (db.inSession sid)
      "session_cancelled" now).calls = (db.loseCalls [.outboundCalls, .sqlCalls] (db.inSession sid)
        "session_cancelled" now).calls := by
    intro d hd
    unfold Db.loseCalls
    rw [hd]
  exact hlose.trans (unjudged_of_calls (hcalls _ (calls_cancelTasks now _ _ db)))

end Sweeps

section Completions

variable {db db' : Db} {pg : Postgres} {now : Time} {q : Call} {o : Outbound} {status : Option Int}
  {body : Option String}

/-- A reply that is not dispatched is refused under one of the reasons that count as failures. -/
theorem llmResponse_refused {T : Turn} {s : Step} (h : T.llmResponse pg (llmPayload body) = .ok s)
    (hnot : isDispatched (extractFirstJson (llmTextFromHttp body)) = false) :
    outcomeOf s.result = .failure := by
  unfold Turn.llmResponse at h
  obtain ⟨r, hr, h⟩ := bind_eq_ok.mp h
  obtain rfl := Except.ok.inj h
  rw [parsedReply_llmPayload] at hr
  unfold isDispatched at hnot
  cases hact : actionOf (extractFirstJson (llmTextFromHttp body)) with
  | none =>
    rw [hact] at hr
    obtain rfl := Except.ok.inj hr
    rfl
  | some av =>
    obtain ⟨a, v⟩ := av
    rw [hact] at hr hnot
    cases a with
    | finalAnswer =>
      have hans : finalAnswerText v = none := by simpa using hnot
      have hstep : T.act pg .finalAnswer v = .error (.refuse
          { content := .object [("reason", .str "final_answer_missing_answer"), ("parsed", v)]
            result := .object [("action", .str "continue"),
              ("reason", .str "final_answer_missing_answer")] }) := by
        unfold finalAnswerText at hans
        dsimp only [Turn.act, Turn.finalAnswer]
        rw [hans]
        rfl
      dsimp only at hr
      rw [hstep] at hr
      obtain rfl := Except.ok.inj hr
      rfl
    | _ => cases hnot

theorem dispatched_of_success {d : Db} {i : Uuid} (hheed : d.heeds i = true)
    (h : outcomeOf (submitIfRunning pg now d i (llmPayload body)).2 = .success) :
    isDispatched (extractFirstJson (llmTextFromHttp body)) = true := by
  simp only [Db.heeds, Option.any_eq_true] at hheed
  obtain ⟨t, ht, hact⟩ := hheed
  simp only [Bool.and_eq_true, decide_eq_true_eq] at hact
  obtain ⟨hrun, hactive⟩ := hact
  simp only [Option.any_eq_true] at hactive
  obtain ⟨a, ha, hon⟩ := hactive
  by_contra hnot
  have hnot : isDispatched (extractFirstJson (llmTextFromHttp body)) = false := by simpa using hnot
  have hrunning : d.running i = true := by
    obtain ⟨htm, hid⟩ := mem_of_task? (s := d.core) ht
    simp only [Db.running, List.any_eq_true, decide_eq_true_eq]
    exact ⟨t, htm, hid, hrun⟩
  unfold submitIfRunning at h
  rw [if_pos hrunning] at h
  have hsubmit : fnSubmitResult pg now d i (llmPayload body) = (do
      let s ← (⟨d, now, t, a, d.cfg.policy? t.agentId⟩ : Turn).payloadStep pg (llmPayload body)
      pure ((d.record t s now).applyNext t s.next now, s.result)) := by
    unfold fnSubmitResult
    rw [ht]
    dsimp only
    rw [if_neg (by simp [hrun]), ha]
    simp only [Option.filter_some, hon, if_true]
  rw [hsubmit] at h
  have hstep : (⟨d, now, t, a, d.cfg.policy? t.agentId⟩ : Turn).payloadStep pg (llmPayload body) =
      (⟨d, now, t, a, d.cfg.policy? t.agentId⟩ : Turn).llmResponse pg (llmPayload body) := rfl
  rw [hstep] at h
  cases hs : (⟨d, now, t, a, d.cfg.policy? t.agentId⟩ : Turn).llmResponse pg (llmPayload body) with
  | error e =>
    rw [hs] at h
    cases h
  | ok s =>
    rw [hs] at h
    have hfail := llmResponse_refused hs hnot
    exact absurd (hfail.symm.trans h) (by simp)

theorem completeLlmKind_keeps (db : Db) (q : Call) (o : Outbound) (status : Option Int) (body : Option String) :
    ∀ c ∈ (completeLlmKind db q o status body).1.calls, ∃ r ∈ db.calls, r.callId = c.callId ∧
      r.status = c.status ∧ r.responseStatus = c.responseStatus := by
  have hsame : ∀ c ∈ db.calls, ∃ r ∈ db.calls, r.callId = c.callId ∧ r.status = c.status ∧
      r.responseStatus = c.responseStatus := fun c hc => ⟨c, hc, rfl, rfl, rfl⟩
  have hupdate : ∀ u : Option (Option Int × Option Int), ∀ x, ∀ c ∈ (db.updateCall q.callId fun c => { c with
      promptTokens := u.bind (·.1)
      completionTokens := u.bind (·.2)
      costUsd := x }).calls, ∃ r ∈ db.calls, r.callId = c.callId ∧ r.status = c.status ∧
        r.responseStatus = c.responseStatus := by
    intro u x c hc
    obtain ⟨r, hr, rfl⟩ := mem_update.mp hc
    refine ⟨r, hr, ?_⟩
    split <;> exact ⟨rfl, rfl, rfl⟩
  unfold completeLlmKind
  dsimp only
  split_ifs
  · split
    · exact hupdate _ _
    · exact hupdate _ _
  · exact hsame
  · exact hsame

theorem completeLlmKind_heeds (db : Db) (q : Call) (o : Outbound) (status : Option Int) (body : Option String)
    (i : Uuid) : (completeLlmKind db q o status body).1.heeds i = db.heeds i := by
  unfold completeLlmKind
  dsimp only
  split_ifs
  · split <;> rfl
  · rfl
  · rfl

/-- The row of a scored call that comes back. -/
theorem completed_row (hw : db.core.WellFormed) (hq : db.call? .outboundCalls q.callId = some q)
    (ho : q.req = .outbound o) (hst : q.status = .inFlight) (hs : q.req.isScored = true)
    {result : Json} (h : fnCompleteOutbound pg now db q.callId status body = .ok (db', result)) :
    ∀ c ∈ db'.calls, c.callId = q.callId → c.status = .harvested ∧ c.responseStatus = status ∧
      (httpOk status = true → db.heeds q.taskId = true → c.outcome = some .success →
        isDispatched (extractFirstJson (llmTextFromHttp body)) = true) := by
  have hscored : o.kind = .llm ∧ o.procedureFunctionId.isSome = true := by
    rw [ho] at hs
    simpa [Request.isScored] using hs
  have hplain : isAmbiguous o status = false := by simp [isAmbiguous, isMutation, hscored.1]
  have hread : completeKind pg now (db.harvestResponse q.callId status body now) q o status body =
      .ok (completeLlmKind (db.harvestResponse q.callId status body now) q o status body) := by
    unfold completeKind
    rw [hscored.1]
  have hharvest : ∀ c ∈ (db.harvestResponse q.callId status body now).calls, c.callId = q.callId →
      c.status = .harvested ∧ c.responseStatus = status := by
    intro c hc hid
    obtain ⟨r, -, rfl⟩ := mem_update.mp hc
    split at hid
    · rename_i hit
      rw [if_pos hit]
      exact ⟨rfl, rfl⟩
    · rename_i hmiss
      exact absurd (by simpa using hid) hmiss
  have hnext : (completeLlmKind (db.harvestResponse q.callId status body now) q o status body).1.nextId =
      db.nextId := (completeLlmKind_rows _ q o status body).2.2
  have hkeep := completeLlmKind_keeps (db.harvestResponse q.callId status body now) q o status body
  have hheed : (completeLlmKind (db.harvestResponse q.callId status body now) q o status body).1.heeds
      q.taskId = db.heeds q.taskId := completeLlmKind_heeds _ q o status body q.taskId
  have hpay : httpOk status = true → (completeLlmKind (db.harvestResponse q.callId status body now) q o status
      body).2 = llmPayload body := by
    intro hok
    unfold httpOk at hok
    unfold completeLlmKind
    rw [if_pos hok]
    dsimp only
    split <;> rfl
  unfold fnCompleteOutbound at h
  rw [hq] at h
  simp only [hst, ne_eq, not_true_eq_false, if_false, ho, harvestOutbound, hplain, hread] at h
  generalize completeLlmKind (db.harvestResponse q.callId status body now) q o status body = r
    at h hkeep hheed hpay hnext
  obtain ⟨d, payload⟩ := r
  have hcalls : (submitIfRunning pg now d q.taskId payload).1.calls = d.calls ∨
      ∃ req, (submitIfRunning pg now d q.taskId payload).1.calls = (d.insertCall q.taskId req now).calls :=
    submitIfRunning_queues d q.taskId payload
  have hwon : httpOk status = true → db.heeds q.taskId = true →
      outcomeOf (submitIfRunning pg now d q.taskId payload).2 = .success →
        isDispatched (extractFirstJson (llmTextFromHttp body)) = true := by
    intro hok hh hout
    rw [show payload = llmPayload body from hpay hok] at hout
    exact dispatched_of_success (hheed.trans hh) hout
  obtain ⟨rfl, -⟩ := Prod.mk.inj (Except.ok.inj h)
  unfold scoreOutcome
  rw [if_pos hscored]
  intro c hc hid
  obtain ⟨c₂, hc₂, rfl⟩ := mem_update.mp hc
  have hid₂ : c₂.callId = q.callId := by
    split at hid
    · exact hid
    · exact hid
  have hold : c₂ ∈ d.calls := by
    rcases hcalls with he | ⟨req, he⟩
    · rwa [he] at hc₂
    · rw [he] at hc₂
      rcases mem_insertCall hc₂ with hold | hnew
      · exact hold
      · have hlt := hw.callLt q (call?_mem hq).1
        have hnid : c₂.callId = d.nextId := congrArg (·.1) hnew
        rw [← hid₂, hnid, hnext] at hlt
        exact absurd hlt (Nat.lt_irrefl _)
  obtain ⟨c₁, hc₁, hid₁, hst₁, hresp₁⟩ := hkeep c₂ hold
  obtain ⟨hharv, hresp⟩ := hharvest c₁ hc₁ (hid₁.trans hid₂)
  rw [if_pos (by simpa using hid₂)]
  refine ⟨hst₁ ▸ hharv, hresp₁ ▸ hresp, fun hok hh hout => ?_⟩
  exact hwon hok hh (Option.some.inj hout)

/-- Ids name the same call before and after. -/
theorem ident_kept {op : Op} (hw : db.core.WellFormed) (h : perform pg now db op = .ok db')
    (hq : q ∈ db.calls) : ∀ c ∈ db'.calls, c.callId = q.callId → c.ident = q.ident := by
  intro c hc hid
  have he : Evolves (fun _ _ _ => True) db.core db'.core :=
    perform_evolves hw (fun _ _ _ _ _ => trivial) (permits_true pg now db op) h
  rcases he.grow.calls.old_or_new hc with ⟨r, hr, hident⟩ | ⟨hlo, -⟩
  · obtain rfl := eq_of_key Call.callId hw.callIds hr hq ((congrArg (·.1) hident).trans hid)
    exact hident.symm
  · have hlt : q.callId < db.nextId := hw.callLt q hq
    have hge : db.nextId ≤ c.callId := hlo
    rw [hid] at hge
    exact absurd hlt (Nat.not_lt.mpr hge)

theorem unjudged_of_but (hbut : UnjudgedBut q.callId db db')
    (hown : ∀ c ∈ db'.calls, c.callId = q.callId → c.ident = q.ident) (hs : q.req.isScored = false) :
    Unjudged db db' := by
  intro c hc
  rcases hbut c hc with hold | hnew | hid
  · exact .inl hold
  · exact .inr hnew
  · have hreq : c.req = q.req := congrArg (·.2.2) (hown c hc hid)
    refine .inr fun hscored => ?_
    have hq : q.req.isScored = true := hreq ▸ hscored
    rw [hs] at hq
    cases hq

/-- A completion leaves the verdicts of scored calls alone, or is fair to the one it takes in. -/
theorem completeOutbound_scored {id : Uuid} {result : Json} {e : Event} (hw : db.core.WellFormed)
    (hop : e.op = .completeOutbound id status body) (hfair : ∀ q, db.call? .outboundCalls id = some q →
      q.status = .inFlight → q.req.isScored = true → httpOk status = true ∧ db.heeds q.taskId = true)
    (hh : Honest db) (h : fnCompleteOutbound pg now db id status body = .ok (db', result)) :
    Scored db e db' := by
  have hbut : UnjudgedBut id db db' := fnCompleteOutbound_unjudged _ h
  have hperf : perform pg now db (.completeOutbound id status body) = .ok db' := by
    dsimp only [perform]
    rw [h]
    rfl
  cases hq : db.call? .outboundCalls id with
  | none =>
    unfold fnCompleteOutbound at h
    rw [hq] at h
    cases h
  | some q =>
    obtain ⟨hqm, rfl, -⟩ := call?_mem hq
    have hown := ident_kept hw hperf hqm
    by_cases hscored : q.req.isScored = true
    · by_cases hst : q.status = .inFlight
      · obtain ⟨hok, hheed⟩ := hfair q hq hst hscored
        obtain ⟨o, ho⟩ : ∃ o, q.req = .outbound o := by
          cases hreq : q.req with
          | outbound o => exact ⟨o, rfl⟩
          | _ => rw [hreq] at hscored; cases hscored
        have hrow := completed_row hw hq ho hst hscored h
        have hcases : ∀ c ∈ db'.calls, (c.verdict ∈ db.calls.map Call.verdict ∨ c.verdict.Unheard) ∨
            c.callId = q.callId := fun c hc => or_assoc.mpr (hbut c hc)
        refine ⟨⟨fun c hc hs => ?_, fun c hc hs => ?_⟩, fun c hc hs => ?_⟩
        · rcases hcases c hc with hv | hid
          · exact (hh.row hv hs).1.1
          · obtain ⟨hharv, hresp, -⟩ := hrow c hc hid
            exact fun _ => ⟨hharv, hresp ▸ hok⟩
        · rcases hcases c hc with hv | hid
          · exact (hh.row hv hs).1.2
          · obtain ⟨hharv, hresp, -⟩ := hrow c hc hid
            rintro (hl | ⟨-, hbad⟩)
            · rw [hharv] at hl
              cases hl
            · rw [hresp, hok] at hbad
              cases hbad
        · rcases hcases c hc with hv | hid
          · exact fun hwon => .inl ((hh.row hv hs).2 hwon)
          · obtain ⟨-, -, hdisp⟩ := hrow c hc hid
            have htask : c.taskId = q.taskId := congrArg (·.2.1) (hown c hc hid)
            exact fun hwon => .inr ⟨status, body, hid ▸ hop, hok, htask ▸ hheed, hdisp hok hheed hwon⟩
      · have hstale : db' = db := by
          unfold fnCompleteOutbound at h
          rw [hq] at h
          dsimp only at h
          rw [if_pos hst] at h
          exact (Prod.mk.inj (Except.ok.inj h)).1.symm
        rw [hstale]
        exact scored_of_unjudged hh (Unjudged.refl db)
    · exact scored_of_unjudged hh (unjudged_of_but hbut hown (by simpa using hscored))

theorem completeLocal_unjudged {queue : Queue} {id : Uuid} {r : LocalResult} {result : Json}
    (hw : db.core.WellFormed) (h : fnCompleteLocal pg now db queue id r = .ok (db', result)) :
    Unjudged db db' := by
  have hbut : UnjudgedBut id db db' := fnCompleteLocal_unjudged _ h
  have hperf : perform pg now db (.completeLocal queue id r) = .ok db' := by
    dsimp only [perform]
    rw [h]
    rfl
  unfold fnCompleteLocal at h
  split at h
  · cases h
  · rename_i q hq
    obtain ⟨hqm, rfl, -⟩ := call?_mem hq
    split at h
    · obtain ⟨rfl, -⟩ := Prod.mk.inj (Except.ok.inj h)
      exact Unjudged.refl db
    · obtain ⟨x, hx, -⟩ := bind_eq_ok.mp h
      have hs : q.req.isScored = false := by
        unfold completeLocalRequest at hx
        cases hreq : q.req with
        | outbound o =>
          rw [hreq] at hx
          cases hx
        | _ => rfl
      exact unjudged_of_but hbut (ident_kept hw hperf hqm) hs

theorem fnDecideApproval_unjudged (id : Uuid) (accept : Bool) (reply : Option String) :
    Returns (fun r => Unjudged db r.1) (fnDecideApproval now db id accept reply) := by
  unfold fnDecideApproval
  split
  · exact returns_error _
  · refine returns_ite (fun _ => returns_error _) fun _ => ?_
    dsimp only
    split
    · exact returns_ok (unjudged_of_calls rfl)
    · refine returns_ok ?_
      split
      · exact unjudged_of_calls rfl
      · exact unjudged_of_calls (calls_maybeCompleteSession _ _ _)

end Completions

section Runs

variable {db db' : Db} {pg : Postgres}

theorem perform_scored {e : Event} (hw : db.core.WellFormed) (hh : Honest db) (hfair : isFair pg db e = true)
    (h : perform pg e.now db e.op = .ok db') : Scored db e db' := by
  have hmap : ∀ {α : Type} {x : Except String (Db × α)}, Returns (fun r => Unjudged db r.1) x →
      x.map (·.1) = .ok db' → Scored db e db' := by
    intro α x hx hok
    obtain ⟨a, hok⟩ := map_fst_eq_ok hok
    exact scored_of_unjudged hh (hx _ hok)
  unfold isFair at hfair
  cases hop : e.op with
  | createSession agentId goal projectId scheduleId =>
    rw [hop] at h
    exact hmap (returns_mono (fnCreateSession_calls e.now) fun _ => unjudged_of_calls) h
  | continueSession sessionId message =>
    rw [hop] at h
    refine hmap (fun r hr => ?_) h
    obtain ⟨s, goal, -, -, hd⟩ := fnContinueSession_eq hr
    rw [hd]
    exact unjudged_of_calls rfl
  | dispatch roll locked =>
    rw [hop] at h
    exact hmap (dispatchLoop_unjudged pg e.now roll _ _ db) h
  | submit taskId payload =>
    rw [hop] at h
    exact hmap (fnSubmitResult_unjudged db taskId payload) h
  | claim queue limit fallback locked =>
    rw [hop] at h hfair
    obtain rfl := Except.ok.inj h
    refine scored_of_unjudged hh (claimLoop_unjudged hw (fun q hq => ⟨?_, fun hs t ht hid => ?_⟩) rfl rfl rfl)
    · exact (List.mem_filter.mp (mem_sortBy.mp (List.mem_of_mem_take hq))).1
    · have hq := List.all_eq_true.mp hfair q hq
      rw [hs, Bool.not_true, Bool.false_or] at hq
      simpa [hid] using List.all_eq_true.mp hq t ht
  | completeOutbound id status body =>
    rw [hop] at h hfair
    obtain ⟨result, h⟩ := map_fst_eq_ok h
    refine completeOutbound_scored hw hop (fun q hq hst hs => ?_) hh h
    simpa [hq, hst, hs] using hfair
  | completeLocal queue id r =>
    rw [hop] at h
    obtain ⟨result, hok⟩ := map_fst_eq_ok h
    exact scored_of_unjudged hh (completeLocal_unjudged hw hok)
  | watchdog seconds locked =>
    rw [hop] at h hfair
    obtain rfl := Except.ok.inj h
    refine scored_of_unjudged hh (fnWatchdog_unjudged hw fun t ht hover hlock q hq hid hs hl => ?_)
    have ht := List.all_eq_true.mp hfair t ht
    rw [hover, hlock, Bool.not_true, Bool.false_or, Bool.false_or] at ht
    simpa [hid, hs, hl] using List.all_eq_true.mp ht q hq
  | decideApproval id accept reply =>
    rw [hop] at h
    exact hmap (fnDecideApproval_unjudged id accept reply) h
  | cancelSession sid reason =>
    rw [hop] at h hfair
    refine hmap (fnCancelSession_unjudged fun q hq hs hl => ?_) h
    simpa [hs, hl] using List.all_eq_true.mp hfair q hq
  | edit change =>
    rw [hop] at h
    obtain rfl := Except.ok.inj h
    exact scored_of_unjudged hh (unjudged_of_calls rfl)

theorem step_scored {e : Event} (hw : db.core.WellFormed) (hh : Honest db) (hfair : isFair pg db e = true) :
    Scored db e (step pg db e) := by
  rcases step_cases pg db e with he | he
  · rw [he]
    exact scored_of_unjudged hh (Unjudged.refl db)
  · exact perform_scored hw hh hfair he

end Runs

/-- In every run of fair events each step keeps the outcomes of the scored calls honest. -/
theorem run_scored (pg : Postgres) (c : Config) (es : List Event)
    (h : Along (step pg) (fun db e => isFair pg db e = true) (start c) es) :
    Along (step pg) (fun db e => Scored db e (step pg db e)) (start c) es := by
  have hrun : ∀ (es : List Event) (db : Db), db.core.WellFormed → Honest db →
      Along (step pg) (fun db e => isFair pg db e = true) db es →
        Along (step pg) (fun db e => Scored db e (step pg db e)) db es := by
    intro es
    induction es with
    | nil => exact fun _ _ _ _ => trivial
    | cons e es ih =>
      rintro db hw hh ⟨hfair, hes⟩
      have hs : Scored db e (step pg db e) := step_scored hw hh hfair
      exact ⟨hs, ih _ (wellFormed_step pg e hw) hs.toHonest hes⟩
  exact hrun es _ (wellFormed_start c) ⟨by simp [start], by simp [start]⟩ h

/-- An agent with a procedure that looks at the tide. -/
def lookoutConfig : Config where
  agents := [{ agentId := 1, name := "clerk" }]
  policies := [{
    agentId := 1
    systemPrompt := "serve"
    llmConfig := .object [("provider", .str "llm"), ("model", .str "m")] }]
  permissions := [⟨1, .procedure, "watch"⟩]
  providers := [{ providerId := 3, name := "llm", baseUrl := "https://llm.example" }]
  functions := [{
    functionId := 4
    name := "look"
    handler := .httpGet
    argsTemplate := .object [("url", .str "https://sea.example/tide")] }]
  procedures := [{ procedureId := 5, name := "watch" }]
  bindings := [⟨5, 4⟩]

/-- Up to the call to the model that follows the tide. -/
def lookoutRun : List Event :=
  [⟨1, .createSession 1 (some "go") none none⟩, ⟨2, .dispatch (fun _ => 0) []⟩,
    ⟨3, .claim .outboundCalls none none []⟩,
    ⟨4, .completeOutbound 3 (some 200)
      (some "\x7b\"action\":\"call_function\",\"function\":\"look\"\x7d")⟩,
    ⟨5, .claim .outboundCalls none none []⟩, ⟨6, .completeOutbound 4 (some 200) (some "low")⟩,
    ⟨7, .dispatch (fun _ => 0) []⟩, ⟨8, .claim .outboundCalls none none []⟩]

theorem lookout_scored :
    Along (step bareServer) (fun db e => Scored db e (step bareServer db e)) (start lookoutConfig)
      (lookoutRun ++ [⟨9, .completeOutbound 5 (some 200)
        (some "\x7b\"action\":\"final_answer\",\"answer\":\"ebb\"\x7d")⟩]) :=
  run_scored bareServer lookoutConfig _ (by decide +kernel)

theorem unavailable_model_counts_as_success :
    ¬ ∀ (pg : Postgres) (c : Config) (es : List Event),
      Along (step pg) (fun db e => Scored db e (step pg db e)) (start c) es := by
  intro h
  have halong := h bareServer lookoutConfig (lookoutRun ++ [⟨9, .completeOutbound 5 (some 503) none⟩])
  rw [along_append] at halong
  obtain ⟨-, hlast, -⟩ := halong
  have hrow : ∃ q ∈ (step bareServer (run (step bareServer) (start lookoutConfig) lookoutRun)
      ⟨9, .completeOutbound 5 (some 503) none⟩).calls, q.req.isScored = true ∧
        q.responseStatus = some 503 ∧ q.outcome = some .success := by
    decide +kernel
  obtain ⟨q, hq, hs, hresp, hwon⟩ := hrow
  have hok : httpOk q.responseStatus = true := (hlast.won q hq hs hwon).2
  rw [hresp] at hok
  cases hok

end Allgres
