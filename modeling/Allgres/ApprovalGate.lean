import Allgres.CallStates

/-! When a queued call is handed out: which rules stand against it and which approval
speaks for it, over any order of edits, decisions and claims. -/

namespace Allgres

open Raise Rows Runs Allgres.Core

/-- A rule on the resource of a call or on every resource, and for a procedure also one
on a function bound to it. -/
def RuleMatches (c : Config) (agentId : Uuid) (req : Request) (r : ExecutionRule) : Prop :=
  r.agentId = agentId ∧
    ((some r.action = ruleAction req ∧ (r.resource = "*" ∨ some r.resource = ruleResource c req)) ∨
      ∃ id owner args, req = .procedure id owner args ∧ r.action = .callFunction ∧
        ∃ f ∈ c.functions, (∃ b ∈ c.bindings, b.procedureId = id ∧ b.functionId = f.functionId) ∧
          (r.resource = "*" ∨ r.resource = f.name))

theorem matchesResource_iff {resource : Option String} {r : ExecutionRule} :
    matchesResource resource r = true ↔ r.resource = "*" ∨ some r.resource = resource := by
  simp [matchesResource]

theorem mem_guardRules {c : Config} {agentId : Uuid} {req : Request} {r : ExecutionRule} :
    r ∈ guardRules c agentId req ↔ r ∈ c.rules ∧ RuleMatches c agentId req r := by
  have hmem : r ∈ guardRules c agentId req ↔ r ∈ c.rules ∧ r.agentId = agentId ∧
      ((some r.action = ruleAction req ∧ matchesResource (ruleResource c req) r = true) ∨
        (req.queue = .procedureCalls ∧ r.action = .callFunction ∧
          (localExecutionScope c req).functions.any
            (fun f => matchesResource (some f.name) r) = true)) := by
    unfold guardRules sortRules
    rw [List.mem_insertionSort, List.mem_filter, decide_eq_true_eq]
  rw [hmem, RuleMatches, matchesResource_iff]
  refine and_congr_right fun _ => and_congr_right fun _ => or_congr_right ?_
  cases req with
  | procedure id owner args =>
    simp only [Request.queue, localExecutionScope, true_and, List.any_eq_true, mem_sortBy,
      List.mem_filter, decide_eq_true_eq, matchesResource_iff, Option.some.injEq,
      Request.procedure.injEq]
    constructor
    · rintro ⟨ha, f, ⟨hf, b, hb, hbp⟩, hr⟩
      exact ⟨id, owner, args, ⟨rfl, rfl, rfl⟩, ha, f, hf, ⟨b, hb, hbp⟩, hr⟩
    · rintro ⟨_, _, _, ⟨rfl, -, -⟩, ha, f, hf, ⟨b, hb, hbp⟩, hr⟩
      exact ⟨ha, f, ⟨hf, b, hb, hbp⟩, hr⟩
  | _ => simp [Request.queue]

theorem findSome_append_none {α : Type} {xs : List (Option α)} {x : Option α}
    (h : (xs ++ [x]).reverse.findSome? id = none) : x = none := by
  have := List.findSome?_eq_none_iff.mp h x (by simp)
  simpa using this

theorem not_denied_of_guardReason {pg : Postgres} {c : Config} {agentId : Uuid} {req : Request}
    (h : guardReason pg c agentId req = none) :
    ∀ r ∈ c.rules, RuleMatches c agentId req r → r.decision ≠ .deny := by
  intro r hr hm hd
  have hnone := findSome_append_none h
  have hany : (guardRules c agentId req).any (·.decision = .deny) = true := by
    rw [List.any_eq_true]
    exact ⟨r, mem_guardRules.mpr ⟨hr, hm⟩, by simp [hd]⟩
  rw [hany] at hnone
  cases hnone

section Latest

/-- The order in which approvals of a call are looked at. -/
def NewerApproval (a b : Approval) : Prop :=
  b.createdAt < a.createdAt ∨ (a.createdAt = b.createdAt ∧ b.approvalId ≤ a.approvalId)

instance : DecidableRel NewerApproval := fun _ _ => inferInstanceAs (Decidable (_ ∨ _))

instance : Std.Total NewerApproval where
  total a b := by
    rcases Nat.lt_trichotomy a.createdAt b.createdAt with h | h | h
    · exact .inr (.inl h)
    · rcases Nat.le_total a.approvalId b.approvalId with h' | h'
      · exact .inr (.inr ⟨h.symm, h'⟩)
      · exact .inl (.inr ⟨h, h'⟩)
    · exact .inl (.inl h)

instance : IsTrans Approval NewerApproval where
  trans a b c hab hbc := by
    rcases hab with hab | ⟨hab, hab'⟩ <;> rcases hbc with hbc | ⟨hbc, hbc'⟩
    · exact .inl (Nat.lt_trans hbc hab)
    · exact .inl (hbc ▸ hab)
    · exact .inl (hab ▸ hbc)
    · exact .inr ⟨hab.trans hbc, Nat.le_trans hbc' hab'⟩

theorem latestApproval_eq (db : Db) (taskId : Uuid) (queue : Queue) (id : Uuid) :
    latestApproval db taskId queue id =
      ((db.approvals.filter (isApprovalOf taskId queue id)).insertionSort NewerApproval).head? := rfl

/-- The approval the guard reads is one of the call and none of the call is newer. -/
theorem latestApproval_newest {db : Db} {taskId id : Uuid} {queue : Queue} {a : Approval}
    (h : latestApproval db taskId queue id = some a) :
    ∀ b ∈ db.approvals, isApprovalOf taskId queue id b = true → NewerApproval a b := by
  intro b hb hof
  rw [latestApproval_eq] at h
  have hsorted := List.pairwise_insertionSort NewerApproval
    (db.approvals.filter (isApprovalOf taskId queue id))
  have hm : b ∈ (db.approvals.filter (isApprovalOf taskId queue id)).insertionSort NewerApproval :=
    (List.mem_insertionSort _).mpr (List.mem_filter.mpr ⟨hb, hof⟩)
  cases hl : (db.approvals.filter (isApprovalOf taskId queue id)).insertionSort NewerApproval with
  | nil => simp [hl] at h
  | cons x xs =>
    rw [hl] at h hm hsorted
    obtain rfl : x = a := by simpa using h
    rcases List.mem_cons.mp hm with rfl | hm
    · exact .inr ⟨rfl, Nat.le_refl _⟩
    · exact (List.pairwise_cons.mp hsorted).1 b hm

theorem latestApproval_ne_none {db : Db} {taskId id : Uuid} {queue : Queue} {b : Approval}
    (hb : b ∈ db.approvals) (hof : isApprovalOf taskId queue id b = true) :
    latestApproval db taskId queue id ≠ none := by
  intro hl
  rw [latestApproval_eq, List.head?_eq_none_iff] at hl
  have hm : b ∈ (db.approvals.filter (isApprovalOf taskId queue id)).insertionSort NewerApproval :=
    (List.mem_insertionSort _).mpr (List.mem_filter.mpr ⟨hb, hof⟩)
  rw [hl] at hm
  cases hm

end Latest

/-- What the guard of a call reads besides its task is as it was. -/
structure Untouched (id : Uuid) (db db' : Db) : Prop where
  grow : Grow db.core db'.core
  cfg : db'.cfg = db.cfg
  calls : db'.calls.filter (·.callId = id) = db.calls.filter (·.callId = id)
  approvals : ∀ i queue, db'.approvals.filter (isApprovalOf i queue id) =
    db.approvals.filter (isApprovalOf i queue id)

section Untouched

variable {pg : Postgres} {now : Time} {queue : Queue} {fallback : Option String}
  {db db' db'' : Db} {id : Uuid}

theorem Untouched.refl (db : Db) : Untouched id db db :=
  ⟨Grow.refl _, rfl, rfl, fun _ _ => rfl⟩

theorem Untouched.trans (h : Untouched id db db') (h' : Untouched id db' db'') :
    Untouched id db db'' :=
  ⟨h.grow.trans h'.grow, h'.cfg.trans h.cfg, h'.calls.trans h.calls,
    fun i queue => (h'.approvals i queue).trans (h.approvals i queue)⟩

theorem Untouched.mem (h : Untouched id db db') {q : Call} (hid : q.callId = id) :
    q ∈ db'.calls ↔ q ∈ db.calls := by
  have h' : q ∈ db'.calls.filter (·.callId = id) ↔ q ∈ db.calls.filter (·.callId = id) := by
    rw [h.calls]
  simpa [List.mem_filter, hid] using h'

theorem Untouched.latestApproval (h : Untouched id db db') (i : Uuid) (queue : Queue) :
    latestApproval db' i queue id = latestApproval db i queue id := by
  rw [latestApproval_eq, latestApproval_eq, h.approvals]

/-- A change of another call. -/
theorem filter_updateCall_ne {p : Uuid} (hne : p ≠ id) {f : Call → Call}
    (hf : ∀ c, (f c).callId = c.callId) (calls : List Call) :
    (update (·.callId = p) f calls).filter (·.callId = id) = calls.filter (·.callId = id) := by
  rw [filter_update (fun c => by rw [hf])]
  apply update_of_forall_not
  intro c hc
  have hid : c.callId = id := by simpa using (List.mem_filter.mp hc).2
  simpa [hid] using hne.symm

theorem isApprovalOf_unique {i i' p : Uuid} {queue' : Queue} {a : Approval}
    (h : isApprovalOf i queue id a = true) (h' : isApprovalOf i' queue' p a = true) : id = p := by
  obtain ⟨g, hg, hid, -, -⟩ := gate_of_isApprovalOf h
  obtain ⟨g', hg', hid', -, -⟩ := gate_of_isApprovalOf h'
  obtain rfl : g = g' := by
    rw [hg] at hg'
    exact ApprovalPayload.gate.inj hg'
  exact hid.symm.trans hid'

theorem untouched_supersede (hw : db.core.WellFormed) {p i : Uuid} (hne : p ≠ id)
    {previous : Option Approval} (hp : previous = latestApproval db i queue p) (now : Time) :
    Untouched id db (db.supersede previous now) := by
  cases previous with
  | none => exact Untouched.refl db
  | some a =>
    obtain ⟨ham, hof⟩ := mem_latestApproval hp.symm
    refine ⟨grow_updateApprovals fun _ => rfl, rfl, rfl, fun j queue' => ?_⟩
    have hf : ∀ b : Approval, isApprovalOf j queue' id { b with
        status := .rejected
        replyText := some "Execution approval expired or request/policy changed."
        decidedAt := some now } = isApprovalOf j queue' id b := fun _ => rfl
    simp only [Db.supersede, Db.settleApproval]
    rw [filter_update hf]
    apply update_of_forall_not
    intro b hb
    obtain ⟨hbm, hbof⟩ := List.mem_filter.mp hb
    by_contra hne'
    have hid : b.approvalId = a.approvalId := by simpa using hne'
    obtain rfl := eq_of_key Approval.approvalId hw.approvalIds hbm ham hid
    exact hne (isApprovalOf_unique hof hbof)

theorem denyCall_rows (db : Db) (t : Task) (q : Call) (reason : String) (now : Time) :
    (db.denyCall t q reason now).calls = update (·.callId = q.callId)
        (fun c => { c with status := .lost, updatedAt := now }) db.calls ∧
      (db.denyCall t q reason now).approvals = db.approvals := by
  have hcore : (db.denyCall t q reason now).core = (db.core.updateCall q.callId
      fun c => { c with status := .lost, updatedAt := now }).updateTask t.taskId
        fun r => { r with status := .failed, error := some reason, updatedAt := now } := by
    rw [Db.denyCall, Db.core_failTask, Db.core_updateCall]
  exact ⟨congrArg Core.calls hcore, congrArg Core.approvals hcore⟩

theorem untouched_guard (pg : Postgres) (now : Time) (queue : Queue) (hw : db.core.WellFormed)
    {p : Uuid} (hne : p ≠ id) : Untouched id db (guardQueuedCall pg now db queue p).1 := by
  have hgrow := (guardQueuedCall_evolves (G := fun _ _ _ => True) pg now queue p hw
    (fun _ _ => trivial) fun _ _ => trivial).grow
  have hcfg := cfg_guardQueuedCall pg now db queue p
  rcases guardQueuedCall_cases pg now db queue p with
    h | ⟨q, t, hq, ⟨reason, -, h⟩ | ⟨-, -, h⟩ | ⟨-, h⟩⟩
  · rw [h]
    exact Untouched.refl db
  · obtain ⟨-, hid, -⟩ := hq.mem
    obtain ⟨hcalls, happr⟩ := denyCall_rows db t q reason now
    rw [h] at hgrow hcfg ⊢
    have hf : ∀ c : Call, ({ c with status := .lost, updatedAt := now } : Call).callId = c.callId :=
      fun _ => rfl
    refine ⟨hgrow, hcfg, ?_, fun i queue' => by rw [happr]⟩
    rw [hcalls, hid]
    exact filter_updateCall_ne hne hf _
  · rw [h]
    exact Untouched.refl db
  · obtain ⟨-, hid, -⟩ := hq.mem
    rw [h] at hgrow hcfg ⊢
    have hs : Untouched id db (db.supersede (latestApproval db t.taskId queue p) now) :=
      untouched_supersede hw hne rfl now
    refine ⟨hgrow, hcfg, hs.calls, fun i queue' => ?_⟩
    have hnot : ∀ (a : Uuid) (snap : Gate) (s : ApprovalStatus) (m e : Time), snap.callId = p →
        isApprovalOf i queue' id ⟨a, t.taskId, s, .gate snap, m, some e, none, none⟩ = false := by
      intro a snap s m e hp
      simp [isApprovalOf, Approval.gate?, hp, hne]
    simp only [Db.requestApproval, Db.insertApproval, Db.updateTask, List.filter_append]
    rw [List.filter_cons_of_neg, List.filter_nil, List.append_nil]
    · exact hs.approvals i queue'
    · rw [Bool.not_eq_true]
      exact hnot _ _ _ _ _ hid

theorem untouched_takeCall {p : Uuid} (hne : p ≠ id) (now : Time) :
    Untouched id db (db.takeCall p now) := by
  have hf : ∀ c : Call, ({ c with status := .inFlight, updatedAt := now } : Call).ident = c.ident :=
    fun _ => rfl
  have hid : ∀ c : Call, ({ c with status := .inFlight, updatedAt := now } : Call).callId = c.callId :=
    fun _ => rfl
  exact ⟨grow_updateCall hf, rfl, filter_updateCall_ne hne hid _, fun _ _ => rfl⟩

theorem untouched_claimLoop (pg : Postgres) (now : Time) (queue : Queue) (fallback : Option String)
    {qs : List Call} (hid : id ∉ qs.map (·.callId)) {db : Db} (hw : db.core.WellFormed) :
    Untouched id db (claimLoop pg now queue fallback qs db).1 := by
  induction qs generalizing db with
  | nil => exact Untouched.refl db
  | cons p qs ih =>
    simp only [List.map_cons, List.mem_cons, not_or] at hid
    have hg := untouched_guard pg now queue hw (Ne.symm hid.1)
    rw [claimLoop]
    dsimp only
    split
    · have ht := hg.trans (untouched_takeCall (Ne.symm hid.1) now)
      exact ht.trans (ih hid.2 (ht.grow.wf hw))
    · exact hg.trans (ih hid.2 (hg.grow.wf hw))

/-- The guard itself takes no call. -/
theorem not_inFlight_guard (pg : Postgres) (now : Time) (queue : Queue) {q r : Call}
    (hw : db.core.WellFormed) (hq : q ∈ db.calls) (hid : q.callId = id) (hs : q.status = .queued)
    (hr : r ∈ (guardQueuedCall pg now db queue id).1.calls) (hrid : r.callId = id) :
    r.status ≠ .inFlight := by
  have hsame : r ∈ db.calls → r.status ≠ .inFlight := by
    intro hm
    obtain rfl := eq_of_key Call.callId hw.callIds hm hq (hrid.trans hid.symm)
    simp [hs]
  rcases guardQueuedCall_cases pg now db queue id with
    h | ⟨p, t, hp, ⟨reason, -, h⟩ | ⟨-, -, h⟩ | ⟨-, h⟩⟩
  · rw [h] at hr
    exact hsame hr
  · rw [h, (denyCall_rows db t p reason now).1] at hr
    obtain ⟨c, hc, rfl⟩ := mem_update.mp hr
    split_ifs at hrid ⊢ with hcp
    · simp
    · obtain ⟨-, hpid, -⟩ := hp.mem
      exact absurd (hrid.trans hpid.symm) (by simpa using hcp)
  · rw [h] at hr
    exact hsame hr
  · rw [h] at hr
    cases hl : latestApproval db t.taskId queue id with
    | none =>
      rw [hl] at hr
      exact hsame hr
    | some a =>
      rw [hl] at hr
      exact hsame hr

/-- A call that the loop takes passed its guard in a state that differs only in what
concerns other calls. -/
theorem guarded_of_claimLoop {qs : List Call} (hnd : (qs.map (·.callId)).Nodup) {db : Db}
    (hw : db.core.WellFormed) {q r : Call} (hq : q ∈ db.calls) (hid : q.callId = id)
    (hs : q.status = .queued) (hr : r ∈ (claimLoop pg now queue fallback qs db).1.calls)
    (hrid : r.callId = id) (hrs : r.status = .inFlight) :
    ∃ d, Untouched id db d ∧ (guardQueuedCall pg now d queue id).2 = true := by
  induction qs generalizing db with
  | nil =>
    obtain rfl := eq_of_key Call.callId hw.callIds hr hq (hrid.trans hid.symm)
    simp [hs] at hrs
  | cons p qs ih =>
    obtain ⟨hp, hnd⟩ := List.nodup_cons.mp hnd
    rw [claimLoop] at hr
    dsimp only at hr
    by_cases hpid : p.callId = id
    · by_cases hok : (guardQueuedCall pg now db queue id).2 = true
      · exact ⟨db, Untouched.refl db, hok⟩
      · rw [hpid, if_neg hok] at hr
        have hg := (guardQueuedCall_evolves (G := fun _ _ _ => True) pg now queue id hw
          (fun _ _ => trivial) fun _ _ => trivial).grow
        have hp : id ∉ qs.map (·.callId) := hpid ▸ hp
        have hu := untouched_claimLoop pg now queue fallback hp (hg.wf hw)
        exact absurd hrs (not_inFlight_guard pg now queue hw hq hid hs ((hu.mem hrid).mp hr) hrid)
    · have hg := untouched_guard pg now queue hw hpid
      split at hr
      · have ht := hg.trans (untouched_takeCall hpid now)
        obtain ⟨d, hd, hok⟩ := ih hnd (ht.grow.wf hw) ((ht.mem hid).mpr hq) hr
        exact ⟨d, ht.trans hd, hok⟩
      · obtain ⟨d, hd, hok⟩ := ih hnd (hg.grow.wf hw) ((hg.mem hid).mpr hq) hr
        exact ⟨d, hg.trans hd, hok⟩

end Untouched

/-- An approval was asked for a call in some state of a run. -/
def EverRequested (pg : Postgres) (c : Config) (es : List Event) (q : Call) : Prop :=
  ∃ before after, es = before ++ after ∧ ∃ a ∈ (run (step pg) (start c) before).approvals,
    isApprovalOf q.taskId q.req.queue q.callId a = true

theorem approval_of_everRequested {pg : Postgres} {c : Config} {es : List Event} {q : Call}
    (h : EverRequested pg c es q) :
    ∃ a, latestApproval (run (step pg) (start c) es) q.taskId q.req.queue q.callId = some a := by
  obtain ⟨before, after, rfl, a, ha, hof⟩ := h
  have hw := wellFormed_run pg before (wellFormed_start c)
  rw [run_append]
  obtain ⟨b, hb, hid⟩ := (run_grow pg after hw).approvals.kept ha
  simp only [Approval.ident, Prod.mk.injEq] at hid
  have hbof : isApprovalOf q.taskId q.req.queue q.callId b = true := by
    unfold isApprovalOf Approval.gate? at hof ⊢
    rw [hid.2.1, hid.2.2.1]
    exact hof
  exact Option.ne_none_iff_exists'.mp (latestApproval_ne_none hb hbof)

/-- The newest approval of a call is approved, has not expired and was given for what
the call, its agent's policy, the rules and the definitions are now. -/
def Approved (db : Db) (now : Time) (agentId : Uuid) (q : Call) : Prop :=
  ∃ a ∈ db.approvals, isApprovalOf q.taskId q.req.queue q.callId a = true ∧
    (∀ b ∈ db.approvals, isApprovalOf q.taskId q.req.queue q.callId b = true →
      NewerApproval a b) ∧
    a.status = .approved ∧ (∃ x, a.expiresAt = some x ∧ now < x) ∧
    ∃ g, a.payload = .gate g ∧ g.snapshot = callSnapshot db.cfg agentId q

theorem approved_of_latest {db : Db} {now : Time} {agentId : Uuid} {q : Call} {a : Approval}
    (h : latestApproval db q.taskId q.req.queue q.callId = some a)
    (ha : approves now (callSnapshot db.cfg agentId q) a = true) :
    Approved db now agentId q := by
  obtain ⟨hm, hof⟩ := mem_latestApproval h
  unfold approves at ha
  simp only [Bool.and_eq_true, decide_eq_true_eq] at ha
  obtain ⟨⟨hst, hexp⟩, hg⟩ := ha
  refine ⟨a, hm, hof, latestApproval_newest h, hst, ?_, ?_⟩
  · cases hx : a.expiresAt with
    | none => simp [hx] at hexp
    | some x => exact ⟨x, rfl, by simpa [hx] using hexp⟩
  · obtain ⟨g, hgp, -⟩ := gate_of_isApprovalOf hof
    have hgate : a.gate? = some g := by simp [Approval.gate?, hgp]
    exact ⟨g, hgp, by simpa [hgate] using hg⟩

/-- Only a claim takes a queued call, after its guard let it pass. -/
theorem guarded_of_taken {pg : Postgres} {db : Db} {e : Event} (hw : db.core.WellFormed) {q r : Call}
    (hq : q ∈ db.calls) (hs : q.status = .queued) (hr : r ∈ (step pg db e).calls)
    (hid : r.callId = q.callId) (hrs : r.status = .inFlight) :
    ∃ queue d, Untouched q.callId db d ∧
      (guardQueuedCall pg e.now d queue q.callId).2 = true := by
  rcases step_cases pg db e with he | he
  · rw [he] at hr
    obtain rfl := eq_of_key Call.callId hw.callIds hr hq hid
    simp [hs] at hrs
  · obtain ⟨q', hq', hqid, hqs⟩ := (perform_restatus hw he).old q hq
    have hw' := wellFormed_step pg e hw
    obtain rfl : q' = r := eq_of_key Call.callId hw'.callIds hq' hr
      ((congrArg (·.1) hqid).trans hid.symm)
    rw [hs, hrs] at hqs
    obtain ⟨now, op⟩ := e
    cases op with
    | claim queue limit fallback locked =>
      have hnd : (((claimable db now queue locked).take (claimLimit limit)).map (·.callId)).Nodup :=
        (claimable_nodup hw locked).sublist ((List.take_sublist _ _).map _)
      obtain ⟨d, hd, hok⟩ := guarded_of_claimLoop hnd hw hq rfl hs hr hid hrs
      exact ⟨queue, d, hd, hok⟩
    | _ => simp [Op.restatus, Life.closes] at hqs

/-- Over every run and whatever event comes next, a queued call is taken only if no
matching rule denies it and, where a matching rule wants an approval or one was ever
asked for the call, its newest approval stands. -/
theorem taken_call_approved (pg : Postgres) (c : Config) (es : List Event) (e : Event) :
    let db := run (step pg) (start c) es
    ∀ q ∈ db.calls, q.status = .queued →
      ∀ q' ∈ (step pg db e).calls, q'.callId = q.callId → q'.status = .inFlight →
        ∃ t, db.task? q.taskId = some t ∧
          (∀ r ∈ db.cfg.rules, RuleMatches db.cfg t.agentId q.req r → r.decision ≠ .deny) ∧
          ((∃ r ∈ db.cfg.rules, RuleMatches db.cfg t.agentId q.req r ∧ r.decision = .approve) ∨
              EverRequested pg c es q → Approved db e.now t.agentId q) := by
  intro db q hq hs q' hq' hid hs'
  have hw : db.core.WellFormed := wellFormed_run pg es (wellFormed_start c)
  obtain ⟨queue, d, hd, hok⟩ := guarded_of_taken hw hq hs hq' hid hs'
  obtain ⟨-, p, u, hwait, hreason, happr⟩ := guardQueuedCall_true hok
  obtain ⟨hpm, hpid, rfl⟩ := hwait.mem
  obtain rfl := eq_of_key Call.callId hw.callIds ((hd.mem hpid).mp hpm) hq hpid
  obtain ⟨t, htm, hti⟩ := hw.callTask p hq
  have ht : db.task? p.taskId = some t := hti ▸ task?_of_mem (s := db.core) hw htm
  obtain ⟨t', ht', hident⟩ := hd.grow.task? hw ht
  have hu : d.core.task? p.taskId = some u := hwait.own ▸ hwait.task
  obtain rfl : u = t' := by
    rw [hu] at ht'
    exact Option.some.inj ht'
  have hagent : u.agentId = t.agentId := congrArg (·.2.2.1) hident
  rw [hd.cfg, hagent] at hreason happr
  refine ⟨t, ht, not_denied_of_guardReason hreason, fun hneed => ?_⟩
  rw [hwait.own, hd.latestApproval] at happr
  have hn : needsApproval d u p = true := by
    unfold needsApproval
    rw [hd.cfg, hagent, hwait.own, hd.latestApproval, Bool.or_eq_true]
    rcases hneed with ⟨r, hr, hm, hdec⟩ | hever
    · left
      rw [List.any_eq_true]
      exact ⟨r, mem_guardRules.mpr ⟨hr, hm⟩, by simp [hdec]⟩
    · obtain ⟨a, ha⟩ := approval_of_everRequested hever
      right
      have ha' : latestApproval db p.taskId p.req.queue p.callId = some a := ha
      rw [ha']
      rfl
  obtain ⟨a, ha, hok'⟩ := happr hn
  exact approved_of_latest ha hok'

def gatedConfig : Config where
  agents := [{ agentId := 1, name := "clerk", pgRole := some "allgres_agent_1" }]
  policies := [{
    agentId := 1
    systemPrompt := "serve"
    llmConfig := .object [("provider", .str "llm"), ("model", .str "m")] }]
  permissions := [⟨1, .function, "refund"⟩]
  functions := [{ functionId := 2, name := "refund", handler := .plpgsql, sqlIdent := some "fn_2" }]
  rules := [{ agentId := 1, action := .callFunction, resource := "refund", decision := .approve }]
  providers := [{ providerId := 3, name := "llm", baseUrl := "https://llm.example" }]
  nextId := 10

/-- The first claim of the function call asks for an approval, which is given. -/
def gatedRun : List Event :=
  [⟨1, .createSession 1 (some "go") none none⟩, ⟨2, .dispatch (fun _ => 0) []⟩,
    ⟨3, .claim .outboundCalls none none []⟩,
    ⟨4, .completeOutbound 3 (some 200)
      (some "\x7b\"action\":\"call_function\",\"function\":\"refund\"\x7d")⟩,
    ⟨5, .claim .functionCalls none none []⟩, ⟨6, .decideApproval 5 true none⟩]

theorem refund_taken_approved :
    let db := run (step bareServer) (start gatedConfig) gatedRun
    ∃ q ∈ db.calls, q.callId = 4 ∧ Approved db 7 1 q := by
  intro db
  let e : Event := ⟨7, .claim .functionCalls none none []⟩
  have h : ∃ q ∈ db.calls, q.callId = 4 ∧ q.status = .queued ∧
      (db.task? q.taskId).map (·.agentId) = some 1 ∧
      (∃ a ∈ db.approvals, isApprovalOf q.taskId q.req.queue q.callId a = true) ∧
      ∃ q' ∈ (step bareServer db e).calls, q'.callId = q.callId ∧ q'.status = .inFlight := by
    decide +kernel
  obtain ⟨q, hq, hid, hs, hagent, hreq, q', hq', hid', hs'⟩ := h
  obtain ⟨t, ht, -, happr⟩ :=
    taken_call_approved bareServer gatedConfig gatedRun e q hq hs q' hq' hid' hs'
  have ht1 : t.agentId = 1 := by
    have ht' : db.task? q.taskId = some t := ht
    simpa [ht'] using hagent
  exact ⟨q, hq, hid, ht1 ▸ happr (.inr ⟨gatedRun, [], by simp, hreq⟩)⟩

end Allgres
