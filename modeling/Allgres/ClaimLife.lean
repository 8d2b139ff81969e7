import Allgres.DispatchLife

/-! The guard and the four claims: a queued call of a running task is handed out,
denied, or held back until an operator decides. -/

namespace Allgres

open Raise Rows Runs Allgres.Core

theorem call?_mem {db : Db} {queue : Queue} {id : Uuid} {q : Call}
    (h : db.call? queue id = some q) : q ∈ db.calls ∧ q.callId = id ∧ q.req.queue = queue := by
  refine ⟨List.mem_of_find?_eq_some h, ?_⟩
  have := List.find?_some h
  simpa using this

theorem call?_of_mem {db : Db} {q : Call} (hw : db.core.WellFormed) (hq : q ∈ db.calls) :
    db.call? q.req.queue q.callId = some q := by
  cases h : db.call? q.req.queue q.callId with
  | none =>
    have hnone := List.find?_eq_none.mp h q hq
    simp at hnone
  | some r =>
    obtain ⟨hr, hid, -⟩ := call?_mem h
    rw [eq_of_key Call.callId hw.callIds hr hq hid]

theorem filter_eq_some {α : Type} {p : α → Bool} {x : Option α} {a : α}
    (h : x.filter p = some a) : x = some a ∧ p a = true := by
  cases x with
  | none => simp at h
  | some b =>
    by_cases hp : p b = true
    · simp only [Option.filter_some, hp, if_true, Option.some.injEq] at h
      subst h
      exact ⟨rfl, hp⟩
    · simp [Option.filter_some, hp] at h

/-- A queued call of a running task, as the guard finds it. -/
structure Waiting (db : Db) (queue : Queue) (id : Uuid) (q : Call) (t : Task) : Prop where
  call : db.call? queue id = some q
  queued : q.status = .queued
  task : db.task? t.taskId = some t
  own : t.taskId = q.taskId
  running : t.status = .running

theorem Waiting.mem {db : Db} {queue : Queue} {id : Uuid} {q : Call} {t : Task}
    (h : Waiting db queue id q t) : q ∈ db.calls ∧ q.callId = id ∧ q.req.queue = queue :=
  call?_mem h.call

/-- The answers of the guard. -/
theorem guardQueuedCall_cases (pg : Postgres) (now : Time) (db : Db) (queue : Queue) (id : Uuid) :
    guardQueuedCall pg now db queue id = (db, false) ∨
    ∃ q t, Waiting db queue id q t ∧
      ((∃ reason, guardReason pg db.cfg t.agentId q.req = some reason ∧
          guardQueuedCall pg now db queue id = (db.denyCall t q reason now, false)) ∨
        (guardReason pg db.cfg t.agentId q.req = none ∧
          (needsApproval db t q = true → ∃ a, latestApproval db t.taskId queue id = some a ∧
            approves now (callSnapshot db.cfg t.agentId q) a = true) ∧
          guardQueuedCall pg now db queue id = (db, true)) ∨
        (needsApproval db t q = true ∧ guardQueuedCall pg now db queue id =
          (db.requestApproval t q (latestApproval db t.taskId queue id) now, false))) := by
  unfold guardQueuedCall
  cases hq : (db.call? queue id).filter (·.status = .queued) with
  | none => exact .inl rfl
  | some q =>
    obtain ⟨hcall, hst⟩ := filter_eq_some hq
    dsimp only
    cases ht : (db.task? q.taskId).filter (·.status = .running) with
    | none => exact .inl rfl
    | some t =>
      obtain ⟨htask, hrun⟩ := filter_eq_some ht
      obtain ⟨-, hown⟩ := mem_of_task? (s := db.core) htask
      right
      refine ⟨q, t, ⟨hcall, by simpa using hst, hown ▸ htask, hown, by simpa using hrun⟩, ?_⟩
      dsimp only
      cases hg : guardReason pg db.cfg t.agentId q.req with
      | some reason => exact .inl ⟨reason, rfl, rfl⟩
      | none =>
        right
        dsimp only
        by_cases hn : needsApproval db t q = true
        · rw [if_neg (by simp [hn])]
          by_cases ha : (latestApproval db t.taskId queue id).any
              (approves now (callSnapshot db.cfg t.agentId q)) = true
          · left
            rw [if_pos ha]
            exact ⟨rfl, fun _ => by simpa [Option.any_eq_true] using ha, rfl⟩
          · right
            rw [if_neg ha]
            exact ⟨hn, rfl⟩
        · left
          rw [if_pos (by simpa using hn)]
          exact ⟨rfl, fun h => absurd h hn, rfl⟩

theorem cfg_guardQueuedCall (pg : Postgres) (now : Time) (db : Db) (queue : Queue) (id : Uuid) :
    (guardQueuedCall pg now db queue id).1.cfg = db.cfg := by
  rcases guardQueuedCall_cases pg now db queue id with
    h | ⟨q, t, -, ⟨reason, -, h⟩ | ⟨-, -, h⟩ | ⟨-, h⟩⟩
  · rw [h]
  · rw [h]
    exact cfg_maybeCompleteSession _ _ _
  · rw [h]
  · rw [h]
    cases latestApproval db t.taskId queue id <;> rfl

/-- No rule is on a model call, so only an earlier approval could hold one back. -/
theorem latestApproval_of_llm {db : Db} {t : Task} {q : Call} (hl : q.req.isLlm = true)
    (h : needsApproval db t q = true) :
    ∃ a, latestApproval db t.taskId q.req.queue q.callId = some a := by
  have hrules : guardRules db.cfg t.agentId q.req = [] := by
    cases hreq : q.req with
    | outbound o =>
      have hk : o.kind = .llm := by simpa [hreq, Request.isLlm] using hl
      have hact : ruleAction (.outbound o) = none := by simp [ruleAction, hk]
      simp [guardRules, hact, Request.queue, sortRules]
    | sql => simp [hreq, Request.isLlm] at hl
    | function => simp [hreq, Request.isLlm] at hl
    | procedure => simp [hreq, Request.isLlm] at hl
  unfold needsApproval at h
  rw [hrules] at h
  simpa [Option.isSome_iff_exists] using h

theorem mem_latestApproval {db : Db} {taskId id : Uuid} {queue : Queue} {a : Approval}
    (h : latestApproval db taskId queue id = some a) :
    a ∈ db.approvals ∧ isApprovalOf taskId queue id a = true := by
  have hm : a ∈ (db.approvals.filter (isApprovalOf taskId queue id)).insertionSort
      (fun a b => b.createdAt < a.createdAt ∨
        (a.createdAt = b.createdAt ∧ b.approvalId ≤ a.approvalId)) :=
    List.mem_of_mem_head? h
  exact List.mem_filter.mp ((List.mem_insertionSort _).mp hm)

theorem gate_of_isApprovalOf {taskId id : Uuid} {queue : Queue} {a : Approval}
    (h : isApprovalOf taskId queue id a = true) :
    ∃ g, a.payload = .gate g ∧ g.callId = id ∧ g.queue = queue ∧ a.taskId = taskId := by
  unfold isApprovalOf Approval.gate? at h
  split at h
  · rename_i g hg
    simp only [Option.any_some, Bool.and_eq_true, decide_eq_true_eq] at h
    exact ⟨g, hg, h.2.2, h.2.1, h.1⟩
  · simp at h

/-- The guard never holds a model call back. -/
theorem llm_of_needsApproval {db : Db} {t : Task} {q : Call} (hw : db.core.WellFormed)
    (hq : q ∈ db.calls) (h : needsApproval db t q = true) : q.req.isLlm = false := by
  by_contra hne
  obtain ⟨a, ha⟩ := latestApproval_of_llm (by simpa using hne) h
  obtain ⟨ham, hof⟩ := mem_latestApproval ha
  obtain ⟨g, hg, hid, -, -⟩ := gate_of_isApprovalOf hof
  obtain ⟨c, hc, hci, hcl⟩ := hw.gates a ham g hg
  have hcq : c = q := eq_of_key Call.callId hw.callIds hc hq (hci.trans hid)
  rw [hcq] at hcl
  exact hne hcl

section Claim

variable {G : Uuid → Label → Life → Prop} {db : Db} {queue : Queue} {id : Uuid} {q : Call}
  {t : Task}

/-- A change of the status of one call, in the lives. -/
theorem life_setCall {s : Core} (hw : s.WellFormed) {c : Call} (hc : c ∈ s.calls)
    {f : Call → Call} {st : CallStatus} (hf : ∀ c, (f c).ident = c.ident)
    (hst : ∀ c, (f c).status = st) :
    ∃ pre post, s.callsOf c.taskId = pre ++ c.life :: post ∧
      (s.updateCall c.callId f).callsOf c.taskId = pre ++ c.life.become st :: post ∧
      ∀ i, i ≠ c.taskId → (s.updateCall c.callId f).life i = s.life i := by
  obtain ⟨pre, post, hsplit, hupd⟩ := lives_updateCall hw hc
  obtain ⟨hcalls, hne⟩ := hupd f hf
  refine ⟨pre, post, hsplit, ?_, hne⟩
  rw [hcalls]
  have hid := hf c
  simp only [Call.ident, Prod.mk.injEq] at hid
  simp [Call.life, CallLife.become, hid.1, hid.2.2, hst]

theorem takeCall_evolves (hw : db.core.WellFormed) (h : Waiting db queue id q t) (now : Time)
    (hG : ∀ i l, G i .take l) : Evolves G db.core (db.takeCall id now).core := by
  obtain ⟨hqm, hqi, -⟩ := h.mem
  have hf : ∀ c : Call, ({ c with status := .inFlight, updatedAt := now } : Call).ident = c.ident :=
    fun _ => rfl
  obtain ⟨pre, post, hsplit, hupd, hne⟩ := life_setCall hw hqm hf (fun _ => rfl)
  rw [hqi] at hupd hne
  refine evolves_at (grow_updateCall hf) .take (hG q.taskId _) ?_ hne
  have ht : db.core.task? q.taskId = some t := h.own ▸ h.task
  rw [life_of_task? ht, life_of_task? (s := (db.takeCall id now).core) ht, hsplit, h.running]
  have hc : (db.takeCall id now).core.callsOf q.taskId = _ := hupd
  rw [hc]
  exact .take h.queued

theorem denyCall_evolves (hw : db.core.WellFormed) (h : Waiting db queue id q t) (reason : String)
    (now : Time) (hG : ∀ i l, G i .deny l) :
    Evolves G db.core (db.denyCall t q reason now).core := by
  obtain ⟨hqm, hqi, -⟩ := h.mem
  have hf : ∀ c : Call, ({ c with status := .lost, updatedAt := now } : Call).ident = c.ident :=
    fun _ => rfl
  obtain ⟨pre, post, hsplit, hupd, hne⟩ := life_setCall hw hqm hf (fun _ => rfl)
  have hg : ∀ r : Task, ({ r with
      status := .failed
      error := some reason
      updatedAt := now } : Task).ident = r.ident := fun _ => rfl
  have ht : db.core.task? q.taskId = some t := h.own ▸ h.task
  rw [Db.denyCall, Db.core_failTask, Db.core_updateCall, h.own]
  refine evolves_at ((grow_updateCall hf).trans (grow_updateTask hg)) .deny (hG q.taskId _) ?_ ?_
  · have ht' : (db.core.updateCall q.callId
        fun c => { c with status := .lost, updatedAt := now }).task? q.taskId = some t := ht
    rw [life_updateTask hg ht', life_of_task? ht, hupd, hsplit, h.running]
    exact .deny h.queued
  · intro i hi
    rw [life_updateTask_ne hg hi, hne i hi]

theorem requestApproval_evolves (hw : db.core.WellFormed) (h : Waiting db queue id q t)
    (hn : needsApproval db t q = true) (previous : Option Approval) (now : Time)
    (hG : ∀ i l, G i .gate l) :
    Evolves G db.core (db.requestApproval t q previous now).core := by
  obtain ⟨hqm, -, -⟩ := h.mem
  have hllm := llm_of_needsApproval hw hqm hn
  have ht : db.core.task? q.taskId = some t := h.own ▸ h.task
  have hf : ∀ r : Task, ({ r with
      status := .waitingHuman
      updatedAt := now } : Task).ident = r.ident := fun _ => rfl
  have hprev : Grow db.core (db.supersede previous now).core := by
    cases previous with
    | none => exact Grow.refl _
    | some a => exact grow_updateApprovals fun _ => rfl
  have hlife : ∀ i, (db.supersede previous now).core.life i = db.core.life i := by
    intro i
    cases previous <;> rfl
  have hcalls : (db.supersede previous now).core.calls = db.calls := by
    cases previous <;> rfl
  have ht' : (db.supersede previous now).core.task? q.taskId = some t := by
    cases previous <;> exact ht
  have hc : (db.supersede previous now).core.callsOf q.taskId = db.core.callsOf q.taskId := by
    cases previous <;> rfl
  have hgate : ∀ s : Core, s.task? q.taskId = some t →
      s.callsOf q.taskId = db.core.callsOf q.taskId → Life.Move .gate (db.core.life q.taskId)
        ((s.updateTask q.taskId
          fun r => { r with status := .waitingHuman, updatedAt := now }).life q.taskId) := by
    intro s hs hsc
    rw [life_updateTask hf hs, life_of_task? ht, h.running, hsc]
    have hm : q.life ∈ db.core.callsOf q.taskId :=
      List.mem_map_of_mem (List.mem_filter.mpr ⟨hqm, by simp⟩)
    exact .gate hm h.queued hllm
  rw [Db.requestApproval, Db.core_updateTask, Db.core_insertApproval, h.own]
  refine evolves_at ((hprev.trans (grow_insertApproval ?_)).trans
    (grow_updateTask hf)) .gate (hG q.taskId _) ?_ ?_
  · intro g hg
    cases hg
    exact ⟨q, hcalls ▸ hqm, rfl, hllm⟩
  · exact hgate _ ht' hc
  · intro i hi
    rw [life_updateTask_ne hf hi]
    exact hlife i

theorem guardQueuedCall_evolves (pg : Postgres) (now : Time) (queue : Queue) (id : Uuid)
    (hw : db.core.WellFormed) (hd : ∀ i l, G i .deny l) (hg : ∀ i l, G i .gate l) :
    Evolves G db.core (guardQueuedCall pg now db queue id).1.core := by
  rcases guardQueuedCall_cases pg now db queue id with
    h | ⟨q, t, hq, ⟨reason, -, h⟩ | ⟨-, -, h⟩ | ⟨hn, h⟩⟩
  · rw [h]
    exact Evolves.refl _
  · rw [h]
    exact denyCall_evolves hw hq reason now hd
  · rw [h]
    exact Evolves.refl _
  · rw [h]
    exact requestApproval_evolves hw hq hn _ now hg

theorem guardQueuedCall_true {pg : Postgres} {now : Time}
    (h : (guardQueuedCall pg now db queue id).2 = true) :
    (guardQueuedCall pg now db queue id).1 = db ∧ ∃ q t, Waiting db queue id q t ∧
      guardReason pg db.cfg t.agentId q.req = none ∧
      (needsApproval db t q = true → ∃ a, latestApproval db t.taskId queue id = some a ∧
        approves now (callSnapshot db.cfg t.agentId q) a = true) := by
  rcases guardQueuedCall_cases pg now db queue id with
    he | ⟨q, t, hq, ⟨reason, -, he⟩ | ⟨hr, ha, he⟩ | ⟨-, he⟩⟩
  · simp [he] at h
  · simp [he] at h
  · rw [he]
    exact ⟨rfl, q, t, hq, hr, ha⟩
  · simp [he] at h

theorem claimLoop_evolves (pg : Postgres) (now : Time) (fallback : Option String)
    (hG : ∀ i lab l, Life.claimLabel lab → G i lab l) {qs : List Call} {db : Db}
    (hw : db.core.WellFormed) :
    Evolves G db.core (claimLoop pg now queue fallback qs db).1.core := by
  induction qs generalizing db with
  | nil => exact Evolves.refl _
  | cons q qs ih =>
    have hguard := guardQueuedCall_evolves (G := G) pg now queue q.callId hw
      (fun i l => hG i .deny l trivial) fun i l => hG i .gate l trivial
    rw [claimLoop]
    dsimp only
    split
    · rename_i hok
      obtain ⟨hdb, q', t, hwait, -, -⟩ := guardQueuedCall_true hok
      have htake := takeCall_evolves hw hwait now fun i l => hG i .take l trivial
      rw [hdb]
      exact htake.trans (ih (htake.wf hw))
    · exact hguard.trans (ih (hguard.wf hw))

theorem fnClaim_evolves (pg : Postgres) (now : Time) (limit : Option Int)
    (fallback : Option String) (locked : List Uuid) (hw : db.core.WellFormed)
    (hG : ∀ i lab l, Life.claimLabel lab → G i lab l) :
    Evolves G db.core (fnClaim pg now queue limit fallback locked db).1.core :=
  claimLoop_evolves pg now fallback hG hw

end Claim

end Allgres
