import Allgres.ApprovalGate

/-! `begin_local_execution` and `assert_local_execution`: what the worker notes before
it enters a built routine, and the check every built routine starts with. -/

namespace Allgres

open Raise Rows Allgres.Core

/-- The backend a routine runs in, its transaction, if it has an id, and its role. -/
structure LocalSession where
  backendPid : Nat
  transactionId : Option Nat
  role : String

def localContext (db : Db) (s : LocalSession) : Option LocalContext :=
  db.localContexts.find? fun x =>
    x.backendPid = s.backendPid ∧ some x.transactionId = s.transactionId

def beginLocalExecution (db : Db) (s : LocalSession) (queue : Queue) (callId : Uuid) :
    Except String Db := do
  raiseIf (queue ≠ .functionCalls ∧ queue ≠ .procedureCalls) "invalid local queue"
  match db.call? queue callId, s.transactionId with
  | some q, some xid => match (db.task? q.taskId).filter (·.status = .running) with
    | some t =>
      raiseIf (q.status ≠ .inFlight) "local call is no longer executable"
      let kept := db.localContexts.filter fun x => x.backendPid ≠ s.backendPid
      let row : LocalContext := ⟨s.backendPid, xid, queue, callId, t.taskId, t.agentId⟩
      pure { db with localContexts := kept ++ [row] }
    | none => .error "local call is no longer executable"
  | _, _ => .error "local call is no longer executable"

/-- An agent without a role of its own runs as `sandbox`, and is known by the context. -/
def localAgent (c : Config) (ctx : Option LocalContext) (role : String) : Option Agent :=
  c.agents.find? fun a => a.pgRole = some role ∨
    (role = "sandbox" ∧ a.pgRole = none ∧ some a.agentId = ctx.map (·.agentId))

/-- A built routine, by the name it has in `allgres_functions`. -/
inductive Routine where
  | function (f : Function)
  | procedure (p : Procedure)

namespace Routine

def name : Routine → String
  | function f => f.name
  | procedure p => p.name

def action : Routine → RuleAction
  | function _ => .callFunction
  | procedure _ => .runProcedure

def sqlIdent : Routine → Option String
  | function f => f.sqlIdent
  | procedure p => p.sqlIdent

def available : Routine → Bool
  | function f => f.isActive && f.buildStatus = .built
  | procedure p => p.isActive && p.buildStatus = .built

end Routine

def routineOf (c : Config) (ident : String) : Except String Routine :=
  match c.functions.find? (·.sqlIdent = some ident) with
  | some f => if (Routine.function f).available then .ok (.function f)
      else .error "function unavailable"
  | none => match c.procedures.find? (·.sqlIdent = some ident) with
    | some p => if (Routine.procedure p).available then .ok (.procedure p)
        else .error "procedure unavailable"
    | none => .error "procedure unavailable"

def routineRule (agentId : Uuid) (rt : Routine) (r : ExecutionRule) : Bool :=
  r.agentId = agentId && r.action = rt.action && (r.resource = "*" || r.resource = rt.name)

/-- The approval of the call this transaction runs for the agent. -/
def rootApproval (db : Db) (ctx : Option LocalContext) (agentId : Uuid) : Option Approval :=
  (ctx.filter (·.agentId = agentId)).bind fun x => latestApproval db x.taskId x.queue x.callId

def inScope (scope : LocalScope) (ident : String) : Bool :=
  (scope.procedure.any (·.sqlIdent = some ident)) || scope.functions.any (·.sqlIdent = some ident)

/-- Whether the approved call, its scope, rules and policy are still what was approved. -/
def scopeIntact (db : Db) (ctx : LocalContext) (agentId : Uuid) (ap : Approval) (ident : String) :
    Bool :=
  match db.call? ctx.queue ctx.callId, ap.gate? with
  | some q, some g =>
    q.status = .inFlight && db.running ctx.taskId && decide (g.snapshot.request = q.request) &&
      decide (g.snapshot.localScope = localExecutionScope db.cfg q.req) &&
      decide (g.snapshot.localRules = localRules db.cfg agentId) &&
      decide (g.snapshot.policyGeneration = (db.cfg.policy? agentId).map (·.generation)) &&
      inScope (localExecutionScope db.cfg q.req) ident
  | _, _ => false

/-- `isOperator` is the membership in the role `operator`. -/
def assertLocalExecution (isOperator : String → Bool) (now : Time) (db : Db) (s : LocalSession)
    (ident : String) : Except String Unit :=
  let ctx := localContext db s
  match localAgent db.cfg ctx s.role with
  | none => raiseIf (isOperator s.role = false) "local execution requires an agent identity"
  | some a => do
    raiseIf (a.isActive = false) "agent inactive"
    let rt ← routineOf db.cfg ident
    let rules := db.cfg.rules.filter (routineRule a.agentId rt)
    raiseIf (rules.any (·.decision = .deny) = true) ("execution denied: " ++ rt.name)
    match rootApproval db ctx a.agentId with
    | none =>
      raiseIf (rules.any (·.decision = .approve) = true)
        ("execution requires approval: " ++ rt.name)
    | some ap =>
      raiseIf (ap.status ≠ .approved ∨ ap.expiresAt.any (· ≤ now) = true)
        ("execution requires approval: " ++ rt.name)
      raiseIf (ctx.any (scopeIntact db · a.agentId ap ident) = false)
        ("execution approval scope changed or does not include: " ++ rt.name)

/-- What the worker sees to before it enters a routine: it runs under the role of an
agent, the context it noted is that of the agent, and names the task of its call. -/
structure Entered (isOperator : String → Bool) (db : Db) (s : LocalSession) : Prop where
  role : (∃ a ∈ db.cfg.agents, a.pgRole = some s.role) ∨ isOperator s.role = false
  agent : ∀ ctx, localContext db s = some ctx → ∀ a ∈ db.cfg.agents, a.pgRole = some s.role →
    a.agentId = ctx.agentId
  task : ∀ ctx q, localContext db s = some ctx → db.call? ctx.queue ctx.callId = some q →
    q.taskId = ctx.taskId

section Assert

variable {isOperator : String → Bool} {now : Time} {db db' : Db} {s : LocalSession} {ident : String}

theorem localAgent_some {c : Config} {ctx : Option LocalContext} {role : String} {a : Agent}
    (h : localAgent c ctx role = some a) : a ∈ c.agents ∧ (a.pgRole = some role ∨
      (role = "sandbox" ∧ a.pgRole = none ∧ some a.agentId = ctx.map (·.agentId))) := by
  refine ⟨List.mem_of_find?_eq_some h, ?_⟩
  simpa using List.find?_some h

theorem routineOf_ok {c : Config} {rt : Routine} (h : routineOf c ident = .ok rt) :
    rt.sqlIdent = some ident ∧ rt.available = true := by
  unfold routineOf at h
  split at h
  · rename_i f hf
    split at h
    · rename_i hav
      obtain rfl := Except.ok.inj h
      have hid : f.sqlIdent = some ident := by simpa using List.find?_some hf
      exact ⟨hid, hav⟩
    · cases h
  · split at h
    · rename_i p hp
      split at h
      · rename_i hav
        obtain rfl := Except.ok.inj h
        have hid : p.sqlIdent = some ident := by simpa using List.find?_some hp
        exact ⟨hid, hav⟩
      · cases h
    · cases h

/-- The approval of a root call that lets a routine run. -/
structure RootApproved (db : Db) (now : Time) (agentId : Uuid) (ident : String)
    (ctx : LocalContext) (q : Call) (ap : Approval) (g : Gate) : Prop where
  call : db.call? ctx.queue ctx.callId = some q
  inFlight : q.status = .inFlight
  running : db.running ctx.taskId = true
  mem : ap ∈ db.approvals
  own : isApprovalOf ctx.taskId ctx.queue ctx.callId ap = true
  newest : ∀ b ∈ db.approvals, isApprovalOf ctx.taskId ctx.queue ctx.callId b = true →
    NewerApproval ap b
  approved : ap.status = .approved
  unexpired : ∀ x, ap.expiresAt = some x → now < x
  gate : ap.payload = .gate g
  request : g.snapshot.request = q.request
  scope : g.snapshot.localScope = localExecutionScope db.cfg q.req
  rules : g.snapshot.localRules = localRules db.cfg agentId
  policy : g.snapshot.policyGeneration = (db.cfg.policy? agentId).map (·.generation)
  declared : inScope (localExecutionScope db.cfg q.req) ident = true

theorem rootApproved_of_intact {ctx : LocalContext} {agentId : Uuid} {ap : Approval}
    (hl : latestApproval db ctx.taskId ctx.queue ctx.callId = some ap)
    (hs : ap.status = .approved) (hx : ap.expiresAt.any (· ≤ now) = false)
    (h : scopeIntact db ctx agentId ap ident = true) :
    ∃ q g, RootApproved db now agentId ident ctx q ap g := by
  obtain ⟨hm, hof⟩ := mem_latestApproval hl
  unfold scopeIntact at h
  split at h
  · rename_i q g hq hg
    simp only [Bool.and_eq_true, decide_eq_true_eq] at h
    obtain ⟨⟨⟨⟨⟨⟨hst, hrun⟩, hreq⟩, hsc⟩, hru⟩, hpo⟩, hin⟩ := h
    have hpay : ap.payload = .gate g := by
      unfold Approval.gate? at hg
      split at hg
      · rename_i g' hg'
        obtain rfl := Option.some.inj hg
        exact hg'
      · cases hg
    refine ⟨q, g, hq, hst, hrun, hm, hof, latestApproval_newest hl, hs, ?_, hpay, hreq, hsc, hru,
      hpo, hin⟩
    intro x hxe
    simpa [hxe] using hx
  · cases h

theorem agentId_of_entered (he : Entered isOperator db s) {ctx : LocalContext} {a : Agent}
    (hctx : localContext db s = some ctx)
    (ha : localAgent db.cfg (localContext db s) s.role = some a) : ctx.agentId = a.agentId := by
  obtain ⟨hm, hrole | ⟨-, -, hid⟩⟩ := localAgent_some ha
  · exact (he.agent ctx hctx a hm hrole).symm
  · simpa [hctx] using hid.symm

theorem exists_localAgent (he : Entered isOperator db s)
    (h : assertLocalExecution isOperator now db s ident = .ok ()) :
    ∃ a, localAgent db.cfg (localContext db s) s.role = some a := by
  cases ha : localAgent db.cfg (localContext db s) s.role with
  | some a => exact ⟨a, rfl⟩
  | none =>
    exfalso
    unfold assertLocalExecution at h
    simp only [ha] at h
    rcases he.role with ⟨a, hm, hr⟩ | hop
    · have := List.find?_eq_none.mp ha a hm
      simp [hr] at this
    · exact raiseIf_eq_ok.mp h hop

/-- A built routine that is let through runs for an active agent, is active and built,
and no rule denies it; where a rule wants an approval, or the root call has one, that
call is in flight for a running task, and its newest approval is approved, has not
expired and was given for the present request, scope, rules and policy, to which the
routine belongs. Whatever was edited since the call was claimed, `db` is the state the
check finds. -/
theorem assertLocalExecution_sound (isOperator : String → Bool) (now : Time) (db : Db)
    (s : LocalSession) (ident : String) (he : Entered isOperator db s)
    (h : assertLocalExecution isOperator now db s ident = .ok ()) :
    ∃ a rt, a ∈ db.cfg.agents ∧ (a.pgRole = some s.role ∨ (s.role = "sandbox" ∧ a.pgRole = none)) ∧
      a.isActive = true ∧ rt.sqlIdent = some ident ∧ rt.available = true ∧
      (∀ r ∈ db.cfg.rules, routineRule a.agentId rt r = true → r.decision ≠ .deny) ∧
      ((∃ r ∈ db.cfg.rules, routineRule a.agentId rt r = true ∧ r.decision = .approve) ∨
          (∃ ctx, localContext db s = some ctx ∧
            ∃ b ∈ db.approvals, isApprovalOf ctx.taskId ctx.queue ctx.callId b = true) →
        ∃ ctx q ap g, localContext db s = some ctx ∧ q.taskId = ctx.taskId ∧
          RootApproved db now a.agentId ident ctx q ap g) := by
  obtain ⟨a, ha⟩ := exists_localAgent he h
  obtain ⟨ham, harole⟩ := localAgent_some ha
  unfold assertLocalExecution at h
  simp only [ha] at h
  obtain ⟨_, hactive, h⟩ := bind_eq_ok.mp h
  obtain ⟨rt, hrt, h⟩ := bind_eq_ok.mp h
  obtain ⟨_, hdeny, h⟩ := bind_eq_ok.mp h
  obtain ⟨hident, havail⟩ := routineOf_ok hrt
  have hdeny := raiseIf_eq_ok.mp hdeny
  refine ⟨a, rt, ham, harole.imp_right fun hs => ⟨hs.1, hs.2.1⟩, ?_, hident, havail, ?_, ?_⟩
  · simpa using raiseIf_eq_ok.mp hactive
  · intro r hr hm hd
    apply hdeny
    rw [List.any_eq_true]
    exact ⟨r, List.mem_filter.mpr ⟨hr, hm⟩, by simp [hd]⟩
  · intro hneed
    cases hroot : rootApproval db (localContext db s) a.agentId with
    | none =>
      exfalso
      simp only [hroot] at h
      rcases hneed with ⟨r, hr, hm, hd⟩ | ⟨ctx, hctx, b, hb, hof⟩
      · apply raiseIf_eq_ok.mp h
        rw [List.any_eq_true]
        exact ⟨r, List.mem_filter.mpr ⟨hr, hm⟩, by simp [hd]⟩
      · have hid := agentId_of_entered he hctx ha
        have hnone : latestApproval db ctx.taskId ctx.queue ctx.callId = none := by
          simpa [rootApproval, hctx, hid] using hroot
        exact latestApproval_ne_none hb hof hnone
    | some ap =>
      simp only [hroot] at h
      obtain ⟨_, hap, h⟩ := bind_eq_ok.mp h
      have hap := raiseIf_eq_ok.mp hap
      have hscope := raiseIf_eq_ok.mp h
      unfold rootApproval at hroot
      obtain ⟨ctx, hctx, hlatest⟩ := Option.bind_eq_some_iff.mp hroot
      obtain ⟨hctx, -⟩ := filter_eq_some hctx
      simp only [not_or, ne_eq, not_not, Bool.not_eq_true] at hap
      obtain ⟨q, g, hok⟩ := rootApproved_of_intact hlatest hap.1 hap.2
        (by simpa [hctx] using hscope)
      exact ⟨ctx, q, ap, g, hctx, he.task ctx q hctx hok.call, hok⟩

end Assert

section Begin

variable {isOperator : String → Bool} {db db' : Db} {s : LocalSession} {queue : Queue} {callId : Uuid}
  {q : Call} {t : Task}

theorem beginLocalExecution_ok (hq : db.call? queue callId = some q)
    (ht : db.task? q.taskId = some t) (h : beginLocalExecution db s queue callId = .ok db') :
    ∃ xid, s.transactionId = some xid ∧ q.status = .inFlight ∧ t.status = .running ∧
      db' = { db with localContexts :=
        (db.localContexts.filter fun x => x.backendPid ≠ s.backendPid) ++
          [⟨s.backendPid, xid, queue, callId, t.taskId, t.agentId⟩] } := by
  unfold beginLocalExecution at h
  obtain ⟨_, _, h⟩ := bind_eq_ok.mp h
  cases hx : s.transactionId with
  | none => simp [hq, hx] at h
  | some xid =>
    simp only [hq, hx, ht] at h
    split at h
    · rename_i t' ht'
      obtain ⟨hte, hr⟩ := filter_eq_some ht'
      obtain rfl := Option.some.inj hte
      obtain ⟨_, hs, h⟩ := bind_eq_ok.mp h
      obtain rfl := Except.ok.inj h
      exact ⟨xid, rfl, by simpa using raiseIf_eq_ok.mp hs, by simpa using hr, rfl⟩
    · cases h

/-- The worker enters under the role of the agent of its call. Roles of agents are
unique, none is `sandbox`, and `sandbox` is no operator. -/
theorem entered_of_begin (hq : db.call? queue callId = some q) (ht : db.task? q.taskId = some t)
    (hrole : s.role = (pgRoleOf db.cfg t.agentId).getD "sandbox")
    (hunique : ∀ a ∈ db.cfg.agents, ∀ b ∈ db.cfg.agents, ∀ r, a.pgRole = some r →
      b.pgRole = some r → a.agentId = b.agentId)
    (hsandbox : ∀ a ∈ db.cfg.agents, a.pgRole ≠ some "sandbox") (hop : isOperator "sandbox" = false)
    (h : beginLocalExecution db s queue callId = .ok db') : Entered isOperator db' s := by
  obtain ⟨xid, hx, -, -, rfl⟩ := beginLocalExecution_ok hq ht h
  let row : LocalContext := ⟨s.backendPid, xid, queue, callId, t.taskId, t.agentId⟩
  have hctx : ∀ ctx, localContext { db with localContexts :=
      (db.localContexts.filter fun x => x.backendPid ≠ s.backendPid) ++ [row] } s = some ctx →
      ctx = row := by
    intro ctx hc
    have hm := List.mem_of_find?_eq_some hc
    have hp := List.find?_some hc
    simp only [decide_eq_true_eq] at hp
    rcases List.mem_append.mp hm with hm | hm
    · have hne := (List.mem_filter.mp hm).2
      simp [hp.1] at hne
    · exact List.mem_singleton.mp hm
  have hid := (mem_of_task? (s := db.core) ht).2
  cases hr : pgRoleOf db.cfg t.agentId with
  | none =>
    rw [hr] at hrole
    refine ⟨.inr (hrole ▸ hop), ?_, ?_⟩
    · intro ctx _ a ha har
      exact absurd (har.trans (by rw [hrole]; rfl)) (hsandbox a ha)
    · intro ctx q' hc hq'
      obtain rfl := hctx ctx hc
      obtain rfl : q = q' := Option.some.inj (hq.symm.trans hq')
      exact hid.symm
  | some r =>
    rw [hr] at hrole
    obtain ⟨b, hb, hbr⟩ := Option.bind_eq_some_iff.mp hr
    have hbm : b ∈ db.cfg.agents := List.mem_of_find?_eq_some hb
    have hbid : b.agentId = t.agentId := by simpa using List.find?_some hb
    have hsr : s.role = r := hrole
    refine ⟨.inl ⟨b, hbm, by rw [hbr, hsr]⟩, ?_, ?_⟩
    · intro ctx hc a ha har
      obtain rfl := hctx ctx hc
      exact (hunique a ha b hbm r (by rw [har, hsr]) hbr).trans hbid
    · intro ctx q' hc hq'
      obtain rfl := hctx ctx hc
      obtain rfl : q = q' := Option.some.inj (hq.symm.trans hq')
      exact hid.symm

end Begin

/-- The approved call of `gatedRun` is claimed, and the worker begins to run it. -/
def claimedDb : Db :=
  Runs.run (step bareServer) (start gatedConfig)
    (gatedRun ++ [⟨7, .claim .functionCalls none none []⟩])

def refundSession : LocalSession := ⟨77, some 900, "allgres_agent_1"⟩

theorem refund_entered_approved : ∃ db' ctx q ap g,
    beginLocalExecution claimedDb refundSession .functionCalls 4 = .ok db' ∧
      RootApproved db' 8 1 "fn_2" ctx q ap g := by
  have hok : ((beginLocalExecution claimedDb refundSession .functionCalls 4).bind fun db' =>
      assertLocalExecution (fun _ => false) 8 db' refundSession "fn_2").isOk = true := by
    decide +kernel
  obtain ⟨_, hok⟩ := exists_of_isOk hok
  obtain ⟨db', hbegin, hassert⟩ := bind_eq_ok.mp hok
  have hrows : ∃ q ∈ claimedDb.calls, ∃ t ∈ claimedDb.tasks,
      claimedDb.call? .functionCalls 4 = some q ∧ claimedDb.task? q.taskId = some t ∧
        refundSession.role = (pgRoleOf claimedDb.cfg t.agentId).getD "sandbox" := by
    decide +kernel
  have hagents : claimedDb.cfg.agents =
      [{ agentId := 1, name := "clerk", pgRole := some "allgres_agent_1" }] := by decide +kernel
  obtain ⟨q, -, t, -, hq, ht, hrole⟩ := hrows
  have he : Entered (fun _ => false) db' refundSession := by
    apply entered_of_begin hq ht hrole _ _ rfl hbegin
    · simp [hagents]
    · simp [hagents]
  have hroot : ((beginLocalExecution claimedDb refundSession .functionCalls 4).toOption.any
      fun db' => (localContext db' refundSession).any fun ctx =>
        db'.approvals.any (isApprovalOf ctx.taskId ctx.queue ctx.callId)) = true := by
    decide +kernel
  simp only [hbegin, Except.toOption, Option.any_some] at hroot
  obtain ⟨ctx, hctx, hany⟩ := (Option.any_eq_true _ _).mp hroot
  obtain ⟨b, hb, hof⟩ := List.any_eq_true.mp hany
  obtain ⟨a, rt, ham, -, -, -, -, -, happr⟩ :=
    assertLocalExecution_sound (fun _ => false) 8 db' refundSession "fn_2" he hassert
  have hcfg : db'.cfg = claimedDb.cfg := by
    obtain ⟨xid, -, -, -, hdb⟩ := beginLocalExecution_ok hq ht hbegin
    rw [hdb]
  have ha : a.agentId = 1 := by
    rw [hcfg, hagents] at ham
    rw [List.mem_singleton.mp ham]
  obtain ⟨ctx', q', ap, g, -, -, hroot'⟩ := happr (.inr ⟨ctx, hctx, b, hb, hof⟩)
  rw [ha] at hroot'
  exact ⟨db', ctx', q', ap, g, hbegin, hroot'⟩

end Allgres
