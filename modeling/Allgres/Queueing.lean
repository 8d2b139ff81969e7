import Allgres.SessionStates
import Allgres.StepBudget

/-! Where the rows of the queues come from. A row is the question to a model that a
dispatch asks, or the request of a step; and only the action `call_function` makes a
request to the outside that may change something there or has a key. -/

namespace Allgres

open Raise Rows Runs Allgres.Core

/-- A call that a state adds as its next row. -/
inductive QueuedBy (pg : Postgres) (now : Time) (G : Json → Prop) (db : Db) (q : Call) : Prop
  | asked {t : Task} {spec : LlmSpec} {o : Outbound} (ht : db.task? t.taskId = some t)
      (ho : buildLlmHttp db.cfg spec = .ok o)
      (hq : q.ident = (db.nextId, t.taskId, .outbound o))
  | stepped {t : Task} {a : Agent} {payload : Json} {s : Step} {req : Request} (hg : G payload)
      (ht : db.task? t.taskId = some t)
      (hs : Turn.payloadStep pg ⟨db, now, t, a, db.cfg.policy? t.agentId⟩ payload = .ok s)
      (hn : s.next = .queue req) (hq : q.ident = (db.nextId, t.taskId, req))

section Rows

variable {pg : Postgres} {now : Time} {G : Json → Prop} {db db' : Db}

theorem calls_maybeCompleteSession (db : Db) (sid : Uuid) (now : Time) :
    (db.maybeCompleteSession sid now).calls = db.calls :=
  congrArg Core.calls (Db.core_maybeCompleteSession db sid now)

/-- A step adds at most the call it asks for. -/
theorem applyNext_calls (db : Db) (t : Task) (next : Next) (now : Time) :
    (db.applyNext t next now).calls = db.calls ∨
      ∃ req, next = .queue req ∧
        (db.applyNext t next now).calls = (db.insertCall t.taskId req now).calls := by
  cases next with
  | queue req => exact .inr ⟨req, rfl, rfl⟩
  | delegate child wait => cases wait <;> exact .inl rfl
  | finalAnswer answer =>
    left
    simp only [Db.applyNext, calls_maybeCompleteSession]
    rfl
  | fail e =>
    left
    simp only [Db.applyNext, calls_maybeCompleteSession]
    rfl
  | _ => exact .inl rfl

theorem calls_cancelTasks (now : Time) (said : String) (ts : List Task) (db : Db) :
    (ts.foldl (Db.cancelTask now said) db).calls = db.calls := by
  induction ts generalizing db with
  | nil => rfl
  | cons t ts ih => exact ih (db.cancelTask now said t)

theorem mem_insertCall {q : Call} {i : Uuid} {req : Request}
    (h : q ∈ (db.insertCall i req now).calls) :
    q ∈ db.calls ∨ q.ident = (db.nextId, i, req) := by
  rcases List.mem_append.mp h with h | h
  · exact .inl h
  · obtain rfl := List.mem_singleton.mp h
    exact .inr rfl

theorem mem_update_ident {p : Call → Bool} {f : Call → Call} (hf : ∀ c, (f c).ident = c.ident)
    {q : Call} {cs : List Call} (h : q ∈ update p f cs) : ∃ r ∈ cs, r.ident = q.ident := by
  obtain ⟨r, hr, rfl⟩ := mem_update.mp h
  refine ⟨r, hr, ?_⟩
  split
  · exact (hf r).symm
  · rfl

/-- Every row of the queues was there before a write or is queued by it. -/
theorem Write.queued (h : Write pg now G db db') {q : Call} (hq : q ∈ db'.calls) :
    (∃ r ∈ db.calls, r.ident = q.ident) ∨ QueuedBy pg now G db q := by
  have hsame : db'.calls = db.calls →
      (∃ r ∈ db.calls, r.ident = q.ident) ∨ QueuedBy pg now G db q :=
    fun he => .inl ⟨q, he ▸ hq, rfl⟩
  cases h with
  | aside h => exact hsame h.calls
  | opened h =>
    obtain ⟨goal, rfl⟩ := fnCreateSession_eq h
    exact hsame rfl
  | continued h =>
    obtain ⟨s, goal, -, -, rfl⟩ := fnContinueSession_eq h
    exact hsame rfl
  | calls hf => exact .inl (mem_update_ident hf hq)
  | approvals _ => exact hsame rfl
  | approval _ => exact hsame rfl
  | task _ _ => exact hsame rfl
  | ended _ _ _ => exact hsame (calls_maybeCompleteSession _ _ _)
  | asked ht _ ho =>
    rcases mem_insertCall hq with hold | hnew
    · exact .inl ⟨q, hold, rfl⟩
    · exact .inr (.asked ht ho hnew)
  | @stepped t a payload s hg ht _ _ hs =>
    have hrec : (db.record t s now).calls = db.calls :=
      congrArg Core.calls (Db.core_record db t s now)
    rcases applyNext_calls (db.record t s now) t s.next now with he | ⟨req, hn, he⟩
    · exact hsame (he.trans hrec)
    · rw [he] at hq
      rcases mem_insertCall hq with hold | hnew
      · exact .inl ⟨q, hrec ▸ hold, rfl⟩
      · rw [record_nextId] at hnew
        exact .inr (.stepped hg ht hs hn hnew)
  | cancelled h =>
    unfold fnCancelSession at h
    obtain ⟨_, _, h⟩ := bind_eq_ok.mp h
    obtain ⟨rfl, -⟩ := Prod.mk.inj (Except.ok.inj h)
    obtain ⟨r, hr, hid⟩ := mem_update_ident (fun c => ident_lose c _ _) hq
    rw [calls_cancelTasks] at hr
    exact .inl ⟨r, hr, hid⟩

end Rows

/-- A request of the control plane itself, to a model or an embedding. -/
def Outbound.plain (o : Outbound) : Bool :=
  o.kind ≠ .function && o.kind ≠ .mcp && o.idempotencyKey = none

theorem plain_of_llm {c : Config} {spec : LlmSpec} :
    Returns (fun o => o.plain = true) (buildLlmHttp c spec) := by
  unfold buildLlmHttp
  split
  · exact returns_error _
  · split
    · exact returns_error _
    · split
      · exact returns_error _
      · dsimp only
        split
        · exact returns_error _
        · exact returns_seq fun body => returns_pure rfl

theorem not_plain_of_isMutation {o : Outbound} (h : isMutation o = true) : o.plain = false := by
  simp only [isMutation, Bool.and_eq_true, Bool.or_eq_true, decide_eq_true_eq] at h
  rcases h.1 with hk | hk <;> simp [Outbound.plain, hk]

def Calm (next : Next) : Prop :=
  ∀ o, next = .queue (.outbound o) → o.plain = true

section Actions

variable (pg : Postgres) (T : Turn) (v : Json)

theorem calm_again : Calm .again := by
  intro o h
  cases h

theorem embeddingQuery_calm {kind : OutboundKind} (hk : kind ≠ .function ∧ kind ≠ .mcp)
    (action : String) : Asking Calm (T.embeddingQuery v kind action) := by
  unfold Turn.embeddingQuery
  split
  · exact returns_error _
  · exact returns_error _
  · dsimp only
    split
    · exact returns_error _
    · refine returns_ok fun o ho => ?_
      injection ho with ho
      injection ho with ho
      rw [← ho]
      simp [Outbound.plain, hk]

/-- Every action but one is calm. -/
theorem act_calm {a : Action} (ha : a ≠ .callFunction) : Asking Calm (T.act pg a v) := by
  cases a with
  | finalAnswer =>
    rw [Turn.act]
    refine asking_orRefuse ?_
    unfold Turn.finalAnswer
    dsimp only
    split
    · exact returns_error _
    · exact returns_ok fun o h => by cases h
  | executeSql =>
    rw [Turn.act]
    refine asking_orRefuse ?_
    unfold Turn.executeSql
    split
    · exact returns_error _
    · exact returns_ok fun o h => by cases h
  | callFunction => exact absurd rfl ha
  | runProcedure =>
    rw [Turn.act]
    refine asking_orRefuse ?_
    unfold Turn.runProcedure
    dsimp only
    split
    · exact returns_error _
    · split
      · exact returns_error _
      · exact returns_ite (fun _ => returns_error _) fun _ => returns_ok fun o h => by cases h
  | delegate =>
    rw [Turn.act, Turn.delegate]
    exact returns_seq fun target => returns_seq fun wait => returns_pure fun o h => by cases h
  | searchAgents =>
    rw [Turn.act]
    exact asking_orRefuse (embeddingQuery_calm T v (by simp) _)
  | searchCapabilities =>
    rw [Turn.act]
    refine asking_orRefuse ?_
    unfold Turn.searchCapabilities
    exact returns_bind (embeddingQuery_calm T v (by simp) _) fun s hs => returns_pure hs
  | recallMemories =>
    rw [Turn.act]
    exact asking_orRefuse (embeddingQuery_calm T v (by simp) _)
  | awaitHuman =>
    rw [Turn.act]
    exact returns_ok fun o h => by cases h
  | proposeChange =>
    rw [Turn.act]
    exact T.proposeChange_again pg v calm_again
  | remember =>
    rw [Turn.act]
    exact T.remember_again pg v calm_again
  | createAgent =>
    rw [Turn.act]
    exact T.createAgent_again pg v calm_again
  | proposeFix =>
    rw [Turn.act]
    exact T.proposeFix_again pg v calm_again
  | awaitChildren =>
    rw [Turn.act]
    refine asking_orRefuse ?_
    unfold Turn.awaitChildren
    exact returns_ite (fun _ => returns_ok fun o h => by cases h) fun _ => returns_error _
  | createFunction =>
    rw [Turn.act]
    exact asking_orRefuse (T.createFunction_again pg v calm_again)
  | updateFunction =>
    rw [Turn.act]
    exact T.updateFunction_again pg v calm_again

end Actions

def callArgs (v : Json) : Json :=
  (v.get "args").getD (.object [])

/-- The request that the reply `v` makes: the function it names is resolved, the request
drafted, and its key found. -/
inductive Turn.Outgoing (T : Turn) (v : Json) : Outbound → Prop
  | mk {name : Option String} {args headers : Json} {bound : Option (Function × Option Uuid)}
      {d : Draft} {url : String}
      (hr : T.resolveFunction (v.text "function") (callArgs v) = .ok (.outgoing name args bound))
      (hd : T.draftCall name args (callArgs v) bound = .ok d) (hu : d.url = some url)
      (hh : T.operationHeaders v url d = .ok headers) :
      Turn.Outgoing T v (Turn.outboundOf d name bound url headers)

section Outgoing

variable {pg : Postgres} {T : Turn} {o : Outbound}

theorem callFunction_outgoing {v : Json} {s : Step} (h : T.callFunction v = .ok s)
    (hn : s.next = .queue (.outbound o)) : T.Outgoing v o := by
  unfold Turn.callFunction at h
  obtain ⟨callee, hr, h⟩ := bind_eq_ok.mp h
  cases callee with
  | plpgsql f =>
    have hreq : Asking (fun n => ∃ i j a, n = .queue (.function i j a))
        (T.queueFunction f (v.text "function") (callArgs v)) :=
      returns_ite (fun _ => returns_error _) fun _ => returns_ok ⟨_, _, _, rfl⟩
    obtain ⟨i, j, a, he⟩ := hreq s h
    rw [he] at hn
    cases hn
  | outgoing name args bound =>
    obtain ⟨d, url, headers, hd, hu, -, hh, he⟩ := T.outgoingCall_eq_ok v h
    rw [hn] at he
    injection he with he
    injection he with he
    rw [he]
    exact .mk hr hd hu hh

/-- A step that asks for another request has it from a reply. -/
theorem payloadStep_outgoing {payload : Json} {s : Step} (h : T.payloadStep pg payload = .ok s)
    (hn : s.next = .queue (.outbound o)) (hm : o.plain = false) :
    payload.text "type" = some "llm_response" ∧
      ∃ v, Turn.parsedReply payload = some v ∧ T.Outgoing v o := by
  unfold Turn.payloadStep at h
  dsimp only at h
  split_ifs at h with h1 h2 h3 h4
  · refine ⟨h1, ?_⟩
    unfold Turn.llmResponse at h
    obtain ⟨s₀, hs₀, h⟩ := bind_eq_ok.mp h
    obtain rfl := Except.ok.inj h
    dsimp only at hn
    cases hact : actionOf (Turn.parsedReply payload) with
    | none =>
      rw [hact] at hs₀
      obtain rfl := Except.ok.inj hs₀
      cases hn
    | some av =>
      obtain ⟨a, v⟩ := av
      rw [hact] at hs₀
      have hv : Turn.parsedReply payload = some v := by
        unfold actionOf at hact
        simp only [Option.bind_eq_bind, Option.bind_eq_some_iff, Option.pure_def,
          Option.some.injEq, Prod.mk.injEq] at hact
        obtain ⟨w, hw, -, -, -, -, -, rfl⟩ := hact
        exact hw
      refine ⟨v, hv, ?_⟩
      dsimp only at hs₀
      cases hres : T.act pg a v with
      | error halt =>
        rw [hres] at hs₀
        cases halt with
        | refuse r =>
          obtain rfl := Except.ok.inj hs₀
          cases hn
        | raise e => cases hs₀
      | ok s₁ =>
        rw [hres] at hs₀
        obtain rfl := Except.ok.inj hs₀
        have ha : a = .callFunction := by
          by_contra hne
          have := act_calm pg T v hne _ hres o hn
          rw [hm] at this
          cases this
        rw [ha, Turn.act] at hres
        cases hcall : T.callFunction v with
        | error r =>
          rw [hcall] at hres
          cases hres
        | ok s₂ =>
          rw [hcall] at hres
          obtain rfl : s₂ = s₁ := by simpa [orRefuse] using hres
          exact callFunction_outgoing hcall hn
  · obtain rfl := Except.ok.inj h
    rcases errorStep_next T payload with he | ⟨m, he⟩
    · rw [he] at hn
      cases hn
    · rw [he] at hn
      cases hn
  · obtain rfl := Except.ok.inj h
    cases hn
  · obtain rfl := Except.ok.inj h
    cases hn
  · obtain rfl := Except.ok.inj h
    cases hn

end Outgoing

/-- A row of a queue that an event or a write adds. -/
def NewCall (db db' : Db) (q : Call) : Prop :=
  q ∈ db'.calls ∧ ∀ r ∈ db.calls, r.callId ≠ q.callId

/-- The reply of an agent that an operation brings. -/
def Op.reply : Op → Option Json
  | .submit _ payload =>
    if payload.text "type" = some "llm_response" then Turn.parsedReply payload else none
  | .completeOutbound _ _ body => extractFirstJson (llmTextFromHttp body)
  | _ => none

/-- A request is queued in a turn. The turn sees the rows of the state before its event,
but for the model call that the event completes. -/
structure QueuedFrom (db : Db) (v : Json) (q : Call) (o : Outbound) (T : Turn) : Prop where
  row : q.ident = (T.db.nextId, T.task.taskId, .outbound o)
  outgoing : T.Outgoing v o
  calls : ∀ p ∈ T.db.calls, p ∈ db.calls ∨ ∃ r ∈ db.calls, r.ident = p.ident ∧ r.req.isLlm = true
  functions : T.cfg.functions = db.cfg.functions
  nextId : T.db.nextId = db.nextId

section Events

variable {pg : Postgres} {now : Time} {G : Json → Prop} {db d db' : Db} {q : Call} {o : Outbound}

theorem NewCall.not_old (h : NewCall db db' q) : ¬ ∃ r ∈ db.calls, r.ident = q.ident := by
  rintro ⟨r, hr, hid⟩
  exact h.2 r hr (congrArg (·.1) hid)

/-- Another request than one of the control plane is queued by the reply of an agent. -/
theorem QueuedBy.outgoing (h : QueuedBy pg now G db q) (ho : q.req = .outbound o)
    (hp : o.plain = false) :
    ∃ (v payload : Json) (T : Turn), G payload ∧ payload.text "type" = some "llm_response" ∧
      Turn.parsedReply payload = some v ∧ T.db = db ∧
      q.ident = (db.nextId, T.task.taskId, .outbound o) ∧ T.Outgoing v o := by
  cases h with
  | @asked t spec o' _ hb hid =>
    have hreq : q.req = .outbound o' := congrArg (·.2.2) hid
    obtain rfl : o = o' := by
      rw [ho] at hreq
      injection hreq
    have hplain : o.plain = true := plain_of_llm _ hb
    rw [hp] at hplain
    cases hplain
  | @stepped t a payload s req hg ht hs hn hid =>
    obtain rfl : q.req = req := congrArg (·.2.2) hid
    rw [ho] at hn hid
    obtain ⟨htype, v, hv, hout⟩ := payloadStep_outgoing hs hn hp
    exact ⟨v, payload, _, hg, htype, hv, rfl, hid, hout⟩

theorem Writes.queued (h : Writes pg now G db db') (hq : NewCall db db' q)
    (ho : q.req = .outbound o) (hp : o.plain = false) :
    ∃ payload, G payload ∧ payload.text "type" = some "llm_response" := by
  induction h generalizing q with
  | refl => exact absurd rfl (hq.2 q hq.1)
  | @tail d d' _ hm ih =>
    rcases hm.queued hq.1 with ⟨r, hr, hid⟩ | hnew
    · have hcall : r.callId = q.callId := congrArg (·.1) hid
      have hreq : r.req = q.req := congrArg (·.2.2) hid
      exact ih ⟨hr, fun r' hr' he => hq.2 r' hr' (he.trans hcall)⟩ (hreq.trans ho)
    · obtain ⟨-, payload, -, hg, htype, -⟩ := hnew.outgoing ho hp
      exact ⟨payload, hg, htype⟩

/-- What a submit adds, it adds in the state it finds. -/
theorem fnSubmitResult_queued {i : Uuid} {payload result : Json}
    (h : fnSubmitResult pg now d i payload = .ok (db', result)) (hq : NewCall d db' q)
    (ho : q.req = .outbound o) (hp : o.plain = false) :
    ∃ (v : Json) (T : Turn), payload.text "type" = some "llm_response" ∧
      Turn.parsedReply payload = some v ∧ T.db = d ∧
      q.ident = (d.nextId, T.task.taskId, .outbound o) ∧ T.Outgoing v o := by
  obtain ⟨t, ht, -, hr, ⟨e, c, rfl⟩ | ⟨a, s, ha, hs, rfl⟩⟩ := fnSubmitResult_cases h
  · have hcalls : (d.failTask t e c now).calls = d.calls := by
      unfold Db.failTask
      dsimp only
      rw [calls_maybeCompleteSession]
      rfl
    exact absurd ⟨q, hcalls ▸ hq.1, rfl⟩ hq.not_old
  · have hwrite : Write pg now (fun p => p = payload) d ((d.record t s now).applyNext t s.next now) :=
      .stepped rfl ht hr ha hs
    obtain ⟨v, p, T, rfl, htype, hv, hT, hid, hout⟩ :=
      ((hwrite.queued hq.1).resolve_left hq.not_old).outgoing ho hp
    exact ⟨v, T, htype, hv, hT, hid, hout⟩

theorem submitIfRunning_queued {i : Uuid} {payload : Json}
    (hq : NewCall d (submitIfRunning pg now d i payload).1 q) (ho : q.req = .outbound o)
    (hp : o.plain = false) :
    ∃ (v : Json) (T : Turn), payload.text "type" = some "llm_response" ∧
      Turn.parsedReply payload = some v ∧ T.db = d ∧
      q.ident = (d.nextId, T.task.taskId, .outbound o) ∧ T.Outgoing v o := by
  unfold submitIfRunning at hq
  split at hq
  · split at hq
    · rename_i h
      exact fnSubmitResult_queued h hq ho hp
    · exact absurd rfl (hq.2 q hq.1)
  · exact absurd rfl (hq.2 q hq.1)

theorem NewCall.congr {d' : Db} (h : NewCall db db' q)
    (hold : ∀ p ∈ d.calls, ∃ r ∈ db.calls, r.ident = p.ident)
    (hnew : ∀ p ∈ db'.calls, ∃ r ∈ d'.calls, r.ident = p.ident) :
    ∃ q', q'.ident = q.ident ∧ NewCall d d' q' := by
  obtain ⟨q', hq', hid⟩ := hnew q h.1
  refine ⟨q', hid, hq', fun p hp he => ?_⟩
  obtain ⟨r, hr, hri⟩ := hold p hp
  have h1 : r.callId = p.callId := congrArg (·.1) hri
  have h2 : q'.callId = q.callId := congrArg (·.1) hid
  exact h.2 r hr ((h1.trans he).trans h2)

/-- What reading the reply of a model does to the rows. -/
theorem completeLlmKind_rows (db : Db) (c : Call) (o : Outbound) (status : Option Int)
    (body : Option String) :
    let d := (completeLlmKind db c o status body).1
    (∀ p ∈ d.calls, ∃ r ∈ db.calls, r.ident = p.ident ∧ (p = r ∨ r.callId = c.callId)) ∧
      d.cfg.functions = db.cfg.functions ∧ d.nextId = db.nextId := by
  have hupdate : ∀ {f : Call → Call}, (∀ r, (f r).ident = r.ident) →
      ∀ p ∈ (db.updateCall c.callId f).calls,
        ∃ r ∈ db.calls, r.ident = p.ident ∧ (p = r ∨ r.callId = c.callId) := by
    intro f hf p hp
    obtain ⟨r, hr, rfl⟩ := mem_update.mp hp
    refine ⟨r, hr, ?_⟩
    split
    · rename_i h
      exact ⟨(hf r).symm, .inr (by simpa using h)⟩
    · exact ⟨rfl, .inl rfl⟩
  have hself : ∀ p ∈ db.calls, ∃ r ∈ db.calls, r.ident = p.ident ∧ (p = r ∨ r.callId = c.callId) :=
    fun p hp => ⟨p, hp, rfl, .inl rfl⟩
  unfold completeLlmKind
  dsimp only
  split_ifs
  · split
    · exact ⟨hupdate fun _ => rfl, rfl, rfl⟩
    · exact ⟨hupdate fun _ => rfl, rfl, rfl⟩
  · exact ⟨hself, rfl, rfl⟩
  · exact ⟨hself, rfl, rfl⟩

theorem completeLlmKind_payload (db : Db) (c : Call) (o : Outbound) (status : Option Int)
    (body : Option String) :
    (completeLlmKind db c o status body).2 = llmPayload body ∨
      (completeLlmKind db c o status body).2.text "type" ≠ some "llm_response" := by
  unfold completeLlmKind
  dsimp only
  split_ifs
  · left
    split <;> rfl
  · exact .inr (errorPayload_ne _)
  · exact .inr (errorPayload_ne _)

theorem completeOutbound_queued {e : Event} {id : Uuid} {status : Option Int}
    {body : Option String} (hw : db.core.WellFormed) (hop : e.op = .completeOutbound id status body)
    (he : perform pg e.now db e.op = .ok db') (hq : NewCall db db' q)
    (ho : q.req = .outbound o) (hp : o.plain = false) :
    ∃ v T, e.op.reply = some v ∧ QueuedFrom db v q o T := by
  rw [hop] at he
  obtain ⟨result, he⟩ := map_fst_eq_ok he
  unfold fnCompleteOutbound at he
  split at he
  · cases he
  rename_i c hc
  obtain ⟨hcm, -, -⟩ := call?_mem hc
  split at he
  · obtain ⟨rfl, -⟩ := by simpa using he
    exact absurd rfl (hq.2 q hq.1)
  split at he
  · rename_i oc hoc
    by_cases hk : oc.kind = .llm
    · unfold harvestOutbound at he
      rw [if_neg (by simp [isAmbiguous, isMutation, hk])] at he
      obtain ⟨⟨d, payload⟩, hkind, he⟩ := bind_eq_ok.mp he
      obtain ⟨rfl, -⟩ := by simpa [pure, Except.pure] using he
      unfold completeKind at hkind
      rw [hk] at hkind
      let harvested := db.harvestResponse c.callId status body e.now
      have hd : completeLlmKind harvested c oc status body = (d, payload) := Except.ok.inj hkind
      obtain ⟨hrows, hfun, hnext⟩ := completeLlmKind_rows harvested c oc status body
      have hpay := completeLlmKind_payload harvested c oc status body
      rw [hd] at hrows hfun hnext hpay
      have hharv : ∀ r ∈ harvested.calls, ∃ r₀ ∈ db.calls, r₀.ident = r.ident ∧
          (r = r₀ ∨ r₀.callId = c.callId) := by
        intro r hr
        obtain ⟨r₀, hr₀, rfl⟩ := mem_update.mp hr
        refine ⟨r₀, hr₀, ?_⟩
        split
        · rename_i h
          exact ⟨rfl, .inr (by simpa using h)⟩
        · exact ⟨rfl, .inl rfl⟩
      have hcalls : ∀ p ∈ d.calls, p ∈ db.calls ∨
          ∃ r ∈ db.calls, r.ident = p.ident ∧ r.req.isLlm = true := by
        intro p hpm
        obtain ⟨r, hr, hri, hpr⟩ := hrows p hpm
        obtain ⟨r₀, hr₀, hr₀i, hrr⟩ := hharv r hr
        have hllm : r₀.callId = c.callId → r₀.req.isLlm = true := by
          intro h
          rw [eq_of_key Call.callId hw.callIds hr₀ hcm h, hoc]
          simp [Request.isLlm, hk]
        rcases hrr with rfl | h
        · rcases hpr with rfl | h
          · exact .inl hr₀
          · exact .inr ⟨r, hr₀, hri, hllm h⟩
        · exact .inr ⟨r₀, hr₀, hr₀i.trans hri, hllm h⟩
      have hold : ∀ p ∈ d.calls, ∃ r ∈ db.calls, r.ident = p.ident := by
        intro p hpm
        rcases hcalls p hpm with h | ⟨r, hr, hri, -⟩
        · exact ⟨p, h, rfl⟩
        · exact ⟨r, hr, hri⟩
      have hscore : ∀ p ∈ (scoreOutcome (submitIfRunning pg e.now d c.taskId payload).1 c oc
          (submitIfRunning pg e.now d c.taskId payload).2).calls,
          ∃ r ∈ (submitIfRunning pg e.now d c.taskId payload).1.calls, r.ident = p.ident := by
        intro p hpm
        unfold scoreOutcome at hpm
        split at hpm
        · refine mem_update_ident ?_ hpm
          exact fun _ => rfl
        · exact ⟨p, hpm, rfl⟩
      obtain ⟨q', hid, hq'⟩ := hq.congr hold hscore
      have hreq : q'.req = q.req := congrArg (·.2.2) hid
      obtain ⟨v, T, htype, hv, rfl, hrow, hout⟩ :=
        submitIfRunning_queued hq' (hreq.trans ho) hp
      have hbody : payload = llmPayload body := hpay.resolve_right fun h => h htype
      refine ⟨v, T, ?_, hid.symm.trans hrow, hout, hcalls, hfun, hnext⟩
      rw [hop, Op.reply, ← parsedReply_llmPayload, ← hbody, hv]
    · have hwr : Writes pg e.now (fun p => p.text "type" ≠ some "llm_response") db db' := by
        refine harvestOutbound_writes (fun d p hd => ?_) hw he
        exact (completeKind_reads hd).2 (by simpa using hk)
      obtain ⟨payload, hne, htype⟩ := hwr.queued hq ho hp
      exact absurd htype hne
  · cases he

/-- An event that queues another request than one of the control plane brings a reply. -/
theorem step_queued (pg : Postgres) (hw : db.core.WellFormed) (e : Event)
    (hq : NewCall db (step pg db e) q) (ho : q.req = .outbound o) (hp : o.plain = false) :
    ∃ v T, e.op.reply = some v ∧ QueuedFrom db v q o T := by
  rcases step_cases pg db e with he | he
  · rw [he] at hq
    exact absurd rfl (hq.2 q hq.1)
  have hnone : (∀ p, e.op.submits p → p.text "type" ≠ some "llm_response") →
      ∃ v T, e.op.reply = some v ∧ QueuedFrom db v q o T := by
    intro hG
    obtain ⟨payload, hg, htype⟩ := (step_writes pg e hw).queued hq ho hp
    exact absurd htype (hG payload hg)
  have herror : (∀ p, e.op.submits p → ∃ m, p = errorPayload m) →
      ∃ v T, e.op.reply = some v ∧ QueuedFrom db v q o T := by
    intro hG
    refine hnone fun p hp => ?_
    obtain ⟨m, rfl⟩ := hG p hp
    exact errorPayload_ne m
  cases hop : e.op with
  | submit i payload =>
    rw [hop] at he
    obtain ⟨result, he⟩ := map_fst_eq_ok he
    obtain ⟨v, T, htype, hv, rfl, hrow, hout⟩ := fnSubmitResult_queued he hq ho hp
    refine ⟨v, T, ?_, hrow, hout, fun p hp => .inl hp, rfl, rfl⟩
    rw [Op.reply, if_pos htype, hv]
  | completeOutbound id status body =>
    rw [← hop]
    exact completeOutbound_queued hw hop he hq ho hp
  | completeLocal queue id r =>
    rw [hop] at he
    obtain ⟨result, he⟩ := map_fst_eq_ok he
    have hwr : Writes pg e.now (fun p => p.text "type" ≠ some "llm_response") db (step pg db e) :=
      fnCompleteLocal_writes (fun p hp => hp) hw he
    obtain ⟨payload, hne, htype⟩ := hwr.queued hq ho hp
    exact absurd htype hne
  | dispatch roll locked =>
    rw [← hop]
    exact herror (by simp [hop, Op.submits])
  | watchdog seconds locked =>
    rw [← hop]
    exact herror (by simp [hop, Op.submits])
  | _ =>
    rw [← hop]
    exact hnone (by simp [hop, Op.submits])

end Events

end Allgres
