import Allgres.CapabilityOutcomes
import Allgres.Queueing
import Allgres.Responses

/-! The outcomes of capabilities over whole runs. A call of a function that is published selects
the event that presented it; no other operation touches the event before the call completes; and
the completion finds the event and gives it the result of the call. -/

namespace Allgres

open Raise Rows Runs Allgres.Core

section Beside

variable {pg : Postgres} {now : Time} {db : Db} {e : Event} {v : SearchEvent}

/-- Only submitted results and completions write search events. -/
theorem perform_events {op : Op} (hsubmit : ∀ i payload, op ≠ .submit i payload) (hcomplete : op.completes = none) :
    Returns (fun d => d.events = db.events) (perform pg now db op) := by
  intro d hd
  cases op with
  | createSession agentId goal projectId scheduleId =>
    obtain ⟨r, hr⟩ := map_fst_eq_ok hd
    exact fnCreateSession_events _ hr
  | continueSession sessionId message =>
    obtain ⟨r, hr⟩ := map_fst_eq_ok hd
    exact fnContinueSession_events _ hr
  | dispatch roll locked =>
    obtain ⟨r, hr⟩ := map_fst_eq_ok hd
    exact dispatchLoop_events pg now roll _ _ db _ hr
  | submit i payload => exact absurd rfl (hsubmit i payload)
  | claim queue limit fallback locked =>
    obtain rfl := Except.ok.inj hd
    exact claimLoop_events pg now queue fallback _ db
  | completeOutbound id status body => cases hcomplete
  | completeLocal queue id r => cases hcomplete
  | watchdog seconds locked =>
    obtain rfl := Except.ok.inj hd
    exact fnWatchdog_events pg now db seconds locked
  | decideApproval id accept reply =>
    obtain ⟨r, hr⟩ := map_fst_eq_ok hd
    exact fnDecideApproval_events now id accept reply _ hr
  | cancelSession sid reason =>
    obtain ⟨r, hr⟩ := map_fst_eq_ok hd
    exact fnCancelSession_events now sid reason _ hr
  | edit change =>
    obtain rfl := Except.ok.inj hd
    rfl

theorem completing_some {q : Call} (h : db.completing e.op = some q) :
    ∃ k, e.op.completes = some k ∧ db.call? k.1 k.2 = some q ∧ q.status = .inFlight := by
  obtain ⟨hq, hflight⟩ := Option.filter_eq_some_iff.mp h
  obtain ⟨k, hk, hcall⟩ := Option.bind_eq_some_iff.mp hq
  exact ⟨k, hk, hcall, of_decide_eq_true hflight⟩

/-- An event that is selected changes only when a call of its task completes. -/
theorem step_kept (pg : Postgres) (hw : db.core.WellFormed) (h : Stamped db) (e : Event) :
    Stamped (step pg db e) ∧ ∀ v ∈ db.events, v.outcome = .selected →
      (∀ q ∈ db.completing e.op, v.taskId ≠ some q.taskId) → v ∈ (step pg db e).events := by
  have hn : db.nextId ≤ (step pg db e).nextId := (step_grow pg hw e).nextId
  rcases step_cases pg db e with he | he
  · rw [he]
    exact ⟨h, fun v hv _ _ => hv⟩
  have hsame : (step pg db e).events = db.events → Stamped (step pg db e) ∧ ∀ v ∈ db.events,
      v.outcome = .selected → (∀ q ∈ db.completing e.op, v.taskId ≠ some q.taskId) → v ∈ (step pg db e).events :=
    fun hevents => ⟨h.of_events hevents hn, fun v hv _ _ => hevents ▸ hv⟩
  have hbeside : ∀ q, db.completing e.op = some q → Beside q.taskId db (step pg db e) →
      Stamped (step pg db e) ∧ ∀ v ∈ db.events, v.outcome = .selected →
        (∀ q ∈ db.completing e.op, v.taskId ≠ some q.taskId) → v ∈ (step pg db e).events :=
    fun q hq hb => ⟨hb.stamped, fun v hv _ hne => hb.others v hv (hne q hq)⟩
  obtain ⟨now, op⟩ := e
  have hcalm : (∀ i payload, op ≠ .submit i payload) → op.completes = none → _ :=
    fun hs hc => hsame (perform_events hs hc _ he)
  cases op with
  | submit i payload =>
    obtain ⟨r, hr⟩ := map_fst_eq_ok he
    have hsel : Selecting i db (step pg db ⟨now, .submit i payload⟩) := fnSubmitResult_selecting hw h _ hr
    exact ⟨hsel.stamped, fun v hv hsv _ => hsel.chosen v hv (by simp [hsv])⟩
  | completeOutbound id status body =>
    obtain ⟨r, hr⟩ := map_fst_eq_ok he
    rw [fnCompleteOutbound] at hr
    cases hq : db.call? .outboundCalls id with
    | none =>
      rw [hq] at hr
      cases hr
    | some q =>
      rw [hq] at hr
      dsimp only at hr
      split at hr
      · exact hsame (congrArg (·.1.events) (Except.ok.inj hr)).symm
      · rename_i hflight
        split at hr
        · refine hbeside q ?_ (harvestOutbound_beside hw h _ hr)
          simpa [Db.completing, Op.completes, hq] using hflight
        · cases hr
  | completeLocal queue id result =>
    obtain ⟨r, hr⟩ := map_fst_eq_ok he
    cases hq : db.call? queue id with
    | none =>
      rw [fnCompleteLocal, hq] at hr
      cases hr
    | some q =>
      have hb := fnCompleteLocal_beside h hw hq _ hr
      by_cases hflight : q.status = .inFlight
      · refine hbeside q ?_ hb
        simpa [Db.completing, Op.completes, hq] using hflight
      · rw [fnCompleteLocal, hq] at hr
        dsimp only at hr
        rw [if_pos hflight] at hr
        exact hsame (congrArg (·.1.events) (Except.ok.inj hr)).symm
  | _ => exact hcalm (fun _ _ h => by cases h) rfl

end Beside

section Selecting

variable {pg : Postgres} {now : Time} {G : Json → Prop} {db d d' : Db} {q : Call} {id agent : Uuid}
  {args : Json}

/-- A call of a function was queued in a state: the latest presented event of its task was looked
up there, under the name of the function. -/
def Selected (db d : Db) (q : Call) (id : Uuid) : Prop :=
  ∃ f ∈ db.cfg.functions, f.functionId = id ∧
    d.events = (markCapabilitySelected db q.taskId .function (some f.name)).events

theorem mem_newCalls {db' : Db} : q ∈ db.newCalls db' ↔ NewCall db db' q := by
  simp only [Db.newCalls, NewCall, List.mem_filter, List.all_eq_true, bne_iff_ne]

theorem fnSubmitResult_selected {i : Uuid} {payload result : Json}
    (h : fnSubmitResult pg now d i payload = .ok (d', result)) (hq : NewCall d d' q)
    (hreq : q.req = .function id agent args) :
    payload.text "type" = some "llm_response" ∧ Selected d d' q id := by
  obtain ⟨t, -, -, -, ⟨e, v, rfl⟩ | ⟨a, s, -, hs, rfl⟩⟩ := fnSubmitResult_cases h
  · have hcalls : (d.failTask t e v now).calls = d.calls :=
      (calls_maybeCompleteSession _ _ _).trans rfl
    exact absurd ⟨q, hcalls ▸ hq.1, rfl⟩ hq.not_old
  · have hrec : (d.record t s now).calls = d.calls := congrArg Core.calls (Db.core_record d t s now)
    rcases applyNext_calls (d.record t s now) t s.next now with he | ⟨req, hnext, he⟩
    · exact absurd ⟨q, (he.trans hrec) ▸ hq.1, rfl⟩ hq.not_old
    have hmem := he ▸ hq.1
    rcases mem_insertCall hmem with hold | hid
    · exact absurd ⟨q, hrec ▸ hold, rfl⟩ hq.not_old
    obtain ⟨-, htask, hqreq⟩ : q.callId = _ ∧ q.taskId = t.taskId ∧ q.req = req := by
      simpa only [Call.ident, Prod.mk.injEq] using hid
    obtain rfl := hqreq.symm.trans hreq
    have htype : payload.text "type" = some "llm_response" := by
      by_contra hne
      exact (Turn.payloadStep_plain pg _ hne s hs).next _ hnext
    obtain ⟨hcfg, f, hf, hfid, hsel⟩ := Turn.payloadStep_chooses pg _ payload s hs id agent args hnext
    refine ⟨htype, f, hf, hfid, ?_⟩
    rw [applyNext_events, record_events, hsel, hcfg, htask]
    rfl

theorem submitIfRunning_selected {i : Uuid} {payload : Json}
    (hq : NewCall d (submitIfRunning pg now d i payload).1 q) (hreq : q.req = .function id agent args) :
    payload.text "type" = some "llm_response" ∧
      Selected d (submitIfRunning pg now d i payload).1 q id := by
  have hnone : ¬ NewCall d d q := fun h => h.2 q h.1 rfl
  unfold submitIfRunning at hq ⊢
  split at hq
  · rename_i hrun
    rw [if_pos hrun]
    split at hq
    · rename_i h
      exact fnSubmitResult_selected h hq hreq
    · exact absurd hq hnone
  · exact absurd hq hnone

/-- Where a write queues a call of a function, a reply is submitted. -/
theorem QueuedBy.replied (h : QueuedBy pg now G db q) (hreq : q.req = .function id agent args) :
    ∃ payload, G payload ∧ payload.text "type" = some "llm_response" := by
  cases h with
  | @asked t spec o _ ho hid =>
    have hout : q.req = .outbound o := congrArg (·.2.2) hid
    rw [hreq] at hout
    cases hout
  | @stepped t a payload s req hg _ hs hn hid =>
    refine ⟨payload, hg, ?_⟩
    by_contra hne
    exact (Turn.payloadStep_plain pg _ hne s hs).next _ hn

theorem writes_replied (h : Writes pg now G db d) (hq : NewCall db d q)
    (hreq : q.req = .function id agent args) :
    ∃ payload, G payload ∧ payload.text "type" = some "llm_response" := by
  induction h generalizing q with
  | refl => exact absurd rfl (hq.2 q hq.1)
  | @tail d d' _ hm ih =>
    rcases hm.queued hq.1 with ⟨r, hr, hid⟩ | hnew
    · have hcall : r.callId = q.callId := congrArg (·.1) hid
      have hrow : r.req = q.req := congrArg (·.2.2) hid
      exact ih ⟨hr, fun r' hr' he => hq.2 r' hr' (he.trans hcall)⟩ (hrow.trans hreq)
    · exact hnew.replied hreq

/-- Reading a reply leaves the events and the index alone. -/
theorem completeLlmKind_index (db : Db) (c : Call) (o : Outbound) (status : Option Int) (body : Option String) :
    (completeLlmKind db c o status body).1.events = db.events ∧
      (completeLlmKind db c o status body).1.cfg.capabilities = db.cfg.capabilities := by
  unfold completeLlmKind
  dsimp only
  split_ifs
  · split <;> exact ⟨rfl, rfl⟩
  · exact ⟨rfl, rfl⟩
  · exact ⟨rfl, rfl⟩

end Selecting

section Marks

variable {pg : Postgres} {now : Time} {db d d' : Db} {q : Call} {id agent : Uuid} {args : Json}

/-- The event of an execution is selected for a task. -/
def SelectedFor (db : Db) (t : Uuid) (x : Execution) : Prop :=
  ∃ v ∈ db.events, v.eventId = x.eventId ∧ v.selectedCapabilityId = some x.capabilityId ∧
    v.outcome = .selected ∧ v.taskId = some t

theorem SelectedFor.marks {t : Uuid} {x : Execution} (h : SelectedFor db t x) : db.Marks x .selected := by
  obtain ⟨v, hv, hid, hsel, hout, -⟩ := h
  exact ⟨v, hv, hid, hsel, hout⟩

/-- What the selection of a function reads of a state. -/
structure SameIndex (db d : Db) : Prop where
  events : d.events = db.events
  capabilities : d.cfg.capabilities = db.cfg.capabilities
  functions : d.cfg.functions = db.cfg.functions

theorem mem_executionsOf {x : Execution} (h : x ∈ db.executionsOf q) :
    ∃ v, db.presentedEvent q.taskId = some v ∧ x.callId = q.callId ∧ x.eventId = v.eventId := by
  unfold Db.executionsOf at h
  split at h
  · rename_i v hv
    obtain ⟨k, -, rfl⟩ := List.mem_map.mp h
    exact ⟨v, hv, rfl, rfl⟩
  · cases h

theorem Selected.marked {x : Execution} (h : Selected d d' q id) (hsame : SameIndex db d)
    (hreq : q.req = .function id agent args) (hx : x ∈ db.executionsOf q)
    (hex : executable db.cfg q x = true) : SelectedFor d' q.taskId x := by
  obtain ⟨f, hf, hfid, hevents⟩ := h
  obtain ⟨v, hv, -, hxv⟩ := mem_executionsOf hx
  have hpub : ∀ f ∈ db.cfg.functions, f.functionId = id → publishedAs db.cfg f.name = some x.capabilityId := by
    simpa [executable, hreq, or_iff_not_imp_left] using hex
  have hpresented : d.presentedEvent q.taskId = some v := by
    unfold Db.presentedEvent
    rw [hsame.events]
    exact hv
  have hpublished : publishedAs d.cfg f.name = some x.capabilityId := by
    unfold publishedAs
    rw [hsame.capabilities]
    exact hpub f (hsame.functions ▸ hf) hfid
  obtain ⟨v', hv', hid, hsel, hout, htask⟩ := markCapabilitySelected_marks hpresented hpublished
  exact ⟨v', hevents ▸ hv', hid.trans hxv.symm, hsel, hout, htask⟩

theorem completeOutbound_selected {callId : Uuid} {status : Option Int} {body : Option String} {result : Json}
    (hw : db.core.WellFormed) (h : fnCompleteOutbound pg now db callId status body = .ok (d', result))
    (hq : NewCall db d' q) (hreq : q.req = .function id agent args) :
    ∃ d, SameIndex db d ∧ Selected d d' q id := by
  have hwrites : ∀ {o c}, c.req = .outbound o → o.kind ≠ .llm →
      harvestOutbound pg now db c o status body = .ok (d', result) → ∃ d, SameIndex db d ∧ Selected d d' q id := by
    intro o c hc hk hh
    have hwr : Writes pg now (fun p => p.text "type" ≠ some "llm_response") db d' := by
      refine harvestOutbound_writes (fun d p hd => ?_) hw hh
      exact (completeKind_reads hd).2 (by simpa using hk)
    obtain ⟨payload, hne, htype⟩ := writes_replied hwr hq hreq
    exact absurd htype hne
  unfold fnCompleteOutbound at h
  split at h
  · cases h
  rename_i c hc
  split at h
  · obtain rfl := congrArg (·.1) (Except.ok.inj h)
    exact absurd rfl (hq.2 q hq.1)
  split at h
  · rename_i o ho
    by_cases hk : o.kind = .llm
    · unfold harvestOutbound at h
      rw [if_neg (by simp [isAmbiguous, isMutation, hk])] at h
      obtain ⟨⟨d, payload⟩, hkind, h⟩ := bind_eq_ok.mp h
      obtain rfl := congrArg (·.1) (Except.ok.inj h)
      unfold completeKind at hkind
      rw [hk] at hkind
      let harvested := db.harvestResponse c.callId status body now
      have hd : completeLlmKind harvested c o status body = (d, payload) := Except.ok.inj hkind
      obtain ⟨hrows, hfun, -⟩ := completeLlmKind_rows harvested c o status body
      obtain ⟨hevents, hcaps⟩ := completeLlmKind_index harvested c o status body
      rw [hd] at hrows hfun hevents hcaps
      have hold : ∀ p ∈ d.calls, ∃ r ∈ db.calls, r.ident = p.ident := by
        intro p hp
        obtain ⟨r, hr, hri, -⟩ := hrows p hp
        have hrow : ∃ r₀ ∈ db.calls, r₀.ident = r.ident := by
          refine mem_update_ident ?_ hr
          exact fun _ => rfl
        obtain ⟨r₀, hr₀, hr₀i⟩ := hrow
        exact ⟨r₀, hr₀, hr₀i.trans hri⟩
      let submitted := submitIfRunning pg now d c.taskId payload
      have hscored : (scoreOutcome submitted.1 c o submitted.2).events = submitted.1.events := by
        unfold scoreOutcome
        split <;> rfl
      have hscore : ∀ p ∈ (scoreOutcome submitted.1 c o submitted.2).calls,
          ∃ r ∈ submitted.1.calls, r.ident = p.ident := by
        intro p hp
        unfold scoreOutcome at hp
        split at hp
        · refine mem_update_ident ?_ hp
          exact fun _ => rfl
        · exact ⟨p, hp, rfl⟩
      obtain ⟨q', hid, hq'⟩ := hq.congr hold hscore
      have hreq' : q'.req = q.req := congrArg (·.2.2) hid
      have htask : q'.taskId = q.taskId := congrArg (·.2.1) hid
      obtain ⟨-, f, hf, hfid, hsel⟩ := submitIfRunning_selected hq' (hreq'.trans hreq)
      exact ⟨d, ⟨hevents, hcaps, hfun⟩, f, hf, hfid, by rw [← htask, ← hsel]; exact hscored⟩
    · exact hwrites ho hk h
  · cases h

/-- A call of a published function that is queued selects the event that presented it. -/
theorem step_selected (pg : Postgres) (hw : db.core.WellFormed) (e : Event) (hq : NewCall db (step pg db e) q)
    (hreq : q.req = .function id agent args) : ∃ d, SameIndex db d ∧ Selected d (step pg db e) q id := by
  rcases step_cases pg db e with he | he
  · rw [he] at hq
    exact absurd rfl (hq.2 q hq.1)
  have hnone : (∀ p, e.op.submits p → p.text "type" ≠ some "llm_response") →
      ∃ d, SameIndex db d ∧ Selected d (step pg db e) q id := by
    intro hG
    obtain ⟨payload, hg, htype⟩ := writes_replied (step_writes pg e hw) hq hreq
    exact absurd htype (hG payload hg)
  have herror : (∀ p, e.op.submits p → ∃ m, p = errorPayload m) →
      ∃ d, SameIndex db d ∧ Selected d (step pg db e) q id := by
    intro hG
    refine hnone fun p hp => ?_
    obtain ⟨m, rfl⟩ := hG p hp
    exact errorPayload_noReply m
  obtain ⟨now, op⟩ := e
  cases op with
  | submit i payload =>
    obtain ⟨result, hr⟩ := map_fst_eq_ok he
    exact ⟨db, ⟨rfl, rfl, rfl⟩, (fnSubmitResult_selected hr hq hreq).2⟩
  | completeOutbound callId status body =>
    obtain ⟨result, hr⟩ := map_fst_eq_ok he
    exact completeOutbound_selected hw hr hq hreq
  | completeLocal queue callId r =>
    obtain ⟨result, hr⟩ := map_fst_eq_ok he
    have hwr : Writes pg now (fun p => p.text "type" ≠ some "llm_response") db
        (step pg db ⟨now, .completeLocal queue callId r⟩) := fnCompleteLocal_writes (fun p hp => hp) hw hr
    obtain ⟨payload, hne, htype⟩ := writes_replied hwr hq hreq
    exact absurd htype hne
  | dispatch roll locked => exact herror fun p hp => hp
  | watchdog seconds locked => exact herror fun p hp => hp
  | _ => exact hnone nofun

end Marks

section Alone

open Life

variable {pg : Postgres} {db : Db} {e : Event}

theorem CallLife.countP_become {c : CallLife} {s : CallStatus} {pre post : List CallLife} (hc : c.live = true)
    (hs : s.live = false) (h : (pre ++ c :: post).countP (·.live) ≤ 1) :
    (pre ++ c.become s :: post).countP (·.live) = 0 := by
  simp only [List.countP_append, List.countP_cons, hc, if_true] at h
  simp only [List.countP_append, List.countP_cons, CallLife.become_live, hs, Bool.false_eq_true, if_false]
  omega

theorem Life.countP_snoc {cs : List CallLife} {c : CallLife} (h : cs.countP (·.live) = 0) :
    (cs ++ [c]).countP (·.live) ≤ 1 := by
  have hone : [c].countP (·.live) ≤ 1 := List.countP_le_length
  rw [List.countP_append]
  omega

/-- A step that queues its call in an idle task leaves the task at most one live call. -/
theorem Life.alone_move {lab : Label} {l l' : Life} (h : Move lab l l')
    (hqueue : lab = .queue → l.calls.countP (·.live) = 0) (hone : l.calls.countP (·.live) ≤ 1) :
    l'.calls.countP (·.live) ≤ 1 := by
  have hzero : ∀ {n : Nat}, n = 0 → n ≤ 1 := fun h => h ▸ Nat.zero_le _
  cases h with
  | born => exact Nat.zero_le _
  | ask hl hn hc hq => exact countP_snoc hl
  | queue hc hq => exact countP_snoc (hqueue rfl)
  | @take n pre post c hq =>
    exact (countP_become_le (fun _ => CallLife.live_of_status (.inl hq)) pre post).trans hone
  | deny hq => exact hzero (CallLife.countP_become (CallLife.live_of_status (.inl hq)) rfl hone)
  | settleIdle hr hc hs => exact hzero (CallLife.countP_become (CallLife.live_of_status (.inr hc)) hs hone)
  | settleStep hc hs h =>
    have h0 := CallLife.countP_become (CallLife.live_of_status (.inr hc)) hs hone
    cases h with
    | advance s => exact hzero h0
    | halt => exact hzero h0
  | settleQueue hc hs h =>
    have h0 := CallLife.countP_become (CallLife.live_of_status (.inr hc)) hs hone
    cases h with
    | queue hm hq => exact countP_snoc h0
  | pause hc hm => exact hzero (CallLife.countP_become (CallLife.live_of_status (.inr hc)) rfl hone)
  | swallow hc hs hm => exact hzero (CallLife.countP_become (CallLife.live_of_status (.inr hc)) hs hone)
  | timeOut hs => exact (countP_loseRemote_le (p := CallLife.live) (fun _ => live_lose) _).trans hone
  | cancel hs => exact (countP_loseRemote_le (p := CallLife.live) (fun _ => live_lose) _).trans hone
  | drop hs => exact (countP_loseRemote_le (p := CallLife.live) (fun _ => live_lose) _).trans hone
  | _ => exact hone

/-- No task has two live calls. -/
def Alone (db : Db) : Prop :=
  ∀ i, (db.core.life i).calls.countP (·.live) ≤ 1

theorem alone_step (hw : db.core.WellFormed) (h : Alone db) (hidle : submitsIdle db e = true) :
    Alone (step pg db e) := by
  intro i
  have hfree : ∀ (j : Uuid) lab (l : Life), freely lab → lab = .queue → l.calls.countP (·.live) = 0 := by
    rintro j lab l hf rfl
    exact hf.elim
  have hpermits : Permits pg (fun _ lab l => lab = .queue → l.calls.countP (·.live) = 0) e.now db e.op := by
    obtain ⟨now, op⟩ := e
    cases op with
    | dispatch roll locked => exact ⟨fun _ _ _ => nofun, fun _ _ _ _ _ => nofun⟩
    | submit i payload =>
      intro hrun
      have hnone : db.hasLive i (fun _ => true) = false := by simpa [submitsIdle, hrun] using hidle
      exact ⟨nofun, fun _ => live_zero hnone⟩
    | completeOutbound => exact fun _ _ _ _ => nofun
    | watchdog seconds locked => exact ⟨fun _ _ _ _ _ _ => nofun, fun _ _ _ _ => nofun⟩
    | decideApproval id accept reply =>
      intro a _ _ _ t _ _ _
      cases accept <;> exact nofun
    | cancelSession sid reason => exact fun _ _ _ _ => nofun
    | _ => trivial
  have hmove : ∀ lab a b, a.calls.countP (·.live) ≤ 1 → (lab = Label.queue → a.calls.countP (·.live) = 0) →
      Move lab a b → b.calls.countP (·.live) ≤ 1 :=
    fun lab a b hone hG hm => alone_move hm hG hone
  exact Moves.invariant hmove ((step_evolves hw hfree hpermits).lives i) (h i)

/-- A task that has two live calls has one of them twice. -/
theorem Alone.unique (h : Alone db) {p q : Call} (hp : p ∈ db.calls) (hq : q ∈ db.calls)
    (htask : p.taskId = q.taskId) (hpl : p.status.live = true) (hql : q.status.live = true) :
    p.callId = q.callId := by
  by_contra hne
  have hpm : p.life ∈ db.core.callsOf q.taskId := mem_callsOf.mpr ⟨p, hp, htask, rfl⟩
  have hqm : q.life ∈ db.core.callsOf q.taskId := mem_callsOf.mpr ⟨q, hq, rfl, rfl⟩
  obtain ⟨as, bs, hsplit⟩ := List.append_of_mem hpm
  have hone := h q.taskId
  have hcalls : (db.core.life q.taskId).calls = as ++ p.life :: bs := hsplit
  have hpc : p.life.live = true := hpl
  have hqc : q.life.live = true := hql
  have hother : q.life ∈ as ∨ q.life ∈ bs := by
    rw [hsplit, List.mem_append, List.mem_cons] at hqm
    rcases hqm with hqm | heq | hqm
    · exact .inl hqm
    · exact absurd (congrArg CallLife.id heq).symm hne
    · exact .inr hqm
  rw [hcalls] at hone
  simp only [List.countP_append, List.countP_cons, hpc, if_true] at hone
  rcases hother with hm | hm
  · have hpos : 0 < as.countP (·.live) := List.countP_pos_iff.mpr ⟨_, hm, hqc⟩
    omega
  · have hpos : 0 < bs.countP (·.live) := List.countP_pos_iff.mpr ⟨_, hm, hqc⟩
    omega

end Alone

section Finishing

variable {pg : Postgres} {now : Time} {db d : Db} {q : Call} {id agent : Uuid} {args : Json}
  {x : Execution} {r : LocalResult}

/-- The event of an execution is the one that its completion finds. -/
theorem selectedEvent_of_attributable (hw : Stamped db) (hreq : q.req = .function id agent args)
    (hsel : SelectedFor db q.taskId x) (ha : attributable db q x = true) :
    ∃ v ∈ db.events, v.eventId = x.eventId ∧ v.selectedCapabilityId = some x.capabilityId ∧
      selectedEvent db q.taskId .function ((db.cfg.function? id).map (·.name)) = some v := by
  obtain ⟨v, hv, hid, hcap, hout, htask⟩ := hsel
  rw [attributable, hreq] at ha
  obtain ⟨f, hf, ha⟩ := (Option.any_eq_true _ _).mp ha
  obtain ⟨hlisted, hlatest⟩ := by simpa only [Bool.and_eq_true, List.all_eq_true] using ha
  refine ⟨v, hv, hid, hcap, ?_⟩
  rw [hf]
  let picked := db.events.filter fun e => e.taskId = some q.taskId ∧ e.outcome = .selected ∧
    listedAs db.cfg e.selectedCapabilityId f.name
  have hpicked : v ∈ picked := by
    rw [← hcap] at hlisted
    exact List.mem_filter.mpr ⟨hv, decide_eq_true ⟨htask, hout, hlisted⟩⟩
  have hhead : ∃ u, (sortDesc (·.createdAt) picked).head? = some u := by
    cases hs : (sortDesc (·.createdAt) picked).head? with
    | some u => exact ⟨u, rfl⟩
    | none =>
      have hmem : v ∈ sortDesc (·.createdAt) picked := mem_sortDesc.mpr hpicked
      rw [List.head?_eq_none_iff.mp hs] at hmem
      cases hmem
  obtain ⟨u, hu⟩ := hhead
  obtain ⟨humem, hmax⟩ := head_sortDesc hu
  obtain ⟨hue, hup⟩ := List.mem_filter.mp humem
  obtain ⟨hut, hus, hul⟩ := of_decide_eq_true hup
  have heq : u = v := by
    by_contra hne
    have huid : u.eventId ≠ x.eventId := fun h =>
      hne (eq_of_key (·.eventId) hw.ids hue hv (h.trans hid.symm))
    have hlater : ∀ w ∈ db.events, w.eventId = x.eventId → u.createdAt < w.createdAt := by
      simpa [hut, hus, hul, huid, or_iff_not_imp_left] using hlatest u hue
    exact absurd (hmax v hpicked) (Nat.not_le.mpr (hlater v hv hid))
  rw [← heq]
  exact hu

/-- The completion of a call of a function gives its event the result of the call. -/
theorem fnCompleteLocal_finishes {queue : Queue} {callId : Uuid} {result : Json} (hw : Stamped db)
    (hq : db.call? queue callId = some q) (hflight : q.status = .inFlight)
    (hreq : q.req = .function id agent args) (hsel : SelectedFor db q.taskId x) (ha : attributable db q x = true)
    (h : fnCompleteLocal pg now db queue callId r = .ok (d, result)) :
    d.Marks x (if r.ok.getD false then .succeeded else .failed) := by
  unfold fnCompleteLocal at h
  rw [hq] at h
  dsimp only at h
  rw [if_neg (not_not.mpr hflight)] at h
  obtain ⟨⟨d₁, payload⟩, hlocal, h⟩ := bind_eq_ok.mp h
  obtain rfl := congrArg (·.1) (Except.ok.inj h)
  have htype : payload.text "type" ≠ some "llm_response" := (completeLocalRequest_reads hlocal).2 rfl
  have hevents : (submitIfRunning pg now d₁ q.taskId payload).1.events = d₁.events :=
    submitIfRunning_events d₁ q.taskId htype
  unfold completeLocalRequest at hlocal
  rw [hreq] at hlocal
  obtain ⟨d₂, hmark, hlocal⟩ := bind_eq_ok.mp hlocal
  obtain rfl := congrArg (·.1) (Except.ok.inj hlocal)
  obtain ⟨v, hv, hid, hcap, hfound⟩ := selectedEvent_of_attributable hw hreq hsel ha
  have hharvest : selectedEvent (db.harvest q.callId now) q.taskId .function
      (((db.harvest q.callId now).cfg.function? id).map (·.name)) = some v := hfound
  unfold markCapabilityOutcome at hmark
  rw [hharvest] at hmark
  dsimp only at hmark
  split at hmark
  · obtain rfl := Except.ok.inj hmark
    let mark := fun u : SearchEvent =>
      { u with
        outcome := if r.ok.getD false then .succeeded else .failed
        executionLatencyMs := some (max 0 (latency now v)) }
    have hmem : mark v ∈ update (·.eventId = v.eventId) mark db.events :=
      mem_update.mpr ⟨v, hv, if_pos (decide_eq_true rfl)⟩
    exact ⟨mark v, hevents ▸ hmem, hid, hcap, rfl⟩
  · cases hmark

end Finishing

namespace SearchRun

variable {pg : Postgres} {w : SearchRun} {e : Event}

/-- Every execution has its call, and while the call is live the event of the execution is
selected. -/
structure Traced (w : SearchRun) : Prop where
  wf : w.db.core.WellFormed
  stamped : Stamped w.db
  alone : Alone w.db
  calls : ∀ x ∈ w.executions, ∃ q ∈ w.db.calls, q.callId = x.callId ∧
    (∃ id agent args, q.req = .function id agent args) ∧
      (q.status.live = true → SelectedFor w.db q.taskId x)

theorem traced_start (c : Config) : Traced (start c) where
  wf := wellFormed_start c
  stamped := ⟨List.nodup_nil, nofun⟩
  alone := fun _ => Nat.zero_le _
  calls := nofun

theorem live_of_edge {a b : CallStatus} (h : a = b ∨ Edge a b) (hb : b.live = true) : a.live = true := by
  rcases h with rfl | h
  · exact hb
  · cases h with
    | take => rfl
    | harvest => cases hb
    | lose => cases hb
    | drop => cases hb

/-- The new executions of a step are selected. -/
theorem Traced.fresh (h : Traced w) (hr : Recordable pg w e) {q : Call}
    (hq : q ∈ w.db.newCalls (Allgres.step pg w.db e)) {x : Execution} (hx : x ∈ w.db.executionsOf q) :
    SelectedFor (Allgres.step pg w.db e) q.taskId x ∧ ∃ id agent args, q.req = .function id agent args := by
  have hex := hr.published q hq x hx
  have hfunction : ∃ id agent args, q.req = .function id agent args := by
    unfold executable at hex
    split at hex
    · rename_i id agent args hreq
      exact ⟨id, agent, args, hreq⟩
    · cases hex
  obtain ⟨id, agent, args, hreq⟩ := hfunction
  obtain ⟨d, hsame, hsel⟩ := step_selected pg h.wf e (mem_newCalls.mp hq) hreq
  exact ⟨hsel.marked hsame hreq hx hex, id, agent, args, hreq⟩

/-- A call that is still live was not completed. -/
theorem Traced.uncompleted (h : Traced w) {q q' c : Call} (hq : q ∈ w.db.calls)
    (hq' : q' ∈ (Allgres.step pg w.db e).calls) (hid : q'.ident = q.ident) (hlive : q'.status.live = true)
    (hl : q.status.live = true) (hne : Allgres.step pg w.db e ≠ w.db) (hc : w.db.completing e.op = some c) :
    c.taskId ≠ q.taskId := by
  intro htask
  obtain ⟨⟨queue, id⟩, hk, hcall, hflight⟩ := completing_some hc
  obtain ⟨hcm, rfl, -⟩ := call?_mem hcall
  have hcl : c.status.live = true := by
    rw [hflight]
    rfl
  have hsame : c.callId = q.callId := h.alone.unique hcm hq htask hcl hl
  have hover := over_of_completed h.wf hk hne
  have hid' : q'.callId = c.callId := (congrArg (·.1) hid).trans hsame.symm
  refine hover.not (wellFormed_step pg e h.wf) (Q := fun s => s.live = true) ?_ ⟨q', hq', hid', hlive⟩
  intro s hs hlive
  rw [isOver] at hs
  rw [hs] at hlive
  cases hlive

theorem Traced.step (h : Traced w) (hr : Recordable pg w e) : Traced (w.step pg e) where
  wf := wellFormed_step pg e h.wf
  stamped := (step_kept pg h.wf h.stamped e).1
  alone := alone_step h.wf h.alone hr.idle
  calls := by
    intro x hx
    rcases List.mem_append.mp hx with hx | hx
    · obtain ⟨q, hq, hxq⟩ := List.mem_flatMap.mp hx
      obtain ⟨hsel, hreq⟩ := h.fresh hr hq hxq
      obtain ⟨v, -, hid, -⟩ := mem_executionsOf hxq
      exact ⟨q, (mem_newCalls.mp hq).1, hid.symm, hreq, fun _ => hsel⟩
    · obtain ⟨q, hq, hid, hreq, hsel⟩ := h.calls x hx
      obtain ⟨q', hq', hident, hstatus⟩ := (step_restatus pg e h.wf).old q hq
      have hcall : q'.callId = q.callId := congrArg (·.1) hident
      have htask : q'.taskId = q.taskId := congrArg (·.2.1) hident
      have hreq' : q'.req = q.req := congrArg (·.2.2) hident
      refine ⟨q', hq', hcall.trans hid, hreq' ▸ hreq, fun hlive => ?_⟩
      have hl := live_of_edge hstatus hlive
      obtain ⟨v, hv, hvid, hcap, hout, hvt⟩ := hsel hl
      refine ⟨v, ?_, hvid, hcap, hout, htask ▸ hvt⟩
      by_cases hne : Allgres.step pg w.db e = w.db
      · have hsame : (w.step pg e).db.events = w.db.events := congrArg Db.events hne
        exact hsame ▸ hv
      · refine (step_kept pg h.wf h.stamped e).2 v hv hout fun c hc heq => ?_
        rw [hvt] at heq
        exact h.uncompleted hq hq' hident hlive hl hne hc (Option.some.inj heq).symm

theorem Traced.recorded (h : Traced w) (hr : Recordable pg w e) : Recorded pg w e where
  selected := by
    intro x hx
    obtain ⟨q, hq, hxq⟩ := List.mem_flatMap.mp hx
    exact (h.fresh hr hq hxq).1.marks
  finished := by
    intro c hc hharvest x hx hid
    obtain ⟨q, hq, hqid, ⟨id, agent, args, hreq⟩, hsel⟩ := h.calls x hx
    obtain ⟨⟨queue, cid⟩, hk, hcall, hflight⟩ := completing_some hc
    obtain ⟨hcm, rfl, hqueue⟩ := call?_mem hcall
    obtain rfl := eq_of_key Call.callId h.wf.callIds hcm hq (hid.symm.trans hqid.symm)
    have hselected := hsel (by rw [hflight]; rfl)
    rw [hreq] at hqueue
    rcases step_cases pg w.db e with he | he
    · have hsame : (w.step pg e).db = w.db := he
      rw [hsame] at hharvest
      obtain ⟨p, hp, hpid⟩ := List.any_eq_true.mp hharvest
      obtain ⟨hpid, hps⟩ := of_decide_eq_true hpid
      obtain rfl := eq_of_key Call.callId h.wf.callIds hp hcm hpid
      rw [hflight] at hps
      cases hps
    · obtain ⟨now, op⟩ := e
      cases op with
      | completeLocal queue' callId r =>
        obtain ⟨rfl, rfl⟩ : queue' = queue ∧ callId = c.callId := by simpa [Op.completes] using hk
        obtain ⟨result, hres⟩ := map_fst_eq_ok he
        exact fnCompleteLocal_finishes h.stamped hcall hflight hreq hselected (hr.latest c hc x hx hid) hres
      | completeOutbound callId status body =>
        obtain ⟨rfl, -⟩ : .outboundCalls = queue ∧ callId = c.callId := by simpa [Op.completes] using hk
        cases hqueue
      | _ => simp [Op.completes] at hk

end SearchRun

/-- In every run each of whose steps executes presented capabilities only as published functions, whose
calls complete while the event they selected is the latest one listed under the name of the function,
every execution is recorded. -/
theorem run_recorded (pg : Postgres) (c : Config) (es : List Event)
    (h : Along (SearchRun.step pg) (SearchRun.Recordable pg) (SearchRun.start c) es) :
    Along (SearchRun.step pg) (SearchRun.Recorded pg) (SearchRun.start c) es := by
  have hrun : ∀ (es : List Event) w, w.Traced → Along (SearchRun.step pg) (SearchRun.Recordable pg) w es →
      Along (SearchRun.step pg) (SearchRun.Recorded pg) w es := by
    intro es
    induction es with
    | nil => exact fun _ _ _ => trivial
    | cons e es ih => exact fun w hw h => ⟨hw.recorded h.1, ih _ (hw.step h.1) h.2⟩
  exact hrun es _ (SearchRun.traced_start c) h

/-- An agent with a function and a procedure, both in the index. -/
def adderConfig : Config where
  agents := [{ agentId := 1, name := "clerk" }]
  policies := [{
    agentId := 1
    systemPrompt := "serve"
    llmConfig := .object [("provider", .str "llm"), ("model", .str "m")] }]
  providers := [{ providerId := 3, name := "llm", baseUrl := "https://llm.example" },
    { providerId := 4
      name := "vectors"
      baseUrl := "https://vec.example"
      purpose := .embedding
      embeddingModel := some "e" }]
  permissions := [⟨1, .function, "add"⟩, ⟨1, .procedure, "tally"⟩]
  functions := [{ functionId := 5, name := "add", handler := .plpgsql, buildStatus := .built }]
  procedures := [{ procedureId := 6, name := "tally", body := some "begin end", buildStatus := .built }]
  capabilities := [{
    capabilityId := 7
    capabilityType := .function
    sourceId := some 5
    name := "add"
    embedding := some [some "1"]
    embeddingModel := some "vectors:e" }, {
    capabilityId := 8
    capabilityType := .procedure
    sourceId := some 6
    name := "tally"
    embedding := some [some "1"]
    embeddingModel := some "vectors:e" }]

def actionReply (fields : String) : Option String :=
  some ("\x7b\"action\":" ++ fields ++ "\x7d")

/-- The model is asked again after the search has presented both. -/
def searchedRun : List Event :=
  [⟨1, .createSession 1 (some "go") none none⟩, ⟨2, .dispatch (fun _ => 0) []⟩,
    ⟨3, .claim .outboundCalls none none []⟩,
    ⟨4, .completeOutbound 3 (some 200) (actionReply "\"search_capabilities\",\"query\":\"sum\"")⟩,
    ⟨5, .claim .outboundCalls none none []⟩,
    ⟨6, .completeOutbound 4 (some 200) (some (embeddingBody "1"))⟩,
    ⟨7, .dispatch (fun _ => 0) []⟩, ⟨8, .claim .outboundCalls none none []⟩]

theorem add_recorded :
    Along (SearchRun.step bareServer) (SearchRun.Recorded bareServer) (SearchRun.start adderConfig)
      (searchedRun ++
        [⟨9, .completeOutbound 6 (some 200) (actionReply "\"call_function\",\"function\":\"add\"")⟩,
          ⟨10, .claim .functionCalls none none []⟩,
          ⟨11, .completeLocal .functionCalls 7 { ok := some true }⟩]) :=
  run_recorded bareServer adderConfig _ (by decide +kernel)

/-- A procedure that a search presented is run, and the search is not selected. -/
theorem procedure_not_recorded :
    ¬ ∀ (pg : Postgres) (c : Config) (es : List Event),
      Along (SearchRun.step pg) (SearchRun.Recorded pg) (SearchRun.start c) es := by
  intro h
  have halong := h bareServer adderConfig (searchedRun ++
    [⟨9, .completeOutbound 6 (some 200) (actionReply "\"run_procedure\",\"procedure\":\"tally\"")⟩])
  rw [along_append] at halong
  obtain ⟨-, hlast, -⟩ := halong
  have hselected := hlast.selected
  revert hselected
  generalize hw : run (SearchRun.step bareServer) (SearchRun.start adderConfig) searchedRun = w
  have hrow : ∃ x ∈ w.db.executions (step bareServer w.db
      ⟨9, .completeOutbound 6 (some 200) (actionReply "\"run_procedure\",\"procedure\":\"tally\"")⟩),
      ¬ (w.step bareServer
        ⟨9, .completeOutbound 6 (some 200) (actionReply "\"run_procedure\",\"procedure\":\"tally\"")⟩).db.Marks x
          .selected := by
    subst hw
    decide +kernel
  obtain ⟨x, hx, hne⟩ := hrow
  exact fun hselected => hne (hselected x hx)

end Allgres
