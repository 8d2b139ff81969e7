import Allgres.ClaimLife

/-! A completion settles the call it names, once: the call leaves `in_flight` and its
task, if it is still running, takes a step. -/

namespace Allgres

open Raise Rows Runs Allgres.Core

namespace Core

/-- Rows may be added beside the lives, and no life changes. -/
structure Quiet (s s' : Core) : Prop where
  grow : Grow s s'
  life : ∀ i, s'.life i = s.life i

theorem Quiet.refl (s : Core) : Quiet s s :=
  ⟨Grow.refl s, fun _ => rfl⟩

theorem quiet_updateCall {s : Core} {id : Uuid} {f : Call → Call} (hf : ∀ c, (f c).ident = c.ident)
    (hs : ∀ c, (f c).status = c.status) : Quiet s (s.updateCall id f) := by
  refine ⟨grow_updateCall hf, fun i => life_updateCall_same (fun c => ?_) (fun c => ?_) i⟩
  · exact congrArg (·.2.1) (hf c)
  · have hid := hf c
    simp only [Call.ident, Prod.mk.injEq] at hid
    simp [Call.life, hid.1, hid.2.2, hs c]

/-- One call is settled: its task makes one move, and a child may be added. -/
structure Settled (s s' : Core) (q : Call) (lab : Label) : Prop where
  grow : Grow s s'
  label : Life.settleLabel lab
  own : Life.Move lab (s.life q.taskId) (s'.life q.taskId)
  others : ∀ j, j ≠ q.taskId → s'.life j = s.life j ∨ Life.Move .born (s.life j) (s'.life j)
  dead : ∃ c ∈ s'.callsOf q.taskId, c.id = q.callId ∧ c.live = false

theorem Settled.quiet {s s' s'' : Core} {q : Call} {lab : Label} (h : Settled s s' q lab)
    (hq : Quiet s' s'') : Settled s s'' q lab := by
  have hc : s''.callsOf q.taskId = s'.callsOf q.taskId := congrArg Life.calls (hq.life q.taskId)
  refine ⟨h.grow.trans hq.grow, h.label, ?_, fun j hj => ?_, ?_⟩
  · rw [hq.life q.taskId]
    exact h.own
  · rw [hq.life j]
    exact h.others j hj
  · rw [hc]
    exact h.dead

theorem Settled.evolves {G : Uuid → Label → Life → Prop} {s s' : Core} {q : Call} {lab : Label}
    (h : Settled s s' q lab) (hG : G q.taskId lab (s.life q.taskId)) (hb : ∀ j l, G j .born l) :
    Evolves G s s' := by
  refine ⟨h.grow, fun j => ?_⟩
  by_cases hj : j = q.taskId
  · rw [hj]
    exact .one hG h.own
  · rcases h.others j hj with he | hm
    · rw [he]
      exact .refl
    · exact .one (hb j _) hm

end Core

theorem running_iff {db : Db} (hw : db.core.WellFormed) {i : Uuid} :
    db.running i = true ↔ (db.core.life i).status = some .running := by
  constructor
  · intro h
    simp only [Db.running, List.any_eq_true, decide_eq_true_eq] at h
    obtain ⟨t, ht, rfl, hr⟩ := h
    rw [life_of_task? (task?_of_mem hw ht), hr]
  · intro h
    simp only [life, Option.map_eq_some_iff] at h
    obtain ⟨t, ht, hr⟩ := h
    obtain ⟨htm, hti⟩ := mem_of_task? ht
    simp only [Db.running, List.any_eq_true, decide_eq_true_eq]
    exact ⟨t, htm, hti, hr⟩

theorem task_of_running {db : Db} {i : Uuid} (hw : db.core.WellFormed) (h : db.running i = true) :
    ∃ t, db.task? t.taskId = some t ∧ t.taskId = i ∧ t.status = .running := by
  simp only [Db.running, List.any_eq_true, decide_eq_true_eq] at h
  obtain ⟨t, ht, hti, hr⟩ := h
  exact ⟨t, task?_of_mem (s := db.core) hw ht, hti, hr⟩

/-- Only the reply of a model can make a step raise. -/
theorem submit_of_type (pg : Postgres) (now : Time) {db : Db} {i : Uuid} {payload : Json}
    (hw : db.core.WellFormed) (hr : db.running i = true)
    (hp : payload.text "type" ≠ some "llm_response") :
    ∃ r, fnSubmitResult pg now db i payload = .ok r := by
  obtain ⟨t, ht, rfl, hrun⟩ := task_of_running hw hr
  unfold fnSubmitResult
  rw [ht]
  simp only [hrun, ne_eq, not_true_eq_false, if_false]
  split
  · exact ⟨_, rfl⟩
  · rename_i a _
    have hstep : ∃ s, (Turn.mk db now t a (db.cfg.policy? t.agentId)).payloadStep pg payload = .ok s := by
      unfold Turn.payloadStep
      dsimp only
      rw [if_neg hp]
      split_ifs
      · exact ⟨_, rfl⟩
      · exact ⟨_, rfl⟩
      · exact ⟨_, rfl⟩
      · exact ⟨_, rfl⟩
    obtain ⟨s, hs⟩ := hstep
    rw [hs]
    exact ⟨_, rfl⟩

section Settle

variable {db d : Db} {q : Call}

/-- A call that left `in_flight`, with nothing else changed yet. -/
structure Closed (s s' : Core) (q : Call) (st : CallStatus) : Prop where
  grow : Grow s s'
  calls : ∃ pre post, s.callsOf q.taskId = pre ++ q.life :: post ∧
    s'.callsOf q.taskId = pre ++ q.life.become st :: post
  task : ∀ i, (s'.life i).status = (s.life i).status ∧ (s'.life i).steps = (s.life i).steps
  others : ∀ i, i ≠ q.taskId → s'.life i = s.life i

theorem closed_updateCall {s : Core} (hw : s.WellFormed) (hq : q ∈ s.calls) {f : Call → Call}
    {st : CallStatus} (hf : ∀ c, (f c).ident = c.ident) (hst : ∀ c, (f c).status = st) :
    Closed s (s.updateCall q.callId f) q st := by
  obtain ⟨pre, post, hsplit, hupd, hne⟩ := life_setCall hw hq hf hst
  exact ⟨grow_updateCall hf, ⟨pre, post, hsplit, hupd⟩, fun _ => ⟨rfl, rfl⟩, hne⟩

theorem Closed.quiet {s s' s'' : Core} {st : CallStatus} (h : Closed s s' q st)
    (hq : Quiet s' s'') : Closed s s'' q st := by
  obtain ⟨pre, post, hsplit, hupd⟩ := h.calls
  refine ⟨h.grow.trans hq.grow, ⟨pre, post, hsplit, ?_⟩, fun i => ?_, fun i hi => ?_⟩
  · exact (congrArg Life.calls (hq.life q.taskId)).trans hupd
  · rw [hq.life i]
    exact h.task i
  · rw [hq.life i]
    exact h.others i hi

theorem Core.Quiet.closed {s s' s'' : Core} {st : CallStatus} (hq : Quiet s s')
    (h : Closed s' s'' q st) : Closed s s'' q st := by
  obtain ⟨pre, post, hsplit, hupd⟩ := h.calls
  refine ⟨hq.grow.trans h.grow, ⟨pre, post, ?_, hupd⟩, fun i => ?_, fun i hi => ?_⟩
  · exact (congrArg Life.calls (hq.life q.taskId)).symm.trans hsplit
  · rw [← hq.life i]
    exact h.task i
  · rw [← hq.life i]
    exact h.others i hi

theorem Closed.life {s s' : Core} {st : CallStatus} (h : Closed s s' q st) :
    ∃ pre post, s.life q.taskId =
        ⟨(s.life q.taskId).status, (s.life q.taskId).steps, pre ++ q.life :: post⟩ ∧
      s'.life q.taskId =
        ⟨(s.life q.taskId).status, (s.life q.taskId).steps, pre ++ q.life.become st :: post⟩ := by
  obtain ⟨pre, post, hsplit, hupd⟩ := h.calls
  obtain ⟨hs, hn⟩ := h.task q.taskId
  refine ⟨pre, post, ?_, ?_⟩
  · rw [← hsplit]
    rfl
  · rw [← hs, ← hn, ← hupd]
    rfl

theorem Closed.dead {s s' s'' : Core} {st : CallStatus} (h : Closed s s' q st)
    (hst : st.live = false) (ha : Life.Added (s'.life q.taskId) (s''.life q.taskId)) :
    ∃ c ∈ s''.callsOf q.taskId, c.id = q.callId ∧ c.live = false := by
  obtain ⟨pre, post, -, hupd⟩ := h.calls
  obtain ⟨added, hadd, -⟩ := ha
  have hadd : s''.callsOf q.taskId = s'.callsOf q.taskId ++ added := hadd
  refine ⟨q.life.become st, ?_, rfl, hst⟩
  rw [hadd, hupd]
  simp

theorem added_refl (l : Life) : Life.Added l l :=
  ⟨[], by simp, by simp⟩

theorem Closed.idle {s s' : Core} {st : CallStatus} (h : Closed s s' q st)
    (hq : q.status = .inFlight) (hst : st.live = false)
    (hr : (s.life q.taskId).status ≠ some .running) : Settled s s' q .settle := by
  obtain ⟨pre, post, hl, hl'⟩ := h.life
  refine ⟨h.grow, trivial, ?_, fun j hj => .inl (h.others j hj), h.dead hst (added_refl _)⟩
  rw [hl, hl']
  exact .settleIdle hr hq hst

theorem Closed.swallow {s s' : Core} {st : CallStatus} (h : Closed s s' q st)
    (hq : q.status = .inFlight) (hst : st.live = false) (hm : q.req.isLlm = true)
    (hr : (s.life q.taskId).status = some .running) : Settled s s' q .swallow := by
  obtain ⟨pre, post, hl, hl'⟩ := h.life
  refine ⟨h.grow, trivial, ?_, fun j hj => .inl (h.others j hj), h.dead hst (added_refl _)⟩
  rw [hl, hl', hr]
  exact .swallow hq hst hm

theorem Closed.others_trans {s s' s'' : Core} {st : CallStatus} (h : Closed s s' q st) {j : Uuid}
    (hj : j ≠ q.taskId) (hs : s''.life j = s'.life j ∨ Life.Move .born (s'.life j) (s''.life j)) :
    s''.life j = s.life j ∨ Life.Move .born (s.life j) (s''.life j) := by
  rwa [h.others j hj] at hs

theorem Closed.advance {s s' s'' : Core} {st : CallStatus} (h : Closed s s' q st)
    (hq : q.status = .inFlight) (hst : st.live = false)
    (hr : (s.life q.taskId).status = some .running) (hg : Grow s' s'')
    (hm : Life.Move .advance (s'.life q.taskId) (s''.life q.taskId))
    (ho : ∀ j, j ≠ q.taskId → s''.life j = s'.life j ∨ Life.Move .born (s'.life j) (s''.life j)) :
    Settled s s'' q .settle := by
  obtain ⟨pre, post, hl, hl'⟩ := h.life
  rw [hr] at hl hl'
  refine ⟨h.grow.trans hg, trivial, ?_, fun j hj => h.others_trans hj (ho j hj),
    h.dead hst (Life.added_move hm trivial)⟩
  rw [hl'] at hm
  rw [hl]
  exact .settleStep hq hst hm

theorem Closed.submitted {s s' s'' : Core} {st : CallStatus} (h : Closed s s' q st)
    (hq : q.status = .inFlight) (hst : st.live = false)
    (hr : (s.life q.taskId).status = some .running) (hs : Submitted s' s'' q.taskId) :
    ∃ lab, lab ≠ .swallow ∧ Settled s s'' q lab := by
  rcases hs.own with hm | hm
  · exact ⟨.settle, by simp, h.advance hq hst hr hs.grow hm hs.others⟩
  · obtain ⟨pre, post, hl, hl'⟩ := h.life
    rw [hr] at hl hl'
    refine ⟨.settleQueue, by simp, h.grow.trans hs.grow, trivial, ?_,
      fun j hj => h.others_trans hj (hs.others j hj), h.dead hst (Life.added_move hm trivial)⟩
    rw [hl'] at hm
    rw [hl]
    exact .settleQueue hq hst hm

/-- The step behind a settled call. -/
theorem submitIfRunning_settled (pg : Postgres) (now : Time) {payload : Json} {st : CallStatus}
    (hw : db.core.WellFormed) (h : Closed db.core d.core q st) (hq : q.status = .inFlight)
    (hst : st.live = false)
    (hp : q.req.isLlm = false → payload.text "type" ≠ some "llm_response") :
    ∃ lab, Settled db.core (submitIfRunning pg now d q.taskId payload).1.core q lab ∧
      (lab = .swallow → q.req.isLlm = true ∧ db.running q.taskId = true ∧
        ∃ e, fnSubmitResult pg now d q.taskId payload = .error e) := by
  have hwd := h.grow.wf hw
  have hrun : d.running q.taskId = db.running q.taskId := by
    rw [Bool.eq_iff_iff, running_iff hwd, running_iff hw, (h.task q.taskId).1]
  unfold submitIfRunning
  by_cases hr : db.running q.taskId = true
  · have hr' := (running_iff hw).mp hr
    rw [hrun, if_pos hr]
    cases hs : fnSubmitResult pg now d q.taskId payload with
    | ok r =>
      obtain ⟨-, hsub⟩ := fnSubmitResult_submitted hwd hs
      obtain ⟨lab, hne, hset⟩ := h.submitted hq hst hr' hsub
      exact ⟨lab, hset, fun he => absurd he hne⟩
    | error e =>
      have hllm : q.req.isLlm = true := by
        by_contra hne
        obtain ⟨r, hok⟩ := submit_of_type pg now hwd (hrun.trans hr)
          (hp (by simpa using hne))
        rw [hok] at hs
        cases hs
      exact ⟨.swallow, h.swallow hq hst hllm hr', fun _ => ⟨hllm, hr, e, rfl⟩⟩
  · rw [hrun, if_neg hr]
    refine ⟨.settle, h.idle hq hst fun hc => hr ((running_iff hw).mpr hc), ?_⟩
    intro he
    cases he

end Settle

section Kinds

variable {pg : Postgres} {now : Time} {db db' : Db} {q : Call} {o : Outbound}
  {status : Option Int} {body : Option String} {payload : Json}

/-- What `completeKind` may do beside reading the response: nothing the lives see, and only
the completion of a model call submits a reply. -/
def Reads (db : Db) (llm : Bool) (r : Db × Json) : Prop :=
  Quiet db.core r.1.core ∧ (llm = false → r.2.text "type" ≠ some "llm_response")

theorem reads_same {llm : Bool} (h : payload.text "type" ≠ some "llm_response") :
    Reads db llm (db, payload) :=
  ⟨Quiet.refl _, fun _ => h⟩

theorem functionResult_type (fields : List (String × Json)) :
    (functionResult fields).text "type" ≠ some "llm_response" := by
  have h : (functionResult fields).text "type" = some "function_result" := rfl
  rw [h]
  simp

theorem errorPayload_ne (text : String) :
    (errorPayload text).text "type" ≠ some "llm_response" := by
  rw [errorPayload_type]
  simp

theorem markCapabilityOutcome_core {id : Uuid} {k : CapabilityType} {name : Option String}
    {ok : Bool} : Returns (fun d => d.core = db.core) (markCapabilityOutcome now db id k name ok) := by
  unfold markCapabilityOutcome
  split
  · exact returns_ok rfl
  · exact returns_ite (fun _ => returns_ok rfl) fun _ => returns_error _

theorem core_recordCapabilityRemoteCost (db : Db) (id : Uuid) (cost : Rat) :
    (recordCapabilityRemoteCost db id cost).core = db.core := by
  unfold recordCapabilityRemoteCost
  dsimp only
  split <;> rfl

theorem completeFunctionKind_reads {llm : Bool} :
    Returns (Reads db llm) (completeFunctionKind now db q o status body) := by
  unfold completeFunctionKind
  dsimp only
  split
  · exact returns_pure (reads_same (functionResult_type _))
  · refine returns_bind markCapabilityOutcome_core fun d hd => returns_pure ?_
    refine ⟨?_, fun _ => functionResult_type _⟩
    rw [core_recordCapabilityRemoteCost, hd]
    exact Quiet.refl _

theorem mcpPayload_type {name : Option String} :
    Returns (fun p => p.text "type" ≠ some "llm_response") (mcpPayload name status body) := by
  unfold mcpPayload
  refine returns_ite (fun _ => returns_ok (errorPayload_ne _)) fun _ => ?_
  split
  · exact returns_ok (errorPayload_ne _)
  · refine returns_ite (fun _ => returns_ok (errorPayload_ne _)) fun _ => ?_
    refine returns_seq fun flag => returns_pure ?_
    split_ifs
    · exact errorPayload_ne _
    · exact functionResult_type _

theorem completeMcpKind_reads {llm : Bool} :
    Returns (Reads db llm) (completeMcpKind db q o status body) := by
  unfold completeMcpKind
  refine returns_bind mcpPayload_type fun p hp => returns_pure ⟨?_, fun _ => hp⟩
  rw [core_recordCapabilityRemoteCost]
  exact Quiet.refl _

theorem completeSearch_reads (llm : Bool) {rank : List (Option Float8) → Except String (Db × Json)}
    (h : ∀ query, Returns (fun r => Quiet db.core r.1.core) (rank query)) :
    Returns (Reads db llm) (completeSearch db status body rank) := by
  unfold completeSearch
  refine returns_ite (fun _ => returns_ok (reads_same (errorPayload_ne _))) fun _ => ?_
  refine returns_seq fun query => returns_ite (fun _ => ?_) fun _ => ?_
  · exact returns_pure (reads_same (errorPayload_ne _))
  · exact returns_bind (h query) fun r hr => returns_pure ⟨hr, fun _ => functionResult_type _⟩

theorem completeEmbeddingKind_reads {llm : Bool} :
    Returns (Reads db llm) (completeEmbeddingKind pg db q o status body) :=
  completeSearch_reads llm fun _ => returns_seq fun _ => returns_pure (Quiet.refl _)

theorem completeRecallKind_reads {llm : Bool} :
    Returns (Reads db llm) (completeRecallKind pg now db q o status body) :=
  completeSearch_reads llm fun _ => returns_seq fun _ => returns_pure (Quiet.refl _)

theorem completeCapabilitySearchKind_reads {llm : Bool} :
    Returns (Reads db llm) (completeCapabilitySearchKind pg now db q o status body) := by
  unfold completeCapabilitySearchKind
  refine returns_bind (completeSearch_reads llm fun query => ?_) fun r hr => ?_
  · unfold rankCapabilitiesByEmbedding
    refine returns_seq fun ranked => returns_pure ?_
    exact ⟨grow_allot db.core (Nat.le_succ _), fun _ => rfl⟩
  · refine returns_bind markCapabilityOutcome_core fun d hd => returns_pure ⟨?_, hr.2⟩
    rw [hd]
    exact hr.1

theorem completeLlmKind_reads (db : Db) (q : Call) (o : Outbound) (status : Option Int)
    (body : Option String) : Reads db true (completeLlmKind db q o status body) := by
  refine ⟨?_, fun h => by cases h⟩
  unfold completeLlmKind
  split
  · dsimp only
    have hq : Quiet db.core (db.updateCall q.callId fun c =>
        { c with
          promptTokens := (llmUsageFromHttp body).bind (·.1)
          completionTokens := (llmUsageFromHttp body).bind (·.2)
          costUsd := callCost db.cfg o (llmUsageFromHttp body) }).core :=
      quiet_updateCall (fun _ => rfl) fun _ => rfl
    split
    · exact hq
    · exact hq
  · dsimp only
    split_ifs <;> exact Quiet.refl _

theorem completeKind_reads (h : completeKind pg now db q o status body = .ok (db', payload)) :
    Reads db (decide (o.kind = .llm)) (db', payload) := by
  unfold completeKind at h
  split at h
  · exact completeFunctionKind_reads _ h
  · exact completeMcpKind_reads _ h
  · exact completeEmbeddingKind_reads _ h
  · exact completeCapabilitySearchKind_reads _ h
  · exact completeRecallKind_reads _ h
  · rename_i hk
    rw [hk]
    have := completeLlmKind_reads db q o status body
    rw [Except.ok.inj h] at this
    exact this

end Kinds

section Complete

variable {pg : Postgres} {now : Time} {db db' : Db} {q : Call} {o : Outbound}
  {status : Option Int} {body : Option String} {result : Json}

theorem Closed.pause {s s' : Core} {f : Task → Task} {t : Task} (h : Closed s s' q .lost)
    (hq : q.status = .inFlight) (hl : q.req.isLlm = false) (ht : s'.task? q.taskId = some t)
    (hr : t.status = .running) (hf : ∀ t, (f t).ident = t.ident)
    (hst : (f t).status = .waitingHuman) (hn : (f t).stepCount = t.stepCount) :
    Settled s (s'.updateTask q.taskId f) q .settle := by
  obtain ⟨pre, post, hlife, hlife'⟩ := h.life
  refine ⟨h.grow.trans (grow_updateTask hf), trivial, ?_, fun j hj => .inl ?_,
    h.dead rfl ⟨[], by simp [life_updateTask hf ht, life_of_task? ht], by simp⟩⟩
  · rw [life_of_task? ht, Life.mk.injEq] at hlife'
    obtain ⟨hs', hn', hc'⟩ := hlife'
    rw [life_updateTask hf ht, hst, hn, hc', hn', hlife, ← hs', hr]
    exact .pause hq hl
  · rw [life_updateTask_ne hf hj]
    exact h.others j hj

/-- A call with an unknown result pauses its task, if that is still running. -/
theorem pauseAmbiguousOutbound_settled {s : Core} {d : Db} {reason : String} (hw : s.WellFormed)
    (h : Closed s (d.core.updateCall q.callId
      fun c => { c with status := .lost, error := some reason, updatedAt := now }) q .lost)
    (hq : q.status = .inFlight) (hl : q.req.isLlm = false) :
    Settled s (d.pauseAmbiguousOutbound q reason now).core q .settle := by
  let lost := d.updateCall q.callId
    fun c => { c with status := .lost, error := some reason, updatedAt := now }
  have hwl : lost.core.WellFormed := h.grow.wf hw
  unfold Db.pauseAmbiguousOutbound
  dsimp only
  split
  · rename_i hnone
    refine h.idle hq rfl fun hr => ?_
    have hr' : (lost.core.life q.taskId).status = some .running := ((h.task _).1).trans hr
    obtain ⟨t, ht, hti, hrun⟩ := task_of_running hwl ((running_iff hwl).mpr hr')
    have hnone' : (lost.task? q.taskId).filter (·.status = .running) = none := hnone
    rw [← hti, ht] at hnone'
    simp [hrun] at hnone'
  · rename_i t ht
    obtain ⟨ht, hrun⟩ := filter_eq_some ht
    have ht' : lost.core.task? q.taskId = some t := ht
    obtain ⟨-, hti⟩ := mem_of_task? ht'
    have hf : ∀ r : Task, ({ r with
        status := .waitingHuman
        updatedAt := now } : Task).ident = r.ident := fun _ => rfl
    have hset := h.pause hq hl ht' (by simpa using hrun) hf rfl rfl
    rw [Db.core_appendLog, Db.core_insertApproval, Db.core_updateTask, hti]
    exact hset.quiet ⟨grow_insertApproval (fun g hgate => by cases hgate), fun _ => rfl⟩

theorem scoreOutcome_quiet (db : Db) (q : Call) (o : Outbound) (r : Json) :
    Quiet db.core (scoreOutcome db q o r).core := by
  unfold scoreOutcome
  split
  · exact quiet_updateCall (fun _ => rfl) fun _ => rfl
  · exact Quiet.refl _

/-- The reply of the model whose step raised. -/
def Swallowed (pg : Postgres) (now : Time) (db : Db) (q : Call) (status : Option Int)
    (body : Option String) : Prop :=
  ∃ o d payload e, q.req = .outbound o ∧ o.kind = .llm ∧
    completeLlmKind (db.harvestResponse q.callId status body now) q o status body = (d, payload) ∧
    db.running q.taskId = true ∧ fnSubmitResult pg now d q.taskId payload = .error e

theorem harvestOutbound_settled (hw : db.core.WellFormed) (hm : q ∈ db.calls)
    (hq : q.status = .inFlight) (ho : q.req = .outbound o)
    (h : harvestOutbound pg now db q o status body = .ok (db', result)) :
    ∃ lab, Settled db.core db'.core q lab ∧
      (lab = .swallow → Swallowed pg now db q status body) := by
  have hllm : q.req.isLlm = decide (o.kind = .llm) := by simp [ho, Request.isLlm]
  unfold harvestOutbound at h
  split at h
  · rename_i hamb
    obtain ⟨rfl, -⟩ := by simpa using h
    have hl : q.req.isLlm = false := by
      rw [hllm]
      have : isMutation o = true := by
        unfold isAmbiguous at hamb
        simp only [Bool.and_eq_true] at hamb
        exact hamb.1
      simp only [isMutation, Bool.and_eq_true, Bool.or_eq_true, decide_eq_true_eq] at this
      rcases this.1 with hk | hk <;> simp [hk]
    let note : Call → Call := fun c =>
      { c with responseStatus := status, responseBody := some (left (orEmpty body) 200000) }
    have hquiet : Quiet db.core (db.updateCall q.callId note).core :=
      quiet_updateCall (fun _ => rfl) fun _ => rfl
    have hm' : note q ∈ (db.updateCall q.callId note).calls :=
      mem_update.mpr ⟨q, hm, by simp⟩
    have hf : ∀ c : Call, ({ c with
        status := .lost
        error := some "transport_or_server_result_unknown"
        updatedAt := now } : Call).ident = c.ident := fun _ => rfl
    have hc := hquiet.closed (closed_updateCall (hquiet.grow.wf hw) hm' hf fun _ => rfl)
    refine ⟨.settle, ?_, fun hs => by cases hs⟩
    exact pauseAmbiguousOutbound_settled hw ⟨hc.grow, hc.calls, hc.task, hc.others⟩ hq hl
  · obtain ⟨⟨d, payload⟩, hk, h⟩ := bind_eq_ok.mp h
    obtain ⟨rfl, -⟩ := by simpa [pure, Except.pure] using h
    have hf : ∀ c : Call, ({ c with
        status := .harvested
        responseStatus := status
        responseBody := some (left (orEmpty body) 200000)
        updatedAt := now } : Call).ident = c.ident := fun _ => rfl
    have hclosed : Closed db.core (db.harvestResponse q.callId status body now).core q .harvested :=
      closed_updateCall hw hm hf fun _ => rfl
    have hreads := completeKind_reads hk
    obtain ⟨lab, hset, hsw⟩ := submitIfRunning_settled pg now hw (hclosed.quiet hreads.1) hq rfl
      (fun hl => hreads.2 (by rw [← hllm]; exact hl))
    refine ⟨lab, hset.quiet (scoreOutcome_quiet _ q o _), fun hs => ?_⟩
    obtain ⟨hl, hr, e, he⟩ := hsw hs
    have hkind : o.kind = .llm := by simpa [hllm] using hl
    refine ⟨o, d, payload, e, ho, hkind, ?_, hr, he⟩
    unfold completeKind at hk
    rw [hkind] at hk
    exact Except.ok.inj hk

/-- The spec of `fn_complete_outbound`. -/
theorem fnCompleteOutbound_settled {id : Uuid} (hw : db.core.WellFormed)
    (h : fnCompleteOutbound pg now db id status body = .ok (db', result)) :
    db' = db ∨ ∃ q lab, db.call? .outboundCalls id = some q ∧ q.status = .inFlight ∧
      Settled db.core db'.core q lab ∧
      (lab = .swallow → Swallowed pg now db q status body) := by
  unfold fnCompleteOutbound at h
  cases hc : db.call? .outboundCalls id with
  | none => simp [hc] at h
  | some q =>
    obtain ⟨hm, -, -⟩ := call?_mem hc
    simp only [hc] at h
    split at h
    · obtain ⟨rfl, -⟩ := by simpa using h
      exact .inl rfl
    · rename_i hq
      have hq : q.status = .inFlight := by simpa using hq
      split at h
      · rename_i o ho
        obtain ⟨lab, hset, hsw⟩ := harvestOutbound_settled hw hm hq ho h
        exact .inr ⟨q, lab, rfl, hq, hset, hsw⟩
      · cases h

theorem completeLocalRequest_reads {r : LocalResult} {payload : Json}
    (h : completeLocalRequest now db q r = .ok (db', payload)) :
    Reads db false (db', payload) := by
  have hroutine : ∀ (type word : String) (name : Option String) (id : Uuid),
      type ≠ "llm_response" →
        (routinePayload type word name id r).text "type" ≠ some "llm_response" := by
    intro type word name id htype
    unfold routinePayload
    split_ifs
    · exact fun he => htype (Option.some.inj he)
    · exact errorPayload_ne _
  unfold completeLocalRequest at h
  split at h
  · obtain ⟨rfl, rfl⟩ := by simpa using h
    refine reads_same ?_
    unfold sqlPayload
    split_ifs
    · exact functionResult_type _
    · exact errorPayload_ne _
  · obtain ⟨d, hd, h⟩ := bind_eq_ok.mp h
    obtain ⟨rfl, rfl⟩ := by simpa [pure, Except.pure] using h
    refine ⟨?_, fun _ => hroutine _ _ _ _ (by simp)⟩
    rw [markCapabilityOutcome_core d hd]
    exact Quiet.refl _
  · obtain ⟨d, hd, h⟩ := bind_eq_ok.mp h
    obtain ⟨rfl, rfl⟩ := by simpa [pure, Except.pure] using h
    refine ⟨?_, fun _ => hroutine _ _ _ _ (by simp)⟩
    rw [markCapabilityOutcome_core d hd]
    exact Quiet.refl _
  · cases h

/-- The spec of the three local completions. -/
theorem fnCompleteLocal_settled {queue : Queue} {id : Uuid} {r : LocalResult}
    (hw : db.core.WellFormed) (h : fnCompleteLocal pg now db queue id r = .ok (db', result)) :
    db' = db ∨ ∃ q lab, db.call? queue id = some q ∧ q.status = .inFlight ∧
      Settled db.core db'.core q lab ∧ lab ≠ .swallow := by
  unfold fnCompleteLocal at h
  cases hc : db.call? queue id with
  | none => simp [hc] at h
  | some q =>
    obtain ⟨hm, -, -⟩ := call?_mem hc
    simp only [hc] at h
    split at h
    · obtain ⟨rfl, -⟩ := by simpa using h
      exact .inl rfl
    · rename_i hq
      have hq : q.status = .inFlight := by simpa using hq
      obtain ⟨⟨d, payload⟩, hk, h⟩ := bind_eq_ok.mp h
      obtain ⟨rfl, -⟩ := by simpa [pure, Except.pure] using h
      have hf : ∀ c : Call, ({ c with
          status := .harvested
          updatedAt := now } : Call).ident = c.ident := fun _ => rfl
      have hclosed : Closed db.core (db.harvest q.callId now).core q .harvested :=
        closed_updateCall hw hm hf fun _ => rfl
      have hreads := completeLocalRequest_reads hk
      obtain ⟨lab, hset, hsw⟩ := submitIfRunning_settled pg now hw (hclosed.quiet hreads.1) hq rfl
        (fun _ => hreads.2 rfl)
      refine .inr ⟨q, lab, rfl, hq, hset, fun hs => ?_⟩
      obtain ⟨hl, -, -⟩ := hsw hs
      cases hreq : q.req with
      | outbound o =>
        rw [completeLocalRequest, hreq] at hk
        cases hk
      | sql => simp [hreq, Request.isLlm] at hl
      | function => simp [hreq, Request.isLlm] at hl
      | procedure => simp [hreq, Request.isLlm] at hl

end Complete

end Allgres
