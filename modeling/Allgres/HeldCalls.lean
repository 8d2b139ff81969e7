import Allgres.WorkerCounts

/-! No call is orphaned by a worker that lives: what the database says is in flight, the worker has
in its hands, once. -/

namespace Allgres.RuntimeWorker

open Raise Rows Runs ThreadPool PerformHttp

section Ids

def outboundId (key : CallKey) : Multiset Uuid :=
  if key.1 = .outbound then {key.2} else 0

/-- The calls of the tasks in the hands of the worker: claimed, in a channel, with a thread or about
to be submitted. -/
def heldIds (s : System) : Multiset Uuid :=
  s.worker.weight (fun j => outboundId j.key) fun r => outboundId r.key

def submittedIds (rs : List OutboundResult) : List Uuid :=
  (rs.filter (·.queue = .outbound)).map (·.callId)

theorem sum_outboundId {α : Type} (queue : α → OutboundQueue) (id : α → Uuid) (l : List α) :
    (l.map fun x => outboundId (queue x, id x)).sum =
      (((l.filter (queue · = .outbound)).map id : List Uuid) : Multiset Uuid) := by
  induction l with
  | nil => rfl
  | cons x l ih =>
    rw [List.map_cons, List.sum_cons, ih, List.filter_cons]
    by_cases hq : queue x = .outbound
    · simp [outboundId, hq]
    · simp [outboundId, hq]

variable {pg : Postgres} {s : System}

theorem sum_jobs (jobs : List OutboundJob) :
    (jobs.map fun j => outboundId j.key).sum = (outboundIds jobs : Multiset Uuid) :=
  sum_outboundId (·.queue) (·.callId) jobs

theorem sum_results (rs : List OutboundResult) :
    (rs.map fun r => outboundId r.key).sum = (submittedIds rs : Multiset Uuid) :=
  sum_outboundId (·.queue) (·.callId) rs

/-- A call leaves the hands of a living worker only when its result does. -/
theorem heldIds_step {e : WorkerEvent} (he : ends pg s e = false) :
    heldIds (step pg s e) + (submittedIds (submittedAt s e) : Multiset Uuid) =
      heldIds s + (outboundIds (claimedAt pg s e) : Multiset Uuid) := by
  have hlaw := weight_step (fun j => outboundId j.key) (fun r => outboundId r.key) he
  -- a performance keeps the key of its call
  have hkey : (fun x : OutboundJob × Performed => outboundId (resultOf x).key) =
      fun x => outboundId x.1.key := rfl
  rw [sum_jobs, sum_results, hkey] at hlaw
  refine add_right_cancel (b := ((performedAt s e).map fun x => outboundId x.1.key).sum) ?_
  calc
    _ = heldIds (step pg s e) + ((performedAt s e).map fun x => outboundId x.1.key).sum +
        (submittedIds (submittedAt s e) : Multiset Uuid) := by ac_rfl
    _ = _ := hlaw

end Ids

section Orphans

/-- The worker lives through an event, and no result is thrown away for want of privileges. -/
def steady (pg : Postgres) (s : System) (e : WorkerEvent) : Bool :=
  !ends pg s e && match e with
    | .tick t => match s.worker.phase with
      | .submit _ => t.dropped
      | _ => true
    | _ => true

def inFlightIds (db : Db) : List Uuid :=
  (db.calls.filter fun q => q.req.queue = .outboundCalls ∧ q.status = .inFlight).map (·.callId)

/-- The calls in flight that nobody will answer. -/
def orphans (s : System) : List Uuid :=
  (inFlightIds s.db).filter (· ∉ heldIds s)

variable {pg : Postgres} {s : System}

theorem mem_inFlightIds {db : Db} {id : Uuid} : id ∈ inFlightIds db ↔
    ∃ q ∈ db.calls, q.callId = id ∧ q.req.queue = .outboundCalls ∧ q.status = .inFlight := by
  simp only [inFlightIds, List.mem_map, List.mem_filter, decide_eq_true_eq]
  constructor
  · rintro ⟨q, ⟨hq, hreq⟩, hid⟩
    exact ⟨q, hq, hid, hreq⟩
  · rintro ⟨q, hq, hid, hreq⟩
    exact ⟨q, ⟨hq, hreq⟩, hid⟩

/-- Between two states of the control plane, a row comes into flight only when it is handed out. -/
theorem inFlightIds_run (es : List Event) {db : Db} (hw : db.core.WellFormed) {id : Uuid}
    (h : id ∈ inFlightIds (run (Allgres.step pg) db es)) :
    id ∈ inFlightIds db ∨ id ∈ handedIds pg db es := by
  obtain ⟨q', hq', rfl, hqueue, hs⟩ := mem_inFlightIds.mp h
  rcases inFlight_of_run es hw hq' hs with ⟨q, hq, hid, hqs⟩ | hhand
  · have hcall : q.callId = q'.callId := congrArg (·.1) hid
    have hreq : q.req = q'.req := congrArg (·.2.2) hid
    exact .inl (mem_inFlightIds.mpr ⟨q, hq, hcall, hreq ▸ hqueue, hqs⟩)
  · exact .inr hhand

theorem inFlightIds_unclaimed {e : Event} {db : Db} (hw : db.core.WellFormed)
    (hne : ∀ limit fallback locked, e.op ≠ .claim .outboundCalls limit fallback locked) {id : Uuid}
    (h : id ∈ inFlightIds (Allgres.step pg db e)) : id ∈ inFlightIds db := by
  obtain ⟨q', hq', rfl, hqueue, hs⟩ := mem_inFlightIds.mp h
  obtain ⟨q, hq, hid, hqs⟩ := inFlight_of_not_claim hw (by rwa [hqueue]) hq' hs
  have hcall : q.callId = q'.callId := congrArg (·.1) hid
  have hreq : q.req = q'.req := congrArg (·.2.2) hid
  exact mem_inFlightIds.mpr ⟨q, hq, hcall, hreq ▸ hqueue, hqs⟩

/-- The call of a submitted result is no longer in flight. -/
theorem inFlightIds_submit {t : Tick} {r : OutboundResult} {db db' : Db} (hw : db.core.WellFormed)
    (h : submit pg t db r = .ok db') {id : Uuid} (hid : id ∈ inFlightIds db') :
    id ∈ inFlightIds db ∧ id ∉ submittedIds [r] := by
  by_cases hq : r.queue = .outbound
  · have hrun := run_submission h
    simp only [submission, hq] at hrun
    have hstep : Allgres.step pg db
        ⟨t.now, .completeOutbound r.callId (some r.status) (some (sanitized r.body))⟩ = db' := hrun
    refine ⟨inFlightIds_unclaimed hw (by simp) (hstep ▸ hid), fun hsub => ?_⟩
    obtain rfl : id = r.callId := by simpa [submittedIds, hq] using hsub
    simp only [submit, hq] at h
    obtain ⟨result, h⟩ := map_fst_eq_ok h
    obtain ⟨q, hm, hcall, -, hs⟩ := mem_inFlightIds.mp hid
    exact not_inFlight_of_fnCompleteOutbound hw h ⟨q, hm, hcall, hs⟩
  · rw [submit_operator hq h] at hid
    exact ⟨hid, by simp [submittedIds, hq]⟩

/-- After a steady event a call in flight was in flight before it, and its result is not the one
that leaves; or the worker has just claimed it. -/
theorem inFlightIds_step {e : WorkerEvent} (hw : s.db.core.WellFormed) (he : steady pg s e = true)
    {id : Uuid} (h : id ∈ inFlightIds (step pg s e).db) :
    (id ∈ inFlightIds s.db ∧ id ∉ submittedIds (submittedAt s e)) ∨
      (id ∈ outboundIds (claimedAt pg s e) ∧ submittedAt s e = []) := by
  cases e with
  | session e =>
    left
    simp only [step] at h
    split at h
    · exact ⟨h, by simp [submittedAt, submittedIds]⟩
    · rename_i hres
      refine ⟨inFlightIds_unclaimed hw
        (fun limit fallback locked hop => ?_) h, by simp [submittedAt, submittedIds]⟩
      simp [hop, Op.reserved] at hres
  | tick t =>
    have hturn := spi_turn pg t s
    change id ∈ inFlightIds (s.spi pg t).db at h
    generalize s.spi pg t = s' at hturn h
    cases hturn with
    | die hdie => simp [steady, hdie] at he
    | commit r db hp hd hs =>
      obtain ⟨hmem, hsub⟩ := inFlightIds_submit hw hs h
      exact .inl ⟨hmem, by simpa only [submittedAt, hp] using hsub⟩
    | discard r hp hd => simp [steady, hp, hd] at he
    | claim queue db calls hp hd hc =>
      have hids := claimJobs_ids hc
      have hrun : run (Allgres.step pg) s.db (RuntimeWorker.claim pg t _ queue s.db) = db :=
        run_claim hc
      change id ∈ inFlightIds db at h
      rw [← hrun] at h
      rcases inFlightIds_run _ hw h with h | h
      · exact .inl ⟨h, by simp [submittedAt, hp, submittedIds]⟩
      · refine .inr ⟨?_, by simp [submittedAt, hp]⟩
        simp only [claimedAt, hp, hd, hc, and_self, if_true]
        rw [hids]
        exact h
    | receive r pool hp hr => exact .inl ⟨h, by simp [submittedAt, hp, submittedIds]⟩
    | look hp hf => exact .inl ⟨h, by simp [submittedAt, hp, submittedIds]⟩
    | ask ids hp hd hl => exact .inl ⟨h, by simp [submittedAt, hp, submittedIds]⟩
    | flag lost hp => exact .inl ⟨h, by simp [submittedAt, hp, submittedIds]⟩
    | send queue job calls hp => exact .inl ⟨h, by simp [submittedAt, hp, submittedIds]⟩
    | pass phase hn hp =>
      refine .inl ⟨h, ?_⟩
      rcases hp with ⟨hp, -⟩ | ⟨hp, -⟩ | ⟨ids, hp, -⟩ | ⟨queue, hp, -⟩ | ⟨queue, hp⟩ <;>
        simp [submittedAt, hp, submittedIds]
  | register i =>
    have hdb : (step pg s (.register i)).db = s.db := by
      simp only [step, System.register]
      split <;> rfl
    exact .inl ⟨hdb ▸ h, by simp [submittedAt, submittedIds]⟩
  | perform i U parse =>
    have hdb : (step pg s (.perform i U parse)).db = s.db := by
      simp only [step, System.perform]
      split <;> rfl
    exact .inl ⟨hdb ▸ h, by simp [submittedAt, submittedIds]⟩
  | take | deliver => exact .inl ⟨h, by simp [submittedAt, submittedIds]⟩
  | crash => simp [steady, ends] at he

/-- A living worker makes no orphan. -/
theorem orphans_step {e : WorkerEvent} (hw : s.db.core.WellFormed) (he : steady pg s e = true) :
    orphans (step pg s e) ⊆ orphans s := by
  intro id hid
  simp only [orphans, List.mem_filter, decide_eq_true_eq] at hid ⊢
  obtain ⟨hfly, hnot⟩ := hid
  have hends : ends pg s e = false := by
    simp only [steady, Bool.and_eq_true, Bool.not_eq_true'] at he
    exact he.1
  have hlaw := heldIds_step hends
  rcases inFlightIds_step hw he hfly with ⟨hbefore, hsub⟩ | ⟨hclaimed, hnone⟩
  · refine ⟨hbefore, fun hheld => ?_⟩
    have hmem : id ∈ heldIds s + (outboundIds (claimedAt pg s e) : Multiset Uuid) :=
      Multiset.mem_add.mpr (.inl hheld)
    rw [← hlaw, Multiset.mem_add, Multiset.mem_coe] at hmem
    exact hmem.elim hnot hsub
  · have hmem : id ∈ heldIds s + (outboundIds (claimedAt pg s e) : Multiset Uuid) :=
      Multiset.mem_add.mpr (.inr (Multiset.mem_coe.mpr hclaimed))
    rw [← hlaw, hnone, Multiset.mem_add, Multiset.mem_coe] at hmem
    exact absurd (hmem.resolve_right (by simp [submittedIds])) hnot

theorem card_outboundId (key : CallKey) : (outboundId key).card ≤ 1 := by
  unfold outboundId
  split <;> simp

/-- The worker has no more calls in its hands than fit. -/
theorem card_heldIds (hf : Fits s.worker) : (heldIds s).card ≤ capacity := by
  refine le_trans ?_ hf.bounded
  have hpool : (s.worker.pool.weight (fun j => outboundId j.key)
      fun r => outboundId r.key).card ≤ s.worker.pool.size :=
    card_weight_le (fun j => card_outboundId j.key) fun r => card_outboundId r.key
  rw [heldIds, Worker.weight, Multiset.card_add, Worker.weight, weight_one]
  refine Nat.add_le_add ?_ hpool
  cases s.worker.phase with
  | submit r => exact card_outboundId r.key
  | send queue calls =>
    simp only [Phase.weight, List.map_const', List.sum_replicate, Nat.nsmul_eq_mul, Nat.mul_one]
    exact card_sum_le (fun j => card_outboundId j.key) calls
  | _ => exact Nat.le_refl _

theorem submittedIds_le (s : System) (e : WorkerEvent) :
    (submittedIds (submittedAt s e) : Multiset Uuid) ≤ heldIds s := by
  rw [← sum_results]
  cases e with
  | tick t =>
    cases hp : s.worker.phase with
    | submit r =>
      simp only [submittedAt, hp, List.map_singleton, List.sum_singleton, heldIds, Worker.weight,
        Phase.weight]
      exact Multiset.le_add_right _ _
    | _ =>
      simp only [submittedAt, hp, List.map_nil, List.sum_nil]
      exact Multiset.zero_le _
  | _ => exact Multiset.zero_le _

theorem heldIds_balance (pg : Postgres) (s : System) (e : WorkerEvent) :
    heldIds (step pg s e) + (submittedIds (submittedAt s e) : Multiset Uuid) ≤
      heldIds s + (outboundIds (claimedAt pg s e) : Multiset Uuid) := by
  by_cases hends : ends pg s e = true
  · obtain ⟨hweight, hclaimed, -⟩ :=
      weight_ends (fun j => outboundId j.key) (fun r => outboundId r.key) hends
    rw [heldIds, hweight, zero_add, hclaimed]
    exact le_trans (submittedIds_le s e) (Multiset.le_add_right _ _)
  · exact (heldIds_step (by simpa using hends)).le

theorem outboundIds_gathered (s : System) (es : List WorkerEvent) :
    outboundIds (gathered (step pg) (claimedAt pg) s es) =
      gathered (step pg) (fun s e => outboundIds (claimedAt pg s e)) s es := by
  induction es generalizing s with
  | nil => rfl
  | cons e es ih =>
    rw [gathered, gathered, ← ih]
    simp [outboundIds]

/-- A call is in the hands of the worker once at most. -/
theorem heldIds_nodup (pg : Postgres) (c : Config) (es : List WorkerEvent) :
    (heldIds (run (step pg) (start c) es)).Nodup := by
  have hle := balance_le (heldIds_balance pg) (start c) es
  have hstart : heldIds (start c) = 0 := weight_start
  rw [hstart, zero_add, ← outboundIds_gathered] at hle
  have hclaimed : (outboundIds (gathered (step pg) (claimedAt pg) (start c) es)).Nodup :=
    (handedIds_spec _ (wellFormed_start c)).1.sublist (claimed_ids (start c) es)
  exact Multiset.nodup_of_le (le_trans (Multiset.le_add_right _ _) hle)
    (Multiset.coe_nodup.mpr hclaimed)

theorem inFlightIds_nodup {db : Db} (hw : db.core.WellFormed) : (inFlightIds db).Nodup :=
  hw.callIds.sublist (List.filter_sublist.map _)

theorem length_inFlightIds (hw : s.db.core.WellFormed) (hf : Fits s.worker) :
    (inFlightIds s.db).length ≤ capacity + (orphans s).length := by
  have hsplit := List.length_eq_length_filter_add (l := inFlightIds s.db) (decide <| · ∈ heldIds s)
  have hheld : (((inFlightIds s.db).filter (decide <| · ∈ heldIds s)).length) ≤
      (heldIds s).card := by
    have hle : (((inFlightIds s.db).filter (decide <| · ∈ heldIds s) : List Uuid) :
      Multiset Uuid) ≤ heldIds s := by
      rw [Multiset.le_iff_subset (Multiset.coe_nodup.mpr ((inFlightIds_nodup hw).filter _))]
      intro id hid
      simpa using (List.mem_filter.mp (Multiset.mem_coe.mp hid)).2
    simpa using Multiset.card_le_card hle
  have hcard := card_heldIds hf
  have horphans : (inFlightIds s.db).filter (fun id => !decide (id ∈ heldIds s)) = orphans s := by
    simp [orphans]
  rw [horphans] at hsplit
  omega

/-- From any state that a run has led to, deaths included: as long as the worker lives, no call of a
task is orphaned; a call is in its hands once at most; and no more calls are in flight than fit into
the pool, orphans apart. -/
theorem no_new_orphans (pg : Postgres) (c : Config) (es fs : List WorkerEvent)
    (hsteady : Along (step pg) (fun s e => steady pg s e = true) (run (step pg) (start c) es) fs) :
    let s := run (step pg) (start c) es
    let s' := run (step pg) s fs
    orphans s' ⊆ orphans s ∧ (heldIds s').Nodup ∧
      (inFlightIds s'.db).length ≤ capacity + (orphans s').length := by
  intro s s'
  have hw : s.db.core.WellFormed := wellFormed_db (wellFormed_start c) es
  have hboth : s'.db.core.WellFormed ∧ orphans s' ⊆ orphans s := by
    have hstep : ∀ (x : System) (e : WorkerEvent), x.db.core.WellFormed ∧ orphans x ⊆ orphans s →
        steady pg x e = true →
          (step pg x e).db.core.WellFormed ∧ orphans (step pg x e) ⊆ orphans s := by
      intro x e hx he
      refine ⟨wellFormed_db hx.1 [e], ?_⟩
      exact List.Subset.trans (orphans_step hx.1 he) hx.2
    exact Runs.invariant hstep ⟨hw, List.Subset.refl _⟩ hsteady
  have hrun : s' = run (step pg) (start c) (es ++ fs) := (run_append _ _ _).symm
  refine ⟨hboth.2, ?_, length_inFlightIds hboth.1 (fits_run fs (fits_run es fits_start))⟩
  rw [hrun]
  exact heldIds_nodup pg c (es ++ fs)

def servingConfig : Config where
  agents := [{ agentId := 1, name := "clerk" }]
  policies := [{
    agentId := 1
    systemPrompt := "serve"
    llmConfig := .object [("provider", .str "llm"), ("model", .str "m")] }]
  providers := [{ providerId := 3, name := "llm", baseUrl := "https://llm.example" }]
  nextId := 10

def sessionBegun (now : Time) : List WorkerEvent :=
  [.session ⟨now, .createSession 1 (some "go") none none⟩] ++
    List.replicate 4 (.tick { now := now + 1 }) ++ [.take 0, .register 0]

/-- The worker dies while a thread performs the first call. -/
def interruptedRun : List WorkerEvent :=
  sessionBegun 1 ++ [.crash]

/-- The next worker claims a call, performs it and submits its answer. -/
def servedRun : List WorkerEvent :=
  sessionBegun 3 ++ [.perform 0 PerformHttp.bareServer (fun _ => none), .deliver 0] ++
    List.replicate 9 (.tick { now := 5 })

/-- What was harvested is the call of the second worker, and the orphan is that of the first. -/
theorem restart_no_new_orphans :
    let s := run (step Allgres.bareServer) (start servingConfig) interruptedRun
    let s' := run (step Allgres.bareServer) s servedRun
    orphans s = [3] ∧ (s'.db.calls.filter (·.status = .harvested)).map (·.callId) = [6] ∧
      orphans s' ⊆ [3] ∧ (heldIds s').Nodup ∧ (inFlightIds s'.db).length ≤ capacity + 1 := by
  intro s s'
  have hbefore : orphans s = [3] := by decide +kernel
  have hafter : (orphans s').length = 1 := by decide +kernel
  have hserved : (s'.db.calls.filter (·.status = .harvested)).map (·.callId) = [6] := by
    decide +kernel
  have hsteady : Along (step Allgres.bareServer) (fun s e => steady Allgres.bareServer s e = true) s
      servedRun := by decide +kernel
  have hspec : orphans s' ⊆ orphans s ∧ (heldIds s').Nodup ∧
      (inFlightIds s'.db).length ≤ capacity + (orphans s').length :=
    no_new_orphans Allgres.bareServer servingConfig interruptedRun servedRun hsteady
  clear_value s' s
  rw [hbefore, hafter] at hspec
  exact ⟨hbefore, hserved, hspec⟩

end Orphans

end Allgres.RuntimeWorker
