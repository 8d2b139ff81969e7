import Allgres.Spending
import Allgres.LatestTurn
import Mathlib.Tactic.Linarith

/-! The costs that are written into the books. A response is read as it comes: a count that is
missing is taken for nothing, and one below zero is taken as it is. -/

namespace Allgres

open Raise Rows Runs Allgres.Core

def priceOf (c : Config) (o : Outbound) : Option ModelPrice :=
  c.prices.find? fun p => some p.providerId = o.providerId ∧ some p.model = o.requestBody.text "model"

def ModelPrice.total (p : ModelPrice) (prompt completion : Int) : Rat :=
  prompt * p.inputPricePer1k + completion * p.outputPricePer1k

/-- The calls that have a cost have both counts, and none is below zero. -/
structure Counted (db : Db) : Prop where
  known : ∀ q ∈ db.calls, q.costUsd.isSome = true →
    q.promptTokens.isSome = true ∧ q.completionTokens.isSome = true
  nonneg : ∀ q ∈ db.calls, ∀ x, q.costUsd = some x → 0 ≤ x

/-- What is asked of a step: a cost that is written has both counts and a price and is not
below zero, no total sinks, and each is the cost of the completed calls of its sessions. -/
structure Accounted (db db' : Db) : Prop extends Counted db' where
  priced : ∀ q ∈ db'.calls, q.costUsd.isSome = true → (∃ r ∈ db.calls, r.bill = q.bill) ∨
    ∃ o, q.req = .outbound o ∧ (priceOf db.cfg o).isSome = true
  grows : ∀ s ∈ db.cfg.schedules, ∀ s' ∈ db'.cfg.schedules, s'.scheduleId = s.scheduleId →
    s.spentCostUsd ≤ s'.spentCostUsd
  total : ∀ s ∈ db'.cfg.schedules, s.spentCostUsd = spentOn db' s.scheduleId

/-- A priced response reports both of its counts, and by the two prices they do not come to
less than nothing. -/
def Metered (db : Db) (e : ScheduleEvent) : Prop :=
  ∀ id status body, e.op = .plane (.completeOutbound id status body) →
    ∀ q o, db.call? .outboundCalls id = some q → q.status = .inFlight → q.req = .outbound o →
      o.kind = .llm → (status.any fun s => 200 ≤ s && s < 400) = true →
        ∀ p, priceOf db.cfg o = some p → ∀ u, llmUsageFromHttp body = some u →
          ∃ prompt completion, u = (some prompt, some completion) ∧ 0 ≤ p.total prompt completion

section Steps

variable {pg : Postgres} {now : Time} {db db' : Db} {q : Call} {o : Outbound} {status : Option Int}
  {body : Option String}

theorem callCost_eq (c : Config) (o : Outbound) (usage : Option (Option Int × Option Int)) :
    callCost c o usage = usage.bind fun u => (priceOf c o).map fun p =>
      p.total (u.1.getD 0) (u.2.getD 0) / 1000 := by
  unfold callCost
  cases usage with
  | none => rfl
  | some u =>
    simp only [Option.bind_some]
    refine congrArg (Option.map · (priceOf c o)) (funext fun p => ?_)
    unfold ModelPrice.total
    ring

theorem priced_eq_some {x : Rat} (h : priced db.cfg o status body = some x) :
    (status.any fun s => 200 ≤ s && s < 400) = true ∧ ∃ u p, llmUsageFromHttp body = some u ∧
      priceOf db.cfg o = some p ∧ x = p.total (u.1.getD 0) (u.2.getD 0) / 1000 := by
  unfold priced at h
  split at h
  · rename_i hok
    rw [callCost_eq] at h
    obtain ⟨u, hu, h⟩ := Option.bind_eq_some_iff.mp h
    obtain ⟨p, hp, rfl⟩ := Option.map_eq_some_iff.mp h
    exact ⟨hok, u, p, hu, hp, rfl⟩
  · cases h

/-- An in-flight call to a model that an event completes. -/
def Completes (db : Db) (e : ScheduleEvent) (q : Call) (o : Outbound) (status : Option Int)
    (body : Option String) : Prop :=
  e.op = .plane (.completeOutbound q.callId status body) ∧ db.call? .outboundCalls q.callId = some q ∧
    q.status = .inFlight ∧ q.req = .outbound o ∧ o.kind = .llm

theorem paid_of_completes {e : ScheduleEvent} (h : Completes db e q o status body) :
    PaidFor pg e.now db (scheduleStep pg db e) q o status body := by
  obtain ⟨hop, hq, hst, hreq, hk⟩ := h
  obtain ⟨d, result, hd, hpaid⟩ := fnCompleteOutbound_llm pg e.now status body hq hreq hst hk
  have hstep : scheduleStep pg db e = d := by
    unfold scheduleStep
    rw [hop]
    dsimp only [performSchedule, spares, perform]
    rw [hd]
    rfl
  exact hstep ▸ hpaid

/-- No total of a schedule that stays is changed. -/
def SameTotals (c c' : Config) : Prop :=
  ∀ s' ∈ c'.schedules, (∃ s ∈ c.schedules, s.scheduleId = s'.scheduleId ∧ s.spentCostUsd = s'.spentCostUsd) ∨
    ∀ s ∈ c.schedules, s.scheduleId ≠ s'.scheduleId

theorem sameTotals_of_eq {c c' : Config} (h : c'.schedules = c.schedules) : SameTotals c c' :=
  fun s hs => .inl ⟨s, h ▸ hs, rfl, rfl⟩

theorem sameTotals_update {f : Schedule → Schedule} (hf : KeepsSpent f) (db : Db) (id : Uuid) :
    SameTotals db.cfg (db.updateSchedule id f).cfg := by
  intro s' hs'
  obtain ⟨s, hs, rfl⟩ := mem_update.mp hs'
  refine .inl ⟨s, hs, ?_⟩
  split_ifs
  · exact ⟨(hf s).1.symm, (hf s).2.symm⟩
  · exact ⟨rfl, rfl⟩

theorem sweep_totals (now : Time) (rs : List Schedule) (db : Db) (n : Nat) :
    (∀ s' ∈ (rs.foldl (runSchedule now) (db, n)).1.cfg.schedules, ∃ s ∈ db.cfg.schedules,
      s.scheduleId = s'.scheduleId ∧ s.spentCostUsd = s'.spentCostUsd) ∧
      (rs.foldl (runSchedule now) (db, n)).1.calls = db.calls := by
  induction rs generalizing db n with
  | nil => exact ⟨fun s hs => ⟨s, hs, rfl, rfl⟩, rfl⟩
  | cons r rs ih =>
    have hround : (∀ s' ∈ (runSchedule now (db, n) r).1.cfg.schedules, ∃ s ∈ db.cfg.schedules,
        s.scheduleId = s'.scheduleId ∧ s.spentCostUsd = s'.spentCostUsd) ∧
        (runSchedule now (db, n) r).1.calls = db.calls := by
      obtain ⟨f, hf, -, hr | ⟨-, d, ids, hok, hr⟩⟩ := runSchedule_cases now db n r
      · rw [hr]
        refine ⟨fun s' hs' => ?_, rfl⟩
        obtain ⟨s, hs, rfl⟩ := mem_update.mp hs'
        refine ⟨s, hs, ?_⟩
        split_ifs
        · exact ⟨(hf s).1.symm, (hf s).2.symm⟩
        · exact ⟨rfl, rfl⟩
      · rw [hr]
        obtain ⟨hcfg, hcalls, -⟩ := fnCreateSession_adds hok
        refine ⟨fun s' hs' => ?_, hcalls⟩
        obtain ⟨s, hs, rfl⟩ := mem_update.mp hs'
        refine ⟨s, hcfg ▸ hs, ?_⟩
        split_ifs
        · exact ⟨(hf s).1.symm, (hf s).2.symm⟩
        · exact ⟨rfl, rfl⟩
    rcases hd : runSchedule now (db, n) r with ⟨d, m⟩
    rw [hd] at hround
    rw [List.foldl_cons, hd]
    obtain ⟨hrows, hcalls⟩ := ih d m
    refine ⟨fun s' hs' => ?_, hcalls.trans hround.2⟩
    obtain ⟨u, hu, huid, hus⟩ := hrows s' hs'
    obtain ⟨s, hs, hsid, hss⟩ := hround.1 u hu
    exact ⟨s, hs, hsid.trans huid, hss.trans hus⟩

/-- Every other event writes no cost and changes no total. -/
theorem scheduleStep_free (pg : Postgres) (db : Db) (e : ScheduleEvent)
    (h : ¬ ∃ q o status body, Completes db e q o status body) :
    Extends Call.bill (·.costUsd = none) db.calls (scheduleStep pg db e).calls ∧
      SameTotals db.cfg (scheduleStep pg db e).cfg := by
  rcases scheduleStep_cases pg db e with he | he
  · rw [he]
    exact ⟨Extends.refl _ _ _, sameTotals_of_eq rfl⟩
  · generalize scheduleStep pg db e = db' at he ⊢
    cases hop : e.op with
    | create name agentId goal intervalSeconds maxRuns endsAt startAt maxCostUsd =>
      rw [hop] at he
      obtain ⟨id, hok⟩ := map_fst_eq_ok he
      obtain ⟨row, -, hnew, rfl⟩ := fnCreateSchedule_spec hok
      refine ⟨Extends.refl _ _ _, fun s hs => ?_⟩
      rcases List.mem_append.mp hs with hs | hs
      · exact .inl ⟨s, hs, rfl, rfl⟩
      · rw [List.mem_singleton.mp hs]
        exact .inr hnew
    | set id change =>
      rw [hop] at he
      obtain ⟨f, hf, rfl⟩ := fnSetSchedule_spec _ he
      exact ⟨Extends.refl _ _ _, sameTotals_update hf db id⟩
    | delete id =>
      rw [hop] at he
      obtain rfl := fnDeleteSchedule_spec _ he
      exact ⟨Extends.refl _ _ _, fun s hs => .inl ⟨s, List.mem_of_mem_filter hs, rfl, rfl⟩⟩
    | runSchedules locked =>
      rw [hop] at he
      obtain rfl := Except.ok.inj he
      obtain ⟨hrows, hcalls⟩ := sweep_totals e.now (dueSchedules e.now locked db) db 0
      refine ⟨?_, fun s hs => .inl (hrows s hs)⟩
      rw [fnRunSchedules, hcalls]
      exact Extends.refl _ _ _
    | runNow id =>
      rw [hop] at he
      obtain ⟨ids, hok⟩ := map_fst_eq_ok he
      obtain ⟨r, d, f, -, -, -, hd, hf, rfl⟩ := fnRunScheduleNow_spec hok
      obtain ⟨hcfg, hcalls, -⟩ := fnCreateSession_adds hd
      refine ⟨?_, hcfg ▸ sameTotals_update hf d id⟩
      have hrows : (d.updateSchedule id f).calls = db.calls := hcalls
      rw [hrows]
      exact Extends.refl _ _ _
    | plane op =>
      rw [hop] at he
      dsimp only [performSchedule] at he
      split at he
      · rename_i hs
        rcases perform_spends hs he with hu | ⟨change, rfl, rfl⟩ | ⟨q, o, status, body, rfl, hp⟩
        · exact ⟨hu.calls, sameTotals_of_eq hu.rates.2⟩
        · simp only [spares, Bool.and_eq_true, decide_eq_true_eq] at hs
          exact ⟨Extends.refl _ _ _, sameTotals_of_eq hs.1⟩
        · exact absurd ⟨q, o, status, body, hop, hp.call, hp.inFlight, hp.req, hp.llm⟩ h
      · cases he

/-- The row of a call that was completed, and the other rows of before. -/
theorem paid_rows (hb : Booked db) (hp : PaidFor pg now db db' q o status body) :
    (∃ c ∈ db'.calls, c.bill = (q.settled db.cfg o status body now).bill) ∧
      ∀ c ∈ db'.calls, c.costUsd.isSome = true → (∃ r ∈ db.calls, r.bill = c.bill) ∨
        (c.bill = (q.settled db.cfg o status body now).bill ∧ c.costUsd = priced db.cfg o status body) := by
  obtain ⟨hcalls, -, -, -⟩ := completeLlmKind_writes_rows now db q o status body
  have hq := (call?_mem hp.call).1
  have hcost : q.costUsd = none := by
    cases hx : q.costUsd with
    | none => rfl
    | some x =>
      have hharv := (hb.costs q hq (by simp [hx])).2
      rw [hp.inFlight] at hharv
      cases hharv
  constructor
  · obtain ⟨new, hnew, -⟩ := hp.after.calls
    have hmem : (q.settled db.cfg o status body now).bill ∈ db'.calls.map Call.bill := by
      rw [hnew, hcalls]
      refine List.mem_append_left _ (List.mem_map_of_mem (mem_update.mpr ⟨q, hq, ?_⟩))
      rw [if_pos (by simp)]
    exact List.mem_map.mp hmem
  · intro c hc hsome
    obtain ⟨r, hr, hbill⟩ := old_of_cost hp.after.calls hc hsome
    rw [hcalls] at hr
    obtain ⟨u, hu, rfl⟩ := mem_update.mp hr
    by_cases hid : u.callId = q.callId
    · obtain rfl := eq_of_key Call.callId hb.wf.callIds hu hq hid
      rw [if_pos (by simp)] at hbill
      refine .inr ⟨hbill.symm, ?_⟩
      rw [← settled_cost db.cfg now hcost]
      exact congrArg Bill.costUsd hbill.symm
    · rw [if_neg (by simpa using hid)] at hbill
      exact .inl ⟨u, hu, hbill⟩

theorem settled_counts (c : Config) (q : Call) (o : Outbound) (now : Time) {u : Option Int × Option Int}
    (hok : (status.any fun s => 200 ≤ s && s < 400) = true) (hu : llmUsageFromHttp body = some u) :
    (q.settled c o status body now).promptTokens = u.1 ∧
      (q.settled c o status body now).completionTokens = u.2 := by
  unfold Call.settled
  rw [if_pos hok, hu]
  exact ⟨rfl, rfl⟩

/-- The totals of the books are those the step is asked for. -/
theorem Booked.spent (h : Booked db) : ∀ s ∈ db.cfg.schedules, s.spentCostUsd = spentOn db s.scheduleId := by
  intro s hs
  rw [spentOn_eq_billed h.costs]
  exact h.total s hs

theorem accounted_of_free (hb : Booked db) (hc : Counted db) (hb' : Booked db')
    (hcalls : Extends Call.bill (·.costUsd = none) db.calls db'.calls) (ht : SameTotals db.cfg db'.cfg) :
    Accounted db db' := by
  refine ⟨⟨fun c hm hsome => ?_, fun c hm x hx => ?_⟩, fun c hm hsome => ?_, fun s hs s' hs' hid => ?_,
    hb'.spent⟩
  · obtain ⟨r, hr, hbill⟩ := old_of_cost hcalls hm hsome
    have hcost : r.costUsd = c.costUsd := congrArg Bill.costUsd hbill
    have hknown := hc.known r hr (hcost ▸ hsome)
    have hprompt : r.promptTokens = c.promptTokens := congrArg Bill.promptTokens hbill
    have hcompletion : r.completionTokens = c.completionTokens := congrArg Bill.completionTokens hbill
    rwa [hprompt, hcompletion] at hknown
  · obtain ⟨r, hr, hbill⟩ := old_of_cost hcalls hm (by simp [hx])
    have hcost : r.costUsd = c.costUsd := congrArg Bill.costUsd hbill
    exact hc.nonneg r hr x (hcost.trans hx)
  · exact .inl (old_of_cost hcalls hm hsome)
  · rcases ht s' hs' with ⟨u, hu, huid, hspent⟩ | hnew
    · obtain rfl := eq_of_key Schedule.scheduleId hb.unique hu hs (huid.trans hid)
      exact hspent.le
    · exact absurd hid.symm (hnew s hs)

theorem accounted_of_paid (hb : Booked db) (hc : Counted db) (hb' : Booked db')
    (hp : PaidFor pg now db db' q o status body)
    (hmeter : ∀ u p, (status.any fun s => 200 ≤ s && s < 400) = true → llmUsageFromHttp body = some u →
      priceOf db.cfg o = some p → ∃ prompt completion, u = (some prompt, some completion) ∧
        0 ≤ p.total prompt completion) : Accounted db db' := by
  obtain ⟨-, hrows⟩ := paid_rows hb hp
  have hpos : ∀ x, priced db.cfg o status body = some x → 0 ≤ x := by
    intro x hx
    obtain ⟨hok, u, p, hu, hprice, rfl⟩ := priced_eq_some hx
    obtain ⟨prompt, completion, rfl, hle⟩ := hmeter u p hok hu hprice
    exact div_nonneg hle (by norm_num)
  refine ⟨⟨fun c hm hsome => ?_, fun c hm x hx => ?_⟩, fun c hm hsome => ?_, fun s hs s' hs' hid => ?_,
    hb'.spent⟩
  · rcases hrows c hm hsome with ⟨r, hr, hbill⟩ | ⟨hbill, hcost⟩
    · have hcost : r.costUsd = c.costUsd := congrArg Bill.costUsd hbill
      have hknown := hc.known r hr (hcost ▸ hsome)
      have hprompt : r.promptTokens = c.promptTokens := congrArg Bill.promptTokens hbill
      have hcompletion : r.completionTokens = c.completionTokens := congrArg Bill.completionTokens hbill
      rwa [hprompt, hcompletion] at hknown
    · obtain ⟨x, hx⟩ := Option.isSome_iff_exists.mp hsome
      obtain ⟨hok, u, p, hu, hprice, -⟩ := priced_eq_some (hcost.symm.trans hx)
      obtain ⟨prompt, completion, rfl, -⟩ := hmeter u p hok hu hprice
      obtain ⟨hprompt, hcompletion⟩ := settled_counts db.cfg q o now hok hu
      have hcp : c.promptTokens = (q.settled db.cfg o status body now).promptTokens :=
        congrArg Bill.promptTokens hbill
      have hcc : c.completionTokens = (q.settled db.cfg o status body now).completionTokens :=
        congrArg Bill.completionTokens hbill
      rw [hcp, hcc, hprompt, hcompletion]
      exact ⟨rfl, rfl⟩
  · rcases hrows c hm (by simp [hx]) with ⟨r, hr, hbill⟩ | ⟨-, hcost⟩
    · have hcost : r.costUsd = c.costUsd := congrArg Bill.costUsd hbill
      exact hc.nonneg r hr x (hcost.trans hx)
    · exact hpos x (hcost.symm.trans hx)
  · rcases hrows c hm hsome with hold | ⟨hbill, hcost⟩
    · exact .inl hold
    · obtain ⟨x, hx⟩ := Option.isSome_iff_exists.mp hsome
      obtain ⟨-, u, p, -, hprice, -⟩ := priced_eq_some (hcost.symm.trans hx)
      have hreq : c.req = q.req := (congrArg Bill.req hbill).trans
        (congrArg (·.2.2) (settled_keeps db.cfg o status body now q).1)
      exact .inr ⟨o, hreq.trans hp.req, by rw [hprice]; rfl⟩
  · obtain ⟨-, -, -, hsched⟩ := completeLlmKind_writes_rows now db q o status body
    rw [hp.after.rates.2, hsched] at hs'
    obtain ⟨u, hu, huid, hspent⟩ := mem_charged hs'
    obtain rfl := eq_of_key Schedule.scheduleId hb.unique hu hs (huid.trans hid)
    rw [hspent]
    split_ifs
    · cases hx : priced db.cfg o status body with
      | none => simp
      | some x => simpa using hpos x hx
    · simp

theorem metered_of_accounted (hb : Booked db) (hp : PaidFor pg now db db' q o status body)
    (ha : Accounted db db') (hok : (status.any fun s => 200 ≤ s && s < 400) = true)
    {p : ModelPrice} (hprice : priceOf db.cfg o = some p) {u : Option Int × Option Int}
    (hu : llmUsageFromHttp body = some u) :
    ∃ prompt completion, u = (some prompt, some completion) ∧ 0 ≤ p.total prompt completion := by
  obtain ⟨⟨c, hm, hbill⟩, -⟩ := paid_rows hb hp
  have hcost : c.costUsd = some (p.total (u.1.getD 0) (u.2.getD 0) / 1000) := by
    have hset : (q.settled db.cfg o status body now).costUsd = callCost db.cfg o (llmUsageFromHttp body) := by
      unfold Call.settled
      rw [if_pos hok]
      rfl
    have hc : c.costUsd = (q.settled db.cfg o status body now).costUsd := congrArg Bill.costUsd hbill
    rw [hc, hset, callCost_eq, hu, hprice]
    rfl
  obtain ⟨hknown, hknown'⟩ := ha.known c hm (by rw [hcost]; rfl)
  have hcp : c.promptTokens = (q.settled db.cfg o status body now).promptTokens :=
    congrArg Bill.promptTokens hbill
  have hcc : c.completionTokens = (q.settled db.cfg o status body now).completionTokens :=
    congrArg Bill.completionTokens hbill
  obtain ⟨hprompt, hcompletion⟩ := settled_counts db.cfg q o now hok hu
  rw [hcp, hprompt] at hknown
  rw [hcc, hcompletion] at hknown'
  obtain ⟨prompt, hp1⟩ := Option.isSome_iff_exists.mp hknown
  obtain ⟨completion, hp2⟩ := Option.isSome_iff_exists.mp hknown'
  refine ⟨prompt, completion, Prod.ext hp1 hp2, ?_⟩
  have hle := ha.nonneg c hm _ hcost
  rw [hp1, hp2] at hle
  have hmul := mul_nonneg hle (by norm_num : (0 : Rat) ≤ 1000)
  rwa [div_mul_cancel₀ _ (by norm_num)] at hmul

/-- A step from good books is accounted for exactly when the response it takes in is metered. -/
theorem accounted_iff (hb : Booked db) (hc : Counted db) (e : ScheduleEvent) :
    Accounted db (scheduleStep pg db e) ↔ Metered db e := by
  by_cases hcomp : ∃ q o status body, Completes db e q o status body
  · obtain ⟨q, o, status, body, hcomp⟩ := hcomp
    have hp : PaidFor pg e.now db (scheduleStep pg db e) q o status body := paid_of_completes hcomp
    constructor
    · intro ha id status' body' hop r o' hr _ hreq _ hok p hprice u hu
      rw [hcomp.1] at hop
      cases hop
      obtain rfl := Option.some.inj (hp.call.symm.trans hr)
      obtain rfl : o = o' := by
        rw [hp.req] at hreq
        exact Request.outbound.inj hreq
      exact metered_of_accounted hb hp ha hok hprice hu
    · intro hm
      refine accounted_of_paid hb hc (hb.step e) hp fun u p hok hu hprice => ?_
      exact hm _ status body hcomp.1 q o hp.call hp.inFlight hp.req hp.llm hok p hprice u hu
  · obtain ⟨hcalls, htotals⟩ := scheduleStep_free pg db e hcomp
    refine iff_of_true (accounted_of_free hb hc (hb.step e) hcalls htotals) ?_
    intro id status body hop q o hq hst hreq hk
    obtain ⟨-, rfl, -⟩ := call?_mem hq
    exact absurd ⟨q, o, status, body, hop, hq, hst, hreq, hk⟩ hcomp

end Steps

end Allgres
