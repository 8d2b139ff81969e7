import Mathlib.Algebra.BigOperators.Group.List.Basic
import Mathlib.Algebra.Order.Ring.Rat
import Mathlib.Tactic.Ring
import Allgres.CallStates
import Allgres.Delegation
import Allgres.ScheduleLimits

/-! What a schedule has spent. The total of its row is kept by one addition for each call to
a model that comes back; here it is compared with the costs of the calls themselves. -/

namespace Allgres

open Raise Rows Runs Allgres.Core

section Houses

variable {db db' : Db} {pg : Postgres} {now : Time} {G : Json → Prop}

/-- Every task is in a session, under an id from the counter. -/
structure Housed (db : Db) : Prop where
  sessionLt : ∀ s ∈ db.sessions, s.sessionId < db.nextId
  session : ∀ t ∈ db.tasks, ∃ s ∈ db.sessions, s.sessionId = t.sessionId

theorem Housed.of_same (h : Housed db) (hn : db.nextId ≤ db'.nextId)
    (hs : db'.sessions.map (·.sessionId) = db.sessions.map (·.sessionId))
    (ht : ∀ t' ∈ db'.tasks, ∃ t ∈ db.tasks, t.sessionId = t'.sessionId) : Housed db' := by
  constructor
  · intro s' hs'
    obtain ⟨s, hsm, hid⟩ := mem_of_ident hs hs'
    exact hid ▸ (h.sessionLt s hsm).trans_le hn
  · intro t' ht'
    obtain ⟨t, htm, hid⟩ := ht t' ht'
    obtain ⟨s, hsm, hsid⟩ := h.session t htm
    obtain ⟨s', hs', hid'⟩ := mem_of_ident hs.symm hsm
    exact ⟨s', hs', hid'.trans (hsid.trans hid)⟩

theorem sessionIds_of_extends {P : Uuid × Option Uuid → Prop} (h : Extends Session.origin P db.sessions db'.sessions)
    (hl : db'.sessions.length = db.sessions.length) :
    db'.sessions.map (·.sessionId) = db.sessions.map (·.sessionId) := by
  obtain ⟨new, hnew, -⟩ := h
  have hnil : new = [] := by
    have hlen := congrArg List.length hnew
    simp only [List.length_map, List.length_append] at hlen
    exact List.length_eq_zero_iff.mp (by omega)
  rw [hnil, List.append_nil] at hnew
  have hids := congrArg (List.map Prod.fst) hnew
  simpa [List.map_map, Function.comp_def, Session.origin] using hids

theorem length_sessions_applyNext (db : Db) (t : Task) (next : Next) (now : Time) :
    (db.applyNext t next now).sessions.length = db.sessions.length := by
  have hcomplete : ∀ d : Db, (d.maybeCompleteSession t.sessionId now).sessions.length = d.sessions.length := by
    intro d
    rcases maybeCompleteSession_cases d t.sessionId now with ⟨-, h⟩ | ⟨-, h⟩
    · rw [h]
    · rw [h]
      exact List.length_map _
  cases next with
  | delegate child wait => cases wait <;> rfl
  | finalAnswer answer =>
    rw [Db.applyNext, hcomplete]
    exact List.length_map _
  | fail error => rw [Db.applyNext, hcomplete]; rfl
  | _ => rfl

theorem length_sessions_record (db : Db) (t : Task) (s : Step) (now : Time) :
    (db.record t s now).sessions.length = db.sessions.length := by
  have hset : ∀ (d : Db) cut, (d.setCompacted cut).sessions.length = d.sessions.length := by
    intro d cut
    cases cut with
    | none => rfl
    | some c => exact List.length_map _
  have hmark : ∀ (d : Db) type name, (markCapabilitySelected d t.taskId type name).sessions = d.sessions := by
    intro d type name
    unfold markCapabilitySelected
    dsimp only
    split <;> rfl
  unfold Db.record
  dsimp only
  rw [hset]
  split
  · rfl
  · rw [hmark]
    rfl

theorem Housed.startTask (h : Housed db) {sid agentId : Uuid} {goal : String}
    (hs : ∃ s ∈ db.sessions, s.sessionId = sid) : Housed (db.startTask sid agentId goal now) := by
  constructor
  · intro s hsm
    exact (h.sessionLt s hsm).trans_le (Nat.le_succ _)
  · intro t ht
    rcases List.mem_append.mp ht with ht | ht
    · exact h.session t ht
    · rw [List.mem_singleton.mp ht]
      exact hs

theorem Housed.opened (h : Housed db) {agentId : Uuid} {goal : Option String}
    {projectId scheduleId : Option Uuid} {ids : Uuid × Uuid}
    (hc : fnCreateSession now db agentId goal projectId scheduleId = .ok (db', ids)) : Housed db' := by
  obtain ⟨goal', rfl⟩ := fnCreateSession_eq hc
  refine Housed.startTask ⟨fun s hs => ?_, fun t ht => ?_⟩
    ⟨_, List.mem_append_right _ (List.mem_singleton_self _), rfl⟩
  · rcases List.mem_append.mp hs with hs | hs
    · exact (h.sessionLt s hs).trans_le (Nat.le_succ _)
    · rw [List.mem_singleton.mp hs]
      exact Nat.lt_succ_self _
  · obtain ⟨s, hs, hid⟩ := h.session t ht
    exact ⟨s, List.mem_append_left _ hs, hid⟩

theorem Housed.continued (h : Housed db) {sid taskId : Uuid} {message : Option String}
    (hc : fnContinueSession now db sid message = .ok (db', taskId)) : Housed db' := by
  obtain ⟨s, goal, hs, -, rfl⟩ := fnContinueSession_eq hc
  have hsid : s.sessionId = sid := by simpa using List.find?_some hs
  have hids : (db.updateSession sid fun s => { s with status := .open, completedAt := none }).sessions.map
      (·.sessionId) = db.sessions.map (·.sessionId) := by
    apply map_update
    intro s
    rfl
  have hopen : Housed (db.updateSession sid fun s => { s with status := .open, completedAt := none }) :=
    h.of_same (Nat.le_refl _) hids fun t ht => ⟨t, ht, rfl⟩
  obtain ⟨s', hs', hid⟩ := mem_of_ident hids.symm (List.mem_of_find?_eq_some hs)
  exact hopen.startTask ⟨s', hs', hid.trans hsid⟩

theorem Housed.stepped (h : Housed db) (hw : db.core.WellFormed) {t : Task} {a : Agent} {payload : Json}
    {s : Step} (hg : G payload) (ht : db.task? t.taskId = some t) (hr : t.status = .running)
    (ha : db.cfg.agent? t.agentId = some a)
    (hs : Turn.payloadStep pg ⟨db, now, t, a, db.cfg.policy? t.agentId⟩ payload = .ok s) :
    Housed ((db.record t s now).applyNext t s.next now) := by
  have hrates : SameRates db.cfg s.cfg := Turn.payloadStep_cfg pg ⟨db, now, t, a, db.cfg.policy? t.agentId⟩
    payload (SameRates.refl db.cfg) (fun a v _ => Turn.act_rates pg _ v a) s hs
  have hsess := ((unspent_record db t now hrates).trans (unspent_applyNext _ t s.next now)).sessions
  have hids := sessionIds_of_extends hsess
    ((length_sessions_applyNext _ t s.next now).trans (length_sessions_record db t s now))
  have hnext := ((Write.stepped hg ht hr ha hs).grow hw).nextId
  refine h.of_same hnext hids fun t' ht' => ?_
  have hmem := (mem_of_task? (s := db.core) ht).1
  rcases applyNext_tasks (db.record t s now) t s.next now with ⟨hf, -⟩ | ⟨child, wait, hn, hf⟩
  · rw [record_tasks] at hf
    obtain ⟨r, hrm, hrf⟩ := mem_of_ident hf ht'
    exact ⟨r, hrm, congrArg (·.1.2.1) hrf⟩
  · rw [record_tasks] at hf
    obtain ⟨r, hrm, hrf⟩ := mem_of_ident hf ht'
    have hsid : r.sessionId = t'.sessionId := congrArg (·.1.2.1) hrf
    rcases List.mem_append.mp hrm with hrm | hrm
    · exact ⟨r, hrm, hsid⟩
    · have hasks := Turn.payloadStep_asks pg _ payload s hs
      dsimp only at hasks
      rw [hn] at hasks
      have hchild : child.sessionId = t.sessionId := by
        cases hasks
        rfl
      rw [List.mem_singleton.mp hrm] at hsid
      exact ⟨t, hmem, hchild.symm.trans hsid⟩

theorem Housed.write (hw : db.core.WellFormed) (h : Housed db) (hwr : Write pg now G db db') : Housed db' := by
  have hnext := (hwr.grow hw).nextId
  have hframe : ∀ {p : Task → Bool} {f : Task → Task}, (∀ r, (f r).frame = r.frame) →
      ∀ t' ∈ update p f db.tasks, ∃ t ∈ db.tasks, t.sessionId = t'.sessionId := by
    intro p f hf t' ht'
    obtain ⟨t, ht, hid⟩ := mem_of_ident (map_frame_update hf db.tasks) ht'
    exact ⟨t, ht, congrArg (·.1.2.1) hid⟩
  cases hwr with
  | aside ha =>
    refine h.of_same hnext (by rw [ha.sessions]) fun t ht => ?_
    rw [ha.tasks] at ht
    exact ⟨t, ht, rfl⟩
  | opened hc => exact h.opened hc
  | continued hc => exact h.continued hc
  | calls _ => exact h.of_same hnext rfl fun t ht => ⟨t, ht, rfl⟩
  | approvals _ => exact h.of_same hnext rfl fun t ht => ⟨t, ht, rfl⟩
  | approval _ => exact h.of_same hnext rfl fun t ht => ⟨t, ht, rfl⟩
  | task hf _ => exact h.of_same hnext rfl (hframe hf)
  | @ended id sid f hf _ _ =>
    refine h.of_same hnext ?_ ?_
    · rcases maybeCompleteSession_cases (db.updateTask id f) sid now with ⟨-, he⟩ | ⟨-, he⟩
      · rw [he]
        rfl
      · rw [he]
        exact map_update (closeSession_id _ sid now) _
    · rw [tasks_maybeCompleteSession]
      exact hframe hf
  | asked _ _ _ => exact h.of_same hnext rfl fun t ht => ⟨t, ht, rfl⟩
  | stepped hg ht hr ha hs => exact h.stepped hw hg ht hr ha hs
  | cancelled hc =>
    have hsess := (fnCancelSession_unspent _ _ _ hc).sessions
    unfold fnCancelSession at hc
    obtain ⟨_, _, hc⟩ := bind_eq_ok.mp hc
    obtain ⟨rfl, -⟩ := Prod.mk.inj (Except.ok.inj hc)
    obtain ⟨hs, -, hf⟩ := cancelTasks_sessions now _ (db.tasks.filter fun t => t.sessionId = _ ∧ unfinished t) db
    refine h.of_same hnext (sessionIds_of_extends hsess ?_) fun t' ht' => ?_
    · exact (List.length_map _).trans (congrArg List.length hs)
    · obtain ⟨t, ht, hid⟩ := mem_of_ident hf ht'
      exact ⟨t, ht, congrArg (·.1.2.1) hid⟩

end Houses

section Sums

variable {α κ : Type} [DecidableEq κ]

/-- A row found by its key is the only one whose share of a sum changes. -/
theorem sum_update {key : α → κ} {rows : List α} {a : α} {f : α → α} (g : α → Rat)
    (hn : (rows.map key).Nodup) (ha : a ∈ rows) :
    ((update (key · = key a) f rows).map g).sum = (rows.map g).sum + (g (f a) - g a) := by
  obtain ⟨pre, post, rfl⟩ := List.append_of_mem ha
  rw [update_split hn]
  simp only [List.map_append, List.map_cons, List.sum_append, List.sum_cons]
  ring

theorem sum_filter (p : α → Bool) (g : α → Rat) (rows : List α) :
    ((rows.filter p).map g).sum = (rows.map fun a => if p a then g a else 0).sum := by
  induction rows with
  | nil => rfl
  | cons a rows ih =>
    by_cases hp : p a = true
    · simp [hp, ih]
    · simp [hp, ih]

end Sums

/-- The share of a call in what a schedule has spent, by the schedule of its task. -/
def Bill.share (scheduleOf : Uuid → Option Uuid) (id : Uuid) (b : Bill) : Rat :=
  if scheduleOf b.taskId = some id then b.costUsd.getD 0 else 0

def billed (db : Db) (id : Uuid) : Rat :=
  (db.calls.map fun q => q.bill.share (scheduleOf db) id).sum

/-- The cost of the completed calls to a model in the sessions that a schedule spawned. -/
def spentOn (db : Db) (id : Uuid) : Rat :=
  ((db.calls.filter fun q => decide (q.req.isLlm = true ∧ q.status = .harvested ∧
    scheduleOf db q.taskId = some id)).map fun q => q.costUsd.getD 0).sum

section Shares

variable {db db' : Db} {P : Uuid × Option Uuid → Prop}

/-- A row found by what it shows stays the one that is found. -/
theorem find_extends {α β κ : Type} [DecidableEq κ] {f : α → β} {Q : β → Prop} {xs ys : List α} (key : β → κ)
    (h : Extends f Q xs ys) {k : κ} (hk : ∃ x ∈ xs, key (f x) = k) :
    (ys.find? fun y => key (f y) = k).map f = (xs.find? fun x => key (f x) = k).map f := by
  obtain ⟨new, hnew, -⟩ := h
  have hmap : ∀ l : List α, (l.find? fun x => key (f x) = k).map f = (l.map f).find? fun b => key b = k := by
    intro l
    rw [List.find?_map]
    rfl
  have hsome : ((xs.map f).find? fun b => decide (key b = k)).isSome = true := by
    rw [List.find?_isSome]
    obtain ⟨x, hx, hxk⟩ := hk
    exact ⟨f x, List.mem_map_of_mem hx, by simpa using hxk⟩
  rw [hmap, hmap, hnew, List.find?_append, Option.or_of_isSome hsome]

/-- Tasks stay in their sessions. -/
def SameHomes (db db' : Db) : Prop :=
  ∀ i t, db.task? i = some t → ∃ r, db'.task? i = some r ∧ r.sessionId = t.sessionId

theorem sameHomes_of_grow (hw : db.core.WellFormed) (hg : Grow db.core db'.core) : SameHomes db db' := by
  intro i t ht
  obtain ⟨r, hr, hid⟩ := hg.task? hw (i := i) ht
  exact ⟨r, hr, congrArg (·.2.1) hid⟩

/-- The schedule of a task is settled when the task is made. -/
theorem scheduleOf_kept (hw : db.core.WellFormed) (hh : Housed db) (hk : SameHomes db db')
    (hs : Extends Session.origin P db.sessions db'.sessions) {i : Uuid} (hi : ∃ t ∈ db.tasks, t.taskId = i) :
    scheduleOf db' i = scheduleOf db i := by
  obtain ⟨t, ht, rfl⟩ := hi
  have hfound : db.task? t.taskId = some t := task?_of_mem (s := db.core) hw ht
  obtain ⟨r, hr, hsid⟩ := hk t.taskId t hfound
  have horigin := find_extends Prod.fst hs (hh.session t ht)
  unfold scheduleOf
  rw [hfound, hr]
  simp only [Option.bind_some, hsid]
  have hbind : ∀ o : Option Session, o.bind (·.scheduleId) = (o.map Session.origin).bind (·.2) := by
    intro o
    cases o <;> rfl
  rw [hbind, hbind]
  exact congrArg (·.bind fun o => o.2) horigin

theorem share_eq_zero {f : Uuid → Option Uuid} {id : Uuid} {b : Bill} (h : b.costUsd = none) :
    b.share f id = 0 := by
  simp [Bill.share, h]

/-- Steps that are free leave what is billed. -/
theorem billed_kept (hw : db.core.WellFormed) (hh : Housed db) (hk : SameHomes db db')
    (hs : Extends Session.origin P db.sessions db'.sessions)
    (hc : Extends Call.bill (·.costUsd = none) db.calls db'.calls) (id : Uuid) :
    billed db' id = billed db id := by
  obtain ⟨new, hnew, hfree⟩ := hc
  have hsplit : billed db' id = ((db.calls.map Call.bill).map (Bill.share (scheduleOf db') id)).sum +
      (new.map (Bill.share (scheduleOf db') id)).sum := by
    rw [← List.sum_append, ← List.map_append, ← hnew, List.map_map]
    rfl
  have hzero : (new.map (Bill.share (scheduleOf db') id)).sum = 0 := by
    refine List.sum_eq_zero fun x hx => ?_
    obtain ⟨b, hb, rfl⟩ := List.mem_map.mp hx
    exact share_eq_zero (hfree b hb)
  have hold : (db.calls.map Call.bill).map (Bill.share (scheduleOf db') id) =
      db.calls.map fun q => q.bill.share (scheduleOf db) id := by
    rw [List.map_map]
    refine List.map_congr_left fun q hq => ?_
    have hkept := scheduleOf_kept hw hh hk hs (hw.callTask q hq)
    simp only [Function.comp_apply, Bill.share]
    rw [show q.bill.taskId = q.taskId from rfl, hkept]
  rw [hsplit, hzero, add_zero, hold]
  rfl

theorem spentOn_eq_billed (h : ∀ q ∈ db.calls, q.costUsd.isSome = true → q.req.isLlm = true ∧ q.status = .harvested)
    (id : Uuid) : spentOn db id = billed db id := by
  unfold spentOn billed
  rw [sum_filter]
  refine congrArg List.sum (List.map_congr_left fun q hq => ?_)
  cases hcost : q.costUsd with
  | none => simp [Bill.share, Call.bill, hcost]
  | some x =>
    obtain ⟨hllm, hst⟩ := h q hq (by simp [hcost])
    simp [Bill.share, Call.bill, hcost, hllm, hst]

end Shares

/-- What the books of a state rest on. -/
structure Booked (db : Db) : Prop where
  wf : db.core.WellFormed
  housed : Housed db
  unique : UniqueSchedules db
  linked : ∀ s ∈ db.sessions, ∀ id, s.scheduleId = some id → ∃ r ∈ db.cfg.schedules, r.scheduleId = id
  costs : ∀ q ∈ db.calls, q.costUsd.isSome = true → q.req.isLlm = true ∧ q.status = .harvested
  total : ∀ r ∈ db.cfg.schedules, r.spentCostUsd = billed db r.scheduleId

section Books

variable {pg : Postgres} {now : Time} {db d db' : Db} {q : Call} {o : Outbound} {status : Option Int}
  {body : Option String}

theorem old_of_cost (hc : Extends Call.bill (·.costUsd = none) db.calls db'.calls) {c : Call}
    (hm : c ∈ db'.calls) (hcost : c.costUsd.isSome = true) : ∃ r ∈ db.calls, r.bill = c.bill := by
  obtain ⟨new, hnew, hfree⟩ := hc
  have hmem : c.bill ∈ db.calls.map Call.bill ++ new := hnew ▸ List.mem_map_of_mem hm
  rcases List.mem_append.mp hmem with hmem | hmem
  · exact List.mem_map.mp hmem
  · have hnone : c.costUsd = none := hfree _ hmem
    rw [hnone] at hcost
    cases hcost

/-- Steps that are free keep the books, where what is harvested stays so. -/
theorem Booked.free (h : Booked db) (hu : Unspent db db') (hw : db'.core.WellFormed) (hh : Housed db')
    (hk : SameHomes db db') (hst : ∀ r ∈ db.calls, r.status = .harvested → ∀ c ∈ db'.calls,
      c.callId = r.callId → c.status = .harvested) : Booked db' where
  wf := hw
  housed := hh
  unique := by
    unfold UniqueSchedules
    rw [hu.rates.2]
    exact h.unique
  linked s hs id hid := by
    obtain ⟨new, hnew, hnone⟩ := hu.sessions
    have hmem : s.origin ∈ db.sessions.map Session.origin ++ new := hnew ▸ List.mem_map_of_mem hs
    rw [hu.rates.2]
    rcases List.mem_append.mp hmem with hmem | hmem
    · obtain ⟨r, hr, ho⟩ := List.mem_map.mp hmem
      have hrid : r.scheduleId = s.scheduleId := congrArg Prod.snd ho
      exact h.linked r hr id (hrid.trans hid)
    · have hfree : s.scheduleId = none := hnone _ hmem
      rw [hid] at hfree
      cases hfree
  costs c hc hcost := by
    obtain ⟨r, hr, hb⟩ := old_of_cost hu.calls hc hcost
    have hrcost : r.costUsd = c.costUsd := congrArg Bill.costUsd hb
    have hreq : r.req = c.req := congrArg Bill.req hb
    obtain ⟨hllm, hharv⟩ := h.costs r hr (hrcost ▸ hcost)
    exact ⟨hreq ▸ hllm, hst r hr hharv c hc (congrArg Bill.callId hb).symm⟩
  total r hr := by
    rw [hu.rates.2] at hr
    rw [billed_kept h.wf h.housed hk hu.sessions hu.calls]
    exact h.total r hr

/-- What a response costs: only one that succeeded is priced. -/
def priced (c : Config) (o : Outbound) (status : Option Int) (body : Option String) : Option Rat :=
  if (status.any fun s => 200 ≤ s && s < 400) = true then callCost c o (llmUsageFromHttp body) else none

def charged (c : Config) (cost : Option Rat) (id : Option Uuid) : List Schedule :=
  match cost, id with
  | some x, some id => (chargeSchedule c id x).schedules
  | _, _ => c.schedules

def Call.responded (status : Option Int) (body : Option String) (now : Time) (c : Call) : Call :=
  { c with
    status := .harvested
    responseStatus := status
    responseBody := some (left (orEmpty body) 200000)
    updatedAt := now }

def Call.costing (usage : Option (Option Int × Option Int)) (cost : Option Rat) (c : Call) : Call :=
  { c with
    promptTokens := usage.bind (·.1)
    completionTokens := usage.bind (·.2)
    costUsd := cost }

/-- What the completion of a call to a model writes of its row. -/
def Call.settled (c : Config) (o : Outbound) (status : Option Int) (body : Option String) (now : Time)
    (q : Call) : Call :=
  if (status.any fun s => 200 ≤ s && s < 400) = true then
    (q.responded status body now).costing (llmUsageFromHttp body) (callCost c o (llmUsageFromHttp body))
  else q.responded status body now

theorem settled_keeps (c : Config) (o : Outbound) (status : Option Int) (body : Option String) (now : Time)
    (q : Call) :
    (q.settled c o status body now).ident = q.ident ∧ (q.settled c o status body now).status = .harvested := by
  unfold Call.settled
  split_ifs <;> exact ⟨rfl, rfl⟩

theorem settled_cost (c : Config) (now : Time) (hcost : q.costUsd = none) :
    (q.settled c o status body now).costUsd = priced c o status body := by
  unfold Call.settled priced
  split_ifs
  · rfl
  · exact hcost

/-- The rows that the completion of a call to a model writes. -/
theorem completeLlmKind_writes_rows (now : Time) (db : Db) (q : Call) (o : Outbound) (status : Option Int)
    (body : Option String) :
    let d := (completeLlmKind (db.harvestResponse q.callId status body now) q o status body).1
    d.calls = update (·.callId = q.callId) (Call.settled db.cfg o status body now) db.calls ∧
      d.core = { db.core with calls := d.calls } ∧ d.sessions = db.sessions ∧
      d.cfg.schedules = charged db.cfg (priced db.cfg o status body) (scheduleOf db q.taskId) := by
  by_cases hok : (status.any fun s => 200 ≤ s && s < 400) = true
  · have hrow : Call.settled db.cfg o status body now = fun c => (c.responded status body now).costing
        (llmUsageFromHttp body) (callCost db.cfg o (llmUsageFromHttp body)) := by
      funext c
      rw [Call.settled, if_pos hok]
    have hcalls := update_update (p := fun c : Call => decide (c.callId = q.callId))
      (f := Call.responded status body now)
      (g := Call.costing (llmUsageFromHttp body) (callCost db.cfg o (llmUsageFromHttp body)))
      (fun _ => rfl) db.calls
    rw [hrow, ← hcalls, priced, if_pos hok]
    unfold completeLlmKind
    rw [if_pos hok]
    dsimp only
    have hsched : scheduleOf ((db.harvestResponse q.callId status body now).updateCall q.callId fun c =>
        { c with
          promptTokens := (llmUsageFromHttp body).bind (·.1)
          completionTokens := (llmUsageFromHttp body).bind (·.2)
          costUsd := callCost db.cfg o (llmUsageFromHttp body) }) q.taskId = scheduleOf db q.taskId := rfl
    have hcfg : (db.harvestResponse q.callId status body now).cfg = db.cfg := rfl
    rw [hcfg, hsched]
    cases callCost db.cfg o (llmUsageFromHttp body) with
    | none => exact ⟨rfl, rfl, rfl, rfl⟩
    | some x => cases scheduleOf db q.taskId <;> exact ⟨rfl, rfl, rfl, rfl⟩
  · have hrow : Call.settled db.cfg o status body now = Call.responded status body now := by
      funext c
      rw [Call.settled, if_neg hok]
    rw [hrow, priced, if_neg hok]
    unfold completeLlmKind
    rw [if_neg hok]
    dsimp only
    split_ifs <;> exact ⟨rfl, rfl, rfl, rfl⟩

theorem charged_ids (c : Config) (cost : Option Rat) (id : Option Uuid) :
    (charged c cost id).map (·.scheduleId) = c.schedules.map (·.scheduleId) := by
  unfold charged
  split
  · apply map_update
    intro s
    rfl
  · rfl

/-- A charge goes to one schedule. -/
theorem mem_charged {c : Config} {cost : Option Rat} {id : Option Uuid} {r : Schedule}
    (h : r ∈ charged c cost id) : ∃ s ∈ c.schedules, s.scheduleId = r.scheduleId ∧
      r.spentCostUsd = s.spentCostUsd + if id = some s.scheduleId then cost.getD 0 else 0 := by
  unfold charged at h
  split at h
  · rename_i x id'
    obtain ⟨s, hs, rfl⟩ := mem_update.mp h
    by_cases hid : s.scheduleId = id'
    · refine ⟨s, hs, ?_, ?_⟩
      · rw [if_pos (by simpa using hid)]
      · rw [if_pos (by simpa using hid), if_pos (by rw [hid])]
        rfl
    · have hne : ¬ some id' = some s.scheduleId := fun he => hid (Option.some.inj he).symm
      refine ⟨s, hs, ?_, ?_⟩
      · rw [if_neg (by simpa using hid)]
      · rw [if_neg (by simpa using hid), if_neg hne, add_zero]
  · rename_i hnone
    refine ⟨r, h, rfl, ?_⟩
    split_ifs with hid
    · cases cost with
      | none => simp
      | some x => exact absurd hid (fun hid => hnone x r.scheduleId rfl hid)
    · rw [add_zero]

/-- The books are kept when a call to a model comes back: its cost is added to what is billed
and to the total of its schedule. -/
theorem Booked.billing (h : Booked db) (hq : q ∈ db.calls) (hreq : q.req = .outbound o) (hk : o.kind = .llm)
    (hst : q.status = .inFlight)
    (hcalls : d.calls = update (·.callId = q.callId) (Call.settled db.cfg o status body now) db.calls)
    (hcore : d.core = { db.core with calls := d.calls }) (hsess : d.sessions = db.sessions)
    (hsched : d.cfg.schedules = charged db.cfg (priced db.cfg o status body) (scheduleOf db q.taskId)) :
    Booked d := by
  have htasks : d.tasks = db.tasks := congrArg Core.tasks hcore
  have hnext : d.nextId = db.nextId := congrArg Core.nextId hcore
  have hcost : q.costUsd = none := by
    cases hx : q.costUsd with
    | none => rfl
    | some x =>
      have hharv := (h.costs q hq (by simp [hx])).2
      rw [hst] at hharv
      cases hharv
  have hof : scheduleOf d = scheduleOf db := by
    funext i
    simp only [scheduleOf, Db.task?, Db.session?, htasks, hsess]
  have hids := charged_ids db.cfg (priced db.cfg o status body) (scheduleOf db q.taskId)
  have hbilled : ∀ id, billed d id = billed db id +
      (if scheduleOf db q.taskId = some id then (priced db.cfg o status body).getD 0 else 0) := by
    intro id
    have hkeys : (db.calls.map Call.callId).Nodup := h.wf.callIds
    have hsum := sum_update (f := Call.settled db.cfg o status body now)
      (fun c => c.bill.share (scheduleOf db) id) hkeys hq
    have hold : q.bill.share (scheduleOf db) id = 0 := share_eq_zero hcost
    have hnew : (q.settled db.cfg o status body now).bill.share (scheduleOf db) id =
        if scheduleOf db q.taskId = some id then (priced db.cfg o status body).getD 0 else 0 := by
      have htask : (q.settled db.cfg o status body now).taskId = q.taskId :=
        congrArg (·.2.1) (settled_keeps db.cfg o status body now q).1
      rw [← settled_cost db.cfg now hcost, ← htask]
      rfl
    unfold billed
    rw [hcalls, hof, hsum, hold, hnew, sub_zero]
  refine ⟨?_, ?_, ?_, ?_, ?_, ?_⟩
  · have hgrow : Grow db.core d.core := by
      rw [hcore]
      refine grow_of_idents (Nat.le_refl _) rfl ?_ rfl
      rw [hcalls]
      exact map_ident_update (fun c => (settled_keeps db.cfg o status body now c).1) db.calls
    exact hgrow.wf h.wf
  · exact h.housed.of_same hnext.ge (by rw [hsess]) fun t ht => ⟨t, htasks ▸ ht, rfl⟩
  · unfold UniqueSchedules
    rw [hsched, hids]
    exact h.unique
  · intro s hs id hid
    obtain ⟨r, hr, hrid⟩ := h.linked s (hsess ▸ hs) id hid
    have hmem : id ∈ d.cfg.schedules.map (·.scheduleId) := by
      rw [hsched, hids]
      exact List.mem_map.mpr ⟨r, hr, hrid⟩
    exact List.mem_map.mp hmem
  · intro c hc hsome
    rw [hcalls] at hc
    obtain ⟨r, hr, rfl⟩ := mem_update.mp hc
    by_cases hid : r.callId = q.callId
    · obtain rfl := eq_of_key Call.callId h.wf.callIds hr hq hid
      rw [if_pos (by simp)]
      obtain ⟨hident, hharv⟩ := settled_keeps db.cfg o status body now r
      have hreq' : (r.settled db.cfg o status body now).req = r.req := congrArg (·.2.2) hident
      refine ⟨?_, hharv⟩
      rw [hreq', hreq]
      simp [Request.isLlm, hk]
    · rw [if_neg (by simpa using hid)] at hsome ⊢
      exact h.costs r hr hsome
  · intro r hr
    rw [hsched] at hr
    obtain ⟨s, hs, hid, hspent⟩ := mem_charged hr
    rw [hspent, h.total s hs, ← hid, hbilled]

theorem Booked.paid (h : Booked db) (hp : PaidFor pg now db db' q o status body)
    (hg : Grow db.core db'.core) (hh : Housed db') : Booked db' := by
  obtain ⟨hcalls, hcore, hsess, hsched⟩ := completeLlmKind_writes_rows now db q o status body
  have hbill := h.billing (call?_mem hp.call).1 hp.req hp.llm hp.inFlight hcalls hcore hsess hsched
  have htasks : (completeLlmKind (db.harvestResponse q.callId status body now) q o status body).1.tasks =
      db.tasks := congrArg Core.tasks hcore
  have hw := hg.wf h.wf
  refine hbill.free hp.after hw hh (fun i t ht => ?_) fun r hr hharv c hc hid => ?_
  · have ht' : db.task? i = some t := by
      unfold Db.task? at ht ⊢
      exact htasks ▸ ht
    exact sameHomes_of_grow h.wf hg i t ht'
  · obtain ⟨new, hnew, -⟩ := hp.stages
    have hmem : r.stage ∈ db'.calls.map Call.stage := by
      rw [hnew]
      exact List.mem_append_left _ (List.mem_map_of_mem hr)
    obtain ⟨c', hc', hstage⟩ := List.mem_map.mp hmem
    have hid' : c'.callId = r.callId := congrArg Prod.fst hstage
    obtain rfl := eq_of_key Call.callId hw.callIds hc' hc (hid'.trans hid.symm)
    have hst' : c'.status = r.status := congrArg Prod.snd hstage
    exact hst'.trans hharv

/-- The books are kept by every operation of the machine. -/
theorem Booked.plane (h : Booked db) {op : Op} (hs : spares db.cfg op = true)
    (hop : perform pg now db op = .ok db') : Booked db' := by
  have hwrites := perform_writes h.wf hop
  have hg := hwrites.grow h.wf
  have hh : Housed db' := hwrites.invariant h.wf (fun hw hI hwr => hI.write hw hwr) h.housed
  rcases perform_spends hs hop with hu | ⟨change, rfl, rfl⟩ | ⟨q, o, status, body, rfl, hp⟩
  · have hr := perform_restatus h.wf hop
    refine h.free hu (hg.wf h.wf) hh (sameHomes_of_grow h.wf hg) fun r hrm hharv c hc hid => ?_
    obtain ⟨c', hc', hident, hst⟩ := hr.old r hrm
    have hid' : c'.callId = r.callId := congrArg Prod.fst hident
    obtain rfl := eq_of_key Call.callId (hg.wf h.wf).callIds hc' hc (hid'.trans hid.symm)
    rcases hst with hst | hst
    · exact hst.symm.trans hharv
    · have hedge := Op.edge_of_restatus hst
      rw [hharv] at hedge
      cases hedge
  · simp only [spares, Bool.and_eq_true, decide_eq_true_eq] at hs
    have hsame : (db.onConfig change).cfg.schedules = db.cfg.schedules := hs.1
    refine ⟨h.wf, hh, ?_, ?_, h.costs, ?_⟩
    · unfold UniqueSchedules
      rw [hsame]
      exact h.unique
    · rw [hsame]
      exact h.linked
    · rw [hsame]
      exact h.total
  · exact h.paid hp hg hh

theorem Booked.updateSchedule (h : Booked db) {id : Uuid} {f : Schedule → Schedule} (hf : KeepsSpent f) :
    Booked (db.updateSchedule id f) := by
  have hids : (db.updateSchedule id f).cfg.schedules.map (·.scheduleId) = db.cfg.schedules.map (·.scheduleId) :=
    map_update (fun s => (hf s).1) _
  refine ⟨h.wf, h.housed.of_same (Nat.le_refl _) rfl fun t ht => ⟨t, ht, rfl⟩, ?_, ?_, h.costs, ?_⟩
  · unfold UniqueSchedules
    rw [hids]
    exact h.unique
  · intro s hs i hi
    obtain ⟨r, hr, hrid⟩ := h.linked s hs i hi
    exact List.mem_map.mp (hids ▸ List.mem_map.mpr ⟨r, hr, hrid⟩)
  · intro r hr
    obtain ⟨s, hs, rfl⟩ := mem_update.mp hr
    have hkeep : (if decide (s.scheduleId = id) then f s else s).scheduleId = s.scheduleId ∧
        (if decide (s.scheduleId = id) then f s else s).spentCostUsd = s.spentCostUsd := by
      split_ifs
      · exact hf s
      · exact ⟨rfl, rfl⟩
    rw [hkeep.1, hkeep.2]
    exact h.total s hs

/-- A session fired for a schedule has cost nothing. -/
theorem Booked.fired (h : Booked db) {agentId id : Uuid} {goal : Option String} {ids : Uuid × Uuid}
    (hid : ∃ r ∈ db.cfg.schedules, r.scheduleId = id)
    (hok : fnCreateSession now db agentId goal none (some id) = .ok (db', ids)) : Booked db' := by
  obtain ⟨hcfg, hcalls, s, hs, hsess⟩ := fnCreateSession_adds hok
  obtain ⟨sid, tid⟩ := ids
  have hg : Grow db.core db'.core := (fnCreateSession_spawned h.wf hok).1.grow
  refine ⟨hg.wf h.wf, h.housed.opened hok, ?_, ?_, hcalls ▸ h.costs, ?_⟩
  · unfold UniqueSchedules
    rw [hcfg]
    exact h.unique
  · rw [hcfg, hsess]
    intro u hu i hi
    rcases List.mem_append.mp hu with hu | hu
    · exact h.linked u hu i hi
    · rw [List.mem_singleton.mp hu, hs] at hi
      obtain rfl := Option.some.inj hi
      exact hid
  · rw [hcfg]
    intro r hr
    have hext : Extends Session.origin (fun _ => True) db.sessions db'.sessions := by
      rw [hsess]
      exact extends_append trivial
    have hbills : Extends Call.bill (·.costUsd = none) db.calls db'.calls := by
      rw [hcalls]
      exact Extends.refl _ _ _
    rw [billed_kept h.wf h.housed (sameHomes_of_grow h.wf hg) hext hbills]
    exact h.total r hr

theorem Booked.sweep (h : Booked db) (now : Time) {rs : List Schedule}
    (hrs : ∀ r ∈ rs, ∃ s ∈ db.cfg.schedules, s.scheduleId = r.scheduleId) (n : Nat) :
    Booked (rs.foldl (runSchedule now) (db, n)).1 := by
  induction rs generalizing db n with
  | nil => exact h
  | cons r rs ih =>
    have hround : Booked (runSchedule now (db, n) r).1 := by
      obtain ⟨f, hf, -, hr | ⟨-, d, ids, hok, hr⟩⟩ := runSchedule_cases now db n r
      · rw [hr]
        exact h.updateSchedule hf
      · rw [hr]
        exact (h.fired (hrs r (by simp)) hok).updateSchedule hf
    have hids := runSchedule_ids now db n r
    rcases hd : runSchedule now (db, n) r with ⟨d, m⟩
    rw [hd] at hround hids
    rw [List.foldl_cons, hd]
    refine ih hround (fun u hu => ?_) m
    have hmem := List.mem_map.mpr (hrs u (List.mem_cons_of_mem r hu))
    exact List.mem_map.mp (hids ▸ hmem)

/-- Deleting a schedule takes it from its sessions. -/
theorem scheduleOf_deleted (db : Db) (c : Config) (id i : Uuid) :
    scheduleOf { db with
      cfg := c
      sessions := update (·.scheduleId = some id) (fun s => { s with scheduleId := none }) db.sessions } i =
        (scheduleOf db i).filter (· ≠ id) := by
  let g := fun s : Session => if decide (s.scheduleId = some id) then { s with scheduleId := none } else s
  have hg : ∀ s : Session, (g s).sessionId = s.sessionId ∧ (g s).scheduleId = s.scheduleId.filter (· ≠ id) := by
    intro s
    by_cases hs : s.scheduleId = some id
    · simp [g, hs, Option.filter]
    · cases hid : s.scheduleId with
      | none => simp [g, hid]
      | some k =>
        have hne : k ≠ id := fun he => hs (hid.trans (congrArg some he))
        simp [g, hid, hne, Option.filter]
  have hfind : ∀ k, (update (·.scheduleId = some id) (fun s => { s with scheduleId := none }) db.sessions).find?
      (·.sessionId = k) = (db.sessions.find? (·.sessionId = k)).map g := by
    intro k
    have hmap : update (·.scheduleId = some id) (fun s => { s with scheduleId := none }) db.sessions =
        db.sessions.map g := rfl
    have hpred : ((fun s : Session => decide (s.sessionId = k)) ∘ g) = fun s => decide (s.sessionId = k) := by
      funext s
      simp only [Function.comp_apply, (hg s).1]
    rw [hmap, List.find?_map, hpred]
  unfold scheduleOf
  dsimp only [Db.task?, Db.session?]
  cases db.tasks.find? (·.taskId = i) with
  | none => rfl
  | some t =>
    simp only [Option.bind_some]
    rw [hfind]
    cases db.sessions.find? (·.sessionId = t.sessionId) with
    | none => rfl
    | some s => exact (hg s).2

theorem Booked.deleted (h : Booked db) (id : Uuid) :
    Booked { db with
      cfg := { db.cfg with schedules := db.cfg.schedules.filter (·.scheduleId ≠ id) }
      sessions := update (·.scheduleId = some id) (fun s => { s with scheduleId := none }) db.sessions } := by
  refine ⟨h.wf, h.housed.of_same (Nat.le_refl _) ?_ fun t ht => ⟨t, ht, rfl⟩,
    List.Nodup.sublist (List.filter_sublist.map _) h.unique, ?_, h.costs, ?_⟩
  · apply map_update
    intro s
    rfl
  · intro s hs i hi
    obtain ⟨r, hr, rfl⟩ := mem_update.mp hs
    by_cases hid : r.scheduleId = some id
    · rw [if_pos (by simpa using hid)] at hi
      cases hi
    · rw [if_neg (by simpa using hid)] at hi
      obtain ⟨u, hu, huid⟩ := h.linked r hr i hi
      refine ⟨u, List.mem_filter.mpr ⟨hu, ?_⟩, huid⟩
      have hne : u.scheduleId ≠ id := fun he => hid (hi.trans (congrArg some (huid.symm.trans he)))
      simpa using hne
  · intro r hr
    obtain ⟨hr, hne⟩ := List.mem_filter.mp hr
    have hne : r.scheduleId ≠ id := by simpa using hne
    rw [h.total r hr]
    unfold billed
    refine congrArg List.sum (List.map_congr_left fun q _ => ?_)
    have hiff : (scheduleOf db q.taskId).filter (· ≠ id) = some r.scheduleId ↔
        scheduleOf db q.taskId = some r.scheduleId := by
      cases scheduleOf db q.taskId with
      | none => simp
      | some k =>
        rw [Option.filter_eq_some_iff]
        constructor
        · exact And.left
        · intro hk
          exact ⟨hk, by simpa using hne⟩
    unfold Bill.share
    have htask : q.bill.taskId = q.taskId := rfl
    rw [scheduleOf_deleted, htask]
    by_cases hk : scheduleOf db q.taskId = some r.scheduleId
    · rw [if_pos hk, if_pos (hiff.mpr hk)]
    · rw [if_neg hk, if_neg fun hx => hk (hiff.mp hx)]

/-- The books are kept by every event, whatever a response reports. -/
theorem Booked.step (h : Booked db) (e : ScheduleEvent) : Booked (scheduleStep pg db e) := by
  rcases scheduleStep_cases pg db e with he | he
  · rw [he]
    exact h
  · have hunique : UniqueSchedules (scheduleStep pg db e) := h.unique.step e
    generalize scheduleStep pg db e = db' at he hunique ⊢
    cases hop : e.op with
    | create name agentId goal intervalSeconds maxRuns endsAt startAt maxCostUsd =>
      rw [hop] at he
      obtain ⟨id, hok⟩ := map_fst_eq_ok he
      obtain ⟨row, hzero, hnew, rfl⟩ := fnCreateSchedule_spec hok
      refine ⟨(grow_allot db.core (Nat.le_succ _)).wf h.wf,
        h.housed.of_same (Nat.le_succ _) rfl fun t ht => ⟨t, ht, rfl⟩, hunique, ?_, h.costs, ?_⟩
      · intro s hs i hi
        obtain ⟨r, hr, hrid⟩ := h.linked s hs i hi
        exact ⟨r, List.mem_append_left _ hr, hrid⟩
      · intro r hr
        rcases List.mem_append.mp hr with hr | hr
        · exact h.total r hr
        · obtain rfl := List.mem_singleton.mp hr
          rw [hzero]
          refine (List.sum_eq_zero fun x hx => ?_).symm
          obtain ⟨q, hq, rfl⟩ := List.mem_map.mp hx
          rw [Bill.share, if_neg]
          intro hid
          obtain ⟨t, -, hid⟩ := Option.bind_eq_some_iff.mp hid
          obtain ⟨s, hs, hid⟩ := Option.bind_eq_some_iff.mp hid
          obtain ⟨u, hu, huid⟩ := h.linked s (List.mem_of_find?_eq_some hs) r.scheduleId hid
          exact hnew u hu huid
    | set id change =>
      rw [hop] at he
      obtain ⟨f, hf, rfl⟩ := fnSetSchedule_spec _ he
      exact h.updateSchedule hf
    | delete id =>
      rw [hop] at he
      obtain rfl := fnDeleteSchedule_spec _ he
      exact h.deleted id
    | runSchedules locked =>
      rw [hop] at he
      obtain rfl := Except.ok.inj he
      exact h.sweep e.now (fun r hr => ⟨r, (mem_dueSchedules.mp hr).1, rfl⟩) 0
    | runNow id =>
      rw [hop] at he
      obtain ⟨ids, hok⟩ := map_fst_eq_ok he
      obtain ⟨r, d, f, hr, -, -, hd, hf, rfl⟩ := fnRunScheduleNow_spec hok
      have hid : r.scheduleId = id := by simpa using List.find?_some hr
      exact (h.fired ⟨r, List.mem_of_find?_eq_some hr, hid⟩ hd).updateSchedule hf
    | plane op =>
      rw [hop] at he
      dsimp only [performSchedule] at he
      split at he
      · rename_i hs
        exact h.plane hs he
      · cases he

end Books

end Allgres
