import Allgres.ApprovalGate

/-! `max_concurrent_tasks` in the dispatch loop. A task that is already in a turn is
passed over only where its agent has more tasks in a turn than the cap allows. -/

namespace Allgres

open Raise Rows Runs Allgres.Core

/-- The tasks of an agent that hold a slot. -/
def inTurn (db : Db) (agentId : Uuid) : List Task :=
  db.tasks.filter fun x => x.agentId = agentId && occupies x

/-- The tasks a dispatch loop passes over on account of the cap. -/
def passedOver (pg : Postgres) (now : Time) (roll : Uuid → Rat) : Nat → List Task → Db → List Task
  | 0, _, _ => []
  | _ + 1, [], _ => []
  | n + 1, t :: ts, db =>
    if overCap db t then t :: passedOver pg now roll (n + 1) ts db
    else match dispatchTask pg now roll db t with
      | .error _ => []
      | .ok (db', none) => passedOver pg now roll (n + 1) ts db'
      | .ok (db', some _) => passedOver pg now roll n ts db'

def cappedTasks (pg : Postgres) (db : Db) (e : Event) : List Task :=
  match e.op with
  | .dispatch roll locked => passedOver pg e.now roll 4 (dispatchable db locked) db
  | _ => []

/-- A dispatch finds no agent of a running task without a live call over its cap. -/
def withinCap (db : Db) (e : Event) : Bool :=
  match e.op with
  | .dispatch _ locked => (dispatchable db locked).all fun t => t.status != .running ||
      (db.cfg.policy? t.agentId).all fun p => (inTurn db t.agentId).length ≤ p.maxConcurrentTasks
  | _ => true

section Round

variable {db db' : Db} {t : Task} {a : Uuid}

theorem mem_inTurn {x : Task} : x ∈ inTurn db a ↔ x ∈ db.tasks ∧ x.agentId = a ∧ occupies x = true := by
  simp [inTurn]

theorem inTurn_nodup (hw : db.core.WellFormed) (a : Uuid) : ((inTurn db a).map (·.taskId)).Nodup :=
  hw.taskIds.sublist (List.filter_sublist.map _)

/-- The other tasks the cap test counts. -/
def others (db : Db) (t : Task) : List Task :=
  (inTurn db t.agentId).filter (·.taskId ≠ t.taskId)

theorem overCap_eq (db : Db) (t : Task) :
    overCap db t = (db.cfg.policy? t.agentId).any fun p => (others db t).length ≥ p.maxConcurrentTasks := by
  have hfilter : db.tasks.filter (fun x =>
      decide (x.agentId = t.agentId ∧ x.taskId ≠ t.taskId ∧ occupies x = true)) = others db t := by
    unfold others inTurn
    rw [List.filter_filter]
    refine List.filter_congr fun x _ => ?_
    by_cases h1 : x.agentId = t.agentId <;> by_cases h2 : x.taskId = t.taskId <;> simp [h1, h2]
  unfold overCap
  rw [hfilter]

/-- A task that is itself in a turn is within the cap. -/
theorem not_overCap {u : Task} (hu : u ∈ inTurn db t.agentId) (hid : u.taskId = t.taskId)
    (hcap : ∀ p, db.cfg.policy? t.agentId = some p →
      (inTurn db t.agentId).length ≤ p.maxConcurrentTasks) : overCap db t = false := by
  have hlt : (others db t).length < (inTurn db t.agentId).length := by
    refine List.length_filter_lt_length_iff_exists.mpr ⟨u, hu, ?_⟩
    simp [hid]
  rw [overCap_eq]
  cases hp : db.cfg.policy? t.agentId with
  | none => rfl
  | some p =>
    have := hcap p hp
    simp only [Option.any_some, ge_iff_le, decide_eq_false_iff_not]
    omega

theorem born_queued {l l' : Life} (h : Life.Move .born l l') : l'.status = some .queued := by
  cases h
  rfl

/-- Whoever holds a slot after a round held it before, or is the task of the round. -/
theorem inTurn_dispatched {G : Label → Life → Prop} (hw : db.core.WellFormed)
    (h : Dispatched G db db' t.taskId) {x : Task} (hx : x ∈ inTurn db' a)
    (hne : x.taskId ≠ t.taskId) : ∃ y ∈ inTurn db a, y.taskId = x.taskId := by
  obtain ⟨hxm, hxa, hocc⟩ := mem_inTurn.mp hx
  have hxl : (db'.core.life x.taskId).status = some x.status :=
    congrArg Life.status (life_of_task? (task?_of_mem (h.grow.wf hw) hxm))
  rcases h.others x.taskId hne with he | hb
  · rw [he] at hxl
    obtain ⟨y, hy, hyi, hys⟩ := task_of_life hxl
    obtain ⟨hym, -⟩ := mem_of_task? hy
    obtain ⟨x', hx', hid⟩ := h.grow.tasks.kept hym
    have hx'i : x'.taskId = x.taskId := (congrArg (·.1) hid).trans hyi
    obtain rfl := eq_of_key Task.taskId (h.grow.wf hw).taskIds hx' hxm hx'i
    have hya : y.agentId = a := (congrArg (·.2.2.1) hid).symm.trans hxa
    refine ⟨y, mem_inTurn.mpr ⟨hym, hya, ?_⟩, hyi⟩
    unfold occupies at hocc ⊢
    rw [hys]
    exact hocc
  · rw [born_queued hb] at hxl
    unfold occupies at hocc
    rw [← Option.some.inj hxl] at hocc
    cases hocc

theorem length_le_of_ids {xs ys : List Task} (hn : (xs.map (·.taskId)).Nodup)
    (h : ∀ x ∈ xs, ∃ y ∈ ys, y.taskId = x.taskId) : xs.length ≤ ys.length := by
  have hsub : xs.map (·.taskId) ⊆ ys.map (·.taskId) := by
    intro i hi
    obtain ⟨x, hx, rfl⟩ := List.mem_map.mp hi
    obtain ⟨y, hy, hyx⟩ := h x hx
    exact List.mem_map.mpr ⟨y, hy, hyx⟩
  simpa using (List.subperm_of_subset hn hsub).length_le

/-- A round that the cap lets pass keeps an agent within its cap. -/
theorem withinCap_round {G : Label → Life → Prop} (hw : db.core.WellFormed)
    (h : Dispatched G db db' t.taskId) {u : Task} (hu : db.task? t.taskId = some u)
    (hag : u.agentId = t.agentId) (hover : overCap db t = false) {p : Policy}
    (hp : db.cfg.policy? a = some p) (hcap : (inTurn db a).length ≤ p.maxConcurrentTasks) :
    (inTurn db' a).length ≤ p.maxConcurrentTasks := by
  have hn := inTurn_nodup (h.grow.wf hw) a
  by_cases ha : t.agentId = a
  · subst ha
    have hroom : (others db t).length < p.maxConcurrentTasks := by
      rw [overCap_eq, hp] at hover
      simpa using hover
    have hle : (inTurn db' t.agentId).length ≤ (t :: others db t).length := by
      refine length_le_of_ids hn fun x hx => ?_
      by_cases hid : x.taskId = t.taskId
      · exact ⟨t, by simp, hid.symm⟩
      · obtain ⟨y, hy, hyx⟩ := inTurn_dispatched hw h hx hid
        have hyo : y ∈ others db t := List.mem_filter.mpr ⟨hy, by simp [hyx, hid]⟩
        exact ⟨y, List.mem_cons_of_mem t hyo, hyx⟩
    rw [List.length_cons] at hle
    omega
  · refine le_trans (length_le_of_ids hn fun x hx => ?_) hcap
    refine inTurn_dispatched hw h hx fun hid => ha ?_
    obtain ⟨hxm, hxa, -⟩ := mem_inTurn.mp hx
    obtain ⟨u', hu', hident⟩ := h.grow.task? hw hu
    obtain ⟨hum', hui'⟩ := mem_of_task? hu'
    obtain rfl := eq_of_key Task.taskId (h.grow.wf hw).taskIds hxm hum' (hid.trans hui'.symm)
    rw [← hag, ← hxa]
    exact (congrArg (·.2.2.1) hident).symm

end Round

section Loop

variable {pg : Postgres} {now : Time} {roll : Uuid → Rat}

/-- What the loop keeps of the tasks it still has to visit. -/
structure Due (db : Db) (ts : List Task) : Prop where
  ready : Ready db ts
  status : ∀ t ∈ ts, (db.core.life t.taskId).status = some t.status
  cap : ∀ t ∈ ts, t.status = .running → ∀ p, db.cfg.policy? t.agentId = some p →
    (inTurn db t.agentId).length ≤ p.maxConcurrentTasks

theorem Due.visited {db : Db} {t : Task} {ts : List Task} (h : Due db (t :: ts))
    (hr : t.status = .running) : overCap db t = false := by
  obtain ⟨u, hu, hag⟩ := h.ready.rows t (by simp)
  obtain ⟨hum, hui⟩ := mem_of_task? (s := db.core) hu
  have hus : u.status = .running := by
    have hs := h.status t (by simp)
    rw [life_of_task? (s := db.core) hu, hr] at hs
    exact Option.some.inj hs
  have hocc : occupies u = true := by simp [occupies, hus]
  exact not_overCap (mem_inTurn.mpr ⟨hum, hag, hocc⟩) hui (h.cap t (by simp) hr)

theorem Due.tail {db : Db} {t : Task} {ts : List Task} (h : Due db (t :: ts)) : Due db ts := by
  have hn := h.ready.nodup
  simp only [List.map_cons, List.nodup_cons] at hn
  exact ⟨⟨hn.2, fun u hu => h.ready.rows u (List.mem_cons_of_mem t hu),
      fun u hu => h.ready.idle u (List.mem_cons_of_mem t hu)⟩,
    fun u hu => h.status u (List.mem_cons_of_mem t hu),
    fun u hu => h.cap u (List.mem_cons_of_mem t hu)⟩

theorem Due.round {db db' : Db} {t : Task} {ts : List Task} {queued : Option Uuid}
    (h : Due db (t :: ts)) (hw : db.core.WellFormed) (hover : overCap db t = false)
    (hd : dispatchTask pg now roll db t = .ok (db', queued)) :
    db'.core.WellFormed ∧ Due db' ts := by
  obtain ⟨u, hu, hag⟩ := h.ready.rows t (by simp)
  have hdis := dispatchTask_dispatched (G := fun _ _ => True) hw hu hag (fun _ => trivial)
    (fun _ _ => trivial) (fun _ _ _ => trivial) (h.ready.idle t (by simp)) hd
  have hn := h.ready.nodup
  simp only [List.map_cons, List.nodup_cons] at hn
  refine ⟨hdis.grow.wf hw, h.ready.tail hw hdis, fun v hv => ?_, fun v hv hr p hp => ?_⟩
  · have hne : v.taskId ≠ t.taskId := fun he => hn.1 (List.mem_map.mpr ⟨v, hv, he⟩)
    have hs := h.status v (List.mem_cons_of_mem t hv)
    rcases hdis.others v.taskId hne with he | hb
    · rw [he]
      exact hs
    · obtain ⟨r, hr, -⟩ := h.ready.rows v (List.mem_cons_of_mem t hv)
      rw [life_of_task? (s := db.core) hr] at hb
      cases hb
  · have hp' : db.cfg.policy? v.agentId = some p := by
      rw [← hp, Config.policy?, Config.policy?, hdis.policies]
    exact withinCap_round hw hdis hu hag hover hp' (h.cap v (List.mem_cons_of_mem t hv) hr p hp')

/-- No running task is passed over in a loop that begins within the caps. -/
theorem passedOver_waiting {n : Nat} {ts : List Task} {db : Db} (hw : db.core.WellFormed)
    (h : Due db ts) : ∀ t ∈ passedOver pg now roll n ts db, t.status ≠ .running := by
  induction ts generalizing n db with
  | nil => cases n <;> simp [passedOver]
  | cons t ts ih =>
    cases n with
    | zero => simp [passedOver]
    | succ n =>
      rw [passedOver]
      by_cases hover : overCap db t = true
      · rw [if_pos hover]
        intro u hu
        rcases List.mem_cons.mp hu with rfl | hu
        · intro hr
          rw [h.visited hr] at hover
          cases hover
        · exact ih hw h.tail u hu
      · rw [if_neg hover]
        have hover : overCap db t = false := by simpa using hover
        split
        · simp
        · rename_i hd
          obtain ⟨hw', h'⟩ := h.round hw hover hd
          exact ih hw' h'
        · rename_i hd
          obtain ⟨hw', h'⟩ := h.round hw hover hd
          exact ih hw' h'

theorem due_dispatchable {db : Db} {e : Event} {locked : List Uuid} (hw : db.core.WellFormed)
    (he : e.op = .dispatch roll locked) (hc : withinCap db e = true) :
    Due db (dispatchable db locked) := by
  refine ⟨dispatchable_ready hw locked, fun t ht => ?_, fun t ht hr p hp => ?_⟩
  · have htm := (List.mem_filter.mp (mem_sortBy.mp ht)).1
    exact congrArg Life.status (life_of_task? (task?_of_mem hw htm))
  · unfold withinCap at hc
    rw [he] at hc
    have h := List.all_eq_true.mp hc t ht
    simpa [hr, hp] using h

end Loop

/-- In every run whose dispatches find the agents of running tasks within their caps,
no dispatch passes over a running task on account of the cap. -/
theorem running_not_capped (pg : Postgres) (c : Config) (es : List Event)
    (h : Along (step pg) (fun db e => withinCap db e = true) (start c) es) :
    ∀ before e after, es = before ++ e :: after →
      ∀ t ∈ cappedTasks pg (run (step pg) (start c) before) e, t.status ≠ .running := by
  rintro before e after rfl
  have hw := wellFormed_run pg before (wellFormed_start c)
  have hc := (along_append.mp h).2.1
  generalize run (step pg) (start c) before = db at hw hc
  unfold cappedTasks
  split
  · rename_i roll locked he
    exact passedOver_waiting hw (due_dispatchable hw he hc)
  · simp

def capAt (n : Nat) (c : Config) : Config :=
  { c with policies := c.policies.map (PolicyChange.apply { maxConcurrentTasks := some n }) }

/-- Two tasks are in a turn, without a call, when the cap is lowered. -/
def loweredRun (cap : Nat) : List Event :=
  [⟨1, .createSession 1 (some "go") none none⟩, ⟨1, .createSession 1 (some "go") none none⟩,
    ⟨2, .dispatch (fun _ => 0) []⟩, ⟨3, .claim .outboundCalls none none []⟩,
    ⟨4, .completeOutbound 5 (some 200) none⟩, ⟨4, .completeOutbound 6 (some 200) none⟩,
    ⟨5, .edit (capAt cap)⟩, ⟨6, .dispatch (fun _ => 0) []⟩]

theorem lowered_not_capped :
    ((run (step bareServer) (start gatedConfig) (loweredRun 2).dropLast).tasks.map (·.status) =
      [.running, .running]) ∧
    (∀ t ∈ cappedTasks bareServer (run (step bareServer) (start gatedConfig) (loweredRun 2).dropLast)
      ⟨6, .dispatch (fun _ => 0) []⟩, t.status ≠ .running) ∧
    (run (step bareServer) (start gatedConfig) (loweredRun 2)).calls.length = 4 :=
  ⟨by decide +kernel,
    running_not_capped bareServer gatedConfig (loweredRun 2) (by decide +kernel) (loweredRun 2).dropLast
      ⟨6, .dispatch (fun _ => 0) []⟩ [] rfl,
    by decide +kernel⟩

/-- Each of two running tasks is passed over on account of the other. -/
theorem lowered_capped :
    ¬ ∀ (pg : Postgres) (c : Config) (es : List Event) (e : Event),
      ∀ t ∈ cappedTasks pg (run (step pg) (start c) es) e, t.status ≠ .running := by
  intro h
  exact absurd (h bareServer gatedConfig (loweredRun 1).dropLast ⟨6, .dispatch (fun _ => 0) []⟩)
    (by decide +kernel)

end Allgres
