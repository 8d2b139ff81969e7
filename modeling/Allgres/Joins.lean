import Allgres.Delegation

/-! Parents that wait for the tasks they delegated. A sweep wakes a parent whose children are all
finished, with what they came to; and no parents wait for one another. -/

namespace Allgres

open Raise Rows Runs Allgres.Core Lineage

section Waiting

variable {pg : Postgres} {now : Time} {db db' : Db}

/-- The moves of a task that no sweep wakes. -/
def asleep (_ : Uuid) (lab : Label) (_ : Life) : Prop :=
  lab ≠ .wake

/-- A waiting task that is not woken waits on, or ends. -/
theorem Life.waits_on {l l' : Life} (h : Moves Life.Move (fun lab _ => lab ≠ .wake) l l')
    (hs : l.status = some .waitingChildren) :
    (l'.status = some .waitingChildren ∧ l'.steps = l.steps) ∨ l'.status = some .failed ∨
      l'.status = some .cancelled := by
  have hmove : ∀ (lab : Label) (a b : Life),
      ((a.status = some .waitingChildren ∧ a.steps = l.steps) ∨ a.status = some .failed ∨
        a.status = some .cancelled) → lab ≠ .wake → Life.Move lab a b →
      (b.status = some .waitingChildren ∧ b.steps = l.steps) ∨ b.status = some .failed ∨
        b.status = some .cancelled := by
    intro lab a b ha hlab hm
    cases hm <;> simp_all [TaskStatus.finished]
  exact Moves.invariant hmove h (.inl ⟨hs, rfl⟩)

/-- Every operation but a sweep leaves the waiting tasks asleep. -/
theorem perform_asleep {op : Op} (hw : db.core.WellFormed)
    (hop : ∀ seconds locked, op ≠ .watchdog seconds locked) (h : perform pg now db op = .ok db') :
    Evolves asleep db.core db'.core := by
  have hb : ∀ j l, asleep j .born l := by simp [asleep]
  cases op with
  | createSession agentId goal projectId scheduleId =>
    obtain ⟨⟨sid, tid⟩, h⟩ := map_fst_eq_ok h
    exact (fnCreateSession_spawned hw h).1.evolves hb
  | continueSession sessionId message =>
    obtain ⟨tid, h⟩ := map_fst_eq_ok h
    exact (fnContinueSession_spawned hw h).evolves hb
  | dispatch roll locked =>
    obtain ⟨out, h⟩ := map_fst_eq_ok h
    exact fnDispatchTasks_evolves hw hb (by simp [asleep]) (by simp [asleep]) (by simp [asleep]) h
  | submit i payload =>
    obtain ⟨result, h⟩ := map_fst_eq_ok h
    obtain ⟨-, hsub⟩ := fnSubmitResult_submitted hw h
    exact hsub.evolves (by simp [asleep]) (by simp [asleep]) hb
  | claim queue limit fallback locked =>
    obtain rfl := Except.ok.inj h
    refine fnClaim_evolves pg now limit fallback locked hw fun i lab l hl => ?_
    rintro rfl
    exact hl.elim
  | completeOutbound id status body =>
    obtain ⟨result, h⟩ := map_fst_eq_ok h
    rcases fnCompleteOutbound_settled hw h with rfl | ⟨q, lab, -, -, hset, -⟩
    · exact Evolves.refl _
    · refine hset.evolves ?_ hb
      rintro rfl
      exact hset.label.elim
  | completeLocal queue id r =>
    obtain ⟨result, h⟩ := map_fst_eq_ok h
    rcases fnCompleteLocal_settled hw h with rfl | ⟨q, lab, -, -, hset, -⟩
    · exact Evolves.refl _
    · refine hset.evolves ?_ hb
      rintro rfl
      exact hset.label.elim
  | watchdog seconds locked => exact absurd rfl (hop seconds locked)
  | decideApproval id accept reply =>
    obtain ⟨out, h⟩ := map_fst_eq_ok h
    refine fnDecideApproval_evolves (fun _ _ _ _ _ _ _ _ => ?_) h
    cases accept <;> simp [asleep]
  | cancelSession sid reason =>
    obtain ⟨n, h⟩ := map_fst_eq_ok h
    exact fnCancelSession_evolves hw (by simp [asleep]) (by simp [asleep]) h
  | edit change =>
    obtain rfl := Except.ok.inj h
    exact Evolves.refl _

end Waiting

section Wake

variable {now : Time} {db : Db}

def Task.woken (now : Time) (t : Task) : Task :=
  { t with status := .queued, stepCount := t.stepCount + 1, updatedAt := now }

def isWoken (locked : List Uuid) (db : Db) (t : Task) : Bool :=
  childrenDone db t && !locked.contains t.taskId

/-- What a parent is told: what its children came to, in the order they were created. -/
def delegateReports (db : Db) (i : Uuid) : List Json :=
  (sortBy (·.createdAt) (db.tasks.filter (·.parentTaskId = some i))).filterMap (childReport db.cfg)

def reportLog (now : Time) (db : Db) (t : Task) : Log :=
  ⟨t.taskId, t.stepCount + 1, .function,
    .object [("delegate_results", .arr (delegateReports db t.taskId))], now⟩

theorem wakeParent_eq (now : Time) (db : Db) (t : Task) :
    wakeParent now db t =
      { db with
        logs := db.logs ++ [reportLog now db t]
        tasks := update (·.taskId = t.taskId) (Task.woken now) db.tasks } := rfl

/-- The children of a parent that a sweep wakes are not woken by it. -/
theorem reports_congr {p : Task → Bool} {i : Uuid}
    (hp : ∀ k ∈ db.tasks, k.parentTaskId = some i → p k = false) (logs : List Log) :
    delegateReports { db with logs, tasks := update p (Task.woken now) db.tasks } i =
      delegateReports db i := by
  have hrows : ∀ tasks : List Task, (∀ k ∈ tasks, k.parentTaskId = some i → p k = false) →
      (update p (Task.woken now) tasks).filter (·.parentTaskId = some i) =
        tasks.filter (·.parentTaskId = some i) := by
    intro tasks h
    induction tasks with
    | nil => rfl
    | cons k tasks ih =>
      have hrest := ih fun r hr => h r (List.mem_cons_of_mem k hr)
      by_cases hk : k.parentTaskId = some i
      · have hpk := h k (by simp) hk
        simp only [update, List.map_cons, hpk, Bool.false_eq_true, if_false, List.filter_cons, hk,
          decide_true, if_true, List.cons.injEq, true_and]
        exact hrest
      · have hkw : (if p k then k.woken now else k).parentTaskId ≠ some i := by
          split <;> exact hk
        simp only [update, List.map_cons, List.filter_cons, hk, hkw, decide_false,
          Bool.false_eq_true, if_false]
        exact hrest
  unfold delegateReports
  rw [hrows db.tasks hp]

/-- A sweep wakes the parents whose children are all finished, and tells each what they came to. -/
theorem wakeParents_foldl (now : Time) (db : Db) {ts : List Task}
    (hn : (ts.map (·.taskId)).Nodup)
    (hts : ∀ t ∈ ts, t.status.finished = false)
    (hrow : ∀ t ∈ ts, ∀ r ∈ db.tasks, r.taskId = t.taskId → r = t)
    (hdone : ∀ t ∈ ts, ∀ k ∈ db.tasks, k.parentTaskId = some t.taskId → k.status.finished = true) :
    ts.foldl (wakeParent now) db =
      { db with
        logs := db.logs ++ ts.map (reportLog now db)
        tasks := update (fun r => decide (r.taskId ∈ ts.map (·.taskId))) (Task.woken now)
          db.tasks } := by
  induction ts generalizing db with
  | nil => simp [update]
  | cons t ts ih =>
    simp only [List.map_cons, List.nodup_cons] at hn
    have hne : ∀ u ∈ ts, u.taskId ≠ t.taskId := fun u hu he =>
      hn.1 (List.mem_map.mpr ⟨u, hu, he⟩)
    -- a child of a woken parent is finished, so it is none of those that are woken
    have hapart : ∀ u ∈ ts, ∀ k ∈ db.tasks, k.parentTaskId = some u.taskId →
      k.taskId ≠ t.taskId := by
      intro u hu k hk hp he
      have hkf := hdone u (List.mem_cons_of_mem t hu) k hk hp
      rw [hrow t (by simp) k hk he, hts t (by simp)] at hkf
      cases hkf
    have hrest := ih (wakeParent now db t) hn.2
      (fun u hu => hts u (List.mem_cons_of_mem t hu)) ?_ ?_
    · rw [List.foldl_cons, hrest]
      have hlogs : ts.map (reportLog now (wakeParent now db t)) = ts.map (reportLog now db) := by
        refine List.map_congr_left fun u hu => ?_
        have hreports : delegateReports (wakeParent now db t) u.taskId =
            delegateReports db u.taskId :=
          reports_congr (fun k hk hp => by simpa using hapart u hu k hk hp) _
        rw [reportLog, reportLog, hreports]
      have htasks : update (fun r => decide (r.taskId ∈ ts.map (·.taskId))) (Task.woken now)
            (update (·.taskId = t.taskId) (Task.woken now) db.tasks) =
          update (fun r => decide (r.taskId ∈ (t :: ts).map (·.taskId))) (Task.woken now)
            db.tasks := by
        simp only [update, List.map_map]
        refine List.map_congr_left fun r _ => ?_
        by_cases hr : r.taskId = t.taskId
        · have hid : (r.woken now).taskId = t.taskId := hr
          simp only [Function.comp_apply, hr, decide_true, if_true, hid, hn.1, decide_false,
            Bool.false_eq_true, if_false, List.map_cons, List.mem_cons, true_or]
        · simp only [Function.comp_apply, hr, decide_false, Bool.false_eq_true, if_false,
            List.map_cons, List.mem_cons, false_or]
      rw [hlogs]
      simp only [wakeParent_eq, htasks, List.append_assoc, List.map_cons, List.singleton_append]
    · intro u hu r hr hru
      obtain ⟨r₀, hr₀, rfl⟩ := mem_update.mp hr
      by_cases h0 : r₀.taskId = t.taskId
      · rw [if_pos (decide_eq_true h0)] at hru
        exact absurd (hru.symm.trans h0) (hne u hu)
      · rw [if_neg (by simpa using h0)] at hru ⊢
        exact hrow u (List.mem_cons_of_mem t hu) r₀ hr₀ hru
    · intro u hu k hk hp
      obtain ⟨k₀, hk₀, rfl⟩ := mem_update.mp hk
      by_cases h0 : k₀.taskId = t.taskId
      · rw [if_pos (decide_eq_true h0)] at hp
        exact absurd h0 (hapart u hu k₀ hk₀ hp)
      · rw [if_neg (by simpa using h0)] at hp ⊢
        exact hdone u (List.mem_cons_of_mem t hu) k₀ hk₀ hp

theorem isWoken_iff {locked : List Uuid} {t : Task} :
    isWoken locked db t = true ↔ t.status = .waitingChildren ∧
      (∀ k ∈ db.tasks, k.parentTaskId = some t.taskId → k.status.finished = true) ∧
        t.taskId ∉ locked := by
  simp [isWoken, childrenDone, and_assoc, imp_iff_not_or]

theorem wakeParents_eq (hw : db.core.WellFormed) (now : Time) (locked : List Uuid) :
    db.wakeParents now locked =
      { db with
        logs := db.logs ++ (db.tasks.filter (isWoken locked db)).map (reportLog now db)
        tasks := update (isWoken locked db) (Task.woken now) db.tasks } := by
  have hts : ∀ t ∈ db.tasks.filter (isWoken locked db), t ∈ db.tasks ∧ isWoken locked db t = true :=
    fun t ht => List.mem_filter.mp ht
  have hn : ((db.tasks.filter (isWoken locked db)).map (·.taskId)).Nodup :=
    hw.taskIds.sublist (List.filter_sublist.map _)
  have hfilter : (db.tasks.filter fun t => childrenDone db t ∧ !locked.contains t.taskId) =
      db.tasks.filter (isWoken locked db) :=
    List.filter_congr fun t _ => by simp [isWoken]
  have hrows : update
        (fun r => decide (r.taskId ∈ (db.tasks.filter (isWoken locked db)).map (·.taskId)))
        (Task.woken now) db.tasks = update (isWoken locked db) (Task.woken now) db.tasks := by
    refine List.map_congr_left fun r hr => ?_
    have hiff : r.taskId ∈ (db.tasks.filter (isWoken locked db)).map (·.taskId) ↔
        isWoken locked db r = true := by
      constructor
      · intro h
        obtain ⟨t, ht, hid⟩ := List.mem_map.mp h
        rw [eq_of_key Task.taskId hw.taskIds hr (hts t ht).1 hid.symm]
        exact (hts t ht).2
      · exact fun h => List.mem_map_of_mem (List.mem_filter.mpr ⟨hr, h⟩)
    simp only [hiff, Bool.decide_eq_true]
  rw [Db.wakeParents, hfilter, wakeParents_foldl now db hn ?_ ?_ ?_, hrows]
  · intro t ht
    rw [(isWoken_iff.mp (hts t ht).2).1]
    rfl
  · intro t ht r hr hid
    exact eq_of_key Task.taskId hw.taskIds hr (hts t ht).1 hid
  · intro t ht
    exact (isWoken_iff.mp (hts t ht).2).2.1

end Wake

section Sweep

variable {pg : Postgres} {now : Time} {seconds : Option Int} {locked : List Uuid} {db db' : Db}

/-- The state the parents are woken in. -/
def untilWake (pg : Postgres) (now : Time) (seconds : Option Int) (locked : List Uuid)
    (db : Db) : Db :=
  (afterExpire pg now seconds locked db).timeoutTurns now locked

theorem fnWatchdog_wakes (pg : Postgres) (now : Time) (seconds : Option Int) (locked : List Uuid)
    (db : Db) : fnWatchdog pg now seconds locked db =
      ((untilWake pg now seconds locked db).wakeParents now locked).onConfig
        (dropExpiredMemories now) :=
  fnWatchdog_eq pg now seconds locked db

theorem untilWake_asleep (pg : Postgres) (now : Time) (seconds : Option Int) (locked : List Uuid)
    (hw : db.core.WellFormed) :
    Evolves asleep db.core (untilWake pg now seconds locked db).core := by
  obtain ⟨he₁, -⟩ := reclaimAll_swept (G := asleep) pg now seconds locked (by simp [asleep])
    (by simp [asleep]) hw
  rw [← core_afterReclaim] at he₁
  have hw₁ := he₁.wf hw
  have he₂ : Evolves asleep (afterReclaim pg now seconds locked db).core
      (afterExpire pg now seconds locked db).core :=
    (expireApprovals_life now (by simp [asleep])).1
  have hw₂ := he₂.wf hw₁
  refine (he₁.trans he₂).trans ?_
  refine evolves_foldl (H := fun i l => ∃ s, l.status = some s ∧ s.finished = false ∧
    asleep i .timeOut l) (timeoutTurn_evolves now)
      (hw₂.taskIds.sublist (List.filter_sublist.map _)) ?_
  intro t ht
  obtain ⟨htm, hto⟩ := List.mem_filter.mp ht
  have hout := (of_decide_eq_true hto).1
  unfold overTurn at hout
  simp only [Bool.and_eq_true] at hout
  rw [life_of_task? (task?_of_mem hw₂ htm)]
  exact ⟨t.status, rfl, occupies_unfinished hout.1, by simp [asleep]⟩

/-- A waiting task that is not woken waits on with its steps, or ends. -/
theorem asleep_row {s s' : Core} (hw : s.WellFormed) (h : Evolves asleep s s') {t t' : Task}
    (ht : t ∈ s.tasks) (hs : t.status = .waitingChildren) (ht' : t' ∈ s'.tasks)
    (hid : t'.taskId = t.taskId) :
    (t'.status = .waitingChildren ∧ t'.stepCount = t.stepCount) ∨ t'.status = .failed ∨
      t'.status = .cancelled := by
  have hlife := life_of_task? (task?_of_mem hw ht)
  have hlife' := life_of_task? (task?_of_mem (h.wf hw) ht')
  rw [hid] at hlife'
  have hmoves := Life.waits_on (h.lives t.taskId) (by rw [hlife, hs])
  rw [hlife, hlife'] at hmoves
  simpa using hmoves

/-- A parent that was woken: its children are finished, and it was told what they came to. -/
structure Woken (db' : Db) (t t' : Task) : Prop where
  queued : t'.status = .queued
  step : t'.stepCount = t.stepCount + 1
  joined : ∀ k ∈ db'.tasks, k.parentTaskId = some t.taskId → k.status.finished = true
  told : ∃ l ∈ db'.logs, l.taskId = t.taskId ∧ l.stepNumber = t'.stepCount ∧
    l.content = .object [("delegate_results", .arr (delegateReports db' t.taskId))]

theorem fnWatchdog_parents (hw : db.core.WellFormed) {t t' : Task} (ht : t ∈ db.tasks)
    (hs : t.status = .waitingChildren) (ht' : t' ∈ (fnWatchdog pg now seconds locked db).tasks)
    (hid : t'.taskId = t.taskId) :
    t'.status = .waitingChildren ∨ t'.status = .failed ∨ t'.status = .cancelled ∨
      Woken (fnWatchdog pg now seconds locked db) t t' := by
  have hasleep := untilWake_asleep pg now seconds locked hw
  rw [fnWatchdog_wakes] at ht' ⊢
  generalize untilWake pg now seconds locked db = d at hasleep ht' ⊢
  have hwd := hasleep.wf hw
  rw [wakeParents_eq hwd] at ht' ⊢
  obtain ⟨r, hr, rfl⟩ := mem_update.mp ht'
  by_cases hwoken : isWoken locked d r = true
  · rw [if_pos hwoken] at hid ⊢
    obtain ⟨hrs, hdone, -⟩ := isWoken_iff.mp hwoken
    have hrid : r.taskId = t.taskId := hid
    have hsteps : r.stepCount = t.stepCount := by
      rcases asleep_row hw hasleep ht hs hr hrid with h | h | h
      · exact h.2
      · rw [hrs] at h
        cases h
      · rw [hrs] at h
        cases h
    rw [hrid] at hdone
    have hkeep : ∀ k ∈ d.tasks, k.parentTaskId = some t.taskId → isWoken locked d k = false := by
      intro k hk hp
      by_contra hkw
      have hkf := hdone k hk hp
      rw [(isWoken_iff.mp (by simpa using hkw)).1] at hkf
      cases hkf
    refine .inr (.inr (.inr ⟨rfl, congrArg (· + 1) hsteps, fun k' hk' hp => ?_, ?_⟩))
    · obtain ⟨k, hk, rfl⟩ := mem_update.mp hk'
      have hp₀ : k.parentTaskId = some t.taskId := by
        split at hp <;> exact hp
      rw [hkeep k hk hp₀]
      exact hdone k hk hp₀
    · refine ⟨reportLog now d r, ?_, hrid, rfl, ?_⟩
      · exact List.mem_append_right _ (List.mem_map_of_mem (List.mem_filter.mpr ⟨hr, hwoken⟩))
      · rw [reportLog, hrid]
        exact congrArg (fun rs => Json.object [("delegate_results", Json.arr rs)])
          (reports_congr hkeep _).symm
  · rw [if_neg hwoken] at hid ⊢
    rcases asleep_row hw hasleep ht hs hr hid with h | h | h
    · exact .inl h.1
    · exact .inr (.inl h)
    · exact .inr (.inr (.inl h))

end Sweep

/-- In every run: a parent that waits for its children waits on, ends, or is woken by a sweep, once
all of them are finished; then it is told what they came to, and that never changes. -/
theorem parents_join (pg : Postgres) (c : Config) (es : List Event) (e : Event)
    (fs : List Event) :
    let db := run (step pg) (start c) es
    let db' := step pg db e
    ∀ t ∈ db.tasks, t.status = .waitingChildren → ∀ t' ∈ db'.tasks, t'.taskId = t.taskId →
      t'.status = .waitingChildren ∨ t'.status = .failed ∨ t'.status = .cancelled ∨
        (∃ seconds locked, e.op = .watchdog seconds locked) ∧ Woken db' t t' ∧
          ∀ k ∈ db'.tasks, k.parentTaskId = some t.taskId →
            Stands k.taskId k.verdict (run (step pg) db' fs).tasks := by
  intro db db' t ht hs t' ht' hid
  have hw : db.core.WellFormed := wellFormed_run pg es (wellFormed_start c)
  have hw' : db'.core.WellFormed := wellFormed_run pg [e] hw
  have hasleep : ∀ {d : Db}, Evolves asleep db.core d.core → t' ∈ d.tasks →
      t'.status = .waitingChildren ∨ t'.status = .failed ∨ t'.status = .cancelled := by
    intro d he hm
    rcases asleep_row hw he ht hs hm hid with h | h | h
    · exact .inl h.1
    · exact .inr (.inl h)
    · exact .inr (.inr h)
  have hawake : ∀ {P : Prop}, (t'.status = .waitingChildren ∨ t'.status = .failed ∨
      t'.status = .cancelled) → t'.status = .waitingChildren ∨ t'.status = .failed ∨
        t'.status = .cancelled ∨ P := by
    intro P h
    rcases h with h | h | h
    · exact .inl h
    · exact .inr (.inl h)
    · exact .inr (.inr (.inl h))
  rcases step_cases pg db e with hsame | hperform
  · refine hawake (hasleep (Evolves.refl _) ?_)
    rw [← hsame]
    exact ht'
  · by_cases hop : ∃ seconds locked, e.op = .watchdog seconds locked
    · obtain ⟨seconds, locked, hop⟩ := hop
      rw [hop] at hperform
      have hdb : fnWatchdog pg e.now seconds locked db = db' := Except.ok.inj hperform
      rw [← hdb] at ht'
      rcases fnWatchdog_parents hw ht hs ht' hid with h | h | h | h
      · exact .inl h
      · exact .inr (.inl h)
      · exact .inr (.inr (.inl h))
      · rw [hdb] at h
        refine .inr (.inr (.inr ⟨⟨seconds, locked, hop⟩, h, fun k hk hp => ?_⟩))
        exact stands_run pg fs hw' (h.joined k hk hp) ⟨k, hk, rfl, rfl⟩
    · refine hawake (hasleep (perform_asleep hw (fun seconds locked h => ?_) hperform) ht')
      exact hop ⟨seconds, locked, h⟩

/-- A boss that may delegate to a clerk. -/
def teamConfig : Config where
  agents := [{ agentId := 1, name := "boss" }, { agentId := 2, name := "clerk" }]
  policies := [1, 2].map fun agentId => {
    agentId
    systemPrompt := "serve"
    llmConfig := .object [("provider", .str "llm"), ("model", .str "m")] }
  permissions := [⟨1, .agent, "clerk"⟩]
  providers := [{ providerId := 3, name := "llm", baseUrl := "https://llm.example" }]
  nextId := 10

/-- The reply of a model, already parsed. -/
def replied (fields : List (String × Json)) : Json :=
  .object [("type", .str "llm_response"), ("parsed", .object fields)]

/-- The boss delegates and waits; the clerk is asked. -/
def delegatedRun : List Event :=
  [⟨1, .createSession 1 (some "go") none none⟩, ⟨2, .dispatch (fun _ => 0) []⟩,
    ⟨3, .submit 2 (replied [("action", .str "delegate"), ("agent_name", .str "clerk"),
      ("wait", .str "true")])⟩,
    ⟨4, .submit 2 (replied [("action", .str "await_children")])⟩, ⟨5, .dispatch (fun _ => 0) []⟩]

/-- The clerk answers what it was asked. -/
def joinedRun : List Event :=
  delegatedRun ++
    [⟨6, .submit 4 (replied [("action", .str "final_answer"), ("answer", .str "done")])⟩]

theorem clerk_joined :
    let db := run (step bareServer) (start teamConfig) joinedRun
    let db' := step bareServer db ⟨7, .watchdog none []⟩
    ∃ t ∈ db.tasks, t.status = .waitingChildren ∧
      ∃ t' ∈ db'.tasks, t'.taskId = t.taskId ∧ Woken db' t t' := by
  intro db db'
  have h : ∃ t ∈ db.tasks, t.status = .waitingChildren ∧
      ∃ t' ∈ db'.tasks, t'.taskId = t.taskId ∧ t'.status = .queued := by
    decide +kernel
  obtain ⟨t, ht, hs, t', ht', hid, hq⟩ := h
  refine ⟨t, ht, hs, t', ht', hid, ?_⟩
  rcases parents_join bareServer teamConfig joinedRun ⟨7, .watchdog none []⟩ [] t ht hs t' ht' hid
    with hn | hn | hn | ⟨-, hwoken, -⟩
  · rw [hq] at hn
    cases hn
  · rw [hq] at hn
    cases hn
  · rw [hq] at hn
    cases hn
  · exact hwoken

section Ends

variable {pg : Postgres} {now : Time} {seconds : Option Int} {locked : List Uuid} {db : Db}

abbrev DelegatedBelow (tasks : List Task) : Task → Task → Prop :=
  Lineage.Below Task.taskId Task.parentTaskId tasks

/-- A sweep leaves no parent whose children are all finished, unless it finds the parent locked. -/
theorem fnWatchdog_childrenDone (hw : db.core.WellFormed) :
    let db' := fnWatchdog pg now seconds locked db
    ∀ t ∈ db'.tasks, t.taskId ∉ locked → childrenDone db' t = false := by
  have hasleep := untilWake_asleep pg now seconds locked hw
  intro db' t ht hfree
  have hdb : db' = _ := fnWatchdog_wakes pg now seconds locked db
  generalize untilWake pg now seconds locked db = d at hasleep hdb
  rw [wakeParents_eq (hasleep.wf hw)] at hdb
  rw [hdb] at ht ⊢
  obtain ⟨r, hr, rfl⟩ := mem_update.mp ht
  by_cases hwoken : isWoken locked d r = true
  · rw [if_pos hwoken]
    rfl
  · rw [if_neg hwoken] at hfree ⊢
    by_contra hdone
    simp only [Bool.not_eq_false, childrenDone, Bool.and_eq_true, decide_eq_true_eq,
      List.all_eq_true, Bool.or_eq_true, Bool.not_eq_true', decide_eq_false_iff_not] at hdone
    refine hwoken (isWoken_iff.mpr ⟨hdone.1, fun k hk hp => ?_, hfree⟩)
    have hfin := hdone.2 _ (mem_update.mpr ⟨k, hk, rfl⟩)
    by_cases hkw : isWoken locked d k = true
    · rw [if_pos hkw] at hfin
      exact absurd hfin (by simp [Task.woken, hp, TaskStatus.finished])
    · rw [if_neg hkw] at hfin
      exact hfin.resolve_left (absurd hp)

theorem chain_of_mem (hF : Forest db) {t : Task} (ht : t ∈ db.tasks) :
    ∃ chain, DelegationChain db.tasks t chain := by
  obtain ⟨chain, hc, -⟩ := hF t ht
  exact ⟨chain, hc⟩

theorem chain_bounded (hw : db.core.WellFormed) (hF : Forest db) (t : Task) (chain : List Task)
    (hc : DelegationChain db.tasks t chain) : chain.length ≤ db.tasks.length := by
  obtain ⟨chain', hc', hd⟩ := hF t hc.mem
  rw [hc.unique hw.taskIds hc']
  exact chain_length_le hc' hd

/-- Below a parent that waits there is a task that can go on. -/
theorem exists_awake (hw : db.core.WellFormed) (hF : Forest db) {t : Task} (ht : t ∈ db.tasks)
    (hs : t.status = .waitingChildren) :
    ∃ k ∈ db.tasks, DelegatedBelow db.tasks t k ∧ k.status.finished = false ∧
      (k.status ≠ .waitingChildren ∨ childrenDone db k = true) := by
  obtain ⟨chain, hc⟩ := chain_of_mem hF ht
  refine exists_below (P := fun k : Task => k.status.finished = false) (chain_bounded hw hF) ?_ hc
    (by rw [hs]; rfl)
  intro k hk hku hstuck
  rw [not_or, not_not] at hstuck
  obtain ⟨hkw, hkd⟩ := hstuck
  by_contra hnone
  refine hkd ?_
  simp only [childrenDone, Bool.and_eq_true, decide_eq_true_eq, List.all_eq_true, Bool.or_eq_true,
    Bool.not_eq_true', decide_eq_false_iff_not]
  refine ⟨hkw, fun m hm => ?_⟩
  by_cases hp : m.parentTaskId = some k.taskId
  · right
    by_contra hmu
    exact hnone ⟨m, hm, hp, by simpa using hmu⟩
  · exact .inl hp

end Ends

/-- No parents wait for one another: in every state, below every task that waits for its children
there is one that is queued, at work or with a human, or one that the next sweep wakes; and a sweep
leaves none of these, unless it leaves a parent waiting that it found locked. -/
theorem waits_end (pg : Postgres) (c : Config) (es : List Event) :
    let db := run (step pg) (start c) es
    (∀ t ∈ db.tasks, t.status = .waitingChildren →
      ∃ k ∈ db.tasks, DelegatedBelow db.tasks t k ∧ k.status.finished = false ∧
        (k.status ≠ .waitingChildren ∨ childrenDone db k = true)) ∧
      ∀ now seconds locked, let db' := step pg db ⟨now, .watchdog seconds locked⟩
        (∀ t ∈ db'.tasks, t.status = .waitingChildren → t.taskId ∉ locked) →
        ∀ t ∈ db'.tasks, t.status = .waitingChildren →
          ∃ k ∈ db'.tasks, DelegatedBelow db'.tasks t k ∧
            (k.status = .queued ∨ k.status = .running ∨ k.status = .waitingHuman) := by
  intro db
  have hw : db.core.WellFormed := wellFormed_run pg es (wellFormed_start c)
  have hforest : ∀ es' : List Event, Forest (run (step pg) db es') := fun es' =>
    run_invariant (fun hw hF h => hF.write hw h) hw
      (run_invariant (fun hw hF h => hF.write hw h) (wellFormed_start c)
        (by intro t ht; simp [start] at ht) es) es'
  refine ⟨fun t ht hs => exists_awake hw (hforest []) ht hs, fun now seconds locked => ?_⟩
  intro db' hfree t ht hs
  obtain ⟨k, hk, hbelow, hku, hgo⟩ :=
    exists_awake (wellFormed_run pg [⟨now, .watchdog seconds locked⟩] hw)
    (hforest [⟨now, .watchdog seconds locked⟩]) ht hs
  refine ⟨k, hk, hbelow, ?_⟩
  have hawake : k.status ≠ .waitingChildren := by
    refine hgo.resolve_right fun hdone => ?_
    have hks : k.status = .waitingChildren := by
      simp only [childrenDone, Bool.and_eq_true, decide_eq_true_eq] at hdone
      exact hdone.1
    have hnone : childrenDone db' k = false := fnWatchdog_childrenDone hw k hk (hfree k hk hks)
    exact Bool.false_ne_true (hnone.symm.trans hdone)
  cases hks : k.status <;> simp_all [TaskStatus.finished]

/-- The boss waits for the clerk, who is at work, before a sweep and after it, the clerk's row being
locked. -/
theorem boss_waits_for_clerk :
    let db := run (step bareServer) (start teamConfig) delegatedRun
    let db' := step bareServer db ⟨6, .watchdog none [4]⟩
    (∃ t ∈ db.tasks, t.status = .waitingChildren ∧
      ∃ k ∈ db.tasks, DelegatedBelow db.tasks t k ∧ k.status.finished = false ∧
        (k.status ≠ .waitingChildren ∨ childrenDone db k = true)) ∧
    ∃ t ∈ db'.tasks, t.status = .waitingChildren ∧ ∃ k ∈ db'.tasks, DelegatedBelow db'.tasks t k ∧
      (k.status = .queued ∨ k.status = .running ∨ k.status = .waitingHuman) := by
  intro db db'
  have hends := waits_end bareServer teamConfig delegatedRun
  have h : ∃ t ∈ db.tasks, t.status = .waitingChildren := by decide +kernel
  have h' : ∃ t ∈ db'.tasks, t.status = .waitingChildren := by decide +kernel
  have hfree : ∀ t ∈ db'.tasks, t.status = .waitingChildren → t.taskId ∉ [4] := by decide +kernel
  obtain ⟨t, ht, hs⟩ := h
  obtain ⟨t', ht', hs'⟩ := h'
  exact ⟨⟨t, ht, hs, hends.1 t ht hs⟩, t', ht', hs', hends.2 6 none [4] hfree t' ht' hs'⟩

end Allgres
