import Allgres.Scheduler

/-! The limits of a schedule hold for every session it spawns, whichever path fires it, and
a sweep fires each schedule at most once and leaves none of them due. -/

namespace Allgres

open Raise Rows Runs

namespace Schedule

/-- Active, with every limit that is set still ahead. -/
def mayRun (s : Schedule) (now : Time) : Bool :=
  s.isActive && s.maxRuns.all (s.runCount < ·) && s.endsAt.all (now < ·) &&
    s.maxCostUsd.all (s.spentCostUsd < ·)

def isSettled (s : Schedule) (now : Time) : Bool :=
  !s.isActive || decide (now < s.nextRunAt)

theorem mayRun_of_active {s : Schedule} {now : Time} (ha : s.isActive = true)
    (hl : s.reachedLimit now = false) : s.mayRun now = true := by
  simp only [reachedLimit, Bool.or_eq_false_iff] at hl
  obtain ⟨⟨hruns, hends⟩, hcost⟩ := hl
  have hruns' : s.maxRuns.all (s.runCount < ·) = true := by
    cases hm : s.maxRuns with
    | none => rfl
    | some n => simpa [hm] using hruns
  have hends' : s.endsAt.all (now < ·) = true := by
    cases hm : s.endsAt with
    | none => rfl
    | some t => simpa [hm] using hends
  have hcost' : s.maxCostUsd.all (s.spentCostUsd < ·) = true := by
    cases hm : s.maxCostUsd with
    | none => rfl
    | some x => simpa [hm, Rat.not_le] using hcost
  simp [mayRun, ha, hruns', hends', hcost']

theorem lt_nextAfter (s : Schedule) (now : Time) : now < s.nextAfter now := by
  have hpos := s.intervalSeconds.property
  exact Nat.lt_add_of_pos_right (Nat.mul_pos hpos (by decide))

theorem isSettled_postponed (s : Schedule) (now : Time) : (s.postponed now).isSettled now = true := by
  have hlt : now < (s.postponed now).nextRunAt := s.lt_nextAfter now
  simp [isSettled, hlt]

end Schedule

/-- The sessions a step adds. -/
def spawned (db db' : Db) : List Session :=
  db'.sessions.drop db.sessions.length

theorem spawned_of_append {db db' : Db} {new : List Session} (h : db'.sessions = db.sessions ++ new) :
    spawned db db' = new := by
  rw [spawned, h, List.drop_left]

section Sweep

variable {now : Time} {db : Db} {n : Nat} {r : Schedule}

/-- What one round does. -/
theorem runSchedule_cases (now : Time) (db : Db) (n : Nat) (r : Schedule) :
    ∃ f, KeepsSpent f ∧ (∀ s, (f s).isSettled now = true) ∧
      (runSchedule now (db, n) r = (db.updateSchedule r.scheduleId f, n) ∨
        (r.reachedLimit now = false ∧ ∃ d ids,
          fnCreateSession now db r.agentId (some r.goal) none (some r.scheduleId) = .ok (d, ids) ∧
          runSchedule now (db, n) r = (d.updateSchedule r.scheduleId f, n + 1))) := by
  unfold runSchedule
  dsimp only
  split
  · exact ⟨fun s => { s with isActive := false }, fun s => ⟨rfl, rfl⟩, fun s => rfl, .inl rfl⟩
  · rename_i hl
    split
    · exact ⟨Schedule.postponed now, fun s => ⟨rfl, rfl⟩, fun s => s.isSettled_postponed now, .inl rfl⟩
    · rename_i d sessionId taskId hok
      refine ⟨fun s => (s.fired now sessionId).postponed now, fun s => ⟨rfl, rfl⟩,
        fun s => (s.fired now sessionId).isSettled_postponed now, .inr ?_⟩
      exact ⟨by simpa using hl, d, _, hok, rfl⟩

/-- A round adds at most the session of its own schedule, and only when that has no limit
behind it. -/
theorem runSchedule_spawns (now : Time) (db : Db) (n : Nat) (r : Schedule) :
    ∃ new : List Session, (runSchedule now (db, n) r).1.sessions = db.sessions ++ new ∧
      (new.map (·.scheduleId)).Sublist [some r.scheduleId] ∧ (new ≠ [] → r.reachedLimit now = false) := by
  obtain ⟨f, -, -, h | ⟨hl, d, ids, hok, h⟩⟩ := runSchedule_cases now db n r
  · refine ⟨[], ?_, by simp, fun hne => absurd rfl hne⟩
    rw [h, List.append_nil]
    rfl
  · obtain ⟨-, -, s, hs, hsess⟩ := fnCreateSession_adds hok
    refine ⟨[s], ?_, by simp [hs], fun _ => hl⟩
    rw [h]
    exact hsess

/-- A round touches the row of its own schedule alone, and leaves that settled. -/
theorem runSchedule_settles (now : Time) (db : Db) (n : Nat) (r : Schedule) :
    ∀ s ∈ (runSchedule now (db, n) r).1.cfg.schedules,
      s.isSettled now = true ∨ (s.scheduleId ≠ r.scheduleId ∧ s ∈ db.cfg.schedules) := by
  obtain ⟨f, -, hset, hround⟩ := runSchedule_cases now db n r
  have hrows : (runSchedule now (db, n) r).1.cfg.schedules =
      update (·.scheduleId = r.scheduleId) f db.cfg.schedules := by
    rcases hround with h | ⟨-, d, ids, hok, h⟩
    · rw [h]
      rfl
    · rw [h, ← (fnCreateSession_adds hok).1]
      rfl
  intro s hs
  rw [hrows] at hs
  obtain ⟨u, hu, rfl⟩ := mem_update.mp hs
  by_cases hid : u.scheduleId = r.scheduleId
  · rw [if_pos (by simpa using hid)]
    exact .inl (hset u)
  · rw [if_neg (by simpa using hid)]
    exact .inr ⟨hid, hu⟩

theorem runSchedule_ids (now : Time) (db : Db) (n : Nat) (r : Schedule) :
    (runSchedule now (db, n) r).1.cfg.schedules.map (·.scheduleId) = db.cfg.schedules.map (·.scheduleId) := by
  obtain ⟨f, hf, -, h | ⟨-, d, ids, hok, h⟩⟩ := runSchedule_cases now db n r
  · rw [h]
    exact map_update (fun s => (hf s).1) _
  · rw [h, ← (fnCreateSession_adds hok).1]
    exact map_update (fun s => (hf s).1) _

/-- The rounds over some rows add sessions for a part of them, in their order. -/
theorem sweep_spawns (now : Time) (rs : List Schedule) (db : Db) (n : Nat) :
    ∃ new : List Session, (rs.foldl (runSchedule now) (db, n)).1.sessions = db.sessions ++ new ∧
      (new.map (·.scheduleId)).Sublist (rs.map fun r => some r.scheduleId) ∧
      ∀ s ∈ new, ∃ r ∈ rs, s.scheduleId = some r.scheduleId ∧ r.reachedLimit now = false := by
  induction rs generalizing db n with
  | nil => exact ⟨[], by simp, by simp, by simp⟩
  | cons r rs ih =>
    rcases hd : runSchedule now (db, n) r with ⟨d, m⟩
    obtain ⟨first, hfirst, hsub, hlim⟩ := runSchedule_spawns now db n r
    obtain ⟨rest, hrest, hsubs, hlims⟩ := ih d m
    rw [hd] at hfirst
    refine ⟨first ++ rest, ?_, ?_, fun s hs => ?_⟩
    · rw [List.foldl_cons, hd, hrest, hfirst, List.append_assoc]
    · rw [List.map_append]
      exact hsub.append hsubs
    · rcases List.mem_append.mp hs with hs | hs
      · have hid : some r.scheduleId = s.scheduleId := by
          have hmem := hsub.subset (List.mem_map_of_mem hs)
          exact (List.mem_singleton.mp hmem).symm
        exact ⟨r, by simp, hid.symm, hlim (List.ne_nil_of_mem hs)⟩
      · obtain ⟨u, hu, hid, hl⟩ := hlims s hs
        exact ⟨u, List.mem_cons_of_mem r hu, hid, hl⟩

/-- After the rounds over some rows, a row is settled, or it is untouched and none of them. -/
theorem sweep_settles (now : Time) (rs : List Schedule) (db : Db) (n : Nat) :
    ∀ s ∈ (rs.foldl (runSchedule now) (db, n)).1.cfg.schedules,
      s.isSettled now = true ∨ (s ∈ db.cfg.schedules ∧ s.scheduleId ∉ rs.map (·.scheduleId)) := by
  induction rs generalizing db n with
  | nil => exact fun s hs => .inr ⟨hs, by simp⟩
  | cons r rs ih =>
    rcases hd : runSchedule now (db, n) r with ⟨d, m⟩
    intro s hs
    rw [List.foldl_cons, hd] at hs
    rcases ih d m s hs with hset | ⟨hmem, hnot⟩
    · exact .inl hset
    · have hround := runSchedule_settles now db n r
      rw [hd] at hround
      rcases hround s hmem with hset | ⟨hne, hold⟩
      · exact .inl hset
      · exact .inr ⟨hold, by simpa [hne] using hnot⟩

theorem sweep_ids (now : Time) (rs : List Schedule) (db : Db) (n : Nat) :
    (rs.foldl (runSchedule now) (db, n)).1.cfg.schedules.map (·.scheduleId) =
      db.cfg.schedules.map (·.scheduleId) := by
  induction rs generalizing db n with
  | nil => rfl
  | cons r rs ih =>
    rcases hd : runSchedule now (db, n) r with ⟨d, m⟩
    have hids := runSchedule_ids now db n r
    rw [hd] at hids
    rw [List.foldl_cons, hd, ih d m, hids]

theorem mem_dueSchedules {locked : List Uuid} :
    r ∈ dueSchedules now locked db ↔ r ∈ db.cfg.schedules ∧ r.isDue now = true ∧ r.scheduleId ∉ locked := by
  simp [dueSchedules]

/-- No schedule that the sweep could lock is due after it. -/
theorem fnRunSchedules_settles {locked : List Uuid} :
    ∀ s ∈ (fnRunSchedules now locked db).1.cfg.schedules, s.isActive = true → s.scheduleId ∉ locked →
      now < s.nextRunAt := by
  intro s hs ha hl
  have hset : s.isSettled now = true := by
    rcases sweep_settles now (dueSchedules now locked db) db 0 s hs with hset | ⟨hmem, hnot⟩
    · exact hset
    · by_contra hdue
      have hd : s.isDue now = true := by simpa [Schedule.isSettled, Schedule.isDue, ha] using hdue
      exact hnot (List.mem_map_of_mem (mem_dueSchedules.mpr ⟨hmem, hd, hl⟩))
  simpa [Schedule.isSettled, ha] using hset

theorem fnRunSchedules_spawns (now : Time) (locked : List Uuid) (db : Db) :
    ((spawned db (fnRunSchedules now locked db).1).map (·.scheduleId)).Sublist
        ((dueSchedules now locked db).map fun r => some r.scheduleId) ∧
      ∀ s ∈ spawned db (fnRunSchedules now locked db).1, ∃ r ∈ db.cfg.schedules,
        s.scheduleId = some r.scheduleId ∧ r.mayRun now = true := by
  obtain ⟨new, hnew, hsub, hlim⟩ := sweep_spawns now (dueSchedules now locked db) db 0
  have hspawn : spawned db (fnRunSchedules now locked db).1 = new := spawned_of_append hnew
  rw [hspawn]
  refine ⟨hsub, fun s hs => ?_⟩
  obtain ⟨r, hr, hid, hl⟩ := hlim s hs
  obtain ⟨hmem, hdue, -⟩ := mem_dueSchedules.mp hr
  have ha : r.isActive = true := by
    simp only [Schedule.isDue, Bool.and_eq_true] at hdue
    exact hdue.1
  exact ⟨r, hmem, hid, Schedule.mayRun_of_active ha hl⟩

end Sweep

section Steps

variable {pg : Postgres} {now : Time} {db db' : Db}

theorem fnRunScheduleNow_spawns {id : Uuid} {ids : Uuid × Uuid}
    (h : fnRunScheduleNow now db id = .ok (db', ids)) :
    ∃ r, db.schedule? id = some r ∧ r.mayRun now = true ∧
      ∀ s ∈ spawned db db', s.scheduleId = some id := by
  obtain ⟨r, d, f, hr, ha, hl, hok, -, rfl⟩ := fnRunScheduleNow_spec h
  obtain ⟨-, -, s, hs, hsess⟩ := fnCreateSession_adds hok
  have hspawn : spawned db (d.updateSchedule id f) = [s] := spawned_of_append hsess
  refine ⟨r, hr, Schedule.mayRun_of_active ha hl, fun u hu => ?_⟩
  rw [hspawn] at hu
  rw [List.mem_singleton.mp hu, hs]

/-- No two schedules have one id. -/
def UniqueSchedules (db : Db) : Prop :=
  (db.cfg.schedules.map (·.scheduleId)).Nodup

theorem UniqueSchedules.step (h : UniqueSchedules db) (e : ScheduleEvent) :
    UniqueSchedules (scheduleStep pg db e) := by
  rcases scheduleStep_cases pg db e with he | he
  · rw [he]
    exact h
  · have hkeep : ∀ {d : Db}, d.cfg.schedules.map (·.scheduleId) = db.cfg.schedules.map (·.scheduleId) →
        UniqueSchedules d := fun hd => (congrArg List.Nodup hd).mpr h
    generalize scheduleStep pg db e = db' at he ⊢
    cases hop : e.op with
    | create name agentId goal intervalSeconds maxRuns endsAt startAt maxCostUsd =>
      rw [hop] at he
      obtain ⟨id, hok⟩ := map_fst_eq_ok he
      obtain ⟨row, -, hnew, rfl⟩ := fnCreateSchedule_spec hok
      unfold UniqueSchedules
      rw [List.map_append, List.nodup_append]
      refine ⟨h, by simp, fun a ha b hb => ?_⟩
      obtain ⟨s, hs, rfl⟩ := List.mem_map.mp ha
      rw [List.map_singleton, List.mem_singleton] at hb
      exact hb ▸ hnew s hs
    | set id change =>
      rw [hop] at he
      obtain ⟨f, hf, rfl⟩ := fnSetSchedule_spec _ he
      exact hkeep (map_update (fun s => (hf s).1) _)
    | delete id =>
      rw [hop] at he
      obtain rfl := fnDeleteSchedule_spec _ he
      exact List.Nodup.sublist (List.filter_sublist.map _) h
    | runSchedules locked =>
      rw [hop] at he
      obtain rfl := Except.ok.inj he
      exact hkeep (sweep_ids e.now _ db 0)
    | runNow id =>
      rw [hop] at he
      obtain ⟨ids, hok⟩ := map_fst_eq_ok he
      obtain ⟨r, d, f, -, -, -, hd, hf, rfl⟩ := fnRunScheduleNow_spec hok
      apply hkeep
      rw [← (fnCreateSession_adds hd).1]
      exact map_update (fun s => (hf s).1) _
    | plane op =>
      rw [hop] at he
      dsimp only [performSchedule] at he
      split at he
      · rename_i hs
        exact hkeep (perform_spares hs he).1
      · cases he

theorem uniqueSchedules_run (pg : Postgres) (c : Config) (es : List ScheduleEvent) :
    UniqueSchedules (run (scheduleStep pg) (unscheduled c) es) := by
  have hstep : ∀ (s : Db) (e : ScheduleEvent), UniqueSchedules s → True → UniqueSchedules (scheduleStep pg s e) :=
    fun _ e hs _ => hs.step e
  exact Runs.invariant hstep List.nodup_nil (along_true _ es)

/-- A session with a schedule is added by the two firing paths only, and within the limits. -/
theorem scheduleStep_spawns (h : UniqueSchedules db) (e : ScheduleEvent) :
    ∀ s ∈ spawned db (scheduleStep pg db e), ∀ id, s.scheduleId = some id →
      ∃ r, db.schedule? id = some r ∧ r.mayRun e.now = true := by
  have hnone : ∀ {d : Db}, d.sessions.length = db.sessions.length → spawned db d = [] := by
    intro d hd
    rw [spawned, ← hd, List.drop_length]
  rcases scheduleStep_cases pg db e with he | he
  · rw [he, hnone rfl]
    simp
  · generalize scheduleStep pg db e = db' at he ⊢
    intro s hs id hid
    have hempty : db'.sessions.length = db.sessions.length → False := by
      intro hlen
      rw [hnone hlen] at hs
      cases hs
    cases hop : e.op with
    | create name agentId goal intervalSeconds maxRuns endsAt startAt maxCostUsd =>
      rw [hop] at he
      obtain ⟨id', hok⟩ := map_fst_eq_ok he
      obtain ⟨row, -, -, rfl⟩ := fnCreateSchedule_spec hok
      exact (hempty rfl).elim
    | set id' change =>
      rw [hop] at he
      obtain ⟨f, -, rfl⟩ := fnSetSchedule_spec _ he
      exact (hempty rfl).elim
    | delete id' =>
      rw [hop] at he
      obtain rfl := fnDeleteSchedule_spec _ he
      exact (hempty (List.length_map _)).elim
    | runSchedules locked =>
      rw [hop] at he
      obtain rfl := Except.ok.inj he
      obtain ⟨r, hr, hsid, hm⟩ := (fnRunSchedules_spawns e.now locked db).2 s hs
      obtain rfl : r.scheduleId = id := Option.some.inj (hsid.symm.trans hid)
      exact ⟨r, find_key Schedule.scheduleId h hr, hm⟩
    | runNow id' =>
      rw [hop] at he
      obtain ⟨ids, hok⟩ := map_fst_eq_ok he
      obtain ⟨r, hr, hm, hspawn⟩ := fnRunScheduleNow_spawns hok
      obtain rfl : id' = id := Option.some.inj ((hspawn s hs).symm.trans hid)
      exact ⟨r, hr, hm⟩
    | plane op =>
      rw [hop] at he
      dsimp only [performSchedule] at he
      split at he
      · rename_i hspares
        have hnone' := (perform_spares hspares he).2.drop s hs
        exact absurd (hid.symm.trans hnone') (by simp)
      · cases he

/-- A sweep adds at most one session for each schedule. -/
theorem fnRunSchedules_once (h : UniqueSchedules db) (now : Time) (locked : List Uuid) (id : Uuid) :
    (spawned db (fnRunSchedules now locked db).1).countP (·.scheduleId = some id) ≤ 1 := by
  have hsub := (fnRunSchedules_spawns now locked db).1
  have hdue : ((dueSchedules now locked db).map (·.scheduleId)).Nodup :=
    h.sublist (List.filter_sublist.map _)
  have hnodup : ((spawned db (fnRunSchedules now locked db).1).map (·.scheduleId)).Nodup := by
    refine List.Nodup.sublist hsub ?_
    have hsome := hdue.map (Option.some_injective Uuid)
    rwa [List.map_map] at hsome
  have hcount := List.nodup_iff_count_le_one.mp hnodup (some id)
  rw [List.count, List.countP_map] at hcount
  refine le_trans (le_of_eq (List.countP_congr fun s _ => ?_)) hcount
  simp

end Steps

/-- In every run, whatever the operators edit and whenever costs arrive: a session is spawned
for a schedule only while that is active and within each limit that is set, and a sweep spawns
at most one for each schedule and leaves none of those it could lock due. -/
theorem schedule_stops (pg : Postgres) (c : Config) (es : List ScheduleEvent) (e : ScheduleEvent) :
    let db := run (scheduleStep pg) (unscheduled c) es
    let db' := scheduleStep pg db e
    (∀ s ∈ spawned db db', ∀ id, s.scheduleId = some id →
      ∃ r, db.schedule? id = some r ∧ r.mayRun e.now = true) ∧
    ∀ locked, e.op = .runSchedules locked →
      (∀ id, (spawned db db').countP (·.scheduleId = some id) ≤ 1) ∧
      ∀ s ∈ db'.cfg.schedules, s.isActive = true → s.scheduleId ∉ locked → e.now < s.nextRunAt := by
  have hunique : UniqueSchedules (run (scheduleStep pg) (unscheduled c) es) := uniqueSchedules_run pg c es
  dsimp only
  refine ⟨scheduleStep_spawns hunique e, fun locked hop => ?_⟩
  have hstep : scheduleStep pg (run (scheduleStep pg) (unscheduled c) es) e =
      (fnRunSchedules e.now locked (run (scheduleStep pg) (unscheduled c) es)).1 := by
    unfold scheduleStep
    rw [hop]
    rfl
  rw [hstep]
  exact ⟨fnRunSchedules_once hunique e.now locked, fnRunSchedules_settles⟩

/-- A schedule of one minute, which the sweep then finds fourteen minutes late. -/
def minutely : List ScheduleEvent :=
  [⟨1000, .create (some "minutely") 1 (some "report") (some 60) (some 2) none none none⟩]

def lateSweep : ScheduleEvent :=
  ⟨900000, .runSchedules []⟩

theorem minutely_fires_once :
    let db := run (scheduleStep bareServer) (unscheduled clerkConfig) minutely
    let db' := scheduleStep bareServer db lateSweep
    (spawned db db').map (·.scheduleId) = [some 1] ∧
      (∃ r, db.schedule? 1 = some r ∧ r.mayRun 900000 = true) ∧
      (db'.cfg.schedules.map (·.isActive) = [true] ∧ ∀ s ∈ db'.cfg.schedules, 900000 < s.nextRunAt) := by
  have hstops := schedule_stops bareServer clerkConfig minutely lateSweep
  dsimp only at hstops ⊢
  have hspawn : (spawned (run (scheduleStep bareServer) (unscheduled clerkConfig) minutely)
      (scheduleStep bareServer (run (scheduleStep bareServer) (unscheduled clerkConfig) minutely)
        lateSweep)).map (·.scheduleId) = [some 1] := by decide +kernel
  have hactive : (scheduleStep bareServer (run (scheduleStep bareServer) (unscheduled clerkConfig)
      minutely) lateSweep).cfg.schedules.map (·.isActive) = [true] := by decide +kernel
  refine ⟨hspawn, ?_, hactive, fun s hs => ?_⟩
  · obtain ⟨s, hs, hid⟩ := List.mem_map.mp (hspawn ▸ List.mem_singleton_self (some (1 : Uuid)))
    exact hstops.1 s hs 1 hid
  · have hs' : s.isActive = true := by
      have hmem := List.mem_map_of_mem (f := fun s : Schedule => s.isActive) hs
      rw [hactive] at hmem
      exact List.mem_singleton.mp hmem
    exact (hstops.2 [] rfl).2 s hs hs' (by simp)

end Allgres
