import Allgres.ConcurrencyCap
import Allgres.RowVersions

/-! `max_concurrent_tasks` in transactions. A dispatch counts the tasks an agent has in a turn
without a lock on them, and starts one more where there is room; the tick of the worker and
`allgres.pump` are two such dispatches. Every other operation takes tasks out of a turn only, or
from one status of it to another. -/

namespace Allgres

open ReadCommitted Raise Rows Runs Allgres.Core

/-- The round of a dispatch behind the test of the cap. -/
def takeUp (pg : Postgres) (now : Time) (roll : Uuid → Rat) (db : Db) (t : Task) :
    Except String (Db × Option Uuid) :=
  match fnNextStep pg now (roll t.taskId) db t.taskId with
  | .error e => .ok (submitQuietly pg now db t.taskId (errorPayload e), none)
  | .ok (db', .done _) => .ok (db', none)
  | .ok (db', .callLlm spec) => match buildLlmHttp db'.cfg spec with
    | .ok o => .ok (db'.insertCall t.taskId (.outbound o) now, some db'.nextId)
    | .error e => match fnSubmitResult pg now db' t.taskId (errorPayload e) with
      | .ok (db'', _) => .ok (db'', none)
      | .error e => .error e

theorem dispatchTask_eq (pg : Postgres) (now : Time) (roll : Uuid → Rat) (db : Db) (t : Task) :
    dispatchTask pg now roll db t = if overCap db t then .ok (db, none) else takeUp pg now roll db t := rfl

/-- The tasks of an agent that hold a slot. -/
def slots (a : Uuid) (ts : List Task) : List Task :=
  ts.filter fun x => x.agentId = a && occupies x

/-- A task of the agent holds a slot. -/
def Occupied (a : Uuid) (ts : List Task) (id : Uuid) : Prop :=
  ∃ x, rowAt Task.taskId ts id = some x ∧ x.agentId = a ∧ occupies x = true

section Counting

variable {a id : Uuid} {ts ts' : List Task}

theorem mem_slots {x : Task} : x ∈ slots a ts ↔ x ∈ ts ∧ x.agentId = a ∧ occupies x = true := by
  simp [slots]

theorem occupied_of_mem (hn : (ts.map (·.taskId)).Nodup) {x : Task} (hx : x ∈ slots a ts) :
    Occupied a ts x.taskId := by
  obtain ⟨hm, ha, ho⟩ := mem_slots.mp hx
  exact ⟨x, rowAt_of_mem hn hm, ha, ho⟩

theorem Occupied.mem (h : Occupied a ts id) : ∃ x ∈ slots a ts, x.taskId = id := by
  obtain ⟨x, hx, ha, ho⟩ := h
  exact ⟨x, mem_slots.mpr ⟨mem_of_rowAt hx, ha, ho⟩, key_of_rowAt hx⟩

theorem Occupied.of_same (h : Occupied a ts id) (hrow : rowAt Task.taskId ts' id = rowAt Task.taskId ts id) :
    Occupied a ts' id := by
  obtain ⟨x, hx, hrest⟩ := h
  exact ⟨x, hrow.trans hx, hrest⟩

/-- Of the tasks that satisfy a condition on their ids, no more hold a slot where no other does. -/
theorem slots_le (hn : (ts.map (·.taskId)).Nodup) (h : ∀ id, Occupied a ts id → Occupied a ts' id)
    (p : Uuid → Bool) :
    ((slots a ts).filter (p ·.taskId)).length ≤ ((slots a ts').filter (p ·.taskId)).length := by
  refine length_le_of_ids (hn.sublist ((List.filter_sublist.trans List.filter_sublist).map _)) fun x hx => ?_
  obtain ⟨hx, hp⟩ := List.mem_filter.mp hx
  obtain ⟨y, hy, hyx⟩ := (h _ (occupied_of_mem hn hx)).mem
  exact ⟨y, List.mem_filter.mpr ⟨hy, hyx ▸ hp⟩, hyx⟩

theorem slots_length_le (hn : (ts.map (·.taskId)).Nodup) (h : ∀ id, Occupied a ts id → Occupied a ts' id) :
    (slots a ts).length ≤ (slots a ts').length := by
  have hle := slots_le hn h fun _ => true
  simpa using hle

/-- Beside one task no other comes to hold a slot. -/
theorem slots_le_succ (hn : (ts.map (·.taskId)).Nodup)
    (h : ∀ i, i ≠ id → Occupied a ts i → Occupied a ts' i) :
    (slots a ts).length ≤ ((slots a ts').filter (·.taskId ≠ id)).length + 1 := by
  have hsplit := List.length_eq_length_filter_add (l := slots a ts) fun x => decide (x.taskId ≠ id)
  have hothers : ((slots a ts).filter fun x => decide (x.taskId ≠ id)).length ≤
      ((slots a ts').filter (·.taskId ≠ id)).length := by
    refine length_le_of_ids (hn.sublist ((List.filter_sublist.trans List.filter_sublist).map _)) fun x hx => ?_
    obtain ⟨hx, hne⟩ := List.mem_filter.mp hx
    obtain ⟨y, hy, hyx⟩ := (h _ (of_decide_eq_true hne) (occupied_of_mem hn hx)).mem
    exact ⟨y, List.mem_filter.mpr ⟨hy, hyx ▸ hne⟩, hyx⟩
  have hown : ((slots a ts).filter fun x => !decide (x.taskId ≠ id)).length ≤ 1 := by
    have hids : (((slots a ts).filter fun x => !decide (x.taskId ≠ id)).map (·.taskId)).Nodup :=
      hn.sublist ((List.filter_sublist.trans List.filter_sublist).map _)
    have hone : ∀ i ∈ ((slots a ts).filter fun x => !decide (x.taskId ≠ id)).map (·.taskId), i ∈ [id] := by
      intro i hi
      obtain ⟨x, hx, rfl⟩ := List.mem_map.mp hi
      simpa using (List.mem_filter.mp hx).2
    simpa using (List.subperm_of_subset hids hone).length_le
  omega

end Counting

section Lives

variable {pg : Postgres} {now : Time} {roll : Uuid → Rat} {db db' db'' : Db} {t : Task} {a i : Uuid}

def TaskStatus.inTurn (s : TaskStatus) : Bool :=
  s = .running || s = .waitingHuman || s = .waitingChildren

/-- No move but the start of a queued task takes one into a turn. -/
theorem Life.inTurn_move {lab : Label} {l l' : Life} (h : Life.Move lab l l') (hlab : lab ≠ .start)
    (hin : l'.status.any TaskStatus.inTurn = true) : l.status.any TaskStatus.inTurn = true := by
  cases h with
  | start => exact absurd rfl hlab
  | born => cases hin
  | settleIdle => exact hin
  | drop => exact hin
  | timeOut => cases hin
  | cancel => cases hin
  | settleStep _ _ h =>
    cases h with
    | advance s => rfl
    | halt => rfl
  | settleQueue _ _ h =>
    cases h with
    | queue _ _ => rfl
  | _ => rfl

/-- Whoever holds a slot held it before, if the status says so. -/
theorem occupied_of_status (hw : db.core.WellFormed) (hg : Grow db.core db'.core)
    (h : (db'.core.life i).status.any TaskStatus.inTurn = true →
      (db.core.life i).status.any TaskStatus.inTurn = true)
    (ho : Occupied a db'.tasks i) : Occupied a db.tasks i := by
  obtain ⟨x, hx, ha, hocc⟩ := ho
  have hx : db'.core.task? i = some x := hx
  have hlife : (db'.core.life i).status = some x.status := congrArg Life.status (life_of_task? hx)
  have hin := h (by rw [hlife]; exact hocc)
  obtain ⟨s, hs, hsin⟩ := (Option.any_eq_true _ _).mp hin
  obtain ⟨y, hy, -, hys⟩ := task_of_life hs
  obtain ⟨x', hx', hid⟩ := hg.task? hw hy
  obtain rfl := Option.some.inj (hx.symm.trans hx')
  refine ⟨y, hy, (congrArg (·.2.2.1) hid).symm.trans ha, ?_⟩
  rw [← hys] at hsin
  exact hsin

/-- An operation other than a dispatch gives no task a slot. -/
theorem occupied_of_perform {op : Op} (hw : db.core.WellFormed) (hop : op.isDispatch = false)
    (h : perform pg now db op = .ok db') (ho : Occupied a db'.tasks i) : Occupied a db.tasks i := by
  have hnot : ∀ {lab : Label}, (lab = .start → op.isDispatch = true) → lab ≠ .start := by
    rintro lab hlab rfl
    rw [hop] at hlab
    cases hlab rfl
  have hpermits : Permits pg (fun _ lab _ => lab ≠ .start) now db op := by
    cases op with
    | dispatch roll locked => cases hop
    | submit i payload => exact fun _ => ⟨nofun, nofun⟩
    | completeOutbound => exact fun _ _ _ _ => nofun
    | watchdog seconds locked => exact ⟨fun _ _ _ _ _ _ => nofun, fun _ _ _ _ => nofun⟩
    | decideApproval id accept reply =>
      intro a _ _ _ t _ _ _
      cases accept <;> exact nofun
    | cancelSession sid reason => exact fun _ _ _ _ => nofun
    | _ => trivial
  have hev : Evolves (fun _ lab _ => lab ≠ .start) db.core db'.core :=
    perform_evolves hw (fun _ _ _ _ hlab => hnot hlab) hpermits h
  refine occupied_of_status hw hev.grow ?_ ho
  exact Moves.lift
    (R := fun l l' : Life => l'.status.any TaskStatus.inTurn = true → l.status.any TaskStatus.inTurn = true)
    (fun _ h => h) (fun _ _ _ h h' hin => h (h' hin))
    (fun lab _ _ (hlab : lab ≠ .start) hm => Life.inTurn_move hm hlab) (hev.lives i)

/-- One task is taken up; the others stay, but for tasks that are added. -/
structure TakenUp (i : Uuid) (db db' : Db) : Prop where
  grow : Grow db.core db'.core
  others : ∀ j, j ≠ i → db'.core.life j = db.core.life j ∨ Life.Move .born (db.core.life j) (db'.core.life j)

theorem TakenUp.refl (db : Db) : TakenUp i db db :=
  ⟨Grow.refl _, fun _ _ => .inl rfl⟩

theorem TakenUp.trans (h : TakenUp i db db') (h' : TakenUp i db' db'') : TakenUp i db db'' :=
  ⟨h.grow.trans h'.grow, fun j hj => born_once (h.others j hj) (h'.others j hj)⟩

theorem submitted_takenUp {payload : Json} (hw : db.core.WellFormed) :
    Returns (fun r => TakenUp i db r.1) (fnSubmitResult pg now db i payload) := by
  intro r hr
  obtain ⟨-, hsub⟩ := fnSubmitResult_submitted hw hr
  exact ⟨hsub.grow, hsub.others⟩

theorem submitQuietly_takenUp (hw : db.core.WellFormed) (payload : Json) :
    TakenUp i db (submitQuietly pg now db i payload) := by
  unfold submitQuietly
  split
  · rename_i h
    exact submitted_takenUp hw _ h
  · exact .refl db

theorem fnNextStep_takenUp {roll : Rat} {next : NextAction} (hw : db.core.WellFormed)
    (h : fnNextStep pg now roll db i = .ok (db', next)) :
    TakenUp i db db' ∧ ∃ t ∈ db'.tasks, t.taskId = i := by
  unfold fnNextStep at h
  cases ht : db.task? i with
  | none =>
    rw [ht] at h
    cases h
  | some t =>
    obtain ⟨-, rfl⟩ := mem_of_task? (s := db.core) ht
    simp only [ht] at h
    split at h
    · cases h
    rename_i hst
    have hs : t.status = .queued ∨ t.status = .running := by
      by_cases hq : t.status = .queued
      · exact .inl hq
      · exact .inr (by_contra fun hr => hst ⟨hq, hr⟩)
    obtain ⟨hg, -, hothers, t', ht', hti, -, -⟩ := startTurn_life now ht hs
    have hstart : TakenUp t.taskId db (db.startTurn t now) := ⟨hg, fun j hj => .inl (hothers j hj)⟩
    have hrow : ∀ {d : Db}, Grow (db.startTurn t now).core d.core → ∃ t₀ ∈ d.tasks, t₀.taskId = t.taskId := by
      intro d hgd
      obtain ⟨r, hr, hid⟩ := hgd.tasks.kept (mem_of_task? (s := (db.startTurn t now).core) ht').1
      exact ⟨r, hr, (congrArg (·.1) hid).trans hti⟩
    have hfail : ∀ e v, TakenUp t.taskId db ((db.startTurn t now).failTask t e v now) ∧
        ∃ t₀ ∈ ((db.startTurn t now).failTask t e v now).tasks, t₀.taskId = t.taskId := by
      intro e v
      have hf : ∀ r : Task, ({ r with
          status := .failed
          error := some e
          updatedAt := now } : Task).ident = r.ident := fun _ => rfl
      have hcore := Db.core_failTask (db.startTurn t now) t e v now
      have hgrow : Grow (db.startTurn t now).core ((db.startTurn t now).failTask t e v now).core :=
        hcore ▸ grow_updateTask hf
      refine ⟨hstart.trans ⟨hgrow, fun j hj => .inl ?_⟩, hrow hgrow⟩
      rw [hcore]
      exact life_updateTask_ne hf hj
    split at h
    · obtain rfl := congrArg (·.1) (Except.ok.inj h)
      exact hfail _ _
    · cases h
    · split at h
      · obtain rfl := congrArg (·.1) (Except.ok.inj h)
        exact hfail _ _
      · obtain ⟨hsp, -, -⟩ := openTurn_spawned (hg.wf hw) h
        exact ⟨hstart.trans ⟨hsp.grow, fun j _ => hsp.lives j⟩, hrow hsp.grow⟩

theorem takeUp_takenUp {queued : Option Uuid} (hw : db.core.WellFormed)
    (h : takeUp pg now roll db t = .ok (db', queued)) : TakenUp t.taskId db db' := by
  unfold takeUp at h
  split at h
  · obtain rfl := congrArg (·.1) (Except.ok.inj h)
    exact submitQuietly_takenUp hw _
  · rename_i hnext
    obtain rfl := congrArg (·.1) (Except.ok.inj h)
    exact (fnNextStep_takenUp hw hnext).1
  · rename_i d spec hnext
    obtain ⟨hd, hrow⟩ := fnNextStep_takenUp hw hnext
    split at h
    · obtain rfl := congrArg (·.1) (Except.ok.inj h)
      refine hd.trans ⟨grow_insertCall hrow, fun j hj => .inl ?_⟩
      rw [Db.core_insertCall, life_insertCall, if_neg hj, List.append_nil]
      rfl
    · split at h
      · rename_i hsub
        obtain rfl := congrArg (·.1) (Except.ok.inj h)
        exact hd.trans (submitted_takenUp (hd.grow.wf hw) _ hsub)
      · cases h

theorem TakenUp.occupied (h : TakenUp i db db') (hw : db.core.WellFormed) {j : Uuid} (hj : j ≠ i)
    (ho : Occupied a db'.tasks j) : Occupied a db.tasks j := by
  refine occupied_of_status hw h.grow (fun hin => ?_) ho
  rcases h.others j hj with he | hb
  · exact he ▸ hin
  · exact Life.inTurn_move hb nofun hin

end Lives

/-- The other tables beside each content of the tasks; the policy of an agent allows it a number
of tasks in a turn. -/
structure Tables (a : Uuid) (n : Nat) where
  db : List Task → Db
  tasks_eq : ∀ ts, (db ts).tasks = ts
  wf : ∀ ts, (ts.map (·.taskId)).Nodup → (db ts).core.WellFormed
  cap : ∀ ts, ((db ts).cfg.policy? a).map (·.maxConcurrentTasks) = some n

/-- A dispatch, with what its next statements find in the other tables. -/
structure Dispatch (a : Uuid) (n : Nat) where
  now : Time
  roll : Uuid → Rat
  tables : Nat → Tables a n

def Dispatch.next {a : Uuid} {n : Nat} (d : Dispatch a n) : Dispatch a n :=
  { d with tables := fun i => d.tables (i + 1) }

/-- `visit` is the head of the loop over the rows that are picked, `start` the round of a row
that the cap lets pass. -/
inductive SlotLoc (a : Uuid) (n : Nat) where
  | visit (d : Dispatch a n) (left : Nat) (picked : List Task)
  | start (d : Dispatch a n) (left : Nat) (t : Task) (rest : List Task)
  | operate (now : Time) (op : Op) (tables : Tables a n)
  | done

namespace SlotLoc

variable {a : Uuid} {n : Nat}

def entry : SlotLoc a n → Bool
  | visit _ left _ => left = 4
  | operate _ op _ => !op.isDispatch
  | _ => false

def final : SlotLoc a n → Bool
  | done => true
  | _ => false

/-- A row is picked in the states a dispatch selects, and checked again when it is locked. -/
def pickable (ts : List Task) (t : Task) : Bool :=
  (rowAt Task.taskId ts t.taskId).any fun u =>
    u.agentId = t.agentId && (u.status = .queued || u.status = .running)

def takes (pg : Postgres) (ts : List Task) : SlotLoc a n → Option (Db × Option Uuid)
  | start d _ t _ => (takeUp pg d.now d.roll ((d.tables 0).db ts) t).toOption
  | operate now op tables => (perform pg now (tables.db ts) op).toOption.map (·, none)
  | _ => none

/-- The versions of the rows that a statement writes. -/
def versions (pg : Postgres) (ts : List Task) (loc : SlotLoc a n) : List Task :=
  match loc.takes pg ts with
  | some (db', _) => rewritten Task.taskId ts db'.tasks
  | none => []

def locks (pg : Postgres) : SlotLoc a n → List Task → List Uuid
  | visit _ (_ + 1) (t :: _), _ => [t.taskId]
  | loc, ts => (loc.versions pg ts).map (·.taskId)

def next : SlotLoc a n → Option Uuid → SlotLoc a n
  | start d left _ rest, queued => visit d.next (if queued.isSome then left else left + 1) rest
  | _, _ => done

def exec (pg : Postgres) : SlotLoc a n → List Task → Option (SlotLoc a n × (List Task → List Task))
  | visit d (left + 1) (t :: rest), ts =>
    if pickable ts t && !overCap ((d.tables 0).db ts) t then some (start d.next left t rest, id)
    else some (visit d.next (left + 1) rest, id)
  | visit _ _ _, _ => some (done, id)
  | loc, ts => (loc.takes pg ts).map fun r => (loc.next r.2, overwrite Task.taskId (loc.versions pg ts))

end SlotLoc

def slotCode (pg : Postgres) (a : Uuid) (n : Nat) : Code (List Task) (SlotLoc a n) Uuid where
  entry := SlotLoc.entry
  final := SlotLoc.final
  locks := SlotLoc.locks pg
  exec := SlotLoc.exec pg

/-- No two tasks have one id, and the agent has no more in a turn than its policy allows. -/
structure Fits (a : Uuid) (n : Nat) (ts : List Task) : Prop where
  ids : (ts.map (·.taskId)).Nodup
  room : (slots a ts).length ≤ n

namespace SlotLoc

variable {a : Uuid} {n : Nat}

/-- The agent of the task that is about to be started. -/
def starting : SlotLoc a n → Option Uuid
  | start _ _ t _ => some t.agentId
  | _ => none

/-- What is known at a place: the task that is about to be started is locked, and there is room
for it. -/
def Knows (loc : SlotLoc a n) (H : Uuid → Prop) (ts : List Task) : Prop :=
  match loc with
  | start _ _ t _ => H t.taskId ∧
      (∃ u, rowAt Task.taskId ts t.taskId = some u ∧ u.agentId = t.agentId) ∧
      (t.agentId = a → ((slots a ts).filter (·.taskId ≠ t.taskId)).length < n)
  | operate _ op _ => op.isDispatch = false
  | _ => True

end SlotLoc

/-- A transaction has counted the tasks of the agent for one more, or has one more in a turn. -/
def Seating {a : Uuid} {n : Nat} (ts : List Task) (u : Txn (List Task) (SlotLoc a n)) : Prop :=
  u.loc.starting = some a ∨ ∃ id, Occupied a (u.write ts) id ∧ ¬ Occupied a ts id

/-- A transaction puts no task of the agent in a turn beside another that has counted them. -/
def Unseated (a : Uuid) (n : Nat) (ts : List Task) (t u : Txn (List Task) (SlotLoc a n)) : Prop :=
  Seating ts u → ∀ id, Occupied a (t.write ts) id → Occupied a ts id

section Outline

variable {pg : Postgres} {a : Uuid} {n : Nat} {ts : List Task} {H I : Uuid → Prop}
  {t u : Txn (List Task) (SlotLoc a n)}

/-- What a transaction has written, and what it knows at its place. -/
structure Serving (ts : List Task) (H : Uuid → Prop) (t : Txn (List Task) (SlotLoc a n)) : Prop where
  writes : Local (rowAt Task.taskId) H t.write
  ids : ∀ rows : List Task, (rows.map (·.taskId)).Nodup → ((t.write rows).map (·.taskId)).Nodup
  room : (slots a (t.write ts)).length ≤ n
  knows : t.loc.Knows H (t.write ts)

/-- What a statement that writes leaves of the tasks. -/
structure Leaves (pg : Postgres) (a : Uuid) (ts : List Task) (loc : SlotLoc a n) (db' : Db) : Prop where
  after : overwrite Task.taskId (loc.versions pg ts) ts = db'.tasks
  ids : ((loc.versions pg ts).map (·.taskId)).Nodup
  rows : ∀ id x, rowAt Task.taskId ts id = some x →
    ∃ y, rowAt Task.taskId db'.tasks id = some y ∧ y.agentId = x.agentId

theorem leaves_of_grow {loc : SlotLoc a n} {db db' : Db} {queued : Option Uuid}
    (h : loc.takes pg ts = some (db', queued)) (hw : db.core.WellFormed) (hts : db.tasks = ts)
    (hg : Grow db.core db'.core) : Leaves pg a ts loc db' := by
  have hn' : (db'.tasks.map (·.taskId)).Nodup := (hg.wf hw).taskIds
  obtain ⟨added, hadded, -, -⟩ := hg.tasks
  have hkeys : db'.tasks.map (·.taskId) = ts.map (·.taskId) ++ added.map (·.1) := by
    have hmap := congrArg (List.map (·.1)) hadded
    rw [List.map_append, List.map_map, List.map_map] at hmap
    rw [← hts]
    exact hmap
  have hversions : loc.versions pg ts = rewritten Task.taskId ts db'.tasks := by
    unfold SlotLoc.versions
    rw [h]
  refine ⟨hversions ▸ overwrite_rewritten hn' hkeys, hversions ▸ nodup_rewritten hn', fun id x hx => ?_⟩
  have hx : db.core.task? id = some x := by
    rw [← hts] at hx
    exact hx
  obtain ⟨y, hy, hid⟩ := hg.task? hw hx
  exact ⟨y, hy, congrArg (·.2.2.1) hid⟩

theorem ok_of_toOption {α : Type} {x : Except String α} {r : α} (h : x.toOption = some r) : x = .ok r := by
  cases x with
  | error e => cases h
  | ok s => exact congrArg Except.ok (Option.some.inj h)

/-- The round of a dispatch puts no other task in a turn than its own. -/
theorem start_leaves {d : Dispatch a n} {left : Nat} {t : Task} {rest : List Task} {db' : Db}
    {queued : Option Uuid} (hn : (ts.map (·.taskId)).Nodup)
    (h : (SlotLoc.start d left t rest).takes pg ts = some (db', queued)) :
    Leaves pg a ts (.start d left t rest) db' ∧
      ∀ id, id ≠ t.taskId → Occupied a db'.tasks id → Occupied a ts id := by
  have hw := (d.tables 0).wf ts hn
  have hts := (d.tables 0).tasks_eq ts
  have htaken := takeUp_takenUp hw (ok_of_toOption h)
  refine ⟨leaves_of_grow h hw hts htaken.grow, fun id hid ho => ?_⟩
  have hold := htaken.occupied hw hid ho
  rwa [hts] at hold

theorem operate_leaves {now : Time} {op : Op} {tables : Tables a n} {db' : Db} {queued : Option Uuid}
    (hn : (ts.map (·.taskId)).Nodup) (hop : op.isDispatch = false)
    (h : (SlotLoc.operate now op tables).takes pg ts = some (db', queued)) :
    Leaves pg a ts (.operate now op tables) db' ∧ ∀ id, Occupied a db'.tasks id → Occupied a ts id := by
  have hw := tables.wf ts hn
  have hts := tables.tasks_eq ts
  obtain ⟨r, hr, heq⟩ := Option.map_eq_some_iff.mp h
  obtain rfl : r = db' := congrArg (·.1) heq
  have hperf := ok_of_toOption hr
  have hg : Grow (tables.db ts).core r.core :=
    (perform_evolves (G := fun _ _ _ => True) hw (fun _ _ _ _ _ => trivial)
      (permits_true pg now _ op) hperf).grow
  refine ⟨leaves_of_grow h hw hts hg, fun id ho => ?_⟩
  have hold := occupied_of_perform hw hop hperf ho
  rwa [hts] at hold

end Outline

section Sequential

variable {pg : Postgres} {now : Time} {roll : Uuid → Rat} {a : Uuid} {n : Nat} {db db' : Db}

def freshId (ts : List Task) : Uuid :=
  (ts.map (·.taskId)).foldr max 0 + 1

/-- The database with other tasks, and no call or approval for those. -/
def besides (db : Db) (ts : List Task) : Db :=
  if ts = db.tasks then db
  else
    { db with
      tasks := ts
      calls := []
      approvals := []
      nextId := freshId ts }

theorem besides_self (db : Db) : besides db db.tasks = db :=
  if_pos rfl

theorem lt_freshId {ts : List Task} {t : Task} (ht : t ∈ ts) : t.taskId < freshId ts := by
  have hle : t.taskId ≤ (ts.map (·.taskId)).foldr max 0 := by
    induction ts with
    | nil => cases ht
    | cons u ts ih =>
      rw [List.map_cons, List.foldr_cons]
      rcases List.mem_cons.mp ht with rfl | ht
      · exact Nat.le_max_left _ _
      · exact (ih ht).trans (Nat.le_max_right _ _)
  exact Nat.lt_succ_of_le hle

theorem wellFormed_besides (hw : db.core.WellFormed) {ts : List Task} (hn : (ts.map (·.taskId)).Nodup) :
    (besides db ts).core.WellFormed := by
  by_cases hts : ts = db.tasks
  · rw [hts, besides_self]
    exact hw
  · unfold besides
    rw [if_neg hts]
    have hempty : Core.WellFormed ⟨ts, [], [], freshId ts⟩ :=
      ⟨hn, fun t ht => lt_freshId ht, List.nodup_nil, by simp, by simp, List.nodup_nil, by simp, by simp⟩
    exact hempty

/-- The other tables as they are in a database. -/
def Tables.around (db : Db) (hw : db.core.WellFormed)
    (hcap : (db.cfg.policy? a).map (·.maxConcurrentTasks) = some n) : Tables a n where
  db := besides db
  tasks_eq := fun ts => by
    unfold besides
    split
    · rename_i hts
      exact hts.symm
    · rfl
  wf := fun _ => wellFormed_besides hw
  cap := fun ts => by
    unfold besides
    split <;> exact hcap

/-- The tables of the next statement before those of the others. -/
def Tables.before (first : Tables a n) (others : Nat → Tables a n) : Nat → Tables a n
  | 0 => first
  | i + 1 => others i

/-- The rows a dispatch has picked and not yet visited. -/
structure Lined (db : Db) (ts : List Task) : Prop where
  ready : Ready db ts
  rows : ∀ t ∈ ts, SlotLoc.pickable db.tasks t = true

theorem lined_dispatchable (hw : db.core.WellFormed) (locked : List Uuid) : Lined db (dispatchable db locked) := by
  refine ⟨dispatchable_ready hw locked, fun t ht => ?_⟩
  obtain ⟨htm, hpicked⟩ := List.mem_filter.mp (mem_sortBy.mp ht)
  have hst := (of_decide_eq_true hpicked).1
  have hrow : rowAt Task.taskId db.tasks t.taskId = some t := rowAt_of_mem hw.taskIds htm
  unfold SlotLoc.pickable
  rw [hrow]
  simpa using hst

theorem Lined.head_ne {t : Task} {ts : List Task} (h : Lined db (t :: ts)) :
    ∀ u ∈ ts, u.taskId ≠ t.taskId := by
  intro u hu he
  have hn := h.ready.nodup
  rw [List.map_cons, List.nodup_cons] at hn
  exact hn.1 (List.mem_map.mpr ⟨u, hu, he⟩)

theorem Lined.tail {t : Task} {ts : List Task} (h : Lined db (t :: ts)) : Lined db ts := by
  have hn := h.ready.nodup
  rw [List.map_cons, List.nodup_cons] at hn
  exact ⟨⟨hn.2, fun u hu => h.ready.rows u (List.mem_cons_of_mem t hu),
      fun u hu => h.ready.idle u (List.mem_cons_of_mem t hu)⟩,
    fun u hu => h.rows u (List.mem_cons_of_mem t hu)⟩

theorem Lined.round {t : Task} {ts : List Task} {queued : Option Uuid} (h : Lined db (t :: ts))
    (hw : db.core.WellFormed) (hd : dispatchTask pg now roll db t = .ok (db', queued)) :
    db'.core.WellFormed ∧ db'.cfg.policies = db.cfg.policies ∧ Lined db' ts := by
  obtain ⟨r, hr, hag⟩ := h.ready.rows t (by simp)
  have hdis := dispatchTask_dispatched (G := fun _ _ => True) hw hr hag (fun _ => trivial)
    (fun _ _ => trivial) (fun _ _ _ => trivial) (h.ready.idle t (by simp)) hd
  refine ⟨hdis.grow.wf hw, hdis.policies, h.ready.tail hw hdis, fun u hu => ?_⟩
  obtain ⟨x, hx, hpick⟩ := (Option.any_eq_true _ _).mp (h.tail.rows u hu)
  have hx : db.core.task? u.taskId = some x := hx
  obtain ⟨y, hy, hid⟩ := hdis.grow.task? hw hx
  have hya : y.agentId = x.agentId := congrArg (·.2.2.1) hid
  have hys : y.status = x.status := by
    have hold := congrArg Life.status (life_of_task? hx)
    have hnew := congrArg Life.status (life_of_task? hy)
    rcases hdis.others _ (h.head_ne u hu) with he | hb
    · rw [he] at hnew
      exact Option.some.inj (hnew.symm.trans hold)
    · rw [life_of_task? hx] at hb
      cases hb
  have hy : rowAt Task.taskId db'.tasks u.taskId = some y := hy
  unfold SlotLoc.pickable
  rw [hy, Option.any_some, hya, hys]
  exact hpick

/-- Run alone, the statements are the dispatch loop. -/
theorem dispatchLoop_alone {left : Nat} {picked : List Task} {out : List (Uuid × Uuid)}
    (hw : db.core.WellFormed) (hcap : (db.cfg.policy? a).map (·.maxConcurrentTasks) = some n)
    (hl : Lined db picked) (h : dispatchLoop pg now roll left picked db = .ok (db', out)) :
    ∃ tables k, (slotCode pg a n).alone k (.visit ⟨now, roll, tables⟩ left picked) db.tasks = some db'.tasks := by
  induction picked generalizing left db out with
  | nil =>
    obtain rfl : db = db' := by
      cases left <;> exact congrArg (·.1) (Except.ok.inj h)
    refine ⟨fun _ => .around db hw hcap, 2, ?_⟩
    cases left <;> rfl
  | cons t ts ih =>
    cases left with
    | zero =>
      obtain rfl : db = db' := congrArg (·.1) (Except.ok.inj h)
      exact ⟨fun _ => .around db hw hcap, 2, rfl⟩
    | succ left =>
      rw [dispatchLoop] at h
      obtain ⟨⟨d, queued⟩, hd, hrest⟩ := bind_eq_ok.mp h
      obtain ⟨hwd, hpolicies, hld⟩ := hl.round hw hd
      have hcapd : (d.cfg.policy? a).map (·.maxConcurrentTasks) = some n := by
        rw [← hcap, Config.policy?, Config.policy?, hpolicies]
      have hnext : ∃ out,
          dispatchLoop pg now roll (if queued.isSome then left else left + 1) ts d = .ok (db', out) := by
        cases queued with
        | none => exact ⟨out, hrest⟩
        | some id =>
          obtain ⟨⟨d', out'⟩, hd', heq⟩ := bind_eq_ok.mp hrest
          obtain rfl : d' = db' := congrArg (·.1) (Except.ok.inj heq)
          exact ⟨out', hd'⟩
      obtain ⟨out', hnext⟩ := hnext
      obtain ⟨tables, k, hk⟩ := ih hwd hcapd hld hnext
      have hself : (Tables.around db hw hcap).db db.tasks = db := besides_self db
      rw [dispatchTask_eq] at hd
      by_cases hover : overCap db t = true
      · rw [if_pos hover] at hd
        obtain ⟨rfl, rfl⟩ := Prod.mk.inj (Except.ok.inj hd)
        refine ⟨Tables.before (.around db hw hcap) tables, k + 1, ?_⟩
        have hnot :
            ¬ (SlotLoc.pickable db.tasks t && !overCap ((Tables.around db hw hcap).db db.tasks) t) = true := by
          rw [hself, hover]
          simp
        rw [Code.alone_succ rfl (if_neg hnot)]
        exact hk
      · rw [if_neg hover] at hd
        have hgo : (SlotLoc.pickable db.tasks t && !overCap ((Tables.around db hw hcap).db db.tasks) t) = true := by
          rw [hself, hl.rows t (by simp)]
          simpa using hover
        have htakes : (SlotLoc.start ⟨now, roll, Tables.before (.around db hw hcap) tables⟩ left t ts).takes pg
            db.tasks = some (d, queued) := by
          have hround : takeUp pg now roll ((Tables.around db hw hcap).db db.tasks) t = .ok (d, queued) := by
            rw [hself]
            exact hd
          exact congrArg Except.toOption hround
        have hafter := (leaves_of_grow htakes hw rfl (takeUp_takenUp hw hd).grow).after
        refine ⟨Tables.before (.around db hw hcap) (Tables.before (.around db hw hcap) tables), k + 2, ?_⟩
        rw [Code.alone_succ rfl (if_pos hgo), Code.alone_succ rfl (congrArg (Option.map _) htakes)]
        exact hafter ▸ hk

theorem dispatchTasks_alone {locked : List Uuid} {out : List (Uuid × Uuid)} (hw : db.core.WellFormed)
    (hcap : (db.cfg.policy? a).map (·.maxConcurrentTasks) = some n)
    (h : fnDispatchTasks pg now roll locked db = .ok (db', out)) :
    ∃ tables k, (slotCode pg a n).alone k (.visit ⟨now, roll, tables⟩ 4 (dispatchable db locked)) db.tasks =
      some db'.tasks :=
  dispatchLoop_alone hw hcap (lined_dispatchable hw locked) h

end Sequential

section Keeping

variable {pg : Postgres} {a : Uuid} {n : Nat} {ts : List Task} {H I : Uuid → Prop}
  {t u : Txn (List Task) (SlotLoc a n)}

/-- A statement that reads only. -/
theorem Serving.read {loc : SlotLoc a n} (h : Serving ts H t) (hHI : ∀ k, H k → I k)
    (hk : loc.Knows I (t.write ts)) : Serving ts I ⟨loc, fun rows => id (t.write rows)⟩ where
  writes := h.writes.weaken hHI
  ids := h.ids
  room := h.room
  knows := hk

/-- A statement that writes. -/
theorem Serving.written {db' : Db} (h : Serving ts H t) (loc : SlotLoc a n)
    (hl : Leaves pg a (t.write ts) t.loc db') (hroom : (slots a db'.tasks).length ≤ n)
    (hk : ∀ I : Uuid → Prop, loc.Knows I db'.tasks) :
    Serving ts (fun k => k ∈ (t.loc.versions pg (t.write ts)).map (·.taskId) ∨ H k)
      ⟨loc, fun rows => overwrite Task.taskId (t.loc.versions pg (t.write ts)) (t.write rows)⟩ where
  writes := ((local_overwrite _).weaken fun _ => .inl).comp (h.writes.weaken fun _ => .inr)
  ids := fun rows hn => nodup_overwrite hl.ids (h.ids rows hn)
  room := by
    dsimp only
    rw [hl.after]
    exact hroom
  knows := by
    dsimp only
    rw [hl.after]
    exact hk _

theorem overCap_slots {tables : Tables a n} {x : Task} (hx : x.agentId = a)
    (h : overCap (tables.db ts) x = false) : ((slots a ts).filter (·.taskId ≠ x.taskId)).length < n := by
  obtain ⟨p, hp, hcap⟩ := Option.map_eq_some_iff.mp (tables.cap ts)
  have hothers : others (tables.db ts) x = (slots a ts).filter (·.taskId ≠ x.taskId) := by
    unfold others inTurn slots
    rw [tables.tasks_eq, hx]
  rw [overCap_eq, hothers, hx, hp, Option.any_some, hcap] at h
  exact Nat.not_le.mp (of_decide_eq_false h)

/-- The head of the loop passes a row over, or has room for it. -/
theorem Serving.visited {d : Dispatch a n} {left : Nat} {picked : List Task} {loc : SlotLoc a n}
    {w : List Task → List Task} (h : Serving ts H t) (hloc : t.loc = .visit d left picked)
    (he : t.loc.exec pg (t.write ts) = some (loc, w)) :
    Serving ts (fun k => k ∈ t.loc.locks pg (t.write ts) ∨ H k) ⟨loc, fun rows => w (t.write rows)⟩ := by
  rw [hloc] at he ⊢
  have hdone : ∀ I : Uuid → Prop, SlotLoc.Knows (.done : SlotLoc a n) I (t.write ts) := fun _ => trivial
  cases left with
  | zero =>
    obtain ⟨rfl, rfl⟩ := Prod.mk.inj (Option.some.inj he)
    exact h.read (fun _ => .inr) (hdone _)
  | succ left =>
    cases picked with
    | nil =>
      obtain ⟨rfl, rfl⟩ := Prod.mk.inj (Option.some.inj he)
      exact h.read (fun _ => .inr) (hdone _)
    | cons x rest =>
      rw [SlotLoc.exec] at he
      split at he
      · rename_i hgo
        obtain ⟨rfl, rfl⟩ := Prod.mk.inj (Option.some.inj he)
        rw [Bool.and_eq_true, Bool.not_eq_true'] at hgo
        obtain ⟨hpick, hover⟩ := hgo
        obtain ⟨u, hu, hrun⟩ := (Option.any_eq_true _ _).mp hpick
        rw [Bool.and_eq_true, decide_eq_true_eq] at hrun
        refine h.read (fun _ => .inr) ⟨.inl (by simp [SlotLoc.locks]), ⟨u, hu, hrun.1⟩, fun hx => ?_⟩
        exact overCap_slots hx hover
      · obtain ⟨rfl, rfl⟩ := Prod.mk.inj (Option.some.inj he)
        exact h.read (fun _ => .inr) trivial

theorem Serving.started {d : Dispatch a n} {left : Nat} {x : Task} {rest : List Task} {db' : Db}
    {queued : Option Uuid} (h : Serving ts H t) (hn : (ts.map (·.taskId)).Nodup)
    (hloc : t.loc = .start d left x rest) (hr : t.loc.takes pg (t.write ts) = some (db', queued)) :
    Leaves pg a (t.write ts) t.loc db' ∧ (slots a db'.tasks).length ≤ n := by
  have hknows := h.knows
  rw [hloc] at hr hknows ⊢
  obtain ⟨-, ⟨u, hu, hua⟩, hroom⟩ := hknows
  have hnw := h.ids ts hn
  obtain ⟨hl, hothers⟩ := start_leaves hnw hr
  have hn' : (db'.tasks.map (·.taskId)).Nodup := by
    rw [← hl.after]
    exact nodup_overwrite hl.ids hnw
  refine ⟨hl, ?_⟩
  by_cases hx : x.agentId = a
  · have hle := slots_le_succ hn' hothers
    exact hle.trans (hroom hx)
  · refine (slots_length_le hn' fun id ho => ?_).trans h.room
    refine hothers id ?_ ho
    rintro rfl
    obtain ⟨y, hy, hya, -⟩ := ho
    obtain ⟨y', hy', hsame⟩ := hl.rows _ u hu
    obtain rfl := Option.some.inj (hy.symm.trans hy')
    exact hx (hua.symm.trans (hsame.symm.trans hya))

theorem serving_exec {loc : SlotLoc a n} {w : List Task → List Task} (hG : Fits a n ts) (h : Serving ts H t)
    (he : (slotCode pg a n).exec t.loc (t.write ts) = some (loc, w)) :
    Serving ts (fun k => k ∈ (slotCode pg a n).locks t.loc (t.write ts) ∨ H k)
      ⟨loc, fun rows => w (t.write rows)⟩ := by
  have he : t.loc.exec pg (t.write ts) = some (loc, w) := he
  cases hloc : t.loc with
  | visit d left picked => exact hloc ▸ h.visited hloc he
  | start d left x rest =>
    rw [hloc] at he
    obtain ⟨⟨db', queued⟩, hr, heq⟩ := Option.map_eq_some_iff.mp he
    obtain ⟨rfl, rfl⟩ := Prod.mk.inj heq
    obtain ⟨hl, hroom⟩ := h.started hG.ids hloc (hloc ▸ hr)
    have hw := h.written (.visit d.next (if queued.isSome then left else left + 1) rest) hl hroom
      fun _ => trivial
    rw [hloc] at hw
    exact hw
  | operate now op tables =>
    rw [hloc] at he
    obtain ⟨⟨db', queued⟩, hr, heq⟩ := Option.map_eq_some_iff.mp he
    obtain ⟨rfl, rfl⟩ := Prod.mk.inj heq
    have hop : op.isDispatch = false := by
      have hknows := h.knows
      rw [hloc] at hknows
      exact hknows
    obtain ⟨hl, hkeep⟩ := operate_leaves (h.ids ts hG.ids) hop hr
    have hn' : (db'.tasks.map (·.taskId)).Nodup := by
      rw [← hl.after]
      exact nodup_overwrite hl.ids (h.ids ts hG.ids)
    have hroom : (slots a db'.tasks).length ≤ n := (slots_length_le hn' hkeep).trans h.room
    have hw := h.written .done (hloc ▸ hl) hroom fun _ => trivial
    rw [hloc] at hw
    exact hw
  | done =>
    rw [hloc] at he
    cases he

/-- A task that holds a slot after the commit of another transaction has the row the two wrote. -/
theorem Serving.occupied_apart (ht : Serving ts H t) (hu : Serving ts I u) (hd : ∀ k, H k → ¬ I k) {id : Uuid}
    (h : Occupied a (u.write (t.write ts)) id) :
    (I id ∧ Occupied a (u.write ts) id) ∨ (¬ I id ∧ Occupied a (t.write ts) id) := by
  by_cases hi : I id
  · have hsame : rowAt Task.taskId (t.write ts) id = rowAt Task.taskId ts id :=
      ht.writes.same fun hh => hd _ hh hi
    exact .inl ⟨hi, h.of_same (hu.writes.congr hsame).symm⟩
  · exact .inr ⟨hi, h.of_same (hu.writes.same hi).symm⟩

theorem Serving.knows_apart (ht : Serving ts H t) (hu : Serving ts I u) (hd : ∀ k, H k → ¬ I k)
    (hroom : ∀ d left x rest, u.loc = .start d left x rest → x.agentId = a →
      ((slots a (u.write (t.write ts))).filter (·.taskId ≠ x.taskId)).length < n) :
    u.loc.Knows I (u.write (t.write ts)) := by
  have hknows := hu.knows
  cases hloc : u.loc with
  | start d left x rest =>
    rw [hloc] at hknows
    obtain ⟨hlock, ⟨r, hr, hra⟩, -⟩ := hknows
    have hsame : rowAt Task.taskId (t.write ts) x.taskId = rowAt Task.taskId ts x.taskId :=
      ht.writes.same fun hh => hd _ hh hlock
    exact ⟨hlock, ⟨r, (hu.writes.congr hsame).trans hr, hra⟩, hroom d left x rest hloc⟩
  | operate now op tables =>
    rw [hloc] at hknows
    exact hknows
  | visit => trivial
  | done => trivial

theorem serving_apart (hQ : Unseated a n ts t u) (hG : Fits a n ts) (ht : Serving ts H t) (hu : Serving ts I u)
    (hd : ∀ k, H k → ¬ I k) : Serving (t.write ts) I u := by
  have hids := hu.ids _ (ht.ids ts hG.ids)
  by_cases hs : Seating ts u
  · have hkeep : ∀ id, Occupied a (u.write (t.write ts)) id → Occupied a (u.write ts) id := by
      intro id ho
      rcases ht.occupied_apart hu hd ho with ⟨-, ho⟩ | ⟨hi, ho⟩
      · exact ho
      · exact (hQ hs id ho).of_same (hu.writes.same hi)
    refine ⟨hu.writes, hu.ids, (slots_length_le hids hkeep).trans hu.room, ht.knows_apart hu hd ?_⟩
    intro d left x rest hloc hx
    have hknows := hu.knows
    rw [hloc] at hknows
    exact (slots_le hids hkeep fun i => decide (i ≠ x.taskId)).trans_lt (hknows.2.2 hx)
  · have hkeep : ∀ id, Occupied a (u.write (t.write ts)) id → Occupied a (t.write ts) id := by
      intro id ho
      rcases ht.occupied_apart hu hd ho with ⟨hi, ho⟩ | ⟨-, ho⟩
      · have hold : Occupied a ts id := by
          by_contra hne
          exact hs (.inr ⟨id, ho, hne⟩)
        exact hold.of_same (ht.writes.same fun hh => hd _ hh hi)
      · exact ho
    refine ⟨hu.writes, hu.ids, (slots_length_le hids hkeep).trans ht.room, ht.knows_apart hu hd ?_⟩
    intro d left x rest hloc hx
    refine absurd (.inl ?_) hs
    rw [hloc]
    exact congrArg some hx

theorem knows_begun {loc : SlotLoc a n} (h : (slotCode pg a n).entry loc = true) (H : Uuid → Prop)
    (ts : List Task) : loc.Knows H ts := by
  cases loc with
  | visit d left picked => trivial
  | operate now op tables => exact (Bool.not_eq_true' _).mp h
  | start d left x rest => cases h
  | done => cases h

theorem slot_outline (pg : Postgres) (a : Uuid) (n : Nat) :
    Outline (slotCode pg a n) (Unseated a n) (Fits a n) Serving where
  fresh := fun hG _ hl => ⟨local_of_same fun _ _ => rfl, fun _ h => h, hG.room, knows_begun hl _ _⟩
  again := fun _ ht _ hl => ⟨ht.writes, ht.ids, ht.room, knows_begun hl _ _⟩
  exec := fun hG ht _ he => serving_exec hG ht he
  commit := fun hG ht _ => ⟨ht.ids _ hG.ids, ht.room⟩
  apart := fun hQ hG ht hu _ hd => serving_apart hQ hG ht hu hd

end Keeping

/-- In every interleaving in which no transaction that puts a task of the agent in a turn commits
beside another that has counted them for one more, the agent is within its cap. -/
theorem slots_within_cap (pg : Postgres) (a : Uuid) (n : Nat) (ts : List Task) (hts : Fits a n ts)
    (es : List (ReadCommitted.Event (SlotLoc a n)))
    (h : Along (ReadCommitted.step (slotCode pg a n)) (Spares (slotCode pg a n) (Unseated a n)) { db := ts } es) :
    (slots a (run (ReadCommitted.step (slotCode pg a n)) { db := ts } es).db).length ≤ n :=
  ((slot_outline pg a n).run hts h).db.room

/-- A queued task of an agent that may have one task in a turn, and a second one. -/
def waitingDb : Db :=
  run (step bareServer) (start (capAt 1 gatedConfig)) ((loweredRun 1).take 1)

def arrivedDb : Db :=
  run (step bareServer) (start (capAt 1 gatedConfig)) ((loweredRun 1).take 2)

def waitingTables : Tables 1 1 :=
  .around waitingDb (wellFormed_run bareServer _ (wellFormed_start _)) (by decide +kernel)

def arrivedTables : Tables 1 1 :=
  .around arrivedDb (wellFormed_run bareServer _ (wellFormed_start _)) (by decide +kernel)

def dispatchAt (i : Nat) (tables : Tables 1 1) (picked : List Task) : ReadCommitted.Event (SlotLoc 1 1) :=
  .call i (.visit ⟨2, fun _ => 0, fun _ => tables⟩ 4 picked)

def sessionAt (i : Nat) : ReadCommitted.Event (SlotLoc 1 1) :=
  .call i (.operate 1 (.createSession 1 (some "go") none none) waitingTables)

theorem fits_waiting : Fits 1 1 waitingDb.tasks :=
  ⟨by decide +kernel, by decide +kernel⟩

/-- A second task arrives and is picked while the first is being put in a turn, and its dispatch
goes on once the first is committed. -/
def dispatchDuringDispatch : List (ReadCommitted.Event (SlotLoc 1 1)) :=
  [dispatchAt 0 waitingTables (dispatchable waitingDb []), .exec 0, .exec 0, .exec 0,
    sessionAt 1, .exec 1, .commit 1,
    dispatchAt 1 arrivedTables (dispatchable arrivedDb [2]), .commit 0, .exec 1, .exec 1, .commit 1]

def duringDispatch (n : Nat) : Server (List Task) (SlotLoc 1 1) Uuid :=
  run (ReadCommitted.step (slotCode bareServer 1 1)) { db := waitingDb.tasks } (dispatchDuringDispatch.take n)

theorem second_task_waits :
    (slots 1 (run (ReadCommitted.step (slotCode bareServer 1 1)) { db := waitingDb.tasks }
      dispatchDuringDispatch).db).length ≤ 1 ∧
    (run (ReadCommitted.step (slotCode bareServer 1 1)) { db := waitingDb.tasks }
      dispatchDuringDispatch).db.map (·.status) = [.running, .queued] := by
  -- the session leaves its task queued
  have hsession : Spares (slotCode bareServer 1 1) (Unseated 1 1) (duringDispatch 6) (.commit 1) := by
    refine spares_beside (j := 0) (P := fun _ => true) (by decide +kernel)
      (fun k hk hk' => live_run_lt (n := 1) (by decide) (by omega)) fun t u ht _ _ id hid => ?_
    have hempty : ((duringDispatch 6).live 1).all
        (fun t => slots 1 (t.write (duringDispatch 6).db) = []) = true := by decide +kernel
    rw [ht] at hempty
    obtain ⟨x, hx, -⟩ := hid.mem
    rw [of_decide_eq_true hempty] at hx
    cases hx
  -- the second dispatch has not counted the tasks
  have hfirst : Spares (slotCode bareServer 1 1) (Unseated 1 1) (duringDispatch 8) (.commit 0) := by
    refine spares_beside (j := 1)
      (P := fun u => u.loc.starting = none ∧ u.write (duringDispatch 8).db = (duringDispatch 8).db)
      (by decide +kernel) (fun k hk hk' => live_run_lt (n := 1) (by decide) (by omega))
      fun t u _ hstands hseating => ?_
    obtain ⟨hstarting, hwrite⟩ := of_decide_eq_true hstands
    rcases hseating with hs | ⟨id, ho, hne⟩
    · rw [hstarting] at hs
      cases hs
    · rw [hwrite] at ho
      exact absurd ho hne
  have hlast : Spares (slotCode bareServer 1 1) (Unseated 1 1) (duringDispatch 11) (.commit 1) :=
    spares_last (j := 0) (by decide +kernel) fun k hk hk' => live_run_lt (n := 1) (by decide) (by omega)
  have halong : Along (ReadCommitted.step (slotCode bareServer 1 1)) (Spares (slotCode bareServer 1 1)
      (Unseated 1 1)) { db := waitingDb.tasks } dispatchDuringDispatch :=
    ⟨trivial, trivial, trivial, trivial, trivial, trivial, hsession, trivial, hfirst, trivial, trivial,
      hlast, trivial⟩
  exact ⟨slots_within_cap bareServer 1 1 waitingDb.tasks fits_waiting dispatchDuringDispatch halong,
    by decide +kernel⟩

/-- Each of two dispatches counts the tasks in a turn before the other commits. -/
theorem two_tasks_in_turn :
    ¬ ∀ (pg : Postgres) (a : Uuid) (n : Nat) (ts : List Task), Fits a n ts →
      ∀ es : List (ReadCommitted.Event (SlotLoc a n)),
        (slots a (run (ReadCommitted.step (slotCode pg a n)) { db := ts } es).db).length ≤ n := by
  intro h
  have hrun := h bareServer 1 1 waitingDb.tasks fits_waiting
    [dispatchAt 0 waitingTables (dispatchable waitingDb []), .exec 0, .exec 0, .exec 0,
      sessionAt 2, .exec 2, .commit 2,
      dispatchAt 1 arrivedTables (dispatchable arrivedDb [2]), .exec 1, .exec 1, .exec 1, .commit 0, .commit 1]
  exact absurd hrun (by decide +kernel)

end Allgres
