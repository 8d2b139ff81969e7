import Allgres.TaskLife
import Allgres.Watchdog

/-! The tables behind the queues, and the life of a task read off them. Logs,
sessions, search events and the operators' tables are no part of it. -/

namespace Allgres

open Rows Runs

structure Core where
  tasks : List Task
  calls : List Call
  approvals : List Approval
  nextId : Uuid

namespace Core

def updateTask (s : Core) (id : Uuid) (f : Task → Task) : Core :=
  { s with tasks := update (·.taskId = id) f s.tasks }

def updateCall (s : Core) (id : Uuid) (f : Call → Call) : Core :=
  { s with calls := update (·.callId = id) f s.calls }

def insertCall (s : Core) (taskId : Uuid) (req : Request) (now : Time) : Core :=
  { s with
    calls := s.calls ++ [{ callId := s.nextId, taskId, req, createdAt := now, updatedAt := now }]
    nextId := s.nextId + 1 }

def insertTask (s : Core) (t : Task) : Core :=
  { s with tasks := s.tasks ++ [{ t with taskId := s.nextId }], nextId := s.nextId + 1 }

def insertApproval (s : Core) (taskId : Uuid) (payload : ApprovalPayload) (now : Time)
    (expiresAt : Time) : Core :=
  { s with
    approvals := s.approvals ++
      [⟨s.nextId, taskId, .pending, payload, now, some expiresAt, none, none⟩]
    nextId := s.nextId + 1 }

def updateApprovals (s : Core) (p : Approval → Bool) (f : Approval → Approval) : Core :=
  { s with approvals := update p f s.approvals }

def bump (s : Core) (id : Uuid) (now : Time) (f : Task → Task) : Core :=
  s.updateTask id fun t => { f t with stepCount := t.stepCount + 1, updatedAt := now }

def task? (s : Core) (id : Uuid) : Option Task :=
  s.tasks.find? (·.taskId = id)

end Core

namespace Db

def core (db : Db) : Core :=
  ⟨db.tasks, db.calls, db.approvals, db.nextId⟩

variable (db : Db)

@[simp] theorem core_updateTask (id : Uuid) (f : Task → Task) :
    (db.updateTask id f).core = db.core.updateTask id f := rfl

@[simp] theorem core_updateCall (id : Uuid) (f : Call → Call) :
    (db.updateCall id f).core = db.core.updateCall id f := rfl

@[simp] theorem core_insertCall (id : Uuid) (req : Request) (now : Time) :
    (db.insertCall id req now).core = db.core.insertCall id req now := rfl

@[simp] theorem core_insertApproval (id : Uuid) (p : ApprovalPayload) (now e : Time) :
    (db.insertApproval id p now e).core = db.core.insertApproval id p now e := rfl

@[simp] theorem core_bump (id : Uuid) (now : Time) (f : Task → Task) :
    (db.bump id now f).core = db.core.bump id now f := rfl

@[simp] theorem core_appendLog (id : Uuid) (n : Nat) (r : LogRole) (v : Json) (now : Time) :
    (db.appendLog id n r v now).core = db.core := rfl

@[simp] theorem core_updateSession (id : Uuid) (f : Session → Session) :
    (db.updateSession id f).core = db.core := rfl

@[simp] theorem core_onConfig (f : Config → Config) : (db.onConfig f).core = db.core := rfl

@[simp] theorem core_maybeCompleteSession (id : Uuid) (now : Time) :
    (db.maybeCompleteSession id now).core = db.core := by
  unfold maybeCompleteSession
  dsimp only
  split <;> rfl

@[simp] theorem core_failTask (t : Task) (e : String) (v : Json) (now : Time) :
    (db.failTask t e v now).core = db.core.updateTask t.taskId
      fun r => { r with status := .failed, error := some e, updatedAt := now } := by
  simp [failTask]

@[simp] theorem core_markCapabilitySelected (id : Uuid) (k : CapabilityType)
    (name : Option String) : (markCapabilitySelected db id k name).core = db.core := by
  unfold markCapabilitySelected
  dsimp only
  split <;> rfl

@[simp] theorem core_setCompacted (cut : Option (Uuid × Option Time)) :
    (db.setCompacted cut).core = db.core := by
  cases cut <;> rfl

@[simp] theorem core_record (t : Task) (s : Step) (now : Time) :
    (db.record t s now).core = db.core := by
  unfold record
  dsimp only
  rw [core_setCompacted]
  split
  · rfl
  · rw [core_markCapabilitySelected]
    rfl

theorem task?_core (id : Uuid) : db.core.task? id = db.task? id := rfl

end Db

def Call.life (c : Call) : CallLife :=
  ⟨c.callId, c.req.queue, c.req.isLlm, c.status⟩

namespace Core

def callsOf (s : Core) (i : Uuid) : List CallLife :=
  (s.calls.filter (·.taskId = i)).map Call.life

/-- The life of a task; that of an id nobody has yet is empty. -/
def life (s : Core) (i : Uuid) : Life :=
  ⟨(s.task? i).map (·.status), ((s.task? i).map (·.stepCount)).getD 0, s.callsOf i⟩

end Core

def Task.ident (t : Task) : Uuid × Uuid × Uuid × Option Uuid :=
  (t.taskId, t.sessionId, t.agentId, t.parentTaskId)

def Call.ident (c : Call) : Uuid × Uuid × Request :=
  (c.callId, c.taskId, c.req)

def Approval.ident (a : Approval) : Uuid × Uuid × ApprovalPayload × Time :=
  (a.approvalId, a.taskId, a.payload, a.createdAt)

namespace Core

/-- Ids come from one counter, a call belongs to a task, and an approval that holds a
call back names one that is no model call. -/
structure WellFormed (s : Core) : Prop where
  taskIds : (s.tasks.map (·.taskId)).Nodup
  taskLt : ∀ t ∈ s.tasks, t.taskId < s.nextId
  callIds : (s.calls.map (·.callId)).Nodup
  callLt : ∀ c ∈ s.calls, c.callId < s.nextId
  callTask : ∀ c ∈ s.calls, ∃ t ∈ s.tasks, t.taskId = c.taskId
  approvalIds : (s.approvals.map (·.approvalId)).Nodup
  approvalLt : ∀ a ∈ s.approvals, a.approvalId < s.nextId
  gates : ∀ a ∈ s.approvals, ∀ g, a.payload = .gate g →
    ∃ c ∈ s.calls, c.callId = g.callId ∧ c.req.isLlm = false

structure Grow (s s' : Core) : Prop where
  nextId : s.nextId ≤ s'.nextId
  tasks : Grows Task.ident (·.1) s.nextId s'.nextId s.tasks s'.tasks
  calls : Grows Call.ident (·.1) s.nextId s'.nextId s.calls s'.calls
  approvals : Grows Approval.ident (·.1) s.nextId s'.nextId s.approvals s'.approvals
  wf : s.WellFormed → s'.WellFormed

theorem Grow.refl (s : Core) : Grow s s :=
  ⟨Nat.le_refl _, grows_of_map_eq rfl, grows_of_map_eq rfl, grows_of_map_eq rfl, id⟩

theorem Grow.trans {s t u : Core} (h : Grow s t) (h' : Grow t u) : Grow s u :=
  ⟨h.nextId.trans h'.nextId, h.tasks.trans h'.tasks h.nextId h'.nextId,
    h.calls.trans h'.calls h.nextId h'.nextId,
    h.approvals.trans h'.approvals h.nextId h'.nextId, fun hw => h'.wf (h.wf hw)⟩

/-- Tables that only grow stay well formed when the new calls have a task and the new
approvals name a call. -/
theorem WellFormed.of_grows {s s' : Core} (hw : s.WellFormed) (hn : s.nextId ≤ s'.nextId)
    (ht : Grows Task.ident (·.1) s.nextId s'.nextId s.tasks s'.tasks)
    (hc : Grows Call.ident (·.1) s.nextId s'.nextId s.calls s'.calls)
    (ha : Grows Approval.ident (·.1) s.nextId s'.nextId s.approvals s'.approvals)
    (hct : ∀ c ∈ s'.calls, (∃ c₀ ∈ s.calls, c₀.ident = c.ident) ∨
      ∃ t ∈ s'.tasks, t.taskId = c.taskId)
    (hg : ∀ a ∈ s'.approvals, (∃ a₀ ∈ s.approvals, a₀.ident = a.ident) ∨
      ∀ g, a.payload = .gate g → ∃ c ∈ s'.calls, c.callId = g.callId ∧ c.req.isLlm = false) :
    s'.WellFormed := by
  refine ⟨ht.nodup hw.taskIds hw.taskLt, ht.lt hw.taskLt hn, hc.nodup hw.callIds hw.callLt,
    hc.lt hw.callLt hn, ?_, ha.nodup hw.approvalIds hw.approvalLt, ha.lt hw.approvalLt hn, ?_⟩
  · intro c hcm
    rcases hct c hcm with ⟨c₀, hc₀, he⟩ | h
    · obtain ⟨t, htm, hte⟩ := hw.callTask c₀ hc₀
      obtain ⟨t', htm', hte'⟩ := ht.kept htm
      simp only [Task.ident, Call.ident, Prod.mk.injEq] at hte' he
      exact ⟨t', htm', by rw [hte'.1, hte, he.2.1]⟩
    · exact h
  · intro a ham g hag
    rcases hg a ham with ⟨a₀, ha₀, he⟩ | h
    · simp only [Approval.ident, Prod.mk.injEq] at he
      obtain ⟨c, hcm, hci, hcl⟩ := hw.gates a₀ ha₀ g (by rw [he.2.2.1, hag])
      obtain ⟨c', hcm', hce⟩ := hc.kept hcm
      simp only [Call.ident, Prod.mk.injEq] at hce
      exact ⟨c', hcm', by rw [hce.1, hci], by rw [hce.2.2, hcl]⟩
    · exact h g hag

theorem map_ident_update {α β : Type} {p : α → Bool} {f : α → α} {ident : α → β}
    (h : ∀ a, ident (f a) = ident a) (rows : List α) :
    (update p f rows).map ident = rows.map ident :=
  map_update h rows

theorem mem_of_ident {α β : Type} {ident : α → β} {xs ys : List α}
    (h : ys.map ident = xs.map ident) {y : α} (hy : y ∈ ys) : ∃ x ∈ xs, ident x = ident y := by
  have : ident y ∈ xs.map ident := h ▸ List.mem_map_of_mem hy
  simpa using this

/-- Changes that leave the identity of every row alone. -/
theorem grow_of_idents {s s' : Core} (hn : s.nextId ≤ s'.nextId)
    (ht : s'.tasks.map Task.ident = s.tasks.map Task.ident)
    (hc : s'.calls.map Call.ident = s.calls.map Call.ident)
    (ha : s'.approvals.map Approval.ident = s.approvals.map Approval.ident) : Grow s s' := by
  refine ⟨hn, grows_of_map_eq ht, grows_of_map_eq hc, grows_of_map_eq ha, fun hw => ?_⟩
  exact hw.of_grows hn (grows_of_map_eq ht) (grows_of_map_eq hc) (grows_of_map_eq ha)
    (fun c hcm => .inl (mem_of_ident hc hcm)) (fun a ham => .inl (mem_of_ident ha ham))

theorem grow_updateTask {s : Core} {id : Uuid} {f : Task → Task} (hf : ∀ t, (f t).ident = t.ident) :
    Grow s (s.updateTask id f) :=
  grow_of_idents (Nat.le_refl _) (map_ident_update hf _) rfl rfl

theorem grow_bump {s : Core} {id : Uuid} {now : Time} {f : Task → Task}
    (hf : ∀ t, (f t).ident = t.ident) : Grow s (s.bump id now f) :=
  grow_updateTask fun t => hf t

theorem grow_updateCall {s : Core} {id : Uuid} {f : Call → Call} (hf : ∀ c, (f c).ident = c.ident) :
    Grow s (s.updateCall id f) :=
  grow_of_idents (Nat.le_refl _) rfl (map_ident_update hf _) rfl

theorem grow_updateApprovals {s : Core} {p : Approval → Bool} {f : Approval → Approval}
    (hf : ∀ a, (f a).ident = a.ident) : Grow s (s.updateApprovals p f) :=
  grow_of_idents (Nat.le_refl _) rfl rfl (map_ident_update hf _)

theorem grow_insertCall {s : Core} {id : Uuid} {req : Request} {now : Time}
    (ht : ∃ t ∈ s.tasks, t.taskId = id) : Grow s (s.insertCall id req now) := by
  have hn : s.nextId ≤ (s.insertCall id req now).nextId := Nat.le_succ _
  have hc : Grows Call.ident (·.1) s.nextId (s.insertCall id req now).nextId s.calls
      (s.insertCall id req now).calls := grows_append ⟨Nat.le_refl _, Nat.lt_succ_self _⟩
  refine ⟨hn, grows_of_map_eq rfl, hc, grows_of_map_eq rfl, fun hw => ?_⟩
  refine hw.of_grows hn (grows_of_map_eq rfl) hc (grows_of_map_eq rfl) ?_
    (fun a ham => .inl ⟨a, ham, rfl⟩)
  intro c hcm
  rcases List.mem_append.mp hcm with hcm | hcm
  · exact .inl ⟨c, hcm, rfl⟩
  · rw [List.mem_singleton.mp hcm]
    exact .inr ht

theorem grow_insertTask (s : Core) (t : Task) : Grow s (s.insertTask t) := by
  have hn : s.nextId ≤ (s.insertTask t).nextId := Nat.le_succ _
  have ht : Grows Task.ident (·.1) s.nextId (s.insertTask t).nextId s.tasks
      (s.insertTask t).tasks := grows_append ⟨Nat.le_refl _, Nat.lt_succ_self _⟩
  exact ⟨hn, ht, grows_of_map_eq rfl, grows_of_map_eq rfl, fun hw =>
    hw.of_grows hn ht (grows_of_map_eq rfl) (grows_of_map_eq rfl)
      (fun c hcm => .inl ⟨c, hcm, rfl⟩) (fun a ham => .inl ⟨a, ham, rfl⟩)⟩

theorem grow_insertApproval {s : Core} {id : Uuid} {p : ApprovalPayload} {now e : Time}
    (hp : ∀ g, p = .gate g → ∃ c ∈ s.calls, c.callId = g.callId ∧ c.req.isLlm = false) :
    Grow s (s.insertApproval id p now e) := by
  have hn : s.nextId ≤ (s.insertApproval id p now e).nextId := Nat.le_succ _
  have ha : Grows Approval.ident (·.1) s.nextId (s.insertApproval id p now e).nextId s.approvals
      (s.insertApproval id p now e).approvals := grows_append ⟨Nat.le_refl _, Nat.lt_succ_self _⟩
  refine ⟨hn, grows_of_map_eq rfl, grows_of_map_eq rfl, ha, fun hw => ?_⟩
  refine hw.of_grows hn (grows_of_map_eq rfl) (grows_of_map_eq rfl) ha
    (fun c hcm => .inl ⟨c, hcm, rfl⟩) ?_
  intro a ham
  rcases List.mem_append.mp ham with ham | ham
  · exact .inl ⟨a, ham, rfl⟩
  · rw [List.mem_singleton.mp ham]
    exact .inr hp

theorem grow_allot (s : Core) {n : Nat} (h : s.nextId ≤ n) : Grow s { s with nextId := n } :=
  grow_of_idents h rfl rfl rfl

section Lives

variable {s : Core}

theorem task?_of_mem (hw : s.WellFormed) {t : Task} (ht : t ∈ s.tasks) :
    s.task? t.taskId = some t :=
  find_key Task.taskId hw.taskIds ht

theorem mem_of_task? {i : Uuid} {t : Task} (h : s.task? i = some t) : t ∈ s.tasks ∧ t.taskId = i :=
  ⟨List.mem_of_find?_eq_some h, by simpa using List.find?_some h⟩

theorem life_of_task? {i : Uuid} {t : Task} (h : s.task? i = some t) :
    s.life i = ⟨some t.status, t.stepCount, s.callsOf i⟩ := by
  simp [life, h]

theorem task?_updateTask {j : Uuid} {f : Task → Task} (hf : ∀ t, (f t).ident = t.ident)
    (i : Uuid) : (s.updateTask j f).task? i = (s.task? i).map fun t => if i = j then f t else t :=
  find_update Task.taskId (fun t => congrArg (·.1) (hf t)) j i s.tasks

theorem life_updateTask_ne {i j : Uuid} {f : Task → Task} (hf : ∀ t, (f t).ident = t.ident)
    (h : i ≠ j) : (s.updateTask j f).life i = s.life i := by
  have ht := task?_updateTask (s := s) (j := j) hf i
  simp only [h, if_false, Option.map_id_fun', id] at ht
  simp only [life, ht]
  rfl

theorem life_updateTask {j : Uuid} {f : Task → Task} {t : Task}
    (hf : ∀ t, (f t).ident = t.ident) (h : s.task? j = some t) :
    (s.updateTask j f).life j = ⟨some (f t).status, (f t).stepCount, s.callsOf j⟩ := by
  have ht : (s.updateTask j f).task? j = some (f t) := by
    simp [task?_updateTask hf, h]
  exact life_of_task? ht

theorem task?_bump {j : Uuid} {now : Time} {f : Task → Task} (hf : ∀ t, (f t).ident = t.ident)
    {i : Uuid} {t : Task} (h : s.task? i = some t) : ∃ r, (s.bump j now f).task? i = some r := by
  have hg : ∀ t : Task, ({ f t with
      stepCount := t.stepCount + 1
      updatedAt := now } : Task).ident = t.ident := fun t => hf t
  have hu := task?_updateTask (s := s) (j := j) hg i
  rw [h] at hu
  exact ⟨_, hu⟩

theorem life_bump_ne {i j : Uuid} {now : Time} {f : Task → Task}
    (hf : ∀ t, (f t).ident = t.ident) (h : i ≠ j) : (s.bump j now f).life i = s.life i :=
  life_updateTask_ne (fun t => hf t) h

theorem life_bump {j : Uuid} {now : Time} {f : Task → Task} {t : Task}
    (hf : ∀ t, (f t).ident = t.ident) (h : s.task? j = some t) :
    (s.bump j now f).life j = ⟨some (f t).status, t.stepCount + 1, s.callsOf j⟩ :=
  life_updateTask (f := fun t => { f t with stepCount := t.stepCount + 1, updatedAt := now })
    (fun t => hf t) h

/-- A change of columns the life does not read. -/
theorem life_updateTask_same {j : Uuid} {f : Task → Task} (hf : ∀ t, (f t).ident = t.ident)
    (hs : ∀ t, (f t).status = t.status) (hn : ∀ t, (f t).stepCount = t.stepCount) (i : Uuid) :
    (s.updateTask j f).life i = s.life i := by
  by_cases h : i = j
  · subst h
    cases ht : s.task? i with
    | none =>
      have := task?_updateTask (s := s) (j := i) hf i
      simp only [ht, Option.map_none] at this
      simp only [life, this, ht]
      rfl
    | some t => rw [life_updateTask hf ht, life_of_task? ht, hs, hn]
  · exact life_updateTask_ne hf h

theorem life_insertCall (i j : Uuid) (req : Request) (now : Time) :
    (s.insertCall j req now).life i =
      { s.life i with
        calls := s.callsOf i ++ if i = j then [⟨s.nextId, req.queue, req.isLlm, .queued⟩] else [] } := by
  simp only [life, callsOf, insertCall, List.filter_append, List.map_append]
  congr 2
  by_cases h : i = j
  · simp [h, Call.life]
  · have : ¬ j = i := fun h' => h h'.symm
    simp [h, this]

theorem callsOf_nextId (hw : s.WellFormed) : s.callsOf s.nextId = [] := by
  simp only [callsOf, List.map_eq_nil_iff, List.filter_eq_nil_iff, decide_eq_true_eq]
  intro c hc he
  obtain ⟨t, ht, hte⟩ := hw.callTask c hc
  have := hw.taskLt t ht
  rw [hte, he] at this
  exact absurd this (Nat.lt_irrefl _)

theorem task?_nextId (hw : s.WellFormed) : s.task? s.nextId = none := by
  simp only [task?, List.find?_eq_none, decide_eq_true_eq]
  intro t ht he
  have := hw.taskLt t ht
  rw [he] at this
  exact absurd this (Nat.lt_irrefl _)

theorem life_nextId (hw : s.WellFormed) : s.life s.nextId = {} := by
  simp [life, task?_nextId hw, callsOf_nextId hw]

theorem task?_insertTask (hw : s.WellFormed) (t : Task) (i : Uuid) :
    (s.insertTask t).task? i =
      if i = s.nextId then some { t with taskId := s.nextId } else s.task? i := by
  simp only [task?, insertTask, List.find?_append]
  by_cases h : i = s.nextId
  · subst h
    have hnone : s.tasks.find? (fun t => decide (t.taskId = s.nextId)) = none := task?_nextId hw
    simp [hnone]
  · have hne : ¬ s.nextId = i := fun h' => h h'.symm
    simp [h, hne]

theorem life_insertTask (hw : s.WellFormed) (t : Task) (i : Uuid) :
    (s.insertTask t).life i =
      if i = s.nextId then ⟨some t.status, t.stepCount, []⟩ else s.life i := by
  have hc : (s.insertTask t).callsOf i = s.callsOf i := rfl
  by_cases h : i = s.nextId
  · subst h
    simp [life, task?_insertTask hw, hc, callsOf_nextId hw]
  · simp [life, task?_insertTask hw, hc, h]

/-- Changing one call changes one call of the life of its task, and no other life. -/
theorem lives_updateCall (hw : s.WellFormed) {c : Call} (hc : c ∈ s.calls) :
    ∃ pre post, s.callsOf c.taskId = pre ++ c.life :: post ∧
      ∀ f : Call → Call, (∀ c, (f c).ident = c.ident) →
        (s.updateCall c.callId f).callsOf c.taskId = pre ++ (f c).life :: post ∧
        ∀ i, i ≠ c.taskId → (s.updateCall c.callId f).life i = s.life i := by
  obtain ⟨pre, post, hsplit⟩ := List.append_of_mem hc
  refine ⟨(pre.filter (·.taskId = c.taskId)).map Call.life,
    (post.filter (·.taskId = c.taskId)).map Call.life, ?_, ?_⟩
  · simp [callsOf, hsplit]
  · intro f hf
    have hu : (s.updateCall c.callId f).calls = pre ++ f c :: post := by
      have hn := hw.callIds
      rw [hsplit] at hn
      simp only [updateCall, hsplit]
      exact update_split hn
    have hid := hf c
    simp only [Call.ident, Prod.mk.injEq] at hid
    refine ⟨?_, ?_⟩
    · simp [callsOf, hu, hid.2.1]
    · intro i hi
      have hne : ¬ c.taskId = i := fun h => hi h.symm
      have ht : (s.updateCall c.callId f).task? i = s.task? i := rfl
      simp [life, ht, callsOf, hu, hsplit, hid.2.1, hne]

/-- A change of columns the lives do not read. -/
theorem life_updateCall_same {id : Uuid} {f : Call → Call} (hf : ∀ c, (f c).taskId = c.taskId)
    (hl : ∀ c, (f c).life = c.life) (i : Uuid) : (s.updateCall id f).life i = s.life i := by
  have hc : (s.updateCall id f).callsOf i = s.callsOf i := by
    simp only [callsOf, updateCall]
    rw [filter_update (fun c => by rw [hf])]
    exact map_update hl _
  have ht : (s.updateCall id f).task? i = s.task? i := rfl
  simp only [life, hc, ht]

end Lives

end Core

end Allgres
