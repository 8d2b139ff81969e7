import Allgres.Lineage
import Allgres.SessionStates

/-! The forest of delegated tasks. A chain of delegations names every agent once and
stays in one session, and its length is the depth of its last task. -/

namespace Allgres

open Raise Rows Runs Allgres.Core Lineage

abbrev DelegationChain (tasks : List Task) : Task → List Task → Prop :=
  Chain Task.taskId Task.parentTaskId tasks

/-- What holds of a task and the chain it ends. -/
structure Descends (t : Task) (chain : List Task) : Prop where
  agents : (chain.map (·.agentId)).Nodup
  depth : chain.length = t.delegationDepth + 1
  sessions : ∀ a ∈ chain, a.sessionId = t.sessionId

section Walk

variable {tasks : List Task} {t : Task} {chain : List Task}

/-- The recursive query of the cycle check finds the chain. -/
theorem ancestors_of_chain (hn : (tasks.map (·.taskId)).Nodup) (h : DelegationChain tasks t chain)
    {n : Nat} (hl : chain.length ≤ n) : Turn.ancestors tasks n (some t.taskId) = chain := by
  induction h generalizing n with
  | root ha hp =>
    obtain ⟨n, rfl⟩ : ∃ m, n = m + 1 := ⟨n - 1, by simp at hl; omega⟩
    have hf := find_key Task.taskId hn ha
    rw [Turn.ancestors, hf]
    dsimp only
    rw [hp]
    cases n <;> rfl
  | @child a b l ha hp hb ih =>
    obtain ⟨n, rfl⟩ : ∃ m, n = m + 1 := ⟨n - 1, by simp at hl; omega⟩
    have hf := find_key Task.taskId hn ha
    rw [Turn.ancestors, hf]
    dsimp only
    rw [hp, ih (by simpa using hl)]

theorem chain_length_le (h : DelegationChain tasks t chain) (hd : Descends t chain) :
    chain.length ≤ tasks.length :=
  (List.subperm_of_subset (hd.agents.of_map _) h.subset).length_le

end Walk

section Birth

variable {pg : Postgres} {now : Time} {G : Json → Prop} {db db' : Db}

/-- A task that was delegated in a state: the reply of a model passed the checks. -/
def Delegated (G : Json → Prop) (db : Db) (k : Task) : Prop :=
  ∃ (T : Turn) (v payload : Json) (target : Uuid), T.db = db ∧
    db.task? T.task.taskId = some T.task ∧ T.policy = db.cfg.policy? T.task.agentId ∧
    G payload ∧ payload.text "type" = some "llm_response" ∧
    T.delegateTarget v = .ok target ∧ k = T.child v target

/-- The rows a write adds to the tasks. -/
def AddsTasks (G : Json → Prop) (db db' : Db) (new : List Task) : Prop :=
  db'.tasks.map Task.frame = (db.tasks ++ new).map Task.frame ∧
    ∀ k ∈ new, (k.parentTaskId = none ∧ k.delegationDepth = 0) ∨ Delegated G db k

theorem addsTasks_nil (h : db'.tasks.map Task.frame = db.tasks.map Task.frame) :
    AddsTasks G db db' [] :=
  ⟨by rw [List.append_nil, h], by simp⟩

theorem map_frame_update {p : Task → Bool} {f : Task → Task} (hf : ∀ r, (f r).frame = r.frame)
    (tasks : List Task) : (update p f tasks).map Task.frame = tasks.map Task.frame :=
  map_update hf tasks

theorem map_frame_bump (db : Db) (id : Uuid) (now : Time) {f : Task → Task}
    (hf : ∀ r, (f r).frame = r.frame) :
    (db.bump id now f).tasks.map Task.frame = db.tasks.map Task.frame :=
  map_frame_update (f := fun t => { f t with stepCount := t.stepCount + 1, updatedAt := now }) hf
    db.tasks

theorem payloadStep_delegate {T : Turn} {payload : Json} {s : Step} {child : Task} {wait : Bool}
    (h : T.payloadStep pg payload = .ok s) (hn : s.next = .delegate child wait) :
    payload.text "type" = some "llm_response" := by
  unfold Turn.payloadStep at h
  dsimp only at h
  split_ifs at h with h1 h2 h3 h4
  · exact h1
  · obtain rfl := Except.ok.inj h
    rcases errorStep_next T payload with he | ⟨m, he⟩
    · rw [he] at hn
      cases hn
    · rw [he] at hn
      cases hn
  · obtain rfl := Except.ok.inj h
    cases hn
  · obtain rfl := Except.ok.inj h
    cases hn
  · obtain rfl := Except.ok.inj h
    cases hn

/-- The rows of a step: at most one delegated task. -/
theorem applyNext_tasks (db : Db) (t : Task) (next : Next) (now : Time) :
    ((db.applyNext t next now).tasks.map Task.frame = db.tasks.map Task.frame ∧
      ∀ child wait, next ≠ .delegate child wait) ∨
    ∃ child wait, next = .delegate child wait ∧ (db.applyNext t next now).tasks.map Task.frame =
      (db.tasks ++ [{ child with taskId := db.nextId }]).map Task.frame := by
  have hbump : ∀ (d : Db) (f : Task → Task), (∀ r, (f r).frame = r.frame) →
      (d.bump t.taskId now f).tasks.map Task.frame = d.tasks.map Task.frame :=
    fun d f hf => map_frame_bump d t.taskId now hf
  cases next with
  | delegate child wait =>
    right
    refine ⟨child, wait, rfl, ?_⟩
    cases wait with
    | true => exact hbump (db.insertTask child) id fun _ => rfl
    | false =>
      exact hbump (db.insertTask child) (fun r =>
        { r with
          status := .completed
          output := some (.object [("child_task_id", .str (uuidText db.nextId))]) }) fun _ => rfl
  | again => exact .inl ⟨hbump db id fun _ => rfl, by simp⟩
  | queue req => exact .inl ⟨hbump (db.insertCall t.taskId req now) id fun _ => rfl, by simp⟩
  | finalAnswer answer =>
    left
    refine ⟨?_, by simp⟩
    simp only [Db.applyNext, tasks_maybeCompleteSession]
    exact hbump db _ fun _ => rfl
  | fail e =>
    left
    refine ⟨?_, by simp⟩
    simp only [Db.applyNext, tasks_maybeCompleteSession]
    exact hbump db _ fun _ => rfl
  | awaitHuman reason =>
    exact .inl ⟨hbump db (fun r => { r with status := .waitingHuman }) fun _ => rfl, by simp⟩
  | awaitChildren =>
    exact .inl ⟨hbump db (fun r => { r with status := .waitingChildren }) fun _ => rfl, by simp⟩

theorem stepped_addsTasks {t : Task} {a : Agent} {payload : Json} {s : Step} (hg : G payload)
    (ht : db.task? t.taskId = some t)
    (hs : Turn.payloadStep pg ⟨db, now, t, a, db.cfg.policy? t.agentId⟩ payload = .ok s) :
    ∃ new, AddsTasks G db ((db.record t s now).applyNext t s.next now) new := by
  have htasks := record_tasks db t s now
  rcases applyNext_tasks (db.record t s now) t s.next now with ⟨h, -⟩ | ⟨child, wait, hn, h⟩
  · exact ⟨[], addsTasks_nil (h.trans (by rw [htasks]))⟩
  · have hasks := Turn.payloadStep_asks pg _ payload s hs
    dsimp only at hasks
    rw [hn] at hasks
    obtain ⟨v, target, htarget, rfl⟩ : ∃ v target,
        (Turn.mk db now t a (db.cfg.policy? t.agentId)).delegateTarget v = .ok target ∧
          child = (Turn.mk db now t a (db.cfg.policy? t.agentId)).child v target := by
      cases hasks
      exact ⟨_, _, by assumption, rfl⟩
    refine ⟨[Turn.child ⟨db, now, t, a, db.cfg.policy? t.agentId⟩ v target], ?_, ?_⟩
    · rw [h, htasks, record_nextId]
      rfl
    · intro k hk
      obtain rfl := List.mem_singleton.mp hk
      exact .inr ⟨_, v, payload, target, rfl, ht, rfl, hg, payloadStep_delegate hs hn, htarget, rfl⟩

/-- Every write leaves the frames of the tasks alone and adds roots or delegated tasks. -/
theorem Write.addsTasks (h : Write pg now G db db') : ∃ new, AddsTasks G db db' new := by
  cases h with
  | aside h => exact ⟨[], addsTasks_nil (by rw [h.tasks])⟩
  | opened h =>
    obtain ⟨goal, rfl⟩ := fnCreateSession_eq h
    refine ⟨[_], rfl, fun k hk => .inl ?_⟩
    obtain rfl := List.mem_singleton.mp hk
    exact ⟨rfl, rfl⟩
  | continued h =>
    obtain ⟨s, goal, -, -, rfl⟩ := fnContinueSession_eq h
    refine ⟨[_], rfl, fun k hk => .inl ?_⟩
    obtain rfl := List.mem_singleton.mp hk
    exact ⟨rfl, rfl⟩
  | calls _ => exact ⟨[], addsTasks_nil rfl⟩
  | approvals _ => exact ⟨[], addsTasks_nil rfl⟩
  | approval _ => exact ⟨[], addsTasks_nil rfl⟩
  | task hf _ => exact ⟨[], addsTasks_nil (map_frame_update hf _)⟩
  | ended hf _ _ =>
    refine ⟨[], addsTasks_nil ?_⟩
    rw [tasks_maybeCompleteSession]
    exact map_frame_update hf _
  | asked _ _ _ => exact ⟨[], addsTasks_nil rfl⟩
  | stepped hg ht _ _ hs => exact stepped_addsTasks hg ht hs
  | cancelled h =>
    unfold fnCancelSession at h
    obtain ⟨_, _, h⟩ := bind_eq_ok.mp h
    obtain ⟨rfl, -⟩ := Prod.mk.inj (Except.ok.inj h)
    exact ⟨[], addsTasks_nil (cancelTasks_sessions now _ _ db).2.2⟩

end Birth

section Forest

variable {pg : Postgres} {now : Time} {G : Json → Prop} {db db' : Db}

def Forest (db : Db) : Prop :=
  ∀ t ∈ db.tasks, ∃ chain, DelegationChain db.tasks t chain ∧ Descends t chain

/-- Rows with the same frames as the rows of another chain. -/
theorem Descends.lift {t t' : Task} {l l' : List Task} (h : Descends t l)
    (ht : t'.frame = t.frame) (hl : List.Forall₂ (fun a b => b.frame = a.frame) l l') :
    Descends t' l' := by
  have hagents : l'.map (·.agentId) = l.map (·.agentId) := by
    clear h
    induction hl with
    | nil => rfl
    | @cons a b _ _ hab _ ih =>
      have hagent : b.agentId = a.agentId := congrArg (·.1.2.2.1) hab
      rw [List.map_cons, List.map_cons, ih, hagent]
  have hsid : t'.sessionId = t.sessionId := congrArg (·.1.2.1) ht
  refine ⟨hagents ▸ h.agents, ?_, fun b hb => ?_⟩
  · rw [← hl.length_eq, h.depth]
    exact congrArg (·.2.1 + 1) ht.symm
  · obtain ⟨a, ha, hab⟩ := forall₂_mem_right hl b hb
    rw [hsid, ← h.sessions a ha]
    exact congrArg (·.1.2.1) hab

/-- The checks of `delegate` that keep the forest. -/
theorem delegateTarget_ok {T : Turn} {v : Json} {target : Uuid}
    (h : T.delegateTarget v = .ok target) :
    (∀ p, T.policy = some p → T.task.delegationDepth + 1 ≤ p.maxDelegationDepth ∧
      (T.db.tasks.filter (·.sessionId = T.task.sessionId)).length < p.maxSessionTasks) ∧
    ∀ a ∈ Turn.ancestors T.db.tasks (T.db.tasks.length + 1) (some T.task.taskId),
      a.agentId ≠ target := by
  unfold Turn.delegateTarget at h
  dsimp only at h
  split at h
  · cases h
  · split_ifs at h with h1 h2 h3 h4
    · cases h
    · cases h
    · cases h
    · cases h
    · obtain rfl := Except.ok.inj h
      refine ⟨fun p hp => ⟨?_, ?_⟩, fun a ha he => h3 ?_⟩
      · simpa [hp] using h2
      · simpa [hp] using h4
      · exact List.any_eq_true.mpr ⟨a, ha, by simpa using he⟩

theorem Forest.born (hF : Forest db) (hw : db.core.WellFormed) {k : Task} (hk : Delegated G db k)
    {k' : Task} (hfr : k'.frame = k.frame) (hk' : k' ∈ db'.tasks)
    (hold : ∀ t ∈ db.tasks, ∃ t' ∈ db'.tasks, t'.frame = t.frame) :
    ∃ chain, DelegationChain db'.tasks k' chain ∧ Descends k' chain := by
  obtain ⟨T, v, payload, target, hT, ht, -, -, -, htarget, rfl⟩ := hk
  obtain ⟨htm, -⟩ := mem_of_task? (s := db.core) ht
  obtain ⟨chain, hc, hd⟩ := hF _ htm
  have hanc : Turn.ancestors db.tasks (db.tasks.length + 1) (some T.task.taskId) = chain :=
    ancestors_of_chain hw.taskIds hc (Nat.le_succ_of_le (chain_length_le hc hd))
  have hne := (delegateTarget_ok htarget).2
  rw [hT, hanc] at hne
  obtain ⟨t', ht', hft⟩ := hold _ htm
  obtain ⟨chain', hc', hl⟩ := hc.lift (R := fun a b => b.frame = a.frame)
    (fun a b hab => ⟨congrArg (·.1.1) hab, congrArg (·.1.2.2.2) hab⟩) hold ht' hft
  have hd' := hd.lift hft hl
  have hkid : k'.parentTaskId = some t'.taskId := by
    rw [show k'.parentTaskId = some T.task.taskId from congrArg (·.1.2.2.2) hfr]
    exact congrArg some (congrArg (·.1.1) hft).symm
  have hagent : k'.agentId = target := congrArg (·.1.2.2.1) hfr
  have hsid : k'.sessionId = t'.sessionId :=
    (congrArg (·.1.2.1) hfr).trans (congrArg (·.1.2.1) hft).symm
  have hdepth : k'.delegationDepth = t'.delegationDepth + 1 := by
    have h1 : k'.delegationDepth = T.task.delegationDepth + 1 := congrArg (·.2.1) hfr
    have h2 : t'.delegationDepth = T.task.delegationDepth := congrArg (·.2.1) hft
    rw [h1, h2]
  refine ⟨k' :: chain', .child hk' hkid hc', ?_, ?_, ?_⟩
  · rw [List.map_cons, List.nodup_cons]
    refine ⟨fun hmem => ?_, hd'.agents⟩
    obtain ⟨b, hb, hba⟩ := List.mem_map.mp hmem
    obtain ⟨a, ha, hab⟩ := forall₂_mem_right hl b hb
    have hab' : b.agentId = a.agentId := congrArg (·.1.2.2.1) hab
    exact hne a ha (hab'.symm.trans (hba.trans hagent))
  · rw [List.length_cons, hd'.depth, hdepth]
  · intro a ha
    rcases List.mem_cons.mp ha with rfl | ha
    · rfl
    · rw [hsid]
      exact hd'.sessions a ha

/-- Rows of before and rows added, by their frames. -/
theorem AddsTasks.rows {new : List Task} (h : AddsTasks G db db' new) :
    (∀ t ∈ db.tasks, ∃ t' ∈ db'.tasks, t'.frame = t.frame) ∧
      ∀ t' ∈ db'.tasks, (∃ t ∈ db.tasks, t'.frame = t.frame) ∨ ∃ k ∈ new, t'.frame = k.frame := by
  constructor
  · intro t ht
    have hmem : t.frame ∈ db'.tasks.map Task.frame := by
      rw [h.1]
      exact List.mem_map_of_mem (List.mem_append_left _ ht)
    obtain ⟨t', ht', hf⟩ := List.mem_map.mp hmem
    exact ⟨t', ht', hf⟩
  · intro t' ht'
    have hmem : t'.frame ∈ (db.tasks ++ new).map Task.frame := h.1 ▸ List.mem_map_of_mem ht'
    obtain ⟨t, ht, hf⟩ := List.mem_map.mp hmem
    rcases List.mem_append.mp ht with ht | ht
    · exact .inl ⟨t, ht, hf.symm⟩
    · exact .inr ⟨t, ht, hf.symm⟩

theorem Forest.write (hw : db.core.WellFormed) (hF : Forest db) (h : Write pg now G db db') :
    Forest db' := by
  obtain ⟨new, hadd⟩ := h.addsTasks
  obtain ⟨hold, hrows⟩ := hadd.rows
  intro t' ht'
  rcases hrows t' ht' with ⟨t, ht, hf⟩ | ⟨k, hk, hf⟩
  · obtain ⟨chain, hc, hd⟩ := hF t ht
    obtain ⟨chain', hc', hl⟩ := hc.lift (R := fun a b => b.frame = a.frame)
      (fun a b hab => ⟨congrArg (·.1.1) hab, congrArg (·.1.2.2.2) hab⟩) hold ht' hf
    exact ⟨chain', hc', hd.lift hf hl⟩
  · rcases hadd.2 k hk with ⟨hp, hdepth⟩ | hdel
    · have hp' : t'.parentTaskId = none := (congrArg (·.1.2.2.2) hf).trans hp
      have hdepth' : t'.delegationDepth = 0 := (congrArg (·.2.1) hf).trans hdepth
      exact ⟨[t'], .root ht' hp', by simp, by simp [hdepth'], by simp⟩
    · exact hF.born hw hdel hf ht' hold

end Forest

section Moment

variable {pg : Postgres} {now : Time} {G : Json → Prop} {db d db' : Db}

/-- What the checks of `delegate` read is that of before. -/
structure Sees (db d : Db) : Prop where
  tasks : d.tasks = db.tasks
  policies : d.cfg.policies = db.cfg.policies

/-- A task with a parent was within the bounds of its delegator in a state. -/
def Bounded (db : Db) (k : Task) : Prop :=
  ∀ p, k.parentTaskId = some p → ∃ d ∈ db.tasks, d.taskId = p ∧
    ∀ policy, db.cfg.policy? d.agentId = some policy →
      k.delegationDepth ≤ policy.maxDelegationDepth ∧
        (db.tasks.filter (·.sessionId = k.sessionId)).length < policy.maxSessionTasks

def NewIn (db db' : Db) (k : Task) : Prop :=
  k ∈ db'.tasks ∧ ∀ t ∈ db.tasks, t.taskId ≠ k.taskId

theorem Delegated.bounded {k k' : Task} (hs : Sees db d) (hk : Delegated G d k)
    (hf : k'.frame = k.frame) : Bounded db k' := by
  obtain ⟨T, v, payload, target, rfl, ht, hpol, -, -, htarget, rfl⟩ := hk
  obtain ⟨htm, -⟩ := mem_of_task? (s := T.db.core) ht
  have hparent : k'.parentTaskId = some T.task.taskId := congrArg (·.1.2.2.2) hf
  have hsid : k'.sessionId = T.task.sessionId := congrArg (·.1.2.1) hf
  have hdepth : k'.delegationDepth = T.task.delegationDepth + 1 := congrArg (·.2.1) hf
  intro p hp
  obtain rfl : T.task.taskId = p := Option.some.inj (hparent.symm.trans hp)
  refine ⟨T.task, hs.tasks ▸ htm, rfl, fun policy hpolicy => ?_⟩
  have hlive : T.policy = some policy := by
    rw [hpol, Config.policy?, hs.policies]
    exact hpolicy
  obtain ⟨h1, h2⟩ := (delegateTarget_ok htarget).1 policy hlive
  rw [hdepth, hsid, ← hs.tasks]
  exact ⟨h1, h2⟩

/-- A write in a state that looks like the one of before adds only tasks within bounds. -/
theorem AddsTasks.bounded {new : List Task} (hs : Sees db d) (h : AddsTasks G d db' new) {k : Task}
    (hk : NewIn db db' k) : Bounded db k := by
  rcases h.rows.2 k hk.1 with ⟨t, ht, hf⟩ | ⟨k', hk', hf⟩
  · exact absurd (congrArg (·.1.1) hf).symm (hk.2 t (hs.tasks ▸ ht))
  · rcases h.2 k' hk' with ⟨hp, -⟩ | hdel
    · intro p hp'
      have : k.parentTaskId = none := (congrArg (·.1.2.2.2) hf).trans hp
      rw [this] at hp'
      cases hp'
    · exact hdel.bounded hs hf

theorem fnSubmitResult_addsTasks {i : Uuid} {payload result : Json}
    (h : fnSubmitResult pg now db i payload = .ok (db', result)) :
    ∃ new, AddsTasks (fun _ => True) db db' new := by
  obtain ⟨t, ht, rfl, -, ⟨e, v, rfl⟩ | ⟨a, s, -, hs, rfl⟩⟩ := fnSubmitResult_cases h
  · refine ⟨[], addsTasks_nil ?_⟩
    unfold Db.failTask
    rw [tasks_maybeCompleteSession]
    refine map_frame_update ?_ _
    exact fun _ => rfl
  · exact stepped_addsTasks trivial ht hs

theorem submitIfRunning_addsTasks (pg : Postgres) (now : Time) (db : Db) (i : Uuid)
    (payload : Json) :
    ∃ new, AddsTasks (fun _ => True) db (submitIfRunning pg now db i payload).1 new := by
  unfold submitIfRunning
  split
  · split
    · rename_i h
      exact fnSubmitResult_addsTasks h
    · exact ⟨[], addsTasks_nil rfl⟩
  · exact ⟨[], addsTasks_nil rfl⟩

theorem Noted.sees (h : Noted db d) : Sees db d :=
  ⟨h.tasks, by rw [h.cfg]⟩

theorem completeKind_sees {q : Call} {o : Outbound} {status : Option Int} {body : Option String}
    {payload : Json} (h : completeKind pg now db q o status body = .ok (d, payload)) :
    Sees db d := by
  unfold completeKind at h
  split at h
  · exact (completeFunctionKind_noted _ h).sees
  · exact (completeMcpKind_noted _ h).sees
  · exact (completeSearch_noted
      (fun _ => returns_seq fun _ => returns_pure (Noted.refl db)) _ h).sees
  · exact (completeCapabilitySearchKind_noted _ h).sees
  · exact (completeSearch_noted
      (fun _ => returns_seq fun _ => returns_pure (Noted.refl db)) _ h).sees
  · have hllm : Sees db (completeLlmKind db q o status body).1 := by
      unfold completeLlmKind
      dsimp only
      split_ifs
      · split <;> exact ⟨rfl, rfl⟩
      · exact ⟨rfl, rfl⟩
      · exact ⟨rfl, rfl⟩
    rw [Except.ok.inj h] at hllm
    exact hllm

/-- A completion submits in a state that looks like the one of before. -/
theorem fnCompleteOutbound_addsTasks {id : Uuid} {status : Option Int} {body : Option String}
    {result : Json} (h : fnCompleteOutbound pg now db id status body = .ok (db', result)) :
    ∃ d new, Sees db d ∧ AddsTasks (fun _ => True) d db' new := by
  unfold fnCompleteOutbound at h
  split at h
  · cases h
  · split at h
    · obtain ⟨rfl, -⟩ := by simpa using h
      exact ⟨db, [], ⟨rfl, rfl⟩, addsTasks_nil rfl⟩
    · split at h
      · rename_i q _ _ _ o _
        unfold harvestOutbound at h
        split at h
        · obtain ⟨rfl, -⟩ := by simpa using h
          refine ⟨db, [], ⟨rfl, rfl⟩, addsTasks_nil ?_⟩
          unfold Db.pauseAmbiguousOutbound
          dsimp only
          split
          · rfl
          · refine map_frame_update ?_ _
            exact fun _ => rfl
        · obtain ⟨⟨d, payload⟩, hk, h⟩ := bind_eq_ok.mp h
          obtain ⟨rfl, -⟩ := by simpa [pure, Except.pure] using h
          have hsees : Sees db d := ⟨(completeKind_sees hk).tasks, (completeKind_sees hk).policies⟩
          obtain ⟨new, hnew⟩ := submitIfRunning_addsTasks pg now d q.taskId payload
          refine ⟨d, new, hsees, ?_⟩
          unfold scoreOutcome
          split
          · exact hnew
          · exact hnew
      · cases h

theorem fnCompleteLocal_addsTasks {queue : Queue} {id : Uuid} {r : LocalResult} {result : Json}
    (h : fnCompleteLocal pg now db queue id r = .ok (db', result)) :
    ∃ d new, Sees db d ∧ AddsTasks (fun _ => True) d db' new := by
  unfold fnCompleteLocal at h
  split at h
  · cases h
  · split at h
    · obtain ⟨rfl, -⟩ := by simpa using h
      exact ⟨db, [], ⟨rfl, rfl⟩, addsTasks_nil rfl⟩
    · rename_i q _ _
      obtain ⟨⟨d, payload⟩, hk, h⟩ := bind_eq_ok.mp h
      obtain ⟨rfl, -⟩ := by simpa [pure, Except.pure] using h
      have hnoted := (completeLocalRequest_noted _ hk).sees
      obtain ⟨new, hnew⟩ := submitIfRunning_addsTasks pg now d q.taskId payload
      exact ⟨d, new, ⟨hnoted.tasks, hnoted.policies⟩, hnew⟩

/-- Where no reply of a model is submitted, only roots are added. -/
theorem Writes.roots (h : Writes pg now G db db')
    (hG : ∀ p, G p → p.text "type" ≠ some "llm_response") {k : Task} (hk : NewIn db db' k) :
    k.parentTaskId = none := by
  induction h generalizing k with
  | refl => exact absurd rfl (hk.2 k hk.1)
  | @tail d d' _ hm ih =>
    obtain ⟨new, hadd⟩ := hm.addsTasks
    rcases hadd.rows.2 k hk.1 with ⟨t, ht, hf⟩ | ⟨k', hk', hf⟩
    · have hid : k.taskId = t.taskId := congrArg (·.1.1) hf
      have hnew : NewIn db d t := ⟨ht, fun r hr he => hk.2 r hr (he.trans hid.symm)⟩
      exact (congrArg (·.1.2.2.2) hf).trans (ih hnew)
    · rcases hadd.2 k' hk' with ⟨hp, -⟩ | ⟨_, _, payload, _, _, _, _, hg, htype, _, _⟩
      · exact (congrArg (·.1.2.2.2) hf).trans hp
      · exact absurd htype (hG payload hg)

theorem bounded_of_root {k : Task} (h : k.parentTaskId = none) : Bounded db k := by
  intro p hp
  rw [h] at hp
  cases hp

/-- Every task an event adds is within the bounds its delegator had before the event. -/
theorem step_bounded (pg : Postgres) {db : Db} (hw : db.core.WellFormed) (e : Event) {k : Task}
    (hk : NewIn db (step pg db e) k) : Bounded db k := by
  rcases step_cases pg db e with he | he
  · rw [he] at hk
    exact absurd rfl (hk.2 k hk.1)
  have hroot : (∀ p, e.op.submits p → p.text "type" ≠ some "llm_response") → Bounded db k :=
    fun hG => bounded_of_root ((step_writes pg e hw).roots hG hk)
  cases hop : e.op with
  | submit i payload =>
    rw [hop] at he
    obtain ⟨result, he⟩ := map_fst_eq_ok he
    obtain ⟨new, hnew⟩ := fnSubmitResult_addsTasks he
    exact hnew.bounded ⟨rfl, rfl⟩ hk
  | completeOutbound id status body =>
    rw [hop] at he
    obtain ⟨result, he⟩ := map_fst_eq_ok he
    obtain ⟨d, new, hs, hnew⟩ := fnCompleteOutbound_addsTasks he
    exact hnew.bounded hs hk
  | completeLocal queue id r =>
    rw [hop] at he
    obtain ⟨result, he⟩ := map_fst_eq_ok he
    obtain ⟨d, new, hs, hnew⟩ := fnCompleteLocal_addsTasks he
    exact hnew.bounded hs hk
  | dispatch roll locked =>
    refine hroot fun p hp => ?_
    rw [hop] at hp
    obtain ⟨m, rfl⟩ := hp
    exact errorPayload_ne m
  | watchdog seconds locked =>
    refine hroot fun p hp => ?_
    rw [hop] at hp
    obtain ⟨m, rfl⟩ := hp
    exact errorPayload_ne m
  | createSession _ _ _ _ => exact hroot (by simp [hop, Op.submits])
  | continueSession _ _ => exact hroot (by simp [hop, Op.submits])
  | claim _ _ _ _ => exact hroot (by simp [hop, Op.submits])
  | decideApproval _ _ _ => exact hroot (by simp [hop, Op.submits])
  | cancelSession _ _ => exact hroot (by simp [hop, Op.submits])
  | edit _ => exact hroot (by simp [hop, Op.submits])

end Moment

/-- In every state every task ends exactly one chain of delegations; the agents of the
chain are distinct, its length is one more than the depth and it stays in one session.
A task that the next event adds was within the bounds of its delegator. -/
theorem delegation_bounded (pg : Postgres) (c : Config) (es : List Event) :
    let db := run (step pg) (start c) es
    (∀ t ∈ db.tasks, ∃ chain, DelegationChain db.tasks t chain ∧ Descends t chain ∧
      ∀ chain', DelegationChain db.tasks t chain' → chain' = chain) ∧
    ∀ e k, NewIn db (step pg db e) k → Bounded db k := by
  intro db
  have hw : db.core.WellFormed := wellFormed_run pg es (wellFormed_start c)
  have hforest : Forest db := run_invariant (fun hw hF h => hF.write hw h) (wellFormed_start c)
    (by intro t ht; simp [start] at ht) es
  refine ⟨fun t ht => ?_, fun e k hk => step_bounded pg hw e hk⟩
  obtain ⟨chain, hc, hd⟩ := hforest t ht
  exact ⟨chain, hc, hd, fun chain' hc' => hc'.unique hw.taskIds hc⟩

end Allgres
