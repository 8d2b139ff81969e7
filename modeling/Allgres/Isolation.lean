import Allgres.LoginRequired

/-! What a user's requests show and change of the conversations of others. Two databases that
differ only in those give the same reply where a branch looks no further than the sessions
mapped to the user; the branches that go by the agents of a user look further. -/

namespace Allgres

open Raise Rows

section Agreement

variable {α β : Type} {P : β → β → Prop} {Q : α → α → Prop}

/-- Two calls raise the same, or return related values. -/
def Agree (Q : α → α → Prop) (x y : Except String α) : Prop :=
  match x, y with
  | .ok v, .ok w => Q v w
  | .error e, .error f => e = f
  | _, _ => False

theorem agree_same {x : Except String α} (h : ∀ v, Q v v) : Agree Q x x := by
  cases x with
  | error e => rfl
  | ok v => exact h v

theorem agree_bind {x y : Except String β} {k l : β → Except String α} (hx : Agree P x y)
    (hk : ∀ v w, P v w → Agree Q (k v) (l w)) : Agree Q (x >>= k) (y >>= l) := by
  cases x with
  | error e =>
    cases y with
    | error f => exact hx
    | ok w => exact hx.elim
  | ok v =>
    cases y with
    | error f => exact hx.elim
    | ok w => exact hk v w hx

theorem agree_seq {x : Except String β} {k l : β → Except String α}
    (hk : ∀ v, Agree Q (k v) (l v)) : Agree Q (x >>= k) (x >>= l) := by
  cases x with
  | error e => rfl
  | ok v => exact hk v

theorem agree_map {x y : Except String β} {f g : β → α}
    (h : Agree (fun v w => Q (f v) (g w)) x y) : Agree Q (x.map f) (y.map g) := by
  cases x with
  | error e =>
    cases y with
    | error f => exact h
    | ok w => exact h.elim
  | ok v =>
    cases y with
    | error f => exact h.elim
    | ok w => exact h

theorem agree_mono {R : α → α → Prop} {x y : Except String α} (h : Agree R x y)
    (hq : ∀ v w, R v w → Q v w) : Agree Q x y := by
  cases x with
  | error e =>
    cases y with
    | error f => exact h
    | ok w => exact h.elim
  | ok v =>
    cases y with
    | error f => exact h.elim
    | ok w => exact hq v w h

theorem agree_raised {p q : Prop} [Decidable p] [Decidable q] {e : String}
    {k l : Unit → Except String α} (hp : p) (hq : q) :
    Agree Q (raiseIf p e >>= k) (raiseIf q e >>= l) := by
  rw [raiseIf, raiseIf, if_pos hp, if_pos hq]
  rfl

end Agreement

/-- The tables a conversation is in. -/
structure Conversations where
  sessions : List Session
  tasks : List Task
  logs : List Log
  approvals : List Approval

def Site.withConversations (s : Site) (v : Conversations) : Site :=
  { s with
    db := { s.db with
      sessions := v.sessions
      tasks := v.tasks
      logs := v.logs
      approvals := v.approvals } }

/-- Whether a task is of one of the sessions. -/
def ownTask (K : Uuid → Bool) (s : Site) (taskId : Uuid) : Bool :=
  s.db.tasks.any fun t => t.taskId = taskId ∧ K t.sessionId

/-- The two sites have the same of these sessions, and the same of their tasks, logs and
approvals. -/
structure SameOwn (K : Uuid → Bool) (s s' : Site) : Prop where
  sessions : s'.db.sessions.filter (K ·.sessionId) = s.db.sessions.filter (K ·.sessionId)
  tasks : s'.db.tasks.filter (K ·.sessionId) = s.db.tasks.filter (K ·.sessionId)
  logs : s'.db.logs.filter (ownTask K s ·.taskId) = s.db.logs.filter (ownTask K s ·.taskId)
  approvals : s'.db.approvals.filter (ownTask K s ·.taskId) =
    s.db.approvals.filter (ownTask K s ·.taskId)

/-- Two sites that differ only in other conversations than these. -/
def Twin (K : Uuid → Bool) (s s' : Site) : Prop :=
  (∃ v, s' = s.withConversations v) ∧ SameOwn K s s'

/-- The chats of the user are among the sessions, and so is every session still to come. -/
structure Reach (K : Uuid → Bool) (userId : Uuid) (s : Site) : Prop where
  own : ∀ id, mapped s userId id = true → K id = true
  new : ∀ id, s.db.nextId ≤ id → K id = true

/-- Keys are unique, and every row refers to ids that have been given out. -/
structure Referential (s : Site) : Prop where
  taskIds : (s.db.tasks.map (·.taskId)).Nodup
  approvalIds : (s.db.approvals.map (·.approvalId)).Nodup
  sessionsBelow : ∀ row ∈ s.db.sessions, row.sessionId < s.db.nextId
  tasksBelow : ∀ t ∈ s.db.tasks, t.taskId < s.db.nextId ∧ t.sessionId < s.db.nextId
  logsBelow : ∀ l ∈ s.db.logs, l.taskId < s.db.nextId
  approvalsBelow : ∀ a ∈ s.db.approvals, a.taskId < s.db.nextId

section Lists

variable {α : Type} {p q : α → Bool} {l l' : List α}

theorem filter_of_filter_eq (h : l'.filter q = l.filter q) (hp : ∀ x, p x = true → q x = true) :
    l'.filter p = l.filter p := by
  have key : ∀ m : List α, m.filter p = (m.filter q).filter p := by
    intro m
    rw [List.filter_filter]
    apply List.filter_congr
    intro x _
    by_cases hx : p x = true
    · simp [hx, hp x hx]
    · simp [hx]
  rw [key l', key l, h]

theorem find_of_filter_eq (h : l'.filter q = l.filter q) (hp : ∀ x, p x = true → q x = true) :
    l'.find? p = l.find? p := by
  rw [← List.head?_filter, ← List.head?_filter, filter_of_filter_eq h hp]

theorem any_of_filter_eq (h : l'.filter q = l.filter q) (hp : ∀ x, p x = true → q x = true) :
    l'.any p = l.any p := by
  have key : ∀ m : List α, m.any p = (m.find? p).isSome := by
    intro m
    rw [Bool.eq_iff_iff, List.any_eq_true, List.find?_isSome]
  rw [key l', key l, find_of_filter_eq h hp]

theorem filterMap_within {β : Type} {f g : α → Option β} (h : l'.filter q = l.filter q)
    (hg : ∀ x ∈ l, (g x).isSome = true → q x = true) (hf : ∀ x ∈ l', (f x).isSome = true → q x = true)
    (heq : ∀ x, q x = true → f x = g x) : l'.filterMap f = l.filterMap g := by
  have key : ∀ (m : List α) (k : α → Option β), (∀ x ∈ m, (k x).isSome = true → q x = true) →
      m.filterMap k = (m.filter q).filterMap k := by
    intro m k hk
    rw [List.filterMap_filter]
    apply List.filterMap_congr
    intro x hx
    by_cases hq : q x = true
    · rw [if_pos hq]
    · rw [if_neg hq]
      exact Option.not_isSome_iff_eq_none.mp fun hsome => hq (hk x hx hsome)
  rw [key l' f hf, key l g hg, h]
  apply List.filterMap_congr
  intro x hx
  exact heq x (List.mem_filter.mp hx).2

theorem filter_within {p' : α → Bool} (h : l'.filter q = l.filter q)
    (hp : ∀ x ∈ l, p x = true → q x = true) (hp' : ∀ x ∈ l', p' x = true → q x = true)
    (heq : ∀ x, q x = true → p' x = p x) : l'.filter p' = l.filter p := by
  rw [← List.filterMap_eq_filter, ← List.filterMap_eq_filter]
  refine filterMap_within h ?_ ?_ ?_
  · intro x hx hsome
    exact hp x hx (by simpa [Option.guard] using hsome)
  · intro x hx hsome
    exact hp' x hx (by simpa [Option.guard] using hsome)
  · intro x hq
    simp only [Option.guard, heq x hq]

end Lists

section Views

variable {K : Uuid → Bool} {s s' : Site}

theorem Twin.session (h : Twin K s s') {id : Uuid} (ho : K id = true) :
    s'.db.session? id = s.db.session? id := by
  refine find_of_filter_eq h.2.sessions fun row hrow => ?_
  have hid : row.sessionId = id := by simpa using hrow
  rw [hid]
  exact ho

theorem Twin.sessionTasks (h : Twin K s s') {id : Uuid} (ho : K id = true) (p : Task → Bool) :
    s'.db.tasks.filter (fun t => t.sessionId = id ∧ p t) =
      s.db.tasks.filter (fun t => t.sessionId = id ∧ p t) := by
  refine filter_of_filter_eq h.2.tasks fun t ht => ?_
  have hid : t.sessionId = id := (of_decide_eq_true ht).1
  rw [hid]
  exact ho

theorem Twin.anyTask (h : Twin K s s') {p : Task → Bool} (hp : ∀ t, p t = true → K t.sessionId = true) :
    s'.db.tasks.any p = s.db.tasks.any p :=
  any_of_filter_eq h.2.tasks hp

theorem Twin.mapped_eq (h : Twin K s s') : mapped s' = mapped s := by
  obtain ⟨⟨v, rfl⟩, _⟩ := h
  rfl

theorem Twin.ownTask_eq (h : Twin K s s') : ownTask K s' = ownTask K s := by
  funext id
  exact h.anyTask fun t ht => (of_decide_eq_true ht).2

theorem mem_of_filter_eq {α : Type} {q : α → Bool} {l l' : List α} (h : l'.filter q = l.filter q)
    {x : α} (hx : x ∈ l) (hq : q x = true) : x ∈ l' := by
  have hm : x ∈ l'.filter q := by
    rw [h]
    exact List.mem_filter.mpr ⟨hx, hq⟩
  exact (List.mem_filter.mp hm).1

/-- A task of these sessions is found in both sites. -/
theorem Twin.task (h : Twin K s s') (hs : Referential s) (hs' : Referential s') {id : Uuid}
    (ho : ownTask K s id = true) : s'.db.task? id = s.db.task? id ∧
      ∃ t ∈ s.db.tasks, s.db.task? id = some t ∧ K t.sessionId = true := by
  obtain ⟨t, ht, hid, hm⟩ : ∃ t ∈ s.db.tasks, t.taskId = id ∧ K t.sessionId = true := by
    simpa [ownTask] using ho
  have ht' : t ∈ s'.db.tasks := mem_of_filter_eq h.2.tasks ht hm
  have hfind : s.db.task? id = some t := hid ▸ find_key (fun x : Task => x.taskId) hs.taskIds ht
  have hfind' : s'.db.task? id = some t := hid ▸ find_key (fun x : Task => x.taskId) hs'.taskIds ht'
  exact ⟨hfind'.trans hfind.symm, t, ht, hfind, hm⟩

end Views

section Conditions

variable (K : Uuid → Bool) (s : Site) (u : User) (req : Json)

/-- The id in a field that holds one. -/
def givenId (req : Json) (key : String) : Option Uuid :=
  (req.text key).bind castUuid

def assignedIds : List Uuid :=
  (s.assignments.filter (·.userId = u.userId)).map (·.agentId)

/-- Every session of one of the agents, or with a task of one, is among the sessions. -/
def covers (ids : List Uuid) : Bool :=
  (s.db.sessions.all fun row => !ids.contains row.agentId || K row.sessionId) &&
    s.db.tasks.all fun t => !ids.contains t.agentId || K t.sessionId

def coversMemories (ids : List Uuid) : Bool :=
  s.db.cfg.memories.all fun m => !ids.contains m.agentId || m.sourceSessionId.all K

/-- The replies shown with a message come from these sessions. -/
def ownReplies (m : ChannelMessage) : Bool :=
  m.sessionId.all K && m.mentionedAgentIds.all fun id => (mentionSession s m id).all K

/-- A branch with this request stays within the sessions. -/
def UserAction.within : UserAction → Bool
  | agentsEvaluate => (givenId req "agent_id").all fun id => !changeRecorded s.db id || covers K s [id]
  | proposalsList => s.db.cfg.changeProposals.all fun r =>
      !listedProposal s req (some (assignedIds s u)) (givenId req "agent_id") r || ownTask K s r.taskId
  | sessionsCancel => (givenId req "session_id").all K || s.db.cfg.agents.all (!·.isActive)
  | sessionsContinue => (givenId req "session_id").all K || s.db.cfg.agents.all (!·.isActive)
  | messengerList => match limitField req 200 1000 with
    | .ok n => (channelPage s n).all (ownReplies K s ·.1)
    | .error _ => true
  | historySearch => (trimmed (req.text "query")).isNone ||
      (covers K s (assignedIds s u) && coversMemories K s (assignedIds s u))
  | events => covers K s (assignedIds s u)
  | approvalsList => covers K s (assignedIds s u)
  | approvalsDecide => covers K s (assignedIds s u) || (givenId req "approval_id").all fun id =>
      s.db.approvals.any fun a => a.approvalId = id ∧ ownTask K s a.taskId
  | _ => true

def requestWithin : Bool :=
  (userBranches.lookup (rpcAction req)).all (UserAction.within K s u req)

/-- The session that the request names is in both sites, under one agent, or in neither. -/
def NamedAlike (s s' : Site) (req : Json) : Prop :=
  ∀ id, givenId req "session_id" = some id →
    (s'.db.session? id).map (·.agentId) = (s.db.session? id).map (·.agentId)

/-- What the two sites have in common where a branch looks at a session before it asks whose
it is. -/
def RequestAlike (s s' : Site) (req : Json) : Prop :=
  userBranches.lookup (rpcAction req) = some .sessionsGet → NamedAlike s s' req

end Conditions

section Casts

variable {α β : Type} {Q : α → α → Prop}

theorem castOrRaise_ok {cast : String → Option β} {type : String} {x : Option String} {v : Option β}
    (h : castOrRaise cast type x = .ok v) : v = x.bind cast := by
  unfold castOrRaise at h
  cases x with
  | none =>
    cases h
    rfl
  | some t =>
    dsimp only at h
    split at h
    · rename_i w hw
      cases h
      exact hw.symm
    · cases h

theorem agree_uuidField {req : Json} {key : String} {k l : Option Uuid → Except String α}
    (h : Agree Q (k (givenId req key)) (l (givenId req key))) :
    Agree Q (uuidField req key >>= k) (uuidField req key >>= l) := by
  cases hx : uuidField req key with
  | error e => rfl
  | ok v =>
    obtain rfl : v = givenId req key := castOrRaise_ok hx
    exact h

end Casts

section Reads

variable {pg : Postgres} {K : Uuid → Bool} {now : Time} {s s' : Site} {u : User} {req : Json}

theorem visibleAgentIds_user (hu : sessionUser now s (tokenOf req) = some u) (hrole : u.role ≠ .admin) :
    visibleAgentIds now s (tokenOf req) = some (assignedIds s u) := by
  rw [visibleAgentIds, hu]
  exact if_neg hrole

theorem Twin.visible (h : Twin K s s') :
    visibleAgentIds now s' (tokenOf req) = visibleAgentIds now s (tokenOf req) := by
  obtain ⟨⟨v, rfl⟩, _⟩ := h
  rfl

theorem Twin.cfg (h : Twin K s s') : s'.db.cfg = s.db.cfg := by
  obtain ⟨⟨v, rfl⟩, _⟩ := h
  rfl

theorem covers_session {ids : List Uuid} (h : covers K s ids = true) {row : Session}
    (hrow : row ∈ s.db.sessions) (hin : ids.contains row.agentId = true) : K row.sessionId = true := by
  have := List.all_eq_true.mp (Bool.and_eq_true_iff.mp h).1 row hrow
  rw [hin] at this
  exact this

theorem covers_task {ids : List Uuid} (h : covers K s ids = true) {t : Task} (ht : t ∈ s.db.tasks)
    (hin : ids.contains t.agentId = true) : K t.sessionId = true := by
  have := List.all_eq_true.mp (Bool.and_eq_true_iff.mp h).2 t ht
  rw [hin] at this
  exact this

theorem Twin.goalOf (h : Twin K s s') {t : Task} (ho : K t.sessionId = true) :
    goalOf s'.db t = goalOf s.db t :=
  congrArg (Option.map fun row : Session => row.goal) (h.session ho)

theorem Twin.successRate (h : Twin K s s') {id : Uuid} (hc : covers K s [id] = true)
    (hc' : covers K s' [id] = true) (generation : Nat) :
    agentSuccessRateForGeneration s'.db id generation = agentSuccessRateForGeneration s.db id generation := by
  have htasks : generationTasks s'.db id generation = generationTasks s.db id generation := by
    unfold generationTasks
    congr 2
    refine filter_within h.2.tasks ?_ ?_ ?_
    · intro t ht hp
      have hid : t.agentId = id := (of_decide_eq_true hp).1
      exact covers_task hc ht (by simp [hid])
    · intro t ht hp
      have hid : t.agentId = id := (of_decide_eq_true hp).1
      exact covers_task hc' ht (by simp [hid])
    · intro t ho
      rw [h.goalOf ho]
  unfold agentSuccessRateForGeneration
  rw [htasks]

theorem Twin.evaluate (h : Twin K s s')
    (hc : UserAction.within K s u req .agentsEvaluate = true)
    (hc' : UserAction.within K s' u req .agentsEvaluate = true) :
    Agree Eq (uuidField req "agent_id" >>= fnEvaluateLastChange s'.db)
      (uuidField req "agent_id" >>= fnEvaluateLastChange s.db) := by
  refine agree_uuidField ?_
  dsimp only [UserAction.within] at hc hc'
  have hchange : ∀ id, changeRecorded s'.db id = changeRecorded s.db id := by
    obtain ⟨v, rfl⟩ := h.1
    exact fun _ => rfl
  have hgeneration : ∀ id, generationOf s'.db id = generationOf s.db id := by
    obtain ⟨v, rfl⟩ := h.1
    exact fun _ => rfl
  unfold fnEvaluateLastChange
  simp only [hchange, hgeneration, h.cfg]
  cases hf : (givenId req "agent_id").filter fun i => (s.db.cfg.agent? i).isSome with
  | none => rfl
  | some id =>
    have hid : givenId req "agent_id" = some id := (Option.filter_eq_some_iff.mp hf).1
    rw [hid] at hc hc'
    dsimp only
    by_cases hrecorded : changeRecorded s.db id = true
    · have hcover : covers K s [id] = true := by simpa [hrecorded] using hc
      have hcover' : covers K s' [id] = true := by simpa [hchange, hrecorded] using hc'
      simp only [h.successRate hcover hcover']
      exact agree_same fun _ => rfl
    · rw [if_neg hrecorded, if_neg hrecorded]
      rfl

theorem Twin.selftestTask (h : Twin K s s') (hs : Referential s) (hs' : Referential s')
    {id : Uuid} (ho : ownTask K s id = true) :
    selftestTask s'.db id = selftestTask s.db id := by
  obtain ⟨htask, t, ht, hfind, hm⟩ := h.task hs hs' ho
  have hid : t.taskId = id := by simpa using List.find?_some hfind
  have hgoal := h.goalOf hm
  have key : ∀ {r : Site}, Referential r → t ∈ r.db.tasks →
      Allgres.selftestTask r.db id = (Allgres.goalOf r.db t).any isSelftest := by
    intro r hr htr
    unfold Allgres.selftestTask
    rw [Bool.eq_iff_iff, List.any_eq_true]
    constructor
    · rintro ⟨t', ht', hp⟩
      obtain ⟨hid', hg⟩ := of_decide_eq_true hp
      rwa [← eq_of_key (fun x : Task => x.taskId) hr.taskIds ht' htr (hid'.trans hid.symm)]
    · intro hg
      exact ⟨t, htr, by simp [hid, hg]⟩
  rw [key hs' (mem_of_filter_eq h.2.tasks ht hm), key hs ht, hgoal]

theorem Twin.proposalsList (h : Twin K s s') (hs : Referential s) (hs' : Referential s')
    (hu : sessionUser now s (tokenOf req) = some u) (hrole : u.role ≠ .admin)
    (hc : UserAction.within K s u req .proposalsList = true) :
    Agree Eq (proposalsList pg now s' req) (proposalsList pg now s req) := by
  unfold Allgres.proposalsList
  refine agree_uuidField ?_
  have hlisted : ∀ scope id, listedProposal s' req scope id = listedProposal s req scope id := by
    obtain ⟨⟨v, rfl⟩, _⟩ := h
    exact fun _ _ => rfl
  dsimp only
  rw [h.cfg, h.visible, visibleAgentIds_user hu hrole]
  have hrows : (s.db.cfg.changeProposals.filter fun r =>
      listedProposal s' req (some (assignedIds s u)) (givenId req "agent_id") r &&
        !Allgres.selftestTask s'.db r.taskId) =
      s.db.cfg.changeProposals.filter fun r =>
        listedProposal s req (some (assignedIds s u)) (givenId req "agent_id") r &&
          !Allgres.selftestTask s.db r.taskId := by
    apply List.filter_congr
    intro r hr
    rw [hlisted]
    by_cases hl : listedProposal s req (some (assignedIds s u)) (givenId req "agent_id") r = true
    · have hown : ownTask K s r.taskId = true := by
        have := List.all_eq_true.mp hc r hr
        simpa [hl] using this
      rw [h.selftestTask hs hs' hown]
    · simp [hl]
  rw [hrows]
  exact agree_same fun _ => rfl

theorem Twin.logsWhere (h : Twin K s s') {p : Log → Bool}
    (hp : ∀ l, p l = true → ownTask K s l.taskId = true) :
    s'.db.logs.filter p = s.db.logs.filter p :=
  filter_of_filter_eq h.2.logs hp

theorem Twin.inSession (h : Twin K s s') {id : Uuid} (ho : K id = true) :
    s'.db.inSession id = s.db.inSession id := by
  funext taskId
  refine h.anyTask fun t ht => ?_
  have hid : t.sessionId = id := (of_decide_eq_true ht).2
  rw [hid]
  exact ho

theorem ownTask_of_inSession {id taskId : Uuid} (ho : K id = true)
    (h : s.db.inSession id taskId = true) : ownTask K s taskId = true := by
  obtain ⟨t, ht, hp⟩ := List.any_eq_true.mp h
  obtain ⟨hid, hsession⟩ := of_decide_eq_true hp
  refine List.any_eq_true.mpr ⟨t, ht, ?_⟩
  rw [hsession]
  simp [hid, ho]

theorem Twin.thread (h : Twin K s s') {id : Uuid} (ho : K id = true) :
    thread s'.db id = thread s.db id := by
  unfold Allgres.thread
  congr 1
  have hroots : ∀ taskId, (s'.db.tasks.any fun t =>
      t.taskId = taskId ∧ t.sessionId = id ∧ t.parentTaskId = none) =
      s.db.tasks.any fun t => t.taskId = taskId ∧ t.sessionId = id ∧ t.parentTaskId = none := by
    intro taskId
    refine h.anyTask fun t ht => ?_
    have hid : t.sessionId = id := (of_decide_eq_true ht).2.1
    rw [hid]
    exact ho
  simp only [hroots]
  refine h.logsWhere fun l hl => ?_
  obtain ⟨_, hany⟩ := of_decide_eq_true hl
  obtain ⟨t, ht, hp⟩ := List.any_eq_true.mp hany
  obtain ⟨hid, hsession, _⟩ := of_decide_eq_true hp
  refine List.any_eq_true.mpr ⟨t, ht, ?_⟩
  rw [hsession]
  simp [hid, ho]

theorem mapped_of_chat {place : ChatPlace} {c : Chat} (h : chat? s u.userId place = some c) :
    mapped s u.userId c.sessionId = true := by
  have hp : c.userId = u.userId ∧ c.place = place := by simpa using List.find?_some h
  exact List.any_eq_true.mpr ⟨c, List.mem_of_find?_eq_some h, by simp [hp.1]⟩

theorem Twin.chat (h : Twin K s s') : chat? s' = chat? s := by
  obtain ⟨⟨v, rfl⟩, _⟩ := h
  rfl

theorem Twin.historyOf (h : Twin K s s') (hk : Reach K u.userId s) (place : ChatPlace) :
    historyOf pg s' u.userId place = historyOf pg s u.userId place := by
  unfold Allgres.historyOf
  rw [h.chat]
  cases hc : chat? s u.userId place with
  | none => rfl
  | some c =>
    have ho : K c.sessionId = true := hk.own _ (mapped_of_chat hc)
    dsimp only
    rw [h.session ho, h.thread ho]

/-- The guard lets in the user of the token, in both sites alike. -/
theorem Twin.agentAccess (h : Twin K s s') {token : Option String}
    (hu : sessionUser now s token = some u) (agentId : Option Uuid) :
    Agree (fun v w => v = u ∧ w = u) (requireAgentAccess now s' token agentId)
      (requireAgentAccess now s token agentId) := by
  obtain ⟨⟨v, rfl⟩, _⟩ := h
  have hsame : requireAgentAccess now (s.withConversations v) token agentId =
      requireAgentAccess now s token agentId := rfl
  have huser : Returns (fun w => w = u) (requireAgentAccess now s token agentId) := by
    rw [requireAgentAccess, hu]
    dsimp only
    split
    · exact returns_error _
    · exact returns_ite (fun _ => returns_ok rfl) fun _ => returns_error _
  rw [hsame]
  cases hx : requireAgentAccess now s token agentId with
  | error e => rfl
  | ok w => exact ⟨huser w hx, huser w hx⟩

theorem Twin.projectAccess (h : Twin K s s') {token : Option String}
    (hu : sessionUser now s token = some u) (projectId : Option Uuid) :
    Agree (fun v w => v = w ∧ v.1 = u) (requireProjectAccess now s' token projectId)
      (requireProjectAccess now s token projectId) := by
  have haccess := fun id => h.agentAccess hu id
  obtain ⟨v, rfl⟩ := h.1
  unfold requireProjectAccess
  have hprojects : (s.withConversations v).db.cfg.projects = s.db.cfg.projects := rfl
  rw [hprojects]
  split
  · rfl
  · split
    · rfl
    · refine agree_bind (haccess _) ?_
      rintro _ _ ⟨rfl, rfl⟩
      exact ⟨rfl, rfl⟩

theorem Twin.chatHistory (h : Twin K s s') (hk : Reach K u.userId s) (hu : sessionUser now s (tokenOf req) = some u) :
    Agree Eq (chatHistory pg now s' req) (chatHistory pg now s req) := by
  refine agree_seq fun agentId => agree_bind (h.agentAccess hu agentId) ?_
  rintro _ _ ⟨rfl, rfl⟩
  cases agentId with
  | none => rfl
  | some id => exact h.historyOf hk (.agent id)

theorem Twin.projectChatHistory (h : Twin K s s') (hk : Reach K u.userId s)
    (hu : sessionUser now s (tokenOf req) = some u) :
    Agree Eq (projectChatHistory pg now s' req) (projectChatHistory pg now s req) := by
  refine agree_seq fun projectId => agree_bind (h.projectAccess hu projectId) ?_
  rintro ⟨w, agentId⟩ _ ⟨rfl, rfl⟩
  cases projectId with
  | none => rfl
  | some id => exact h.historyOf hk (.project id)

theorem Twin.startedAt (h : Twin K s s') {id : Uuid} (ho : K id = true) :
    startedAt s'.db id = startedAt s.db id := by
  have htasks := h.sessionTasks ho fun _ => true
  simp only [and_true] at htasks
  unfold Allgres.startedAt
  rw [htasks]

theorem Twin.sessionsGet (h : Twin K s s') (hk : Reach K u.userId s)
    (hu : sessionUser now s (tokenOf req) = some u) (hrole : u.role ≠ .admin) (hn : NamedAlike s s' req) :
    Agree Eq (sessionsGet pg now s' req) (sessionsGet pg now s req) := by
  unfold Allgres.sessionsGet
  refine agree_uuidField ?_
  have hguard : ∀ agentId, requireAgentAccessIfAccountsExist now s' (tokenOf req) agentId =
      requireAgentAccessIfAccountsExist now s (tokenOf req) agentId := by
    obtain ⟨v, rfl⟩ := h.1
    exact fun _ => rfl
  have huser : sessionUser now s' (tokenOf req) = sessionUser now s (tokenOf req) := by
    obtain ⟨v, rfl⟩ := h.1
    rfl
  cases hid : givenId req "session_id" with
  | none => rfl
  | some id =>
    dsimp only [Option.bind_some]
    rw [huser, h.mapped_eq]
    have hnamed := hn id hid
    by_cases ho : K id = true
    · rw [h.session ho]
      cases hrow : s.db.session? id with
      | none => rfl
      | some row =>
        obtain rfl : row.sessionId = id := by simpa using List.find?_some hrow
        have htasks : Allgres.sessionTasks s'.db row.sessionId =
            Allgres.sessionTasks s.db row.sessionId := by
          have := h.sessionTasks ho fun _ => true
          simp only [and_true] at this
          rw [Allgres.sessionTasks, this]
          rfl
        have hlogs : sessionLogs s'.db row.sessionId = sessionLogs s.db row.sessionId := by
          unfold sessionLogs
          rw [h.inSession ho]
          rw [h.logsWhere fun l hl => ownTask_of_inSession ho hl]
        have hjson : sessionJson pg s'.db row = sessionJson pg s.db row := by
          have hstart := h.startedAt ho
          obtain ⟨v, rfl⟩ := h.1
          unfold sessionJson
          rw [hstart]
          rfl
        dsimp only
        rw [hguard, htasks, hlogs, hjson]
        exact agree_same fun _ => rfl
    · -- the session is another user's: both sites refuse it
      have hother : ∀ row : Session, row.sessionId = id →
          ((sessionUser now s (tokenOf req)).any fun v =>
            decide (v.role ≠ .admin) && !mapped s v.userId row.sessionId) = true := by
        rintro row rfl
        have hnot : mapped s u.userId row.sessionId = false :=
          Bool.eq_false_iff.mpr fun hm => ho (hk.own _ hm)
        simp [hu, hrole, hnot]
      cases hrow : s.db.session? id with
      | none =>
        rw [hrow] at hnamed
        rw [Option.map_eq_none_iff.mp hnamed]
        rfl
      | some row =>
        rw [hrow] at hnamed
        obtain ⟨row', hrow', hagent⟩ := Option.map_eq_some_iff.mp hnamed
        rw [hrow']
        dsimp only
        rw [hguard, hagent]
        refine agree_seq fun _ => agree_raised (hother row' ?_) (hother row ?_)
        · simpa using List.find?_some hrow'
        · simpa using List.find?_some hrow

theorem Twin.replyJson (h : Twin K s s') {id : Option Uuid}
    (ho : id.all K = true) :
    replyJson (id.bind s'.db.session?) = replyJson (id.bind s.db.session?) := by
  cases id with
  | none => rfl
  | some i =>
    have hi : K i = true := ho
    dsimp only [Option.bind_some]
    rw [h.session hi]

theorem Twin.channelJson (h : Twin K s s') {m : ChannelMessage} (author : User)
    (ho : ownReplies K s m = true) : channelJson pg s' m author = channelJson pg s m author := by
  obtain ⟨hsession, hmentions⟩ := Bool.and_eq_true_iff.mp ho
  have hname : agentName s'.db.cfg = agentName s.db.cfg := by
    obtain ⟨v, rfl⟩ := h.1
    rfl
  have hmention : mentionSession s' = mentionSession s := by
    obtain ⟨v, rfl⟩ := h.1
    rfl
  have hreplies : (m.mentionedAgentIds.filterMap fun id => (agentName s.db.cfg id).map fun name =>
      Json.object (("agent", .str name) ::
        Allgres.replyJson ((mentionSession s m id).bind s'.db.session?))) =
      m.mentionedAgentIds.filterMap fun id => (agentName s.db.cfg id).map fun name =>
        Json.object (("agent", .str name) ::
          Allgres.replyJson ((mentionSession s m id).bind s.db.session?)) := by
    apply List.filterMap_congr
    intro id hid
    rw [h.replyJson (List.all_eq_true.mp hmentions id hid)]
  unfold Allgres.channelJson
  dsimp only
  rw [hname, hmention, hreplies, h.replyJson hsession]

theorem Twin.messengerList (h : Twin K s s')
    (hc : UserAction.within K s u req .messengerList = true) :
    Agree Eq (messengerList pg now s' req) (messengerList pg now s req) := by
  have hlogin : loggedIn now s' req = loggedIn now s req := by
    obtain ⟨v, rfl⟩ := h.1
    rfl
  have hpage : channelPage s' = channelPage s := by
    obtain ⟨v, rfl⟩ := h.1
    rfl
  unfold Allgres.messengerList
  rw [hlogin, hpage]
  refine agree_seq fun _ => ?_
  cases hn : limitField req 200 1000 with
  | error e => rfl
  | ok n =>
    have hall : (channelPage s n).all (ownReplies K s ·.1) = true := by
      simpa [UserAction.within, hn] using hc
    have hrows : ((sortBy (·.1.createdAt) (channelPage s n)).map fun p =>
        Allgres.channelJson pg s' p.1 p.2) =
        (sortBy (·.1.createdAt) (channelPage s n)).map fun p => Allgres.channelJson pg s p.1 p.2 := by
      apply List.map_congr_left
      intro p hp
      exact h.channelJson p.2 (List.all_eq_true.mp hall p (mem_sortBy.mp hp))
    exact congrArg (fun rows => okReply [("messages", .arr rows)]) hrows

theorem Twin.shownTask (h : Twin K s s') (scope : Option (List Uuid)) {t : Task}
    (ho : K t.sessionId = true) : shownTask scope s'.db t = shownTask scope s.db t := by
  unfold Allgres.shownTask
  rw [h.cfg, h.goalOf ho]

theorem covers_shownTask {ids : List Uuid} (hc : covers K s ids = true) {t : Task} (ht : t ∈ s.db.tasks)
    (hp : shownTask (some ids) s.db t = true) : K t.sessionId = true :=
  covers_task hc ht (Bool.and_eq_true_iff.mp hp).2

theorem ownTask_of_task {id : Uuid} {t : Task} (hfind : s.db.task? id = some t) (ho : K t.sessionId = true) :
    ownTask K s id = true := by
  have hid : t.taskId = id := by simpa using List.find?_some hfind
  exact List.any_eq_true.mpr ⟨t, List.mem_of_find?_eq_some hfind, by simp [hid, ho]⟩

/-- A log of a task that is shown is of one of the sessions. -/
theorem covers_log {ids : List Uuid} (hc : covers K s ids = true) {id : Uuid}
    (hp : (s.db.task? id).any (shownTask (some ids) s.db) = true) : ownTask K s id = true := by
  obtain ⟨t, hfind, hshown⟩ := (Option.any_eq_true ..).mp hp
  exact ownTask_of_task hfind (covers_shownTask hc (List.mem_of_find?_eq_some hfind) hshown)

theorem Twin.eventsReply (h : Twin K s s') (hs : Referential s) (hs' : Referential s')
    (hu : sessionUser now s (tokenOf req) = some u) (hrole : u.role ≠ .admin)
    (hc : UserAction.within K s u req .events = true)
    (hc' : UserAction.within K s' u req .events = true) :
    eventsReply pg now s' req = eventsReply pg now s req := by
  have hcover : covers K s (assignedIds s u) = true := hc
  have hcover' : covers K s' (assignedIds s u) = true := by
    obtain ⟨v, rfl⟩ := h.1
    exact hc'
  unfold Allgres.eventsReply
  rw [h.visible, visibleAgentIds_user hu hrole, h.cfg]
  have htasks : s'.db.tasks.filter (Allgres.shownTask (some (assignedIds s u)) s'.db) =
      s.db.tasks.filter (Allgres.shownTask (some (assignedIds s u)) s.db) :=
    filter_within h.2.tasks (fun _ ht hp => covers_shownTask hcover ht hp)
      (fun _ ht hp => covers_shownTask hcover' ht hp) fun _ ho => h.shownTask _ ho
  have hlogs : (s'.db.logs.filter fun l =>
      (s'.db.task? l.taskId).any (Allgres.shownTask (some (assignedIds s u)) s'.db)) =
      s.db.logs.filter fun l =>
        (s.db.task? l.taskId).any (Allgres.shownTask (some (assignedIds s u)) s.db) := by
    refine filter_within h.2.logs (fun _ _ hp => covers_log hcover hp) ?_ ?_
    · intro l _ hp
      rw [← h.ownTask_eq]
      exact covers_log hcover' hp
    · intro l ho
      obtain ⟨htask, t, _, hfind, hk⟩ := h.task hs hs' ho
      rw [htask, hfind]
      exact h.shownTask _ hk
  dsimp only
  rw [htasks, hlogs]

theorem Twin.approvalRow (h : Twin K s s') (hs : Referential s) (hs' : Referential s')
    (scope : Option (List Uuid)) {a : Approval} (ho : ownTask K s a.taskId = true) :
    approvalRow scope s'.db a = approvalRow scope s.db a := by
  obtain ⟨htask, t, _, hfind, hk⟩ := h.task hs hs' ho
  unfold Allgres.approvalRow
  rw [htask, hfind, h.cfg]
  dsimp only [Option.bind_eq_bind, Option.bind_some]
  rw [h.session hk]

theorem covers_approval {ids : List Uuid} (hc : covers K s ids = true) {a : Approval}
    (hsome : (approvalRow (some ids) s.db a).isSome = true) : ownTask K s a.taskId = true := by
  obtain ⟨x, hx⟩ := Option.isSome_iff_exists.mp hsome
  obtain ⟨t, hfind, hx⟩ := Option.bind_eq_some_iff.mp hx
  obtain ⟨row, _, hx⟩ := Option.bind_eq_some_iff.mp hx
  have hsight : ids.contains t.agentId = true := by
    split at hx
    · rename_i hp
      exact hp.2.2
    · cases hx
  exact ownTask_of_task hfind (covers_task hc (List.mem_of_find?_eq_some hfind) hsight)

theorem Twin.approvalsList (h : Twin K s s') (hs : Referential s) (hs' : Referential s')
    (hu : sessionUser now s (tokenOf req) = some u) (hrole : u.role ≠ .admin)
    (hc : UserAction.within K s u req .approvalsList = true)
    (hc' : UserAction.within K s' u req .approvalsList = true) :
    Agree Eq (approvalsList pg now s' req) (approvalsList pg now s req) := by
  have hcover : covers K s (assignedIds s u) = true := hc
  have hcover' : covers K s' (assignedIds s u) = true := by
    obtain ⟨v, rfl⟩ := h.1
    exact hc'
  have hrows : s'.db.approvals.filterMap (Allgres.approvalRow (some (assignedIds s u)) s'.db) =
      s.db.approvals.filterMap (Allgres.approvalRow (some (assignedIds s u)) s.db) := by
    refine filterMap_within h.2.approvals (fun _ _ hsome => covers_approval hcover hsome) ?_
      fun _ ho => h.approvalRow hs hs' _ ho
    intro a _ hsome
    rw [← h.ownTask_eq]
    exact covers_approval hcover' hsome
  unfold Allgres.approvalsList
  rw [h.visible, visibleAgentIds_user hu hrole, h.cfg]
  dsimp only
  rw [hrows]
  exact agree_same fun _ => rfl

section Search

variable {f : SearchScope} {ids : List Uuid} (hf : f.scope = some ids)
include hf

theorem admits_sight {c : Config} {agentId : Uuid} {row : Option Session}
    (h : f.admits c agentId row = true) : ids.contains agentId = true := by
  unfold SearchScope.admits at h
  simp only [Bool.and_eq_true] at h
  have hsight := h.1.1.1.2
  rw [hf] at hsight
  exact hsight

theorem Twin.memoryRows (h : Twin K s s') (hm : coversMemories K s ids = true) :
    memoryRows pg f s'.db = memoryRows pg f s.db := by
  unfold Allgres.memoryRows
  rw [h.cfg]
  congr 1
  apply List.filter_congr
  intro m hmem
  have hcover := List.all_eq_true.mp hm m hmem
  by_cases hin : ids.contains m.agentId = true
  · rw [hin] at hcover
    have hsource : m.sourceSessionId.bind s'.db.session? = m.sourceSessionId.bind s.db.session? := by
      cases hid : m.sourceSessionId with
      | none => rfl
      | some id =>
        rw [hid] at hcover
        exact h.session hcover
    rw [hsource]
  · have hnot : ∀ row, f.admits s.db.cfg m.agentId row = false := fun row =>
      Bool.eq_false_iff.mpr fun hadmits => hin (admits_sight hf hadmits)
    rw [hnot, hnot]

theorem Twin.failureRows (h : Twin K s s') (hs : Referential s) (hs' : Referential s')
    (hc : covers K s ids = true) (hc' : covers K s' ids = true) :
    failureRows pg f s'.db = failureRows pg f s.db := by
  have hown : ∀ {r : Site}, covers K r ids = true → ∀ l : Log, ((r.db.task? l.taskId).bind fun t =>
      (r.db.session? t.sessionId).bind fun row =>
        if l.role = .error ∧ findsText pg f.query l.content.render ∧
            f.admits r.db.cfg t.agentId (some row) then
          some (⟨"failure", .null, t.agentId, some t.sessionId, some l.taskId, "error",
            left l.content.render 400, l.createdAt⟩ : SearchRow)
        else none).isSome = true → ownTask K r l.taskId = true := by
    intro r hr l hsome
    obtain ⟨x, hx⟩ := Option.isSome_iff_exists.mp hsome
    obtain ⟨t, hfind, hx⟩ := Option.bind_eq_some_iff.mp hx
    obtain ⟨row, _, hx⟩ := Option.bind_eq_some_iff.mp hx
    have hsight : ids.contains t.agentId = true := by
      split at hx
      · rename_i hp
        exact admits_sight hf hp.2.2
      · cases hx
    exact ownTask_of_task hfind (covers_task hr (List.mem_of_find?_eq_some hfind) hsight)
  refine filterMap_within h.2.logs (fun l _ hsome => hown hc l hsome) ?_ ?_
  · intro l _ hsome
    rw [← h.ownTask_eq]
    exact hown hc' l hsome
  · intro l ho
    obtain ⟨htask, t, _, hfind, hk⟩ := h.task hs hs' ho
    rw [htask, hfind, h.cfg]
    dsimp only [Option.bind_eq_bind, Option.bind_some]
    rw [h.session hk]

theorem Twin.decisionRows (h : Twin K s s') (hc : covers K s ids = true) (hc' : covers K s' ids = true) :
    decisionRows pg f s'.db = decisionRows pg f s.db := by
  have hown : ∀ {r : Site}, covers K r ids = true → ∀ row ∈ r.db.sessions,
      (row.finalAnswer.bind fun answer =>
        if findsText pg f.query answer ∧ f.admits r.db.cfg row.agentId (some row) then
          some (⟨"decision", idJson row.sessionId, row.agentId, some row.sessionId, none,
            row.status.text, left answer 400,
            (row.completedAt.or (Allgres.startedAt r.db row.sessionId)).getD 0⟩ : SearchRow)
        else none).isSome = true → K row.sessionId = true := by
    intro r hr row hrow hsome
    obtain ⟨x, hx⟩ := Option.isSome_iff_exists.mp hsome
    obtain ⟨answer, _, hx⟩ := Option.bind_eq_some_iff.mp hx
    have hsight : ids.contains row.agentId = true := by
      split at hx
      · rename_i hp
        exact admits_sight hf hp.2
      · cases hx
    exact covers_session hr hrow hsight
  refine filterMap_within h.2.sessions (fun row hrow hsome => hown hc row hrow hsome)
    (fun row hrow hsome => hown hc' row hrow hsome) ?_
  intro row ho
  rw [h.cfg, h.startedAt ho]

end Search

theorem Twin.historySearch (h : Twin K s s') (hs : Referential s) (hs' : Referential s')
    (hu : sessionUser now s (tokenOf req) = some u) (hrole : u.role ≠ .admin)
    (hc : UserAction.within K s u req .historySearch = true)
    (hc' : UserAction.within K s' u req .historySearch = true) :
    Agree Eq (historySearch pg now s' req) (historySearch pg now s req) := by
  unfold Allgres.historySearch
  rw [h.visible, h.cfg, visibleAgentIds_user hu hrole]
  cases hq : trimmed (req.text "query") with
  | none => rfl
  | some q =>
    have hassigned : assignedIds s' u = assignedIds s u := by
      obtain ⟨v, rfl⟩ := h.1
      rfl
    obtain ⟨hcover, hmemories⟩ : covers K s (assignedIds s u) = true ∧
        coversMemories K s (assignedIds s u) = true := by
      simpa [UserAction.within, hq] using hc
    have hcover' : covers K s' (assignedIds s u) = true := by
      have : covers K s' (assignedIds s' u) = true ∧ coversMemories K s' (assignedIds s' u) = true := by
        simpa [UserAction.within, hq] using hc'
      exact hassigned ▸ this.1
    refine agree_seq fun agentId => agree_seq fun projectId => agree_seq fun n => ?_
    dsimp only
    rw [h.memoryRows rfl hmemories, h.failureRows rfl hs hs' hcover hcover',
      h.decisionRows rfl hcover hcover']
    rfl

end Reads

end Allgres
