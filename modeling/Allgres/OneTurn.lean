import Allgres.ReadCommitted
import Allgres.Site

/-! The turns of a session in transactions. `fn_continue_session` looks for a turn in
progress before it locks the session: a session has one turn at a time unless another
message is committed between the two. A transaction makes any calls one after the other:
`fn_messenger_post` is a `fn_chat_send` for each mention and then the post. -/

namespace Allgres

open ReadCommitted Rows Runs

/-- A message, with the ids that a session and a task made for it get. -/
structure Message where
  text : Option String
  now : Time
  sessionId : Uuid
  taskId : Uuid

inductive TurnLock where
  | session (id : Uuid) | task (id : Uuid) | chat (userId : Uuid) (place : ChatPlace)
  | webSession (token : Option String)
  deriving DecidableEq

inductive TurnLoc where
  | continueSession (id : Uuid) (m : Message)
  | checkAgent (row : Session) (m : Message)
  | checkTurn (row : Session) (m : Message)
  | reopen (row : Session) (m : Message)
  | insertTurn (row : Session) (m : Message)
  | chatSend (token : Option String) (agentId : Option Uuid) (m : Message)
  | projectChatSend (token : Option String) (projectId : Option Uuid) (m : Message)
  | findChat (u : User) (target : ChatTarget) (m : Message)
  | openSession (u : User) (target : ChatTarget) (m : Message)
  | mapChat (u : User) (target : ChatTarget) (m : Message)
  | postMessage (row : ChannelMessage)
  | moveTask (id : Uuid) (status : TaskStatus)
  | done

namespace TurnLoc

def entry : TurnLoc → Bool
  | continueSession .. => true
  | chatSend .. => true
  | projectChatSend .. => true
  | postMessage .. => true
  | moveTask .. => true
  | _ => false

def final : TurnLoc → Bool
  | done => true
  | _ => false

def inProgress (s : Site) (sessionId : Uuid) : Bool :=
  s.db.tasks.any fun t => t.sessionId = sessionId ∧ t.parentTaskId = none ∧ unfinished t

def movable (s : Site) (id : Uuid) : Bool :=
  (s.db.task? id).any unfinished

def locks : TurnLoc → Site → List TurnLock
  | reopen row _, _ => [.session row.sessionId]
  | insertTurn _ m, _ => [.task m.taskId]
  | chatSend token _ m, s => if (sessionUser m.now s token).isSome then [.webSession token] else []
  | projectChatSend token _ m, s =>
    if (sessionUser m.now s token).isSome then [.webSession token] else []
  | openSession _ _ m, _ => [.session m.sessionId, .task m.taskId]
  | mapChat u target _, _ => [.chat u.userId target.place]
  | moveTask id _, s => if movable s id then [.task id] else []
  | _, _ => []

def onDb (f : Db → Db) (s : Site) : Site :=
  { s with db := f s.db }

def newTurn (s : Site) (sessionId agentId : Uuid) (m : Message) : Task :=
  { taskId := m.taskId
    sessionId
    agentId
    input := .object [("goal", .ofText (trimmed m.text))]
    createdAt := m.now
    updatedAt := m.now
    policyGeneration := (s.db.cfg.policy? agentId).map (·.generation) }

def addTurn (t : Task) (m : Message) (db : Db) : Db :=
  Db.appendLog { db with tasks := db.tasks ++ [t] } t.taskId 0 .user (.ofText (trimmed m.text)) m.now

def reopened (id : Uuid) (db : Db) : Db :=
  db.updateSession id fun row =>
    { row with
      status := .open
      completedAt := none }

def newSession (target : ChatTarget) (m : Message) : Session :=
  { sessionId := m.sessionId
    agentId := target.agentId
    projectId := target.projectId
    goal := orEmpty (trimmed m.text) }

def addSession (row : Session) (t : Task) (m : Message) (db : Db) : Db :=
  addTurn t m { db with sessions := db.sessions ++ [row] }

def moved (status : TaskStatus) (t : Task) : Task :=
  { t with status }

def projectOpen (s : Site) (target : ChatTarget) : Bool :=
  target.projectId.all fun id => s.db.cfg.projects.any fun p => p.projectId = id ∧ p.isActive

def exec : TurnLoc → Site → Option (TurnLoc × (Site → Site))
  | continueSession id m, s =>
    if trimmed m.text = none then none
    else (s.db.session? id).map fun row => (checkAgent row m, fun s => s)
  | checkAgent row m, s =>
    if s.db.cfg.agentActive row.agentId then some (checkTurn row m, fun s => s) else none
  | checkTurn row m, s =>
    if inProgress s row.sessionId then none else some (reopen row m, fun s => s)
  | reopen row m, _ => some (insertTurn row m, onDb (reopened row.sessionId))
  | insertTurn row m, s =>
    if (s.db.task? m.taskId).isSome then none
    else some (done, onDb (addTurn (newTurn s row.sessionId row.agentId m) m))
  | chatSend token agentId m, s => match requireAgentAccess m.now s token agentId, agentId with
    | .ok u, some id => some (findChat u (agentTarget id) m, fun s => touch m.now s token)
    | _, _ => none
  | projectChatSend token projectId m, s =>
    match requireProjectAccess m.now s token projectId, projectId with
    | .ok (u, agentId), some id =>
      some (findChat u (projectTarget id agentId) m, fun s => touch m.now s token)
    | _, _ => none
  | findChat u target m, s =>
    if trimmed m.text = none then none
    else match chat? s u.userId target.place with
      | some c => some (continueSession c.sessionId m, fun s => s)
      | none => some (openSession u target m, fun s => s)
  | openSession u target m, s =>
    if !s.db.cfg.agentActive target.agentId || !projectOpen s target ||
        (s.db.session? m.sessionId).isSome || (s.db.task? m.taskId).isSome then none
    else some (mapChat u target m,
      onDb (addSession (newSession target m) (newTurn s m.sessionId target.agentId m) m))
  | mapChat u target m, s =>
    if (chat? s u.userId target.place).isSome then none
    else some (done, fun s => { s with chats := s.chats ++ [⟨u.userId, target.place, m.sessionId⟩] })
  | postMessage row, _ => some (done, fun s => { s with channelMessages := s.channelMessages ++ [row] })
  | moveTask id status, s =>
    if movable s id then some (done, onDb (·.updateTask id (moved status)))
    else some (done, fun s => s)
  | done, _ => none

end TurnLoc

def turnCode : Code Site TurnLoc TurnLock where
  entry := TurnLoc.entry
  final := TurnLoc.final
  locks := TurnLoc.locks
  exec := TurnLoc.exec

def turnTables (db : Db) : List Session × List Task × List Log :=
  (db.sessions, db.tasks, db.logs)

theorem trimmed_eq (text : Option String) :
    trimmed text = if btrim (orEmpty text) = "" then none else some (btrim (orEmpty text)) := by
  cases text with
  | none => decide
  | some t => rfl

/-- Run alone, the statements are `fn_continue_session`. -/
theorem continueSession_alone (s : Site) (now : Time) (id sessionId : Uuid) (text : Option String)
    (hnew : s.db.task? s.db.nextId = none) :
    (turnCode.alone 6 (.continueSession id ⟨text, now, sessionId, s.db.nextId⟩) s).map
        (turnTables ·.db) =
      (fnContinueSession now s.db id text).toOption.map (turnTables ·.1) := by
  unfold fnContinueSession
  have htext := trimmed_eq text
  by_cases hempty : btrim (orEmpty text) = ""
  · rw [if_pos hempty] at htext
    simp [Code.alone, turnCode, TurnLoc.final, TurnLoc.exec, htext, hempty, Raise.raiseIf, Except.toOption,
      bind, Except.bind]
  · rw [if_neg hempty] at htext
    cases hrow : s.db.session? id with
    | none =>
      simp [Code.alone, turnCode, TurnLoc.final, TurnLoc.exec, htext, hempty, hrow, Raise.raiseIf,
        Except.toOption, bind, Except.bind]
    | some row =>
      have hid : row.sessionId = id := by simpa using List.find?_some hrow
      subst hid
      by_cases hagent : s.db.cfg.agentActive row.agentId = true
      · by_cases hturn : TurnLoc.inProgress s row.sessionId = true
        · have hturn' := hturn
          unfold TurnLoc.inProgress at hturn'
          simp only [Code.alone, turnCode, TurnLoc.final, TurnLoc.exec, htext, hempty, hrow, hagent, hturn,
            hturn', Raise.raiseIf, Except.toOption, bind, Except.bind, Option.map_some, if_false, if_true,
            reduceCtorEq, Bool.false_eq_true, Option.map_none, Bool.true_eq_false]
        · have hturn' := hturn
          unfold TurnLoc.inProgress at hturn'
          have hnew' : (TurnLoc.onDb (TurnLoc.reopened row.sessionId) s).db.task? s.db.nextId = none := hnew
          simp only [Code.alone, turnCode, TurnLoc.final, TurnLoc.exec, htext, hempty, hrow, hagent, hturn,
            hturn', hnew', Raise.raiseIf, Except.toOption, bind, Except.bind, pure, Except.pure,
            Option.map_some, if_false, if_true, reduceCtorEq, Bool.false_eq_true, Option.isSome_none,
            Bool.true_eq_false]
          simp only [TurnLoc.onDb, TurnLoc.addTurn, TurnLoc.newTurn, htext]
          rfl
      · simp [Code.alone, turnCode, TurnLoc.final, TurnLoc.exec, htext, hempty, hrow, hagent, Raise.raiseIf,
          Except.toOption, bind, Except.bind]

def isTurn (sessionId : Uuid) (t : Task) : Bool :=
  t.sessionId = sessionId ∧ t.parentTaskId = none ∧ unfinished t

def taskAt (s : Site) (id : Uuid) : Option Task :=
  s.db.task? id

/-- A task is a turn of a session that is still in progress. -/
def OpenTurn (s : Site) (sessionId id : Uuid) : Prop :=
  (taskAt s id).any (isTurn sessionId) = true

def taskIds (s : Site) : List Uuid :=
  s.db.tasks.map (·.taskId)

def sessionIds (s : Site) : List Uuid :=
  s.db.sessions.map (·.sessionId)

structure Alternating (s : Site) : Prop where
  ids : (taskIds s).Nodup
  known : ∀ {sessionId id}, OpenTurn s sessionId id → sessionId ∈ sessionIds s
  single : ∀ {sessionId id id'}, OpenTurn s sessionId id → OpenTurn s sessionId id' → id = id'

/-- The session in which no turn was found, its row not yet locked. -/
def TurnLoc.checked : TurnLoc → Option Uuid
  | reopen row _ => some row.sessionId
  | _ => none

/-- A transaction adds no turn to the session that the other has checked and not locked. -/
def Unanswered (s : Site) (t u : Txn Site TurnLoc) : Prop :=
  ∀ sessionId, u.loc.checked = some sessionId →
    ∀ id, OpenTurn (t.write s) sessionId id → OpenTurn s sessionId id

section Turns

variable {s s' : Site} {H I : TurnLock → Prop} {t u : Txn Site TurnLoc} {sessionId id : Uuid}

theorem OpenTurn.of_same (h : OpenTurn s sessionId id) (hid : taskAt s' id = taskAt s id) :
    OpenTurn s' sessionId id := by
  unfold OpenTurn at h ⊢
  rwa [hid]

/-- What a transaction has written under its locks. -/
structure TurnWrites (H : TurnLock → Prop) (w : Site → Site) : Prop where
  rows : Local taskAt (fun id => H (.task id)) w
  tasks : ∃ new : List Uuid, (∀ s, taskIds (w s) = taskIds s ++ new) ∧ ∀ id ∈ new, H (.task id)
  sessions : ∃ new : List Uuid, ∀ s, sessionIds (w s) = sessionIds s ++ new

theorem turnWrites_of_same {w : Site → Site} (ht : ∀ s, (w s).db.tasks = s.db.tasks)
    (hs : ∀ s, sessionIds (w s) = sessionIds s) : TurnWrites H w where
  rows := local_of_same fun s id => by simp only [taskAt, Db.task?, ht]
  tasks := ⟨[], fun s => by simp only [taskIds, ht, List.append_nil], by simp⟩
  sessions := ⟨[], fun s => by simp only [hs, List.append_nil]⟩

theorem TurnWrites.weaken {w : Site → Site} (hw : TurnWrites H w) (h : ∀ k, H k → I k) :
    TurnWrites I w := by
  obtain ⟨new, hnew, hlocked⟩ := hw.tasks
  exact ⟨hw.rows.weaken fun _ => h _, ⟨new, hnew, fun id hid => h _ (hlocked id hid)⟩, hw.sessions⟩

theorem TurnWrites.comp {v w : Site → Site} (hw : TurnWrites H w) (hv : TurnWrites H v) :
    TurnWrites H fun s => w (v s) := by
  obtain ⟨new, hnew, hlocked⟩ := hv.tasks
  obtain ⟨more, hmore, hlocked'⟩ := hw.tasks
  obtain ⟨rows, hrows⟩ := hv.sessions
  obtain ⟨rows', hrows'⟩ := hw.sessions
  refine ⟨hw.rows.comp hv.rows, ⟨new ++ more, fun s => by rw [hmore, hnew, List.append_assoc],
    fun id hid => ?_⟩, rows ++ rows', fun s => by rw [hrows', hrows, List.append_assoc]⟩
  rcases List.mem_append.mp hid with hid | hid
  · exact hlocked id hid
  · exact hlocked' id hid

theorem TurnWrites.known {w : Site → Site} (hw : TurnWrites H w) (h : sessionId ∈ sessionIds s) :
    sessionId ∈ sessionIds (w s) := by
  obtain ⟨new, hnew⟩ := hw.sessions
  rw [hnew]
  exact List.mem_append_left _ h

/-- What is known of the session at a place. -/
def TurnLoc.Knows (loc : TurnLoc) (H : TurnLock → Prop) (view : Site) : Prop :=
  match loc with
  | checkAgent row _ => row.sessionId ∈ sessionIds view
  | checkTurn row _ => row.sessionId ∈ sessionIds view
  | reopen row _ => row.sessionId ∈ sessionIds view ∧ ∀ id, ¬ OpenTurn view row.sessionId id
  | insertTurn row _ => row.sessionId ∈ sessionIds view ∧ (∀ id, ¬ OpenTurn view row.sessionId id) ∧
      H (.session row.sessionId)
  | _ => True

structure Conversing (s : Site) (H : TurnLock → Prop) (t : Txn Site TurnLoc) : Prop where
  writes : TurnWrites H t.write
  adds : ∀ {sessionId id}, OpenTurn (t.write s) sessionId id →
    OpenTurn s sessionId id ∨ H (.session sessionId)
  alternating : Alternating (t.write s)
  knows : t.loc.Knows H (t.write s)

/-- A turn after the commit of another is one of those before it, if that one adds none. -/
theorem Conversing.turn_apart (ht : Conversing s H t) (hu : Conversing s I u)
    (hd : ∀ k, H k → ¬ I k) (hadd : OpenTurn (t.write s) sessionId id → OpenTurn s sessionId id)
    (h : OpenTurn (u.write (t.write s)) sessionId id) : OpenTurn (u.write s) sessionId id := by
  by_cases hi : I (.task id)
  · have hsame : taskAt (t.write s) id = taskAt s id := ht.writes.rows.same fun hh => hd _ hh hi
    exact h.of_same (hu.writes.rows.congr hsame).symm
  · have hnew : OpenTurn (t.write s) sessionId id := h.of_same (hu.writes.rows.same hi).symm
    exact (hadd hnew).of_same (hu.writes.rows.same hi)

theorem Conversing.adds_apart (ht : Conversing s H t) (hu : Conversing s I u)
    (hd : ∀ k, H k → ¬ I k) (h : OpenTurn (u.write (t.write s)) sessionId id) :
    OpenTurn (t.write s) sessionId id ∨ I (.session sessionId) := by
  by_cases hi : I (.task id)
  · have hsame : taskAt (t.write s) id = taskAt s id := ht.writes.rows.same fun hh => hd _ hh hi
    have hold : OpenTurn (u.write s) sessionId id := h.of_same (hu.writes.rows.congr hsame).symm
    rcases hu.adds hold with hold | hlock
    · exact .inl (hold.of_same hsame)
    · exact .inr hlock
  · exact .inl (h.of_same (hu.writes.rows.same hi).symm)

theorem Conversing.adds_locked (ht : Conversing s H t) (hn : ¬ H (.session sessionId))
    (h : OpenTurn (t.write s) sessionId id) : OpenTurn s sessionId id := by
  rcases ht.adds h with h | hh
  · exact h
  · exact absurd hh hn

theorem Conversing.alternating_apart (ht : Conversing s H t) (hu : Conversing s I u)
    (hd : ∀ k, H k → ¬ I k) : Alternating (u.write (t.write s)) := by
  obtain ⟨new, hnew, hlocked⟩ := ht.writes.tasks
  obtain ⟨more, hmore, hlocked'⟩ := hu.writes.tasks
  obtain ⟨rows, hrows⟩ := ht.writes.sessions
  obtain ⟨rows', hrows'⟩ := hu.writes.sessions
  refine ⟨?_, fun {sid id} h => ?_, fun {sid id id'} h h' => ?_⟩
  · have htn := ht.alternating.ids
    have hun := hu.alternating.ids
    rw [hnew] at htn
    rw [hmore, List.nodup_append] at hun
    rw [hmore, hnew, List.nodup_append]
    refine ⟨htn, hun.2.1, fun a ha b hb hab => ?_⟩
    subst hab
    rcases List.mem_append.mp ha with ha | ha
    · exact hun.2.2 a ha a hb rfl
    · exact hd _ (hlocked a ha) (hlocked' a hb)
  · by_cases hi : I (.session sid)
    · have hold := ht.turn_apart hu hd (ht.adds_locked fun hh => hd _ hh hi) h
      have hknown := hu.alternating.known hold
      rw [hrows', List.mem_append] at hknown
      rcases hknown with hknown | hknown
      · exact hu.writes.known (ht.writes.known hknown)
      · rw [hrows']
        exact List.mem_append_right _ hknown
    · rcases ht.adds_apart hu hd h with h | hlock
      · exact hu.writes.known (ht.alternating.known h)
      · exact absurd hlock hi
  · by_cases hi : I (.session sid)
    · have hadd : ∀ {id}, OpenTurn (t.write s) sid id → OpenTurn s sid id :=
        ht.adds_locked fun hh => hd _ hh hi
      exact hu.alternating.single (ht.turn_apart hu hd hadd h) (ht.turn_apart hu hd hadd h')
    · have hadd : ∀ {id}, OpenTurn (u.write (t.write s)) sid id → OpenTurn (t.write s) sid id := by
        intro id h
        rcases ht.adds_apart hu hd h with h | hlock
        · exact h
        · exact absurd hlock hi
      exact ht.alternating.single (hadd h) (hadd h')

theorem TurnWrites.known_apart {v w : Site → Site} (hv : TurnWrites H v) (hw : TurnWrites I w)
    (h : sessionId ∈ sessionIds (w s)) : sessionId ∈ sessionIds (w (v s)) := by
  obtain ⟨new, hnew⟩ := hw.sessions
  rw [hnew, List.mem_append] at h ⊢
  exact h.imp_left hv.known

theorem Conversing.apart (ht : Conversing s H t) (hu : Conversing s I u) (hd : ∀ k, H k → ¬ I k)
    (hq : Unanswered s t u) : Conversing (t.write s) I u := by
  refine ⟨hu.writes, ht.adds_apart hu hd, ht.alternating_apart hu hd, ?_⟩
  have hknown : ∀ {sid}, sid ∈ sessionIds (u.write s) → sid ∈ sessionIds (u.write (t.write s)) :=
    ht.writes.known_apart hu.writes
  obtain ⟨uloc, uwrite⟩ := u
  cases uloc with
  | checkAgent row m => exact hknown hu.knows
  | checkTurn row m => exact hknown hu.knows
  | reopen row m =>
    obtain ⟨hrow, hnone⟩ := hu.knows
    exact ⟨hknown hrow, fun id h => hnone id (ht.turn_apart hu hd (hq _ rfl id) h)⟩
  | insertTurn row m =>
    obtain ⟨hrow, hnone, hlock⟩ := hu.knows
    refine ⟨hknown hrow, fun id h => hnone id ?_, hlock⟩
    exact ht.turn_apart hu hd (ht.adds_locked fun hh => hd _ hh hlock) h
  | _ => trivial

theorem Conversing.exec_write (h : Conversing s H t) {w : Site → Site} {loc : TurnLoc}
    (hw : TurnWrites I w) (hH : ∀ k, H k → I k)
    (hadds : ∀ {sid id}, OpenTurn (w (t.write s)) sid id → OpenTurn (t.write s) sid id ∨ I (.session sid))
    (halt : Alternating (w (t.write s))) (hk : loc.Knows I (w (t.write s))) :
    Conversing s I ⟨loc, fun s => w (t.write s)⟩ := by
  refine ⟨hw.comp (h.writes.weaken hH), fun hturn => ?_, halt, hk⟩
  rcases hadds hturn with hturn | hlock
  · exact (h.adds hturn).imp_right (hH _)
  · exact .inr hlock

theorem OpenTurn.of_tasks (ht : s'.db.tasks = s.db.tasks) (h : OpenTurn s' sessionId id) :
    OpenTurn s sessionId id :=
  h.of_same (by simp only [taskAt, Db.task?, ht])

theorem Alternating.of_tasks (h : Alternating s) (ht : s'.db.tasks = s.db.tasks)
    (hs : ∀ {sid}, sid ∈ sessionIds s → sid ∈ sessionIds s') : Alternating s' where
  ids := by
    have := h.ids
    simpa only [taskIds, ht] using this
  known hturn := hs (h.known (hturn.of_tasks ht))
  single hturn hturn' := h.single (hturn.of_tasks ht) (hturn'.of_tasks ht)

/-- A statement that leaves the tasks and the sessions alone. -/
theorem Conversing.pass (h : Conversing s H t) {w : Site → Site} {loc : TurnLoc} {ks : List TurnLock}
    (ht : ∀ s, (w s).db.tasks = s.db.tasks) (hs : ∀ s, sessionIds (w s) = sessionIds s)
    (hk : loc.Knows (fun k => k ∈ ks ∨ H k) (w (t.write s))) :
    Conversing s (fun k => k ∈ ks ∨ H k) ⟨loc, fun s => w (t.write s)⟩ := by
  refine h.exec_write (turnWrites_of_same ht hs) (fun _ => .inr) (fun hturn => .inl ?_) ?_ hk
  · exact hturn.of_tasks (ht _)
  · exact h.alternating.of_tasks (ht _) fun hsid => by rwa [hs]

theorem taskAt_addTurn (row : Task) (m : Message) (s : Site) (id : Uuid) :
    taskAt (TurnLoc.onDb (TurnLoc.addTurn row m) s) id =
      if id = row.taskId then (taskAt s id).or (some row) else taskAt s id := by
  have happ : taskAt (TurnLoc.onDb (TurnLoc.addTurn row m) s) id =
      (s.db.tasks ++ [row]).find? (·.taskId = id) := rfl
  rw [happ, List.find?_append]
  by_cases hid : id = row.taskId
  · simp [hid, taskAt, Db.task?]
  · have hne : ¬ row.taskId = id := fun h => hid h.symm
    simp [hid, hne, taskAt, Db.task?]

theorem turnWrites_addTurn {row : Task} {m : Message} (hk : H (.task row.taskId)) :
    TurnWrites H (TurnLoc.onDb (TurnLoc.addTurn row m)) where
  rows := local_at (a := row.taskId) (g := fun x => x.or (some row)) hk (taskAt_addTurn row m)
  tasks := by
    refine ⟨[row.taskId], fun s => ?_, by simpa using hk⟩
    exact List.map_append
  sessions := ⟨[], fun s => (List.append_nil _).symm⟩

theorem OpenTurn.of_addTurn {row : Task} {m : Message} (hnew : taskAt s row.taskId = none)
    (h : OpenTurn (TurnLoc.onDb (TurnLoc.addTurn row m) s) sessionId id) :
    OpenTurn s sessionId id ∨ (id = row.taskId ∧ sessionId = row.sessionId) := by
  have hid := taskAt_addTurn row m s id
  by_cases hrow : id = row.taskId
  · rw [if_pos hrow, hrow, hnew] at hid
    unfold OpenTurn at h
    rw [hrow, hid] at h
    have hturn : row.sessionId = sessionId ∧ row.parentTaskId = none ∧ unfinished row = true := by
      simpa [isTurn] using h
    exact .inr ⟨hrow, hturn.1.symm⟩
  · rw [if_neg hrow] at hid
    exact .inl (h.of_same hid.symm)

theorem not_mem_taskIds (h : taskAt s id = none) : id ∉ taskIds s := by
  intro hmem
  obtain ⟨row, hrow, hid⟩ := List.mem_map.mp hmem
  have := List.find?_eq_none.mp h row hrow
  simp [hid] at this

theorem Alternating.addTurn (h : Alternating s) {row : Task} (m : Message)
    (hnew : taskAt s row.taskId = none) (hknown : row.sessionId ∈ sessionIds s)
    (hnone : ∀ id, ¬ OpenTurn s row.sessionId id) :
    Alternating (TurnLoc.onDb (TurnLoc.addTurn row m) s) where
  ids := by
    have hids : taskIds (TurnLoc.onDb (TurnLoc.addTurn row m) s) = taskIds s ++ [row.taskId] :=
      List.map_append
    rw [hids, List.nodup_append]
    refine ⟨h.ids, List.nodup_singleton _, fun a ha b hb hab => ?_⟩
    rw [hab, List.mem_singleton.mp hb] at ha
    exact not_mem_taskIds hnew ha
  known hturn := by
    rcases hturn.of_addTurn hnew with hturn | ⟨-, hsid⟩
    · exact h.known hturn
    · rw [hsid]
      exact hknown
  single hturn hturn' := by
    rcases hturn.of_addTurn hnew with hturn | ⟨hid, hsid⟩ <;>
      rcases hturn'.of_addTurn hnew with hturn' | ⟨hid', hsid'⟩
    · exact h.single hturn hturn'
    · exact absurd (hsid' ▸ hturn) (hnone _)
    · exact absurd (hsid ▸ hturn') (hnone _)
    · rw [hid, hid']

theorem Conversing.exec_addTurn (h : Conversing s H t) {row : Task} {m : Message}
    (hH : ∀ k, H k → I k) (hnew : taskAt (t.write s) row.taskId = none)
    (hknown : row.sessionId ∈ sessionIds (t.write s))
    (hnone : ∀ id, ¬ OpenTurn (t.write s) row.sessionId id)
    (htask : I (.task row.taskId)) (hsession : I (.session row.sessionId)) :
    Conversing s I ⟨.done, fun s => TurnLoc.onDb (TurnLoc.addTurn row m) (t.write s)⟩ := by
  refine h.exec_write (turnWrites_addTurn htask) hH (fun hturn => ?_)
    (h.alternating.addTurn m hnew hknown hnone) trivial
  rcases hturn.of_addTurn hnew with hturn | ⟨-, hsid⟩
  · exact .inl hturn
  · rw [hsid]
    exact .inr hsession

theorem Conversing.at_loc (h : Conversing s H t) {loc : TurnLoc} (hk : loc.Knows H (t.write s)) :
    Conversing s H ⟨loc, t.write⟩ :=
  ⟨h.writes, h.adds, h.alternating, hk⟩

theorem taskAt_move (id' : Uuid) (status : TaskStatus) (s : Site) (id : Uuid) :
    taskAt (TurnLoc.onDb (·.updateTask id' (TurnLoc.moved status)) s) id =
      if id = id' then (taskAt s id).map (TurnLoc.moved status) else taskAt s id := by
  have hfind : taskAt (TurnLoc.onDb (·.updateTask id' (TurnLoc.moved status)) s) id =
      (taskAt s id).map fun t => if id = id' then TurnLoc.moved status t else t :=
    find_update Task.taskId (f := TurnLoc.moved status) (fun _ => rfl) id' id s.db.tasks
  rw [hfind]
  by_cases hid : id = id'
  · simp [hid]
  · simp [hid]

theorem turnWrites_move {status : TaskStatus} (hk : H (.task id)) :
    TurnWrites H (TurnLoc.onDb (·.updateTask id (TurnLoc.moved status))) where
  rows := local_at (a := id) hk (taskAt_move id status)
  tasks := by
    refine ⟨[], fun s => ?_, by simp⟩
    rw [List.append_nil]
    exact map_update (f := TurnLoc.moved status) (g := Task.taskId) (fun _ => rfl) s.db.tasks
  sessions := ⟨[], fun s => (List.append_nil _).symm⟩

theorem OpenTurn.of_move {id' : Uuid} {status : TaskStatus} (hopen : TurnLoc.movable s id' = true)
    (h : OpenTurn (TurnLoc.onDb (·.updateTask id' (TurnLoc.moved status)) s) sessionId id) :
    OpenTurn s sessionId id := by
  have hid := taskAt_move id' status s id
  by_cases hrow : id = id'
  · rw [if_pos hrow] at hid
    unfold OpenTurn at h ⊢
    subst hrow
    rw [hid] at h
    unfold TurnLoc.movable at hopen
    have htask : taskAt s id = s.db.task? id := rfl
    cases hrow : s.db.task? id with
    | none => simp [hrow] at hopen
    | some row =>
      have hun : unfinished row = true := by simpa [hrow] using hopen
      rw [htask, hrow] at h ⊢
      have hturn : row.sessionId = sessionId ∧ row.parentTaskId = none ∧
          unfinished (TurnLoc.moved status row) = true := by simpa [isTurn, TurnLoc.moved] using h
      simp [isTurn, hturn.1, hturn.2.1, hun]
  · rw [if_neg hrow] at hid
    exact h.of_same hid.symm

theorem Alternating.move (h : Alternating s) {status : TaskStatus}
    (hopen : TurnLoc.movable s id = true) :
    Alternating (TurnLoc.onDb (·.updateTask id (TurnLoc.moved status)) s) where
  ids := by
    have hids : taskIds (TurnLoc.onDb (·.updateTask id (TurnLoc.moved status)) s) = taskIds s :=
      map_update (f := TurnLoc.moved status) (g := Task.taskId) (fun _ => rfl) s.db.tasks
    rw [hids]
    exact h.ids
  known hturn := h.known (hturn.of_move hopen)
  single hturn hturn' := h.single (hturn.of_move hopen) (hturn'.of_move hopen)

theorem sessionIds_reopened (id : Uuid) (s : Site) :
    sessionIds (TurnLoc.onDb (TurnLoc.reopened id) s) = sessionIds s := by
  unfold TurnLoc.onDb TurnLoc.reopened Db.updateSession sessionIds
  apply map_update
  intro row
  rfl

theorem sessionId_mem {row : Session} (h : s.db.session? id = some row) :
    row.sessionId ∈ sessionIds s :=
  List.mem_map_of_mem (List.mem_of_find?_eq_some h)

theorem no_turn (h : TurnLoc.inProgress s sessionId = false) (id : Uuid) :
    ¬ OpenTurn s sessionId id := by
  intro hturn
  unfold OpenTurn at hturn
  rw [Option.any_eq_true] at hturn
  obtain ⟨row, hrow, hturn⟩ := hturn
  unfold TurnLoc.inProgress at h
  have hnot := List.any_eq_false.mp h row (List.mem_of_find?_eq_some hrow)
  exact hnot hturn

/-- The session that a message begins is new, so none of its turns is. -/
theorem Conversing.exec_addSession (h : Conversing s H t) {row : Session} {turn : Task} {m : Message}
    {loc : TurnLoc} (hH : ∀ k, H k → I k) (hnew : (t.write s).db.session? row.sessionId = none)
    (hturn : taskAt (t.write s) turn.taskId = none) (hsid : turn.sessionId = row.sessionId)
    (htask : I (.task turn.taskId)) (hsession : I (.session row.sessionId))
    (hk : ∀ view, loc.Knows I view) :
    Conversing s I ⟨loc, fun s => TurnLoc.onDb (TurnLoc.addSession row turn m) (t.write s)⟩ := by
  have hnone : ∀ id, ¬ OpenTurn (t.write s) row.sessionId id := by
    intro id ho
    obtain ⟨row', hrow', hid⟩ := List.mem_map.mp (h.alternating.known ho)
    have := List.find?_eq_none.mp hnew row' hrow'
    simp [hid] at this
  let begin : Site → Site := TurnLoc.onDb fun db => { db with sessions := db.sessions ++ [row] }
  have hbegin : Conversing s I ⟨.done, fun s => begin (t.write s)⟩ := by
    have hw : TurnWrites I begin := by
      refine ⟨local_of_same fun _ _ => rfl, ⟨[], fun _ => (List.append_nil _).symm, by simp⟩,
        [row.sessionId], fun s => List.map_append⟩
    refine h.exec_write hw hH .inl (h.alternating.of_tasks rfl hw.known) trivial
  have hmem : turn.sessionId ∈ sessionIds (begin (t.write s)) := by
    have hids : sessionIds (begin (t.write s)) = sessionIds (t.write s) ++ [row.sessionId] :=
      List.map_append
    rw [hids, hsid]
    exact List.mem_append_right _ (List.mem_singleton_self _)
  have hadded := hbegin.exec_addTurn (I := I) (m := m) (fun _ hk => hk) hturn hmem
    (by rw [hsid]; exact hnone) htask (by rw [hsid]; exact hsession)
  exact hadded.at_loc (hk _)

theorem Conversing.exec (h : Conversing s H t) {loc : TurnLoc} {w : Site → Site}
    (he : t.loc.exec (t.write s) = some (loc, w)) :
    Conversing s (fun k => k ∈ t.loc.locks (t.write s) ∨ H k) ⟨loc, fun s => w (t.write s)⟩ := by
  obtain ⟨tloc, twrite⟩ := t
  have hsame : ∀ s : Site, sessionIds s = sessionIds s := fun _ => rfl
  cases tloc with
  | continueSession id m =>
    dsimp only [TurnLoc.exec] at he
    split_ifs at he
    obtain ⟨row, hrow, hpair⟩ := Option.map_eq_some_iff.mp he
    cases hpair
    exact h.pass (fun _ => rfl) hsame (sessionId_mem hrow)
  | checkAgent row m =>
    dsimp only [TurnLoc.exec] at he
    split_ifs at he
    cases he
    exact h.pass (fun _ => rfl) hsame h.knows
  | checkTurn row m =>
    dsimp only [TurnLoc.exec] at he
    split_ifs at he with hturn
    cases he
    exact h.pass (fun _ => rfl) hsame ⟨h.knows, no_turn (by simpa using hturn)⟩
  | reopen row m =>
    cases he
    obtain ⟨hrow, hnone⟩ := h.knows
    have hids : ∀ s, sessionIds (TurnLoc.onDb (TurnLoc.reopened row.sessionId) s) = sessionIds s :=
      fun s => sessionIds_reopened row.sessionId s
    refine h.pass (fun _ => rfl) hids ⟨?_, fun id ho => hnone id (ho.of_tasks rfl), .inl ?_⟩
    · rw [hids]
      exact hrow
    · exact List.mem_singleton_self _
  | insertTurn row m =>
    dsimp only [TurnLoc.exec] at he
    split_ifs at he with hused
    cases he
    obtain ⟨hrow, hnone, hlock⟩ := h.knows
    have hnew : taskAt (twrite s) m.taskId = none := by simpa [taskAt] using hused
    exact h.exec_addTurn (fun _ => .inr) hnew hrow hnone (.inl (List.mem_singleton_self _)) (.inr hlock)
  | chatSend token agentId m =>
    dsimp only [TurnLoc.exec] at he
    split at he
    · cases he
      exact h.pass (w := fun s => touch m.now s token) (fun _ => rfl) (fun _ => rfl) trivial
    · cases he
  | projectChatSend token projectId m =>
    dsimp only [TurnLoc.exec] at he
    split at he
    · cases he
      exact h.pass (w := fun s => touch m.now s token) (fun _ => rfl) (fun _ => rfl) trivial
    · cases he
  | findChat u target m =>
    dsimp only [TurnLoc.exec] at he
    split_ifs at he
    split at he <;> cases he <;> exact h.pass (fun _ => rfl) hsame trivial
  | openSession u target m =>
    dsimp only [TurnLoc.exec] at he
    split_ifs at he with hbad
    cases he
    simp only [Bool.or_eq_true, not_or, Bool.not_eq_true] at hbad
    obtain ⟨⟨-, hsession⟩, htask⟩ := hbad
    have hnew : (twrite s).db.session? m.sessionId = none := by simpa using hsession
    have hturn : taskAt (twrite s) m.taskId = none := by simpa [taskAt] using htask
    exact h.exec_addSession (fun _ => .inr) hnew hturn rfl (.inl (by simp [TurnLoc.locks, TurnLoc.newTurn]))
      (.inl (by simp [TurnLoc.locks, TurnLoc.newSession])) fun _ => trivial
  | mapChat u target m =>
    dsimp only [TurnLoc.exec] at he
    split_ifs at he
    cases he
    let map : Site → Site := fun s => { s with chats := s.chats ++ [⟨u.userId, target.place, m.sessionId⟩] }
    exact h.pass (w := map) (fun _ => rfl) (fun _ => rfl) trivial
  | postMessage row =>
    cases he
    let post : Site → Site := fun s => { s with channelMessages := s.channelMessages ++ [row] }
    exact h.pass (w := post) (fun _ => rfl) (fun _ => rfl) trivial
  | moveTask id status =>
    dsimp only [TurnLoc.exec] at he
    split_ifs at he with hmove
    · cases he
      refine h.exec_write (turnWrites_move (.inl ?_)) (fun _ => .inr) (fun ho => .inl (ho.of_move hmove))
        (h.alternating.move hmove) trivial
      simp [TurnLoc.locks, hmove]
    · cases he
      exact h.pass (fun _ => rfl) hsame trivial
  | done => cases he

theorem knows_call {loc : TurnLoc} (h : loc.entry = true) (view : Site) : loc.Knows H view := by
  cases loc with
  | checkAgent row m => cases h
  | checkTurn row m => cases h
  | reopen row m => cases h
  | insertTurn row m => cases h
  | _ => trivial

theorem turn_outline : Outline turnCode Unanswered Alternating Conversing where
  fresh hd _ hloc :=
    ⟨turnWrites_of_same (fun _ => rfl) fun _ => rfl, .inl, hd, knows_call hloc _⟩
  again _ ht _ hloc := ht.at_loc (knows_call hloc _)
  exec _ ht _ he := ht.exec he
  commit _ ht _ := ht.alternating
  apart hq _ ht hu _ hd := ht.apart hu hd hq

end Turns

theorem openTurn_of_mem {s : Site} {sessionId : Uuid} {t : Task} (h : (taskIds s).Nodup)
    (ht : t ∈ s.db.tasks) (hturn : isTurn sessionId t = true) : OpenTurn s sessionId t.taskId := by
  have hfind : taskAt s t.taskId = some t := find_key Task.taskId h ht
  unfold OpenTurn
  rw [hfind]
  exact hturn

theorem Alternating.length_le_one {s : Site} (h : Alternating s) (sessionId : Uuid) :
    (s.db.tasks.filter (isTurn sessionId)).length ≤ 1 := by
  have hids : ((s.db.tasks.filter (isTurn sessionId)).map (·.taskId)).Nodup :=
    h.ids.sublist (List.filter_sublist.map _)
  match hturns : s.db.tasks.filter (isTurn sessionId) with
  | [] => simp
  | [_] => simp
  | t :: t' :: rest =>
    have hmem : ∀ x ∈ [t, t'], OpenTurn s sessionId x.taskId := by
      intro x hx
      have hx' : x ∈ s.db.tasks.filter (isTurn sessionId) := by
        rw [hturns]
        exact List.mem_of_mem_take (i := 2) hx
      exact openTurn_of_mem h.ids (List.mem_of_mem_filter hx') (List.of_mem_filter hx')
    have heq := h.single (hmem t (by simp)) (hmem t' (by simp))
    rw [hturns] at hids
    simp [heq] at hids

/-- In every interleaving in which no message to a session is committed between the check and
the lock of another, a session has at most one turn in progress. -/
theorem one_turn_at_a_time (s : Site) (hs : Alternating s) (es : List (Event TurnLoc))
    (hc : Along (step turnCode) (Spares turnCode Unanswered) { db := s } es) (sessionId : Uuid) :
    ((run (step turnCode) { db := s } es).db.db.tasks.filter (isTurn sessionId)).length ≤ 1 := by
  have hok : Ok Alternating Conversing (run (step turnCode) { db := s } es) := turn_outline.run hs hc
  exact hok.db.length_le_one sessionId

/-- A session that waits for its next message. -/
def quietSession : Site where
  db :=
    { cfg := { agents := [{ agentId := 1, name := "helper" }] }
      sessions := [{ sessionId := 5, agentId := 1, goal := "plan" }] }

def nextMessage (i : Nat) (taskId : Uuid) : Event TurnLoc :=
  .call i (.continueSession 5 ⟨some "and then?", 1, 0, taskId⟩)

/-- The second message is sent before the first is committed. -/
def messageDuringMessage : List (Event TurnLoc) :=
  [nextMessage 0 10, .exec 0, .exec 0, .exec 0, nextMessage 1 11, .exec 1, .exec 0, .exec 0,
    .exec 1, .commit 0, .exec 1, .commit 1]

theorem alternating_quiet : Alternating quietSession := by
  have hnone : ∀ {sid id}, ¬ OpenTurn quietSession sid id := by
    intro sid id h
    cases h
  exact ⟨by decide, fun h => absurd h hnone, fun h => absurd h hnone⟩

theorem second_message_refused :
    ((run (step turnCode) { db := quietSession } messageDuringMessage).db.db.tasks.filter
      (isTurn 5)).length ≤ 1 ∧
    (run (step turnCode) { db := quietSession } messageDuringMessage).db.db.tasks.map (·.taskId) = [10] ∧
    ((run (step turnCode) { db := quietSession } messageDuringMessage).live 1).isNone = true := by
  -- when the first commits, the second has found the agent and has not looked for a turn
  have hfirst : Spares turnCode Unanswered
      (run (step turnCode) { db := quietSession } (messageDuringMessage.take 9)) (.commit 0) := by
    refine spares_beside (j := 1) (P := fun u => u.loc.checked = none) (by decide +kernel)
      (fun k hk hk' => live_run_lt (n := 1) (by decide) (by omega)) fun t u _ hplace sessionId hid => ?_
    rw [of_decide_eq_true hplace] at hid
    cases hid
  have halong : Along (step turnCode) (Spares turnCode Unanswered) { db := quietSession }
      messageDuringMessage :=
    ⟨trivial, trivial, trivial, trivial, trivial, trivial, trivial, trivial, trivial, hfirst, trivial,
      spares_gone (by decide +kernel), trivial⟩
  exact ⟨one_turn_at_a_time quietSession alternating_quiet messageDuringMessage halong 5,
    by decide +kernel, by decide +kernel⟩

/-- Both messages looked for a turn before either was committed. -/
theorem two_turns_in_progress :
    ¬ ∀ (s : Site), Alternating s → ∀ (es : List (Event TurnLoc)) (sessionId : Uuid),
      ((run (step turnCode) { db := s } es).db.db.tasks.filter (isTurn sessionId)).length ≤ 1 := by
  intro h
  have hrun := h quietSession alternating_quiet [nextMessage 1 11, .exec 1, .exec 1, .exec 1,
    nextMessage 0 10, .exec 0, .exec 0, .exec 0, .exec 0, .exec 0, .commit 0, .exec 1, .exec 1, .commit 1] 5
  exact absurd hrun (by decide +kernel)

end Allgres
