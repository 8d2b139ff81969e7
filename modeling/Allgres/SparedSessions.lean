import Allgres.Isolation
import Allgres.SessionStates

/-! What a user's requests do to the conversations of others: within the sessions mapped to the
user they neither read nor write any other. -/

namespace Allgres

open Raise Rows

/-- The sessions other than these and their tasks are left as they are. -/
structure SparesOthers (K : Uuid → Bool) (s s' : Site) : Prop where
  sessions : ∀ row ∈ s.db.sessions, K row.sessionId = false → row ∈ s'.db.sessions
  tasks : ∀ t ∈ s.db.tasks, K t.sessionId = false → t ∈ s'.db.tasks

theorem SparesOthers.trans {K : Uuid → Bool} {s s' s'' : Site} (h : SparesOthers K s s')
    (h' : SparesOthers K s' s'') : SparesOthers K s s'' where
  sessions := fun row hrow hk => h'.sessions row (h.sessions row hrow hk) hk
  tasks := fun t ht hk => h'.tasks t (h.tasks t ht hk) hk

theorem SparesOthers.same {K : Uuid → Bool} {s s' : Site} (hsessions : s'.db.sessions = s.db.sessions)
    (htasks : s'.db.tasks = s.db.tasks) : SparesOthers K s s' where
  sessions := fun _ hrow _ => hsessions.symm ▸ hrow
  tasks := fun _ ht _ => htasks.symm ▸ ht

theorem ne_of_outside {K : Uuid → Bool} {i j : Uuid} (hi : K i = false) (hj : K j = true) : i ≠ j := by
  rintro rfl
  rw [hi] at hj
  exact Bool.false_ne_true hj

namespace Site

def start (s : Site) (sessionId agentId : Uuid) (goal : String) (now : Time) : Site :=
  { s with db := s.db.startTask sessionId agentId goal now }

/-- A new session that is a chat of the user. -/
def openChat (s : Site) (userId : Uuid) (place : ChatPlace) (row : Session) : Site :=
  { s with
    db := s.db.insertSession row
    chats := s.chats ++ [⟨userId, place, s.db.nextId⟩] }

def onSession (s : Site) (id : Uuid) (f : Session → Session) : Site :=
  { s with db := s.db.updateSession id f }

end Site

theorem filter_append_of_eq {α : Type} {q : α → Bool} {l l' : List α} (h : l'.filter q = l.filter q)
    (x : α) : (l' ++ [x]).filter q = (l ++ [x]).filter q := by
  rw [List.filter_append, List.filter_append, h]

theorem filter_eq_of_congr {α : Type} {p q : α → Bool} {l l' : List α} (h : l'.filter q = l.filter q)
    (hl : ∀ x ∈ l, p x = q x) (hl' : ∀ x ∈ l', p x = q x) : l'.filter p = l.filter p := by
  rw [List.filter_congr hl, List.filter_congr hl', h]

section Starts

variable {K : Uuid → Bool} {s s' : Site} {id agentId : Uuid} {goal : String} {now : Time}

theorem ownTask_start {taskId : Uuid} (hlt : taskId < s.db.nextId) :
    ownTask K (s.start id agentId goal now) taskId = ownTask K s taskId := by
  have hne : s.db.nextId ≠ taskId := Nat.ne_of_gt hlt
  simp [ownTask, Site.start, Db.startTask, Db.insertTask, Db.appendLog, hne]

theorem Referential.start (hs : Referential s) (hid : id < s.db.nextId) :
    Referential (s.start id agentId goal now) := by
  have hnext : s.db.nextId < s.db.nextId + 1 := Nat.lt_succ_self _
  constructor
  case taskIds =>
    simp only [Site.start, Db.startTask, Db.insertTask, Db.appendLog, List.map_append, List.map_cons,
      List.map_nil]
    refine List.nodup_append.mpr ⟨hs.taskIds, List.nodup_singleton _, ?_⟩
    intro a ha b hb hab
    obtain ⟨t, ht, rfl⟩ := List.mem_map.mp ha
    rw [List.mem_singleton.mp hb] at hab
    exact Nat.lt_irrefl _ (hab ▸ (hs.tasksBelow t ht).1)
  case approvalIds => exact hs.approvalIds
  case sessionsBelow => exact fun row hrow => Nat.lt_trans (hs.sessionsBelow row hrow) hnext
  case tasksBelow =>
    intro t ht
    rcases List.mem_append.mp ht with ht | ht
    · have hlt := hs.tasksBelow t ht
      exact ⟨Nat.lt_trans hlt.1 hnext, Nat.lt_trans hlt.2 hnext⟩
    · rw [List.mem_singleton.mp ht]
      exact ⟨hnext, Nat.lt_trans hid hnext⟩
  case logsBelow =>
    intro l hl
    rcases List.mem_append.mp hl with hl | hl
    · exact Nat.lt_trans (hs.logsBelow l hl) hnext
    · rw [List.mem_singleton.mp hl]
      exact hnext
  case approvalsBelow => exact fun a ha => Nat.lt_trans (hs.approvalsBelow a ha) hnext

theorem Twin.start (h : Twin K s s') (hs : Referential s) (hs' : Referential s') :
    Twin K (s.start id agentId goal now) (s'.start id agentId goal now) := by
  have hown : ∀ taskId, taskId < s.db.nextId →
      ownTask K (s.start id agentId goal now) taskId = ownTask K s taskId := fun _ => ownTask_start
  obtain ⟨v, rfl⟩ := h.1
  refine ⟨⟨⟨_, _, _, _⟩, rfl⟩, h.2.sessions, filter_append_of_eq h.2.tasks _, ?_, ?_⟩
  · refine filter_append_of_eq ?_ _
    exact filter_eq_of_congr h.2.logs (fun l hl => hown _ (hs.logsBelow l hl))
      fun l hl => hown _ (hs'.logsBelow l hl)
  · exact filter_eq_of_congr h.2.approvals (fun a ha => hown _ (hs.approvalsBelow a ha))
      fun a ha => hown _ (hs'.approvalsBelow a ha)

theorem SparesOthers.start (s : Site) : SparesOthers K s (s.start id agentId goal now) where
  sessions := fun _ hrow _ => hrow
  tasks := fun _ ht _ => List.mem_append_left _ ht

variable {userId : Uuid} {place : ChatPlace} {row : Session}

theorem Referential.openChat (hs : Referential s) : Referential (s.openChat userId place row) := by
  have hnext : s.db.nextId < s.db.nextId + 1 := Nat.lt_succ_self _
  constructor
  case taskIds => exact hs.taskIds
  case approvalIds => exact hs.approvalIds
  case sessionsBelow =>
    intro r hr
    rcases List.mem_append.mp hr with hr | hr
    · exact Nat.lt_trans (hs.sessionsBelow r hr) hnext
    · rw [List.mem_singleton.mp hr]
      exact hnext
  case tasksBelow =>
    intro t ht
    have hlt := hs.tasksBelow t ht
    exact ⟨Nat.lt_trans hlt.1 hnext, Nat.lt_trans hlt.2 hnext⟩
  case logsBelow => exact fun l hl => Nat.lt_trans (hs.logsBelow l hl) hnext
  case approvalsBelow => exact fun a ha => Nat.lt_trans (hs.approvalsBelow a ha) hnext

theorem Twin.openChat (h : Twin K s s') :
    Twin K (s.openChat userId place row) (s'.openChat userId place row) := by
  obtain ⟨v, rfl⟩ := h.1
  exact ⟨⟨⟨_, _, _, _⟩, rfl⟩, filter_append_of_eq h.2.sessions _, h.2.tasks, h.2.logs, h.2.approvals⟩

theorem SparesOthers.openChat (s : Site) : SparesOthers K s (s.openChat userId place row) where
  sessions := fun _ hr _ => List.mem_append_left _ hr
  tasks := fun _ ht _ => ht

/-- The chats of the user are still among the sessions, the new one too. -/
theorem Reach.openChat (hk : Reach K userId s) : Reach K userId (s.openChat userId place row) where
  own := by
    intro i hi
    obtain ⟨c, hc, hp⟩ := List.any_eq_true.mp hi
    rcases List.mem_append.mp hc with hc | hc
    · exact hk.own i (List.any_eq_true.mpr ⟨c, hc, hp⟩)
    · obtain rfl := List.mem_singleton.mp hc
      have hid : s.db.nextId = i := (of_decide_eq_true hp).2
      exact hk.new i (Nat.le_of_eq hid)
  new := fun i hi => hk.new i (Nat.le_of_succ_le hi)

theorem Reach.start (hk : Reach K userId s) : Reach K userId (s.start id agentId goal now) where
  own := hk.own
  new := fun i hi => hk.new i (Nat.le_of_succ_le hi)

variable {f : Session → Session}

theorem Referential.onSession (hs : Referential s) (hf : ∀ r, (f r).sessionId = r.sessionId) :
    Referential (s.onSession id f) := by
  refine { hs with sessionsBelow := fun r hr => ?_ }
  have hids : (s.onSession id f).db.sessions.map (·.sessionId) = s.db.sessions.map (·.sessionId) :=
    map_update hf s.db.sessions
  have hmem := List.mem_map_of_mem (f := fun r : Session => r.sessionId) hr
  rw [hids] at hmem
  obtain ⟨r', hr', hid⟩ := List.mem_map.mp hmem
  rw [← hid]
  exact hs.sessionsBelow r' hr'

theorem Twin.onSession (h : Twin K s s') (hf : ∀ r, (f r).sessionId = r.sessionId) :
    Twin K (s.onSession id f) (s'.onSession id f) := by
  obtain ⟨v, rfl⟩ := h.1
  refine ⟨⟨⟨_, _, _, _⟩, rfl⟩, ?_, h.2.tasks, h.2.logs, h.2.approvals⟩
  have hkeep : ∀ r : Session, K (f r).sessionId = K r.sessionId := by
    intro r
    rw [hf]
  have := congrArg (update (fun r : Session => r.sessionId = id) f) h.2.sessions
  rw [← filter_update hkeep, ← filter_update hkeep] at this
  exact this

theorem SparesOthers.onSession (ho : K id = true) : SparesOthers K s (s.onSession id f) where
  sessions := by
    intro r hr hk
    have hne : r.sessionId ≠ id := ne_of_outside hk ho
    exact mem_update.mpr ⟨r, hr, by simp [hne]⟩
  tasks := fun _ ht _ => ht

end Starts

/-- Both sites answer alike and still differ only in other conversations, which are left as they
are. -/
structure Stays {α : Type} (K : Uuid → Bool) (userId : Uuid) (s : Site) (r' r : Site × α) : Prop where
  reply : r'.2 = r.2
  twin : Twin K r.1 r'.1
  left : Referential r.1
  right : Referential r'.1
  reach : Reach K userId r.1
  spares : SparesOthers K s r.1
  users : r.1.users = s.users
  webSessions : r.1.webSessions = s.webSessions

section Sends

variable {K : Uuid → Bool} {now : Time} {s s' : Site} {u : User}

theorem Twin.createSession (h : Twin K s s') (hs : Referential s) (hs' : Referential s')
    (hk : Reach K u.userId s) (place : ChatPlace) (agentId : Uuid) (goal : Option String) (projectId : Option Uuid) :
    Agree (fun r' r : Db × Uuid × Uuid => Stays K u.userId s
        ({ s' with db := r'.1, chats := s'.chats ++ [⟨u.userId, place, r'.2.1⟩] }, r'.2)
        ({ s with db := r.1, chats := s.chats ++ [⟨u.userId, place, r.2.1⟩] }, r.2))
      (fnCreateSession now s'.db agentId goal projectId none)
      (fnCreateSession now s.db agentId goal projectId none) := by
  have hcfg : s'.db.cfg = s.db.cfg := by
    obtain ⟨v, rfl⟩ := h.1
    rfl
  have hnext : s'.db.nextId = s.db.nextId := by
    obtain ⟨v, rfl⟩ := h.1
    rfl
  unfold fnCreateSession
  rw [hcfg]
  refine agree_seq fun _ => agree_seq fun _ => agree_seq fun _ => ?_
  let row : Session := { sessionId := 0, agentId, projectId, goal := btrim (orEmpty goal) }
  have hopen : Twin K (s.openChat u.userId place row) (s'.openChat u.userId place row) :=
    h.openChat
  have hlt : s.db.nextId < (s.openChat u.userId place row).db.nextId := Nat.lt_succ_self _
  have hlt' : s'.db.nextId < (s'.openChat u.userId place row).db.nextId := Nat.lt_succ_self _
  constructor
  case reply =>
    have hopened : (s'.db.insertSession row).nextId = (s.db.insertSession row).nextId :=
      congrArg (· + 1) hnext
    exact Prod.ext hnext hopened
  case twin =>
    show Twin K ((s.openChat u.userId place row).start s.db.nextId agentId row.goal now)
      ((s'.openChat u.userId place row).start s'.db.nextId agentId row.goal now)
    rw [hnext]
    exact hopen.start hs.openChat hs'.openChat
  case left => exact hs.openChat.start hlt
  case right => exact hs'.openChat.start hlt'
  case reach => exact hk.openChat.start
  case spares => exact (SparesOthers.openChat s).trans (SparesOthers.start _)
  case users => rfl
  case webSessions => rfl

theorem Twin.continueSession (h : Twin K s s') (hs : Referential s) (hs' : Referential s')
    (hk : Reach K u.userId s) {id : Uuid}
    (ho : K id = true) (message : Option String) :
    Agree (fun r' r : Db × Uuid => Stays K u.userId s ({ s' with db := r'.1 }, r'.2) ({ s with db := r.1 }, r.2))
      (fnContinueSession now s'.db id message) (fnContinueSession now s.db id message) := by
  have hcfg : s'.db.cfg = s.db.cfg := by
    obtain ⟨v, rfl⟩ := h.1
    rfl
  have hnext : s'.db.nextId = s.db.nextId := by
    obtain ⟨v, rfl⟩ := h.1
    rfl
  have hturn : s'.db.tasks.any (fun t => t.sessionId = id ∧ t.parentTaskId = none ∧ unfinished t) =
      s.db.tasks.any fun t => t.sessionId = id ∧ t.parentTaskId = none ∧ unfinished t := by
    refine h.anyTask fun t ht => ?_
    have hid : t.sessionId = id := (of_decide_eq_true ht).1
    rw [hid]
    exact ho
  unfold fnContinueSession
  rw [h.session ho]
  refine agree_seq fun _ => ?_
  cases hrow : s.db.session? id with
  | none => rfl
  | some row =>
    dsimp only
    rw [hcfg, hturn]
    refine agree_seq fun _ => agree_seq fun _ => ?_
    let f := fun r : Session => { r with status := .open, completedAt := none }
    have hf : ∀ r : Session, (f r).sessionId = r.sessionId := fun _ => rfl
    have hid : row.sessionId = id := by simpa using List.find?_some hrow
    have hlt : id < s.db.nextId := hid ▸ hs.sessionsBelow row (List.mem_of_find?_eq_some hrow)
    have hupdated : Twin K (s.onSession id f) (s'.onSession id f) := h.onSession hf
    constructor
    case reply => exact hnext
    case twin => exact hupdated.start (hs.onSession hf) (hs'.onSession hf)
    case left => exact (hs.onSession hf).start hlt
    case right => exact (hs'.onSession hf).start (hnext ▸ hlt)
    case reach =>
      have hreach : Reach K u.userId (s.onSession id f) := ⟨hk.own, hk.new⟩
      exact hreach.start
    case spares => exact (SparesOthers.onSession ho).trans (SparesOthers.start _)
    case users => rfl
    case webSessions => rfl

theorem Twin.sendTo (h : Twin K s s') (hs : Referential s) (hs' : Referential s')
    (hk : Reach K u.userId s)
    (target : ChatTarget) (message : Option String) :
    Agree (Stays K u.userId s) (sendTo now s' u target message) (sendTo now s u target message) := by
  refine agree_seq fun _ => ?_
  rw [h.chat]
  cases hc : chat? s u.userId target.place with
  | none =>
    refine agree_bind (h.createSession hs hs' hk target.place target.agentId (trimmed message) target.projectId) ?_
    intro r' r hr
    exact hr
  | some c =>
    refine agree_bind (h.continueSession hs hs' hk (hk.own _ (mapped_of_chat hc)) (trimmed message)) ?_
    intro r' r hr
    exact { hr with reply := congrArg (c.sessionId, ·) hr.reply }

theorem sessionUser_congr {r : Site} (hu : r.users = s.users) (hw : r.webSessions = s.webSessions) :
    sessionUser now r = sessionUser now s := by
  funext token
  unfold sessionUser
  rw [hu, hw]

variable {token : Option String} {req : Json}

theorem Twin.fnChatSend (h : Twin K s s') (hs : Referential s) (hs' : Referential s')
    (hk : Reach K u.userId s)
    (hu : sessionUser now s token = some u) (agentId : Option Uuid) (message : Option String) :
    Agree (Stays K u.userId s) (fnChatSend now s' token agentId message)
      (fnChatSend now s token agentId message) := by
  refine agree_bind (h.agentAccess hu agentId) ?_
  rintro _ _ ⟨rfl, rfl⟩
  cases agentId with
  | none => rfl
  | some id => exact h.sendTo hs hs' hk (agentTarget id) message

theorem Twin.fnProjectChatSend (h : Twin K s s') (hs : Referential s) (hs' : Referential s')
    (hk : Reach K u.userId s)
    (hu : sessionUser now s token = some u) (projectId : Option Uuid) (message : Option String) :
    Agree (Stays K u.userId s) (fnProjectChatSend now s' token projectId message)
      (fnProjectChatSend now s token projectId message) := by
  refine agree_bind (h.projectAccess hu projectId) ?_
  rintro ⟨w, agentId⟩ _ ⟨rfl, rfl⟩
  cases projectId with
  | none => rfl
  | some id => exact h.sendTo hs hs' hk (projectTarget id agentId) message

theorem Stays.after {α β : Type} {r' r : Site × α} {q' q : Site × β} (h : Stays K u.userId s r' r)
    (hq : Stays K u.userId r.1 q' q) : Stays K u.userId s q' q :=
  { hq with
    spares := h.spares.trans hq.spares
    users := hq.users.trans h.users
    webSessions := hq.webSessions.trans h.webSessions }

theorem Twin.sendMentions (h : Twin K s s') (hs : Referential s) (hs' : Referential s')
    (hk : Reach K u.userId s)
    (hu : sessionUser now s token = some u) (text : String) (names : List String)
    (agentIds sessionIds : List Uuid) :
    Agree (Stays K u.userId s) (sendMentions now token text names s' agentIds sessionIds)
      (sendMentions now token text names s agentIds sessionIds) := by
  induction names generalizing s s' agentIds sessionIds with
  | nil =>
    exact
      { reply := rfl
        twin := h
        left := hs
        right := hs'
        reach := hk
        spares := SparesOthers.same rfl rfl
        users := rfl
        webSessions := rfl }
  | cons name names ih =>
    have hagents : s'.db.cfg.agents = s.db.cfg.agents := by
      obtain ⟨v, rfl⟩ := h.1
      rfl
    unfold Allgres.sendMentions
    rw [hagents]
    cases s.db.cfg.agents.find? (·.name = name) with
    | none => rfl
    | some a =>
      refine agree_bind (h.agentAccess hu (some a.agentId)) fun _ _ _ => ?_
      refine agree_bind (h.fnChatSend hs hs' hk hu (some a.agentId) (some text)) ?_
      rintro ⟨q', ids'⟩ ⟨q, ids⟩ hq
      obtain rfl : ids' = ids := hq.reply
      have huser : sessionUser now q token = some u :=
        (congrFun (sessionUser_congr hq.users hq.webSessions) token).trans hu
      have hrest := ih hq.twin hq.left hq.right hq.reach huser (agentIds ++ [a.agentId])
        (sessionIds ++ [ids'.1])
      exact agree_mono hrest fun _ _ hr => hq.after hr

/-- The same reply from both sites, with the conversations of others left as they are. -/
def Isolated (K : Uuid → Bool) (s : Site) (r' r : Site × Json) : Prop :=
  r'.2 = r.2 ∧ SparesOthers K s r.1

theorem Stays.sent {r' r : Site × Uuid × Uuid} (h : Stays K u.userId s r' r) :
    Isolated K s (sentJson r') (sentJson r) := by
  refine ⟨?_, h.spares⟩
  unfold sentJson
  rw [h.reply]

theorem Twin.chatSend (h : Twin K s s') (hs : Referential s) (hs' : Referential s')
    (hk : Reach K u.userId s)
    (hu : sessionUser now s (tokenOf req) = some u) :
    Agree (Isolated K s) (chatSend now s' req) (chatSend now s req) := by
  refine agree_seq fun agentId => agree_map ?_
  exact agree_mono (h.fnChatSend hs hs' hk hu agentId (req.text "message")) fun _ _ hr => hr.sent

theorem Twin.projectChatSend (h : Twin K s s') (hs : Referential s) (hs' : Referential s')
    (hk : Reach K u.userId s)
    (hu : sessionUser now s (tokenOf req) = some u) :
    Agree (Isolated K s) (projectChatSend now s' req) (projectChatSend now s req) := by
  refine agree_seq fun projectId => agree_map ?_
  exact agree_mono (h.fnProjectChatSend hs hs' hk hu projectId (req.text "message")) fun _ _ hr => hr.sent

theorem Twin.nextId (h : Twin K s s') : s'.db.nextId = s.db.nextId := by
  obtain ⟨v, rfl⟩ := h.1
  rfl

theorem Twin.fnMessengerPost (h : Twin K s s') (hs : Referential s) (hs' : Referential s')
    (hk : Reach K u.userId s)
    (hu : sessionUser now s token = some u) (text : Option String) :
    Agree (Isolated K s) (fnMessengerPost now s' token text) (fnMessengerPost now s token text) := by
  have hu' : sessionUser now s' token = some u := by
    obtain ⟨v, rfl⟩ := h.1
    exact hu
  unfold Allgres.fnMessengerPost
  rw [hu, hu']
  dsimp only
  refine agree_seq fun _ => ?_
  generalize btrim (orEmpty text) = said
  generalize mentions said = names
  refine agree_bind (h.sendMentions hs hs' hk hu said names [] []) ?_
  rintro ⟨q', ids'⟩ ⟨q, ids⟩ hq
  obtain rfl : ids' = ids := hq.reply
  refine ⟨?_, hq.spares.trans (SparesOthers.same rfl rfl)⟩
  have hnext : q'.db.nextId = q.db.nextId := hq.twin.nextId
  dsimp only
  rw [hnext]

theorem Twin.runBranch (h : Twin K s s') :
    Agree (Isolated K s) (runBranch now s' req) (runBranch now s req) := by
  obtain ⟨v, rfl⟩ := h.1
  refine agree_seq fun agentId => agree_seq fun _ => agree_seq fun projectId => ?_
  cases agentId with
  | none => rfl
  | some id =>
    refine agree_bind (P := fun r' r => r'.2 = r.2 ∧ SparesOthers K s { s with db := r.1 }) ?_ ?_
    · refine agree_seq fun _ => agree_seq fun _ => agree_seq fun _ => ⟨rfl, ?_⟩
      constructor
      · exact fun _ hrow _ => List.mem_append_left _ hrow
      · exact fun _ ht _ => List.mem_append_left _ ht
    · rintro ⟨db', ids'⟩ ⟨db, ids⟩ ⟨hids, hspares⟩
      obtain rfl : ids' = ids := hids
      exact ⟨rfl, hspares⟩

end Sends

section Configuration

variable {pg : Postgres} {K : Uuid → Bool} {now : Time} {s s' : Site} {u : User} {req : Json}

theorem agree_storeConfig (v : Conversations) (r : Except String (Config × Json)) :
    Agree (Isolated K s) (storeConfig (s.withConversations v) r) (storeConfig s r) :=
  agree_map (agree_same fun _ => ⟨rfl, SparesOthers.same rfl rfl⟩)

theorem Twin.proposalsDecide (h : Twin K s s') :
    Agree (Isolated K s) (proposalsDecide pg now s' req) (proposalsDecide pg now s req) := by
  obtain ⟨v, rfl⟩ := h.1
  refine agree_seq fun id => agree_seq fun _ => agree_seq fun approve => ?_
  cases id with
  | none => rfl
  | some id => exact agree_storeConfig v _

theorem Twin.fixesDecide (h : Twin K s s') :
    Agree (Isolated K s) (fixesDecide pg now s' req) (fixesDecide pg now s req) := by
  obtain ⟨v, rfl⟩ := h.1
  exact agree_seq fun _ => agree_seq fun _ => agree_seq fun _ => agree_storeConfig v _

theorem Twin.setMyModel (h : Twin K s s') :
    Agree (Isolated K s) (setMyModel now s' req) (setMyModel now s req) := by
  obtain ⟨v, rfl⟩ := h.1
  refine agree_seq fun agentId => agree_seq fun w => ?_
  have hstore : ∀ r, Agree (Isolated K s) (storeConfig (s.withConversations v) r) (storeConfig s r) :=
    agree_storeConfig v
  cases agentId with
  | none => rfl
  | some id =>
    cases nullIfEmpty (req.text "provider") with
    | none =>
      cases nullIfEmpty (req.text "model") with
      | none => exact hstore _
      | some model => rfl
    | some provider =>
      cases nullIfEmpty (req.text "model") with
      | none => rfl
      | some model => exact agree_seq fun _ => hstore _

theorem Twin.memoriesCreate (h : Twin K s s') :
    Agree (Isolated K s) (memoriesCreate pg now s' req) (memoriesCreate pg now s req) := by
  obtain ⟨v, rfl⟩ := h.1
  refine agree_seq fun agentId => agree_seq fun _ => ?_
  cases agentId with
  | none => rfl
  | some id =>
    dsimp only [Site.withConversations]
    cases writeMemory pg now s.db.cfg id (req.text "content") (nullIfEmpty (req.text "memory_type"))
        (req.text "importance") (req.text "subject_id") (req.text "expires_in_days") none none with
    | error e => exact ⟨rfl, SparesOthers.same rfl rfl⟩
    | ok r => exact agree_storeConfig v _

theorem Twin.memoriesRemove (h : Twin K s s') :
    Agree (Isolated K s) (memoriesRemove now s' req) (memoriesRemove now s req) := by
  obtain ⟨v, rfl⟩ := h.1
  exact agree_seq fun _ => agree_seq fun _ => agree_storeConfig v _

theorem Twin.fnLogin (h : Twin K s s') (crypt : Option (String → String → Bool)) (token : String)
    (username password : Option String) :
    Agree (Isolated K s) (fnLogin now s' crypt token username password)
      (fnLogin now s crypt token username password) := by
  obtain ⟨v, rfl⟩ := h.1
  dsimp only [Allgres.fnLogin, Site.withConversations]
  cases crypt with
  | none => rfl
  | some crypt =>
    cases s.users.find? fun u => u.username = btrim (orEmpty username) ∧ u.isActive with
    | none => rfl
    | some w =>
      dsimp only
      split_ifs
      · rfl
      · exact ⟨rfl, SparesOthers.same rfl rfl⟩
      · rfl

end Configuration

section Sessions

variable {K : Uuid → Bool} {now : Time} {s s' : Site} {u : User} {req : Json}

theorem users_of_login {token : Option String} (hu : sessionUser now s token = some u) : s.users ≠ [] := by
  intro hnil
  unfold sessionUser at hu
  rw [hnil] at hu
  simp at hu

/-- Where no agent is active the guard lets nobody through. -/
theorem access_inactive {token : Option String} (hu : sessionUser now s token = some u)
    (hn : s.db.cfg.agents.all (!·.isActive) = true) (agentId : Option Uuid) :
    requireAgentAccessIfAccountsExist now s token agentId = .error "agent inactive or missing" := by
  have hnone : agentId.filter s.db.cfg.agentActive = none := by
    cases agentId with
    | none => rfl
    | some id =>
      have hfalse : s.db.cfg.agentActive id = false := by
        refine List.any_eq_false.mpr fun a ha hp => ?_
        have hact : a.isActive = true := (of_decide_eq_true hp).2
        have := List.all_eq_true.mp hn a ha
        simp [hact] at this
      simp [hfalse]
  rw [requireAgentAccessIfAccountsExist, if_neg (users_of_login hu), requireAgentAccess, hu]
  dsimp only
  rw [hnone]
  rfl

theorem Twin.agentOf (h : Twin K s s') {id : Option Uuid}
    (ho : id.all K = true) : agentOf s'.db id = agentOf s.db id := by
  cases id with
  | none => rfl
  | some i =>
    have hi : K i = true := ho
    exact congrArg (Option.map (·.agentId)) (h.session hi)

theorem Twin.sessionsContinue (h : Twin K s s') (hs : Referential s) (hs' : Referential s')
    (hk : Reach K u.userId s)
    (hu : sessionUser now s (tokenOf req) = some u)
    (hc : UserAction.within K s u req .sessionsContinue = true) :
    Agree (Isolated K s) (sessionsContinue now s' req) (sessionsContinue now s req) := by
  have hguard : ∀ agentId, requireAgentAccessIfAccountsExist now s' (tokenOf req) agentId =
      requireAgentAccessIfAccountsExist now s (tokenOf req) agentId := by
    obtain ⟨v, rfl⟩ := h.1
    exact fun _ => rfl
  unfold Allgres.sessionsContinue
  refine agree_uuidField ?_
  rw [hguard]
  rcases Bool.or_eq_true_iff.mp hc with hown | hnone
  · rw [h.agentOf hown]
    refine agree_seq fun _ => ?_
    cases hid : givenId req "session_id" with
    | none => exact agree_seq fun _ => rfl
    | some id =>
      have ho : K id = true := by simpa [hid] using hown
      refine agree_bind (h.continueSession hs hs' hk ho (req.text "message")) fun r' r hr => ?_
      exact ⟨congrArg (fun taskId => (sentJson (s, id, taskId)).2) hr.reply, hr.spares⟩
  · rw [access_inactive hu hnone, access_inactive hu hnone]
    rfl

theorem mem_cancelTasks {said : String} {db : Db} {t : Task} (ht : t ∈ db.tasks) {ts : List Task}
    (hne : ∀ x ∈ ts, t.taskId ≠ x.taskId) : t ∈ (ts.foldl (Db.cancelTask now said) db).tasks := by
  induction ts generalizing db with
  | nil => exact ht
  | cons x ts ih =>
    have hx : t.taskId ≠ x.taskId := hne x (List.mem_cons_self ..)
    refine ih ?_ fun y hy => hne y (List.mem_cons_of_mem _ hy)
    exact mem_update.mpr ⟨t, ht, by simp [hx]⟩

theorem Twin.cancelSession (h : Twin K s s') (hs : Referential s) {id : Uuid}
    (ho : K id = true) (reason : Option String) :
    Agree (fun r' r : Db × Nat => r'.2 = r.2 ∧ SparesOthers K s { s with db := r.1 })
      (fnCancelSession now s'.db id reason) (fnCancelSession now s.db id reason) := by
  have hopen := h.sessionTasks ho unfinished
  unfold fnCancelSession
  rw [h.session ho]
  refine agree_seq fun _ => ⟨congrArg List.length hopen, ?_⟩
  have hsessions := (cancelTasks_sessions now ((trimmed reason).getD "Cancelled by operator.")
    (s.db.tasks.filter fun t => t.sessionId = id ∧ unfinished t) s.db).1
  constructor
  · intro row hrow hm
    refine mem_update.mpr ⟨row, ?_, by simp [ne_of_outside hm ho]⟩
    exact hsessions.symm ▸ hrow
  · intro t ht hm
    refine mem_cancelTasks ht fun x hx hid => ?_
    obtain ⟨hx, hp⟩ := List.mem_filter.mp hx
    have hxt : x = t := eq_of_key (fun y : Task => y.taskId) hs.taskIds hx ht hid.symm
    exact ne_of_outside hm ho (hxt ▸ (of_decide_eq_true hp).1)

theorem Twin.sessionsCancel (h : Twin K s s') (hs : Referential s)
    (hu : sessionUser now s (tokenOf req) = some u)
    (hc : UserAction.within K s u req .sessionsCancel = true) :
    Agree (Isolated K s) (sessionsCancel now s' req) (sessionsCancel now s req) := by
  have hguard : ∀ agentId, requireAgentAccessIfAccountsExist now s' (tokenOf req) agentId =
      requireAgentAccessIfAccountsExist now s (tokenOf req) agentId := by
    obtain ⟨v, rfl⟩ := h.1
    exact fun _ => rfl
  unfold Allgres.sessionsCancel
  refine agree_uuidField ?_
  rw [hguard]
  rcases Bool.or_eq_true_iff.mp hc with hown | hnone
  · rw [h.agentOf hown]
    refine agree_seq fun _ => ?_
    cases hid : givenId req "session_id" with
    | none => rfl
    | some id =>
      have ho : K id = true := by simpa [hid] using hown
      refine agree_bind (h.cancelSession hs ho (req.text "reason")) fun r' r hr => ?_
      exact ⟨congrArg (fun n => okReply [("tasks_cancelled", natJson n)]) hr.1, hr.2⟩
  · rw [access_inactive hu hnone, access_inactive hu hnone]
    rfl

end Sessions

section Approvals

variable {K : Uuid → Bool} {now : Time} {s s' : Site} {u : User} {req : Json}

/-- Only the row under the key decides. -/
theorem any_key {α κ : Type} [DecidableEq κ] (key : α → κ) {rows : List α} (hn : (rows.map key).Nodup)
    {a : α} (ha : a ∈ rows) (p : α → Bool) : (rows.any fun x => key x = key a ∧ p x) = p a := by
  rw [Bool.eq_iff_iff, List.any_eq_true]
  constructor
  · rintro ⟨x, hx, hp⟩
    obtain ⟨hkey, hpx⟩ := of_decide_eq_true hp
    rwa [← eq_of_key key hn hx ha hkey]
  · intro hp
    exact ⟨a, ha, by simp [hp]⟩

theorem SparesOthers.onTask (hn : (s.db.tasks.map (·.taskId)).Nodup) {id : Uuid}
    (ho : ownTask K s id = true) (f : Task → Task) :
    SparesOthers K s { s with db := s.db.updateTask id f } where
  sessions := fun _ hrow _ => hrow
  tasks := by
    intro t ht hm
    have hne : t.taskId ≠ id := by
      rintro rfl
      obtain ⟨x, hx, hp⟩ := List.any_eq_true.mp ho
      obtain ⟨hid, hmx⟩ := of_decide_eq_true hp
      rw [eq_of_key (fun y : Task => y.taskId) hn hx ht hid, hm] at hmx
      exact Bool.false_ne_true hmx
    exact mem_update.mpr ⟨t, ht, by simp [hne]⟩

theorem SparesOthers.onCompletion {id : Uuid} (ho : K id = true) :
    SparesOthers K s { s with db := s.db.maybeCompleteSession id now } := by
  unfold Db.maybeCompleteSession
  dsimp only
  split
  · exact SparesOthers.same rfl rfl
  · refine ⟨fun row hrow hm => ?_, fun _ ht _ => ht⟩
    have hne : row.sessionId ≠ id := ne_of_outside hm ho
    exact mem_update.mpr ⟨row, hrow, by simp [hne]⟩

/-- The approval settled and the words of the operator written down. -/
def Site.answered (now : Time) (s : Site) (a : Approval) (t : Task) (accept : Bool)
    (reply : Option String) : Site :=
  let said := (trimmed reply).getD (if accept then "Approved." else "Rejected.")
  { s with
    db := (s.db.settleApproval a.approvalId (if accept then .approved else .rejected) reply
      now).appendLog t.taskId (t.stepCount + 1) .operator (.str said) now }

theorem Twin.decideApproval (h : Twin K s s') (hs : Referential s) (hs' : Referential s') {a : Approval}
    (ha : a ∈ s.db.approvals) (ho : ownTask K s a.taskId = true) (accept : Bool)
    (reply : Option String) :
    Agree (fun r' r : Db × Json => r'.2 = r.2 ∧ SparesOthers K s { s with db := r.1 })
      (fnDecideApproval now s'.db a.approvalId accept reply)
      (fnDecideApproval now s.db a.approvalId accept reply) := by
  have ha' : a ∈ s'.db.approvals := mem_of_filter_eq h.2.approvals ha ho
  have hfind : s.db.approval? a.approvalId = some a :=
    find_key (fun x : Approval => x.approvalId) hs.approvalIds ha
  have hfind' : s'.db.approval? a.approvalId = some a :=
    find_key (fun x : Approval => x.approvalId) hs'.approvalIds ha'
  obtain ⟨htask, t, ht, hfound, hm⟩ := h.task hs hs' ho
  have hid : t.taskId = a.taskId := by simpa using List.find?_some hfound
  unfold fnDecideApproval
  rw [hfind, hfind']
  by_cases hp : a.status = .pending
  · have hpending : (some a).filter (·.status = .pending) = some a := by simp [hp]
    rw [hpending]
    dsimp only
    by_cases hexp : a.expiresAt.any (· ≤ now) = true
    · rw [if_pos hexp, if_pos hexp]
      rfl
    · rw [if_neg hexp, if_neg hexp, htask, hfound]
      by_cases hw : t.status = .waitingHuman
      · have hwaiting : (some t).filter (·.status = .waitingHuman) = some t := by simp [hw]
        rw [hwaiting]
        refine ⟨rfl, ?_⟩
        dsimp only
        have hmoved : ∀ f, SparesOthers K s
            { s with db := (s.answered now a t accept reply).db.updateTask t.taskId f } := by
          intro f
          have hlogged : SparesOthers K s (s.answered now a t accept reply) := SparesOthers.same rfl rfl
          have hids : ((s.answered now a t accept reply).db.tasks.map (·.taskId)).Nodup := hs.taskIds
          have hown : ownTask K (s.answered now a t accept reply) t.taskId = true := hid ▸ ho
          exact hlogged.trans (SparesOthers.onTask hids hown f)
        cases accept with
        | true => exact hmoved _
        | false => exact (hmoved _).trans (SparesOthers.onCompletion hm)
      · have hnone : (some t).filter (·.status = .waitingHuman) = none := by simp [hw]
        rw [hnone]
        exact ⟨rfl, SparesOthers.same rfl rfl⟩
  · have hnone : (some a).filter (·.status = .pending) = none := by simp [hp]
    rw [hnone]
    rfl

/-- An approval that the user sees is of one of the sessions. -/
theorem covers_visible {ids : List Uuid} (hc : covers K s ids = true) {id : Uuid}
    (hnone : ¬∃ a ∈ s.db.approvals, a.approvalId = id ∧ ownTask K s a.taskId = true) :
    (s.db.approvals.any fun a => some a.approvalId = some id ∧
      (s.db.task? a.taskId).any fun t => ids.contains t.agentId) = false := by
  refine List.any_eq_false.mpr fun a ha hp => hnone ?_
  obtain ⟨hid, hsight⟩ := of_decide_eq_true hp
  obtain ⟨t, hfind, hin⟩ := (Option.any_eq_true ..).mp hsight
  have hk : K t.sessionId = true := covers_task hc (List.mem_of_find?_eq_some hfind) hin
  exact ⟨a, ha, Option.some.inj hid, ownTask_of_task hfind hk⟩

theorem Twin.visibleApproval (h : Twin K s s') (hs : Referential s) (hs' : Referential s') {a : Approval}
    (ha : a ∈ s.db.approvals) (ho : ownTask K s a.taskId = true) (ids : List Uuid) :
    (s'.db.approvals.any fun b => some b.approvalId = some a.approvalId ∧
      (s'.db.task? b.taskId).any fun t => ids.contains t.agentId) =
    s.db.approvals.any fun b => some b.approvalId = some a.approvalId ∧
      (s.db.task? b.taskId).any fun t => ids.contains t.agentId := by
  have ha' : a ∈ s'.db.approvals := mem_of_filter_eq h.2.approvals ha ho
  have htask : s'.db.task? a.taskId = s.db.task? a.taskId := (h.task hs hs' ho).1
  simp only [Option.some.injEq]
  rw [any_key (fun x : Approval => x.approvalId) hs.approvalIds ha fun b =>
      (s.db.task? b.taskId).any fun t => ids.contains t.agentId,
    any_key (fun x : Approval => x.approvalId) hs'.approvalIds ha' fun b =>
      (s'.db.task? b.taskId).any fun t => ids.contains t.agentId, htask]

theorem Twin.approvalsDecide (h : Twin K s s') (hs : Referential s) (hs' : Referential s')
    (hu : sessionUser now s (tokenOf req) = some u) (hrole : u.role ≠ .admin)
    (hc : UserAction.within K s u req .approvalsDecide = true)
    (hc' : UserAction.within K s' u req .approvalsDecide = true) :
    Agree (Isolated K s) (approvalsDecide now s' req) (approvalsDecide now s req) := by
  have hassigned : assignedIds s' u = assignedIds s u := by
    obtain ⟨v, rfl⟩ := h.1
    rfl
  unfold Allgres.approvalsDecide
  rw [h.visible, visibleAgentIds_user hu hrole]
  refine agree_uuidField ?_
  cases hid : givenId req "approval_id" with
  | none => exact agree_raised (by simp) (by simp)
  | some id =>
    by_cases hown : ∃ a ∈ s.db.approvals, a.approvalId = id ∧ ownTask K s a.taskId = true
    · obtain ⟨a, ha, rfl, ho⟩ := hown
      simp only [h.visibleApproval hs hs' ha ho]
      refine agree_seq fun _ => agree_seq fun accept => ?_
      refine agree_bind (h.decideApproval hs hs' ha ho (accept.getD false)
        (nullIfEmpty (req.text "reply"))) fun r' r hr => ?_
      exact hr
    · have hown' : ¬∃ a ∈ s'.db.approvals, a.approvalId = id ∧ ownTask K s' a.taskId = true := by
        rintro ⟨a, ha, hida, ho⟩
        rw [h.ownTask_eq] at ho
        exact hown ⟨a, mem_of_filter_eq h.2.approvals.symm ha ho, hida, ho⟩
      have hcover : covers K s (assignedIds s u) = true := by
        refine (Bool.or_eq_true_iff.mp hc).resolve_right fun hany => hown ?_
        simpa [hid] using hany
      have hcover' : covers K s' (assignedIds s u) = true := by
        rw [← hassigned]
        refine (Bool.or_eq_true_iff.mp hc').resolve_right fun hany => hown' ?_
        simpa [hid] using hany
      refine agree_raised ?_ ?_
      · rw [Option.any_some, covers_visible hcover' hown']
        rfl
      · rw [Option.any_some, covers_visible hcover hown]
        rfl

end Approvals

section Requests

variable {ρ : Type} {b : Backend ρ} {K : Uuid → Bool} {now : Time} {h : Deployment ρ} {s' : Site}
  {u : User} {req : Json}

/-- The same reply from both deployments, with other conversations left as they are. -/
def LeftAlone (K : Uuid → Bool) (s : Site) (r' r : Deployment ρ × Json) : Prop :=
  r'.2 = r.2 ∧ SparesOthers K s r.1.site

theorem agree_reading {x y : Except String Json} (hxy : Agree Eq x y) :
    Agree (LeftAlone K h.site) (reading { h with site := s' } x) (reading h y) :=
  agree_map (agree_mono hxy fun _ _ heq => ⟨heq, SparesOthers.same rfl rfl⟩)

theorem agree_writing {x y : Except String (Site × Json)} (hxy : Agree (Isolated K h.site) x y) :
    Agree (LeftAlone K h.site) (writing b { h with site := s' } req x) (writing b h req y) :=
  agree_map (agree_mono hxy fun _ _ hr => hr)

theorem Twin.branch (ht : Twin K h.site s') (hs : Referential h.site) (hs' : Referential s')
    (hk : Reach K u.userId h.site) (hu : sessionUser now h.site (tokenOf req) = some u)
    (hrole : u.role ≠ .admin) (a : UserAction) (hn : a = .sessionsGet → NamedAlike h.site s' req)
    (hc : a.within K h.site u req = true) (hc' : a.within K s' u req = true) :
    Agree (LeftAlone K h.site) (a.branch b now { h with site := s' } req) (a.branch b now h req) := by
  have hsame : ∀ {x y : Except String Json}, x = y →
      Agree (LeftAlone K h.site) (reading { h with site := s' } x) (reading h y) := by
    rintro x _ rfl
    exact agree_reading (agree_same fun _ => rfl)
  cases a with
  | agentsEvaluate => exact agree_reading (ht.evaluate hc hc')
  | proposalsList => exact agree_reading (ht.proposalsList hs hs' hu hrole hc)
  | proposalsDecide => exact agree_writing ht.proposalsDecide
  | fixesDecide => exact agree_writing ht.fixesDecide
  | projectChatSend => exact agree_writing (ht.projectChatSend hs hs' hk hu)
  | projectChatHistory => exact agree_reading (ht.projectChatHistory hk hu)
  | run => exact agree_writing ht.runBranch
  | sessionsCancel => exact agree_writing (ht.sessionsCancel hs hu hc)
  | sessionsContinue => exact agree_writing (ht.sessionsContinue hs hs' hk hu hc)
  | agentsSetMyModel => exact agree_writing ht.setMyModel
  | chatSend => exact agree_writing (ht.chatSend hs hs' hk hu)
  | chatHistory => exact agree_reading (ht.chatHistory hk hu)
  | messengerPost => exact agree_writing (ht.fnMessengerPost hs hs' hk hu _)
  | messengerList => exact agree_reading (ht.messengerList hc)
  | sessionsGet => exact agree_reading (ht.sessionsGet hk hu hrole (hn rfl))
  | memoriesCreate => exact agree_writing ht.memoriesCreate
  | memoriesRemove => exact agree_writing ht.memoriesRemove
  | historySearch => exact agree_reading (ht.historySearch hs hs' hu hrole hc hc')
  | events => exact hsame (congrArg _ (ht.eventsReply hs hs' hu hrole hc hc'))
  | approvalsList => exact agree_reading (ht.approvalsList hs hs' hu hrole hc hc')
  | approvalsDecide => exact agree_writing (ht.approvalsDecide hs hs' hu hrole hc hc')
  | authLogin =>
    exact agree_map (agree_mono (ht.fnLogin b.crypt b.token _ _) fun _ _ hr => hr)
  | authLogout =>
    obtain ⟨v, rfl⟩ := ht.1
    exact ⟨rfl, SparesOthers.same rfl rfl⟩
  | _ =>
    obtain ⟨v, rfl⟩ := ht.1
    exact hsame rfl

theorem Twin.dashboardBranch (ht : Twin K h.site s') (hs : Referential h.site) (hs' : Referential s')
    (hk : Reach K u.userId h.site) (hu : sessionUser now h.site (tokenOf req) = some u)
    (hrole : u.role ≠ .admin) (hn : RequestAlike h.site s' req) (hc : requestWithin K h.site u req = true)
    (hc' : requestWithin K s' u req = true) :
    Agree (LeftAlone K h.site) (dashboardBranch b now { h with site := s' } req)
      (dashboardBranch b now h req) := by
  unfold Allgres.dashboardBranch
  cases hadmin : adminBranches.lookup (rpcAction req) with
  | some guard =>
    have hnone : (sessionUser now h.site (tokenOf req)).all (·.role ≠ .admin) = true := by
      rw [hu]
      simpa using hrole
    have hrefused := AdminGuard.check_refused (users_of_login hu) hnone guard
    have hguard : guard.check now s' req = guard.check now h.site req := by
      obtain ⟨v, rfl⟩ := ht.1
      rfl
    dsimp only
    rw [hguard]
    cases hx : guard.check now h.site req with
    | error e => rfl
    | ok x => exact (hrefused x hx).elim
  | none =>
    cases ha : userBranches.lookup (rpcAction req) with
    | none => exact ⟨rfl, SparesOthers.same rfl rfl⟩
    | some a =>
      have hcontained : a.within K h.site u req = true := by simpa [requestWithin, ha] using hc
      have hcontained' : a.within K s' u req = true := by simpa [requestWithin, ha] using hc'
      exact ht.branch hs hs' hk hu hrole a (fun hget => hn (hget ▸ ha)) hcontained hcontained'

end Requests

def asked (fields : List (String × Json)) : Json :=
  .object (("session_token", .str "t") :: fields)

end Allgres
