import Allgres.Accounts
import Allgres.Sessions

/-! The site: accounts with their logins, the guards, and the chats of a user with an agent
or a project. -/

namespace Allgres

open Raise Rows

structure WebSession where
  token : String
  userId : Uuid
  expiresAt : Time
  lastSeenAt : Time := 0
  deriving DecidableEq

inductive ChatPlace where
  | agent (id : Uuid) | project (id : Uuid)
  deriving DecidableEq

/-- A row of `user_agent_chat_sessions` or of `user_project_chat_sessions`. -/
structure Chat where
  userId : Uuid
  place : ChatPlace
  sessionId : Uuid
  deriving DecidableEq

structure ChannelMessage where
  messageId : Uuid
  authorUserId : Uuid
  content : String
  mentionedAgentId : Option Uuid := none
  sessionId : Option Uuid := none
  mentionedAgentIds : List Uuid := []
  createdAt : Time := 0
  deriving DecidableEq

structure Site where
  db : Db := {}
  users : List User := []
  webSessions : List WebSession := []
  assignments : List Assignment := []
  chats : List Chat := []
  channelMessages : List ChannelMessage := []

section Guards

variable (now : Time) (s : Site) (token : Option String)

def sessionUser : Option User := do
  let text ← nullIfEmpty token
  let ws ← s.webSessions.find? fun w => w.token = text ∧ now < w.expiresAt
  s.users.find? fun u => u.userId = ws.userId ∧ u.isActive

def requireAdmin : Except String User :=
  match sessionUser now s token with
  | none => .error "not logged in"
  | some u => if u.role = .admin then .ok u else .error "admin role required"

def requireAdminIfAccountsExist : Except String Unit :=
  if s.users = [] then .ok () else (requireAdmin now s token).map fun _ => ()

def assigned (u : User) (agentId : Uuid) : Bool :=
  s.assignments.any fun a => a.userId = u.userId ∧ a.agentId = agentId

def requireAgentAccess (agentId : Option Uuid) : Except String User :=
  match sessionUser now s token with
  | none => .error "not logged in"
  | some u => match agentId.filter s.db.cfg.agentActive with
    | none => .error "agent inactive or missing"
    | some id =>
      if u.role = .admin ∨ assigned s u id then .ok u else .error "agent not assigned to this user"

def requireAgentAccessIfAccountsExist (agentId : Option Uuid) : Except String Unit :=
  if s.users = [] then .ok () else (requireAgentAccess now s token agentId).map fun _ => ()

def requireProjectAccess (projectId : Option Uuid) : Except String (User × Uuid) := do
  match projectId.bind fun id => s.db.cfg.projects.find? fun p => p.projectId = id ∧ p.isActive with
  | none => .error "project inactive or missing"
  | some p => match p.agentId with
    | none => .error "project has no agent configured for chat"
    | some agentId =>
      let u ← requireAgentAccess now s token (some agentId)
      pure (u, agentId)

/-- The agents a caller sees, all of them for none. -/
def visibleAgentIds : Option (List Uuid) :=
  match sessionUser now s token with
  | none => if s.users = [] then none else some []
  | some u =>
    if u.role = .admin then none
    else some ((s.assignments.filter (·.userId = u.userId)).map (·.agentId))

def forbidSystemAgentEdit (agentId : Option Uuid) : Except String Unit :=
  raiseIf ((agentId.bind s.db.cfg.agent?).any (·.isSystem) = true)
    "system agents cannot be edited from the dashboard -- connect directly to the database"

def touch : Site :=
  let see := fun w : WebSession => { w with lastSeenAt := now }
  { s with webSessions := update (some ·.token = token) see s.webSessions }

/-- The time a token was last seen is set when it resolves. -/
def seen : Site :=
  if (sessionUser now s token).isSome then touch now s token else s

end Guards

section Chats

variable (now : Time) (s : Site)

def chat? (userId : Uuid) (place : ChatPlace) : Option Chat :=
  s.chats.find? fun c => c.userId = userId ∧ c.place = place

/-- The place, the agent of its sessions and the project they belong to. -/
structure ChatTarget where
  place : ChatPlace
  agentId : Uuid
  projectId : Option Uuid

def sendTo (u : User) (target : ChatTarget) (message : Option String) :
    Except String (Site × Uuid × Uuid) := do
  raiseIf (trimmed message = none) "message required"
  match chat? s u.userId target.place with
  | none =>
    let (db, sessionId, taskId) ← fnCreateSession now s.db target.agentId (trimmed message)
      target.projectId none
    pure ({ s with db, chats := s.chats ++ [⟨u.userId, target.place, sessionId⟩] }, sessionId, taskId)
  | some c =>
    let (db, taskId) ← fnContinueSession now s.db c.sessionId (trimmed message)
    pure ({ s with db }, c.sessionId, taskId)

def agentTarget (agentId : Uuid) : ChatTarget :=
  ⟨.agent agentId, agentId, none⟩

def projectTarget (projectId agentId : Uuid) : ChatTarget :=
  ⟨.project projectId, agentId, some projectId⟩

def fnChatSend (token : Option String) (agentId : Option Uuid) (message : Option String) :
    Except String (Site × Uuid × Uuid) := do
  let u ← requireAgentAccess now s token agentId
  match agentId with
  | none => .error "agent inactive or missing"
  | some id => sendTo now s u (agentTarget id) message

def fnProjectChatSend (token : Option String) (projectId : Option Uuid) (message : Option String) :
    Except String (Site × Uuid × Uuid) := do
  let (u, agentId) ← requireProjectAccess now s token projectId
  match projectId with
  | none => .error "project inactive or missing"
  | some id => sendTo now s u (projectTarget id agentId) message

end Chats

end Allgres
