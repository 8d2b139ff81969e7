import Allgres.Dashboard
import Allgres.Machine

/-! The branches of `dashboard_rpc` that an admin changes accounts with, and a site that serves
request after request. -/

namespace Allgres

open Raise Rows Runs

/-- What the server draws for a request: the token of a login, the id of a user, and the hash of
a password under a new salt. -/
structure Draws where
  token : String
  userId : Uuid
  hash : String → String

section Calls

variable (pgcrypto : Bool) (s : Site)

def Site.accounts : Accounts where
  users := s.users
  assignments := s.assignments
  agents := s.db.cfg.agents
  pgcrypto := pgcrypto

def Site.withAccounts (d : Accounts) : Site :=
  { s with users := d.users, assignments := d.assignments }

/-- A call alone in its transaction, with the text of the exception it may end in. -/
def accountCall (loc : AccountLoc) (raised : String) : Except String Site :=
  match accountCode.alone 5 loc (s.accounts pgcrypto) with
  | none => .error raised
  | some d => .ok (s.withAccounts d)

def notNull (column table : String) : String :=
  "null value in column \"" ++ column ++ "\" of relation \"" ++ table ++
    "\" violates not-null constraint"

def invalidRole (role : Option String) : Bool :=
  role.any fun text => (Role.ofText text).isNone

def createUserError (username password role : Option String) : String :=
  let name := btrim (orEmpty username)
  if pgcrypto = false then "pgcrypto is required for the accounts system but is not installed"
  else if name = "" then "username required"
  else if invalidRole role = true then "invalid role: " ++ orEmpty role
  else if (orEmpty password).length < 8 then "password must be at least 8 characters"
  else if role = none then notNull "role" "users"
  else if s.users.any (·.username = name) then
    "duplicate key value violates unique constraint \"users_username_key\""
  else "duplicate key value violates unique constraint \"users_pkey\""

def fnCreateUser (d : Draws) (username password role : Option String) :
    Except String (Site × Json) := do
  let s' ← accountCall pgcrypto s
    (.createUser d.userId (d.hash (orEmpty password)) username password role)
    (createUserError pgcrypto s username password role)
  pure (s', okReply [("user_id", idJson d.userId), ("username", .str (btrim (orEmpty username))),
    ("role", .ofText role),
    ("pg_role", .ofText ((s'.users.find? (·.userId = d.userId)).bind (·.pgRole)))])

def fnSetUserActive (id : Option Uuid) (active : Option Bool) : Except String (Site × Json) := do
  let s' ← accountCall pgcrypto s (.setUserActive id active)
    (if active = none then notNull "is_active" "users"
      else "cannot deactivate the last active admin")
  pure (s', okReply [])

def fnSetUserRole (id : Option Uuid) (role : Option String) : Except String (Site × Json) := do
  let s' ← accountCall pgcrypto s (.setUserRole id role)
    (if role = none then notNull "role" "users"
      else if invalidRole role = true then "invalid role: " ++ orEmpty role
      else "cannot demote the last active admin")
  pure (s', okReply [])

end Calls

section Assignments

variable (s : Site)

def assignmentsTable : String :=
  "user_agent_assignments"

def unknownKey (constraint : String) : String :=
  "insert or update on table \"" ++ assignmentsTable ++ "\" violates foreign key constraint \"" ++
    assignmentsTable ++ constraint ++ "\""

def insertAssignments (userId : Uuid) :
    List (Option Uuid) → List Assignment → Except String (List Assignment)
  | [], rows => .ok rows
  | none :: _, _ => .error (notNull "agent_id" assignmentsTable)
  | some agentId :: ids, rows =>
    if rows.contains ⟨userId, agentId⟩ then
      .error "duplicate key value violates unique constraint \"user_agent_assignments_pkey\""
    else insertAssignments userId ids (rows ++ [⟨userId, agentId⟩])

def checkKeys (userId : Uuid) (agentIds : List (Option Uuid)) : Except String Unit := do
  raiseIf (s.users.any (·.userId = userId) = false) (unknownKey "_user_id_fkey")
  raiseIf ((agentIds.all fun id => (id.bind s.db.cfg.agent?).isSome) = false)
    (unknownKey "_agent_id_fkey")

def fnSetUserAssignments (userId : Option Uuid) (agentIds : List (Option Uuid)) :
    Except String (Site × Json) := do
  let kept := s.assignments.filter fun a => some a.userId ≠ userId
  match userId, agentIds with
  | _, [] => pure ({ s with assignments := kept }, okReply [])
  | none, _ => .error (notNull "user_id" assignmentsTable)
  | some id, agentIds =>
    let rows ← insertAssignments id agentIds kept
    checkKeys s id agentIds
    pure ({ s with assignments := rows }, okReply [])

def fnSetUserAssignment (userId agentId : Option Uuid) (assigned : Option Bool) :
    Except String (Site × Json) := do
  if assigned = some true then
    match userId, agentId with
    | none, _ => .error (notNull "user_id" assignmentsTable)
    | some _, none => .error (notNull "agent_id" assignmentsTable)
    | some u, some a =>
      -- on conflict do nothing
      if s.assignments.contains ⟨u, a⟩ then pure (s, okReply [])
      else
        checkKeys s u [some a]
        pure ({ s with assignments := s.assignments ++ [⟨u, a⟩] }, okReply [])
  else
    let kept := s.assignments.filter fun a => ¬ (some a.userId = userId ∧ some a.agentId = agentId)
    pure ({ s with assignments := kept }, okReply [])

end Assignments

inductive AccountAction where
  | usersCreate | usersSetActive | usersSetRole | assignmentsSet | assignmentsToggle
  deriving DecidableEq

def accountBranches : List (String × AccountAction) :=
  [("users.create", .usersCreate), ("users.set_active", .usersSetActive),
    ("users.set_role", .usersSetRole), ("assignments.set", .assignmentsSet),
    ("assignments.toggle", .assignmentsToggle)]

def castUuids : List Json → Except String (List (Option Uuid))
  | [] => .ok []
  | x :: xs => do
    let id ← castOrRaise castUuid "uuid" x.asText
    let ids ← castUuids xs
    pure (id :: ids)

/-- `jsonb_array_elements_text`, none where the key is not there. -/
def agentIdsField (req : Json) : Except String (List (Option Uuid)) :=
  match req.get "agent_ids" with
  | none => .ok []
  | some (.arr xs) => castUuids xs
  | some (.obj _) => .error "cannot extract elements from an object"
  | some _ => .error "cannot extract elements from a scalar"

def AccountAction.branch (pgcrypto : Bool) (d : Draws) (s : Site) (req : Json) :
    AccountAction → Except String (Site × Json)
  | usersCreate => fnCreateUser pgcrypto s d (req.text "username") (req.text "password")
      (some ((nullIfEmpty (req.text "role")).getD "user"))
  | usersSetActive => do
    let id ← uuidField req "user_id"
    let active ← boolField req "is_active"
    fnSetUserActive pgcrypto s id active
  | usersSetRole => do
    let id ← uuidField req "user_id"
    fnSetUserRole pgcrypto s id (req.text "role")
  | assignmentsSet => do
    let id ← uuidField req "user_id"
    let ids ← agentIdsField req
    fnSetUserAssignments s id ids
  | assignmentsToggle => do
    let id ← uuidField req "user_id"
    let agentId ← uuidField req "agent_id"
    let assigned ← boolField req "assigned"
    fnSetUserAssignment s id agentId assigned

/-- The branches that run SQL as the owner of the tables: that of the request itself, whatever it
says, and the selftest with accounts of its own. -/
def ownerBranches : List String :=
  ["sql.execute", "selftest"]

/-- What a site has besides its tables: the password check where pgcrypto is installed, and the
branches of an admin that are not about accounts. What these do to the control plane they do by
its own operations, but for the owner's SQL, which may leave any site behind. -/
structure Works (ρ : Type) where
  pg : Postgres
  crypt : Option (String → String → Bool)
  record : Json → Site → ρ → ρ
  perform : String → Json → Deployment ρ → Except String (List Event × ρ × Json)
  asOwner : String → Json → Deployment ρ → Except String (Deployment ρ × Json)

section Serving

variable {ρ : Type} (w : Works ρ)

/-- The control plane at work on a site. -/
def Works.elsewhere (h : Deployment ρ) (es : List Event) (rest : ρ) : Deployment ρ where
  site := { h.site with db := run (step w.pg) h.site.db es }
  rest := rest

def Works.backend (d : Draws) : Backend ρ where
  pg := w.pg
  crypt := w.crypt
  record := w.record
  token := d.token
  perform := fun action req h =>
    match accountBranches.lookup action with
    | some a => (a.branch w.crypt.isSome d h.site req).map fun x =>
        (⟨x.1, w.record req x.1 h.rest⟩, x.2)
    | none =>
      if ownerBranches.contains action then w.asOwner action req h
      else (w.perform action req h).map fun x => (w.elsewhere h x.1 x.2.1, x.2.2)

/-- A request with its time, or work of the control plane. -/
inductive SiteEvent (ρ : Type) where
  | request (now : Time) (d : Draws) (req : Json)
  | work (e : Event) (rest : ρ)

/-- The event asks for SQL of the owner. -/
def SiteEvent.asOwner : SiteEvent ρ → Bool
  | .request _ _ req => ownerBranches.contains (rpcAction req)
  | .work _ _ => false

def serveSite (h : Deployment ρ) : SiteEvent ρ → Deployment ρ
  | .request now d req => (dashboardRpc (w.backend d) now h req).1
  | .work e rest => w.elsewhere h [e] rest

end Serving

end Allgres
