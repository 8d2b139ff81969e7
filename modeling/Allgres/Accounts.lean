import Allgres.ReadCommitted
import Allgres.Rows
import Allgres.Schema
import Allgres.Text

/-! The user accounts: `fn_create_user`, `fn_set_user_active` and `fn_set_user_role` as the
statements that a transaction runs. -/

namespace Allgres

open ReadCommitted Rows

inductive Role where
  | admin | user
  deriving DecidableEq

def Role.ofText (s : String) : Option Role :=
  if s = "admin" then some .admin else if s = "user" then some .user else none

structure User where
  userId : Uuid
  username : String
  passwordHash : String := ""
  role : Role
  isActive : Bool := true
  pgRole : Option String := none
  deriving DecidableEq

def User.isActiveAdmin (u : User) : Bool :=
  u.role = .admin && u.isActive

/-- `user_agent_assignments`. -/
structure Assignment where
  userId : Uuid
  agentId : Uuid
  deriving DecidableEq

structure Accounts where
  users : List User := []
  assignments : List Assignment := []
  agents : List Agent := []
  pgcrypto : Bool := true

namespace Accounts

def ids (d : Accounts) : List Uuid :=
  d.users.map (·.userId)

def activeAdmins (d : Accounts) : List User :=
  d.users.filter (·.isActiveAdmin)

def hasUser (d : Accounts) (id : Option Uuid) : Bool :=
  d.users.any (some ·.userId = id)

def updateUser (id : Option Uuid) (f : User → User) (d : Accounts) : Accounts :=
  { d with users := update (some ·.userId = id) f d.users }

def insertUser (row : User) (d : Accounts) : Accounts :=
  { d with users := d.users ++ [row] }

/-- The rows of `general`, on conflict do nothing. -/
def assignGeneral (id : Uuid) (d : Accounts) : Accounts :=
  let general := d.agents.filter fun a => a.name = "general" ∧ a.isActive
  let rows := general.map fun a => Assignment.mk id a.agentId
  { d with assignments := d.assignments ++ rows.filter fun r => !d.assignments.contains r }

end Accounts

/-- The advisory lock, a row of `users` and an entry of its unique index. -/
inductive AccountLock where
  | lastActiveAdmin | user (id : Option Uuid) | username (name : String)
  deriving DecidableEq

/-- The statements. A call that creates a user has the id and the hash which the server
generates for it. -/
inductive AccountLoc where
  | createUser (id : Uuid) (hash : String) (username password role : Option String)
  | provisionUserRole (id : Uuid) (role : Role)
  | assignGeneral (id : Uuid) (role : Role)
  | setUserActive (id : Option Uuid) (active : Option Bool)
  | checkActive (id : Option Uuid)
  | updateActive (id : Option Uuid) (active : Option Bool)
  | setUserRole (id : Option Uuid) (role : Option String)
  | checkRole (id : Option Uuid)
  | updateRole (id : Option Uuid) (role : Option Role)
  | done

namespace AccountLoc

def entry : AccountLoc → Bool
  | createUser .. => true
  | setUserActive .. => true
  | setUserRole .. => true
  | _ => false

def final : AccountLoc → Bool
  | done => true
  | _ => false

/-- An update locks the row it finds. -/
def rowLock (d : Accounts) (id : Option Uuid) : List AccountLock :=
  if d.hasUser id then [.user id] else []

def locks : AccountLoc → Accounts → List AccountLock
  | createUser id _ username _ _, _ => [.user (some id), .username (btrim (orEmpty username))]
  | provisionUserRole id _, d => rowLock d (some id)
  | setUserActive _ active, _ => if active = some false then [.lastActiveAdmin] else []
  | setUserRole _ role, _ => if (role.bind Role.ofText) = some .user then [.lastActiveAdmin] else []
  | updateActive id _, d => rowLock d id
  | updateRole id _, d => rowLock d id
  | _, _ => []

def newUser (d : Accounts) (id : Uuid) (hash : String) (username password role : Option String) :
    Option User :=
  let name := btrim (orEmpty username)
  if d.pgcrypto = false ∨ name = "" ∨ (orEmpty password).length < 8 then none
  else match role.bind Role.ofText with
    | none => none
    | some r =>
      if d.users.any fun u => u.userId = id ∨ u.username = name then none
      else some
        { userId := id
          username := name
          passwordHash := hash
          role := r }

/-- The count that guards the last active admin. -/
def isLastAdmin (d : Accounts) (id : Option Uuid) : Bool :=
  d.users.any (fun u => some u.userId = id && u.isActiveAdmin) && d.activeAdmins.length ≤ 1

/-- A column of the row that is found, which must not be null. -/
def setColumn {α : Type} (d : Accounts) (id : Option Uuid) (value : Option α)
    (set : α → User → User) : Option (AccountLoc × (Accounts → Accounts)) :=
  if d.hasUser id then
    value.map fun v => (done, Accounts.updateUser id (set v))
  else some (done, fun d => d)

def exec : AccountLoc → Accounts → Option (AccountLoc × (Accounts → Accounts))
  | createUser id hash username password role, d =>
    (newUser d id hash username password role).map fun row =>
      (provisionUserRole id row.role, Accounts.insertUser row)
  | provisionUserRole id role, d =>
    if d.hasUser (some id) then some (assignGeneral id role,
      Accounts.updateUser (some id) fun u =>
        { u with pgRole := u.pgRole.or (some ("allgres_user_" ++ uuidHex id)) })
    else none
  | assignGeneral id role, _ =>
    some (done, if role = .user then Accounts.assignGeneral id else fun d => d)
  | setUserActive id active, _ =>
    some (if active = some false then checkActive id else updateActive id active, fun d => d)
  | checkActive id, d =>
    if isLastAdmin d id then none else some (updateActive id (some false), fun d => d)
  | updateActive id active, d => setColumn d id active fun v u => { u with isActive := v }
  | setUserRole id role, _ => match role with
    | none => some (updateRole id none, fun d => d)
    | some text => match Role.ofText text with
      | none => none
      | some .user => some (checkRole id, fun d => d)
      | some .admin => some (updateRole id (some .admin), fun d => d)
  | checkRole id, d =>
    if isLastAdmin d id then none else some (updateRole id (some .user), fun d => d)
  | updateRole id role, d => setColumn d id role fun r u => { u with role := r }
  | done, _ => none

end AccountLoc

def accountCode : Code Accounts AccountLoc AccountLock where
  entry := AccountLoc.entry
  final := AccountLoc.final
  locks := AccountLoc.locks
  exec := AccountLoc.exec

end Allgres
