import Allgres.Schema

/-! Grants. A grant of an agent is also a grant of the agents below it. -/

namespace Allgres

/-- The recursive `chain` of an agent and its parents. The table has no longer
chain than it has rows. -/
def parentChain (c : Config) : Nat → Option Uuid → List Agent
  | 0, _ => []
  | _ + 1, none => []
  | n + 1, some id => match c.agent? id with
    | some a => a :: parentChain c n a.parentAgentId
    | none => []

def agentChain (c : Config) (agentId : Uuid) : List Agent :=
  parentChain c (c.agents.length + 1) (some agentId)

/-- The grants of one kind an agent holds by itself or through its parents. -/
def grants (c : Config) (agentId : Uuid) (type : ResourceType) : List Permission :=
  c.permissions.filter fun p =>
    p.resourceType = type ∧ (agentChain c agentId).any (·.agentId = p.agentId)

/-- A missing reference never matches. -/
def agentHasPermission (c : Config) (agentId : Uuid) (type : ResourceType)
    (ref : Option String) : Bool :=
  match ref with
  | none => false
  | some r => (grants c agentId type).any fun p => lower p.resourceRef = lower r

def agentPermissionRefs (c : Config) (agentId : Uuid) (type : ResourceType) : List String :=
  ((grants c agentId type).map (·.resourceRef)).dedup

end Allgres
