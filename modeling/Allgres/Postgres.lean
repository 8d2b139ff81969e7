import Allgres.NodeDump
import Allgres.Schema

/-! What the control plane takes from the server it runs in. -/

namespace Allgres

/-- The server functions whose answers the model does not compute. An error is
the text of the exception. -/
structure Postgres where
  rawParser : String → Except String Nodes
  explain : Config → String → Except String Rat
  md5 : String → String := id
  /-- `LEAST(1.0, GREATEST(0.0, s::real))`. -/
  unitReal : String → Option Rat := fun _ => none
  castTimestamptz : String → Option Time := fun _ => none
  timestampText : Time → String := fun t => toString t
  vectorAvailable : Bool := false
  /-- The cosine similarity of each stored vector with a query. -/
  similarities : List (List (Option Float8)) → List (Option Float8) → Except String (List (Option Float8)) :=
    fun stored _ => .ok (stored.map fun _ => none)
  /-- The index over the stored vectors, which a write of one makes or replaces. -/
  ensureVectorIndex : Config → Except String Unit := fun _ => .ok ()
  float8Le : Float8 → Float8 → Bool := fun a b => decide (a ≤ b)
  /-- `s + 0.15`. -/
  keywordBoost : Float8 → Float8 := id
  /-- `to_tsvector('simple', d) @@ plainto_tsquery('simple', q)`. -/
  keywordMatch : String → String → Bool := fun _ _ => false
  /-- The two fixed texts of the prompts: the list of actions, and the policy of a new agent. -/
  actionsText : String := ""
  defaultPrompt : String := ""

end Allgres
