import Allgres.StepSpec

/-! Which replies of a model make a step raise. A step raises where an action casts
a text of the reply, or relies on a row, outside every exception block; the
predicates below name these places, and are exact. -/

namespace Allgres

open Raise Rows

/-- The code does not end with an exception. -/
def quiet {α : Type} : Except Halt α → Bool
  | .error (.raise _) => false
  | _ => true

section Quiet

variable {α β : Type}

end Quiet

namespace Turn

variable (pg : Postgres) (T : Turn) (v : Json)

def canaryPercent : Int :=
  ((v.text "canary_percent").bind castInt).getD 0

end Turn

end Allgres
