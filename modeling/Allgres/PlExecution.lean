import Allgres.PlPgSql

/-! What a call of a routine answers. `FOUND` and `ROW_COUNT` are fresh at its start; everything else
that the statements read and write is left to a machine. -/

namespace Allgres

open PlToken

/-- How a statement or a block ends. -/
inductive PlEnd where
  | goesOn
  | exits (label : PlToken)
  | returns
  | raises
  deriving DecidableEq

/-- The implicit variables of a call, and all that is left. -/
structure PlState (σ : Type) where
  found : Bool
  rowCount : Nat
  data : σ

def PlState.fresh {σ : Type} (data : σ) : PlState σ :=
  ⟨false, 0, data⟩

/-- Where a statement stands: in which source, under which directives, and behind which labels and
declarations, the nearest first. -/
structure PlPlace where
  source : String
  options : List (List PlToken)
  around : List (List PlToken)

def PlPlace.within (p : PlPlace) (front : List (List PlToken)) : PlPlace :=
  { p with around := front.reverse ++ p.around }

@[simp] theorem PlPlace.within_nil (p : PlPlace) : p.within [] = p := rfl

/-- How the texts of a routine are evaluated. A query answers with the number of its rows, or raises
an error. `undo` takes the database back to the state in which a block was entered and leaves the
variables. -/
structure PlMachine (σ ω : Type) where
  query : PlPlace → List PlToken → PlState σ → σ × Option Nat
  exec : PlPlace → List PlToken → PlState σ → PlState σ × PlEnd
  catches : PlPlace → List PlToken → PlState σ → Bool
  undo : σ → σ → σ
  answer : PlEnd → σ → ω

def isLabel : List PlToken → Bool
  | t :: _ => t = symbol "<<"
  | [] => false

/-- The label of a block is the first of what stands in front of it. -/
def labelOf : List (List PlToken) → Option PlToken
  | (t :: l :: _) :: _ => if t = symbol "<<" then some l else none
  | _ => none

section Ends

variable {σ : Type}

def andThen (r : PlState σ × PlEnd) (f : PlState σ → PlState σ × PlEnd) : PlState σ × PlEnd :=
  match r with
  | (st, .goesOn) => f st
  | r => r

def orElse (r : PlState σ × PlEnd) (f : PlState σ → PlState σ × PlEnd) : PlState σ × PlEnd :=
  match r with
  | (st, .raises) => f st
  | r => r

/-- An `EXIT` ends the block that has its label. -/
def closes (front : List (List PlToken)) (r : PlState σ × PlEnd) : PlState σ × PlEnd :=
  match r with
  | (st, .exits l) => if labelOf front = some l then (st, .goesOn) else (st, .exits l)
  | r => r

end Ends

namespace PlMachine

variable {σ ω : Type} (M : PlMachine σ ω)

/-- `PERFORM` sets `FOUND` and `ROW_COUNT`. -/
def perform (p : PlPlace) (expr : List PlToken) (st : PlState σ) : PlState σ × PlEnd :=
  match M.query p expr st with
  | (data, some rows) => (⟨decide (rows ≠ 0), rows, data⟩, .goesOn)
  | (data, none) => ({ st with data := data }, .raises)

def runFront (p : PlPlace) : List (List PlToken) → PlState σ → PlState σ × PlEnd
  | [], st => (st, .goesOn)
  | t :: front, st =>
    if isLabel t then runFront (p.within [t]) front st
    else andThen (M.exec p t st) fun st' => runFront (p.within [t]) front st'

/-- The state an error leaves to the handlers of a block that was entered in `entered`. -/
def caught (entered : PlState σ) (handlers : List (List PlToken × List PlStmt)) (st : PlState σ) : PlState σ :=
  if handlers.isEmpty then st else { st with data := M.undo entered.data st.data }

mutual

def runStmt (p : PlPlace) : PlStmt → PlState σ → PlState σ × PlEnd
  | .perform expr, st => M.perform p expr st
  | .other text, st => M.exec p text st
  | .block b, st => runBlock p b st

def runStmts (p : PlPlace) : List PlStmt → PlState σ → PlState σ × PlEnd
  | [], st => (st, .goesOn)
  | s :: ss, st => andThen (runStmt p s st) fun st' => runStmts p ss st'

def runHandlers (p : PlPlace) : List (List PlToken × List PlStmt) → PlState σ → PlState σ × PlEnd
  | [], st => (st, .raises)
  | (condition, ss) :: rest, st =>
    if M.catches p condition st then runStmts p ss st else runHandlers p rest st

/-- The handlers of a block are about its statements, not about what stands in front of it. -/
def runBlock (p : PlPlace) : PlBlock → PlState σ → PlState σ × PlEnd
  | .mk front stmts handlers, st =>
    andThen (M.runFront p front st) fun st' =>
      closes front (orElse (runStmts (p.within front) stmts st') fun st'' =>
        runHandlers (p.within front) handlers (M.caught st' handlers st''))

end

/-- What the caller gets of a block that is run from a state. -/
def answers (p : PlPlace) (b : PlBlock) (st : PlState σ) : ω :=
  let r := M.runBlock p b st
  M.answer r.2 r.1.data

end PlMachine

/-- A call of the routine that was created from a source. -/
def PlPgSql.call {σ ω : Type} (L : PlPgSql) (M : PlMachine σ ω) (source : String) (data : σ) : Option ω :=
  (L.parse source).map fun r => M.answers ⟨source, r.1, []⟩ r.2 (.fresh data)

section Nested

variable {σ ω : Type} {M : PlMachine σ ω} {p : PlPlace} {g : List PlToken} {b : PlBlock} {st : PlState σ}

/-- A block around some statements, with nothing in front of them and no handlers. -/
theorem runBlock_bare (ss : List PlStmt) : M.runBlock p (.mk [] ss []) st = M.runStmts p ss st := by
  simp only [PlMachine.runBlock, PlMachine.runFront, andThen, PlPlace.within_nil]
  rcases M.runStmts p ss st with ⟨st', _ | l | _ | _⟩
  · rfl
  · simp [orElse, closes, labelOf]
  · rfl
  · simp [orElse, closes, PlMachine.runHandlers, PlMachine.caught]

/-- A block that stands alone in another one, behind a query that answers, runs as it does by itself,
but for what `PERFORM` has set. -/
theorem runBlock_nested {data : σ} {rows : Nat} (hg : M.query p g st = (data, some rows)) :
    M.runBlock p (.mk [] [.perform g, .block b] []) st = M.runBlock p b ⟨decide (rows ≠ 0), rows, data⟩ := by
  rw [runBlock_bare]
  simp only [PlMachine.runStmts, PlMachine.runStmt, PlMachine.perform, hg, andThen]
  rcases M.runBlock p b ⟨decide (rows ≠ 0), rows, data⟩ with ⟨st', _ | l | _ | _⟩ <;> rfl

end Nested

end Allgres
