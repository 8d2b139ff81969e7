import Allgres.Json

/-! `run_in_subtransaction` of `sandbox.rs`, over what PostgreSQL keeps for the session of a
background worker. -/

namespace Allgres

structure Statement where
  sql : String
  args : List Json := []
  deriving Inhabited

/-- What `Spi` makes of a statement: a value, an error code it hands back, or an error that is
raised through it. -/
inductive SpiOutcome where
  | ok (v : Option Json)
  | err (e : String)
  | raised (message : String)

/-- What a statement does. It leaves the armed timer alone unless this one fires meanwhile. -/
structure Reaction (δ : Type) where
  db : δ
  outcome : SpiOutcome
  fired : Bool := false

/-- The server behind a session. The number counts the statements, so that a statement may end
otherwise when it comes again. -/
structure PgServer (δ : Type) where
  exec : Nat → Statement → δ → Reaction δ
  nanos : Nat → Nat
  keepsPrivileges : Bool := false

/-- The database as the session sees it, what it was when each open level of transaction began,
the innermost first, and the statement timer. -/
structure WorkerSession (δ : Type) where
  db : δ
  begun : List δ := []
  timer : Option Nat := none
  clock : Nat := 0

namespace WorkerSession

variable {δ : Type}

def startTransaction (s : WorkerSession δ) : WorkerSession δ :=
  match s.begun with
  | [] => { s with begun := [s.db] }
  | _ => s

/-- `CommitTransactionCommand` ends the transaction at its outermost level only. -/
def commitTransaction (s : WorkerSession δ) : WorkerSession δ :=
  match s.begun with
  | [_] => { s with begun := [] }
  | _ => s

def beginSub (s : WorkerSession δ) : WorkerSession δ :=
  { s with begun := s.db :: s.begun }

def releaseSub (s : WorkerSession δ) : WorkerSession δ :=
  { s with begun := s.begun.tail }

def rollbackSub (s : WorkerSession δ) : WorkerSession δ :=
  match s.begun with
  | [] => s
  | db :: rest => { s with db := db, begun := rest }

def enableTimeout (ms : Nat) (s : WorkerSession δ) : WorkerSession δ :=
  { s with timer := some ms }

def disableTimeout (s : WorkerSession δ) : WorkerSession δ :=
  { s with timer := none }

def after (s : WorkerSession δ) (r : Reaction δ) : WorkerSession δ :=
  { s with
    db := r.db
    timer := if r.fired then none else s.timer
    clock := s.clock + 1 }

/-- Outside of every transaction, and with no timer armed. -/
structure Idle (s : WorkerSession δ) : Prop where
  begun : s.begun = []
  timer : s.timer = none

end WorkerSession

/-- How a closure ends: it returns, or an error is thrown out of it. -/
inductive Ended (α : Type) where
  | returned (a : α)
  | thrown (message : String)

abbrev SpiAction (δ α : Type) :=
  WorkerSession δ → WorkerSession δ × Ended α

def SpiOutcome.ended : SpiOutcome → Ended (Except String (Option Json))
  | ok v => .returned (.ok v)
  | err e => .returned (.error e)
  | raised message => .thrown message

section Closures

variable {δ : Type}

def spi (P : PgServer δ) (st : Statement) : SpiAction δ (Except String (Option Json)) := fun s =>
  let r := P.exec s.clock st s.db
  (s.after r, r.outcome.ended)

/-- Statements that are joined by `&&` on their `is_ok()`. -/
def allOk (P : PgServer δ) : List Statement → SpiAction δ Bool
  | [] => fun s => (s, .returned true)
  | st :: rest => fun s =>
    match spi P st s with
    | (s', .returned (.ok _)) => allOk P rest s'
    | (s', .returned (.error _)) => (s', .returned false)
    | (s', .thrown e) => (s', .thrown e)

def dropPrivileges (P : PgServer δ) : SpiAction δ Bool := fun s =>
  if P.keepsPrivileges then (s, .returned true)
  else match spi P ⟨"SELECT allgres.assume_worker_role()", []⟩ s with
    | (s', .returned (.ok (some (.bool true)))) => (s', .returned true)
    | (s', .returned _) => (s', .returned false)
    | (s', .thrown e) => (s', .thrown e)

/-- What every job does before its own work: it drops its privileges and runs some settings. -/
def prepare (P : PgServer δ) (settings : List Statement) : SpiAction δ Bool := fun s =>
  match dropPrivileges P s with
  | (s', .returned true) => allOk P settings s'
  | (s', .returned false) => (s', .returned false)
  | (s', .thrown e) => (s', .thrown e)

abbrev Closure (δ : Type) :=
  SpiAction δ (Except String Json)

def runInSubtransaction (f : Closure δ) (s : WorkerSession δ) : WorkerSession δ × Except String Json :=
  match f s.beginSub with
  | (s', .returned (.ok v)) => (s'.releaseSub, .ok v)
  | (s', .returned (.error e)) => (s', .error e)
  | (s', .thrown e) => (s'.rollbackSub, .error e)

/-- `BackgroundWorker::transaction`. -/
def transaction {α : Type} (f : WorkerSession δ → WorkerSession δ × α) (s : WorkerSession δ) :
    WorkerSession δ × α :=
  let r := f s.startTransaction
  (r.1.commitTransaction, r.2)

end Closures

/-- A closure that opens no level and closes none, and arms no timer. -/
structure Flat {δ α : Type} (f : SpiAction δ α) : Prop where
  begun : ∀ s, (f s).1.begun = s.begun
  timer : ∀ s, s.timer = none → (f s).1.timer = none

section Flat

variable {δ : Type} (P : PgServer δ)

theorem spi_flat (st : Statement) : Flat (spi P st) := by
  constructor
  · intro s
    rfl
  · intro s hs
    simp [spi, WorkerSession.after, hs]

theorem allOk_flat (sts : List Statement) : Flat (allOk P sts) := by
  induction sts with
  | nil => exact ⟨fun _ => rfl, fun _ hs => hs⟩
  | cons st rest ih =>
    have hspi := spi_flat P st
    constructor
    · intro s
      have hbegun := hspi.begun s
      simp only [allOk]
      rcases hr : spi P st s with ⟨s', (_ | _) | _⟩ <;> rw [hr] at hbegun
      · exact hbegun
      · exact (ih.begun s').trans hbegun
      · exact hbegun
    · intro s hs
      have htimer := hspi.timer s hs
      simp only [allOk]
      rcases hr : spi P st s with ⟨s', (_ | _) | _⟩ <;> rw [hr] at htimer
      · exact htimer
      · exact ih.timer s' htimer
      · exact htimer

theorem dropPrivileges_session (s : WorkerSession δ) :
    (dropPrivileges P s).1 = s ∨
      (dropPrivileges P s).1 = (spi P ⟨"SELECT allgres.assume_worker_role()", []⟩ s).1 := by
  unfold dropPrivileges
  by_cases hk : P.keepsPrivileges = true
  · exact .inl (by rw [if_pos hk])
  · rw [if_neg hk]
    right
    split <;> rename_i hr <;> rw [hr]

theorem dropPrivileges_flat : Flat (dropPrivileges P) := by
  have hspi := spi_flat P ⟨"SELECT allgres.assume_worker_role()", []⟩
  constructor
  · intro s
    rcases dropPrivileges_session P s with h | h <;> rw [h]
    exact hspi.begun s
  · intro s hs
    rcases dropPrivileges_session P s with h | h <;> rw [h]
    · exact hs
    · exact hspi.timer s hs

theorem prepare_flat (settings : List Statement) : Flat (prepare P settings) := by
  have hdrop := dropPrivileges_flat P
  have hall := allOk_flat P settings
  constructor
  · intro s
    have hbegun := hdrop.begun s
    simp only [prepare]
    rcases hr : dropPrivileges P s with ⟨s', (_ | _) | _⟩ <;> rw [hr] at hbegun
    · exact hbegun
    · exact (hall.begun s').trans hbegun
    · exact hbegun
  · intro s hs
    have htimer := hdrop.timer s hs
    simp only [prepare]
    rcases hr : dropPrivileges P s with ⟨s', (_ | _) | _⟩ <;> rw [hr] at htimer
    · exact htimer
    · exact hall.timer s' htimer
    · exact htimer

end Flat

end Allgres
