import Allgres.RuntimeWorker
import Mathlib.Algebra.Order.Group.Multiset

/-! Runs of the worker. On the database they are runs of the control plane, whatever the order of
their steps; and the calls that are claimed, performed and submitted are counted on their way
through the pool. -/

namespace Allgres.RuntimeWorker

open Raise Rows Runs ThreadPool PerformHttp

section Refinement

variable (pg : Postgres)

/-- The worker's transaction on a queue without a task, as the control plane sees it. -/
def edited (t : Tick) (r : Except String Config) : List Event :=
  match r with
  | .ok c => [⟨t.now, .edit fun _ => c⟩]
  | .error _ => []

def submission (t : Tick) (db : Db) (r : OutboundResult) : List Event :=
  match r.queue with
  | .outbound => [⟨t.now, .completeOutbound r.callId (some r.status) (some (sanitized r.body))⟩]
  | _ => edited t ((submit pg t db r).map (·.cfg))

/-- The transactions of a pump before its claim. -/
def pumped (t : Tick) : List Event :=
  [⟨t.now, .watchdog (some watchdogSeconds) t.locked⟩, ⟨t.now, .dispatch t.roll t.locked⟩]

def pump (t : Tick) (limit : Nat) : List Event :=
  pumped t ++ [⟨t.now, .claim .outboundCalls (some limit) none t.locked⟩]

def claim (t : Tick) (limit : Nat) (queue : OutboundQueue) (db : Db) : List Event :=
  match queue with
  | .outbound => if (dispatchAndClaim pg t limit db).isOk then pump t limit else []
  | _ => edited t ((claimJobs pg t limit queue db).map (·.1.cfg))

/-- The transactions of an event, as events of the control plane. -/
def transactions (s : System) : WorkerEvent → List Event
  | .session e => if Op.reserved e.op then [] else [e]
  | .tick t => match s.worker.phase with
    | .submit r => if t.dropped then submission pg t s.db r else []
    | .claim queue =>
      if s.worker.inFlight < capacity ∧ t.dropped then
        claim pg t (capacity - s.worker.inFlight) queue s.db
      else []
    | _ => []
  | _ => []

def trace : System → List WorkerEvent → List Event
  | _, [] => []
  | s, e :: es => transactions pg s e ++ trace (step pg s e) es

variable {pg} {t : Tick} {db db' : Db}

theorem map_cfg_eq_ok {α : Type} {x : Except String α} {f : α → Config}
    (h : x.map (fun a => { db with cfg := f a }) = .ok db') :
    x.map f = .ok db'.cfg ∧ db' = { db with cfg := db'.cfg } := by
  cases x with
  | error e => cases h
  | ok a =>
    obtain rfl := Except.ok.inj h
    exact ⟨rfl, rfl⟩

/-- A result of a queue without a task is written to the tables of the operators. -/
theorem submit_operator {r : OutboundResult} (hq : r.queue ≠ .outbound)
    (h : submit pg t db r = .ok db') : db' = { db with cfg := db'.cfg } := by
  unfold submit at h
  split at h
  · rename_i heq
    exact absurd heq hq
  · exact (map_cfg_eq_ok h).2
  · exact (map_cfg_eq_ok h).2
  · exact (map_cfg_eq_ok h).2

theorem run_submission {r : OutboundResult} (h : submit pg t db r = .ok db') :
    run (Allgres.step pg) db (submission pg t db r) = db' := by
  unfold submission
  split
  · rename_i hq
    simp only [submit, hq] at h
    simp [run, Allgres.step, Allgres.perform, h]
  · rename_i hq
    rw [h]
    exact (submit_operator hq h).symm

theorem run_submission_error {r : OutboundResult} {e : String} (h : submit pg t db r = .error e) :
    run (Allgres.step pg) db (submission pg t db r) = db := by
  unfold submission
  split
  · rename_i hq
    simp only [submit, hq] at h
    simp [run, Allgres.step, Allgres.perform, h]
  · rw [h]
    rfl

/-- The pump of the worker is a sweep and a dispatch of the control plane, and a claim of what they
leave. -/
theorem dispatchAndClaim_eq {limit : Nat} {r : Db × List Handed}
    (h : dispatchAndClaim pg t limit db = .ok r) :
    r = fnClaim pg t.now .outboundCalls (some limit) none t.locked
      (run (Allgres.step pg) db (pumped t)) := by
  unfold dispatchAndClaim at h
  obtain ⟨⟨dispatched, out⟩, hd, h⟩ := bind_eq_ok.mp h
  obtain rfl := Except.ok.inj h
  have hwatch : Allgres.step pg db ⟨t.now, .watchdog (some watchdogSeconds) t.locked⟩ =
      fnWatchdog pg t.now (some watchdogSeconds) t.locked db := rfl
  have hdispatch : Allgres.step pg (fnWatchdog pg t.now (some watchdogSeconds) t.locked db)
      ⟨t.now, .dispatch t.roll t.locked⟩ = dispatched := by
    simp [Allgres.step, Allgres.perform, hd, Except.map]
  simp only [run, pumped, List.foldl_cons, List.foldl_nil, hwatch, hdispatch]

theorem dispatchAndClaim_run {limit : Nat} {r : Db × List Handed}
    (h : dispatchAndClaim pg t limit db = .ok r) :
    run (Allgres.step pg) db (pump t limit) = r.1 ∧
      handedIds pg db (pump t limit) = r.2.map Handed.callId := by
  rw [dispatchAndClaim_eq h]
  constructor
  · rw [pump, run_append]
    generalize run (Allgres.step pg) db (pumped t) = d
    rfl
  · simp only [pump, pumped, List.cons_append, List.nil_append, handedIds, handed, List.map_nil,
      List.append_nil, run, List.foldl_cons, List.foldl_nil]

theorem claimJobs_operator {limit : Nat} {queue : OutboundQueue} {r : Db × List OutboundJob}
    (hq : queue ≠ .outbound) (h : claimJobs pg t limit queue db = .ok r) :
    r.1 = { db with cfg := r.1.cfg } := by
  unfold claimJobs at h
  split at h
  · exact absurd rfl hq
  · cases hc : fnClaimOauth t.now (some limit) t.locked db.cfg with
    | error e =>
      rw [hc] at h
      cases h
    | ok x =>
      rw [hc] at h
      obtain rfl := Except.ok.inj h
      rfl
  · obtain rfl := Except.ok.inj h
    rfl
  · obtain rfl := Except.ok.inj h
    rfl

theorem run_claim {limit : Nat} {queue : OutboundQueue} {r : Db × List OutboundJob}
    (h : claimJobs pg t limit queue db = .ok r) :
    run (Allgres.step pg) db (claim pg t limit queue db) = r.1 := by
  unfold claim
  split
  · simp only [claimJobs] at h
    cases hd : dispatchAndClaim pg t limit db with
    | error e =>
      rw [hd] at h
      cases h
    | ok x =>
      rw [hd] at h
      obtain rfl := Except.ok.inj h
      exact (dispatchAndClaim_run hd).1
  · rename_i hq
    rw [h]
    exact (claimJobs_operator hq h).symm

theorem claim_error {limit : Nat} {queue : OutboundQueue} {e : String}
    (h : claimJobs pg t limit queue db = .error e) : claim pg t limit queue db = [] := by
  unfold claim
  split
  · simp only [claimJobs] at h
    cases hd : dispatchAndClaim pg t limit db with
    | error e => rfl
    | ok x =>
      rw [hd] at h
      cases h
  · rw [h]
    rfl

theorem spi_db (s : System) (t : Tick) :
    (s.spi pg t).db = run (Allgres.step pg) s.db (transactions pg s (.tick t)) := by
  cases hp : s.worker.phase with
  | harvest =>
    simp only [System.spi, transactions, hp]
    split <;> rfl
  | submit r =>
    simp only [System.spi, transactions, hp]
    split
    · split
      · rename_i db hdb
        exact (run_submission hdb).symm
      · rename_i e he
        exact (run_submission_error he).symm
    · rfl
  | claim queue =>
    simp only [System.spi, transactions, hp]
    split
    · split
      · rename_i db calls hdb
        exact (run_claim hdb).symm
      · rename_i e he
        rw [claim_error he]
        rfl
    · rfl
  | send queue calls => cases calls <;> simp only [System.spi, transactions, hp] <;> rfl
  | look | ask | flag =>
    simp only [System.spi, transactions, hp]
    rfl

/-- On the database a step of the system is a run of the control plane. -/
theorem step_db (s : System) (e : WorkerEvent) :
    (step pg s e).db = run (Allgres.step pg) s.db (transactions pg s e) := by
  cases e with
  | session e =>
    unfold step transactions
    dsimp only
    split <;> rfl
  | tick t => exact spi_db s t
  | register i =>
    simp only [step, System.register, transactions]
    split <;> rfl
  | perform i U parse =>
    simp only [step, System.perform, transactions]
    split <;> rfl
  | take | deliver | crash => rfl

theorem run_db (s : System) (es : List WorkerEvent) :
    (run (step pg) s es).db = run (Allgres.step pg) s.db (trace pg s es) := by
  induction es generalizing s with
  | nil => rfl
  | cons e es ih =>
    have hrun : run (step pg) s (e :: es) = run (step pg) (step pg s e) es := rfl
    rw [hrun, ih, trace, run_append, step_db]

theorem wellFormed_db {s : System} (hw : s.db.core.WellFormed) (es : List WorkerEvent) :
    (run (step pg) s es).db.core.WellFormed := by
  rw [run_db]
  exact wellFormed_run pg _ hw

end Refinement

end Allgres.RuntimeWorker
