import Allgres.CallsInFlight
import Allgres.Balance
import Allgres.WorkerRuns

/-! The calls in the hands of the worker. What it claims is performed once at most and submitted
once at most, and the pool never holds more than it has room for. -/

namespace Allgres.RuntimeWorker

open Raise Rows Runs ThreadPool PerformHttp

section Weights

variable {M : Type} [AddCommMonoid M] (wJ : OutboundJob → M) (wR : OutboundResult → M)

def Phase.weight : Phase → M
  | .submit r => wR r
  | .send _ calls => (calls.map wJ).sum
  | _ => 0

/-- The weight of the calls that are claimed and not yet submitted. -/
def Worker.weight (w : Worker) : M :=
  w.phase.weight wJ wR + w.pool.weight wJ wR

end Weights

section Yields

variable (pg : Postgres) (s : System)

/-- The process dies at an event: from outside, or by a raise in a transaction. -/
def ends : WorkerEvent → Bool
  | .crash => true
  | .tick t => match s.worker.phase with
    | .submit r => t.dropped && !(submit pg t s.db r).isOk
    | .claim queue => decide (s.worker.inFlight < capacity) && t.dropped &&
        !(claimJobs pg t (capacity - s.worker.inFlight) queue s.db).isOk
    | _ => false
  | _ => false

def claimedAt : WorkerEvent → List OutboundJob
  | .tick t => match s.worker.phase with
    | .claim queue =>
      if s.worker.inFlight < capacity ∧ t.dropped then
        match claimJobs pg t (capacity - s.worker.inFlight) queue s.db with
        | .ok (_, calls) => calls
        | .error _ => []
      else []
    | _ => []
  | _ => []

/-- The calls an event performs, with what `perform_http` made of them. -/
def performedAt : WorkerEvent → List (OutboundJob × Performed)
  | .perform i U parse => match s.worker.pool.threads[i]? with
    | some (.working j) => [(j, performHttp U parse j.call)]
    | _ => []
  | _ => []

/-- The result that leaves the worker, whether its transaction commits or not. -/
def submittedAt : WorkerEvent → List OutboundResult
  | .tick _ => match s.worker.phase with
    | .submit r => [r]
    | _ => []
  | _ => []

def resultOf (x : OutboundJob × Performed) : OutboundResult where
  callId := x.1.callId
  queue := x.1.queue
  status := x.2.status
  body := x.2.text

end Yields

section Turns

/-- Nothing is carried over into such a phase. -/
def Phase.fresh : Phase → Bool
  | .harvest | .look | .claim _ => true
  | _ => false

/-- What one step of the SPI thread can do. -/
inductive Turn (pg : Postgres) (t : Tick) (s : System) : System → Prop where
  | die (he : ends pg s (.tick t) = true) : Turn pg t s s.crash
  | receive (r : OutboundResult) (pool : Pool OutboundJob OutboundResult)
    (hp : s.worker.phase = .harvest)
      (hr : s.worker.pool.receive = some (r, pool)) :
      Turn pg t s { s with worker :=
        { s.worker with phase := .submit r, inFlight := s.worker.inFlight - 1, pool } }
  | commit (r : OutboundResult) (db : Db) (hp : s.worker.phase = .submit r) (hd : t.dropped = true)
      (hs : submit pg t s.db r = .ok db) :
        Turn pg t s { db, worker := { s.worker with phase := .harvest } }
  | discard (r : OutboundResult) (hp : s.worker.phase = .submit r) (hd : t.dropped = false) :
      Turn pg t s (s.goto .harvest)
  | look (hp : s.worker.phase = .look) (hf : s.worker.flags ≠ []) :
      Turn pg t s (s.goto (.ask (s.worker.flags.map (·.1))))
  | ask (ids : List CallKey) (hp : s.worker.phase = .ask ids) (hd : t.dropped = true)
      (hl : fnCheckLostOutbound s.db ids ≠ []) :
      Turn pg t s (s.goto (.flag (fnCheckLostOutbound s.db ids)))
  | flag (lost : List CallKey) (hp : s.worker.phase = .flag lost) :
      Turn pg t s ((s.setFlags (s.worker.flags.map fun f => (f.1, f.2 || lost.contains f.1))).goto
        (afterFlags t))
  | claim (queue : OutboundQueue) (db : Db) (calls : List OutboundJob)
    (hp : s.worker.phase = .claim queue)
      (hd : s.worker.inFlight < capacity ∧ t.dropped = true)
      (hc : claimJobs pg t (capacity - s.worker.inFlight) queue s.db = .ok (db, calls)) :
      Turn pg t s { db, worker := { s.worker with phase := .send queue calls } }
  | send (queue : OutboundQueue) (job : OutboundJob) (calls : List OutboundJob)
      (hp : s.worker.phase = .send queue (job :: calls)) :
      Turn pg t s { s with worker :=
        { s.worker with
          phase := .send queue calls
          inFlight := s.worker.inFlight + 1
          pool := s.worker.pool.send job } }
  | pass (phase : Phase) (hn : phase.fresh = true)
      (hp : (s.worker.phase = .harvest ∧ s.worker.pool.receive = none) ∨
        (s.worker.phase = .look ∧ s.worker.flags = []) ∨
        (∃ ids, s.worker.phase = .ask ids ∧
          (t.dropped = true → fnCheckLostOutbound s.db ids = [])) ∨
        (∃ queue, s.worker.phase = .claim queue ∧
          ¬ (s.worker.inFlight < capacity ∧ t.dropped = true)) ∨
        ∃ queue, s.worker.phase = .send queue []) : Turn pg t s (s.goto phase)

variable (pg : Postgres) (t : Tick) (s : System)

theorem fresh_afterFlags : (afterFlags t).fresh = true := by
  unfold afterFlags
  split <;> rfl

theorem fresh_afterQueue (queue : OutboundQueue) : (afterQueue queue).fresh = true := by
  cases queue <;> rfl

theorem spi_turn : Turn pg t s (s.spi pg t) := by
  cases hp : s.worker.phase with
  | harvest =>
    simp only [System.spi, hp]
    split
    · rename_i r pool hr
      exact .receive r pool hp hr
    · rename_i hr
      exact .pass .look rfl (.inl ⟨hp, hr⟩)
  | submit r =>
    simp only [System.spi, hp]
    split
    · rename_i hd
      split
      · rename_i db hs
        exact .commit r db hp hd hs
      · rename_i e hs
        exact .die (by simp [ends, hp, hd, hs, Except.isOk, Except.toBool])
    · rename_i hd
      exact .discard r hp (by simpa using hd)
  | look =>
    simp only [System.spi, hp]
    split
    · rename_i hf
      exact .pass _ (fresh_afterFlags t) (.inr (.inl ⟨hp, hf⟩))
    · rename_i hf
      exact .look hp hf
  | ask ids =>
    simp only [System.spi, hp]
    by_cases hd : t.dropped = true
    · by_cases hl : fnCheckLostOutbound s.db ids = []
      · rw [if_pos hd, if_pos hl]
        exact .pass _ (fresh_afterFlags t) (.inr (.inr (.inl ⟨ids, hp, fun _ => hl⟩)))
      · rw [if_pos hd, if_neg hl]
        exact .ask ids hp hd hl
    · rw [if_neg hd, if_pos rfl]
      exact .pass _ (fresh_afterFlags t) (.inr (.inr (.inl ⟨ids, hp, fun h => absurd h hd⟩)))
  | flag lost =>
    simp only [System.spi, hp]
    exact .flag lost hp
  | claim queue =>
    simp only [System.spi, hp]
    split
    · rename_i hd
      split
      · rename_i db calls hc
        exact .claim queue db calls hp hd hc
      · rename_i e hc
        exact .die (by simp [ends, hp, hd, hc, Except.isOk, Except.toBool])
    · rename_i hd
      exact .pass _ (fresh_afterQueue queue)
        (.inr (.inr (.inr (.inl ⟨queue, hp, hd⟩))))
  | send queue calls =>
    cases calls with
    | nil =>
      simp only [System.spi, hp]
      exact .pass _ (fresh_afterQueue queue)
        (.inr (.inr (.inr (.inr ⟨queue, hp⟩))))
    | cons job calls =>
      simp only [System.spi, hp]
      exact .send queue job calls hp

end Turns

section Conservation

variable {M : Type} [AddCommMonoid M] {wJ : OutboundJob → M} {wR : OutboundResult → M}
  {pg : Postgres} {s : System}

theorem step_of_ends {e : WorkerEvent} (h : ends pg s e = true) : step pg s e = s.crash := by
  cases e with
  | crash => rfl
  | tick t =>
    cases hp : s.worker.phase with
    | submit r =>
      simp only [ends, hp, Bool.and_eq_true, Bool.not_eq_true'] at h
      obtain ⟨hd, hr⟩ := h
      cases hs : submit pg t s.db r with
      | ok db => simp [hs, Except.isOk, Except.toBool] at hr
      | error e => simp [step, System.spi, hp, hd, hs]
    | claim queue =>
      simp only [ends, hp, Bool.and_eq_true, Bool.not_eq_true', decide_eq_true_eq] at h
      obtain ⟨hd, hr⟩ := h
      cases hc : claimJobs pg t (capacity - s.worker.inFlight) queue s.db with
      | ok r => simp [hc, Except.isOk, Except.toBool] at hr
      | error e => simp [step, System.spi, hp, hd, hc]
    | _ => simp [ends, hp] at h
  | _ => simp [ends] at h

@[simp] theorem weight_start : ({} : Worker).weight wJ wR = 0 := by
  simp [Worker.weight, Phase.weight]

theorem weight_of_fresh {phase : Phase} (h : phase.fresh = true) : phase.weight wJ wR = 0 := by
  cases phase <;> first | rfl | cases h

variable (wJ wR) in
/-- What the SPI thread takes in it holds, and what leaves it was held. -/
theorem weight_spi {t : Tick} (he : ends pg s (.tick t) = false) :
    (s.spi pg t).worker.weight wJ wR + ((submittedAt s (.tick t)).map wR).sum =
      s.worker.weight wJ wR + ((claimedAt pg s (.tick t)).map wJ).sum := by
  have hturn := spi_turn pg t s
  generalize s.spi pg t = s' at hturn
  cases hturn with
  | die hdie => simp [hdie] at he
  | receive r pool hp hr =>
    have hrec := weight_receive wJ wR hr
    simp only [submittedAt, claimedAt, hp, Worker.weight, Phase.weight, List.map_nil, List.sum_nil,
      zero_add, add_zero, ← hrec]
    exact add_comm _ _
  | commit r db hp hd hs =>
    simp only [submittedAt, claimedAt, hp, Worker.weight, Phase.weight, List.map_nil, List.sum_nil,
      List.map_singleton, List.sum_singleton, zero_add, add_zero]
    exact add_comm _ _
  | discard r hp hd =>
    simp only [submittedAt, claimedAt, hp, System.goto, Worker.weight, Phase.weight, List.map_nil,
      List.sum_nil, List.map_singleton, List.sum_singleton, zero_add, add_zero]
    exact add_comm _ _
  | look hp hf => simp [submittedAt, claimedAt, hp, System.goto, Worker.weight, Phase.weight]
  | ask ids hp hd hl => simp [submittedAt, claimedAt, hp, System.goto, Worker.weight, Phase.weight]
  | flag lost hp =>
    have hnext : (afterFlags t).weight wJ wR = 0 := weight_of_fresh (fresh_afterFlags t)
    have hnow : (Phase.flag lost).weight wJ wR = 0 := rfl
    simp [submittedAt, claimedAt, hp, System.goto, System.setFlags, Worker.weight, hnext, hnow]
  | claim queue db calls hp hd hc =>
    simp only [submittedAt, claimedAt, hp, hd, hc, Worker.weight, Phase.weight, and_self, if_true,
      List.map_nil, List.sum_nil, zero_add, add_zero]
    exact add_comm _ _
  | send queue job calls hp =>
    simp only [submittedAt, claimedAt, hp, Worker.weight, Phase.weight, weight_send, List.map_nil,
      List.sum_nil, List.map_cons, List.sum_cons, add_zero]
    ac_rfl
  | pass phase hn hp =>
    have hzero : (s.goto phase).worker.weight wJ wR = s.worker.pool.weight wJ wR := by
      simp [System.goto, Worker.weight, weight_of_fresh hn]
    rw [hzero]
    rcases hp with ⟨hp, -⟩ | ⟨hp, -⟩ | ⟨ids, hp, -⟩ | ⟨queue, hp, hn⟩ | ⟨queue, hp⟩
    · simp [submittedAt, claimedAt, hp, Worker.weight, Phase.weight]
    · simp [submittedAt, claimedAt, hp, Worker.weight, Phase.weight]
    · simp [submittedAt, claimedAt, hp, Worker.weight, Phase.weight]
    · simp [submittedAt, claimedAt, hp, hn, Worker.weight, Phase.weight]
    · simp [submittedAt, claimedAt, hp, Worker.weight, Phase.weight]

theorem perform_cases (s : System) (i : Nat) (U : Ureq) (parse : String → Option Json) :
    (∃ j, s.worker.pool.threads[i]? = some (.working j)) ∨
      (s.perform i U parse = s ∧ performedAt s (.perform i U parse) = []) := by
  cases hi : s.worker.pool.threads[i]? with
  | none => simp [System.perform, performedAt, hi]
  | some thread =>
    cases thread with
    | working j => exact .inl ⟨j, rfl⟩
    | _ => simp [System.perform, performedAt, hi]

variable (wJ wR) in
/-- A claimed call stays with the worker until it leaves for submission; a performance puts the
result in its place. -/
theorem weight_step {e : WorkerEvent} (he : ends pg s e = false) :
    (step pg s e).worker.weight wJ wR + ((performedAt s e).map fun x => wJ x.1).sum +
        ((submittedAt s e).map wR).sum =
      s.worker.weight wJ wR + ((claimedAt pg s e).map wJ).sum +
        ((performedAt s e).map fun x => wR (resultOf x)).sum := by
  cases e with
  | session e =>
    have hsame : (step pg s (.session e)).worker = s.worker := by
      simp only [step]
      split <;> rfl
    simp [hsame, performedAt, submittedAt, claimedAt]
  | tick t =>
    have hspi := weight_spi wJ wR he
    simp only [performedAt, List.map_nil, List.sum_nil, add_zero]
    exact hspi
  | take i => simp [step, performedAt, submittedAt, claimedAt, Worker.weight]
  | register i =>
    simp only [step, System.register, performedAt, submittedAt, claimedAt]
    split <;> simp [Worker.weight]
  | perform i U parse =>
    rcases perform_cases s i U parse with ⟨j, hi⟩ | ⟨hsame, hnone⟩
    · have hfin := weight_finish wJ wR (System.answer U parse) hi
      simp only [step, System.perform, performedAt, submittedAt, claimedAt, hi, Worker.weight,
        List.map_singleton, List.sum_singleton, List.map_nil, List.sum_nil, add_zero]
      calc
        _ = s.worker.phase.weight wJ wR +
            ((s.worker.pool.finish i (System.answer U parse)).weight wJ wR + wJ j) :=
              add_assoc _ _ _
        _ = s.worker.phase.weight wJ wR +
            (s.worker.pool.weight wJ wR + wR (System.answer U parse j)) := by rw [hfin]
        _ = _ := (add_assoc _ _ _).symm
    · have hstep : step pg s (.perform i U parse) = s := hsame
      simp [hstep, hnone, submittedAt, claimedAt]
  | deliver i => simp [step, performedAt, submittedAt, claimedAt, Worker.weight]
  | crash => cases he

variable (wJ wR) in
/-- When the process dies, nothing is left in its hands. -/
theorem weight_ends {e : WorkerEvent} (he : ends pg s e = true) :
    (step pg s e).worker.weight wJ wR = 0 ∧ claimedAt pg s e = [] ∧ performedAt s e = [] := by
  refine ⟨?_, ?_, ?_⟩
  · rw [step_of_ends he]
    exact weight_start
  · cases e with
    | tick t =>
      cases hp : s.worker.phase with
      | claim queue =>
        simp only [ends, hp, Bool.and_eq_true, Bool.not_eq_true', decide_eq_true_eq] at he
        cases hc : claimJobs pg t (capacity - s.worker.inFlight) queue s.db with
        | ok r => simp [hc, Except.isOk, Except.toBool] at he
        | error e => simp [claimedAt, hp, hc]
      | _ => simp [claimedAt, hp]
    | _ => rfl
  · cases e <;> first | rfl | simp [ends] at he

end Conservation

section Capacity

variable {pg : Postgres} {s : System}

theorem length_taken {α : Type} (limit : Nat) (l : List α) (h : 1 ≤ limit) :
    (l.take (claimLimit (some limit))).length ≤ limit := by
  have hlimit : claimLimit (some (limit : Int)) ≤ limit := by
    simp only [claimLimit, Option.getD_some]
    omega
  exact (List.length_take_le _ _).trans hlimit

/-- A claim hands out no more than it is asked for. -/
theorem length_claimJobs {t : Tick} {limit : Nat} {queue : OutboundQueue} {db : Db}
    {r : Db × List OutboundJob} (hl : 1 ≤ limit) (h : claimJobs pg t limit queue db = .ok r) :
    r.2.length ≤ limit := by
  unfold claimJobs at h
  split at h
  · cases hd : dispatchAndClaim pg t limit db with
    | error e =>
      rw [hd] at h
      cases h
    | ok x =>
      rw [hd] at h
      obtain rfl := Except.ok.inj h
      unfold dispatchAndClaim at hd
      obtain ⟨⟨dispatched, out⟩, -, hd⟩ := bind_eq_ok.mp hd
      obtain rfl := Except.ok.inj hd
      have hsub := (handed_sublist pg t.now .outboundCalls none ((claimable dispatched t.now
        .outboundCalls t.locked).take (claimLimit (some limit))) dispatched).length_le
      rw [List.length_map, List.length_map] at hsub
      rw [List.length_map]
      exact hsub.trans (length_taken limit _ hl)
  · cases hc : fnClaimOauth t.now (some limit) t.locked db.cfg with
    | error e =>
      rw [hc] at h
      cases h
    | ok x =>
      rw [hc] at h
      obtain rfl := Except.ok.inj h
      unfold fnClaimOauth at hc
      obtain ⟨c, -, hc⟩ := bind_eq_ok.mp hc
      obtain rfl := Except.ok.inj hc
      rw [List.length_map, List.length_map]
      exact length_taken limit _ hl
  · obtain rfl := Except.ok.inj h
    rw [List.length_map]
    simp only [fnClaimAgentEmbedding, List.length_map]
    exact length_taken limit _ hl
  · obtain rfl := Except.ok.inj h
    rw [List.length_map]
    simp only [fnClaimProviderProbe, List.length_map]
    exact length_taken limit _ hl

/-- The counter of the worker is exact, and what it counts fits. -/
structure Fits (w : Worker) : Prop where
  counted : w.inFlight = w.pool.size
  bounded : w.weight (fun _ => 1) (fun _ => 1) ≤ capacity
  threads : w.pool.threads.length = httpThreads

theorem fits_start : Fits {} := by
  constructor
  · simp [Pool.size, Pool.idle, List.countP_replicate, Thread.isIdle]
  · rw [weight_start]
    exact Nat.zero_le _
  · rfl

theorem length_claimedAt (pg : Postgres) (t : Tick) (hf : Fits s.worker) :
    (claimedAt pg s (.tick t)).length + s.worker.weight (fun _ => 1) (fun _ => 1) ≤ capacity := by
  cases hp : s.worker.phase with
  | claim queue =>
    have hweight : s.worker.weight (fun _ => 1) (fun _ => 1) = s.worker.inFlight := by
      simp [Worker.weight, Phase.weight, hp, hf.counted, weight_one]
    simp only [claimedAt, hp, hweight]
    split
    · rename_i hd
      split
      · rename_i r calls hc
        have hlen := length_claimJobs (by omega) hc
        dsimp only at hlen
        omega
      · rename_i e hc
        have hlt := hd.1
        simp only [List.length_nil]
        omega
    · have hb := hf.bounded
      simp only [List.length_nil]
      omega
  | _ =>
    have hb := hf.bounded
    simp only [claimedAt, hp, List.length_nil]
    omega

/-- The other threads leave the counter alone and move the calls within the pool. -/
theorem fits_pool {w w' : Worker} (hf : Fits w) (hphase : w'.phase = w.phase)
    (hcount : w'.inFlight = w.inFlight) (hsize : w'.pool.size = w.pool.size)
    (hthreads : w'.pool.threads.length = w.pool.threads.length) : Fits w' := by
  refine ⟨?_, ?_, hthreads.trans hf.threads⟩
  · rw [hcount, hsize]
    exact hf.counted
  · have hb := hf.bounded
    simp only [Worker.weight, weight_one] at hb ⊢
    rwa [hphase, hsize]

theorem fits_spi {t : Tick} (hf : Fits s.worker) : Fits (s.spi pg t).worker := by
  have hclaim := length_claimedAt pg t hf
  have hcounted := hf.counted
  have hthreads := hf.threads
  have hlaw : ends pg s (.tick t) = false →
      (s.spi pg t).worker.weight (fun _ => 1) (fun _ => 1) + (submittedAt s (.tick t)).length =
        s.worker.weight (fun _ => 1) (fun _ => 1) + (claimedAt pg s (.tick t)).length := by
    intro hends
    have h := weight_spi (fun _ => 1) (fun _ => 1) hends
    simpa only [List.map_const', List.sum_replicate, Nat.nsmul_eq_mul, Nat.mul_one] using h
  have hturn := spi_turn pg t s
  generalize s.spi pg t = s' at hturn hlaw
  have hbounded : ends pg s (.tick t) = false →
      s'.worker.weight (fun _ => 1) (fun _ => 1) ≤ capacity := by
    intro hends
    have hheld := hlaw hends
    omega
  cases hturn with
  | die hdie => exact fits_start
  | receive r pool hp hr =>
    have hrec := size_receive hr
    refine ⟨?_, hbounded (by simp [ends, hp]),
      (congrArg List.length (receive_threads hr)).trans hthreads⟩
    dsimp only
    omega
  | send queue job calls hp =>
    have hsend := size_send (p := s.worker.pool) job
    refine ⟨?_, hbounded (by simp [ends, hp]), hthreads⟩
    dsimp only
    omega
  | commit r db hp hd hs =>
    exact ⟨hcounted, hbounded (by simp [ends, hp, hs, Except.isOk, Except.toBool]), hthreads⟩
  | claim queue db calls hp hd hc =>
    exact ⟨hcounted, hbounded (by simp [ends, hp, hc, Except.isOk, Except.toBool]), hthreads⟩
  | discard r hp hd => exact ⟨hcounted, hbounded (by simp [ends, hp, hd]), hthreads⟩
  | pass phase hn hp =>
    refine ⟨hcounted, hbounded ?_, hthreads⟩
    rcases hp with ⟨hp, -⟩ | ⟨hp, -⟩ | ⟨ids, hp, -⟩ | ⟨queue, hp, hn⟩ | ⟨queue, hp⟩
    · simp [ends, hp]
    · simp [ends, hp]
    · simp [ends, hp]
    · simp only [ends, hp, Bool.and_eq_false_iff, decide_eq_false_iff_not]
      exact .inl (by simpa only [not_and_or, Bool.not_eq_true] using hn)
    · simp [ends, hp]
  | look hp hf => exact ⟨hcounted, hbounded (by simp [ends, hp]), hthreads⟩
  | ask ids hp hd hl => exact ⟨hcounted, hbounded (by simp [ends, hp]), hthreads⟩
  | flag lost hp => exact ⟨hcounted, hbounded (by simp [ends, hp]), hthreads⟩

theorem fits_step (e : WorkerEvent) (hf : Fits s.worker) : Fits (step pg s e).worker := by
  cases e with
  | session e =>
    have hsame : (step pg s (.session e)).worker = s.worker := by
      simp only [step]
      split <;> rfl
    rwa [hsame]
  | tick t => exact fits_spi hf
  | take i => exact fits_pool hf rfl rfl (size_take i) (length_take i)
  | register i =>
    simp only [step, System.register]
    split
    · exact fits_pool hf rfl rfl (size_enter i) (length_enter i)
    · exact hf
  | perform i U parse =>
    simp only [step, System.perform]
    split
    · exact fits_pool hf rfl rfl (size_finish i _) (length_finish i _)
    · exact hf
  | deliver i => exact fits_pool hf rfl rfl (size_deliver i) (length_deliver i)
  | crash => exact fits_start

theorem fits_run (es : List WorkerEvent) {s : System} (hf : Fits s.worker) :
    Fits (run (step pg) s es).worker := by
  have hstep : ∀ (s : System) (e : WorkerEvent), Fits s.worker → True → Fits (step pg s e).worker :=
    fun _ e hs _ => fits_step e hs
  exact Runs.invariant hstep hf (along_true s es)

/-- In every run the counter of the worker is that of the calls it has sent and not received back;
with those it is about to send or to submit, it never has more than eight; and no thread is lost. -/
theorem counter_exact (pg : Postgres) (c : Config) (es : List WorkerEvent) :
    let w := (run (step pg) (start c) es).worker
    w.inFlight = w.pool.size ∧ w.phase.weight (fun _ => 1) (fun _ => 1) + w.inFlight ≤ capacity ∧
      w.pool.threads.length = httpThreads := by
  intro w
  have hf : Fits w := fits_run es fits_start
  refine ⟨hf.counted, ?_, hf.threads⟩
  rw [hf.counted, ← weight_one]
  exact hf.bounded

end Capacity

section Once

variable {pg : Postgres}

theorem sum_singletons {α β : Type} (f : α → β) (l : List α) :
    (l.map fun x => ({f x} : Multiset β)).sum = (l.map f : Multiset β) := by
  induction l with
  | nil => rfl
  | cons x l ih => rw [List.map_cons, List.sum_cons, ih, List.map_cons, Multiset.singleton_add,
      Multiset.cons_coe]

/-- The jobs in the hands of the worker, and the results. -/
def jobsOf (s : System) : Multiset OutboundJob :=
  s.worker.weight (fun j => {j}) fun _ => 0

def resultsOf (s : System) : Multiset OutboundResult :=
  s.worker.weight (fun _ => 0) fun r => {r}

theorem jobs_step (pg : Postgres) (s : System) (e : WorkerEvent) :
    jobsOf (step pg s e) + ((performedAt s e).map (·.1) : Multiset OutboundJob) ≤
      jobsOf s + (claimedAt pg s e : Multiset OutboundJob) := by
  by_cases hends : ends pg s e = true
  · obtain ⟨hweight, hclaimed, hperformed⟩ :=
      weight_ends (fun j => ({j} : Multiset OutboundJob)) (fun _ => 0) hends
    simp only [jobsOf, hweight, hclaimed, hperformed, List.map_nil, Multiset.coe_nil, add_zero]
    exact Multiset.zero_le _
  · have hlaw := weight_step (fun j => ({j} : Multiset OutboundJob)) (fun _ => 0)
      (by simpa using hends : ends pg s e = false)
    rw [sum_singletons (Prod.fst : OutboundJob × Performed → OutboundJob),
      sum_singletons fun j => j] at hlaw
    simpa [jobsOf] using hlaw.le

theorem submitted_le (s : System) (e : WorkerEvent) :
    (submittedAt s e : Multiset OutboundResult) ≤ resultsOf s := by
  cases e with
  | tick t =>
    cases hp : s.worker.phase with
    | submit r =>
      simp only [submittedAt, hp, resultsOf, Worker.weight, Phase.weight, Multiset.coe_singleton]
      exact Multiset.le_add_right _ _
    | _ =>
      simp only [submittedAt, hp, Multiset.coe_nil]
      exact Multiset.zero_le _
  | _ => exact Multiset.zero_le _

theorem results_step (pg : Postgres) (s : System) (e : WorkerEvent) :
    resultsOf (step pg s e) + (submittedAt s e : Multiset OutboundResult) ≤
      resultsOf s + ((performedAt s e).map resultOf : Multiset OutboundResult) := by
  by_cases hends : ends pg s e = true
  · obtain ⟨hweight, -, hperformed⟩ :=
      weight_ends (fun _ => 0) (fun r => ({r} : Multiset OutboundResult)) hends
    simp only [resultsOf, hweight, hperformed, List.map_nil, Multiset.coe_nil, zero_add, add_zero]
    exact submitted_le s e
  · have hlaw := weight_step (fun _ => 0) (fun r => ({r} : Multiset OutboundResult))
      (by simpa using hends : ends pg s e = false)
    rw [sum_singletons resultOf, sum_singletons fun r => r] at hlaw
    simpa [resultsOf] using hlaw.le

/-- Every performance is of a call that was claimed for it. -/
theorem performed_subperm {s : System} (h0 : s.worker = {}) (es : List WorkerEvent) :
    ((gathered (step pg) performedAt s es).map (·.1)).Subperm
      (gathered (step pg) (claimedAt pg) s es) := by
  rw [map_gathered]
  exact gathered_subperm jobsOf (jobs_step pg) (by rw [jobsOf, h0, weight_start]) es

/-- Every submission is of a result that a performance gave, and of one more than once never. -/
theorem submitted_subperm {s : System} (h0 : s.worker = {}) (es : List WorkerEvent) :
    (gathered (step pg) submittedAt s es).Subperm
      ((gathered (step pg) performedAt s es).map resultOf) := by
  rw [map_gathered]
  exact gathered_subperm resultsOf (results_step pg)
    (by rw [resultsOf, h0, weight_start]) es

theorem handedIds_append (es fs : List Event) (db : Db) :
    handedIds pg db (es ++ fs) =
      handedIds pg db es ++ handedIds pg (run (Allgres.step pg) db es) fs := by
  induction es generalizing db with
  | nil => rfl
  | cons e es ih =>
    have hrun : run (Allgres.step pg) db (e :: es) =
      run (Allgres.step pg) (Allgres.step pg db e) es := rfl
    rw [List.cons_append, handedIds, handedIds, ih, hrun, List.append_assoc]

/-- The calls of the tasks, among the jobs. -/
def outboundIds (jobs : List OutboundJob) : List Uuid :=
  (jobs.filter (·.queue = .outbound)).map (·.callId)

theorem outboundIds_outbound (hs : List Handed) :
    outboundIds (hs.map outboundJob) = hs.map Handed.callId := by
  have hall : (hs.map outboundJob).filter (·.queue = .outbound) = hs.map outboundJob := by
    rw [List.filter_eq_self]
    intro j hj
    obtain ⟨h, -, rfl⟩ := List.mem_map.mp hj
    rfl
  rw [outboundIds, hall, List.map_map]
  rfl

theorem outboundIds_operator {queue : OutboundQueue} (hq : queue ≠ .outbound)
    (rs : List OperatorRequest) :
    outboundIds (rs.map (operatorJob queue)) = [] := by
  have hnone : (rs.map (operatorJob queue)).filter (·.queue = .outbound) = [] := by
    rw [List.filter_eq_nil_iff]
    intro j hj
    obtain ⟨r, -, rfl⟩ := List.mem_map.mp hj
    simp [operatorJob, hq]
  rw [outboundIds, hnone, List.map_nil]

/-- The calls the worker claims are the ones the control plane hands out to it. -/
theorem claimJobs_ids {t : Tick} {limit : Nat} {queue : OutboundQueue} {db : Db}
    {r : Db × List OutboundJob} (h : claimJobs pg t limit queue db = .ok r) :
    outboundIds r.2 = handedIds pg db (claim pg t limit queue db) := by
  have hedited : ∀ x : Except String Config, handedIds pg db (edited t x) = [] := by
    intro x
    cases x <;> rfl
  cases queue with
  | outbound =>
    simp only [claimJobs] at h
    cases hd : dispatchAndClaim pg t limit db with
    | error e =>
      rw [hd] at h
      cases h
    | ok x =>
      rw [hd] at h
      obtain rfl := Except.ok.inj h
      simp only [claim, hd, Except.isOk, Except.toBool, if_true]
      rw [(dispatchAndClaim_run hd).2, outboundIds_outbound]
  | oauth =>
    simp only [claimJobs] at h
    cases hc : fnClaimOauth t.now (some limit) t.locked db.cfg with
    | error e =>
      rw [hc] at h
      cases h
    | ok x =>
      rw [hc] at h
      obtain rfl := Except.ok.inj h
      rw [outboundIds_operator (by simp), claim, hedited]
      simp
  | agentEmbedding =>
    obtain rfl := Except.ok.inj h
    rw [outboundIds_operator (by simp), claim, hedited]
    simp
  | providerProbe =>
    obtain rfl := Except.ok.inj h
    rw [outboundIds_operator (by simp), claim, hedited]
    simp

theorem claimedAt_ids (pg : Postgres) (s : System) (e : WorkerEvent) :
    (outboundIds (claimedAt pg s e)).Sublist (handedIds pg s.db (transactions pg s e)) := by
  cases e with
  | tick t =>
    cases hp : s.worker.phase with
    | claim queue =>
      simp only [claimedAt, transactions, hp]
      split
      · split
        · rename_i r calls hc
          rw [← claimJobs_ids hc]
        · exact List.nil_sublist _
      · exact List.nil_sublist _
    | _ =>
      simp only [claimedAt, hp]
      exact List.nil_sublist _
  | _ => exact List.nil_sublist _

theorem claimed_ids (s : System) (es : List WorkerEvent) :
    (outboundIds (gathered (step pg) (claimedAt pg) s es)).Sublist
      (handedIds pg s.db (trace pg s es)) := by
  induction es generalizing s with
  | nil => exact List.Sublist.refl _
  | cons e es ih =>
    have hhere := claimedAt_ids pg s e
    have hlater := ih (step pg s e)
    rw [gathered, trace, handedIds_append, ← step_db]
    simp only [outboundIds, List.filter_append, List.map_append] at hhere hlater ⊢
    exact hhere.append hlater

theorem sent_le_one (U : Ureq) (parse : String → Option Json) (call : Json) :
    (performHttp U parse call).sent.length ≤ 1 := by
  have hcourse := performHttp_course (U := U) parse call
  generalize performHttp U parse call = p at hcourse
  cases hcourse with
  | unsent log text hhand => simp [Performed.sent, unsent, filter_handshake hhand]
  | sent agent log request hhand hread =>
    rw [(sendBody_spec (U := U) agent request hhand).2.1]
    simp

theorem sent_le_of_mem {x : OutboundJob × Performed} {s : System} {es : List WorkerEvent}
    (h : x ∈ gathered (step pg) performedAt s es) : x.2.sent.length ≤ 1 := by
  obtain ⟨before, e, after, -, hx⟩ := mem_gathered h
  cases e with
  | perform i U parse =>
    unfold performedAt at hx
    dsimp only at hx
    split at hx
    · rw [List.mem_singleton.mp hx]
      exact sent_le_one U parse _
    · cases hx
  | _ => cases hx

/-- What names each call once still does so of a part of it. -/
theorem nodup_of_subperm {α β : Type} {l l' : List α} {p : α → Bool} {f : α → β} (h : l.Subperm l')
    (hn : ((l'.filter p).map f).Nodup) : ((l.filter p).map f).Nodup := by
  have hle : ((l.filter p : Multiset α).map f) ≤ (l'.filter p : Multiset α).map f :=
    Multiset.map_le_map (Multiset.coe_le.mpr (h.filter p))
  exact Multiset.coe_nodup.mp (Multiset.nodup_of_le hle (Multiset.coe_nodup.mpr hn))

theorem length_flatMap_le {α β : Type} {l : List α} {f : α → List β}
    (hf : ∀ x ∈ l, (f x).length ≤ 1) :
    (l.flatMap f).length ≤ l.length := by
  induction l with
  | nil => exact Nat.le_refl _
  | cons x l ih =>
    have hx := hf x (by simp)
    have hl := ih fun y hy => hf y (by simp [hy])
    rw [List.flatMap_cons, List.length_append, List.length_cons]
    omega

theorem count_outboundIds (l : List (OutboundJob × Performed)) (id : Uuid) :
    (outboundIds (l.map (·.1))).count id = (l.filter (·.1.key = (.outbound, id))).length := by
  induction l with
  | nil => rfl
  | cons x l ih =>
    rw [List.map_cons, outboundIds, List.filter_cons, List.filter_cons]
    rw [outboundIds] at ih
    by_cases hq : x.1.queue = .outbound
    · by_cases hid : x.1.callId = id
      · simpa [OutboundJob.key, hq, hid] using ih
      · simpa [OutboundJob.key, hq, hid] using ih
    · simpa [OutboundJob.key, hq] using ih

/-- In every run, whoever dies when: a call of a task is performed once at most, and its own request
is sent once at most; every submission is the answer of a performance, and none is submitted
twice. -/
theorem performed_once (pg : Postgres) (c : Config) (es : List WorkerEvent) :
    let performed := gathered (step pg) performedAt (start c) es
    let submitted := gathered (step pg) submittedAt (start c) es
    (outboundIds (performed.map (·.1))).Nodup ∧
      (∀ id, ((performed.filter (·.1.key = (.outbound, id))).flatMap (·.2.sent)).length ≤ 1) ∧
      submitted.Subperm (performed.map resultOf) ∧
      ((submitted.filter (·.queue = .outbound)).map (·.callId)).Nodup := by
  intro performed submitted
  have hclaimed : (outboundIds (gathered (step pg) (claimedAt pg) (start c) es)).Nodup :=
    (handedIds_spec _ (wellFormed_start c)).1.sublist (claimed_ids (start c) es)
  have hjobs : (outboundIds (performed.map (·.1))).Nodup :=
    nodup_of_subperm (performed_subperm rfl es) hclaimed
  have hsub : submitted.Subperm (performed.map resultOf) := submitted_subperm rfl es
  refine ⟨hjobs, fun id => ?_, hsub, nodup_of_subperm hsub ?_⟩
  · have hkey : (performed.filter (·.1.key = (.outbound, id))).length ≤ 1 := by
      rw [← count_outboundIds]
      exact List.nodup_iff_count_le_one.mp hjobs id
    exact (length_flatMap_le fun x hx => sent_le_of_mem (List.mem_of_mem_filter hx)).trans hkey
  · have hids : ((performed.map resultOf).filter (·.queue = .outbound)).map (·.callId) =
        outboundIds (performed.map (·.1)) := by
      rw [outboundIds, List.filter_map, List.filter_map, List.map_map, List.map_map]
      rfl
    rw [hids]
    exact hjobs

end Once

end Allgres.RuntimeWorker
