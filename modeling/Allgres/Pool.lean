import Mathlib.Algebra.BigOperators.Group.List.Basic
import Mathlib.Algebra.Order.Group.Multiset

/-! A pool of threads between two channels. A job is sent, an idle thread takes it, works on it
and delivers its result, and the result is received. What is under way is counted by weights: a
weight of jobs and results in any commutative monoid is carried through the pool unchanged. -/

namespace ThreadPool

inductive Thread (J R : Type) where
  | idle
  | taken (job : J)
  | working (job : J)
  | done (result : R)

structure Pool (J R : Type) where
  jobs : List J
  threads : List (Thread J R)
  results : List R

variable {J R M : Type}

def Thread.isIdle : Thread J R → Bool
  | idle => true
  | _ => false

namespace Pool

/-- No job is under way. -/
def idle (threads : Nat) : Pool J R where
  jobs := []
  threads := List.replicate threads .idle
  results := []

variable (p : Pool J R)

def send (job : J) : Pool J R :=
  { p with jobs := p.jobs ++ [job] }

/-- An idle thread takes the first job of the channel. -/
def take (i : Nat) : Pool J R :=
  match p.threads[i]?, p.jobs with
  | some .idle, job :: rest => { p with jobs := rest, threads := p.threads.set i (.taken job) }
  | _, _ => p

def enter (i : Nat) : Pool J R :=
  match p.threads[i]? with
  | some (.taken job) => { p with threads := p.threads.set i (.working job) }
  | _ => p

def finish (i : Nat) (f : J → R) : Pool J R :=
  match p.threads[i]? with
  | some (.working job) => { p with threads := p.threads.set i (.done (f job)) }
  | _ => p

def deliver (i : Nat) : Pool J R :=
  match p.threads[i]? with
  | some (.done result) =>
    { p with threads := p.threads.set i .idle, results := p.results ++ [result] }
  | _ => p

def receive : Option (R × Pool J R) :=
  match p.results with
  | [] => none
  | result :: rest => some (result, { p with results := rest })

/-- How much is under way. -/
def size : Nat :=
  p.jobs.length + p.threads.countP (!·.isIdle) + p.results.length

end Pool

section Lists

theorem sum_map_set {α : Type} [AddCommMonoid M] (f : α → M) {l : List α} {i : Nat} {x : α}
    (h : l[i]? = some x)
    (y : α) : ((l.set i y).map f).sum + f x = (l.map f).sum + f y := by
  induction l generalizing i with
  | nil => simp at h
  | cons a l ih =>
    cases i with
    | zero =>
      obtain rfl : a = x := by simpa using h
      simp only [List.set_cons_zero, List.map_cons, List.sum_cons]
      ac_rfl
    | succ i =>
      have hl := ih (by simpa using h)
      simp only [List.set_cons_succ, List.map_cons, List.sum_cons, add_assoc, hl]

theorem card_sum_le {α β : Type} {f : β → Multiset α} (hf : ∀ x, (f x).card ≤ 1) (l : List β) :
    ((l.map f).sum).card ≤ l.length := by
  induction l with
  | nil => simp
  | cons x l ih =>
    have hx := hf x
    rw [List.map_cons, List.sum_cons, Multiset.card_add, List.length_cons]
    omega

theorem map_set_of_eq {α β : Type} {f : α → β} {l : List α} {i : Nat} {x y : α} (h : l[i]? = some x)
    (hf : f y = f x) : (l.set i y).map f = l.map f := by
  have hmap : (l.map f)[i]? = some (f x) := by rw [List.getElem?_map, h, Option.map_some]
  obtain ⟨hi, hget⟩ := List.getElem?_eq_some_iff.mp hmap
  rw [List.map_set, hf, ← hget, List.set_getElem_self]

end Lists

section Weights

variable [AddCommMonoid M] (wJ : J → M) (wR : R → M)

def Thread.weight : Thread J R → M
  | idle => 0
  | taken job => wJ job
  | working job => wJ job
  | done result => wR result

/-- The weight of everything that was sent and not yet received. -/
def Pool.weight (p : Pool J R) : M :=
  (p.jobs.map wJ).sum + (p.threads.map (Thread.weight wJ wR)).sum + (p.results.map wR).sum

@[simp] theorem weight_idle (n : Nat) : (Pool.idle n : Pool J R).weight wJ wR = 0 := by
  simp [Pool.weight, Pool.idle, Thread.weight]

variable {wJ wR} {p : Pool J R}

@[simp] theorem weight_send (job : J) : (p.send job).weight wJ wR = p.weight wJ wR + wJ job := by
  simp only [Pool.weight, Pool.send, List.map_append, List.sum_append, List.map_singleton,
    List.sum_singleton]
  ac_rfl

@[simp] theorem weight_take (i : Nat) : (p.take i).weight wJ wR = p.weight wJ wR := by
  unfold Pool.take
  split
  · rename_i job rest hi hjobs
    have hset := sum_map_set (Thread.weight wJ wR) hi (.taken job)
    simp only [Thread.weight, add_zero] at hset
    simp only [Pool.weight, hjobs, hset, List.map_cons, List.sum_cons]
    ac_rfl
  · rfl

@[simp] theorem weight_enter (i : Nat) : (p.enter i).weight wJ wR = p.weight wJ wR := by
  unfold Pool.enter
  split
  · rename_i job hi
    simp only [Pool.weight, map_set_of_eq (f := Thread.weight wJ wR) hi (y := .working job) rfl]
  · rfl

variable (wJ wR) in
/-- A finished job leaves the weight of its result. -/
theorem weight_finish {i : Nat} {job : J} (f : J → R) (h : p.threads[i]? = some (.working job)) :
    (p.finish i f).weight wJ wR + wJ job = p.weight wJ wR + wR (f job) := by
  have hset := sum_map_set (Thread.weight wJ wR) h (.done (f job))
  simp only [Thread.weight] at hset
  have hfinish : p.finish i f = { p with threads := p.threads.set i (.done (f job)) } := by
    simp [Pool.finish, h]
  rw [hfinish]
  simp only [Pool.weight]
  calc
    _ = (p.jobs.map wJ).sum + (((p.threads.set i (.done (f job))).map (Thread.weight wJ wR)).sum +
        wJ job) + (p.results.map wR).sum := by ac_rfl
    _ = _ := by rw [hset]; ac_rfl

theorem finish_of_not_working {i : Nat} (f : J → R)
    (h : ∀ job, p.threads[i]? ≠ some (.working job)) :
    p.finish i f = p := by
  unfold Pool.finish
  split
  · rename_i job hi
    exact absurd hi (h job)
  · rfl

@[simp] theorem weight_deliver (i : Nat) : (p.deliver i).weight wJ wR = p.weight wJ wR := by
  unfold Pool.deliver
  split
  · rename_i result hi
    have hset := sum_map_set (Thread.weight wJ wR) hi .idle
    simp only [Thread.weight, add_zero] at hset
    simp only [Pool.weight, List.map_append, List.sum_append, List.map_singleton,
      List.sum_singleton, ← hset]
    ac_rfl
  · rfl

variable (wJ wR) in
theorem weight_receive {result : R} {p' : Pool J R} (h : p.receive = some (result, p')) :
    p'.weight wJ wR + wR result = p.weight wJ wR := by
  unfold Pool.receive at h
  split at h
  · cases h
  · rename_i r rest hresults
    obtain ⟨rfl, rfl⟩ : r = result ∧ { p with results := rest } = p' := by simpa using h
    simp only [Pool.weight, hresults, List.map_cons, List.sum_cons]
    ac_rfl

variable (wJ wR) in
theorem weight_thread {i : Nat} {a : Thread J R} (hi : p.threads[i]? = some a) :
    ∃ rest, p.weight wJ wR = rest + a.weight wJ wR := by
  have hset := sum_map_set (Thread.weight wJ wR) hi .idle
  simp only [Thread.weight, add_zero] at hset
  refine ⟨(p.jobs.map wJ).sum + ((p.threads.set i .idle).map (Thread.weight wJ wR)).sum +
    (p.results.map wR).sum, ?_⟩
  simp only [Pool.weight, ← hset]
  ac_rfl

variable (wJ wR) in
/-- Two threads weigh apart. -/
theorem weight_two {i i' : Nat} {a b : Thread J R} (hne : i ≠ i') (hi : p.threads[i]? = some a)
    (hi' : p.threads[i']? = some b) :
    ∃ rest, p.weight wJ wR = rest + a.weight wJ wR + b.weight wJ wR := by
  have hset := sum_map_set (Thread.weight wJ wR) hi .idle
  have hother : (p.threads.set i .idle)[i']? = some b := by rwa [List.getElem?_set_ne hne]
  have hset' := sum_map_set (Thread.weight wJ wR) hother .idle
  simp only [Thread.weight, add_zero] at hset hset'
  refine ⟨(p.jobs.map wJ).sum +
    (((p.threads.set i .idle).set i' .idle).map (Thread.weight wJ wR)).sum +
    (p.results.map wR).sum, ?_⟩
  simp only [Pool.weight, ← hset, ← hset']
  ac_rfl

end Weights

section Working

variable {p : Pool J R} {i : Nat} {job : J}

/-- Only its own end takes a thread from its work. -/
theorem working_set {k : Nat} {a b : Thread J R} (h : p.threads[i]? = some (.working job))
    (hk : p.threads[k]? = some a) (ha : a ≠ .working job) :
    (p.threads.set k b)[i]? = some (.working job) := by
  have hne : k ≠ i := by
    rintro rfl
    rw [h] at hk
    exact ha (Option.some.inj hk).symm
  rwa [List.getElem?_set_ne hne]

theorem working_take (k : Nat) (h : p.threads[i]? = some (.working job)) :
    (p.take k).threads[i]? = some (.working job) := by
  unfold Pool.take
  split
  · rename_i hk hjobs
    exact working_set h hk (by simp)
  · exact h

theorem working_enter (k : Nat) (h : p.threads[i]? = some (.working job)) :
    (p.enter k).threads[i]? = some (.working job) := by
  unfold Pool.enter
  split
  · rename_i hk
    exact working_set h hk (by simp)
  · exact h

theorem working_finish {k : Nat} (f : J → R) (hne : k ≠ i)
    (h : p.threads[i]? = some (.working job)) :
    (p.finish k f).threads[i]? = some (.working job) := by
  unfold Pool.finish
  split
  · dsimp only
    rwa [List.getElem?_set_ne hne]
  · exact h

theorem working_deliver (k : Nat) (h : p.threads[i]? = some (.working job)) :
    (p.deliver k).threads[i]? = some (.working job) := by
  unfold Pool.deliver
  split
  · rename_i hk
    exact working_set h hk (by simp)
  · exact h

theorem working_of_set {k : Nat} {b : Thread J R}
    (h : (p.threads.set k b)[i]? = some (.working job)) :
    (i = k ∧ b = .working job) ∨ p.threads[i]? = some (.working job) := by
  by_cases hk : k = i
  · subst hk
    by_cases hlt : k < p.threads.length
    · rw [List.getElem?_set_self hlt] at h
      exact .inl ⟨rfl, Option.some.inj h⟩
    · rw [List.getElem?_eq_none (by simpa using hlt)] at h
      cases h
  · rw [List.getElem?_set_ne hk] at h
    exact .inr h

theorem working_of_take {k : Nat} (h : (p.take k).threads[i]? = some (.working job)) :
    p.threads[i]? = some (.working job) := by
  unfold Pool.take at h
  split at h
  · exact (working_of_set h).resolve_left (by simp)
  · exact h

theorem working_of_deliver {k : Nat} (h : (p.deliver k).threads[i]? = some (.working job)) :
    p.threads[i]? = some (.working job) := by
  unfold Pool.deliver at h
  split at h
  · exact (working_of_set h).resolve_left (by simp)
  · exact h

end Working

section Sizes

variable {p : Pool J R}

theorem weight_one : p.weight (fun _ => 1) (fun _ => 1) = p.size := by
  have hthreads : (p.threads.map (Thread.weight (fun _ => 1) (fun _ => 1))).sum =
      p.threads.countP (!·.isIdle) := by
    induction p.threads with
    | nil => rfl
    | cons thread threads ih =>
      rw [List.map_cons, List.sum_cons, ih, List.countP_cons]
      cases thread <;> simp [Thread.weight, Thread.isIdle, add_comm]
  simp [Pool.weight, Pool.size, hthreads]

/-- Where a weight marks each job once at most, the marks are no more than the jobs. -/
theorem card_weight_le {α : Type} {wJ : J → Multiset α} {wR : R → Multiset α}
    (hJ : ∀ j, (wJ j).card ≤ 1) (hR : ∀ r, (wR r).card ≤ 1) : (p.weight wJ wR).card ≤ p.size := by
  have hjobs := card_sum_le hJ p.jobs
  have hresults := card_sum_le hR p.results
  have hthreads :
      ((p.threads.map (Thread.weight wJ wR)).sum).card ≤ p.threads.countP (!·.isIdle) := by
    induction p.threads with
    | nil => simp
    | cons thread threads ih =>
      rw [List.map_cons, List.sum_cons, Multiset.card_add, List.countP_cons, add_comm]
      refine Nat.add_le_add ih ?_
      cases thread with
      | idle => simp [Thread.weight]
      | taken job => exact hJ job
      | working job => exact hJ job
      | done result => exact hR result
  simp only [Pool.weight, Multiset.card_add, Pool.size]
  omega

theorem size_send (job : J) : (p.send job).size = p.size + 1 := by
  rw [← weight_one, ← weight_one, weight_send]

@[simp] theorem size_take (i : Nat) : (p.take i).size = p.size := by
  rw [← weight_one, ← weight_one, weight_take]

@[simp] theorem size_enter (i : Nat) : (p.enter i).size = p.size := by
  rw [← weight_one, ← weight_one, weight_enter]

@[simp] theorem size_finish (i : Nat) (f : J → R) : (p.finish i f).size = p.size := by
  by_cases h : ∃ job, p.threads[i]? = some (.working job)
  · obtain ⟨job, hi⟩ := h
    have hfin := weight_finish (fun _ => 1) (fun _ => 1) f hi
    rw [weight_one, weight_one] at hfin
    omega
  · rw [finish_of_not_working f fun job hi => h ⟨job, hi⟩]

@[simp] theorem size_deliver (i : Nat) : (p.deliver i).size = p.size := by
  rw [← weight_one, ← weight_one, weight_deliver]

theorem size_receive {result : R} {p' : Pool J R} (h : p.receive = some (result, p')) :
    p'.size + 1 = p.size := by
  have hrec := weight_receive (fun _ => 1) (fun _ => 1) h
  rwa [weight_one, weight_one] at hrec

@[simp] theorem length_take (i : Nat) : (p.take i).threads.length = p.threads.length := by
  unfold Pool.take
  split <;> simp

@[simp] theorem length_enter (i : Nat) : (p.enter i).threads.length = p.threads.length := by
  unfold Pool.enter
  split <;> simp

@[simp] theorem length_finish (i : Nat) (f : J → R) :
    (p.finish i f).threads.length = p.threads.length := by
  unfold Pool.finish
  split <;> simp

@[simp] theorem length_deliver (i : Nat) : (p.deliver i).threads.length = p.threads.length := by
  unfold Pool.deliver
  split <;> simp

theorem receive_threads {result : R} {p' : Pool J R} (h : p.receive = some (result, p')) :
    p'.threads = p.threads := by
  unfold Pool.receive at h
  split at h
  · cases h
  · obtain ⟨-, rfl⟩ := by simpa using h
    rfl

end Sizes

end ThreadPool
