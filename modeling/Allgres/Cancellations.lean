import Allgres.ApprovalGate
import Allgres.HeldCalls

/-! Cancellation of calls at work. Between the HTTP threads and the SPI thread stands a map of
flags: a flag is set only when its call is lost, and when a call at work is lost, its flag is set
within one round. -/

namespace Allgres.RuntimeWorker

open Raise Rows Runs ThreadPool PerformHttp

section Lost

/-- A call of a task that is given up, as its row says. -/
def Lost (db : Db) (key : CallKey) : Prop :=
  key.1 = .outbound ∧
    ∃ q ∈ db.calls, q.callId = key.2 ∧ q.req.queue = .outboundCalls ∧ q.status = .lost

variable {pg : Postgres} {s : System} {key : CallKey}

theorem mem_fnCheckLostOutbound {db : Db} {ids : List CallKey} :
    key ∈ fnCheckLostOutbound db ids ↔ Lost db key ∧ key ∈ ids := by
  obtain ⟨queue, id⟩ := key
  simp only [fnCheckLostOutbound, Lost, List.mem_map, List.mem_filter, decide_eq_true_eq]
  constructor
  · rintro ⟨q, ⟨hq, hqueue, hs, hids⟩, hkey⟩
    obtain ⟨rfl, rfl⟩ := Prod.mk.inj hkey
    exact ⟨⟨rfl, q, hq, rfl, hqueue, hs⟩, by simpa using hids⟩
  · rintro ⟨⟨rfl, q, hq, rfl, hqueue, hs⟩, hids⟩
    exact ⟨q, ⟨hq, hqueue, hs, by simpa using hids⟩, rfl⟩

/-- What is lost stays lost. -/
theorem lost_event {db : Db} (e : Event) (hw : db.core.WellFormed) (h : Lost db key) :
    Lost (Allgres.step pg db e) key := by
  obtain ⟨hkey, q, hq, hid, hqueue, hs⟩ := h
  obtain ⟨q', hq', hident, hedge⟩ := (step_restatus pg e hw).old q hq
  have hcall : q'.callId = q.callId := congrArg (·.1) hident
  have hreq : q'.req = q.req := congrArg (·.2.2) hident
  refine ⟨hkey, q', hq', hcall.trans hid, hreq ▸ hqueue, ?_⟩
  rcases hedge with he | he
  · exact he ▸ hs
  · rw [hs] at he
    cases he

theorem lost_run (es : List Event) {db : Db} (hw : db.core.WellFormed) (h : Lost db key) :
    Lost (run (Allgres.step pg) db es) key := by
  induction es generalizing db with
  | nil => exact h
  | cons e es ih => exact ih (wellFormed_step pg e hw) (lost_event e hw h)

theorem lost_step (e : WorkerEvent) (hw : s.db.core.WellFormed) (h : Lost s.db key) :
    Lost (step pg s e).db key := by
  rw [step_db]
  exact lost_run _ hw h

/-- The answer of a lost call is of no effect, whenever it comes. -/
theorem lost_completion {db : Db} {id : Uuid} (hw : db.core.WellFormed)
    (h : Lost db (.outbound, id))
    {e : Event} (he : e.op.completes = some (.outboundCalls, id)) : Allgres.step pg db e = db := by
  obtain ⟨-, q, hq, hid, -, hs⟩ := h
  exact step_of_over hw he ⟨q, hq, hid, by simp [isOver, hs, CallStatus.live]⟩

end Lost

section Flags

variable {pg : Postgres} {s : System}

/-- Every flag that is set, or about to be, is that of a lost call. -/
structure FlagsLost (s : System) : Prop where
  flags : ∀ key, (key, true) ∈ s.worker.flags → Lost s.db key
  phase : ∀ lost, s.worker.phase = .flag lost → ∀ key ∈ lost, Lost s.db key

theorem flagsLost_spi {t : Tick} (hw : s.db.core.WellFormed) (h : FlagsLost s) :
    FlagsLost (s.spi pg t) := by
  have hdb : ∀ key, Lost s.db key → Lost (s.spi pg t).db key := fun key hk =>
    lost_step (e := .tick t) hw hk
  have hturn := spi_turn pg t s
  generalize s.spi pg t = s' at hturn hdb
  have hkept : s'.worker.flags = s.worker.flags → ∀ key, (key, true) ∈ s'.worker.flags →
    Lost s'.db key :=
    fun he key hk => hdb key (h.flags key (he ▸ hk))
  cases hturn with
  | die hdie => exact ⟨by simp [System.crash], by simp [System.crash]⟩
  | ask ids hp hd hl =>
    refine ⟨hkept rfl, fun lost hlost key hk => ?_⟩
    obtain rfl : fnCheckLostOutbound s.db ids = lost := Phase.flag.inj hlost
    exact (mem_fnCheckLostOutbound.mp hk).1
  | flag lost hp =>
    constructor
    · intro key hk
      obtain ⟨f, hf, hkey⟩ := List.mem_map.mp hk
      obtain ⟨rfl, hset⟩ := Prod.mk.inj hkey
      rcases Bool.or_eq_true_iff.mp hset with hflag | hmem
      · exact h.flags f.1 (hflag ▸ hf)
      · exact h.phase lost hp f.1 (by simpa using hmem)
    · intro lost' hlost
      have hfresh := fresh_afterFlags t
      rw [show afterFlags t = .flag lost' from hlost] at hfresh
      cases hfresh
  | pass phase hn hp =>
    refine ⟨hkept rfl, fun lost hlost => ?_⟩
    rw [show phase = .flag lost from hlost] at hn
    cases hn
  | _ => exact ⟨hkept rfl, by simp [System.goto]⟩

theorem flagsLost_step (e : WorkerEvent) (hw : s.db.core.WellFormed) (h : FlagsLost s) :
    FlagsLost (step pg s e) := by
  cases e with
  | session e =>
    have hworker : (step pg s (.session e)).worker = s.worker := by
      simp only [step]
      split <;> rfl
    constructor
    · intro key hk
      exact lost_step _ hw (h.flags key (hworker ▸ hk))
    · intro lost hlost key hk
      exact lost_step _ hw (h.phase lost (hworker ▸ hlost) key hk)
  | tick t => exact flagsLost_spi hw h
  | take i => exact ⟨h.flags, h.phase⟩
  | register i =>
    simp only [step, System.register]
    split
    · refine ⟨fun key hk => ?_, h.phase⟩
      have hk : (key, true) ∈ s.worker.flags := by
        rcases List.mem_cons.mp hk with hnew | hold
        · simp at hnew
        · exact List.mem_of_mem_filter hold
      exact h.flags key hk
    · exact h
  | perform i U parse =>
    simp only [step, System.perform]
    split
    · exact ⟨fun key hk => h.flags key (List.mem_of_mem_filter hk), h.phase⟩
    · exact h
  | deliver i => exact ⟨h.flags, h.phase⟩
  | crash => exact ⟨by simp [step, System.crash], by simp [step, System.crash]⟩

theorem flagsLost_run (es : List WorkerEvent) {s : System} (hw : s.db.core.WellFormed)
    (h : FlagsLost s) : FlagsLost (run (step pg) s es) := by
  have hstep : ∀ (x : System) (e : WorkerEvent), x.db.core.WellFormed ∧ FlagsLost x → True →
      (step pg x e).db.core.WellFormed ∧ FlagsLost (step pg x e) :=
    fun x e hx _ => ⟨wellFormed_db hx.1 [e], flagsLost_step e hx.1 hx.2⟩
  exact (Runs.invariant hstep ⟨hw, h⟩ (along_true s es)).2

end Flags

section Pass

variable {pg : Postgres} {s : System} {i : Nat} {j : OutboundJob}

/-- A thread at work on the call of a task has a flag in the map. -/
def Registered (w : Worker) : Prop :=
  ∀ (i : Nat) (j : OutboundJob), w.pool.threads[i]? = some (.working j) → j.queue = .outbound →
    j.key ∈ w.flags.map (·.1)

/-- No two threads have the same call of a task. -/
theorem threads_apart (hn : (heldIds s).Nodup) {i k : Nat} {a b : Thread OutboundJob OutboundResult}
    {id : Uuid} (hi : s.worker.pool.threads[i]? = some a) (hk : s.worker.pool.threads[k]? = some b)
    (ha : a.weight (fun j => outboundId j.key) (fun r => outboundId r.key) = {id})
    (hb : b.weight (fun j => outboundId j.key) (fun r => outboundId r.key) = {id}) : i = k := by
  by_contra hne
  obtain ⟨rest, hrest⟩ := weight_two (fun j : OutboundJob => outboundId j.key)
    (fun r : OutboundResult => outboundId r.key) hne hi hk
  rw [heldIds, Worker.weight, hrest, ha, hb] at hn
  have hcount := Multiset.nodup_iff_count_le_one.mp hn id
  simp only [Multiset.count_add, Multiset.count_singleton_self] at hcount
  omega

theorem outboundId_of_queue (hq : j.queue = .outbound) : outboundId j.key = {j.callId} := by
  simp [outboundId, OutboundJob.key, hq]

theorem mem_keys_filter {flags : List (CallKey × Bool)} {key other : CallKey} (hne : key ≠ other)
    (h : key ∈ flags.map (·.1)) : key ∈ (flags.filter (·.1 ≠ other)).map (·.1) := by
  obtain ⟨f, hf, rfl⟩ := List.mem_map.mp h
  exact List.mem_map.mpr ⟨f, List.mem_filter.mpr ⟨hf, by simpa using hne⟩, rfl⟩

theorem registered_start : Registered {} := by
  intro i j hi _
  have hi : (List.replicate httpThreads (Thread.idle : Thread OutboundJob OutboundResult))[i]? =
      some (.working j) := hi
  obtain ⟨hlt, hidle⟩ := List.getElem?_eq_some_iff.mp hi
  rw [List.getElem_replicate] at hidle
  cases hidle

theorem registered_spi {t : Tick} (h : Registered s.worker) : Registered (s.spi pg t).worker := by
  have hturn := spi_turn pg t s
  generalize s.spi pg t = s' at hturn
  cases hturn with
  | die hdie => exact registered_start
  | receive r pool hp hr =>
    intro i j hi hq
    exact h i j (by rwa [← receive_threads hr]) hq
  | flag lost hp =>
    intro i j hi hq
    obtain ⟨f, hf, hkey⟩ := List.mem_map.mp (h i j hi hq)
    exact List.mem_map.mpr ⟨_, List.mem_map.mpr ⟨f, hf, rfl⟩, hkey⟩
  | _ => exact fun i j hi hq => h i j hi hq

theorem registered_step (e : WorkerEvent) (hn : (heldIds s).Nodup) (h : Registered s.worker) :
    Registered (step pg s e).worker := by
  cases e with
  | session e =>
    have hworker : (step pg s (.session e)).worker = s.worker := by
      simp only [step]
      split <;> rfl
    rwa [hworker]
  | tick t => exact registered_spi h
  | take k => exact fun i j hi hq => h i j (working_of_take hi) hq
  | register k =>
    simp only [step, System.register]
    split
    · rename_i j' hk
      intro i j hi hq
      have hthread : (s.worker.pool.threads.set k (.working j'))[i]? = some (.working j) := by
        simpa [Pool.enter, hk] using hi
      rcases working_of_set hthread with ⟨rfl, hj⟩ | hold
      · obtain rfl : j' = j := by simpa using hj
        simp
      · by_cases hkey : j.key = j'.key
        · simp [hkey]
        · exact List.mem_cons_of_mem _ (mem_keys_filter hkey (h i j hold hq))
    · exact h
  | perform k U parse =>
    simp only [step, System.perform]
    split
    · rename_i j' hk
      intro i j hi hq
      have hthread : (s.worker.pool.threads.set k (.done (System.answer U parse j')))[i]? = some
        (.working j) := by
        simpa [Pool.finish, hk] using hi
      have hold := (working_of_set hthread).resolve_left (by simp)
      refine mem_keys_filter (fun hkey => ?_) (h i j hold hq)
      have hq' : j'.queue = .outbound := (congrArg (·.1) hkey).symm.trans hq
      have hid : j'.callId = j.callId := (congrArg (·.2) hkey).symm
      obtain rfl := threads_apart hn hold hk (outboundId_of_queue hq)
        (hid ▸ outboundId_of_queue hq')
      have hlt : i < s.worker.pool.threads.length := (List.getElem?_eq_some_iff.mp hold).1
      rw [List.getElem?_set_self hlt] at hthread
      simp at hthread
    · exact h
  | deliver k => exact fun i j hi hq => h i j (working_of_deliver hi) hq
  | crash => exact registered_start

theorem registered_run (pg : Postgres) (c : Config) (es : List WorkerEvent) :
    Registered (run (step pg) (start c) es).worker := by
  induction es using List.reverseRecOn with
  | nil => exact registered_start
  | append_singleton es e ih =>
    rw [run_snoc]
    exact registered_step e (heldIds_nodup pg c es) ih

/-- How many steps of the SPI thread are left until the flag is set. -/
def Nears (key : CallKey) (s : System) : Nat → Prop
  | 0 => (key, true) ∈ s.worker.flags
  | 1 => ∃ lost, s.worker.phase = .flag lost ∧ key ∈ lost
  | 2 => ∃ ids, s.worker.phase = .ask ids ∧ key ∈ ids
  | 3 => s.worker.phase = .look
  | _ => False

/-- Nobody ends the call of the thread: the worker lives, its transactions have their privileges and
the thread goes on. -/
def undisturbed (pg : Postgres) (i : Nat) (s : System) (e : WorkerEvent) : Bool :=
  !ends pg s e && match e with
    | .tick t => t.dropped
    | .perform k _ _ => k != i
    | _ => true

def isTick : WorkerEvent → Bool
  | .tick _ => true
  | _ => false

theorem working_step {e : WorkerEvent} (he : undisturbed pg i s e = true)
    (hi : s.worker.pool.threads[i]? = some (.working j)) :
    (step pg s e).worker.pool.threads[i]? = some (.working j) := by
  cases e with
  | session e =>
    have hworker : (step pg s (.session e)).worker = s.worker := by
      simp only [step]
      split <;> rfl
    rwa [hworker]
  | tick t =>
    have hturn := spi_turn pg t s
    change (s.spi pg t).worker.pool.threads[i]? = some (.working j)
    generalize s.spi pg t = s' at hturn
    cases hturn with
    | die hdie => simp [undisturbed, hdie] at he
    | receive r pool hp hr =>
      have hthreads : pool.threads = s.worker.pool.threads := receive_threads hr
      exact hthreads ▸ hi
    | _ => exact hi
  | take k => exact working_take k hi
  | register k =>
    simp only [step, System.register]
    split
    · exact working_enter k hi
    · exact hi
  | perform k U parse =>
    have hne : k ≠ i := by simpa [undisturbed, ends] using he
    simp only [step, System.perform]
    split
    · exact working_finish _ hne hi
    · exact hi
  | deliver k => exact working_deliver k hi
  | crash => simp [undisturbed, ends] at he

/-- The other threads do not hinder a pass, and its flag stays set. -/
theorem nears_step {e : WorkerEvent} {n : Nat} (hn : (heldIds s).Nodup)
    (he : undisturbed pg i s e = true)
    (htick : isTick e = false) (hi : s.worker.pool.threads[i]? = some (.working j))
    (hq : j.queue = .outbound) (h : Nears j.key s n) : Nears j.key (step pg s e) n := by
  have hmove : ∀ s' : System, s'.worker.phase = s.worker.phase →
      ((j.key, true) ∈ s.worker.flags → (j.key, true) ∈ s'.worker.flags) → Nears j.key s' n := by
    intro s' hphase hflags
    rcases n with _ | _ | _ | _ | n
    · exact hflags h
    · simpa only [Nears, hphase] using h
    · simpa only [Nears, hphase] using h
    · simpa only [Nears, hphase] using h
    · exact h
  cases e with
  | session e =>
    have hworker : (step pg s (.session e)).worker = s.worker := by
      simp only [step]
      split <;> rfl
    exact hmove _ (congrArg Worker.phase hworker) (by rw [hworker]; exact id)
  | tick t => cases htick
  | take k => exact hmove _ rfl id
  | register k =>
    simp only [step, System.register]
    split
    · rename_i j' hk
      refine hmove _ rfl fun hflag => List.mem_cons_of_mem _ (List.mem_filter.mpr ⟨hflag, ?_⟩)
      have hne : j.key ≠ j'.key := by
        intro hkey
        have hq' : j'.queue = .outbound := (congrArg (·.1) hkey).symm.trans hq
        have hid : j'.callId = j.callId := (congrArg (·.2) hkey).symm
        obtain rfl := threads_apart hn hi hk (outboundId_of_queue hq)
          (hid ▸ outboundId_of_queue hq')
        rw [hi] at hk
        cases hk
      simpa using hne
    · exact h
  | perform k U parse =>
    have hki : k ≠ i := by simpa [undisturbed, ends] using he
    simp only [step, System.perform]
    split
    · rename_i j' hk
      refine hmove _ rfl fun hflag => List.mem_filter.mpr ⟨hflag, ?_⟩
      have hne : j.key ≠ j'.key := by
        intro hkey
        have hq' : j'.queue = .outbound := (congrArg (·.1) hkey).symm.trans hq
        have hid : j'.callId = j.callId := (congrArg (·.2) hkey).symm
        exact hki (threads_apart hn hi hk (outboundId_of_queue hq)
          (hid ▸ outboundId_of_queue hq')).symm
      simpa using hne
    · exact h
  | deliver k => exact hmove _ rfl id
  | crash => simp [undisturbed, ends] at he

/-- A step of the SPI thread brings a lost call nearer to its flag. -/
theorem nears_tick {t : Tick} {n : Nat} (hreg : Registered s.worker) (hl : Lost s.db j.key)
    (he : undisturbed pg i s (.tick t) = true) (hi : s.worker.pool.threads[i]? = some (.working j))
    (hq : j.queue = .outbound) (h : Nears j.key s n) : Nears j.key (s.spi pg t) (n - 1) := by
  have hkey := hreg i j hi hq
  have hdrop : t.dropped = true := by
    simp only [undisturbed, Bool.and_eq_true] at he
    exact he.2
  rcases n with _ | _ | _ | _ | n
  · have hturn := spi_turn pg t s
    generalize s.spi pg t = s' at hturn
    cases hturn with
    | die hdie => simp [undisturbed, hdie] at he
    | flag lost hp => exact List.mem_map.mpr ⟨_, h, by simp⟩
    | _ => exact h
  · obtain ⟨lost, hp, hlost⟩ := h
    obtain ⟨f, hf, hfkey⟩ := List.mem_map.mp hkey
    simp only [System.spi, hp]
    exact List.mem_map.mpr ⟨f, hf, by simp [hfkey, hlost]⟩
  · obtain ⟨ids, hp, hids⟩ := h
    have hmem : j.key ∈ fnCheckLostOutbound s.db ids := mem_fnCheckLostOutbound.mpr ⟨hl, hids⟩
    simp only [System.spi, hp, hdrop, if_true, if_neg (List.ne_nil_of_mem hmem)]
    exact ⟨_, rfl, hmem⟩
  · have hp : s.worker.phase = .look := h
    have hne : s.worker.flags ≠ [] := by
      intro hnil
      simp [hnil] at hkey
    simp only [System.spi, hp, if_neg hne]
    exact ⟨_, rfl, hkey⟩
  · exact h.elim

end Pass

section Outcome

/-- The session is cancelled while a thread waits for the answer of the model. -/
def stoppedRun : List WorkerEvent :=
  [.session ⟨1, .createSession 1 (some "go") none none⟩] ++ List.replicate 4 (.tick { now := 2 }) ++
    [.take 0, .register 0, .session ⟨3, .cancelSession 1 none⟩] ++
      List.replicate 8 (.tick { now := 4 })

def nextTicks : List WorkerEvent :=
  List.replicate 3 (.tick { now := 5 })

def Phase.isLook : Phase → Bool
  | .look => true
  | _ => false

theorem look_of_isLook {phase : Phase} (h : phase.isLook = true) : phase = .look := by
  cases phase <;> first | rfl | cases h

def Worker.jobAt (w : Worker) (i : Nat) : Option OutboundJob :=
  w.pool.threads[i]?.bind fun
    | .working j => some j
    | _ => none

theorem working_of_jobAt {w : Worker} {i : Nat} {j : OutboundJob} (h : w.jobAt i = some j) :
    w.pool.threads[i]? = some (.working j) := by
  unfold Worker.jobAt at h
  obtain ⟨thread, hi, h⟩ := Option.bind_eq_some_iff.mp h
  cases thread with
  | working j' => exact Option.some.inj h ▸ hi
  | _ => cases h

/-- When the SPI thread comes to look and a thread is at work on a call that is lost, three steps of
the SPI thread later its flag is set, whatever the other threads and the sessions do in between as
long as nobody ends the call. -/
theorem lost_calls_flagged (pg : Postgres) (c : Config) (es fs : List WorkerEvent) (i : Nat)
    (j : OutboundJob)
    (hlook : (run (step pg) (start c) es).worker.phase = .look)
    (hi : (run (step pg) (start c) es).worker.pool.threads[i]? = some (.working j))
    (hl : Lost (run (step pg) (start c) es).db j.key)
    (hund : Along (step pg) (fun s e => undisturbed pg i s e = true)
      (run (step pg) (start c) es) fs)
    (hticks : 3 ≤ fs.countP isTick) :
    (j.key, true) ∈ (run (step pg) (run (step pg) (start c) es) fs).worker.flags := by
  have hpass : (run (step pg) (start c) (es ++ fs)).worker.pool.threads[i]? = some (.working j) ∧
      Lost (run (step pg) (start c) (es ++ fs)).db j.key ∧
      Nears j.key (run (step pg) (start c) (es ++ fs)) (3 - fs.countP isTick) := by
    clear hticks
    induction fs using List.reverseRecOn with
    | nil => simpa using ⟨hi, hl, hlook⟩
    | append_singleton fs e ih =>
      obtain ⟨hfs, he, -⟩ := along_append.mp hund
      rw [← run_append] at he
      obtain ⟨hwork, hlost, hnear⟩ := ih hfs
      rw [← List.append_assoc, run_snoc, List.countP_append]
      refine ⟨working_step he hwork, lost_step e (wellFormed_db (wellFormed_start c) _) hlost, ?_⟩
      cases ht : isTick e with
      | false =>
        have hcount : [e].countP isTick = 0 := by simp [ht]
        rw [hcount, Nat.add_zero]
        exact nears_step (heldIds_nodup pg c _) he ht hwork hlost.1 hnear
      | true =>
        have hcount : [e].countP isTick = 1 := by simp [ht]
        rw [hcount, Nat.sub_add_eq]
        cases e with
        | tick t => exact nears_tick (registered_run pg c _) hlost he hwork hlost.1 hnear
        | _ => cases ht
  rw [Nat.sub_eq_zero_of_le hticks] at hpass
  rw [← run_append]
  exact hpass.2.2

theorem stopped_call_flagged :
    ((.outbound, 3), true) ∈
      (run (step Allgres.bareServer) (run (step Allgres.bareServer) (start gatedConfig) stoppedRun)
        nextTicks).worker.flags := by
  have h :
      (run (step Allgres.bareServer) (start gatedConfig) stoppedRun).worker.phase.isLook = true ∧
      ((run (step Allgres.bareServer) (start gatedConfig) stoppedRun).worker.jobAt 0).map
          OutboundJob.key =
        some (.outbound, 3) ∧
      (∃ q ∈ (run (step Allgres.bareServer) (start gatedConfig) stoppedRun).db.calls,
        q.callId = 3 ∧ q.req.queue = .outboundCalls ∧ q.status = .lost) ∧
      Along (step Allgres.bareServer) (fun s e => undisturbed Allgres.bareServer 0 s e = true)
        (run (step Allgres.bareServer) (start gatedConfig) stoppedRun) nextTicks := by
    decide +kernel
  obtain ⟨hlook, hwork, hlost, hund⟩ := h
  obtain ⟨j, hj, hkey⟩ := Option.map_eq_some_iff.mp hwork
  have hl : Lost (run (step Allgres.bareServer) (start gatedConfig) stoppedRun).db j.key := by
    rw [hkey]
    exact ⟨rfl, hlost⟩
  exact hkey ▸ lost_calls_flagged Allgres.bareServer gatedConfig stoppedRun nextTicks 0 j
    (look_of_isLook hlook) (working_of_jobAt hj) hl hund (by decide)

/-- In every run a flag is set only of a call that is lost, and its answer will be of no effect:
whatever happens in between, the completion leaves the database as it is. -/
theorem flagged_calls_lost (pg : Postgres) (c : Config) (es fs : List WorkerEvent) (e : Event)
    (key : CallKey)
    (hflag : (key, true) ∈ (run (step pg) (start c) es).worker.flags)
    (he : e.op.completes = some (.outboundCalls, key.2)) :
    Lost (run (step pg) (start c) es).db key ∧
      let db := (run (step pg) (start c) (es ++ fs)).db
      Allgres.step pg db e = db := by
  have hw : (run (step pg) (start c) es).db.core.WellFormed := wellFormed_db (wellFormed_start c) es
  have hstart : FlagsLost (start c) := ⟨by simp [start], by simp [start]⟩
  have hlost := (flagsLost_run es (wellFormed_start c) hstart).flags key hflag
  refine ⟨hlost, ?_⟩
  intro db
  have hrun : db = run (Allgres.step pg) (run (step pg) (start c) es).db
      (trace pg (run (step pg) (start c) es) fs) := by
    rw [← run_db, ← run_append]
  have hlater : Lost db key := by
    rw [hrun]
    exact lost_run _ hw hlost
  have hkey : key = (.outbound, key.2) := Prod.ext hlater.1 rfl
  rw [hkey] at hlater
  exact lost_completion (wellFormed_db (wellFormed_start c) _) hlater he

/-- The answer that comes all the same. -/
theorem stopped_answer_ignored :
    Lost (run (step Allgres.bareServer) (start gatedConfig) (stoppedRun ++ nextTicks)).db
      (.outbound, 3) ∧
      let db := (run (step Allgres.bareServer) (start gatedConfig)
        (stoppedRun ++ nextTicks ++ [])).db
      Allgres.step Allgres.bareServer db ⟨9, .completeOutbound 3 (some 200) (some "late")⟩ = db :=
  flagged_calls_lost Allgres.bareServer gatedConfig (stoppedRun ++ nextTicks) []
    ⟨9, .completeOutbound 3 (some 200) (some "late")⟩ (.outbound, 3) (by decide +kernel) rfl

end Outcome

end Allgres.RuntimeWorker
