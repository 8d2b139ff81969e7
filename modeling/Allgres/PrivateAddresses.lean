import Allgres.Cancellations
import Allgres.Credentials
import Allgres.Ipv6Blocklists

/-! Requests to private addresses. The resolver of the worker gives ureq no blocked address unless
the row of the call allows it; and such a row names a connection or a provider that is open to
private networks when the call is claimed. -/

namespace Allgres

open Raise Rows Runs Allgres.Core

section Rows

/-- Every request that may go to private addresses names who opens them. -/
def AllVouched (db : Db) : Prop :=
  ∀ q ∈ db.calls, ∀ o, q.req = .outbound o → o.allowPrivate = true →
    o.connectionId.isSome = true ∨ o.providerId.isSome = true

variable {pg : Postgres} {now : Time} {G : Json → Prop} {db db' : Db}

theorem vouched_of_llm {c : Config} {spec : LlmSpec} :
    Returns (fun o => o.providerId.isSome = true) (buildLlmHttp c spec) := by
  unfold buildLlmHttp
  split
  · exact returns_error _
  · split
    · exact returns_error _
    · split
      · exact returns_error _
      · dsimp only
        split
        · exact returns_error _
        · exact returns_seq fun body => returns_pure rfl

theorem AllVouched.write (h : AllVouched db) (hw : Write pg now G db db') : AllVouched db' := by
  intro q hq o ho ha
  rcases hw.queued hq with ⟨r, hr, hid⟩ | hnew
  · have hreq : r.req = q.req := congrArg (·.2.2) hid
    exact h r hr o (hreq.trans ho) ha
  · cases hnew with
    | @asked t spec o' _ hb hid =>
      have hreq : q.req = .outbound o' := congrArg (·.2.2) hid
      obtain rfl : o = o' := by
        rw [ho] at hreq
        injection hreq
      exact .inr (vouched_of_llm _ hb)
    | @stepped t a payload s req _ _ hs hn hid =>
      obtain rfl : q.req = req := congrArg (·.2.2) hid
      have hasks := Turn.payloadStep_asks pg _ payload s hs
      dsimp only at hasks
      rw [hn, ho] at hasks
      cases hasks with
      | @outgoing v args orig headers name bound d url hd hu hc hh =>
        left
        cases hconn : d.connection with
        | none => simp [Turn.outboundOf, hconn] at ha
        | some conn => simp [Turn.outboundOf, hconn]
      | search v hp hk hc => exact .inr rfl

theorem allVouched_run (pg : Postgres) (c : Config) (es : List Event) :
    AllVouched (run (step pg) (start c) es) :=
  run_invariant (fun _ h hw => h.write hw) (wellFormed_start c)
    (by intro q hq; simp [start] at hq) es

/-- The connection or the provider of a request is enabled and open to private networks. -/
def Consents (c : Config) (o : Outbound) : Prop :=
  (∃ id conn, o.connectionId = some id ∧ c.connection? id = some conn ∧ conn.isEnabled = true ∧
    conn.allowPrivateNetwork = true) ∨
  ∃ id p, o.providerId = some id ∧ c.provider? id = some p ∧ p.isEnabled = true ∧
    p.allowPrivateNetwork = true

theorem consents_of_guard {c : Config} {agentId : Uuid} {o : Outbound}
    (h : guardReason pg c agentId (.outbound o) = none) (ha : o.allowPrivate = true)
    (hv : o.connectionId.isSome = true ∨ o.providerId.isSome = true) : Consents c o := by
  obtain ⟨hconn, hprov⟩ := intact_of_guardReason h
  rcases hv with hv | hv
  · obtain ⟨id, hid⟩ := Option.isSome_iff_exists.mp hv
    obtain ⟨conn, hc, hintact⟩ := hconn id hid
    simp only [connectionIntact, Bool.and_eq_true, ha, Bool.not_true, Bool.false_or] at hintact
    exact .inl ⟨id, conn, hid, hc, hintact.1.1.1, hintact.2⟩
  · obtain ⟨id, hid⟩ := Option.isSome_iff_exists.mp hv
    obtain ⟨p, hp, hintact⟩ := hprov id hid
    simp only [providerIntact, Bool.and_eq_true, ha, Bool.not_true, Bool.false_or] at hintact
    exact .inr ⟨id, p, hid, hp, hintact.1.1, hintact.2⟩

end Rows

namespace PerformHttp

section Network

/-- What a name resolves to may change from one request to the next. -/
structure Network where
  lookup : List Exchange → String → Except String (List NetAddr)
  dial : List NetAddr → List Exchange → Request → List NetAddr
  /-- Ureq connects only to what its resolver returns. -/
  dials : ∀ addrs log request, dial addrs log request ⊆ addrs
  answer : List NetAddr → Agent → List Exchange → Request → Except String Response
  readToString : Nat → Body → Except String String

/-- `GuardedResolver::resolve`. -/
def guardedResolve (allowPrivate : Bool) (found : Except String (List NetAddr)) :
    Except String (List NetAddr) :=
  match found with
  | .error e => .error e
  | .ok addrs =>
    if !allowPrivate && addrs.any isBlockedIp then .error "host not found" else .ok addrs

namespace Network

variable (N : Network)

/-- The addresses a request goes to. -/
def dialled (agent : Agent) (log : List Exchange) (request : Request) : List NetAddr :=
  match guardedResolve agent.allowPrivate (N.lookup log request.url) with
  | .error _ => []
  | .ok addrs => N.dial addrs log request

/-- The network, as ureq shows it to `perform_http`. -/
def ureq : Ureq where
  exchange agent log request :=
    match guardedResolve agent.allowPrivate (N.lookup log request.url) with
    | .error e => .error e
    | .ok addrs => N.answer (N.dial addrs log request) agent log request
  readToString := N.readToString

/-- The addresses of the requests after a log. -/
def reached (agent : Agent) : List Exchange → List Exchange → List NetAddr
  | _, [] => []
  | before, x :: xs => N.dialled agent before x.request ++ reached agent (before ++ [x]) xs

end Network

/-- `perform_http` builds one agent for all its requests. -/
def callAgent (call : Json) : Agent where
  allowPrivate := decide (call.get "allow_private" = some (.bool true))

/-- The exchanges of a log are attempts of one agent, one after the other. -/
def Attempts (U : Ureq) (agent : Agent) : List Exchange → List Exchange → Prop
  | _, [] => True
  | before, x :: xs => x = attempt U agent before x.purpose x.request ∧
    Attempts U agent (before ++ [x]) xs

variable {N : Network} {U : Ureq} {agent : Agent}

theorem dialled_public (ha : agent.allowPrivate = false) (log : List Exchange) (request : Request) :
    ∀ a ∈ N.dialled agent log request, isBlockedIp a = false := by
  intro a hmem
  unfold Network.dialled guardedResolve at hmem
  cases hl : N.lookup log request.url with
  | error e => simp [hl] at hmem
  | ok addrs =>
    rw [hl, ha] at hmem
    cases hb : addrs.any isBlockedIp with
    | true => simp [hb] at hmem
    | false =>
      simp only [hb, Bool.not_false, Bool.and_false, Bool.false_eq_true, if_false] at hmem
      have hin := N.dials addrs log request hmem
      simpa using List.any_eq_false.mp hb a hin

theorem reached_public (ha : agent.allowPrivate = false) (before log : List Exchange) :
    ∀ a ∈ N.reached agent before log, isBlockedIp a = false := by
  induction log generalizing before with
  | nil => simp [Network.reached]
  | cons x xs ih =>
    intro a hmem
    rcases List.mem_append.mp hmem with hmem | hmem
    · exact dialled_public ha before x.request a hmem
    · exact ih (before ++ [x]) a hmem

theorem attempts_sendBody {log : List Exchange} (h : Attempts U agent [] log) (request : Request) :
    Attempts U agent [] (sendBody U agent log request).log := by
  have hlog : (sendBody U agent log request).log =
      log ++ [attempt U agent log .application request] := by
    unfold sendBody
    dsimp only
    split <;> rfl
  have hsnoc : ∀ before xs, Attempts U agent before xs →
      Attempts U agent before (xs ++ [attempt U agent (before ++ xs) .application request]) := by
    intro before xs
    induction xs generalizing before with
    | nil =>
      intro _
      rw [List.append_nil]
      exact ⟨rfl, trivial⟩
    | cons x xs ih =>
      rintro ⟨hx, hxs⟩
      have hrest := ih (before ++ [x]) hxs
      rw [List.append_assoc, List.singleton_append] at hrest
      exact ⟨hx, hrest⟩
  rw [hlog]
  exact hsnoc [] log h

theorem attempts_performMcp (parse : String → Option Json) (url : String)
    (headers : List (String × String))
    (body : Json) : Attempts U agent [] (performMcp U parse agent url headers body).log := by
  have hone : ∀ p q, Attempts U agent [] [attempt U agent [] p q] := fun _ _ => ⟨rfl, trivial⟩
  have htwo : ∀ p q p' q', Attempts U agent [] [attempt U agent [] p q,
      attempt U agent [attempt U agent [] p q] p' q'] := fun _ _ _ _ => ⟨rfl, rfl, trivial⟩
  unfold performMcp
  dsimp only
  split
  · exact hone _ _
  · split
    · split
      · exact hone _ _
      · split
        · split
          · exact attempts_sendBody (hone _ _) _
          · exact hone _ _
        · split
          · split
            · exact attempts_sendBody (htwo _ _ _ _) _
            · exact htwo _ _ _ _
          · exact htwo _ _ _ _
    · split
      · exact hone _ _
      · split
        · exact attempts_sendBody (hone _ _) _
        · exact hone _ _

/-- Every request of a call is made with the agent of the call. -/
theorem attempts_performHttp (parse : String → Option Json) (call : Json) :
    Attempts U (callAgent call) [] (performHttp U parse call).log := by
  have hnil : Attempts U (callAgent call) [] [] := trivial
  have hplain : ∀ request, Attempts U (callAgent call) []
    (sendBody U (callAgent call) [] request).log :=
    fun request => attempts_sendBody hnil request
  unfold performHttp
  split
  · trivial
  · split
    · trivial
    · dsimp only
      split
      · exact attempts_performMcp _ _ _ _
      · split
        · exact hplain _
        · split
          · exact hplain _
          · exact hplain _

end Network

end PerformHttp

namespace RuntimeWorker

open ThreadPool PerformHttp

section Claims

variable {pg : Postgres} {s : System}

/-- A call of a task among those an event claims is the row of a call that the pump finds and its
guard lets pass. -/
theorem row_of_claimed {e : WorkerEvent} {j : OutboundJob} (hw : s.db.core.WellFormed)
    (hj : j ∈ claimedAt pg s e) (hq : j.queue = .outbound) :
    ∃ t, e = .tick t ∧ ∃ q ∈ (run (Allgres.step pg) s.db (pumped t)).calls,
      j = outboundJob (handOut (run (Allgres.step pg) s.db (pumped t)).cfg none q) ∧
        ∃ agentId, guardReason pg (run (Allgres.step pg) s.db (pumped t)).cfg agentId
          q.req = none := by
  cases e with
  | tick t =>
    cases hp : s.worker.phase with
    | claim queue =>
      simp only [claimedAt, hp] at hj
      split at hj
      · split at hj
        · rename_i r calls hc
          cases queue with
          | outbound =>
            simp only [claimJobs] at hc
            cases hd : dispatchAndClaim pg t (capacity - s.worker.inFlight) s.db with
            | error e =>
              rw [hd] at hc
              cases hc
            | ok x =>
              rw [hd] at hc
              obtain ⟨-, rfl⟩ := Prod.mk.inj (Except.ok.inj hc)
              obtain ⟨h, hh, rfl⟩ := List.mem_map.mp hj
              rw [dispatchAndClaim_eq hd] at hh
              have hw' : (run (Allgres.step pg) s.db (pumped t)).core.WellFormed :=
                wellFormed_run pg (pumped t) hw
              have hlist : ∀ q ∈ (claimable
                  (run (Allgres.step pg) s.db (pumped t)) t.now .outboundCalls
                  t.locked).take (claimLimit (some ((capacity - s.worker.inFlight : Nat) : Int))),
                  q ∈ (run (Allgres.step pg) s.db (pumped t)).calls :=
                fun q hq => (List.mem_filter.mp (mem_sortBy.mp (List.mem_of_mem_take hq))).1
              obtain ⟨q, hq', rfl, hguard⟩ :=
                guarded_of_handed hw' (fun q hq => ⟨q, hlist q hq, rfl⟩) hh
              exact ⟨t, rfl, q, hlist q hq', rfl, hguard⟩
          | oauth =>
            simp only [claimJobs] at hc
            cases hd : fnClaimOauth t.now (some ((capacity - s.worker.inFlight : Nat) : Int))
              t.locked
                s.db.cfg with
            | error e =>
              rw [hd] at hc
              cases hc
            | ok x =>
              rw [hd] at hc
              obtain ⟨-, rfl⟩ := Prod.mk.inj (Except.ok.inj hc)
              obtain ⟨r, -, rfl⟩ := List.mem_map.mp hj
              cases hq
          | agentEmbedding | providerProbe =>
            obtain ⟨-, rfl⟩ := Prod.mk.inj (Except.ok.inj hc)
            obtain ⟨r, -, rfl⟩ := List.mem_map.mp hj
            cases hq
        · cases hj
      · cases hj
    | _ => simp [claimedAt, hp] at hj
  | _ => cases hj

/-- A call with a thread was claimed. -/
theorem claimed_of_thread (c : Config) (es : List WorkerEvent) {i : Nat} {j : OutboundJob}
    (hi : (run (step pg) (start c) es).worker.pool.threads[i]? = some (.working j)) :
    j ∈ gathered (step pg) (claimedAt pg) (start c) es := by
  have hle := balance_le (jobs_step pg) (start c) es
  have hstart : jobsOf (start c) = 0 := weight_start
  rw [hstart, zero_add] at hle
  obtain ⟨rest, hrest⟩ := weight_thread (fun j : OutboundJob => ({j} : Multiset OutboundJob))
    (fun _ => 0) hi
  have hmem : j ∈ jobsOf (run (step pg) (start c) es) := by
    rw [jobsOf, Worker.weight, hrest]
    simp [Thread.weight]
  exact Multiset.mem_coe.mp (Multiset.mem_of_le (le_trans (Multiset.le_add_right _ _) hle) hmem)

theorem get_allowPrivate {q : Call} {o : Outbound} {c : Config} {fallback : Option String}
    (ho : q.req = .outbound o) :
    (callAgent (outboundJob (handOut c fallback q)).call).allowPrivate = o.allowPrivate := by
  have hget : (outboundJob (handOut c fallback q)).call.get "allow_private" = some
    (.bool o.allowPrivate) := by
    simp only [outboundJob, handOut, ho, outboundCall]
    rw [Json.get_object (by simp)]
    rfl
  simp [callAgent, hget]

theorem outbound_of_call {q : Call} {c : Config} {fallback : Option String}
    (ha : (callAgent (outboundJob (handOut c fallback q)).call).allowPrivate = true) :
    ∃ o, q.req = .outbound o := by
  cases ho : q.req with
  | outbound o => exact ⟨o, rfl⟩
  | _ => simp [outboundJob, handOut, ho, outboundCall, callAgent, Json.get] at ha

/-- In every run, whatever names resolve to and however often they change: every request of a call
of a task goes through the resolver of its worker; and when one goes to a blocked address, then the
row of the call allows it, and the connection or the provider that the row names was enabled and
open to private networks when the call was claimed. -/
theorem private_addresses_vouched (pg : Postgres) (c : Config) (es : List WorkerEvent) (N : Network)
    (parse : String → Option Json) (i : Nat) (j : OutboundJob)
    (hi : (run (step pg) (start c) es).worker.pool.threads[i]? = some (.working j))
    (hq : j.queue = .outbound) :
    let log := (performHttp N.ureq parse j.call).log
    Attempts N.ureq (callAgent j.call) [] log ∧
      ∀ a ∈ N.reached (callAgent j.call) [] log, isBlockedIp a = true →
        ∃ before t after, es = before ++ .tick t :: after ∧
          let db := run (Allgres.step pg) (run (step pg) (start c) before).db (pumped t)
          ∃ q ∈ db.calls, ∃ o, q.req = .outbound o ∧ j = outboundJob (handOut db.cfg none q) ∧
            o.allowPrivate = true ∧ Consents db.cfg o := by
  intro log
  refine ⟨attempts_performHttp parse j.call, fun a ha hblocked => ?_⟩
  have hallow : (callAgent j.call).allowPrivate = true := by
    by_contra hnot
    have hpublic := reached_public (N := N) (by simpa using hnot) [] log a ha
    rw [hblocked] at hpublic
    cases hpublic
  obtain ⟨before, e, after, hes, hclaimed⟩ := mem_gathered (claimed_of_thread c es hi)
  have hw : (run (step pg) (start c) before).db.core.WellFormed :=
    wellFormed_db (wellFormed_start c) before
  obtain ⟨t, rfl, q, hrow, hj, agentId, hguard⟩ := row_of_claimed hw hclaimed hq
  refine ⟨before, t, after, hes, ?_⟩
  rw [hj] at hallow
  obtain ⟨o, ho⟩ := outbound_of_call hallow
  have hrowAllows : o.allowPrivate = true := (get_allowPrivate ho).symm.trans hallow
  have hvouched : AllVouched (run (Allgres.step pg) (run (step pg) (start c) before).db
    (pumped t)) := by
    rw [run_db, ← run_append]
    exact allVouched_run pg c _
  rw [ho] at hguard
  exact ⟨q, hrow, o, ho, hj, hrowAllows,
    consents_of_guard hguard hrowAllows (hvouched q hrow o ho hrowAllows)⟩

/-- A model on the same machine, as its provider permits. -/
def localConfig : Config :=
  { gatedConfig with
    providers := [{
      providerId := 3
      name := "llm"
      baseUrl := "http://localhost:8000"
      allowPrivateNetwork := true }] }

def localNetwork : Network where
  lookup _ _ := .ok [.v4 ⟨127, 0, 0, 1⟩]
  dial addrs _ _ := addrs
  dials addrs _ _ := List.Subset.refl addrs
  answer _ _ _ _ := .error "connection refused"
  readToString _ _ := .error "no body"

theorem local_model_vouched :
    ∃ j, (∃ a ∈ localNetwork.reached (callAgent j.call) []
      (performHttp localNetwork.ureq (fun _ => none) j.call).log,
        isBlockedIp a = true) ∧
      ∃ before t after, stoppedRun.take 7 = before ++ .tick t :: after ∧
        let db := run (Allgres.step Allgres.bareServer)
          (run (step Allgres.bareServer) (start localConfig) before).db (pumped t)
        ∃ q ∈ db.calls, ∃ o, q.req = .outbound o ∧ j = outboundJob (handOut db.cfg none q) ∧
          o.allowPrivate = true ∧ Consents db.cfg o := by
  have h : ((run (step Allgres.bareServer) (start localConfig)
      (stoppedRun.take 7)).worker.jobAt 0).any
      (fun j => j.queue = .outbound ∧ ∃ a ∈ localNetwork.reached (callAgent j.call) []
        (performHttp localNetwork.ureq (fun _ => none) j.call).log,
          isBlockedIp a = true) = true := by
    decide +kernel
  obtain ⟨j, hj, hboth⟩ := (Option.any_eq_true _ _).mp h
  obtain ⟨hq, a, ha, hblocked⟩ := of_decide_eq_true hboth
  exact ⟨j, ⟨a, ha, hblocked⟩, (private_addresses_vouched Allgres.bareServer localConfig
    (stoppedRun.take 7)
    localNetwork (fun _ => none) 0 j (working_of_jobAt hj) hq).2 a ha hblocked⟩

end Claims

end RuntimeWorker

end Allgres
