import Allgres.ApprovalGate
import Allgres.Origin
import Allgres.Queueing

/-! The credentials of providers and connections. A call that is handed out with one goes
to the origin of the base URL which the provider or connection has now, and no header of
the request but the injected one can stand for the credential. -/

namespace Allgres

open Raise Rows Runs Allgres.Core

def Json.fields : Json → List (String × Json)
  | .obj fs => fs
  | _ => []

def credentialNames : List String :=
  ["authorization", "x-api-key"]

/-- No header is a credential header, however it is written. -/
def Bare (headers : Json) : Prop :=
  headers.isObject = true ∧ ∀ f ∈ headers.fields, lower f.1 ∉ credentialNames

section Headers

theorem mem_setField {key : String} {v : Json} {fs : List (String × Json)} {f : String × Json}
    (h : f ∈ Json.setField key v fs) : f = (key, v) ∨ f ∈ fs := by
  induction fs with
  | nil => exact .inl (List.mem_singleton.mp h)
  | cons g fs ih =>
    rw [Json.setField] at h
    split_ifs at h
    · rcases List.mem_cons.mp h with h | h
      · exact .inl h
      · exact .inr (List.mem_cons_of_mem g h)
    · rcases List.mem_cons.mp h with h | h
      · exact .inl h
      · exact .inr h
    · rcases List.mem_cons.mp h with h | h
      · exact .inr (h ▸ List.mem_cons_self)
      · rcases ih h with h | h
        · exact .inl h
        · exact .inr (List.mem_cons_of_mem g h)

theorem mem_foldl_setField {gs fs : List (String × Json)} {f : String × Json}
    (h : f ∈ gs.foldl (fun acc g => Json.setField g.1 g.2 acc) fs) : f ∈ gs ∨ f ∈ fs := by
  induction gs generalizing fs with
  | nil => exact .inr h
  | cons g gs ih =>
    rcases ih h with h | h
    · exact .inl (List.mem_cons_of_mem g h)
    · rcases mem_setField h with rfl | h
      · exact .inl List.mem_cons_self
      · exact .inr h

theorem bare_object {gs : List (String × Json)} (h : ∀ f ∈ gs, lower f.1 ∉ credentialNames) :
    Bare (.object gs) := by
  refine ⟨rfl, fun f hf => ?_⟩
  rcases mem_foldl_setField hf with hf | hf
  · exact h f hf
  · cases hf

theorem bare_merge {headers : Json} {gs : List (String × Json)} (hh : Bare headers)
    (h : ∀ f ∈ gs, lower f.1 ∉ credentialNames) : Bare (headers.merge (.object gs)) := by
  cases headers with
  | obj fs =>
    refine ⟨rfl, fun f hf => ?_⟩
    rcases mem_foldl_setField hf with hf | hf
    · exact (bare_object h).2 f hf
    · exact hh.2 f hf
  | _ => exact hh

theorem bare_agentHeaders (args : Json) : Bare (Turn.agentHeaders args) := by
  unfold Turn.agentHeaders
  split
  · refine bare_object fun f hf hin => ?_
    obtain ⟨g, hg, rfl⟩ := List.mem_map.mp hf
    have hprot : lower g.1 ∉ Turn.protectedHeaders := by simpa using (List.mem_filter.mp hg).2
    dsimp only at hin
    rw [lower_lower] at hin
    simp only [credentialNames, List.mem_cons, List.not_mem_nil, or_false] at hin
    simp only [Turn.protectedHeaders, List.mem_cons, List.not_mem_nil, or_false, not_or] at hprot
    rcases hin with h | h
    · exact hprot.1 h
    · exact hprot.2.1 h
  · exact bare_object (by simp)

theorem bare_of_drafted {args h : Json} (hd : Turn.Drafted args h) : Bare h := by
  rcases hd with rfl | rfl | rfl
  · exact bare_object (by decide)
  · exact bare_object (by decide)
  · exact bare_merge (bare_agentHeaders args) (by decide)

theorem bare_of_outgoing {T : Turn} {v : Json} {d : Turn.Draft} {url : String}
    {headers args : Json} (hd : Turn.Drafted args d.headers)
    (hh : T.operationHeaders v url d = .ok headers) : Bare headers := by
  unfold Turn.operationHeaders at hh
  split_ifs at hh
  · obtain rfl := Except.ok.inj hh
    exact bare_of_drafted hd
  · split at hh
    · obtain rfl := Except.ok.inj hh
      refine bare_merge (bare_of_drafted hd) fun f hf => ?_
      rw [List.mem_singleton.mp hf]
      exact (by decide : lower "idempotency-key" ∉ credentialNames)
    · cases hh

theorem bare_of_llm {c : Config} {spec : LlmSpec} :
    Returns (fun o => Bare o.requestHeaders) (buildLlmHttp c spec) := by
  unfold buildLlmHttp
  split
  · exact returns_error _
  · split
    · exact returns_error _
    · split
      · exact returns_error _
      · dsimp only
        split
        · exact returns_error _
        · refine returns_seq fun body => returns_pure ?_
          refine bare_object fun f hf => ?_
          split at hf
          · rcases List.mem_cons.mp hf with rfl | hf
            · decide
            · obtain rfl := List.mem_singleton.mp hf
              decide
          · obtain rfl := List.mem_singleton.mp hf
            decide

end Headers

/-- No call of the outgoing queue is stored with a credential header. -/
def AllBare (db : Db) : Prop :=
  ∀ q ∈ db.calls, ∀ o, q.req = .outbound o → Bare o.requestHeaders

section Stored

variable {pg : Postgres} {now : Time} {G : Json → Prop} {db db' : Db}

theorem AllBare.write (h : AllBare db) (hw : Write pg now G db db') : AllBare db' := by
  intro q hq o ho
  rcases hw.queued hq with ⟨r, hr, hid⟩ | hnew
  · have hreq : r.req = q.req := congrArg (·.2.2) hid
    exact h r hr o (hreq.trans ho)
  · cases hnew with
    | @asked t spec o' _ hb hid =>
      have hreq : q.req = .outbound o' := congrArg (·.2.2) hid
      obtain rfl : o = o' := by
        rw [ho] at hreq
        injection hreq
      exact bare_of_llm _ hb
    | @stepped t a payload s req _ _ hs hn hid =>
      obtain rfl : q.req = req := congrArg (·.2.2) hid
      have hasks := Turn.payloadStep_asks pg _ payload s hs
      dsimp only at hasks
      rw [hn, ho] at hasks
      cases hasks with
      | @outgoing v args orig headers name bound d url hd hu hc hh =>
        exact bare_of_outgoing (Turn.draftCall_spec _ _ _ _ _ _ hd).2 hh
      | search v hp hk hc => exact bare_object (by decide)

theorem allBare_run (pg : Postgres) (c : Config) (es : List Event) :
    AllBare (run (step pg) (start c) es) :=
  run_invariant (fun _ h hw => h.write hw) (wellFormed_start c)
    (by intro q hq; simp [start] at hq) es

end Stored

section Handed

variable {pg : Postgres} {now : Time} {queue : Queue} {fallback : Option String}

/-- What a claim hands out is a listed call that passed its guard. -/
theorem guarded_of_handed {qs : List Call} {db : Db} (hw : db.core.WellFormed)
    (hqs : ∀ q ∈ qs, ∃ r ∈ db.calls, r.ident = q.ident) {h : Handed}
    (hh : h ∈ (claimLoop pg now queue fallback qs db).2) :
    ∃ q ∈ qs, h = handOut db.cfg fallback q ∧
      ∃ agentId, guardReason pg db.cfg agentId q.req = none := by
  induction qs generalizing db with
  | nil => cases hh
  | cons q qs ih =>
    have hgrow : Grow db.core (guardQueuedCall pg now db queue q.callId).1.core :=
      (guardQueuedCall_evolves (G := fun _ _ _ => True) pg now queue q.callId hw
        (fun _ _ => trivial) fun _ _ => trivial).grow
    have hcfg := cfg_guardQueuedCall pg now db queue q.callId
    have hrows : ∀ {d : Db}, Grow db.core d.core →
        ∀ p ∈ qs, ∃ r ∈ d.calls, r.ident = p.ident := by
      intro d hd p hp
      obtain ⟨r, hr, hid⟩ := hqs p (List.mem_cons_of_mem q hp)
      obtain ⟨r', hr', hid'⟩ := hd.calls.kept hr
      exact ⟨r', hr', hid'.trans hid⟩
    rw [claimLoop] at hh
    dsimp only at hh
    by_cases hok : (guardQueuedCall pg now db queue q.callId).2 = true
    · rw [if_pos hok] at hh
      rcases List.mem_cons.mp hh with rfl | hh
      · obtain ⟨-, p, t, hwait, hreason, -⟩ := guardQueuedCall_true hok
        obtain ⟨hpm, hpid, -⟩ := hwait.mem
        obtain ⟨r, hr, hid⟩ := hqs q (by simp)
        have hrq : r.callId = q.callId := congrArg (·.1) hid
        obtain rfl := eq_of_key Call.callId hw.callIds hpm hr (hpid.trans hrq.symm)
        have hreq : p.req = q.req := congrArg (·.2.2) hid
        exact ⟨q, by simp, by rw [hcfg], t.agentId, hreq ▸ hreason⟩
      · have htake : Grow (guardQueuedCall pg now db queue q.callId).1.core
            ((guardQueuedCall pg now db queue q.callId).1.takeCall q.callId now).core := by
          refine grow_updateCall ?_
          exact fun _ => rfl
        have hgrow' := hgrow.trans htake
        obtain ⟨p, hp, he, agentId, hreason⟩ := ih (hgrow'.wf hw) (hrows hgrow') hh
        have hcfg' : ((guardQueuedCall pg now db queue q.callId).1.takeCall q.callId now).cfg =
            db.cfg := hcfg
        rw [hcfg'] at he hreason
        exact ⟨p, List.mem_cons_of_mem q hp, he, agentId, hreason⟩
    · rw [if_neg hok] at hh
      obtain ⟨p, hp, he, agentId, hreason⟩ := ih (hgrow.wf hw) (hrows hgrow) hh
      rw [hcfg] at he hreason
      exact ⟨p, List.mem_cons_of_mem q hp, he, agentId, hreason⟩

/-- The guard of an outgoing call looks at its connection and its provider as they are. -/
theorem intact_of_guardReason {c : Config} {agentId : Uuid} {o : Outbound}
    (h : guardReason pg c agentId (.outbound o) = none) :
    (∀ id, o.connectionId = some id →
      ∃ conn, c.connection? id = some conn ∧ connectionIntact conn o = true) ∧
    ∀ id, o.providerId = some id → ∃ p, c.provider? id = some p ∧ providerIntact p o = true := by
  have hall : ∀ x ∈ outboundReasons c o, x = none := by
    intro x hx
    have hmem : x ∈ (reasonIf (!(c.agent? agentId).any (·.isActive)) "agent_inactive" ::
        requestReasons pg c agentId (.outbound o) ++
          [reasonIf ((guardRules c agentId (.outbound o)).any (·.decision = .deny))
            "execution_denied"]).reverse := by
      simp [requestReasons, hx]
    have := List.findSome?_eq_none_iff.mp h x hmem
    simpa using this
  constructor
  · intro id hid
    have hx := hall (o.connectionId.bind fun id => reasonIf
      (!(c.connection? id).any (connectionIntact · o)) "connection_changed_or_disabled") (by
        simp [outboundReasons])
    rw [hid, Option.bind_some] at hx
    cases hc : c.connection? id with
    | none => simp [hc, reasonIf] at hx
    | some conn => exact ⟨conn, rfl, by simpa [hc, reasonIf] using hx⟩
  · intro id hid
    have hx := hall (o.providerId.bind fun id => reasonIf
      (!(c.provider? id).any (providerIntact · o)) "provider_changed_or_disabled") (by
        simp [outboundReasons])
    rw [hid, Option.bind_some] at hx
    cases hp : c.provider? id with
    | none => simp [hp, reasonIf] at hx
    | some p => exact ⟨p, rfl, by simpa [hp, reasonIf] using hx⟩

end Handed

/-- The value of an injected credential header. -/
def credentialValue (kind : AuthKind) (key : String) : Json :=
  .str (if kind = .xApiKey then key else "Bearer " ++ key)

/-- A request that carries a credential: it goes where the base URL points, and every header
that could be taken for the credential is the injected one. -/
structure Confined (base url : String) (kind : AuthKind) (key : String) (headers : Json) :
    Prop where
  origin : Accepted base → SameOrigin url base
  injected : headers.get kind.text = some (credentialValue kind key)
  only : ∀ f ∈ headers.fields, lower f.1 ∈ credentialNames →
    f = (kind.text, credentialValue kind key)

theorem confined_of_bare {base url : String} {kind : AuthKind} {key : String} {headers : Json}
    (ho : Accepted base → SameOrigin url base) (hb : Bare headers) :
    Confined base url kind key (headers.merge (credential kind key)) := by
  cases headers with
  | obj fs =>
    refine ⟨ho, ?_, fun f hf hc => ?_⟩
    · exact Json.get_merge_one fs kind.text _
    · rcases mem_foldl_setField hf with hf | hf
      · exact List.mem_singleton.mp hf
      · exact absurd hc (hb.2 f hf)
  | _ => cases hb.1

/-- In every run, whatever is edited and claimed next: a call that is handed out with the
credential of a provider or of a connection is confined to what its base URL is now. -/
theorem credential_confined (pg : Postgres) (c : Config) (es : List Event) (e : Event)
    (queue : Queue) (limit : Option Int) (fallback : Option String) (locked : List Uuid)
    (hop : e.op = .claim queue limit fallback locked) :
    let db := run (step pg) (start c) es
    ∀ h ∈ handed pg db e, ∃ q ∈ db.calls, h = handOut db.cfg fallback q ∧
      ∀ o kind, q.req = .outbound o → o.authKind = some kind →
        (∀ id, o.providerId = some id → ∃ p, db.cfg.provider? id = some p ∧ p.isEnabled = true ∧
          Confined p.baseUrl o.url kind (providerKey db.cfg id fallback)
            (claimedHeaders db.cfg o fallback)) ∧
        ∀ id, o.providerId = none → o.connectionId = some id →
          ∃ conn, db.cfg.connection? id = some conn ∧ conn.isEnabled = true ∧
            conn.authKind = some kind ∧
            Confined conn.baseUrl o.url kind (orEmpty (connectionSecret db.cfg id))
              (claimedHeaders db.cfg o fallback) := by
  intro db h hh
  have hw : db.core.WellFormed := wellFormed_run pg es (wellFormed_start c)
  have hbare : AllBare db := allBare_run pg c es
  unfold handed at hh
  rw [hop] at hh
  have hlist : ∀ q ∈ (claimable db e.now queue locked).take (claimLimit limit), q ∈ db.calls :=
    fun q hq => (List.mem_filter.mp (mem_sortBy.mp (List.mem_of_mem_take hq))).1
  obtain ⟨q, hq, he, agentId, hreason⟩ :=
    guarded_of_handed hw (fun q hq => ⟨q, hlist q hq, rfl⟩) hh
  refine ⟨q, hlist q hq, he, fun o kind ho ha => ?_⟩
  rw [ho] at hreason
  obtain ⟨hconn, hprov⟩ := intact_of_guardReason hreason
  have hb := hbare q (hlist q hq) o ho
  constructor
  · intro id hid
    obtain ⟨p, hp, hintact⟩ := hprov id hid
    simp only [providerIntact, Bool.and_eq_true] at hintact
    refine ⟨p, hp, hintact.1.1, ?_⟩
    have hheaders : claimedHeaders db.cfg o fallback =
        o.requestHeaders.merge (credential kind (providerKey db.cfg id fallback)) := by
      simp only [claimedHeaders, ha, hid]
    rw [hheaders]
    exact confined_of_bare (fun hacc => sameOrigin_of_startsWith hacc hintact.1.2) hb
  · intro id hnone hid
    obtain ⟨conn, hc, hintact⟩ := hconn id hid
    simp only [connectionIntact, Bool.and_eq_true, decide_eq_true_eq, Bool.or_eq_true] at hintact
    refine ⟨conn, hc, hintact.1.1.1, hintact.1.2 ▸ ha, ?_⟩
    have hheaders : claimedHeaders db.cfg o fallback =
        o.requestHeaders.merge (credential kind (orEmpty (connectionSecret db.cfg id))) := by
      simp only [claimedHeaders, ha, hnone, hid]
    rw [hheaders]
    refine confined_of_bare (fun hacc => ?_) hb
    rcases hintact.1.1.2 with hurl | hurl
    · rw [hurl]
      exact sameOrigin_of_authority rfl rfl
    · exact sameOrigin_of_startsWith hacc hurl

/-- A model is asked, and its call not yet taken. -/
def askedRun : List Event :=
  [⟨1, .createSession 1 (some "go") none none⟩, ⟨2, .dispatch (fun _ => 0) []⟩]

def usesProvider (id : Uuid) (q : Call) : Bool :=
  match q.req with
  | .outbound o => o.authKind = some .authorization && o.providerId = some id
  | _ => false

theorem model_call_confined :
    let db := run (step bareServer) (start gatedConfig) askedRun
    ∃ q ∈ db.calls, ∃ o, q.req = .outbound o ∧ SameOrigin o.url "https://llm.example" ∧
      (claimedHeaders db.cfg o (some "k")).get "authorization" = some (.str "Bearer k") := by
  let e : Event := ⟨3, .claim .outboundCalls none (some "k") []⟩
  have hfacts : (handed bareServer (run (step bareServer) (start gatedConfig) askedRun) e).length =
        1 ∧ (run (step bareServer) (start gatedConfig) askedRun).calls.all (usesProvider 3) = true ∧
      ((run (step bareServer) (start gatedConfig) askedRun).cfg.provider? 3).map (·.baseUrl) =
        some "https://llm.example" ∧
      providerKey (run (step bareServer) (start gatedConfig) askedRun).cfg 3 (some "k") = "k" := by
    decide +kernel
  have hconf := credential_confined bareServer gatedConfig askedRun e .outboundCalls none
    (some "k") [] rfl
  generalize run (step bareServer) (start gatedConfig) askedRun = db at hfacts hconf
  obtain ⟨hlen, huses, hbase, hkey⟩ := hfacts
  obtain ⟨h, hh⟩ := List.exists_mem_of_length_pos (hlen ▸ Nat.one_pos)
  obtain ⟨q, hq, -, hrest⟩ := hconf h hh
  have hu := List.all_eq_true.mp huses q hq
  unfold usesProvider at hu
  split at hu
  · rename_i o ho
    simp only [Bool.and_eq_true, decide_eq_true_eq] at hu
    obtain ⟨p, hp, -, hc⟩ := (hrest o .authorization ho hu.1).1 3 hu.2
    have hpb : p.baseUrl = "https://llm.example" := by simpa [hp] using hbase
    rw [hkey, hpb] at hc
    have hacc : Accepted "https://llm.example" := ⟨false, by decide +kernel⟩
    exact ⟨q, hq, o, ho, hc.origin hacc, hc.injected⟩
  · cases hu

end Allgres
