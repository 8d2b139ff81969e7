import Allgres.Credentials
import Allgres.SecretReading

/-! The fallback key of a claim. Two claims of the same queue with different keys
hand out the same calls, and differ in those whose provider has no secret that can
be read. -/

namespace Allgres

open Rows Runs

section Claims

variable (P : Option Pgcrypto) (key : Option String)

/-- `provider_secret`: the column is chosen first and decrypted then. -/
def decryptedProviderSecret (c : Config) (id : Uuid) : Option String :=
  decryptSecret P key (providerSecret c id)

def isFallbackName (name : Option String) : Bool :=
  name = some "xai" || name = some "grok"

/-- The key `fn_claim_outbound` injects for a provider. -/
def injectedKey (c : Config) (id : Uuid) (fallback : Option String) : String :=
  let stored := decryptedProviderSecret P key c id
  let name := (c.provider? id).map (·.name)
  let v := if nullIfEmpty stored = none ∧ isFallbackName name = true then nullIfEmpty fallback else stored
  (v.or (nullIfEmpty fallback)).getD ""

def injectedHeaders (c : Config) (o : Outbound) (fallback : Option String) : Json :=
  match o.authKind, o.providerId, o.connectionId with
  | some kind, some id, _ => o.requestHeaders.merge (credential kind (injectedKey P key c id fallback))
  | some kind, none, some id =>
    o.requestHeaders.merge (credential kind (orEmpty (decryptSecret P key (connectionSecret c id))))
  | _, _, _ => o.requestHeaders

def handOutbound (c : Config) (fallback : Option String) (q : Call) : Handed :=
  match q.req with
  | .outbound o => .outbound q.callId q.taskId o.kind o.function o.url o.method
      (injectedHeaders P key c o fallback) o.requestBody o.allowPrivate
  | _ => handOut c fallback q

def claimOutboundLoop (pg : Postgres) (now : Time) (fallback : Option String) :
    List Call → Db → Db × List Handed
  | [], db => (db, [])
  | q :: qs, db =>
    let guarded := guardQueuedCall pg now db .outboundCalls q.callId
    if guarded.2 then
      let rest := claimOutboundLoop pg now fallback qs (guarded.1.takeCall q.callId now)
      (rest.1, handOutbound P key guarded.1.cfg fallback q :: rest.2)
    else claimOutboundLoop pg now fallback qs guarded.1

/-- `fn_claim_outbound`, over the columns as they are stored. -/
def fnClaimOutbound (pg : Postgres) (now : Time) (limit : Option Int) (fallback : Option String)
    (locked : List Uuid) (db : Db) : Db × List Handed :=
  claimOutboundLoop P key pg now fallback
    ((claimable db now .outboundCalls locked).take (claimLimit limit)) db

end Claims

section Selection

/-- The calls of a list that pass their guard, each at its turn. -/
def takenCalls (pg : Postgres) (now : Time) : List Call → Db → List Call
  | [], _ => []
  | q :: qs, db =>
    let guarded := guardQueuedCall pg now db .outboundCalls q.callId
    if guarded.2 then q :: takenCalls pg now qs (guarded.1.takeCall q.callId now)
    else takenCalls pg now qs guarded.1

/-- The calls a claim takes. -/
def claimedCalls (pg : Postgres) (now : Time) (limit : Option Int) (locked : List Uuid) (db : Db) : List Call :=
  takenCalls pg now ((claimable db now .outboundCalls locked).take (claimLimit limit)) db

theorem takenCalls_sublist (pg : Postgres) (now : Time) (qs : List Call) (db : Db) :
    (takenCalls pg now qs db).Sublist qs := by
  induction qs generalizing db with
  | nil => exact List.Sublist.refl _
  | cons q qs ih =>
    rw [takenCalls]
    split
    · exact (ih _).cons_cons q
    · exact (ih _).cons q

theorem claimedCalls_mem {pg : Postgres} {now : Time} {limit : Option Int} {locked : List Uuid} {db : Db}
    {q : Call} (h : q ∈ claimedCalls pg now limit locked db) : q ∈ db.calls ∧ q.req.queue = .outboundCalls := by
  have hlist := List.mem_of_mem_take ((takenCalls_sublist pg now _ db).subset h)
  have hrow := List.mem_filter.mp (mem_sortBy.mp hlist)
  simp only [decide_eq_true_eq, Bool.decide_and, Bool.and_eq_true] at hrow
  exact ⟨hrow.1, hrow.2.1⟩

variable (P : Option Pgcrypto) (key : Option String)

/-- What is taken does not depend on the fallback key. -/
theorem claimOutboundLoop_eq (pg : Postgres) (now : Time) (fallback : Option String) (qs : List Call) (db : Db) :
    (claimOutboundLoop P key pg now fallback qs db).2 =
      (takenCalls pg now qs db).map (handOutbound P key db.cfg fallback) := by
  induction qs generalizing db with
  | nil => rfl
  | cons q qs ih =>
    have hcfg := cfg_guardQueuedCall pg now db .outboundCalls q.callId
    have htake : ((guardQueuedCall pg now db .outboundCalls q.callId).1.takeCall q.callId now).cfg = db.cfg := hcfg
    rw [claimOutboundLoop, takenCalls]
    dsimp only
    split
    · rw [ih, htake, hcfg]
      rfl
    · rw [ih, hcfg]

theorem claimOutboundLoop_db (pg : Postgres) (now : Time) (f g : Option String) (qs : List Call) (db : Db) :
    (claimOutboundLoop P key pg now f qs db).1 = (claimOutboundLoop P key pg now g qs db).1 := by
  induction qs generalizing db with
  | nil => rfl
  | cons q qs ih =>
    rw [claimOutboundLoop, claimOutboundLoop]
    dsimp only
    split
    · exact ih _
    · exact ih _

/-- Where no secret is encrypted the claim is the one of the queues. -/
theorem fnClaimOutbound_plain (pg : Postgres) (now : Time) (limit : Option Int) (fallback : Option String)
    (locked : List Uuid) (db : Db)
    (hp : ∀ id, (providerSecret db.cfg id).all (fun s => !isEncrypted s) = true)
    (hc : ∀ id, (connectionSecret db.cfg id).all (fun s => !isEncrypted s) = true) :
    fnClaimOutbound P key pg now limit fallback locked db =
      fnClaim pg now .outboundCalls limit fallback locked db := by
  have hread : ∀ v : Option String, v.all (fun s => !isEncrypted s) = true → decryptSecret P key v = v := by
    intro v hv
    cases v with
    | none => rfl
    | some s =>
      have hs : isEncrypted s = false := by simpa using hv
      simp [decryptSecret, hs]
  have hhand : ∀ q, handOutbound P key db.cfg fallback q = handOut db.cfg fallback q := by
    intro q
    unfold handOutbound
    split
    · next o ho =>
      have hkey : ∀ id, injectedKey P key db.cfg id fallback = providerKey db.cfg id fallback := by
        intro id
        simp [injectedKey, providerKey, decryptedProviderSecret, hread _ (hp id), isFallbackName]
      have hconn : ∀ id, decryptSecret P key (connectionSecret db.cfg id) = connectionSecret db.cfg id :=
        fun id => hread _ (hc id)
      have hheaders : injectedHeaders P key db.cfg o fallback = claimedHeaders db.cfg o fallback := by
        unfold injectedHeaders claimedHeaders
        cases o.authKind with
        | none => rfl
        | some kind =>
          cases o.providerId with
          | none =>
            cases o.connectionId with
            | none => rfl
            | some id => exact congrArg (fun s => o.requestHeaders.merge (credential kind (orEmpty s))) (hconn id)
          | some id => exact congrArg (fun s => o.requestHeaders.merge (credential kind s)) (hkey id)
      simp only [handOut, ho, hheaders]
    · rfl
  rw [fnClaimOutbound, fnClaim]
  generalize ((claimable db now .outboundCalls locked).take (claimLimit limit)) = qs
  clear hp hc
  induction qs generalizing db with
  | nil => rfl
  | cons q qs ih =>
    have hcfg := cfg_guardQueuedCall pg now db .outboundCalls q.callId
    have htake : ((guardQueuedCall pg now db .outboundCalls q.callId).1.takeCall q.callId now).cfg = db.cfg := hcfg
    rw [claimOutboundLoop, claimLoop]
    dsimp only
    split
    · rw [ih _ (by rw [htake]; exact hhand), hcfg, hhand]
    · exact ih _ (by rw [hcfg]; exact hhand)

end Selection

section TwoRuns

variable (P : Option Pgcrypto) (key : Option String) (c : Config)

/-- The provider is one of the two that have a fallback, and has no stored secret. -/
def FallbackProvider (id : Uuid) : Prop :=
  isFallbackName ((c.provider? id).map (·.name)) = true ∧ nullIfEmpty (providerSecret c id) = none

/-- A call to such a provider. -/
def FallbackCall (q : Call) : Prop :=
  ∃ o id, q.req = .outbound o ∧ o.providerId = some id ∧ FallbackProvider c id

/-- A call with a credential that is looked up where there is none to read, or,
under one of the two names, an empty one. -/
def NeedsFallback (q : Call) : Prop :=
  ∃ o id, q.req = .outbound o ∧ o.authKind ≠ none ∧ o.providerId = some id ∧
    (decryptedProviderSecret P key c id = none ∨
      decryptedProviderSecret P key c id = some "" ∧ isFallbackName ((c.provider? id).map (·.name)) = true)

/-- What is handed out for one call in two claims. -/
def SameOrFallback (db : Db) (h h' : Handed) : Prop :=
  h = h' ∨ ∃ q ∈ db.calls, q.callId = h.callId ∧ q.callId = h'.callId ∧ FallbackCall db.cfg q

variable {P key c}

theorem nullIfEmpty_ne (s : Option String) : nullIfEmpty s ≠ some "" := by
  intro h
  obtain ⟨t, -, ht⟩ := Option.bind_eq_some_iff.mp h
  split at ht
  · exact absurd ht nofun
  · next hne => exact hne (Option.some.inj ht)

theorem nullIfEmpty_getD_inj {f g : Option String}
    (h : (nullIfEmpty f).getD "" = (nullIfEmpty g).getD "") : nullIfEmpty f = nullIfEmpty g := by
  have hf := nullIfEmpty_ne f
  have hg := nullIfEmpty_ne g
  cases hnf : nullIfEmpty f with
  | none =>
    cases hng : nullIfEmpty g with
    | none => rfl
    | some t =>
      simp only [hnf, hng, Option.getD_none, Option.getD_some] at h
      exact absurd (h ▸ hng) hg
  | some s =>
    cases hng : nullIfEmpty g with
    | none =>
      simp only [hnf, hng, Option.getD_none, Option.getD_some] at h
      exact absurd (h ▸ hnf) hf
    | some t =>
      simp only [hnf, hng, Option.getD_some] at h
      rw [h]

/-- The two steps come to this: any provider without a secret gets the fallback key. -/
theorem injectedKey_of_none {id : Uuid} (h : decryptedProviderSecret P key c id = none) (f : Option String) :
    injectedKey P key c id f = (nullIfEmpty f).getD "" := by
  unfold injectedKey
  rw [h]
  dsimp only
  split
  · cases nullIfEmpty f <;> rfl
  · rfl

theorem injectedKey_of_empty {id : Uuid} (h : decryptedProviderSecret P key c id = some "")
    (hn : isFallbackName ((c.provider? id).map (·.name)) = true) (f : Option String) :
    injectedKey P key c id f = (nullIfEmpty f).getD "" := by
  have hempty : nullIfEmpty (some "") = none := rfl
  unfold injectedKey
  simp only [h, hn, hempty, and_self, if_true]
  cases nullIfEmpty f <;> rfl

theorem injectedKey_of_some {id : Uuid} {s : String} (h : decryptedProviderSecret P key c id = some s)
    (hs : s = "" → isFallbackName ((c.provider? id).map (·.name)) = false) (f : Option String) :
    injectedKey P key c id f = s := by
  unfold injectedKey
  rw [h]
  by_cases he : s = ""
  · simp [hs he]
  · simp [nullIfEmpty, he]

theorem credentialValue_inj {kind : AuthKind} {k k' : String}
    (h : credentialValue kind k = credentialValue kind k') : k = k' := by
  cases kind with
  | authorization =>
    have hstr : "Bearer " ++ k = "Bearer " ++ k' := Json.str.inj h
    have hlist := congrArg String.toList hstr
    rw [String.toList_append, String.toList_append] at hlist
    exact String.toList_injective (List.append_cancel_left hlist)
  | xApiKey => exact Json.str.inj h

theorem merge_credential_inj {headers : Json} {kind : AuthKind} {k k' : String}
    (h : headers.merge (credential kind k) = headers.merge (credential kind k')) : k = k' := by
  cases headers with
  | obj fs =>
    have hk := Json.get_merge_one fs kind.text (credentialValue kind k)
    have hk' := Json.get_merge_one fs kind.text (credentialValue kind k')
    have hget := congrArg (Json.get · kind.text) h
    exact credentialValue_inj (Option.some.inj (hk.symm.trans (hget.trans hk')))
  | null | bool | num | str | arr =>
    -- joined as arrays, the credential is the last element
    have hlast := List.append_cancel_left (Json.arr.inj h)
    have hobj : [(kind.text, credentialValue kind k)] = [(kind.text, credentialValue kind k')] :=
      Json.obj.inj (List.cons.inj hlast).1
    exact credentialValue_inj (Prod.mk.inj (List.cons.inj hobj).1).2

theorem handOutbound_callId (f : Option String) (q : Call) : (handOutbound P key c f q).callId = q.callId := by
  unfold handOutbound
  split
  · rfl
  · unfold handOut
    split <;> rfl

theorem injectedHeaders_provider {o : Outbound} {kind : AuthKind} {id : Uuid} (ha : o.authKind = some kind)
    (hp : o.providerId = some id) (f : Option String) :
    injectedHeaders P key c o f = o.requestHeaders.merge (credential kind (injectedKey P key c id f)) := by
  unfold injectedHeaders
  simp only [ha, hp]

/-- Where the fallback key is used, two keys show. -/
theorem handOutbound_ne {q : Call} (h : NeedsFallback P key c q) {f g : Option String}
    (hne : nullIfEmpty f ≠ nullIfEmpty g) : handOutbound P key c f q ≠ handOutbound P key c g q := by
  obtain ⟨o, id, ho, ha, hp, hsecret⟩ := h
  obtain ⟨kind, hkind⟩ := Option.ne_none_iff_exists'.mp ha
  have hkey : ∀ f, injectedKey P key c id f = (nullIfEmpty f).getD "" := by
    rcases hsecret with hnone | ⟨hempty, hname⟩
    · exact injectedKey_of_none hnone
    · exact injectedKey_of_empty hempty hname
  intro he
  have hheaders : injectedHeaders P key c o f = injectedHeaders P key c o g := by
    simp only [handOutbound, ho, Handed.outbound.injEq, true_and, and_true] at he
    exact he
  rw [injectedHeaders_provider hkind hp, injectedHeaders_provider hkind hp, hkey, hkey] at hheaders
  exact hne (nullIfEmpty_getD_inj (merge_credential_inj hheaders))

/-- Elsewhere they do not. -/
theorem handOutbound_eq {q : Call} (h : ¬ NeedsFallback P key c q) (f g : Option String) :
    handOutbound P key c f q = handOutbound P key c g q := by
  unfold handOutbound
  split
  · next o ho =>
    have hheaders : injectedHeaders P key c o f = injectedHeaders P key c o g := by
      cases ha : o.authKind with
      | none => simp only [injectedHeaders, ha]
      | some kind =>
        cases hp : o.providerId with
        | none =>
          unfold injectedHeaders
          rw [ha, hp]
          cases o.connectionId <;> rfl
        | some id =>
          rw [injectedHeaders_provider ha hp, injectedHeaders_provider ha hp]
          cases hs : decryptedProviderSecret P key c id with
          | none => exact absurd ⟨o, id, ho, by simp [ha], hp, Or.inl hs⟩ h
          | some v =>
            have hempty : v = "" → isFallbackName ((c.provider? id).map (·.name)) = false := by
              intro hv
              by_contra hname
              exact h ⟨o, id, ho, by simp [ha], hp, Or.inr ⟨hv ▸ hs, by simpa using hname⟩⟩
            rw [injectedKey_of_some hs hempty, injectedKey_of_some hs hempty]
    rw [hheaders]
  · next hno =>
    unfold handOut
    cases hq : q.req with
    | outbound o => exact absurd hq (hno o)
    | sql | function | procedure => rfl

theorem handOutbound_congr {f g : Option String} (h : nullIfEmpty f = nullIfEmpty g) (q : Call) :
    handOutbound P key c f q = handOutbound P key c g q := by
  by_cases hq : NeedsFallback P key c q
  · obtain ⟨o, id, ho, ha, hp, hsecret⟩ := hq
    obtain ⟨kind, hkind⟩ := Option.ne_none_iff_exists'.mp ha
    have hkey : ∀ f, injectedKey P key c id f = (nullIfEmpty f).getD "" := by
      rcases hsecret with hnone | ⟨hempty, hname⟩
      · exact injectedKey_of_none hnone
      · exact injectedKey_of_empty hempty hname
    simp only [handOutbound, ho, injectedHeaders_provider hkind hp, hkey, h]
  · exact handOutbound_eq hq f g

/-- The batches of two fallback keys differ in calls to the two named providers
alone exactly when the keys are one, or no other call that is taken has a provider
without a readable secret. -/
theorem fallback_confined_iff (P : Option Pgcrypto) (key : Option String) (pg : Postgres) (now : Time)
    (limit : Option Int) (locked : List Uuid) (f g : Option String) {db : Db}
    (hids : (db.calls.map (·.callId)).Nodup) :
    List.Forall₂ (SameOrFallback db) (fnClaimOutbound P key pg now limit f locked db).2
        (fnClaimOutbound P key pg now limit g locked db).2 ↔
      nullIfEmpty f = nullIfEmpty g ∨ ∀ q ∈ claimedCalls pg now limit locked db,
        NeedsFallback P key db.cfg q → FallbackCall db.cfg q := by
  have hbatch : ∀ f, (fnClaimOutbound P key pg now limit f locked db).2 =
      (claimedCalls pg now limit locked db).map (handOutbound P key db.cfg f) :=
    fun f => claimOutboundLoop_eq P key pg now f _ db
  rw [hbatch, hbatch, List.forall₂_map_left_iff, List.forall₂_map_right_iff, List.forall₂_same]
  constructor
  · intro h
    by_cases hfg : nullIfEmpty f = nullIfEmpty g
    · exact Or.inl hfg
    · refine Or.inr fun q hq hneeds => ?_
      rcases h q hq with he | ⟨r, hr, hid, -, hcall⟩
      · exact absurd he (handOutbound_ne hneeds hfg)
      · rw [handOutbound_callId] at hid
        obtain rfl := eq_of_key Call.callId hids hr (claimedCalls_mem hq).1 hid
        exact hcall
  · rintro (hfg | h) q hq
    · exact Or.inl (handOutbound_congr hfg q)
    · by_cases hneeds : NeedsFallback P key db.cfg q
      · exact Or.inr ⟨q, (claimedCalls_mem hq).1, (handOutbound_callId f q).symm,
          (handOutbound_callId g q).symm, h q hq hneeds⟩
      · exact Or.inl (handOutbound_eq hneeds f g)

end TwoRuns

section Asked

def Handed.authorization : Handed → Option Json
  | .outbound _ _ _ _ _ _ headers _ _ => headers.get "authorization"
  | .sql _ _ _ _ _ | .routine _ _ _ _ _ _ => none

/-- A call to a provider that is neither of the two and has no secret. -/
def askedDb : Db :=
  run (step bareServer) (start gatedConfig) askedRun

theorem askedDb_names : askedDb.cfg.providers.all (fun p => !isFallbackName (some p.name)) = true := by
  decide +kernel

theorem askedDb_other (id : Uuid) : ¬ FallbackProvider askedDb.cfg id := by
  rintro ⟨hname, -⟩
  cases hp : askedDb.cfg.provider? id with
  | none => simp [hp, isFallbackName] at hname
  | some p =>
    have hall := List.all_eq_true.mp askedDb_names p (List.mem_of_find?_eq_some hp)
    rw [hp, Option.map_some] at hname
    simp [hname] at hall

theorem askedDb_batch : ((fnClaimOutbound none none bareServer 3 none (some "k") [] askedDb).2.map
      Handed.authorization = [some (.str "Bearer k")]) ∧
    (fnClaimOutbound none none bareServer 3 none none [] askedDb).2.map Handed.authorization =
      [some (.str "Bearer ")] := by
  decide +kernel

/-- The key goes out to that provider. -/
theorem askedDb_leaks : ¬ List.Forall₂ (SameOrFallback askedDb)
    (fnClaimOutbound none none bareServer 3 none (some "k") [] askedDb).2
    (fnClaimOutbound none none bareServer 3 none none [] askedDb).2 := by
  intro h
  obtain ⟨hk, hnone⟩ := askedDb_batch
  have hsame : (fnClaimOutbound none none bareServer 3 none (some "k") [] askedDb).2.map Handed.authorization =
      (fnClaimOutbound none none bareServer 3 none none [] askedDb).2.map Handed.authorization := by
    refine List.forall₂_eq_eq_eq ▸ List.forall₂_map_left_iff.mpr (List.forall₂_map_right_iff.mpr (h.imp ?_))
    rintro a b (rfl | ⟨q, -, -, -, o, id, -, -, hp⟩)
    · rfl
    · exact absurd hp (askedDb_other id)
  rw [hk, hnone] at hsame
  exact absurd hsame (by simp)

/-- The same call to a provider that has the fallback. -/
def grokDb : Db :=
  run (step bareServer) (start { gatedConfig with
    policies := [{
      agentId := 1
      systemPrompt := "serve"
      llmConfig := .object [("provider", .str "grok"), ("model", .str "m")] }]
    providers := [{ providerId := 3, name := "grok", baseUrl := "https://llm.example" }] }) askedRun

theorem grokDb_fallback {q : Call} (hq : q ∈ claimedCalls bareServer 3 none [] grokDb) :
    FallbackCall grokDb.cfg q := by
  have hall : (claimedCalls bareServer 3 none [] grokDb).all (usesProvider 3) = true := by decide +kernel
  have huses := List.all_eq_true.mp hall q hq
  unfold usesProvider at huses
  split at huses
  · rename_i o ho
    rw [Bool.and_eq_true, decide_eq_true_eq, decide_eq_true_eq] at huses
    have hprovider : FallbackProvider grokDb.cfg 3 := ⟨by decide +kernel, by decide +kernel⟩
    exact ⟨o, 3, ho, huses.2, hprovider⟩
  · cases huses

theorem grokDb_confined :
    List.Forall₂ (SameOrFallback grokDb)
      (fnClaimOutbound none none bareServer 3 none (some "k") [] grokDb).2
      (fnClaimOutbound none none bareServer 3 none none [] grokDb).2 ∧
    ((fnClaimOutbound none none bareServer 3 none (some "k") [] grokDb).2.map Handed.authorization =
      [some (.str "Bearer k")]) ∧
    (fnClaimOutbound none none bareServer 3 none none [] grokDb).2.map Handed.authorization =
      [some (.str "Bearer ")] := by
  have hids : (grokDb.calls.map (·.callId)).Nodup := by decide +kernel
  exact ⟨(fallback_confined_iff none none bareServer 3 none [] (some "k") none hids).mpr
    (.inr fun q hq _ => grokDb_fallback hq), by decide +kernel, by decide +kernel⟩

end Asked

end Allgres
