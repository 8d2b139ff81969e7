import Allgres.OperatorQueues
import Allgres.Origin

/-! The secrets of the three queues without a task. The URL of a row is as old as the row
and the secret is new, and nothing compares them: a request goes where its provider points
only if no provider is moved or disabled while a row of it waits. -/

namespace Allgres

open Raise Rows Runs

def queuedRows (c : Config) : List OperatorRow :=
  (c.embeddingCalls.filter (·.status = .queued)).map EmbeddingCall.row ++
    (c.providerProbes.filter (·.status = .queued)).map ProviderProbe.row ++
    (c.oauthCalls.filter (·.status = .queued)).map OauthCall.row

/-- A URL has the host which an enabled provider has now for an endpoint. -/
def Current (c : Config) (providerId : Uuid) (endpoint : Endpoint) (url : String) : Prop :=
  ∃ p u, c.provider? providerId = some p ∧ p.isEnabled = true ∧ endpoint.url p = some u ∧
    urlHost (some url) = urlHost (some u)

/-- The provider of a row is enabled after a change, with the host it had for the row. -/
def keepsEndpoint (c c' : Config) (r : OperatorRow) : Bool :=
  (c'.provider? r.providerId).any fun p' => p'.isEnabled && (r.endpoint.url p').isSome &&
    (c.provider? r.providerId).all fun p => urlHost (r.endpoint.url p') = urlHost (r.endpoint.url p)

/-- No provider of a waiting row is moved to another host or disabled, and nothing is queued
for a provider that is disabled. -/
def steady (c : Config) (e : OperatorEvent) : Bool :=
  match e.op with
  | .setProvider _ _ => (queuedRows c).all (keepsEndpoint c (operatorStep c e))
  | .setDeviceUrl _ _ => (queuedRows c).all (keepsEndpoint c (operatorStep c e))
  | .probeStart id => (c.provider? id).all (·.isEnabled)
  | .deviceStart id => (c.provider? id).all (·.isEnabled)
  | .tokenRequest state _ _ => ((c.oauthStates.find? (·.state = state)).bind fun st =>
      c.provider? st.providerId).all (·.isEnabled)
  | .claimOauth _ _ => (duePolls e.now c).all (·.2.isEnabled)
  | _ => true

/-- The providers have keys and checked base URLs, and every waiting row is current. -/
structure OperatorSound (c : Config) : Prop where
  keys : (c.providers.map (·.providerId)).Nodup
  checked : ∀ p ∈ c.providers, Accepted p.baseUrl
  rows : ∀ r ∈ queuedRows c, Current c r.providerId r.endpoint r.url

section Hosts

theorem urlHost_of_authority {a b : String} (hs : urlAuthority a = urlAuthority b)
    (ha : a.toList.any isSpaceOrControl = false) (hb : b.toList.any isSpaceOrControl = false) :
    urlHost (some a) = urlHost (some b) := by
  simp only [urlHost, Option.bind_eq_bind, Option.bind_some, ha, hb, hs]

theorem plain_of_accepted {url : String} (h : Accepted url) :
    url.toList.any isSpaceOrControl = false := by
  obtain ⟨allow, h⟩ := h
  unfold checkOutboundUrl at h
  dsimp only at h
  split_ifs at h with h1 h2
  simpa using h2

theorem startsWith_rtrim (base tail : String) :
    startsWith (rtrim base '/' ++ ("/" ++ tail)) (rtrim base '/' ++ "/") = true := by
  simp [startsWith]

/-- Slashes at the end of a base are no obstacle. -/
theorem startsWith_base (base tail : String) :
    startsWith (base ++ ("/" ++ tail)) (rtrim base '/' ++ "/") = true := by
  have hsplit : base.toList = base.toList.rdropWhile (· == '/') ++ base.toList.rtakeWhile (· == '/') :=
    (List.rdropWhile_append_rtakeWhile).symm
  have hrtrim : (rtrim base '/').toList = base.toList.rdropWhile (· == '/') := by
    rw [rtrim, String.toList_ofList]
    rfl
  rw [startsWith, List.isPrefixOf_iff_prefix, String.toList_append, String.toList_append,
    String.toList_append, hrtrim]
  conv_rhs => rw [hsplit]
  rw [List.append_assoc, List.prefix_append_right_inj]
  cases hr : base.toList.rtakeWhile (· == '/') with
  | nil => simp
  | cons x xs =>
    have hx : x ∈ base.toList.rtakeWhile (· == '/') := by rw [hr]; simp
    have hslash : x = '/' := by simpa using List.mem_rtakeWhile_imp hx
    simp [hslash]

theorem urlHost_behind {base url : String} (hb : Accepted base) (hu : Accepted url)
    (h : startsWith url (rtrim base '/' ++ "/") = true) :
    urlHost (some url) = urlHost (some base) :=
  urlHost_of_authority (sameOrigin_of_startsWith hb h).2.1 (plain_of_accepted hu) (plain_of_accepted hb)

end Hosts

section Rows

variable {c c' : Config} {r : OperatorRow}

theorem mem_queuedRows : r ∈ queuedRows c ↔
    (∃ x ∈ c.embeddingCalls, x.status = .queued ∧ x.row = r) ∨
    (∃ x ∈ c.providerProbes, x.status = .queued ∧ x.row = r) ∨
    ∃ x ∈ c.oauthCalls, x.status = .queued ∧ x.row = r := by
  simp [queuedRows, and_assoc]

theorem current_of_providers (h : c'.providers = c.providers) {id : Uuid} {endpoint : Endpoint}
    {url : String} (hc : Current c id endpoint url) : Current c' id endpoint url := by
  simpa only [Current, Config.provider?, h] using hc

/-- The providers are left alone, and a row that waits was waiting or is current. -/
theorem OperatorSound.same (h : OperatorSound c) (hp : c'.providers = c.providers)
    (hr : ∀ r ∈ queuedRows c', r ∈ queuedRows c ∨ Current c r.providerId r.endpoint r.url) :
    OperatorSound c' := by
  refine ⟨hp ▸ h.keys, hp ▸ h.checked, fun r hmem => current_of_providers hp ?_⟩
  rcases hr r hmem with hold | hnew
  · exact h.rows r hold
  · exact hnew

theorem provider?_of_mem (h : OperatorSound c) {p : Provider} (hp : p ∈ c.providers) :
    c.provider? p.providerId = some p :=
  find_key Provider.providerId h.keys hp

theorem mem_of_provider? {id : Uuid} {p : Provider} (h : c.provider? id = some p) :
    p ∈ c.providers ∧ p.providerId = id :=
  ⟨List.mem_of_find?_eq_some h, by simpa using List.find?_some h⟩

/-- A row that takes the URL of its endpoint is current. -/
theorem current_of_url {id : Uuid} {p : Provider} {endpoint : Endpoint} {url : String}
    (hp : c.provider? id = some p) (he : p.isEnabled = true) (hu : endpoint.url p = some url) :
    Current c id endpoint url :=
  ⟨p, url, hp, he, hu, rfl⟩

/-- A row whose URL lies behind the base URL is current. -/
theorem current_of_base (h : OperatorSound c) {id : Uuid} {p : Provider} {url : String}
    (hp : c.provider? id = some p) (he : p.isEnabled = true) (hu : Accepted url)
    (hs : startsWith url (rtrim p.baseUrl '/' ++ "/") = true) : Current c id .base url :=
  ⟨p, p.baseUrl, hp, he, rfl, urlHost_behind (h.checked p (mem_of_provider? hp).1) hu hs⟩

end Rows

section Steps

variable {c c' : Config}

theorem refuseUrl_returns (word : String) (url : Option String) (allow : Bool) (tail : String) :
    Returns (fun _ => checkOutboundUrl url allow = none) (refuseUrl word url allow tail) := by
  unfold refuseUrl
  split
  · exact returns_error _
  · exact returns_ok ‹_›

theorem queueEmbedding_sound (h : OperatorSound c) (target : EmbeddingTarget)
    (input : Option String) (now : Time) : OperatorSound (queueEmbedding c target input now) := by
  unfold queueEmbedding
  split
  · rename_i p input hp
    split
    · exact h
    · rename_i hcheck
      have hmem : p ∈ c.providers ∧ p.isEnabled = true := by
        have := mem_sortBy.mp (List.mem_of_head? hp)
        simp only [List.mem_filter, decide_eq_true_eq] at this
        exact ⟨this.1, this.2.2⟩
      refine h.same rfl fun r hr => ?_
      rcases mem_queuedRows.mp hr with ⟨x, hx, hxs, rfl⟩ | hr | hr
      · rcases List.mem_append.mp hx with hx | hx
        · exact .inl (mem_queuedRows.mpr (.inl ⟨x, (List.mem_filter.mp hx).1, hxs, rfl⟩))
        · rw [List.mem_singleton.mp hx]
          refine .inr (current_of_base h (provider?_of_mem h hmem.1) hmem.2 ?_ ?_)
          · have hcheck' : checkOutboundUrl (some (embeddingsUrl p)) p.allowPrivateNetwork = none := by
              simpa using hcheck
            exact ⟨_, hcheck'⟩
          · exact startsWith_base p.baseUrl "embeddings"
      · exact .inl (mem_queuedRows.mpr (.inr (.inl hr)))
      · exact .inl (mem_queuedRows.mpr (.inr (.inr hr)))
  · exact h

theorem fnProviderProbeStart_sound (h : OperatorSound c) {id : Uuid} {now : Time}
    (he : (c.provider? id).all (·.isEnabled) = true) :
    Returns OperatorSound (fnProviderProbeStart now c id) := by
  unfold fnProviderProbeStart
  split
  · exact returns_error _
  · rename_i p hp
    rw [hp] at he
    refine returns_bind (refuseUrl_returns _ _ _ _) fun _ hcheck => returns_pure ?_
    refine h.same rfl fun r hr => ?_
    rcases mem_queuedRows.mp hr with hr | ⟨x, hx, hxs, rfl⟩ | hr
    · exact .inl (mem_queuedRows.mpr (.inl hr))
    · rcases List.mem_append.mp hx with hx | hx
      · obtain ⟨y, hy, rfl⟩ := mem_update.mp hx
        split at hxs
        · cases hxs
        · rename_i hn
          rw [if_neg hn]
          exact .inl (mem_queuedRows.mpr (.inr (.inl ⟨y, hy, hxs, rfl⟩)))
      · rw [List.mem_singleton.mp hx]
        refine .inr (current_of_base h hp he ⟨_, hcheck⟩ ?_)
        unfold probeUrl
        split
        · exact startsWith_rtrim p.baseUrl "v1/models"
        · exact startsWith_rtrim p.baseUrl "models"
    · exact .inl (mem_queuedRows.mpr (.inr (.inr hr)))

/-- The rows of `oauth_calls` that wait were waiting, or are current. -/
theorem OperatorSound.oauth (h : OperatorSound c) (hp : c'.providers = c.providers)
    (hes : c'.embeddingCalls = c.embeddingCalls) (hps : c'.providerProbes = c.providerProbes)
    (hos : ∀ x ∈ c'.oauthCalls, x.status = .queued →
      (∃ y ∈ c.oauthCalls, y.status = .queued ∧ y.row = x.row) ∨
        Current c x.providerId x.operation.endpoint x.url) : OperatorSound c' := by
  refine h.same hp fun r hr => ?_
  rcases mem_queuedRows.mp hr with hr | hr | ⟨x, hx, hxs, rfl⟩
  · exact .inl (mem_queuedRows.mpr (.inl (hes ▸ hr)))
  · exact .inl (mem_queuedRows.mpr (.inr (.inl (hps ▸ hr))))
  · rcases hos x hx hxs with hold | hnew
    · exact .inl (mem_queuedRows.mpr (.inr (.inr hold)))
    · exact .inr hnew

theorem insertOauthCall_sound (h : OperatorSound c) {row : OauthCall}
    (hr : Current c row.providerId row.operation.endpoint row.url) :
    OperatorSound (insertOauthCall c row) := by
  refine h.oauth rfl rfl rfl fun x hx hxs => ?_
  rcases List.mem_append.mp hx with hx | hx
  · exact .inl ⟨x, hx, hxs, rfl⟩
  · rw [List.mem_singleton.mp hx]
    exact .inr hr

theorem fnOauthDeviceStart_sound (h : OperatorSound c) {id : Uuid} {now : Time}
    (he : (c.provider? id).all (·.isEnabled) = true) :
    Returns OperatorSound (fnOauthDeviceStart now c id) := by
  unfold fnOauthDeviceStart
  split
  · exact returns_error _
  · rename_i p hp
    rw [hp] at he
    refine returns_seq fun _ => ?_
    split
    · rename_i url token client hurl _ _
      refine returns_seq fun _ => returns_pure (insertOauthCall_sound ?_ ?_)
      · refine h.oauth rfl rfl rfl fun x hx hxs => ?_
        obtain ⟨y, hy, rfl⟩ := mem_update.mp hx
        split at hxs
        · cases hxs
        · rename_i hn
          rw [if_neg hn]
          exact .inl ⟨y, hy, hxs, rfl⟩
      · exact current_of_url (p := p) hp he hurl
    · exact returns_error _

theorem fnOauthTokenRequest_sound (h : OperatorSound c) {state : String}
    {code redirect : Option String} {now : Time}
    (he : ((c.oauthStates.find? (·.state = state)).bind fun st =>
      c.provider? st.providerId).all (·.isEnabled) = true) :
    Returns OperatorSound (fnOauthTokenRequest now c state code redirect) := by
  unfold fnOauthTokenRequest
  split
  · exact returns_error _
  · rename_i st hst
    split
    · exact returns_error _
    · rename_i p hp
      rw [hst, Option.bind_some, hp] at he
      split
      · rename_i url client hurl _
        refine returns_seq fun _ => returns_pure (insertOauthCall_sound ?_ ?_)
        · exact h.oauth rfl rfl rfl fun x hx hxs => .inl ⟨x, hx, hxs, rfl⟩
        · exact current_of_url (p := p) hp he hurl
      · exact returns_error _

theorem insertTokenCalls_sound {calls : List (Provider × (Uuid → String → OauthCall))}
    (h : OperatorSound c)
    (hc : ∀ x ∈ calls, x.1 ∈ c.providers ∧ x.1.isEnabled = true ∧ ∀ id url,
      (x.2 id url).providerId = x.1.providerId ∧ (x.2 id url).operation.endpoint = .token ∧
        (x.2 id url).url = url) :
    Returns (fun c' => OperatorSound c' ∧ c'.providers = c.providers) (insertTokenCalls calls c) := by
  induction calls generalizing c with
  | nil => exact returns_ok ⟨h, rfl⟩
  | cons x calls ih =>
    obtain ⟨p, row⟩ := x
    obtain ⟨hp, he, hrow⟩ := hc (p, row) (by simp)
    rw [insertTokenCalls]
    split
    · exact returns_error _
    · rename_i url hurl
      obtain ⟨hid, hend, hru⟩ := hrow c.nextId url
      refine ih (insertOauthCall_sound h ?_) fun y hy => hc y (by simp [hy])
      rw [hid, hend, hru]
      exact current_of_url (provider?_of_mem h hp) he hurl

theorem queueOauthMaintenance_sound (h : OperatorSound c) {now : Time}
    (he : (duePolls now c).all (·.2.isEnabled) = true) :
    Returns (fun c' => OperatorSound c' ∧ c'.providers = c.providers)
      (queueOauthMaintenance now c) := by
  unfold queueOauthMaintenance
  dsimp only
  have hsessions : ∀ (d : Config) ss, OperatorSound d →
      OperatorSound { d with oauthDeviceSessions := ss } := fun d ss hd =>
    hd.oauth rfl rfl rfl fun x hx hxs => .inl ⟨x, hx, hxs, rfl⟩
  refine returns_bind (insertTokenCalls_sound (hsessions c _ h) fun x hx => ?_) fun c₁ hc₁ => ?_
  · obtain ⟨⟨d, p⟩, hdp, rfl⟩ := List.mem_map.mp hx
    obtain ⟨d₀, hd₀, hmap⟩ := List.mem_filterMap.mp hdp
    split_ifs at hmap with hdue
    obtain ⟨p', hp', hpair⟩ := Option.map_eq_some_iff.mp hmap
    obtain ⟨rfl, rfl⟩ := Prod.mk.inj hpair
    have hmem := mem_of_provider? hp'
    refine ⟨hmem.1, ?_, fun _ _ => ⟨rfl, rfl, rfl⟩⟩
    obtain ⟨d₁, hd₁, hd₁₀⟩ := mem_update.mp hd₀
    rw [Bool.and_eq_true] at hdue
    split_ifs at hd₁₀ with hexp
    · have := hdue.1
      rw [← hd₁₀] at this
      simp [pollDue] at this
    · subst hd₁₀
      refine List.all_eq_true.mp he (d₁, p') (List.mem_filterMap.mpr ⟨d₁, hd₁, ?_⟩)
      have hpoll : polling c d₁.sessionId = false := by simpa [polling] using hdue.2
      have hp : c.provider? d₁.providerId = some p' := hp'
      simp [hdue.1, hpoll, hp]
  · refine returns_mono (insertTokenCalls_sound (hsessions c₁ _ hc₁.1) fun x hx => ?_) fun c₂ hc₂ =>
      ⟨hc₂.1, hc₂.2.trans hc₁.2⟩
    obtain ⟨p, hp, rfl⟩ := List.mem_map.mp hx
    have hp' := List.mem_filter.mp hp
    simp only [decide_eq_true_eq] at hp'
    exact ⟨hp'.1, hp'.2.2.1, fun _ _ => ⟨rfl, rfl, rfl⟩⟩

/-- A row that a claim has not taken was waiting before it. -/
theorem waiting_of_taken {α : Type} (status : α → CallStatus) {rows : List α} {p : α → Bool}
    {f : α → α} {x : α} (hf : ∀ a, status (f a) = .inFlight)
    (hx : x ∈ update p f rows) (hs : status x = .queued) : x ∈ rows := by
  obtain ⟨y, hy, rfl⟩ := mem_update.mp hx
  split at hs
  · rw [hf] at hs
    cases hs
  · rename_i hn
    rwa [if_neg hn]

theorem fnClaimAgentEmbedding_sound (h : OperatorSound c) (now : Time) (limit : Option Int)
    (locked : List Uuid) : OperatorSound (fnClaimAgentEmbedding now limit locked c).1 := by
  refine h.same rfl fun r hr => .inl ?_
  rcases mem_queuedRows.mp hr with ⟨x, hx, hxs, rfl⟩ | hr | hr
  · refine mem_queuedRows.mpr (.inl ⟨x, waiting_of_taken (·.status) ?_ hx hxs, hxs, rfl⟩)
    exact fun _ => rfl
  · exact mem_queuedRows.mpr (.inr (.inl hr))
  · exact mem_queuedRows.mpr (.inr (.inr hr))

theorem fnClaimProviderProbe_sound (h : OperatorSound c) (now : Time) (limit : Option Int)
    (locked : List Uuid) : OperatorSound (fnClaimProviderProbe now limit locked c).1 := by
  refine h.same rfl fun r hr => .inl ?_
  rcases mem_queuedRows.mp hr with hr | ⟨x, hx, hxs, rfl⟩ | hr
  · exact mem_queuedRows.mpr (.inl hr)
  · refine mem_queuedRows.mpr (.inr (.inl ⟨x, waiting_of_taken (·.status) ?_ hx hxs, hxs, rfl⟩))
    exact fun _ => rfl
  · exact mem_queuedRows.mpr (.inr (.inr hr))

theorem fnClaimOauth_sound (h : OperatorSound c) {now : Time} {limit : Option Int}
    {locked : List Uuid} (he : (duePolls now c).all (·.2.isEnabled) = true) :
    Returns (fun r => OperatorSound r.1) (fnClaimOauth now limit locked c) := by
  unfold fnClaimOauth
  refine returns_bind (queueOauthMaintenance_sound h he) fun c₁ hc₁ => returns_pure ?_
  refine hc₁.1.oauth rfl rfl rfl fun x hx hxs => .inl ⟨x, waiting_of_taken (·.status) ?_ hx hxs, hxs, rfl⟩
  exact fun _ => rfl

theorem Settlement.status_queued {st : Settlement} {id : Uuid} {s : CallStatus}
    (h : st.status id s = .queued) : s = .queued := by
  unfold Settlement.status at h
  split_ifs at h
  exact h

theorem settle_sound (h : OperatorSound c) (st : Settlement) : OperatorSound (st.apply c) := by
  refine h.same rfl fun r hr => .inl ?_
  rcases mem_queuedRows.mp hr with ⟨x, hx, hxs, rfl⟩ | ⟨x, hx, hxs, rfl⟩ | ⟨x, hx, hxs, rfl⟩
  · obtain ⟨y, hy, rfl⟩ := List.mem_map.mp hx
    exact mem_queuedRows.mpr (.inl ⟨y, hy, st.status_queued hxs, rfl⟩)
  · obtain ⟨y, hy, rfl⟩ := List.mem_map.mp hx
    exact mem_queuedRows.mpr (.inr (.inl ⟨y, hy, st.status_queued hxs, rfl⟩))
  · obtain ⟨y, hy, rfl⟩ := List.mem_map.mp hx
    exact mem_queuedRows.mpr (.inr (.inr ⟨y, hy, st.status_queued hxs, rfl⟩))

/-- Providers change, the queues do not, and every waiting row keeps its endpoint. -/
theorem OperatorSound.edited (h : OperatorSound c)
    (hk : c'.providers.map (·.providerId) = c.providers.map (·.providerId))
    (hb : ∀ p ∈ c'.providers, Accepted p.baseUrl) (hq : queuedRows c' = queuedRows c)
    (he : (queuedRows c).all (keepsEndpoint c c') = true) : OperatorSound c' := by
  refine ⟨hk ▸ h.keys, hb, fun r hr => ?_⟩
  rw [hq] at hr
  obtain ⟨p, u, hp, -, hu, hhost⟩ := h.rows r hr
  have hkeep := List.all_eq_true.mp he r hr
  unfold keepsEndpoint at hkeep
  rw [hp, Option.any_eq_true] at hkeep
  obtain ⟨p', hp', hkeep⟩ := hkeep
  simp only [Bool.and_eq_true, Option.all_some, decide_eq_true_eq] at hkeep
  obtain ⟨⟨hon, hsome⟩, hsame⟩ := hkeep
  obtain ⟨u', hu'⟩ := Option.isSome_iff_exists.mp hsome
  rw [hu', hu, ← hhost] at hsame
  exact ⟨p', u', hp', hon, hu', hsame.symm⟩

theorem upsertSecret_frame (id : Uuid) (change : ProviderSecret → ProviderSecret) :
    (upsertSecret c id change).providers = c.providers ∧
      queuedRows (upsertSecret c id change) = queuedRows c := by
  unfold upsertSecret
  split <;> exact ⟨rfl, rfl⟩

theorem fnSetProviderSecret_sound (h : OperatorSound c) {id : Uuid} {apiKey : Option String} :
    Returns OperatorSound (fnSetProviderSecret c id apiKey) := by
  unfold fnSetProviderSecret
  refine returns_seq fun _ => returns_pure ?_
  have hframe := upsertSecret_frame (c := c) id
    fun s => { s with apiKey := (nullIfEmpty apiKey).or s.apiKey }
  exact h.same hframe.1 fun r hr => .inl (hframe.2 ▸ hr)

/-- What `fn_set_provider` leaves alone. -/
structure ProviderEdit (c c' : Config) : Prop where
  keys : c'.providers.map (·.providerId) = c.providers.map (·.providerId)
  checked : ∀ p ∈ c'.providers, Accepted p.baseUrl
  queues : queuedRows c' = queuedRows c

theorem ProviderEdit.withSecret (h : ProviderEdit c c') (id : Uuid)
    (change : ProviderSecret → ProviderSecret) : ProviderEdit c (upsertSecret c' id change) := by
  have hframe := upsertSecret_frame (c := c') id change
  exact ⟨hframe.1 ▸ h.keys, hframe.1 ▸ h.checked, hframe.2.trans h.queues⟩

/-- One provider is replaced by a row with its key and an accepted base URL. -/
theorem providerEdit_of_row (h : OperatorSound c) {id : Uuid} {row : Provider}
    (hid : row.providerId = id) (hb : Accepted row.baseUrl) :
    ProviderEdit c
      { c with providers := update (·.providerId = id) (fun _ => row) c.providers } := by
  refine ⟨?_, fun p hp => ?_, rfl⟩
  · simp only [update, List.map_map]
    refine List.map_congr_left fun p _ => ?_
    by_cases hp : p.providerId = id <;> simp [hp, hid]
  · obtain ⟨q, hq, rfl⟩ := mem_update.mp hp
    split
    · exact hb
    · exact h.checked q hq

theorem fnSetProvider_edits (h : OperatorSound c) {id : Uuid} {ch : ProviderChange} :
    Returns (ProviderEdit c) (fnSetProvider c id ch) := by
  unfold fnSetProvider
  split
  · exact returns_error _
  · rename_i p hp
    have hid := (mem_of_provider? hp).2
    dsimp only
    generalize rtrim ((nullIfEmpty ch.baseUrl).getD p.baseUrl) '/' = url
    refine returns_bind (refuseUrl_returns _ _ _ _) fun _ hcheck => ?_
    refine returns_guard fun _ => returns_guard fun _ => ?_
    split
    · refine returns_pure (ProviderEdit.withSecret ?_ _ _)
      exact providerEdit_of_row h hid ⟨_, hcheck⟩
    · exact returns_pure (providerEdit_of_row h hid ⟨_, hcheck⟩)

theorem operatorStep_eq {e : OperatorEvent} {Q : Config → Prop}
    (h : Returns (fun r => Q r.1) (performOperator c e)) (hc : Q c) : Q (operatorStep c e) := by
  unfold operatorStep
  split
  · rename_i r hr
    exact h r hr
  · exact hc

theorem returns_quiet {Q : Config → Prop} {x : Except String Config} (h : Returns Q x) :
    Returns (fun r => Q r.1) (x.map fun c' => (c', ([] : List OperatorRequest))) := by
  intro r hr
  cases x with
  | error m => cases hr
  | ok c' =>
    cases hr
    exact h c' rfl

theorem operatorStep_sound {e : OperatorEvent} (h : OperatorSound c) (hs : steady c e = true) :
    OperatorSound (operatorStep c e) := by
  obtain ⟨now, op⟩ := e
  cases op with
  | setProvider id change =>
    have hedit : operatorStep c ⟨now, .setProvider id change⟩ = c ∨
        ProviderEdit c (operatorStep c ⟨now, .setProvider id change⟩) :=
      operatorStep_eq (Q := fun c' => c' = c ∨ ProviderEdit c c')
        (returns_mono (returns_quiet (fnSetProvider_edits h)) fun _ => .inr) (.inl rfl)
    rcases hedit with hsame | hedit
    · rwa [hsame]
    · exact h.edited hedit.keys hedit.checked hedit.queues hs
  | setDeviceUrl id url =>
    refine h.edited ?_ (fun p hp => ?_) rfl hs
    · refine map_update ?_ _
      exact fun _ => rfl
    · obtain ⟨q, hq, rfl⟩ := mem_update.mp hp
      split <;> exact h.checked q hq
  | setProviderSecret id apiKey => exact operatorStep_eq (returns_quiet (fnSetProviderSecret_sound h)) h
  | queueEmbedding target input => exact queueEmbedding_sound h target input now
  | probeStart id => exact operatorStep_eq (returns_quiet (fnProviderProbeStart_sound h hs)) h
  | deviceStart id => exact operatorStep_eq (returns_quiet (fnOauthDeviceStart_sound h hs)) h
  | tokenRequest state code redirect =>
    exact operatorStep_eq (returns_quiet (fnOauthTokenRequest_sound h hs)) h
  | claimEmbedding limit locked => exact fnClaimAgentEmbedding_sound h now limit locked
  | claimProbe limit locked => exact fnClaimProviderProbe_sound h now limit locked
  | claimOauth limit locked => exact operatorStep_eq (fnClaimOauth_sound h hs) h
  | settle st => exact settle_sound h st

end Steps

section Requests

variable {c : Config} {q : OperatorRequest}

/-- A request carries the URL of a row that waits in a sound state with the same providers. -/
def FromQueue (c : Config) (q : OperatorRequest) : Prop :=
  ∃ c', OperatorSound c' ∧ c'.providers = c.providers ∧ q.row ∈ queuedRows c' ∧ q.url = q.row.url

theorem FromQueue.current (h : FromQueue c q) :
    Current c q.row.providerId q.row.endpoint q.url := by
  obtain ⟨c', hc', hp, hrow, hurl⟩ := h
  rw [hurl]
  exact current_of_providers hp.symm (hc'.rows q.row hrow)

theorem quiet_of_map {x : Except String Config} {r : Config × List OperatorRequest}
    (h : x.map (fun c' => (c', [])) = .ok r) : r.2 = [] := by
  cases x with
  | error m => cases h
  | ok c' =>
    cases h
    rfl

/-- A row that a claim picks passes its filter. -/
theorem pass_of_picked {α : Type} {key : α → Time} {p : α → Bool} {rows : List α} {n : Nat} {x : α}
    (h : x ∈ (sortBy key (rows.filter p)).take n) : x ∈ rows ∧ p x = true :=
  List.mem_filter.mp (mem_sortBy.mp (List.mem_of_mem_take h))

theorem sentRequests_fromQueue {e : OperatorEvent} (h : OperatorSound c) (hs : steady c e = true)
    (hq : q ∈ sentRequests c e) : FromQueue c q := by
  obtain ⟨now, op⟩ := e
  unfold sentRequests at hq
  split at hq
  · rename_i r hr
    cases op with
    | claimEmbedding limit locked =>
      cases hr
      obtain ⟨x, hx, rfl⟩ := List.mem_map.mp hq
      have hpick := pass_of_picked hx
      simp only [decide_eq_true_eq] at hpick
      exact ⟨c, h, rfl, mem_queuedRows.mpr (.inl ⟨x, hpick.1, hpick.2.1, rfl⟩), rfl⟩
    | claimProbe limit locked =>
      cases hr
      obtain ⟨x, hx, rfl⟩ := List.mem_map.mp hq
      have hpick := pass_of_picked hx
      simp only [decide_eq_true_eq] at hpick
      exact ⟨c, h, rfl, mem_queuedRows.mpr (.inr (.inl ⟨x, hpick.1, hpick.2.1, rfl⟩)), rfl⟩
    | claimOauth limit locked =>
      have hclaim : Returns (fun r : Config × List OperatorRequest => ∀ q ∈ r.2, FromQueue c q)
          (fnClaimOauth now limit locked c) := by
        unfold fnClaimOauth
        refine returns_bind (queueOauthMaintenance_sound h hs) fun c₁ hc₁ => returns_pure ?_
        intro q hq
        obtain ⟨x, hx, rfl⟩ := List.mem_map.mp hq
        have hpick := pass_of_picked hx
        simp only [decide_eq_true_eq] at hpick
        exact ⟨c₁, hc₁.1, hc₁.2, mem_queuedRows.mpr (.inr (.inr ⟨x, hpick.1, hpick.2.1, rfl⟩)), rfl⟩
      exact hclaim r hr q hq
    | setDeviceUrl id url =>
      cases hr
      cases hq
    | queueEmbedding target input =>
      cases hr
      cases hq
    | settle st =>
      cases hr
      cases hq
    | _ =>
      rw [quiet_of_map hr] at hq
      cases hq
  · cases hq

end Requests

/-- In every run in which no provider of a waiting row is moved or disabled, a request of the
three queues that carries a secret goes to the host its provider has now. -/
theorem operator_secret_confined (c : Config) (es : List OperatorEvent) (e : OperatorEvent)
    (hc : OperatorSound c) (hs : Along operatorStep (fun c e => steady c e = true) c (es ++ [e])) :
    ∀ q ∈ sentRequests (run operatorStep c es) e, q.injected = true →
      Current (run operatorStep c es) q.row.providerId q.row.endpoint q.url := by
  intro q hq _
  obtain ⟨hes, he⟩ := along_append.mp hs
  have hsound : OperatorSound (run operatorStep c es) :=
    invariant (fun c e h he => operatorStep_sound h he) hc hes
  exact (sentRequests_fromQueue hsound he.1 hq).current

/-- A provider with a key, and no row in its queues. -/
def probedProvider : Config where
  providers := [{
    providerId := 1
    name := "p"
    kind := .openaiCompat
    baseUrl := "https://a.example" }]
  providerSecrets := [{
    providerId := 1
    apiKey := some "k" }]

theorem probedProvider_sound : OperatorSound probedProvider := by
  refine ⟨by decide, fun p hp => ?_, fun r hr => ?_⟩
  · rw [List.mem_singleton.mp hp]
    exact ⟨false, by decide +kernel⟩
  · cases hr

/-- The provider gets another path and another key while its probe waits. -/
def editedProvider : List OperatorEvent :=
  [⟨1, .probeStart 1⟩, ⟨2, .setProvider 1 { baseUrl := some "https://a.example/v2" }⟩,
    ⟨3, .setProviderSecret 1 (some "l")⟩]

theorem probe_stays_with_provider :
    (sentRequests (run operatorStep probedProvider editedProvider) ⟨4, .claimProbe none []⟩).map
      (fun q => (q.url, q.injected)) = [("https://a.example/models", true)] ∧
    ∀ q ∈ sentRequests (run operatorStep probedProvider editedProvider) ⟨4, .claimProbe none []⟩,
      q.injected = true →
        Current (run operatorStep probedProvider editedProvider) q.row.providerId q.row.endpoint q.url :=
  ⟨by decide +kernel, operator_secret_confined probedProvider editedProvider ⟨4, .claimProbe none []⟩
    probedProvider_sound (by decide +kernel)⟩

/-- The provider moves to another host while its probe waits. -/
def movedProvider : List OperatorEvent :=
  [⟨1, .probeStart 1⟩, ⟨2, .setProvider 1 { baseUrl := some "https://b.example" }⟩,
    ⟨3, .setProviderSecret 1 (some "l")⟩]

/-- The new key of a provider goes to the host of the old one. -/
theorem moved_probe_escapes :
    ¬ ∀ (c : Config) (es : List OperatorEvent) (e : OperatorEvent), OperatorSound c →
      ∀ q ∈ sentRequests (run operatorStep c es) e, q.injected = true →
        Current (run operatorStep c es) q.row.providerId q.row.endpoint q.url := by
  intro h
  have hclaims := h probedProvider movedProvider ⟨4, .claimProbe none []⟩ probedProvider_sound
  have hrun : ∃ q ∈ sentRequests (run operatorStep probedProvider movedProvider)
      ⟨4, .claimProbe none []⟩, q.injected = true ∧
        urlHost (some q.url) = some "a.example" ∧ q.row.endpoint = .base ∧
        ((run operatorStep probedProvider movedProvider).provider? q.row.providerId).all
          fun p => urlHost (some p.baseUrl) = some "b.example" := by
    decide +kernel
  obtain ⟨q, hq, hinj, hhost, hend, hbase⟩ := hrun
  obtain ⟨p, u, hp, -, hu, hsame⟩ := hclaims q hq hinj
  rw [hend] at hu
  cases hu
  rw [hp] at hbase
  have hb : urlHost (some p.baseUrl) = some "b.example" := by simpa using hbase
  rw [hhost, hb] at hsame
  exact absurd hsame (by decide)

end Allgres
