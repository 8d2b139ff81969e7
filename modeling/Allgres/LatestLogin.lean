import Allgres.Logins

/-! Tokens go back to the latest login unless a device session expires under a poll, or a login
is answered under a claimed refresh or without a refresh token of its own. Every unfinished call
of a device session is the one its session waits for; every claimed refresh carries a token of
the latest login. -/

namespace Allgres

open Raise Rows Runs

section Secrets

variable {c : Config} {id : Uuid} {f : ProviderSecret → ProviderSecret}

def secretRow (c : Config) (p : Uuid) : ProviderSecret :=
  (c.providerSecrets.find? (·.providerId = p)).getD { providerId := p }

def storedRefresh (c : Config) (p : Uuid) : Option String :=
  (secretRow c p).refreshToken

def storedTokens (c : Config) (p : Uuid) : Option String × Option String :=
  ((secretRow c p).accessToken, (secretRow c p).refreshToken)

theorem secretRow_upsert (hf : ∀ s, (f s).providerId = s.providerId) (p : Uuid) :
    secretRow (upsertSecret c id f) p = if p = id then f (secretRow c id) else secretRow c p := by
  unfold secretRow upsertSecret
  by_cases hany : c.providerSecrets.any (·.providerId = id) = true
  · have hfind := find_update (·.providerId) hf id p c.providerSecrets
    rw [if_pos hany]
    dsimp only
    rw [hfind]
    by_cases hp : p = id
    · subst hp
      have hsome : (c.providerSecrets.find? (·.providerId = p)).isSome := by
        simpa [List.find?_isSome] using hany
      obtain ⟨s, hs⟩ := Option.isSome_iff_exists.mp hsome
      simp [hs]
    · simp [hp]
  · have hnone : c.providerSecrets.find? (·.providerId = id) = none := by
      simpa [List.find?_eq_none] using hany
    rw [if_neg hany]
    dsimp only
    rw [List.find?_append]
    by_cases hp : p = id
    · subst hp
      simp [hnone, hf]
    · have hne : ¬ id = p := fun h => hp h.symm
      simp [hp, hf, hne]

end Secrets

/-- The status of the device session that a call is for. -/
def Awaits : OauthOperation → DeviceStatus → Prop
  | .deviceAuthorization, .starting => True
  | .devicePoll, .awaitingUser => True
  | _, _ => False

theorem Awaits.not_expired {op : OauthOperation} {status : DeviceStatus} (h : Awaits op status) :
    status ≠ .expired := by
  rintro rfl
  cases op <;> exact h

/-- What holds of the calls and the device sessions. -/
structure Orderly (c : Config) : Prop where
  callIds : (c.oauthCalls.map (·.callId)).Nodup
  deviceIds : (c.oauthDeviceSessions.map (·.sessionId)).Nodup
  callsBelow : ∀ r ∈ c.oauthCalls, r.callId < c.nextId
  devicesBelow : ∀ d ∈ c.oauthDeviceSessions, d.sessionId < c.nextId
  linksBelow : ∀ r ∈ c.oauthCalls, ∀ id ∈ r.deviceSessionId, id < c.nextId
  awaited : ∀ r ∈ c.oauthCalls, r.status.unfinished → ∀ d ∈ c.oauthDeviceSessions,
    r.deviceSessionId = some d.sessionId → Awaits r.operation d.status
  alone : ∀ r ∈ c.oauthCalls, ∀ k ∈ c.oauthCalls, r.status.unfinished → k.status.unfinished →
    ∀ id, r.deviceSessionId = some id → k.deviceSessionId = some id → r.callId = k.callId
  refreshable : ∀ r ∈ c.oauthCalls, r.operation = .refresh → (storedRefresh c r.providerId).isSome

/-- A change of calls and device sessions row by row, under which no call begins. -/
structure Restated (c c' : Config) (g : OauthCall → OauthCall)
    (f : OauthDeviceSession → OauthDeviceSession) : Prop where
  calls : c'.oauthCalls = c.oauthCalls.map g
  devices : c'.oauthDeviceSessions = c.oauthDeviceSessions.map f
  nextId : c'.nextId = c.nextId
  refresh : ∀ p, (storedRefresh c p).isSome → (storedRefresh c' p).isSome
  callId : ∀ r, (g r).callId = r.callId
  providerId : ∀ r, (g r).providerId = r.providerId
  operation : ∀ r, (g r).operation = r.operation
  link : ∀ r, (g r).deviceSessionId = r.deviceSessionId
  deviceId : ∀ d, (f d).sessionId = d.sessionId
  unfinished : ∀ r ∈ c.oauthCalls, (g r).status.unfinished → r.status.unfinished
  kept : ∀ r ∈ c.oauthCalls, (g r).status.unfinished → ∀ d ∈ c.oauthDeviceSessions,
    r.deviceSessionId = some d.sessionId → (f d).status = d.status

namespace Orderly

variable {c c' : Config}

theorem restated {g : OauthCall → OauthCall} {f : OauthDeviceSession → OauthDeviceSession}
    (h : Orderly c) (hr : Restated c c' g f) : Orderly c' where
  callIds := by
    rw [hr.calls, List.map_map]
    simpa only [Function.comp_def, hr.callId] using h.callIds
  deviceIds := by
    rw [hr.devices, List.map_map]
    simpa only [Function.comp_def, hr.deviceId] using h.deviceIds
  callsBelow := by
    rw [hr.calls, hr.nextId]
    simpa [hr.callId] using h.callsBelow
  devicesBelow := by
    rw [hr.devices, hr.nextId]
    simpa [hr.deviceId] using h.devicesBelow
  linksBelow := by
    rw [hr.calls, hr.nextId]
    simpa [hr.link] using h.linksBelow
  awaited := by
    rw [hr.calls, hr.devices]
    intro r' hr' hu d' hd' hl
    obtain ⟨r, hmr, rfl⟩ := List.mem_map.mp hr'
    obtain ⟨d, hmd, rfl⟩ := List.mem_map.mp hd'
    rw [hr.link, hr.deviceId] at hl
    rw [hr.operation, hr.kept r hmr hu d hmd hl]
    exact h.awaited r hmr (hr.unfinished r hmr hu) d hmd hl
  alone := by
    rw [hr.calls]
    intro r' hr' k' hk' hu hu' id hl hl'
    obtain ⟨r, hmr, rfl⟩ := List.mem_map.mp hr'
    obtain ⟨k, hmk, rfl⟩ := List.mem_map.mp hk'
    rw [hr.link] at hl hl'
    rw [hr.callId, hr.callId]
    exact h.alone r hmr k hmk (hr.unfinished r hmr hu) (hr.unfinished k hmk hu') id hl hl'
  refreshable := by
    rw [hr.calls]
    intro r' hr' hop
    obtain ⟨r, hmr, rfl⟩ := List.mem_map.mp hr'
    rw [hr.operation] at hop
    rw [hr.providerId]
    exact hr.refresh _ (h.refreshable r hmr hop)

/-- A new call for a device session comes when the session waits for it and has no other. -/
theorem insert {row : OauthCall} (h : Orderly c)
    (hrefresh : row.operation = .refresh → (storedRefresh c row.providerId).isSome)
    (hlink : ∀ id ∈ row.deviceSessionId, id < c.nextId ∧
      (∀ k ∈ c.oauthCalls, k.deviceSessionId = some id → k.status.unfinished = false) ∧
      ∀ d ∈ c.oauthDeviceSessions, d.sessionId = id → Awaits row.operation d.status) :
    Orderly (insertOauthCall c row) := by
  have hmem : ∀ {r : OauthCall}, r ∈ (insertOauthCall c row).oauthCalls →
      r ∈ c.oauthCalls ∨ r = { row with callId := c.nextId } := by
    intro r hr
    simpa [insertOauthCall] using hr
  have hnext : c.nextId < (insertOauthCall c row).nextId := Nat.lt_succ_self _
  constructor
  case callIds =>
    simp only [insertOauthCall, List.map_append, List.map_cons, List.map_nil]
    refine List.nodup_append.mpr ⟨h.callIds, List.nodup_singleton _, ?_⟩
    intro a ha b hb hab
    obtain ⟨r, hr, rfl⟩ := List.mem_map.mp ha
    rw [List.mem_singleton.mp hb] at hab
    exact Nat.lt_irrefl _ (hab ▸ h.callsBelow r hr)
  case deviceIds => exact h.deviceIds
  case callsBelow =>
    intro r hr
    rcases hmem hr with hr | rfl
    · exact Nat.lt_trans (h.callsBelow r hr) hnext
    · exact hnext
  case devicesBelow => exact fun d hd => Nat.lt_trans (h.devicesBelow d hd) hnext
  case linksBelow =>
    intro r hr id hid
    rcases hmem hr with hr | rfl
    · exact Nat.lt_trans (h.linksBelow r hr id hid) hnext
    · exact Nat.lt_trans (hlink id hid).1 hnext
  case awaited =>
    intro r hr hu d hd hl
    rcases hmem hr with hr | rfl
    · exact h.awaited r hr hu d hd hl
    · exact (hlink d.sessionId hl).2.2 d hd rfl
  case alone =>
    intro r hr k hk hu hu' id hl hl'
    rcases hmem hr with hr | rfl <;> rcases hmem hk with hk | rfl
    · exact h.alone r hr k hk hu hu' id hl hl'
    · rw [(hlink id hl').2.1 r hr hl] at hu
      cases hu
    · rw [(hlink id hl).2.1 k hk hl'] at hu'
      cases hu'
    · rfl
  case refreshable =>
    intro r hr hop
    rcases hmem hr with hr | rfl
    · exact h.refreshable r hr hop
    · exact hrefresh hop

theorem addDevice (h : Orderly c) (id : Uuid) :
    Orderly { c with
      oauthDeviceSessions := c.oauthDeviceSessions ++ [{ sessionId := c.nextId, providerId := id }]
      nextId := c.nextId + 1 } := by
  have hnext : c.nextId < c.nextId + 1 := Nat.lt_succ_self _
  constructor
  case callIds => exact h.callIds
  case deviceIds =>
    simp only [List.map_append, List.map_cons, List.map_nil]
    refine List.nodup_append.mpr ⟨h.deviceIds, List.nodup_singleton _, ?_⟩
    intro a ha b hb hab
    obtain ⟨d, hd, rfl⟩ := List.mem_map.mp ha
    rw [List.mem_singleton.mp hb] at hab
    exact Nat.lt_irrefl _ (hab ▸ h.devicesBelow d hd)
  case callsBelow => exact fun r hr => Nat.lt_trans (h.callsBelow r hr) hnext
  case devicesBelow =>
    intro d hd
    rcases List.mem_append.mp hd with hd | hd
    · exact Nat.lt_trans (h.devicesBelow d hd) hnext
    · rw [List.mem_singleton.mp hd]
      exact hnext
  case linksBelow => exact fun r hr i hi => Nat.lt_trans (h.linksBelow r hr i hi) hnext
  case awaited =>
    intro r hr hu d hd hl
    rcases List.mem_append.mp hd with hd | hd
    · exact h.awaited r hr hu d hd hl
    · rw [List.mem_singleton.mp hd] at hl
      exact absurd (h.linksBelow r hr _ hl) (Nat.lt_irrefl _)
  case alone => exact h.alone
  case refreshable => exact h.refreshable

end Orderly

/-- A step that stores no tokens and claims no call. -/
structure Uneventful (c c' : Config) : Prop where
  orderly : Orderly c'
  tokens : ∀ p, storedTokens c' p = storedTokens c p
  inFlight : ∀ r ∈ c'.oauthCalls, r.status = .inFlight → r ∈ c.oauthCalls

namespace Uneventful

variable {c c' c'' : Config}

theorem trans (h : Uneventful c c') (h' : Uneventful c' c'') : Uneventful c c'' where
  orderly := h'.orderly
  tokens := fun p => (h'.tokens p).trans (h.tokens p)
  inFlight := fun r hr hs => h.inFlight r (h'.inFlight r hr hs) hs

theorem insert {row : OauthCall} (h : Orderly (insertOauthCall c row)) (hs : row.status = .queued) :
    Uneventful c (insertOauthCall c row) where
  orderly := h
  tokens := fun _ => rfl
  inFlight := by
    intro r hr hf
    rcases List.mem_append.mp hr with hr | hr
    · exact hr
    · rw [List.mem_singleton.mp hr] at hf
      simp [hs] at hf

theorem storedRefresh_isSome (h : ∀ p, storedTokens c' p = storedTokens c p) (p : Uuid) :
    (storedRefresh c p).isSome → (storedRefresh c' p).isSome := by
  have hr : storedRefresh c' p = storedRefresh c p := congrArg Prod.snd (h p)
  rw [hr]
  exact id

theorem restated {p : OauthCall → Bool} {g : OauthCall → OauthCall}
    {f : OauthDeviceSession → OauthDeviceSession} (h : Orderly c)
    (hr : Restated c c' (fun r => if p r then g r else r) f)
    (ht : ∀ p, storedTokens c' p = storedTokens c p) (hg : ∀ r, (g r).status ≠ .inFlight) :
    Uneventful c c' where
  orderly := h.restated hr
  tokens := ht
  inFlight := by
    intro r' hr' hs
    rw [hr.calls] at hr'
    obtain ⟨r, hmr, rfl⟩ := List.mem_map.mp hr'
    by_cases hp : p r = true
    · rw [if_pos hp] at hs
      exact absurd hs (hg r)
    · rwa [if_neg hp]

/-- Only the device sessions change, and none that a call is unfinished for. -/
theorem devices {f : OauthDeviceSession → OauthDeviceSession} (h : Orderly c)
    (hid : ∀ d, (f d).sessionId = d.sessionId)
    (hkept : ∀ r ∈ c.oauthCalls, r.status.unfinished → ∀ d ∈ c.oauthDeviceSessions,
      r.deviceSessionId = some d.sessionId → (f d).status = d.status) :
    Uneventful c { c with oauthDeviceSessions := c.oauthDeviceSessions.map f } where
  orderly := by
    refine h.restated (g := id) (f := f) ⟨by simp, rfl, rfl, fun _ hp => hp, fun _ => rfl,
      fun _ => rfl, fun _ => rfl, fun _ => rfl, hid, fun _ _ hu => hu, hkept⟩
  tokens := fun _ => rfl
  inFlight := fun _ hr _ => hr

/-- Only what is outside the calls and the device sessions changes. -/
theorem same (h : Orderly c) (hcalls : c'.oauthCalls = c.oauthCalls)
    (hdevices : c'.oauthDeviceSessions = c.oauthDeviceSessions) (hnext : c'.nextId = c.nextId)
    (ht : ∀ p, storedTokens c' p = storedTokens c p) : Uneventful c c' where
  orderly := by
    refine h.restated (g := id) (f := id) ⟨by simpa, by simpa, hnext, storedRefresh_isSome ht,
      fun _ => rfl, fun _ => rfl, fun _ => rfl, fun _ => rfl, fun _ => rfl, fun _ _ hu => hu,
      fun _ _ _ _ _ _ => rfl⟩
  tokens := ht
  inFlight := fun _ hr _ => hcalls ▸ hr

end Uneventful

section Calls

variable {c : Config}

theorem storedTokens_upsert {f : ProviderSecret → ProviderSecret} (id : Uuid)
    (hf : ∀ s, (f s).providerId = s.providerId) (ha : ∀ s, (f s).accessToken = s.accessToken)
    (hr : ∀ s, (f s).refreshToken = s.refreshToken) (p : Uuid) :
    storedTokens (upsertSecret c id f) p = storedTokens c p := by
  unfold storedTokens
  rw [secretRow_upsert hf]
  by_cases hp : p = id
  · rw [if_pos hp, ha, hr, hp]
  · rw [if_neg hp]

theorem Uneventful.upsert {c' : Config} {f : ProviderSecret → ProviderSecret} {id : Uuid}
    (h : Uneventful c c') (hf : ∀ s, (f s).providerId = s.providerId)
    (ha : ∀ s, (f s).accessToken = s.accessToken)
    (hr : ∀ s, (f s).refreshToken = s.refreshToken) : Uneventful c (upsertSecret c' id f) := by
  have ht := storedTokens_upsert (c := c') id hf ha hr
  refine h.trans ?_
  unfold upsertSecret at ht ⊢
  split_ifs at ht ⊢
  · exact .same h.orderly rfl rfl rfl ht
  · exact .same h.orderly rfl rfl rfl ht

theorem fnSetProviderSecret_quiet (h : Orderly c) (id : Uuid) (apiKey : Option String) :
    Returns (Uneventful c) (fnSetProviderSecret c id apiKey) := by
  unfold fnSetProviderSecret
  refine returns_seq fun _ => returns_pure (.upsert ?_ (fun _ => rfl) (fun _ => rfl) fun _ => rfl)
  exact .same h rfl rfl rfl fun _ => rfl

theorem fnSetProvider_quiet (h : Orderly c) (id : Uuid) (ch : ProviderChange) :
    Returns (Uneventful c) (fnSetProvider c id ch) := by
  unfold fnSetProvider
  split
  · exact returns_error _
  · refine returns_seq fun _ => returns_guard fun _ => returns_guard fun _ => ?_
    have hrow : ∀ rows, Uneventful c { c with providers := rows } := fun rows =>
      .same h rfl rfl rfl fun _ => rfl
    split
    · exact returns_pure (.upsert (hrow _) (fun _ => rfl) (fun _ => rfl) fun _ => rfl)
    · exact returns_pure (hrow _)

theorem fnOauthStart_quiet (h : Orderly c) (id : Uuid) (state : String) :
    Returns (Uneventful c) (fnOauthStart c id state) := by
  unfold fnOauthStart
  split
  · exact returns_error _
  · refine returns_seq fun _ => returns_seq fun _ => returns_seq fun _ => returns_seq fun _ => ?_
    exact returns_pure (.same h rfl rfl rfl fun _ => rfl)

theorem fnOauthTokenRequest_quiet (h : Orderly c) (now : Time) (state : String)
    (code redirect : Option String) :
    Returns (Uneventful c) (fnOauthTokenRequest now c state code redirect) := by
  unfold fnOauthTokenRequest
  split
  · exact returns_error _
  · split
    · exact returns_error _
    · split
      · refine returns_seq fun _ => returns_pure ?_
        have hstates : ∀ rows, Uneventful c { c with oauthStates := rows } := fun rows =>
          .same h rfl rfl rfl fun _ => rfl
        refine (hstates _).trans (.insert ((hstates _).orderly.insert ?_ ?_) rfl)
        · intro hop
          cases hop
        · intro i hi
          cases hi
      · exact returns_error _

/-- A new login ends the sessions of its provider together with their calls. -/
theorem fnOauthDeviceStart_quiet (h : Orderly c) (now : Time) (id : Uuid) :
    Returns (Uneventful c) (fnOauthDeviceStart now c id) := by
  unfold fnOauthDeviceStart
  split
  · exact returns_error _
  · refine returns_seq fun _ => ?_
    split
    · refine returns_seq fun _ => returns_pure ?_
      dsimp only
      generalize hold : (fun d : OauthDeviceSession => decide (d.providerId = id) && activeSession d)
        = old
      generalize hids : (c.oauthDeviceSessions.filter old).map (·.sessionId) = ids
      have hsuper : Uneventful c
          { c with
            oauthCalls := update (fun r => r.deviceSessionId.any ids.contains && r.status.unfinished)
              (fun r => { r with status := .harvested, updatedAt := now }) c.oauthCalls
            oauthDeviceSessions := update old (fun d => { d with status := .expired })
              c.oauthDeviceSessions } := by
        refine .restated h ⟨rfl, rfl, rfl, fun _ hp => hp, ?_, ?_, ?_, ?_, ?_, ?_, ?_⟩
          (fun _ => rfl) (by simp)
        · intro r
          split_ifs <;> rfl
        · intro r
          split_ifs <;> rfl
        · intro r
          split_ifs <;> rfl
        · intro r
          split_ifs <;> rfl
        · intro d
          split_ifs <;> rfl
        · intro r _ hu
          split_ifs at hu
          · cases hu
          · exact hu
        · intro r _ hu d hd hl
          by_cases ho : old d = true
          · have hmem : d.sessionId ∈ ids := by
              rw [← hids]
              exact List.mem_map_of_mem (List.mem_filter.mpr ⟨hd, ho⟩)
            split_ifs at hu with hover
            · cases hu
            · simp [hl, hmem, hu] at hover
          · rw [if_neg ho]
      have hdevice := hsuper.orderly.addDevice id
      refine hsuper.trans (.trans ⟨hdevice, fun _ => rfl, fun _ hr _ => hr⟩ (.insert ?_ rfl))
      refine hdevice.insert ?_ ?_
      · intro hop
        cases hop
      · intro i hi
        obtain rfl : c.nextId = i := Option.some.inj hi
        refine ⟨Nat.lt_succ_self _, ?_, ?_⟩
        · intro k hk hl
          exact absurd (hsuper.orderly.linksBelow k hk _ hl) (Nat.lt_irrefl _)
        · intro d hd hid
          rcases List.mem_append.mp hd with hd | hd
          · have hlt := hsuper.orderly.devicesBelow d hd
            rw [hid] at hlt
            exact absurd hlt (Nat.lt_irrefl _)
          · rw [List.mem_singleton.mp hd]
            trivial
    · exact returns_error _

theorem reclaimOperatorCalls_quiet (h : Orderly c) (now : Time) (seconds : Option Int) :
    Uneventful c (reclaimOperatorCalls now seconds c) := by
  unfold reclaimOperatorCalls
  refine .restated (f := id) h ⟨rfl, by simp, rfl, fun _ hp => hp, ?_, ?_, ?_, ?_, fun _ => rfl, ?_,
    fun _ _ _ _ _ _ => rfl⟩ (fun _ => rfl) (by simp)
  · intro r
    split_ifs <;> rfl
  · intro r
    split_ifs <;> rfl
  · intro r
    split_ifs <;> rfl
  · intro r
    split_ifs <;> rfl
  · intro r _ hu
    split_ifs at hu
    · cases hu
    · exact hu

/-- No session runs out with a poll queued or in flight. -/
def unpolled (now : Time) (c : Config) : Bool :=
  c.oauthDeviceSessions.all fun d =>
    !(decide (d.status = .awaitingUser ∧ d.expiresAt.any (· ≤ now)) && polling c d.sessionId)

theorem Awaits.of_awaitingUser {op : OauthOperation} (h : Awaits op .awaitingUser) :
    op = .devicePoll := by
  cases op <;> first | rfl | cases h

theorem polling_of_unfinished (h : Orderly c) {r : OauthCall} {d : OauthDeviceSession}
    (hr : r ∈ c.oauthCalls) (hu : r.status.unfinished) (hd : d ∈ c.oauthDeviceSessions)
    (hl : r.deviceSessionId = some d.sessionId) (hs : d.status = .awaitingUser) :
    polling c d.sessionId = true := by
  have hop := (hs ▸ h.awaited r hr hu d hd hl).of_awaitingUser
  exact List.any_eq_true.mpr ⟨r, hr, by simp [hl, hop, hu]⟩

theorem insertPolls_quiet {now : Time} {l : List (OauthDeviceSession × Provider)} (h : Orderly c)
    (hl : ∀ x ∈ l, x.1 ∈ c.oauthDeviceSessions ∧ x.1.status = .awaitingUser ∧
      ∀ k ∈ c.oauthCalls, k.deviceSessionId = some x.1.sessionId → k.status.unfinished = false)
    (hn : l.Pairwise fun x y => x.1.sessionId ≠ y.1.sessionId) :
    Returns (Uneventful c) (insertTokenCalls
      (l.map fun dp => (dp.2, fun (_ : Uuid) url => pollCall now dp.1 dp.2 url)) c) := by
  induction l generalizing c with
  | nil => exact returns_ok (.same h rfl rfl rfl fun _ => rfl)
  | cons x l ih =>
    obtain ⟨hd, hs, hfree⟩ := hl x (by simp)
    obtain ⟨hx, hn⟩ := List.pairwise_cons.mp hn
    rw [List.map_cons, insertTokenCalls]
    split
    · exact returns_error _
    · rename_i url _
      have hnew : Uneventful c (insertOauthCall c (pollCall now x.1 x.2 url)) := by
        refine .insert (h.insert ?_ ?_) rfl
        · intro hop
          cases hop
        · intro id hid
          obtain rfl : x.1.sessionId = id := Option.some.inj hid
          refine ⟨h.devicesBelow _ hd, hfree, fun d hd' hid => ?_⟩
          rw [eq_of_key (·.sessionId) h.deviceIds hd' hd hid, hs]
          trivial
      refine returns_mono (ih hnew.orderly (fun y hy => ?_) hn) fun c' hc' => hnew.trans hc'
      obtain ⟨hd', hs', hfree'⟩ := hl y (by simp [hy])
      refine ⟨hd', hs', fun k hk hlink => ?_⟩
      rcases List.mem_append.mp hk with hk | hk
      · exact hfree' k hk hlink
      · rw [List.mem_singleton.mp hk] at hlink
        exact absurd (Option.some.inj hlink) (hx y hy)

theorem insertRefreshes_quiet {now : Time} {l : List Provider} (h : Orderly c)
    (hl : ∀ p ∈ l, (storedRefresh c p.providerId).isSome) :
    Returns (Uneventful c) (insertTokenCalls
      (l.map fun p => (p, fun id url => refreshCall now p (uuidHex id) url)) c) := by
  induction l generalizing c with
  | nil => exact returns_ok (.same h rfl rfl rfl fun _ => rfl)
  | cons p l ih =>
    rw [List.map_cons, insertTokenCalls]
    split
    · exact returns_error _
    · rename_i url _
      have hnew : Uneventful c (insertOauthCall c (refreshCall now p (uuidHex c.nextId) url)) := by
        refine .insert (h.insert (fun _ => hl p (by simp)) ?_) rfl
        intro id hid
        cases hid
      exact returns_mono (ih hnew.orderly fun q hq => hl q (by simp [hq])) fun c' hc' =>
        hnew.trans hc'

theorem duePolls_pairwise (h : Orderly c) (now : Time) :
    (duePolls now c).Pairwise fun x y => x.1.sessionId ≠ y.1.sessionId := by
  have hn := List.pairwise_map.mp h.deviceIds
  refine List.pairwise_filterMap.mpr (hn.imp ?_)
  intro d d' hne x hx y hy
  have hfst : ∀ (a : OauthDeviceSession) (z : OauthDeviceSession × Provider),
      (if pollDue now a && !polling c a.sessionId then (c.provider? a.providerId).map (a, ·)
        else none) = some z → z.1 = a := by
    intro a z hz
    split_ifs at hz
    obtain ⟨p, _, rfl⟩ := Option.map_eq_some_iff.mp hz
    rfl
  rw [hfst d x hx, hfst d' y hy]
  exact hne

theorem mem_duePolls {now : Time} {x : OauthDeviceSession × Provider} (hx : x ∈ duePolls now c) :
    x.1 ∈ c.oauthDeviceSessions ∧ x.1.status = .awaitingUser ∧ polling c x.1.sessionId = false := by
  obtain ⟨d, hd, hmap⟩ := List.mem_filterMap.mp hx
  split_ifs at hmap with hdue
  obtain ⟨p, _, rfl⟩ := Option.map_eq_some_iff.mp hmap
  simp only [pollDue, Bool.and_eq_true, decide_eq_true_eq, Bool.not_eq_true'] at hdue
  exact ⟨hd, hdue.1.1.1, hdue.2⟩

theorem storedRefresh_of_expiring {now : Time} {id : Uuid} (h : expiring now c id = true) :
    (storedRefresh c id).isSome := by
  obtain ⟨s, hs, hexp⟩ := Option.any_eq_true _ _ |>.mp h
  have hrow : secretRow c id = s := by simp [secretRow, hs]
  rw [storedRefresh, hrow]
  exact (Bool.and_eq_true _ _ ▸ hexp).1

theorem queueOauthMaintenance_quiet (h : Orderly c) {now : Time} (hp : unpolled now c = true) :
    Returns (Uneventful c) (queueOauthMaintenance now c) := by
  unfold queueOauthMaintenance
  dsimp only
  have hexpired : Uneventful c
      { c with
        oauthDeviceSessions := update (fun d => d.status = .awaitingUser ∧ d.expiresAt.any (· ≤ now))
          (fun d => { d with status := .expired }) c.oauthDeviceSessions } := by
    refine .devices h ?_ ?_
    · intro d
      split_ifs <;> rfl
    · intro r hr hu d hd hl
      rw [ite_eq_right_iff.mpr]
      intro hlapsed
      have hpoll := polling_of_unfinished h hr hu hd hl (of_decide_eq_true hlapsed).1
      have := List.all_eq_true.mp hp d hd
      simp only [hlapsed, hpoll] at this
      cases this
  refine returns_bind (insertPolls_quiet hexpired.orderly (fun x hx => ?_)
    (duePolls_pairwise hexpired.orderly now)) fun c₁ hc₁ => ?_
  · obtain ⟨hd, hs, hfree⟩ := mem_duePolls hx
    refine ⟨hd, hs, fun k hk hl => ?_⟩
    by_contra hu
    have hpoll := polling_of_unfinished hexpired.orderly hk (by simpa using hu) hd hl hs
    rw [hfree] at hpoll
    cases hpoll
  · have hlater : Uneventful c₁
        { c₁ with
          oauthDeviceSessions := update (pollDue now)
            (fun d => { d with nextPollAt := some (now + d.intervalSeconds * 1000) })
            c₁.oauthDeviceSessions } := by
      refine .devices hc₁.orderly ?_ ?_
      · intro d
        split_ifs <;> rfl
      · intro r _ _ d _ _
        split_ifs <;> rfl
    refine returns_mono (insertRefreshes_quiet hlater.orderly fun p hp => ?_) fun c₂ hc₂ =>
      ((hexpired.trans hc₁).trans hlater).trans hc₂
    have hdue := (List.mem_filter.mp hp).2
    simp only [decide_eq_true_eq] at hdue
    exact storedRefresh_of_expiring hdue.2.2.1

end Calls

section Answers

variable {c c' : Config} {r : OauthCall} (now : Time)

/-- The answer to a call ends it and may change its device session, which no other call is
unfinished for. -/
theorem harvested_orderly {f : OauthDeviceSession → OauthDeviceSession} (h : Orderly c)
    (hr : r ∈ c.oauthCalls) (hs : r.status = .inFlight) (hf : ∀ d, (f d).sessionId = d.sessionId)
    (hcalls : c'.oauthCalls = (harvest now c r).oauthCalls)
    (hdevices : c'.oauthDeviceSessions = (onDevice c r f).oauthDeviceSessions)
    (hnext : c'.nextId = c.nextId)
    (hrefresh : ∀ p, (storedRefresh c p).isSome → (storedRefresh c' p).isSome) : Orderly c' := by
  refine h.restated ⟨hcalls, hdevices, hnext, hrefresh, ?_, ?_, ?_, ?_, ?_, ?_, ?_⟩
  · intro k
    split_ifs <;> rfl
  · intro k
    split_ifs <;> rfl
  · intro k
    split_ifs <;> rfl
  · intro k
    split_ifs <;> rfl
  · intro d
    split_ifs
    · exact hf d
    · rfl
  · intro k _ hu
    split_ifs at hu
    · cases hu
    · exact hu
  · intro k hk hu d _ hl
    have hru : r.status.unfinished = true := by rw [hs]; rfl
    split_ifs at hu with hk'
    · cases hu
    · by_cases hrl : r.deviceSessionId = some d.sessionId
      · have := h.alone r hr k hk hru hu d.sessionId hrl hl
        simp [this] at hk'
      · rw [if_neg (by simpa using hrl)]

theorem mem_harvest {k : OauthCall} (hk : k ∈ (harvest now c r).oauthCalls)
    (hs : k.status = .inFlight) : k ∈ c.oauthCalls := by
  obtain ⟨k', hk', rfl⟩ := mem_update.mp hk
  split_ifs at hs ⊢
  exact hk'

theorem harvest_quiet {f : OauthDeviceSession → OauthDeviceSession} (h : Orderly c)
    (hr : r ∈ c.oauthCalls) (hs : r.status = .inFlight) (hf : ∀ d, (f d).sessionId = d.sessionId) :
    Uneventful c (harvest now (onDevice c r f) r) where
  orderly := harvested_orderly now h hr hs hf rfl rfl rfl fun _ hp => hp
  tokens := fun _ => rfl
  inFlight := fun _ hk hks => mem_harvest now hk hks

theorem onDevice_id (c : Config) (r : OauthCall) : onDevice c r id = c := by
  have : update (fun d => r.deviceSessionId = some d.sessionId) id c.oauthDeviceSessions =
      c.oauthDeviceSessions := by simp [update]
  rw [onDevice, this]

theorem unanswered_eq (status : Option Int) (v : Json) : ∃ f : OauthDeviceSession → OauthDeviceSession,
    (∀ d, (f d).sessionId = d.sessionId) ∧ unanswered c r status v = onDevice c r f := by
  unfold unanswered
  split_ifs
  · refine ⟨_, ?_, rfl⟩
    exact fun _ => rfl
  · refine ⟨_, ?_, rfl⟩
    exact fun _ => rfl
  · exact ⟨id, fun _ => rfl, (onDevice_id c r).symm⟩

theorem instructed_sessionId (v : Json) (d : OauthDeviceSession) :
    (instructed now v d).sessionId = d.sessionId := by
  unfold instructed
  split <;> rfl

theorem pollLater_sessionId (v : Json) (d : OauthDeviceSession) :
    (pollLater now v d).sessionId = d.sessionId := by
  unfold pollLater
  dsimp only
  split_ifs <;> rfl

/-- What the answer to a call of a login or a refresh stores. -/
structure Stored (c c' : Config) (r : OauthCall) (t : Tokens) : Prop where
  orderly : Orderly c'
  inFlight : ∀ k ∈ c'.oauthCalls, k.status = .inFlight → k ∈ c.oauthCalls
  operation : r.operation ≠ .deviceAuthorization
  refresh : storedRefresh c' r.providerId = t.refresh.or (storedRefresh c r.providerId)
  others : ∀ p, p ≠ r.providerId → storedRefresh c' p = storedRefresh c p

theorem secretRow_storeTokens (t : Tokens) (id p : Uuid) :
    (secretRow (storeTokens now c id t) p).refreshToken =
      if p = id then t.refresh.or (secretRow c id).refreshToken else (secretRow c p).refreshToken := by
  unfold storeTokens
  rw [secretRow_upsert]
  · split_ifs <;> rfl
  · exact fun _ => rfl

theorem storeTokens_stored {f : OauthDeviceSession → OauthDeviceSession} {t : Tokens} (h : Orderly c)
    (hr : r ∈ c.oauthCalls) (hs : r.status = .inFlight) (hop : r.operation ≠ .deviceAuthorization)
    (hf : ∀ d, (f d).sessionId = d.sessionId) :
    Stored c (onDevice (harvest now (storeTokens now c r.providerId t) r) r f) r t := by
  have hrefresh : ∀ p, storedRefresh
      (onDevice (harvest now (storeTokens now c r.providerId t) r) r f) p =
      if p = r.providerId then t.refresh.or (storedRefresh c r.providerId) else storedRefresh c p :=
    fun p => secretRow_storeTokens now t r.providerId p
  have hframe : (storeTokens now c r.providerId t).oauthCalls = c.oauthCalls ∧
      (storeTokens now c r.providerId t).oauthDeviceSessions = c.oauthDeviceSessions ∧
      (storeTokens now c r.providerId t).nextId = c.nextId := by
    unfold storeTokens upsertSecret
    split_ifs
    · exact ⟨rfl, rfl, rfl⟩
    · exact ⟨rfl, rfl, rfl⟩
  obtain ⟨hcalls, hdevices, hnext⟩ := hframe
  refine ⟨harvested_orderly now (f := f) h hr hs hf ?_ ?_ hnext ?_, ?_, hop, ?_, ?_⟩
  · dsimp only [onDevice, harvest]
    rw [hcalls]
  · dsimp only [onDevice, harvest]
    rw [hdevices]
  · intro p hp
    rw [hrefresh]
    split_ifs with hpr
    · rw [← hpr]
      cases t.refresh with
      | none => exact hp
      | some _ => rfl
    · exact hp
  · intro k hk hks
    have hk' := mem_harvest now (c := storeTokens now c r.providerId t) hk hks
    rwa [hcalls] at hk'
  · rw [hrefresh, if_pos rfl]
  · intro p hp
    rw [hrefresh, if_neg hp]

theorem settleOauth_spec (h : Orderly c) (hr : r ∈ c.oauthCalls) (hs : r.status = .inFlight)
    {status : Option Int} {body : Option String} {out : Config × OauthReply}
    (hout : settleOauth now c r status body = out) :
    (Uneventful c out.1 ∧ ∀ p, out.2 ≠ .stored p) ∨
    ∃ t, tokens? status body = some t ∧ out.2 = .stored r.providerId ∧ Stored c out.1 r t := by
  unfold settleOauth at hout
  dsimp only at hout
  split at hout
  · subst hout
    exact .inl ⟨harvest_quiet now h hr hs (instructed_sessionId now _), by simp⟩
  · rename_i hauth
    split at hout
    · subst hout
      exact .inl ⟨harvest_quiet now h hr hs (pollLater_sessionId now _), by simp⟩
    · split at hout
      · subst hout
        obtain ⟨f, hf, heq⟩ := unanswered_eq (c := c) (r := r) status (answer body)
        rw [heq]
        exact .inl ⟨harvest_quiet now h hr hs hf, by simp⟩
      · rename_i hfail
        have hop : r.operation ≠ .deviceAuthorization := by
          intro hop
          exact hauth ⟨hop, by simpa using hfail⟩
        split at hout
        · subst hout
          have hquiet := harvest_quiet now (f := id) h hr hs fun _ => rfl
          rw [onDevice_id] at hquiet
          exact .inl ⟨hquiet, by simp⟩
        · rename_i t ht
          right
          split at hout
          · subst hout
            exact ⟨t, ht, rfl, storeTokens_stored now h hr hs hop fun _ => rfl⟩
          · subst hout
            have hstored := storeTokens_stored now (f := id) (t := t) h hr hs hop fun _ => rfl
            rw [onDevice_id] at hstored
            exact ⟨t, ht, rfl, hstored⟩

end Answers

/-- Every refresh token goes back to the latest login of its provider. -/
structure UpToDate (s : Logins) : Prop where
  orderly : Orderly s.cfg
  source : ∀ p, (storedRefresh s.cfg p).isSome → s.source p = s.latest p
  carried : ∀ r ∈ s.cfg.oauthCalls, r.operation = .refresh → r.status = .inFlight →
    s.carried r.callId = s.latest r.providerId

/-- The call whose answer an event stores the tokens of. -/
def storedBy (c : Config) (e : LoginEvent) : Option OauthCall :=
  match e.op with
  | .complete id status body => match fnCompleteOauth e.now c id status body with
    | .ok (_, .stored _) => c.oauthCalls.find? (·.callId = id)
    | _ => none
  | _ => none

/-- The session of a login is not over, and a refresh carries a token of the latest login. -/
def Entitled (s : Logins) (r : OauthCall) : Prop :=
  (∀ d ∈ s.cfg.oauthDeviceSessions, r.deviceSessionId = some d.sessionId → d.status ≠ .expired) ∧
    (r.operation = .refresh → ∀ login ∈ s.latest r.providerId, s.carried r.callId = some login)

instance (s : Logins) (r : OauthCall) : Decidable (Entitled s r) :=
  inferInstanceAs (Decidable (_ ∧ _))

/-- Tokens are stored by the answer to an entitled call and by nothing else. -/
def FromLatest (s : Logins) (e : LoginEvent) : Prop :=
  (∀ r ∈ storedBy s.cfg e, Entitled s r) ∧
    (storedBy s.cfg e = none → ∀ p, storedTokens (loginStep s e).cfg p = storedTokens s.cfg p)

def OauthOperation.login (op : OauthOperation) : Bool :=
  op = .tokenExchange || op = .devicePoll

/-- The tokens of a login come when no refresh is claimed, and with a refresh token if one is
stored. -/
def unrefreshed (c : Config) (r : OauthCall) (t : Tokens) : Bool :=
  !c.oauthCalls.any (fun k => k.providerId = r.providerId ∧ k.operation = .refresh ∧
    k.status = .inFlight) && (t.refresh.isSome || (storedRefresh c r.providerId).isNone)

def undisturbed (s : Logins) (e : LoginEvent) : Bool :=
  match e.op with
  | .maintain => unpolled e.now s.cfg
  | .claim _ _ => unpolled e.now s.cfg
  | .complete id status body =>
    (s.cfg.oauthCalls.find? (·.callId = id)).all fun r => (tokens? status body).all fun t =>
      !(r.status = .inFlight && r.operation.login) || unrefreshed s.cfg r t
  | _ => true

namespace UpToDate

variable {s : Logins}

theorem quiet {c' : Config} (h : UpToDate s) (hq : Uneventful s.cfg c') : UpToDate { s with cfg := c' } where
  orderly := hq.orderly
  source := by
    intro p hp
    have hr : storedRefresh c' p = storedRefresh s.cfg p := congrArg Prod.snd (hq.tokens p)
    exact h.source p (hr ▸ hp)
  carried := fun r hr hop hs => h.carried r (hq.inFlight r hr hs) hop hs

theorem on {x : Except String Config} (h : UpToDate s) (hx : Returns (Uneventful s.cfg) x) :
    UpToDate (s.on x) ∧ ∀ p, storedTokens (s.on x).cfg p = storedTokens s.cfg p := by
  cases x with
  | error m => exact ⟨h, fun _ => rfl⟩
  | ok c' =>
    have hq : Uneventful s.cfg c' := hx c' rfl
    exact ⟨h.quiet hq, hq.tokens⟩

theorem claim {now : Time} (h : UpToDate s) (limit : Option Int) (locked : List Uuid)
    (hp : unpolled now s.cfg = true) :
    UpToDate (s.claim now limit locked) ∧
      ∀ p, storedTokens (s.claim now limit locked).cfg p = storedTokens s.cfg p := by
  have hmaintain := queueOauthMaintenance_quiet h.orderly hp
  unfold Logins.claim fnClaimOauth
  cases hm : queueOauthMaintenance now s.cfg with
  | error m => exact ⟨h, fun _ => rfl⟩
  | ok q =>
    have hq : Uneventful s.cfg q := hmaintain q hm
    have hcur := h.quiet hq
    have hpicked : ∀ k ∈ pickedOauth limit locked q, k ∈ q.oauthCalls ∧ k.status = .queued := by
      intro k hk
      have hk' := mem_sortBy.mp (List.mem_of_mem_take hk)
      have hk'' := (List.mem_filter.mp hk').2
      simp only [decide_eq_true_eq] at hk''
      exact ⟨(List.mem_filter.mp hk').1, hk''.1⟩
    have hsame : ∀ r ∈ q.oauthCalls, ∀ k ∈ pickedOauth limit locked q, k.callId = r.callId → k = r :=
      fun r hr k hk hid => eq_of_key (·.callId) hq.orderly.callIds (hpicked k hk).1 hr hid
    refine ⟨⟨?_, fun p hp => hcur.source p hp, ?_⟩, hq.tokens⟩
    · refine hq.orderly.restated (f := id) ⟨rfl, by simp, rfl, fun _ hp => hp, ?_, ?_, ?_, ?_,
        fun _ => rfl, ?_, fun _ _ _ _ _ _ => rfl⟩
      · intro r
        split_ifs <;> rfl
      · intro r
        split_ifs <;> rfl
      · intro r
        split_ifs <;> rfl
      · intro r
        split_ifs <;> rfl
      · intro r hr hu
        split_ifs at hu with hc
        · obtain ⟨k, hk, hid⟩ := List.mem_map.mp (List.contains_iff_mem.mp hc)
          rw [← hsame r hr k hk hid, (hpicked k hk).2]
          rfl
        · exact hu
    · intro r' hr' hop hs
      obtain ⟨r, hr, rfl⟩ := mem_update.mp hr'
      by_cases hc : ((pickedOauth limit locked q).map (·.callId)).contains r.callId = true
      · rw [if_pos hc] at hop ⊢
        have hsome : ((pickedOauth limit locked q).find? (·.callId = r.callId)).isSome := by
          obtain ⟨k, hk, hid⟩ := List.mem_map.mp (List.contains_iff_mem.mp hc)
          exact List.find?_isSome.mpr ⟨k, hk, by simpa using hid⟩
        obtain ⟨k, hk⟩ := Option.isSome_iff_exists.mp hsome
        have hkr := hsame r hr k (List.mem_of_find?_eq_some hk) (by simpa using List.find?_some hk)
        simp only [bind, Except.bind, pure, Except.pure, hk, hkr]
        exact hcur.source _ (hq.orderly.refreshable r hr hop)
      · rw [if_neg hc] at hop hs ⊢
        have hnone : (pickedOauth limit locked q).find? (·.callId = r.callId) = none := by
          refine List.find?_eq_none.mpr fun k hk => ?_
          intro hid
          refine hc (List.contains_iff_mem.mpr (List.mem_map.mpr ⟨k, hk, ?_⟩))
          simpa using hid
        simp only [bind, Except.bind, pure, Except.pure, hnone]
        exact hcur.carried r hr hop hs

theorem stored {c' : Config} {r : OauthCall} {t : Tokens} (h : UpToDate s)
    (hr : r ∈ s.cfg.oauthCalls) (hs : r.status = .inFlight) (hst : Stored s.cfg c' r t)
    (hu : r.operation.login = true → unrefreshed s.cfg r t = true) :
    UpToDate { s.renewed r t with cfg := c' } := by
  by_cases hop : r.operation = .refresh
  · have hcarried := h.carried r hr hop hs
    have hsource := h.source r.providerId (h.orderly.refreshable r hr hop)
    unfold Logins.renewed
    rw [if_pos hop]
    refine ⟨hst.orderly, fun p hp => ?_, fun k hk hkop hks => ?_⟩
    · dsimp only
      by_cases hpr : p = r.providerId
      · subst hpr
        split_ifs
        · rw [Function.update_self, hcarried]
        · exact hsource
      · have hp' : (storedRefresh s.cfg p).isSome := hst.others p hpr ▸ hp
        split_ifs
        · rw [Function.update_of_ne hpr]
          exact h.source p hp'
        · exact h.source p hp'
    · exact h.carried k (hst.inFlight k hk hks) hkop hks
  · have hlogin : r.operation.login = true := by
      have := hst.operation
      cases hr' : r.operation <;> simp_all [OauthOperation.login]
    have hun := hu hlogin
    simp only [unrefreshed, Bool.and_eq_true, Bool.not_eq_true', List.any_eq_false, decide_eq_true_eq,
      Bool.or_eq_true, Option.isNone_iff_eq_none] at hun
    unfold Logins.renewed
    rw [if_neg hop]
    refine ⟨hst.orderly, fun p hp => ?_, fun k hk hkop hks => ?_⟩
    · dsimp only
      by_cases hpr : p = r.providerId
      · subst hpr
        rcases hun.2 with ht | hnone
        · rw [if_pos ht, Function.update_self, Function.update_self]
        · by_cases ht : t.refresh.isSome
          · rw [if_pos ht, Function.update_self, Function.update_self]
          · have htn : t.refresh = none := by simpa using ht
            rw [hst.refresh, hnone, htn] at hp
            cases hp
      · have hp' : (storedRefresh s.cfg p).isSome := hst.others p hpr ▸ hp
        rw [Function.update_of_ne hpr]
        split_ifs
        · rw [Function.update_of_ne hpr]
          exact h.source p hp'
        · exact h.source p hp'
    · have hk' := hst.inFlight k hk hks
      have hne : k.providerId ≠ r.providerId := fun hkp => hun.1 k hk' ⟨hkp, hkop, hks⟩
      dsimp only
      rw [Function.update_of_ne hne]
      exact h.carried k hk' hkop hks

theorem entitled {r : OauthCall} (h : UpToDate s) (hr : r ∈ s.cfg.oauthCalls)
    (hs : r.status = .inFlight) : Entitled s r := by
  refine ⟨fun d hd hl => ?_, fun hop login hlogin => ?_⟩
  · exact (h.orderly.awaited r hr (by rw [hs]; rfl) d hd hl).not_expired
  · rw [h.carried r hr hop hs]
    exact hlogin

theorem complete {now : Time} {id : Uuid} {status : Option Int} {body : Option String}
    (h : UpToDate s) (hu : undisturbed s ⟨now, .complete id status body⟩ = true) :
    UpToDate (s.complete now id status body) ∧ FromLatest s ⟨now, .complete id status body⟩ := by
  unfold FromLatest storedBy
  dsimp only [loginStep]
  unfold Logins.complete fnCompleteOauth
  cases hf : s.cfg.oauthCalls.find? (·.callId = id) with
  | none => exact ⟨h, by simp, fun _ _ => rfl⟩
  | some r =>
    have hr := List.mem_of_find?_eq_some hf
    by_cases hs : r.status = .inFlight
    · obtain ⟨hq, hns⟩ | ⟨t, ht, hrep, hst⟩ :=
        settleOauth_spec now h.orderly hr hs (rfl : settleOauth now s.cfg r status body = _)
      · generalize hout : settleOauth now s.cfg r status body = out at hq hns
        obtain ⟨c', reply⟩ := out
        simp only [if_pos hs, hout]
        cases reply with
        | stored p => exact absurd rfl (hns p)
        | _ => exact ⟨h.quiet hq, by simp, fun _ => hq.tokens⟩
      · generalize hout : settleOauth now s.cfg r status body = out at hrep hst
        obtain ⟨c', reply⟩ := out
        dsimp only at hrep
        subst hrep
        simp only [if_pos hs, hout, ht]
        refine ⟨h.stored hr hs hst fun hlogin => ?_, ?_, by simp⟩
        · simpa [undisturbed, hf, ht, hs, hlogin] using hu
        · intro r' hr'
          obtain rfl : r = r' := Option.some.inj hr'
          exact h.entitled hr hs
    · simp only [if_neg hs]
      exact ⟨h, by simp, fun _ _ => trivial⟩

/-- One event: what it stores is of the latest login, and every token still goes back to one. -/
theorem step (h : UpToDate s) {e : LoginEvent} (hu : undisturbed s e = true) :
    UpToDate (loginStep s e) ∧ FromLatest s e := by
  obtain ⟨now, op⟩ := e
  have hquiet : ∀ {x : Except String Config}, Returns (Uneventful s.cfg) x →
      loginStep s ⟨now, op⟩ = s.on x → storedBy s.cfg ⟨now, op⟩ = none →
      UpToDate (loginStep s ⟨now, op⟩) ∧ FromLatest s ⟨now, op⟩ := by
    intro x hx hstep hnone
    obtain ⟨hcur, htokens⟩ := h.on hx
    rw [FromLatest, hstep, hnone]
    exact ⟨hcur, by simp, fun _ => htokens⟩
  cases op with
  | setProvider id change => exact hquiet (fnSetProvider_quiet h.orderly id change) rfl rfl
  | setProviderSecret id apiKey => exact hquiet (fnSetProviderSecret_quiet h.orderly id apiKey) rfl rfl
  | oauthStart id state => exact hquiet (fnOauthStart_quiet h.orderly id state) rfl rfl
  | deviceStart id => exact hquiet (fnOauthDeviceStart_quiet h.orderly now id) rfl rfl
  | tokenRequest state code redirect =>
    exact hquiet (fnOauthTokenRequest_quiet h.orderly now state code redirect) rfl rfl
  | maintain => exact hquiet (queueOauthMaintenance_quiet h.orderly hu) rfl rfl
  | claim limit locked =>
    obtain ⟨hcur, htokens⟩ := h.claim limit locked hu
    exact ⟨hcur, by simp [storedBy], fun _ => htokens⟩
  | complete id status body => exact h.complete hu
  | watchdog seconds =>
    exact hquiet (returns_ok (reclaimOperatorCalls_quiet h.orderly now seconds)) rfl rfl

end UpToDate

theorem upToDate_start {c : Config} (hcalls : c.oauthCalls = []) (hdevices : c.oauthDeviceSessions = []) :
    UpToDate { cfg := c } := by
  refine ⟨?_, fun _ _ => rfl, ?_⟩
  · constructor <;> simp [hcalls, hdevices]
  · simp [hcalls]

/-- In a run in which no session runs out under a poll and no login is answered under a claimed
refresh, or without a refresh token where one is stored, all tokens go back to the latest login. -/
theorem tokens_from_latest_login (c : Config) (hcalls : c.oauthCalls = [])
    (hdevices : c.oauthDeviceSessions = []) (es : List LoginEvent)
    (h : Along loginStep (fun s e => undisturbed s e = true) { cfg := c } es) :
    Along loginStep FromLatest { cfg := c } es := by
  have hcur := upToDate_start hcalls hdevices
  generalize ({ cfg := c } : Logins) = s at h hcur
  induction es generalizing s with
  | nil => trivial
  | cons e es ih =>
    obtain ⟨hnext, hfrom⟩ := hcur.step h.1
    exact ⟨hfrom, ih _ h.2 hnext⟩

def oneProvider : Config :=
  { providers := [{
      providerId := 7
      name := "device"
      kind := .oauth
      oauthFlow := .deviceCode
      baseUrl := "https://api.example.com"
      oauthDeviceUrl := some "https://login.example.com/device"
      oauthTokenUrl := some "https://login.example.com/token"
      oauthClientId := some "client" }]
    nextId := 10 }

/-- A device login up to the claim of its poll. The calls go by the ids they get. -/
def devicePolled (now : Time) (authorization : Uuid) : List LoginEvent :=
  [⟨now, .deviceStart 7⟩,
    ⟨now, .claim none []⟩,
    ⟨now, .complete authorization (some 200) (some
      ("\x7b\"device_code\":\"d\",\"user_code\":\"u\",\"verification_uri\":\"v\"," ++
        "\"interval\":1,\"expires_in\":10\x7d"))⟩,
    ⟨now + 2000, .claim none []⟩]

def firstTokens : String :=
  "\x7b\"access_token\":\"a1\",\"refresh_token\":\"r1\",\"expires_in\":60\x7d"

def renewedTokens : String :=
  "\x7b\"access_token\":\"a2\",\"expires_in\":3600\x7d"

def secondTokens : String :=
  "\x7b\"access_token\":\"a3\",\"refresh_token\":\"r3\",\"expires_in\":3600\x7d"

/-- A login, the refresh of its tokens, and a second login. -/
def loginsInTurn : List LoginEvent :=
  devicePolled 0 11 ++ [⟨2000, .complete 12 (some 200) (some firstTokens)⟩,
    ⟨3000, .claim none []⟩,
    ⟨3000, .complete 13 (some 200) (some renewedTokens)⟩] ++
  devicePolled 4000 15 ++ [⟨6000, .complete 16 (some 200) (some secondTokens)⟩]

theorem logins_in_turn : Along loginStep FromLatest { cfg := oneProvider } loginsInTurn ∧
    storedTokens (run loginStep { cfg := oneProvider } loginsInTurn).cfg 7 = (some "a3", some "r3") :=
  ⟨tokens_from_latest_login oneProvider rfl rfl loginsInTurn (by decide +kernel), by decide +kernel⟩

/-- The poll of a session that has run out brings tokens. -/
def lateApproval : List LoginEvent :=
  devicePolled 0 11 ++ [⟨20000, .maintain⟩, ⟨20000, .complete 12 (some 200) (some firstTokens)⟩]

/-- The refresh of a first login is answered after a second login. -/
def lateRefresh : List LoginEvent :=
  devicePolled 0 11 ++ [⟨2000, .complete 12 (some 200) (some firstTokens)⟩, ⟨3000, .claim none []⟩] ++
  devicePolled 4000 15 ++ [⟨6000, .complete 16 (some 200) (some secondTokens)⟩,
    ⟨7000, .complete 13 (some 200) (some renewedTokens)⟩]

theorem late_answers_store : ¬ Along loginStep FromLatest { cfg := oneProvider } lateApproval ∧
    ¬ Along loginStep FromLatest { cfg := oneProvider } lateRefresh := by
  have hentitled : ∀ es, Along loginStep FromLatest { cfg := oneProvider } es →
      Along loginStep (fun s e => ∀ r ∈ storedBy s.cfg e, Entitled s r) { cfg := oneProvider } es :=
    fun es h => h.mono fun _ _ he => he.1
  constructor
  · intro h
    exact absurd (hentitled _ h) (by decide +kernel)
  · intro h
    exact absurd (hentitled _ h) (by decide +kernel)

end Allgres
