import Allgres.OperatorQueues
import Allgres.ReadCommitted

/-! The exchange of an authorization code. `fn_oauth_token_request` looks a state up,
deletes it and queues a call, in statements that do not look at each other: a state is used
once unless two callbacks have both found it. -/

namespace Allgres

open ReadCommitted Rows Runs

/-- The arguments of a request, with the time and the id of the call it may queue. -/
structure TokenRequest where
  callId : Uuid
  now : Time
  state : String
  code : Option String
  redirect : Option String

/-- The columns a call is built from. -/
structure TokenEndpoint where
  providerId : Uuid
  url : String
  clientId : String
  allowPrivate : Bool

inductive TokenLoc where
  | lookUp (r : TokenRequest)
  | readProvider (r : TokenRequest) (providerId : Uuid)
  | deleteState (r : TokenRequest) (p : TokenEndpoint)
  | insertCall (r : TokenRequest) (p : TokenEndpoint)
  | done

namespace TokenLoc

def entry : TokenLoc → Bool
  | lookUp _ => true
  | _ => false

def final : TokenLoc → Bool
  | done => true
  | _ => false

def hasState (c : Config) (state : String) : Bool :=
  c.oauthStates.any (·.state = state)

/-- The row that is deleted is locked, if there is one. -/
def locks : TokenLoc → Config → List String
  | deleteState r _, c => if hasState c r.state then [r.state] else []
  | _, _ => []

def endpoint (p : Provider) : Option TokenEndpoint :=
  match p.oauthTokenUrl, p.oauthClientId with
  | some url, some client =>
    if checkOutboundUrl (some url) p.allowPrivateNetwork = none then
      some ⟨p.providerId, url, client, p.allowPrivateNetwork⟩
    else none
  | _, _ => none

def exchangeCall (r : TokenRequest) (p : TokenEndpoint) : OauthCall :=
  { callId := r.callId
    providerId := p.providerId
    state := r.state
    url := p.url
    requestHeaders := .object [("content-type", .str "application/x-www-form-urlencoded"),
      ("accept", .str "application/json")]
    requestBody := .object [("grant_type", .str "authorization_code"), ("code", .ofText r.code),
      ("redirect_uri", .ofText r.redirect), ("client_id", .str p.clientId)]
    allowPrivate := p.allowPrivate
    createdAt := r.now
    updatedAt := r.now }

def dropState (state : String) (c : Config) : Config :=
  { c with oauthStates := c.oauthStates.filter (·.state ≠ state) }

def addCall (r : TokenRequest) (p : TokenEndpoint) (c : Config) : Config :=
  { c with oauthCalls := c.oauthCalls ++ [exchangeCall r p] }

def exec : TokenLoc → Config → Option (TokenLoc × (Config → Config))
  | lookUp r, c => (c.oauthStates.find? (·.state = r.state)).map fun st =>
      (readProvider r st.providerId, fun c => c)
  | readProvider r id, c => ((c.provider? id).bind endpoint).map fun p =>
      (deleteState r p, fun c => c)
  | deleteState r p, c =>
    some (insertCall r p, if hasState c r.state then dropState r.state else fun c => c)
  | insertCall r p, _ => some (done, addCall r p)
  | done, _ => none

end TokenLoc

def tokenCode : Code Config TokenLoc String where
  entry := TokenLoc.entry
  final := TokenLoc.final
  locks := TokenLoc.locks
  exec := TokenLoc.exec

abbrev TokenServer := Server Config TokenLoc String

/-- Run alone, the statements are the function. -/
theorem tokenCode_alone (c : Config) (now : Time) (state : String) (code redirect : Option String) :
    (tokenCode.alone 5 (.lookUp ⟨c.nextId, now, state, code, redirect⟩) c).map
        (fun d => (d.oauthStates, d.oauthCalls)) =
      (fnOauthTokenRequest now c state code redirect).toOption.map
        fun d => (d.oauthStates, d.oauthCalls) := by
  unfold fnOauthTokenRequest
  cases hst : c.oauthStates.find? (·.state = state) with
  | none => simp [Code.alone, tokenCode, TokenLoc.final, TokenLoc.exec, hst, Except.toOption]
  | some st =>
    have hhas : TokenLoc.hasState c state = true := by
      have hmem := List.mem_of_find?_eq_some hst
      have heq := List.find?_some hst
      exact List.any_eq_true.mpr ⟨st, hmem, heq⟩
    cases hp : c.provider? st.providerId with
    | none => simp [Code.alone, tokenCode, TokenLoc.final, TokenLoc.exec, hst, hp, Except.toOption]
    | some p =>
      have hid : p.providerId = st.providerId := by simpa using List.find?_some hp
      cases hurl : p.oauthTokenUrl with
      | none => simp [Code.alone, tokenCode, TokenLoc.final, TokenLoc.exec, TokenLoc.endpoint, hst, hp,
          hurl, Except.toOption]
      | some url =>
        cases hclient : p.oauthClientId with
        | none => simp [Code.alone, tokenCode, TokenLoc.final, TokenLoc.exec, TokenLoc.endpoint, hst, hp,
            hurl, hclient, Except.toOption]
        | some client =>
          cases hcheck : checkOutboundUrl (some url) p.allowPrivateNetwork with
          | some reason =>
            simp [Code.alone, tokenCode, TokenLoc.final, TokenLoc.exec, TokenLoc.endpoint, hst, hp,
              hurl, hclient, hcheck, refuseUrl, Except.toOption, bind, Except.bind]
          | none =>
            simp [Code.alone, tokenCode, TokenLoc.final, TokenLoc.exec, TokenLoc.endpoint, hst, hp,
              hurl, hclient, hcheck, hhas, hid, refuseUrl, Except.toOption, bind, Except.bind,
              insertOauthCall, TokenLoc.dropState, TokenLoc.addCall, TokenLoc.exchangeCall, pure, Except.pure]

/-- The calls that exchange the code of a state. -/
def exchanges (c : Config) (state : String) : List OauthCall :=
  c.oauthCalls.filter fun r => r.operation = .tokenExchange ∧ r.state = state

/-- No state has two calls, and one that may still be used has none. -/
structure UsedOnce (c : Config) : Prop where
  once : ∀ state, (exchanges c state).length ≤ 1
  unused : ∀ state, TokenLoc.hasState c state = true → exchanges c state = []

/-- The state that a transaction has found and not yet deleted. -/
def TokenLoc.found : TokenLoc → Option String
  | readProvider r _ => some r.state
  | deleteState r _ => some r.state
  | _ => none

/-- A transaction does not use a state up that the other has found. -/
def Unshared (c : Config) (t u : Txn Config TokenLoc) : Prop :=
  ∀ state, u.loc.found = some state → TokenLoc.hasState c state = true →
    TokenLoc.hasState (t.write c) state = true

/-- What there is of a state. -/
def stateView (c : Config) (state : String) : Bool × List OauthCall :=
  (TokenLoc.hasState c state, exchanges c state)

section Outline

variable {c : Config} {H I : String → Prop} {t u : Txn Config TokenLoc} {state : String}

theorem local_dropState (hk : H state) : Local stateView H (TokenLoc.dropState state) := by
  refine local_at (a := state) (g := fun v => (false, v.2)) hk fun c k => ?_
  by_cases hks : k = state
  · subst hks
    simp [stateView, TokenLoc.hasState, exchanges, TokenLoc.dropState]
  · have hany : (c.oauthStates.filter (·.state ≠ state)).any (·.state = k) =
        c.oauthStates.any (·.state = k) := by
      rw [List.any_filter]
      congr 1
      funext st
      by_cases hst : st.state = k <;> simp [hst, hks]
    rw [if_neg hks]
    exact congrArg (·, exchanges c k) hany

theorem local_addCall {r : TokenRequest} {p : TokenEndpoint} (hk : H r.state) :
    Local stateView H (TokenLoc.addCall r p) := by
  refine local_at (a := r.state) (g := fun v => (v.1, v.2 ++ [TokenLoc.exchangeCall r p])) hk
    fun c k => ?_
  by_cases hks : k = r.state
  · subst hks
    simp [stateView, TokenLoc.hasState, exchanges, TokenLoc.addCall, TokenLoc.exchangeCall]
  · rw [if_neg hks]
    simp [stateView, TokenLoc.hasState, exchanges, TokenLoc.addCall, TokenLoc.exchangeCall,
      Ne.symm hks]

/-- What a place says of its state. -/
def TokenLoc.Knows (loc : TokenLoc) (H : String → Prop) (view : Config) : Prop :=
  match loc with
  | readProvider r _ => hasState view r.state = true
  | deleteState r _ => hasState view r.state = true
  | insertCall r _ => H r.state ∧ stateView view r.state = (false, [])
  | _ => True

/-- What holds of a transaction between its statements. -/
structure Exchanging (c : Config) (H : String → Prop) (t : Txn Config TokenLoc) : Prop where
  writes : Local stateView H t.write
  locked : ∀ state, H state → TokenLoc.hasState c state = true
  used : UsedOnce (t.write c)
  knows : t.loc.Knows H (t.write c)

theorem hasState_of_view {d : Config} (h : stateView c state = stateView d state) :
    TokenLoc.hasState c state = TokenLoc.hasState d state :=
  congrArg Prod.fst h

theorem exchanges_of_view {d : Config} (h : stateView c state = stateView d state) :
    exchanges c state = exchanges d state :=
  congrArg Prod.snd h

/-- A state that is found in the view of a transaction is committed. -/
theorem Exchanging.committed (h : Exchanging c H t) (hs : TokenLoc.hasState (t.write c) state = true) :
    TokenLoc.hasState c state = true := by
  by_cases hk : H state
  · exact h.locked state hk
  · rwa [← hasState_of_view (h.writes.same hk)]

/-- A statement that writes nothing. -/
theorem Exchanging.pass (h : Exchanging c H t) {loc : TokenLoc}
    (hs : loc.Knows H (t.write c)) : Exchanging c H ⟨loc, fun c => t.write c⟩ :=
  ⟨h.writes, h.locked, h.used, hs⟩

theorem Exchanging.delete (h : Exchanging c H t) {r : TokenRequest} {p : TokenEndpoint}
    (hs : TokenLoc.hasState (t.write c) r.state = true) :
    Exchanging c (fun k => k ∈ [r.state] ∨ H k)
      ⟨.insertCall r p, fun c => TokenLoc.dropState r.state (t.write c)⟩ := by
  have hk : r.state ∈ [r.state] ∨ H r.state := .inl (by simp)
  have hdel := local_dropState (H := fun k => k ∈ [r.state] ∨ H k) hk
  have hcalls := h.used.unused r.state hs
  refine ⟨hdel.comp (h.writes.weaken fun _ => .inr), fun state hstate => ?_, ⟨h.used.once, ?_⟩,
    hk, ?_⟩
  · rcases hstate with hstate | hstate
    · rw [List.mem_singleton.mp hstate]
      exact h.committed hs
    · exact h.locked state hstate
  · intro state hstate
    refine h.used.unused state ?_
    obtain ⟨st, hst, heq⟩ := List.any_eq_true.mp hstate
    exact List.any_eq_true.mpr ⟨st, (List.mem_filter.mp hst).1, heq⟩
  · refine Prod.ext ?_ hcalls
    simp [stateView, TokenLoc.hasState, TokenLoc.dropState]

theorem Exchanging.insert (h : Exchanging c H t) {r : TokenRequest} {p : TokenEndpoint}
    (hk : H r.state) (hv : stateView (t.write c) r.state = (false, [])) :
    Exchanging c H ⟨.done, fun c => TokenLoc.addCall r p (t.write c)⟩ := by
  have hins := local_addCall (H := H) (r := r) (p := p) hk
  have hself : exchanges (TokenLoc.addCall r p (t.write c)) r.state =
      exchanges (t.write c) r.state ++ [TokenLoc.exchangeCall r p] := by
    simp [exchanges, TokenLoc.addCall, TokenLoc.exchangeCall]
  have hnone : exchanges (t.write c) r.state = [] := congrArg Prod.snd hv
  have hother : ∀ state, state ≠ r.state →
      exchanges (TokenLoc.addCall r p (t.write c)) state = exchanges (t.write c) state := by
    intro state hne
    simp [exchanges, TokenLoc.addCall, TokenLoc.exchangeCall, Ne.symm hne]
  refine ⟨hins.comp h.writes, h.locked, ⟨fun state => ?_, fun state hs => ?_⟩, trivial⟩
  · by_cases hne : state = r.state
    · rw [hne, hself, hnone]
      simp
    · rw [hother state hne]
      exact h.used.once state
  · by_cases hne : state = r.state
    · have hgone : TokenLoc.hasState (t.write c) r.state = false := congrArg Prod.fst hv
      have hs' : TokenLoc.hasState (t.write c) state = true := hs
      rw [hne, hgone] at hs'
      cases hs'
    · rw [hother state hne]
      exact h.used.unused state hs

theorem Exchanging.exec (h : Exchanging c H t) {loc : TokenLoc} {w : Config → Config}
    (he : t.loc.exec (t.write c) = some (loc, w)) :
    Exchanging c (fun k => k ∈ t.loc.locks (t.write c) ∨ H k) ⟨loc, fun c => w (t.write c)⟩ := by
  have hnone : (fun k => k ∈ ([] : List String) ∨ H k) = H := by
    funext k
    simp
  obtain ⟨tloc, twrite⟩ := t
  cases tloc with
  | lookUp r =>
    obtain ⟨st, hst, hpair⟩ := Option.map_eq_some_iff.mp he
    cases hpair
    dsimp only [TokenLoc.locks]
    rw [hnone]
    have heq := List.find?_some hst
    exact h.pass (List.any_eq_true.mpr ⟨st, List.mem_of_find?_eq_some hst, heq⟩)
  | readProvider r id =>
    obtain ⟨p, -, hpair⟩ := Option.map_eq_some_iff.mp he
    cases hpair
    dsimp only [TokenLoc.locks]
    rw [hnone]
    exact h.pass h.knows
  | deleteState r p =>
    have hs : TokenLoc.hasState (twrite c) r.state = true := h.knows
    dsimp only [TokenLoc.exec] at he
    rw [if_pos hs] at he
    cases he
    dsimp only [TokenLoc.locks]
    rw [if_pos hs]
    exact h.delete hs
  | insertCall r p =>
    cases he
    dsimp only [TokenLoc.locks]
    rw [hnone]
    exact h.insert h.knows.1 h.knows.2
  | done => cases he

theorem Exchanging.apart (ht : Exchanging c H t) (hu : Exchanging c I u) (hd : ∀ k, H k → ¬ I k)
    (hfound : Unshared c t u) : Exchanging (t.write c) I u := by
  have hmine : ∀ state, I state → stateView (t.write c) state = stateView c state :=
    fun state hi => ht.writes.same fun hh => hd state hh hi
  have hview : ∀ state, I state →
      stateView (u.write (t.write c)) state = stateView (u.write c) state :=
    fun state hi => hu.writes.congr (hmine state hi)
  have hkeep : ∀ state, u.loc.found = some state → TokenLoc.hasState (u.write c) state = true →
      TokenLoc.hasState (u.write (t.write c)) state = true := by
    intro state hst hs
    by_cases hi : I state
    · rwa [hasState_of_view (hview state hi)]
    · rw [hasState_of_view (hu.writes.same hi)]
      exact hfound state hst (hu.committed hs)
  refine ⟨hu.writes, fun state hi => ?_, ⟨fun state => ?_, fun state hs => ?_⟩, ?_⟩
  · rw [hasState_of_view (hmine state hi)]
    exact hu.locked state hi
  · by_cases hi : I state
    · rw [exchanges_of_view (hview state hi)]
      exact hu.used.once state
    · rw [exchanges_of_view (hu.writes.same hi)]
      exact ht.used.once state
  · by_cases hi : I state
    · rw [exchanges_of_view (hview state hi)]
      exact hu.used.unused state (by rwa [← hasState_of_view (hview state hi)])
    · rw [exchanges_of_view (hu.writes.same hi)]
      exact ht.used.unused state (by rwa [← hasState_of_view (hu.writes.same hi)])
  · obtain ⟨uloc, uwrite⟩ := u
    cases uloc with
    | readProvider r id => exact hkeep r.state rfl hu.knows
    | deleteState r p => exact hkeep r.state rfl hu.knows
    | insertCall r p =>
      obtain ⟨hi, hv⟩ : I r.state ∧ stateView (uwrite c) r.state = (false, []) := hu.knows
      exact ⟨hi, (hview r.state hi).trans hv⟩
    | lookUp r => trivial
    | done => trivial

theorem token_outline : Outline tokenCode Unshared UsedOnce Exchanging where
  fresh {_ _ loc} hc hH hloc := by
    refine ⟨local_of_same fun _ _ => rfl, fun state hk => absurd hk (hH state), hc, ?_⟩
    cases loc with
    | lookUp r => trivial
    | _ => cases hloc
  again {_ _ _ loc} _ ht _ hloc := by
    refine ⟨ht.writes, ht.locked, ht.used, ?_⟩
    cases loc with
    | lookUp r => trivial
    | _ => cases hloc
  exec _ ht _ he := ht.exec he
  commit _ ht _ := ht.used
  apart hq _ ht hu _ hd := ht.apart hu hd hq

end Outline

/-- A state that is used up gets no further call, and does not come back. -/
theorem used_step {s : TokenServer} {e : Event TokenLoc} {state : String}
    (h : Ok UsedOnce Exchanging s) (hs : TokenLoc.hasState s.db state = false) :
    stateView (step tokenCode s e).db state = stateView s.db state := by
  cases e with
  | call i loc =>
    dsimp only [step]
    split <;> rfl
  | exec i =>
    dsimp only [step]
    split
    · rfl
    · split
      · split <;> rfl
      · rfl
  | commit i =>
    dsimp only [step]
    split
    · rfl
    · rename_i t ht
      split
      · refine (h.txns i t ht).writes.same fun hk => ?_
        have := (h.txns i t ht).locked state hk
        rw [hs] at this
        cases this
      · rfl
  | abort i => rfl

/-- In every interleaving in which no commit uses up a state that another callback has
found, a state has at most one call, and none more once it is used up. -/
theorem oauth_state_single_use (c : Config) (es fs : List (Event TokenLoc)) (hc : UsedOnce c)
    (ha : Along (step tokenCode) (Spares tokenCode Unshared) { db := c } (es ++ fs)) (state : String) :
    (exchanges (run (step tokenCode) { db := c } es).db state).length ≤ 1 ∧
      (TokenLoc.hasState (run (step tokenCode) { db := c } es).db state = false →
        exchanges (run (step tokenCode) { db := c } (es ++ fs)).db state =
          exchanges (run (step tokenCode) { db := c } es).db state) := by
  obtain ⟨hes, hfs⟩ := along_append.mp ha
  have hok : Ok UsedOnce Exchanging (run (step tokenCode) { db := c } es) :=
    token_outline.run hc hes
  refine ⟨hok.db.once state, fun hs => ?_⟩
  rw [run_append]
  generalize run (step tokenCode) { db := c } es = s at hok hs hfs
  have hkeep : ∀ s' e, Ok UsedOnce Exchanging s' ∧ stateView s'.db state = stateView s.db state →
      Spares tokenCode Unshared s' e → Ok UsedOnce Exchanging (step tokenCode s' e) ∧
        stateView (step tokenCode s' e).db state = stateView s.db state := by
    intro s' e h he
    have hgone : TokenLoc.hasState s'.db state = false := (hasState_of_view h.2).trans hs
    exact ⟨token_outline.step h.1 he, (used_step h.1 hgone).trans h.2⟩
  exact exchanges_of_view (invariant hkeep ⟨hok, rfl⟩ hfs).2

/-- A provider whose authorization has been sent back with a code. -/
def authorized : Config where
  providers := [{
    providerId := 1
    name := "p"
    kind := .oauth
    baseUrl := "https://a.example"
    oauthTokenUrl := some "https://a.example/t"
    oauthClientId := some "id" }]
  oauthStates := [⟨"s", 1⟩]

theorem authorized_usedOnce : UsedOnce authorized :=
  ⟨fun _ => by simp [exchanges, authorized], fun _ _ => rfl⟩

def callback (id : Uuid) : TokenLoc :=
  .lookUp ⟨id, 1, "s", some "code", none⟩

/-- The second callback arrives before the first is committed. -/
def callbackDuringCallback : List (Event TokenLoc) :=
  [.call 0 (callback 10), .exec 0, .exec 0, .call 1 (callback 11), .exec 0, .exec 0, .commit 0]

theorem second_callback_refused :
    (exchanges (run (step tokenCode) { db := authorized } callbackDuringCallback).db "s").length = 1 ∧
      exchanges (run (step tokenCode) { db := authorized }
          (callbackDuringCallback ++ [.exec 1, .commit 1])).db "s" =
        exchanges (run (step tokenCode) { db := authorized } callbackDuringCallback).db "s" := by
  -- when the first commits, the second has not looked the state up
  have hfirst : Spares tokenCode Unshared
      (run (step tokenCode) { db := authorized } (callbackDuringCallback.take 6)) (.commit 0) := by
    refine spares_beside (j := 1) (P := fun u => u.loc.found = none) (by decide +kernel)
      (fun k hk hk' => live_run_lt (n := 1) (by decide) (by omega)) fun t u _ hplace state hs => ?_
    rw [of_decide_eq_true hplace] at hs
    cases hs
  have halong : Along (step tokenCode) (Spares tokenCode Unshared) { db := authorized }
      (callbackDuringCallback ++ [.exec 1, .commit 1]) :=
    ⟨trivial, trivial, trivial, trivial, trivial, trivial, hfirst, trivial,
      spares_gone (by decide +kernel), trivial⟩
  exact ⟨by decide +kernel, (oauth_state_single_use authorized callbackDuringCallback _ authorized_usedOnce
    halong "s").2 (by decide +kernel)⟩

/-- Two callbacks that have both found the state queue two calls. -/
theorem doubled_callback_queued_twice :
    ¬ ∀ (c : Config) (es fs : List (Event TokenLoc)), UsedOnce c → ∀ state,
      (exchanges (run (step tokenCode) { db := c } es).db state).length ≤ 1 ∧
        (TokenLoc.hasState (run (step tokenCode) { db := c } es).db state = false →
          exchanges (run (step tokenCode) { db := c } (es ++ fs)).db state =
            exchanges (run (step tokenCode) { db := c } es).db state) := by
  intro h
  have htwo := (h authorized [.call 1 (callback 11), .exec 1, .call 0 (callback 10), .exec 0, .exec 0,
    .exec 0, .exec 0, .commit 0, .exec 1, .exec 1, .exec 1, .commit 1] [] authorized_usedOnce "s").1
  exact absurd htwo (by decide +kernel)

end Allgres
