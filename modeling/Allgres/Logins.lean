import Allgres.OperatorQueues
import Allgres.Watchdog

/-! The answers to OAuth calls. A login is a token exchange or a poll of a device session that
brings tokens; a refresh renews the stored ones. All of them write the one row of secrets of
their provider, so the system remembers which login each token goes back to. -/

namespace Allgres

open Raise Rows Runs

section Completion

variable (now : Time)

def fnOauthStart (c : Config) (id : Uuid) (state : String) : Except String Config := do
  match c.provider? id with
  | none => .error "provider is not oauth"
  | some p =>
    raiseIf (p.kind ≠ .oauth) "provider is not oauth"
    raiseIf (p.oauthFlow = .deviceCode) "provider uses device-code oauth"
    raiseIf (p.oauthAuthUrl = none ∨ p.oauthClientId = none) "oauth urls / client id missing"
    raiseIf (c.oauthStates.any (·.state = state))
      "duplicate key value violates unique constraint \"oauth_states_pkey\""
    pure { c with oauthStates := c.oauthStates ++ [{ state, providerId := id }] }

def succeeded (status : Option Int) : Bool :=
  status.any fun n => 200 ≤ n && n ≤ 299

def failed (status : Option Int) : Bool :=
  status.any (400 ≤ ·)

/-- `p_body::jsonb`, null where the cast raises. -/
def answer (body : Option String) : Json :=
  (body.bind Json.parse).getD .null

/-- A field of one to nine digits. -/
def secondsField (v : Json) (key : String) : Option Nat :=
  (v.text key).bind fun t =>
    if t.toList ≠ [] ∧ t.length ≤ 9 ∧ t.toList.all Char.isDigit then
      some (Json.digitsToNat t.toList) else none

structure Tokens where
  access : String
  refresh : Option String
  expiresIn : Option Nat

def tokens? (status : Option Int) (body : Option String) : Option Tokens :=
  if succeeded status then
    (nullIfEmpty ((answer body).text "access_token")).map fun access =>
      { access
        refresh := nullIfEmpty ((answer body).text "refresh_token")
        expiresIn := secondsField (answer body) "expires_in" }
  else none

def instructed (v : Json) (d : OauthDeviceSession) : OauthDeviceSession :=
  match nullIfEmpty (v.text "device_code"), nullIfEmpty (v.text "user_code"),
      nullIfEmpty (v.text "verification_uri") with
  | some code, some _, some _ =>
    let interval := min (max ((secondsField v "interval").getD 5) 1) 60
    { d with
      deviceCode := some code
      intervalSeconds := interval
      expiresAt := some (now + (secondsField v "expires_in").getD 900 * 1000)
      nextPollAt := some (now + interval * 1000)
      status := .awaitingUser }
  | _, _, _ => { d with status := .error }

def stillPending (v : Json) : Bool :=
  v.text "error" = some "authorization_pending" || v.text "error" = some "slow_down"

def pollLater (v : Json) (d : OauthDeviceSession) : OauthDeviceSession :=
  let interval := if v.text "error" = some "slow_down" then min (d.intervalSeconds + 5) 60
    else d.intervalSeconds
  if d.status = .awaitingUser then
    { d with
      intervalSeconds := interval
      nextPollAt := some (now + interval * 1000) }
  else d

def refusedStatus (v : Json) : DeviceStatus :=
  if v.text "error" = some "access_denied" then .denied
  else if v.text "error" = some "expired_token" then .expired
  else .error

def onDevice (c : Config) (r : OauthCall) (f : OauthDeviceSession → OauthDeviceSession) : Config :=
  { c with
    oauthDeviceSessions :=
      update (fun d => r.deviceSessionId = some d.sessionId) f c.oauthDeviceSessions }

def harvest (c : Config) (r : OauthCall) : Config :=
  { c with
    oauthCalls := update (·.callId = r.callId)
      (fun k => { k with status := .harvested, updatedAt := now }) c.oauthCalls }

def storeTokens (c : Config) (id : Uuid) (t : Tokens) : Config :=
  upsertSecret c id fun s =>
    { s with
      accessToken := some t.access
      refreshToken := t.refresh.or s.refreshToken
      expiresAt := t.expiresIn.map (now + · * 1000) }

inductive OauthReply where
  | stale (status : CallStatus)
  | deviceAuthorizationReady (sessionId : Option Uuid)
  | pending (reason : Option String)
  | error (status : Option Int)
  | noAccessToken
  | stored (providerId : Uuid)
  deriving DecidableEq

def unanswered (c : Config) (r : OauthCall) (status : Option Int) (v : Json) : Config :=
  if r.operation = .devicePoll ∧ failed status then
    onDevice c r fun d => { d with status := refusedStatus v }
  else if r.operation = .deviceAuthorization then onDevice c r fun d => { d with status := .error }
  else c

def settleOauth (c : Config) (r : OauthCall) (status : Option Int) (body : Option String) :
    Config × OauthReply :=
  let v := answer body
  if r.operation = .deviceAuthorization ∧ succeeded status then
    (harvest now (onDevice c r (instructed now v)) r, .deviceAuthorizationReady r.deviceSessionId)
  else if r.operation = .devicePoll ∧ failed status ∧ stillPending v then
    (harvest now (onDevice c r (pollLater now v)) r, .pending (v.text "error"))
  else if !succeeded status then (harvest now (unanswered c r status v) r, .error status)
  else
    match tokens? status body with
    | none => (harvest now c r, .noAccessToken)
    | some t =>
      let stored := harvest now (storeTokens now c r.providerId t) r
      if r.operation = .devicePoll then
        (onDevice stored r fun d => { d with status := .connected }, .stored r.providerId)
      else (stored, .stored r.providerId)

def fnCompleteOauth (c : Config) (id : Uuid) (status : Option Int) (body : Option String) :
    Except String (Config × OauthReply) :=
  match c.oauthCalls.find? (·.callId = id) with
  | none => .error "fn_complete_oauth: not found"
  | some r =>
    if r.status = .inFlight then .ok (settleOauth now c r status body)
    else .ok (c, .stale r.status)

end Completion

/-- The configuration with the login that each provider's tokens go back to: the last login that
stored any, the login the stored refresh token comes from, and for a claimed call the login whose
refresh token it carries. A login goes by its call. -/
structure Logins where
  cfg : Config
  latest : Uuid → Option Uuid := fun _ => none
  source : Uuid → Option Uuid := fun _ => none
  carried : Uuid → Option Uuid := fun _ => none

inductive LoginOp where
  | setProvider (id : Uuid) (change : ProviderChange)
  | setProviderSecret (id : Uuid) (apiKey : Option String)
  | oauthStart (id : Uuid) (state : String)
  | deviceStart (id : Uuid)
  | tokenRequest (state : String) (code redirect : Option String)
  | maintain
  | claim (limit : Option Int) (locked : List Uuid)
  | complete (id : Uuid) (status : Option Int) (body : Option String)
  | watchdog (seconds : Option Int)

structure LoginEvent where
  now : Time
  op : LoginOp

namespace Logins

variable (s : Logins)

def on (r : Except String Config) : Logins :=
  match r with
  | .ok c => { s with cfg := c }
  | .error _ => s

def claim (now : Time) (limit : Option Int) (locked : List Uuid) : Logins :=
  match queueOauthMaintenance now s.cfg, fnClaimOauth now limit locked s.cfg with
  | .ok queued, .ok (c, _) =>
    let picked := pickedOauth limit locked queued
    { s with
      cfg := c
      carried := fun id => match picked.find? (·.callId = id) with
        | some r => s.source r.providerId
        | none => s.carried id }
  | _, _ => s

def renewed (r : OauthCall) (t : Tokens) : Logins :=
  if r.operation = .refresh then
    { s with
      source := if t.refresh.isSome then Function.update s.source r.providerId (s.carried r.callId)
        else s.source }
  else
    { s with
      latest := Function.update s.latest r.providerId (some r.callId)
      source := if t.refresh.isSome then Function.update s.source r.providerId (some r.callId)
        else s.source }

def complete (now : Time) (id : Uuid) (status : Option Int) (body : Option String) : Logins :=
  match fnCompleteOauth now s.cfg id status body, s.cfg.oauthCalls.find? (·.callId = id),
      tokens? status body with
  | .ok (c, .stored _), some r, some t => { s.renewed r t with cfg := c }
  | .ok (c, _), _, _ => { s with cfg := c }
  | .error _, _, _ => s

end Logins

def loginStep (s : Logins) (e : LoginEvent) : Logins :=
  match e.op with
  | .setProvider id change => s.on (fnSetProvider s.cfg id change)
  | .setProviderSecret id apiKey => s.on (fnSetProviderSecret s.cfg id apiKey)
  | .oauthStart id state => s.on (fnOauthStart s.cfg id state)
  | .deviceStart id => s.on (fnOauthDeviceStart e.now s.cfg id)
  | .tokenRequest state code redirect => s.on (fnOauthTokenRequest e.now s.cfg state code redirect)
  | .maintain => s.on (queueOauthMaintenance e.now s.cfg)
  | .claim limit locked => s.claim e.now limit locked
  | .complete id status body => s.complete e.now id status body
  | .watchdog seconds => s.on (.ok (reclaimOperatorCalls e.now seconds s.cfg))

end Allgres
