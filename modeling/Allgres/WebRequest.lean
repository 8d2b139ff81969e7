import Allgres.Bytes
import Allgres.Json

/-! A request the web worker has read: its route and headers, and the checks that need nothing but
the request itself. -/

namespace Allgres

structure HttpRequest where
  method : String
  path : String
  headers : List (String × String)
  body : String

structure WebConfig where
  token : String
  mockEnabled : Bool := false

/-- `s.split_once(c)`. -/
def splitOnce (s : String) (c : Char) : Option (String × String) :=
  if c ∈ s.toList then
    some (String.ofList (s.toList.takeWhile (· != c)),
      String.ofList ((s.toList.dropWhile (· != c)).drop 1))
  else none

def stripPrefix (s p : String) : Option String :=
  if p.toList <+: s.toList then some (String.ofList (s.toList.drop p.toList.length)) else none

def eqIgnoreAsciiCase (s t : String) : Bool :=
  s.toList.map Char.toLower = t.toList.map Char.toLower

/-- `s.split(c)`. -/
def splitChar (c : Char) : List Char → List (List Char)
  | [] => [[]]
  | d :: ds =>
    if d = c then [] :: splitChar c ds
    else match splitChar c ds with
      | [] => [[d]]
      | part :: parts => (d :: part) :: parts

def hexByte (b : Bytes.Byte) : Option Nat :=
  let n := b.toNat
  if 48 ≤ n ∧ n ≤ 57 then some (n - 48)
  else if 97 ≤ n ∧ n ≤ 102 then some (n - 87)
  else if 65 ≤ n ∧ n ≤ 70 then some (n - 55)
  else none

/-- `u8::from_str_radix` takes a sign in front. -/
def hexPair (a b : Bytes.Byte) : Option Bytes.Byte :=
  if a.toNat = 43 then (hexByte b).map UInt8.ofNat
  else match hexByte a, hexByte b with
    | some m, some n => some (UInt8.ofNat (16 * m + n))
    | _, _ => none

def percentDecodeBytes : List Bytes.Byte → List Bytes.Byte
  | [] => []
  | b :: rest =>
    if b.toNat = 37 then
      match rest with
      | x :: y :: tail => match hexPair x y with
        | some v => v :: percentDecodeBytes tail
        | none => b :: percentDecodeBytes (x :: y :: tail)
      | rest => b :: percentDecodeBytes rest
    else if b.toNat = 43 then 32 :: percentDecodeBytes rest
    else b :: percentDecodeBytes rest

def percentDecode (s : String) : String :=
  Bytes.toStringLossy (percentDecodeBytes (Bytes.ofString s))

def queryParam (query key : String) : Option String :=
  (((splitChar '&' query.toList).filterMap fun kv => splitOnce (String.ofList kv) '=').find?
    (·.1 = key)).map fun kv => percentDecode kv.2

namespace HttpRequest

def route (r : HttpRequest) : String :=
  String.ofList (r.path.toList.takeWhile (· != '?'))

def query (r : HttpRequest) : String :=
  ((splitOnce r.path '?').map (·.2)).getD ""

def header (r : HttpRequest) (name : String) : Option String :=
  (r.headers.find? fun h => eqIgnoreAsciiCase h.1 name).map (·.2)

/-- The text behind `Bearer ` in the authorization header. -/
def bearerToken (r : HttpRequest) : Option String :=
  (r.header "authorization").bind (stripPrefix · "Bearer ")

def ticket (r : HttpRequest) : Option String :=
  queryParam r.query "ticket"

/-- The account session a request names. -/
def session (r : HttpRequest) : String :=
  (r.header "x-allgres-session").getD ""

end HttpRequest

def eventsRoute : String :=
  "/api/v1/events"

def ticketRoute : String :=
  "/api/v1/events/ticket"

def csrfOk (r : HttpRequest) : Bool :=
  let sameOrigin := match r.header "origin" with
    | none => true
    | some origin =>
      let host := (r.header "host").getD ""
      let originHost := afterScheme origin.toList
      originHost != "" && eqIgnoreAsciiCase originHost host
  sameOrigin && (r.route = eventsRoute || (r.header "x-allgres-client").isSome)
where
  -- `origin.split("://").nth(1)`
  afterScheme : List Char → String
    | [] => ""
    | ':' :: '/' :: '/' :: rest => String.ofList (upToScheme rest)
    | _ :: rest => afterScheme rest
  upToScheme : List Char → List Char
    | [] => []
    | ':' :: '/' :: '/' :: _ => []
    | c :: rest => c :: upToScheme rest

/-- The bearer token of the request is the token of the dashboard. -/
def tokenMatches (cfg : WebConfig) (r : HttpRequest) : Bool :=
  r.bearerToken.any fun t => Bytes.constantTimeEq (Bytes.ofString t) (Bytes.ofString cfg.token)

theorem tokenMatches_iff {cfg : WebConfig} {r : HttpRequest} :
    tokenMatches cfg r = true ↔ r.bearerToken = some cfg.token := by
  unfold tokenMatches
  cases r.bearerToken with
  | none => simp
  | some t =>
    rw [Option.any_some, Bytes.constantTimeEq_iff, Option.some.injEq]
    exact ⟨Bytes.ofString_inj, fun h => h ▸ rfl⟩

/-- The routes before the checks of the API. -/
def openRoutes : List String :=
  ["/healthz", "/mock/models", "/mock/v1/models", "/mock/chat/completions",
    "/mock/slow/chat/completions", "/mock/oauth/token", "/mock/embeddings", "/"]

/-- The request gets to the lockout check. -/
def reachesApi (r : HttpRequest) : Bool :=
  r.method != "OPTIONS" && r.route ∉ openRoutes && (stripPrefix r.route "/api/v1/").isSome && csrfOk r

/-- The routes that write `body["action"]`. -/
def setsAction (r : HttpRequest) : Bool :=
  (r.method = "POST" && r.route ∈ ["/api/v1/agents", "/api/v1/run", "/api/v1/settings/provider"]) ||
    (r.method = "PATCH" && (stripPrefix r.route "/api/v1/agents/").isSome)

/-- Assigning to a field of a value that is neither an object nor null panics. -/
def indexable : Json → Bool
  | .obj _ | .null => true
  | _ => false

/-- `body_json`: a body that is no JSON counts as an empty object. -/
def bodyJson (parse : String → Option Json) (r : HttpRequest) : Json :=
  (parse r.body).getD (.obj [])

def apiPanics (parse : String → Option Json) (r : HttpRequest) : Bool :=
  setsAction r && !indexable (bodyJson parse r)

end Allgres
