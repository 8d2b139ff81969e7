import Allgres.WebRequest
import Mathlib.Algebra.Group.Int.Defs

/-! `perform_http`: one outbound call on a pool thread, and the status from which the control plane tells
whether the request may have reached its server. ureq and the servers behind it are a parameter. -/

namespace Allgres.PerformHttp

/-- The body of a response as the server sends it. -/
structure Body where
  bytes : List Bytes.Byte
  broken : Bool

structure Response where
  status : Nat
  valid : 100 ≤ status ∧ status < 1000
  headers : List (String × List Bytes.Byte)
  body : Body

inductive Payload where
  | json (v : Json)
  | form (fields : List (String × String))
  | none

structure Request where
  method : String
  url : String
  headers : List (String × String)
  payload : Payload

/-- What a request is sent for. -/
inductive Purpose where
  | opening
  | notification
  | application
  deriving DecidableEq

structure Exchange where
  purpose : Purpose
  request : Request
  result : Except String Response

/-- What the agent of a call is built with. -/
structure Agent where
  timeoutSeconds : Nat := 45
  httpStatusAsError : Bool := false
  maxRedirects : Nat := 0
  allowPrivate : Bool

/-- The servers answer a request in the light of the earlier ones. -/
structure Ureq where
  exchange : Agent → List Exchange → Request → Except String Response
  readToString : Nat → Body → Except String String

/-- The text is not all there, or longer than the limit. -/
def Body.incomplete (limit : Nat) (b : Body) : Prop :=
  b.broken = true ∨ limit < b.bytes.length

/-- What is documented of ureq's reader. -/
def Ureq.Documented (U : Ureq) : Prop :=
  ∀ limit b, b.incomplete limit → ∃ e, U.readToString limit b = .error e

def maxResponseBytes : Nat :=
  200000

def truncateUtf8 (s : String) (max : Nat) : String :=
  String.ofList (fit max s.toList)
where
  fit (room : Nat) : List Char → List Char
    | [] => []
    | c :: cs => if c.utf8Size ≤ room then c :: fit (room - c.utf8Size) cs else []

namespace Response

def isSuccess (r : Response) : Bool :=
  200 ≤ r.status && r.status < 300

/-- `HeaderValue::to_str`. -/
def headerText (value : List Bytes.Byte) : Option String :=
  if value.all fun b => (32 ≤ b.toNat && b.toNat < 127) || b.toNat = 9 then
    some (String.ofList (value.map fun b => Char.ofNat b.toNat))
  else none

def session (r : Response) : Option String :=
  (r.headers.lookup "mcp-session-id").bind headerText

end Response

/-- Status 0 says that the request was sent and its result is unknown. -/
def Ureq.readResponse (U : Ureq) (r : Response) : Int × String :=
  match U.readToString maxResponseBytes r.body with
  | .ok text => (r.status, text)
  | .error e => (0, "response body unavailable (HTTP " ++ toString r.status ++ "): " ++ e)

/-- What `perform_http` returns, with the requests it has made. -/
structure Performed where
  log : List Exchange
  status : Int
  text : String

/-- Status -1 says that the request was not sent. -/
def unsent (log : List Exchange) (text : String) : Performed where
  log := log
  status := -1
  text := text

section Perform

variable (U : Ureq) (parse : String → Option Json) (agent : Agent)

def attempt (log : List Exchange) (purpose : Purpose) (request : Request) : Exchange where
  purpose := purpose
  request := request
  result := U.exchange agent log request

/-- The request itself, with `Ok(r) => read_response(r)` and `Err(e) => (0, e.to_string())`. -/
def sendBody (log : List Exchange) (request : Request) : Performed :=
  let x := attempt U agent log .application request
  match x.result with
  | .ok r => ⟨log ++ [x], (U.readResponse r).1, (U.readResponse r).2⟩
  | .error e => ⟨log ++ [x], 0, e⟩

def initializeMessage : Json :=
  .obj [("jsonrpc", .str "2.0"), ("id", .str "allgres-initialize"), ("method", .str "initialize"),
    ("params", .obj [("protocolVersion", .str "2025-06-18"), ("capabilities", .obj []),
      ("clientInfo", .obj [("name", .str "allgres"), ("version", .str "0.1.0-alpha.3")])])]

def initializedMessage : Json :=
  .obj [("jsonrpc", .str "2.0"), ("method", .str "notifications/initialized")]

/-- `mcp_request!(session).send_json(message)`. -/
def mcpRequest (url : String) (headers : List (String × String)) (session : Option String) (message : Json) :
    Request where
  method := "POST"
  url := url
  headers := headers ++ (session.map fun s => ("mcp-session-id", s)).toList
  payload := .json message

def initializeValid (answer : Option Json) : Bool :=
  answer.any fun v => (v.get "result").isSome && (v.get "error").isNone

def asI64 : Json → Option Int
  | .num t => t.toInt?.filter fun n => -(2 ^ 63) ≤ n ∧ n < 2 ^ 63
  | _ => none

/-- `pointer("/error/code")`. -/
def errorCode (answer : Option Json) : Option Int :=
  ((answer.bind (·.get "error")).bind (·.get "code")).bind asI64

/-- The `mcp` kind: a handshake in front of the tool call. -/
def performMcp (url : String) (headers : List (String × String)) (body : Json) : Performed :=
  let first := attempt U agent [] .opening (mcpRequest url headers none initializeMessage)
  match first.result with
  | .error e => unsent [first] ("MCP initialize failed: " ++ e)
  | .ok init =>
    let (status, text) := U.readResponse init
    if init.isSuccess then
      if status = 0 then unsent [first] text
      else if !initializeValid (parse text) then
        if errorCode (parse text) = some (-32601) then sendBody U agent [first] (mcpRequest url headers none body)
        else unsent [first] (truncateUtf8 ("MCP initialize failed: " ++ text) maxResponseBytes)
      else
        let second := attempt U agent [first] .notification (mcpRequest url headers init.session initializedMessage)
        match second.result with
        | .ok r =>
          if r.isSuccess then sendBody U agent [first, second] (mcpRequest url headers init.session body)
          else unsent [first, second] "MCP initialized notification rejected"
        | .error e => unsent [first, second] ("MCP initialized notification failed: " ++ e)
    else if status = 0 then unsent [first] text
    else if status = 400 ∨ status = 404 ∨ status = 405 then
      sendBody U agent [first] (mcpRequest url headers none body)
    else unsent [first] (truncateUtf8 ("MCP initialize rejected: " ++ text) maxResponseBytes)

end Perform

/-- `.get(key).and_then(Value::as_str)`. -/
def textField (call : Json) (key : String) : Option String :=
  match call.get key with
  | some (.str s) => some s
  | _ => none

/-- The fields of an object that are texts. -/
def textFields : Option Json → List (String × String)
  | some (.obj fs) => fs.filterMap fun f => match f.2 with
    | .str s => some (f.1, s)
    | _ => none
  | _ => []

/-- The request of the `function` kind; only three methods take a body. -/
def functionRequest (call : Json) (url : String) (headers : List (String × String)) (body : Json) : Request :=
  let method := upper ((textField call "method").getD "GET")
  if method = "POST" ∨ method = "PUT" ∨ method = "PATCH" then ⟨method, url, headers, .json body⟩
  else ⟨if method = "DELETE" then "DELETE" else "GET", url, headers, .none⟩

/-- The form of the `oauth` kind brings its own content type. -/
def oauthRequest (url : String) (headers : List (String × String)) (body : Json) : Request where
  method := "POST"
  url := url
  headers := headers.filter fun h => !eqIgnoreAsciiCase h.1 "content-type"
  payload := .form (textFields (some body))

def schemeAllowed (url : String) : Bool :=
  startsWith (lower url) "http://" || startsWith (lower url) "https://"

def performHttp (U : Ureq) (parse : String → Option Json) (call : Json) : Performed :=
  match textField call "url" with
  | none => unsent [] "missing outbound URL"
  | some url =>
    if !schemeAllowed url then unsent [] "outbound URL scheme not allowed"
    else
      let kind := (textField call "kind").getD "llm"
      let headers := textFields (call.get "headers")
      let body := (call.get "body").getD (.obj [])
      let agent : Agent := { allowPrivate := decide (call.get "allow_private" = some (.bool true)) }
      if kind = "mcp" then performMcp U parse agent url headers body
      else if kind = "function" then sendBody U agent [] (functionRequest call url headers body)
      else if kind = "oauth" then sendBody U agent [] (oauthRequest url headers body)
      else sendBody U agent [] ⟨"POST", url, headers, .json body⟩

/-- The times the application's own request was made. -/
def Performed.sent (p : Performed) : List Exchange :=
  p.log.filter (·.purpose = .application)

/-- How a call can go: nothing but the handshake was sent, or the request followed a handshake whose
answer was read to its end. -/
inductive Course (U : Ureq) : Performed → Prop where
  | unsent (log : List Exchange) (text : String) (hhand : ∀ x ∈ log, x.purpose ≠ .application) :
      Course U (unsent log text)
  | sent (agent : Agent) (log : List Exchange) (request : Request) (hhand : ∀ x ∈ log, x.purpose ≠ .application)
      (hread : ∀ x ∈ log, x.purpose = .opening → ∃ r text, x.result = .ok r ∧
        U.readToString maxResponseBytes r.body = .ok text) : Course U (sendBody U agent log request)

section Classification

variable {U : Ureq}

theorem read_of_status_ne {r : Response} (h : (U.readResponse r).1 ≠ 0) :
    ∃ text, U.readToString maxResponseBytes r.body = .ok text := by
  unfold Ureq.readResponse at h
  split at h
  · exact ⟨_, by assumption⟩
  · exact absurd rfl h

theorem performMcp_course (parse : String → Option Json) (agent : Agent) (url : String)
    (headers : List (String × String)) (body : Json) : Course U (performMcp U parse agent url headers body) := by
  unfold performMcp
  dsimp only
  have hpurpose : ∀ log p q, (attempt U agent log p q).purpose = p := fun _ _ _ => rfl
  split
  · exact .unsent _ _ (by simp [hpurpose])
  · rename_i init hinit
    have hread : (U.readResponse init).1 ≠ 0 → ∃ r text,
        (attempt U agent [] .opening (mcpRequest url headers none initializeMessage)).result = .ok r ∧
          U.readToString maxResponseBytes r.body = .ok text := by
      intro hstatus
      obtain ⟨text, htext⟩ := read_of_status_ne hstatus
      exact ⟨init, text, hinit, htext⟩
    split
    · split
      · exact .unsent _ _ (by simp [hpurpose])
      · rename_i hstatus
        split
        · split
          · exact .sent _ _ _ (by simp [hpurpose]) (by simpa [hpurpose] using hread hstatus)
          · exact .unsent _ _ (by simp [hpurpose])
        · split
          · split
            · exact .sent _ _ _ (by simp [hpurpose]) (by simpa [hpurpose] using hread hstatus)
            · exact .unsent _ _ (by simp [hpurpose])
          · exact .unsent _ _ (by simp [hpurpose])
    · split
      · exact .unsent _ _ (by simp [hpurpose])
      · rename_i hstatus
        split
        · exact .sent _ _ _ (by simp [hpurpose]) (by simpa [hpurpose] using hread hstatus)
        · exact .unsent _ _ (by simp [hpurpose])

theorem performHttp_course (parse : String → Option Json) (call : Json) : Course U (performHttp U parse call) := by
  have hplain : ∀ agent request, Course U (sendBody U agent [] request) :=
    fun agent request => .sent agent [] request (by simp) (by simp)
  unfold performHttp
  split
  · exact .unsent [] _ (by simp)
  · split
    · exact .unsent [] _ (by simp)
    · dsimp only
      split
      · exact performMcp_course _ _ _ _ _
      · split
        · exact hplain _ _
        · split
          · exact hplain _ _
          · exact hplain _ _

theorem filter_handshake {log : List Exchange} (h : ∀ x ∈ log, x.purpose ≠ .application) :
    log.filter (·.purpose = .application) = [] := by
  simpa [List.filter_eq_nil_iff] using h

/-- The request is made once, and the status is that of its response, or 0 when the response is unknown. -/
theorem sendBody_spec (agent : Agent) {log : List Exchange} (request : Request)
    (hhand : ∀ x ∈ log, x.purpose ≠ .application) :
    (sendBody U agent log request).log = log ++ [attempt U agent log .application request] ∧
      (sendBody U agent log request).sent = [attempt U agent log .application request] ∧
      ((sendBody U agent log request).status = 0 ∨
        ∃ r text, (attempt U agent log .application request).result = .ok r ∧
          U.readToString maxResponseBytes r.body = .ok text ∧ (sendBody U agent log request).status = r.status) := by
  have hlog : (sendBody U agent log request).log = log ++ [attempt U agent log .application request] := by
    unfold sendBody
    dsimp only
    split <;> rfl
  refine ⟨hlog, ?_, ?_⟩
  · unfold Performed.sent
    rw [hlog, List.filter_append, filter_handshake hhand]
    simp [attempt]
  · unfold sendBody
    dsimp only
    split
    · rename_i r hr
      unfold Ureq.readResponse
      cases hread : U.readToString maxResponseBytes r.body with
      | ok text => exact .inr ⟨r, text, hr, hread, rfl⟩
      | error e => exact .inl rfl
    · exact .inl rfl

/-- Whatever the servers do: status -1 says that the application's request was not sent, it is sent once
at most, its status is 0 or that of its response, and an incomplete body that is read at all never ends
in a success. -/
theorem performHttp_classified (hU : U.Documented) (parse : String → Option Json) (call : Json) :
    ((performHttp U parse call).status = -1 → (performHttp U parse call).sent = []) ∧
      (performHttp U parse call).sent.length ≤ 1 ∧
      (∀ x ∈ (performHttp U parse call).sent, (performHttp U parse call).status = 0 ∨
        ∃ r, x.result = .ok r ∧ (performHttp U parse call).status = r.status) ∧
      ∀ x ∈ (performHttp U parse call).log, x.purpose ≠ .notification → ∀ r, x.result = .ok r →
        r.body.incomplete maxResponseBytes → (performHttp U parse call).status ≤ 0 := by
  have hcourse := performHttp_course (U := U) parse call
  generalize performHttp U parse call = p at hcourse
  cases hcourse with
  | unsent log text hhand =>
    have hnone : (unsent log text).sent = [] := filter_handshake hhand
    refine ⟨fun _ => hnone, by simp [hnone], by simp [hnone], ?_⟩
    intro x _ _ r _ _
    show (-1 : Int) ≤ 0
    decide
  | sent agent log request hhand hread =>
    obtain ⟨hlog, hsent, hstatus⟩ := sendBody_spec (U := U) agent request hhand
    refine ⟨?_, by simp [hsent], ?_, ?_⟩
    · intro hminus
      rcases hstatus with h | ⟨r, text, -, -, h⟩ <;> omega
    · intro x hx
      rw [hsent, List.mem_singleton] at hx
      subst hx
      rcases hstatus with h | ⟨r, text, hr, -, h⟩
      · exact .inl h
      · exact .inr ⟨r, hr, h⟩
    · intro x hx hpurpose r hr hcut
      obtain ⟨e, he⟩ := hU maxResponseBytes r.body hcut
      rw [hlog, List.mem_append, List.mem_singleton] at hx
      rcases hx with hx | rfl
      · have hinit : x.purpose = .opening := by
          cases hp : x.purpose with
          | opening => rfl
          | notification => exact absurd hp hpurpose
          | application => exact absurd hp (hhand x hx)
        obtain ⟨s, text, hs, htext⟩ := hread x hx hinit
        rw [hr] at hs
        cases hs
        rw [he] at htext
        cases htext
      · rcases hstatus with h | ⟨s, text, hs, htext, -⟩
        · omega
        · rw [hr] at hs
          cases hs
          rw [he] at htext
          cases htext

end Classification

/-- A server that knows no handshake but answers the call itself. -/
def bareServer : Ureq where
  exchange _ log _ := .ok
    { status := if log.isEmpty then 405 else 200
      valid := by split <;> decide
      headers := []
      body := ⟨[111, 107], false⟩ }
  readToString limit b :=
    if b.broken = true ∨ limit < b.bytes.length then .error "body unavailable"
    else match Bytes.fromUtf8 b.bytes with
      | some text => .ok text
      | none => .error "stream did not contain valid UTF-8"

theorem bareServer_documented : bareServer.Documented :=
  fun _ _ h => ⟨"body unavailable", if_pos h⟩

def toolCall : Json :=
  .obj [("kind", .str "mcp"), ("url", .str "https://tools.example/mcp"), ("body", .obj [("method", .str "tools/call")])]

example : (performHttp bareServer (fun _ => none) toolCall).status = 200 := by decide

theorem bareServer_classified :
    ((performHttp bareServer (fun _ => none) toolCall).status = -1 →
        (performHttp bareServer (fun _ => none) toolCall).sent = []) ∧
      (performHttp bareServer (fun _ => none) toolCall).sent.length ≤ 1 ∧
      (∀ x ∈ (performHttp bareServer (fun _ => none) toolCall).sent,
        (performHttp bareServer (fun _ => none) toolCall).status = 0 ∨
          ∃ r, x.result = .ok r ∧ (performHttp bareServer (fun _ => none) toolCall).status = r.status) ∧
      ∀ x ∈ (performHttp bareServer (fun _ => none) toolCall).log, x.purpose ≠ .notification → ∀ r, x.result = .ok r →
        r.body.incomplete maxResponseBytes → (performHttp bareServer (fun _ => none) toolCall).status ≤ 0 :=
  performHttp_classified bareServer_documented (fun _ => none) toolCall

end Allgres.PerformHttp
