import Allgres.CanaryOutcomes
import Allgres.FallbackKey
import Allgres.RuntimeWorker

/-! `fn_llm_complete`: a Procedure's own completion. Its request goes out from the session that
runs the body, but it is the one that a queued call with the same configuration makes, and its
answer is read the same way, redirects apart. -/

namespace Allgres

open Raise PerformHttp RuntimeWorker

section Direct

variable (U : Ureq) (P : Option Pgcrypto) (key : Option String) (c : Config)

def guardedPostJson (url : String) (headers : Option Json) (body : Json) (allowPrivate : Bool) :
    Performed :=
  if !schemeAllowed url then unsent [] "outbound URL scheme not allowed"
  else sendBody U { allowPrivate := allowPrivate } [] ⟨"POST", url, textFields headers, .json body⟩

def hasNul (s : String) : Bool :=
  s.toList.contains (Char.ofNat 0)

/-- What was answered is returned as `jsonb`, which holds no NUL. -/
def nativeLlmHttpSend (url : String) (headers body : Json) (allowPrivate : Bool) :
    Except String (Int × String) :=
  let p := guardedPostJson U url (some headers) body allowPrivate
  if hasNul p.text then .error "unsupported Unicode escape sequence" else .ok (p.status, p.text)

def completionMessages : Json → Except String (List Json)
  | .arr (x :: xs) => .ok (x :: xs)
  | _ => .error "fn_llm_complete: p_messages must be a non-empty array"

/-- The object has the two fields alone; the others are none that `build_llm_http` reads. -/
def completionSpec (messages : List Json) (llmConfig : Json) : LlmSpec where
  taskId := 0
  agentId := 0
  sessionId := 0
  step := 0
  messages := messages
  llmConfig := llmConfig
  procedureFunctionId := none
  procedureId := none
  experimentId := none
  views := []
  functions := []
  maxSteps := 0

def completionHeaders (o : Outbound) : Json :=
  match o.authKind with
  | none => o.requestHeaders
  | some kind => o.requestHeaders.merge
      (credential kind (orEmpty (o.providerId.bind (decryptedProviderSecret P key c))))

def refusedReply (status : Int) (body : String) : Json :=
  .object [("ok", .bool false),
    ("error", .str ("llm http " ++ toString status ++ ": " ++ left body 2000))]

def completionReply (status : Int) (body : String) : Json :=
  if status < 200 ∨ 300 ≤ status then refusedReply status body
  else
    let text := llmTextFromHttp (some body)
    .object [("ok", .bool true), ("content", .ofText text),
      ("parsed", (extractFirstJson text).getD .null)]

def fnLlmComplete (messages llmConfig : Json) : Except String Json := do
  let messages ← completionMessages messages
  let o ← buildLlmHttp c (completionSpec messages (sanitizeLlmConfig llmConfig))
  let answer ← nativeLlmHttpSend U o.url (completionHeaders P key c o) o.requestBody o.allowPrivate
  pure (completionReply answer.1 answer.2)

end Direct

section SameRequest

variable {U : Ureq} {P : Option Pgcrypto} {key : Option String} {c : Config}

/-- Of a turn's specification only the messages and the configuration make the request. -/
theorem buildLlmHttp_completion (spec : LlmSpec) :
    buildLlmHttp c spec = (buildLlmHttp c (completionSpec spec.messages spec.llmConfig)).map
      fun o => { o with
        procedureFunctionId := spec.procedureFunctionId
        procedureId := spec.procedureId
        experimentId := spec.experimentId } := by
  have hbody : ∀ p model, llmBody p model (completionSpec spec.messages spec.llmConfig) =
      llmBody p model spec := fun _ _ => rfl
  have hconfig : (completionSpec spec.messages spec.llmConfig).llmConfig = spec.llmConfig := rfl
  unfold buildLlmHttp
  rw [hconfig]
  split
  · rfl
  · split
    · rfl
    · split
      · rfl
      · dsimp only
        split
        · rfl
        · rw [hbody]
          cases llmBody _ _ spec with
          | error e => rfl
          | ok body => rfl

/-- The request of a turn carries no credential of its own, and goes to a provider. -/
theorem buildLlmHttp_provider {spec : LlmSpec} : Returns (fun o => o.kind = .llm ∧
    o.providerId.isSome = true) (buildLlmHttp c spec) := by
  unfold buildLlmHttp
  split
  · exact returns_error _
  · split
    · exact returns_error _
    · split
      · exact returns_error _
      · dsimp only
        split
        · exact returns_error _
        · exact returns_seq fun _ => returns_pure ⟨rfl, rfl⟩

/-- The key that a claim injects without a fallback key. -/
theorem injectedKey_none (id : Uuid) :
    injectedKey P key c id none = orEmpty (decryptedProviderSecret P key c id) := by
  unfold injectedKey
  cases decryptedProviderSecret P key c id with
  | none => simp [nullIfEmpty, orEmpty]
  | some s =>
    by_cases hs : s = ""
    · by_cases hname : isFallbackName ((c.provider? id).map (·.name)) = true
      · simp [hs, hname, nullIfEmpty, orEmpty]
      · simp [hs, hname, nullIfEmpty, orEmpty]
    · simp [hs, nullIfEmpty, orEmpty]

theorem performHttp_llm {parse : String → Option Json} {callId taskId : Uuid}
    {function : Option String} {url : String} {method : Method} {headers body : Json}
    {allowPrivate : Bool} :
    performHttp U parse (outboundCall
        (.outbound callId taskId .llm function url method headers body allowPrivate)) =
      guardedPostJson U url (some headers) body allowPrivate := by
  have hget : ∀ k, (outboundCall
      (.outbound callId taskId .llm function url method headers body allowPrivate)).get k =
        [("call_id", Json.str (uuidText callId)), ("task_id", .str (uuidText taskId)),
          ("kind", .str (kindText .llm)), ("function", .ofText function), ("url", .str url),
          ("method", .str (Turn.Method.text method)), ("headers", headers), ("body", body),
          ("allow_private", .bool allowPrivate)].lookup k := by
    intro k
    refine Json.get_object ?_ k
    simp only [List.map_cons, List.map_nil]
    decide
  unfold performHttp guardedPostJson textField
  simp [hget, Json.lookup_cons_ite, kindText]

theorem handOutbound_completion {spec : LlmSpec} {o : Outbound} (h : buildLlmHttp c spec = .ok o)
    (q : Call) {parse : String → Option Json} :
    performHttp U parse (outboundCall (handOutbound P key c none { q with req := .outbound o })) =
      guardedPostJson U o.url (some (completionHeaders P key c o)) o.requestBody o.allowPrivate := by
  obtain ⟨hkind, hprov⟩ := buildLlmHttp_provider o h
  obtain ⟨id, hid⟩ := Option.isSome_iff_exists.mp hprov
  have hheaders : injectedHeaders P key c o none = completionHeaders P key c o := by
    unfold injectedHeaders completionHeaders
    cases o.authKind with
    | none => rfl
    | some kind => simp [hid, injectedKey_none]
  simp only [handOutbound, hkind, performHttp_llm, hheaders]

/-- What a queued call comes to, as a reply to a Procedure. -/
def replyOf (payload : Json) : Json :=
  if payload.text "type" = some "llm_response" then
    .object [("ok", .bool true), ("content", (payload.get "content").getD .null),
      ("parsed", (payload.get "parsed").getD .null)]
  else .object [("ok", .bool false), ("error", .ofText (payload.text "message"))]

section Answers

variable {status : Int} (db : Db) (q : Call) (o : Outbound) (body : String)

theorem replyOf_llmPayload : replyOf (llmPayload (some body)) =
    .object [("ok", .bool true), ("content", .ofText (llmTextFromHttp (some body))),
      ("parsed", (extractFirstJson (llmTextFromHttp (some body))).getD .null)] := by
  have hget : ∀ k, (llmPayload (some body)).get k =
      [("type", Json.str "llm_response"), ("content", .ofText (llmTextFromHttp (some body))),
        ("parsed", (extractFirstJson (llmTextFromHttp (some body))).getD .null)].lookup k := by
    intro k
    refine Json.get_object ?_ k
    simp only [List.map_cons, List.map_nil]
    decide
  simp [replyOf, Json.text, hget, Json.lookup_cons_ite, Json.asText]

theorem replyOf_errorPayload (message : String) : replyOf (errorPayload message) =
    .object [("ok", .bool false), ("error", .str message)] := by
  have htype : (errorPayload message).text "type" = some "error" := rfl
  have hmessage : (errorPayload message).text "message" = some message := rfl
  have hne : ¬ (errorPayload message).text "type" = some "llm_response" := by
    rw [htype]
    decide
  rw [replyOf, if_neg hne, hmessage]
  rfl

theorem replyOf_answered (h : 200 ≤ status ∧ status < 400) :
    replyOf (completeLlmKind db q o (some status) (some body)).2 =
      .object [("ok", .bool true), ("content", .ofText (llmTextFromHttp (some body))),
        ("parsed", (extractFirstJson (llmTextFromHttp (some body))).getD .null)] := by
  have hs : llmAnswered (some status) = true := by simp [llmAnswered, h]
  cases hd : completeLlmKind db q o (some status) (some body) with
  | mk d payload => rw [(completeLlmKind_ok hd hs).1, replyOf_llmPayload]

theorem replyOf_refused (h : ¬ (200 ≤ status ∧ status < 400)) :
    replyOf (completeLlmKind db q o (some status) (some body)).2 = refusedReply status body := by
  have hs : llmAnswered (some status) = false := by simpa [llmAnswered] using h
  cases hd : completeLlmKind db q o (some status) (some body) with
  | mk d payload =>
    rw [completeLlmKind_failed hd hs, httpError, replyOf_errorPayload]
    rfl

theorem completionReply_eq (h : ¬ (300 ≤ status ∧ status < 400)) :
    completionReply status body =
      replyOf (completeLlmKind db q o (some status) (some body)).2 := by
  unfold completionReply
  by_cases hok : 200 ≤ status ∧ status < 300
  · rw [if_neg (by omega), replyOf_answered db q o body (by omega)]
  · rw [if_pos (by omega), replyOf_refused db q o body (by omega)]

end Answers

theorem fit_subset (room : Nat) (cs : List Char) : truncateUtf8.fit room cs ⊆ cs := by
  induction cs generalizing room with
  | nil => exact List.Subset.refl _
  | cons c cs ih =>
    rw [truncateUtf8.fit]
    split_ifs
    · exact List.cons_subset_cons c (ih _)
    · exact List.nil_subset _

theorem hasNul_of_sanitized {s : String} (h : sanitized s = s) : hasNul s = false := by
  have hno : Char.ofNat 0 ∉ (sanitized s).toList := by
    intro hmem
    simp only [sanitized, truncateUtf8, String.toList_ofList] at hmem
    have hin := fit_subset _ _ hmem
    simp at hin
  rw [h] at hno
  simpa [hasNul] using hno

section Built

variable (U P key) {x : Json} {xs : List Json} {llmConfig : Json}

theorem fnLlmComplete_unbuilt {e : String}
    (h : buildLlmHttp c (completionSpec (x :: xs) (sanitizeLlmConfig llmConfig)) = .error e) :
    fnLlmComplete U P key c (.arr (x :: xs)) llmConfig = .error e := by
  simp only [fnLlmComplete, completionMessages, bind, Except.bind, h]

theorem fnLlmComplete_built {o : Outbound}
    (h : buildLlmHttp c (completionSpec (x :: xs) (sanitizeLlmConfig llmConfig)) = .ok o) :
    let p := guardedPostJson U o.url (some (completionHeaders P key c o)) o.requestBody
      o.allowPrivate
    fnLlmComplete U P key c (.arr (x :: xs)) llmConfig =
      if hasNul p.text then .error "unsupported Unicode escape sequence"
      else .ok (completionReply p.status p.text) := by
  intro p
  simp only [fnLlmComplete, completionMessages, bind, Except.bind, h, nativeLlmHttpSend]
  by_cases hnul : hasNul p.text = true
  · rw [if_pos hnul, if_pos hnul]
  · rw [if_neg hnul, if_neg hnul]
    rfl

/-- The specification of a turn and that of a completion build the same request, ids apart. -/
theorem buildLlmHttp_turn {spec : LlmSpec} (hmessages : spec.messages = x :: xs)
    (hconfig : spec.llmConfig = sanitizeLlmConfig llmConfig) :
    (∃ e, buildLlmHttp c spec = .error e ∧
      buildLlmHttp c (completionSpec (x :: xs) (sanitizeLlmConfig llmConfig)) = .error e) ∨
    ∃ o o', buildLlmHttp c spec = .ok o ∧
      buildLlmHttp c (completionSpec (x :: xs) (sanitizeLlmConfig llmConfig)) = .ok o' ∧
      o.url = o'.url ∧ o.requestBody = o'.requestBody ∧ o.allowPrivate = o'.allowPrivate ∧
      completionHeaders P key c o = completionHeaders P key c o' := by
  have hbuilt := buildLlmHttp_completion (c := c) spec
  rw [hmessages, hconfig] at hbuilt
  cases hd : buildLlmHttp c (completionSpec (x :: xs) (sanitizeLlmConfig llmConfig)) with
  | error e =>
    rw [hd] at hbuilt
    exact .inl ⟨e, hbuilt, rfl⟩
  | ok o =>
    rw [hd] at hbuilt
    exact .inr ⟨_, o, hbuilt, rfl, rfl, rfl, rfl, rfl⟩

end Built

section Agreement

variable (U : Ureq) (P : Option Pgcrypto) (key : Option String) (db : Db) (q : Call) (o : Outbound)
  (parse : String → Option Json)

/-- The answer to a queued call that is claimed without a fallback key. -/
def queuedAnswer : Performed :=
  performHttp U parse (outboundCall (handOutbound P key db.cfg none { q with req := .outbound o }))

def queuedReply (p : Performed) : Json :=
  replyOf (completeLlmKind db { q with req := .outbound o } o (some p.status)
    (some (sanitized p.text))).2

/-- A completion makes the requests of the queued call, and comes to what the queued call comes to
but for redirects, which only the queued call takes for a success, and for a NUL, which only the
queued call drops. -/
structure SameCompletion (direct : Except String Json) (p : Performed) (reply : Json) : Prop where
  sent : guardedPostJson U o.url (some (completionHeaders P key db.cfg o)) o.requestBody
    o.allowPrivate = p
  nul : hasNul p.text = true → direct = .error "unsupported Unicode escape sequence"
  redirected : sanitized p.text = p.text → 300 ≤ p.status ∧ p.status < 400 →
    direct = .ok (refusedReply p.status p.text) ∧ reply.get "ok" = some (.bool true)
  answered : sanitized p.text = p.text → ¬ (300 ≤ p.status ∧ p.status < 400) → direct = .ok reply

/-- A Procedure's completion against the queued call of a turn with the same messages and the same
configuration: where nothing can be built for the one nothing can for the other. -/
theorem direct_completion_agrees (spec : LlmSpec) (x : Json) (xs : List Json) (llmConfig : Json) :
    let turn := { spec with messages := x :: xs, llmConfig := sanitizeLlmConfig llmConfig }
    let direct := fnLlmComplete U P key db.cfg (.arr (x :: xs)) llmConfig
    match buildLlmHttp db.cfg turn with
    | .error e => direct = .error e
    | .ok o => SameCompletion U P key db o direct (queuedAnswer U P key db q o parse)
        (queuedReply db q o (queuedAnswer U P key db q o parse)) := by
  intro turn direct
  have hturn := buildLlmHttp_turn P key (c := db.cfg) (rfl : turn.messages = x :: xs) rfl
  rcases hturn with ⟨e, hb, hd⟩ | ⟨o, o', hb, hd, hurl, hbody, hprivate, hheaders⟩
  · rw [hb]
    exact fnLlmComplete_unbuilt U P key hd
  · rw [hb]
    have hsent : guardedPostJson U o.url (some (completionHeaders P key db.cfg o)) o.requestBody
        o.allowPrivate = queuedAnswer U P key db q o parse := (handOutbound_completion hb q).symm
    have hdirect := fnLlmComplete_built U P key hd
    dsimp only at hdirect
    rw [← hurl, ← hheaders, ← hbody, ← hprivate, hsent] at hdirect
    have hclean : ∀ p : Performed, sanitized p.text = p.text → ¬ hasNul p.text = true := by
      intro p hp
      rw [hasNul_of_sanitized hp]
      exact Bool.false_ne_true
    refine ⟨hsent, fun hnul => hdirect.trans (if_pos hnul), fun hp hredirect => ⟨?_, ?_⟩,
      fun hp hno => ?_⟩
    · refine (hdirect.trans (if_neg (hclean _ hp))).trans ?_
      rw [completionReply, if_pos (by omega)]
    · rw [queuedReply, hp, replyOf_answered _ _ _ _ (by omega)]
      rfl
    · refine (hdirect.trans (if_neg (hclean _ hp))).trans ?_
      rw [queuedReply, hp, completionReply_eq _ _ _ _ hno]

end Agreement

end SameRequest

end Allgres
