import Allgres.CallStates
import Allgres.SweepLife

/-! Which responses a completion can take. The step that a response leads to may raise
without harm; the reading of the response itself is not guarded everywhere, and where it
raises the harvest is rolled back and the call stays in flight. -/

namespace Allgres

open Raise Rows Runs Allgres.Core

section Reading

/-- The flag of a tool result is a boolean, when it is looked at. -/
def flagReads (v : Json) : Bool :=
  v.has "error" || castable castBool (mcpIsError v)

def mcpReads (status : Option Int) (body : Option String) : Bool :=
  !isSuccess status || (body.bind Json.parse).all flagReads

/-- The value is an array of numbers, of texts of numbers, or of nulls. -/
def Json.isVector : Json → Bool
  | .arr xs => xs.all fun x => castable castFloat8 x.asText
  | _ => false

def vectorOf (v : Option Json) : List (Option Float8) :=
  match embeddingField v with
  | some (.arr xs) => xs.map fun x => x.asText.bind castFloat8
  | _ => []

/-- The vector of a search is missing, or it reads and compares with what is stored. -/
def searchReads (pg : Postgres) (stored : Nat → List (List (Option Float8))) (status : Option Int)
    (body : Option String) : Bool :=
  let v := body.bind Json.parse
  !isSuccess status || ((embeddingField v).all Json.isVector &&
    ((vectorOf v).isEmpty || (pg.similarities (stored (vectorOf v).length) (vectorOf v)).isOk))

def storedAgents (c : Config) (requester : Option Uuid) (model : Option String) (dims : Nat) :
    List (List (Option Float8)) :=
  (c.agents.filterMap fun a =>
    if a.isActive ∧ requester.any (fun r => a.agentId ≠ r ∧
        agentHasPermission c r .agent (some a.name)) then
      embedded dims model (·.embedding) (·.embeddingModel) a
    else none).map (·.2)

def storedMemories (now : Time) (c : Config) (requester : Option Uuid) (model : Option String)
    (dims : Nat) : List (List (Option Float8)) :=
  (c.memories.filterMap fun m =>
    if some m.agentId = requester ∧ m.expiresAt.all (now < ·) then
      embedded dims model (·.embedding) (·.embeddingModel) m
    else none).map (·.2)

def storedCapabilities (c : Config) (requester : Option Uuid) (model : Option String)
    (dims : Nat) : List (List (Option Float8)) :=
  (c.capabilities.filterMap fun k =>
    if k.lifecycle = .published ∧ requester.any (capabilityPermitted c · k) then
      embedded dims model (·.embedding) (·.embeddingModel) k
    else none).map (·.2)

/-- The time since the call was selected, in milliseconds, is a four-byte integer. -/
def outcomeReads (now : Time) (db : Db) (q : Call) (o : Outbound) : Bool :=
  (o.procedureFunctionId.bind db.cfg.function?).all fun f =>
    (selectedEvent db q.taskId .function (some f.name)).all (latencyFits now)

/-- A response that the completion of a call can take. -/
def responseReads (pg : Postgres) (now : Time) (db : Db) (q : Call) (o : Outbound)
    (status : Option Int) (body : Option String) : Bool :=
  let requester := requesterOf db q.taskId
  let model := expectedModel db.cfg o
  isAmbiguous o status || match o.kind with
  | .function => outcomeReads now db q o
  | .mcp => mcpReads status body
  | .embedding => searchReads pg (storedAgents db.cfg requester model) status body
  | .capabilitySearch => searchReads pg (storedCapabilities db.cfg requester model) status body
  | .recallMemories => searchReads pg (storedMemories now db.cfg requester model) status body
  | .llm => true

end Reading

section Casts

variable {α β : Type}

theorem isOk_castOrRaise_bind {cast : String → Option α} {type : String} {s : Option String}
    {k : Option α → Except String β} :
    (castOrRaise cast type s >>= k).isOk = (castable cast s && (k (s.bind cast)).isOk) := by
  cases s with
  | none => simp [castOrRaise, castable, bind, Except.bind]
  | some t =>
    cases hc : cast t with
    | none => simp [castOrRaise, castable, hc, bind, Except.bind, Except.isOk, Except.toBool]
    | some v => simp [castOrRaise, castable, hc, bind, Except.bind]

theorem isOk_castOrRaise {cast : String → Option α} {type : String} {s : Option String} :
    (castOrRaise cast type s).isOk = castable cast s := by
  cases s with
  | none => rfl
  | some t => cases hc : cast t <;> simp [castOrRaise, castable, hc, Except.isOk, Except.toBool]

theorem isOk_bind_pure {x : Except String α} {f : α → β} :
    (x >>= fun a => pure (f a)).isOk = x.isOk := by
  cases x <;> rfl

theorem castVector_eq_ok {xs : List Json} (h : xs.all (fun x => castable castFloat8 x.asText) = true) :
    castVector xs = .ok (xs.map fun x => x.asText.bind castFloat8) := by
  induction xs with
  | nil => rfl
  | cons x xs ih =>
    rw [List.all_cons, Bool.and_eq_true] at h
    have hx : castOrRaise castFloat8 "double precision" x.asText =
        .ok (x.asText.bind castFloat8) := by
      have hc := h.1
      unfold castOrRaise
      cases ht : x.asText with
      | none => rfl
      | some t =>
        cases hv : castFloat8 t with
        | none => simp [castable, ht, hv] at hc
        | some v => simp [hv]
    rw [castVector, hx, ih h.2]
    rfl

theorem isOk_castVector (xs : List Json) :
    (castVector xs).isOk = xs.all fun x => castable castFloat8 x.asText := by
  induction xs with
  | nil => rfl
  | cons x xs ih =>
    rw [castVector, isOk_castOrRaise_bind, isOk_bind_pure, ih, List.all_cons]

/-- The vector of a search is read exactly when it is missing or one of numbers. -/
theorem isOk_queryVector (v : Option Json) :
    (queryVector v).isOk = (embeddingField v).all Json.isVector := by
  unfold queryVector
  cases embeddingField v with
  | none => rfl
  | some j =>
    cases j with
    | arr xs => exact isOk_castVector xs
    | _ => rfl

theorem queryVector_eq_ok {v : Option Json} (h : (embeddingField v).all Json.isVector = true) :
    queryVector v = .ok (vectorOf v) := by
  unfold queryVector vectorOf
  cases he : embeddingField v with
  | none => rfl
  | some j =>
    rw [he] at h
    cases j with
    | arr xs => exact castVector_eq_ok h
    | _ => cases h

end Casts

section Kinds

variable {pg : Postgres} {now : Time} {db : Db} {q : Call} {o : Outbound} {status : Option Int}
  {body : Option String}

theorem isOk_withSimilarity {α : Type} (rows : List (α × List (Option Float8)))
    (query : List (Option Float8)) :
    (withSimilarity pg rows query).isOk = (pg.similarities (rows.map (·.2)) query).isOk :=
  isOk_bind_pure

theorem isOk_completeSearch {rank : List (Option Float8) → Except String (Db × Json)}
    {stored : Nat → List (List (Option Float8))}
    (hr : ∀ query, (rank query).isOk = (pg.similarities (stored query.length) query).isOk) :
    (completeSearch db status body rank).isOk = searchReads pg stored status body := by
  unfold completeSearch searchReads
  cases hs : isSuccess status with
  | false => rfl
  | true =>
    simp only [Bool.not_true, Bool.false_eq_true, if_false, Bool.false_or]
    cases hv : (embeddingField (body.bind Json.parse)).all Json.isVector with
    | false =>
      have hq := isOk_queryVector (body.bind Json.parse)
      rw [hv] at hq
      cases hc : queryVector (body.bind Json.parse) with
      | error e => rfl
      | ok v =>
        rw [hc] at hq
        cases hq
    | true =>
      rw [queryVector_eq_ok hv, Bool.true_and]
      generalize vectorOf (body.bind Json.parse) = query
      cases query with
      | nil => rfl
      | cons x xs => exact isOk_bind_pure.trans (hr (x :: xs))

theorem isOk_completeEmbeddingKind :
    (completeEmbeddingKind pg db q o status body).isOk =
      searchReads pg (storedAgents db.cfg (requesterOf db q.taskId) (expectedModel db.cfg o))
        status body := by
  refine isOk_completeSearch fun query => ?_
  rw [isOk_bind_pure]
  unfold rankAgentsByEmbedding storedAgents
  rw [isOk_bind_pure, isOk_withSimilarity]

theorem isOk_completeRecallKind :
    (completeRecallKind pg now db q o status body).isOk =
      searchReads pg (storedMemories now db.cfg (requesterOf db q.taskId) (expectedModel db.cfg o))
        status body := by
  refine isOk_completeSearch fun query => ?_
  rw [isOk_bind_pure]
  unfold rankMemoriesByEmbedding storedMemories
  rw [isOk_bind_pure, isOk_withSimilarity]

/-- The outcome of a search names no function, so it finds no event to mark. -/
theorem markCapabilityOutcome_unnamed (taskId : Uuid) (type : CapabilityType) (succeeded : Bool) :
    markCapabilityOutcome now db taskId type none succeeded = .ok db := by
  have hnone : selectedEvent db taskId type none = none := by
    simp [selectedEvent, sortDesc]
  unfold markCapabilityOutcome
  rw [hnone]

theorem isOk_completeCapabilitySearchKind :
    (completeCapabilitySearchKind pg now db q o status body).isOk =
      searchReads pg (storedCapabilities db.cfg (requesterOf db q.taskId) (expectedModel db.cfg o))
        status body := by
  unfold completeCapabilitySearchKind
  simp only [markCapabilityOutcome_unnamed]
  refine isOk_bind_pure.trans (isOk_completeSearch fun query => ?_)
  unfold rankCapabilitiesByEmbedding storedCapabilities
  rw [isOk_bind_pure, isOk_withSimilarity]

theorem isOk_markCapabilityOutcome (taskId : Uuid) (type : CapabilityType) (name : Option String)
    (succeeded : Bool) :
    (markCapabilityOutcome now db taskId type name succeeded).isOk =
      (selectedEvent db taskId type name).all (latencyFits now) := by
  unfold markCapabilityOutcome
  cases selectedEvent db taskId type name with
  | none => rfl
  | some e =>
    cases hf : latencyFits now e with
    | false => simp [hf, Except.isOk, Except.toBool]
    | true => simp [hf, Except.isOk, Except.toBool]

theorem isOk_completeFunctionKind :
    (completeFunctionKind now db q o status body).isOk = outcomeReads now db q o := by
  unfold completeFunctionKind outcomeReads
  cases o.procedureFunctionId.bind db.cfg.function? with
  | none => rfl
  | some f => exact isOk_bind_pure.trans (isOk_markCapabilityOutcome _ _ _ _)

theorem isOk_mcpPayload (name : Option String) :
    (mcpPayload name status body).isOk = mcpReads status body := by
  unfold mcpPayload mcpReads
  cases isSuccess status with
  | false => rfl
  | true =>
    cases body.bind Json.parse with
    | none => rfl
    | some v =>
      cases he : v.has "error" with
      | true => simp [flagReads, he, Except.isOk, Except.toBool]
      | false =>
        simp only [Bool.not_true, Bool.false_eq_true, if_false, he, Option.all_some, flagReads,
          Bool.false_or]
        exact isOk_bind_pure.trans isOk_castOrRaise

/-- The completion of a call returns exactly on the responses it can read. -/
theorem isOk_harvestOutbound :
    (harvestOutbound pg now db q o status body).isOk = responseReads pg now db q o status body := by
  unfold harvestOutbound responseReads
  cases isAmbiguous o status with
  | true => rfl
  | false =>
    simp only [Bool.false_eq_true, if_false, Bool.false_or]
    refine isOk_bind_pure.trans ?_
    unfold completeKind
    cases o.kind with
    | function => exact isOk_completeFunctionKind
    | mcp => exact isOk_bind_pure.trans (isOk_mcpPayload _)
    | embedding => exact isOk_completeEmbeddingKind
    | capabilitySearch => exact isOk_completeCapabilitySearchKind
    | recallMemories => exact isOk_completeRecallKind
    | llm => rfl

end Kinds

theorem fnCompleteOutbound_held {pg : Postgres} {now : Time} {db : Db} {q : Call} {o : Outbound}
    {status : Option Int} {body : Option String} (hw : db.core.WellFormed) (hq : q ∈ db.calls)
    (hs : q.status = .inFlight) (ho : q.req = .outbound o) :
    fnCompleteOutbound pg now db q.callId status body =
      harvestOutbound pg now db q o status body := by
  have hc : db.call? .outboundCalls q.callId = some q := by
    have := call?_of_mem hw hq
    rwa [ho] at this
  simp [fnCompleteOutbound, hc, hs, ho]

/-- A completion that returns and leaves its call harvested or lost. -/
def Finishes (id : Uuid) (r : Except String (Db × Json)) : Prop :=
  ∃ db' result, r = .ok (db', result) ∧
    Held (fun s => s = .harvested ∨ s = .lost) db'.core id

/-- In every run: the completion of a call that is in flight finishes exactly on the responses
it can read. -/
theorem completion_finishes_iff (pg : Postgres) (c : Config) (es : List Event) (now : Time)
    (q : Call) (o : Outbound) (status : Option Int) (body : Option String) :
    let db := run (step pg) (start c) es
    q ∈ db.calls → q.status = .inFlight → q.req = .outbound o →
      (Finishes q.callId (fnCompleteOutbound pg now db q.callId status body) ↔
        responseReads pg now db q o status body = true) := by
  intro db hq hs ho
  have hw : db.core.WellFormed := wellFormed_run pg es (wellFormed_start c)
  rw [fnCompleteOutbound_held hw hq hs ho, ← isOk_harvestOutbound]
  constructor
  · rintro ⟨db', result, h, -⟩
    rw [h]
    rfl
  · intro h
    obtain ⟨⟨db', result⟩, hr⟩ := exists_of_isOk h
    obtain ⟨lab, hset, -⟩ := harvestOutbound_settled hw hq hs ho hr
    obtain ⟨r, hrm, hid, hover⟩ := over_of_settled hset
    refine ⟨db', result, hr, r, hrm, hid, ?_⟩
    unfold isOver at hover
    revert hover
    cases r.status <;> simp [CallStatus.live]

def searchConfig : Config where
  agents := [{ agentId := 1, name := "clerk" }]
  policies := [{
    agentId := 1
    systemPrompt := "serve"
    llmConfig := .object [("provider", .str "llm"), ("model", .str "m")] }]
  providers := [{ providerId := 3, name := "llm", baseUrl := "https://llm.example" },
    { providerId := 4
      name := "vectors"
      baseUrl := "https://vec.example"
      purpose := .embedding
      embeddingModel := some "e" }]
  nextId := 10

/-- The worker holds the search of an agent. -/
def searchRun : List Event :=
  [⟨1, .createSession 1 (some "go") none none⟩, ⟨2, .dispatch (fun _ => 0) []⟩,
    ⟨3, .claim .outboundCalls none none []⟩, ⟨4, .completeOutbound 3 (some 500) none⟩,
    ⟨5, .submit 2 (.object [("type", .str "llm_response"), ("parsed", .object
      [("action", .str "search_agents"), ("query", .str "refunds")])])⟩,
    ⟨6, .claim .outboundCalls none none []⟩]

def embeddingBody (entry : String) : String :=
  "\x7b\"data\":[\x7b\"embedding\":[" ++ entry ++ "]\x7d]\x7d"

theorem search_in_flight : ∃ q ∈ (run (step bareServer) (start searchConfig) searchRun).calls,
    q.status = .inFlight ∧ (match q.req with
      | .outbound o => decide (o.kind = .embedding)
      | _ => false) = true := by
  decide +kernel

theorem search_held : ∃ q ∈ (run (step bareServer) (start searchConfig) searchRun).calls,
    ∃ o, q.status = .inFlight ∧ q.req = .outbound o ∧ o.kind = .embedding := by
  obtain ⟨q, hq, hs, ho⟩ := search_in_flight
  split at ho
  · rename_i o hreq
    exact ⟨q, hq, o, hs, hreq, of_decide_eq_true ho⟩
  · cases ho

theorem responseReads_embedding {pg : Postgres} {now : Time} {db : Db} {q : Call} {o : Outbound}
    {status : Option Int} {body : Option String} (hk : o.kind = .embedding) :
    responseReads pg now db q o status body =
      searchReads pg (storedAgents db.cfg (requesterOf db q.taskId) (expectedModel db.cfg o))
        status body := by
  simp [responseReads, isAmbiguous, isMutation, hk]

theorem number_read : vectorOf (Json.parse (embeddingBody "0.5")) = [some "0.5"] ∧
    (embeddingField (Json.parse (embeddingBody "0.5"))).all Json.isVector = true := by
  decide +kernel

theorem search_finishes :
    let db := run (step bareServer) (start searchConfig) searchRun
    ∃ q ∈ db.calls, Finishes q.callId
      (fnCompleteOutbound bareServer 7 db q.callId (some 200) (some (embeddingBody "0.5"))) := by
  intro db
  obtain ⟨q, hq, o, hs, ho, hk⟩ := search_held
  refine ⟨q, hq, (completion_finishes_iff bareServer searchConfig searchRun 7 q o _ _ hq hs ho).mpr ?_⟩
  rw [responseReads_embedding hk]
  have hread := number_read
  simp only [searchReads, Option.bind_some, hread.1, hread.2]
  rfl

theorem text_not_read :
    (embeddingField (Json.parse (embeddingBody "\"abc\""))).all Json.isVector = false := by
  decide +kernel

/-- A vector with a text in it: the completion raises and the call stays in flight. -/
theorem search_response_raises :
    ¬ ∀ (pg : Postgres) (c : Config) (es : List Event) (now : Time) (q : Call) (o : Outbound)
      (status : Option Int) (body : Option String),
      let db := run (step pg) (start c) es
      q ∈ db.calls → q.status = .inFlight → q.req = .outbound o →
        Finishes q.callId (fnCompleteOutbound pg now db q.callId status body) := by
  intro h
  obtain ⟨q, hq, o, hs, ho, hk⟩ := search_held
  obtain ⟨db', result, hok, -⟩ := h bareServer searchConfig searchRun 7 q o (some 200)
    (some (embeddingBody "\"abc\"")) hq hs ho
  have hw : (run (step bareServer) (start searchConfig) searchRun).core.WellFormed :=
    wellFormed_run bareServer searchRun (wellFormed_start searchConfig)
  generalize run (step bareServer) (start searchConfig) searchRun = db at hq hok hw
  rw [fnCompleteOutbound_held hw hq hs ho] at hok
  have hread : responseReads bareServer 7 db q o (some 200) (some (embeddingBody "\"abc\"")) = true := by
    rw [← isOk_harvestOutbound, hok]
    rfl
  rw [responseReads_embedding hk] at hread
  simp only [searchReads, Option.bind_some, text_not_read] at hread
  cases hread

end Allgres
