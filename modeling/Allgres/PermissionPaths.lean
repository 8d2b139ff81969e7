import Allgres.Complete
import Allgres.Guard
import Allgres.Machine

/-! The permission checks at submission, at claim and in a search. A submission compares the
name of a procedure with the grants as they are written, the other two in lower case; and a
search looks at the grant of a function alone, where a call also needs it to be callable. -/

namespace Allgres

open Raise Rows

def procedureCall (name : String) (args : Json) : Json :=
  .object [("action", .str "run_procedure"), ("procedure", .str name), ("args", args)]

def functionCall (name : String) (args : Json) : Json :=
  .object [("action", .str "call_function"), ("function", .str name), ("args", args)]

/-- The reason an action was refused for. -/
def refusedFor (x : Except Refusal Step) : Option String :=
  match x with
  | .error r => r.content.text "reason"
  | .ok _ => none

/-- The rows a search ranks: published, comparable with the query and permitted. -/
def searchCandidates (c : Config) (requester : Uuid) (dims : Nat) (model : Option String) :
    List Capability :=
  c.capabilities.filter fun k => k.lifecycle = .published ∧ capabilityPermitted c requester k ∧
    (embedded dims model (·.embedding) (·.embeddingModel) k).isSome

namespace Turn

variable (T : Turn)

def refs : List String :=
  agentPermissionRefs T.cfg T.task.agentId .procedure

/-- An action of the model that uses a capability is taken, for some arguments. -/
def Accepts (k : Capability) : Prop :=
  match k.capabilityType with
  | .function => ∃ args s, T.callFunction (functionCall k.name args) = .ok s
  | .procedure => ∃ args s, T.runProcedure (procedureCall k.name args) = .ok s
  | _ => True

/-- A request of a built-in function goes to a host that is granted. -/
def Reaches (name : String) (args : Json) : Prop :=
  ∃ d url, T.draftCall (some name) args args none = .ok d ∧ d.url = some url ∧
    checkOutboundUrl (some url) (d.connection.any (·.allowPrivateNetwork)) = none ∧
    T.permitted .httpHost (urlHost (some url)) = true

def builtinReady (name : String) : Prop :=
  (name = "http_get" ∨ name = "http_request") ∧ ∃ args, T.Reaches name args

/-- What a granted function has to be for a call. -/
def FunctionReady (name : String) : Prop :=
  match T.cfg.functions.find? (sameName · (some name)) with
  | some f => if f.handler = .plpgsql then f.buildStatus = .built else T.builtinReady name
  | none => T.builtinReady name

/-- What a procedure has to be for a run: active, built from a body, and granted as it is
written. -/
def ProcedureReady (name : String) : Prop :=
  ∃ n p, trimmed (some name) = some n ∧ n ∈ T.refs ∧
    T.cfg.procedures.find? (fun p => p.name = n ∧ p.isActive) = some p ∧
    p.body ≠ none ∧ p.buildStatus = .built

def Ready (k : Capability) : Prop :=
  match k.capabilityType with
  | .function => T.FunctionReady k.name
  | .procedure => T.ProcedureReady k.name
  | _ => True

/-- The three checks of a procedure agree, and what a search finds can be used. -/
structure PathsAgree (pg : Postgres) : Prop where
  claim : ∀ p args, T.cfg.procedure? p.procedureId = some p → p.isActive = true →
    p.buildStatus = .built →
      (refusedFor (T.runProcedure (procedureCall p.name args)) ≠ some "procedure_not_permitted" ↔
        some "procedure_not_permitted" ∉
          requestReasons pg T.cfg T.task.agentId (.procedure p.procedureId T.task.agentId args))
  search : ∀ p args k, T.cfg.procedure? p.procedureId = some p →
    k.capabilityType = .procedure → k.name = p.name →
      (refusedFor (T.runProcedure (procedureCall p.name args)) ≠ some "procedure_not_permitted" ↔
        capabilityPermitted T.cfg T.task.agentId k = true)
  results : ∀ dims model, ∀ k ∈ searchCandidates T.cfg T.task.agentId dims model, T.Accepts k

theorem mem_refs_permitted {name : String} (h : name ∈ T.refs) :
    agentHasPermission T.cfg T.task.agentId .procedure (some name) = true := by
  obtain ⟨p, hp, rfl⟩ := List.mem_map.mp (List.mem_dedup.mp h)
  exact List.any_eq_true.mpr ⟨p, hp, by simp⟩

end Turn

theorem text_procedureCall (name : String) (args : Json) :
    (procedureCall name args).text "procedure" = some name := by
  unfold Json.text procedureCall
  rw [Json.get_object (by simp)]
  rfl

theorem text_functionCall (name : String) (args : Json) :
    (functionCall name args).text "function" = some name := by
  unfold Json.text functionCall
  rw [Json.get_object (by simp)]
  rfl

theorem args_functionCall (name : String) (args : Json) :
    (functionCall name args).get "args" = some args := by
  unfold functionCall
  rw [Json.get_object (by simp)]
  rfl

theorem retry_functionCall (name : String) (args : Json) :
    (functionCall name args).text "retry_of_call_id" = none := by
  unfold Json.text functionCall
  rw [Json.get_object (by simp)]
  rfl

theorem refusedFor_refuse {reason : String} {fields : List (String × Json)}
    (h : "reason" ∉ fields.map (·.1)) : refusedFor (refuse reason fields) = some reason := by
  have hget : (Json.object (("reason", .str reason) :: fields)).get "reason" = some (.str reason) := by
    have hlookup := Json.lookup_setFields h (Json.setField "reason" (.str reason) [])
    rw [Json.lookup_setField, if_pos rfl] at hlookup
    exact hlookup
  unfold refusedFor refuse refusal Json.text
  simp only [hget]
  rfl

namespace Turn

variable (T : Turn)

theorem contains_refs {n : String} :
    (agentPermissionRefs T.cfg T.task.agentId .procedure).contains n = true ↔ n ∈ T.refs := by
  simp [refs]

/-- A submitted procedure passes the check of its name. -/
theorem submits_iff (name : String) (args : Json) :
    refusedFor (T.runProcedure (procedureCall name args)) ≠ some "procedure_not_permitted" ↔
      ∃ n, trimmed (some name) = some n ∧ n ∈ T.refs := by
  unfold runProcedure
  rw [text_procedureCall]
  cases hn : trimmed (some name) with
  | none =>
    simp only [Option.filter_none, ne_eq, reduceCtorEq, false_and, exists_false, iff_false, not_not]
    exact refusedFor_refuse (by simp)
  | some n =>
    by_cases href : n ∈ T.refs
    · have hcontains := T.contains_refs.mpr href
      simp only [Option.filter_some, hcontains, if_true]
      refine iff_of_true ?_ ⟨n, rfl, href⟩
      split
      · rw [refusedFor_refuse (by simp)]
        decide
      · split_ifs
        · rw [refusedFor_refuse (by simp)]
          decide
        · simp [refusedFor]
    · have hcontains : (agentPermissionRefs T.cfg T.task.agentId .procedure).contains n = false :=
        Bool.eq_false_iff.mpr fun h => href (T.contains_refs.mp h)
      simp only [Option.filter_some, hcontains, Bool.false_eq_true, if_false]
      refine iff_of_false ?_ ?_
      · rw [refusedFor_refuse (by simp)]
        simp
      · rintro ⟨m, hm, hmem⟩
        cases hm
        exact href hmem

theorem runProcedure_ready_iff (name : String) :
    (∃ args s, T.runProcedure (procedureCall name args) = .ok s) ↔ T.ProcedureReady name := by
  unfold runProcedure ProcedureReady
  simp only [text_procedureCall]
  constructor
  · rintro ⟨args, s, hs⟩
    split at hs
    · cases hs
    · rename_i n hn
      obtain ⟨hn, href⟩ := Option.filter_eq_some_iff.mp hn
      split at hs
      · cases hs
      · rename_i p hp
        split_ifs at hs with hbuilt
        · cases hs
        · rw [not_or, not_not] at hbuilt
          exact ⟨n, p, hn, T.contains_refs.mp href, hp, hbuilt.1, hbuilt.2⟩
  · rintro ⟨n, p, hn, href, hp, hbody, hbuilt⟩
    have hcontains := T.contains_refs.mpr href
    refine ⟨.object [], ?_⟩
    simp only [hn, Option.filter_some, hcontains, if_true, hp, hbody, hbuilt, ne_eq, not_true_eq_false,
      or_false, if_false]
    exact ⟨_, rfl⟩

theorem operationHeaders_ok (name url : String) (args : Json) (d : Draft) :
    ∃ headers, T.operationHeaders (functionCall name args) url d = .ok headers := by
  unfold operationHeaders
  split_ifs
  · exact ⟨_, rfl⟩
  · rw [retry_functionCall]
    exact ⟨_, rfl⟩

/-- A call of a built-in function is queued when its request reaches a granted host. -/
theorem outgoingCall_iff (name : String) (args : Json) :
    (∃ s, T.outgoingCall (functionCall name args) (some name) args args none = .ok s) ↔
      T.Reaches name args := by
  constructor
  · rintro ⟨s, hs⟩
    obtain ⟨d, url, headers, hd, hu, hc, -, -⟩ := T.outgoingCall_eq_ok (functionCall name args) hs
    refine ⟨d, url, hd, hu, hc, ?_⟩
    by_contra hhost
    rw [Bool.not_eq_true] at hhost
    have hrefused : T.outgoingCall (functionCall name args) (some name) args args none =
        refuse "http_host_not_permitted" [("host", .ofText (urlHost (some url)))] := by
      unfold outgoingCall
      simp only [hd, hu, hc, hhost, bind, Except.bind, and_self, if_true]
      rfl
    rw [hrefused] at hs
    cases hs
  · rintro ⟨d, url, hd, hu, hc, hhost⟩
    obtain ⟨headers, hh⟩ := T.operationHeaders_ok name url args d
    unfold outgoingCall
    simp only [hd, hu, hc, hhost, hh, bind, Except.bind, Bool.true_eq_false, and_false, if_false]
    exact ⟨_, rfl⟩

theorem builtin_of_reaches {name : String} {args : Json} (h : T.Reaches name args) :
    name = "http_get" ∨ name = "http_request" := by
  obtain ⟨d, url, hd, -⟩ := h
  unfold draftCall at hd
  split_ifs at hd with hget hmcp hrequest
  · exact .inl (Option.some.inj hget)
  · cases hd
  · exact .inr (Option.some.inj hrequest)
  · cases hd

theorem builtin_ready_iff (name : String) :
    (∃ args s, T.outgoingCall (functionCall name args) (some name) args args none = .ok s) ↔
      T.builtinReady name := by
  constructor
  · rintro ⟨args, hs⟩
    have hreach := (T.outgoingCall_iff name args).mp hs
    exact ⟨T.builtin_of_reaches hreach, args, hreach⟩
  · rintro ⟨-, args, hreach⟩
    exact ⟨args, (T.outgoingCall_iff name args).mpr hreach⟩

/-- A function that is granted can be called exactly when it is ready. -/
theorem callFunction_ready_iff {name : String} (hperm : T.permitted .function (some name) = true) :
    (∃ args s, T.callFunction (functionCall name args) = .ok s) ↔ T.FunctionReady name := by
  have hcall : ∀ args, T.callFunction (functionCall name args) =
      (match T.cfg.functions.find? (sameName · (some name)) with
        | some f => if f.handler = .plpgsql then T.queueFunction f (some name) args
            else T.outgoingCall (functionCall name args) (some name) args args none
        | none => T.outgoingCall (functionCall name args) (some name) args args none) := by
    intro args
    unfold callFunction resolveFunction
    simp only [text_functionCall, args_functionCall, hperm, if_true, Option.getD_some]
    cases T.cfg.functions.find? (sameName · (some name)) with
    | none => rfl
    | some f =>
      by_cases hf : f.handler = .plpgsql
      · simp only [hf, if_true]
        rfl
      · simp only [hf, if_false]
        rfl
  simp only [hcall]
  unfold FunctionReady
  cases T.cfg.functions.find? (sameName · (some name)) with
  | none => exact T.builtin_ready_iff name
  | some f =>
    by_cases hf : f.handler = .plpgsql
    · simp only [hf, if_true]
      unfold queueFunction
      by_cases hb : f.buildStatus = .built
      · simp [hb]
      · simp [hb, refuse]
    · simp only [hf, if_false]
      exact T.builtin_ready_iff name

theorem accepts_iff_ready {dims : Nat} {model : Option String} {k : Capability}
    (hk : k ∈ searchCandidates T.cfg T.task.agentId dims model) : T.Accepts k ↔ T.Ready k := by
  have hperm : capabilityPermitted T.cfg T.task.agentId k = true := by
    have hcand := (List.mem_filter.mp hk).2
    rw [decide_eq_true_eq] at hcand
    exact hcand.2.1
  unfold Accepts Ready
  unfold capabilityPermitted at hperm
  cases htype : k.capabilityType with
  | function =>
    rw [htype] at hperm
    exact T.callFunction_ready_iff hperm
  | procedure => exact T.runProcedure_ready_iff k.name
  | agent => exact Iff.rfl
  | plan => exact Iff.rfl

/-- The checks agree exactly when every procedure that is granted in some spelling is granted
in its own, and every capability that a search may find is ready to be used. -/
theorem paths_agree_iff (pg : Postgres) (hnames : ∀ p ∈ T.cfg.procedures, trimmed (some p.name) = some p.name) :
    T.PathsAgree pg ↔
      (∀ p, T.cfg.procedure? p.procedureId = some p →
        agentHasPermission T.cfg T.task.agentId .procedure (some p.name) = true → p.name ∈ T.refs) ∧
      ∀ dims model, ∀ k ∈ searchCandidates T.cfg T.task.agentId dims model, T.Ready k := by
  have hsubmits : ∀ p args, T.cfg.procedure? p.procedureId = some p →
      (refusedFor (T.runProcedure (procedureCall p.name args)) ≠ some "procedure_not_permitted" ↔
        p.name ∈ T.refs) := by
    intro p args hp
    rw [T.submits_iff, hnames p (List.mem_of_find?_eq_some hp)]
    simp
  constructor
  · intro h
    refine ⟨fun p hp hperm => ?_, fun dims model k hk => (T.accepts_iff_ready hk).mp (h.results dims model k hk)⟩
    have hk := h.search p (.object [])
      { capabilityId := 0, capabilityType := .procedure, sourceId := some 0, name := p.name, description := "",
        searchDocument := "", metadata := .null, lifecycle := .published, contentHash := "" } hp rfl rfl
    exact (hsubmits p _ hp).mp (hk.mpr hperm)
  · rintro ⟨hspelled, hready⟩
    refine ⟨fun p args hp hactive hbuilt => ?_, fun p args k hp htype hname => ?_,
      fun dims model k hk => (T.accepts_iff_ready hk).mpr (hready dims model k hk)⟩
    · rw [hsubmits p args hp]
      unfold requestReasons
      simp only [hp, Option.any_some, hactive, hbuilt, decide_true, Bool.true_and, reasonIf]
      constructor
      · intro href
        simp [T.mem_refs_permitted href]
      · intro hreason
        by_cases hperm : agentHasPermission T.cfg T.task.agentId .procedure (some p.name) = true
        · exact hspelled p hp hperm
        · simp [hperm] at hreason
    · rw [hsubmits p args hp]
      unfold capabilityPermitted
      rw [htype, hname]
      exact ⟨T.mem_refs_permitted, hspelled p hp⟩

end Turn

theorem mem_topCapabilities {pg : Postgres} {text : Option String}
    {rows : List (Capability × Option Float8)} {r : Capability × Option Float8}
    (h : r ∈ topCapabilities pg text rows) : r ∈ rows := by
  unfold topCapabilities at h
  dsimp only at h
  obtain ⟨x, hx, rfl⟩ := List.mem_map.mp h
  rw [List.mem_insertionSort] at hx
  split_ifs at hx
  · obtain ⟨y, hy, rfl⟩ := List.mem_map.mp hx
    exact (List.mem_insertionSort _).mp (List.mem_of_mem_take hy)
  · have hscored := (List.mem_insertionSort _).mp (List.mem_of_mem_take hx)
    obtain ⟨y, hy, rfl⟩ := List.mem_map.mp hscored
    exact hy

/-- What a search returns is among its candidates. -/
theorem rankCapabilities_candidates {pg : Postgres} {now : Time} {db db' : Db}
    {query : List (Option Float8)} {requester : Uuid} {model text : Option String} {taskId : Uuid} {out : Json}
    (h : rankCapabilitiesByEmbedding pg now db query (some requester) model text taskId = .ok (db', out)) :
    ∃ rows : List (Capability × Option Float8),
      (∀ r ∈ rows, r.1 ∈ searchCandidates db.cfg requester query.length model) ∧
      out = .arr (rows.map fun r => .object [("capability_id", .str (uuidText r.1.capabilityId)),
        ("type", .str r.1.capabilityType.text), ("name", .str r.1.name),
        ("description", .str (left r.1.description 1000)), ("metadata", r.1.metadata),
        ("similarity", similarityJson r.2), ("keyword_match", .bool (keywordHit pg text r.1))]) := by
  unfold rankCapabilitiesByEmbedding at h
  obtain ⟨ranked, hranked, h⟩ := bind_eq_ok.mp h
  obtain ⟨-, hout⟩ := Prod.mk.inj (Except.ok.inj h)
  refine ⟨_, fun r hr => ?_, hout.symm⟩
  obtain ⟨sims, -, hzip⟩ := bind_eq_ok.mp hranked
  obtain rfl := Except.ok.inj hzip
  have hmem := List.of_mem_zip (mem_topCapabilities hr)
  obtain ⟨⟨k, vec⟩, hk, hkr⟩ := List.mem_map.mp hmem.1
  obtain ⟨k', hk', hemb⟩ := List.mem_filterMap.mp hk
  split_ifs at hemb with hcond
  have hsome : (embedded query.length model (·.embedding) (·.embeddingModel) k').isSome = true := by
    rw [hemb]
    rfl
  have hkk : k' = k := by
    unfold embedded at hemb
    split at hemb
    · split_ifs at hemb
      cases hemb
      rfl
    · cases hemb
  subst hkk
  rw [← hkr]
  refine List.mem_filter.mpr ⟨hk', ?_⟩
  rw [decide_eq_true_eq]
  exact ⟨hcond.1, by simpa using hcond.2, hsome⟩

/-- An agent with a grant of a procedure, and the rows a search finds. -/
def granted (ref : String) : Config where
  agents := [{ agentId := 1, name := "worker" }]
  permissions := [⟨1, .procedure, ref⟩, ⟨1, .function, "total"⟩]
  procedures := [{ procedureId := 3, name := "report", content := "report", body := some "BEGIN END" }]
  functions := [{ functionId := 4, name := "total", description := "sum", handler := .plpgsql, body := some "x" }]
  capabilities := [
    { capabilityId := 5
      capabilityType := .procedure
      sourceId := some 3
      name := "report"
      embedding := some [some "1"]
      embeddingModel := some "m" },
    { capabilityId := 6
      capabilityType := .function
      sourceId := some 4
      name := "total"
      embedding := some [some "1"]
      embeddingModel := some "m" }]

def grantedTurn (ref : String) : Turn where
  db := { cfg := granted ref }
  now := 1
  task := { taskId := 9, sessionId := 8, agentId := 1, input := .null }
  agent := { agentId := 1, name := "worker" }
  policy := none

theorem report_runs_everywhere :
    (grantedTurn "report").PathsAgree bareServer ∧
    (searchCandidates (granted "report") 1 1 (some "m")).map (·.name) = ["report", "total"] := by
  have hnames : ∀ p ∈ (grantedTurn "report").cfg.procedures, trimmed (some p.name) = some p.name := by
    decide +kernel
  refine ⟨((grantedTurn "report").paths_agree_iff bareServer hnames).mpr ⟨fun p hp _ => ?_, ?_⟩,
    by decide +kernel⟩
  · have hname : p.name = "report" := by
      have hmem : p ∈ (granted "report").procedures := List.mem_of_find?_eq_some hp
      rw [List.mem_singleton.mp hmem]
    rw [hname]
    decide +kernel
  · intro dims model k hk
    have hmem : k ∈ (granted "report").capabilities := List.mem_of_mem_filter hk
    rcases List.mem_cons.mp hmem with rfl | hmem
    · exact ⟨"report", _, by decide +kernel, by decide +kernel, rfl, by decide, rfl⟩
    · rw [List.mem_singleton.mp hmem]
      have hbuilt : (grantedTurn "report").FunctionReady "total" := by
        have hfind : (grantedTurn "report").cfg.functions.find? (Turn.sameName · (some "total")) =
            some { functionId := 4, name := "total", description := "sum", handler := .plpgsql, body := some "x" } := by
          decide +kernel
        unfold Turn.FunctionReady
        rw [hfind]
        rfl
      exact hbuilt

/-- The grant of the procedure is written with a capital. -/
theorem respelled_procedure_disagrees :
    ¬ ∀ (pg : Postgres) (T : Turn), (∀ p ∈ T.cfg.procedures, trimmed (some p.name) = some p.name) →
      T.PathsAgree pg := by
  intro h
  have hagree := h bareServer (grantedTurn "Report") (by decide +kernel)
  have hrow : ((grantedTurn "Report").cfg.procedure? 3).isSome = true := by decide +kernel
  obtain ⟨p, hp⟩ := Option.isSome_iff_exists.mp hrow
  have hmem : p ∈ (granted "Report").procedures := List.mem_of_find?_eq_some hp
  have hpid : p.procedureId = 3 := by simpa using List.find?_some hp
  have hname : p.name = "report" := by rw [List.mem_singleton.mp hmem]
  rw [← hpid] at hp
  have hsearch := hagree.search p (.object [])
    { capabilityId := 5, capabilityType := .procedure, sourceId := some 3, name := "report" } hp rfl hname.symm
  have hfound := hsearch.mpr (by decide +kernel)
  obtain ⟨n, hn, href⟩ := ((grantedTurn "Report").submits_iff _ _).mp hfound
  rw [hname] at hn
  have hreport : trimmed (some "report") = some "report" := by decide +kernel
  obtain rfl : "report" = n := Option.some.inj (hreport.symm.trans hn)
  exact absurd href (by decide +kernel)

end Allgres
