import Allgres.DumpReading
import Allgres.ValidateSql

/-! What an accepted statement can call. The validator judges the names the
analyser reports; the tree decides what they stand for. -/

namespace Allgres

open Raise

theorem analyzeSql_ok {pg : Postgres} {sql : String} {a : Analysis}
    (h : analyzeSql pg sql = .ok a) :
    ∃ statements, pg.rawParser sql = .ok statements ∧
      analyzeDump (rawParseDump statements) = some a := by
  unfold analyzeSql at h
  cases hp : pg.rawParser sql with
  | error e => simp [hp] at h
  | ok statements =>
    refine ⟨statements, rfl, ?_⟩
    cases ha : analyzeDump (rawParseDump statements) with
    | none => simp [hp, ha] at h
    | some b => simpa [hp, ha] using h

/-- What acceptance says: the statement handed on is the one that was parsed,
and every reported name passed its check. -/
theorem fnValidateSql_ok {pg : Postgres} {c : Config} {agentId : Uuid} {sql : Option String}
    {out : String} (h : fnValidateSql pg c agentId sql = .ok out) :
    ∃ a, analyzeSql pg out = .ok a ∧
      (∀ r ∈ a.relations, checkRelation c agentId a.ctes r = .ok ()) ∧
      (∀ f ∈ a.functions, checkFunction c f = .ok ()) := by
  simp only [fnValidateSql, bind_eq_ok] at h
  obtain ⟨_, _, _, _, a, ha, _, hc, cost, _, _, _, hout⟩ := h
  obtain rfl : stripTerminator (btrim (orEmpty sql)) = out := by simpa [pure, Except.pure] using hout
  simp only [checkAnalysis, bind_eq_ok, each_eq_ok] at hc
  obtain ⟨_, _, _, _, _, _, _, _, _, hr, hf⟩ := hc
  exact ⟨a, ha, hr, hf⟩

theorem rawParseDump_eq {statements : Nodes} {a : Analysis}
    (h : analyzeDump (rawParseDump statements) = some a) :
    analyzeDump (Node.list statements).dump = some a := by
  cases statements with
  | nil => simp [rawParseDump, analyzeDump] at h
  | cons x xs => exact h

section Statements

def locationField : Word × Node :=
  (word "location", .atom (word "-1"))

def resTarget (val : Node) : Node :=
  .node (nodeTag "RESTARGET") (.ofList
    [(word "name", .null), (word "indirection", .null), (word "val", val), locationField])

def starTarget : Node :=
  resTarget (.node (nodeTag "COLUMNREF") (.ofList
    [(word "fields", .list (.ofList [.node (nodeTag "A_STAR") .nil])), locationField]))

def constOne : Node :=
  .node (nodeTag "A_CONST") (.ofList [(word "val", .atom (word "1")), locationField])

def relationRef (schemaname : Option String) (relname : String) : Node :=
  .rangeVar (schemaname.map String.toList) relname.toList (.ofList
    [(word "inh", .atom (word "true")), (word "relpersistence", .atom (word "p")),
      (word "alias", .null), locationField])

def rawStmt (stmt : Node) : Nodes :=
  .ofList [.node (nodeTag "RAWSTMT") (.ofList
    [(word "stmt", stmt), (word "stmt_location", .atom (word "-1")),
      (word "stmt_len", .atom (word "0"))])]

/-- A server that knows one statement. -/
def serverFor (sql : String) (statements : Nodes) : Postgres where
  rawParser := fun s => if s = sql then .ok statements else .error "syntax error"
  explain := fun _ _ => .ok 35

end Statements

section Functions

/-- The sandbox role searches no schema but `pg_catalog` for a bare function name. -/
def Resolves (schema : Option String) (name : String) (p : PgProc) : Prop :=
  p.proname = name ∧ p.nspname = schema.getD "pg_catalog"

/-- The name stands for a function, and whichever overload is chosen is an
allowlisted, harmless one of `pg_catalog`. -/
def FunctionPermitted (c : Config) (schema : Option String) (name : String) : Prop :=
  (∃ p ∈ c.pgProc, Resolves schema name p) ∧
    ∀ p ∈ c.pgProc, Resolves schema name p → p.nspname = "pg_catalog" ∧
      p.proname ∈ c.sqlFunctionAllowlist ∧ p.proname ∉ deniedFns ∧
      p.isVolatile = false ∧ p.prosecdef = false

def callPermitted (c : Config) (f : ReadName) : Prop :=
  FunctionPermitted c (f.schema.map String.ofList) (String.ofList f.name)

def FunctionsConfined (c : Config) (statements : Nodes) : Prop :=
  (∀ funcname ∈ (Node.list statements).funcnames, ∀ f, lastNames funcname = some f →
    callPermitted c f) ∧
  ∀ op ∈ (Node.list statements).valueFunctions, FunctionPermitted c none op.keyword

theorem mem_procsNamed {c : Config} {schema : Option String} {name : String} {p : PgProc} :
    p ∈ procsNamed c schema name ↔ p ∈ c.pgProc ∧ Resolves schema name p := by
  simp [procsNamed, Resolves]

theorem lower_of_mem_deniedFns {name : String} (h : name ∈ deniedFns) : lower name = name := by
  have hall : ∀ n ∈ deniedFns, lower n = n := by decide +kernel
  exact hall name h

theorem checkFunction_ok {c : Config} {f : ReadName} (h : checkFunction c f = .ok ()) :
    lower (String.ofList f.name) ∉ deniedFns ∧
      lower (String.ofList f.name) ∈ c.sqlFunctionAllowlist ∧
      (∃ p ∈ c.pgProc, Resolves (f.schema.map String.ofList) (String.ofList f.name) p) ∧
      ∀ p ∈ c.pgProc, Resolves (f.schema.map String.ofList) (String.ofList f.name) p →
        safeProc p = true := by
  simp only [checkFunction] at h
  split at h
  · simp at h
  · next hd =>
    split at h
    · simp at h
    · next ha =>
      split at h
      · simp at h
      · next hn =>
        split at h
        · simp at h
        · next hs =>
          refine ⟨by simpa using hd, by simpa using ha, ?_, ?_⟩
          · obtain ⟨p, hp⟩ := List.exists_mem_of_length_pos (Nat.pos_of_ne_zero hn)
            exact ⟨p, mem_procsNamed.mp hp⟩
          · intro p hp hr
            have hlen := List.length_filter_eq_length_iff.mp (not_not.mp hs)
            exact hlen p (mem_procsNamed.mpr ⟨hp, hr⟩)

/-- Qualifying with another schema is what takes an accepted call out of `pg_catalog`. -/
theorem callPermitted_of_checkFunction {c : Config} {f : ReadName}
    (h : checkFunction c f = .ok ())
    (hs : f.schema = none ∨ f.schema = some "pg_catalog".toList)
    (hl : lower (String.ofList f.name) = String.ofList f.name ∨
      String.ofList f.name ∈ c.sqlFunctionAllowlist) : callPermitted c f := by
  obtain ⟨hd, ha, hex, hsafe⟩ := checkFunction_ok h
  refine ⟨hex, fun p hp hr => ?_⟩
  have hns : p.nspname = "pg_catalog" := by
    rcases hs with hs | hs
    · simpa [hs] using hr.2
    · rw [hr.2, hs]
      rfl
  have hallow : p.proname ∈ c.sqlFunctionAllowlist := by
    rw [hr.1]
    rcases hl with hl | hl
    · rwa [hl] at ha
    · exact hl
  have hdeny : p.proname ∉ deniedFns := by
    rw [hr.1]
    intro hm
    exact hd ((lower_of_mem_deniedFns hm).symm ▸ hm)
  have hsp := hsafe p hp hr
  simp only [safeProc, Bool.and_eq_true, Bool.not_eq_true'] at hsp
  exact ⟨hns, hallow, hdeny, hsp.1, hsp.2⟩

/-- An accepted statement keeps to the allowed functions exactly when its calls
name no schema but `pg_catalog`, the value functions nobody checks pass the same
gates, and so do the calls whose name the analyser cannot read or only finds on
the allowlist in lower case. -/
theorem fnValidateSql_functions_confined_iff {pg : Postgres} {c : Config} {agentId : Uuid}
    {sql : Option String} {out : String} {statements : Nodes}
    (hv : fnValidateSql pg c agentId sql = .ok out)
    (hp : pg.rawParser out = .ok statements) :
    FunctionsConfined c statements ↔
      (∀ funcname ∈ (Node.list statements).funcnames, ∀ f, lastNames funcname = some f →
        (f.schema = none ∨ f.schema = some "pg_catalog".toList) ∧
        (Misquoted funcname → callPermitted c f) ∧
        (lower (String.ofList f.name) = String.ofList f.name ∨
          String.ofList f.name ∈ c.sqlFunctionAllowlist)) ∧
      (∀ op ∈ (Node.list statements).valueFunctions, FunctionPermitted c none op.keyword) := by
  obtain ⟨a, ha, _, hf⟩ := fnValidateSql_ok hv
  obtain ⟨statements', hp', hd⟩ := analyzeSql_ok ha
  obtain rfl : statements = statements' := by
    rw [hp] at hp'
    exact Except.ok.inj hp'
  constructor
  · rintro ⟨hc, ho⟩
    refine ⟨fun funcname hm f hl => ?_, ho⟩
    have hperm := hc funcname hm f hl
    obtain ⟨p, hpm, hr⟩ := hperm.1
    obtain ⟨hns, hallow, _⟩ := hperm.2 p hpm hr
    refine ⟨?_, fun _ => hperm, Or.inr (hr.1 ▸ hallow)⟩
    cases hs : f.schema with
    | none => exact Or.inl rfl
    | some schema =>
      right
      have he : String.ofList schema = "pg_catalog" := by
        rw [← hns, hr.2, hs]
        rfl
      rw [← he]
      simp
  · rintro ⟨hc, ho⟩
    refine ⟨fun funcname hm f hl => ?_, ho⟩
    obtain ⟨hs, hq, hlow⟩ := hc funcname hm f hl
    by_cases hmis : Misquoted funcname
    · exact hq hmis
    · have hrep := analyzeDump_functions (rawParseDump_eq hd) hm hmis hl
      exact callPermitted_of_checkFunction (hf f hrep) hs hlow

section ForeignCall

def callNode (funcname : List String) : Node :=
  .funcCall (funcname.map String.toList) (.ofList
    [(word "args", .list (.ofList [constOne])), (word "agg_order", .null),
      (word "agg_filter", .null), (word "over", .null),
      (word "agg_within_group", .atom (word "false")), (word "agg_star", .atom (word "false")),
      (word "agg_distinct", .atom (word "false")), (word "func_variadic", .atom (word "false")),
      (word "funcformat", .atom (word "0")), locationField])

def foreignSql : String :=
  "SELECT public.sum(1)"

def foreignTree : Nodes :=
  rawStmt (selectStmt [resTarget (callNode ["public", "sum"])] [] none)

def foreignConfig : Config where
  sqlFunctionAllowlist := ["sum"]
  pgProc := [⟨"public", "sum", false, false⟩, ⟨"pg_catalog", "sum", false, false⟩]

/-- A function an extension or a user put into `public` is accepted under the
name of an allowlisted one. -/
theorem fnValidateSql_foreign_call :
    ¬ ∀ (pg : Postgres) (c : Config) (agentId : Uuid) (sql : Option String) (out : String)
      (statements : Nodes), fnValidateSql pg c agentId sql = .ok out →
        pg.rawParser out = .ok statements → FunctionsConfined c statements := by
  intro h
  have hc := h (serverFor foreignSql foreignTree) foreignConfig 1 (some foreignSql) foreignSql
    foreignTree (by decide +kernel) rfl
  have hp := hc.1 ["public".toList, "sum".toList] (by decide) ⟨some "public".toList, "sum".toList⟩
    (by decide)
  have hn := (hp.2 ⟨"public", "sum", false, false⟩ (by decide) ⟨by decide, by decide⟩).1
  exact absurd hn (by decide)

def sumSql : String :=
  "SELECT sum(1)"

def sumTree : Nodes :=
  rawStmt (selectStmt [resTarget (callNode ["sum"])] [] none)

theorem fnValidateSql_sum_confined : FunctionsConfined foreignConfig sumTree := by
  have hv : fnValidateSql (serverFor sumSql sumTree) foreignConfig 1 (some sumSql) =
      .ok sumSql := by decide +kernel
  have hn : (Node.list sumTree).funcnames = [["sum".toList]] := by decide
  have ho : (Node.list sumTree).valueFunctions = [] := by decide
  refine (fnValidateSql_functions_confined_iff hv rfl).mpr ⟨fun funcname hm f hl => ?_, by simp [ho]⟩
  obtain rfl : funcname = ["sum".toList] := by simpa [hn] using hm
  obtain rfl : f = ⟨none, "sum".toList⟩ := (Option.some.inj hl).symm
  exact ⟨Or.inl rfl, fun h => absurd h (by decide), Or.inl (by decide +kernel)⟩

end ForeignCall

end Functions

end Allgres
