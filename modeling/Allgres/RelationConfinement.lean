import Allgres.DumpDecoding

/-! What the relations of an accepted statement can be. The validator judges every relation
under the name it is read back with; the tree decides which name it has and which common
table expressions cover it. -/

namespace Allgres

section References

theorem Nodes.references_strings {scope : List Chars} {xs : Nodes} {ss : List Chars}
    (h : xs.strings = some ss) : xs.references scope = [] := by
  induction ss generalizing xs with
  | nil =>
    cases xs with
    | nil => rfl
    | cons x xs => cases x <;> simp [Nodes.strings] at h
  | cons s ss ih =>
    cases xs with
    | nil => rfl
    | cons x xs =>
      cases x with
      | str u =>
        obtain ⟨us, hus, he⟩ := Option.map_eq_some_iff.mp h
        obtain ⟨-, rfl⟩ := List.cons.inj he
        rw [Nodes.references, ih hus]
        rfl
      | null | atom | token | list | rangeVar | funcCall | sqlValueFunction | withStmt | node =>
        simp [Nodes.strings] at h

/-- The name of a function has no relations in it. -/
theorem Node.references_strings {scope : List Chars} {n : Node} {ss : List Chars}
    (h : n.strings = some ss) : n.references scope = [] := by
  cases n with
  | list xs => exact Nodes.references_strings h
  | null | atom | token | str | rangeVar | funcCall | sqlValueFunction | withStmt | node =>
    simp [Node.strings] at h

mutual

/-- Every reference is one of the names of the tree. -/
theorem Node.references_named : ∀ (n : Node) (scope : List Chars), ∀ r ∈ n.references scope,
    Named.relation r.schemaname r.relname ∈ n.named
  | .null, _ => by simp [Node.references]
  | .atom _, _ => by simp [Node.references]
  | .token _, _ => by simp [Node.references]
  | .str _, _ => by simp [Node.references]
  | .list xs, scope => xs.references_named scope
  | .rangeVar _ _ rest, scope => by
    intro r hr
    rw [Node.references, List.mem_cons] at hr
    rcases hr with rfl | hr
    · exact List.mem_cons_self
    · exact List.mem_cons_of_mem _ (rest.references_named scope r hr)
  | .funcCall _ rest, scope => fun r hr => List.mem_cons_of_mem _ (rest.references_named scope r hr)
  | .sqlValueFunction _ rest, scope => rest.references_named scope
  | .withStmt _ before ctes _ _ after, scope => by
    intro r hr
    rw [Node.references, List.mem_append, List.mem_append] at hr
    rw [Node.named, List.mem_append, List.mem_append]
    rcases hr with hr | hr | hr
    · exact Or.inl (before.references_named _ r hr)
    · exact Or.inr (Or.inl (ctes.references_named _ r hr))
    · exact Or.inr (Or.inr (after.references_named _ r hr))
  | .node _ fields, scope => fields.references_named scope

theorem Nodes.references_named : ∀ (xs : Nodes) (scope : List Chars), ∀ r ∈ xs.references scope,
    Named.relation r.schemaname r.relname ∈ xs.named
  | .nil, _ => by simp [Nodes.references]
  | .cons x xs, scope => by
    intro r hr
    rw [Nodes.references, List.mem_append] at hr
    rw [Nodes.named, List.mem_append]
    rcases hr with hr | hr
    · exact Or.inl (x.references_named scope r hr)
    · exact Or.inr (xs.references_named scope r hr)

theorem Fields.references_named : ∀ (fs : Fields) (scope : List Chars), ∀ r ∈ fs.references scope,
    Named.relation r.schemaname r.relname ∈ fs.named
  | .nil, _ => by simp [Fields.references]
  | .flag _ tail, scope => tail.references_named scope
  | .cons label value tail, scope => by
    intro r hr
    rw [Fields.references, List.mem_append] at hr
    rw [Fields.named, List.mem_append]
    rcases hr with hr | hr
    · left
      have hvalue := value.references_named scope r hr
      by_cases hl : label.chars = "funcname".toList
      · rw [if_pos hl]
        cases hs : value.strings with
        | none => exact hvalue
        | some ss =>
          rw [Node.references_strings hs] at hr
          exact absurd hr List.not_mem_nil
      · rwa [if_neg hl]
    · exact Or.inr (tail.references_named scope r hr)

theorem Ctes.references_named : ∀ (cs : Ctes) (scope : List Chars), ∀ r ∈ cs.references scope,
    Named.relation r.schemaname r.relname ∈ cs.named
  | .nil, _ => by simp [Ctes.references]
  | .cons ctename rest tail, scope => by
    intro r hr
    rw [Ctes.references, List.mem_append] at hr
    rw [Ctes.named]
    rcases hr with hr | hr
    · exact List.mem_cons_of_mem _ (List.mem_append_left _ (rest.references_named scope r hr))
    · exact List.mem_cons_of_mem _ (List.mem_append_right _ (tail.references_named (ctename :: scope) r hr))

end

end References

section Readings

/-- A qualified name whose spelling is not read back: `read_token` stops inside one of its
parts, or its schema ends like the label of the next field. -/
def Misread (schemaname : Option Chars) (relname : Chars) : Prop :=
  schemaname.map cut ≠ schemaname ∨ hidesRelname schemaname = true ∨ cut relname ≠ relname

instance (schemaname : Option Chars) (relname : Chars) : Decidable (Misread schemaname relname) :=
  inferInstanceAs (Decidable (_ ∨ _ ∨ _))

/-- The reference under the name it is read back with. -/
def Reference.asRead (r : Reference) : Reference :=
  ⟨r.schemaname.map cut, if hidesRelname r.schemaname then ':' :: "relname".toList else cut r.relname, r.scope⟩

theorem Reference.asRead_eq {r : Reference} (h : ¬ Misread r.schemaname r.relname) : r.asRead = r := by
  obtain ⟨hs, hh, hr⟩ : r.schemaname.map cut = r.schemaname ∧ ¬ hidesRelname r.schemaname = true ∧
      cut r.relname = r.relname := by simpa [Misread] using h
  rw [Reference.asRead, if_neg hh, hs, hr]

variable {t : ParseTree} {a : Analysis}

/-- What the names of the common table expressions are read back as, wherever in the
statement these stand, and what stands behind a text that ends like their label. -/
def ParseTree.cteSpellings (t : ParseTree) : List Chars :=
  t.statements.named.filterMap Named.readCte? ++
    (strays (':' :: "ctename".toList) t.printed).filterMap readItem

theorem reported_relation (ha : analyzeDump (rawParseDump t.statements) = some a) {r : Reference}
    (hr : r ∈ (Node.list t.statements).references []) :
    ⟨r.asRead.schemaname, r.asRead.relname⟩ ∈ a.relations := by
  have hp : Printed t.printed := (t.items_lays _).1
  obtain rfl : a = itemAnalysis t.printed := Option.some.inj (ha.symm.trans (t.analyzeDump_eq _))
  refine (behind_perm relations_item hp).mem_iff.mpr (List.mem_append_left _ ?_)
  rw [ParseTree.printed, t.namedItems_eq]
  exact List.mem_filterMap.mpr ⟨_, (Node.list t.statements).references_named [] r hr, rfl⟩

theorem reported_ctes (ha : analyzeDump (rawParseDump t.statements) = some a) {s : Chars} :
    s ∈ a.ctes ↔ s ∈ t.cteSpellings := by
  have hp : Printed t.printed := (t.items_lays _).1
  obtain rfl : a = itemAnalysis t.printed := Option.some.inj (ha.symm.trans (t.analyzeDump_eq _))
  have hctes := (behind_perm ctes_item hp).mem_iff (a := s)
  rw [ParseTree.cteSpellings]
  rwa [ParseTree.printed, t.namedItems_eq] at hctes

end Readings

section Confinement

theorem checkRelation_unqualified {c : Config} {agentId : Uuid} {ctes : List Chars} {name : Chars}
    (h : checkRelation c agentId ctes ⟨none, name⟩ = .ok ()) : name ∈ ctes := by
  simp only [checkRelation] at h
  split at h
  · assumption
  · simp at h

theorem checkRelation_qualified {c : Config} {agentId : Uuid} {ctes : List Chars} {schema name : Chars}
    (h : checkRelation c agentId ctes ⟨some schema, name⟩ = .ok ()) :
    reservedSchema schema = false ∧ qualifiedName schema name ∈ c.sqlSandboxAllowlist ∧
      agentHasPermission c agentId .view (some (qualifiedName schema name)) = true := by
  simp only [checkRelation] at h
  split at h
  · simp at h
  · next hr =>
    split at h
    · next hv =>
      simp only [viewAllowed, Bool.and_eq_true, List.contains_iff_mem] at hv
      exact ⟨by simpa using hr, hv.1, hv.2⟩
    · simp at h

/-- The reference lies in the scope of a CTE of its name. -/
def BoundByCte (r : Reference) : Prop :=
  r.schemaname = none ∧ r.relname ∈ r.scope

/-- Qualified, outside the reserved schemas, allowlisted and granted as a view. -/
def RelationPermitted (c : Config) (agentId : Uuid) (r : Reference) : Prop :=
  ∃ schema, r.schemaname = some schema ∧ reservedSchema schema = false ∧
    qualifiedName schema r.relname ∈ c.sqlSandboxAllowlist ∧
    agentHasPermission c agentId .view (some (qualifiedName schema r.relname)) = true

def RelationsConfined (c : Config) (agentId : Uuid) (statements : Nodes) : Prop :=
  ∀ r ∈ (Node.list statements).references [], BoundByCte r ∨ RelationPermitted c agentId r

/-- No unqualified name that is spelled like a CTE of the statement stands outside that CTE's scope. -/
def ParseTree.ScopesKept (t : ParseTree) : Prop :=
  ∀ r ∈ (Node.list t.statements).references [], r.schemaname = none →
    cut r.relname ∈ t.cteSpellings → r.relname ∈ r.scope

/-- No qualified name is permitted only as it is misread. -/
def ReadingsPermitted (c : Config) (agentId : Uuid) (t : ParseTree) : Prop :=
  ∀ r ∈ (Node.list t.statements).references [], r.schemaname ≠ none → Misread r.schemaname r.relname →
    RelationPermitted c agentId r.asRead → RelationPermitted c agentId r

/-- An accepted statement is confined exactly when no unqualified name in it is a CTE's by its
spelling alone, and no misread name is permitted by what it is misread as. -/
theorem fnValidateSql_relations_confined_iff {pg : Postgres} {c : Config} {agentId : Uuid} {sql : Option String}
    {out : String} {t : ParseTree} (hv : fnValidateSql pg c agentId sql = .ok out)
    (hp : pg.rawParser out = .ok t.statements) :
    RelationsConfined c agentId t.statements ↔ t.ScopesKept ∧ ReadingsPermitted c agentId t := by
  obtain ⟨a, ha, hr, _⟩ := fnValidateSql_ok hv
  obtain ⟨statements, hp', hd⟩ := analyzeSql_ok ha
  obtain rfl : t.statements = statements := Except.ok.inj (hp.symm.trans hp')
  constructor
  · intro hc
    refine ⟨fun r hm hn _ => ?_, fun r hm hq _ _ => ?_⟩
    · rcases hc r hm with hb | ⟨schema, hs, _⟩
      · exact hb.2
      · exact absurd (hn.symm.trans hs) (Option.some_ne_none schema).symm
    · exact (hc r hm).resolve_left fun hb => hq hb.1
  · rintro ⟨hscopes, hreadings⟩ r hm
    have hok := hr _ (reported_relation hd hm)
    cases hs : r.schemaname with
    | none =>
      have hread : r.asRead = ⟨none, cut r.relname, r.scope⟩ := by
        rw [Reference.asRead, hs]
        rfl
      rw [hread] at hok
      have hcte := (reported_ctes hd).mp (checkRelation_unqualified hok)
      exact Or.inl ⟨hs, hscopes r hm hs hcte⟩
    | some schema =>
      right
      have hschema : r.asRead.schemaname = some (cut schema) := by
        rw [Reference.asRead, hs]
        rfl
      rw [hschema] at hok
      have hperm : RelationPermitted c agentId r.asRead := ⟨cut schema, hschema, checkRelation_qualified hok⟩
      by_cases hmis : Misread r.schemaname r.relname
      · exact hreadings r hm (by simp [hs]) hmis hperm
      · rwa [Reference.asRead_eq hmis] at hperm

def ordersCte : Ctes :=
  .cons "o".toList (.ofList
    [(word "aliascolnames", .null), (word "ctematerialized", .atom (word "0")),
      (word "ctequery", selectStmt [starTarget] [relationRef (some "shop") "orders"] none),
      (word "search_clause", .null), (word "cycle_clause", .null), locationField]) .nil

def ordersSql : String :=
  "WITH o AS (SELECT * FROM shop.orders) SELECT * FROM o"

def ordersTree : ParseTree where
  statements := rawStmt (selectStmt [starTarget] [relationRef none "o"] (some ordersCte))
  parsed := nofun
  raw := by decide

def ordersConfig : Config where
  agents := [{ agentId := 1, name := "clerk" }]
  permissions := [{ agentId := 1, resourceType := .view, resourceRef := "shop.orders" }]
  sqlSandboxAllowlist := ["shop.orders"]

/-- The name of the CTE stands in its scope, and the table behind it is granted. -/
theorem fnValidateSql_orders_confined : RelationsConfined ordersConfig 1 ordersTree.statements := by
  have hv : fnValidateSql (serverFor ordersSql ordersTree.statements) ordersConfig 1 (some ordersSql) =
      .ok ordersSql := by decide +kernel
  have hrefs : ∀ r ∈ (Node.list ordersTree.statements).references [],
      (r.schemaname = none → r.relname ∈ r.scope) ∧ ¬ Misread r.schemaname r.relname := by decide +kernel
  exact (fnValidateSql_relations_confined_iff hv rfl).mpr
    ⟨fun r hr hn _ => (hrefs r hr).1 hn, fun r hr _ hm => absurd hm (hrefs r hr).2⟩

def escapeSql : String :=
  "SELECT * FROM pg_class, (WITH pg_class AS (SELECT 1) SELECT * FROM pg_class) x"

def escapeCtes : Ctes :=
  .cons "pg_class".toList (.ofList
    [(word "aliascolnames", .null), (word "ctematerialized", .atom (word "0")),
      (word "ctequery", selectStmt [resTarget constOne] [] none), (word "search_clause", .null),
      (word "cycle_clause", .null), locationField]) .nil

def escapeTree : ParseTree where
  statements := rawStmt (selectStmt [starTarget]
    [relationRef none "pg_class",
      .node (nodeTag "RANGESUBSELECT") (.ofList
        [(word "lateral", .atom (word "false")),
          (word "subquery",
            selectStmt [starTarget] [relationRef none "pg_class"] (some escapeCtes)),
          (word "alias", .node (nodeTag "ALIAS") (.ofList
            [(word "aliasname", .token ['x']), (word "colnames", .null)]))])]
    none)
  parsed := nofun
  raw := by decide

/-- The outer name is accepted because a subquery has a CTE of that name, and
reads the catalog table. -/
theorem fnValidateSql_scope_escape :
    ¬ ∀ (pg : Postgres) (c : Config) (agentId : Uuid) (sql : Option String) (out : String)
      (t : ParseTree), fnValidateSql pg c agentId sql = .ok out →
        pg.rawParser out = .ok t.statements → RelationsConfined c agentId t.statements := by
  intro h
  have hc := h (serverFor escapeSql escapeTree.statements) {} 1 (some escapeSql) escapeSql escapeTree
    (by decide +kernel) rfl
  have hm : (⟨none, "pg_class".toList, []⟩ : Reference) ∈
      (Node.list escapeTree.statements).references [] := by
    decide
  rcases hc _ hm with hb | ⟨schema, hs, _⟩
  · exact absurd hb.2 (by simp)
  · exact absurd hs (by simp)

end Confinement

end Allgres
