import Allgres.SmallServer

/-! Statements between the parentheses of another query: when the query still
parses with the accepted statement as its part. -/

namespace Allgres

open Raise SqlLexer

/-- No terminator is left among the tokens, and the text does not end in a `--` comment. -/
def Wrappable (sql : String) : Prop :=
  .semi ∉ (run SqlLexer.start sql.toList).1 ∧ ¬ EndsInComment sql.toList

instance (sql : String) : Decidable (Wrappable sql) :=
  inferInstanceAs (Decidable (_ ∧ _))

section Analysis

theorem eq_of_filterMap_single {α β : Type} {f : α → Option β} {l : List α} {k : β}
    (h : l.filterMap f = [k]) : ∃ a, f a = some k ∧ ∀ x ∈ l, f x ≠ none → x = a := by
  obtain ⟨front, a, rest, rfl, hfront, ha, hrest⟩ := List.filterMap_eq_cons_iff.mp h
  refine ⟨a, ha, fun x hx hne => ?_⟩
  rcases List.mem_append.mp hx with hx | hx
  · exact absurd (hfront x hx) hne
  · rcases List.mem_cons.mp hx with rfl | hx
    · rfl
    · exact absurd (List.filterMap_eq_nil_iff.mp hrest x hx) hne

/-- No letter of an identifier. -/
def endsIdent (t : Chars) : Prop :=
  t.head?.all (fun c => !(c.isAlphanum || c == '_')) = true

theorem Fields.dump_endsIdent (fs : Fields) (t : Chars) (ht : endsIdent t) :
    endsIdent (fs.dump ++ t) := by
  cases fs with
  | nil => exact ht
  | flag w tail => rfl
  | cons label value tail => rfl

theorem node_text (tag u : Chars) : '{' :: tag ++ u ++ ['}'] = '{' :: (tag ++ (u ++ ['}'])) := by
  simp

/-- Behind its tag a statement goes on with a blank or ends. -/
theorem Node.dump_of_tag {n : Node} {tag : Chars} (h : n.tag? = some tag) :
    ∃ t, n.dump = '{' :: (tag ++ t) ∧ t ≠ [] ∧ endsIdent t := by
  cases n with
  | node tag' fields =>
    obtain rfl : tag'.chars = tag := Option.some.inj h
    rw [Node.dump]
    exact ⟨_, node_text _ _, List.append_ne_nil_of_right_ne_nil _ (List.cons_ne_nil _ _),
      fields.dump_endsIdent _ rfl⟩
  | withStmt tag' before ctes recursive location after =>
    obtain rfl : tag'.chars = tag := Option.some.inj h
    have hlabel : ∀ u, endsIdent (" :withClause ".toList ++ u) := by
      intro u
      rw [String.toList_ofList]
      rfl
    rw [Node.dump]
    refine ⟨_, node_text _ _, List.append_ne_nil_of_right_ne_nil _ (List.cons_ne_nil _ _), ?_⟩
    rw [List.append_assoc, List.append_assoc, List.append_assoc]
    exact before.dump_endsIdent _ (hlabel _)
  | null | atom | token | str | list | rangeVar | funcCall | sqlValueFunction =>
    exact absurd h nofun

/-- What stands behind the opener of a raw statement. -/
def rawBody (stmt : Node) (rest : Fields) : Chars :=
  " :stmt ".toList ++ stmt.dump ++ rest.dump

theorem rawBody_eq (stmt : Node) (rest : Fields) :
    rawBody stmt rest = " :stmt ".toList ++ stmt.dump ++ rest.dump :=
  rfl

theorem rawKind_rawBody {stmt : Node} {tag : Chars} (ht : stmt.tag? = some tag)
    (hc : ∀ c ∈ tag, (c.isAlphanum || c == '_') = true) (rest : Fields) (t : Chars) :
    rawKind (rawBody stmt rest ++ '}' :: t) = some tag := by
  have hneutral : Scan.Neutral '\\' '{' '}' (rawBody stmt rest) :=
    ((neutral_braces_lit (by decide)).append stmt.dump_neutral).append rest.dump_neutral
  have hbody : nodeBody (rawBody stmt rest ++ '}' :: t) = rawBody stmt rest :=
    Scan.inside_of_neutral (by decide) (by decide) hneutral t
  obtain ⟨u, hdump, hne, hu⟩ := Node.dump_of_tag ht
  have hfind : Scan.findAfter (":stmt ".toList ++ ['{']) (rawBody stmt rest) =
      some (tag ++ (u ++ rest.dump)) := by
    have hsplit : rawBody stmt rest = ' ' :: ((":stmt ".toList ++ ['{']) ++ (tag ++ (u ++ rest.dump))) := by
      rw [rawBody_eq, hdump, String.toList_ofList, String.toList_ofList]
      simp only [List.append_assoc, List.cons_append, List.nil_append]
    rw [hsplit, Scan.findAfter_cons_of_none rfl]
    exact Scan.findAfter_of_after (Scan.after_append _ _)
  have hend : endsIdent (u ++ rest.dump) := by
    obtain ⟨c, u, rfl⟩ := List.exists_cons_of_ne_nil hne
    exact hu
  rw [rawKind, hbody, hfind, Option.map_some, readIdent, takeWhile_stop hc hend]

theorem Nodes.dump_raw {r : Node} {stmt : Node} {rest : Fields} (hr : r = rawNode stmt rest)
    (sep : Chars) (tail : Nodes) : (Nodes.cons r tail).dump sep =
      sep ++ ('{' :: "RAWSTMT".toList ++ (rawBody stmt rest ++ '}' :: tail.dump [' '])) := by
  have hlabel : " :".toList ++ (word "stmt").chars ++ [' '] = " :stmt ".toList := by
    change " :".toList ++ "stmt".toList ++ [' '] = " :stmt ".toList
    rw [String.toList_ofList, String.toList_ofList, String.toList_ofList]
    rfl
  rw [hr, Nodes.dump, rawNode, Node.dump, Fields.dump, hlabel, rawBody_eq]
  simp only [nodeTag, List.append_assoc, List.cons_append, List.nil_append]

theorem rawBody_mem_findAll (stmt : Node) (rest : Fields) (p t : Chars) :
    rawBody stmt rest ++ '}' :: t ∈ Scan.findAll ('{' :: "RAWSTMT".toList)
      (p ++ ('{' :: "RAWSTMT".toList ++ (rawBody stmt rest ++ '}' :: t))) :=
  Scan.mem_findAll (by decide) p _

/-- A text that is reported as one `SELECT` is one. -/
theorem parsesAs_of_kinds {statements : Nodes} (hraw : RawStatements statements)
    (hk : statementKinds (rawParseDump statements) = ["SELECTSTMT".toList]) :
    ∃ stmt rest, statements = .cons (rawNode stmt rest) .nil ∧ stmt.isSelect := by
  cases statements with
  | nil =>
    have hnil : statementKinds [] = [] := by decide
    exact absurd (hnil.symm.trans hk) nofun
  | cons r tail =>
    obtain ⟨⟨stmt, rest, tag, hr, htag, hident⟩, htail⟩ := hraw
    obtain ⟨a, ha, hone⟩ := eq_of_filterMap_single (f := rawKind) hk
    have hdump : rawParseDump (.cons r tail) = ['('] ++ ('{' :: "RAWSTMT".toList ++
        (rawBody stmt rest ++ '}' :: (tail.dump [' '] ++ [')']))) := by
      change (Node.list (.cons r tail)).dump = _
      rw [Node.dump, Nodes.dump_raw hr]
      simp only [List.append_assoc, List.cons_append, List.nil_append]
    rw [hdump] at hone
    have hfirst := rawKind_rawBody htag hident rest (tail.dump [' '] ++ [')'])
    have hqa := hone _ (rawBody_mem_findAll stmt rest ['('] _) (by rw [hfirst]; nofun)
    rw [hqa, ha, Option.some.injEq] at hfirst
    cases tail with
    | nil => exact ⟨stmt, rest, by rw [hr], by rw [Node.isSelect, htag, hfirst]⟩
    | cons r' tail' =>
      obtain ⟨⟨stmt', rest', tag', hr', htag', hident'⟩, _⟩ := htail
      have hsecond := rawKind_rawBody htag' hident' rest' (tail'.dump [' '] ++ [')'])
      have hsplit : rawBody stmt rest ++ '}' :: ((Nodes.cons r' tail').dump [' '] ++ [')']) =
          (rawBody stmt rest ++ ['}', ' ']) ++ ('{' :: "RAWSTMT".toList ++
            (rawBody stmt' rest' ++ '}' :: (tail'.dump [' '] ++ [')']))) := by
        rw [Nodes.dump_raw hr']
        simp only [List.append_assoc, List.cons_append, List.nil_append]
      rw [hsplit] at hone hqa
      have hmem := rawBody_mem_findAll stmt' rest' (['('] ++ ('{' :: "RAWSTMT".toList ++
        (rawBody stmt rest ++ ['}', ' ']))) (tail'.dump [' '] ++ [')'])
      simp only [List.append_assoc] at hone hmem
      have hqa' := hone _ hmem (by rw [hsecond]; nofun)
      have hlen := congrArg List.length (hqa.trans hqa'.symm)
      simp only [List.length_append, List.length_cons] at hlen
      omega

end Analysis

section Sandbox

/-- The executed text is one statement whose `FROM` subquery selects from the given one. -/
def RunsAsSubquery (pg : Postgres) (sql : String) (m : Node) : Prop :=
  ∃ outer inner, ParsesAs pg (sandboxedQuery sql) outer ∧ outer.fromSubquery = some inner ∧
    inner.fromSubquery = some m

theorem Node.isSelect_of_fromSubquery {n m : Node} (h : n.fromSubquery = some m) : n.isSelect := by
  cases n with
  | node tag fields =>
    by_cases ht : tag.chars = "SELECTSTMT".toList
    · exact congrArg some ht
    · rw [fromSubquery, if_neg ht] at h
      cases h
  | null | atom | token | str | list | rangeVar | funcCall | sqlValueFunction | withStmt =>
    simp [fromSubquery] at h

variable {pg : Postgres} {sql : String} {m : Node}

/-- The two parentheses in front of a statement that ends in a comment stay open. -/
theorem not_endsInComment_of_runs (g : Grammar pg) (hm : ParsesAs pg sql m) (hs : m.isSelect)
    (h : RunsAsSubquery pg sql m) : ¬ EndsInComment sql.toList := by
  intro hc
  obtain ⟨outer, inner, hparse, hsub, _⟩ := h
  obtain ⟨us, hts, hus⟩ := g.balanced_of_parses hm hs.preparable
  obtain ⟨ws, hws, hbal⟩ :=
    g.balanced_of_parses hparse (Node.isSelect_of_fromSubquery hsub).preparable
  obtain rfl : outerFrame.front ++ (innerFrame.front ++ us) = ws := by
    rw [tokens_sandboxedQuery_comment hts hc] at hws
    exact Option.some.inj hws
  rw [SqlLexer.Balanced, outerFrame.nesting_front, innerFrame.nesting_front, hus.nesting] at hbal
  simp at hbal

theorem runsAsSubquery_iff (g : Grammar pg) (hm : ParsesAs pg sql m) (hs : m.isSelect) :
    RunsAsSubquery pg sql m ↔ Wrappable sql := by
  obtain ⟨us, hts, _⟩ := g.balanced_of_parses hm hs.preparable
  constructor
  · intro h
    have hc := not_endsInComment_of_runs g hm hs h
    obtain ⟨outer, inner, hparse, hsub, _⟩ := h
    have hsemi := (g.stmt_of_parses hparse (Node.isSelect_of_fromSubquery hsub).preparable
      (tokens_sandboxedQuery hts hc) (outerFrame.front_head _) (outerFrame.wrap_getLast _)).1
    refine ⟨fun hrun => hsemi ?_, hc⟩
    have hus := (semi_mem_tokens hts).mpr hrun
    simp [Frame.wrap, hus]
  · rintro ⟨hsemi, hc⟩
    have hstmt := g.stmt_of_semi_free hm hs.preparable hts fun h => hsemi ((semi_mem_tokens hts).mp h)
    obtain ⟨inner, hinner, hfrom⟩ := g.subquery innerFrame (by simp) hstmt hs
    obtain ⟨outer, houter, hsub⟩ := g.subquery outerFrame (by simp) hinner
      (Node.isSelect_of_fromSubquery hfrom)
    exact ⟨outer, inner, g.parses (tokens_sandboxedQuery hts hc) houter, hsub, hfrom⟩

end Sandbox

section Console

/-- The query tried first is one statement with the given one as its table expression. -/
def RunsAsCte (pg : Postgres) (sql : String) (m : Node) : Prop :=
  ∃ n, ParsesAs pg (consoleQuery sql) n ∧ n.cteBody = some m

theorem Node.isSelect_of_cteBody {n m : Node} (h : n.cteBody = some m) : n.isSelect := by
  cases n with
  | withStmt tag before ctes recursive location after =>
    cases ctes with
    | nil => simp [cteBody] at h
    | cons ctename rest tail =>
      cases tail with
      | cons => simp [cteBody] at h
      | nil =>
        by_cases ht : tag.chars = "SELECTSTMT".toList
        · exact congrArg some ht
        · rw [cteBody, if_neg fun hboth => ht hboth.1] at h
          cases h
  | null | atom | token | str | list | rangeVar | funcCall | sqlValueFunction | node =>
    simp [cteBody] at h

variable {pg : Postgres} {sql : String} {m : Node}

/-- Behind a statement that ends in a comment the list of table expressions is
all that is left of the query. -/
theorem not_endsInComment_of_cte (g : Grammar pg) (hm : ParsesAs pg sql m) (hp : m.preparable)
    (h : RunsAsCte pg sql m) : ¬ EndsInComment sql.toList := by
  intro hc
  obtain ⟨n, hparse, hbody⟩ := h
  obtain ⟨us, hts, hus⟩ := g.balanced_of_parses hm hp
  obtain ⟨vs, hvs, hws⟩ := tokens_consoleQuery_comment hts hc
  have hlast : (consoleFrame.front ++ (us ++ (vs ++ [Tok.rparen]))).getLast? ≠ some .semi := by
    rw [← List.append_assoc, ← List.append_assoc, List.getLast?_concat]
    simp
  have hstmt := (g.stmt_of_parses hparse (Node.isSelect_of_cteBody hbody).preparable hws
    (consoleFrame.front_head _) hlast).2
  have hgroup : Balanced (us ++ vs) := by
    rw [SqlLexer.Balanced, nesting_append, hus.nesting, Option.bind_some, hvs.nesting]
  rw [← List.append_assoc us] at hstmt
  exact g.withAlone hgroup hstmt

theorem preparable_of_cte (g : Grammar pg) (h : RunsAsCte pg sql m) : m.preparable := by
  obtain ⟨n, hparse, hbody⟩ := h
  obtain ⟨_, us, _, _, _, hstmt⟩ := g.terminated hparse (Node.isSelect_of_cteBody hbody).preparable
  exact g.cteBody hstmt hbody

theorem runsAsCte_iff (g : Grammar pg) (hm : ParsesAs pg sql m) :
    RunsAsCte pg sql m ↔ Wrappable sql ∧ m.preparable := by
  constructor
  · intro h
    have hp := preparable_of_cte g h
    have hc := not_endsInComment_of_cte g hm hp h
    obtain ⟨us, hts, _⟩ := g.balanced_of_parses hm hp
    obtain ⟨n, hparse, hbody⟩ := h
    have hsemi := (g.stmt_of_parses hparse (Node.isSelect_of_cteBody hbody).preparable
      (tokens_consoleQuery hts hc) (consoleFrame.front_head _) (consoleFrame.wrap_getLast _)).1
    refine ⟨⟨fun hrun => hsemi ?_, hc⟩, hp⟩
    have hus := (semi_mem_tokens hts).mpr hrun
    simp [Frame.wrap, hus]
  · rintro ⟨⟨hsemi, hc⟩, hp⟩
    obtain ⟨us, hts, _⟩ := g.balanced_of_parses hm hp
    have hstmt := g.stmt_of_semi_free hm hp hts fun h => hsemi ((semi_mem_tokens hts).mp h)
    obtain ⟨n, hn, hbody⟩ := g.cte hstmt hp
    exact ⟨n, g.parses (tokens_consoleQuery hts hc) hn, hbody⟩

end Console

theorem statementKinds_of_select {dump : Chars} {a : Analysis} (ha : analyzeDump dump = some a)
    (hk : a.kind = .select) : statementKinds dump = ["SELECTSTMT".toList] := by
  by_cases hd : dump = []
  · simp [analyzeDump, hd] at ha
  · by_contra hne
    simp only [analyzeDump, if_neg hd, if_neg hne, Option.some.injEq] at ha
    rw [← ha] at hk
    cases hk

theorem parsesAs_of_validated {pg : Postgres} (g : Grammar pg) {c : Config} {agentId : Uuid}
    {sql : Option String} {v : String} (h : fnValidateSql pg c agentId sql = .ok v) :
    ∃ m, ParsesAs pg v m ∧ m.isSelect := by
  simp only [fnValidateSql, bind_eq_ok] at h
  obtain ⟨_, _, _, _, a, ha, _, hc, _, _, _, _, hout⟩ := h
  obtain rfl : stripTerminator (btrim (orEmpty sql)) = v := by
    simpa [pure, Except.pure] using hout
  simp only [checkAnalysis, bind_eq_ok, raiseIf_eq_ok] at hc
  obtain ⟨_, _, _, hkind, _⟩ := hc
  obtain ⟨statements, hp, hd⟩ := analyzeSql_ok ha
  obtain ⟨m, rest, rfl, hm⟩ :=
    parsesAs_of_kinds (g.raw hp) (statementKinds_of_select hd (not_not.mp hkind))
  exact ⟨m, ⟨rest, hp⟩, hm⟩

/-- The console answers with the rows of a query whose table expression is the statement. -/
def AnswersRows (pg : Postgres) (sql : Option String) (m : Node) : Prop :=
  ∃ n rest, n.cteBody = some m ∧ ∀ rows rowCount result,
    rows (.cons (rawNode n rest) .nil) = .ok result → fnAdminExecuteSql pg rows rowCount sql = .ok result

theorem answersRows_of_cte {pg : Postgres} {sql : Option String} {v : String} {m : Node}
    (hv : consoleStatement pg sql = .ok v) (h : RunsAsCte pg v m) : AnswersRows pg sql m := by
  obtain ⟨n, ⟨rest, hn⟩, hbody⟩ := h
  refine ⟨n, rest, hbody, fun rows rowCount result hr => ?_⟩
  have hexec : execute pg rows (consoleQuery v) = .ok result :=
    bind_eq_ok.mpr ⟨_, hn, hr⟩
  exact bind_eq_ok.mpr ⟨v, hv, by rw [hexec]; rfl⟩

/-- An accepted statement is the subquery of the sandbox, or the table expression
of the console, which then answers with its rows, exactly when no terminator is left
in its text and it does not end in a `--` comment; a table expression has to be of a
kind that may be one. -/
theorem wrapped_iff {pg : Postgres} (g : Grammar pg) :
    (∀ c agentId sql v, fnValidateSql pg c agentId sql = .ok v →
      ∃ m, ParsesAs pg v m ∧ (RunsAsSubquery pg v m ↔ Wrappable v)) ∧
    (∀ sql v m, consoleStatement pg sql = .ok v → ParsesAs pg v m →
      (RunsAsCte pg v m ↔ Wrappable v ∧ m.preparable) ∧ (RunsAsCte pg v m → AnswersRows pg sql m)) := by
  constructor
  · intro c agentId sql v hv
    obtain ⟨m, hm, hs⟩ := parsesAs_of_validated g hv
    exact ⟨m, hm, runsAsSubquery_iff g hm hs⟩
  · intro _ v m hv hm
    exact ⟨runsAsCte_iff g hm, answersRows_of_cte hv⟩

section SelectOne

theorem selectOne_wrapped : ∃ m, ParsesAs smallServer "SELECT 1" m ∧
    RunsAsSubquery smallServer "SELECT 1" m ∧ RunsAsCte smallServer "SELECT 1" m ∧
    AnswersRows smallServer (some "SELECT 1;") m := by
  have hv : fnValidateSql smallServer {} 1 (some "SELECT 1;") = .ok "SELECT 1" := by decide +kernel
  have hq : consoleStatement smallServer (some "SELECT 1;") = .ok "SELECT 1" := by decide +kernel
  have hw : Wrappable "SELECT 1" := by decide
  obtain ⟨m, hm, hsub⟩ := (wrapped_iff smallGrammar).1 {} 1 (some "SELECT 1;") "SELECT 1" hv
  obtain ⟨m', hm', hs⟩ := parsesAs_of_validated smallGrammar hv
  obtain rfl := hm.unique hm'
  obtain ⟨hiff, hrows⟩ := (wrapped_iff smallGrammar).2 (some "SELECT 1;") "SELECT 1" m hq hm
  have hcte := hiff.mpr ⟨hw, hs.preparable⟩
  exact ⟨m, hm, hsub.mpr hw, hcte, hrows hcte⟩

/-- A trailing comment swallows the parenthesis behind it. -/
theorem trailing_comment_unwrapped : ¬ ∀ pg : Postgres, Grammar pg →
    (∀ c agentId sql v, fnValidateSql pg c agentId sql = .ok v →
      ∃ m, ParsesAs pg v m ∧ RunsAsSubquery pg v m) ∧
    (∀ sql v m, consoleStatement pg sql = .ok v → ParsesAs pg v m → m.isSelect →
      RunsAsCte pg v m) := by
  intro h
  have hv : fnValidateSql smallServer {} 1 (some "SELECT 1 -- one") = .ok "SELECT 1 -- one" := by
    decide +kernel
  obtain ⟨m, hm, hruns⟩ := (h smallServer smallGrammar).1 {} 1 _ _ hv
  obtain ⟨m', hm', hs⟩ := parsesAs_of_validated smallGrammar hv
  obtain rfl := hm.unique hm'
  exact not_endsInComment_of_runs smallGrammar hm hs hruns (by decide)

end SelectOne

end Allgres
