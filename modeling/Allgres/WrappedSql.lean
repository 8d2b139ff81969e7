import Allgres.Confinement
import Allgres.Json
import Allgres.SqlLexer

/-! The two places that put a parsed statement between parentheses: the sandbox
runs it as a subquery, the console as a common table expression. What the
concatenated text parses as depends on the tokens of the statement alone. -/

namespace Allgres

open Raise SqlLexer

/-- `regexp_replace(s, ';\s*$', '')`. -/
def stripOneTerminator (s : String) : String :=
  let t := rtrimChars isSpace s.toList
  if t.getLast? = some ';' then String.ofList t.dropLast else s

/-- The text `fn_run_sandboxed_sql` executes. -/
def sandboxedQuery (sql : String) : String :=
  "SELECT coalesce(jsonb_agg(q.row), '[]'::jsonb) FROM (SELECT to_jsonb(s) AS row FROM (" ++
    sql ++ ") s LIMIT 201) q"

/-- The lines of the console's query behind its first one. -/
def consoleLines : String :=
  "         'cols', (SELECT jsonb_agg(key ORDER BY ord) FROM
           (SELECT to_json(t) AS j FROM __allgres_console_q t LIMIT 1) r,
           json_each(r.j) WITH ORDINALITY AS e(key, value, ord)),
         'rows', (SELECT jsonb_agg(vals) FROM (
           SELECT (SELECT jsonb_agg(value ORDER BY ord) FROM
             json_each(to_json(t)) WITH ORDINALITY AS e(key, value, ord)) AS vals
           FROM __allgres_console_q t
         ) x)
       )"

/-- The text `fn_admin_execute_sql` tries first. -/
def consoleQuery (sql : String) : String :=
  "WITH __allgres_console_q AS (" ++ sql ++ ") SELECT jsonb_build_object(\n" ++ consoleLines

/-- The checks of `fn_admin_execute_sql`; the answer is the statement it goes on
with. A text without a statement has no count to compare. -/
def consoleStatement (pg : Postgres) (sql : Option String) : Except String String := do
  raiseIf (btrim (orEmpty sql) = "") "sql required"
  let sql := stripOneTerminator (btrim (orEmpty sql))
  let statements ← pg.rawParser sql
  let analysis := analyzeDump (rawParseDump statements)
  raiseIf (analysis.any fun a => a.statements != 1)
    ("exactly one SQL statement per run (found " ++
      toString ((analysis.map Analysis.statements).getD 0) ++ ")")
  pure sql

/-- `EXECUTE`: the text is parsed again, and what it parses as is run. -/
def execute {α : Type} (pg : Postgres) (run : Nodes → Except String α) (sql : String) :
    Except String α := do
  let statements ← pg.rawParser sql
  run statements

/-- The wrapped statement answers with its rows; on any error the statement is
run as it is and answers with a count. -/
def fnAdminExecuteSql (pg : Postgres) (rows : Nodes → Except String Json)
    (rowCount : Nodes → Except String Nat) (sql : Option String) : Except String Json := do
  let sql ← consoleStatement pg sql
  match execute pg rows (consoleQuery sql) with
  | .ok result => pure result
  | .error _ =>
    let n ← execute pg rowCount sql
    pure (.object [("ok", .bool true), ("rows_affected", .ofInt n)])

section Trees

/-- The tag of a statement. -/
def Node.tag? : Node → Option Chars
  | .node tag _ | .withStmt tag _ _ _ _ _ => some tag.chars
  | .null | .atom _ | .token _ | .str _ | .list _ | .rangeVar _ _ _ | .funcCall _ _
  | .sqlValueFunction _ _ => none

def Node.isSelect (n : Node) : Prop :=
  n.tag? = some "SELECTSTMT".toList

/-- `PreparableStmt` of the grammar: what may stand between the parentheses of a
common table expression. -/
def Node.preparable (n : Node) : Prop :=
  ∃ tag ∈ ["SELECTSTMT".toList, "INSERTSTMT".toList, "UPDATESTMT".toList, "DELETESTMT".toList,
    "MERGESTMT".toList], n.tag? = some tag

theorem Node.isSelect.preparable {n : Node} (h : n.isSelect) : n.preparable :=
  ⟨_, List.mem_cons_self, h⟩

def Fields.get (name : String) : Fields → Option Node
  | .nil => none
  | .flag _ tail => tail.get name
  | .cons label value tail => if label.chars = name.toList then some value else tail.get name

/-- The subquery of a `SELECT` that has nothing else in its `FROM` list. -/
def Node.fromSubquery : Node → Option Node
  | .node tag fields =>
    if tag.chars = "SELECTSTMT".toList then
      match fields.get "fromClause" with
      | some (.list (.cons (.node item sub) .nil)) =>
        if item.chars = "RANGESUBSELECT".toList then sub.get "subquery" else none
      | _ => none
    else none
  | _ => none

/-- The body of the console's common table expression, where it is the only one. -/
def Node.cteBody : Node → Option Node
  | .withStmt tag _ (.cons ctename rest .nil) _ _ _ =>
    if tag.chars = "SELECTSTMT".toList ∧ ctename = "__allgres_console_q".toList then
      rest.get "ctequery"
    else none
  | _ => none

def rawNode (stmt : Node) (rest : Fields) : Node :=
  .node (nodeTag "RAWSTMT") (.cons (word "stmt") stmt rest)

/-- The text parses as the one statement. Trees are compared as they are printed,
without the positions in the text. -/
def ParsesAs (pg : Postgres) (sql : String) (stmt : Node) : Prop :=
  ∃ rest, pg.rawParser sql = .ok (.cons (rawNode stmt rest) .nil)

/-- What the parser answers with: statements, each of them a node with an identifier for a tag. -/
def RawStatements : Nodes → Prop
  | .nil => True
  | .cons r tail => (∃ stmt rest tag, r = rawNode stmt rest ∧ stmt.tag? = some tag ∧
      ∀ c ∈ tag, (c.isAlphanum || c == '_') = true) ∧ RawStatements tail

theorem ParsesAs.unique {pg : Postgres} {sql : String} {m n : Node} (hm : ParsesAs pg sql m)
    (hn : ParsesAs pg sql n) : m = n := by
  obtain ⟨r, hr⟩ := hm
  obtain ⟨s, hs⟩ := hn
  rw [hr] at hs
  simp only [Except.ok.injEq, Nodes.cons.injEq, rawNode, Node.node.injEq, Fields.cons.injEq,
    true_and, and_true] at hs
  exact hs.1

end Trees

section Frames

/-- A query with a place between two of its parentheses, and no terminator at its ends. -/
structure Frame where
  before : String
  after : String
  opens : (run SqlLexer.start before.toList).2 = SqlLexer.start
  nests : SqlLexer.nesting 0 (run SqlLexer.start before.toList).1 = some 1
  leads : (run SqlLexer.start before.toList).1.head?.any (· != .semi) = true
  closes : (tokens after.toList).any (fun ts => ts.getLast?.any (· != .semi)) = true

namespace Frame

def text (f : Frame) (sql : String) : String :=
  f.before ++ (sql ++ (")" ++ f.after))

def front (f : Frame) : List Tok :=
  (run SqlLexer.start f.before.toList).1

def back (f : Frame) : List Tok :=
  (tokens f.after.toList).getD []

def wrap (f : Frame) (us : List Tok) : List Tok :=
  f.front ++ (us ++ .rparen :: f.back)

theorem text_toList (f : Frame) (sql : String) :
    (f.text sql).toList = f.before.toList ++ (sql.toList ++ ')' :: f.after.toList) := by
  simp only [text, String.toList_append]
  rfl

/-- Two frames in one another, their parts written as one text on each side. -/
theorem text_text {f g : Frame} {a b : String}
    (ha : a.toList = f.before.toList ++ g.before.toList)
    (hb : b.toList = ')' :: (g.after.toList ++ ')' :: f.after.toList)) (sql : String) :
    a ++ sql ++ b = f.text (g.text sql) := by
  apply String.toList_injective
  simp only [text_toList, String.toList_append, ha, hb, List.append_assoc, List.cons_append]

theorem text_append {b c : String} (hb : b.toList = ')' :: c.toList) (a sql d : String) :
    a ++ sql ++ b ++ d = a ++ (sql ++ (")" ++ (c ++ d))) := by
  have hparen : ")".toList = [')'] := rfl
  apply String.toList_injective
  simp only [String.toList_append, hb, hparen, List.append_assoc, List.cons_append, List.nil_append]

end Frame

def outerFrame : Frame where
  before := "SELECT coalesce(jsonb_agg(q.row), '[]'::jsonb) FROM ("
  after := " q"
  opens := by
    rw [String.toList_ofList]
    decide
  nests := by
    rw [String.toList_ofList]
    decide
  leads := by
    rw [String.toList_ofList]
    decide
  closes := by
    rw [String.toList_ofList]
    decide

def innerFrame : Frame where
  before := "SELECT to_jsonb(s) AS row FROM ("
  after := " s LIMIT 201"
  opens := by
    rw [String.toList_ofList]
    decide
  nests := by
    rw [String.toList_ofList]
    decide
  leads := by
    rw [String.toList_ofList]
    decide
  closes := by
    rw [String.toList_ofList]
    decide

theorem consoleLines_closed : (tokens (" SELECT jsonb_build_object(\n" ++ consoleLines).toList).any
    (fun ts => ts.getLast?.any (· != .semi)) = true := by
  rw [String.toList_append, consoleLines, String.toList_ofList, String.toList_ofList]
  decide +kernel

def consoleFrame : Frame where
  before := "WITH __allgres_console_q AS ("
  after := " SELECT jsonb_build_object(\n" ++ consoleLines
  opens := by
    rw [String.toList_ofList]
    decide
  nests := by
    rw [String.toList_ofList]
    decide
  leads := by
    rw [String.toList_ofList]
    decide
  closes := consoleLines_closed

theorem sandboxedQuery_eq (sql : String) :
    sandboxedQuery sql = outerFrame.text (innerFrame.text sql) := by
  have hfront : "SELECT coalesce(jsonb_agg(q.row), '[]'::jsonb) FROM (SELECT to_jsonb(s) AS row FROM (".toList =
      outerFrame.before.toList ++ innerFrame.before.toList := by
    rw [String.toList_ofList, outerFrame, innerFrame, String.toList_ofList, String.toList_ofList]
    rfl
  have hback : ") s LIMIT 201) q".toList =
      ')' :: (innerFrame.after.toList ++ ')' :: outerFrame.after.toList) := by
    rw [String.toList_ofList, outerFrame, innerFrame, String.toList_ofList, String.toList_ofList]
    rfl
  exact Frame.text_text hfront hback sql

theorem consoleQuery_eq (sql : String) : consoleQuery sql = consoleFrame.text sql := by
  have hback : ") SELECT jsonb_build_object(\n".toList =
      ')' :: " SELECT jsonb_build_object(\n".toList := by
    rw [String.toList_ofList, String.toList_ofList]
  exact Frame.text_append hback _ sql consoleLines

namespace Frame

variable (f : Frame) {sql : String} {us : List Tok}

theorem run_before : run SqlLexer.start f.before.toList = (f.front, SqlLexer.start) :=
  Prod.ext rfl f.opens

theorem front_cons : ∃ t ts, f.front = t :: ts ∧ t ≠ .semi := by
  obtain ⟨t, ht, hne⟩ := (Option.any_eq_true _ _).mp f.leads
  obtain ⟨ts, hts⟩ := List.head?_eq_some_iff.mp ht
  exact ⟨t, ts, hts, by simpa using hne⟩

theorem back_concat : ∃ ts t, tokens f.after.toList = some (ts ++ [t]) ∧ t ≠ .semi := by
  obtain ⟨r, hr, hlast⟩ := (Option.any_eq_true _ _).mp f.closes
  obtain ⟨t, ht, hne⟩ := (Option.any_eq_true _ _).mp hlast
  obtain ⟨ts, rfl⟩ := List.getLast?_eq_some_iff.mp ht
  exact ⟨ts, t, hr, by simpa using hne⟩

theorem tokens_after : tokens f.after.toList = some f.back := by
  obtain ⟨ts, t, h, _⟩ := f.back_concat
  simp only [back, h, Option.getD_some]

theorem front_head (ts : List Tok) : (f.front ++ ts).head? ≠ some .semi := by
  obtain ⟨t, r, hf, ht⟩ := f.front_cons
  simpa [hf] using ht

theorem wrap_getLast (us : List Tok) : (f.wrap us).getLast? ≠ some .semi := by
  obtain ⟨ts, t, h, ht⟩ := f.back_concat
  have hwrap : f.wrap us = (f.front ++ (us ++ .rparen :: ts)) ++ [t] := by
    simp [wrap, back, h]
  rw [hwrap, List.getLast?_concat]
  simpa using ht

theorem nesting_front (ts : List Tok) (d : Nat) :
    SqlLexer.nesting d (f.front ++ ts) = SqlLexer.nesting (d + 1) ts := by
  have h := nesting_add f.nests d
  rw [Nat.zero_add, Nat.add_comm 1 d] at h
  rw [nesting_append, front, h, Option.bind_some]

theorem tokens_text (hs : tokens sql.toList = some us) (hc : ¬ EndsInComment sql.toList) :
    tokens (f.text sql).toList = some (f.wrap us) := by
  rw [text_toList, tokens_between f.run_before hs hc, tokens_after]
  rfl

theorem text_ends (hs : tokens sql.toList = some us) (hc : ¬ EndsInComment sql.toList)
    (hf : ¬ EndsInComment f.after.toList) : ¬ EndsInComment (f.text sql).toList := by
  rwa [text_toList, endsInComment_between f.run_before hs hc]

end Frame

theorem tokens_sandboxedQuery {sql : String} {us : List Tok} (hs : tokens sql.toList = some us)
    (hc : ¬ EndsInComment sql.toList) :
    tokens (sandboxedQuery sql).toList = some (outerFrame.wrap (innerFrame.wrap us)) := by
  have hinner : ¬ EndsInComment innerFrame.after.toList := by
    rw [innerFrame, String.toList_ofList]
    decide
  rw [sandboxedQuery_eq]
  exact outerFrame.tokens_text (innerFrame.tokens_text hs hc) (innerFrame.text_ends hs hc hinner)

theorem tokens_consoleQuery {sql : String} {us : List Tok} (hs : tokens sql.toList = some us)
    (hc : ¬ EndsInComment sql.toList) :
    tokens (consoleQuery sql).toList = some (consoleFrame.wrap us) := by
  rw [consoleQuery_eq]
  exact consoleFrame.tokens_text hs hc

/-- Nothing of the query behind a statement that ends in a comment is left. -/
theorem tokens_sandboxedQuery_comment {sql : String} {us : List Tok}
    (hs : tokens sql.toList = some us) (hc : EndsInComment sql.toList) :
    tokens (sandboxedQuery sql).toList = some (outerFrame.front ++ (innerFrame.front ++ us)) := by
  have hfront : run SqlLexer.start (outerFrame.before.toList ++ innerFrame.before.toList) =
      (outerFrame.front ++ innerFrame.front, SqlLexer.start) := by
    rw [run_append, outerFrame.run_before, innerFrame.run_before]
  have hline : ∀ c ∈ ')' :: innerFrame.after.toList ++ ')' :: outerFrame.after.toList,
      isNewline c = false := by
    have hall : (')' :: innerFrame.after.toList ++ ')' :: outerFrame.after.toList).all
        (fun c => !isNewline c) = true := by
      rw [outerFrame, innerFrame, String.toList_ofList, String.toList_ofList]
      decide
    exact fun c hc => by simpa using List.all_eq_true.mp hall c hc
  have hlist : (sandboxedQuery sql).toList =
      (outerFrame.before.toList ++ innerFrame.before.toList) ++ (sql.toList ++
        (')' :: innerFrame.after.toList ++ ')' :: outerFrame.after.toList)) := by
    rw [sandboxedQuery_eq, Frame.text_toList, Frame.text_toList]
    simp
  rw [hlist, tokens_comment hfront hs hc hline, List.append_assoc]

/-- Only the first string of the lines can be the rest of one in front of them. -/
theorem run_cols (gap : Gap) (esc : Bool) :
    ∃ gap', run (.between gap esc) "         'cols',".toList =
      ([.piece gap' "'cols'".toList, .piece .glued [',']], SqlLexer.start) := by
  rw [String.toList_ofList, String.toList_ofList]
  cases gap with
  | glued | spaced => cases esc <;> exact ⟨.spaced, by decide⟩
  | newline => cases esc <;> exact ⟨.newline, by decide⟩
  | comment => cases esc <;> exact ⟨.comment, by decide⟩

theorem consoleLines_cols : consoleLines.toList.take 16 = "         'cols',".toList := by
  rw [consoleLines, String.toList_ofList, String.toList_ofList]
  rfl

theorem consoleLines_rest : ∃ vs, Balanced vs ∧
    run SqlLexer.start (consoleLines.toList.drop 16) = (vs ++ [.rparen], SqlLexer.start) := by
  refine ⟨(run SqlLexer.start (consoleLines.toList.drop 16)).1.dropLast, ?_, ?_⟩
  · rw [consoleLines, String.toList_ofList]
    decide
  · rw [consoleLines, String.toList_ofList]
    decide +kernel

theorem run_consoleLines (gap : Gap) (esc : Bool) :
    ∃ vs, Balanced vs ∧ run (.between gap esc) consoleLines.toList = (vs ++ [.rparen], SqlLexer.start) := by
  obtain ⟨gap', hcols⟩ := run_cols gap esc
  obtain ⟨vs, hvs, hrest⟩ := consoleLines_rest
  refine ⟨.piece gap' "'cols'".toList :: .piece .glued [','] :: vs, hvs, ?_⟩
  rw [← List.take_append_drop 16 consoleLines.toList, consoleLines_cols, run_append, hcols]
  simp only [hrest, List.cons_append, List.nil_append]

/-- Behind such a statement the console's query goes on at its second line, whose
last parenthesis now closes the first one. -/
theorem tokens_consoleQuery_comment {sql : String} {us : List Tok}
    (hs : tokens sql.toList = some us) (hc : EndsInComment sql.toList) :
    ∃ vs, Balanced vs ∧ tokens (consoleQuery sql).toList =
      some (consoleFrame.front ++ (us ++ (vs ++ [.rparen]))) := by
  have hline : ∀ c ∈ ") SELECT jsonb_build_object(".toList, isNewline c = false := by
    have hall : ") SELECT jsonb_build_object(".toList.all (fun c => !isNewline c) = true := by
      rw [String.toList_ofList]
      decide
    exact fun c hc => by simpa using List.all_eq_true.mp hall c hc
  obtain ⟨gap, esc, hcut⟩ := run_comment consoleFrame.run_before hs hc hline
  obtain ⟨vs, hvs, hlines⟩ := run_consoleLines (gap.blank '\n') esc
  have hstep : SqlLexer.step (.lineComment gap esc) '\n' = ([], .between (gap.blank '\n') esc) := rfl
  have hlist : (consoleQuery sql).toList = (consoleFrame.before.toList ++ (sql.toList ++
      ") SELECT jsonb_build_object(".toList)) ++ '\n' :: consoleLines.toList := by
    have hback : ") SELECT jsonb_build_object(\n".toList =
        ") SELECT jsonb_build_object(".toList ++ ['\n'] := by
      rw [String.toList_ofList, String.toList_ofList]
      rfl
    have hquery : consoleQuery sql =
        consoleFrame.before ++ sql ++ ") SELECT jsonb_build_object(\n" ++ consoleLines := rfl
    rw [hquery]
    simp only [String.toList_append, hback, List.append_assoc, List.cons_append, List.nil_append]
  refine ⟨vs, hvs, ?_⟩
  rw [hlist, tokens, run_append, hcut, run, hstep, hlines]
  simp [finish, SqlLexer.start]

end Frames

section Grammar

/-- What the wrapping relies on in the grammar of the server: `Stmt` are the
token lists of one statement, without terminators, and their trees. -/
structure Grammar (pg : Postgres) where
  Stmt : List Tok → Node → Prop
  /-- The parser answers with the statements of the text, each under its own tag. -/
  raw : ∀ {sql statements}, pg.rawParser sql = .ok statements → RawStatements statements
  parses : ∀ {sql us n}, tokens sql.toList = some us → Stmt us n → ParsesAs pg sql n
  /-- Around a statement of these kinds there may be terminators, but none is in it. -/
  terminated : ∀ {sql n}, ParsesAs pg sql n → n.preparable → ∃ i us j,
    tokens sql.toList = some (List.replicate i .semi ++ (us ++ List.replicate j .semi)) ∧
      .semi ∉ us ∧ Stmt us n
  balanced : ∀ {us n}, Stmt us n → Balanced us
  /-- `'(' SelectStmt ')'` with an alias in the `FROM` list. -/
  subquery : ∀ f ∈ [outerFrame, innerFrame], ∀ {us m}, Stmt us m → m.isSelect →
    ∃ n, Stmt (f.wrap us) n ∧ n.fromSubquery = some m
  /-- `name AS '(' PreparableStmt ')'` in a `WITH` list, and nothing else there. -/
  cte : ∀ {us m}, Stmt us m → m.preparable → ∃ n, Stmt (consoleFrame.wrap us) n ∧ n.cteBody = some m
  cteBody : ∀ {us n m}, Stmt us n → n.cteBody = some m → m.preparable
  /-- A `WITH` list stands in front of a statement. -/
  withAlone : ∀ {us n}, Balanced us → ¬ Stmt (consoleFrame.front ++ (us ++ [.rparen])) n

variable {pg : Postgres} {sql : String} {m n : Node} {us : List Tok}

theorem Grammar.balanced_of_parses (g : Grammar pg) (hm : ParsesAs pg sql m) (hp : m.preparable) :
    ∃ us, tokens sql.toList = some us ∧ Balanced us := by
  obtain ⟨i, us, j, hts, _, hus⟩ := g.terminated hm hp
  have hsemis : ∀ k, Balanced (List.replicate k .semi) := by
    intro k
    induction k with
    | zero => rfl
    | succ k ih => exact ih
  refine ⟨_, hts, ?_⟩
  rw [SqlLexer.Balanced, (g.balanced hus).nesting_between (hsemis i), Balanced.nesting (hsemis j)]

/-- A statement that no terminator stands in front of or behind has none at all. -/
theorem Grammar.stmt_of_parses (g : Grammar pg) (hm : ParsesAs pg sql m) (hp : m.preparable)
    (hts : tokens sql.toList = some us) (hhead : us.head? ≠ some .semi)
    (hlast : us.getLast? ≠ some .semi) : .semi ∉ us ∧ g.Stmt us m := by
  obtain ⟨i, vs, j, hvs, hsemi, hstmt⟩ := g.terminated hm hp
  obtain rfl : us = List.replicate i .semi ++ (vs ++ List.replicate j .semi) := by
    rw [hts] at hvs
    exact Option.some.inj hvs
  cases i with
  | succ i => exact absurd (by simp [List.replicate_succ]) hhead
  | zero =>
    cases j with
    | succ j => exact absurd (by simp [List.replicate_succ']) hlast
    | zero => exact ⟨by simpa using hsemi, by simpa using hstmt⟩

theorem Grammar.stmt_of_semi_free (g : Grammar pg) (hm : ParsesAs pg sql m) (hp : m.preparable)
    (hts : tokens sql.toList = some us) (hsemi : .semi ∉ us) : g.Stmt us m := by
  refine (g.stmt_of_parses hm hp hts ?_ ?_).2
  · exact fun h => hsemi (List.mem_of_mem_head? h)
  · exact fun h => hsemi (List.mem_of_getLast? h)

end Grammar

end Allgres
