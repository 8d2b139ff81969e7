import Allgres.WrappedSql

/-! A server that knows `SELECT 1` and the queries around a statement: the grammar
the wrapping relies on is one a parser can have. -/

namespace Allgres

open SqlLexer

def oneTokens : List Tok :=
  (tokens "SELECT 1".toList).getD []

def oneTree : Node :=
  selectStmt [resTarget constOne] [] none

def subselectFields (m : Node) (aliasname : String) : Fields :=
  .ofList [(word "lateral", .atom (word "false")), (word "subquery", m),
    (word "alias", .node (nodeTag "ALIAS") (.ofList
      [(word "aliasname", .token aliasname.toList), (word "colnames", .null)]))]

def rangeSubselect (m : Node) (aliasname : String) : Node :=
  .node (nodeTag "RANGESUBSELECT") (subselectFields m aliasname)

def selectLimited (targetList fromClause : List Node) (limitCount : Node) : Node :=
  .node (nodeTag "SELECTSTMT") (.ofList
    [(word "distinctClause", .null), (word "intoClause", .null),
      (word "targetList", listField targetList), (word "fromClause", listField fromClause),
      (word "whereClause", .null), (word "groupClause", .null),
      (word "groupDistinct", .atom (word "false")), (word "havingClause", .null),
      (word "windowClause", .null), (word "valuesLists", .null), (word "sortClause", .null),
      (word "limitOffset", .null), (word "limitCount", limitCount),
      (word "limitOption", .atom (word "0")), (word "lockingClause", .null),
      (word "withClause", .null), (word "op", .atom (word "0")),
      (word "all", .atom (word "false")), (word "larg", .null), (word "rarg", .null)])

/-- A `SELECT` from one subquery. -/
def selectFrom (target : Node) (m : Node) (aliasname : String) (limitCount : Node) : Node :=
  selectLimited [target] [rangeSubselect m aliasname] limitCount

def columnRef (names : List String) : Node :=
  .node (nodeTag "COLUMNREF") (.ofList
    [(word "fields", .list (.ofList (names.map fun s => .str s.toList))), locationField])

def callOf (funcname : String) (args : List Node) : Node :=
  .funcCall [funcname.toList] (.ofList
    [(word "args", .list (.ofList args)), (word "agg_order", .null),
      (word "agg_filter", .null), (word "over", .null),
      (word "agg_within_group", .atom (word "false")), (word "agg_star", .atom (word "false")),
      (word "agg_distinct", .atom (word "false")), (word "func_variadic", .atom (word "false")),
      (word "funcformat", .atom (word "0")), locationField])

def constStr (s : String) : Node :=
  .node (nodeTag "A_CONST") (.ofList [(word "val", .str s.toList), locationField])

def jsonbType : Node :=
  .node (nodeTag "TYPENAME") (.ofList
    [(word "names", .list (.ofList [.str "jsonb".toList])), (word "typeOid", .atom (word "0")),
      (word "setof", .atom (word "false")), (word "pct_type", .atom (word "false")),
      (word "typmods", .null), (word "typemod", .atom (word "-1")), (word "arrayBounds", .null),
      locationField])

def outerTree (m : Node) : Node :=
  selectFrom (resTarget (.node (nodeTag "COALESCEEXPR") (.ofList
    [(word "coalescetype", .atom (word "0")), (word "coalescecollid", .atom (word "0")),
      (word "args", .list (.ofList [callOf "jsonb_agg" [columnRef ["q", "row"]],
        .node (nodeTag "TYPECAST") (.ofList
          [(word "arg", constStr "[]"), (word "typeName", jsonbType), locationField])])),
      locationField]))) m "q" .null

def namedTarget (name : String) (val : Node) : Node :=
  .node (nodeTag "RESTARGET") (.ofList
    [(word "name", .token name.toList), (word "indirection", .null), (word "val", val), locationField])

def constInt (w : Word) : Node :=
  .node (nodeTag "A_CONST") (.ofList [(word "val", .atom w), locationField])

def innerTree (m : Node) : Node :=
  selectFrom (namedTarget "row" (callOf "to_jsonb" [columnRef ["s"]])) m "s" (constInt (word "201"))

def sublink (m : Node) : Node :=
  .node (nodeTag "SUBLINK") (.ofList
    [(word "subLinkType", .atom (word "4")), (word "subLinkId", .atom (word "0")),
      (word "testexpr", .null), (word "operName", .null), (word "subselect", m), locationField])

/-- `jsonb_agg(arg ORDER BY ord)`. -/
def orderedAgg (arg : String) : Node :=
  .funcCall ["jsonb_agg".toList] (.ofList
    [(word "args", .list (.ofList [columnRef [arg]])),
      (word "agg_order", .list (.ofList [.node (nodeTag "SORTBY") (.ofList
        [(word "node", columnRef ["ord"]), (word "sortby_dir", .atom (word "0")),
          (word "sortby_nulls", .atom (word "0")), (word "useOp", .null), locationField])])),
      (word "agg_filter", .null), (word "over", .null),
      (word "agg_within_group", .atom (word "false")), (word "agg_star", .atom (word "false")),
      (word "agg_distinct", .atom (word "false")), (word "func_variadic", .atom (word "false")),
      (word "funcformat", .atom (word "0")), locationField])

/-- `json_each(arg) WITH ORDINALITY AS e(key, value, ord)`. -/
def jsonEach (arg : Node) : Node :=
  .node (nodeTag "RANGEFUNCTION") (.ofList
    [(word "lateral", .atom (word "false")), (word "ordinality", .atom (word "true")),
      (word "is_rowsfrom", .atom (word "false")),
      (word "functions", .list (.ofList [.list (.ofList [callOf "json_each" [arg], .null])])),
      (word "alias", .node (nodeTag "ALIAS") (.ofList
        [(word "aliasname", .token "e".toList),
          (word "colnames", .list (.ofList
            [.str "key".toList, .str "value".toList, .str "ord".toList]))])),
      (word "coldeflist", .null)])

/-- `__allgres_console_q t`. -/
def consoleRows : Node :=
  .rangeVar none "__allgres_console_q".toList (.ofList
    [(word "inh", .atom (word "true")), (word "relpersistence", .atom (word "p")),
      (word "alias", .node (nodeTag "ALIAS") (.ofList
        [(word "aliasname", .token "t".toList), (word "colnames", .null)])), locationField])

def colsTree : Node :=
  selectStmt [resTarget (orderedAgg "key")]
    [rangeSubselect (selectLimited [namedTarget "j" (callOf "to_json" [columnRef ["t"]])] [consoleRows]
        (constInt (word "1"))) "r",
      jsonEach (columnRef ["r", "j"])] none

def rowsTree : Node :=
  selectFrom (resTarget (callOf "jsonb_agg" [columnRef ["vals"]]))
    (selectStmt [namedTarget "vals" (sublink (selectStmt [resTarget (orderedAgg "value")]
      [jsonEach (callOf "to_json" [columnRef ["t"]])] none))] [consoleRows] none) "x" .null

def consoleTree (m : Node) : Node :=
  selectStmt [resTarget (callOf "jsonb_build_object"
      [constStr "cols", sublink colsTree, constStr "rows", sublink rowsTree])] []
    (some (.cons "__allgres_console_q".toList (.ofList
      [(word "aliascolnames", .null), (word "ctematerialized", .atom (word "0")),
        (word "ctequery", m), (word "search_clause", .null), (word "cycle_clause", .null),
        locationField]) .nil))

/-- The statements of a server that knows `SELECT 1` and the three queries around a statement. -/
inductive SmallStmt : List Tok → Node → Prop where
  | one : SmallStmt oneTokens oneTree
  | outer {us : List Tok} {m : Node} : SmallStmt us m → SmallStmt (outerFrame.wrap us) (outerTree m)
  | inner {us : List Tok} {m : Node} : SmallStmt us m → SmallStmt (innerFrame.wrap us) (innerTree m)
  | console {us : List Tok} {m : Node} :
    SmallStmt us m → SmallStmt (consoleFrame.wrap us) (consoleTree m)

theorem Fields.get_of_ne {label : Word} {value : Node} {tail : Fields} {name : String}
    (h : label.chars ≠ name.toList) : (Fields.cons label value tail).get name = tail.get name :=
  if_neg h

theorem Fields.get_of_eq {label : Word} {value : Node} {tail : Fields} {name : String}
    (h : label.chars = name.toList) : (Fields.cons label value tail).get name = some value :=
  if_pos h

theorem Node.fromSubquery_node {tag item : Tag} {fields sub : Fields} {m : Node}
    (ht : tag.chars = "SELECTSTMT".toList)
    (hf : fields.get "fromClause" = some (.list (.cons (.node item sub) .nil)))
    (hi : item.chars = "RANGESUBSELECT".toList) (hs : sub.get "subquery" = some m) :
    (Node.node tag fields).fromSubquery = some m := by
  rw [fromSubquery, if_pos ht, hf]
  exact (if_pos hi).trans hs

theorem fromSubquery_selectFrom (target m : Node) (aliasname : String) (limitCount : Node) :
    (selectFrom target m aliasname limitCount).fromSubquery = some m := by
  have hdistinct : (word "distinctClause").chars ≠ "fromClause".toList := by decide
  have hinto : (word "intoClause").chars ≠ "fromClause".toList := by decide
  have htarget : (word "targetList").chars ≠ "fromClause".toList := by decide
  have hlateral : (word "lateral").chars ≠ "subquery".toList := by decide
  have hfrom : (word "fromClause").chars = "fromClause".toList := rfl
  have hsub : (word "subquery").chars = "subquery".toList := rfl
  have hquery : (subselectFields m aliasname).get "subquery" = some m :=
    (Fields.get_of_ne hlateral).trans (Fields.get_of_eq hsub)
  exact Node.fromSubquery_node rfl ((Fields.get_of_ne hdistinct).trans
    ((Fields.get_of_ne hinto).trans ((Fields.get_of_ne htarget).trans (Fields.get_of_eq hfrom)))) rfl hquery

theorem Node.cteBody_withStmt {tag : Tag} {ctename : Chars} {before rest after : Fields}
    {recursive : Bool} {location : Word} {m : Node} (ht : tag.chars = "SELECTSTMT".toList)
    (hn : ctename = "__allgres_console_q".toList) (hq : rest.get "ctequery" = some m) :
    (Node.withStmt tag before (.cons ctename rest .nil) recursive location after).cteBody = some m := by
  rw [cteBody, if_pos ⟨ht, hn⟩, hq]

theorem cteBody_consoleTree (m : Node) : (consoleTree m).cteBody = some m := by
  have hcols : (word "aliascolnames").chars ≠ "ctequery".toList := by decide
  have hmat : (word "ctematerialized").chars ≠ "ctequery".toList := by decide
  have hquery : (word "ctequery").chars = "ctequery".toList := rfl
  refine Node.cteBody_withStmt rfl rfl ?_
  exact (Fields.get_of_ne hcols).trans ((Fields.get_of_ne hmat).trans (Fields.get_of_eq hquery))

/-- The parts of a frame have no terminator and no other parenthesis left open. -/
def Frame.Plain (f : Frame) : Prop :=
  Balanced f.back ∧ .semi ∉ f.front ++ f.back

theorem outerFrame_plain : outerFrame.Plain := by
  rw [Frame.Plain, Frame.back, Frame.front, outerFrame, String.toList_ofList, String.toList_ofList]
  decide

theorem innerFrame_plain : innerFrame.Plain := by
  rw [Frame.Plain, Frame.back, Frame.front, innerFrame, String.toList_ofList, String.toList_ofList]
  decide

theorem consoleLines_plain :
    Balanced ((tokens (" SELECT jsonb_build_object(\n" ++ consoleLines).toList).getD []) ∧
      .semi ∉ (tokens (" SELECT jsonb_build_object(\n" ++ consoleLines).toList).getD [] := by
  rw [String.toList_append, consoleLines, String.toList_ofList, String.toList_ofList]
  decide +kernel

theorem consoleFrame_plain : consoleFrame.Plain := by
  have hfront : .semi ∉ consoleFrame.front := by
    rw [Frame.front, consoleFrame, String.toList_ofList]
    decide
  refine ⟨consoleLines_plain.1, fun h => ?_⟩
  exact (List.mem_append.mp h).elim hfront consoleLines_plain.2

theorem oneTokens_eq : oneTokens =
    [.piece .glued ['S', 'E', 'L', 'E', 'C', 'T'], .piece .spaced ['1']] := by
  rw [oneTokens, String.toList_ofList]
  decide

namespace Frame

variable {f : Frame} {us : List Tok}

theorem Plain.balanced (hf : f.Plain) (h : Balanced us) : Balanced (f.wrap us) := by
  rw [SqlLexer.Balanced, wrap, f.nesting_front, nesting_append, h.nesting]
  exact hf.1

theorem Plain.semi_notMem (hf : f.Plain) (h : .semi ∉ us) : .semi ∉ f.wrap us := by
  obtain ⟨hfront, hback⟩ := not_or.mp fun hm => hf.2 (List.mem_append.mpr hm)
  simp [wrap, hfront, hback, h]

/-- The tokens between the parts of a frame. -/
def unwrap (f : Frame) (ts : List Tok) : Option (List Tok) :=
  let us := (ts.drop f.front.length).take (ts.length - (f.wrap []).length)
  if f.wrap us = ts then some us else none

theorem unwrap_wrap (f : Frame) (us : List Tok) : f.unwrap (f.wrap us) = some us := by
  have hlen : (f.wrap us).length - (f.wrap []).length = us.length := by
    simp only [wrap, List.length_append, List.length_cons, List.length_nil]
    omega
  have hus : ((f.wrap us).drop f.front.length).take ((f.wrap us).length - (f.wrap []).length) = us := by
    rw [hlen, wrap, List.drop_left, List.take_left]
  simp only [unwrap, hus, if_true]

theorem eq_wrap_of_unwrap {ts : List Tok} (h : f.unwrap ts = some us) : ts = f.wrap us := by
  simp only [unwrap] at h
  split at h
  · next he => rw [← he, ← Option.some.inj h]
  · simp at h

theorem length_lt_wrap (f : Frame) (us : List Tok) : us.length < (f.wrap us).length := by
  simp only [wrap, List.length_append, List.length_cons]
  omega

/-- The second token, which tells the frames apart. -/
def key (f : Frame) : Option Tok :=
  f.front[1]?

theorem front_key (f : Frame) (hf : f.key.isSome) (ts : List Tok) : (f.front ++ ts)[1]? = f.key := by
  have hlen : 1 < f.front.length := by simpa [key] using hf
  rw [List.getElem?_append_left hlen, key]

theorem wrap_key (f : Frame) (hf : f.key.isSome) (us : List Tok) : (f.wrap us)[1]? = f.key :=
  f.front_key hf _

end Frame

theorem outerFrame_key : outerFrame.key = some (.piece .spaced "coalesce".toList) := by
  rw [Frame.key, Frame.front, outerFrame, String.toList_ofList, String.toList_ofList]
  rfl

theorem innerFrame_key : innerFrame.key = some (.piece .spaced "to_jsonb".toList) := by
  rw [Frame.key, Frame.front, innerFrame, String.toList_ofList, String.toList_ofList]
  rfl

theorem consoleFrame_key : consoleFrame.key = some (.piece .spaced "__allgres_console_q".toList) := by
  rw [Frame.key, Frame.front, consoleFrame, String.toList_ofList, String.toList_ofList]
  rfl

namespace SmallStmt

variable {us : List Tok} {m n : Node}

theorem isSelect (h : SmallStmt us m) : m.isSelect := by
  cases h <;> rfl

theorem balanced (h : SmallStmt us m) : Balanced us := by
  induction h with
  | one => rw [oneTokens_eq]; decide
  | outer _ ih => exact outerFrame_plain.balanced ih
  | inner _ ih => exact innerFrame_plain.balanced ih
  | console _ ih => exact consoleFrame_plain.balanced ih

theorem semi_notMem (h : SmallStmt us m) : .semi ∉ us := by
  induction h with
  | one => rw [oneTokens_eq]; decide
  | outer _ ih => exact outerFrame_plain.semi_notMem ih
  | inner _ ih => exact innerFrame_plain.semi_notMem ih
  | console _ ih => exact consoleFrame_plain.semi_notMem ih

end SmallStmt

def smallParse : Nat → List Tok → Option Node
  | 0, _ => none
  | k + 1, ts =>
    if ts = oneTokens then some oneTree
    else if ts[1]? = outerFrame.key then ((outerFrame.unwrap ts).bind (smallParse k)).map outerTree
    else if ts[1]? = innerFrame.key then ((innerFrame.unwrap ts).bind (smallParse k)).map innerTree
    else ((consoleFrame.unwrap ts).bind (smallParse k)).map consoleTree

theorem smallParse_sound {k : Nat} {ts : List Tok} {n : Node} (h : smallParse k ts = some n) :
    SmallStmt ts n := by
  induction k generalizing ts n with
  | zero => simp [smallParse] at h
  | succ k ih =>
    have hunwrap : ∀ {f : Frame} {build : Node → Node},
        ((f.unwrap ts).bind (smallParse k)).map build = some n →
          ∃ us m, ts = f.wrap us ∧ SmallStmt us m ∧ n = build m := by
      intro f build hn
      obtain ⟨m, hm, hbuild⟩ := Option.map_eq_some_iff.mp hn
      obtain ⟨us, hus, hp⟩ := Option.bind_eq_some_iff.mp hm
      exact ⟨us, m, Frame.eq_wrap_of_unwrap hus, ih hp, hbuild.symm⟩
    unfold smallParse at h
    split at h
    · next he =>
      rw [he, ← Option.some.inj h]
      exact .one
    · split at h
      · obtain ⟨us, m, rfl, hm, rfl⟩ := hunwrap h
        exact .outer hm
      · split at h
        · obtain ⟨us, m, rfl, hm, rfl⟩ := hunwrap h
          exact .inner hm
        · obtain ⟨us, m, rfl, hm, rfl⟩ := hunwrap h
          exact .console hm

theorem smallParse_complete {ts : List Tok} {n : Node} (h : SmallStmt ts n) :
    ∀ k, ts.length ≤ k → smallParse k ts = some n := by
  have hone : oneTokens[1]? = some (.piece .spaced ['1']) := by rw [oneTokens_eq]; rfl
  have hne : ∀ {f : Frame} {s : String} (us : List Tok), f.key = some (.piece .spaced s.toList) →
      s.toList ≠ ['1'] → f.wrap us ≠ oneTokens := by
    intro f s us hf hs he
    have hkey := f.wrap_key (by simp [hf]) us
    rw [he, hone, hf] at hkey
    exact hs (by simpa using hkey.symm)
  induction h with
  | one =>
    intro k hk
    cases k with
    | zero => rw [oneTokens_eq] at hk; simp at hk
    | succ k => exact if_pos rfl
  | @outer us m _ ih =>
    intro k hk
    have hlt := outerFrame.length_lt_wrap us
    cases k with
    | zero => omega
    | succ k =>
      have hkey := outerFrame.wrap_key (by simp [outerFrame_key]) us
      rw [smallParse, if_neg (hne us outerFrame_key (by decide)), if_pos hkey,
        Frame.unwrap_wrap, Option.bind_some, ih k (by omega), Option.map_some]
  | @inner us m _ ih =>
    intro k hk
    have hlt := innerFrame.length_lt_wrap us
    cases k with
    | zero => omega
    | succ k =>
      have hkey := innerFrame.wrap_key (by simp [innerFrame_key]) us
      have houter : innerFrame.key ≠ outerFrame.key := by
        rw [innerFrame_key, outerFrame_key, String.toList_ofList, String.toList_ofList]
        decide
      rw [smallParse, if_neg (hne us innerFrame_key (by decide)), hkey, if_neg houter,
        if_pos rfl, Frame.unwrap_wrap, Option.bind_some, ih k (by omega), Option.map_some]
  | @console us m _ ih =>
    intro k hk
    have hlt := consoleFrame.length_lt_wrap us
    cases k with
    | zero => omega
    | succ k =>
      have hkey := consoleFrame.wrap_key (by simp [consoleFrame_key]) us
      have houter : consoleFrame.key ≠ outerFrame.key := by
        rw [consoleFrame_key, outerFrame_key, String.toList_ofList, String.toList_ofList]
        decide
      have hinner : consoleFrame.key ≠ innerFrame.key := by
        rw [consoleFrame_key, innerFrame_key, String.toList_ofList, String.toList_ofList]
        decide
      rw [smallParse, if_neg (hne us consoleFrame_key (by decide)), hkey, if_neg houter,
        if_neg hinner, Frame.unwrap_wrap, Option.bind_some, ih k (by omega), Option.map_some]

def smallRest : Fields :=
  .ofList [(word "stmt_location", .atom (word "-1")), (word "stmt_len", .atom (word "0"))]

def smallServer : Postgres where
  rawParser := fun sql =>
    match (tokens sql.toList).bind fun ts => smallParse ts.length ts with
    | some n => .ok (.cons (rawNode n smallRest) .nil)
    | none => .error "syntax error"
  explain := fun _ _ => .ok 0

theorem smallServer_ok {sql : String} {statements : Nodes} :
    smallServer.rawParser sql = .ok statements ↔ ∃ us n, tokens sql.toList = some us ∧
      SmallStmt us n ∧ statements = .cons (rawNode n smallRest) .nil := by
  have hparse : smallServer.rawParser sql =
      match (tokens sql.toList).bind fun ts => smallParse ts.length ts with
      | some n => .ok (.cons (rawNode n smallRest) .nil)
      | none => .error "syntax error" := rfl
  rw [hparse]
  constructor
  · intro h
    cases hp : (tokens sql.toList).bind fun ts => smallParse ts.length ts with
    | none => simp [hp] at h
    | some n =>
      obtain ⟨us, hus, hn⟩ := Option.bind_eq_some_iff.mp hp
      simp only [hp, Except.ok.injEq] at h
      exact ⟨us, n, hus, smallParse_sound hn, h.symm⟩
  · rintro ⟨us, n, hus, hn, rfl⟩
    rw [hus, Option.bind_some, smallParse_complete hn us.length (Nat.le_refl _)]

theorem smallServer_parses {sql : String} {n : Node} :
    ParsesAs smallServer sql n ↔ ∃ us, tokens sql.toList = some us ∧ SmallStmt us n := by
  constructor
  · rintro ⟨rest, h⟩
    obtain ⟨us, m, hus, hm, he⟩ := smallServer_ok.mp h
    simp only [Nodes.cons.injEq, rawNode, Node.node.injEq, Fields.cons.injEq, true_and, and_true] at he
    exact ⟨us, hus, he.1 ▸ hm⟩
  · rintro ⟨us, hus, hn⟩
    exact ⟨smallRest, smallServer_ok.mpr ⟨us, n, hus, hn, rfl⟩⟩

/-- The list of table expressions alone is no statement of the server. -/
theorem SmallStmt.not_withAlone {us : List Tok} {n : Node} (hus : Balanced us) :
    ¬ SmallStmt (consoleFrame.front ++ (us ++ [.rparen])) n := by
  intro h
  have hkey := consoleFrame.front_key (by simp [consoleFrame_key]) (us ++ [.rparen])
  generalize hts : consoleFrame.front ++ (us ++ [.rparen]) = ts at h hkey
  cases h with
  | one =>
    rw [oneTokens_eq, consoleFrame_key, String.toList_ofList] at hkey
    exact absurd hkey (by decide)
  | @outer vs m _ =>
    rw [Frame.wrap, outerFrame.front_key (by simp [outerFrame_key]), consoleFrame_key, outerFrame_key,
      String.toList_ofList, String.toList_ofList] at hkey
    exact absurd hkey (by decide)
  | @inner vs m _ =>
    rw [Frame.wrap, innerFrame.front_key (by simp [innerFrame_key]), consoleFrame_key, innerFrame_key,
      String.toList_ofList, String.toList_ofList] at hkey
    exact absurd hkey (by decide)
  | @console vs m hvs =>
    have hnil := (hus.close_unique hvs.balanced (List.append_cancel_left hts)).2
    obtain ⟨ws, t, hback, _⟩ := consoleFrame.back_concat
    rw [consoleFrame.tokens_after, Option.some.injEq, ← hnil] at hback
    simp at hback

def smallGrammar : Grammar smallServer where
  Stmt := SmallStmt
  raw := by
    intro sql statements h
    obtain ⟨us, n, _, hn, rfl⟩ := smallServer_ok.mp h
    have hident : "SELECTSTMT".toList.all (fun c => c.isAlphanum || c == '_') = true := by
      decide
    exact ⟨⟨n, smallRest, _, rfl, hn.isSelect, fun c hc => List.all_eq_true.mp hident c hc⟩, trivial⟩
  parses := fun hts hn => smallServer_parses.mpr ⟨_, hts, hn⟩
  terminated := by
    intro sql n hn _
    obtain ⟨us, hus, hstmt⟩ := smallServer_parses.mp hn
    exact ⟨0, us, 0, by simpa using hus, hstmt.semi_notMem, hstmt⟩
  balanced := fun h => h.balanced
  subquery := by
    intro f hf us m hm _
    rcases List.mem_cons.mp hf with rfl | hf
    · exact ⟨_, .outer hm, fromSubquery_selectFrom _ _ _ _⟩
    · obtain rfl : f = innerFrame := List.mem_singleton.mp hf
      exact ⟨_, .inner hm, fromSubquery_selectFrom _ _ _ _⟩
  cte := fun hm _ => ⟨_, .console hm, cteBody_consoleTree _⟩
  cteBody := by
    intro us n m hn hbody
    cases hn with
    | one | outer | inner => exact absurd hbody nofun
    | console hm =>
      rw [cteBody_consoleTree, Option.some.injEq] at hbody
      exact hbody ▸ hm.isSelect.preparable
  withAlone := SmallStmt.not_withAlone

end Allgres
