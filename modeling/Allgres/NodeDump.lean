import Allgres.Text

/-! Raw parse trees and the text `nodeToString` writes for them. Only the nodes
that carry a name are told apart; every other node is a tag with its fields. -/

namespace Allgres

abbrev Chars := List Char

/-- The characters `outToken` protects wherever they stand. -/
def tokenSpecial (c : Char) : Bool :=
  c == ' ' || c == '\n' || c == '\t' || c == '(' || c == ')' || c == '{' || c == '}' || c == '\\'

def tokenEscape (c : Char) : Chars :=
  if tokenSpecial c then ['\\', c] else [c]

/-- A leading character that would make the token look like a null, a string or a number. -/
def leadingSpecial : Chars → Bool
  | [] => false
  | c :: s => c == '<' || c == '"' || c.isDigit ||
      ((c == '+' || c == '-') && match s with
        | [] => false
        | d :: _ => d.isDigit || d == '.')

/-- `outToken` on a text that is there. -/
def outToken (s : Chars) : Chars :=
  if s = [] then ['"', '"']
  else (if leadingSpecial s then ['\\'] else []) ++ s.flatMap tokenEscape

def outOptToken : Option Chars → Chars
  | none => ['<', '>']
  | some s => outToken s

/-- `_outString`: a String node stands between double quotes. -/
def outString (s : Chars) : Chars :=
  '"' :: ((if s = [] then [] else outToken s) ++ ['"'])

/-- A tag, a field name, a number or a flag: nothing in it needs protection. -/
structure Word where
  chars : Chars
  plain : chars.all (fun c => !tokenSpecial c) = true

/-- The tags that have a constructor of their own. -/
def namedTags : List Chars :=
  ["RANGEVAR".toList, "FUNCCALL".toList, "SQLVALUEFUNCTION".toList, "WITHCLAUSE".toList,
    "COMMONTABLEEXPR".toList]

structure Tag extends Word where
  other : chars ∉ namedTags

inductive SqlValueFunctionOp where
  | currentDate | currentTime | currentTimeN | currentTimestamp | currentTimestampN
  | localtime | localtimeN | localtimestamp | localtimestampN
  | currentRole | currentUser | user | sessionUser | currentCatalog | currentSchema
  deriving DecidableEq

namespace SqlValueFunctionOp

/-- The position in the `SVFOP_` enumeration, which is what the dump shows. -/
def code : SqlValueFunctionOp → Chars
  | currentDate => ['0'] | currentTime => ['1'] | currentTimeN => ['2']
  | currentTimestamp => ['3'] | currentTimestampN => ['4'] | localtime => ['5']
  | localtimeN => ['6'] | localtimestamp => ['7'] | localtimestampN => ['8']
  | currentRole => ['9'] | currentUser => ['1', '0'] | user => ['1', '1']
  | sessionUser => ['1', '2'] | currentCatalog => ['1', '3'] | currentSchema => ['1', '4']

/-- The keyword, which is also the name of the function it stands for. -/
def keyword : SqlValueFunctionOp → String
  | currentDate => "current_date"
  | currentTime | currentTimeN => "current_time"
  | currentTimestamp | currentTimestampN => "current_timestamp"
  | localtime | localtimeN => "localtime"
  | localtimestamp | localtimestampN => "localtimestamp"
  | currentRole => "current_role"
  | currentUser => "current_user"
  | user => "user"
  | sessionUser => "session_user"
  | currentCatalog => "current_catalog"
  | currentSchema => "current_schema"

end SqlValueFunctionOp

mutual

inductive Node where
  | null
  | atom (w : Word)
  | token (s : Chars)
  | str (s : Chars)
  | list (xs : Nodes)
  | rangeVar (schemaname : Option Chars) (relname : Chars) (rest : Fields)
  | funcCall (funcname : List Chars) (rest : Fields)
  | sqlValueFunction (op : SqlValueFunctionOp) (rest : Fields)
  | withStmt (tag : Tag) (before : Fields) (ctes : Ctes) (recursive : Bool) (location : Word)
      (after : Fields)
  | node (tag : Tag) (fields : Fields)

inductive Nodes where
  | nil
  | cons (head : Node) (tail : Nodes)

/-- A flag is a bare word, as in `{A_CONST NULL :location 7}`. -/
inductive Fields where
  | nil
  | flag (w : Word) (tail : Fields)
  | cons (label : Word) (value : Node) (tail : Fields)

/-- The common table expressions of one `WITH`, in order. -/
inductive Ctes where
  | nil
  | cons (ctename : Chars) (rest : Fields) (tail : Ctes)

end

/-- A list of String nodes behind a separator. -/
def dumpStrings (sep : Chars) : List Chars → Chars
  | [] => []
  | s :: ss => sep ++ outString s ++ dumpStrings [' '] ss

mutual

/-- `nodeToString`. -/
def Node.dump : Node → Chars
  | .null => ['<', '>']
  | .atom w => w.chars
  | .token s => outToken s
  | .str s => outString s
  | .list xs => '(' :: (xs.dump [] ++ [')'])
  | .rangeVar schemaname relname rest =>
    '{' :: "RANGEVAR ".toList ++ (":schemaname ".toList ++ outOptToken schemaname ++
      (' ' :: ":relname ".toList ++ outToken relname ++ rest.dump)) ++ ['}']
  | .funcCall funcname rest =>
    '{' :: "FUNCCALL ".toList ++ (":funcname (".toList ++ dumpStrings [] funcname ++ [')'] ++
      rest.dump) ++ ['}']
  | .sqlValueFunction op rest =>
    '{' :: "SQLVALUEFUNCTION ".toList ++ (":op ".toList ++ op.code ++ rest.dump) ++ ['}']
  | .withStmt tag before ctes recursive location after =>
    '{' :: tag.chars ++ (before.dump ++ " :withClause ".toList ++
      ('{' :: "WITHCLAUSE :ctes ".toList ++ ('(' :: ctes.dump [] ++ [')']) ++
        ((if recursive then " :recursive true".toList else " :recursive false".toList) ++
          (" :location ".toList ++ location.chars)) ++ ['}']) ++
      after.dump) ++ ['}']
  | .node tag fields => '{' :: tag.chars ++ fields.dump ++ ['}']

def Nodes.dump (sep : Chars) : Nodes → Chars
  | .nil => []
  | .cons x xs => sep ++ x.dump ++ xs.dump [' ']

def Fields.dump : Fields → Chars
  | .nil => []
  | .flag w tail => ' ' :: w.chars ++ tail.dump
  | .cons label value tail => " :".toList ++ label.chars ++ [' '] ++ value.dump ++ tail.dump

def Ctes.dump (sep : Chars) : Ctes → Chars
  | .nil => []
  | .cons ctename rest tail =>
    sep ++ ('{' :: "COMMONTABLEEXPR ".toList ++ (":ctename ".toList ++ outToken ctename ++
      rest.dump) ++ ['}']) ++ tail.dump [' ']

end

/-- A relation name of the tree, with the CTE names whose scope covers its place. -/
structure Reference where
  schemaname : Option Chars
  relname : Chars
  scope : List Chars
  deriving DecidableEq

def Ctes.names : Ctes → List Chars
  | .nil => []
  | .cons ctename _ tail => ctename :: tail.names

mutual

/-- All relation references below a node. A `WITH` covers the statement it
belongs to; without `RECURSIVE` a CTE sees those listed before it, with it all. -/
def Node.references (scope : List Chars) : Node → List Reference
  | .null | .atom _ | .token _ | .str _ => []
  | .list xs => xs.references scope
  | .rangeVar schemaname relname rest => ⟨schemaname, relname, scope⟩ :: rest.references scope
  | .funcCall _ rest => rest.references scope
  | .sqlValueFunction _ rest => rest.references scope
  | .withStmt _ before ctes recursive _ after =>
    before.references (ctes.names ++ scope) ++
      (ctes.references (if recursive then ctes.names ++ scope else scope) ++
        after.references (ctes.names ++ scope))
  | .node _ fields => fields.references scope

def Nodes.references (scope : List Chars) : Nodes → List Reference
  | .nil => []
  | .cons x xs => x.references scope ++ xs.references scope

def Fields.references (scope : List Chars) : Fields → List Reference
  | .nil => []
  | .flag _ tail => tail.references scope
  | .cons _ value tail => value.references scope ++ tail.references scope

def Ctes.references (scope : List Chars) : Ctes → List Reference
  | .nil => []
  | .cons ctename rest tail => rest.references scope ++ tail.references (ctename :: scope)

end

mutual

/-- A node and all nodes below it. -/
def Node.subnodes : Node → List Node
  | .null => [.null]
  | .atom w => [.atom w]
  | .token s => [.token s]
  | .str s => [.str s]
  | .list xs => .list xs :: xs.subnodes
  | .rangeVar schemaname relname rest => .rangeVar schemaname relname rest :: rest.subnodes
  | .funcCall funcname rest => .funcCall funcname rest :: rest.subnodes
  | .sqlValueFunction op rest => .sqlValueFunction op rest :: rest.subnodes
  | .withStmt tag before ctes recursive location after =>
    .withStmt tag before ctes recursive location after ::
      (before.subnodes ++ (ctes.subnodes ++ after.subnodes))
  | .node tag fields => .node tag fields :: fields.subnodes

def Nodes.subnodes : Nodes → List Node
  | .nil => []
  | .cons x xs => x.subnodes ++ xs.subnodes

def Fields.subnodes : Fields → List Node
  | .nil => []
  | .flag _ tail => tail.subnodes
  | .cons _ value tail => value.subnodes ++ tail.subnodes

def Ctes.subnodes : Ctes → List Node
  | .nil => []
  | .cons _ rest tail => rest.subnodes ++ tail.subnodes

end

def Node.funcname? : Node → Option (List Chars)
  | .funcCall funcname _ => some funcname
  | _ => none

def Node.valueFunction? : Node → Option SqlValueFunctionOp
  | .sqlValueFunction op _ => some op
  | _ => none

/-- The name lists of all function calls. -/
def Node.funcnames (n : Node) : List (List Chars) :=
  n.subnodes.filterMap Node.funcname?

def Node.valueFunctions (n : Node) : List SqlValueFunctionOp :=
  n.subnodes.filterMap Node.valueFunction?

def Nodes.ofList : List Node → Nodes
  | [] => .nil
  | x :: xs => .cons x (ofList xs)

def Fields.ofList : List (Word × Node) → Fields
  | [] => .nil
  | (label, value) :: fs => .cons label value (ofList fs)

def Fields.append : Fields → Fields → Fields
  | .nil, gs => gs
  | .flag w tail, gs => .flag w (tail.append gs)
  | .cons label value tail, gs => .cons label value (tail.append gs)

def word (s : String)
    (h : s.toList.all (fun c => !tokenSpecial c) = true := by exact Eq.refl true) : Word :=
  ⟨s.toList, h⟩

def nodeTag (s : String)
    (h : s.toList.all (fun c => !tokenSpecial c) = true := by exact Eq.refl true)
    (ho : decide (s.toList ∉ namedTags) = true := by exact Eq.refl true) : Tag :=
  ⟨⟨s.toList, h⟩, of_decide_eq_true ho⟩

/-- A list field: the empty list prints as a null. -/
def listField : List Node → Node
  | [] => .null
  | xs => .list (.ofList xs)

/-- A `SELECT` with the given targets, `FROM` items and `WITH` list. -/
def selectStmt (targetList fromClause : List Node) (withClause : Option Ctes) : Node :=
  let before := Fields.ofList
    [(word "distinctClause", .null), (word "intoClause", .null),
      (word "targetList", listField targetList), (word "fromClause", listField fromClause),
      (word "whereClause", .null), (word "groupClause", .null),
      (word "groupDistinct", .atom (word "false")), (word "havingClause", .null),
      (word "windowClause", .null), (word "valuesLists", .null), (word "sortClause", .null),
      (word "limitOffset", .null), (word "limitCount", .null),
      (word "limitOption", .atom (word "0")), (word "lockingClause", .null)]
  let after := Fields.ofList
    [(word "op", .atom (word "0")), (word "all", .atom (word "false")),
      (word "larg", .null), (word "rarg", .null)]
  match withClause with
  | some ctes => .withStmt (nodeTag "SELECTSTMT") before ctes false (word "-1") after
  | none => .node (nodeTag "SELECTSTMT") (before.append (.cons (word "withClause") .null after))

end Allgres
