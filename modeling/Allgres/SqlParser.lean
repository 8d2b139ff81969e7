import Allgres.NodeDump
import Allgres.Scan

/-! The analyser of `sql_parser.rs`: it reads the relations, the CTE names and
the functions of a statement off the text of its raw parse tree. -/

namespace Allgres

/-- `is_ascii_whitespace` of the Rust standard library. -/
def asciiWhitespace (c : Char) : Bool :=
  c == ' ' || c == '\t' || c == '\n' || c == '\x0c' || c == '\r'

def tokenEnd (c : Char) : Bool :=
  asciiWhitespace c || c == '}' || c == ')' || c == '{' || c == '('

/-- The flag says that the last character was a backslash. -/
def readTokenAux : Bool → Chars → Chars
  | _, [] => []
  | true, c :: s => c :: readTokenAux false s
  | false, c :: s =>
    if c = '\\' then readTokenAux true s
    else if tokenEnd c then []
    else c :: readTokenAux false s

def readToken (s : Chars) : Option Chars :=
  if ['<', '>'].isPrefixOf s then none
  else if ['"', '"'].isPrefixOf s then some []
  else some (readTokenAux false s)

def nodeBody (s : Chars) : Chars :=
  Scan.inside '\\' '{' '}' s

def parenBody (s : Chars) : Chars :=
  Scan.inside '\\' '(' ')' s

/-- Where `quoted_strings` stands, with the text read so far. -/
inductive QuoteState where
  | outside
  | inside (acc : Chars)
  | escaped (acc : Chars)

def quotedStringsAux : QuoteState → Chars → List Chars
  | .outside, [] => []
  | .inside acc, [] => [acc]
  | .escaped acc, [] => [acc ++ ['\\']]
  | .outside, c :: s =>
    if c = '"' then quotedStringsAux (.inside []) s else quotedStringsAux .outside s
  | .inside acc, c :: s =>
    if c = '"' then acc :: quotedStringsAux .outside s
    else if c = '\\' then quotedStringsAux (.escaped acc) s
    else quotedStringsAux (.inside (acc ++ [c])) s
  | .escaped acc, c :: s => quotedStringsAux (.inside (acc ++ [c])) s

def quotedStrings (body : Chars) : List Chars :=
  quotedStringsAux .outside body

/-- Value of `:name` within a node body. -/
def field (body name : Chars) : Option Chars :=
  (Scan.findAfter (':' :: name ++ [' ']) body).bind readToken

def readIdent (s : Chars) : Chars :=
  s.takeWhile fun c => c.isAlphanum || c == '_'

inductive StatementKind where
  | select
  | other
  deriving DecidableEq

/-- A name with the schema it was qualified with, if any. -/
structure ReadName where
  schema : Option Chars
  name : Chars
  deriving DecidableEq

structure Analysis where
  statements : Nat
  kind : StatementKind
  writes : Bool
  relations : List ReadName
  functions : List ReadName
  ctes : List Chars

/-- The kind read behind the opener of a raw statement. -/
def rawKind (s : Chars) : Option Chars :=
  (Scan.findAfter (":stmt ".toList ++ ['{']) (nodeBody s)).map readIdent

def statementKinds (dump : Chars) : List Chars :=
  (Scan.findAll ('{' :: "RAWSTMT".toList) dump).filterMap fun s =>
    (Scan.findAfter (":stmt ".toList ++ ['{']) (nodeBody s)).map readIdent

/-- One reported relation, read behind its `{RANGEVAR ` opener. -/
def readRelation (s : Chars) : Option ReadName :=
  (field (nodeBody s) "relname".toList).map fun name =>
    ⟨field (nodeBody s) "schemaname".toList, name⟩

/-- The last two strings of a name list. -/
def lastNames (parts : List Chars) : Option ReadName :=
  match parts.reverse with
  | [] => none
  | name :: rest => some ⟨rest.head?, name⟩

/-- One reported function, read behind its `:funcname (` opener. -/
def readFunction (s : Chars) : Option ReadName :=
  lastNames (quotedStrings (parenBody s))

def writeTags : List Chars :=
  ["INSERTSTMT".toList, "UPDATESTMT".toList, "DELETESTMT".toList, "MERGESTMT".toList]

/-- `none` is the answer with `ok` false. -/
def analyzeDump (dump : Chars) : Option Analysis :=
  if dump = [] then none
  else
    let kinds := statementKinds dump
    some
      { statements := kinds.length
        kind := if kinds = ["SELECTSTMT".toList] then .select else .other
        writes := Scan.occurs (":intoClause ".toList ++ ['{']) dump ||
          writeTags.any fun tag => Scan.occurs ('{' :: tag) dump
        relations := (Scan.findAll ('{' :: "RANGEVAR ".toList) dump).filterMap readRelation
        functions := (Scan.findAll (':' :: "funcname (".toList) dump).filterMap readFunction
        ctes := (Scan.findAll (':' :: "ctename ".toList) dump).filterMap readToken }

end Allgres
