import Allgres.ByteSlices
import Allgres.SqlParser

/-! The analyser of `sql_parser.rs` on the bytes of a dump, with the slices it
takes and the places where they would panic. -/

namespace Allgres.Bytewise

open Bytes

def asciiWhitespace (b : Byte) : Bool :=
  b == ofAscii ' ' || b == ofAscii '\t' || b == ofAscii '\n' || b == ofAscii '\x0c' || b == ofAscii '\r'

def tokenEnd (b : Byte) : Bool :=
  asciiWhitespace b || b == ofAscii '}' || b == ofAscii ')' || b == ofAscii '{' || b == ofAscii '('

theorem sub_size_lt {i n : Nat} (c : Char) (h : i < n) : n - (i + c.utf8Size) < n - i := by
  have hpos := c.utf8Size_pos
  omega

/-- The loop of `read_token` from a position on. -/
def readTokenLoop (s : List Byte) (i : Nat) (out : Chars) : Checked (Chars × Nat) :=
  if h : i < s.length then
    if s[i] = ofAscii '\\' then
      if h' : i + 1 < s.length then readTokenLoop s (i + 2) (out ++ [asChar s[i + 1]])
      else readTokenLoop s (i + 1) out
    else if tokenEnd s[i] then .ok (out, i)
    else if (s[i]).toNat < 128 then readTokenLoop s (i + 1) (out ++ [asChar s[i]])
    else do
      let ch ← charAt s i
      readTokenLoop s (i + ch.utf8Size) (out ++ [ch])
  else .ok (out, i)
  termination_by s.length - i
  decreasing_by
    all_goals first | omega | exact sub_size_lt _ ‹_›

/-- The value and the number of bytes it takes. -/
def readToken (s : List Byte) : Checked (Option Chars × Nat) :=
  if (utf8 ['<', '>']).isPrefixOf s then .ok (none, 2)
  else if (utf8 ['"', '"']).isPrefixOf s then .ok (some [], 2)
  else do
    let (out, i) ← readTokenLoop s 0 []
    return (some out, i)

/-- The loop of `node_body` and `paren_body`. -/
def bodyLoop (op cl : Byte) (s : List Byte) (i depth : Nat) : Checked (List Byte) :=
  if h : i < s.length then
    if s[i] = ofAscii '\\' then bodyLoop op cl s (i + 2) depth
    else if s[i] = op then bodyLoop op cl s (i + 1) (depth + 1)
    else if s[i] = cl then
      if depth = 0 then sliceTo s i else bodyLoop op cl s (i + 1) (depth - 1)
    else bodyLoop op cl s (i + 1) depth
  else .ok s
  termination_by s.length - i

/-- The substring covering one node, starting just after its opener. -/
def nodeBody (s : List Byte) : Checked (List Byte) :=
  bodyLoop (ofAscii '{') (ofAscii '}') s 0 0

def parenBody (s : List Byte) : Checked (List Byte) :=
  bodyLoop (ofAscii '(') (ofAscii ')') s 0 0

/-- The two loops of `quoted_strings`. Inside a string its text so far is at hand. -/
def quotedStringsLoop (body : List Byte) (i : Nat) (current : Option Chars) (out : List Chars) :
    Checked (List Chars) :=
  if h : i < body.length then
    match current with
    | none =>
      if body[i] ≠ ofAscii '"' then quotedStringsLoop body (i + 1) none out
      else quotedStringsLoop body (i + 1) (some []) out
    | some acc =>
      if body[i] = ofAscii '"' then quotedStringsLoop body (i + 1) none (out ++ [acc])
      else if hpair : body[i] = ofAscii '\\' ∧ i + 1 < body.length then
        have h' := hpair.2
        quotedStringsLoop body (i + 2) (some (acc ++ [asChar body[i + 1]])) out
      else if (body[i]).toNat < 128 then quotedStringsLoop body (i + 1) (some (acc ++ [asChar body[i]])) out
      else do
        let ch ← charAt body i
        quotedStringsLoop body (i + ch.utf8Size) (some (acc ++ [ch])) out
  else .ok (out ++ current.toList)
  termination_by body.length - i
  decreasing_by
    all_goals first | omega | exact sub_size_lt _ ‹_›

def quotedStrings (body : List Byte) : Checked (List Chars) :=
  quotedStringsLoop body 0 none []

/-- Value of `:name` within a node body. -/
def field (body : List Byte) (name : Chars) : Checked (Option Chars) :=
  let needle := utf8 (':' :: name ++ [' '])
  match find needle body with
  | none => return none
  | some p => do
    let (value, _) ← readToken (← sliceFrom body (p + needle.length))
    return value

def readIdent (s : List Byte) : Chars :=
  (chars s).takeWhile fun c => c.isAlphanum || c == '_'

/-- `while let Some(p) = dump[idx..].find(needle)`: what is read behind the match is added to the
answer, and the search goes on there. -/
def findLoop {β : Type} (needle : SearchWord) (read : List Byte → Checked (Option β)) (dump : List Byte)
    (idx : Nat) (out : List β) : Checked (List β) :=
  match _h : sliceFrom dump idx with
  | .error e => .error e
  | .ok rest => match find (utf8 needle.chars) rest with
    | none => .ok out
    | some p => do
      let start := idx + p + (utf8 needle.chars).length
      let found ← read (← sliceFrom dump start)
      findLoop needle read dump start (out ++ found.toList)
  termination_by dump.length + 1 - idx
  decreasing_by
    have hidx := le_length_of_sliceFrom _h
    have hpos := needle.length_pos
    omega

def rawStmtWord : SearchWord := ⟨'{' :: "RAWSTMT".toList, nofun, asciiWord_of_all (by decide)⟩

def rangeVarWord : SearchWord := ⟨'{' :: "RANGEVAR ".toList, nofun, asciiWord_of_all (by decide)⟩

def ctenameWord : SearchWord := ⟨':' :: "ctename ".toList, nofun, asciiWord_of_all (by decide)⟩

def funcnameWord : SearchWord := ⟨':' :: "funcname (".toList, nofun, asciiWord_of_all (by decide)⟩

/-- The kind read behind the opener of a raw statement. -/
def rawKind (s : List Byte) : Checked (Option Chars) := do
  let body ← nodeBody s
  let needle := utf8 (":stmt ".toList ++ ['{'])
  match find needle body with
  | none => return none
  | some q => return some (readIdent (← sliceFrom body (q + needle.length)))

def readRelation (s : List Byte) : Checked (Option ReadName) := do
  let body ← nodeBody s
  match ← field body "relname".toList with
  | none => return none
  | some name => return some ⟨← field body "schemaname".toList, name⟩

def readCte (s : List Byte) : Checked (Option Chars) := do
  let (name, _) ← readToken s
  return name

def readFunction (s : List Byte) : Checked (Option ReadName) := do
  let parts ← quotedStrings (← parenBody s)
  return lastNames parts

def contains (dump : List Byte) (w : Chars) : Bool :=
  (find (utf8 w) dump).isSome

/-- `none` is the answer with `ok` false. -/
def analyzeDump (dump : List Byte) : Checked (Option Analysis) := do
  if dump = [] then return none
  let kinds ← findLoop rawStmtWord rawKind dump 0 []
  let relations ← findLoop rangeVarWord readRelation dump 0 []
  let ctes ← findLoop ctenameWord readCte dump 0 []
  let functions ← findLoop funcnameWord readFunction dump 0 []
  let hasInto := contains dump (":intoClause ".toList ++ ['{'])
  let hasDml := writeTags.any fun tag => contains dump ('{' :: tag)
  return some
    { statements := kinds.length
      kind := if kinds = ["SELECTSTMT".toList] then .select else .other
      writes := hasInto || hasDml
      relations := relations
      functions := functions
      ctes := ctes }

end Allgres.Bytewise
