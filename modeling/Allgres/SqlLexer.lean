import Allgres.Text
import Mathlib.Data.Option.Basic

/-! The lexical structure of SQL: which characters of a text are tokens of the
grammar. Quotes and comments are resolved here, joining the pieces to operators,
numbers and continued strings is left to whoever reads them. -/

namespace SqlLexer

open Allgres

/-- What stands between a piece and the one before it. -/
inductive Gap where
  | glued | spaced | newline | comment
  deriving DecidableEq, Repr

inductive Tok where
  | lparen | rparen | semi
  | piece (gap : Gap) (text : List Char)
  deriving DecidableEq, Repr

/-- Where the lexer stands. The flag `esc` says that the last piece was an `E'…'`
string, whose continuation reads backslashes as well. -/
inductive Mode where
  | between (gap : Gap) (esc : Bool)
  | dash (gap : Gap) (esc : Bool)
  | slash (gap : Gap) (esc : Bool)
  | lineComment (gap : Gap) (esc : Bool)
  | blockComment (depth : Nat) (last : Option Char)
  | word (gap : Gap) (text : List Char)
  | quoted (gap : Gap) (esc : Bool) (text : List Char)
  | backslash (gap : Gap) (text : List Char)
  | ident (gap : Gap) (text : List Char)
  | dollar (gap : Gap) (tag : List Char)
  | dollarQuoted (gap : Gap) (tag text : List Char)
  deriving DecidableEq, Repr

def isNewline (c : Char) : Bool :=
  c == '\n' || c == '\r'

def identStart (c : Char) : Bool :=
  c.isAlpha || c == '_' || decide (128 ≤ c.toNat)

def tagCont (c : Char) : Bool :=
  identStart c || c.isDigit

def identCont (c : Char) : Bool :=
  tagCont c || c == '$'

namespace Gap

/-- The gap with one more blank in it. -/
def blank (c : Char) : Gap → Gap
  | .comment => .comment
  | .newline => .newline
  | _ => if isNewline c then .newline else .spaced

/-- A string behind such a gap is the rest of the string in front of it. -/
def continues : Gap → Bool
  | .glued | .newline => true
  | _ => false

end Gap

/-- The next character where no piece is open. -/
def fromBetween (gap : Gap) (esc : Bool) (c : Char) : List Tok × Mode :=
  if isSpace c then ([], .between (gap.blank c) esc)
  else if c = '(' then ([.lparen], .between .glued false)
  else if c = ')' then ([.rparen], .between .glued false)
  else if c = ';' then ([.semi], .between .glued false)
  else if c = '\'' then ([], .quoted gap (esc && gap.continues) [])
  else if c = '"' then ([], .ident gap [])
  else if c = '$' then ([], .dollar gap [])
  else if c = '-' then ([], .dash gap esc)
  else if c = '/' then ([], .slash gap esc)
  else if identStart c then ([], .word gap [c])
  else ([.piece gap [c]], .between .glued false)

/-- A piece that ends in front of the character. -/
def endPiece (gap : Gap) (text : List Char) (c : Char) : List Tok × Mode :=
  let r := fromBetween .glued false c
  (.piece gap text :: r.1, r.2)

/-- The next character of a word. A quote behind the single letter `E` opens a
string with backslash escapes. -/
def fromWord (gap : Gap) (text : List Char) (c : Char) : List Tok × Mode :=
  if identCont c then ([], .word gap (text ++ [c]))
  else if c = '\'' ∧ (text = ['e'] ∨ text = ['E']) then ([.piece gap text], .quoted .glued true [])
  else endPiece gap text c

def step : Mode → Char → List Tok × Mode
  | .between gap esc, c => fromBetween gap esc c
  | .dash gap esc, c =>
    if c = '-' then ([], .lineComment (gap.blank ' ') esc) else endPiece gap ['-'] c
  | .slash gap _, c => if c = '*' then ([], .blockComment 0 none) else endPiece gap ['/'] c
  | .lineComment gap esc, c =>
    if isNewline c then ([], .between (gap.blank c) esc) else ([], .lineComment gap esc)
  | .blockComment depth last, c =>
    if last = some '*' ∧ c = '/' then
      match depth with
      | 0 => ([], .between .comment false)
      | depth + 1 => ([], .blockComment depth none)
    else if last = some '/' ∧ c = '*' then ([], .blockComment (depth + 1) none)
    else ([], .blockComment depth (some c))
  | .word gap text, c => fromWord gap text c
  | .quoted gap esc text, c =>
    -- a doubled quote is a string that goes on right behind its end
    if c = '\'' then ([.piece gap ('\'' :: (text ++ ['\'']))], .between .glued esc)
    else if c = '\\' ∧ esc = true then ([], .backslash gap text)
    else ([], .quoted gap esc (text ++ [c]))
  | .backslash gap text, c => ([], .quoted gap true (text ++ ['\\', c]))
  | .ident gap text, c =>
    if c = '"' then ([.piece gap ('"' :: (text ++ ['"']))], .between .glued false)
    else ([], .ident gap (text ++ [c]))
  | .dollar gap tag, c =>
    if c = '$' then ([], .dollarQuoted gap tag [])
    else if tag = [] then
      if identStart c then ([], .dollar gap [c]) else endPiece gap ['$'] c
    else if tagCont c then ([], .dollar gap (tag ++ [c]))
    else
      let r := fromWord .glued tag c
      (.piece gap ['$'] :: r.1, r.2)
  | .dollarQuoted gap tag text, c =>
    let delim := '$' :: (tag ++ ['$'])
    if delim.isSuffixOf (text ++ [c]) then
      ([.piece gap (delim ++ (text ++ [c]))], .between .glued false)
    else ([], .dollarQuoted gap tag (text ++ [c]))

def run : Mode → List Char → List Tok × Mode
  | m, [] => ([], m)
  | m, c :: s =>
    let r := step m c
    let t := run r.2 s
    (r.1 ++ t.1, t.2)

/-- What is still open at the end of a text. A quote or a block comment may not be. -/
def finish : Mode → Option (List Tok)
  | .between _ _ | .lineComment _ _ => some []
  | .dash gap _ => some [.piece gap ['-']]
  | .slash gap _ => some [.piece gap ['/']]
  | .word gap text => some [.piece gap text]
  | .dollar gap tag =>
    some (.piece gap ['$'] :: if tag = [] then [] else [.piece .glued tag])
  | .blockComment _ _ | .quoted _ _ _ | .backslash _ _ | .ident _ _ | .dollarQuoted _ _ _ => none

def start : Mode :=
  .between .glued false

/-- The tokens of a text. -/
def tokens (s : List Char) : Option (List Tok) :=
  (finish (run start s).2).map ((run start s).1 ++ ·)

/-- The text ends inside a `--` comment, which would go on over what is put behind it. -/
def EndsInComment (s : List Char) : Prop :=
  ∃ gap esc, (run start s).2 = .lineComment gap esc

instance (s : List Char) : Decidable (EndsInComment s) :=
  match h : (run start s).2 with
  | .lineComment gap esc => isTrue ⟨gap, esc, h⟩
  | .between _ _ | .dash _ _ | .slash _ _ | .blockComment _ _ | .word _ _ | .quoted _ _ _
  | .backslash _ _ | .ident _ _ | .dollar _ _ | .dollarQuoted _ _ _ =>
    isFalse (by rintro ⟨gap, esc, he⟩; rw [h] at he; exact Mode.noConfusion he)

theorem semi_notMem_finish {m : Mode} {pending : List Tok} (h : finish m = some pending) :
    .semi ∉ pending := by
  cases m with
  | between | lineComment | dash | slash | word =>
    simp only [finish, Option.some.injEq] at h
    simp [← h]
  | dollar gap tag =>
    by_cases ht : tag = []
    · simp only [finish, ht, if_true, Option.some.injEq] at h
      simp [← h]
    · simp only [finish, ht, if_false, Option.some.injEq] at h
      simp [← h]
  | blockComment | quoted | backslash | ident | dollarQuoted => simp [finish] at h

/-- Terminators are tokens from the moment they are read. -/
theorem semi_mem_tokens {s : List Char} {ts : List Tok} (h : tokens s = some ts) :
    .semi ∈ ts ↔ .semi ∈ (run start s).1 := by
  obtain ⟨pending, hf, rfl⟩ : ∃ pending, finish (run start s).2 = some pending ∧
      (run start s).1 ++ pending = ts := by simpa [tokens, Option.map_eq_some_iff] using h
  simp [semi_notMem_finish hf]

theorem run_append (m : Mode) (s t : List Char) :
    run m (s ++ t) = ((run m s).1 ++ (run (run m s).2 t).1, (run (run m s).2 t).2) := by
  induction s generalizing m with
  | nil => simp [run]
  | cons c s ih => simp [run, ih]

theorem run_lineComment {s : List Char} (hs : ∀ c ∈ s, isNewline c = false) (gap : Gap) (esc : Bool) :
    run (.lineComment gap esc) s = ([], .lineComment gap esc) := by
  induction s with
  | nil => rfl
  | cons c s ih =>
    have hc : isNewline c = false := hs c List.mem_cons_self
    simp [run, step, hc, ih fun d hd => hs d (List.mem_cons_of_mem c hd)]

/-- A closing parenthesis ends whatever piece is open, and is a token of its own. -/
theorem step_rparen {m : Mode} {pending : List Tok} (hf : finish m = some pending)
    (hm : ∀ gap esc, m ≠ .lineComment gap esc) : step m ')' = (pending ++ [.rparen], start) := by
  have hcont : identCont ')' = false := by decide
  have htag : tagCont ')' = false := by decide
  have hstart : identStart ')' = false := by decide
  have hpiece : ∀ gap text, endPiece gap text ')' = ([.piece gap text, .rparen], start) :=
    fun _ _ => rfl
  cases m with
  | between gap esc =>
    obtain rfl : [] = pending := by simpa [finish] using hf
    rfl
  | lineComment gap esc => exact absurd rfl (hm gap esc)
  | dash gap esc =>
    obtain rfl : [Tok.piece gap ['-']] = pending := by simpa [finish] using hf
    exact hpiece gap ['-']
  | slash gap esc =>
    obtain rfl : [Tok.piece gap ['/']] = pending := by simpa [finish] using hf
    exact hpiece gap ['/']
  | word gap text =>
    obtain rfl : [Tok.piece gap text] = pending := by simpa [finish] using hf
    simp [step, fromWord, hcont, hpiece]
  | dollar gap tag =>
    by_cases ht : tag = []
    · obtain rfl : [Tok.piece gap ['$']] = pending := by simpa [finish, ht] using hf
      simp [step, ht, hstart, hpiece]
    · obtain rfl : [Tok.piece gap ['$'], .piece .glued tag] = pending := by
        simpa [finish, ht] using hf
      simp [step, ht, htag, fromWord, hcont, hpiece]
  | blockComment | quoted | backslash | ident | dollarQuoted => simp [finish] at hf

section Between

variable {front s : List Char} {ts us : List Tok}

/-- A whole text keeps its tokens between a part behind which nothing is open
and a closing parenthesis, unless it ends in a comment. -/
theorem run_between (hfront : run start front = (ts, start)) (hs : tokens s = some us)
    (hc : ¬ EndsInComment s) (t : List Char) :
    run start (front ++ (s ++ ')' :: t)) =
      (ts ++ (us ++ .rparen :: (run start t).1), (run start t).2) := by
  obtain ⟨pending, hf, rfl⟩ : ∃ pending, finish (run start s).2 = some pending ∧
      (run start s).1 ++ pending = us := by simpa [tokens, Option.map_eq_some_iff] using hs
  have hstep := step_rparen hf fun gap esc he => hc ⟨gap, esc, he⟩
  rw [run_append, hfront, run_append, run, hstep]
  simp

theorem tokens_between (hfront : run start front = (ts, start)) (hs : tokens s = some us)
    (hc : ¬ EndsInComment s) (t : List Char) :
    tokens (front ++ (s ++ ')' :: t)) = (tokens t).map fun r => ts ++ (us ++ .rparen :: r) := by
  simp only [tokens, run_between hfront hs hc t, Option.map_map]
  congr 1
  funext r
  simp

theorem endsInComment_between (hfront : run start front = (ts, start)) (hs : tokens s = some us)
    (hc : ¬ EndsInComment s) (t : List Char) :
    EndsInComment (front ++ (s ++ ')' :: t)) ↔ EndsInComment t := by
  simp only [EndsInComment, run_between hfront hs hc t]

/-- A comment at its end goes on over what stands behind the text. -/
theorem run_comment (hfront : run start front = (ts, start)) (hs : tokens s = some us)
    (hc : EndsInComment s) {t : List Char} (ht : ∀ c ∈ t, isNewline c = false) :
    ∃ gap esc, run start (front ++ (s ++ t)) = (ts ++ us, .lineComment gap esc) := by
  obtain ⟨gap, esc, he⟩ := hc
  refine ⟨gap, esc, ?_⟩
  have hus : (run start s).1 = us := by simpa [tokens, he, finish] using hs
  rw [run_append, hfront, run_append, he, run_lineComment ht, hus]
  simp

theorem tokens_comment (hfront : run start front = (ts, start)) (hs : tokens s = some us)
    (hc : EndsInComment s) {t : List Char} (ht : ∀ c ∈ t, isNewline c = false) :
    tokens (front ++ (s ++ t)) = some (ts ++ us) := by
  obtain ⟨gap, esc, h⟩ := run_comment hfront hs hc ht
  simp [tokens, h, finish]

end Between

section Nesting

/-- The number of open parentheses behind the tokens, if none was closed too early. -/
def nesting : Nat → List Tok → Option Nat
  | d, [] => some d
  | d, .lparen :: ts => nesting (d + 1) ts
  | 0, .rparen :: _ => none
  | d + 1, .rparen :: ts => nesting d ts
  | d, .semi :: ts => nesting d ts
  | d, .piece _ _ :: ts => nesting d ts

/-- Every parenthesis has its counterpart. -/
def Balanced (ts : List Tok) : Prop :=
  nesting 0 ts = some 0

instance (ts : List Tok) : Decidable (Balanced ts) :=
  inferInstanceAs (Decidable (nesting 0 ts = some 0))

theorem nesting_append (d : Nat) (ts us : List Tok) :
    nesting d (ts ++ us) = (nesting d ts).bind (nesting · us) := by
  induction ts generalizing d with
  | nil => rfl
  | cons t ts ih =>
    cases t with
    | lparen | semi | piece => simpa [nesting] using ih _
    | rparen =>
      cases d with
      | zero => rfl
      | succ d => simpa [nesting] using ih d

theorem nesting_add {d e : Nat} {ts : List Tok} (h : nesting d ts = some e) (k : Nat) :
    nesting (d + k) ts = some (e + k) := by
  induction ts generalizing d with
  | nil => simpa [nesting] using h
  | cons t ts ih =>
    cases t with
    | lparen =>
      have hk := ih (d := d + 1) (by simpa [nesting] using h)
      rwa [show d + 1 + k = d + k + 1 by omega] at hk
    | semi => exact ih (d := d) (by simpa [nesting] using h)
    | piece => exact ih (d := d) (by simpa [nesting] using h)
    | rparen =>
      cases d with
      | zero => simp [nesting] at h
      | succ d =>
        rw [show d + 1 + k = d + k + 1 by omega]
        exact ih (d := d) (by simpa [nesting] using h)

theorem Balanced.nesting {ts : List Tok} (h : Balanced ts) (d : Nat) :
    nesting d ts = some d := by
  simpa using nesting_add h d

theorem Balanced.nesting_between {front us t : List Tok} (h : Balanced us) {d : Nat}
    (hf : SqlLexer.nesting 0 front = some d) :
    SqlLexer.nesting 0 (front ++ (us ++ t)) = SqlLexer.nesting d t := by
  rw [nesting_append, hf, Option.bind_some, nesting_append, h.nesting, Option.bind_some]

/-- The parenthesis that closes a group is the first one its content leaves open. -/
theorem Balanced.close_unique {us vs s t : List Tok} (hu : Balanced us) (hv : Balanced vs)
    (h : us ++ .rparen :: s = vs ++ .rparen :: t) : us = vs ∧ s = t := by
  have hlong : ∀ {xs ys w : List Tok}, Balanced xs → Balanced ys → ys ≠ xs ++ .rparen :: w := by
    intro xs ys w hx hy he
    have hnone : SqlLexer.nesting 0 ys = none := by
      rw [he, nesting_append, hx.nesting]
      rfl
    rw [hy.nesting] at hnone
    simp at hnone
  rcases List.append_eq_append_iff.mp h with ⟨w, hw, hr⟩ | ⟨w, hw, hr⟩
  · cases w with
    | nil => exact ⟨by simpa using hw.symm, by simpa using hr⟩
    | cons x w =>
      obtain rfl : Tok.rparen = x := (List.cons.inj hr).1
      exact absurd hw (hlong hu hv)
  · cases w with
    | nil => exact ⟨by simpa using hw, by simpa using hr.symm⟩
    | cons x w =>
      obtain rfl : Tok.rparen = x := (List.cons.inj hr).1
      exact absurd hw (hlong hv hu)

end Nesting

end SqlLexer
