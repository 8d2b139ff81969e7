import Allgres.Scan
import Allgres.Text
import Mathlib.Data.List.Basic

/-! Bodies of PL/pgSQL: how they are read, and in which order their blocks are run. The scanner and
the grammar of the statements are parameters. -/

namespace Allgres

inductive PlToken where
  | keyword (k : String)
  | word (s : String)
  | string (s : String)
  | symbol (s : String)
  deriving DecidableEq

namespace PlToken

def opens : PlToken :=
  keyword "begin"

def ends : PlToken :=
  keyword "end"

def performs : PlToken :=
  keyword "perform"

def excepts : PlToken :=
  keyword "exception"

def semicolon : PlToken :=
  symbol ";"

def pound : PlToken :=
  symbol "#"

/-- What may stand for a label behind the `END` of a block. -/
def canLabel : PlToken → Bool
  | word _ => true
  | keyword k => k ≠ "begin" ∧ k ≠ "end"
  | _ => false

def isString : PlToken → Bool
  | string _ => true
  | _ => false

end PlToken

open PlToken

mutual

inductive PlStmt where
  | perform (expr : List PlToken)
  | other (text : List PlToken)
  | block (b : PlBlock)

/-- A block with the initialisers it declares, its statements, and the handlers around these. -/
inductive PlBlock where
  | mk (inits : List (List PlToken)) (stmts : List PlStmt) (handlers : List (List PlToken × List PlStmt))

end

/-- PL/pgSQL. `block` and `stmts` read what they can from the front and hand back the rest, and
`options` takes off the directives. -/
structure PlPgSql where
  scan : String → Option (List PlToken)
  options : List PlToken → List (List PlToken) × List PlToken
  block : List PlToken → Option (PlBlock × List PlToken)
  stmts : List PlToken → Option (List PlStmt × List PlToken)

namespace PlPgSql

/-- Directives, one block and an optional semicolon. -/
def body (L : PlPgSql) (ts : List PlToken) : Option (List (List PlToken) × PlBlock) :=
  match L.block (L.options ts).2 with
  | some (b, []) => some ((L.options ts).1, b)
  | some (b, [t]) => if t = semicolon then some ((L.options ts).1, b) else none
  | _ => none

def parse (L : PlPgSql) (source : String) : Option (List (List PlToken) × PlBlock) :=
  (L.scan source).bind L.body

/-- The first token a block can have. -/
def startsBlock (ts : List PlToken) : Bool :=
  ts.head?.any fun t => t = opens ∨ t = keyword "declare" ∨ t = symbol "<<"

/-- What is documented of the scanner. A line break ends a token unless a string is continued on the
next line. -/
structure Scans (L : PlPgSql) : Prop where
  empty : L.scan "" = some []
  separator : L.scan ";" = some [semicolon]
  finish : L.scan "END;" = some [ends, semicolon]
  join : ∀ a b ts, L.scan a = some ts →
    (ts.getLast?.any isString = false ∨ ∀ us, L.scan b = some us → us.head?.any isString = false) →
      L.scan (a ++ "\n" ++ b) = (L.scan b).map (ts ++ ·)
  trail : ∀ a, L.scan (a ++ "\n") = L.scan a

/-- What is documented of the grammar. -/
structure Reads (L : PlPgSql) : Prop where
  no_options : ∀ ts, ts.head? ≠ some pound → L.options ts = ([], ts)
  block_start : ∀ ts r, L.block ts = some r → startsBlock ts = true
  block_local : ∀ ts us b rest, L.block ts = some (b, rest) →
    (rest = [] → us.head?.any canLabel = false) → L.block (ts ++ us) = some (b, rest ++ us)
  block_begin : ∀ ts b rest, L.block (opens :: ts) = some (b, rest) →
    ∃ ss us handlers, L.stmts ts = some (ss, us) ∧ b = .mk [] ss handlers ∧
      ((us.head? = some ends ∧ handlers = []) ∨ us.head? = some excepts)
  stmts_perform : ∀ e ts ss us, semicolon ∉ e →
    L.stmts (performs :: (e ++ semicolon :: ts)) = some (ss, us) →
      ∃ ss', L.stmts ts = some (ss', us) ∧ ss = .perform e :: ss'
  stmts_block : ∀ ts b rest ss us, L.block ts = some (b, rest) → L.stmts ts = some (ss, us) →
    ∃ vs ss', rest = semicolon :: vs ∧ L.stmts vs = some (ss', us) ∧ ss = .block b :: ss'
  stmts_stop : ∀ t ts ss us, t = ends ∨ t = semicolon ∨ t = pound →
    L.stmts (t :: ts) = some (ss, us) → ss = [] ∧ us = t :: ts

theorem body_some {L : PlPgSql} {ts : List PlToken} {ds : List (List PlToken)} {b : PlBlock}
    (h : L.body ts = some (ds, b)) :
    ∃ rest, (L.options ts).1 = ds ∧ L.block (L.options ts).2 = some (b, rest) ∧
      (rest = [] ∨ rest = [semicolon]) := by
  unfold body at h
  split at h
  · next b' hr =>
    cases h
    exact ⟨[], rfl, hr, .inl rfl⟩
  · next b' t hr =>
    split_ifs at h with ht
    cases h
    exact ⟨[t], rfl, hr, .inr (by rw [ht])⟩
  · cases h

/-- What is read behind a `PERFORM` at the start of a block. -/
theorem stmts_of_wrapped {L : PlPgSql} (hL : L.Reads) {g us : List PlToken} {ds : List (List PlToken)}
    {w : PlBlock} (hg : semicolon ∉ g)
    (hw : L.body (opens :: performs :: (g ++ semicolon :: us)) = some (ds, w)) :
    ∃ ss vs handlers, ds = [] ∧ L.stmts us = some (ss, vs) ∧ w = .mk [] (.perform g :: ss) handlers ∧
      ((vs.head? = some ends ∧ handlers = []) ∨ vs.head? = some excepts) := by
  have hoptions := hL.no_options (opens :: performs :: (g ++ semicolon :: us)) (by simp [opens, pound])
  obtain ⟨rest, hds, hblock, -⟩ := body_some hw
  rw [hoptions] at hds hblock
  obtain ⟨ss, vs, handlers, hstmts, rfl, hend⟩ := hL.block_begin _ _ _ hblock
  obtain ⟨ss', hrest, rfl⟩ := hL.stmts_perform _ _ _ _ hg hstmts
  exact ⟨ss', vs, handlers, hds.symm, hrest, rfl, hend⟩

theorem plain_of_stmts {L : PlPgSql} (hL : L.Reads) {ts last us : List PlToken} {ss : List PlStmt}
    (hstmts : L.stmts (ts ++ last) = some (ss, us)) (hstop : us.head? = some ends ∨ us.head? = some excepts) :
    ts.head? ≠ some pound := by
  intro hhash
  obtain ⟨ts', rfl⟩ : ∃ ts', ts = pound :: ts' := ⟨_, List.eq_cons_of_mem_head? hhash⟩
  obtain ⟨-, rfl⟩ := hL.stmts_stop _ _ _ _ (.inr (.inr rfl)) hstmts
  rcases hstop with h | h <;> simp [pound, ends, excepts] at h

/-- A body that begins a list of statements has no directives, and stands there as one block. -/
theorem block_of_stmts {L : PlPgSql} (hL : L.Reads) {ts last us : List PlToken} {ds : List (List PlToken)}
    {b : PlBlock} {ss : List PlStmt} (hb : L.body ts = some (ds, b)) (hlabel : last.head?.any canLabel = false)
    (hstmts : L.stmts (ts ++ last) = some (ss, us)) (hstop : us.head? = some ends ∨ us.head? = some excepts) :
    ∃ rest vs ss', ds = [] ∧ L.block ts = some (b, rest) ∧ (rest = [] ∨ rest = [semicolon]) ∧
      rest ++ last = semicolon :: vs ∧ L.stmts vs = some (ss', us) ∧ ss = .block b :: ss' := by
  have hplain := hL.no_options ts (plain_of_stmts hL hstmts hstop)
  obtain ⟨rest, hds, hinner, hafter⟩ := body_some hb
  rw [hplain] at hds hinner
  have hlocal := hL.block_local ts last b rest hinner fun _ => hlabel
  obtain ⟨vs, ss', hsplit, hvs, hss⟩ := hL.stmts_block _ _ _ _ _ hlocal hstmts
  exact ⟨rest, vs, ss', hds.symm, hinner, hafter, hsplit, hvs, hss⟩

/-- A body that is nested behind a `PERFORM` is read there as the block it is on its own. -/
theorem body_nested {L : PlPgSql} (hL : L.Reads) {g ts last : List PlToken} {ds ds' : List (List PlToken)}
    {b w : PlBlock} (hg : semicolon ∉ g) (hb : L.body ts = some (ds, b))
    (hlast : last = [ends, semicolon] ∨ last = [semicolon, ends, semicolon])
    (hw : L.body (opens :: performs :: (g ++ semicolon :: (ts ++ last))) = some (ds', w)) :
    w = .mk [] [.perform g, .block b] [] := by
  obtain ⟨ss, us, handlers, -, hrest, rfl, hend⟩ := stmts_of_wrapped hL hg hw
  have hstop : us.head? = some ends ∨ us.head? = some excepts := hend.imp_left (·.1)
  have hlabel : last.head?.any canLabel = false := by
    rcases hlast with rfl | rfl <;> decide
  obtain ⟨rest, vs, ss', -, -, hafter, hsplit, hvs, rfl⟩ := block_of_stmts hL hb hlabel hrest hstop
  have hmissing : semicolon ≠ ends := by decide
  have htail : vs = [ends, semicolon] ∨ vs = [semicolon, ends, semicolon] := by
    rcases hafter with rfl | rfl <;> rcases hlast with rfl | rfl <;>
      simp only [List.nil_append, List.cons_append, List.cons.injEq] at hsplit
    · exact absurd hsplit.1.symm hmissing
    · exact .inl hsplit.2.symm
    · exact .inl hsplit.2.symm
    · exact .inr hsplit.2.symm
  rcases htail with rfl | rfl
  · obtain ⟨rfl, rfl⟩ := hL.stmts_stop _ _ _ _ (.inl rfl) hvs
    rcases hend with ⟨-, rfl⟩ | h
    · rfl
    · simp [ends, excepts] at h
  · obtain ⟨-, rfl⟩ := hL.stmts_stop _ _ _ _ (.inr (.inl rfl)) hvs
    rcases hstop with h | h <;> simp [semicolon, ends, excepts] at h

end PlPgSql

/-- How the evaluation of an initialiser or of a statement ends. -/
inductive PlOutcome where
  | goesOn
  | leaves
  | raises
  deriving DecidableEq

/-- What is evaluated, and in how many exception handlers it stands. -/
structure PlEvent where
  text : List PlToken
  handlers : Nat
  deriving DecidableEq

/-- How everything turns out that a body can evaluate, and which conditions catch an error. -/
structure PlOracle where
  outcome : List PlEvent → PlEvent → PlOutcome
  catches : List PlEvent → List PlToken → Bool

section Execution

variable (O : PlOracle)

def evaluate (depth : Nat) (text : List PlToken) (past : List PlEvent) : List PlEvent × PlOutcome :=
  (past ++ [⟨text, depth⟩], O.outcome past ⟨text, depth⟩)

def runInits (depth : Nat) : List (List PlToken) → List PlEvent → List PlEvent × PlOutcome
  | [], past => (past, .goesOn)
  | init :: inits, past => match evaluate O depth init past with
    | (past', .goesOn) => runInits depth inits past'
    | r => r

mutual

def runStmt (depth : Nat) : PlStmt → List PlEvent → List PlEvent × PlOutcome
  | .perform expr, past => evaluate O depth expr past
  | .other text, past => evaluate O depth text past
  | .block b, past => runBlock depth b past

def runStmts (depth : Nat) : List PlStmt → List PlEvent → List PlEvent × PlOutcome
  | [], past => (past, .goesOn)
  | s :: ss, past => match runStmt depth s past with
    | (past', .goesOn) => runStmts depth ss past'
    | r => r

def runHandlers (depth : Nat) :
    List (List PlToken × List PlStmt) → List PlEvent → List PlEvent × PlOutcome
  | [], past => (past, .raises)
  | (condition, ss) :: rest, past =>
    if O.catches past condition then runStmts depth ss past else runHandlers depth rest past

/-- The handlers of a block are about its statements, not about its initialisers. -/
def runBlock (depth : Nat) : PlBlock → List PlEvent → List PlEvent × PlOutcome
  | .mk inits stmts handlers, past => match runInits O depth inits past with
    | (past', .goesOn) => match runStmts (if handlers.isEmpty then depth else depth + 1) stmts past' with
      | (past'', .raises) => runHandlers depth handlers past''
      | r => r
    | r => r

end

/-- A block that first performs `g`, outside of every handler, and does nothing else if this fails. -/
def RunsFirst (g : List PlToken) (w : PlBlock) : Prop :=
  ∀ O : PlOracle, ∃ later, (runBlock O 0 w []).1 = ⟨g, 0⟩ :: later ∧
    (O.outcome [] ⟨g, 0⟩ = .raises → later = [] ∧ (runBlock O 0 w []).2 = .raises)

/-- What has been evaluated stays evaluated. -/
theorem runInits_past (depth : Nat) (inits : List (List PlToken)) (past : List PlEvent) :
    past <+: (runInits O depth inits past).1 := by
  induction inits generalizing past with
  | nil => exact List.prefix_rfl
  | cons init inits ih =>
    have hfirst : past <+: (evaluate O depth init past).1 := List.prefix_append past _
    unfold runInits
    rcases he : evaluate O depth init past with ⟨past', _ | _ | _⟩ <;> rw [he] at hfirst
    · exact hfirst.trans (ih past')
    · exact hfirst
    · exact hfirst

mutual

theorem runStmt_past (depth : Nat) (s : PlStmt) (past : List PlEvent) :
    past <+: (runStmt O depth s past).1 := by
  cases s with
  | perform expr => rw [runStmt]; exact List.prefix_append past _
  | other text => rw [runStmt]; exact List.prefix_append past _
  | block b => rw [runStmt]; exact runBlock_past depth b past

theorem runStmts_past (depth : Nat) (ss : List PlStmt) (past : List PlEvent) :
    past <+: (runStmts O depth ss past).1 := by
  cases ss with
  | nil => rw [runStmts]
  | cons s ss =>
    have hfirst := runStmt_past depth s past
    rw [runStmts]
    rcases he : runStmt O depth s past with ⟨past', _ | _ | _⟩ <;> rw [he] at hfirst
    · exact hfirst.trans (runStmts_past depth ss past')
    · exact hfirst
    · exact hfirst

theorem runHandlers_past (depth : Nat) (hs : List (List PlToken × List PlStmt)) (past : List PlEvent) :
    past <+: (runHandlers O depth hs past).1 := by
  cases hs with
  | nil => rw [runHandlers]
  | cons h rest =>
    obtain ⟨condition, ss⟩ := h
    rw [runHandlers]
    split
    · exact runStmts_past depth ss past
    · exact runHandlers_past depth rest past

theorem runBlock_past (depth : Nat) (b : PlBlock) (past : List PlEvent) :
    past <+: (runBlock O depth b past).1 := by
  cases b with
  | mk inits stmts handlers =>
    have hinits := runInits_past O depth inits past
    rw [runBlock]
    rcases hi : runInits O depth inits past with ⟨past', _ | _ | _⟩ <;> rw [hi] at hinits
    · have hstmts := runStmts_past (if handlers.isEmpty then depth else depth + 1) stmts past'
      dsimp only
      rcases hr : runStmts O (if handlers.isEmpty then depth else depth + 1) stmts past' with
        ⟨past'', _ | _ | _⟩ <;> rw [hr] at hstmts
      · exact hinits.trans hstmts
      · exact hinits.trans hstmts
      · exact hinits.trans (hstmts.trans (runHandlers_past depth handlers past''))
    · exact hinits
    · exact hinits

end

end Execution

theorem runsFirst_nested (g : List PlToken) (b : PlBlock) : RunsFirst g (.mk [] [.perform g, .block b] []) := by
  intro O
  have hperform : runStmt O 0 (.perform g) [] = ([⟨g, 0⟩], O.outcome [] ⟨g, 0⟩) := by
    rw [runStmt]
    rfl
  rw [runBlock, runInits]
  simp only [List.isEmpty_nil, if_true]
  rw [runStmts, hperform]
  cases ho : O.outcome [] ⟨g, 0⟩ with
  | goesOn =>
    obtain ⟨later, hlater⟩ := runStmts_past O 0 [.block b] [⟨g, 0⟩]
    dsimp only
    rcases hr : runStmts O 0 [.block b] [⟨g, 0⟩] with ⟨past, _ | _ | _⟩ <;> rw [hr] at hlater
    · exact ⟨later, hlater.symm, nofun⟩
    · exact ⟨later, hlater.symm, nofun⟩
    · refine ⟨later, ?_, nofun⟩
      simp only [runHandlers]
      exact hlater.symm
  | leaves => exact ⟨[], rfl, nofun⟩
  | raises =>
    refine ⟨[], ?_, fun _ => ⟨rfl, ?_⟩⟩ <;> simp only [runHandlers]

/-! A fragment of PL/pgSQL: blocks of `PERFORM`, of `NULL` and of blocks that do nothing. -/

namespace Fragment

inductive LexState where
  | blank
  | inWord (w : List Char)
  | inString (w : List Char)
  deriving DecidableEq

def wordToken (w : List Char) : PlToken :=
  let s := lower (String.ofList w)
  if s ∈ ["begin", "end", "perform", "null", "exception", "declare"] then keyword s else .word s

namespace LexState

def emit : LexState → List PlToken
  | inWord w => [wordToken w]
  | _ => []

def chars : LexState → List Char
  | inWord w => w
  | _ => []

def step : LexState → Char → List PlToken × LexState
  | inString w, c => if c = '\'' then ([string (String.ofList w)], blank) else ([], inString (w ++ [c]))
  | st, c =>
    if c = '\'' then (st.emit, inString [])
    else if isSpace c then (st.emit, blank)
    else if c ∈ [';', '(', ')', '.', '#'] then (st.emit ++ [symbol (String.ofList [c])], blank)
    else ([], inWord (st.chars ++ [c]))

end LexState

open LexState

def lexAll : LexState → List Char → List PlToken × LexState
  | st, [] => ([], st)
  | st, c :: s => ((st.step c).1 ++ (lexAll (st.step c).2 s).1, (lexAll (st.step c).2 s).2)

def finishLex : List PlToken × LexState → Option (List PlToken)
  | (_, inString _) => none
  | (ts, st) => some (ts ++ st.emit)

def scan (s : String) : Option (List PlToken) :=
  finishLex (lexAll blank s.toList)

theorem lexAll_append (st : LexState) (a b : List Char) :
    lexAll st (a ++ b) =
      ((lexAll st a).1 ++ (lexAll (lexAll st a).2 b).1, (lexAll (lexAll st a).2 b).2) := by
  induction a generalizing st with
  | nil => simp [lexAll]
  | cons c a ih => simp [lexAll, ih, List.append_assoc]

theorem finishLex_some {r : List PlToken × LexState} {ts : List PlToken} (h : finishLex r = some ts) :
    (r.2.step '\n') = (r.2.emit, blank) ∧ ts = r.1 ++ r.2.emit := by
  obtain ⟨us, st⟩ := r
  cases st with
  | inString w => cases h
  | blank => exact ⟨rfl, (Option.some.inj h).symm⟩
  | inWord w => exact ⟨rfl, (Option.some.inj h).symm⟩

theorem finishLex_prepend (ts : List PlToken) (r : List PlToken × LexState) :
    finishLex (ts ++ r.1, r.2) = (finishLex r).map (ts ++ ·) := by
  obtain ⟨us, st⟩ := r
  cases st <;> simp [finishLex, List.append_assoc]

theorem scan_join {a b : String} {ts : List PlToken} (h : scan a = some ts) :
    scan (a ++ "\n" ++ b) = (scan b).map (ts ++ ·) := by
  obtain ⟨hstep, rfl⟩ := finishLex_some h
  have hline : lexAll (lexAll blank a.toList).2 ('\n' :: b.toList) =
      ((lexAll blank a.toList).2.emit ++ (lexAll blank b.toList).1, (lexAll blank b.toList).2) := by
    simp only [lexAll, hstep]
  have htext : (a ++ "\n" ++ b).toList = a.toList ++ '\n' :: b.toList := by simp
  unfold scan
  rw [htext, lexAll_append, hline, ← finishLex_prepend, List.append_assoc]

theorem scan_trail (a : String) : scan (a ++ "\n") = scan a := by
  have htext : (a ++ "\n").toList = a.toList ++ ['\n'] := by simp
  unfold scan
  rw [htext, lexAll_append]
  rcases lexAll blank a.toList with ⟨ts, _ | w | w⟩ <;> simp [lexAll, step, finishLex, emit, isSpace]

def skips : PlToken :=
  keyword "null"

def nullBlock : PlBlock :=
  .mk [] [.other [skips]] []

/-- The end of a block. -/
def stops (ts : List PlToken) : Option (List PlStmt × List PlToken) :=
  if ts.head? = some ends then some ([], ts) else none

def blocks (ts : List PlToken) : Option (List PlStmt × List PlToken) :=
  if ts.head? = some opens then
    (Scan.after [opens, skips, semicolon, ends, semicolon] ts).bind fun vs =>
      (stops vs).map fun r => (.block nullBlock :: r.1, r.2)
  else if ts.head? = some skips then
    (Scan.after [skips, semicolon] ts).bind fun vs => (stops vs).map fun r => (.other [skips] :: r.1, r.2)
  else stops ts

def splitSemicolon : List PlToken → Option (List PlToken × List PlToken)
  | [] => none
  | t :: ts => if t = semicolon then some ([], ts) else (splitSemicolon ts).map fun r => (t :: r.1, r.2)

def stmts : List PlToken → Option (List PlStmt × List PlToken)
  | [] => none
  | t :: ts =>
    if t = performs then (splitSemicolon ts).bind fun r => (blocks r.2).map fun q => (.perform r.1 :: q.1, q.2)
    else blocks (t :: ts)

def block : List PlToken → Option (PlBlock × List PlToken)
  | [] => none
  | t :: ts =>
    if t = opens then (stmts ts).bind fun r => match r.2 with
      | u :: rest => if u = ends then some (.mk [] r.1 [], rest) else none
      | [] => none
    else none

def fragment : PlPgSql where
  scan := scan
  options ts := ([], ts)
  block := block
  stmts := stmts

theorem splitSemicolon_append {e ts : List PlToken} (h : semicolon ∉ e) :
    splitSemicolon (e ++ semicolon :: ts) = some (e, ts) := by
  induction e with
  | nil => simp [splitSemicolon]
  | cons t e ih =>
    have ht : t ≠ semicolon := fun he => h (he ▸ List.mem_cons_self)
    have he := ih fun hm => h (List.mem_cons_of_mem _ hm)
    rw [List.cons_append, splitSemicolon, if_neg ht, he]
    rfl

theorem splitSemicolon_local {ts vs : List PlToken} {r : List PlToken × List PlToken}
    (h : splitSemicolon ts = some r) : splitSemicolon (ts ++ vs) = some (r.1, r.2 ++ vs) := by
  induction ts generalizing r with
  | nil => cases h
  | cons t ts ih =>
    rw [List.cons_append]
    unfold splitSemicolon at h ⊢
    split_ifs at h ⊢ with ht
    · cases h
      rfl
    · obtain ⟨q, hq, rfl⟩ := Option.map_eq_some_iff.mp h
      rw [ih hq]
      rfl

theorem after_local {w ts r vs : List PlToken} (h : Scan.after w ts = some r) :
    Scan.after w (ts ++ vs) = some (r ++ vs) := by
  rw [Scan.after_eq_some h, List.append_assoc, Scan.after_append]

theorem stops_some {ts : List PlToken} {r : List PlStmt × List PlToken} (h : stops ts = some r) :
    ts.head? = some ends ∧ r = ([], ts) := by
  unfold stops at h
  split_ifs at h with hends
  exact ⟨hends, (Option.some.inj h).symm⟩

theorem head?_append_some {ts : List PlToken} {t : PlToken} (vs : List PlToken) (h : ts.head? = some t) :
    (ts ++ vs).head? = some t := by
  cases ts with
  | nil => cases h
  | cons u ts => exact h

theorem stops_local {ts vs : List PlToken} {r : List PlStmt × List PlToken} (h : stops ts = some r) :
    stops (ts ++ vs) = some (r.1, r.2 ++ vs) := by
  obtain ⟨hends, rfl⟩ := stops_some h
  unfold stops
  rw [if_pos (head?_append_some _ hends)]

theorem blocks_local {ts vs : List PlToken} {r : List PlStmt × List PlToken} (h : blocks ts = some r) :
    blocks (ts ++ vs) = some (r.1, r.2 ++ vs) := by
  unfold blocks at h
  split_ifs at h with hopens hskips
  · obtain ⟨us, hus, hr⟩ := Option.bind_eq_some_iff.mp h
    obtain ⟨q, hq, rfl⟩ := Option.map_eq_some_iff.mp hr
    unfold blocks
    rw [if_pos (head?_append_some _ hopens), after_local hus]
    simp [stops_local hq]
  · obtain ⟨us, hus, hr⟩ := Option.bind_eq_some_iff.mp h
    obtain ⟨q, hq, rfl⟩ := Option.map_eq_some_iff.mp hr
    have hhead := head?_append_some vs hskips
    unfold blocks
    rw [if_neg (by rw [hhead]; decide), if_pos hhead, after_local hus]
    simp [stops_local hq]
  · obtain ⟨hends, -⟩ := stops_some h
    have hhead := head?_append_some vs hends
    unfold blocks
    rw [if_neg (by rw [hhead]; decide), if_neg (by rw [hhead]; decide)]
    exact stops_local h

theorem stmts_local {ts : List PlToken} {r : List PlStmt × List PlToken} (vs : List PlToken) (h : stmts ts = some r) :
    stmts (ts ++ vs) = some (r.1, r.2 ++ vs) := by
  cases ts with
  | nil => cases h
  | cons t ts =>
    rw [List.cons_append]
    rw [stmts] at h ⊢
    split_ifs at h ⊢ with ht
    · obtain ⟨q, hq, hr⟩ := Option.bind_eq_some_iff.mp h
      obtain ⟨p, hp, rfl⟩ := Option.map_eq_some_iff.mp hr
      rw [splitSemicolon_local hq]
      simp [blocks_local hp]
    · exact blocks_local h

theorem stmts_of_ne {t : PlToken} {ts : List PlToken} (h : t ≠ performs) : stmts (t :: ts) = blocks (t :: ts) := by
  rw [stmts, if_neg h]

theorem stmts_of_blocks {ts : List PlToken} {r : List PlStmt × List PlToken} (h : blocks ts = some r) :
    stmts ts = some r := by
  cases ts with
  | nil => cases h
  | cons t ts =>
    rcases Decidable.em (t = performs) with rfl | ht
    · cases h
    · rw [stmts_of_ne ht]
      exact h

theorem block_some {ts : List PlToken} {r : PlBlock × List PlToken} (h : block ts = some r) :
    ∃ us ss, ts = opens :: us ∧ stmts us = some (ss, ends :: r.2) ∧ r.1 = .mk [] ss [] := by
  cases ts with
  | nil => cases h
  | cons t ts =>
    rw [block] at h
    split_ifs at h with ht
    obtain ⟨⟨ss, us⟩, hq, hr⟩ := Option.bind_eq_some_iff.mp h
    cases us with
    | nil => cases hr
    | cons u rest =>
      dsimp only at hr
      split_ifs at hr with hu
      cases hr
      exact ⟨ts, ss, by rw [ht], by rw [hq, hu], rfl⟩

theorem fragment_scans : fragment.Scans where
  empty := by decide
  separator := by decide
  finish := by decide
  join _ _ _ h _ := scan_join h
  trail := scan_trail

theorem fragment_reads : fragment.Reads where
  no_options _ _ := rfl
  block_start ts r h := by
    obtain ⟨us, ss, rfl, -, -⟩ := block_some h
    rfl
  block_local ts us b rest h _ := by
    obtain ⟨vs, ss, rfl, hstmts, hb⟩ := block_some h
    have hlocal := stmts_local us hstmts
    show block (opens :: (vs ++ us)) = some (b, rest ++ us)
    rw [block, if_pos rfl, hlocal]
    subst hb
    rfl
  block_begin ts b rest h := by
    change block (opens :: ts) = some (b, rest) at h
    obtain ⟨us, ss, heq, hstmts, hb⟩ := block_some h
    cases heq
    exact ⟨ss, ends :: rest, [], hstmts, hb, .inl ⟨rfl, rfl⟩⟩
  stmts_perform e ts ss us he h := by
    change stmts (performs :: (e ++ semicolon :: ts)) = some (ss, us) at h
    rw [stmts, if_pos rfl, splitSemicolon_append he] at h
    obtain ⟨q, hq, hr⟩ := Option.map_eq_some_iff.mp h
    cases hr
    exact ⟨q.1, stmts_of_blocks hq, rfl⟩
  stmts_block ts b rest ss us hblock h := by
    obtain ⟨vs, ss', rfl, hinner, hb⟩ := block_some hblock
    change stmts (opens :: vs) = some (ss, us) at h
    have hopens : (opens :: vs).head? = some opens := rfl
    rw [stmts_of_ne (by decide), blocks, if_pos hopens] at h
    obtain ⟨ws, hws, hr⟩ := Option.bind_eq_some_iff.mp h
    obtain ⟨q, hq, hr⟩ := Option.map_eq_some_iff.mp hr
    obtain ⟨hends, rfl⟩ := stops_some hq
    have hvs : vs = skips :: semicolon :: ends :: semicolon :: ws := (List.cons.inj (Scan.after_eq_some hws)).2
    have hnull : stmts vs = some ([.other [skips]], ends :: semicolon :: ws) := by
      rw [hvs, stmts_of_ne (by decide)]
      rfl
    rw [hnull] at hinner
    cases hinner
    cases hr
    refine ⟨ws, [], rfl, stmts_of_blocks ?_, ?_⟩
    · unfold blocks
      rw [if_neg (by rw [hends]; decide), if_neg (by rw [hends]; decide)]
      exact hq
    · dsimp only at hb
      rw [hb]
      rfl
  stmts_stop t ts ss us ht h := by
    change stmts (t :: ts) = some (ss, us) at h
    have hstops : stops (t :: ts) = some (ss, us) := by
      rcases ht with rfl | rfl | rfl <;> rw [stmts_of_ne (by decide)] at h <;> exact h
    obtain ⟨-, hr⟩ := stops_some hstops
    exact Prod.mk.inj hr

end Fragment

end Allgres
