import Allgres.NestedBlocks

/-! A core of PL/pgSQL: directives, and blocks of `PERFORM`, of plain statements and of blocks. -/

namespace Allgres.Core

open PlToken Fragment

/-- What a plain statement may begin with. -/
def plain : PlToken → Bool
  | .word _ => true
  | t => t = skips

inductive Statements : List PlToken → List PlStmt → List PlToken → Prop where
  | stop (ts : List PlToken) : Statements (ends :: ts) [] (ends :: ts)
  | block {ts vs us ss ss'} : Statements ts ss (ends :: semicolon :: vs) → Statements vs ss' us →
      Statements (opens :: ts) (.block (.mk [] ss []) :: ss') us
  | perform {e ts ss us} : semicolon ∉ e → Statements ts ss us →
      Statements (performs :: (e ++ semicolon :: ts)) (.perform e :: ss) us
  | other {t e ts ss us} : plain t = true → semicolon ∉ e → Statements ts ss us →
      Statements (t :: (e ++ semicolon :: ts)) (.other (t :: e) :: ss) us

def readStmts : Nat → List PlToken → Option (List PlStmt × List PlToken)
  | 0, _ => none
  | _ + 1, [] => none
  | n + 1, t :: ts =>
    if t = ends then some ([], t :: ts)
    else if t = opens then
      (readStmts n ts).bind fun r => (Scan.after [ends, semicolon] r.2).bind fun vs =>
        (readStmts n vs).map fun q => (.block (.mk [] r.1 []) :: q.1, q.2)
    else if t = performs then
      (splitSemicolon ts).bind fun r => (readStmts n r.2).map fun q => (.perform r.1 :: q.1, q.2)
    else if plain t then
      (splitSemicolon ts).bind fun r => (readStmts n r.2).map fun q => (.other (t :: r.1) :: q.1, q.2)
    else none

def stmts (ts : List PlToken) : Option (List PlStmt × List PlToken) :=
  readStmts (ts.length + 1) ts

def block : List PlToken → Option (PlBlock × List PlToken)
  | [] => none
  | t :: ts =>
    if t = opens then (stmts ts).bind fun r => (Scan.after [ends] r.2).map fun rest => (.mk [] r.1 [], rest)
    else none

/-- A directive is a `#` with two words behind it. -/
def options : List PlToken → List (List PlToken) × List PlToken
  | t :: k :: v :: ts =>
    if t = pound then let r := options ts; ([k, v] :: r.1, r.2) else ([], t :: k :: v :: ts)
  | ts => ([], ts)

def core : PlPgSql where
  scan := scan
  options := options
  block := block
  stmts := stmts

theorem splitSemicolon_some {ts : List PlToken} {r : List PlToken × List PlToken} (h : splitSemicolon ts = some r) :
    ts = r.1 ++ semicolon :: r.2 ∧ semicolon ∉ r.1 := by
  induction ts generalizing r with
  | nil => cases h
  | cons t ts ih =>
    unfold splitSemicolon at h
    split_ifs at h with ht
    · cases h
      simp [ht]
    · obtain ⟨q, hq, rfl⟩ := Option.map_eq_some_iff.mp h
      obtain ⟨rfl, hmem⟩ := ih hq
      simp [hmem, Ne.symm ht]

theorem readStmts_sound {n : Nat} {ts : List PlToken} {r : List PlStmt × List PlToken}
    (h : readStmts n ts = some r) : Statements ts r.1 r.2 := by
  induction n generalizing ts r with
  | zero => cases h
  | succ n ih =>
    cases ts with
    | nil => cases h
    | cons t ts =>
      rw [readStmts] at h
      split_ifs at h with hends hopens hperforms hplain
      · cases h
        rw [hends]
        exact .stop ts
      · obtain ⟨q, hq, h⟩ := Option.bind_eq_some_iff.mp h
        obtain ⟨vs, hvs, h⟩ := Option.bind_eq_some_iff.mp h
        obtain ⟨q', hq', rfl⟩ := Option.map_eq_some_iff.mp h
        have hinner := ih hq
        rw [Scan.after_eq_some hvs] at hinner
        rw [hopens]
        exact .block hinner (ih hq')
      · obtain ⟨q, hq, h⟩ := Option.bind_eq_some_iff.mp h
        obtain ⟨q', hq', rfl⟩ := Option.map_eq_some_iff.mp h
        obtain ⟨rfl, hmem⟩ := splitSemicolon_some hq
        rw [hperforms]
        exact .perform hmem (ih hq')
      · obtain ⟨q, hq, h⟩ := Option.bind_eq_some_iff.mp h
        obtain ⟨q', hq', rfl⟩ := Option.map_eq_some_iff.mp h
        obtain ⟨rfl, hmem⟩ := splitSemicolon_some hq
        exact .other hplain hmem (ih hq')

theorem Statements.length_le {ts us : List PlToken} {ss : List PlStmt} (h : Statements ts ss us) :
    us.length ≤ ts.length := by
  induction h with
  | stop ts => exact Nat.le_refl _
  | block _ _ ih ih' =>
    simp only [List.length_cons] at ih ⊢
    omega
  | perform _ _ ih =>
    simp only [List.length_cons, List.length_append]
    omega
  | other _ _ _ ih =>
    simp only [List.length_cons, List.length_append]
    omega

theorem plain_not_reserved {t : PlToken} (h : plain t = true) : t ≠ ends ∧ t ≠ opens ∧ t ≠ performs := by
  cases t <;> simp_all [plain, skips, ends, opens, performs]

theorem readStmts_complete {ts us : List PlToken} {ss : List PlStmt} (h : Statements ts ss us) {n : Nat}
    (hn : ts.length < n) : readStmts n ts = some (ss, us) := by
  induction h generalizing n with
  | stop ts =>
    obtain ⟨n, rfl⟩ : ∃ m, n = m + 1 := ⟨n - 1, by omega⟩
    simp [readStmts]
  | @block ts vs us ss ss' hinner _ ih ih' =>
    obtain ⟨n, rfl⟩ : ∃ m, n = m + 1 := ⟨n - 1, by omega⟩
    have hlength := hinner.length_le
    simp only [List.length_cons] at hn hlength
    have hafter : Scan.after [ends, semicolon] (ends :: semicolon :: vs) = some vs :=
      Scan.after_append [ends, semicolon] vs
    have hne : opens ≠ ends := by decide
    rw [readStmts, if_neg hne, if_pos rfl, ih (by omega)]
    simp only [Option.bind_some, hafter, ih' (show vs.length < n by omega), Option.map_some]
  | @perform e ts ss us hmem _ ih =>
    obtain ⟨n, rfl⟩ : ∃ m, n = m + 1 := ⟨n - 1, by omega⟩
    simp only [List.length_cons, List.length_append] at hn
    have hends : performs ≠ ends := by decide
    have hopens : performs ≠ opens := by decide
    rw [readStmts, if_neg hends, if_neg hopens, if_pos rfl, splitSemicolon_append hmem]
    simp only [Option.bind_some, ih (show ts.length < n by omega), Option.map_some]
  | @other t e ts ss us hplain hmem _ ih =>
    obtain ⟨n, rfl⟩ : ∃ m, n = m + 1 := ⟨n - 1, by omega⟩
    simp only [List.length_cons, List.length_append] at hn
    obtain ⟨hends, hopens, hperforms⟩ := plain_not_reserved hplain
    rw [readStmts, if_neg hends, if_neg hopens, if_neg hperforms, if_pos hplain, splitSemicolon_append hmem]
    simp only [Option.bind_some, ih (show ts.length < n by omega), Option.map_some]

/-- The reader finds what the grammar derives. -/
theorem stmts_iff {ts us : List PlToken} {ss : List PlStmt} : stmts ts = some (ss, us) ↔ Statements ts ss us :=
  ⟨fun h => readStmts_sound h, fun h => readStmts_complete h (Nat.lt_succ_self _)⟩

theorem Statements.append {ts us : List PlToken} {ss : List PlStmt} (h : Statements ts ss us) (vs : List PlToken) :
    Statements (ts ++ vs) ss (us ++ vs) := by
  induction h with
  | stop ts => exact .stop (ts ++ vs)
  | block _ _ ih ih' => exact .block ih ih'
  | perform hmem _ ih =>
    rw [List.cons_append, List.append_assoc, List.cons_append]
    exact .perform hmem ih
  | other hplain hmem _ ih =>
    rw [List.cons_append, List.append_assoc, List.cons_append]
    exact .other hplain hmem ih

theorem block_iff {ts rest : List PlToken} {b : PlBlock} :
    block ts = some (b, rest) ↔ ∃ us ss, ts = opens :: us ∧ Statements us ss (ends :: rest) ∧ b = .mk [] ss [] := by
  constructor
  · intro h
    cases ts with
    | nil => cases h
    | cons t ts =>
      rw [block] at h
      split_ifs at h with ht
      obtain ⟨r, hr, h⟩ := Option.bind_eq_some_iff.mp h
      obtain ⟨rest', hrest, h⟩ := Option.map_eq_some_iff.mp h
      have hinner := readStmts_sound hr
      rw [Scan.after_eq_some hrest] at hinner
      cases h
      exact ⟨ts, r.1, by rw [ht], hinner, rfl⟩
  · rintro ⟨us, ss, rfl, hinner, rfl⟩
    rw [block, if_pos rfl, stmts_iff.mpr hinner]
    rfl

theorem options_plain {ts : List PlToken} (h : ts.head? ≠ some pound) : options ts = ([], ts) := by
  match ts with
  | [] => rfl
  | [t] => rfl
  | [t, k] => rfl
  | t :: k :: v :: ts =>
    have ht : t ≠ pound := fun he => h (by rw [he]; rfl)
    rw [options, if_neg ht]

theorem options_none {ts us : List PlToken} (h : options ts = ([], us)) : us = ts := by
  match ts with
  | [] => cases h; rfl
  | [t] => cases h; rfl
  | [t, k] => cases h; rfl
  | t :: k :: v :: ts =>
    rw [options] at h
    split_ifs at h
    · cases h
    · exact (Prod.mk.inj h).2.symm

theorem core_scans : core.Scans where
  empty := fragment_scans.empty
  separator := fragment_scans.separator
  finish := fragment_scans.finish
  join := fragment_scans.join
  trail := fragment_scans.trail

theorem core_reads : core.Reads where
  no_options ts h := options_plain h
  block_start ts r h := by
    obtain ⟨us, ss, rfl, -, -⟩ := block_iff.mp (show block ts = some (r.1, r.2) from h)
    rfl
  block_local ts us b rest h _ := by
    obtain ⟨vs, ss, rfl, hinner, hb⟩ := block_iff.mp h
    exact block_iff.mpr ⟨vs ++ us, ss, rfl, hinner.append us, hb⟩
  block_begin ts b rest h := by
    obtain ⟨us, ss, heq, hinner, hb⟩ := block_iff.mp (show block (opens :: ts) = some (b, rest) from h)
    cases heq
    exact ⟨ss, ends :: rest, [], stmts_iff.mpr hinner, hb, .inl ⟨rfl, rfl⟩⟩
  stmts_perform e ts ss us he h := by
    have hends : performs ≠ ends := by decide
    have hopens : performs ≠ opens := by decide
    change readStmts _ (performs :: (e ++ semicolon :: ts)) = some (ss, us) at h
    rw [readStmts, if_neg hends, if_neg hopens, if_pos rfl, splitSemicolon_append he] at h
    obtain ⟨q, hq, hr⟩ := Option.map_eq_some_iff.mp h
    cases hr
    exact ⟨q.1, stmts_iff.mpr (readStmts_sound hq), rfl⟩
  stmts_block ts b rest ss us hblock h := by
    obtain ⟨vs, ss', rfl, hinner, rfl⟩ := block_iff.mp hblock
    have hends : opens ≠ ends := by decide
    have hread : readStmts (vs.length + 1) vs = some (ss', ends :: rest) :=
      readStmts_complete hinner (Nat.lt_succ_self _)
    change readStmts (vs.length + 2) (opens :: vs) = some (ss, us) at h
    rw [readStmts, if_neg hends, if_pos rfl, hread, Option.bind_some] at h
    obtain ⟨ws, hws, hr⟩ := Option.bind_eq_some_iff.mp h
    obtain ⟨q, hq, hr⟩ := Option.map_eq_some_iff.mp hr
    cases hr
    have hsplit : rest = semicolon :: ws := (List.cons.inj (Scan.after_eq_some hws)).2
    exact ⟨ws, q.1, hsplit, stmts_iff.mpr (readStmts_sound hq), rfl⟩
  stmts_stop t ts ss us ht h := by
    change readStmts _ (t :: ts) = some (ss, us) at h
    rw [readStmts] at h
    rcases ht with rfl | rfl | rfl
    · cases h
      exact ⟨rfl, rfl⟩
    · cases h
    · cases h

theorem core_documented : core.Documented :=
  ⟨core_scans, core_reads, fragment_scansGuard⟩

theorem core_accepts : core.Accepts where
  no_directive ts us h := options_none h
  block_begin ts ss rest h _ := block_iff.mpr ⟨ts, ss, rfl, stmts_iff.mp h, rfl⟩
  stmts_guard sqlIdent ts ss us h :=
    stmts_iff.mpr (.perform (semicolon_not_mem_guardCall sqlIdent) (stmts_iff.mp h))
  stmts_block ts b vs ss us hblock h := by
    obtain ⟨us', ss', rfl, hinner, rfl⟩ := block_iff.mp hblock
    exact stmts_iff.mpr (.block hinner (stmts_iff.mp h))
  stmts_end ts := stmts_iff.mpr (.stop ts)

end Allgres.Core
