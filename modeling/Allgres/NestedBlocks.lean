import Allgres.GuardedBuild

/-! Which of the two sources around a body PL/pgSQL reads, and when it reads neither. -/

namespace Allgres

open PlToken

/-- What the grammar is documented to accept. -/
structure PlPgSql.Accepts (L : PlPgSql) : Prop where
  no_directive : ∀ ts us, L.options ts = ([], us) → us = ts
  block_begin : ∀ ts ss rest, L.stmts ts = some (ss, ends :: rest) → rest.head?.any canLabel = false →
    L.block (opens :: ts) = some (.mk [] ss [], rest)
  stmts_guard : ∀ sqlIdent ts ss us, L.stmts ts = some (ss, us) →
    L.stmts (performs :: (guardCall sqlIdent ++ semicolon :: ts)) = some (.perform (guardCall sqlIdent) :: ss, us)
  stmts_block : ∀ ts b vs ss us, L.block ts = some (b, semicolon :: vs) → L.stmts vs = some (ss, us) →
    L.stmts ts = some (.block b :: ss, us)
  stmts_end : ∀ ts, L.stmts (ends :: ts) = some ([], ends :: ts)

/-- The body ends with its block, and no semicolon follows. -/
def PlPgSql.unterminated (L : PlPgSql) (body : String) : Bool :=
  ((L.scan body).bind fun ts => L.block (L.options ts).2).any fun r => r.2.isEmpty

def PlPgSql.terminator (L : PlPgSql) (body : String) : String :=
  if L.unterminated body then ";" else ""

section Sources

variable {L : PlPgSql} {sqlIdent body terminator : String} {ts last rest : List PlToken}
  {ds : List (List PlToken)} {b : PlBlock}

theorem body_of_block (h : L.block (L.options ts).2 = some (b, rest)) (hrest : rest = [] ∨ rest = [semicolon]) :
    L.body ts = some ((L.options ts).1, b) := by
  unfold PlPgSql.body
  rcases hrest with rfl | rfl <;> simp [h]

/-- A block with its semicolon is read behind the guard, if the outer block ends there. -/
theorem body_of_nested (hr : L.Reads) (ha : L.Accepts) (hblock : L.block ts = some (b, rest))
    (hlabel : last.head?.any canLabel = false) (hsplit : rest ++ last = [semicolon, ends, semicolon]) :
    L.body (opens :: performs :: (guardCall sqlIdent ++ semicolon :: (ts ++ last))) =
      some ([], .mk [] [.perform (guardCall sqlIdent), .block b] []) := by
  have hlocal := hr.block_local ts last b rest hblock fun _ => hlabel
  rw [hsplit] at hlocal
  have hstmts := ha.stmts_guard sqlIdent _ _ _ (ha.stmts_block _ _ _ _ _ hlocal (ha.stmts_end [semicolon]))
  have houter := ha.block_begin _ _ _ hstmts rfl
  have hoptions := hr.no_options (opens :: performs :: (guardCall sqlIdent ++ semicolon :: (ts ++ last)))
    (by simp [opens, pound])
  have hbody := body_of_block (L := L) (by rw [hoptions]; exact houter) (.inr rfl)
  rw [hbody, hoptions]

theorem unterminated_of_block (hscan : L.scan body = some ts)
    (hblock : L.block (L.options ts).2 = some (b, rest)) : L.unterminated body = rest.isEmpty := by
  simp [PlPgSql.unterminated, hscan, hblock]

/-- The source around a body is read with one terminator and without directives only, and as the
guard in front of the body. -/
theorem parse_guarded (terminator : String) (hL : L.Documented) (ha : L.Accepts) (hident : '\'' ∉ sqlIdent.toList)
    (hb : L.parse (keptSource body) = some (ds, b)) (ht : terminator = "" ∨ terminator = ";") :
    L.parse (keptSource (guardedSource sqlIdent body terminator)) =
      if ds = [] ∧ terminator = L.terminator body then
        some ([], .mk [] [.perform (guardCall sqlIdent), .block b] [])
      else none := by
  obtain ⟨ts, hscan, hread⟩ := Option.bind_eq_some_iff.mp hb
  rw [scan_keptSource hL.scans] at hscan
  obtain ⟨rest, hds, hblock, hafter⟩ := PlPgSql.body_some hread
  have hend : L.terminator body = if rest.isEmpty then ";" else "" := by
    rw [PlPgSql.terminator, unterminated_of_block hscan hblock]
  obtain ⟨last, hlast, hform, hmatch⟩ : ∃ last, L.scan (terminator ++ "\nEND;") = some last ∧
      (last = [ends, semicolon] ∨ last = [semicolon, ends, semicolon]) ∧
      (terminator = L.terminator body ↔ rest ++ last = [semicolon, ends, semicolon]) := by
    rcases scan_last hL.scans ht with ⟨rfl, h⟩ | ⟨rfl, h⟩
    · refine ⟨_, h, .inl rfl, ?_⟩
      rcases hafter with rfl | rfl <;> simp [hend, ends, semicolon]
    · refine ⟨_, h, .inr rfl, ?_⟩
      rcases hafter with rfl | rfl <;> simp [hend, ends, semicolon]
  have hlabel : last.head?.any canLabel = false := by
    rcases hform with rfl | rfl <;> decide
  rw [parse_guardedSource hL.scans hL.guard hident hscan hlast hform]
  split_ifs with hc
  · obtain ⟨rfl, hterm⟩ := hc
    have hplain : (L.options ts).2 = ts := ha.no_directive ts _ (by rw [← hds])
    rw [hplain] at hblock
    exact body_of_nested hL.reads ha hblock hlabel (hmatch.mp hterm)
  · rw [Option.eq_none_iff_forall_ne_some]
    rintro ⟨ds', w⟩ hw
    obtain ⟨ss, us, handlers, -, hstmts, -, hend'⟩ :=
      PlPgSql.stmts_of_wrapped hL.reads (semicolon_not_mem_guardCall sqlIdent) hw
    have hstop : us.head? = some ends ∨ us.head? = some excepts := hend'.imp_left (·.1)
    obtain ⟨rest', vs, ss', hnone, hblock', -, hsplit, hvs, -⟩ :=
      PlPgSql.block_of_stmts hL.reads hread hlabel hstmts hstop
    have hplain : (L.options ts).2 = ts := ha.no_directive ts _ (by rw [← hnone, ← hds])
    rw [hplain, hblock'] at hblock
    cases hblock
    apply hc
    refine ⟨hnone, hmatch.mpr ?_⟩
    rcases hafter with rfl | rfl <;> rcases hform with rfl | rfl
    · simp [ends, semicolon] at hsplit
    · rfl
    · rfl
    · obtain rfl : [semicolon, ends, semicolon] = vs := (List.cons.inj hsplit).2
      obtain ⟨-, rfl⟩ := hL.reads.stmts_stop _ _ _ _ (.inr (.inl rfl)) hvs
      rcases hstop with h | h <;> simp [semicolon, ends, excepts] at h

end Sources

end Allgres
