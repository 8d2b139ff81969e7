import Allgres.ImplicitReads
import Allgres.PlCore

/-! What the routine that `run_guarded_build` deploys answers, beside the body on its own. -/

namespace Allgres

open PlToken

/-- A server on which nothing but the text of a routine can fail a build. -/
structure Admits {δ : Type} (P : PgServer δ) (L : PlPgSql) : Prop where
  role : ∀ n db, (P.exec n ⟨"SELECT allgres.assume_worker_role()", []⟩ db).outcome = .ok (some (.bool true))
  settings : ∀ n st db, st ∈ checkBodies :: buildSettings → ∃ v, (P.exec n st db).outcome = .ok v
  created : ∀ n kind sqlIdent q source db, validSqlIdent sqlIdent kind.identStart = true →
    readLiteral q.toList = some source → (L.parse (String.ofList source)).isSome →
      ∃ v, (P.exec n ⟨"CREATE OR REPLACE " ++ declaration kind sqlIdent ++
        " LANGUAGE plpgsql SECURITY INVOKER AS " ++ q ++ ";", []⟩ db).outcome = .ok v

section Build

variable {δ : Type} {P : PgServer δ} {L : PlPgSql} {view : δ → Objects} {checks : δ → Bool}
  {kind : RoutineKind} {sqlIdent body source : String} {s : WorkerSession δ}

theorem spi_of_ok {st : Statement} {v : Option Json} (h : (P.exec s.clock st s.db).outcome = .ok v) :
    spi P st s = (s.after (P.exec s.clock st s.db), .returned (.ok v)) := by
  simp [spi, h, SpiOutcome.ended]

theorem dropPrivileges_admitted (hA : Admits P L) : ∃ t, dropPrivileges P s = (t, .returned true) := by
  by_cases hk : P.keepsPrivileges = true
  · exact ⟨s, by rw [dropPrivileges, if_pos hk]⟩
  · have hrole := spi_of_ok (hA.role s.clock s.db)
    exact ⟨_, by rw [dropPrivileges, if_neg hk, hrole]⟩

theorem prepare_admitted (hP : Deploys P L view checks) (hA : Admits P L) :
    ∃ t, prepare P buildSettings s = (t, .returned true) ∧ view t.db = view s.db ∧ t.begun = s.begun := by
  have hview := prepare_view hP s
  have hflat := (prepare_flat P buildSettings).begun s
  obtain ⟨t, hdrop⟩ := dropPrivileges_admitted (s := s) hA
  obtain ⟨v, hv⟩ := hA.settings t.clock ⟨"SET LOCAL ROLE allgres_function_admin", []⟩ t.db (by simp [buildSettings])
  have hready : prepare P buildSettings s = (t.after (P.exec t.clock ⟨"SET LOCAL ROLE allgres_function_admin", []⟩ t.db),
      .returned true) := by
    simp only [prepare, hdrop, buildSettings, allOk, spi_of_ok hv]
  rw [hready] at hview hflat
  exact ⟨_, hready, hview, hflat⟩

theorem checkBodies_admitted (hP : Deploys P L view checks) (hA : Admits P L) :
    ∃ t v, spi P checkBodies s = (t, .returned (.ok v)) ∧ view t.db = view s.db ∧ checks t.db = true ∧
      t.begun = s.begun := by
  obtain ⟨v, hv⟩ := hA.settings s.clock checkBodies s.db List.mem_cons_self
  exact ⟨_, v, spi_of_ok hv, hP.settings _ _ _ List.mem_cons_self, hP.checking _ _ _ hv, rfl⟩

theorem create_admitted (hP : Deploys P L view checks) (hA : Admits P L)
    (hvalid : validSqlIdent sqlIdent kind.identStart = true) (hc : checks s.db = true)
    (hparse : (L.parse (keptSource source)).isSome) :
    ∃ t v, spi P (create P kind sqlIdent source s) s = (t, .returned (.ok v)) ∧
      view t.db = replaceObject (view s.db) kind sqlIdent (keptSource source) ∧ checks t.db = true ∧
      t.begun = s.begun := by
  obtain ⟨v, hv⟩ := hA.created s.clock kind sqlIdent _ _ s.db hvalid
    (readLiteral_dollarQuote (P.nanos s.clock) source) hparse
  have hspi : spi P (create P kind sqlIdent source s) s = _ := spi_of_ok hv
  obtain ⟨hview, hchecks, -, hbegun⟩ := create_ok hP hvalid hc hspi
  exact ⟨_, v, hspi, hview, hchecks, hbegun⟩

/-- A text that PL/pgSQL does not read raises an error. -/
theorem create_unread (hP : Deploys P L view checks) (hraises : CreateRaises P)
    (hvalid : validSqlIdent sqlIdent kind.identStart = true) (hc : checks s.db = true)
    (hparse : L.parse (keptSource source) = none) :
    ∃ t e, spi P (create P kind sqlIdent source s) s = (t, .thrown e) ∧ t.begun = s.begun := by
  rcases hr : spi P (create P kind sqlIdent source s) s with ⟨t, (e | v) | e⟩
  · exact absurd (spi_error hr) (hraises _ _ _ _ _ _ _)
  · obtain ⟨-, -, hsome, -⟩ := create_ok hP hvalid hc hr
    rw [hparse] at hsome
    cases hsome
  · exact ⟨t, e, rfl, by rw [← (spi_flat P _).begun s, hr]⟩

theorem deploy_admitted (hP : Deploys P L view checks) (hA : Admits P L)
    (hvalid : validSqlIdent sqlIdent kind.identStart = true) (hc : checks s.db = true)
    (hparse : (L.parse (keptSource source)).isSome) :
    ∃ t, runThen P (create P kind sqlIdent source) returnNull s = (t, .returned (.ok .null)) ∧
      view t.db = replaceObject (view s.db) kind sqlIdent (keptSource source) ∧ t.begun = s.begun := by
  obtain ⟨t, v, hspi, hview, -, hbegun⟩ := create_admitted hP hA hvalid hc hparse
  exact ⟨t, by simp only [runThen, hspi, returnNull], hview, hbegun⟩

theorem deploy_unread (hP : Deploys P L view checks) (hraises : CreateRaises P)
    (hvalid : validSqlIdent sqlIdent kind.identStart = true) (hc : checks s.db = true)
    (hparse : L.parse (keptSource source) = none) :
    ∃ t e, runThen P (create P kind sqlIdent source) returnNull s = (t, .thrown e) ∧ t.begun = s.begun := by
  obtain ⟨t, e, hspi, hbegun⟩ := create_unread hP hraises hvalid hc hparse
  exact ⟨t, e, by simp only [runThen, hspi], hbegun⟩

/-- A subtransaction whose closure answers keeps what was done. -/
theorem sub_returned {f : Closure δ} {t : WorkerSession δ} {v : Json}
    (h : f s.beginSub = (t, .returned (.ok v))) (hbegun : t.begun = s.db :: s.begun) :
    ∃ u, runInSubtransaction f s = (u, .ok v) ∧ u.db = t.db ∧ u.begun = s.begun := by
  refine ⟨t.releaseSub, by simp only [runInSubtransaction, h], rfl, ?_⟩
  simp [WorkerSession.releaseSub, hbegun]

/-- One whose closure raises an error leaves nothing. -/
theorem sub_thrown {f : Closure δ} {t : WorkerSession δ} {e : String}
    (h : f s.beginSub = (t, .thrown e)) (hbegun : t.begun = s.db :: s.begun) :
    ∃ u, runInSubtransaction f s = (u, .error e) ∧ u.db = s.db ∧ u.begun = s.begun := by
  refine ⟨t.rollbackSub, by simp only [runInSubtransaction, h], ?_, ?_⟩ <;>
    simp [WorkerSession.rollbackSub, hbegun]

/-- Of the two sources around a body the first one that is read is deployed. -/
theorem createGuarded_read (hP : Deploys P L view checks) (hraises : CreateRaises P) (hA : Admits P L)
    (hvalid : validSqlIdent sqlIdent kind.identStart = true) (hc : checks s.db = true) {terminator : String}
    (hterm : terminator = "" ∨ (terminator = ";" ∧ L.parse (keptSource (guardedSource sqlIdent body "")) = none))
    (hparse : (L.parse (keptSource (guardedSource sqlIdent body terminator))).isSome) :
    ∃ t, createGuarded P kind sqlIdent body s = (t, .returned (.ok .null)) ∧
      view t.db = replaceObject (view s.db) kind sqlIdent (keptSource (guardedSource sqlIdent body terminator)) ∧
      t.begun = s.begun := by
  have hbegin : s.beginSub.begun = s.db :: s.begun := rfl
  rcases hterm with rfl | ⟨rfl, hfirst⟩
  · obtain ⟨t, hrun, hview, hbegun⟩ := deploy_admitted (s := s.beginSub) hP hA hvalid hc hparse
    obtain ⟨u, hsub, hdb, hback⟩ := sub_returned hrun (hbegun.trans hbegin)
    refine ⟨u, by simp only [createGuarded, hsub], ?_, hback⟩
    rw [hdb]
    exact hview
  · obtain ⟨t, e, hrun, hbegun⟩ := deploy_unread (s := s.beginSub) hP hraises hvalid hc hfirst
    obtain ⟨u, hsub, hdb, hback⟩ := sub_thrown hrun (hbegun.trans hbegin)
    have hcu : checks u.db = true := by rw [hdb]; exact hc
    obtain ⟨w, hlast, hview, hend⟩ := deploy_admitted (s := u) hP hA hvalid hcu hparse
    refine ⟨w, by simp only [createGuarded, hsub, hlast], ?_, hend.trans hback⟩
    rw [hview, hdb]

theorem createGuarded_unread (hP : Deploys P L view checks) (hraises : CreateRaises P)
    (hvalid : validSqlIdent sqlIdent kind.identStart = true) (hc : checks s.db = true)
    (hfirst : L.parse (keptSource (guardedSource sqlIdent body "")) = none)
    (hlast : L.parse (keptSource (guardedSource sqlIdent body ";")) = none) :
    ∃ t e, createGuarded P kind sqlIdent body s = (t, .thrown e) ∧ t.begun = s.begun := by
  obtain ⟨t, e, hrun, hbegun⟩ := deploy_unread (s := s.beginSub) hP hraises hvalid hc hfirst
  obtain ⟨u, hsub, hdb, hback⟩ := sub_thrown hrun hbegun
  have hcu : checks u.db = true := by rw [hdb]; exact hc
  obtain ⟨w, e', hend, hw⟩ := deploy_unread (s := u) hP hraises hvalid hcu hlast
  exact ⟨w, e', by simp only [createGuarded, hsub, hend], hw.trans hback⟩

/-- A build comes to its two attempts, once the body is created on its own. -/
theorem guardedBuild_admitted (hP : Deploys P L view checks) (hA : Admits P L)
    (hvalid : validSqlIdent sqlIdent kind.identStart = true) (hbody : (L.parse (keptSource body)).isSome) :
    ∃ t, guardedBuild P kind sqlIdent body s = createGuarded P kind sqlIdent body t ∧
      view t.db = replaceObject (view s.db) kind sqlIdent (keptSource body) ∧ checks t.db = true ∧
      t.begun = s.begun := by
  obtain ⟨t₁, hprepare, hview₁, hbegun₁⟩ := prepare_admitted (s := s) hP hA
  obtain ⟨t₂, v₂, hcheck, hview₂, hchecks₂, hbegun₂⟩ := checkBodies_admitted (s := t₁) hP hA
  obtain ⟨t₃, v₃, hcreate, hview₃, hchecks₃, hbegun₃⟩ := create_admitted (s := t₂) hP hA hvalid hchecks₂ hbody
  refine ⟨t₃, ?_, ?_, hchecks₃, hbegun₃.trans (hbegun₂.trans hbegun₁)⟩
  · simp only [guardedBuild, prepared, hprepare, runThen, hcheck, hcreate]
  · rw [hview₃, hview₂, hview₁]

end Build

section Deployed

variable {δ : Type} {P : PgServer δ} {L : PlPgSql} {view : δ → Objects} {checks : δ → Bool}
  {kind : RoutineKind} {sqlIdent body : String} {s : WorkerSession δ} {b : PlBlock}

theorem terminator_cases (L : PlPgSql) (body : String) : L.terminator body = "" ∨ L.terminator body = ";" := by
  unfold PlPgSql.terminator
  split
  · exact .inr rfl
  · exact .inl rfl

/-- The build of a body without directives deploys it behind the guard, and ends the transaction it
has begun. -/
theorem runGuardedBuild_deploys (hL : L.Documented) (ha : L.Accepts) (hP : Deploys P L view checks)
    (hraises : CreateRaises P) (hA : Admits P L) (hvalid : validSqlIdent sqlIdent kind.identStart = true)
    (hb : L.parse (keptSource body) = some ([], b)) :
    (runGuardedBuild P kind sqlIdent body s).2 = .ok .null ∧
      view (runGuardedBuild P kind sqlIdent body s).1.db = replaceObject (view s.db) kind sqlIdent
        (keptSource (guardedSource sqlIdent body (L.terminator body))) ∧
      (s.begun = [] → (runGuardedBuild P kind sqlIdent body s).1.begun = []) := by
  have hread := fun t => parse_guarded t hL ha (quote_not_mem_ident hvalid) hb
  obtain ⟨t, hbuild, hview, hchecks, hbegun⟩ :=
    guardedBuild_admitted (s := s.startTransaction.beginSub) hP hA hvalid (by rw [hb]; rfl)
  have hterm : L.terminator body = "" ∨
      (L.terminator body = ";" ∧ L.parse (keptSource (guardedSource sqlIdent body "")) = none) := by
    rcases terminator_cases L body with h | h
    · exact .inl h
    · exact .inr ⟨h, by rw [hread "" (.inl rfl), if_neg (by simp [h])]⟩
  have hparse : (L.parse (keptSource (guardedSource sqlIdent body (L.terminator body)))).isSome := by
    rw [hread _ (terminator_cases L body), if_pos ⟨rfl, rfl⟩]
    rfl
  obtain ⟨u, hguarded, hdeployed, hback⟩ := createGuarded_read hP hraises hA hvalid hchecks hterm hparse
  obtain ⟨w, hsub, hdb, hend⟩ := sub_returned (hbuild.trans hguarded) (hback.trans hbegun)
  have hrun : runGuardedBuild P kind sqlIdent body s = (w.commitTransaction, .ok .null) := by
    rw [runGuardedBuild, if_pos hvalid, transaction, hsub]
  have hstart : view s.startTransaction.beginSub.db = view s.db := congrArg view (start_db s)
  rw [hrun]
  refine ⟨rfl, ?_, fun hidle => ?_⟩
  · show view w.commitTransaction.db = _
    rw [commit_db, hdb, hdeployed, hview, replaceObject_again, hstart]
  · have hone : w.begun = [s.db] := by
      rw [hend, WorkerSession.startTransaction, hidle]
    show w.commitTransaction.begun = []
    rw [commit_single hone]

/-- A body with directives is not built. -/
theorem runGuardedBuild_directives (hL : L.Documented) (ha : L.Accepts) (hP : Deploys P L view checks)
    (hraises : CreateRaises P) (hA : Admits P L) (hvalid : validSqlIdent sqlIdent kind.identStart = true)
    {ds : List (List PlToken)} (hds : ds ≠ []) (hb : L.parse (keptSource body) = some (ds, b)) :
    ∃ e, (runGuardedBuild P kind sqlIdent body s).2 = .error e := by
  have hread := fun t => parse_guarded t hL ha (quote_not_mem_ident hvalid) hb
  have hnone : ∀ t, t = "" ∨ t = ";" → L.parse (keptSource (guardedSource sqlIdent body t)) = none := by
    intro t ht
    rw [hread t ht, if_neg fun h => hds h.1]
  obtain ⟨t, hbuild, -, hchecks, hbegun⟩ :=
    guardedBuild_admitted (s := s.startTransaction.beginSub) hP hA hvalid (by rw [hb]; rfl)
  obtain ⟨u, e, hguarded, hback⟩ :=
    createGuarded_unread hP hraises hvalid hchecks (hnone "" (.inl rfl)) (hnone ";" (.inr rfl))
  obtain ⟨w, hsub, -, -⟩ := sub_thrown (hbuild.trans hguarded) (hback.trans hbegun)
  refine ⟨e, ?_⟩
  rw [runGuardedBuild, if_pos hvalid, transaction, hsub]

end Deployed

/-- `assert_local_execution` writes nothing, and its call is a query of one row. `passes` tells the
data on which it returns. -/
structure PlMachine.Guards {σ ω : Type} (M : PlMachine σ ω) (sqlIdent : String) (passes : σ → Bool) : Prop where
  returns : ∀ p st, passes st.data = true → M.query p (guardCall sqlIdent) st = (st.data, some 1)
  raises : ∀ p st, passes st.data = false → (M.query p (guardCall sqlIdent) st).2 = none

/-- A build succeeds, and wherever the guard returns, the routine it has deployed answers as the body
does on its own. -/
structure Preserved {δ σ ω : Type} (P : PgServer δ) (L : PlPgSql) (view : δ → Objects) (M : PlMachine σ ω)
    (passes : σ → Bool) (kind : RoutineKind) (sqlIdent body : String) (s : WorkerSession δ) : Prop where
  built : (runGuardedBuild P kind sqlIdent body s).2 = .ok .null
  deployed : ∃ source, view (runGuardedBuild P kind sqlIdent body s).1.db kind sqlIdent = some source ∧
    ∀ data, passes data = true → L.call M source data = L.call M (keptSource body) data
  committed : s.begun = [] → (runGuardedBuild P kind sqlIdent body s).1.begun = []

/-- A block answers the same, whether `FOUND` is set at its start, one row is counted and the guard
stands in its source, or not. -/
def Unaffected {σ ω : Type} (L : PlPgSql) (M : PlMachine σ ω) (passes : σ → Bool) (sqlIdent body : String)
    (b : PlBlock) : Prop :=
  ∀ data, passes data = true →
    M.answers ⟨keptSource (guardedSource sqlIdent body (L.terminator body)), [], []⟩ b ⟨true, 1, data⟩ =
      M.answers ⟨keptSource body, [], []⟩ b ⟨false, 0, data⟩

section Calls

variable {δ σ ω : Type} {P : PgServer δ} {L : PlPgSql} {view : δ → Objects} {checks : δ → Bool}
  {M : PlMachine σ ω} {passes : σ → Bool} {kind : RoutineKind} {sqlIdent body : String} {s : WorkerSession δ}
  {ds : List (List PlToken)} {b : PlBlock} {data : σ}

theorem call_of_parse {source : String} (h : L.parse source = some (ds, b)) :
    L.call M source data = some (M.answers ⟨source, ds, []⟩ b ⟨false, 0, data⟩) := by
  simp only [PlPgSql.call, h, Option.map_some, PlState.fresh]

/-- A call of the deployed routine, behind its guard. -/
theorem call_guarded (hL : L.Documented) (ha : L.Accepts) (hM : M.Guards sqlIdent passes)
    (hident : '\'' ∉ sqlIdent.toList) (hb : L.parse (keptSource body) = some ([], b)) (hpass : passes data = true) :
    L.call M (keptSource (guardedSource sqlIdent body (L.terminator body))) data =
      some (M.answers ⟨keptSource (guardedSource sqlIdent body (L.terminator body)), [], []⟩ b ⟨true, 1, data⟩) := by
  have hparse := parse_guarded _ hL ha hident hb (terminator_cases L body)
  rw [if_pos ⟨rfl, rfl⟩] at hparse
  have hquery : ∀ p, M.query p (guardCall sqlIdent) ⟨false, 0, data⟩ = (data, some 1) := fun p => hM.returns p _ hpass
  rw [call_of_parse hparse]
  simp only [PlMachine.answers, runBlock_nested (hquery _)]
  rfl

theorem replaceObject_same (o : Objects) (kind : RoutineKind) (sqlIdent source : String) :
    replaceObject o kind sqlIdent source kind sqlIdent = some source :=
  if_pos ⟨rfl, rfl⟩

/-- The guard leaves a routine as its author wrote it if and only if the body has no directives and
its block takes no notice of what the `PERFORM` in front of it has set. -/
theorem guard_preserves_iff (hL : L.Documented) (ha : L.Accepts) (hP : Deploys P L view checks)
    (hraises : CreateRaises P) (hA : Admits P L) (hM : M.Guards sqlIdent passes)
    (hvalid : validSqlIdent sqlIdent kind.identStart = true) (hb : L.parse (keptSource body) = some (ds, b)) :
    Preserved P L view M passes kind sqlIdent body s ↔ ds = [] ∧ Unaffected L M passes sqlIdent body b := by
  have hident := quote_not_mem_ident hvalid
  constructor
  · rintro ⟨hbuilt, ⟨source, hsource, hsame⟩, -⟩
    by_cases hds : ds = []
    · subst hds
      refine ⟨rfl, fun data hpass => ?_⟩
      obtain ⟨-, hview, -⟩ := runGuardedBuild_deploys (s := s) hL ha hP hraises hA hvalid hb
      rw [hview, replaceObject_same] at hsource
      have hcall := hsame data hpass
      rw [← Option.some.inj hsource] at hcall
      rw [call_guarded hL ha hM hident hb hpass, call_of_parse hb] at hcall
      exact Option.some.inj hcall
    · obtain ⟨e, he⟩ := runGuardedBuild_directives (s := s) hL ha hP hraises hA hvalid hds hb
      rw [he] at hbuilt
      cases hbuilt
  · rintro ⟨rfl, hsame⟩
    obtain ⟨hbuilt, hview, hcommit⟩ := runGuardedBuild_deploys (s := s) hL ha hP hraises hA hvalid hb
    refine ⟨hbuilt, ⟨_, by rw [hview, replaceObject_same], fun data hpass => ?_⟩, hcommit⟩
    rw [call_guarded hL ha hM hident hb hpass, call_of_parse hb, hsame data hpass]

/-- A block that reads `FOUND` and `ROW_COUNT` behind its own statements only is unaffected. -/
theorem unaffected_of_checked {R : ImplicitUse} (hM : M.Respects R) (hc : (R.checkBlock false b).isSome) :
    Unaffected L M passes sqlIdent body b :=
  fun _ _ => answers_of_checked hM ⟨rfl, rfl⟩ hc rfl

end Calls

namespace Core

open Fragment

theorem textServer_raises (L : PlPgSql) : CreateRaises (textServer L) := by
  intro n kind sqlIdent nanos source db e
  simp only [textServer]
  split_ifs
  · simp
  · split
    · simp
    · split
      · simp
      · split_ifs <;> simp

theorem textServer_admits (L : PlPgSql) : Admits (textServer L) L where
  role n db := by rw [textServer_role]
  settings n st db hst := by
    rcases List.mem_cons.mp hst with rfl | hst
    · exact ⟨none, by rw [textServer_checks]⟩
    · exact ⟨some (.bool true), by rw [List.mem_singleton.mp hst, textServer_admin]⟩
  created n kind sqlIdent q source db hvalid hread hparse := by
    refine ⟨none, ?_⟩
    obtain ⟨r, hr⟩ := Option.isSome_iff_exists.mp hparse
    rw [textServer_create L n db hvalid hread]
    simp [hr]

/-- Whether local execution is allowed, and what the routine returns. -/
structure CallData where
  allowed : Bool
  result : Option Bool := none
  deriving DecidableEq

def returnFound : List PlToken :=
  [.word "return", .word "to_jsonb", symbol "(", .word "found", symbol ")"]

/-- A machine on which `RETURN to_jsonb(FOUND)` is the only statement that does anything. -/
def machine : PlMachine CallData (PlEnd × Option Bool) where
  query _ _ st := (st.data, if st.data.allowed then some 1 else none)
  exec _ text st :=
    if text = returnFound then ({ st with data := { st.data with result := some st.found } }, .returns)
    else (st, .goesOn)
  catches _ _ _ := false
  undo entered _ := entered
  answer e data := (e, data.result)

def foundUse : ImplicitUse where
  reads text := text = returnFound
  sets _ := false

theorem machine_guards (sqlIdent : String) : machine.Guards sqlIdent (·.allowed) where
  returns p st h := by simp [machine, h]
  raises p st h := by simp [machine, h]

theorem machine_respects : machine.Respects foundUse where
  query p p' text set st st' _ hst _ := by simp [machine, hst.data]
  catches p p' text set st st' _ _ _ := rfl
  exec p p' text set st st' _ hst hadmits := by
    simp only [machine]
    split_ifs with htext
    · have hset : set = true := by simpa [ImplicitUse.admits, foundUse, htext] using hadmits
      rw [hst.implicit hset]
      exact ⟨rfl, .refl _ _, nofun⟩
    · exact ⟨rfl, hst, fun _ => hst.weaken (by simp [foundUse])⟩

def firstSession : WorkerSession (Objects × Bool) :=
  ⟨(fun _ _ => none, false), [], none, 0⟩

/-- `FOUND` is the body's own here. -/
theorem ownFound_preserved :
    Preserved (textServer core) core Prod.fst machine (·.allowed) .function
      "fn_0123456789abcdef0123456789abcdef" "BEGIN PERFORM f(); RETURN to_jsonb(FOUND); END" firstSession :=
  (guard_preserves_iff core_documented core_accepts (textServer_deploys core) (textServer_raises core)
    (textServer_admits core) (machine_guards _) (by decide +kernel)
    (show core.parse (keptSource "BEGIN PERFORM f(); RETURN to_jsonb(FOUND); END") =
      some ([], .mk [] [.perform [.word "f", symbol "(", symbol ")"], .other returnFound] []) from rfl)).mpr
    ⟨rfl, unaffected_of_checked machine_respects (by decide)⟩

theorem firstBuild_deploys {kind : RoutineKind} {sqlIdent body : String} {b : PlBlock}
    (hvalid : validSqlIdent sqlIdent kind.identStart = true) (hb : core.parse (keptSource body) = some ([], b)) :
    (runGuardedBuild (textServer core) kind sqlIdent body firstSession).1.db.1 kind sqlIdent =
      some (keptSource (guardedSource sqlIdent body (core.terminator body))) := by
  obtain ⟨-, hview, -⟩ := runGuardedBuild_deploys (s := firstSession) core_documented core_accepts
    (textServer_deploys core) (textServer_raises core) (textServer_admits core) hvalid hb
  rw [hview, replaceObject_same]

/-- The first body returns `false` on its own and `true` behind the guard. The second one is read on
its own and not behind the guard. -/
theorem found_is_set :
    ((core.parse (keptSource "BEGIN RETURN to_jsonb(FOUND); END")).isSome ∧
      ¬Preserved (textServer core) core Prod.fst machine (·.allowed) .function
        "fn_0123456789abcdef0123456789abcdef" "BEGIN RETURN to_jsonb(FOUND); END" firstSession) ∧
    ((core.parse (keptSource "#variable_conflict use_column\nBEGIN NULL; END")).isSome ∧
      ¬Preserved (textServer core) core Prod.fst machine (·.allowed) .function
        "fn_0123456789abcdef0123456789abcdef" "#variable_conflict use_column\nBEGIN NULL; END" firstSession) := by
  have hvalid : validSqlIdent "fn_0123456789abcdef0123456789abcdef" RoutineKind.function.identStart = true := by
    decide +kernel
  have hident := quote_not_mem_ident hvalid
  have hfound : core.parse (keptSource "BEGIN RETURN to_jsonb(FOUND); END") =
      some ([], .mk [] [.other returnFound] []) := rfl
  have hdirective : core.parse (keptSource "#variable_conflict use_column\nBEGIN NULL; END") =
      some ([[.word "variable_conflict", .word "use_column"]], .mk [] [.other [skips]] []) := rfl
  refine ⟨⟨by rw [hfound]; rfl, fun h => ?_⟩, ⟨by rw [hdirective]; rfl, fun h => ?_⟩⟩
  · obtain ⟨source, hsource, hsame⟩ := h.deployed
    have hcall := hsame ⟨true, none⟩ rfl
    rw [firstBuild_deploys hvalid hfound] at hsource
    rw [← Option.some.inj hsource, call_guarded core_documented core_accepts (machine_guards _) hident hfound rfl,
      call_of_parse hfound] at hcall
    exact absurd (Option.some.inj hcall) (by simp [PlMachine.answers, runBlock_bare, PlMachine.runStmts,
      PlMachine.runStmt, machine, andThen])
  · obtain ⟨e, he⟩ := runGuardedBuild_directives (s := firstSession) core_documented core_accepts
      (textServer_deploys core) (textServer_raises core) (textServer_admits core) hvalid (by simp) hdirective
    have hbuilt := h.built
    rw [he] at hbuilt
    cases hbuilt

end Core

end Allgres
