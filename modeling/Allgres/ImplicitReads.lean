import Allgres.PlExecution

/-! A check of a block for reads of `FOUND` and `ROW_COUNT` that nothing has set before. A block that
passes runs alike whatever these were at its start. -/

namespace Allgres

open PlToken

/-- Which texts read the implicit variables, and which have set both of them when they go on. -/
structure ImplicitUse where
  reads : List PlToken → Bool
  sets : List PlToken → Bool

namespace ImplicitUse

variable (R : ImplicitUse)

/-- Whether a text may stand where the implicit variables are set or not. -/
def admits (set : Bool) (text : List PlToken) : Bool :=
  set || !R.reads text

def checkFront (set : Bool) : List (List PlToken) → Option Bool
  | [] => some set
  | t :: front =>
    if isLabel t then checkFront set front
    else if R.admits set t then checkFront (set || R.sets t) front
    else none

mutual

/-- Whether the implicit variables are set behind a statement that goes on. -/
def checkStmt (set : Bool) : PlStmt → Option Bool
  | .perform expr => if R.admits set expr then some true else none
  | .other text => if R.admits set text then some (set || R.sets text) else none
  | .block b => checkBlock set b

def checkStmts (set : Bool) : List PlStmt → Option Bool
  | [] => some set
  | s :: ss => match checkStmt set s with
    | some set' => checkStmts set' ss
    | none => none

def checkHandlers (set : Bool) : List (List PlToken × List PlStmt) → Bool
  | [] => true
  | (condition, ss) :: rest => R.admits set condition && (checkStmts set ss).isSome && checkHandlers set rest

/-- Behind a block that a handler or an `EXIT` can end, no more is set than at its start. -/
def checkBlock (set : Bool) : PlBlock → Option Bool
  | .mk front stmts handlers => match R.checkFront set front with
    | none => none
    | some entered =>
      if checkHandlers entered handlers then match checkStmts entered stmts with
        | some set' => some (if handlers.isEmpty && (labelOf front).isNone then set' else entered)
        | none => none
      else none

end

end ImplicitUse

section Alike

variable {σ : Type}

/-- Two states of the same data, and of the same implicit variables where these are set. -/
structure PlState.Alike (set : Bool) (st st' : PlState σ) : Prop where
  data : st.data = st'.data
  implicit : set = true → st = st'

/-- Two places that differ in the source around them at most. -/
structure PlPlace.Alike (p p' : PlPlace) : Prop where
  options : p.options = p'.options
  around : p.around = p'.around

/-- Two runs end alike. -/
structure EndAlike (before after : Bool) (r r' : PlState σ × PlEnd) : Prop where
  outcome : r.2 = r'.2
  state : r.1.Alike before r'.1
  goesOn : r.2 = .goesOn → r.1.Alike after r'.1

theorem PlPlace.Alike.within {p p' : PlPlace} (h : p.Alike p') (front : List (List PlToken)) :
    (p.within front).Alike (p'.within front) :=
  ⟨h.options, congrArg (front.reverse ++ ·) h.around⟩

theorem PlState.Alike.refl (set : Bool) (st : PlState σ) : st.Alike set st :=
  ⟨rfl, fun _ => rfl⟩

theorem PlState.Alike.weaken {set set' : Bool} {st st' : PlState σ} (h : st.Alike set st')
    (hle : set' = true → set = true) : st.Alike set' st' :=
  ⟨h.data, fun hs => h.implicit (hle hs)⟩

theorem PlState.Alike.withData {set : Bool} {st st' : PlState σ} (h : st.Alike set st') (data : σ) :
    PlState.Alike set { st with data := data } { st' with data := data } :=
  ⟨rfl, fun hs => by rw [h.implicit hs]⟩

variable {before mid after : Bool} {r r' : PlState σ × PlEnd}

theorem EndAlike.weaken {after' : Bool} (h : EndAlike before after r r') (hle : after' = true → after = true) :
    EndAlike before after' r r' :=
  ⟨h.outcome, h.state, fun he => (h.goesOn he).weaken hle⟩

/-- What goes on alike ends alike. -/
theorem EndAlike.andThen {f f' : PlState σ → PlState σ × PlEnd} (h : EndAlike before mid r r')
    (hle : before = true → mid = true) (hf : ∀ u u', u.Alike mid u' → EndAlike mid after (f u) (f' u')) :
    EndAlike before after (andThen r f) (andThen r' f') := by
  obtain ⟨u, e⟩ := r
  obtain ⟨u', e'⟩ := r'
  obtain ⟨houtcome, hstate, hgoes⟩ := h
  obtain rfl : e = e' := houtcome
  cases e with
  | goesOn =>
    have hrest := hf u u' (hgoes rfl)
    exact ⟨hrest.outcome, hrest.state.weaken hle, hrest.goesOn⟩
  | exits l => exact ⟨rfl, hstate, nofun⟩
  | returns => exact ⟨rfl, hstate, nofun⟩
  | raises => exact ⟨rfl, hstate, nofun⟩

/-- The same, where it is an error that is dealt with. -/
theorem EndAlike.orElse {f f' : PlState σ → PlState σ × PlEnd} (h : EndAlike before after r r')
    (hf : ∀ u u', u.Alike before u' → EndAlike before after (f u) (f' u')) :
    EndAlike before after (orElse r f) (orElse r' f') := by
  obtain ⟨u, e⟩ := r
  obtain ⟨u', e'⟩ := r'
  obtain ⟨houtcome, hstate, hgoes⟩ := h
  obtain rfl : e = e' := houtcome
  cases e with
  | goesOn => exact ⟨rfl, hstate, hgoes⟩
  | exits l => exact ⟨rfl, hstate, nofun⟩
  | returns => exact ⟨rfl, hstate, nofun⟩
  | raises => exact hf u u' hstate

theorem EndAlike.closes {front : List (List PlToken)} (h : EndAlike before after r r')
    (hlabel : labelOf front = none ∨ (after = true → before = true)) :
    EndAlike before after (Allgres.closes front r) (Allgres.closes front r') := by
  obtain ⟨u, e⟩ := r
  obtain ⟨u', e'⟩ := r'
  obtain ⟨houtcome, hstate, hgoes⟩ := h
  obtain rfl : e = e' := houtcome
  cases e with
  | goesOn => exact ⟨rfl, hstate, hgoes⟩
  | returns => exact ⟨rfl, hstate, nofun⟩
  | raises => exact ⟨rfl, hstate, nofun⟩
  | exits l =>
    unfold Allgres.closes
    dsimp only
    split_ifs with hl
    · rcases hlabel with hnone | hle
      · rw [hnone] at hl
        cases hl
      · exact ⟨rfl, hstate, fun _ => hstate.weaken hle⟩
    · exact ⟨rfl, hstate, nofun⟩

end Alike

/-- What a machine does with the texts of a body: none depends on the source around it, and only those
that read the implicit variables depend on these. -/
structure PlMachine.Respects {σ ω : Type} (M : PlMachine σ ω) (R : ImplicitUse) : Prop where
  query : ∀ p p' text set st st', p.Alike p' → st.Alike set st' → R.admits set text = true →
    M.query p text st = M.query p' text st'
  exec : ∀ p p' text set st st', p.Alike p' → st.Alike set st' → R.admits set text = true →
    EndAlike set (set || R.sets text) (M.exec p text st) (M.exec p' text st')
  catches : ∀ p p' text set st st', p.Alike p' → st.Alike set st' → R.admits set text = true →
    M.catches p text st = M.catches p' text st'

section Checked

variable {σ ω : Type} {M : PlMachine σ ω} {R : ImplicitUse} {p p' : PlPlace} {st st' : PlState σ} {set set' : Bool}

theorem perform_alike (hM : M.Respects R) (hp : p.Alike p') (hst : st.Alike set st') {expr : List PlToken}
    (hc : R.admits set expr = true) : EndAlike set true (M.perform p expr st) (M.perform p' expr st') := by
  have hquery := hM.query p p' expr set st st' hp hst hc
  unfold PlMachine.perform
  rw [hquery]
  rcases M.query p' expr st' with ⟨data, _ | rows⟩
  · exact ⟨rfl, hst.withData data, nofun⟩
  · exact ⟨rfl, .refl _ _, fun _ => .refl _ _⟩

theorem checkFront_grows {front : List (List PlToken)} (h : R.checkFront set front = some set') :
    set = true → set' = true := by
  induction front generalizing set with
  | nil =>
    cases h
    exact id
  | cons t front ih =>
    rw [ImplicitUse.checkFront] at h
    split_ifs at h with hlabel hc
    · exact ih h
    · intro hs
      exact ih h (by simp [hs])

theorem runFront_alike (hM : M.Respects R) {front : List (List PlToken)} (hp : p.Alike p')
    (hst : st.Alike set st') (hc : R.checkFront set front = some set') :
    EndAlike set set' (M.runFront p front st) (M.runFront p' front st') := by
  induction front generalizing p p' set st st' with
  | nil =>
    cases hc
    exact ⟨rfl, hst, fun _ => hst⟩
  | cons t front ih =>
    have hnext := hp.within [t]
    rw [ImplicitUse.checkFront] at hc
    unfold PlMachine.runFront
    split_ifs at hc ⊢ with hlabel hadmits
    · exact ih hnext hst hc
    · have hfirst := hM.exec p p' t set st st' hp hst hadmits
      exact hfirst.andThen (fun hs => by simp [hs]) fun u u' hu => ih hnext hu hc

theorem caught_alike {handlers : List (List PlToken × List PlStmt)} {u u' : PlState σ}
    (hst : st.Alike set st') (hu : u.Alike set u') :
    (M.caught st handlers u).Alike set (M.caught st' handlers u') := by
  unfold PlMachine.caught
  rw [hst.data, hu.data]
  split_ifs
  · exact hu
  · exact hu.withData _

mutual

theorem checkStmt_grows {set set' : Bool} {s : PlStmt} (h : R.checkStmt set s = some set') : set = true → set' = true := by
  intro hs
  cases s with
  | perform expr =>
    rw [ImplicitUse.checkStmt] at h
    split_ifs at h
    exact (Option.some.inj h).symm
  | other text =>
    rw [ImplicitUse.checkStmt] at h
    split_ifs at h
    rw [← Option.some.inj h, hs]
    rfl
  | block b =>
    rw [ImplicitUse.checkStmt] at h
    exact checkBlock_grows h hs

theorem checkStmts_grows {set set' : Bool} {ss : List PlStmt} (h : R.checkStmts set ss = some set') : set = true → set' = true := by
  cases ss with
  | nil =>
    rw [ImplicitUse.checkStmts] at h
    cases h
    exact id
  | cons s ss =>
    rw [ImplicitUse.checkStmts] at h
    split at h
    · next k hk => exact fun hs => checkStmts_grows h (checkStmt_grows hk hs)
    · cases h

theorem checkBlock_grows {set set' : Bool} {b : PlBlock} (h : R.checkBlock set b = some set') : set = true → set' = true := by
  cases b with
  | mk front stmts handlers =>
    rw [ImplicitUse.checkBlock] at h
    split at h
    · cases h
    · next entered hfront =>
      split_ifs at h with hhandlers hends
      · split at h
        · next k hk =>
          cases h
          exact fun hs => checkStmts_grows hk (checkFront_grows hfront hs)
        · cases h
      · split at h
        · cases h
          exact checkFront_grows hfront
        · cases h

end

mutual

theorem runStmt_alike (hM : M.Respects R) {p p' : PlPlace} {st st' : PlState σ} {set set' : Bool} {s : PlStmt} (hp : p.Alike p') (hst : st.Alike set st')
    (hc : R.checkStmt set s = some set') : EndAlike set set' (M.runStmt p s st) (M.runStmt p' s st') := by
  cases s with
  | perform expr =>
    rw [ImplicitUse.checkStmt] at hc
    split_ifs at hc with hadmits
    cases hc
    simp only [PlMachine.runStmt]
    exact perform_alike hM hp hst hadmits
  | other text =>
    rw [ImplicitUse.checkStmt] at hc
    split_ifs at hc with hadmits
    cases hc
    simp only [PlMachine.runStmt]
    exact hM.exec p p' text set st st' hp hst hadmits
  | block b =>
    rw [ImplicitUse.checkStmt] at hc
    simp only [PlMachine.runStmt]
    exact runBlock_alike hM hp hst hc

theorem runStmts_alike (hM : M.Respects R) {p p' : PlPlace} {st st' : PlState σ} {set set' : Bool} {ss : List PlStmt} (hp : p.Alike p') (hst : st.Alike set st')
    (hc : R.checkStmts set ss = some set') : EndAlike set set' (M.runStmts p ss st) (M.runStmts p' ss st') := by
  cases ss with
  | nil =>
    rw [ImplicitUse.checkStmts] at hc
    cases hc
    simp only [PlMachine.runStmts]
    exact ⟨rfl, hst, fun _ => hst⟩
  | cons s ss =>
    rw [ImplicitUse.checkStmts] at hc
    split at hc
    · next k hk =>
      have hfirst := runStmt_alike hM hp hst hk
      simp only [PlMachine.runStmts]
      exact hfirst.andThen (checkStmt_grows hk) fun u u' hu => runStmts_alike hM hp hu hc
    · cases hc

theorem runHandlers_alike (hM : M.Respects R) {p p' : PlPlace} {st st' : PlState σ} {set : Bool} {handlers : List (List PlToken × List PlStmt)} (hp : p.Alike p')
    (hst : st.Alike set st') (hc : R.checkHandlers set handlers = true) :
    EndAlike set set (M.runHandlers p handlers st) (M.runHandlers p' handlers st') := by
  cases handlers with
  | nil =>
    simp only [PlMachine.runHandlers]
    exact ⟨rfl, hst, nofun⟩
  | cons h rest =>
    obtain ⟨condition, ss⟩ := h
    rw [ImplicitUse.checkHandlers, Bool.and_eq_true, Bool.and_eq_true] at hc
    obtain ⟨⟨hcondition, hss⟩, hrest⟩ := hc
    obtain ⟨k, hk⟩ := Option.isSome_iff_exists.mp hss
    simp only [PlMachine.runHandlers, hM.catches p p' condition set st st' hp hst hcondition]
    split
    · exact (runStmts_alike hM hp hst hk).weaken (checkStmts_grows hk)
    · exact runHandlers_alike hM hp hst hrest

theorem runBlock_alike (hM : M.Respects R) {p p' : PlPlace} {st st' : PlState σ} {set set' : Bool} {b : PlBlock} (hp : p.Alike p') (hst : st.Alike set st')
    (hc : R.checkBlock set b = some set') : EndAlike set set' (M.runBlock p b st) (M.runBlock p' b st') := by
  cases b with
  | mk front stmts handlers =>
    have hin := hp.within front
    rw [ImplicitUse.checkBlock] at hc
    split at hc
    · cases hc
    · next entered hfront =>
      simp only [PlMachine.runBlock]
      have houter := runFront_alike hM hp hst hfront
      split_ifs at hc with hhandlers hplain
      · split at hc
        · next k hk =>
          cases hc
          obtain ⟨hempty, hlabel⟩ := (Bool.and_eq_true _ _).mp hplain
          obtain rfl := List.isEmpty_iff.mp hempty
          refine houter.andThen (checkFront_grows hfront) fun u u' hu => ?_
          refine ((runStmts_alike hM hin hu hk).orElse fun w w' hw => ?_).closes
            (.inl (Option.isNone_iff_eq_none.mp hlabel))
          have hraised : (M.caught u [] w).Alike entered (M.caught u' [] w') := caught_alike hu hw
          simp only [PlMachine.runHandlers]
          exact ⟨rfl, hraised, nofun⟩
        · cases hc
      · split at hc
        · next k hk =>
          cases hc
          refine houter.andThen (checkFront_grows hfront) fun u u' hu => ?_
          have hstmts := (runStmts_alike hM hin hu hk).weaken (checkStmts_grows hk)
          refine (hstmts.orElse fun w w' hw => ?_).closes (.inr id)
          exact runHandlers_alike hM hin (caught_alike hu hw) hhandlers
        · cases hc

end

/-- A block that passes from unset implicit variables answers the same from any. -/
theorem answers_of_checked (hM : M.Respects R) {b : PlBlock} (hp : p.Alike p')
    (hc : (R.checkBlock false b).isSome) (hdata : st.data = st'.data) :
    M.answers p b st = M.answers p' b st' := by
  obtain ⟨k, hk⟩ := Option.isSome_iff_exists.mp hc
  have hst : st.Alike false st' := ⟨hdata, fun h => absurd h (by decide)⟩
  have hrun := runBlock_alike hM hp hst hk
  simp only [PlMachine.answers, hrun.outcome, hrun.state.data]

end Checked

end Allgres
