import Allgres.CapabilityGate

/-! The rate an evaluation compares with: which transition has left it behind, over any history
of the capability. -/

namespace Allgres

open Rows Raise Runs

def LibraryOp.moves : LibraryOp → Bool
  | .transition .. => true
  | _ => false

/-- Whatever transitions are asked for, the capability is not published by them. -/
def Library.Barred (pg : Postgres) (L : Library) (id : Uuid) : Prop :=
  ∀ ts : List LibraryEvent, (∀ t ∈ ts, t.op.moves = true) → ∀ testResult note, ∃ message,
    (run (libraryStep pg) L ts).transitionCapability id (some "published") testResult note =
      .error message

/-- The evaluation reports a regression and fails, and the capability is not published after it. -/
def Library.Catches (pg : Postgres) (L : Library) (id : Uuid) : Prop :=
  ∃ L' e, L.evaluateCapability id = .ok (L', e.json) ∧ L'.evaluations = L.evaluations ++ [e] ∧
    e.capabilityId = id ∧ e.regression = true ∧ e.passed = false ∧ L'.Barred pg id

/-- A test result may name a passing evaluation of the content as it stands. -/
def Library.Vouched (L : Library) (id : Uuid) : Prop :=
  ∃ k text e, L.capability? id = some k ∧ L.passing? k (castUuid text) = some e

/-- The result recorded with a transition carries a rate above the current one. -/
def Library.belowRecorded (L : Library) (id : Uuid) (t : Transition) : Bool :=
  match t.testResult.map recordedRate with
  | some (.ok (some b)) => L.below id b
  | _ => false

namespace Course

def publication? (x : Course) (id : Uuid) : Option Transition :=
  x.past.find? fun t => t.capabilityId = id ∧ t.target = .published

/-- The last transition out of `published` that was given a result. -/
def withdrawal? (x : Course) (id : Uuid) : Option Transition :=
  x.past.find? fun t => t.capabilityId = id ∧ t.origin = .published ∧ t.testResult.isSome

/-- The current rate is below the one the last publication has recorded. -/
def regressed (x : Course) (id : Uuid) : Bool :=
  (x.publication? id).any (x.library.belowRecorded id)

def withdrawnAbove (x : Course) (id : Uuid) : Bool :=
  (x.withdrawal? id).any (x.library.belowRecorded id)

/-- The baseline is what the last withdrawal was given. -/
def Tracked (x : Course) : Prop :=
  ∀ id, (x.library.baseline? id).bind (·.testResult) = (x.withdrawal? id).bind (·.testResult)

end Course

section Versions

variable {L : Library} {row : CapabilityVersion} {id : Uuid}

theorem le_foldl_max (ns : List Nat) (m : Nat) : m ≤ ns.foldl max m ∧ ∀ n ∈ ns, n ≤ ns.foldl max m := by
  induction ns generalizing m with
  | nil => simp
  | cons n ns ih =>
    obtain ⟨hm, hns⟩ := ih (max m n)
    rw [List.foldl_cons]
    constructor
    · omega
    · intro i hi
      rcases List.mem_cons.mp hi with rfl | hi
      · omega
      · exact hns i hi

theorem version_lt_nextVersion {v : CapabilityVersion} (hv : v ∈ L.versions) :
    v.version < L.nextVersion v.capabilityId := by
  have hmem : v.version ∈ (L.versions.filter (·.capabilityId = v.capabilityId)).map (·.version) :=
    List.mem_map_of_mem (List.mem_filter.mpr ⟨hv, by simp⟩)
  have hle := (le_foldl_max _ 0).2 _ hmem
  unfold Library.nextVersion
  omega

/-- The versions the baseline is chosen from. -/
def CapabilityVersion.isBaseline (id : Uuid) (v : CapabilityVersion) : Bool :=
  v.capabilityId = id ∧ v.lifecycle = .published ∧ v.testResult.isSome

theorem baseline_append_of_not {c : Config} (h : row.isBaseline id = false) :
    ({ L with
      cfg := c
      versions := L.versions ++ [row] } : Library).baseline? id = L.baseline? id := by
  have hfilter : (L.versions ++ [row]).filter (CapabilityVersion.isBaseline id) =
      L.versions.filter (CapabilityVersion.isBaseline id) := by
    simp [List.filter_append, h]
  exact congrArg (fun rows => (sortDesc (·.version) rows).head?) hfilter

theorem baseline_append {c : Config} (h : row.isBaseline id = true)
    (hversion : row.version = L.nextVersion row.capabilityId) :
    ({ L with
      cfg := c
      versions := L.versions ++ [row] } : Library).baseline? id = some row := by
  have hid : row.capabilityId = id := (of_decide_eq_true h).1
  have hmem : row ∈ (L.versions ++ [row]).filter (CapabilityVersion.isBaseline id) :=
    List.mem_filter.mpr ⟨by simp, h⟩
  change (sortDesc (·.version) ((L.versions ++ [row]).filter (CapabilityVersion.isBaseline id))).head? =
    some row
  have hsorted : row ∈ sortDesc (·.version) ((L.versions ++ [row]).filter (CapabilityVersion.isBaseline id)) :=
    mem_sortDesc.mpr hmem
  cases hhead : (sortDesc (·.version) ((L.versions ++ [row]).filter (CapabilityVersion.isBaseline id))).head? with
  | none =>
    rw [List.head?_eq_none_iff.mp hhead] at hsorted
    cases hsorted
  | some v =>
    obtain ⟨hv, hmax⟩ := head_sortDesc hhead
    have hle := hmax row hmem
    obtain ⟨hv, hbase⟩ := List.mem_filter.mp hv
    rcases List.mem_append.mp hv with hold | hnew
    · have hlt := version_lt_nextVersion hold
      have hvid : v.capabilityId = id := (of_decide_eq_true hbase).1
      rw [hvid] at hlt
      rw [hid] at hversion
      omega
    · rw [List.mem_singleton.mp hnew]

/-- The version a rollback saves has no test result. -/
theorem baseline_saved {L : Library} (c : Config) {saved : Option CapabilityVersion}
    (h : ∀ v, saved = some v → v.testResult = none) (i : Uuid) :
    ({ L with
      versions := L.versions ++ saved.toList
      cfg := c } : Library).baseline? i = L.baseline? i := by
  cases saved with
  | none =>
    have hnil : L.versions ++ (none : Option CapabilityVersion).toList = L.versions := List.append_nil _
    rw [hnil]
    rfl
  | some v => exact baseline_append_of_not (by simp [CapabilityVersion.isBaseline, h v rfl])

theorem baseline_rollback (pg : Postgres) (now : Time) (L : Library) (id : Uuid) (version : Int) :
    Returns (fun r => ∀ i, r.1.baseline? i = L.baseline? i) (L.rollbackCapability pg now id version) := by
  unfold Library.rollbackCapability
  split
  · exact returns_error _
  · rename_i v hv
    have hsaved : ∀ (found : Option Capability) (note : Option String) w,
        (found.map fun k => ({
          capabilityId := id
          version := L.nextVersion id
          lifecycle := k.lifecycle
          snapshot := k.snapshot
          changeNote := note } : CapabilityVersion)) = some w → w.testResult = none := by
      intro found note w hw
      obtain ⟨k, _, rfl⟩ := Option.map_eq_some_iff.mp hw
      rfl
    split
    · exact returns_seq fun c => returns_pure (baseline_saved _ (hsaved _ _))
    · exact returns_pure (baseline_saved _ (hsaved _ _))

theorem evaluation_regression (L : Library) (id : Uuid) :
    Returns (fun e => ∃ baseline, L.baselineRate id = .ok baseline ∧
      e.regression = baseline.any fun b => L.below id b) (L.evaluation id) := by
  unfold Library.evaluation
  split
  · exact returns_error _
  · refine returns_bind (P := fun b => L.baselineRate id = .ok b) (fun b hb => hb) fun b hb => ?_
    exact returns_pure ⟨b, hb, rfl⟩

theorem evaluateCapability_records (L : Library) (id : Uuid) :
    Returns (fun r => ∃ e, L.evaluation id = .ok e ∧ r.1 = { L with
      evaluations := L.evaluations ++ [e]
      cfg := { L.cfg with nextId := L.cfg.nextId + 1 } }) (L.evaluateCapability id) := by
  unfold Library.evaluateCapability
  refine returns_bind (P := fun e => L.evaluation id = .ok e) (fun e he => he) fun e he => ?_
  exact returns_pure ⟨e, he, rfl⟩

theorem evaluation_fails {L : Library} {b : Numeric} (hid : (L.capability? id).isSome = true)
    (hb : L.baselineRate id = .ok (some b)) (hbelow : L.below id b = true) :
    ∃ e, L.evaluation id = .ok e ∧ e.capabilityId = id ∧ e.regression = true ∧ e.passed = false := by
  obtain ⟨k, hk⟩ := Option.isSome_iff_exists.mp hid
  unfold Library.evaluation
  rw [hk]
  dsimp only
  rw [hb]
  refine ⟨_, rfl, rfl, hbelow, ?_⟩
  dsimp only
  rw [Option.any_some, hbelow]
  exact Bool.and_false _

end Versions

section Publications

variable {pg : Postgres} {L : Library} {id : Uuid} {lifecycle : Option String}
  {testResult : Option Json} {note : Option String}

theorem passing_none (k : Capability) : L.passing? k none = none := by
  unfold Library.passing?
  rw [List.find?_eq_none]
  intro e _
  simp

/-- A failing evaluation vouches for nothing. -/
theorem passing_failed {c : Config} {e : CapabilityEvaluation} (he : e.passed = false)
    (k : Capability) (evaluationId : Option Uuid) :
    ({ L with
      evaluations := L.evaluations ++ [e]
      cfg := c } : Library).passing? k evaluationId = L.passing? k evaluationId := by
  unfold Library.passing?
  rw [List.find?_append]
  simp [he]

theorem vouched_failed {n : Nat} {e : CapabilityEvaluation} (he : e.passed = false) :
    ({ L with
      evaluations := L.evaluations ++ [e]
      cfg := { L.cfg with nextId := n } } : Library).Vouched id ↔ L.Vouched id := by
  constructor
  · rintro ⟨k, text, e', hk, he'⟩
    rw [passing_failed he] at he'
    exact ⟨k, text, e', hk, he'⟩
  · rintro ⟨k, text, e', hk, he'⟩
    refine ⟨k, text, e', hk, ?_⟩
    rw [passing_failed he]
    exact he'

theorem publication_vouched (k : Capability) (testResult : Option Json) :
    Returns (fun _ => ∃ text e, L.passing? k (castUuid text) = some e) (L.publication k testResult) := by
  unfold Library.publication
  refine returns_bind (P := fun evaluationId => ∀ id, evaluationId = some id →
    ∃ text, castUuid text = some id) ?_ fun evaluationId hid => ?_
  · unfold castOrRaise
    split
    · exact returns_ok nofun
    · rename_i text _
      split
      · rename_i id hcast
        apply returns_ok
        rintro _ ⟨⟩
        exact ⟨text, hcast⟩
      · exact returns_error _
  · split
    · exact returns_error _
    · rename_i e he
      cases evaluationId with
      | none =>
        rw [passing_none] at he
        cases he
      | some id =>
        obtain ⟨text, hcast⟩ := hid id rfl
        exact returns_pure ⟨text, e, hcast ▸ he⟩

theorem publish_vouched (testResult : Option Json) (note : Option String) :
    Returns (fun _ => L.Vouched id) (L.transitionCapability id (some "published") testResult note) := by
  unfold Library.transitionCapability
  refine returns_bind (P := fun _ => L.Vouched id) ?_ fun _ h => returns_pure h
  unfold Library.transitionRow
  have htarget : Library.lifecycleArgument (some "published") = .ok (some .published) := by rfl
  rw [htarget]
  refine returns_bind (P := fun target => target = some .published) (returns_ok rfl) fun _ h => ?_
  subst h
  split
  · exact returns_error _
  · rename_i k hk
    refine returns_seq fun _ => returns_seq fun _ => ?_
    rw [if_pos rfl]
    refine returns_bind (publication_vouched k testResult) fun _ hvouched => returns_pure ?_
    obtain ⟨text, e, he⟩ := hvouched
    exact ⟨k, text, e, hk, he⟩

/-- A capability that is vouched for is published once it is up for review. -/
theorem publish_reviewed {k : Capability} {text : String} {e : CapabilityEvaluation}
    (hk : L.capability? id = some k) (hreview : k.lifecycle = .reviewPending)
    (he : L.passing? k (castUuid text) = some e) :
    ∃ r, L.transitionCapability id (some "published")
      (some (.object [("evaluation_id", .str text)])) none = .ok r := by
  have hempty : castUuid "" = none := by decide
  have hne : text ≠ "" := by
    rintro rfl
    rw [hempty, passing_none] at he
    cases he
  have hpublication : L.publication k (some (.object [("evaluation_id", .str text)])) =
      .ok (some e.testResult) := by
    have hnamed : nullIfEmpty ((Json.object [("evaluation_id", .str text)]).text "evaluation_id") =
        some text := by
      have htext : (Json.object [("evaluation_id", .str text)]).text "evaluation_id" = some text := rfl
      rw [htext, nullIfEmpty, Option.bind_some, if_neg hne]
    unfold Library.publication castOrRaise
    rw [Option.bind_some, hnamed]
    cases hcast : castUuid text with
    | none =>
      rw [hcast, passing_none] at he
      cases he
    | some evaluationId =>
      rw [hcast] at he
      simp only [hcast, he, bind, Except.bind]
      rfl
  have htarget : Library.lifecycleArgument (some "published") = .ok (some .published) := by rfl
  unfold Library.transitionCapability Library.transitionRow
  simp only [htarget, hk, hreview, hpublication, raiseIf, bind, Except.bind, pure, Except.pure]
  exact ⟨_, rfl⟩

variable (pg) in
/-- A transition writes one lifecycle. -/
theorem step_moves {t : LibraryEvent} (ht : t.op.moves = true) (id : Uuid) :
    (libraryStep pg L t).evaluations = L.evaluations ∧
      ∃ f : Capability → Capability, (∀ k, (f k).capabilityId = k.capabilityId ∧
        (f k).contentHash = k.contentHash) ∧
        (libraryStep pg L t).capability? id = (L.capability? id).map f := by
  obtain ⟨now, op⟩ := t
  cases op with
  | transition i lifecycle testResult note =>
    have hsame : ∃ f : Capability → Capability, (∀ k, (f k).capabilityId = k.capabilityId ∧
        (f k).contentHash = k.contentHash) ∧ L.capability? id = (L.capability? id).map f :=
      ⟨fun k => k, fun _ => ⟨rfl, rfl⟩, by simp⟩
    dsimp only [libraryStep]
    unfold Library.transitionCapability
    cases hrow : L.transitionRow i lifecycle testResult note with
    | error message => exact ⟨rfl, hsame⟩
    | ok r =>
      obtain ⟨row, target⟩ := r
      refine ⟨rfl, fun k => if id = i then { k with lifecycle := target } else k, fun k => ?_, ?_⟩
      · split_ifs <;> exact ⟨rfl, rfl⟩
      · exact find_update (·.capabilityId) (f := fun k : Capability => { k with lifecycle := target })
          (fun _ => rfl) i id L.cfg.capabilities
  | _ => cases ht

theorem vouched_of_moved {t : LibraryEvent} (ht : t.op.moves = true)
    (h : (libraryStep pg L t).Vouched id) : L.Vouched id := by
  obtain ⟨k', text, e, hk', he⟩ := h
  obtain ⟨hevaluations, f, hf, hfound⟩ := step_moves pg (L := L) ht id
  rw [hfound] at hk'
  obtain ⟨k, hk, rfl⟩ := Option.map_eq_some_iff.mp hk'
  refine ⟨k, text, e, hk, ?_⟩
  unfold Library.passing? at he ⊢
  rw [hevaluations, (hf k).1, (hf k).2] at he
  exact he

/-- What is not vouched for is not published, wherever it is moved. -/
theorem barred_of_not_vouched (h : ¬ L.Vouched id) : L.Barred pg id := by
  intro ts hts testResult note
  have hstep : ∀ (M : Library) (t : LibraryEvent), ¬ M.Vouched id → t.op.moves = true →
      ¬ (libraryStep pg M t).Vouched id := fun M t hM ht hv => hM (vouched_of_moved ht hv)
  have hafter : ¬ (run (libraryStep pg) L ts).Vouched id := by
    induction ts generalizing L with
    | nil => exact h
    | cons t ts ih =>
      obtain ⟨ht, hts⟩ := List.forall_mem_cons.mp hts
      exact ih (hstep L t h ht) hts
  cases hr : (run (libraryStep pg) L ts).transitionCapability id (some "published") testResult note with
  | error message => exact ⟨message, rfl⟩
  | ok r => exact absurd (publish_vouched testResult note r hr) hafter

variable (pg) in
/-- A transition to another lifecycle than `published`, as far as the checks let it pass. -/
theorem step_to {k : Capability} {target : Lifecycle} (now : Time) (hk : L.capability? id = some k)
    (htarget : target = .deprecated ∨ (target = .reviewPending ∧ k.lifecycle ≠ .published)) :
    let M := libraryStep pg L ⟨now, .transition id (some target.text) none none⟩
    M.evaluations = L.evaluations ∧ M.capability? id = some { k with lifecycle := target } := by
  have hrow : ∃ row, L.transitionRow id (some target.text) none none = .ok (row, target) := by
    unfold Library.transitionRow
    rcases htarget with rfl | ⟨rfl, hlifecycle⟩
    · have hname : Library.lifecycleArgument (some Lifecycle.deprecated.text) =
          .ok (some .deprecated) := by rfl
      simp only [hname, hk, raiseIf, bind, Except.bind, pure, Except.pure]
      simp
    · have hname : Library.lifecycleArgument (some Lifecycle.reviewPending.text) =
          .ok (some .reviewPending) := by rfl
      simp only [hname, hk, raiseIf, bind, Except.bind, pure, Except.pure]
      simp [hlifecycle]
  obtain ⟨row, hrow⟩ := hrow
  intro M
  have hM : M = { L with
      versions := L.versions ++ [row]
      cfg := Library.setLifecycle L.cfg id target } := by
    simp only [M, libraryStep, Library.transitionCapability, hrow]
    rfl
  rw [hM]
  refine ⟨rfl, ?_⟩
  have hfound := find_update (·.capabilityId) (f := fun k : Capability => { k with lifecycle := target })
    (fun _ => rfl) id id L.cfg.capabilities
  refine hfound.trans ?_
  have hk' : L.cfg.capabilities.find? (·.capabilityId = id) = some k := hk
  rw [hk', Option.map_some, if_pos rfl]

theorem passing_congr {M : Library} {k k' : Capability} (h : M.evaluations = L.evaluations)
    (hid : k'.capabilityId = k.capabilityId) (hhash : k'.contentHash = k.contentHash)
    (evaluationId : Option Uuid) : M.passing? k' evaluationId = L.passing? k evaluationId := by
  unfold Library.passing?
  rw [h, hid, hhash]

/-- What is vouched for can be brought to review and published. -/
theorem barred_iff : L.Barred pg id ↔ ¬ L.Vouched id := by
  refine ⟨?_, barred_of_not_vouched⟩
  rintro hbarred ⟨k, text, e, hk, he⟩
  let review : LibraryEvent := ⟨0, .transition id (some Lifecycle.reviewPending.text) none none⟩
  have hpublish : ∀ ts : List LibraryEvent, (∀ t ∈ ts, t.op.moves = true) →
      ∀ k', (run (libraryStep pg) L ts).evaluations = L.evaluations →
        (run (libraryStep pg) L ts).capability? id = some k' → k'.lifecycle ≠ .published →
          k'.capabilityId = k.capabilityId → k'.contentHash = k.contentHash → False := by
    intro ts hts k' hevals hk' hlifecycle hid hhash
    obtain ⟨hevals', hreviewed⟩ := step_to pg 0 hk' (.inr ⟨rfl, hlifecycle⟩)
    have hpassing : _ = L.passing? k (castUuid text) := passing_congr (hevals'.trans hevals) hid hhash (castUuid text)
    obtain ⟨r, hr⟩ := publish_reviewed hreviewed rfl (hpassing.trans he)
    have hall : ∀ t ∈ ts ++ [review], t.op.moves = true := by
      intro t ht
      rcases List.mem_append.mp ht with ht | ht
      · exact hts t ht
      · rw [List.mem_singleton.mp ht]
        rfl
    obtain ⟨message, hraises⟩ := hbarred (ts ++ [review]) hall
      (some (.object [("evaluation_id", .str text)])) none
    rw [run_snoc] at hraises
    rw [hr] at hraises
    cases hraises
  by_cases hlifecycle : k.lifecycle = .published
  · obtain ⟨hevals, hmoved⟩ := step_to pg 0 hk (.inl rfl)
    exact hpublish [⟨0, .transition id (some Lifecycle.deprecated.text) none none⟩]
      (List.forall_mem_singleton.mpr rfl) _ hevals hmoved (by simp) rfl rfl
  · exact hpublish [] (List.forall_mem_nil _) k rfl hk hlifecycle rfl rfl

end Publications

namespace Course

variable {pg : Postgres} {x : Course} {e : LibraryEvent} {id : Uuid}

theorem tracked_transition {lifecycle : Option String} {testResult : Option Json} {note : Option String}
    (now : Time) (h : x.Tracked) : (x.step pg ⟨now, .transition id lifecycle testResult note⟩).Tracked := by
  unfold step libraryStep Library.transitions Library.transitionCapability
  dsimp only
  cases hrow : x.library.transitionRow id lifecycle testResult note with
  | error e => exact h
  | ok r =>
    obtain ⟨row, target⟩ := r
    obtain ⟨hid, hversion⟩ := (transitionRow_transits _ hrow).row
    intro i
    by_cases hbase : row.isBaseline i = true
    · have hlast := baseline_append (L := x.library) (c := Library.setLifecycle x.library.cfg id target)
        hbase (hid ▸ hversion)
      have hpick : withdrawal? ⟨x.library, ⟨id, row.lifecycle, target, row.testResult⟩ :: x.past⟩ i =
          some ⟨id, row.lifecycle, target, row.testResult⟩ :=
        List.find?_cons_of_pos (hid ▸ hbase)
      exact (congrArg (·.bind (·.testResult)) hlast).trans (congrArg (·.bind (·.testResult)) hpick).symm
    · have hlast := baseline_append_of_not (L := x.library)
        (c := Library.setLifecycle x.library.cfg id target) (by simpa using hbase)
      have hpick : withdrawal? ⟨x.library, ⟨id, row.lifecycle, target, row.testResult⟩ :: x.past⟩ i =
          x.withdrawal? i :=
        List.find?_cons_of_neg (hid ▸ hbase)
      have hold := h i
      rw [← hlast, ← hpick] at hold
      exact hold

theorem tracked_step (h : x.Tracked) : (x.step pg e).Tracked := by
  obtain ⟨now, op⟩ := e
  cases op with
  | transition id lifecycle testResult note => exact tracked_transition now h
  | rollback id version =>
    intro i
    have hsame := afterReply_of_returns (P := fun L => ∀ i, L.baseline? i = x.library.baseline? i)
      (baseline_rollback pg now x.library id version) (fun _ => rfl) i
    exact (congrArg (·.bind (·.testResult)) hsame).trans (h i)
  | evaluate id =>
    intro i
    have heval : Returns (fun r => ∀ i, r.1.baseline? i = x.library.baseline? i)
        (x.library.evaluateCapability id) := returns_seq fun _ => returns_pure fun _ => rfl
    have hsame := afterReply_of_returns (P := fun L => ∀ i, L.baseline? i = x.library.baseline? i)
      heval (fun _ => rfl) i
    exact (congrArg (·.bind (·.testResult)) hsame).trans (h i)
  | _ => exact h

/-- The rate the last withdrawal was given. -/
def withdrawnRate (x : Course) (id : Uuid) : Except String (Option Numeric) :=
  match (x.withdrawal? id).bind (·.testResult) with
  | some testResult => recordedRate testResult
  | none => .ok none

theorem withdrawnAbove_iff : x.withdrawnAbove id = true ↔
    ∃ b, x.withdrawnRate id = .ok (some b) ∧ x.library.below id b = true := by
  unfold withdrawnAbove withdrawnRate Library.belowRecorded
  cases x.withdrawal? id with
  | none => simp
  | some t =>
    simp only [Option.any_some, Option.bind_some]
    cases t.testResult with
    | none => simp
    | some v =>
      simp only [Option.map_some]
      rcases recordedRate v with e | (_ | b)
      · simp
      · simp
      · simp

theorem baselineRate_eq (h : x.Tracked) : x.library.baselineRate id = x.withdrawnRate id := by
  unfold Library.baselineRate withdrawnRate
  exact congrArg (fun result : Option Json => match result with
    | some testResult => recordedRate testResult
    | none => .ok none) (h id)

/-- An evaluation catches what the last withdrawal was recorded above, if no other evaluation vouches
for it. -/
theorem catches_iff (h : x.Tracked) (hid : (x.library.capability? id).isSome = true) :
    x.library.Catches pg id ↔ x.withdrawnAbove id = true ∧ ¬ x.library.Vouched id := by
  rw [withdrawnAbove_iff, ← baselineRate_eq h]
  constructor
  · rintro ⟨L', e, hok, hevals, -, hregression, hfails, hbarred⟩
    obtain ⟨e', he', hL'⟩ := evaluateCapability_records _ _ _ hok
    subst hL'
    have he : e = e' := by simpa using hevals.symm
    obtain ⟨baseline, hb, hany⟩ := evaluation_regression _ _ _ he'
    rw [← he, hregression] at hany
    refine ⟨?_, fun hvouched => barred_iff.mp hbarred ((vouched_failed (he ▸ hfails)).mpr hvouched)⟩
    cases baseline with
    | none => cases hany
    | some b => exact ⟨b, hb, hany.symm⟩
  · rintro ⟨⟨b, hb, hbelow⟩, hvouched⟩
    obtain ⟨e, he, heid, hregression, hfails⟩ := evaluation_fails hid hb hbelow
    unfold Library.Catches Library.evaluateCapability
    rw [he]
    refine ⟨_, e, rfl, rfl, heid, hregression, hfails, ?_⟩
    exact barred_of_not_vouched fun hv => hvouched ((vouched_failed hfails).mp hv)

theorem tracked_run (pg : Postgres) (c : Config) (es : List LibraryEvent) :
    (run (step pg) (start c) es).Tracked := by
  have hstep : ∀ (x : Course) e, x.Tracked → True → (x.step pg e).Tracked := fun _ _ h _ => tracked_step h
  exact invariant hstep (fun _ => rfl) (along_true _ _)

theorem run_catches_iff (pg : Postgres) (c : Config) (es : List LibraryEvent) (id : Uuid)
    (hid : ((run (step pg) (start c) es).library.capability? id).isSome = true) :
    ((run (step pg) (start c) es).regressed id = true →
      (run (step pg) (start c) es).library.Catches pg id) ↔
    (run (step pg) (start c) es).regressed id = false ∨
      ((run (step pg) (start c) es).withdrawnAbove id = true ∧
        ¬ (run (step pg) (start c) es).library.Vouched id) := by
  generalize hx : run (step pg) (start c) es = x at hid ⊢
  have htracked : x.Tracked := hx ▸ tracked_run pg c es
  rw [catches_iff htracked hid]
  cases x.regressed id <;> simp

end Course

def metrics (rate : String) : Json :=
  .object [("candidate_metrics", .object [("success_rate", .num rate)])]

def outcomes (xs : List EventOutcome) : LibraryOp :=
  .searched fun _ => xs.map fun o =>
    { eventId := 0
      taskId := none
      selectedCapabilityId := some 2
      outcome := o }

/-- `reviewRun` with two successes on record, so that the publication records the rate one. -/
def provenRun : List LibraryEvent :=
  ⟨1, outcomes [.succeeded, .succeeded]⟩ :: reviewRun

def declinedRun : List LibraryEvent :=
  provenRun ++ [⟨7, outcomes [.succeeded, .failed]⟩]

/-- The agent gets another prompt, which no evaluation has seen; it is taken out of use with a rate and
put up for review. -/
def withdrawnRun : List LibraryEvent :=
  declinedRun ++
    [⟨8, .sourceChange fun c =>
        { c with policies := [{ agentId := 1, systemPrompt := "look closer" }] }⟩,
      ⟨9, moved "deprecated" (some (metrics "0.9"))⟩, ⟨10, moved "review_pending" none⟩]

def withdrawn : Course :=
  run (Course.step bareServer) (Course.start scoutConfig) withdrawnRun

theorem withdrawn_not_vouched : ¬ withdrawn.library.Vouched 2 := by
  have hnone : ∀ k ∈ withdrawn.library.cfg.capabilities, ∀ e ∈ withdrawn.library.evaluations,
      ¬ (e.capabilityId = k.capabilityId ∧ e.passed = true ∧ e.contentHash = k.contentHash) := by
    decide +kernel
  generalize withdrawn.library = L at hnone ⊢
  rintro ⟨k, text, e, hk, he⟩
  have hpassing := List.find?_some he
  simp only [decide_eq_true_eq] at hpassing
  exact hnone k (List.mem_of_find?_eq_some hk) e (List.mem_of_find?_eq_some he)
    ⟨hpassing.2.1, hpassing.2.2.1, hpassing.2.2.2.2⟩

theorem withdrawn_catches : withdrawn.library.Catches bareServer 2 :=
  (Course.run_catches_iff bareServer scoutConfig withdrawnRun 2 (by decide +kernel)).mpr
    (.inr ⟨by decide +kernel, withdrawn_not_vouched⟩) (by decide +kernel)

theorem decline_passes :
    ¬ ∀ (pg : Postgres) (c : Config) (es : List LibraryEvent) (id : Uuid),
      ((run (Course.step pg) (Course.start c) es).library.capability? id).isSome = true →
        (run (Course.step pg) (Course.start c) es).regressed id = true →
          (run (Course.step pg) (Course.start c) es).library.Catches pg id := by
  intro h
  have hcatches := h bareServer scoutConfig declinedRun 2 (by decide +kernel) (by decide +kernel)
  have hpasses : ((run (Course.step bareServer) (Course.start scoutConfig) declinedRun).library.evaluation
      2).toOption.map (·.regression) = some false := by
    decide +kernel
  obtain ⟨L', e, hok, hevals, -, hregression, -⟩ := hcatches
  obtain ⟨e', he', hL'⟩ := evaluateCapability_records _ _ _ hok
  subst hL'
  have he : e = e' := by simpa using hevals.symm
  rw [he', ← he] at hpasses
  change some e.regression = some false at hpasses
  rw [hregression] at hpasses
  cases hpasses

end Allgres
