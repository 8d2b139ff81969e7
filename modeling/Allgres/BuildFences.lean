import Allgres.Builds
import Allgres.Fencing

/-! The fence of the builds. A report is accepted on the word `building` alone, which an
edit and a second claim bring back for another body. Each step is shown to be one move of
every row, so that a row which is built shows its body when no claim acts late. -/

namespace Allgres

open Raise Rows Runs

/-- What the constraints of a table say of its rows. -/
structure Constrained (takes : BuildRow → Bool) (rows : List BuildRow) : Prop where
  ids : (rows.map (·.id)).Nodup
  idents : ∀ a ∈ rows, ∀ b ∈ rows, a.sqlIdent ≠ none → a.sqlIdent = b.sqlIdent → a.id = b.id
  named : ∀ a ∈ rows, takes a = true → a.body ≠ none ∧ a.sqlIdent ≠ none

def RoutineKind.takes : RoutineKind → BuildRow → Bool
  | function => functionTable.takes
  | procedure => procedureTable.takes

/-- The constraints hold, and a job is one of an earlier claim of its row. -/
structure Builds.Valid (s : Builds) : Prop where
  keyed : ∀ kind, Constrained kind.takes (s.table kind)
  past : ∀ j ∈ s.jobs, j.claim < s.claims
  owned : ∀ j ∈ s.jobs, ∃ r ∈ s.table j.kind, r.id = j.id ∧ r.sqlIdent = some j.sqlIdent

def phaseOf : BuildStatus → Fencing.Phase
  | .pending => .pending
  | .building => .building
  | .built => .built
  | .failed => .failed

def BuildJob.job (j : BuildJob) : Fencing.Job String :=
  { claim := j.claim
    body := j.body
    outcome := j.outcome }

/-- A row with its object and the jobs that claimed it. -/
def Builds.fenced (s : Builds) (kind : RoutineKind) (r : BuildRow) : Fencing.Row String :=
  { phase := phaseOf r.status
    body := r.body
    object := s.object kind r.sqlIdent
    jobs := (s.jobsOf kind r.id).map BuildJob.job }

section Rows

variable {takes : BuildRow → Bool} {rows : List BuildRow}

def BuildRow.restatus (st : BuildStatus) (t : Time) (r : BuildRow) : BuildRow :=
  { r with
    status := st
    updatedAt := t }

theorem map_setStatus {α : Type} (T : BuildTable α) (p : BuildRow → Bool) (st : BuildStatus)
    (t : Time) (rows : List α) :
    (update (fun a => p (T.row a)) (T.setStatus st t) rows).map T.row =
      update p (BuildRow.restatus st t) (rows.map T.row) := by
  simp only [update, List.map_map]
  apply List.map_congr_left
  intro a _
  by_cases hp : p (T.row a) = true
  · simp [hp, T.row_setStatus, BuildRow.restatus]
  · simp [hp]

theorem takes_restatus (kind : RoutineKind) (st : BuildStatus) (t : Time) (r : BuildRow) :
    kind.takes (r.restatus st t) = kind.takes r := by
  cases kind <;> rfl

/-- The constraints read neither the status nor the time of a row. -/
theorem Constrained.restatus (h : Constrained takes rows) (p : BuildRow → Bool) {st : BuildStatus} {t : Time}
    (ht : ∀ r : BuildRow, takes (r.restatus st t) = takes r) :
    Constrained takes (update p (BuildRow.restatus st t) rows) := by
  have hold : ∀ r' ∈ update p (BuildRow.restatus st t) rows, ∃ r ∈ rows, r'.id = r.id ∧
      r'.sqlIdent = r.sqlIdent ∧ r'.body = r.body ∧ takes r' = takes r := by
    intro r' hr'
    obtain ⟨r, hr, rfl⟩ := mem_update.mp hr'
    refine ⟨r, hr, ?_⟩
    split
    · exact ⟨rfl, rfl, rfl, ht r⟩
    · exact ⟨rfl, rfl, rfl, rfl⟩
  refine ⟨?_, fun a ha b hb hn hab => ?_, fun a ha hta => ?_⟩
  · have hids : (update p (BuildRow.restatus st t) rows).map (·.id) = rows.map (·.id) := by
      refine map_update ?_ rows
      exact fun _ => rfl
    rw [hids]
    exact h.ids
  · obtain ⟨a₀, ha₀, hai, has, -, -⟩ := hold a ha
    obtain ⟨b₀, hb₀, hbi, hbs, -, -⟩ := hold b hb
    rw [hai, hbi]
    rw [has] at hn hab
    exact h.idents a₀ ha₀ b₀ hb₀ hn (hab.trans hbs)
  · obtain ⟨a₀, ha₀, -, has, hab, hat⟩ := hold a ha
    rw [has, hab]
    exact h.named a₀ ha₀ (hat ▸ hta)

theorem mem_replace {i : Uuid} {r₁ r' : BuildRow}
    (h : r' ∈ update (·.id = i) (fun _ => r₁) rows) :
    (∃ r ∈ rows, r.id = i ∧ r' = r₁) ∨ r' ∈ rows ∧ r'.id ≠ i := by
  obtain ⟨r, hr, rfl⟩ := mem_update.mp h
  by_cases hi : r.id = i
  · exact .inl ⟨r, hr, hi, by simp [hi]⟩
  · exact .inr ⟨by simpa [hi] using hr, by simp [hi]⟩

/-- A row may be rewritten under its key, with a name that no other row has. -/
theorem Constrained.replace (h : Constrained takes rows) {r₁ : BuildRow}
    (hi : ∀ b ∈ rows, b.id ≠ r₁.id → r₁.sqlIdent ≠ none → b.sqlIdent ≠ r₁.sqlIdent)
    (hn : takes r₁ = true → r₁.body ≠ none ∧ r₁.sqlIdent ≠ none) :
    Constrained takes (update (·.id = r₁.id) (fun _ => r₁) rows) := by
  refine ⟨?_, fun a ha b hb hne hab => ?_, fun a ha hta => ?_⟩
  · have hids : (update (·.id = r₁.id) (fun _ => r₁) rows).map (·.id) = rows.map (·.id) := by
      simp only [update, List.map_map]
      apply List.map_congr_left
      intro r _
      by_cases hr : r.id = r₁.id
      · simp [hr]
      · simp [hr]
    rw [hids]
    exact h.ids
  · rcases mem_replace ha with ⟨_, _, _, har⟩ | ⟨ham, hai⟩
    · rcases mem_replace hb with ⟨_, _, _, hbr⟩ | ⟨hbm, hbi⟩
      · rw [har, hbr]
      · rw [har] at hne hab
        exact absurd hab.symm (hi b hbm hbi hne)
    · rcases mem_replace hb with ⟨_, _, _, hbr⟩ | ⟨hbm, hbi⟩
      · rw [hbr] at hab
        exact absurd hab (hi a ham hai (hab ▸ hne))
      · exact h.idents a ham b hbm hne hab
  · rcases mem_replace ha with ⟨_, _, _, rfl⟩ | ⟨ha, -⟩
    · exact hn hta
    · exact h.named a ha hta

end Rows

/-- Every row of the new tables comes from a row of the old ones by one move. -/
def RowMoves (s s' : Builds) : Prop :=
  ∀ kind, ∀ r' ∈ s'.table kind, ∃ r ∈ s.table kind, r'.routine = r.routine ∧
    Fencing.Move (s.fenced kind r) (s'.fenced kind r')

section Steps

variable {s s' : Builds}

theorem fenced_congr (hj : s'.jobs = s.jobs) (ho : s'.objects = s.objects) (kind : RoutineKind)
    (r : BuildRow) : s'.fenced kind r = s.fenced kind r := by
  simp [Builds.fenced, Builds.object, Builds.jobsOf, hj, ho]

theorem latest_fenced (kind : RoutineKind) (r : BuildRow) :
    (s.fenced kind r).latest = (s.jobsOf kind r.id).getLast?.map BuildJob.job := by
  simp [Builds.fenced, Fencing.Row.latest, List.getLast?_map]

theorem mem_jobsOf {kind : RoutineKind} {id : Uuid} {j : BuildJob} :
    j ∈ s.jobsOf kind id ↔ j ∈ s.jobs ∧ j.kind = kind ∧ j.id = id := by
  simp [Builds.jobsOf]

/-- What identifies a job. -/
def BuildJob.key (j : BuildJob) : Nat × RoutineKind × Uuid × String :=
  (j.claim, j.kind, j.id, j.sqlIdent)

/-- Rows and jobs keep what identifies them, so the jobs keep their rows. -/
theorem Builds.Valid.kept (hv : s.Valid) (hk : ∀ kind, Constrained kind.takes (s'.table kind))
    (hrows : ∀ kind, ∀ r ∈ s.table kind, ∃ r' ∈ s'.table kind, r'.id = r.id ∧
      (r.sqlIdent ≠ none → r'.sqlIdent = r.sqlIdent))
    (hjobs : s'.jobs.map BuildJob.key = s.jobs.map BuildJob.key) (hc : s'.claims = s.claims) :
    s'.Valid := by
  have hback : ∀ i ∈ s'.jobs, ∃ i₀ ∈ s.jobs, i₀.key = i.key := by
    intro i hi
    have hmem : i.key ∈ s'.jobs.map BuildJob.key := List.mem_map_of_mem hi
    rw [hjobs] at hmem
    exact List.mem_map.mp hmem
  refine ⟨hk, fun i hi => ?_, fun i hi => ?_⟩
  · obtain ⟨i₀, hi₀, hkey⟩ := hback i hi
    have hcl : i₀.claim = i.claim := congrArg (·.1) hkey
    rw [hc, ← hcl]
    exact hv.past i₀ hi₀
  · obtain ⟨i₀, hi₀, hkey⟩ := hback i hi
    simp only [BuildJob.key, Prod.mk.injEq] at hkey
    obtain ⟨-, hik, hii, his⟩ := hkey
    obtain ⟨r, hr, hri, hrs⟩ := hv.owned i₀ hi₀
    obtain ⟨r', hr', hri', hrs'⟩ := hrows i₀.kind r hr
    rw [← hik, ← hii, ← his]
    exact ⟨r', hr', hri'.trans hri, (hrs' (by rw [hrs]; simp)).trans hrs⟩

theorem kept_restatus {p : BuildRow → Bool} {st : BuildStatus} {t : Time} {rows rows' : List BuildRow}
    (h : rows' = update p (BuildRow.restatus st t) rows) :
    ∀ r ∈ rows, ∃ r' ∈ rows', r'.id = r.id ∧ (r.sqlIdent ≠ none → r'.sqlIdent = r.sqlIdent) := by
  intro r hr
  rw [h]
  refine ⟨_, mem_update.mpr ⟨r, hr, rfl⟩, ?_⟩
  split
  · exact ⟨rfl, fun _ => rfl⟩
  · exact ⟨rfl, fun _ => rfl⟩

theorem kept_same {rows rows' : List BuildRow} (h : rows' = rows) :
    ∀ r ∈ rows, ∃ r' ∈ rows', r'.id = r.id ∧ (r.sqlIdent ≠ none → r'.sqlIdent = r.sqlIdent) :=
  fun r hr => ⟨r, h ▸ hr, rfl, fun _ => rfl⟩

/-- The watchdog: some builds are to be made again. -/
theorem follows_reset {p : RoutineKind → BuildRow → Bool} {t : Time} (hv : s.Valid)
    (hp : ∀ kind r, p kind r = true → r.status = .building)
    (ht : ∀ kind, s'.table kind = update (p kind) (BuildRow.restatus .pending t) (s.table kind))
    (hj : s'.jobs = s.jobs) (ho : s'.objects = s.objects) (hc : s'.claims = s.claims) :
    s'.Valid ∧ RowMoves s s' := by
  refine ⟨hv.kept (fun kind => ?_) (fun kind => kept_restatus (ht kind)) (by rw [hj]) hc,
    fun kind r' hr' => ?_⟩
  · rw [ht]
    exact (hv.keyed kind).restatus _ (takes_restatus kind _ _)
  · rw [ht] at hr'
    obtain ⟨r, hr, rfl⟩ := mem_update.mp hr'
    refine ⟨r, hr, ?_⟩
    rw [fenced_congr hj ho]
    split
    · rename_i hpr
      refine ⟨rfl, ?_⟩
      have hb : (s.fenced kind r).phase = .building := by
        simp [Builds.fenced, hp kind r hpr, phaseOf]
      exact .reset hb
    · exact ⟨rfl, .idle⟩

/-- An edit: one row is rewritten, and it waits for a build if its body is another one. -/
theorem follows_edit (kind : RoutineKind) (r₀ r₁ : BuildRow) (hv : s.Valid)
    (hr₀ : r₀ ∈ s.table kind) (hid : r₁.id = r₀.id) (hrt : r₁.routine = r₀.routine)
    (hs : r₀.sqlIdent ≠ none → r₁.sqlIdent = r₀.sqlIdent)
    (hu : r₁.sqlIdent ≠ none → ∀ b ∈ s.table kind, b.id ≠ r₁.id → b.sqlIdent ≠ r₁.sqlIdent)
    (hn : kind.takes r₁ = true → r₁.body ≠ none ∧ r₁.sqlIdent ≠ none)
    (hb : r₁.status = .pending ∨
      r₁.status = r₀.status ∧ r₁.body = r₀.body ∧ r₁.sqlIdent = r₀.sqlIdent)
    (ht : s'.table kind = update (·.id = r₁.id) (fun _ => r₁) (s.table kind))
    (hother : ∀ k, k ≠ kind → s'.table k = s.table k)
    (hj : s'.jobs = s.jobs) (ho : s'.objects = s.objects) (hc : s'.claims = s.claims) :
    s'.Valid ∧ RowMoves s s' := by
  have hkey := (hv.keyed kind).ids
  refine ⟨hv.kept (fun k => ?_) (fun k => ?_) (by rw [hj]) hc, fun k r' hr' => ?_⟩
  · by_cases hk : k = kind
    · rw [hk, ht]
      exact (hv.keyed kind).replace (fun b hbm hbi hne => hu hne b hbm hbi) hn
    · rw [hother k hk]
      exact hv.keyed k
  · by_cases hk : k = kind
    · subst hk
      intro r hr
      rw [ht]
      refine ⟨_, mem_update.mpr ⟨r, hr, rfl⟩, ?_⟩
      split
      · rename_i hi
        have hri : r.id = r₁.id := of_decide_eq_true hi
        have hrr : r = r₀ := eq_of_key (·.id) hkey hr hr₀ (hri.trans hid)
        exact ⟨hri.symm, hrr ▸ hs⟩
      · exact ⟨rfl, fun _ => rfl⟩
    · exact kept_same (hother k hk)
  · by_cases hk : k = kind
    · subst hk
      rw [ht] at hr'
      rw [fenced_congr hj ho]
      rcases mem_replace hr' with ⟨_, _, _, rfl⟩ | ⟨hr', -⟩
      · refine ⟨r₀, hr₀, hrt, ?_⟩
        rcases hb with hb | ⟨hb, hbody, hbs⟩
        · have hu' : (s.fenced k r₀).jobs = [] ∨
              (s.fenced k r').object = (s.fenced k r₀).object := by
            by_cases hne : r₀.sqlIdent = none
            · left
              have hnil : s.jobsOf k r₀.id = [] := by
                refine List.eq_nil_iff_forall_not_mem.mpr fun j hjm => ?_
                obtain ⟨hjm, hjk, hji⟩ := mem_jobsOf.mp hjm
                obtain ⟨r, hr, hri, hrs⟩ := hv.owned j hjm
                rw [hjk] at hr
                have hrr : r = r₀ := eq_of_key (·.id) hkey hr hr₀ (hri.trans hji)
                rw [hrr, hne] at hrs
                cases hrs
              simp [Builds.fenced, hnil]
            · right
              simp [Builds.fenced, Builds.object, hs hne]
          have hrow : s.fenced k r' =
              { s.fenced k r₀ with
                phase := .pending
                body := r'.body
                object := (s.fenced k r').object } := by
            simp only [Builds.fenced, hb, hid, phaseOf]
          rw [hrow]
          exact .edit _ _ hu'
        · have hrow : s.fenced k r' = s.fenced k r₀ := by
            simp only [Builds.fenced, hb, hbody, hbs, hid]
          rw [hrow]
          exact .idle
      · exact ⟨r', hr', rfl, .idle⟩
    · rw [hother k hk] at hr'
      rw [fenced_congr hj ho]
      exact ⟨r', hr', rfl, .idle⟩

theorem isJob_iff {n : Nat} {kind : RoutineKind} {id : Uuid} {j : BuildJob} :
    Builds.isJob n kind id j = true ↔ j.claim = n ∧ j.kind = kind ∧ j.id = id := by
  simp [Builds.isJob]

/-- The mark of a reported job is no part of the row. -/
theorem jobsOf_marked {p : BuildJob → Bool}
    (h : s'.jobs = update p (fun k => { k with reported := true }) s.jobs) (kind : RoutineKind)
    (id : Uuid) : (s'.jobsOf kind id).map BuildJob.job = (s.jobsOf kind id).map BuildJob.job := by
  unfold Builds.jobsOf
  rw [h, filter_update]
  · refine map_update ?_ _
    exact fun _ => rfl
  · exact fun _ => rfl

/-- A report: the row it finds in `building` is built or failed, whoever claimed it last. -/
theorem follows_report {j : BuildJob} {ok : Bool} {t : Time} (hv : s.Valid) (hj : j ∈ s.jobs)
    (ho : j.outcome = some ok)
    (htime : ok = true → (∃ r ∈ s.table j.kind, r.id = j.id ∧ r.status = .building) →
      ∀ l, (s.jobsOf j.kind j.id).getLast? = some l → l.outcome = some true)
    (ht : s'.table j.kind = update (fun r => r.id = j.id ∧ r.status = .building)
      (BuildRow.restatus (if ok then .built else .failed) t) (s.table j.kind))
    (hother : ∀ k, k ≠ j.kind → s'.table k = s.table k)
    (hjobs : s'.jobs = update (Builds.isJob j.claim j.kind j.id)
      (fun k => { k with reported := true }) s.jobs)
    (hobj : s'.objects = s.objects) (hc : s'.claims = s.claims) :
    s'.Valid ∧ RowMoves s s' := by
  have hfen : ∀ k r, s'.fenced k r = s.fenced k r := by
    intro k r
    simp only [Builds.fenced, Builds.object, jobsOf_marked hjobs, hobj]
  have hkeys : s'.jobs.map BuildJob.key = s.jobs.map BuildJob.key := by
    rw [hjobs]
    refine map_update ?_ _
    exact fun _ => rfl
  refine ⟨hv.kept (fun k => ?_) (fun k => ?_) hkeys hc, fun k r' hr' => ?_⟩
  · by_cases hk : k = j.kind
    · rw [hk, ht]
      exact (hv.keyed j.kind).restatus _ (takes_restatus j.kind _ _)
    · rw [hother k hk]
      exact hv.keyed k
  · by_cases hk : k = j.kind
    · subst hk
      exact kept_restatus ht
    · exact kept_same (hother k hk)
  · rw [hfen]
    by_cases hk : k = j.kind
    · subst hk
      rw [ht] at hr'
      obtain ⟨r, hr, rfl⟩ := mem_update.mp hr'
      refine ⟨r, hr, ?_⟩
      split
      · rename_i hhit
        obtain ⟨hri, hrb⟩ := of_decide_eq_true hhit
        refine ⟨rfl, ?_⟩
        have hphase : (s.fenced j.kind r).phase = .building := by
          simp [Builds.fenced, hrb, phaseOf]
        have hrow : s.fenced j.kind (r.restatus (if ok then .built else .failed) t) =
            (s.fenced j.kind r).reported ok := by
          rw [Fencing.Row.reported, if_pos hphase]
          cases ok <;> rfl
        rw [hrow]
        refine .report (j := j.job) ok ?_ ho fun hok _ l hl => ?_
        · exact List.mem_map.mpr ⟨j, mem_jobsOf.mpr ⟨hj, rfl, hri.symm⟩, rfl⟩
        · rw [latest_fenced, hri, Option.map_eq_some_iff] at hl
          obtain ⟨l₀, hl₀, rfl⟩ := hl
          exact htime hok ⟨r, hr, hri, hrb⟩ l₀ hl₀
      · exact ⟨rfl, .idle⟩
    · rw [hother k hk] at hr'
      exact ⟨r', hr', rfl, .idle⟩

/-- A deployment replaces the object of one row. -/
theorem follows_deploy {j : BuildJob} {ok : Bool} (hv : s.Valid) (hj : j ∈ s.jobs)
    (ho : j.outcome = none)
    (htime : ok = true → ∀ l, (s.jobsOf j.kind j.id).getLast? = some l → l.outcome = some true →
      j.body = l.body)
    (ht : ∀ k, s'.table k = s.table k)
    (hjobs : s'.jobs = update (Builds.isJob j.claim j.kind j.id)
      (fun k => { k with outcome := some ok }) s.jobs)
    (hobj : ∀ k x, s'.objects k x =
      if ok ∧ k = j.kind ∧ x = j.sqlIdent then some j.body else s.objects k x)
    (hc : s'.claims = s.claims) : s'.Valid ∧ RowMoves s s' := by
  have hkeys : s'.jobs.map BuildJob.key = s.jobs.map BuildJob.key := by
    rw [hjobs]
    refine map_update ?_ _
    exact fun _ => rfl
  have hof : ∀ k i, s'.jobsOf k i = update (Builds.isJob j.claim j.kind j.id)
      (fun k => { k with outcome := some ok }) (s.jobsOf k i) := by
    intro k i
    unfold Builds.jobsOf
    rw [hjobs, filter_update]
    exact fun _ => rfl
  obtain ⟨r₀, hr₀, hri₀, hrs₀⟩ := hv.owned j hj
  refine ⟨hv.kept (fun k => ht k ▸ hv.keyed k) (fun k => kept_same (ht k)) hkeys hc,
    fun k r hr => ?_⟩
  rw [ht] at hr
  refine ⟨r, hr, rfl, ?_⟩
  by_cases hown : k = j.kind ∧ r.id = j.id
  · obtain ⟨rfl, hri⟩ := hown
    have hrr : r = r₀ := eq_of_key (·.id) (hv.keyed j.kind).ids hr hr₀ (hri.trans hri₀.symm)
    have hrow : s'.fenced j.kind r = (s.fenced j.kind r).deployed j.job ok := by
      have hobject : s'.object j.kind r.sqlIdent =
          if ok then some j.body else s.object j.kind r.sqlIdent := by
        rw [hrr, hrs₀]
        simp only [Builds.object, Option.bind_some, hobj, and_true]
      have hmap : (s'.jobsOf j.kind r.id).map BuildJob.job =
          update (·.claim = j.claim) (fun k => { k with outcome := some ok })
            ((s.jobsOf j.kind r.id).map BuildJob.job) := by
        rw [hof]
        simp only [update, List.map_map]
        apply List.map_congr_left
        intro i hi
        obtain ⟨-, hik, hii⟩ := mem_jobsOf.mp hi
        by_cases hcl : i.claim = j.claim
        · simp [Builds.isJob, hik, hii, hri, hcl, BuildJob.job]
        · simp [Builds.isJob, hcl, BuildJob.job]
      simp only [Builds.fenced, Fencing.Row.deployed, hobject, hmap]
      rfl
    rw [hrow]
    refine .deploy (j := j.job) ok ?_ ho fun hok l hl hlt => ?_
    · exact List.mem_map.mpr ⟨j, mem_jobsOf.mpr ⟨hj, rfl, hri.symm⟩, rfl⟩
    · rw [latest_fenced, hri, Option.map_eq_some_iff] at hl
      obtain ⟨l₀, hl₀, rfl⟩ := hl
      exact htime hok l₀ hl₀ hlt
  · have hrow : s'.fenced k r = s.fenced k r := by
      have hsame : s'.jobsOf k r.id = s.jobsOf k r.id := by
        rw [hof]
        refine update_of_forall_not fun i hi => ?_
        obtain ⟨-, hik, hii⟩ := mem_jobsOf.mp hi
        rw [← Bool.not_eq_true, isJob_iff]
        rintro ⟨-, hk, hid⟩
        exact hown ⟨hik.symm.trans hk, hii.symm.trans hid⟩
      have hobject : s'.object k r.sqlIdent = s.object k r.sqlIdent := by
        cases hx : r.sqlIdent with
        | none => rfl
        | some x =>
          have hne : ¬ (ok = true ∧ k = j.kind ∧ x = j.sqlIdent) := by
            rintro ⟨-, rfl, rfl⟩
            have hids := (hv.keyed j.kind).idents r hr r₀ hr₀ (by simp [hx]) (by rw [hx, hrs₀])
            exact hown ⟨rfl, hids.trans hri₀⟩
          simp only [Builds.object, Option.bind_some, hobj, if_neg hne]
      simp only [Builds.fenced, hsame, hobject]
    rw [hrow]
    exact .idle

theorem jobOf_eq {n : Nat} {kind : RoutineKind} {q : BuildRequest} {j : BuildJob}
    (h : Builds.jobOf n kind q = some j) : j.claim = n ∧ j.kind = kind ∧ j.id = q.id ∧
      q.sqlIdent = some j.sqlIdent ∧ q.body = some j.body ∧ j.outcome = none := by
  unfold Builds.jobOf at h
  split at h
  · rename_i hi hb
    cases h
    exact ⟨rfl, rfl, rfl, hi, hb, rfl⟩
  · cases h

def BuildRow.request (r : BuildRow) : BuildRequest :=
  ⟨r.id, r.sqlIdent, r.body⟩

/-- A row gets one job of a claim that picks it, and none of any other. -/
theorem filter_claimed {n : Nat} {kind : RoutineKind} {picked : List BuildRow}
    (hn : (picked.map (·.id)).Nodup) {r : BuildRow} (hr : r ∈ picked) :
    (picked.filterMap fun r => Builds.jobOf n kind r.request).filter
        (fun j => j.kind = kind ∧ j.id = r.id) = (Builds.jobOf n kind r.request).toList := by
  have hcomm : ∀ l : List BuildRow, (l.filterMap fun r => Builds.jobOf n kind r.request).filter
      (fun j => j.kind = kind ∧ j.id = r.id) =
        (l.filter (·.id = r.id)).filterMap fun r => Builds.jobOf n kind r.request := by
    intro l
    rw [List.filter_filterMap, List.filterMap_filter]
    refine List.filterMap_congr fun x _ => ?_
    cases hj : Builds.jobOf n kind x.request with
    | none => simp
    | some j =>
      obtain ⟨-, hk, hi, -⟩ := jobOf_eq hj
      simp [Option.filter_some, hk, hi, BuildRow.request]
  rw [hcomm, filter_key (·.id) hn hr]
  cases hj : Builds.jobOf n kind r.request <;> simp [hj]

theorem filter_unclaimed {n : Nat} {kind k : RoutineKind} {picked : List BuildRow} {i : Uuid}
    (h : k = kind → i ∉ picked.map (·.id)) :
    (picked.filterMap fun r => Builds.jobOf n kind r.request).filter
      (fun j => j.kind = k ∧ j.id = i) = [] := by
  refine List.filter_eq_nil_iff.mpr fun j hj => ?_
  obtain ⟨r, hr, hjr⟩ := List.mem_filterMap.mp hj
  obtain ⟨-, hk, hi, -⟩ := jobOf_eq hjr
  simp only [decide_eq_true_eq]
  rintro ⟨hkk, hii⟩
  exact h (hkk.symm.trans hk) (List.mem_map.mpr ⟨r, hr, hi.symm.trans hii⟩)

/-- A claim: each row it picks waits for the build of the body it has. -/
theorem follows_claim {kind : RoutineKind} (picked : List BuildRow) {t : Time} (hv : s.Valid)
    (hpick : ∀ r ∈ picked, r ∈ s.table kind ∧ r.status = .pending ∧ kind.takes r = true)
    (hn : (picked.map (·.id)).Nodup)
    (ht : s'.table kind = update (fun r => (picked.map (·.id)).contains r.id)
      (BuildRow.restatus .building t) (s.table kind))
    (hother : ∀ k, k ≠ kind → s'.table k = s.table k)
    (hjobs : s'.jobs = s.jobs ++ picked.filterMap fun r => Builds.jobOf s.claims kind r.request)
    (hobj : s'.objects = s.objects) (hc : s'.claims = s.claims + 1) :
    s'.Valid ∧ RowMoves s s' := by
  have hkeyed : ∀ k, Constrained k.takes (s'.table k) := by
    intro k
    by_cases hk : k = kind
    · rw [hk, ht]
      exact (hv.keyed kind).restatus _ (takes_restatus kind _ _)
    · rw [hother k hk]
      exact hv.keyed k
  have hrows : ∀ k, ∀ r ∈ s.table k, ∃ r' ∈ s'.table k, r'.id = r.id ∧
      (r.sqlIdent ≠ none → r'.sqlIdent = r.sqlIdent) := by
    intro k
    by_cases hk : k = kind
    · subst hk
      exact kept_restatus ht
    · exact kept_same (hother k hk)
  have hof : ∀ k i, s'.jobsOf k i = s.jobsOf k i ++
      (picked.filterMap fun r => Builds.jobOf s.claims kind r.request).filter
        (fun j => j.kind = k ∧ j.id = i) := by
    intro k i
    unfold Builds.jobsOf
    rw [hjobs, List.filter_append]
  refine ⟨⟨hkeyed, fun j hj => ?_, fun j hj => ?_⟩, fun k r' hr' => ?_⟩
  · rw [hjobs] at hj
    rw [hc]
    rcases List.mem_append.mp hj with hj | hj
    · exact Nat.lt_succ_of_lt (hv.past j hj)
    · obtain ⟨r, -, hjr⟩ := List.mem_filterMap.mp hj
      rw [(jobOf_eq hjr).1]
      exact Nat.lt_succ_self _
  · rw [hjobs] at hj
    have hold : ∃ r ∈ s.table j.kind, r.id = j.id ∧ r.sqlIdent = some j.sqlIdent := by
      rcases List.mem_append.mp hj with hj | hj
      · exact hv.owned j hj
      · obtain ⟨r, hr, hjr⟩ := List.mem_filterMap.mp hj
        obtain ⟨-, hk, hi, hs, -⟩ := jobOf_eq hjr
        rw [hk]
        exact ⟨r, (hpick r hr).1, hi.symm, hs⟩
    obtain ⟨r, hr, hri, hrs⟩ := hold
    obtain ⟨r', hr', hri', hrs'⟩ := hrows j.kind r hr
    exact ⟨r', hr', hri'.trans hri, (hrs' (by rw [hrs]; simp)).trans hrs⟩
  · by_cases hk : k = kind
    · subst hk
      rw [ht] at hr'
      obtain ⟨r, hr, rfl⟩ := mem_update.mp hr'
      refine ⟨r, hr, ?_⟩
      by_cases hhit : r.id ∈ picked.map (·.id)
      · rw [if_pos (by simpa using hhit)]
        refine ⟨rfl, ?_⟩
        obtain ⟨r₀, hr₀, hri⟩ := List.mem_map.mp hhit
        obtain ⟨hrm, hrp, hrt⟩ := hpick r₀ hr₀
        have hrr : r = r₀ := eq_of_key (·.id) (hv.keyed k).ids hr hrm hri.symm
        subst hrr
        obtain ⟨hbody, hident⟩ := (hv.keyed k).named r hr hrt
        obtain ⟨b, hb⟩ := Option.ne_none_iff_exists'.mp hbody
        obtain ⟨x, hx⟩ := Option.ne_none_iff_exists'.mp hident
        have hjob : Builds.jobOf s.claims k r.request = some
            { claim := s.claims, kind := k, id := r.id, sqlIdent := x, body := b } := by
          simp [Builds.jobOf, BuildRow.request, hx, hb]
        have hrow : s'.fenced k (r.restatus .building t) = (s.fenced k r).claimed s.claims b := by
          simp only [Builds.fenced, Builds.object, Fencing.Row.claimed, BuildRow.restatus, hobj,
            hof, filter_claimed hn hr₀, hjob, Option.toList_some, List.map_append, List.map_cons,
            List.map_nil, BuildJob.job, phaseOf]
        rw [hrow]
        refine .claim ?_ hb fun j hj => ?_
        · simp [Builds.fenced, hrp, phaseOf]
        · obtain ⟨i, hi, rfl⟩ := List.mem_map.mp hj
          exact Nat.ne_of_lt (hv.past i (mem_jobsOf.mp hi).1)
      · rw [if_neg (by simpa using hhit)]
        refine ⟨rfl, ?_⟩
        have hrow : s'.fenced k r = s.fenced k r := by
          simp only [Builds.fenced, Builds.object, hobj, hof, filter_unclaimed fun _ => hhit,
            List.append_nil]
        rw [hrow]
        exact .idle
    · rw [hother k hk] at hr'
      have hrow : s'.fenced k r' = s.fenced k r' := by
        simp only [Builds.fenced, Builds.object, hobj, hof, filter_unclaimed fun h => absurd h hk,
          List.append_nil]
      rw [hrow]
      exact ⟨r', hr', rfl, .idle⟩

theorem follows_refl (hv : s.Valid) : s.Valid ∧ RowMoves s s :=
  ⟨hv, fun _ r hr => ⟨r, hr, rfl, .idle⟩⟩

theorem indexed_routines {c c' : Config} (h : Indexed c c') :
    c'.functions = c.functions ∧ c'.procedures = c.procedures := by
  obtain ⟨_, _, _, rfl⟩ := h.eq
  exact ⟨rfl, rfl⟩

theorem map_replace {α : Type} (T : BuildTable α) (a : α) (rows : List α) :
    (update (fun b => (T.row b).id = (T.row a).id) (fun _ => a) rows).map T.row =
      update (·.id = (T.row a).id) (fun _ => T.row a) (rows.map T.row) := by
  simp only [update, List.map_map]
  apply List.map_congr_left
  intro b _
  by_cases hb : (T.row b).id = (T.row a).id
  · simp [hb]
  · simp [hb]

theorem follows_function {f g : Function} {c' : Config} {id : Uuid}
    (hfs : c'.functions = update (·.functionId = id) (fun _ => g) s.cfg.functions)
    (hps : c'.procedures = s.cfg.procedures) (hv : s.Valid) (hf : f ∈ s.cfg.functions)
    (hh : f.handler = .plpgsql) (hgid : g.functionId = id) (hid : g.functionId = f.functionId)
    (hg : g.handler = f.handler) (hs : g.sqlIdent = f.sqlIdent)
    (hb : g.buildStatus = .pending ∧ g.body ≠ none ∨
      g.buildStatus = f.buildStatus ∧ g.body = f.body) :
    ({ s with cfg := c' } : Builds).Valid ∧ RowMoves s { s with cfg := c' } := by
  have hrow : functionTable.row f ∈ s.table .function := List.mem_map_of_mem hf
  have hnamed := (hv.keyed .function).named _ hrow (by simp [RoutineKind.takes, functionTable, hh])
  refine follows_edit .function (functionTable.row f) (functionTable.row g)
    hv hrow hid ?_ (fun _ => hs) (fun hne b hbm hbi hbs => ?_) (fun _ => ⟨?_, ?_⟩) ?_ ?_ ?_ rfl rfl rfl
  · simp [functionTable, hg]
  · refine hbi (((hv.keyed .function).idents b hbm _ hrow ?_ ?_).trans hid.symm)
    · exact hbs ▸ hne
    · exact hbs.trans hs
  · rcases hb with ⟨-, hb⟩ | ⟨-, hb⟩
    · exact hb
    · exact fun h => hnamed.1 (hb.symm.trans h)
  · exact fun h => hnamed.2 (hs.symm.trans h)
  · rcases hb with ⟨hb, -⟩ | ⟨hst, hb⟩
    · exact .inl hb
    · exact .inr ⟨hst, hb, hs⟩
  · have htable : ({ s with cfg := c' } : Builds).table .function =
        c'.functions.map functionTable.row := rfl
    rw [htable, hfs, ← hgid]
    exact map_replace functionTable g s.cfg.functions
  · intro k hk
    cases k with
    | function => exact absurd rfl hk
    | procedure => simp only [Builds.table, hps]

theorem fnUpdateFunction_follows (pg : Postgres) (now : Time) (id : Uuid)
    (description body : Option String) (paramSchema : Option Json) (hv : s.Valid) :
    Returns (fun r => ({ s with cfg := r.1 } : Builds).Valid ∧ RowMoves s { s with cfg := r.1 })
      (fnUpdateFunction pg now s.cfg id description body paramSchema) := by
  unfold fnUpdateFunction
  split
  · exact returns_error _
  · rename_i f hf
    have hfm : f ∈ s.cfg.functions := List.mem_of_find?_eq_some hf
    have hfid : f.functionId = id := by simpa using List.find?_some hf
    refine returns_bind (P := fun _ => f.handler = .plpgsql) (fun u hu => ?_) fun _ hh => ?_
    · simpa using raiseIf_eq_ok.mp hu
    refine returns_guard fun _ => returns_pure ?_
    obtain ⟨hfs, hps⟩ := indexed_routines (syncCapabilityIndex_indexed pg now _)
    refine follows_function hfs hps hv hfm hh hfid rfl rfl rfl ?_
    cases body with
    | none => exact .inr ⟨rfl, rfl⟩
    | some b => exact .inl ⟨rfl, fun h => by cases h⟩

theorem follows_procedure {p q : Procedure} {c' : Config} {id : Uuid}
    (hps : c'.procedures = update (·.procedureId = id) (fun _ => q) s.cfg.procedures)
    (hfs : c'.functions = s.cfg.functions) (hv : s.Valid) (hp : p ∈ s.cfg.procedures)
    (hqid : q.procedureId = id) (hid : q.procedureId = p.procedureId)
    (hs : q.sqlIdent = p.sqlIdent ∨ p.sqlIdent = none ∧
      ∀ r ∈ s.cfg.procedures, r.procedureId ≠ q.procedureId → r.sqlIdent ≠ none →
        r.sqlIdent ≠ q.sqlIdent)
    (hn : q.body ≠ none → q.sqlIdent ≠ none)
    (hb : q.buildStatus = .pending ∨ q.buildStatus = p.buildStatus ∧ q.body = p.body ∧
      q.sqlIdent = p.sqlIdent) :
    ({ s with cfg := c' } : Builds).Valid ∧ RowMoves s { s with cfg := c' } := by
  have hrow : procedureTable.row p ∈ s.table .procedure := List.mem_map_of_mem hp
  refine follows_edit .procedure (procedureTable.row p) (procedureTable.row q)
    hv hrow hid rfl (fun hne => ?_) (fun hne b hbm hbi hbs => ?_)
    (fun ht => ?_) hb ?_ ?_ rfl rfl rfl
  · rcases hs with hs | ⟨hs, -⟩
    · exact hs
    · exact absurd hs hne
  · rcases hs with hs | ⟨-, hs⟩
    · refine hbi (((hv.keyed .procedure).idents b hbm _ hrow ?_ ?_).trans hid.symm)
      · exact hbs ▸ hne
      · exact hbs.trans hs
    · obtain ⟨r, hr, rfl⟩ := List.mem_map.mp hbm
      exact hs r hr hbi (fun h => hne (hbs.symm.trans h)) hbs
  · have hbody : q.body ≠ none := by
      simpa [RoutineKind.takes, procedureTable, Option.isSome_iff_ne_none] using ht
    exact ⟨hbody, hn hbody⟩
  · have htable : ({ s with cfg := c' } : Builds).table .procedure =
        c'.procedures.map procedureTable.row := rfl
    rw [htable, hps, ← hqid]
    exact map_replace procedureTable q s.cfg.procedures
  · intro k hk
    cases k with
    | function => simp only [Builds.table, hfs]
    | procedure => exact absurd rfl hk

/-- A procedure gets its name with its first body, and keeps it. -/
theorem sqlIdent_kept {ident body : Option String} {name : String}
    (h : body ≠ none → ident ≠ none) : ident.or (body.map fun _ => name) = ident := by
  cases ident with
  | some x => rfl
  | none =>
    cases body with
    | none => rfl
    | some b => exact absurd rfl (h (by simp))

theorem fnSetProcedure_follows (pg : Postgres) (now : Time) (id : Uuid) (content : Option String)
    (enabled : Option Bool) (body : Option String) (hv : s.Valid) :
    Returns (fun r => ({ s with cfg := r.1 } : Builds).Valid ∧ RowMoves s { s with cfg := r.1 })
      (fnSetProcedure pg now s.cfg id content enabled body) := by
  unfold fnSetProcedure
  split
  · exact returns_error _
  · rename_i p hp
    have hpm : p ∈ s.cfg.procedures := List.mem_of_find?_eq_some hp
    have hpid : p.procedureId = id := by simpa using List.find?_some hp
    have hnamed : p.body ≠ none → p.sqlIdent ≠ none := fun hb =>
      ((hv.keyed .procedure).named _ (List.mem_map_of_mem hpm) (by
        simpa [RoutineKind.takes, procedureTable, Option.isSome_iff_ne_none] using hb)).2
    refine returns_guard fun _ => returns_bind (P := fun _ => ∀ r ∈ s.cfg.procedures,
      r.procedureId ≠ id → r.sqlIdent ≠ none → r.sqlIdent ≠ p.sqlIdent.or
        ((body.or p.body).map fun _ => "proc_" ++ uuidHex id)) (fun u hu => ?_) fun _ huniq => ?_
    · intro r hr hri hrs heq
      refine raiseIf_eq_ok.mp hu (List.any_eq_true.mpr ⟨r, hr, ?_⟩)
      simp only [hri, decide_false, Bool.not_false, Option.isSome_iff_ne_none.mpr hrs, Bool.true_and]
      exact decide_eq_true heq
    refine returns_pure ?_
    obtain ⟨hfs, hps⟩ := indexed_routines (syncCapabilityIndex_indexed pg now _)
    refine follows_procedure hps hfs hv hpm hpid rfl ?_ (fun hb => ?_) ?_
    · cases hs : p.sqlIdent with
      | some x => exact .inl rfl
      | none =>
        refine .inr ⟨rfl, fun r hr hri hrs => ?_⟩
        have := huniq r hr (hpid ▸ hri) hrs
        rwa [hs] at this
    · obtain ⟨b, hb⟩ := Option.ne_none_iff_exists'.mp hb
      have hb' : body.or p.body = some b := hb
      simp [hb']
    · by_cases hb : body.or p.body = p.body
      · refine .inr ⟨?_, hb, ?_⟩
        · simp [hb]
        · simp only [hb]
          exact sqlIdent_kept hnamed
      · left
        have hsome : (body.or p.body).isSome = true := by
          cases body with
          | none => exact absurd rfl hb
          | some b => rfl
        simp [hb, hsome]

theorem claimBuilds_follows {α : Type} (T : BuildTable α) {kind : RoutineKind} (now : Time)
    {limit : Option Int} {locked : List Uuid} {rows : List α} (hv : s.Valid)
    (htakes : kind.takes = T.takes) (hrows : s.table kind = rows.map T.row)
    (ht : s'.table kind = (claimBuilds T now limit locked rows).1.map T.row)
    (hother : ∀ k, k ≠ kind → s'.table k = s.table k)
    (hjobs : s'.jobs = s.jobs ++
      (claimBuilds T now limit locked rows).2.filterMap (Builds.jobOf s.claims kind))
    (hobj : s'.objects = s.objects) (hc : s'.claims = s.claims + 1) :
    s'.Valid ∧ RowMoves s s' := by
  have hmem : ∀ a ∈ pickedBuilds T limit locked rows,
      a ∈ rows ∧ (T.row a).status = .pending ∧ T.takes (T.row a) = true := by
    intro a ha
    have := mem_sortBy.mp (List.mem_of_mem_take ha)
    simp only [List.mem_filter, decide_eq_true_eq] at this
    exact ⟨this.1, this.2.1, this.2.2.1⟩
  have hids : ((pickedBuilds T limit locked rows).map fun a => (T.row a).id).Nodup := by
    have hall : (rows.map fun a => (T.row a).id).Nodup := by
      have := (hv.keyed kind).ids
      rwa [hrows, List.map_map] at this
    exact (nodup_sortBy_filter hall).sublist ((List.take_sublist _ _).map _)
  refine follows_claim ((pickedBuilds T limit locked rows).map T.row) (t := now) hv
    (fun r hr => ?_) ?_ ?_ hother ?_ hobj hc
  · obtain ⟨a, ha, rfl⟩ := List.mem_map.mp hr
    obtain ⟨har, hap, hat⟩ := hmem a ha
    rw [hrows, htakes]
    exact ⟨List.mem_map_of_mem har, hap, hat⟩
  · rw [List.map_map]
    exact hids
  · rw [ht, hrows, List.map_map]
    exact map_setStatus T
      (fun r => ((pickedBuilds T limit locked rows).map fun b => (T.row b).id).contains r.id)
      .building now rows
  · rw [hjobs, claimBuilds, List.filterMap_map, List.filterMap_map]
    rfl

theorem completeBuild_follows {α : Type} (T : BuildTable α) {j : BuildJob} {ok : Bool} (now : Time)
    {rows : List α} (hv : s.Valid) (hj : j ∈ s.jobs) (ho : j.outcome = some ok)
    (htime : ok = true → (∃ r ∈ s.table j.kind, r.id = j.id ∧ r.status = .building) →
      ∀ l, (s.jobsOf j.kind j.id).getLast? = some l → l.outcome = some true)
    (hrows : s.table j.kind = rows.map T.row)
    (ht : s'.table j.kind = (completeBuild T now j.id (some ok) rows).map T.row)
    (hother : ∀ k, k ≠ j.kind → s'.table k = s.table k)
    (hjobs : s'.jobs = update (Builds.isJob j.claim j.kind j.id)
      (fun k => { k with reported := true }) s.jobs)
    (hobj : s'.objects = s.objects) (hc : s'.claims = s.claims) :
    s'.Valid ∧ RowMoves s s' := by
  refine follows_report (t := now) hv hj ho htime ?_ hother hjobs hobj hc
  rw [ht, hrows]
  exact map_setStatus T (fun r => decide (r.id = j.id ∧ r.status = .building)) _ now rows

theorem submitBuildResult_follows (pg : Postgres) (now : Time) {j : BuildJob} {ok : Bool}
    (hv : s.Valid) (hj : j ∈ s.jobs) (ho : j.outcome = some ok)
    (htime : ok = true → (∃ r ∈ s.table j.kind, r.id = j.id ∧ r.status = .building) →
      ∀ l, (s.jobsOf j.kind j.id).getLast? = some l → l.outcome = some true) :
    (Builds.submitBuildResult pg now s j ok).Valid ∧
      RowMoves s (Builds.submitBuildResult pg now s j ok) := by
  obtain ⟨n, kind, id, sqlIdent, body, outcome, reported⟩ := j
  cases kind with
  | function =>
    obtain ⟨hf, hp⟩ := indexed_routines (syncCapabilityIndex_indexed pg now
      { s.cfg with functions := completeBuild functionTable now id (some ok) s.cfg.functions })
    refine completeBuild_follows functionTable now hv hj ho htime rfl ?_ (fun k hk => ?_)
      rfl rfl rfl
    · exact congrArg (List.map functionTable.row) hf
    · cases k with
      | function => exact absurd rfl hk
      | procedure => exact congrArg (List.map procedureTable.row) hp
  | procedure =>
    obtain ⟨hf, hp⟩ := indexed_routines (syncCapabilityIndex_indexed pg now
      { s.cfg with procedures := completeBuild procedureTable now id (some ok) s.cfg.procedures })
    refine completeBuild_follows procedureTable now hv hj ho htime rfl ?_ (fun k hk => ?_)
      rfl rfl rfl
    · exact congrArg (List.map procedureTable.row) hp
    · cases k with
      | function => exact congrArg (List.map functionTable.row) hf
      | procedure => exact absurd rfl hk

theorem resetBuilds_follows (pg : Postgres) (now : Time) (seconds : Option Int) (hv : s.Valid) :
    ({ s with cfg := resetBuilds pg now seconds s.cfg } : Builds).Valid ∧
      RowMoves s { s with cfg := resetBuilds pg now seconds s.cfg } := by
  let stuck := fun r : BuildRow =>
    decide (r.status = .building) && overdue now (timeoutMillis 15 seconds) r.updatedAt
  refine follows_reset (p := fun _ => stuck) (t := now) hv (fun _ r hr => ?_) (fun kind => ?_)
    rfl rfl rfl
  · simp only [stuck, Bool.and_eq_true, decide_eq_true_eq] at hr
    exact hr.1
  · have hfs := map_setStatus functionTable stuck .pending now s.cfg.functions
    have hps := map_setStatus procedureTable stuck .pending now s.cfg.procedures
    have hkeep : ∀ c : Config, Indexed c (resetBuilds pg now seconds s.cfg) →
        ({ s with cfg := resetBuilds pg now seconds s.cfg } : Builds).table kind =
          ({ s with cfg := c } : Builds).table kind := by
      intro c hc
      obtain ⟨hf, hp⟩ := indexed_routines hc
      cases kind with
      | function => simp only [Builds.table, hf]
      | procedure => simp only [Builds.table, hp]
    let reset : Config :=
      { s.cfg with
        functions := update (fun f => stuck (functionTable.row f))
          (functionTable.setStatus .pending now) s.cfg.functions
        procedures := update (fun p => stuck (procedureTable.row p))
          (procedureTable.setStatus .pending now) s.cfg.procedures }
    have hindexed : Indexed reset (resetBuilds pg now seconds s.cfg) := by
      unfold resetBuilds
      dsimp only
      split
      · exact syncCapabilityIndex_indexed pg now reset
      · exact Indexed.refl reset
    rw [hkeep reset hindexed]
    cases kind with
    | function => exact hfs
    | procedure => exact hps

/-- One step of the system is one move of each row. -/
theorem buildStep_follows (pg : Postgres) {e : BuildEvent} (hv : s.Valid)
    (ht : s.timely e = true) : (buildStep pg s e).Valid ∧ RowMoves s (buildStep pg s e) := by
  obtain ⟨now, op⟩ := e
  cases op with
  | updateFunction id description body paramSchema =>
    simp only [buildStep]
    split
    · rename_i r hr
      exact fnUpdateFunction_follows pg now id description body paramSchema hv r hr
    · exact follows_refl hv
  | setProcedure id content enabled body =>
    simp only [buildStep]
    split
    · rename_i r hr
      exact fnSetProcedure_follows pg now id content enabled body hv r hr
    · exact follows_refl hv
  | claim kind limit locked =>
    cases kind with
    | function =>
      obtain ⟨hf, hp⟩ := indexed_routines (syncCapabilityIndex_indexed pg now
        { s.cfg with functions := (claimBuilds functionTable now limit locked s.cfg.functions).1 })
      refine claimBuilds_follows functionTable now hv rfl rfl ?_ (fun k hk => ?_) rfl rfl rfl
      · exact congrArg (List.map functionTable.row) hf
      · cases k with
        | function => exact absurd rfl hk
        | procedure => exact congrArg (List.map procedureTable.row) hp
    | procedure =>
      obtain ⟨hf, hp⟩ := indexed_routines (syncCapabilityIndex_indexed pg now
        { s.cfg with procedures := (claimBuilds procedureTable now limit locked s.cfg.procedures).1 })
      refine claimBuilds_follows procedureTable now hv rfl rfl ?_ (fun k hk => ?_) rfl rfl rfl
      · exact congrArg (List.map procedureTable.row) hp
      · cases k with
        | function => exact congrArg (List.map functionTable.row) hf
        | procedure => exact absurd rfl hk
  | deploy n kind id created =>
    simp only [buildStep]
    split
    · rename_i j hj
      have hjm : j ∈ s.jobs := List.mem_of_find?_eq_some hj
      have hjp := List.find?_some hj
      simp only [Bool.and_eq_true, isJob_iff, Option.isNone_iff_eq_none] at hjp
      obtain ⟨⟨rfl, rfl, rfl⟩, ho⟩ := hjp
      refine follows_deploy hv hjm ho (fun _ l hl hlt => ?_) (fun _ => rfl) rfl (fun _ _ => rfl) rfl
      simp only [Builds.timely, hl, Option.all_some, hlt, bne_self_eq_false, Bool.false_or,
        List.all_eq_true, Bool.or_eq_true, bne_iff_ne, decide_eq_true_eq] at ht
      exact (ht j (mem_jobsOf.mpr ⟨hjm, rfl, rfl⟩)).resolve_left fun h => h rfl
    · exact follows_refl hv
  | complete n kind id =>
    simp only [buildStep]
    split
    · rename_i j hj
      have hjm : j ∈ s.jobs := List.mem_of_find?_eq_some hj
      have hjp := List.find?_some hj
      simp only [Bool.and_eq_true, isJob_iff] at hjp
      obtain ⟨⟨rfl, rfl, rfl⟩, -⟩ := hjp
      split
      · rename_i ok ho
        have htime : ok = true → (∃ r ∈ s.table j.kind, r.id = j.id ∧ r.status = .building) →
            ∀ l, (s.jobsOf j.kind j.id).getLast? = some l → l.outcome = some true := by
          rintro rfl ⟨r, hr, hri, hrb⟩ l hl
          simp only [Builds.timely, hl, Option.all_some, Bool.or_eq_true, decide_eq_true_eq,
            Bool.not_eq_true', List.all_eq_true, bne_iff_ne] at ht
          rcases ht with (hlt | hnone) | hall
          · exact hlt
          · have := List.any_eq_false.mp hnone r hr
            simp [hri, hrb] at this
          · rcases hall j (mem_jobsOf.mpr ⟨hjm, rfl, rfl⟩) with h | h
            · exact absurd rfl h
            · exact absurd ho h
        exact submitBuildResult_follows pg now hv hjm ho htime
      · exact follows_refl hv
    · exact follows_refl hv
  | watchdog seconds => exact resetBuilds_follows pg now seconds hv

end Steps

/-- The state of an installation: the constraints hold, no build is claimed, and what is
built is deployed. -/
structure Builds.Installed (s : Builds) : Prop where
  keyed : ∀ kind, Constrained kind.takes (s.table kind)
  unclaimed : s.jobs = []
  deployed : s.Deployed

/-- What every step keeps. -/
structure Builds.Sound (s : Builds) : Prop where
  valid : s.Valid
  rows : ∀ kind, ∀ r ∈ s.table kind, r.routine = true → Fencing.Sound (s.fenced kind r)

theorem sound_of_installed {s : Builds} (h : s.Installed) : s.Sound := by
  have hv : s.Valid := ⟨h.keyed, by simp [h.unclaimed], by simp [h.unclaimed]⟩
  refine ⟨hv, fun kind r hr hrt => Fencing.sound_of_unclaimed ?_ fun hb => ?_⟩
  · simp [Builds.fenced, Builds.jobsOf, h.unclaimed]
  · have hst : r.status = .built := by
      cases hs : r.status <;> simp [Builds.fenced, hs, phaseOf] at hb ⊢
    cases kind with
    | function =>
      obtain ⟨f, hf, rfl⟩ := List.mem_map.mp hr
      exact h.deployed.1 f hf (of_decide_eq_true hrt) hst
    | procedure =>
      obtain ⟨p, hp, rfl⟩ := List.mem_map.mp hr
      exact h.deployed.2 p hp hst

theorem sound_buildStep (pg : Postgres) {s : Builds} {e : BuildEvent} (h : s.Sound)
    (ht : s.timely e = true) : (buildStep pg s e).Sound := by
  obtain ⟨hv, hf⟩ := buildStep_follows pg h.valid ht
  refine ⟨hv, fun kind r' hr' hrt => ?_⟩
  obtain ⟨r, hr, hroutine, hmove⟩ := hf kind r' hr'
  exact hmove.sound (h.rows kind r hr (hroutine ▸ hrt))

theorem deployed_of_sound {s : Builds} (h : s.Sound) : s.Deployed := by
  refine ⟨fun f hf hh hb => ?_, fun p hp hb => ?_⟩
  · have hs := h.rows .function (functionTable.row f) (List.mem_map_of_mem hf) (by
      simp [functionTable, hh])
    exact hs.built (by simp [Builds.fenced, functionTable, hb, phaseOf])
  · have hs := h.rows .procedure (procedureTable.row p) (List.mem_map_of_mem hp) rfl
    exact hs.built (by simp [Builds.fenced, procedureTable, hb, phaseOf])

/-- In every run in which no claim acts late, a routine that is built has its body in its
object. -/
theorem built_is_deployed (pg : Postgres) (s : Builds) (es : List BuildEvent)
    (hs : s.Installed) (ht : Along (buildStep pg) (fun s e => s.timely e = true) s es) :
    (run (buildStep pg) s es).Deployed := by
  have hsound : (run (buildStep pg) s es).Sound :=
    invariant (fun s e h he => sound_buildStep pg h he) (sound_of_installed hs) ht
  exact deployed_of_sound hsound

/-- An installation with a function that waits for its first build. -/
def newFunctionBuild : Builds where
  cfg := { functions := [{
    functionId := 1
    name := "add_tax"
    handler := .plpgsql
    body := some "return 1;"
    sqlIdent := some ("fn_" ++ uuidHex 1)
    buildStatus := .pending }] }

theorem newFunctionBuild_installed : newFunctionBuild.Installed := by
  refine ⟨fun kind => ?_, rfl, ?_⟩
  · cases kind with
    | function =>
      refine ⟨by decide, fun a ha b hb _ _ => ?_, fun a ha _ => ?_⟩
      · rw [List.mem_singleton.mp ha, List.mem_singleton.mp hb]
      · rw [List.mem_singleton.mp ha]
        exact ⟨by decide, by decide⟩
    | procedure => exact ⟨by decide, by simp [newFunctionBuild, Builds.table],
        by simp [newFunctionBuild, Builds.table]⟩
  · refine ⟨fun f hf _ hb => ?_, by simp [newFunctionBuild]⟩
    rw [List.mem_singleton.mp hf] at hb
    cases hb

def firstBuild : List BuildEvent :=
  [⟨1, .claim .function none []⟩, ⟨2, .deploy 0 .function 1 true⟩, ⟨3, .complete 0 .function 1⟩]

theorem firstBuild_deployed : (run (buildStep bareServer) newFunctionBuild firstBuild).Deployed ∧
    (run (buildStep bareServer) newFunctionBuild firstBuild).cfg.functions.all
      (·.buildStatus = .built) = true :=
  ⟨built_is_deployed bareServer newFunctionBuild firstBuild newFunctionBuild_installed
    (by decide +kernel), by decide +kernel⟩

/-- The function is edited and claimed again before the first claim reports. -/
def lateReport : List BuildEvent :=
  [⟨1, .claim .function none []⟩, ⟨2, .deploy 0 .function 1 true⟩,
    ⟨3, .updateFunction 1 none (some "return 2;") none⟩, ⟨4, .claim .function none []⟩,
    ⟨5, .complete 0 .function 1⟩]

/-- The report of the first claim is taken for that of the second. -/
theorem lateReport_not_deployed :
    ¬ ∀ (pg : Postgres) (s : Builds) (es : List BuildEvent), s.Installed →
      (run (buildStep pg) s es).Deployed := by
  intro h
  have hrun := (h bareServer newFunctionBuild lateReport newFunctionBuild_installed).1
  have hbuilt : ∃ f ∈ (run (buildStep bareServer) newFunctionBuild lateReport).cfg.functions,
      f.handler = .plpgsql ∧ f.buildStatus = .built ∧
        (run (buildStep bareServer) newFunctionBuild lateReport).object .function f.sqlIdent ≠ f.body := by
    decide +kernel
  obtain ⟨f, hf, hh, hb, hne⟩ := hbuilt
  exact hne (hrun f hf hh hb)

end Allgres
