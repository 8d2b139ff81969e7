import Allgres.OperatorQueues
import Allgres.Watchdog

/-! The probes of the providers. A probe is queued, claimed, answered or lost; its answer goes to
columns of its provider, and a newer probe supersedes those that are not answered yet. -/

namespace Allgres

open Raise Rows Runs

inductive ProbeStatus where
  | ok
  | error
  deriving DecidableEq

def ProbeStatus.text : ProbeStatus → String
  | ok => "ok" | error => "error"

/-- The columns of a provider that its probes write. -/
structure ProbeColumns where
  lastProbeStatus : Option ProbeStatus := none
  lastProbeAt : Option Time := none
  lastProbeError : Option String := none
  availableModels : Option (List String) := none

section Completion

variable (now : Time)

/-- The body, or the text of its field `error` where it has one. -/
def probeError (body : Option String) : String :=
  let whole := (nullIfEmpty body).getD "request failed"
  match (body.bind Json.parse).bind (·.get "error") with
  | some (.str e) => if e = "" then whole else e
  | _ => whole

/-- The ids in `data`, null where there are none or the query raises. -/
def probeModels (body : Option String) : Option (List String) :=
  match (body.bind Json.parse).bind (·.get "data") with
  | some (.arr xs) =>
    let ids := xs.filterMap (·.text "id")
    if ids = [] then none else some (ids.mergeSort fun a b => decide (a ≤ b))
  | _ => none

def refusedProbe (body : Option String) (p : ProbeColumns) : ProbeColumns :=
  { p with
    lastProbeStatus := some .error
    lastProbeAt := some now
    lastProbeError := some (left (probeError body) 500) }

def answeredProbe (body : Option String) (p : ProbeColumns) : ProbeColumns :=
  { lastProbeStatus := some .ok
    lastProbeAt := some now
    lastProbeError := none
    availableModels := (probeModels body).or p.availableModels }

def harvestProbe (callId : Uuid) (c : Config) : Config :=
  let harvest := fun r : ProviderProbe => { r with status := .harvested, updatedAt := now }
  { c with providerProbes := update (·.callId = callId) harvest c.providerProbes }

/-- The configuration after the completion, what it writes to the columns of which provider, and
its answer. -/
def fnCompleteProviderProbe (c : Config) (callId : Uuid) (status : Option Int)
    (body : Option String) :
    Except String (Config × Option (Uuid × (ProbeColumns → ProbeColumns)) × Json) :=
  match c.providerProbes.find? (·.callId = callId) with
  | none => .error "fn_complete_provider_probe: not found"
  | some r =>
    if r.status ≠ .inFlight then
      .ok (c, none, .object [("action", .str "stale"), ("reason", .str "call_not_in_flight"),
        ("status", .str r.status.text)])
    else if isSuccess status = false then
      .ok (harvestProbe now callId c, some (r.providerId, refusedProbe now body),
        .object [("action", .str "error"), ("status", jsonOfStatus status)])
    else
      .ok (harvestProbe now callId c, some (r.providerId, answeredProbe now body),
        .object [("action", .str "ok"), ("provider_id", .str (uuidText r.providerId)),
          ("model_count", .ofInt ((probeModels body).getD []).length)])

end Completion

/-- The configuration, the columns of the providers, and the probe that the columns of a provider
go back to. -/
structure ProbeBoard where
  cfg : Config
  columns : Uuid → ProbeColumns := fun _ => {}
  source : Uuid → Option Uuid := fun _ => none

def fnProviderProbeStatus (b : ProbeBoard) (callId : Uuid) :
    Except String (CallStatus × ProbeColumns) :=
  match b.cfg.providerProbes.find? (·.callId = callId) with
  | none => .error "provider probe not found"
  | some r => .ok (r.status, b.columns r.providerId)

inductive ProbeOp where
  | start (id : Uuid)
  | claim (limit : Option Int) (locked : List Uuid)
  | complete (callId : Uuid) (status : Option Int) (body : Option String)
  | watchdog (seconds : Option Int)
  /-- Other functions leave the probes alone. -/
  | elsewhere (change : Config → Config)

structure ProbeEvent where
  now : Time
  op : ProbeOp

namespace ProbeBoard

variable (b : ProbeBoard)

def start (c : Config) : ProbeBoard :=
  { cfg := { c with providerProbes := [] } }

def store (callId : Uuid) (w : Option (Uuid × (ProbeColumns → ProbeColumns))) : ProbeBoard :=
  match w with
  | none => b
  | some (id, write) =>
    { b with
      columns := Function.update b.columns id (write (b.columns id))
      source := Function.update b.source id (some callId) }

theorem source_store_self (callId p : Uuid) (write : ProbeColumns → ProbeColumns) :
    (b.store callId (some (p, write))).source p = some callId :=
  Function.update_self _ _ _

theorem source_store_ne {callId p p' : Uuid} (write : ProbeColumns → ProbeColumns) (h : p' ≠ p) :
    (b.store callId (some (p, write))).source p' = b.source p' :=
  Function.update_of_ne h _ _

def beside (change : Config → Config) : ProbeBoard :=
  { b with
    cfg := { change b.cfg with
      providerProbes := b.cfg.providerProbes
      nextId := max b.cfg.nextId (change b.cfg).nextId } }

def step (e : ProbeEvent) : ProbeBoard :=
  match e.op with
  | .start id => match fnProviderProbeStart e.now b.cfg id with
    | .ok c => { b with cfg := c }
    | .error _ => b
  | .claim limit locked => { b with cfg := (fnClaimProviderProbe e.now limit locked b.cfg).1 }
  | .complete callId status body =>
    match fnCompleteProviderProbe e.now b.cfg callId status body with
    | .ok (c, w, _) => { b with cfg := c }.store callId w
    | .error _ => b
  | .watchdog seconds => { b with cfg := reclaimOperatorCalls e.now seconds b.cfg }
  | .elsewhere change => b.beside change

end ProbeBoard

section Order

variable {b : ProbeBoard}

/-- At most the newest probe of a provider is unanswered, and its columns go back to the newest that
is answered. -/
structure Sequenced (b : ProbeBoard) : Prop where
  ids : (b.cfg.providerProbes.map (·.callId)).Nodup
  below : ∀ r ∈ b.cfg.providerProbes, r.callId < b.cfg.nextId
  newest : ∀ r ∈ b.cfg.providerProbes, r.status.unfinished = true →
    ∀ r' ∈ b.cfg.providerProbes, r'.providerId = r.providerId → r'.callId ≤ r.callId
  source : ∀ p a, b.source p = some a → ∃ r ∈ b.cfg.providerProbes, r.callId = a ∧
    r.providerId = p ∧
    r.status = .harvested
  answered : ∀ r ∈ b.cfg.providerProbes, r.status = .harvested →
    ∃ a, b.source r.providerId = some a ∧ r.callId ≤ a

theorem sequenced_start (c : Config) : Sequenced (.start c) := by
  constructor <;> simp [ProbeBoard.start]

/-- Some rows that wait for an answer change their status, and none is answered. -/
structure Faded (rows rows' : List ProviderProbe) : Prop where
  ids : rows'.map (·.callId) = rows.map (·.callId)
  row : ∀ r' ∈ rows', ∃ r ∈ rows, r.callId = r'.callId ∧ r.providerId = r'.providerId ∧
    (r'.status.unfinished = true → r.status.unfinished = true) ∧
      (r'.status = .harvested → r.status = .harvested)
  back : ∀ r ∈ rows, ∃ r' ∈ rows', r'.callId = r.callId ∧ r'.providerId = r.providerId ∧
    (r.status = .harvested → r'.status = .harvested)

theorem Faded.refl (rows : List ProviderProbe) : Faded rows rows :=
  ⟨rfl, fun r hr => ⟨r, hr, rfl, rfl, id, id⟩, fun r hr => ⟨r, hr, rfl, rfl, id⟩⟩

theorem faded_update {p : ProviderProbe → Bool} {s : CallStatus} {now : Time}
    {rows : List ProviderProbe}
    (hs : s ≠ .harvested) (hp : ∀ r ∈ rows, p r = true → r.status.unfinished = true) :
    Faded rows (update p (fun r => { r with status := s, updatedAt := now }) rows) := by
  refine ⟨map_update (f := fun r : ProviderProbe => { r with status := s, updatedAt := now })
    (fun _ => rfl) rows, fun r' hr' => ?_, fun r hr => ?_⟩
  · obtain ⟨r, hr, rfl⟩ := mem_update.mp hr'
    by_cases hpr : p r = true
    · rw [if_pos hpr]
      exact ⟨r, hr, rfl, rfl, fun _ => hp r hr hpr, fun he => absurd he hs⟩
    · rw [if_neg hpr]
      exact ⟨r, hr, rfl, rfl, id, id⟩
  · refine ⟨_, mem_update.mpr ⟨r, hr, rfl⟩, ?_⟩
    by_cases hpr : p r = true
    · rw [if_pos hpr]
      refine ⟨rfl, rfl, fun he => ?_⟩
      have hopen := hp r hr hpr
      rw [he] at hopen
      cases hopen
    · rw [if_neg hpr]
      exact ⟨rfl, rfl, id⟩

/-- The probes stay as they are, or fade, and no answer is stored. -/
theorem sequenced_faded {b' : ProbeBoard} (h : Sequenced b)
    (hf : Faded b.cfg.providerProbes b'.cfg.providerProbes) (hnext : b.cfg.nextId ≤ b'.cfg.nextId)
    (hsource : b'.source = b.source) : Sequenced b' := by
  constructor
  · rw [hf.ids]
    exact h.ids
  · intro r' hr'
    obtain ⟨r, hr, hid, -⟩ := hf.row r' hr'
    exact hid ▸ (h.below r hr).trans_le hnext
  · intro r' hr' hopen x' hx' hp
    obtain ⟨r, hr, hid, hprovider, hback, -⟩ := hf.row r' hr'
    obtain ⟨x, hx, hxid, hxp, -⟩ := hf.row x' hx'
    rw [← hid, ← hxid]
    exact h.newest r hr (hback hopen) x hx (hxp.trans (hp.trans hprovider.symm))
  · intro p a ha
    rw [hsource] at ha
    obtain ⟨r, hr, hid, hp, hs⟩ := h.source p a ha
    obtain ⟨r', hr', hid', hp', hs'⟩ := hf.back r hr
    exact ⟨r', hr', hid'.trans hid, hp'.trans hp, hs' hs⟩
  · intro r' hr' hs'
    obtain ⟨r, hr, hid, hp, -, hs⟩ := hf.row r' hr'
    rw [hsource, ← hid, ← hp]
    exact h.answered r hr (hs hs')

/-- A new probe takes the place of those of its provider that are not answered. -/
theorem sequenced_queued {now : Time} {id : Uuid} {c : Config} (h : Sequenced b)
    (hs : fnProviderProbeStart now b.cfg id = .ok c) : Sequenced { b with cfg := c } := by
  unfold fnProviderProbeStart at hs
  cases hp : b.cfg.provider? id with
  | none => simp [hp] at hs
  | some p =>
    simp only [hp] at hs
    obtain ⟨-, -, hs⟩ := bind_eq_ok.mp hs
    obtain rfl := Except.ok.inj hs
    let superseded := update (fun r => r.providerId = id ∧ r.status.unfinished)
      (fun r => { r with status := .lost, updatedAt := now }) b.cfg.providerProbes
    have hf : Faded b.cfg.providerProbes superseded := by
      refine faded_update (by simp) fun r _ hr => ?_
      simp only [decide_eq_true_eq] at hr
      exact hr.2
    have hmid : Sequenced { b with cfg := { b.cfg with providerProbes := superseded } } :=
      sequenced_faded h hf (Nat.le_refl _) rfl
    have hclosed : ∀ r ∈ superseded, r.providerId = id → r.status.unfinished = false := by
      intro r hr hid
      obtain ⟨q, -, rfl⟩ := mem_update.mp hr
      by_cases hq : q.providerId = id ∧ q.status.unfinished = true
      · rw [if_pos (by simpa using hq)]
        rfl
      · rw [if_neg (by simpa using hq)] at hid ⊢
        simpa [hid] using hq
    have hbelow : ∀ r ∈ superseded, r.callId < b.cfg.nextId := hmid.below
    constructor
    · dsimp only
      rw [List.map_append, List.nodup_append]
      refine ⟨hmid.ids, by simp, ?_⟩
      rintro x hx y hy rfl
      obtain ⟨r, hr, rfl⟩ := List.mem_map.mp hx
      have hlt := hbelow r hr
      simp only [List.map_singleton, List.mem_singleton] at hy
      exact absurd hy (Nat.ne_of_lt hlt)
    · intro r hr
      rcases List.mem_append.mp hr with hr | hr
      · exact Nat.lt_succ_of_lt (hbelow r hr)
      · rw [List.mem_singleton.mp hr]
        exact Nat.lt_succ_self _
    · intro r hr hopen x hx hxp
      rcases List.mem_append.mp hr with hr | hr
      · rcases List.mem_append.mp hx with hx | hx
        · exact hmid.newest r hr hopen x hx hxp
        · rw [List.mem_singleton.mp hx] at hxp
          have hshut := hclosed r hr hxp.symm
          rw [hopen] at hshut
          cases hshut
      · rw [List.mem_singleton.mp hr]
        rcases List.mem_append.mp hx with hx | hx
        · exact (hbelow x hx).le
        · rw [List.mem_singleton.mp hx]
    · intro p a ha
      obtain ⟨r, hr, hrest⟩ := hmid.source p a ha
      exact ⟨r, List.mem_append_left _ hr, hrest⟩
    · intro r hr hr'
      rcases List.mem_append.mp hr with hr | hr
      · exact hmid.answered r hr hr'
      · rw [List.mem_singleton.mp hr] at hr'
        cases hr'

theorem faded_claimed {now : Time} {limit : Option Int} {locked : List Uuid} {c : Config}
    (hn : (c.providerProbes.map (·.callId)).Nodup) :
    Faded c.providerProbes (fnClaimProviderProbe now limit locked c).1.providerProbes := by
  refine faded_update (by simp) fun r hr hpick => ?_
  obtain ⟨q, hq, hid⟩ := List.mem_map.mp
    (by simpa using hpick : r.callId ∈ (pickedProbes limit locked c).map (·.callId))
  have hq := List.mem_filter.mp (mem_sortBy.mp (List.mem_of_mem_take hq))
  obtain rfl := eq_of_key ProviderProbe.callId hn hq.1 hr hid
  simp only [decide_eq_true_eq] at hq
  rw [hq.2.1]
  rfl

theorem faded_reclaimed {now : Time} {seconds : Option Int} {c : Config} :
    Faded c.providerProbes (reclaimOperatorCalls now seconds c).providerProbes := by
  refine faded_update (by simp) fun r _ hr => ?_
  simp only [Bool.and_eq_true, decide_eq_true_eq] at hr
  rw [hr.1]
  rfl

/-- An answer is stored only of a probe in flight, and that is the newest of its provider. -/
theorem sequenced_answered {now : Time} {r : ProviderProbe} {write : ProbeColumns → ProbeColumns}
    (h : Sequenced b) (hr : r ∈ b.cfg.providerProbes) (hs : r.status = .inFlight) :
    Sequenced (({ b with cfg := harvestProbe now r.callId b.cfg }).store r.callId
      (some (r.providerId, write))) := by
  let harvest := fun q : ProviderProbe => { q with status := .harvested, updatedAt := now }
  have hrows : ∀ q' ∈ update (·.callId = r.callId) harvest b.cfg.providerProbes,
      q' = harvest r ∨ (q' ∈ b.cfg.providerProbes ∧ q'.callId ≠ r.callId) := by
    intro q' hq'
    obtain ⟨q, hq, rfl⟩ := mem_update.mp hq'
    by_cases hid : q.callId = r.callId
    · obtain rfl := eq_of_key ProviderProbe.callId h.ids hq hr hid
      rw [if_pos (by simp)]
      exact .inl rfl
    · rw [if_neg (by simpa using hid)]
      exact .inr ⟨hq, hid⟩
  have hkept : ∀ q ∈ b.cfg.providerProbes, q.callId ≠ r.callId →
      q ∈ update (·.callId = r.callId) harvest b.cfg.providerProbes := by
    intro q hq hid
    exact mem_update.mpr ⟨q, hq, if_neg (by simpa using hid)⟩
  have hself : harvest r ∈ update (·.callId = r.callId) harvest b.cfg.providerProbes :=
    mem_update.mpr ⟨r, hr, if_pos (by simp)⟩
  have hlast : ∀ q ∈ b.cfg.providerProbes, q.providerId = r.providerId → q.callId ≤ r.callId :=
    h.newest r hr (by rw [hs]; rfl)
  constructor
  · have hids := map_update (f := harvest) (g := ProviderProbe.callId) (p := (·.callId = r.callId))
      (fun _ => rfl) b.cfg.providerProbes
    exact hids ▸ h.ids
  · intro q' hq'
    rcases hrows q' hq' with rfl | ⟨hq, -⟩
    · exact h.below r hr
    · exact h.below q' hq
  · intro q' hq' hopen x' hx' hp
    rcases hrows q' hq' with rfl | ⟨hq, -⟩
    · cases hopen
    · rcases hrows x' hx' with rfl | ⟨hx, -⟩
      · exact h.newest q' hq hopen r hr hp
      · exact h.newest q' hq hopen x' hx hp
  · intro p a ha
    by_cases hp : p = r.providerId
    · rw [hp, ProbeBoard.source_store_self] at ha
      obtain rfl := Option.some.inj ha
      exact ⟨harvest r, hself, rfl, hp.symm, rfl⟩
    · rw [ProbeBoard.source_store_ne _ _ hp] at ha
      obtain ⟨q, hq, hid, hqp, hqs⟩ := h.source p a ha
      refine ⟨q, hkept q hq fun he => ?_, hid, hqp, hqs⟩
      obtain rfl := eq_of_key ProviderProbe.callId h.ids hq hr he
      exact hp hqp.symm
  · intro q' hq' hs'
    rcases hrows q' hq' with rfl | ⟨hq, -⟩
    · exact ⟨r.callId, ProbeBoard.source_store_self _ _ _ _, Nat.le_refl _⟩
    · by_cases hp : q'.providerId = r.providerId
      · refine ⟨r.callId, ?_, hlast q' hq hp⟩
        rw [hp]
        exact ProbeBoard.source_store_self _ _ _ _
      · obtain ⟨a, ha, hle⟩ := h.answered q' hq hs'
        exact ⟨a, (ProbeBoard.source_store_ne _ _ hp).trans ha, hle⟩

/-- What the columns of a provider show stays, or gives way to the answer of a newer probe. -/
def Advances (b b' : ProbeBoard) (p : Uuid) : Prop :=
  (b'.source p = b.source p ∧ b'.columns p = b.columns p) ∨
    ∃ a', b'.source p = some a' ∧ ∀ a, b.source p = some a → a < a'

theorem Advances.trans {b b' b'' : ProbeBoard} {p : Uuid} (h : Advances b b' p)
    (h' : Advances b' b'' p) :
    Advances b b'' p := by
  rcases h with ⟨hs, hc⟩ | ⟨a', ha', hlt⟩
  · rcases h' with ⟨hs', hc'⟩ | ⟨a'', ha'', hlt'⟩
    · exact .inl ⟨hs'.trans hs, hc'.trans hc⟩
    · exact .inr ⟨a'', ha'', fun a ha => hlt' a (hs.trans ha)⟩
  · rcases h' with ⟨hs', -⟩ | ⟨a'', ha'', hlt'⟩
    · exact .inr ⟨a', hs'.trans ha', hlt⟩
    · exact .inr ⟨a'', ha'', fun a ha => (hlt a ha).trans (hlt' a' ha')⟩

theorem advances_answered {now : Time} {r : ProviderProbe} {write : ProbeColumns → ProbeColumns}
    (h : Sequenced b) (hr : r ∈ b.cfg.providerProbes) (hs : r.status = .inFlight) (p : Uuid) :
    Advances b (({ b with cfg := harvestProbe now r.callId b.cfg }).store r.callId
      (some (r.providerId, write))) p := by
  by_cases hp : p = r.providerId
  · subst hp
    refine .inr ⟨r.callId, ProbeBoard.source_store_self _ _ _ _, fun a ha => ?_⟩
    obtain ⟨q, hq, rfl, hqp, hqs⟩ := h.source _ a ha
    have hle : q.callId ≤ r.callId := h.newest r hr (by rw [hs]; rfl) q hq hqp
    refine Nat.lt_of_le_of_ne hle fun he => ?_
    obtain rfl := eq_of_key ProviderProbe.callId h.ids hq hr he
    rw [hs] at hqs
    cases hqs
  · exact .inl ⟨ProbeBoard.source_store_ne _ _ hp, Function.update_of_ne hp _ _⟩

theorem sequenced_step (e : ProbeEvent) (h : Sequenced b) :
    Sequenced (b.step e) ∧ ∀ p, Advances b (b.step e) p := by
  have hsame : ∀ b' : ProbeBoard, b'.source = b.source → b'.columns = b.columns →
    ∀ p, Advances b b' p :=
    fun b' hs hc p => .inl ⟨congrFun hs p, congrFun hc p⟩
  obtain ⟨now, op⟩ := e
  cases op with
  | start id =>
    simp only [ProbeBoard.step]
    split
    · rename_i c hc
      exact ⟨sequenced_queued h hc, hsame _ rfl rfl⟩
    · exact ⟨h, hsame _ rfl rfl⟩
  | claim limit locked =>
    refine ⟨sequenced_faded h (faded_claimed h.ids) (Nat.le_refl _) rfl, hsame _ rfl rfl⟩
  | complete callId status body =>
    simp only [ProbeBoard.step, fnCompleteProviderProbe]
    cases hf : b.cfg.providerProbes.find? (·.callId = callId) with
    | none => exact ⟨h, hsame _ rfl rfl⟩
    | some r =>
      have hr := List.mem_of_find?_eq_some hf
      obtain rfl : r.callId = callId := by simpa using List.find?_some hf
      by_cases hs : r.status = .inFlight
      · by_cases hok : isSuccess status = false
        · simp only [hs, hok, if_true, if_false, not_true, ne_eq]
          exact ⟨sequenced_answered h hr hs, advances_answered h hr hs⟩
        · simp only [hs, hok, if_false, not_true, ne_eq]
          exact ⟨sequenced_answered h hr hs, advances_answered h hr hs⟩
      · simp only [hs, ne_eq, not_false_eq_true, if_true]
        exact ⟨h, hsame _ rfl rfl⟩
  | watchdog seconds =>
    exact ⟨sequenced_faded h faded_reclaimed (Nat.le_refl _) rfl, hsame _ rfl rfl⟩
  | elsewhere change =>
    exact ⟨sequenced_faded h (Faded.refl _) (Nat.le_max_left _ _) rfl, hsame _ rfl rfl⟩

/-- Over every run: only the newest probe of a provider waits for an answer; what the columns of the
provider show goes back to a probe that was answered, the newest of those; and it never gives way to
the answer of an older one. -/
theorem probes_advance (c : Config) (es fs : List ProbeEvent) :
    let b := run ProbeBoard.step (.start c) es
    let b' := run ProbeBoard.step b fs
    (∀ r ∈ b.cfg.providerProbes, r.status.unfinished = true →
      ∀ r' ∈ b.cfg.providerProbes, r'.providerId = r.providerId → r'.callId ≤ r.callId) ∧
      (∀ r ∈ b.cfg.providerProbes, r.status = .harvested →
        ∃ a, b.source r.providerId = some a ∧ r.callId ≤ a) ∧
      (∀ p a, b.source p = some a → ∃ r ∈ b.cfg.providerProbes, r.callId = a ∧ r.providerId = p ∧
        r.status = .harvested) ∧
      ∀ p, Advances b b' p := by
  intro b b'
  have hstep : ∀ (x : ProbeBoard) (e : ProbeEvent), Sequenced x → True → Sequenced (x.step e) :=
    fun x e hx _ => (sequenced_step e hx).1
  have hb : Sequenced b := Runs.invariant hstep (sequenced_start c) (along_true _ es)
  refine ⟨hb.newest, hb.answered, hb.source, fun p => ?_⟩
  have hboth : Sequenced b' ∧ Advances b b' p := by
    have hboth : ∀ (x : ProbeBoard) (e : ProbeEvent), Sequenced x ∧ Advances b x p → True →
        Sequenced (x.step e) ∧ Advances b (x.step e) p := by
      intro x e hx _
      obtain ⟨ho, ha⟩ := sequenced_step e hx.1
      exact ⟨ho, hx.2.trans (ha p)⟩
    exact Runs.invariant hboth ⟨hb, .inl ⟨rfl, rfl⟩⟩ (along_true b fs)
  exact hboth.2

end Order

end Allgres
