import Allgres.Machine

/-! The states of a queued call over whole runs: which status follows which, who is
handed a call, and what a second completion does. -/

namespace Allgres

open Raise Rows Runs Allgres.Core

/-- The arrows of the state machine of a call. -/
inductive Edge : CallStatus → CallStatus → Prop
  | take : Edge .queued .inFlight
  | harvest : Edge .inFlight .harvested
  | lose : Edge .inFlight .lost
  | drop : Edge .queued .lost

theorem edge_of_claims {a b : CallStatus} (h : Life.claims a b) : Edge a b := by
  rcases h with ⟨rfl, rfl | rfl⟩
  · exact .take
  · exact .drop

theorem edge_of_closes {a b : CallStatus} (h : Life.closes a b) : Edge a b := by
  rcases h with ⟨rfl, rfl | rfl⟩ | ⟨rfl, rfl⟩
  · exact .harvest
  · exact .lose
  · exact .drop

section Rows

variable {R : CallStatus → CallStatus → Prop} {s s' : Core}

theorem forall₂_of_mem {xs ys : List CallLife} (h : List.Forall₂ (Life.Kept R) xs ys) :
    (∀ x ∈ xs, ∃ y ∈ ys, Life.Kept R x y) ∧ ∀ y ∈ ys, ∃ x ∈ xs, Life.Kept R x y := by
  induction h with
  | nil => simp
  | @cons a b as bs hab _ ih =>
    constructor
    · intro x hx
      rcases List.mem_cons.mp hx with rfl | hx
      · exact ⟨b, by simp, hab⟩
      · obtain ⟨y, hy, hk⟩ := ih.1 x hx
        exact ⟨y, by simp [hy], hk⟩
    · intro y hy
      rcases List.mem_cons.mp hy with rfl | hy
      · exact ⟨a, by simp, hab⟩
      · obtain ⟨x, hx, hk⟩ := ih.2 y hy
        exact ⟨x, by simp [hx], hk⟩

theorem mem_callsOf {i : Uuid} {c : CallLife} :
    c ∈ s.callsOf i ↔ ∃ q ∈ s.calls, q.taskId = i ∧ q.life = c := by
  simp [callsOf, and_assoc]

/-- What one step makes of the rows of the queues. -/
structure Restatus (R : CallStatus → CallStatus → Prop) (s s' : Core) : Prop where
  old : ∀ q ∈ s.calls, ∃ q' ∈ s'.calls, q'.ident = q.ident ∧
    (q.status = q'.status ∨ R q.status q'.status)
  new : ∀ q' ∈ s'.calls, (∃ q ∈ s.calls, q.ident = q'.ident) ∨ q'.status = .queued

theorem restatus_of_moved (hw : s.WellFormed) (hg : Grow s s')
    (hm : ∀ i, Life.Moved R (s.life i) (s'.life i)) : Restatus R s s' := by
  have hw' := hg.wf hw
  constructor
  · intro q hq
    obtain ⟨q', hq', hid⟩ := hg.calls.kept hq
    obtain ⟨mid, added, hcalls, hkept, -⟩ := hm q.taskId
    obtain ⟨d, hd, hk⟩ := (forall₂_of_mem hkept).1 q.life (mem_callsOf.mpr ⟨q, hq, rfl, rfl⟩)
    have hd' : d ∈ s'.callsOf q.taskId := by
      have : d ∈ (s'.life q.taskId).calls := hcalls ▸ List.mem_append_left _ hd
      exact this
    obtain ⟨r, hr, -, rfl⟩ := mem_callsOf.mp hd'
    have hrid : r.callId = q'.callId := by
      simp only [Call.ident, Prod.mk.injEq] at hid
      exact hk.id.trans hid.1.symm
    obtain rfl := eq_of_key Call.callId hw'.callIds hr hq' hrid
    exact ⟨r, hr, hid, hk.status⟩
  · intro q' hq'
    rcases hg.calls.old_or_new hq' with hold | ⟨hlo, -⟩
    · exact .inl hold
    · right
      obtain ⟨mid, added, hcalls, hkept, hadd⟩ := hm q'.taskId
      have hmem : q'.life ∈ (s'.life q'.taskId).calls := mem_callsOf.mpr ⟨q', hq', rfl, rfl⟩
      rw [hcalls] at hmem
      rcases List.mem_append.mp hmem with hmem | hmem
      · obtain ⟨c, hc, hk⟩ := (forall₂_of_mem hkept).2 _ hmem
        obtain ⟨q, hq, -, rfl⟩ := mem_callsOf.mp hc
        have hlt := hw.callLt q hq
        have hid : q'.callId = q.callId := hk.id
        rw [← hid] at hlt
        exact absurd hlt (Nat.not_lt.mpr hlo)
      · exact hadd _ hmem

theorem Restatus.mono {S : CallStatus → CallStatus → Prop} (hRS : ∀ a b, R a b → S a b)
    (h : Restatus R s s') : Restatus S s s' := by
  refine ⟨fun q hq => ?_, h.new⟩
  obtain ⟨q', hq', hid, hs⟩ := h.old q hq
  exact ⟨q', hq', hid, hs.imp_right (hRS _ _)⟩

/-- The row of a call is in a status of a set. -/
def Held (P : CallStatus → Prop) (s : Core) (id : Uuid) : Prop :=
  ∃ q ∈ s.calls, q.callId = id ∧ P q.status

/-- No arrow leaves the set. -/
theorem Restatus.held {P : CallStatus → Prop} (hP : ∀ a b, Edge a b → P a → P b)
    (h : Restatus Edge s s') {id : Uuid} (hh : Held P s id) : Held P s' id := by
  obtain ⟨q, hq, rfl, hs⟩ := hh
  obtain ⟨q', hq', hid, he⟩ := h.old q hq
  refine ⟨q', hq', congrArg (·.1) hid, ?_⟩
  rcases he with he | he
  · exact he ▸ hs
  · exact hP _ _ he hs

theorem Held.not {P Q : CallStatus → Prop} (hw : s.WellFormed) {id : Uuid}
    (hPQ : ∀ a, P a → ¬ Q a) (hp : Held P s id) : ¬ Held Q s id := by
  rintro ⟨r, hr, hrid, hq⟩
  obtain ⟨q, hqm, hqid, hs⟩ := hp
  obtain rfl := eq_of_key Call.callId hw.callIds hr hqm (hrid.trans hqid.symm)
  exact hPQ _ hs hq

end Rows

section Steps

variable {pg : Postgres} {db db' : Db} {now : Time}

theorem Core.Evolves.added {s s' : Core}
    (h : Evolves (fun _ lab _ => Life.addLabel lab) s s') (i : Uuid) :
    Life.Added (s.life i) (s'.life i) :=
  Moves.lift (R := Life.Added) (fun l => ⟨[], by simp, by simp⟩) (fun _ _ _ => .trans)
    (fun lab _ _ (hG : Life.addLabel lab) hm => Life.added_move hm hG) (h.lives i)

theorem Core.Evolves.closed {s s' : Core}
    (h : Evolves (fun _ lab _ => Life.closeLabel lab) s s') (i : Uuid) :
    Life.MovedOnly Life.closes (s.life i) (s'.life i) :=
  Moves.lift (R := Life.MovedOnly Life.closes) Life.MovedOnly.refl
    (fun _ _ _ => .trans Life.closes_trans)
    (fun lab _ _ (hG : Life.closeLabel lab) hm => Life.moved_close hm hG) (h.lives i)

theorem Core.Evolves.claimed {s s' : Core}
    (h : Evolves (fun _ lab _ => Life.claimLabel lab) s s') (i : Uuid) :
    Life.MovedOnly Life.claims (s.life i) (s'.life i) :=
  Moves.lift (R := Life.MovedOnly Life.claims) Life.MovedOnly.refl
    (fun _ _ _ => .trans Life.claims_trans)
    (fun lab _ _ (hG : Life.claimLabel lab) hm => Life.moved_claim hm hG) (h.lives i)

theorem restatus_of_added {s s' : Core} (hw : s.WellFormed)
    (h : Evolves (fun _ lab _ => Life.addLabel lab) s s') : Restatus Life.closes s s' :=
  restatus_of_moved hw h.grow fun i => (h.added i).moved

theorem restatus_of_closed {s s' : Core} (hw : s.WellFormed)
    (h : Evolves (fun _ lab _ => Life.closeLabel lab) s s') : Restatus Life.closes s s' :=
  restatus_of_moved hw h.grow fun i => (h.closed i).moved

theorem restatus_of_claimed {s s' : Core} (hw : s.WellFormed)
    (h : Evolves (fun _ lab _ => Life.claimLabel lab) s s') : Restatus Life.claims s s' :=
  restatus_of_moved hw h.grow fun i => (h.claimed i).moved

theorem restatus_of_settled {s s' : Core} {q : Call} {lab : Label} (hw : s.WellFormed)
    (h : Settled s s' q lab) : Restatus Life.closes s s' := by
  have hm : ∀ i, Life.Moved Life.closes (s.life i) (s'.life i) := by
    intro i
    by_cases hi : i = q.taskId
    · rw [hi]
      exact Life.moved_settle h.own h.label
    · rcases h.others i hi with he | hb
      · rw [he]
        exact Life.Moved.refl _
      · exact (Life.added_move hb trivial).moved
  exact restatus_of_moved hw h.grow hm

theorem Restatus.refl {R : CallStatus → CallStatus → Prop} (s : Core) : Restatus R s s :=
  ⟨fun q hq => ⟨q, hq, rfl, .inl rfl⟩, fun q hq => .inl ⟨q, hq, rfl⟩⟩

/-- Only a claim takes a call out of its queue. -/
def Op.restatus : Op → CallStatus → CallStatus → Prop
  | .claim _ _ _ _ => Life.claims
  | _ => Life.closes

theorem Op.edge_of_restatus {op : Op} {a b : CallStatus} (h : op.restatus a b) : Edge a b := by
  cases op with
  | claim => exact edge_of_claims h
  | _ => exact edge_of_closes h

theorem perform_restatus {op : Op} (hw : db.core.WellFormed)
    (h : perform pg now db op = .ok db') : Restatus op.restatus db.core db'.core := by
  cases op with
  | createSession agentId goal projectId scheduleId =>
    obtain ⟨⟨sid, tid⟩, h⟩ := map_fst_eq_ok h
    exact restatus_of_added hw ((fnCreateSession_spawned hw h).1.evolves fun _ _ => trivial)
  | continueSession sessionId message =>
    obtain ⟨tid, h⟩ := map_fst_eq_ok h
    exact restatus_of_added hw ((fnContinueSession_spawned hw h).evolves fun _ _ => trivial)
  | dispatch roll locked =>
    obtain ⟨out, h⟩ := map_fst_eq_ok h
    exact restatus_of_added hw (fnDispatchTasks_evolves hw (fun _ _ => trivial)
      (fun _ _ => trivial) (fun _ _ _ => trivial) (fun _ _ _ _ _ => trivial) h)
  | submit i payload =>
    obtain ⟨result, h⟩ := map_fst_eq_ok h
    exact restatus_of_added hw
      ((fnSubmitResult_submitted hw h).2.evolves trivial trivial fun _ _ => trivial)
  | claim queue limit fallback locked =>
    obtain rfl := Except.ok.inj h
    exact restatus_of_claimed hw
      (fnClaim_evolves pg now limit fallback locked hw fun _ _ _ hl => hl)
  | completeOutbound id status body =>
    obtain ⟨result, h⟩ := map_fst_eq_ok h
    rcases fnCompleteOutbound_settled hw h with rfl | ⟨q, lab, -, -, hset, -⟩
    · exact Restatus.refl _
    · exact restatus_of_settled hw hset
  | completeLocal queue id r =>
    obtain ⟨result, h⟩ := map_fst_eq_ok h
    rcases fnCompleteLocal_settled hw h with rfl | ⟨q, lab, -, -, hset, -⟩
    · exact Restatus.refl _
    · exact restatus_of_settled hw hset
  | watchdog seconds locked =>
    obtain rfl := Except.ok.inj h
    exact restatus_of_closed hw (fnWatchdog_evolves hw (fun _ _ => trivial) (fun _ _ => trivial)
      (fun _ _ => trivial) (fun _ _ _ _ _ _ => trivial) fun _ _ _ _ => trivial)
  | decideApproval id accept reply =>
    obtain ⟨out, h⟩ := map_fst_eq_ok h
    refine restatus_of_closed hw (fnDecideApproval_evolves (fun _ _ _ _ _ _ _ _ => ?_) h)
    cases accept <;> trivial
  | cancelSession sid reason =>
    obtain ⟨n, h⟩ := map_fst_eq_ok h
    exact restatus_of_closed hw (fnCancelSession_evolves hw (fun _ _ => trivial)
      (fun _ _ _ _ => trivial) h)
  | edit change =>
    obtain rfl := Except.ok.inj h
    exact Restatus.refl _

theorem step_restatus (pg : Postgres) (e : Event) (hw : db.core.WellFormed) :
    Restatus Edge db.core (step pg db e).core := by
  rcases step_cases pg db e with he | he
  · rw [he]
    exact Restatus.refl _
  · exact (perform_restatus hw he).mono fun _ _ => Op.edge_of_restatus

theorem run_held (pg : Postgres) {P : CallStatus → Prop} (hP : ∀ a b, Edge a b → P a → P b) (es : List Event)
    (hw : db.core.WellFormed) {id : Uuid} (h : Held P db.core id) :
    Held P (run (step pg) db es).core id := by
  induction es generalizing db with
  | nil => exact h
  | cons e es ih => exact ih (wellFormed_step pg e hw) ((step_restatus pg e hw).held hP h)

end Steps

def untaken (s : CallStatus) : Prop :=
  s = .queued

def taken (s : CallStatus) : Prop :=
  s ≠ .queued

def isOver (s : CallStatus) : Prop :=
  s.live = false

theorem taken_edge (a b : CallStatus) (h : Edge a b) (_ : taken a) : taken b := by
  cases h <;> simp [taken]

theorem over_edge (a b : CallStatus) (h : Edge a b) (ha : isOver a) : isOver b := by
  cases h <;> simp_all [isOver, CallStatus.live]

section Handed

variable {pg : Postgres} {db : Db} {now : Time} {queue : Queue} {fallback : Option String}

@[simp] theorem callId_handOut (c : Config) (q : Call) : (handOut c fallback q).callId = q.callId := by
  unfold handOut
  split <;> rfl

theorem handed_sublist (pg : Postgres) (now : Time) (queue : Queue) (fallback : Option String)
    (qs : List Call) (db : Db) :
    ((claimLoop pg now queue fallback qs db).2.map Handed.callId).Sublist
      (qs.map (·.callId)) := by
  induction qs generalizing db with
  | nil => exact List.Sublist.refl _
  | cons q qs ih =>
    rw [claimLoop]
    dsimp only
    split
    · simp only [List.map_cons, callId_handOut]
      exact (ih _).cons_cons _
    · exact (ih _).cons _

theorem taken_takeCall {q : Call} {t : Task} {id : Uuid} (hw : Waiting db queue id q t) :
    Held taken (db.takeCall id now).core id := by
  obtain ⟨hm, rfl, -⟩ := hw.mem
  refine ⟨{ q with status := .inFlight, updatedAt := now }, mem_update.mpr ⟨q, hm, ?_⟩, rfl, ?_⟩
  · simp
  · simp [taken]

theorem handed_taken (qs : List Call) {db : Db} (hw : db.core.WellFormed) {id : Uuid}
    (h : id ∈ (claimLoop pg now queue fallback qs db).2.map Handed.callId) :
    Held taken (claimLoop pg now queue fallback qs db).1.core id := by
  induction qs generalizing db with
  | nil => simp [claimLoop] at h
  | cons q qs ih =>
    have hguard := guardQueuedCall_evolves (G := fun _ lab _ => Life.claimLabel lab) pg now queue
      q.callId hw (fun _ _ => trivial) fun _ _ => trivial
    rw [claimLoop] at h ⊢
    dsimp only at h ⊢
    by_cases hok : (guardQueuedCall pg now db queue q.callId).2 = true
    · rw [if_pos hok] at h ⊢
      obtain ⟨hdb, q', t, hwait, -, -⟩ := guardQueuedCall_true hok
      have htake := takeCall_evolves (G := fun _ lab _ => Life.claimLabel lab) hw hwait now
        fun _ _ => trivial
      rw [hdb] at h ⊢
      have hw' := htake.wf hw
      have hrest : Evolves (fun _ lab _ => Life.claimLabel lab) (db.takeCall q.callId now).core
          (claimLoop pg now queue fallback qs (db.takeCall q.callId now)).1.core :=
        claimLoop_evolves pg now fallback (fun _ _ _ hl => hl) hw'
      simp only [List.map_cons, callId_handOut, List.mem_cons] at h
      rcases h with rfl | h
      · have hedge := (restatus_of_claimed hw' hrest).mono fun _ _ => edge_of_claims
        exact hedge.held taken_edge (taken_takeCall hwait)
      · exact ih hw' h
    · rw [if_neg hok] at h ⊢
      exact ih (hguard.wf hw) h

theorem claimable_nodup (hw : db.core.WellFormed) (locked : List Uuid) :
    ((claimable db now queue locked).map (·.callId)).Nodup :=
  nodup_sortBy_filter hw.callIds

/-- What a claim hands out was queued before it, is no longer queued after it, and is
named once. -/
theorem handed_spec (pg : Postgres) (e : Event) (hw : db.core.WellFormed) :
    ((handed pg db e).map Handed.callId).Nodup ∧
      ∀ id ∈ (handed pg db e).map Handed.callId,
        Held untaken db.core id ∧ Held taken (step pg db e).core id := by
  obtain ⟨now, op⟩ := e
  cases op with
  | claim queue limit fallback locked =>
    let qs := (claimable db now queue locked).take (claimLimit limit)
    have hsub := handed_sublist pg now queue fallback qs db
    have hqs : (qs.map (·.callId)).Sublist ((claimable db now queue locked).map (·.callId)) :=
      (List.take_sublist _ _).map _
    refine ⟨(claimable_nodup hw locked).sublist (hsub.trans hqs), fun id hid => ⟨?_, ?_⟩⟩
    · obtain ⟨q, hq, rfl⟩ := List.mem_map.mp ((hsub.trans hqs).subset hid)
      have hq := List.mem_filter.mp (mem_sortBy.mp hq)
      simp only [decide_eq_true_eq] at hq
      exact ⟨q, hq.1, rfl, hq.2.2.1⟩
    · exact handed_taken qs hw hid
  | _ => simp [handed]

theorem handedIds_spec (es : List Event) {db : Db} (hw : db.core.WellFormed) :
    (handedIds pg db es).Nodup ∧ ∀ id ∈ handedIds pg db es, ¬ Held taken db.core id := by
  induction es generalizing db with
  | nil => simp [handedIds]
  | cons e es ih =>
    obtain ⟨hnd, hnot⟩ := ih (wellFormed_step pg e hw)
    obtain ⟨hn, hh⟩ := handed_spec pg e hw
    rw [handedIds]
    constructor
    · rw [List.nodup_append]
      refine ⟨hn, hnd, ?_⟩
      rintro a ha b hb rfl
      exact hnot a hb (hh a ha).2
    · intro id hid
      rcases List.mem_append.mp hid with hid | hid
      · exact (hh id hid).1.not hw fun _ h hne => hne h
      · intro hold
        exact hnot id hid ((step_restatus pg e hw).held taken_edge hold)

end Handed

/-- The call an event reports the result of. -/
def Op.completes : Op → Option (Queue × Uuid)
  | .completeOutbound id _ _ => some (.outboundCalls, id)
  | .completeLocal queue id _ => some (queue, id)
  | _ => none

section Completion

variable {pg : Postgres} {db : Db} {queue : Queue} {id : Uuid} {e : Event}

/-- The fence of the four completions. -/
theorem step_of_not_inFlight (hc : e.op.completes = some (queue, id))
    (h : ∀ q, db.call? queue id = some q → q.status ≠ .inFlight) : step pg db e = db := by
  obtain ⟨now, op⟩ := e
  cases op with
  | completeOutbound callId status body =>
    obtain ⟨rfl, rfl⟩ : .outboundCalls = queue ∧ callId = id := by simpa [Op.completes] using hc
    cases hq : db.call? .outboundCalls callId with
    | none => simp [step, perform, fnCompleteOutbound, hq, Except.map]
    | some q => simp [step, perform, fnCompleteOutbound, hq, h q hq, Except.map]
  | completeLocal queue' callId r =>
    obtain ⟨rfl, rfl⟩ : queue' = queue ∧ callId = id := by simpa [Op.completes] using hc
    cases hq : db.call? queue' callId with
    | none => simp [step, perform, fnCompleteLocal, hq, Except.map]
    | some q => simp [step, perform, fnCompleteLocal, hq, h q hq, Except.map]
  | _ => simp [Op.completes] at hc

theorem over_of_settled {s s' : Core} {q : Call} {lab : Label} (h : Settled s s' q lab) :
    Held isOver s' q.callId := by
  obtain ⟨c, hc, hid, hl⟩ := h.dead
  obtain ⟨r, hr, -, rfl⟩ := mem_callsOf.mp hc
  exact ⟨r, hr, hid, hl⟩

/-- A completion that has an effect leaves its call harvested or lost. -/
theorem over_of_completed (hw : db.core.WellFormed) (hc : e.op.completes = some (queue, id))
    (hne : step pg db e ≠ db) : Held isOver (step pg db e).core id := by
  have hok : perform pg e.now db e.op = .ok (step pg db e) :=
    (step_cases pg db e).resolve_left hne
  generalize step pg db e = db' at hne hok
  obtain ⟨now, op⟩ := e
  cases op with
  | completeOutbound callId status body =>
    obtain ⟨rfl, rfl⟩ : .outboundCalls = queue ∧ callId = id := by simpa [Op.completes] using hc
    obtain ⟨result, h⟩ := map_fst_eq_ok hok
    obtain ⟨q, lab, hq, -, hset, -⟩ := (fnCompleteOutbound_settled hw h).resolve_left hne
    exact (call?_mem hq).2.1 ▸ over_of_settled hset
  | completeLocal queue' callId r =>
    obtain ⟨rfl, rfl⟩ : queue' = queue ∧ callId = id := by simpa [Op.completes] using hc
    obtain ⟨result, h⟩ := map_fst_eq_ok hok
    obtain ⟨q, lab, hq, -, hset, -⟩ := (fnCompleteLocal_settled hw h).resolve_left hne
    exact (call?_mem hq).2.1 ▸ over_of_settled hset
  | _ => simp [Op.completes] at hc

theorem step_of_over (hw : db.core.WellFormed) (hc : e.op.completes = some (queue, id))
    (h : Held isOver db.core id) : step pg db e = db := by
  apply step_of_not_inFlight hc
  intro q hq hs
  obtain ⟨hm, hid, -⟩ := call?_mem hq
  exact h.not (Q := fun s => s = .inFlight) hw (fun a ha he => by simp [isOver, he, CallStatus.live] at ha)
    ⟨q, hm, hid, hs⟩

end Completion

/-- Over every run, and whatever event comes next: a row of the four queues keeps its
identity and moves along one arrow of `Edge` at most, and a new row is queued; no call
is handed out twice; a completion of a call that is not in flight changes nothing; and
of two completions of a call at most one has an effect. -/
theorem call_state_machine (pg : Postgres) (c : Config) (es : List Event) (e : Event) :
    let db := run (step pg) (start c) es
    (∀ q ∈ db.calls, ∃ q' ∈ (step pg db e).calls, q'.ident = q.ident ∧
      (q.status = q'.status ∨ Edge q.status q'.status)) ∧
    (∀ q' ∈ (step pg db e).calls, (∃ q ∈ db.calls, q.ident = q'.ident) ∨ q'.status = .queued) ∧
    (handedIds pg (start c) es).Nodup ∧
    (∀ queue id, e.op.completes = some (queue, id) →
      (∀ q, db.call? queue id = some q → q.status ≠ .inFlight) → step pg db e = db) ∧
    ∀ queue id, e.op.completes = some (queue, id) → step pg db e ≠ db →
      ∀ es' e', e'.op.completes = some (queue, id) →
        let later := run (step pg) (step pg db e) es'
        step pg later e' = later := by
  intro db
  have hw : db.core.WellFormed := wellFormed_run pg es (wellFormed_start c)
  have hr := step_restatus pg e hw
  refine ⟨hr.old, hr.new, (handedIds_spec es (wellFormed_start c)).1, ?_, ?_⟩
  · intro queue id hc hq
    exact step_of_not_inFlight hc hq
  · intro queue id hc hne es' e' hc' later
    have hw' := wellFormed_step pg e hw
    have hover := run_held pg over_edge es' hw' (over_of_completed hw hc hne)
    exact step_of_over (wellFormed_run pg es' hw') hc' hover

end Allgres
