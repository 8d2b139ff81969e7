import Allgres.CallStates

/-! The rows in flight over one step. A row comes into flight only when a claim hands it out, and
the completion of a call leaves it no longer in flight. -/

namespace Allgres

open Raise Rows Runs Allgres.Core

def inFlight (s : CallStatus) : Prop :=
  s = .inFlight

theorem not_closes_inFlight {a : CallStatus} : ¬ Life.closes a .inFlight := by
  simp [Life.closes]

section Rows

variable {s s' : Core}

/-- A row in flight after a step that only closes calls was in flight before it. -/
theorem Restatus.inFlight_of_closes (h : Restatus Life.closes s s') (hw : s'.WellFormed) {q' : Call}
    (hq : q' ∈ s'.calls) (hs : q'.status = .inFlight) :
    ∃ q ∈ s.calls, q.ident = q'.ident ∧ q.status = .inFlight := by
  rcases h.new q' hq with ⟨q, hm, hid⟩ | hnew
  · obtain ⟨r, hr, hrid, hst⟩ := h.old q hm
    obtain rfl := eq_of_key Call.callId hw.callIds hr hq (congrArg (·.1) (hrid.trans hid))
    rcases hst with he | hc
    · exact ⟨q, hm, hid, he.trans hs⟩
    · exact absurd (hs ▸ hc) not_closes_inFlight
  · simp [hs] at hnew

end Rows

section Claims

variable {pg : Postgres} {now : Time} {queue : Queue} {fallback : Option String}

theorem closeLabel_of_guard {lab : Label} (h : lab = .deny ∨ lab = .gate) :
    Life.closeLabel lab := by
  rcases h with rfl | rfl <;> trivial

/-- The guard of a claim takes no row into flight. -/
theorem guardQueuedCall_restatus {db : Db} (hw : db.core.WellFormed) (id : Uuid) :
    Restatus Life.closes db.core (guardQueuedCall pg now db queue id).1.core :=
  restatus_of_closed hw (guardQueuedCall_evolves pg now queue id hw
    (fun _ _ => closeLabel_of_guard (.inl rfl)) fun _ _ => closeLabel_of_guard (.inr rfl))

/-- The rows that a claim takes into flight are those it hands out. -/
theorem inFlight_of_claimLoop (qs : List Call) {db : Db} (hw : db.core.WellFormed) {q' : Call}
    (hq : q' ∈ (claimLoop pg now queue fallback qs db).1.calls) (hs : q'.status = .inFlight) :
    (∃ q ∈ db.calls, q.ident = q'.ident ∧ q.status = .inFlight) ∨
      q'.callId ∈ (claimLoop pg now queue fallback qs db).2.map Handed.callId := by
  induction qs generalizing db with
  | nil => exact .inl ⟨q', hq, rfl, hs⟩
  | cons q qs ih =>
    have hguard : Restatus Life.closes db.core (guardQueuedCall pg now db queue q.callId).1.core :=
      guardQueuedCall_restatus hw q.callId
    have hwg := (guardQueuedCall_evolves (G := fun _ _ _ => True) pg now queue q.callId hw
      (fun _ _ => trivial) fun _ _ => trivial).wf hw
    rw [claimLoop] at hq ⊢
    dsimp only at hq ⊢
    by_cases hok : (guardQueuedCall pg now db queue q.callId).2 = true
    · rw [if_pos hok] at hq ⊢
      obtain ⟨hdb, r, t, hwait, -, -⟩ := guardQueuedCall_true hok
      rw [hdb] at hq ⊢
      have hw' := (takeCall_evolves (G := fun _ _ _ => True) hw hwait now fun _ _ => trivial).wf hw
      simp only [List.map_cons, callId_handOut, List.mem_cons]
      rcases ih hw' hq with ⟨p, hp, hid, hps⟩ | hhand
      · obtain ⟨c, hc, rfl⟩ := mem_update.mp hp
        by_cases hcid : c.callId = q.callId
        · right
          left
          have hcall : q'.callId = _ := congrArg (·.1) hid.symm
          rw [hcall]
          simp [Call.ident, hcid]
        · left
          rw [if_neg (by simpa using hcid)] at hid hps
          exact ⟨c, hc, hid, hps⟩
      · exact .inr (.inr hhand)
    · rw [if_neg hok] at hq ⊢
      rcases ih hwg hq with ⟨p, hp, hid, hps⟩ | hhand
      · obtain ⟨c, hc, hcid, hcs⟩ := hguard.inFlight_of_closes hwg hp hps
        exact .inl ⟨c, hc, hcid.trans hid, hcs⟩
      · exact .inr hhand

end Claims

section Steps

variable {pg : Postgres} {db : Db}

/-- A row in flight after a step was in flight before it, or the step handed it out. -/
theorem inFlight_of_step (e : Event) (hw : db.core.WellFormed) {q' : Call}
    (hq : q' ∈ (step pg db e).calls) (hs : q'.status = .inFlight) :
    (∃ q ∈ db.calls, q.ident = q'.ident ∧ q.status = .inFlight) ∨
      q'.callId ∈ (handed pg db e).map Handed.callId := by
  rcases step_cases pg db e with he | he
  · rw [he] at hq
    exact .inl ⟨q', hq, rfl, hs⟩
  · have hw' := wellFormed_step pg e hw
    have hr := perform_restatus hw he
    generalize step pg db e = db' at hq he hw' hr
    obtain ⟨now, op⟩ := e
    cases op with
    | claim queue limit fallback locked =>
      obtain rfl := Except.ok.inj he
      exact inFlight_of_claimLoop _ hw hq hs
    | _ => exact .inl (hr.inFlight_of_closes hw' hq hs)

theorem inFlight_of_run (es : List Event) {db : Db} (hw : db.core.WellFormed) {q' : Call}
    (hq : q' ∈ (run (step pg) db es).calls) (hs : q'.status = .inFlight) :
    (∃ q ∈ db.calls, q.ident = q'.ident ∧ q.status = .inFlight) ∨
      q'.callId ∈ handedIds pg db es := by
  induction es generalizing db with
  | nil => exact .inl ⟨q', hq, rfl, hs⟩
  | cons e es ih =>
    rw [handedIds, List.mem_append]
    rcases ih (wellFormed_step pg e hw) hq with ⟨p, hp, hid, hps⟩ | hlater
    · rcases inFlight_of_step e hw hp hps with ⟨q, hqm, hqid, hqs⟩ | hnow
      · exact .inl ⟨q, hqm, hqid.trans hid, hqs⟩
      · have hcall : p.callId = q'.callId := congrArg (·.1) hid
        exact .inr (.inl (hcall ▸ hnow))
    · exact .inr (.inr hlater)

/-- A claim hands out rows of its own queue. -/
theorem claim_of_handed {e : Event} {id : Uuid} (h : id ∈ (handed pg db e).map Handed.callId) :
    ∃ q ∈ db.calls, q.callId = id ∧
      ∃ limit fallback locked, e.op = .claim q.req.queue limit fallback locked := by
  obtain ⟨now, op⟩ := e
  cases op with
  | claim queue limit fallback locked =>
    have hsub := handed_sublist pg now queue fallback
      ((claimable db now queue locked).take (claimLimit limit)) db
    obtain ⟨q, hq, rfl⟩ := List.mem_map.mp (hsub.subset h)
    have hq := List.mem_filter.mp (mem_sortBy.mp (List.mem_of_mem_take hq))
    simp only [decide_eq_true_eq] at hq
    exact ⟨q, hq.1, rfl, limit, fallback, locked, by rw [hq.2.1]⟩
  | _ => simp [handed] at h

/-- A step that is no claim of a queue takes no row of that queue into flight. -/
theorem inFlight_of_not_claim {e : Event} (hw : db.core.WellFormed) {q' : Call}
    (hne : ∀ limit fallback locked, e.op ≠ .claim q'.req.queue limit fallback locked)
    (hq : q' ∈ (step pg db e).calls) (hs : q'.status = .inFlight) :
    ∃ q ∈ db.calls, q.ident = q'.ident ∧ q.status = .inFlight := by
  refine (inFlight_of_step e hw hq hs).resolve_right fun hhand => ?_
  obtain ⟨p, hp, hid, limit, fallback, locked, hop⟩ := claim_of_handed hhand
  obtain ⟨p', hp', hident, -⟩ := (step_restatus pg e hw).old p hp
  have hcall : p'.callId = q'.callId := (congrArg (·.1) hident).trans hid
  obtain rfl := eq_of_key Call.callId (wellFormed_step pg e hw).callIds hp' hq hcall
  have hreq : p'.req = p.req := congrArg (·.2.2) hident
  exact hne limit fallback locked (hreq ▸ hop)

/-- A completion that does not raise leaves its call no longer in flight. -/
theorem not_inFlight_of_fnCompleteOutbound {db' : Db} {now : Time} {id : Uuid} {status : Option Int}
    {body : Option String} {result : Json} (hw : db.core.WellFormed)
    (h : fnCompleteOutbound pg now db id status body = .ok (db', result)) :
    ¬ Held inFlight db'.core id := by
  have hw' : db'.core.WellFormed := by
    have hstep : step pg db ⟨now, .completeOutbound id status body⟩ = db' := by
      simp [step, perform, h, Except.map]
    exact hstep ▸ wellFormed_step pg _ hw
  have hover : Held (· ≠ .inFlight) db'.core id := by
    unfold fnCompleteOutbound at h
    cases hc : db.call? .outboundCalls id with
    | none => simp [hc] at h
    | some q =>
      obtain ⟨hm, rfl, -⟩ := call?_mem hc
      simp only [hc] at h
      split at h
      · rename_i hs
        obtain ⟨rfl, -⟩ := by simpa using h
        exact ⟨q, hm, rfl, hs⟩
      · rename_i hs
        split at h
        · rename_i o ho
          obtain ⟨lab, hset, -⟩ := harvestOutbound_settled hw hm (by simpa using hs) ho h
          obtain ⟨r, hr, hid, hl⟩ := over_of_settled hset
          refine ⟨r, hr, hid, fun he => ?_⟩
          simp [isOver, he, CallStatus.live] at hl
        · cases h
  exact hover.not hw' fun _ hne he => hne he

end Steps

end Allgres
