import Allgres.StepSpec

/-! One operation takes the life of every task along permitted moves. This module
has the rules for composing such evolutions and the evolution of a submitted step. -/

namespace Allgres

open Raise Rows Runs

namespace Core

/-- The tables grow, and every task moves by labels permitted for it. -/
structure Evolves (G : Uuid → Label → Life → Prop) (s s' : Core) : Prop where
  grow : Grow s s'
  lives : ∀ i, Moves Life.Move (G i) (s.life i) (s'.life i)

variable {G : Uuid → Label → Life → Prop} {s s' s'' : Core}

theorem Evolves.refl (s : Core) : Evolves G s s :=
  ⟨Grow.refl s, fun _ => .refl⟩

theorem Evolves.trans (h : Evolves G s s') (h' : Evolves G s' s'') : Evolves G s s'' :=
  ⟨h.grow.trans h'.grow, fun i => (h.lives i).trans (h'.lives i)⟩

theorem Evolves.wf (h : Evolves G s s') (hw : s.WellFormed) : s'.WellFormed :=
  h.grow.wf hw

theorem evolves_of_life_eq (hg : Grow s s') (h : ∀ i, s'.life i = s.life i) : Evolves G s s' := by
  refine ⟨hg, fun i => ?_⟩
  rw [h i]
  exact .refl

/-- One task moves, the others stay. -/
theorem evolves_at (hg : Grow s s') {j : Uuid} (lab : Label) (hG : G j lab (s.life j))
    (hm : Life.Move lab (s.life j) (s'.life j)) (hne : ∀ i, i ≠ j → s'.life i = s.life i) :
    Evolves G s s' := by
  refine ⟨hg, fun i => ?_⟩
  by_cases hi : i = j
  · rw [hi]
    exact .one hG hm
  · rw [hne i hi]
    exact .refl

theorem Evolves.mono {H : Uuid → Label → Life → Prop} (hGH : ∀ i lab l, G i lab l → H i lab l)
    (h : Evolves G s s') : Evolves H s s' :=
  ⟨h.grow, fun i => (h.lives i).mono (hGH i)⟩

/-- What a step does to a core: to the life of its own task, and a child it may add. -/
structure Submitted (s s' : Core) (i : Uuid) : Prop where
  grow : Grow s s'
  own : Life.Move .advance (s.life i) (s'.life i) ∨ Life.Move .queue (s.life i) (s'.life i)
  others : ∀ j, j ≠ i → s'.life j = s.life j ∨ Life.Move .born (s.life j) (s'.life j)

theorem Submitted.evolves {i : Uuid} (h : Submitted s s' i) (ha : G i .advance (s.life i))
    (hq : G i .queue (s.life i)) (hb : ∀ j l, G j .born l) : Evolves G s s' := by
  refine ⟨h.grow, fun j => ?_⟩
  by_cases hj : j = i
  · rw [hj]
    rcases h.own with hm | hm
    · exact .one ha hm
    · exact .one hq hm
  · rcases h.others j hj with he | hm
    · rw [he]
      exact .refl
    · exact .one (hb j _) hm

theorem advance_updateTask {i : Uuid} {t : Task} {f : Task → Task} (ht : s.task? i = some t)
    (hr : t.status = .running) (hf : ∀ t, (f t).ident = t.ident)
    (h : (f t).stepCount = t.stepCount + 1 ∨ ((f t).status = .failed ∧ (f t).stepCount = t.stepCount)) :
    Life.Move .advance (s.life i) ((s.updateTask i f).life i) := by
  rw [life_updateTask hf ht, life_of_task? ht, hr]
  rcases h with h | ⟨hs, hn⟩
  · rw [h]
    exact .advance _
  · rw [hs, hn]
    exact .halt

theorem submitted_updateTask {i : Uuid} {t : Task} {f : Task → Task} (ht : s.task? i = some t)
    (hr : t.status = .running) (hf : ∀ t, (f t).ident = t.ident)
    (h : (f t).stepCount = t.stepCount + 1 ∨ ((f t).status = .failed ∧ (f t).stepCount = t.stepCount)) :
    Submitted s (s.updateTask i f) i :=
  ⟨grow_updateTask hf, .inl (advance_updateTask ht hr hf h),
    fun _ hj => .inl (life_updateTask_ne hf hj)⟩

theorem submitted_bump {i : Uuid} {t : Task} {now : Time} {f : Task → Task}
    (ht : s.task? i = some t) (hr : t.status = .running) (hf : ∀ t, (f t).ident = t.ident) :
    Submitted s (s.bump i now f) i :=
  submitted_updateTask ht hr (fun t => hf t) (.inl rfl)

theorem submitted_queue {i : Uuid} {t : Task} {now : Time} {req : Request}
    (ht : s.task? i = some t) (hr : t.status = .running) (hq : req.isLlm = false) :
    Submitted s ((s.insertCall i req now).bump i now id) i := by
  obtain ⟨htm, hti⟩ := mem_of_task? ht
  have ht' : (s.insertCall i req now).task? i = some t := ht
  refine ⟨(grow_insertCall ⟨t, htm, hti⟩).trans (grow_bump fun _ => rfl), .inr ?_, fun j hj => .inl ?_⟩
  · have hc : (s.insertCall i req now).callsOf i =
        s.callsOf i ++ [⟨s.nextId, req.queue, req.isLlm, .queued⟩] := by
      have := congrArg Life.calls (life_insertCall (s := s) i i req now)
      simpa [life] using this
    rw [life_bump (f := id) (fun _ => rfl) ht', life_of_task? ht, hc, id, hr]
    exact .queue hq rfl
  · rw [life_bump_ne (f := id) (fun _ => rfl) hj, life_insertCall]
    simp [hj, life]

theorem submitted_delegate (hw : s.WellFormed) {i : Uuid} {t child : Task} {now : Time}
    {f : Task → Task} (ht : s.task? i = some t) (hr : t.status = .running)
    (hs : child.status = .queued) (hn : child.stepCount = 0) (hf : ∀ t, (f t).ident = t.ident) :
    Submitted s ((s.insertTask child).bump i now f) i := by
  obtain ⟨htm, hti⟩ := mem_of_task? ht
  have hne : i ≠ s.nextId := by
    have := hw.taskLt t htm
    rw [hti] at this
    exact Nat.ne_of_lt this
  have ht' : (s.insertTask child).task? i = some t := by
    rw [task?_insertTask hw, if_neg hne, ht]
  refine ⟨(grow_insertTask s child).trans (grow_bump hf), .inl ?_, fun j hj => ?_⟩
  · rw [life_bump hf ht', life_of_task? ht, hr]
    exact .advance _
  · rw [life_bump_ne hf hj, life_insertTask hw]
    by_cases hj' : j = s.nextId
    · right
      rw [if_pos hj', hj', life_nextId hw, hs, hn]
      exact .born
    · left
      rw [if_neg hj']

end Core

open Allgres.Core

theorem applyNext_submitted {db : Db} {t : Task} {next : Next} (hw : db.core.WellFormed)
    (ht : db.task? t.taskId = some t) (hr : t.status = .running) (hn : next.Ok) (now : Time) :
    Submitted db.core (db.applyNext t next now).core t.taskId := by
  cases next with
  | again => exact submitted_bump ht hr fun _ => rfl
  | queue req => exact submitted_queue ht hr hn
  | delegate child wait =>
    cases wait with
    | true => exact submitted_delegate hw ht hr hn.1 hn.2 fun _ => rfl
    | false => exact submitted_delegate hw ht hr hn.1 hn.2 fun _ => rfl
  | finalAnswer answer =>
    simp only [Db.applyNext, Db.core_maybeCompleteSession, Db.core_updateSession, Db.core_bump]
    exact submitted_bump ht hr fun _ => rfl
  | fail error =>
    simp only [Db.applyNext, Db.core_maybeCompleteSession, Db.core_bump]
    exact submitted_bump ht hr fun _ => rfl
  | awaitHuman reason =>
    have h : Submitted db.core (db.core.bump t.taskId now
        fun r => { r with status := .waitingHuman }) t.taskId := submitted_bump ht hr fun _ => rfl
    refine ⟨h.grow.trans (grow_insertApproval fun g hg => by cases hg), ?_, ?_⟩
    · exact h.own
    · exact h.others
  | awaitChildren => exact submitted_bump ht hr fun _ => rfl

/-- The spec of `fn_submit_result`. -/
theorem fnSubmitResult_submitted {pg : Postgres} {now : Time} {db db' : Db} {i : Uuid}
    {payload result : Json} (hw : db.core.WellFormed)
    (h : fnSubmitResult pg now db i payload = .ok (db', result)) :
    db.running i = true ∧ Submitted db.core db'.core i := by
  unfold fnSubmitResult at h
  cases ht : db.task? i with
  | none => simp [ht] at h
  | some t =>
    obtain ⟨htm, rfl⟩ := mem_of_task? (s := db.core) ht
    simp only [ht] at h
    by_cases hr : t.status = .running
    · have hrun : db.running t.taskId = true := by
        simp only [Db.running, List.any_eq_true, decide_eq_true_eq]
        exact ⟨t, htm, rfl, hr⟩
      refine ⟨hrun, ?_⟩
      rw [if_neg (by simp [hr])] at h
      split at h
      · obtain ⟨rfl, -⟩ := by simpa using h
        rw [Db.core_failTask]
        exact submitted_updateTask ht hr (fun _ => rfl) (.inr ⟨rfl, rfl⟩)
      · obtain ⟨st, hst, hk⟩ := bind_eq_ok.mp h
        obtain ⟨rfl, -⟩ := by simpa [pure, Except.pure] using hk
        have hok := Turn.payloadStep_ok pg _ payload st hst
        have hcore := Db.core_record db t st now
        have hw' : (db.record t st now).core.WellFormed := hcore.symm ▸ hw
        have ht' : (db.record t st now).task? t.taskId = some t := by
          rw [← Db.task?_core, hcore]
          exact ht
        have hs := applyNext_submitted hw' ht' hr hok now
        rw [hcore] at hs
        exact hs
    · simp [hr] at h

end Allgres
