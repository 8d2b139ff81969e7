import Allgres.CompletionLife

/-! What operators do to the life of a task: decide an approval it waits for, and
cancel its session. -/

namespace Allgres

open Raise Rows Runs Allgres.Core

namespace Core

def loseCalls (s : Core) (own : Uuid → Bool) (error : String) (now : Time) : Core :=
  let hit := fun c : Call =>
    decide (c.req.queue ∈ [Queue.outboundCalls, .sqlCalls] ∧ own c.taskId ∧ c.status.live)
  { s with calls := update hit (·.lose error now) s.calls }

theorem ident_lose (c : Call) (error : String) (now : Time) : (c.lose error now).ident = c.ident :=
  rfl

theorem grow_loseCalls (s : Core) (own : Uuid → Bool) (error : String) (now : Time) :
    Grow s (s.loseCalls own error now) :=
  grow_of_idents (Nat.le_refl _) rfl (map_ident_update (ident_lose · error now) _) rfl

theorem remote_life (c : Call) :
    c.life.remote = decide (c.req.queue ∈ [Queue.outboundCalls, .sqlCalls]) := by
  unfold Call.life
  generalize c.req.queue = k
  cases k <;> rfl

theorem callsOf_loseCalls (s : Core) (own : Uuid → Bool) (error : String) (now : Time) (i : Uuid) :
    (s.loseCalls own error now).callsOf i =
      if own i = true then Life.loseRemote (s.callsOf i) else s.callsOf i := by
  simp only [callsOf, loseCalls]
  have hown : ∀ c : Call, decide ((c.lose error now).taskId = i) = decide (c.taskId = i) :=
    fun _ => rfl
  rw [filter_update hown]
  simp only [update, Life.loseRemote, List.map_map]
  by_cases hi : own i = true
  · rw [if_pos hi]
    apply List.map_congr_left
    intro c hc
    obtain ⟨-, hci⟩ := List.mem_filter.mp hc
    have hci : c.taskId = i := by simpa using hci
    simp only [Function.comp_apply, hci, hi]
    by_cases hq : c.req.queue ∈ [Queue.outboundCalls, .sqlCalls] ∧ c.status.live = true
    · have hr : (c.life.remote && c.life.live) = true := by
        rw [remote_life, Bool.and_eq_true, decide_eq_true_eq]
        exact hq
      simp only [hq.1, hq.2, and_self, decide_true, if_true, CallLife.lose, hr]
      rfl
    · have hr : (c.life.remote && c.life.live) = false := by
        rw [remote_life, Bool.and_eq_false_iff, decide_eq_false_iff_not]
        by_cases hm : c.req.queue ∈ [Queue.outboundCalls, .sqlCalls]
        · exact .inr (by simpa [Call.life, CallLife.live] using fun hl => hq ⟨hm, hl⟩)
        · exact .inl hm
      have hn : ¬ (c.req.queue ∈ [Queue.outboundCalls, .sqlCalls] ∧ True ∧ c.status.live = true) := by
        simpa using hq
      simp only [hn, decide_false, Bool.false_eq_true, if_false, CallLife.lose, hr]
  · rw [if_neg hi]
    apply List.map_congr_left
    intro c hc
    obtain ⟨-, hci⟩ := List.mem_filter.mp hc
    have hci : c.taskId = i := by simpa using hci
    simp [hci, hi]

theorem life_loseCalls (s : Core) (own : Uuid → Bool) (error : String) (now : Time) (i : Uuid) :
    (s.loseCalls own error now).life i =
      { s.life i with
        calls := if own i = true then Life.loseRemote (s.callsOf i) else s.callsOf i } := by
  rw [← callsOf_loseCalls s own error now i]
  rfl

end Core

@[simp] theorem Db.core_loseCalls (db : Db) (own : Uuid → Bool) (error : String) (now : Time) :
    (db.loseCalls [.outboundCalls, .sqlCalls] own error now).core =
      db.core.loseCalls own error now := rfl

section Decide

variable {G : Uuid → Label → Life → Prop} {db db' : Db}

/-- A paused task that is ended by the refusal of its approval. -/
theorem reject_evolves {d : Db} {t : Task} {now : Time} {e : String} (hq : Quiet db.core d.core)
    (ht : d.task? t.taskId = some t) (hs : t.status = .waitingHuman)
    (hG : G t.taskId .reject (db.core.life t.taskId)) :
    Evolves G db.core ((d.bump t.taskId now
      fun r => { r with status := .failed, error := some e }).maybeCompleteSession
        t.sessionId now).core := by
  have hf : ∀ r : Task, ({ r with status := .failed, error := some e } : Task).ident = r.ident :=
    fun _ => rfl
  rw [Db.core_maybeCompleteSession, Db.core_bump]
  refine evolves_at (hq.grow.trans (grow_bump hf)) .reject hG ?_ ?_
  · rw [← hq.life, life_bump (s := d.core) hf ht, life_of_task? (s := d.core) ht, hs]
    exact .reject
  · intro i hi
    rw [life_bump_ne hf hi, hq.life]

theorem resume_evolves {d : Db} {t : Task} {now : Time} {st : TaskStatus}
    (hq : Quiet db.core d.core) (ht : d.task? t.taskId = some t) (hs : t.status = .waitingHuman)
    (hst : st = .running ∨ st = .queued) (hG : G t.taskId .resume (db.core.life t.taskId)) :
    Evolves G db.core (d.bump t.taskId now fun r => { r with status := st }).core := by
  have hf : ∀ r : Task, ({ r with status := st } : Task).ident = r.ident := fun _ => rfl
  rw [Db.core_bump]
  refine evolves_at (hq.grow.trans (grow_bump hf)) .resume hG ?_ ?_
  · rw [← hq.life, life_bump (s := d.core) hf ht, life_of_task? (s := d.core) ht, hs]
    exact .resume hst
  · intro i hi
    rw [life_bump_ne hf hi, hq.life]

theorem settleApproval_quiet (db : Db) (id : Uuid) (s : ApprovalStatus) (r : Option String)
    (now : Time) : Quiet db.core (db.settleApproval id s r now).core :=
  ⟨grow_updateApprovals fun _ => rfl, fun _ => rfl⟩

theorem fnDecideApproval_evolves {now : Time} {id : Uuid} {accept : Bool} {reply : Option String}
    {out : Json}
    (hG : ∀ a, db.approval? id = some a → a.status = .pending →
      a.expiresAt.any (· ≤ now) = false → ∀ t, db.task? t.taskId = some t →
      t.taskId = a.taskId → t.status = .waitingHuman →
        G t.taskId (if accept then .resume else .reject) (db.core.life t.taskId))
    (h : fnDecideApproval now db id accept reply = .ok (db', out)) :
    Evolves G db.core db'.core := by
  unfold fnDecideApproval at h
  split at h
  · cases h
  · rename_i v hv
    obtain ⟨hv, hpending⟩ := filter_eq_some hv
    have hpending : v.status = .pending := by simpa using hpending
    split at h
    · cases h
    · rename_i hexp
      have hexp : v.expiresAt.any (· ≤ now) = false := by simpa using hexp
      have hquiet : ∀ s, Quiet db.core (db.settleApproval id s reply now).core :=
        fun s => settleApproval_quiet db id s reply now
      dsimp only at h
      split at h
      · obtain ⟨rfl, -⟩ := by simpa using h
        exact evolves_of_life_eq (hquiet _).grow (hquiet _).life
      · rename_i t ht
        obtain ⟨ht, hst⟩ := filter_eq_some ht
        obtain ⟨-, hti⟩ := mem_of_task? (s := db.core) ht
        have ht' : db.task? t.taskId = some t := hti ▸ ht
        have hst : t.status = .waitingHuman := by simpa using hst
        obtain ⟨rfl, -⟩ := by simpa using h
        have hlab := hG v hv hpending hexp t ht' hti hst
        cases accept with
        | true =>
          rw [if_pos rfl]
          refine resume_evolves (hquiet .approved) ht' hst ?_ hlab
          unfold resumeStatus
          split_ifs
          · exact .inl rfl
          · exact .inr rfl
        | false =>
          rw [if_neg (by simp)]
          exact reject_evolves (hquiet .rejected) ht' hst hlab

end Decide

section Cancel

variable {G : Uuid → Label → Life → Prop} {db db' : Db} {now : Time}

theorem cancelTasks_life (now : Time) (said : String) {ts : List Task} (hn : (ts.map (·.taskId)).Nodup)
    (hts : ∀ t ∈ ts, ∃ r, db.core.task? t.taskId = some r) :
    Grow db.core (ts.foldl (Db.cancelTask now said) db).core ∧
      ∀ i, (ts.foldl (Db.cancelTask now said) db).core.life i =
        if i ∈ ts.map (·.taskId) then
          ⟨some .cancelled, (db.core.life i).steps + 1, db.core.callsOf i⟩
        else db.core.life i := by
  induction ts generalizing db with
  | nil => exact ⟨Grow.refl _, fun i => by simp⟩
  | cons t ts ih =>
    have hf : ∀ r : Task, ({ r with
        status := .cancelled
        error := some "operator_cancelled" } : Task).ident = r.ident := fun _ => rfl
    simp only [List.map_cons, List.nodup_cons] at hn
    obtain ⟨r, hr⟩ := hts t (by simp)
    have hcore : (db.cancelTask now said t).core = db.core.bump t.taskId now
        fun r => { r with status := .cancelled, error := some "operator_cancelled" } := rfl
    have hts' : ∀ u ∈ ts, ∃ r, (db.cancelTask now said t).core.task? u.taskId = some r := by
      intro u hu
      obtain ⟨r', hr'⟩ := hts u (List.mem_cons_of_mem t hu)
      rw [hcore]
      exact task?_bump hf hr'
    obtain ⟨hg, hl⟩ := ih hn.2 hts'
    rw [hcore] at hg hl
    rw [List.foldl_cons]
    refine ⟨(grow_bump hf).trans hg, fun i => ?_⟩
    rw [hl i]
    by_cases hi : i = t.taskId
    · have hnot : i ∉ ts.map (·.taskId) := hi ▸ hn.1
      rw [if_neg hnot, List.map_cons, if_pos (by simp [hi]), hi, life_bump hf hr, life_of_task? hr]
    · rw [life_bump_ne hf hi]
      by_cases hmem : i ∈ ts.map (·.taskId)
      · rw [if_pos hmem, List.map_cons, if_pos (List.mem_cons_of_mem _ hmem)]
        rfl
      · rw [if_neg hmem, List.map_cons, if_neg (by simpa [hi] using hmem)]

theorem inSession_iff (hw : db.core.WellFormed) {sid i : Uuid} :
    db.inSession sid i = true ↔ ∃ t, db.core.task? i = some t ∧ t.sessionId = sid := by
  simp only [Db.inSession, List.any_eq_true, decide_eq_true_eq]
  constructor
  · rintro ⟨t, ht, rfl, hs⟩
    exact ⟨t, task?_of_mem hw ht, hs⟩
  · rintro ⟨t, ht, hs⟩
    obtain ⟨htm, hti⟩ := mem_of_task? ht
    exact ⟨t, htm, hti, hs⟩

theorem fnCancelSession_evolves {sid : Uuid} {reason : Option String} {n : Nat}
    (hw : db.core.WellFormed) (hd : ∀ i l, G i .drop l)
    (hc : ∀ t, db.core.task? t.taskId = some t → t.sessionId = sid → unfinished t = true →
      G t.taskId .cancel (db.core.life t.taskId))
    (h : fnCancelSession now db sid reason = .ok (db', n)) : Evolves G db.core db'.core := by
  unfold fnCancelSession at h
  obtain ⟨_, _, h⟩ := bind_eq_ok.mp h
  obtain ⟨rfl, -⟩ := Prod.mk.inj (Except.ok.inj h)
  let ts := db.tasks.filter fun t => t.sessionId = sid ∧ unfinished t
  have hmem : ∀ t, t ∈ ts ↔ t ∈ db.tasks ∧ t.sessionId = sid ∧ unfinished t = true := by
    intro t
    simp [ts]
  have hnd : (ts.map (·.taskId)).Nodup := hw.taskIds.sublist (List.filter_sublist.map _)
  obtain ⟨hg, hl⟩ := cancelTasks_life now ((trimmed reason).getD "Cancelled by operator.")
    hnd fun t ht => ⟨t, task?_of_mem hw ((hmem t).mp ht).1⟩
  have hf : ∀ a : Approval, ({ a with
      status := .rejected
      replyText := some "session_cancelled"
      decidedAt := some now } : Approval).ident = a.ident := fun _ => rfl
  refine ⟨(hg.trans (grow_loseCalls _ _ _ _)).trans (grow_updateApprovals hf), fun i => ?_⟩
  have hlife := life_loseCalls (ts.foldl (Db.cancelTask now
    ((trimmed reason).getD "Cancelled by operator.")) db).core (db.inSession sid)
    "session_cancelled" now i
  have hcalls : (ts.foldl (Db.cancelTask now
      ((trimmed reason).getD "Cancelled by operator.")) db).core.callsOf i = db.core.callsOf i := by
    have := congrArg Life.calls (hl i)
    by_cases hi : i ∈ ts.map (·.taskId)
    · rw [if_pos hi] at this
      exact this
    · rw [if_neg hi] at this
      exact this
  rw [hcalls, hl i] at hlife
  refine Eq.mpr (congrArg (Moves Life.Move (G i) (db.core.life i)) hlife) ?_
  by_cases hi : i ∈ ts.map (·.taskId)
  · obtain ⟨t, ht, rfl⟩ := List.mem_map.mp hi
    obtain ⟨htm, hts, hun⟩ := (hmem t).mp ht
    have ht' := task?_of_mem hw htm
    rw [if_pos hi, if_pos ((inSession_iff hw).mpr ⟨t, ht', hts⟩)]
    refine .one (hc t ht' hts hun) ?_
    rw [life_of_task? ht']
    exact .cancel (by simpa [unfinished] using hun)
  · rw [if_neg hi]
    by_cases hs : db.inSession sid i = true
    · obtain ⟨t, ht, hts⟩ := (inSession_iff hw).mp hs
      obtain ⟨htm, hti⟩ := mem_of_task? ht
      have hfin : t.status.finished = true := by
        by_contra hne
        exact hi (List.mem_map.mpr ⟨t, (hmem t).mpr ⟨htm, hts, by simpa [unfinished] using hne⟩, hti⟩)
      rw [if_pos hs]
      refine .one (hd i _) ?_
      rw [life_of_task? ht]
      exact .drop hfin
    · rw [if_neg hs]
      exact .refl

end Cancel

end Allgres
