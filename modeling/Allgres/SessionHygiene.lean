import Allgres.WorkerJobs

/-! When a job leaves the session of the worker as it found it. -/

namespace Allgres

open Runs

section Graded

variable {δ : Type}

/-- A closure has ended so that its subtransaction can be ended too. -/
def Clean (s : WorkerSession δ) : WorkerSession δ × Ended (Except String Json) → Prop
  | (s', .returned (.ok _)) => s'.begun = s.begun ∧ s'.timer = none
  | (_, .returned (.error _)) => False
  | (s', .thrown _) => s'.begun = s.begun ∧ s'.timer = none

/-- A closure has ended so that a level stays open, or the timer armed. -/
def Soiled (s : WorkerSession δ) : WorkerSession δ × Ended (Except String Json) → Prop
  | (s', .returned (.ok _)) => s.begun.length < s'.begun.length
  | (s', .returned (.error _)) => s.begun.length ≤ s'.begun.length
  | (s', .thrown _) =>
    s.begun.length < s'.begun.length ∨ (s'.begun = s.begun ∧ s'.timer.isSome = true)

def Graded (s : WorkerSession δ) (r : WorkerSession δ × Ended (Except String Json)) (calm : Bool) : Prop :=
  if calm = true then Clean s r else Soiled s r

theorem graded_true {s : WorkerSession δ} {r : WorkerSession δ × Ended (Except String Json)} (h : Clean s r) :
    Graded s r true := by
  rwa [Graded, if_pos rfl]

theorem graded_false {s : WorkerSession δ} {r : WorkerSession δ × Ended (Except String Json)} (h : Soiled s r) :
    Graded s r false := by
  rwa [Graded, if_neg Bool.false_ne_true]

end Graded

section Session

variable {δ : Type} {s : WorkerSession δ} {f : Closure δ}

theorem commit_of_two (h : 2 ≤ s.begun.length) : s.commitTransaction = s := by
  unfold WorkerSession.commitTransaction
  match hb : s.begun with
  | [] => rfl
  | [_] => simp [hb] at h
  | _ :: _ :: _ => rfl

theorem inJob_begun (hs : s.Idle) : s.inJob.begun = [s.db, s.db] := by
  simp [WorkerSession.inJob, WorkerSession.startTransaction, WorkerSession.beginSub, hs.begun]

theorem inJob_timer (hs : s.Idle) : s.inJob.timer = none := by
  simp [WorkerSession.inJob, WorkerSession.startTransaction, WorkerSession.beginSub, hs.begun, hs.timer]

/-- A subtransaction that is ended as it should be. -/
theorem transaction_clean (hs : s.Idle) (h : Clean s.inJob (f s.inJob)) :
    Hygienic s (transaction (runInSubtransaction f) s) := by
  have hbegun := inJob_begun hs
  rcases hr : f s.inJob with ⟨s', (_ | v) | e⟩ <;> rw [hr] at h
  · exact h.elim
  · have hs' : s'.begun = [s.db, s.db] := h.1.trans hbegun
    have hrun : transaction (runInSubtransaction f) s = (s'.releaseSub.commitTransaction, .ok v) := by
      simp only [transaction, runInSubtransaction]
      rw [show s.startTransaction.beginSub = s.inJob from rfl, hr]
    rw [hrun]
    have hcommit : s'.releaseSub.commitTransaction = { s' with begun := [] } := by
      simp [WorkerSession.releaseSub, WorkerSession.commitTransaction, hs']
    exact ⟨by rw [hcommit, hs.begun], nofun, by rw [hcommit]; exact h.2⟩
  · have hs' : s'.begun = [s.db, s.db] := h.1.trans hbegun
    have hrun : transaction (runInSubtransaction f) s = (s'.rollbackSub.commitTransaction, .error e) := by
      simp only [transaction, runInSubtransaction]
      rw [show s.startTransaction.beginSub = s.inJob from rfl, hr]
    have hcommit : s'.rollbackSub.commitTransaction = { s' with db := s.db, begun := [] } := by
      simp [WorkerSession.rollbackSub, WorkerSession.commitTransaction, hs']
    rw [hrun]
    exact ⟨by rw [hcommit, hs.begun], fun _ _ => by rw [hcommit], by rw [hcommit]; exact h.2⟩

theorem transaction_soiled (hs : s.Idle) (h : Soiled s.inJob (f s.inJob)) :
    ¬Hygienic s (transaction (runInSubtransaction f) s) := by
  have hlength : s.inJob.begun.length = 2 := by rw [inJob_begun hs]; rfl
  have hopen : ∀ (s' : WorkerSession δ) (o : Except String Json), 2 ≤ s'.begun.length →
      ¬Hygienic s (s'.commitTransaction, o) := by
    intro s' o htwo hyg
    have hdepth := hyg.depth
    rw [commit_of_two htwo, hs.begun] at hdepth
    simp only [List.length_nil] at hdepth
    omega
  simp only [transaction, runInSubtransaction]
  rw [show s.startTransaction.beginSub = s.inJob from rfl]
  rcases hr : f s.inJob with ⟨s', (e | v) | e⟩ <;> rw [hr] at h
  · simp only [Soiled, hlength] at h
    exact hopen s' _ h
  · simp only [Soiled, hlength] at h
    refine hopen s'.releaseSub _ ?_
    simp only [WorkerSession.releaseSub, List.length_tail]
    omega
  · rcases h with h | ⟨hbegun, htimer⟩
    · rw [hlength] at h
      refine hopen s'.rollbackSub _ ?_
      unfold WorkerSession.rollbackSub
      cases hb : s'.begun with
      | nil => simp [hb] at h
      | cons _ rest =>
        simp only [hb, List.length_cons] at h
        show 2 ≤ rest.length
        omega
    · intro hyg
      have hoff := hyg.disarmed
      have hs' : s'.begun = [s.db, s.db] := hbegun.trans (inJob_begun hs)
      have hcommit : s'.rollbackSub.commitTransaction = { s' with db := s.db, begun := [] } := by
        simp [WorkerSession.rollbackSub, WorkerSession.commitTransaction, hs']
      simp only [hcommit] at hoff
      simp [hoff] at htimer

theorem transaction_hygienic_iff (hs : s.Idle) {calm : Bool} (h : Graded s.inJob (f s.inJob) calm) :
    Hygienic s (transaction (runInSubtransaction f) s) ↔ calm = true := by
  cases calm with
  | true =>
    rw [Graded, if_pos rfl] at h
    exact ⟨fun _ => rfl, fun _ => transaction_clean hs h⟩
  | false =>
    rw [Graded, if_neg Bool.false_ne_true] at h
    exact ⟨fun hyg => absurd hyg (transaction_soiled hs h), nofun⟩

end Session

section Closures

variable {δ : Type} {P : PgServer δ} {s t : WorkerSession δ} {f : Closure δ} {next : WorkerSession δ → Bool}

/-- A session at the level, and with no timer, as `s`. -/
def Level (s t : WorkerSession δ) : Prop :=
  t.begun = s.begun ∧ t.timer = none

theorem prepared_graded {settings : List Statement} {refusal : String} (ht : Level s t)
    (h : ∀ u, Level s u → Graded s (f u) (next u)) :
    Graded s (prepared P settings refusal f t) (readies P settings t next) := by
  have hflat := prepare_flat P settings
  have hbegun := hflat.begun t
  have htimer := hflat.timer t ht.2
  unfold prepared readies
  rcases hr : prepare P settings t with ⟨u, (_ | _) | e⟩ <;> rw [hr] at hbegun htimer
  · exact graded_false (Nat.le_of_eq (by rw [← ht.1, ← hbegun]))
  · exact h u ⟨hbegun.trans ht.1, htimer⟩
  · exact graded_true ⟨hbegun.trans ht.1, htimer⟩

theorem runThen_graded {st : WorkerSession δ → Statement} (ht : Level s t)
    (h : ∀ u, Level s u → Graded s (f u) (next u)) :
    Graded s (runThen P st f t) (settles (spi P (st t) t) next) := by
  have hflat := spi_flat P (st t)
  have hbegun := hflat.begun t
  have htimer := hflat.timer t ht.2
  unfold runThen settles
  rcases hr : spi P (st t) t with ⟨u, (_ | _) | e⟩ <;> rw [hr] at hbegun htimer
  · exact graded_false (Nat.le_of_eq (by rw [← ht.1, ← hbegun]))
  · exact h u ⟨hbegun.trans ht.1, htimer⟩
  · exact graded_true ⟨hbegun.trans ht.1, htimer⟩

theorem returnNull_graded (ht : Level s t) : Graded s (returnNull t) true :=
  graded_true ht

/-- An error that is raised under the timer finds nobody who would disarm it. -/
theorem timedCall_graded {ms : Nat} {call : Statement} {whenNone : Except String Json} {needsValue : Bool}
    (hnone : needsValue = true ↔ ∃ e, whenNone = .error e) (ht : Level s t) :
    Graded s (timedCall P ms call whenNone t) (callSettles P call needsValue t) := by
  have hbegun : ∀ r : Reaction δ, ((t.enableTimeout ms).after r).begun = s.begun := fun _ => ht.1
  unfold timedCall callSettles spi
  rw [show (t.enableTimeout ms).clock = t.clock from rfl, show (t.enableTimeout ms).db = t.db from rfl]
  generalize P.exec t.clock call t.db = r at *
  rcases ho : r.outcome with (_ | v) | e | e
  · simp only [ho, SpiOutcome.ended, Option.isSome_none, Bool.false_or]
    cases needsValue with
    | true =>
      obtain ⟨e, he⟩ := hnone.mp rfl
      rw [he]
      exact graded_false (Nat.le_of_eq (congrArg List.length (hbegun r)).symm)
    | false =>
      cases hw : whenNone with
      | error e => exact absurd (hnone.mpr ⟨e, hw⟩) Bool.false_ne_true
      | ok v => exact graded_true ⟨hbegun r, rfl⟩
  · simp only [ho, SpiOutcome.ended, Option.isSome_some, Bool.true_or]
    exact graded_true ⟨hbegun r, rfl⟩
  · simp only [ho, SpiOutcome.ended]
    exact graded_false (Nat.le_of_eq (congrArg List.length (hbegun r)).symm)
  · simp only [ho, SpiOutcome.ended]
    cases hf : r.fired with
    | true => exact graded_true ⟨hbegun r, by simp [WorkerSession.after, hf]⟩
    | false =>
      refine graded_false (.inr ⟨hbegun r, ?_⟩)
      simp [WorkerSession.after, hf, WorkerSession.enableTimeout]

/-- What is left open stays open, whatever the last statement does. -/
theorem runThen_soiled {st : WorkerSession δ → Statement} (ht : s.begun.length < t.begun.length) :
    Soiled s (runThen P st returnNull t) := by
  have hbegun := (spi_flat P (st t)).begun t
  unfold runThen
  rcases hr : spi P (st t) t with ⟨u, (_ | _) | e⟩ <;> rw [hr] at hbegun
  · exact Nat.le_of_lt (by rwa [← hbegun] at ht)
  · exact (by rwa [← hbegun] at ht : s.begun.length < u.begun.length)
  · exact .inl (by rwa [← hbegun] at ht)

theorem createGuarded_graded {kind : RoutineKind} {sqlIdent body : String} (ht : Level s t) :
    Graded s (createGuarded P kind sqlIdent body t)
      (match spi P (create P kind sqlIdent (guardedSource sqlIdent body "") t.beginSub) t.beginSub with
      | (_, .returned (.ok _)) => true
      | (_, .returned (.error _)) => false
      | (u, .thrown _) =>
        settles (spi P (create P kind sqlIdent (guardedSource sqlIdent body ";") u.rollbackSub) u.rollbackSub)
          fun _ => true) := by
  have hflat := spi_flat P (create P kind sqlIdent (guardedSource sqlIdent body "") t.beginSub)
  have hbegun := hflat.begun t.beginSub
  have htimer := hflat.timer t.beginSub ht.2
  unfold createGuarded runInSubtransaction runThen
  rcases hr : spi P (create P kind sqlIdent (guardedSource sqlIdent body "") t.beginSub) t.beginSub
    with ⟨u, (_ | _) | e⟩ <;> rw [hr] at hbegun htimer <;> dsimp only at hbegun htimer
  · refine graded_false (runThen_soiled ?_)
    rw [hbegun, ← ht.1]
    exact Nat.lt_succ_self _
  · have hrelease : u.releaseSub.begun = t.begun := by
      unfold WorkerSession.releaseSub
      rw [hbegun]
      rfl
    exact graded_true ⟨hrelease.trans ht.1, htimer⟩
  · have hback : u.rollbackSub = { u with db := t.db, begun := t.begun } := by
      simp only [WorkerSession.rollbackSub, hbegun, WorkerSession.beginSub]
    have hlevel : Level s u.rollbackSub := by
      rw [hback]
      exact ⟨ht.1, htimer⟩
    exact runThen_graded hlevel fun v hv => returnNull_graded hv

theorem guardedBuild_graded {kind : RoutineKind} {sqlIdent body : String} (ht : Level s t) :
    Graded s (guardedBuild P kind sqlIdent body t)
      (readies P buildSettings t (buildSettles P kind sqlIdent body)) :=
  prepared_graded ht fun _ hu => runThen_graded hu fun _ hv => runThen_graded hv fun _ hw =>
    createGuarded_graded hw

end Closures

section Jobs

variable {δ : Type} {P : PgServer δ} {s : WorkerSession δ}

theorem refused_hygienic (hs : s.Idle) (e : String) : Hygienic s (s, .error e) :=
  ⟨rfl, fun _ _ => rfl, hs.timer⟩

theorem checked_hygienic_iff (hs : s.Idle) {ok : Bool} {f : Closure δ} {calm : Bool}
    (h : Graded s.inJob (f s.inJob) calm) :
    Hygienic s (if ok then transaction (runInSubtransaction f) s else (s, .error "invalid sql_ident")) ↔
      (!ok || calm) = true := by
  cases ok with
  | true => simpa using transaction_hygienic_iff hs h
  | false => simpa using refused_hygienic hs _

theorem runJob_hygienic_iff (hs : s.Idle) (job : PumpJob) :
    Hygienic s (runJob P s job) ↔ job.calm P s = true := by
  have hin : Level s.inJob s.inJob := ⟨rfl, inJob_timer hs⟩
  cases job with
  | sandboxedSql agentId sql pgRole =>
    exact transaction_hygienic_iff hs (prepared_graded hin fun _ hu => timedCall_graded (by simp) hu)
  | build kind sqlIdent body => exact checked_hygienic_iff hs (guardedBuild_graded hin)
  | functionCall callId sqlIdent args pgRole =>
    exact checked_hygienic_iff hs (prepared_graded hin fun _ hu => timedCall_graded (by simp) hu)
  | procedureCall callId sqlIdent args pgRole =>
    exact checked_hygienic_iff hs (prepared_graded hin fun _ hu => timedCall_graded (by simp) hu)

theorem Hygienic.idle (hs : s.Idle) {r : WorkerSession δ × Except String Json} (h : Hygienic s r) :
    r.1.Idle := by
  have hdepth := h.depth
  rw [hs.begun] at hdepth
  exact ⟨List.length_eq_zero_iff.mp hdepth, h.disarmed⟩

/-- The jobs of a run leave the session as they found it exactly if each of them is calm. -/
theorem runJobs_hygienic_iff (P : PgServer δ) (s : WorkerSession δ) (hs : s.Idle) (jobs : List PumpJob) :
    Along (jobStep P) (fun s job => Hygienic s (runJob P s job)) s jobs ↔
      Along (jobStep P) (fun s job => job.calm P s = true) s jobs := by
  induction jobs generalizing s with
  | nil => exact Iff.rfl
  | cons job jobs ih =>
    have hjob := runJob_hygienic_iff (P := P) hs job
    constructor
    · rintro ⟨hyg, hrest⟩
      exact ⟨hjob.mp hyg, (ih _ (hyg.idle hs)).mp hrest⟩
    · rintro ⟨hcalm, hrest⟩
      have hyg := hjob.mpr hcalm
      exact ⟨hyg, (ih _ (hyg.idle hs)).mpr hrest⟩

def quotient : String :=
  "fn_0123456789abcdef0123456789abcdef"

/-- A server that is made to divide by zero. `fn_run_sandboxed_sql` catches the error, a call of a
function does not. Its database counts the other statements. -/
def raisingServer : PgServer Nat where
  exec _ st n :=
    if st.sql = (functionStatement quotient .null).sql then ⟨n, .raised "division by zero", false⟩
    else if st.sql = (sandboxedCall "").sql then
      ⟨n, .ok (some (.object [("ok", .bool false), ("error", .str "division by zero")])), false⟩
    else ⟨n + 1, .ok (some (.bool true)), false⟩
  nanos n := n

/-- A server whose worker role is not ready. -/
def rolelessServer : PgServer Nat where
  exec _ _ n := ⟨n + 1, .ok (some (.bool false)), false⟩
  nanos n := n

theorem jobs_leave_timer_and_level :
    ¬Along (jobStep raisingServer) (fun s job => Hygienic s (runJob raisingServer s job)) ⟨0, [], none, 0⟩
        [.functionCall "call" quotient .null none] ∧
      ¬Along (jobStep rolelessServer) (fun s job => Hygienic s (runJob rolelessServer s job)) ⟨0, [], none, 0⟩
        [.sandboxedSql "agent" "SELECT 1" none] := by
  constructor
  · rintro ⟨hyg, -⟩
    have htimer := hyg.disarmed
    revert htimer
    decide +kernel
  · rintro ⟨hyg, -⟩
    have hdepth := hyg.depth
    revert hdepth
    decide +kernel

theorem refused_build_hygienic :
    Along (jobStep raisingServer) (fun s job => Hygienic s (runJob raisingServer s job)) ⟨0, [], none, 0⟩
      [.build .function quotient "BEGIN RETURN p_args; END", .build .procedure quotient "BEGIN END",
        .sandboxedSql "agent" "SELECT 1 / 0" none] :=
  (runJobs_hygienic_iff raisingServer ⟨0, [], none, 0⟩ ⟨rfl, rfl⟩ _).mpr (by decide +kernel)

end Jobs

end Allgres
