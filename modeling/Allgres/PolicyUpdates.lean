import Allgres.Decisions
import Allgres.ReadCommitted

/-! Policy updates in transactions. `fn_decide_proposal` compares the generation before
`fn_set_policy` locks the row: a proposal is applied to the generation it was made for
unless another update commits between the two. -/

namespace Allgres

open ReadCommitted Rows Runs

/-- A proposal whose change was written: the generation it found and whether it made a new
one. -/
structure Application where
  proposalId : Uuid
  target : Uuid
  baseGeneration : Nat
  generation : Nat
  changed : Bool

/-- The tables, and a record of the proposals applied. -/
structure PolicyDb where
  cfg : Config
  applied : List Application := []

inductive PolicyLock where
  | proposal (id : Uuid) | policy (agentId : Uuid)
  deriving DecidableEq

/-- The decision that a policy is written for. -/
structure Decision where
  row : ChangeProposal
  reply : Option String
  now : Time

inductive PolicyLoc where
  | decideProposal (id : Uuid) (approve : Option Bool) (reply : Option String) (now : Time)
  | readGeneration (d : Decision)
  | setPolicy (agentId : Uuid) (change : PolicyChange) (decision : Option Decision)
  | writePolicy (p : Policy) (change : PolicyChange) (decision : Option Decision)
  | settle (d : Decision) (status : ProposalStatus) (reply : Option String)
  | rollbackPolicy (agentId : Uuid) (generation : Nat)
  | done

namespace PolicyLoc

def entry : PolicyLoc → Bool
  | decideProposal .. => true
  | setPolicy _ _ none => true
  | rollbackPolicy .. => true
  | _ => false

def final : PolicyLoc → Bool
  | done => true
  | _ => false

def locks : PolicyLoc → PolicyDb → List PolicyLock
  | decideProposal id .., d => if (proposal? d.cfg id).isSome then [.proposal id] else []
  | setPolicy agentId .., d => if (d.cfg.policy? agentId).isSome then [.policy agentId] else []
  | _, _ => []

def newVersion (p : Policy) (change : PolicyChange) : Policy :=
  { change.apply p with
    generation := if (change.apply p).Same p then p.generation else p.generation + 1 }

def application (p : Policy) (change : PolicyChange) (d : Decision) : Application :=
  { proposalId := d.row.proposalId
    target := p.agentId
    baseGeneration := d.row.baseGeneration
    generation := p.generation
    changed := ¬ (change.apply p).Same p }

/-- The row that is locked, its copy in the history if it changes. -/
def write (p : Policy) (change : PolicyChange) (decision : Option Decision) (d : PolicyDb) : PolicyDb :=
  { cfg :=
      { d.cfg with
        policies := update (·.agentId = p.agentId) (fun _ => newVersion p change) d.cfg.policies
        policyHistory := if (change.apply p).Same p then d.cfg.policyHistory else d.cfg.policyHistory ++ [p] }
    applied := d.applied ++ (decision.map (application p change)).toList }

def settleIn (e : Decision) (status : ProposalStatus) (reply : Option String) (d : PolicyDb) :
    PolicyDb :=
  { d with cfg := settleProposal e.now e.row.proposalId status reply d.cfg }

def afterWrite : Option Decision → PolicyLoc
  | none => done
  | some d => settle d .approved d.reply

def exec : PolicyLoc → PolicyDb → Option (PolicyLoc × (PolicyDb → PolicyDb))
  | decideProposal id approve reply now, d => match proposal? d.cfg id with
    | none => none
    | some row =>
      if row.status ≠ .pending then none
      else if approve = some false then some (settle ⟨row, reply, now⟩ .rejected reply, fun d => d)
      else if row.kind = .policyChange then some (readGeneration ⟨row, reply, now⟩, fun d => d)
      -- the other kinds write no policy that exists
      else some (settle ⟨row, reply, now⟩ .approved reply, fun d => d)
  | readGeneration e, d =>
    if (d.cfg.policy? e.row.target).map (·.generation) = some e.row.baseGeneration then
      some (setPolicy e.row.target e.row.policyChange (some e), fun d => d)
    else
      let said := e.reply.getD "base policy changed since this was proposed"
      some (settle e .stale (some said), fun d => d)
  | setPolicy agentId change e, d =>
    (d.cfg.policy? agentId).map fun p => (writePolicy p change e, fun d => d)
  | writePolicy p change e, _ => (change.newRow p).toOption.map fun _ => (afterWrite e, write p change e)
  | settle e status reply, _ => some (done, settleIn e status reply)
  | rollbackPolicy agentId generation, d => (archived? d.cfg agentId generation).map fun h =>
      (setPolicy agentId h.restore none, fun d => d)
  | done, _ => none

end PolicyLoc

def policyCode : Code PolicyDb PolicyLoc PolicyLock where
  entry := PolicyLoc.entry
  final := PolicyLoc.final
  locks := PolicyLoc.locks
  exec := PolicyLoc.exec

def policyTables (c : Config) : List Policy × List Policy × List ChangeProposal :=
  (c.policies, c.policyHistory, c.changeProposals)

section Alone

variable (pg : Postgres) (now : Time) (c : Config)

theorem policyTables_sync : policyTables (syncCapabilityIndex pg now c) = policyTables c := by
  obtain ⟨ks, es, n, h⟩ := (syncCapabilityIndex_indexed pg now c).eq
  rw [h]
  rfl

/-- `fn_set_policy` writes what its statement writes. -/
theorem fnSetPolicy_tables {change : PolicyChange} {agentId : Uuid} {p q : Policy}
    (hp : c.policy? agentId = some p) (hq : change.newRow p = .ok q) : ∃ c' answer,
      fnSetPolicy pg now c agentId change = .ok (c', answer) ∧
        policyTables c' = policyTables (PolicyLoc.write p change none { cfg := c }).cfg := by
  have hid : p.agentId = agentId := by simpa using List.find?_some hp
  subst hid
  have happly := PolicyChange.apply_of_ok hq
  unfold fnSetPolicy
  rw [hp]
  dsimp only
  rw [hq]
  refine ⟨_, _, rfl, ?_⟩
  rw [policyTables_sync]
  by_cases hc : q.Same p
  · simp [policyTables, PolicyLoc.write, PolicyLoc.newVersion, happly, hc]
  · simp [policyTables, PolicyLoc.write, PolicyLoc.newVersion, happly, hc]

theorem fnSetPolicy_refused {change : PolicyChange} {agentId : Uuid} {p : Policy} {e : String}
    (hp : c.policy? agentId = some p) (he : change.newRow p = .error e) :
    fnSetPolicy pg now c agentId change = .error e := by
  unfold fnSetPolicy
  rw [hp]
  dsimp only
  rw [he]
  rfl

/-- Run alone, the statements of `fn_set_policy` are the function. -/
theorem setPolicy_alone (agentId : Uuid) (change : PolicyChange) :
    (policyCode.alone 3 (.setPolicy agentId change none) { cfg := c }).map (policyTables ·.cfg) =
      (fnSetPolicy pg now c agentId change).toOption.map (policyTables ·.1) := by
  cases hp : c.policy? agentId with
  | none => simp [Code.alone, policyCode, PolicyLoc.final, PolicyLoc.exec, fnSetPolicy, hp, Except.toOption]
  | some p =>
    cases hq : change.newRow p with
    | error e =>
      simp [Code.alone, policyCode, PolicyLoc.final, PolicyLoc.exec, fnSetPolicy_refused pg now c hp hq, hp,
        hq, Except.toOption]
    | ok q =>
      obtain ⟨c', answer, hok, htables⟩ := fnSetPolicy_tables pg now c hp hq
      simp [Code.alone, policyCode, PolicyLoc.final, PolicyLoc.exec, PolicyLoc.afterWrite, hp, hq, hok,
        htables, Except.toOption]

theorem rollbackPolicy_alone (agentId : Uuid) (generation : Nat) :
    (policyCode.alone 4 (.rollbackPolicy agentId generation) { cfg := c }).map (policyTables ·.cfg) =
      (fnRollbackPolicy pg now c agentId generation).toOption.map (policyTables ·.1) := by
  unfold fnRollbackPolicy
  cases hh : archived? c agentId generation with
  | none => simp [Code.alone, policyCode, PolicyLoc.final, PolicyLoc.exec, hh, Except.toOption]
  | some h =>
    rw [← setPolicy_alone]
    rw [Code.alone]
    simp only [policyCode, PolicyLoc.final, PolicyLoc.exec, hh, Option.map_some, Bool.false_eq_true,
      if_false]

theorem policyTables_settle {c' : Config} (h : policyTables c = policyTables c') (id : Uuid)
    (status : ProposalStatus) (reply : Option String) :
    policyTables (settleProposal now id status reply c) =
      policyTables (settleProposal now id status reply c') := by
  obtain ⟨hp, hh⟩ := Prod.mk.inj h
  obtain ⟨hh, hr⟩ := Prod.mk.inj hh
  simp only [policyTables, settleProposal, hp, hh, hr]

/-- Run alone on a proposal of a policy change, the statements are `fn_decide_proposal`. -/
theorem decideProposal_alone (calls : List Call) {r : ChangeProposal} (hr : proposal? c r.proposalId = some r)
    (hkind : r.kind = .policyChange) (approve : Option Bool) (reply : Option String) :
    (policyCode.alone 6 (.decideProposal r.proposalId approve reply now) { cfg := c }).map
        (policyTables ·.cfg) =
      (fnDecideProposal pg now c calls r.proposalId approve reply).toOption.map (policyTables ·.1) := by
  unfold fnDecideProposal
  rw [hr]
  by_cases hpend : r.status = .pending
  · by_cases hno : approve = some false
    · simp [Code.alone, policyCode, PolicyLoc.final, PolicyLoc.exec, PolicyLoc.settleIn, Raise.raiseIf,
        hr, hpend, hno, Except.toOption, bind, Except.bind, pure, Except.pure]
    · by_cases hgen : (c.policy? r.target).map (·.generation) = some r.baseGeneration
      · obtain ⟨p, hp, hpg⟩ := Option.map_eq_some_iff.mp hgen
        have hq : r.policyChange.newRow p = .ok (r.policyChange.row p _) :=
          PolicyChange.newRow_of_free (PolicyChange.violated_of_unbounded rfl rfl rfl rfl)
        obtain ⟨c', answer, hok, htables⟩ := fnSetPolicy_tables pg now c hp hq
        have hset := policyTables_settle now c' htables r.proposalId .approved reply
        simp [Code.alone, policyCode, PolicyLoc.final, PolicyLoc.exec, PolicyLoc.settleIn, Raise.raiseIf,
          PolicyLoc.afterWrite, approveProposal, approvePolicyChange, hkind, hp, hpg, hq, hok, hset, hr, hpend,
          hno, Except.toOption, bind, Except.bind, pure, Except.pure]
        rfl
      · simp [Code.alone, policyCode, PolicyLoc.final, PolicyLoc.exec, PolicyLoc.settleIn, Raise.raiseIf,
          approveProposal, approvePolicyChange, hkind, hr, hpend, hno, hgen, Except.toOption, bind,
          Except.bind, pure, Except.pure]
  · simp [Code.alone, policyCode, PolicyLoc.final, PolicyLoc.exec, Raise.raiseIf, hr, hpend,
      Except.toOption, bind, Except.bind]

end Alone

/-- The agent whose generation was compared, its row not yet locked. -/
def PolicyLoc.checked : PolicyLoc → Option Uuid
  | setPolicy agentId _ (some _) => some agentId
  | _ => none

def generation? (d : PolicyDb) (agentId : Uuid) : Option Nat :=
  (d.cfg.policy? agentId).map (·.generation)

/-- A transaction makes no new generation of the policy that the other has compared and not
locked. -/
def Undisturbed (d : PolicyDb) (t u : Txn PolicyDb PolicyLoc) : Prop :=
  ∀ agentId, u.loc.checked = some agentId → generation? (t.write d) agentId = generation? d agentId

structure Timely (d : PolicyDb) : Prop where
  matched : ∀ e ∈ d.applied, e.generation = e.baseGeneration
  older : ∀ e ∈ d.applied, e.changed = true → ∀ p, d.cfg.policy? e.target = some p →
    e.baseGeneration < p.generation
  once : d.applied.Pairwise fun e e' => e.target = e'.target →
    e.baseGeneration = e'.baseGeneration → e.changed = false

section Writes

variable {d : PolicyDb} {H I : PolicyLock → Prop} {t u : Txn PolicyDb PolicyLoc} {a : Uuid}

def policyAt (d : PolicyDb) (agentId : Uuid) : Option Policy :=
  d.cfg.policy? agentId

/-- Writes keep to the policies that are locked. -/
structure RowWrites (H : PolicyLock → Prop) (w : PolicyDb → PolicyDb) : Prop where
  rows : Local policyAt (fun a => H (.policy a)) w
  applied : ∃ new : List Application,
    (∀ d, (w d).applied = d.applied ++ new) ∧ ∀ e ∈ new, H (.policy e.target)

theorem rowWrites_of_same {w : PolicyDb → PolicyDb} (hp : ∀ d, (w d).cfg.policies = d.cfg.policies)
    (ha : ∀ d, (w d).applied = d.applied) : RowWrites H w where
  rows := local_of_same fun d a => by simp only [policyAt, Config.policy?, hp]
  applied := ⟨[], fun d => by simp [ha], by simp⟩

theorem RowWrites.weaken {w : PolicyDb → PolicyDb} (hw : RowWrites H w) (h : ∀ k, H k → I k) :
    RowWrites I w := by
  obtain ⟨new, hnew, hlocked⟩ := hw.applied
  exact ⟨hw.rows.weaken fun _ => h _, new, hnew, fun e he => h _ (hlocked e he)⟩

theorem RowWrites.comp {v w : PolicyDb → PolicyDb} (hw : RowWrites H w) (hv : RowWrites H v) :
    RowWrites H fun d => w (v d) := by
  obtain ⟨new, hnew, hlocked⟩ := hv.applied
  obtain ⟨more, hmore, hlocked'⟩ := hw.applied
  refine ⟨hw.rows.comp hv.rows, new ++ more, fun d => by rw [hmore, hnew, List.append_assoc],
    fun e he => ?_⟩
  rcases List.mem_append.mp he with he | he
  · exact hlocked e he
  · exact hlocked' e he

theorem policy?_replace (rows : List Policy) (row : Policy) (a : Uuid) :
    (update (·.agentId = row.agentId) (fun _ => row) rows).find? (·.agentId = a) =
      if a = row.agentId then (rows.find? (·.agentId = a)).map fun _ => row
      else rows.find? (·.agentId = a) :=
  find_replace (fun p : Policy => p.agentId) row rows a

theorem newVersion_agentId (p : Policy) (change : PolicyChange) :
    (PolicyLoc.newVersion p change).agentId = p.agentId :=
  PolicyChange.apply_agentId

theorem policy?_write (p : Policy) (change : PolicyChange) (e : Option Decision) (d : PolicyDb)
    (a : Uuid) : (PolicyLoc.write p change e d).cfg.policy? a =
      if a = p.agentId then (d.cfg.policy? a).map fun _ => PolicyLoc.newVersion p change
      else d.cfg.policy? a := by
  have h := policy?_replace d.cfg.policies (PolicyLoc.newVersion p change) a
  rw [newVersion_agentId] at h
  exact h

theorem rowWrites_write {p : Policy} {change : PolicyChange} {e : Option Decision}
    (hk : H (.policy p.agentId)) : RowWrites H (PolicyLoc.write p change e) where
  rows := local_at (a := p.agentId) hk (policy?_write p change e)
  applied := by
    refine ⟨(e.map (PolicyLoc.application p change)).toList, fun d => rfl, fun x hx => ?_⟩
    rw [Option.mem_toList] at hx
    obtain ⟨y, -, rfl⟩ := Option.map_eq_some_iff.mp hx
    exact hk

theorem le_newVersion (p : Policy) (change : PolicyChange) :
    p.generation ≤ (PolicyLoc.newVersion p change).generation := by
  rw [PolicyLoc.newVersion]
  split
  · exact Nat.le_refl _
  · exact Nat.le_succ _

theorem lt_newVersion {p : Policy} {change : PolicyChange} (h : ¬ (change.apply p).Same p) :
    p.generation < (PolicyLoc.newVersion p change).generation := by
  rw [PolicyLoc.newVersion, if_neg h]
  exact Nat.lt_succ_self _

/-- A policy is written in the generation the decision was made for, if there is one. -/
theorem Timely.write (h : Timely d) {p : Policy} {change : PolicyChange} {e : Option Decision}
    (hp : d.cfg.policy? p.agentId = some p)
    (he : ∀ x, e = some x → p.generation = x.row.baseGeneration) :
    Timely (PolicyLoc.write p change e d) := by
  have hnew : ∀ x ∈ (e.map (PolicyLoc.application p change)).toList,
      x.target = p.agentId ∧ x.generation = p.generation ∧ x.baseGeneration = p.generation ∧
        (x.changed = true → ¬ (change.apply p).Same p) := by
    intro x hx
    rw [Option.mem_toList] at hx
    obtain ⟨y, hy, rfl⟩ := Option.map_eq_some_iff.mp hx
    exact ⟨rfl, rfl, (he y hy).symm, fun hc => by simpa [PolicyLoc.application] using hc⟩
  have hrow : (PolicyLoc.write p change e d).cfg.policy? p.agentId =
      some (PolicyLoc.newVersion p change) := by
    rw [policy?_write, if_pos rfl, hp]
    rfl
  refine ⟨fun x hx => ?_, fun x hx hc q hq => ?_, List.pairwise_append.mpr ⟨h.once, ?_, ?_⟩⟩
  · rcases List.mem_append.mp hx with hx | hx
    · exact h.matched x hx
    · obtain ⟨-, hgen, hbase, -⟩ := hnew x hx
      rw [hgen, hbase]
  · rcases List.mem_append.mp hx with hx | hx
    · by_cases ht : x.target = p.agentId
      · rw [ht, hrow] at hq
        cases hq
        exact Nat.lt_of_lt_of_le (h.older x hx hc p (ht ▸ hp)) (le_newVersion p change)
      · rw [policy?_write, if_neg ht] at hq
        exact h.older x hx hc q hq
    · obtain ⟨ht, -, hbase, hch⟩ := hnew x hx
      rw [ht, hrow] at hq
      cases hq
      rw [hbase]
      exact lt_newVersion (hch hc)
  · cases e with
    | none => exact List.Pairwise.nil
    | some y => exact List.pairwise_singleton _ _
  · intro x hx y hy ht hb
    obtain ⟨hyt, -, hyb, -⟩ := hnew y hy
    by_contra hc
    have hlt := h.older x hx (by simpa using hc) p (by rw [ht, hyt, hp])
    rw [hb, hyb] at hlt
    exact Nat.lt_irrefl _ hlt

theorem Timely.same {d' : PolicyDb} (h : Timely d) (hp : d'.cfg.policies = d.cfg.policies)
    (ha : d'.applied = d.applied) : Timely d' := by
  refine ⟨fun e he => h.matched e (ha ▸ he), fun e he hc p hq => h.older e (ha ▸ he) hc p ?_,
    ha ▸ h.once⟩
  simpa only [Config.policy?, hp] using hq

/-- What is known of the policy at a place. -/
def PolicyLoc.Knows (loc : PolicyLoc) (H : PolicyLock → Prop) (view : PolicyDb) : Prop :=
  match loc with
  | setPolicy agentId _ (some e) => generation? view agentId = some e.row.baseGeneration
  | writePolicy p _ e => H (.policy p.agentId) ∧ policyAt view p.agentId = some p ∧
      ∀ x, e = some x → p.generation = x.row.baseGeneration
  | _ => True

structure Updating (d : PolicyDb) (H : PolicyLock → Prop) (t : Txn PolicyDb PolicyLoc) : Prop where
  writes : RowWrites H t.write
  timely : Timely (t.write d)
  knows : t.loc.Knows H (t.write d)

theorem Updating.pass (h : Updating d H t) {loc : PolicyLoc} {ks : List PolicyLock}
    (hk : loc.Knows (fun k => k ∈ ks ∨ H k) (t.write d)) :
    Updating d (fun k => k ∈ ks ∨ H k) ⟨loc, fun d => t.write d⟩ :=
  ⟨h.writes.weaken fun _ => .inr, h.timely, hk⟩

theorem knows_afterWrite (e : Option Decision) (view : PolicyDb) :
    (PolicyLoc.afterWrite e).Knows H view := by
  cases e <;> trivial

theorem Updating.exec (h : Updating d H t) {loc : PolicyLoc} {w : PolicyDb → PolicyDb}
    (he : t.loc.exec (t.write d) = some (loc, w)) :
    Updating d (fun k => k ∈ t.loc.locks (t.write d) ∨ H k) ⟨loc, fun d => w (t.write d)⟩ := by
  obtain ⟨tloc, twrite⟩ := t
  cases tloc with
  | decideProposal id approve reply now =>
    dsimp only [PolicyLoc.exec] at he
    split at he
    · cases he
    · split_ifs at he <;> cases he <;> exact h.pass trivial
  | readGeneration e =>
    dsimp only [PolicyLoc.exec] at he
    split_ifs at he with hgen
    · cases he
      exact h.pass hgen
    · cases he
      exact h.pass trivial
  | setPolicy agentId change e =>
    obtain ⟨p, hp, hpair⟩ := Option.map_eq_some_iff.mp he
    cases hpair
    have hid : p.agentId = agentId := by simpa using List.find?_some hp
    subst hid
    refine h.pass ⟨.inl ?_, hp, fun x hx => ?_⟩
    · dsimp only at hp
      simp [PolicyLoc.locks, hp]
    · subst hx
      have hgen : generation? (twrite d) p.agentId = some x.row.baseGeneration := h.knows
      dsimp only at hp
      simpa [generation?, hp] using hgen
  | writePolicy p change e =>
    obtain ⟨q, -, hpair⟩ := Option.map_eq_some_iff.mp he
    cases hpair
    obtain ⟨hk, hp, hgen⟩ := h.knows
    refine ⟨(rowWrites_write (.inr hk)).comp (h.writes.weaken fun _ => .inr), h.timely.write hp hgen,
      knows_afterWrite e _⟩
  | settle e status reply =>
    cases he
    have hw : RowWrites (fun k => k ∈ [] ∨ H k) (PolicyLoc.settleIn e status reply) :=
      rowWrites_of_same (fun _ => rfl) fun _ => rfl
    exact ⟨hw.comp (h.writes.weaken fun _ => .inr), h.timely.same rfl rfl, trivial⟩
  | rollbackPolicy agentId generation =>
    obtain ⟨p, hp, hpair⟩ := Option.map_eq_some_iff.mp he
    cases hpair
    exact h.pass trivial
  | done => cases he

theorem Updating.apart (ht : Updating d H t) (hu : Updating d I u) (hd : ∀ k, H k → ¬ I k)
    (hsame : Undisturbed d t u) : Updating (t.write d) I u := by
  have hmine : ∀ a, I (.policy a) → policyAt (u.write (t.write d)) a = policyAt (u.write d) a :=
    fun a hi => hu.writes.rows.congr (ht.writes.rows.same fun hh => hd _ hh hi)
  have hother : ∀ a, ¬ I (.policy a) → policyAt (u.write (t.write d)) a = policyAt (t.write d) a :=
    fun a hi => hu.writes.rows.same hi
  obtain ⟨new, hnew, hlocked⟩ := ht.writes.applied
  obtain ⟨more, hmore, hlocked'⟩ := hu.writes.applied
  have hall : (u.write (t.write d)).applied = d.applied ++ new ++ more := by rw [hmore, hnew]
  have htd : (t.write d).applied = d.applied ++ new := hnew d
  have hud : (u.write d).applied = d.applied ++ more := hmore d
  refine ⟨hu.writes, ⟨fun e he => ?_, fun e he hc p hp => ?_, ?_⟩, ?_⟩
  · rw [hall] at he
    rcases List.mem_append.mp he with he | he
    · exact ht.timely.matched e (htd ▸ he)
    · exact hu.timely.matched e (by rw [hud]; exact List.mem_append_right _ he)
  · rw [hall] at he
    have hp' : policyAt (u.write (t.write d)) e.target = some p := hp
    by_cases hi : I (.policy e.target)
    · rw [hmine e.target hi] at hp'
      rcases List.mem_append.mp he with he | he
      · rcases List.mem_append.mp he with he | he
        · exact hu.timely.older e (by rw [hud]; exact List.mem_append_left _ he) hc p hp'
        · exact absurd hi (hd _ (hlocked e he))
      · exact hu.timely.older e (by rw [hud]; exact List.mem_append_right _ he) hc p hp'
    · rw [hother e.target hi] at hp'
      rcases List.mem_append.mp he with he | he
      · exact ht.timely.older e (htd ▸ he) hc p hp'
      · exact absurd (hlocked' e he) hi
  · rw [hall]
    have hut := hu.timely.once
    have htt := ht.timely.once
    rw [hud, List.pairwise_append] at hut
    rw [htd] at htt
    refine List.pairwise_append.mpr ⟨htt, hut.2.1, fun e he e' he' => ?_⟩
    rcases List.mem_append.mp he with he | he
    · exact hut.2.2 e he e' he'
    · intro htarget
      exact absurd (hlocked' e' he') (htarget ▸ hd _ (hlocked e he))
  · obtain ⟨uloc, uwrite⟩ := u
    cases uloc with
    | setPolicy agentId change e =>
      cases e with
      | none => trivial
      | some e =>
        have hgen : generation? (uwrite d) agentId = some e.row.baseGeneration := hu.knows
        show generation? (uwrite (t.write d)) agentId = some e.row.baseGeneration
        rw [← hgen]
        by_cases hi : I (.policy agentId)
        · exact congrArg (Option.map (·.generation)) (hmine agentId hi)
        · have hout := congrArg (Option.map Policy.generation) (hother agentId hi)
          have hin := congrArg (Option.map Policy.generation) (hu.writes.rows.same (d := d) hi)
          exact hout.trans ((hsame agentId rfl).trans hin.symm)
    | writePolicy p change e =>
      obtain ⟨hi, hp, hgen⟩ := hu.knows
      exact ⟨hi, (hmine p.agentId hi).trans hp, hgen⟩
    | _ => trivial

theorem knows_entry {loc : PolicyLoc} (h : loc.entry = true) (view : PolicyDb) : loc.Knows H view := by
  cases loc with
  | setPolicy agentId change e =>
    cases e with
    | none => trivial
    | some e => cases h
  | writePolicy p change e => cases h
  | _ => trivial

theorem policy_outline : Outline policyCode Undisturbed Timely Updating where
  fresh hd _ hloc := ⟨rowWrites_of_same (fun _ => rfl) fun _ => rfl, hd, knows_entry hloc _⟩
  again _ ht _ hloc := ⟨ht.writes, ht.timely, knows_entry hloc _⟩
  exec _ ht _ he := ht.exec he
  commit _ ht _ := ht.timely
  apart hq _ ht hu _ hd := ht.apart hu hd hq

end Writes

/-- A decision that is about to write a policy changes it. -/
def PolicyLoc.changes : PolicyLoc → Bool
  | writePolicy p change (some _) => ¬ (change.apply p).Same p
  | _ => true

theorem exec_changed {loc loc' : PolicyLoc} {d : PolicyDb} {w : PolicyDb → PolicyDb}
    (hloc : loc.changes = true) (he : loc.exec d = some (loc', w)) (d' : PolicyDb)
    (hd : ∀ e ∈ d'.applied, e.changed = true) : ∀ e ∈ (w d').applied, e.changed = true := by
  cases loc with
  | writePolicy p change decision =>
    obtain ⟨q, -, hpair⟩ := Option.map_eq_some_iff.mp he
    cases hpair
    intro e hin
    rcases List.mem_append.mp hin with hin | hin
    · exact hd e hin
    · rw [Option.mem_toList] at hin
      obtain ⟨x, rfl, rfl⟩ := Option.map_eq_some_iff.mp hin
      exact hloc
  | decideProposal id approve reply now =>
    dsimp only [PolicyLoc.exec] at he
    split at he
    · cases he
    · split_ifs at he <;> cases he <;> exact hd
  | readGeneration e =>
    dsimp only [PolicyLoc.exec] at he
    split_ifs at he <;> cases he <;> exact hd
  | setPolicy agentId change e =>
    obtain ⟨p, -, hpair⟩ := Option.map_eq_some_iff.mp he
    cases hpair
    exact hd
  | settle e status reply =>
    cases he
    exact hd
  | rollbackPolicy agentId generation =>
    obtain ⟨p, -, hpair⟩ := Option.map_eq_some_iff.mp he
    cases hpair
    exact hd
  | done => cases he

/-- In every interleaving in which no commit makes a new generation between the comparison
and the lock of a decision, a proposal is applied to the generation it was made for; and if no
proposal is approved that changes nothing, at most one of a generation is ever applied. -/
theorem proposals_applied_in_generation (c : Config) (es : List (Event PolicyLoc))
    (hc : Along (step policyCode) (Spares policyCode Undisturbed) { db := { cfg := c } } es) :
    (∀ e ∈ (run (step policyCode) { db := { cfg := c } } es).db.applied,
      e.generation = e.baseGeneration) ∧
    (Along (step policyCode) (Places PolicyLoc.changes) { db := { cfg := c } } es →
      (run (step policyCode) { db := { cfg := c } } es).db.applied.Pairwise fun e e' =>
        ¬ (e.target = e'.target ∧ e.baseGeneration = e'.baseGeneration)) := by
  have hstart : Timely { cfg := c } := ⟨by simp, by simp, List.Pairwise.nil⟩
  have hok : Ok Timely Updating (run (step policyCode) { db := { cfg := c } } es) :=
    policy_outline.run hstart hc
  refine ⟨hok.db.matched, fun hmeant => ?_⟩
  have hnone : ∀ e ∈ ({ cfg := c } : PolicyDb).applied, e.changed = true := by simp
  have hchanged := kept_run (G := fun d : PolicyDb => ∀ e ∈ d.applied, e.changed = true) hnone
    (fun _ _ _ _ hloc he d' hd => exec_changed hloc he d' hd) hmeant
  refine hok.db.once.imp_of_mem fun he _ honce hsame => ?_
  have hidle := honce hsame.1 hsame.2
  rw [hchanged _ he] at hidle
  cases hidle

/-- A policy with two proposals for its first generation. -/
def twoProposals : Config where
  policies := [{ agentId := 1, systemPrompt := "old" }]
  changeProposals := [
    { proposalId := 10
      agentId := 1
      taskId := 5
      proposedChanges := .object [("system_prompt", .str "a")]
      baseGeneration := 1 },
    { proposalId := 11
      agentId := 1
      taskId := 5
      proposedChanges := .object [("system_prompt", .str "b")]
      baseGeneration := 1 }]

def approve (i : Nat) (id : Uuid) : Event PolicyLoc :=
  .call i (.decideProposal id (some true) none 1)

/-- The second decision begins before the first commits. -/
def oneAfterOther : List (Event PolicyLoc) :=
  [approve 0 10, .exec 0, .exec 0, .exec 0, .exec 0, .exec 0, approve 1 11, .exec 1, .commit 0,
    .exec 1, .exec 1, .commit 1]

theorem second_proposal_stale :
    let db := (run (step policyCode) { db := { cfg := twoProposals } } oneAfterOther).db
    (∀ e ∈ db.applied, e.generation = e.baseGeneration) ∧
    (db.applied.Pairwise fun e e' =>
      ¬ (e.target = e'.target ∧ e.baseGeneration = e'.baseGeneration)) ∧
    db.cfg.changeProposals.map (·.status) = [.approved, .stale] := by
  -- when the first commits, the second has not compared the generation
  have hfirst : Spares policyCode Undisturbed
      (run (step policyCode) { db := { cfg := twoProposals } } (oneAfterOther.take 8)) (.commit 0) := by
    refine spares_beside (j := 1) (P := fun u => u.loc.checked = none) (by decide +kernel)
      (fun k hk hk' => live_run_lt (n := 1) (by decide) (by omega)) fun t u _ hplace agentId hagent => ?_
    rw [of_decide_eq_true hplace] at hagent
    cases hagent
  have hsecond : Spares policyCode Undisturbed
      (run (step policyCode) { db := { cfg := twoProposals } } (oneAfterOther.take 11)) (.commit 1) :=
    spares_last (j := 0) (by decide +kernel) fun k hk hk' => live_run_lt (n := 1) (by decide) (by omega)
  have halong : Along (step policyCode) (Spares policyCode Undisturbed)
      { db := { cfg := twoProposals } } oneAfterOther :=
    ⟨trivial, trivial, trivial, trivial, trivial, trivial, trivial, trivial, hfirst, trivial, trivial,
      hsecond, trivial⟩
  have happlied := proposals_applied_in_generation twoProposals oneAfterOther halong
  exact ⟨happlied.1, happlied.2 (by decide +kernel), by decide +kernel⟩

/-- Both decisions compared the generation before either locked the policy. -/
theorem both_proposals_applied :
    ¬ ∀ (c : Config) (es : List (Event PolicyLoc)),
      (∀ e ∈ (run (step policyCode) { db := { cfg := c } } es).db.applied,
        e.generation = e.baseGeneration) ∧
      (run (step policyCode) { db := { cfg := c } } es).db.applied.Pairwise fun e e' =>
        ¬ (e.target = e'.target ∧ e.baseGeneration = e'.baseGeneration) := by
  intro h
  have hrun := (h twoProposals [approve 1 11, .exec 1, .exec 1, approve 0 10, .exec 0, .exec 0, .exec 0,
    .exec 0, .exec 0, .commit 0, .exec 1, .exec 1, .exec 1, .commit 1]).1
  exact absurd hrun (by decide +kernel)

end Allgres
