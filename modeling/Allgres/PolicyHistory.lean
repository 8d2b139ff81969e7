import Allgres.Machine
import Allgres.PolicyUpdates
import Allgres.Versions

/-! The versions of a policy, and their restoration. -/

namespace Allgres

open Raise Rows Runs Versions

inductive PolicyCall where
  | set (now : Time) (agentId : Uuid) (change : PolicyChange)
  | rollback (now : Time) (agentId : Uuid) (generation : Nat)
  | decide (now : Time) (calls : List Call) (id : Uuid) (approve : Option Bool) (reply : Option String)
  | elsewhere (change : Config → Config)

def archivedPolicies (agentId : Uuid) (c : Config) : List Policy :=
  c.policyHistory.filter (·.agentId = agentId)

/-- The versions of an agent's policy, if it has one. -/
def policyLine (agentId : Uuid) (c : Config) : Option (Line Policy) :=
  (c.policy? agentId).map fun p => ⟨p, archivedPolicies agentId c⟩

/-- The configuration a call leaves, or the one it found if it raises. -/
def afterCall {α : Type} (c : Config) (x : Except String (Config × α)) : Config :=
  (x.map (·.1)).toOption.getD c

/-- A call of the policy functions. Other code leaves the versions of the agent alone. -/
def policyCall (pg : Postgres) (agentId : Uuid) (c : Config) : PolicyCall → Config
  | .set now id change => afterCall c (fnSetPolicy pg now c id change)
  | .rollback now id generation => afterCall c (fnRollbackPolicy pg now c id generation)
  | .decide now calls id approve reply =>
    if (proposal? c id).any (·.kind = .policyChange) then
      afterCall c (fnDecideProposal pg now c calls id approve reply)
    else c
  | .elsewhere change => if policyLine agentId (change c) = policyLine agentId c then change c else c

/-- The fields other than the generation are the same. -/
def Policy.SameFields (p q : Policy) : Prop :=
  { p with generation := q.generation } = q

/-- The row that a change makes of a policy. -/
def NewPolicy (p q : Policy) : Prop :=
  ∃ change : PolicyChange, q = PolicyLoc.newVersion p change

section Step

variable {c c' : Config} {agentId : Uuid} {l : Line Policy} {pg : Postgres} {now : Time}

theorem policyLine_eq_some : policyLine agentId c = some l ↔
    c.policy? agentId = some l.live ∧ archivedPolicies agentId c = l.archive := by
  unfold policyLine
  constructor
  · intro h
    obtain ⟨p, hp, rfl⟩ := Option.map_eq_some_iff.mp h
    exact ⟨hp, rfl⟩
  · rintro ⟨hp, ha⟩
    rw [hp, ha]
    rfl

theorem policyLine_of_tables (h : policyTables c' = policyTables c) :
    policyLine agentId c' = policyLine agentId c := by
  obtain ⟨hp, hh⟩ := Prod.mk.inj h
  obtain ⟨hh, -⟩ := Prod.mk.inj hh
  simp only [policyLine, Config.policy?, archivedPolicies, hp, hh]

/-- The calls take the versions of every agent to the next ones. -/
def NextLine (agentId : Uuid) (c c' : Config) : Prop :=
  ∀ l, policyLine agentId c = some l →
    ∃ l', policyLine agentId c' = some l' ∧ Advance Policy.generation Policy.Same NewPolicy l l'

theorem nextLine_of_eq (h : policyLine agentId c' = policyLine agentId c) : NextLine agentId c c' :=
  fun l hl => ⟨l, h.trans hl, .keep⟩

/-- The statement of `fn_set_policy` that writes a policy. -/
theorem nextLine_write {p : Policy} (hp : c.policy? p.agentId = some p) (change : PolicyChange) :
    NextLine agentId c (PolicyLoc.write p change none { cfg := c }).cfg := by
  intro l hl
  obtain ⟨hlive, harchive⟩ := policyLine_eq_some.mp hl
  have hrow := policy?_write p change none { cfg := c } agentId
  by_cases ha : agentId = p.agentId
  · have hlp : l.live = p := by simpa [← ha, hlive] using hp
    have hnext : (PolicyLoc.write p change none { cfg := c }).cfg.policy? agentId =
        some (PolicyLoc.newVersion p change) := by
      rw [hrow, if_pos ha, hlive]
      rfl
    by_cases hsame : (change.apply p).Same p
    · have hgen : (PolicyLoc.newVersion p change).generation = l.live.generation := by
        rw [PolicyLoc.newVersion, if_pos hsame, hlp]
      have hhist : archivedPolicies agentId (PolicyLoc.write p change none { cfg := c }).cfg = l.archive := by
        simpa [archivedPolicies, PolicyLoc.write, hsame] using harchive
      exact ⟨⟨PolicyLoc.newVersion p change, l.archive⟩, policyLine_eq_some.mpr ⟨hnext, hhist⟩,
        .restate _ hgen (hlp.symm ▸ hsame) ⟨change, by rw [hlp]⟩⟩
    · have hgen : (PolicyLoc.newVersion p change).generation = l.live.generation + 1 := by
        rw [PolicyLoc.newVersion, if_neg hsame, hlp]
      have hhist : archivedPolicies agentId (PolicyLoc.write p change none { cfg := c }).cfg =
          l.archive ++ [l.live] := by
        simp [archivedPolicies, PolicyLoc.write, hsame, ← harchive, ← ha, hlp]
      exact ⟨⟨PolicyLoc.newVersion p change, l.archive ++ [l.live]⟩, policyLine_eq_some.mpr ⟨hnext, hhist⟩,
        .cut _ hgen (hlp.symm ▸ hsame) ⟨change, by rw [hlp]⟩⟩
  · have hne : ¬ p.agentId = agentId := fun h => ha h.symm
    have hhist : archivedPolicies agentId (PolicyLoc.write p change none { cfg := c }).cfg = l.archive := by
      by_cases hsame : (change.apply p).Same p
      · simpa [archivedPolicies, PolicyLoc.write, hsame] using harchive
      · simpa [archivedPolicies, PolicyLoc.write, hsame, hne] using harchive
    refine ⟨l, policyLine_eq_some.mpr ⟨?_, hhist⟩, .keep⟩
    rw [hrow, if_neg ha]
    exact hlive

theorem nextLine_fnSetPolicy (c : Config) (id : Uuid) (change : PolicyChange) :
    Returns (fun x => NextLine agentId c x.1) (fnSetPolicy pg now c id change) := by
  intro x hx
  obtain ⟨c', answer⟩ := x
  cases hp : c.policy? id with
  | none => simp [fnSetPolicy, hp] at hx
  | some p =>
    have hid : p.agentId = id := by simpa using List.find?_some hp
    cases hq : change.newRow p with
    | error e => simp [fnSetPolicy_refused pg now c hp hq] at hx
    | ok q =>
      obtain ⟨d, reply, hok, htables⟩ := fnSetPolicy_tables pg now c hp hq
      rw [hok, Except.ok.injEq, Prod.mk.injEq] at hx
      obtain ⟨rfl, -⟩ := hx
      intro l hl
      obtain ⟨l', hl', hadv⟩ := nextLine_write (hid.symm ▸ hp) change l hl
      exact ⟨l', (policyLine_of_tables htables).trans hl', hadv⟩

theorem nextLine_fnRollbackPolicy (c : Config) (id : Uuid) (generation : Nat) :
    Returns (fun x => NextLine agentId c x.1) (fnRollbackPolicy pg now c id generation) := by
  unfold fnRollbackPolicy
  split
  · exact returns_error _
  · exact nextLine_fnSetPolicy c id _

theorem NextLine.settle (h : NextLine agentId c c') (id : Uuid) (status : ProposalStatus)
    (reply : Option String) : NextLine agentId c (settleProposal now id status reply c') :=
  h

theorem nextLine_fnDecideProposal (c : Config) (calls : List Call) {id : Uuid} {r : ChangeProposal}
    (hr : proposal? c id = some r) (hkind : r.kind = .policyChange) (approve : Option Bool)
    (reply : Option String) :
    Returns (fun x => NextLine agentId c x.1) (fnDecideProposal pg now c calls id approve reply) := by
  have hsame : NextLine agentId c c := nextLine_of_eq rfl
  unfold fnDecideProposal
  rw [hr]
  refine returns_seq fun _ => returns_ite (fun _ => ?_) fun _ => ?_
  · exact returns_pure (hsame.settle _ _ _)
  · simp only [approveProposal, hkind, approvePolicyChange]
    refine returns_ite (fun _ => ?_) fun _ => ?_
    · exact returns_pure (hsame.settle _ _ _)
    · exact returns_bind (nextLine_fnSetPolicy c _ _) fun x hx => returns_pure (hx.settle _ _ _)

theorem nextLine_afterCall {α : Type} {x : Except String (Config × α)}
    (h : Returns (fun r => NextLine agentId c r.1) x) : NextLine agentId c (afterCall c x) := by
  cases x with
  | error e => exact nextLine_of_eq rfl
  | ok r => exact h r rfl

theorem policyCall_tracks (pg : Postgres) (agentId : Uuid) :
    Tracks (policyCall pg agentId) (policyLine agentId) Policy.generation Policy.Same NewPolicy := by
  intro c call
  change NextLine agentId c (policyCall pg agentId c call)
  cases call with
  | set now id change => exact nextLine_afterCall (nextLine_fnSetPolicy c id change)
  | rollback now id generation => exact nextLine_afterCall (nextLine_fnRollbackPolicy c id generation)
  | decide now calls id approve reply =>
    dsimp only [policyCall]
    split_ifs with hkind
    · obtain ⟨r, hr, hrk⟩ := (Option.any_eq_true _ _).mp hkind
      have hpolicy : r.kind = .policyChange := by simpa using hrk
      exact nextLine_afterCall (nextLine_fnDecideProposal c calls hr hpolicy approve reply)
    · exact nextLine_of_eq rfl
  | elsewhere change =>
    dsimp only [policyCall]
    split_ifs with hkeep
    · exact nextLine_of_eq hkeep
    · exact nextLine_of_eq rfl

end Step

section History

variable {c : Config} {agentId : Uuid} {p : Policy} {pg : Postgres}

theorem policyLine_start (hp : c.policy? agentId = some p) (hnone : archivedPolicies agentId c = []) :
    policyLine agentId c = some ⟨p, []⟩ :=
  policyLine_eq_some.mpr ⟨hp, hnone⟩

theorem complete_start (hgen : p.generation = 1) : Complete Policy.generation ⟨p, []⟩ := by
  rw [Complete, hgen]
  simp [Line.versions, hgen]

/-- The policies of an agent after some of the calls of a run. -/
def LiveDuring (pg : Postgres) (agentId : Uuid) (c : Config) (calls : List PolicyCall) (q : Policy) :
    Prop :=
  ∃ before after, calls = before ++ after ∧
    (run (policyCall pg agentId) c before).policy? agentId = some q

/-- A policy that was live is among the versions, up to what `=` does not tell apart. -/
theorem LiveDuring.kept (hp : c.policy? agentId = some p) (hnone : archivedPolicies agentId c = [])
    {calls : List PolicyCall} {l : Line Policy}
    (hl : policyLine agentId (run (policyCall pg agentId) c calls) = some l) {q : Policy}
    (hq : LiveDuring pg agentId c calls q) :
    ∃ v ∈ l.versions, v.generation = q.generation ∧ v.Same q := by
  obtain ⟨before, after, rfl, hq⟩ := hq
  have ht := policyCall_tracks pg agentId
  obtain ⟨m, hm, -⟩ := ht.run (policyLine_start hp hnone) before
  have hlive : m.live = q := by simpa [hq] using (policyLine_eq_some.mp hm).1.symm
  rw [run_append] at hl
  exact hlive ▸ ht.kept Policy.same_equivalence hm after hl

theorem liveDuring_of_version (hp : c.policy? agentId = some p) (hnone : archivedPolicies agentId c = [])
    {calls : List PolicyCall} {l : Line Policy}
    (hl : policyLine agentId (run (policyCall pg agentId) c calls) = some l) {q : Policy}
    (hq : q ∈ l.versions) : LiveDuring pg agentId c calls q := by
  rcases (policyCall_tracks pg agentId).lived (policyLine_start hp hnone) calls hl hq with
    hfirst | ⟨before, after, m, hsplit, hm, rfl⟩
  · have hqp : q = p := by simpa [Line.versions] using hfirst
    exact ⟨[], calls, rfl, hqp ▸ hp⟩
  · exact ⟨before, after, hsplit, (policyLine_eq_some.mp hm).1⟩

/-- After any calls, the history of an agent's policy holds one row of each earlier generation,
one that was live in it and is not distinct from any other that was, and a further call makes a
new generation exactly when it changes a field. -/
theorem policy_history_complete (pg : Postgres) (agentId : Uuid) (c : Config) (p : Policy)
    (hp : c.policy? agentId = some p) (hgen : p.generation = 1)
    (hnone : archivedPolicies agentId c = []) (calls : List PolicyCall) :
    ∃ q, (run (policyCall pg agentId) c calls).policy? agentId = some q ∧
      (archivedPolicies agentId (run (policyCall pg agentId) c calls)).map (·.generation) =
        List.range' 1 (q.generation - 1) ∧
      (∀ h ∈ archivedPolicies agentId (run (policyCall pg agentId) c calls),
        LiveDuring pg agentId c calls h ∧
          ∀ r, LiveDuring pg agentId c calls r → r.generation = h.generation → r.Same h) ∧
      ∀ call, ∃ r,
        (policyCall pg agentId (run (policyCall pg agentId) c calls) call).policy? agentId = some r ∧
          (r.generation = q.generation + 1 ↔ ¬ r.Same q) ∧
            (r.generation = q.generation ↔ r.Same q) := by
  have ht := policyCall_tracks pg agentId
  obtain ⟨l, hl, -, hcomplete⟩ := ht.run (policyLine_start hp hnone) calls
  have hc : Complete Policy.generation l := hcomplete (complete_start hgen)
  obtain ⟨hlive, harchive⟩ := policyLine_eq_some.mp hl
  refine ⟨l.live, hlive, harchive ▸ hc.archive, fun h hh => ?_, fun call => ?_⟩
  · have hmem : h ∈ l.versions := List.mem_append_left _ (harchive ▸ hh)
    refine ⟨liveDuring_of_version hp hnone hl hmem, fun r hr hrh => ?_⟩
    obtain ⟨v, hv, hvr, hsame⟩ := hr.kept hp hnone hl
    obtain rfl := hc.eq hv hmem (hvr.trans hrh)
    exact Policy.same_equivalence.symm hsame
  · obtain ⟨l', hl', hadv⟩ := ht _ call l hl
    exact ⟨l'.live, (policyLine_eq_some.mp hl').1, hadv.raised (Policy.same_equivalence.refl _)⟩

/-- An agent as it is created. -/
def newAgent : Config where
  agents := [{ agentId := 1, name := "writer" }]
  policies := [{ agentId := 1, systemPrompt := "write" }]
  nextId := 9

/-- A temperature, the same with another scale, and back to the first version. -/
def edits : List PolicyCall :=
  [.set 1 1 { llmConfig := some (.object [("temperature", .num "0.5")]) },
    .set 2 1 { llmConfig := some (.object [("temperature", .num "0.50")]) },
    .set 3 1 { maxSteps := some 7 }, .rollback 4 1 1]

theorem edits_recorded : ∃ q,
    (run (policyCall bareServer 1) newAgent edits).policy? 1 = some q ∧
      (archivedPolicies 1 (run (policyCall bareServer 1) newAgent edits)).map (·.generation) =
        List.range' 1 (q.generation - 1) := by
  obtain ⟨q, hq, hgens, -⟩ := policy_history_complete bareServer 1 newAgent
    { agentId := 1, systemPrompt := "write" } rfl rfl rfl edits
  exact ⟨q, hq, hgens⟩

end History

end Allgres
