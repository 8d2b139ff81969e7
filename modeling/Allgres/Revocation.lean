import Allgres.Machine

/-! Grants and revocations over time. A reference is looked up in lower case and revoked in
the spelling it is given: another spelling that was granted stays in force. -/

namespace Allgres

open Runs

inductive GrantCall where
  | grant (agentId : Uuid) (type ref : Option String)
  | revoke (agentId : Uuid) (type ref : Option String)
  | fix (now : Time) (kind : FixKind) (target : Uuid) (detail : Json)

/-- A call that raises changes nothing. -/
def grantStep (pg : Postgres) (c : Config) : GrantCall → Config
  | .grant agentId type ref => ((fnGrantPermission c agentId type ref).map (·.1)).toOption.getD c
  | .revoke agentId type ref => (fnRevokePermission c agentId type ref).1
  | .fix now kind target detail => ((applyFix pg now c kind target detail).map (·.1)).toOption.getD c

structure Revoked where
  agentId : Uuid
  type : Option String
  ref : Option String

/-- What a call revokes, by itself or through `apply_fix`. -/
def GrantCall.revokes : GrantCall → Option Revoked
  | grant .. => none
  | revoke agentId type ref => some ⟨agentId, type, ref⟩
  | fix _ .revokePermission target detail =>
    some ⟨target, detail.text "resource_type", detail.text "resource_ref"⟩
  | fix .. => none

/-- `agent_has_permission` on the text of a type. -/
def hasPermission (c : Config) (agentId : Uuid) (type ref : Option String) : Bool :=
  (type.bind ResourceType.ofText?).any fun t => agentHasPermission c agentId t ref

/-- A grant of an agent that a look up of the reference finds. -/
def Matches (p : Permission) (agentId : Uuid) (type ref : Option String) : Prop :=
  p.agentId = agentId ∧ some p.resourceType.text = type ∧ ref.map lower = some (lower p.resourceRef)

def Inherits (c : Config) (agentId : Uuid) (type ref : Option String) : Prop :=
  ∃ b ∈ (agentChain c agentId).tail, ∃ p ∈ c.permissions, Matches p b.agentId type ref

/-- An agent holds the reference in a spelling other than the one given. -/
def Respelled (c : Config) (agentId : Uuid) (type ref : Option String) : Prop :=
  (c.agent? agentId).isSome ∧
    ∃ p ∈ c.permissions, Matches p agentId type ref ∧ some p.resourceRef ≠ ref

theorem ResourceType.ofText?_text (t : ResourceType) : ofText? t.text = some t := by
  cases t <;> decide

theorem ResourceType.ofText?_eq_some {text : String} {t : ResourceType} (h : ofText? text = some t) :
    t.text = text := by
  simpa using List.find?_some h

theorem parentChain_cons {c : Config} {n : Nat} {id : Uuid} {a : Agent} (h : c.agent? id = some a) :
    parentChain c (n + 1) (some id) = a :: parentChain c n a.parentAgentId := by
  rw [parentChain, h]

/-- The chain of an agent begins with it. -/
theorem agentChain_cons {c : Config} {id : Uuid} {a : Agent} (h : c.agent? id = some a) :
    agentChain c id = a :: (agentChain c id).tail := by
  rw [agentChain, parentChain_cons h]
  rfl

theorem agentChain_nil {c : Config} {id : Uuid} (h : c.agent? id = none) : agentChain c id = [] := by
  rw [agentChain, parentChain, h]

/-- What the look up finds is a grant of the agent or an inherited one. -/
theorem hasPermission_iff {c : Config} {agentId : Uuid} {type ref : Option String} :
    hasPermission c agentId type ref = true ↔
      ∃ b ∈ agentChain c agentId, ∃ p ∈ c.permissions, Matches p b.agentId type ref := by
  constructor
  · intro h
    obtain ⟨t, ht, hperm⟩ := Option.any_eq_true _ _ |>.mp h
    obtain ⟨text, htype, htext⟩ := Option.bind_eq_some_iff.mp ht
    cases ref with
    | none => cases hperm
    | some r =>
      obtain ⟨p, hp, hlower⟩ := List.any_eq_true.mp hperm
      obtain ⟨hp, hgrant⟩ := List.mem_filter.mp hp
      simp only [decide_eq_true_eq] at hgrant hlower
      obtain ⟨b, hb, hid⟩ := List.any_eq_true.mp hgrant.2
      refine ⟨b, hb, p, hp, (decide_eq_true_eq.mp hid).symm, ?_, by simp [hlower]⟩
      rw [hgrant.1, ResourceType.ofText?_eq_some htext, htype]
  · rintro ⟨b, hb, p, hp, hid, htype, href⟩
    obtain ⟨r, hr, hlower⟩ := Option.map_eq_some_iff.mp href
    subst htype hr
    have hmem : p ∈ grants c agentId p.resourceType := by
      refine List.mem_filter.mpr ⟨hp, ?_⟩
      rw [decide_eq_true_eq]
      exact ⟨rfl, List.any_eq_true.mpr ⟨b, hb, by simpa using hid.symm⟩⟩
    have hperm : agentHasPermission c agentId p.resourceType (some r) = true :=
      List.any_eq_true.mpr ⟨p, hmem, by simpa using hlower.symm⟩
    simp [hasPermission, ResourceType.ofText?_text, hperm]

theorem agentChain_revoke (c : Config) (agentId : Uuid) (type ref : Option String) (id : Uuid) :
    agentChain (fnRevokePermission c agentId type ref).1 id = agentChain c id := by
  have hchain : ∀ n start, parentChain (fnRevokePermission c agentId type ref).1 n start =
      parentChain c n start := by
    intro n
    induction n with
    | zero => exact fun _ => rfl
    | succ n ih =>
      intro start
      cases start with
      | none => rfl
      | some id =>
        have hagent : (fnRevokePermission c agentId type ref).1.agent? id = c.agent? id := rfl
        rw [parentChain, parentChain, hagent]
        cases c.agent? id with
        | none => rfl
        | some a => exact congrArg (a :: ·) (ih a.parentAgentId)
  exact hchain _ _

theorem mem_revoke {c : Config} {agentId : Uuid} {type ref : Option String} {p : Permission} :
    p ∈ (fnRevokePermission c agentId type ref).1.permissions ↔ p ∈ c.permissions ∧
      ¬ (p.agentId = agentId ∧ some p.resourceType.text = type ∧ some p.resourceRef = ref) := by
  simp only [fnRevokePermission, List.mem_filter, Bool.not_eq_true', decide_eq_false_iff_not]

theorem revoke_iff {c : Config} {agentId : Uuid} {type ref : Option String}
    (hnone : ¬ Inherits (fnRevokePermission c agentId type ref).1 agentId type ref) :
    hasPermission (fnRevokePermission c agentId type ref).1 agentId type ref = false ↔
      ¬ Respelled c agentId type ref := by
  rw [← Bool.not_eq_true, not_iff_not, hasPermission_iff]
  constructor
  · rintro ⟨b, hb, p, hp, hmatch⟩
    cases hagent : c.agent? agentId with
    | none =>
      rw [agentChain_revoke, agentChain_nil hagent] at hb
      cases hb
    | some a =>
      have hid : a.agentId = agentId := by simpa using List.find?_some hagent
      rw [agentChain_cons (c := (fnRevokePermission c agentId type ref).1) hagent] at hb
      rcases List.mem_cons.mp hb with hb | hb
      · subst hb
        rw [hid] at hmatch
        obtain ⟨hp, hleft⟩ := mem_revoke.mp hp
        refine ⟨by simp [hagent], p, hp, hmatch, fun href => hleft ?_⟩
        exact ⟨hmatch.1, hmatch.2.1, href⟩
      · exact absurd ⟨b, hb, p, hp, hmatch⟩ hnone
  · rintro ⟨hagent, p, hp, hmatch, hne⟩
    obtain ⟨a, ha⟩ := Option.isSome_iff_exists.mp hagent
    have hid : a.agentId = agentId := by simpa using List.find?_some ha
    refine ⟨a, ?_, p, mem_revoke.mpr ⟨hp, fun h => hne h.2.2⟩, hid.symm ▸ hmatch⟩
    rw [agentChain_revoke, agentChain_cons ha]
    exact List.mem_cons_self

theorem grantStep_revokes (pg : Postgres) (c : Config) {call : GrantCall} {r : Revoked}
    (h : call.revokes = some r) : grantStep pg c call = (fnRevokePermission c r.agentId r.type r.ref).1 := by
  cases call with
  | grant agentId type ref => cases h
  | revoke agentId type ref =>
    cases h
    rfl
  | fix now kind target detail =>
    cases kind with
    | revokePermission =>
      cases h
      rfl
    | deactivateAgent => cases h

/-- After any calls, a revocation takes effect exactly when the agent holds the reference in
no other spelling. -/
theorem revoked_iff_not_respelled (pg : Postgres) (c : Config) (calls : List GrantCall)
    (call : GrantCall) (r : Revoked) (hr : call.revokes = some r)
    (hnone : ¬ Inherits (run (grantStep pg) c (calls ++ [call])) r.agentId r.type r.ref) :
    hasPermission (run (grantStep pg) c (calls ++ [call])) r.agentId r.type r.ref = false ↔
      ¬ Respelled (run (grantStep pg) c calls) r.agentId r.type r.ref := by
  rw [run_snoc, grantStep_revokes pg _ hr] at hnone ⊢
  exact revoke_iff hnone

def oneAgent : Config where
  agents := [{ agentId := 1, name := "worker" }]

def grantTwice : List GrantCall :=
  [.grant 1 (some "function") (some "report"), .grant 1 (some "function") (some "report")]

theorem report_revoked :
    hasPermission (run (grantStep bareServer) oneAgent grantTwice) 1 (some "function") (some "REPORT") =
      true ∧
    hasPermission (run (grantStep bareServer) oneAgent
      (grantTwice ++ [.revoke 1 (some "function") (some "report")])) 1 (some "function") (some "report") =
        false := by
  have hrow : (run (grantStep bareServer) oneAgent grantTwice).permissions =
      [⟨1, .function, "report"⟩] := by decide +kernel
  have htail : (agentChain (run (grantStep bareServer) oneAgent
      (grantTwice ++ [.revoke 1 (some "function") (some "report")])) 1).tail.length = 0 := by
    decide +kernel
  refine ⟨by decide +kernel, (revoked_iff_not_respelled bareServer oneAgent grantTwice _
    ⟨1, some "function", some "report"⟩ rfl ?_).mpr ?_⟩
  · rintro ⟨b, hb, -⟩
    rw [List.eq_nil_of_length_eq_zero htail] at hb
    cases hb
  · rintro ⟨-, p, hp, -, hne⟩
    rw [hrow, List.mem_singleton] at hp
    exact hne (by rw [hp])

/-- The grant was written with a capital. -/
theorem respelled_grant_stays :
    ¬ ∀ (pg : Postgres) (c : Config) (calls : List GrantCall) (call : GrantCall) (r : Revoked),
      call.revokes = some r →
      ¬ Inherits (run (grantStep pg) c (calls ++ [call])) r.agentId r.type r.ref →
      hasPermission (run (grantStep pg) c (calls ++ [call])) r.agentId r.type r.ref = false := by
  intro h
  have hrun := h bareServer oneAgent [.grant 1 (some "function") (some "Report")]
    (.revoke 1 (some "function") (some "report")) _ rfl
  have htail : (agentChain (run (grantStep bareServer) oneAgent
      ([.grant 1 (some "function") (some "Report")] ++
        [.revoke 1 (some "function") (some "report")])) 1).tail.length = 0 := by decide +kernel
  refine absurd (hrun ?_) (by decide +kernel)
  rintro ⟨b, hb, -⟩
  rw [List.eq_nil_of_length_eq_zero htail] at hb
  cases hb

end Allgres
