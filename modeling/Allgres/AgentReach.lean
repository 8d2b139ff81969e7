import Allgres.LoginHistory

/-! Which agents a user reaches: those that requests of admins gave the user, for as long as no
other request of an admin takes them back. -/

namespace Allgres

open Raise Rows Runs ReadCommitted

section Requests

variable {d : Draws} {s s' : Site} {req : Json} {x : Assignment} {pgcrypto : Bool}

/-- The request gives the user of a row its agent. -/
def AccountAction.gives (d : Draws) (s : Site) (req : Json) (x : Assignment) : AccountAction → Prop
  | usersCreate => x.userId = d.userId ∧
      Role.ofText ((nullIfEmpty (req.text "role")).getD "user") = some .user ∧
      ∃ g ∈ s.db.cfg.agents, g.name = "general" ∧ g.isActive = true ∧ g.agentId = x.agentId
  | assignmentsSet => uuidField req "user_id" = .ok (some x.userId) ∧
      ∃ ids, agentIdsField req = .ok ids ∧ some x.agentId ∈ ids
  | assignmentsToggle => uuidField req "user_id" = .ok (some x.userId) ∧
      uuidField req "agent_id" = .ok (some x.agentId) ∧ boolField req "assigned" = .ok (some true)
  | usersSetActive => False
  | usersSetRole => False

/-- The request takes the agent of a row from its user. -/
def AccountAction.withdraws (req : Json) (x : Assignment) : AccountAction → Prop
  | assignmentsSet => uuidField req "user_id" = .ok (some x.userId)
  | assignmentsToggle => uuidField req "user_id" = .ok (some x.userId) ∧
      uuidField req "agent_id" = .ok (some x.agentId) ∧ boolField req "assigned" ≠ .ok (some true)
  | usersCreate => False
  | usersSetActive => False
  | usersSetRole => False

theorem returns_insertAssignments (userId : Uuid) (ids : List (Option Uuid))
    (rows : List Assignment) :
    Returns (fun rows' => ∀ x : Assignment, x ∈ rows' ↔
      x ∈ rows ∨ (x.userId = userId ∧ some x.agentId ∈ ids))
      (insertAssignments userId ids rows) := by
  induction ids generalizing rows with
  | nil => exact returns_ok fun x => by simp
  | cons id ids ih =>
    cases id with
    | none => exact returns_error _
    | some agentId =>
      rw [insertAssignments]
      refine returns_ite (fun _ => returns_error _) fun _ => ?_
      refine returns_mono (ih _) fun rows' h x => ?_
      have hnew : x = ⟨userId, agentId⟩ ↔ x.userId = userId ∧ some x.agentId = some agentId := by
        cases x
        simp
      rw [h, List.mem_append, List.mem_singleton, hnew, List.mem_cons]
      tauto

theorem mem_assignGeneral (id : Uuid) (a : Accounts) :
    x ∈ (a.assignGeneral id).assignments ↔ x ∈ a.assignments ∨ (x.userId = id ∧
      ∃ g ∈ a.agents, g.name = "general" ∧ g.isActive = true ∧ g.agentId = x.agentId) := by
  have hrows : x ∈ (a.agents.filter fun g => g.name = "general" ∧ g.isActive).map
      (fun g => Assignment.mk id g.agentId) ↔ x.userId = id ∧
        ∃ g ∈ a.agents, g.name = "general" ∧ g.isActive = true ∧ g.agentId = x.agentId := by
    cases x
    simp only [List.mem_map, List.mem_filter, decide_eq_true_eq, Assignment.mk.injEq]
    constructor
    · rintro ⟨g, ⟨hg, hname, hactive⟩, rfl, rfl⟩
      exact ⟨rfl, g, hg, hname, hactive, rfl⟩
    · rintro ⟨rfl, g, hg, hname, hactive, rfl⟩
      exact ⟨g, ⟨hg, hname, hactive⟩, rfl, rfl⟩
  have hold : a.assignments.contains x = true ↔ x ∈ a.assignments := by simp
  simp only [Accounts.assignGeneral, List.mem_append, List.mem_filter, hrows,
    Bool.not_eq_true', ← Bool.not_eq_true, hold]
  tauto

/-- A user is created with the assignments of `fn_create_user`. -/
theorem createUser_alone {id : Uuid} {hash : String} {username password role : Option String}
    {a a' : Accounts}
    (h : accountCode.alone 5 (.createUser id hash username password role) a = some a') :
    x ∈ a'.assignments ↔ x ∈ a.assignments ∨ (x.userId = id ∧
      role.bind Role.ofText = some .user ∧
        ∃ g ∈ a.agents, g.name = "general" ∧ g.isActive = true ∧ g.agentId = x.agentId) := by
  cases hrow : AccountLoc.newUser a id hash username password role with
  | none => simp [Code.alone, accountCode, AccountLoc.exec, AccountLoc.final, hrow] at h
  | some row =>
    obtain ⟨hid, hrole, -⟩ := newUser_row hrow
    have hfound : (a.insertUser row).hasUser (some id) = true :=
      List.any_eq_true.mpr ⟨row, by simp [Accounts.insertUser], by simp [hid]⟩
    have hcreate : accountCode.exec (.createUser id hash username password role) a =
        some (.provisionUserRole id row.role, Accounts.insertUser row) := by
      simp [accountCode, AccountLoc.exec, hrow]
    have hprovision : accountCode.exec (.provisionUserRole id row.role) (a.insertUser row) =
        some (.assignGeneral id row.role, Accounts.updateUser (some id) fun u =>
          { u with pgRole := u.pgRole.or (some ("allgres_user_" ++ uuidHex id)) }) := by
      simp [accountCode, AccountLoc.exec, hfound]
    have hassign : ∀ a, accountCode.exec (.assignGeneral id row.role) a =
        some (.done, if row.role = .user then Accounts.assignGeneral id else fun d => d) :=
      fun _ => rfl
    rw [Code.alone_succ rfl hcreate, Code.alone_succ rfl hprovision,
      Code.alone_succ rfl (hassign _)] at h
    have hdone : ∀ a, accountCode.alone 2 .done a = some a := fun _ => rfl
    rw [hdone, Option.some.injEq] at h
    rw [← h, hrole, Option.some.injEq]
    by_cases hr : row.role = .user
    · rw [if_pos hr, mem_assignGeneral]
      simp [hr, Accounts.updateUser, Accounts.insertUser]
    · rw [if_neg hr]
      simp [hr, Accounts.updateUser, Accounts.insertUser]

theorem returns_spared {loc : AccountLoc} (hloc : loc.sparesAssignments = true) (raised : String) :
    Returns (fun s' : Site => s'.assignments = s.assignments)
      (accountCall pgcrypto s loc raised) := by
  unfold accountCall
  split
  · exact returns_error _
  · rename_i a ha
    have hkept := Code.alone_lift (I := fun loc => loc.sparesAssignments = true)
      (R := fun a a' : Accounts => a'.assignments = a.assignments) (fun _ => rfl)
      (fun _ _ _ h h' => h'.trans h) (fun _ _ _ _ hl h => (exec_executes h).spares hl) hloc ha
    exact returns_ok hkept

theorem returns_set (userId : Option Uuid) (ids : List (Option Uuid)) :
    Returns (fun r => ∀ x, x ∈ r.1.assignments ↔
      (x ∈ s.assignments ∧ userId ≠ some x.userId) ∨
        (userId = some x.userId ∧ some x.agentId ∈ ids))
      (fnSetUserAssignments s userId ids) := by
  have hkept : ∀ x : Assignment, x ∈ (s.assignments.filter fun a => some a.userId ≠ userId) ↔
      x ∈ s.assignments ∧ userId ≠ some x.userId := by
    intro x
    rw [List.mem_filter, decide_eq_true_eq, ne_comm]
  unfold fnSetUserAssignments
  dsimp only
  split
  · refine returns_pure fun x => ?_
    dsimp only
    rw [hkept]
    simp
  · exact returns_error _
  · rename_i id hids
    refine returns_bind (returns_insertAssignments id ids _) fun rows hrows => ?_
    refine returns_seq fun _ => returns_pure fun x => ?_
    dsimp only
    rw [hrows, hkept, Option.some.injEq, eq_comm (a := id)]

theorem returns_toggle (userId agentId : Option Uuid) (assigned : Option Bool) :
    Returns (fun r => ∀ x, x ∈ r.1.assignments ↔
      (x ∈ s.assignments ∧
        ¬ (userId = some x.userId ∧ agentId = some x.agentId ∧ assigned ≠ some true)) ∨
        (userId = some x.userId ∧ agentId = some x.agentId ∧ assigned = some true))
      (fnSetUserAssignment s userId agentId assigned) := by
  unfold fnSetUserAssignment
  refine returns_ite (fun hon => ?_) fun hoff => ?_
  · split
    · exact returns_error _
    · exact returns_error _
    · rename_i u a
      have hnew : ∀ x : Assignment, x = ⟨u, a⟩ ↔ some u = some x.userId ∧
        some a = some x.agentId := by
        intro x
        cases x
        simp [eq_comm]
      -- `on conflict do nothing`: the row may be there already
      refine returns_ite (fun hin => returns_pure fun x => ?_) fun hout => ?_
      · have hmem : x = ⟨u, a⟩ → x ∈ s.assignments := by
          rintro rfl
          simpa using hin
        rw [hnew] at hmem
        simp only [hon, ne_eq, not_true_eq_false, and_false, not_false_eq_true, and_true]
        tauto
      · refine returns_seq fun _ => returns_pure fun x => ?_
        dsimp only
        rw [List.mem_append, List.mem_singleton, hnew]
        simp only [hon, ne_eq, not_true_eq_false, and_false, not_false_eq_true, and_true]
  · refine returns_pure fun x => ?_
    dsimp only
    rw [List.mem_filter, decide_eq_true_eq, eq_comm (a := some x.userId),
      eq_comm (a := some x.agentId)]
    simp only [hoff, ne_eq, not_false_eq_true, and_true, and_false, or_false]

theorem AccountAction.assignments_branch {a : AccountAction} {j : Json}
    (hb : a.branch pgcrypto d s req = .ok (s', j)) (x : Assignment) :
    x ∈ s'.assignments ↔
      (x ∈ s.assignments ∧ ¬ a.withdraws req x) ∨ a.gives d s req x := by
  cases a with
  | usersCreate =>
    obtain ⟨s'', hs, hpair⟩ := bind_eq_ok.mp hb
    cases hpair
    unfold accountCall at hs
    split at hs
    · cases hs
    · rename_i a' ha
      cases hs
      simpa [gives, withdraws, Site.withAccounts, Site.accounts] using createUser_alone ha
  | usersSetActive =>
    have hsame : Returns (fun r => r.1.assignments = s.assignments)
        (AccountAction.usersSetActive.branch pgcrypto d s req) :=
      returns_seq fun _ => returns_seq fun _ =>
        returns_bind (returns_spared rfl _) fun _ h => returns_pure h
    have heq : s'.assignments = s.assignments := hsame _ hb
    simp [gives, withdraws, heq]
  | usersSetRole =>
    have hsame : Returns (fun r => r.1.assignments = s.assignments)
        (AccountAction.usersSetRole.branch pgcrypto d s req) :=
      returns_seq fun _ => returns_bind (returns_spared rfl _) fun _ h => returns_pure h
    have heq : s'.assignments = s.assignments := hsame _ hb
    simp [gives, withdraws, heq]
  | assignmentsSet =>
    obtain ⟨id, hid, hb⟩ := bind_eq_ok.mp hb
    obtain ⟨ids, hids, hb⟩ := bind_eq_ok.mp hb
    rw [returns_set id ids _ hb x]
    simp [gives, withdraws, hid, hids]
  | assignmentsToggle =>
    obtain ⟨id, hid, hb⟩ := bind_eq_ok.mp hb
    obtain ⟨agentId, hagent, hb⟩ := bind_eq_ok.mp hb
    obtain ⟨assigned, hassigned, hb⟩ := bind_eq_ok.mp hb
    rw [returns_toggle id agentId assigned _ hb x]
    simp [gives, withdraws, hid, hagent, hassigned]

end Requests

section Runs

variable {ρ : Type} (w : Works ρ)

def Gives (h : Deployment ρ) : SiteEvent ρ → Assignment → Prop
  | .request m d req, x => ∃ a s', AdminChange w h m d req a s' ∧ a.gives d h.site req x
  | .work _ _, _ => False

def Withdraws (h : Deployment ρ) : SiteEvent ρ → Assignment → Prop
  | .request m d req, x => ∃ a s', AdminChange w h m d req a s' ∧ a.withdraws req x
  | .work _ _, _ => False

theorem gives_seen {now : Time} {s : Site} {token : Option String} {d : Draws} {req : Json}
    {x : Assignment} {a : AccountAction} :
    a.gives d (seen now s token) req x ↔ a.gives d s req x := by
  have hdb : (seen now s token).db = s.db := by
    unfold seen
    split_ifs <;> rfl
  unfold AccountAction.gives
  rw [hdb]

/-- What one event does to the assignments. -/
theorem mem_assignments_serve (h : Deployment ρ) {e : SiteEvent ρ} (he : e.asOwner = false)
    (x : Assignment) :
    x ∈ (serveSite w h e).site.assignments ↔
      (x ∈ h.site.assignments ∧ ¬ Withdraws w h e x) ∨ Gives w h e x := by
  cases e with
  | work e rest => simp [Gives, Withdraws, serveSite, Works.elsewhere]
  | request m d req =>
    cases ha : accountBranches.lookup (rpcAction req) with
    | none =>
      have hnone : ∀ a s', ¬ AdminChange w h m d req a s' := by
        intro a s' hacc
        rw [hacc.lookup] at ha
        cases ha
      rw [(serveSite_unaccounted w h m d he ha).2]
      simp [Gives, Withdraws, hnone]
    | some a =>
      rcases serveSite_account (w := w) h m d ha with hs | hs
      · obtain ⟨hsame, hno⟩ := hs
        have hnone : ∀ b s', ¬ AdminChange w h m d req b s' := by
          intro b s' hacc
          obtain rfl : b = a := Option.some.inj (hacc.lookup.symm.trans ha)
          exact hno s' hacc
        rw [hsame]
        simp [Gives, Withdraws, hnone]
      · obtain ⟨j, hj⟩ := hs.branch
        have hgives : Gives w h (.request m d req) x ↔ a.gives d h.site req x := hs.exists_iff
        have hwithdraws : Withdraws w h (.request m d req) x ↔ a.withdraws req x := hs.exists_iff
        rw [AccountAction.assignments_branch hj x, gives_seen, hgives, hwithdraws,
          assignments_seen]

variable (i : Installed ρ)

/-- An agent that a user has had from the installation on, or was given by a request of an admin,
and that no request of an admin has taken back. -/
def AssignmentStands (es : List (SiteEvent ρ)) (x : Assignment) : Prop :=
  (x ∈ i.deployment.site.assignments ∧ Spared (serveSite w) (Withdraws w) x i.deployment es) ∨
    Arrived (serveSite w) (Gives w) (Withdraws w) x i.deployment es

theorem mem_assignments_after {es : List (SiteEvent ρ)} (hes : ∀ e ∈ es, e.asOwner = false)
    {x : Assignment} :
    x ∈ (i.after w es).site.assignments ↔ AssignmentStands w i es x :=
  mem_table_iff (fun h : Deployment ρ => h.site.assignments) (fun _ => True) _
    (fun _ _ _ _ => trivial) (fun h _ x he _ => mem_assignments_serve w h he x) trivial es hes

theorem requireAgentAccess_eq_ok {now : Time} {s : Site} {token : Option String} {agentId : Uuid}
    {u : User} :
    requireAgentAccess now s token (some agentId) = .ok u ↔
      sessionUser now s token = some u ∧ s.db.cfg.agentActive agentId = true ∧
        (u.role = .admin ∨ (⟨u.userId, agentId⟩ : Assignment) ∈ s.assignments) := by
  have hassigned : ∀ v, assigned s v agentId = true ↔
      (⟨v.userId, agentId⟩ : Assignment) ∈ s.assignments := by
    intro v
    unfold assigned
    rw [List.any_eq_true]
    constructor
    · rintro ⟨a, ha, hp⟩
      obtain ⟨huser, hagent⟩ : a.userId = v.userId ∧ a.agentId = agentId := by simpa using hp
      rw [← huser, ← hagent]
      exact ha
    · exact fun h => ⟨_, h, by simp⟩
  unfold requireAgentAccess
  cases hu : sessionUser now s token with
  | none => simp
  | some v =>
    by_cases hactive : s.db.cfg.agentActive agentId = true
    · simp only [Option.filter, hactive, if_true, true_and, hassigned]
      split_ifs with hr
      · constructor
        · intro h
          cases h
          exact ⟨rfl, hr⟩
        · rintro ⟨h, -⟩
          cases h
          rfl
      · constructor
        · intro h
          cases h
        · rintro ⟨h, hr'⟩
          cases h
          exact absurd hr' hr
    · simp [Option.filter, hactive]

/-- Who may do what, read off what was asked of the site, none of it SQL of the owner. -/
theorem access_follows_history (es : List (SiteEvent ρ)) (hes : ∀ e ∈ es, e.asOwner = false)
    (now : Time) (tok : String) (agentId : Uuid) (u : User) :
    let site := (i.after w es).site
    let caller := tok ≠ "" ∧ u ∈ site.users ∧ u.isActive = true ∧ LoginStands w i es now tok u
    (sessionUser now site (some tok) = some u ↔ caller) ∧
      (requireAdmin now site (some tok) = .ok u ↔ caller ∧ u.role = .admin) ∧
      (requireAgentAccess now site (some tok) (some agentId) = .ok u ↔
        caller ∧ site.db.cfg.agentActive agentId = true ∧
          (u.role = .admin ∨ AssignmentStands w i es ⟨u.userId, agentId⟩)) := by
  intro site caller
  have hcaller : sessionUser now site (some tok) = some u ↔ caller :=
    sessionUser_after w i hes now tok u
  refine ⟨hcaller, ?_, ?_⟩
  · rw [requireAdmin_eq_ok, hcaller]
  · rw [requireAgentAccess_eq_ok, hcaller, mem_assignments_after w i hes]

end Runs

def annHired : List (SiteEvent Unit) :=
  [rootLogsIn, annCreated,
    officeRequest 3 "" [("action", .str "assignments.set"), ("session_token", .str "r"),
      ("user_id", .str (uuidText 2)), ("agent_ids", .arr [.str (uuidText 5)])],
    officeRequest 4 "a" [("action", .str "auth.login"), ("username", .str "ann"),
      ("password", .str "correct horse")]]

theorem ann_let_in : ∃ u, requireAgentAccess 5 (office.after officeWorks annHired).site (some "a")
    (some 5) = .ok u ∧ (u.username, u.role) = ("ann", .user) := by
  have hlet : (requireAgentAccess 5 (office.after officeWorks annHired).site (some "a")
      (some 5)).toOption.map (fun u => (u.username, u.role)) = some ("ann", .user) := by
    decide +kernel
  revert hlet
  cases requireAgentAccess 5 (office.after officeWorks annHired).site (some "a") (some 5) with
  | error e =>
    intro h
    cases h
  | ok u => exact fun h => ⟨u, rfl, Option.some.inj h⟩

theorem ann_reaches_writer :
    ∃ u, u.username = "ann" ∧ LoginStands officeWorks office annHired 5 "a" u ∧
      AssignmentStands officeWorks office annHired ⟨u.userId, 5⟩ ∧
      ¬ AssignmentStands officeWorks office [rootLogsIn, annCreated] ⟨u.userId, 5⟩ := by
  have hplain : ∀ e ∈ annHired, e.asOwner = false := by decide +kernel
  obtain ⟨u, hlet, hann⟩ := ann_let_in
  obtain ⟨hname, hrole⟩ := Prod.mk.inj hann
  have haccess := (access_follows_history officeWorks office annHired hplain 5 "a" 5 u).2.2
  obtain ⟨hcaller, -, hreach⟩ := haccess.mp hlet
  have hstands := hreach.resolve_left (by rw [hrole]; decide)
  refine ⟨u, hname, hcaller.2.2.2, hstands, ?_⟩
  rw [← mem_assignments_after officeWorks office (by decide +kernel)]
  have hnone : (office.after officeWorks [rootLogsIn, annCreated]).site.assignments = [] := by
    decide +kernel
  rw [hnone]
  exact List.not_mem_nil

end Allgres
