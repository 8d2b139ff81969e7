import Allgres.AccountBranches
import Allgres.LoginRequired
import Allgres.Presence

/-! Who may do what on a site, whatever requests it serves. A token stands for the account that
logged in for it, and only admins who have logged in change accounts. -/

namespace Allgres

open Raise Rows Runs ReadCommitted

section Users

def User.identity (u : User) : Uuid × String × String :=
  (u.userId, u.username, u.passwordHash)

/-- The keys of `users`. -/
structure KeyedUsers (us : List User) : Prop where
  ids : (us.map (·.userId)).Nodup
  names : (us.map (·.username)).Nodup

/-- No account is taken away, or gets another name or password. -/
structure Lasts (us us' : List User) : Prop where
  keyed : KeyedUsers us → KeyedUsers us'
  kept : ∀ u ∈ us, ∃ u' ∈ us', u'.identity = u.identity

variable {us us' us'' : List User}

theorem Lasts.refl (us : List User) : Lasts us us :=
  ⟨id, fun u hu => ⟨u, hu, rfl⟩⟩

theorem Lasts.trans (h : Lasts us us') (h' : Lasts us' us'') : Lasts us us'' := by
  refine ⟨fun hk => h'.keyed (h.keyed hk), fun u hu => ?_⟩
  obtain ⟨v, hv, hvu⟩ := h.kept u hu
  obtain ⟨x, hx, hxv⟩ := h'.kept v hv
  exact ⟨x, hx, hxv.trans hvu⟩

theorem lasts_update {p : User → Bool} {f : User → User} (hf : ∀ u, (f u).identity = u.identity) :
    Lasts us (update p f us) := by
  have hid : ∀ u, (f u).userId = u.userId := fun u => congrArg (·.1) (hf u)
  have hname : ∀ u, (f u).username = u.username := fun u => congrArg (·.2.1) (hf u)
  refine ⟨fun hk => ⟨?_, ?_⟩, fun u hu => ?_⟩
  · rw [map_update hid]
    exact hk.ids
  · rw [map_update hname]
    exact hk.names
  · refine ⟨if p u then f u else u, mem_update.mpr ⟨u, hu, rfl⟩, ?_⟩
    split_ifs
    · exact hf u
    · rfl

theorem lasts_append {row : User}
    (hnew : ∀ v ∈ us, v.userId ≠ row.userId ∧ v.username ≠ row.username) :
    Lasts us (us ++ [row]) := by
  refine ⟨fun hk => ⟨?_, ?_⟩, fun u hu => ⟨u, List.mem_append_left _ hu, rfl⟩⟩
  · rw [List.map_append, List.nodup_append]
    refine ⟨hk.ids, by simp, fun x hx y hy => ?_⟩
    obtain ⟨v, hv, rfl⟩ := List.mem_map.mp hx
    rw [List.mem_singleton.mp hy]
    exact (hnew v hv).1
  · rw [List.map_append, List.nodup_append]
    refine ⟨hk.names, by simp, fun x hx y hy => ?_⟩
    obtain ⟨v, hv, rfl⟩ := List.mem_map.mp hx
    rw [List.mem_singleton.mp hy]
    exact (hnew v hv).2

theorem KeyedUsers.eq_of_id (h : KeyedUsers us) {u v : User} (hu : u ∈ us) (hv : v ∈ us)
    (hid : u.userId = v.userId) : u = v :=
  eq_of_key (·.userId) h.ids hu hv hid

theorem find_active_iff {β : Type} [DecidableEq β] {key : User → β} (hk : (us.map key).Nodup)
    {u : User} {k : β} :
    us.find? (fun v => key v = k ∧ v.isActive) = some u ↔
      u ∈ us ∧ key u = k ∧ u.isActive = true := by
  constructor
  · intro hf
    have hp := List.find?_some hf
    exact ⟨List.mem_of_find?_eq_some hf, by simpa using hp⟩
  · rintro ⟨hu, rfl, ha⟩
    cases hf : us.find? (fun v => key v = key u ∧ v.isActive) with
    | none =>
      have hno := List.find?_eq_none.mp hf u hu
      simp [ha] at hno
    | some v =>
      obtain ⟨hvu, -⟩ : key v = key u ∧ v.isActive = true := by simpa using List.find?_some hf
      rw [eq_of_key key hk (List.mem_of_find?_eq_some hf) hu hvu]

theorem KeyedUsers.find_active (h : KeyedUsers us) {u : User} {id : Uuid} :
    us.find? (fun v => v.userId = id ∧ v.isActive) = some u ↔
      u ∈ us ∧ u.userId = id ∧ u.isActive = true :=
  find_active_iff h.ids

theorem KeyedUsers.find_named (h : KeyedUsers us) {u : User} {name : String} :
    us.find? (fun v => v.username = name ∧ v.isActive) = some u ↔
      u ∈ us ∧ u.username = name ∧ u.isActive = true :=
  find_active_iff h.names

theorem newUser_row {d : Accounts} {id : Uuid} {hash : String}
    {username password role : Option String} {row : User}
    (h : AccountLoc.newUser d id hash username password role = some row) :
    row.userId = id ∧ role.bind Role.ofText = some row.role ∧
      ∀ v ∈ d.users, v.userId ≠ row.userId ∧ v.username ≠ row.username := by
  unfold AccountLoc.newUser at h
  dsimp only at h
  split at h
  · cases h
  · split at h
    · cases h
    · rename_i r hr
      split at h
      · cases h
      · rename_i hany
        cases h
        refine ⟨rfl, hr, fun v hv => ?_⟩
        have hno : ¬ (v.userId = id ∨ v.username = btrim (orEmpty username)) := fun hor =>
          hany (List.any_eq_true.mpr ⟨v, hv, by simpa using hor⟩)
        exact not_or.mp hno

/-- The statements that come after those of `fn_create_user`. -/
def AccountLoc.sparesAssignments : AccountLoc → Bool
  | createUser .. => false
  | provisionUserRole .. => false
  | assignGeneral .. => false
  | _ => true

/-- What a statement does: it leaves accounts their names and passwords, and one that does not
belong to `fn_create_user` leaves the assignments too. -/
structure Executes (loc loc' : AccountLoc) (d d' : Accounts) : Prop where
  lasts : Lasts d.users d'.users
  spares : loc.sparesAssignments = true →
    loc'.sparesAssignments = true ∧ d'.assignments = d.assignments

theorem executes_setColumn {α : Type} {loc loc' : AccountLoc} {d : Accounts}
    {w : Accounts → Accounts} {id : Option Uuid} {value : Option α} {f : α → User → User}
    (hf : ∀ a u, (f a u).identity = u.identity)
    (h : AccountLoc.setColumn d id value f = some (loc', w)) : Executes loc loc' d (w d) := by
  unfold AccountLoc.setColumn at h
  split at h
  · obtain ⟨v, -, hpair⟩ := Option.map_eq_some_iff.mp h
    cases hpair
    exact ⟨lasts_update (hf v), fun _ => ⟨rfl, rfl⟩⟩
  · cases h
    exact ⟨.refl _, fun _ => ⟨rfl, rfl⟩⟩

theorem exec_executes {loc loc' : AccountLoc} {d : Accounts} {w : Accounts → Accounts}
    (h : accountCode.exec loc d = some (loc', w)) : Executes loc loc' d (w d) := by
  cases loc with
  | createUser id hash username password role =>
    obtain ⟨row, hrow, hpair⟩ := Option.map_eq_some_iff.mp h
    cases hpair
    exact ⟨lasts_append (newUser_row hrow).2.2, fun hspares => Bool.noConfusion hspares⟩
  | provisionUserRole id role =>
    simp only [accountCode, AccountLoc.exec] at h
    split at h
    · cases h
      exact ⟨lasts_update fun u => rfl, fun hspares => Bool.noConfusion hspares⟩
    · cases h
  | assignGeneral id role =>
    cases h
    refine ⟨?_, fun hspares => Bool.noConfusion hspares⟩
    split_ifs
    · exact .refl _
    · exact .refl _
  | setUserActive id active =>
    cases h
    refine ⟨.refl _, fun _ => ⟨?_, rfl⟩⟩
    split_ifs
    · rfl
    · rfl
  | checkActive id =>
    simp only [accountCode, AccountLoc.exec] at h
    split at h
    · cases h
    · cases h
      exact ⟨.refl _, fun _ => ⟨rfl, rfl⟩⟩
  | updateActive id active =>
    simp only [accountCode, AccountLoc.exec] at h
    refine executes_setColumn ?_ h
    exact fun _ _ => rfl
  | setUserRole id role =>
    simp only [accountCode, AccountLoc.exec] at h
    split at h
    · cases h
      exact ⟨.refl _, fun _ => ⟨rfl, rfl⟩⟩
    · split at h
      · cases h
      · cases h
        exact ⟨.refl _, fun _ => ⟨rfl, rfl⟩⟩
      · cases h
        exact ⟨.refl _, fun _ => ⟨rfl, rfl⟩⟩
  | checkRole id =>
    simp only [accountCode, AccountLoc.exec] at h
    split at h
    · cases h
    · cases h
      exact ⟨.refl _, fun _ => ⟨rfl, rfl⟩⟩
  | updateRole id role =>
    simp only [accountCode, AccountLoc.exec] at h
    refine executes_setColumn ?_ h
    exact fun _ _ => rfl
  | done => cases h

end Users

section Branches

variable {pgcrypto : Bool} {s : Site}

/-- What a call about accounts does: it writes no login. -/
structure AccountsOnly (s s' : Site) : Prop where
  lasts : Lasts s.users s'.users
  webSessions : s'.webSessions = s.webSessions

theorem returns_accountCall (loc : AccountLoc) (raised : String) :
    Returns (AccountsOnly s) (accountCall pgcrypto s loc raised) := by
  unfold accountCall
  split
  · exact returns_error _
  · rename_i d hd
    have hl := Code.alone_lift (I := fun _ => True)
      (R := fun d d' : Accounts => Lasts d.users d'.users) (fun d => .refl _)
      (fun _ _ _ h h' => h.trans h') (fun _ _ _ _ _ h => ⟨trivial, (exec_executes h).lasts⟩) trivial hd
    exact returns_ok ⟨hl, rfl⟩

theorem returns_fnSetUserAssignments (userId : Option Uuid) (agentIds : List (Option Uuid)) :
    Returns (fun x => AccountsOnly s x.1) (fnSetUserAssignments s userId agentIds) := by
  unfold fnSetUserAssignments
  dsimp only
  split
  · exact returns_pure ⟨.refl _, rfl⟩
  · exact returns_error _
  · exact returns_seq fun rows => returns_seq fun _ => returns_pure ⟨.refl _, rfl⟩

theorem returns_fnSetUserAssignment (userId agentId : Option Uuid) (assigned : Option Bool) :
    Returns (fun x => AccountsOnly s x.1) (fnSetUserAssignment s userId agentId assigned) := by
  unfold fnSetUserAssignment
  refine returns_ite (fun _ => ?_) fun _ => returns_pure ⟨.refl _, rfl⟩
  split
  · exact returns_error _
  · exact returns_error _
  · refine returns_ite (fun _ => returns_pure ⟨.refl _, rfl⟩) fun _ => ?_
    exact returns_seq fun _ => returns_pure ⟨.refl _, rfl⟩

theorem AccountAction.returns_branch (a : AccountAction) (d : Draws) (req : Json) :
    Returns (fun x => AccountsOnly s x.1) (a.branch pgcrypto d s req) := by
  have hcall : ∀ loc raised (f : Site → Json),
      Returns (fun x => AccountsOnly s x.1)
        (accountCall pgcrypto s loc raised >>= fun s' => pure (s', f s')) := fun loc raised f =>
    returns_bind (returns_accountCall loc raised) fun s' h => returns_pure h
  cases a with
  | usersCreate => exact hcall _ _ _
  | usersSetActive => exact returns_seq fun _ => returns_seq fun _ => hcall _ _ _
  | usersSetRole => exact returns_seq fun _ => hcall _ _ _
  | assignmentsSet =>
    exact returns_seq fun _ => returns_seq fun _ => returns_fnSetUserAssignments _ _
  | assignmentsToggle =>
    exact returns_seq fun _ => returns_seq fun _ => returns_seq fun _ =>
      returns_fnSetUserAssignment _ _ _

structure SameAccess (s s' : Site) : Prop where
  users : s'.users = s.users
  webSessions : s'.webSessions = s.webSessions
  assignments : s'.assignments = s.assignments

theorem SameAccess.refl (s : Site) : SameAccess s s :=
  ⟨rfl, rfl, rfl⟩

theorem SameAccess.trans {s' s'' : Site} (h : SameAccess s s') (h' : SameAccess s' s'') :
    SameAccess s s'' :=
  ⟨h'.users.trans h.users, h'.webSessions.trans h.webSessions,
    h'.assignments.trans h.assignments⟩

variable {pg : Postgres} {now : Time} {req : Json}

theorem returns_storeConfig (r : Except String (Config × Json)) :
    Returns (fun x => SameAccess s x.1) (storeConfig s r) :=
  returns_map (returns_mono (returns_any r) fun _ _ => ⟨rfl, rfl, rfl⟩)

theorem returns_sendTo (u : User) (target : ChatTarget) (message : Option String) :
    Returns (fun x => SameAccess s x.1) (sendTo now s u target message) := by
  unfold sendTo
  refine returns_seq fun _ => ?_
  split
  · exact returns_seq fun _ => returns_pure ⟨rfl, rfl, rfl⟩
  · exact returns_seq fun _ => returns_pure ⟨rfl, rfl, rfl⟩

theorem returns_fnChatSend (token : Option String) (agentId : Option Uuid)
    (message : Option String) :
    Returns (fun x => SameAccess s x.1) (fnChatSend now s token agentId message) := by
  unfold fnChatSend
  refine returns_seq fun u => ?_
  split
  · exact returns_error _
  · exact returns_sendTo _ _ _

theorem returns_fnProjectChatSend (token : Option String) (projectId : Option Uuid)
    (message : Option String) :
    Returns (fun x => SameAccess s x.1) (fnProjectChatSend now s token projectId message) := by
  unfold fnProjectChatSend
  refine returns_seq fun r => ?_
  dsimp only
  split
  · exact returns_error _
  · exact returns_sendTo _ _ _

theorem returns_sendMentions (token : Option String) (text : String) (names : List String)
    (agentIds sessionIds : List Uuid) :
    Returns (fun x => SameAccess s x.1)
      (sendMentions now token text names s agentIds sessionIds) := by
  induction names generalizing s agentIds sessionIds with
  | nil => exact returns_ok (.refl s)
  | cons name names ih =>
    rw [sendMentions]
    split
    · exact returns_error _
    · refine returns_seq fun _ => returns_bind (returns_fnChatSend token _ _) fun x hx => ?_
      exact returns_mono (ih _ _) fun _ h => hx.trans h

theorem returns_fnMessengerPost (token text : Option String) :
    Returns (fun x => SameAccess s x.1) (fnMessengerPost now s token text) := by
  unfold fnMessengerPost
  split
  · exact returns_error _
  · refine returns_seq fun _ => returns_bind (returns_sendMentions token _ _ _ _) fun x hx => ?_
    exact returns_pure ⟨hx.users, hx.webSessions, hx.assignments⟩

end Branches

section Requests

variable {ρ : Type} {b : Backend ρ} {now : Time} {h : Deployment ρ} {req : Json}

theorem returns_writing {r : Except String (Site × Json)}
    (hr : Returns (fun x => SameAccess h.site x.1) r) :
    Returns (fun x => SameAccess h.site x.1.site) (writing b h req r) :=
  returns_map (returns_mono hr fun _ hx => hx)

/-- Of the branches open to users only the two for logins say who may do what. -/
theorem UserAction.returns_branch {a : UserAction} (hin : a ≠ .authLogin) (hout : a ≠ .authLogout) :
    Returns (fun x => SameAccess h.site x.1.site) (a.branch b now h req) := by
  have hread : ∀ r, Returns (fun x => SameAccess h.site x.1.site) (reading h r) := fun r =>
    returns_mono (reading_same h r) fun _ hx => by
      rw [hx]
      exact .refl _
  cases a with
  | authLogin => exact absurd rfl hin
  | authLogout => exact absurd rfl hout
  | proposalsDecide =>
    refine returns_writing ?_
    unfold Allgres.proposalsDecide
    refine returns_seq fun _ => returns_seq fun _ => returns_seq fun _ => ?_
    split
    · exact returns_error _
    · exact returns_storeConfig _
  | fixesDecide =>
    refine returns_writing ?_
    unfold Allgres.fixesDecide
    exact returns_seq fun _ => returns_seq fun _ => returns_seq fun _ => returns_storeConfig _
  | approvalsDecide =>
    refine returns_writing ?_
    unfold Allgres.approvalsDecide
    refine returns_seq fun _ => returns_seq fun _ => returns_seq fun _ => ?_
    split
    · exact returns_error _
    · exact returns_seq fun _ => returns_pure ⟨rfl, rfl, rfl⟩
  | projectChatSend =>
    refine returns_writing ?_
    unfold Allgres.projectChatSend
    exact returns_seq fun _ => returns_map (returns_mono (returns_fnProjectChatSend _ _ _)
      fun _ hx => hx)
  | chatSend =>
    refine returns_writing ?_
    unfold Allgres.chatSend
    exact returns_seq fun _ => returns_map (returns_mono (returns_fnChatSend _ _ _) fun _ hx => hx)
  | run =>
    refine returns_writing ?_
    unfold runBranch
    refine returns_seq fun _ => returns_seq fun _ => returns_seq fun _ => ?_
    split
    · exact returns_error _
    · exact returns_seq fun _ => returns_pure ⟨rfl, rfl, rfl⟩
  | sessionsCancel =>
    refine returns_writing ?_
    unfold Allgres.sessionsCancel
    refine returns_seq fun _ => returns_seq fun _ => ?_
    split
    · exact returns_error _
    · exact returns_seq fun _ => returns_pure ⟨rfl, rfl, rfl⟩
  | sessionsContinue =>
    refine returns_writing ?_
    unfold Allgres.sessionsContinue
    refine returns_seq fun _ => returns_seq fun _ => ?_
    split
    · exact returns_seq fun _ => returns_error _
    · exact returns_seq fun _ => returns_pure ⟨rfl, rfl, rfl⟩
  | agentsSetMyModel =>
    refine returns_writing ?_
    unfold setMyModel fnSetMyModel
    refine returns_seq fun _ => returns_seq fun _ => ?_
    dsimp only
    split
    · exact returns_error _
    · exact returns_storeConfig _
    · exact returns_seq fun _ => returns_storeConfig _
    · exact returns_error _
  | messengerPost => exact returns_writing (returns_fnMessengerPost _ _)
  | memoriesCreate =>
    refine returns_writing ?_
    unfold Allgres.memoriesCreate
    refine returns_seq fun _ => returns_seq fun _ => ?_
    split
    · exact returns_error _
    · split
      · exact returns_pure (.refl _)
      · exact returns_storeConfig _
  | memoriesRemove =>
    refine returns_writing ?_
    unfold Allgres.memoriesRemove
    exact returns_seq fun _ => returns_seq fun _ => returns_storeConfig _
  | _ => exact hread _

end Requests

section Logins

/-- What a login is: a token, whose it is, and until when. -/
def logins (s : Site) : List (String × Uuid × Time) :=
  s.webSessions.map fun x => (x.token, x.userId, x.expiresAt)

def week : Nat :=
  7 * 86400000

theorem logins_seen (now : Time) (s : Site) (token : Option String) :
    logins (seen now s token) = logins s := by
  unfold seen
  split_ifs
  · dsimp only [logins, touch]
    refine map_update ?_ _
    exact fun _ => rfl
  · rfl

theorem users_seen (now : Time) (s : Site) (token : Option String) :
    (seen now s token).users = s.users := by
  unfold seen
  split_ifs <;> rfl

theorem assignments_seen (now : Time) (s : Site) (token : Option String) :
    (seen now s token).assignments = s.assignments := by
  unfold seen
  split_ifs <;> rfl

/-- The keys of a site, the token of a login being one of them. -/
structure Site.Keyed (s : Site) : Prop where
  users : KeyedUsers s.users
  tokens : ((logins s).map (·.1)).Nodup

theorem Site.Keyed.sessionUser_iff {s : Site} (hk : s.Keyed) {now : Time} {tok : String}
    {u : User} :
    sessionUser now s (some tok) = some u ↔
      tok ≠ "" ∧ u ∈ s.users ∧ u.isActive = true ∧
        ∃ expiry, (tok, u.userId, expiry) ∈ logins s ∧ now < expiry := by
  have htokens : (s.webSessions.map (·.token)).Nodup := by
    have := hk.tokens
    rwa [logins, List.map_map] at this
  by_cases htok : tok = ""
  · simp [htok, sessionUser, nullIfEmpty]
  · have hfirst : sessionUser now s (some tok) =
        (s.webSessions.find? fun x => x.token = tok ∧ now < x.expiresAt).bind fun x =>
          s.users.find? fun v => v.userId = x.userId ∧ v.isActive := by
      simp [sessionUser, nullIfEmpty, htok, bind]
    rw [hfirst, Option.bind_eq_some_iff]
    constructor
    · rintro ⟨x, hx, hu⟩
      obtain ⟨hmem, hid, hactive⟩ := hk.users.find_active.mp hu
      have hp : x.token = tok ∧ now < x.expiresAt := by simpa using List.find?_some hx
      refine ⟨htok, hmem, hactive, x.expiresAt, ?_, hp.2⟩
      exact List.mem_map.mpr ⟨x, List.mem_of_find?_eq_some hx, by rw [hp.1, hid]⟩
    · rintro ⟨-, hmem, hactive, expiry, hrow, hnow⟩
      obtain ⟨x, hx, hpair⟩ := List.mem_map.mp hrow
      obtain ⟨rfl, hid, rfl⟩ : x.token = tok ∧ x.userId = u.userId ∧ x.expiresAt = expiry := by
        simpa using hpair
      refine ⟨x, ?_, hk.users.find_active.mpr ⟨hmem, hid.symm, hactive⟩⟩
      cases hf : s.webSessions.find? (fun y => y.token = x.token ∧ now < y.expiresAt) with
      | none =>
        have hno := List.find?_eq_none.mp hf x hx
        simp [hnow] at hno
      | some y =>
        have hp : y.token = x.token ∧ now < y.expiresAt := by simpa using List.find?_some hf
        rw [eq_of_key (·.token) htokens (List.mem_of_find?_eq_some hf) hx hp.1]

variable {s : Site} {crypt : Option (String → String → Bool)} {token : String}
  {username password : Option String} {now : Time} {u : User}

structure Admitted (s : Site) (crypt : Option (String → String → Bool)) (token : String)
    (username password : Option String) (u : User) : Prop where
  found : s.users.find? (fun v => v.username = btrim (orEmpty username) ∧ v.isActive) = some u
  password : ∃ fits, crypt = some fits ∧ fits (orEmpty password) u.passwordHash = true
  fresh : ∀ x ∈ logins s, x.1 ≠ token

def loginRow (now : Time) (token : String) (u : User) : WebSession where
  token := token
  userId := u.userId
  expiresAt := now + week
  lastSeenAt := now

theorem fnLogin_admitted {x : Site × Json}
    (h : fnLogin now s crypt token username password = .ok x) :
    ∃ u, Admitted s crypt token username password u ∧
      x.1 = { s with webSessions := s.webSessions ++ [loginRow now token u] } := by
  unfold fnLogin at h
  split at h
  · cases h
  · cases h
  · rename_i fits u hfound
    split at h
    · rename_i hfits
      dsimp only at h
      split at h
      · cases h
      · rename_i hfresh
        cases h
        refine ⟨u, ⟨hfound, ⟨fits, rfl, hfits⟩, fun x hx htoken => hfresh ?_⟩, rfl⟩
        obtain ⟨y, hy, rfl⟩ := List.mem_map.mp hx
        exact List.any_eq_true.mpr ⟨y, hy, by simpa using htoken⟩
    · cases h

theorem fnLogin_of_admitted (now : Time) (h : Admitted s crypt token username password u) :
    ∃ j, fnLogin now s crypt token username password =
      .ok ({ s with webSessions := s.webSessions ++ [loginRow now token u] }, j) := by
  obtain ⟨fits, rfl, hfits⟩ := h.password
  have hfresh : ¬ s.webSessions.any (·.token = token) = true := by
    intro hany
    obtain ⟨x, hx, htoken⟩ := List.any_eq_true.mp hany
    exact h.fresh _ (List.mem_map_of_mem hx) (by simpa using htoken)
  unfold fnLogin
  rw [h.found]
  dsimp only
  rw [if_pos hfits, if_neg hfresh]
  exact ⟨_, rfl⟩

theorem admitted_seen {token' : Option String} :
    Admitted (seen now s token') crypt token username password u ↔
      Admitted s crypt token username password u := by
  have hlogins := logins_seen now s token'
  have husers := users_seen now s token'
  constructor
  · intro h
    exact ⟨husers ▸ h.found, h.password, hlogins ▸ h.fresh⟩
  · intro h
    exact ⟨husers.symm ▸ h.found, h.password, hlogins.symm ▸ h.fresh⟩

end Logins

section Serving

variable {ρ : Type} {w : Works ρ}

theorem serveSite_login {h : Deployment ρ} {now : Time} {d : Draws} {req : Json}
    (hreq : rpcAction req = "auth.login") :
    serveSite w h (.request now d req) =
      match fnLogin now (seen now h.site (tokenOf req)) w.crypt d.token (req.text "username")
        (req.text "password") with
      | .ok x => ⟨x.1, h.rest⟩
      | .error _ => h := by
  have hadmin : adminBranches.lookup "auth.login" = none := by decide
  have huser : userBranches.lookup "auth.login" = some .authLogin := by decide
  simp only [serveSite, dashboardRpc, dashboardBranch, hreq, hadmin, huser, UserAction.branch,
    Works.backend]
  cases fnLogin now (seen now h.site (tokenOf req)) w.crypt d.token (req.text "username")
    (req.text "password") with
  | error e => rfl
  | ok x => rfl

theorem serveSite_logout {h : Deployment ρ} {now : Time} {d : Draws} {req : Json}
    (hreq : rpcAction req = "auth.logout") :
    serveSite w h (.request now d req) =
      ⟨(fnLogout (seen now h.site (tokenOf req)) (tokenOf req)).1, h.rest⟩ := by
  have hadmin : adminBranches.lookup "auth.logout" = none := by decide
  have huser : userBranches.lookup "auth.logout" = some .authLogout := by decide
  simp only [serveSite, dashboardRpc, dashboardBranch, hreq, hadmin, huser, UserAction.branch]

/-- The branches about accounts ask for an admin, accounts or not. -/
theorem guard_of_account {action : String} {a : AccountAction}
    (h : accountBranches.lookup action = some a) :
    adminBranches.lookup action = some .always := by
  obtain ⟨l₁, l₂, heq, -⟩ := List.lookup_eq_some_iff.mp h
  have hmem : (action, a) ∈ accountBranches := by
    rw [heq]
    simp
  have hall : ∀ x ∈ accountBranches, adminBranches.lookup x.1 = some .always := by decide
  exact hall _ hmem

theorem requireAdmin_eq_ok {now : Time} {s : Site} {token : Option String} {u : User} :
    requireAdmin now s token = .ok u ↔ sessionUser now s token = some u ∧ u.role = .admin := by
  unfold requireAdmin
  cases hu : sessionUser now s token with
  | none => simp
  | some v =>
    dsimp only
    split_ifs with hr
    · constructor
      · intro h
        cases h
        exact ⟨rfl, hr⟩
      · rintro ⟨h, -⟩
        cases h
        rfl
    · constructor
      · intro h
        cases h
      · rintro ⟨h, hr'⟩
        cases h
        exact absurd hr' hr

theorem requireAdmin_seen (now : Time) (s : Site) (token : Option String) :
    requireAdmin now (seen now s token) token = requireAdmin now s token := by
  unfold requireAdmin
  rw [sessionUser_seen]

/-- A request of an admin for a branch about accounts, and the site it leads to. -/
structure AdminChange (w : Works ρ) (h : Deployment ρ) (now : Time) (d : Draws) (req : Json)
    (a : AccountAction) (s' : Site) : Prop where
  lookup : accountBranches.lookup (rpcAction req) = some a
  admin : ∃ u, sessionUser now h.site (tokenOf req) = some u ∧ u.role = .admin
  branch : ∃ j, a.branch w.crypt.isSome d (seen now h.site (tokenOf req)) req = .ok (s', j)

theorem AdminChange.exists_iff {h : Deployment ρ} {now : Time} {d : Draws} {req : Json}
    {a : AccountAction} {s' : Site} (hs : AdminChange w h now d req a s')
    {Q : AccountAction → Prop} : (∃ b t, AdminChange w h now d req b t ∧ Q b) ↔ Q a := by
  constructor
  · rintro ⟨b, t, hb, hq⟩
    obtain rfl : b = a := Option.some.inj (hb.lookup.symm.trans hs.lookup)
    exact hq
  · exact fun hq => ⟨a, s', hs, hq⟩

theorem serveSite_account (h : Deployment ρ) (now : Time) (d : Draws) {req : Json}
    {a : AccountAction} (ha : accountBranches.lookup (rpcAction req) = some a) :
    (serveSite w h (.request now d req) = h ∧ ∀ s', ¬ AdminChange w h now d req a s') ∨
      AdminChange w h now d req a (serveSite w h (.request now d req)).site := by
  have hadmin := requireAdmin_seen now h.site (tokenOf req)
  cases hu : requireAdmin now h.site (tokenOf req) with
  | error e =>
    rw [hu] at hadmin
    have hsame : serveSite w h (.request now d req) = h := by
      simp only [serveSite, dashboardRpc, dashboardBranch, guard_of_account ha, AdminGuard.check,
        Works.backend, ha, hadmin]
      rfl
    refine .inl ⟨hsame, fun s' hs => ?_⟩
    obtain ⟨u, hsession⟩ := hs.admin
    rw [requireAdmin_eq_ok.mpr hsession] at hu
    cases hu
  | ok u =>
    rw [hu] at hadmin
    cases hx : a.branch w.crypt.isSome d (seen now h.site (tokenOf req)) req with
    | error e =>
      have hsame : serveSite w h (.request now d req) = h := by
        simp only [serveSite, dashboardRpc, dashboardBranch, guard_of_account ha, AdminGuard.check,
          Works.backend, ha, hadmin, hx]
        rfl
      refine .inl ⟨hsame, fun s' hs => ?_⟩
      obtain ⟨j, hj⟩ := hs.branch
      rw [hx] at hj
      cases hj
    | ok x =>
      have hdone : serveSite w h (.request now d req) = ⟨x.1, w.record req x.1 h.rest⟩ := by
        simp only [serveSite, dashboardRpc, dashboardBranch, guard_of_account ha, AdminGuard.check,
          Works.backend, ha, hadmin, hx]
        rfl
      rw [hdone]
      exact .inr ⟨ha, ⟨u, requireAdmin_eq_ok.mp hu⟩, x.2, hx⟩

/-- Every other request leaves accounts and logins as they are, unless it runs the owner's SQL. -/
theorem serveSite_other (h : Deployment ρ) (now : Time) (d : Draws) {req : Json}
    (how : (SiteEvent.request now d req : SiteEvent ρ).asOwner = false)
    (hin : rpcAction req ≠ "auth.login") (hout : rpcAction req ≠ "auth.logout")
    (hno : accountBranches.lookup (rpcAction req) = none) :
    serveSite w h (.request now d req) = h ∨
      SameAccess (seen now h.site (tokenOf req)) (serveSite w h (.request now d req)).site := by
  refine dashboardRpc_of_returns (Q := fun h' => h' = h ∨
    SameAccess (seen now h.site (tokenOf req)) h'.site) (w.backend d) now h req (.inl rfl) ?_
  unfold dashboardBranch
  split
  · refine returns_seq fun _ => ?_
    dsimp only [Works.backend]
    rw [hno, if_neg (by simpa [SiteEvent.asOwner] using how)]
    exact returns_map (returns_mono (returns_any _) fun x _ => .inr ⟨rfl, rfl, rfl⟩)
  · rename_i a hnone ha
    have hmem := mem_userBranches req ha
    refine returns_mono (UserAction.returns_branch ?_ ?_) fun _ hx => .inr hx
    · rintro rfl
      exact hin (by simpa [userBranches] using hmem)
    · rintro rfl
      exact hout (by simpa [userBranches] using hmem)
  · exact returns_ok (.inr (.refl _))

theorem lasts_serveSite (h : Deployment ρ) {e : SiteEvent ρ} (he : e.asOwner = false) :
    Lasts h.site.users (serveSite w h e).site.users := by
  cases e with
  | work e rest => exact .refl _
  | request now d req =>
    by_cases hin : rpcAction req = "auth.login"
    · rw [serveSite_login hin]
      split
      · rename_i x hx
        have hu := (fnLogin_admitted hx).choose_spec.2
        dsimp only
        rw [hu]
        dsimp only
        rw [users_seen]
        exact .refl _
      · exact .refl _
    · by_cases hout : rpcAction req = "auth.logout"
      · rw [serveSite_logout hout]
        dsimp only [fnLogout]
        rw [users_seen]
        exact .refl _
      · cases ha : accountBranches.lookup (rpcAction req) with
        | none =>
          rcases serveSite_other (w := w) h now d he hin hout ha with hs | hs
          · rw [hs]
            exact .refl _
          · rw [hs.users, users_seen]
            exact .refl _
        | some a =>
          rcases serveSite_account (w := w) h now d ha with hs | hs
          · rw [hs.1]
            exact .refl _
          · obtain ⟨j, hj⟩ := hs.branch
            have hl := (AccountAction.returns_branch a d req _ hj).lasts
            rwa [users_seen] at hl

end Serving

end Allgres
