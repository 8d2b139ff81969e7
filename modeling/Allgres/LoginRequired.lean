import Allgres.Dashboard

/-! Once there are accounts, a request without a login changes nothing but the logins
themselves, and the branches of an admin do nothing for anybody else. -/

namespace Allgres

open Raise Rows

theorem returns_map {α β : Type} {Q : β → Prop} {x : Except String α} {f : α → β}
    (h : Returns (fun v => Q (f v)) x) : Returns Q (x.map f) := by
  cases x with
  | error e => exact returns_error _
  | ok v => exact returns_ok (h v rfl)

/-- A call that always raises. -/
def Refused {α : Type} (x : Except String α) : Prop :=
  Returns (fun _ => False) x

theorem refused_error {α : Type} (e : String) : Refused (.error e : Except String α) :=
  returns_error e

theorem refused_bind {α β : Type} {x : Except String β} {k : β → Except String α} (h : Refused x) :
    Refused (x >>= k) :=
  returns_bind h fun _ hf => hf.elim

theorem refused_seq {α β : Type} {x : Except String β} {k : β → Except String α}
    (h : ∀ v, Refused (k v)) : Refused (x >>= k) :=
  returns_seq h

theorem refused_map {α β : Type} {x : Except String α} {f : α → β} (h : Refused x) :
    Refused (x.map f) :=
  returns_map (returns_mono h fun _ hf => hf.elim)

theorem refused_raiseIf {p : Prop} [Decidable p] {e : String} (h : p) :
    Refused (raiseIf p e) := by
  rw [raiseIf, if_pos h]
  exact refused_error e

section NoLogin

variable {now : Time} {s : Site} {token : Option String} {req : Json}

theorem requireAdmin_refused (h : (sessionUser now s token).all (·.role ≠ .admin) = true) :
    Refused (requireAdmin now s token) := by
  unfold requireAdmin
  cases hu : sessionUser now s token with
  | none => exact refused_error _
  | some u =>
    rw [hu] at h
    have hrole : u.role ≠ .admin := by simpa using h
    dsimp only
    rw [if_neg hrole]
    exact refused_error _

theorem requireAdminIfAccountsExist_refused (hs : s.users ≠ [])
    (h : (sessionUser now s token).all (·.role ≠ .admin) = true) :
    Refused (requireAdminIfAccountsExist now s token) := by
  rw [requireAdminIfAccountsExist, if_neg hs]
  exact refused_map (requireAdmin_refused h)

theorem AdminGuard.check_refused (hs : s.users ≠ [])
    (h : (sessionUser now s (tokenOf req)).all (·.role ≠ .admin) = true) (guard : AdminGuard) :
    Refused (guard.check now s req) := by
  cases guard with
  | ifAccountsExist => exact requireAdminIfAccountsExist_refused hs h
  | always => exact refused_map (requireAdmin_refused h)
  | identity =>
    exact refused_seq fun _ => refused_seq fun _ => requireAdminIfAccountsExist_refused hs h

theorem requireAgentAccess_refused (h : sessionUser now s token = none) (agentId : Option Uuid) :
    Refused (requireAgentAccess now s token agentId) := by
  rw [requireAgentAccess, h]
  exact refused_error _

theorem requireAgentAccessIfAccountsExist_refused (hs : s.users ≠ [])
    (h : sessionUser now s token = none) (agentId : Option Uuid) :
    Refused (requireAgentAccessIfAccountsExist now s token agentId) := by
  rw [requireAgentAccessIfAccountsExist, if_neg hs]
  exact refused_map (requireAgentAccess_refused h agentId)

theorem requireProjectAccess_refused (h : sessionUser now s token = none) (projectId : Option Uuid) :
    Refused (requireProjectAccess now s token projectId) := by
  unfold requireProjectAccess
  split
  · exact refused_error _
  · split
    · exact refused_error _
    · exact refused_bind (requireAgentAccess_refused h _)

theorem visibleAgentIds_none (hs : s.users ≠ []) (h : sessionUser now s token = none) :
    visibleAgentIds now s token = some [] := by
  rw [visibleAgentIds, h]
  exact if_neg hs

end NoLogin

section Writes

variable {pg : Postgres} {now : Time} {s : Site} {req : Json} (hs : s.users ≠ [])
  (h : sessionUser now s (tokenOf req) = none)
include hs h

theorem proposalsDecide_refused : Refused (proposalsDecide pg now s req) := by
  unfold proposalsDecide
  rw [visibleAgentIds_none hs h]
  refine refused_seq fun _ => refused_bind (refused_raiseIf ?_)
  simp

theorem fixesDecide_refused : Refused (fixesDecide pg now s req) := by
  unfold fixesDecide
  rw [visibleAgentIds_none hs h]
  refine refused_seq fun _ => refused_bind (refused_raiseIf ?_)
  simp

theorem approvalsDecide_refused : Refused (approvalsDecide now s req) := by
  unfold approvalsDecide
  rw [visibleAgentIds_none hs h]
  refine refused_seq fun _ => refused_bind (refused_raiseIf ?_)
  simp

theorem runBranch_refused : Refused (runBranch now s req) :=
  refused_seq fun _ => refused_bind (requireAgentAccessIfAccountsExist_refused hs h _)

theorem sessionsCancel_refused : Refused (sessionsCancel now s req) :=
  refused_seq fun _ => refused_bind (requireAgentAccessIfAccountsExist_refused hs h _)

theorem sessionsContinue_refused : Refused (sessionsContinue now s req) :=
  refused_seq fun _ => refused_bind (requireAgentAccessIfAccountsExist_refused hs h _)

theorem memoriesCreate_refused : Refused (memoriesCreate pg now s req) :=
  refused_seq fun _ => refused_bind (requireAgentAccessIfAccountsExist_refused hs h _)

theorem memoriesRemove_refused : Refused (memoriesRemove now s req) :=
  refused_seq fun _ => refused_bind (requireAgentAccessIfAccountsExist_refused hs h _)

omit hs

theorem chatSend_refused : Refused (chatSend now s req) :=
  refused_seq fun _ => refused_map (refused_bind (requireAgentAccess_refused h _))

theorem projectChatSend_refused : Refused (projectChatSend now s req) :=
  refused_seq fun _ => refused_map (refused_bind (requireProjectAccess_refused h _))

theorem setMyModel_refused : Refused (setMyModel now s req) :=
  refused_seq fun _ => refused_bind (requireAgentAccess_refused h _)

theorem fnMessengerPost_refused : Refused (fnMessengerPost now s (tokenOf req) (req.text "text")) := by
  rw [fnMessengerPost, h]
  exact refused_error _

end Writes

section Requests

variable {ρ : Type} (b : Backend ρ) (now : Time) (h : Deployment ρ) (req : Json)

def Deployment.withLogins (h : Deployment ρ) (rows : List WebSession) : Deployment ρ :=
  { h with site := { h.site with webSessions := rows } }

/-- Nothing has changed but the logins, by the two branches that are for them. -/
def LoginsOnly (req : Json) (h h' : Deployment ρ) : Prop :=
  h' = h ∨
  (rpcAction req = "auth.login" ∧ ∃ row, h' = h.withLogins (h.site.webSessions ++ [row])) ∨
  (rpcAction req = "auth.logout" ∧
    h' = h.withLogins (h.site.webSessions.filter fun w => some w.token ≠ tokenOf req))

theorem reading_same (r : Except String Json) : Returns (fun x => x.1 = h) (reading h r) :=
  returns_map (returns_mono (returns_any r) fun _ _ => rfl)

theorem writing_refused {r : Except String (Site × Json)} (hr : Refused r) :
    Returns (fun x => x.1 = h) (writing b h req r) :=
  returns_map (returns_mono hr fun _ hf => hf.elim)

theorem fnLogin_logins (crypt : Option (String → String → Bool)) (token : String)
    (username password : Option String) (s : Site) :
    Returns (fun x => ∃ row, x.1 = { s with webSessions := s.webSessions ++ [row] })
      (fnLogin now s crypt token username password) := by
  unfold fnLogin
  split
  · exact returns_error _
  · exact returns_error _
  · refine returns_ite (fun _ => ?_) fun _ => returns_error _
    refine returns_ite (fun _ => returns_error _) fun _ => returns_ok ⟨_, rfl⟩

theorem mem_userBranches {a : UserAction} (ha : userBranches.lookup (rpcAction req) = some a) :
    (rpcAction req, a) ∈ userBranches := by
  obtain ⟨l₁, l₂, heq, _⟩ := List.lookup_eq_some_iff.mp ha
  rw [heq]
  simp

/-- Of the branches that are open without an admin, every one that writes asks for a login. -/
theorem UserAction.branch_logins (hs : h.site.users ≠ [])
    (ht : sessionUser now h.site (tokenOf req) = none) {a : UserAction}
    (ha : userBranches.lookup (rpcAction req) = some a) :
    Returns (fun x => LoginsOnly req h x.1) (a.branch b now h req) := by
  have hread : ∀ r, Returns (fun x => LoginsOnly req h x.1) (reading h r) := fun r =>
    returns_mono (reading_same h r) fun _ hx => .inl hx
  have hwrite : ∀ {r}, Refused r → Returns (fun x => LoginsOnly req h x.1) (writing b h req r) :=
    fun hr => returns_mono (writing_refused b h req hr) fun _ hx => .inl hx
  cases a with
  | proposalsDecide => exact hwrite (proposalsDecide_refused hs ht)
  | fixesDecide => exact hwrite (fixesDecide_refused hs ht)
  | approvalsDecide => exact hwrite (approvalsDecide_refused hs ht)
  | run => exact hwrite (runBranch_refused hs ht)
  | sessionsCancel => exact hwrite (sessionsCancel_refused hs ht)
  | sessionsContinue => exact hwrite (sessionsContinue_refused hs ht)
  | memoriesCreate => exact hwrite (memoriesCreate_refused hs ht)
  | memoriesRemove => exact hwrite (memoriesRemove_refused hs ht)
  | chatSend => exact hwrite (chatSend_refused ht)
  | projectChatSend => exact hwrite (projectChatSend_refused ht)
  | agentsSetMyModel => exact hwrite (setMyModel_refused ht)
  | messengerPost => exact hwrite (fnMessengerPost_refused ht)
  | authLogin =>
    have hname : rpcAction req = "auth.login" := by
      simpa [userBranches] using mem_userBranches req ha
    refine returns_map (returns_mono (fnLogin_logins now b.crypt b.token _ _ h.site) ?_)
    rintro x ⟨row, hx⟩
    exact .inr (.inl ⟨hname, row, by rw [hx]; rfl⟩)
  | authLogout =>
    have hname : rpcAction req = "auth.logout" := by
      simpa [userBranches] using mem_userBranches req ha
    exact returns_ok (.inr (.inr ⟨hname, rfl⟩))
  | _ => exact hread _

theorem sessionUser_touch (s : Site) (token token' : Option String) :
    sessionUser now (touch now s token) token' = sessionUser now s token' := by
  unfold sessionUser touch
  have hfind : ∀ text, ((update (some ·.token = token) (fun w : WebSession =>
      { w with lastSeenAt := now }) s.webSessions).find? fun w => w.token = text ∧ now < w.expiresAt).map
        (·.userId) = (s.webSessions.find? fun w => w.token = text ∧ now < w.expiresAt).map (·.userId) := by
    intro text
    simp only [update, List.find?_map, Option.map_map]
    congr 1
    · funext w
      dsimp only [Function.comp_apply]
      split_ifs <;> rfl
    · congr 1
      funext w
      dsimp only [Function.comp_apply]
      split_ifs <;> rfl
  cases nullIfEmpty token' with
  | none => rfl
  | some text =>
    have := congrArg (Option.bind · fun id => s.users.find? fun u => u.userId = id ∧ u.isActive)
      (hfind text)
    simp only [Option.bind_map] at this
    exact this

theorem sessionUser_seen (s : Site) (token token' : Option String) :
    sessionUser now (seen now s token) token' = sessionUser now s token' := by
  unfold seen
  split_ifs
  · exact sessionUser_touch now s token token'
  · rfl

theorem seen_none {s : Site} {token : Option String} (ht : sessionUser now s token = none) :
    seen now s token = s := by
  rw [seen, ht]
  rfl

theorem dashboardRpc_of_returns {Q : Deployment ρ → Prop} (hh : Q h)
    (hb : Returns (fun x => Q x.1)
      (dashboardBranch b now { h with site := seen now h.site (tokenOf req) } req)) :
    Q (dashboardRpc b now h req).1 := by
  unfold dashboardRpc
  split
  · rename_i r hr
    exact hb r hr
  · exact hh

/-- Once there are accounts, a request whose token is no login changes nothing but logins, and a
branch of an admin changes nothing for a user who is none. -/
theorem no_mutation_without_login (hs : h.site.users ≠ []) :
    (sessionUser now h.site (tokenOf req) = none → LoginsOnly req h (dashboardRpc b now h req).1) ∧
    ∀ u, sessionUser now h.site (tokenOf req) = some u → u.role ≠ .admin →
      (adminBranches.lookup (rpcAction req)).isSome → (dashboardRpc b now h req).1 = h := by
  have husers : (seen now h.site (tokenOf req)).users = h.site.users := by
    unfold seen
    split_ifs <;> rfl
  constructor
  · intro ht
    refine dashboardRpc_of_returns b now h req (.inl rfl) ?_
    rw [seen_none now ht]
    unfold dashboardBranch
    split
    · refine returns_mono (refused_bind (AdminGuard.check_refused hs ?_ _)) fun _ hf => hf.elim
      rw [ht]
      rfl
    · rename_i a _ ha
      exact UserAction.branch_logins b now h req hs ht ha
    · exact returns_ok (.inl rfl)
  · intro u hu hrole hadmin
    refine dashboardRpc_of_returns (Q := fun x => x = h) b now h req rfl ?_
    obtain ⟨guard, hguard⟩ := Option.isSome_iff_exists.mp hadmin
    unfold dashboardBranch
    rw [hguard]
    have husers' : (seen now h.site (tokenOf req)).users ≠ [] := husers ▸ hs
    have hseen : (sessionUser now (seen now h.site (tokenOf req)) (tokenOf req)).all
        (·.role ≠ .admin) = true := by
      rw [sessionUser_seen, hu]
      simpa using hrole
    exact returns_mono (refused_bind (AdminGuard.check_refused husers' hseen _)) fun _ hf => hf.elim

end Requests

/-- A site with one user who is no admin, logged in under a token. -/
def oneLogin : Site :=
  { users := [{ userId := 3, username := "ann", role := .user }]
    webSessions := [{ token := "t", userId := 3, expiresAt := 1000 }] }

/-- A backend whose admin branches empty the site. -/
def wiping : Backend Unit :=
  { pg :=
      { rawParser := fun _ => .error ""
        explain := fun _ _ => .error "" }
    perform := fun _ _ h => .ok ({ h with site := {} }, .null)
    record := fun _ _ r => r
    crypt := none
    token := "" }

theorem nothing_wiped :
    LoginsOnly (.object [("action", .str "sql.execute")]) ⟨oneLogin, ()⟩
      (dashboardRpc wiping 0 ⟨oneLogin, ()⟩ (.object [("action", .str "sql.execute")])).1 ∧
    (dashboardRpc wiping 0 ⟨oneLogin, ()⟩
      (.object [("action", .str "agents.create"), ("session_token", .str "t")])).1 = ⟨oneLogin, ()⟩ := by
  refine ⟨(no_mutation_without_login wiping 0 ⟨oneLogin, ()⟩ _ (by simp [oneLogin])).1 ?_,
    (no_mutation_without_login wiping 0 ⟨oneLogin, ()⟩ _ (by simp [oneLogin])).2
      { userId := 3, username := "ann", role := .user } ?_ ?_ ?_⟩
  · decide +kernel
  · decide +kernel
  · decide
  · decide +kernel

end Allgres
