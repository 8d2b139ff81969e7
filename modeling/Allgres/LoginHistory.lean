import Allgres.Authority

/-! The history of a site says who its callers are: a token stands for the account that logged in
for it, for a week or until it is logged out, and accounts change by the hands of admins only. -/

namespace Allgres

open Raise Rows Runs

section Steps

variable {ρ : Type} {w : Works ρ} {h : Deployment ρ} {now : Time} {d : Draws} {req : Json}
  {tok : String} {u v : User}

/-- A request that logs an account in: it names the account, and its password fits. -/
structure LoggedIn (w : Works ρ) (h : Deployment ρ) (d : Draws) (req : Json) (tok : String)
    (u : User) : Prop where
  action : rpcAction req = "auth.login"
  drawn : d.token = tok
  fresh : ∀ x ∈ logins h.site, x.1 ≠ tok
  account : ∃ v ∈ h.site.users, v.isActive = true ∧ v.identity = u.identity
  name : u.username = btrim (orEmpty (req.text "username"))
  password : ∃ fits, w.crypt = some fits ∧
    fits (orEmpty (req.text "password")) u.passwordHash = true

theorem LoggedIn.congr (hl : LoggedIn w h d req tok u) (huv : u.identity = v.identity) :
    LoggedIn w h d req tok v := by
  obtain ⟨x, hx, hactive, hid⟩ := hl.account
  obtain ⟨fits, hcrypt, hfits⟩ := hl.password
  have hname : u.username = v.username := congrArg (·.2.1) huv
  have hhash : u.passwordHash = v.passwordHash := congrArg (·.2.2) huv
  exact ⟨hl.action, hl.drawn, hl.fresh, ⟨x, hx, hactive, hid.trans huv⟩, hname ▸ hl.name,
    fits, hcrypt, hhash ▸ hfits⟩

theorem loggedIn_of_admitted (hreq : rpcAction req = "auth.login")
    (ha : Admitted h.site w.crypt d.token (req.text "username") (req.text "password") u) :
    LoggedIn w h d req d.token u := by
  have hp := List.find?_some ha.found
  have hfound : u.username = btrim (orEmpty (req.text "username")) ∧ u.isActive = true := by
    simpa using hp
  exact ⟨hreq, rfl, ha.fresh, ⟨u, List.mem_of_find?_eq_some ha.found, hfound.2, rfl⟩, hfound.1,
    ha.password⟩

theorem LoggedIn.admitted (hk : h.site.Keyed) (hl : LoggedIn w h d req tok u) :
    ∃ v, Admitted h.site w.crypt d.token (req.text "username") (req.text "password") v ∧
      v.identity = u.identity := by
  obtain ⟨v, hv, hactive, hid⟩ := hl.account
  have hname : v.username = u.username := congrArg (·.2.1) hid
  have hhash : v.passwordHash = u.passwordHash := congrArg (·.2.2) hid
  obtain ⟨fits, hcrypt, hfits⟩ := hl.password
  refine ⟨v, ⟨hk.users.find_named.mpr ⟨hv, hname.trans hl.name, hactive⟩, ⟨fits, hcrypt, ?_⟩, ?_⟩,
    hid⟩
  · rw [hhash]
    exact hfits
  · rw [hl.drawn]
    exact hl.fresh

def LogsOut (tok : String) : SiteEvent ρ → Prop
  | .request _ _ req => rpcAction req = "auth.logout" ∧ tokenOf req = some tok
  | .work _ _ => False

def NewLogin (w : Works ρ) (h : Deployment ρ) : SiteEvent ρ → String × Uuid × Time → Prop
  | .request now d req, x => ∃ u, LoggedIn w h d req x.1 u ∧ x.2 = (u.userId, now + week)
  | .work _ _, _ => False

theorem logins_login {s s' : Site} {now : Time} {token : Option String}
    (hr : s' = { seen now s token with
      webSessions := (seen now s token).webSessions ++ [loginRow now d.token u] }) :
    logins s' = logins s ++ [(d.token, u.userId, now + week)] := by
  rw [← logins_seen now s token, hr]
  simp [logins, loginRow]

theorem logins_logout (s : Site) (now : Time) (token : Option String) :
    logins (fnLogout (seen now s token) token).1 =
      (logins s).filter fun x => some x.1 ≠ token := by
  rw [← logins_seen now s token]
  simp [logins, fnLogout, List.filter_map, Function.comp_def]

theorem logins_other (how : (SiteEvent.request now d req : SiteEvent ρ).asOwner = false)
    (hin : rpcAction req ≠ "auth.login") (hout : rpcAction req ≠ "auth.logout") :
    logins (serveSite w h (.request now d req)).site = logins h.site := by
  have hsame : ∀ {s' : Site}, s'.webSessions = (seen now h.site (tokenOf req)).webSessions →
      logins s' = logins h.site := by
    intro s' h'
    rw [← logins_seen now h.site (tokenOf req), logins, logins, h']
  cases ha : accountBranches.lookup (rpcAction req) with
  | none =>
    rcases serveSite_other (w := w) h now d how hin hout ha with hs | hs
    · rw [hs]
    · exact hsame hs.webSessions
  | some a =>
    rcases serveSite_account (w := w) h now d ha with hs | hs
    · rw [hs.1]
    · obtain ⟨j, hj⟩ := hs.branch
      exact hsame (AccountAction.returns_branch a d req _ hj).webSessions

/-- What one event does to the logins. -/
theorem mem_logins_serve (hk : h.site.Keyed) {e : SiteEvent ρ} (he : e.asOwner = false) (x : String × Uuid × Time) :
    x ∈ logins (serveSite w h e).site ↔
      (x ∈ logins h.site ∧ ¬ LogsOut x.1 e) ∨ NewLogin w h e x := by
  cases e with
  | work e rest =>
    have hsame : logins (serveSite w h (.work e rest)).site = logins h.site := rfl
    rw [hsame]
    simp [LogsOut, NewLogin]
  | request now d req =>
    by_cases hin : rpcAction req = "auth.login"
    · have hnot : ¬ LogsOut x.1 (.request now d req : SiteEvent ρ) := by
        rintro ⟨hout, -⟩
        rw [hin] at hout
        exact absurd hout (by decide)
      rw [serveSite_login hin]
      cases hf : fnLogin now (seen now h.site (tokenOf req)) w.crypt d.token (req.text "username")
          (req.text "password") with
      | error e =>
        constructor
        · exact fun hx => .inl ⟨hx, hnot⟩
        · rintro (⟨hx, -⟩ | ⟨u, hl, -⟩)
          · exact hx
          · obtain ⟨v, hv, -⟩ := hl.admitted hk
            have hv' : Admitted (seen now h.site (tokenOf req)) w.crypt d.token
                (req.text "username") (req.text "password") v := admitted_seen.mpr hv
            obtain ⟨j, hj⟩ := fnLogin_of_admitted now hv'
            rw [hf] at hj
            cases hj
      | ok r =>
        obtain ⟨u, hu, hr⟩ := fnLogin_admitted hf
        have hu' := admitted_seen.mp hu
        dsimp only
        rw [logins_login hr, List.mem_append, List.mem_singleton]
        constructor
        · rintro (hx | rfl)
          · exact .inl ⟨hx, hnot⟩
          · exact .inr ⟨u, loggedIn_of_admitted hin hu', rfl⟩
        · rintro (⟨hx, -⟩ | ⟨v, hl, hx⟩)
          · exact .inl hx
          · right
            -- names are unique, so the request names no second account
            obtain ⟨v', hv', hid⟩ := hl.admitted hk
            obtain rfl : v' = u := Option.some.inj (hv'.found.symm.trans hu'.found)
            have hvu : v'.userId = v.userId := congrArg (·.1) hid
            rw [hvu, hl.drawn, ← hx]
    · have hnone : ¬ NewLogin w h (.request now d req) x := by
        rintro ⟨u, hl, -⟩
        exact hin hl.action
      by_cases hout : rpcAction req = "auth.logout"
      · rw [serveSite_logout hout]
        dsimp only
        rw [logins_logout, List.mem_filter]
        have hlogs : LogsOut x.1 (.request now d req : SiteEvent ρ) ↔ tokenOf req = some x.1 :=
          ⟨fun h => h.2, fun h => ⟨hout, h⟩⟩
        rw [hlogs, or_iff_left hnone]
        refine and_congr_right fun _ => ?_
        rw [decide_eq_true_eq]
        exact not_congr eq_comm
      · have hnot : ¬ LogsOut x.1 (.request now d req : SiteEvent ρ) := fun h => hout h.1
        rw [logins_other he hin hout]
        simp [hnot, hnone]

theorem keyed_serve (hk : h.site.Keyed) {e : SiteEvent ρ} (he : e.asOwner = false) :
    (serveSite w h e).site.Keyed := by
  refine ⟨(lasts_serveSite h he).keyed hk.users, ?_⟩
  cases e with
  | work e rest => exact hk.tokens
  | request now d req =>
    by_cases hin : rpcAction req = "auth.login"
    · rw [serveSite_login hin]
      cases hf : fnLogin now (seen now h.site (tokenOf req)) w.crypt d.token (req.text "username")
          (req.text "password") with
      | error e => exact hk.tokens
      | ok r =>
        obtain ⟨u, hu, hr⟩ := fnLogin_admitted hf
        have hfresh := (admitted_seen.mp hu).fresh
        dsimp only
        rw [logins_login hr, List.map_append, List.nodup_append]
        refine ⟨hk.tokens, by simp, fun t ht t' ht' => ?_⟩
        obtain ⟨x, hx, rfl⟩ := List.mem_map.mp ht
        rw [List.mem_singleton.mp ht']
        exact hfresh x hx
    · by_cases hout : rpcAction req = "auth.logout"
      · rw [serveSite_logout hout]
        dsimp only
        rw [logins_logout]
        exact hk.tokens.sublist (List.filter_sublist.map _)
      · rw [logins_other he hin hout]
        exact hk.tokens

end Steps

section Runs

variable {ρ : Type} (w : Works ρ)

/-- A site before its first request: accounts with their keys, and nobody logged in. -/
structure Installed (ρ : Type) where
  deployment : Deployment ρ
  keyed : KeyedUsers deployment.site.users
  noLogins : deployment.site.webSessions = []

variable (i : Installed ρ)

def Installed.after (es : List (SiteEvent ρ)) : Deployment ρ :=
  run (serveSite w) i.deployment es

theorem keyed_after {es : List (SiteEvent ρ)} (hes : ∀ e ∈ es, e.asOwner = false) :
    (i.after w es).site.Keyed := by
  have hstart : i.deployment.site.Keyed := by
    refine ⟨i.keyed, ?_⟩
    rw [logins, i.noLogins]
    exact List.nodup_nil
  have hstep : ∀ (h : Deployment ρ) e, h.site.Keyed → e.asOwner = false →
      (serveSite w h e).site.Keyed := fun h e hk he => keyed_serve hk he
  exact invariant hstep hstart (along_iff_forall.mpr hes)

theorem lasts_run (h : Deployment ρ) {es : List (SiteEvent ρ)}
    (hes : ∀ e ∈ es, e.asOwner = false) :
    Lasts h.site.users (run (serveSite w) h es).site.users := by
  induction es generalizing h with
  | nil => exact .refl _
  | cons e es ih =>
    obtain ⟨he, hes⟩ := List.forall_mem_cons.mp hes
    exact (lasts_serveSite h he).trans (ih _ hes)

/-- A login for a token that is not a week old and has not been logged out since. -/
def LoginStands (es : List (SiteEvent ρ)) (now : Time) (tok : String) (u : User) : Prop :=
  ∃ before m d req later, es = before ++ .request m d req :: later ∧
    LoggedIn w (i.after w before) d req tok u ∧ now < m + week ∧ ∀ e ∈ later, ¬ LogsOut tok e

theorem mem_logins_after {es : List (SiteEvent ρ)} (hes : ∀ e ∈ es, e.asOwner = false)
    {x : String × Uuid × Time} :
    x ∈ logins (i.after w es).site ↔
      ∃ before e later, es = before ++ e :: later ∧ NewLogin w (i.after w before) e x ∧
        ∀ f ∈ later, ¬ LogsOut x.1 f := by
  have hnone : x ∉ logins i.deployment.site := by
    rw [logins, i.noLogins]
    exact List.not_mem_nil
  have hinv : ∀ (h : Deployment ρ) e, e.asOwner = false → h.site.Keyed →
      (serveSite w h e).site.Keyed := fun h e he hk => keyed_serve hk he
  have hstep : ∀ (h : Deployment ρ) e y, e.asOwner = false → h.site.Keyed →
      (y ∈ logins (serveSite w h e).site ↔
        (y ∈ logins h.site ∧ ¬ LogsOut y.1 e) ∨ NewLogin w h e y) :=
    fun h e y he hk => mem_logins_serve hk he y
  have hstart : i.deployment.site.Keyed := keyed_after w i (List.forall_mem_nil _)
  refine (mem_table_iff (fun h : Deployment ρ => logins h.site)
    (fun h : Deployment ρ => h.site.Keyed) _ hinv hstep hstart es hes).trans ?_
  simp only [Spared, Arrived, along_iff_forall]
  exact or_iff_right fun h => hnone h.1

/-- An account keeps its name and password, so the password that fitted at a login still fits. -/
theorem identity_of_login {es later : List (SiteEvent ρ)}
    (hes : ∀ e ∈ es ++ later, e.asOwner = false) {d : Draws} {req : Json} {tok : String}
    {u v : User} (hl : LoggedIn w (i.after w es) d req tok v)
    (hu : u ∈ (i.after w (es ++ later)).site.users) (hid : u.userId = v.userId) :
    v.identity = u.identity := by
  obtain ⟨x, hx, -, hxv⟩ := hl.account
  have hrun : i.after w (es ++ later) = run (serveSite w) (i.after w es) later :=
    run_append _ _ _
  obtain ⟨y, hy, hyx⟩ := (lasts_run w (i.after w es) fun e he => hes e (List.mem_append_right _ he)).kept x hx
  have hyid : y.userId = u.userId := by
    have h1 : y.userId = x.userId := congrArg (·.1) hyx
    have h2 : x.userId = v.userId := congrArg (·.1) hxv
    rw [h1, h2, hid]
  rw [← hrun] at hy
  obtain rfl := (keyed_after w i hes).users.eq_of_id hy hu hyid
  exact (hyx.trans hxv).symm

/-- A token stands for the account that logged in for it, for as long as the account is active
and the login is neither a week old nor logged out. -/
theorem sessionUser_after {es : List (SiteEvent ρ)} (hes : ∀ e ∈ es, e.asOwner = false) (now : Time) (tok : String) (u : User) :
    let site := (i.after w es).site
    sessionUser now site (some tok) = some u ↔
      tok ≠ "" ∧ u ∈ site.users ∧ u.isActive = true ∧ LoginStands w i es now tok u := by
  intro site
  rw [(keyed_after w i hes).sessionUser_iff]
  refine and_congr_right fun _ => and_congr_right fun hu => and_congr_right fun _ => ?_
  constructor
  · rintro ⟨expiry, hrow, hnow⟩
    obtain ⟨before, e, later, rfl, hnew, hkept⟩ := (mem_logins_after w i hes).mp hrow
    cases e with
    | work e rest => exact hnew.elim
    | request m d req =>
      obtain ⟨v, hl, hpair⟩ := hnew
      obtain ⟨hid, rfl⟩ := Prod.mk.inj hpair
      have hl' := hl.congr (identity_of_login w i hes hl hu hid)
      exact ⟨before, m, d, req, later, rfl, hl', hnow, hkept⟩
  · rintro ⟨before, m, d, req, later, rfl, hl, hnow, hkept⟩
    refine ⟨m + week, (mem_logins_after w i hes).mpr ?_, hnow⟩
    exact ⟨before, .request m d req, later, rfl, ⟨u, hl, rfl⟩, hkept⟩

def SameAccounts (h h' : Deployment ρ) : Prop :=
  h'.site.users = h.site.users ∧ h'.site.assignments = h.site.assignments

/-- A request whose token stands for an admin. -/
def AdminRequest (es : List (SiteEvent ρ)) : SiteEvent ρ → Prop
  | .request m _ req => ∃ tok u, tokenOf req = some tok ∧ u ∈ (i.after w es).site.users ∧
      u.isActive = true ∧ u.role = .admin ∧ LoginStands w i es m tok u
  | .work _ _ => False

theorem serveSite_unaccounted (h : Deployment ρ) (m : Time) (d : Draws) {req : Json}
    (how : (SiteEvent.request m d req : SiteEvent ρ).asOwner = false)
    (ha : accountBranches.lookup (rpcAction req) = none) :
    SameAccounts h (serveSite w h (.request m d req)) := by
  by_cases hin : rpcAction req = "auth.login"
  · rw [serveSite_login hin]
    split
    · rename_i r hr
      obtain ⟨u, -, hr⟩ := fnLogin_admitted hr
      rw [SameAccounts, hr]
      exact ⟨users_seen _ _ _, assignments_seen _ _ _⟩
    · exact ⟨rfl, rfl⟩
  · by_cases hout : rpcAction req = "auth.logout"
    · rw [serveSite_logout hout]
      exact ⟨users_seen _ _ _, assignments_seen _ _ _⟩
    · rcases serveSite_other (w := w) h m d how hin hout ha with hs | hs
      · rw [hs]
        exact ⟨rfl, rfl⟩
      · exact ⟨hs.users.trans (users_seen _ _ _), hs.assignments.trans (assignments_seen _ _ _)⟩

theorem serveSite_accounts {es : List (SiteEvent ρ)} (hes : ∀ e ∈ es, e.asOwner = false)
    {e : SiteEvent ρ} (he : e.asOwner = false) :
    SameAccounts (i.after w es) (serveSite w (i.after w es) e) ∨ AdminRequest w i es e := by
  cases e with
  | work e rest => exact .inl ⟨rfl, rfl⟩
  | request m d req =>
    cases ha : accountBranches.lookup (rpcAction req) with
    | none => exact .inl (serveSite_unaccounted w _ m d he ha)
    | some a =>
      rcases serveSite_account (w := w) (i.after w es) m d ha with hs | hs
      · rw [hs.1]
        exact .inl ⟨rfl, rfl⟩
      · obtain ⟨u, hu, hrole⟩ := hs.admin
        cases htok : tokenOf req with
        | none =>
          rw [htok] at hu
          simp [sessionUser, nullIfEmpty] at hu
        | some tok =>
          rw [htok] at hu
          obtain ⟨-, hmem, hactive, hstands⟩ := (sessionUser_after w i hes m tok u).mp hu
          exact .inr ⟨tok, u, htok, hmem, hactive, hrole, hstands⟩

/-- As long as no request has SQL run as the owner, only admins who are logged in change accounts.
So none changes before one of the admins of the installation has logged in. -/
theorem accounts_change_by_admins (es : List (SiteEvent ρ)) (hes : ∀ e ∈ es, e.asOwner = false) :
    (∀ e, e.asOwner = false →
      SameAccounts (i.after w es) (serveSite w (i.after w es) e) ∨ AdminRequest w i es e) ∧
    (SameAccounts i.deployment (i.after w es) ∨
      ∃ u ∈ i.deployment.site.users, u.isActive = true ∧ u.role = .admin ∧
        ∃ before m d req later tok, es = before ++ .request m d req :: later ∧
          LoggedIn w (i.after w before) d req tok u) := by
  refine ⟨fun e he => serveSite_accounts w i hes he, ?_⟩
  induction es using List.reverseRecOn with
  | nil => exact .inl ⟨rfl, rfl⟩
  | append_singleton es e ih =>
    -- up to the first change the admins are still those of the installation
    have hafter : i.after w (es ++ [e]) = serveSite w (i.after w es) e := run_snoc _ _ _
    have hbefore : ∀ f ∈ es, f.asOwner = false := fun f hf => hes f (List.mem_append_left _ hf)
    have he : e.asOwner = false := hes e (List.mem_append_right _ (List.mem_singleton_self e))
    rcases ih hbefore with hsame | ⟨u, hu, hactive, hrole, before, m, d, req, later, tok, rfl, hl⟩
    · rcases serveSite_accounts w i hbefore he with hs | hs
      · rw [hafter]
        exact .inl ⟨hs.1.trans hsame.1, hs.2.trans hsame.2⟩
      · right
        cases e with
        | work e rest => exact hs.elim
        | request m d req =>
          obtain ⟨tok, u, -, hu, hactive, hrole, hstands⟩ := hs
          obtain ⟨before, m', d', req', later, rfl, hl, -⟩ := hstands
          rw [hsame.1] at hu
          exact ⟨u, hu, hactive, hrole, before, m', d', req', later ++ [.request m d req], tok,
            by simp, hl⟩
    · exact .inr ⟨u, hu, hactive, hrole, before, m, d, req, later ++ [e], tok, by simp, hl⟩

end Runs

/-- An admin and an agent. -/
def office : Installed Unit where
  deployment :=
    { site :=
        { users := [{ userId := 1, username := "root", passwordHash := "open sesame", role := .admin }]
          db := { cfg := { agents := [{ agentId := 5, name := "writer" }] } } }
      rest := () }
  keyed := ⟨by decide, by decide⟩
  noLogins := rfl

def officeWorks : Works Unit where
  pg := bareServer
  crypt := some fun password hash => password == hash
  record := fun _ _ rest => rest
  perform := fun _ _ h => .ok ([], h.rest, .null)
  asOwner := fun _ _ h => .ok ({ h with site := {} }, .null)

def officeRequest (now : Time) (token : String) (fields : List (String × Json)) : SiteEvent Unit :=
  .request now ⟨token, 2, id⟩ (.object fields)

def rootLogsIn : SiteEvent Unit :=
  officeRequest 1 "r" [("action", .str "auth.login"), ("username", .str "root"),
    ("password", .str "open sesame")]

def annCreated : SiteEvent Unit :=
  officeRequest 2 "" [("action", .str "users.create"), ("session_token", .str "r"),
    ("username", .str "ann"), ("password", .str "correct horse")]

theorem ann_created_by_root :
    AdminRequest officeWorks office [rootLogsIn] annCreated ∧
    ∃ u ∈ office.deployment.site.users, ∃ before m d req later tok,
      [rootLogsIn, annCreated] = before ++ .request m d req :: later ∧
        LoggedIn officeWorks (office.after officeWorks before) d req tok u := by
  have hone : (office.after officeWorks [rootLogsIn]).site.users.length = 1 := by decide +kernel
  have htwo : (office.after officeWorks [rootLogsIn, annCreated]).site.users.length = 2 := by
    decide +kernel
  constructor
  · refine ((accounts_change_by_admins officeWorks office [rootLogsIn] (by decide +kernel)).1
      annCreated (by decide +kernel)).resolve_left fun hsame => ?_
    rw [← hsame.1] at hone
    exact absurd (htwo.symm.trans hone) (by decide)
  · rcases (accounts_change_by_admins officeWorks office [rootLogsIn, annCreated]
      (by decide +kernel)).2 with hsame | ⟨u, hu, -, -, hlogin⟩
    · rw [hsame.1] at htwo
      exact absurd htwo (by decide)
    · exact ⟨u, hu, hlogin⟩

end Allgres
