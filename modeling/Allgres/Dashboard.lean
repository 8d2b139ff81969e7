import Allgres.UserBranches

/-! `dashboard_rpc`: the branches, each behind its guard, and what an exception undoes. What an
admin's branch does is arbitrary; the guards alone keep everybody else out. -/

namespace Allgres

open Raise Rows

/-- The database: the site and every other table. -/
structure Deployment (ρ : Type) where
  site : Site
  rest : ρ

/-- What is behind the guards: the work of the branches of an admin, the rows a user's call
writes into the other tables, the password check and the token of a login. -/
structure Backend (ρ : Type) where
  pg : Postgres
  perform : String → Json → Deployment ρ → Except String (Deployment ρ × Json)
  record : Json → Site → ρ → ρ
  crypt : Option (String → String → Bool)
  token : String

/-- The guard of a branch that is open to admins only. -/
inductive AdminGuard where
  | ifAccountsExist
  | always
  | identity
  deriving DecidableEq

def AdminGuard.check (now : Time) (s : Site) (req : Json) : AdminGuard → Except String Unit
  | ifAccountsExist => requireAdminIfAccountsExist now s (tokenOf req)
  | always => (requireAdmin now s (tokenOf req)).map fun _ => ()
  | identity => do
    let agentId ← uuidField req "agent_id"
    forbidSystemAgentEdit s agentId
    requireAdminIfAccountsExist now s (tokenOf req)

/-- The branches that are open to admins only, in the order of the source. -/
def adminBranches : List (String × AdminGuard) :=
  [("overview", .ifAccountsExist),
    ("agents.list", .ifAccountsExist),
    ("agents.set_execution_rule", .ifAccountsExist),
    ("agents.set_autonomy", .ifAccountsExist),
    ("agents.set_function_override_autonomy_preset", .ifAccountsExist),
    ("agents.create", .ifAccountsExist),
    ("agents.update", .identity),
    ("policy.history", .ifAccountsExist),
    ("policy.rollback", .identity),
    ("function_experiments.list", .ifAccountsExist),
    ("permissions.grant", .identity),
    ("permissions.revoke", .identity),
    ("permissions.options", .ifAccountsExist),
    ("allowlist.list", .ifAccountsExist),
    ("allowlist.add", .ifAccountsExist),
    ("allowlist.remove", .ifAccountsExist),
    ("projects.create", .ifAccountsExist),
    ("projects.update", .ifAccountsExist),
    ("users.create", .always),
    ("users.list", .always),
    ("users.set_active", .always),
    ("users.set_role", .always),
    ("assignments.set", .always),
    ("assignments.list", .always),
    ("assignments.for_agent", .always),
    ("assignments.toggle", .always),
    ("sessions.list", .ifAccountsExist),
    ("tasks.list", .ifAccountsExist),
    ("logs.list", .ifAccountsExist),
    ("audit.list", .ifAccountsExist),
    ("settings.get", .ifAccountsExist),
    ("sql.execute", .ifAccountsExist),
    ("provider.update", .ifAccountsExist),
    ("provider.create", .ifAccountsExist),
    ("model_prices.list", .ifAccountsExist),
    ("model_prices.set", .ifAccountsExist),
    ("model_prices.delete", .ifAccountsExist),
    ("connections.list", .ifAccountsExist),
    ("connections.create", .ifAccountsExist),
    ("connections.update", .ifAccountsExist),
    ("connections.delete", .ifAccountsExist),
    ("procedures.list", .ifAccountsExist),
    ("procedures.get", .ifAccountsExist),
    ("procedures.create", .ifAccountsExist),
    ("procedures.update", .ifAccountsExist),
    ("procedures.rollback", .ifAccountsExist),
    ("functions.list", .ifAccountsExist),
    ("capabilities.list", .ifAccountsExist),
    ("capabilities.reindex", .ifAccountsExist),
    ("capabilities.evaluate", .ifAccountsExist),
    ("capabilities.transition", .ifAccountsExist),
    ("capabilities.rollback", .ifAccountsExist),
    ("functions.create", .ifAccountsExist),
    ("functions.update", .ifAccountsExist),
    ("functions.rollback", .ifAccountsExist),
    ("functions.bind", .ifAccountsExist),
    ("schedules.list", .ifAccountsExist),
    ("schedules.create", .ifAccountsExist),
    ("schedules.update", .ifAccountsExist),
    ("schedules.delete", .ifAccountsExist),
    ("schedules.run_now", .ifAccountsExist),
    ("providers.oauth_start", .ifAccountsExist),
    ("providers.oauth_device_start", .ifAccountsExist),
    ("providers.oauth_device_status", .ifAccountsExist),
    ("providers.oauth_callback", .ifAccountsExist),
    ("providers.probe_start", .ifAccountsExist),
    ("providers.probe_status", .ifAccountsExist),
    ("selftest", .ifAccountsExist)]

inductive UserAction where
  | agentsEvaluate | proposalsList | proposalsDecide | fixesList | fixesDecide | permissionsList
  | projectsList | projectChatSend | projectChatHistory | run | sessionsCancel | sessionsContinue
  | authLogin | authLogout | authMe | agentsMine | agentsSetMyModel | chatSend | chatHistory
  | messengerPost | messengerList | sessionsGet | memoriesList | memoriesCreate | memoriesRemove
  | historySearch | providersAvailable | events | approvalsList | approvalsDecide
  deriving DecidableEq

/-- The other branches, in the order of the source. -/
def userBranches : List (String × UserAction) :=
  [("agents.evaluate", .agentsEvaluate), ("proposals.list", .proposalsList),
    ("proposals.decide", .proposalsDecide), ("fixes.list", .fixesList),
    ("fixes.decide", .fixesDecide), ("permissions.list", .permissionsList),
    ("projects.list", .projectsList), ("project_chat.send", .projectChatSend),
    ("project_chat.history", .projectChatHistory), ("run", .run),
    ("sessions.cancel", .sessionsCancel), ("sessions.continue", .sessionsContinue),
    ("auth.login", .authLogin), ("auth.logout", .authLogout), ("auth.me", .authMe),
    ("agents.mine", .agentsMine), ("agents.set_my_model", .agentsSetMyModel),
    ("chat.send", .chatSend), ("chat.history", .chatHistory), ("messenger.post", .messengerPost),
    ("messenger.list", .messengerList), ("sessions.get", .sessionsGet),
    ("memories.list", .memoriesList), ("memories.create", .memoriesCreate),
    ("memories.remove", .memoriesRemove), ("history.search", .historySearch),
    ("providers.available", .providersAvailable), ("events", .events),
    ("approvals.list", .approvalsList), ("approvals.decide", .approvalsDecide)]

def rpcAction (req : Json) : String :=
  orEmpty (req.text "action")

section Dispatch

variable {ρ : Type} (b : Backend ρ) (now : Time) (h : Deployment ρ) (req : Json)

/-- A branch that only reads, and one whose call also writes into the other tables. -/
def reading (r : Except String Json) : Except String (Deployment ρ × Json) :=
  r.map fun v => (h, v)

def writing (r : Except String (Site × Json)) : Except String (Deployment ρ × Json) :=
  r.map fun x => (⟨x.1, b.record req h.site h.rest⟩, x.2)

def UserAction.branch : UserAction → Except String (Deployment ρ × Json)
  | agentsEvaluate => reading h (uuidField req "agent_id" >>= fnEvaluateLastChange h.site.db)
  | proposalsList => reading h (Allgres.proposalsList b.pg now h.site req)
  | proposalsDecide => writing b h req (Allgres.proposalsDecide b.pg now h.site req)
  | fixesList => reading h (Allgres.fixesList b.pg now h.site req)
  | fixesDecide => writing b h req (Allgres.fixesDecide b.pg now h.site req)
  | permissionsList => reading h (Allgres.permissionsList h.site req)
  | projectsList => reading h (.ok (Allgres.projectsList now h.site req))
  | projectChatSend => writing b h req (Allgres.projectChatSend now h.site req)
  | projectChatHistory => reading h (Allgres.projectChatHistory b.pg now h.site req)
  | run => writing b h req (runBranch now h.site req)
  | sessionsCancel => writing b h req (Allgres.sessionsCancel now h.site req)
  | sessionsContinue => writing b h req (Allgres.sessionsContinue now h.site req)
  | authLogin =>
    (fnLogin now h.site b.crypt b.token (req.text "username") (req.text "password")).map
      fun x => (⟨x.1, h.rest⟩, x.2)
  | authLogout => .ok (⟨(fnLogout h.site (tokenOf req)).1, h.rest⟩, (fnLogout h.site (tokenOf req)).2)
  | authMe => reading h (.ok (Allgres.authMe now h.site req))
  | agentsMine => reading h (Allgres.agentsMine now h.site req)
  | agentsSetMyModel => writing b h req (setMyModel now h.site req)
  | chatSend => writing b h req (Allgres.chatSend now h.site req)
  | chatHistory => reading h (Allgres.chatHistory b.pg now h.site req)
  | messengerPost => writing b h req (fnMessengerPost now h.site (tokenOf req) (req.text "text"))
  | messengerList => reading h (Allgres.messengerList b.pg now h.site req)
  | sessionsGet => reading h (Allgres.sessionsGet b.pg now h.site req)
  | memoriesList => reading h (Allgres.memoriesList b.pg now h.site req)
  | memoriesCreate => writing b h req (Allgres.memoriesCreate b.pg now h.site req)
  | memoriesRemove => writing b h req (Allgres.memoriesRemove now h.site req)
  | historySearch => reading h (Allgres.historySearch b.pg now h.site req)
  | providersAvailable => reading h (Allgres.providersAvailable now h.site req)
  | events => reading h (.ok (eventsReply b.pg now h.site req))
  | approvalsList => reading h (Allgres.approvalsList b.pg now h.site req)
  | approvalsDecide => writing b h req (Allgres.approvalsDecide now h.site req)

def dashboardBranch : Except String (Deployment ρ × Json) :=
  match adminBranches.lookup (rpcAction req), userBranches.lookup (rpcAction req) with
  | some guard, _ => do
    guard.check now h.site req
    b.perform (rpcAction req) req h
  | none, some a => a.branch b now h req
  | none, none => .ok (h, .object [("ok", .bool false), ("error", .str "unknown_action"),
      ("action", .str (rpcAction req))])

/-- An exception undoes everything, the time the token was last seen included. -/
def dashboardRpc : Deployment ρ × Json :=
  match dashboardBranch b now { h with site := seen now h.site (tokenOf req) } req with
  | .ok r => r
  | .error e => (h, .object [("ok", .bool false), ("error", .str e)])

end Dispatch

end Allgres
