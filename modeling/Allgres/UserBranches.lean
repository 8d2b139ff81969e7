import Allgres.Decisions
import Allgres.Site

/-! The branches of `dashboard_rpc` that a user gets through without being an admin. A reply
leaves out the ids and times of configuration rows that no table here has. -/

namespace Allgres

open Raise Rows

section Fields

variable (req : Json)

def tokenOf : Option String :=
  req.text "session_token"

def uuidField (key : String) : Except String (Option Uuid) :=
  castOrRaise castUuid "uuid" (req.text key)

def optionalUuid (key : String) : Except String (Option Uuid) :=
  castOrRaise castUuid "uuid" (nullIfEmpty (req.text key))

def boolField (key : String) : Except String (Option Bool) :=
  castOrRaise castBool "boolean" (req.text key)

/-- `LEAST(GREATEST(COALESCE(limit, usual), 1), top)`. -/
def limitField (usual top : Int) : Except String Nat := do
  let n ← castOrRaise castInt "integer" (req.text "limit")
  pure (min (max (n.getD usual) 1) top).toNat

end Fields

def idJson (id : Uuid) : Json :=
  .str (uuidText id)

def natJson (n : Nat) : Json :=
  .ofInt n

def timeJson (pg : Postgres) (t : Time) : Json :=
  .str (pg.timestampText t)

def orNull {α : Type} (f : α → Json) (v : Option α) : Json :=
  (v.map f).getD .null

def okReply (fields : List (String × Json)) : Json :=
  .object (("ok", .bool true) :: fields)

/-- `s LIKE 'selftest%'`. -/
def isSelftest (s : String) : Bool :=
  startsWith s "selftest"

def containsText (s t : String) : Bool :=
  s.toList.tails.any (t.toList.isPrefixOf ·)

def inSight (scope : Option (List Uuid)) (agentId : Uuid) : Bool :=
  scope.all (·.contains agentId)

def SessionStatus.text : SessionStatus → String
  | .open => "open" | completed => "completed" | failed => "failed" | cancelled => "cancelled"

def ProposalKind.text : ProposalKind → String
  | policyChange => "policy_change" | createAgent => "create_agent"
  | functionOverride => "function_override" | createFunction => "create_function"
  | updateFunction => "update_function"

def FixKind.text : FixKind → String
  | revokePermission => "revoke_permission" | deactivateAgent => "deactivate_agent"

def ProviderKind.text : ProviderKind → String
  | openaiCompat => "openai_compat" | anthropic => "anthropic" | oauth => "oauth"

def Role.text : Role → String
  | admin => "admin" | user => "user"

def agentName (c : Config) (id : Uuid) : Option String :=
  (c.agent? id).map (·.name)

/-- A session starts with its first task. -/
def startedAt (db : Db) (sessionId : Uuid) : Option Time :=
  ((db.tasks.filter (·.sessionId = sessionId)).head?).map (·.createdAt)

section Evaluation

variable (db : Db)

def goalOf (t : Task) : Option String :=
  (db.session? t.sessionId).map (·.goal)

/-- The last 20 root tasks of an agent under one generation of its policy. -/
def generationTasks (agentId : Uuid) (generation : Nat) : List Task :=
  (sortDesc (·.createdAt) (db.tasks.filter fun t =>
    t.agentId = agentId ∧ t.parentTaskId = none ∧ t.policyGeneration = some generation ∧
      (goalOf db t).any (!isSelftest ·))).take 20

/-- `agent_success_rate_for_generation`: the successes and all that ended. -/
def agentSuccessRateForGeneration (agentId : Uuid) (generation : Nat) : Nat × Nat :=
  let ts := generationTasks db agentId generation
  ((ts.filter (·.status = .completed)).length,
    (ts.filter fun t => t.status = .completed ∨ t.status = .failed).length)

def rateOf (r : Nat × Nat) : Option Rat :=
  if r.2 = 0 then none else some (round3 ((r.1 : Rat) / (r.2 : Rat)))

def rateJson (q : Rat) : Json :=
  .num (Json.pointed (q * 1000).floor.toNat 3)

def verdictOf (now before : Nat × Nat) : String :=
  match rateOf now, rateOf before with
  | some a, some b =>
    if now.2 < 5 ∨ before.2 < 5 then "insufficient_data"
    else if b < a then "improved"
    else if a < b then "regressed"
    else "unchanged"
  | _, _ => "insufficient_data"

def generationOf (agentId : Uuid) : Option Nat :=
  (db.cfg.policy? agentId).map (·.generation)

/-- Whether the version before the present one is archived. -/
def changeRecorded (agentId : Uuid) : Bool :=
  (generationOf db agentId).any fun g =>
    db.cfg.policyHistory.any fun h => h.agentId = agentId ∧ h.generation + 1 = g

def evaluationReply (generation : Option Nat) (verdict : String) (now before : Nat × Nat) : Json :=
  okReply [("verdict", .str verdict),
    ("current_success_rate", orNull rateJson (rateOf now)),
    ("current_sample_size", natJson now.2),
    ("success_rate_before_last_change", orNull rateJson (rateOf before)),
    ("before_sample_size", natJson before.2),
    ("min_samples_required", natJson 5),
    ("compared_to_generation", orNull (fun g : Nat => .ofInt ((g : Int) - 1)) generation)]

def fnEvaluateLastChange (agentId : Option Uuid) : Except String Json :=
  match agentId.filter fun id => (db.cfg.agent? id).isSome with
  | none => .error "agent not found"
  | some id =>
    if changeRecorded db id then
      let g := (generationOf db id).getD 0
      let now := agentSuccessRateForGeneration db id g
      let before := agentSuccessRateForGeneration db id (g - 1)
      .ok (evaluationReply (generationOf db id) (verdictOf now before) now before)
    else .ok (evaluationReply (generationOf db id) "no_change_recorded_yet" (0, 0) (0, 0))

end Evaluation

section Proposals

variable (pg : Postgres) (now : Time) (s : Site) (req : Json)

/-- Whether the task of a proposal belongs to the selftest. -/
def selftestTask (db : Db) (id : Uuid) : Bool :=
  db.tasks.any fun t => t.taskId = id ∧ (goalOf db t).any isSelftest

def proposalJson (c : Config) (r : ChangeProposal) : Json :=
  .object [("proposal_id", idJson r.proposalId), ("agent_id", idJson r.agentId),
    ("agent", .ofText (agentName c r.agentId)), ("kind", .str r.kind.text),
    ("target_agent_id", orNull idJson r.targetAgentId),
    ("target_agent", .ofText (r.targetAgentId.bind (agentName c))),
    ("task_id", idJson r.taskId), ("proposed_changes", r.proposedChanges),
    ("reason", .ofText r.reason), ("base_generation", natJson r.baseGeneration),
    ("status", .str r.status.text), ("decided_at", orNull (timeJson pg) r.decidedAt),
    ("decided_reply", .ofText r.decidedReply)]

/-- The filters of `proposals.list` but the one on the task. -/
def listedProposal (scope : Option (List Uuid)) (agentId : Option Uuid) (r : ChangeProposal) : Bool :=
  (s.db.cfg.agent? r.agentId).isSome &&
  (!req.has "agent_id" || agentId = some r.agentId) &&
  (!req.has "status" || req.text "status" = some r.status.text) &&
  !isSelftest (orEmpty r.reason) &&
  !isSelftest (orEmpty (r.targetAgentId.bind (agentName s.db.cfg))) &&
  !containsText (orEmpty (r.proposedChanges.text "name")) "selftest" &&
  scope.all fun ids => r.kind = .policyChange && ids.contains r.target

def proposalsList : Except String Json := do
  let scope := visibleAgentIds now s (tokenOf req)
  let agentId ← uuidField req "agent_id"
  let rows := s.db.cfg.changeProposals.filter fun r =>
    listedProposal s req scope agentId r && !selftestTask s.db r.taskId
  pure (okReply [("proposals", .arr (rows.reverse.map (proposalJson pg s.db.cfg)))])

def storeConfig (s : Site) (r : Except String (Config × Json)) : Except String (Site × Json) :=
  r.map fun x => ({ s with db := { s.db with cfg := x.1 } }, x.2)

def proposalsDecide : Except String (Site × Json) := do
  let scope := visibleAgentIds now s (tokenOf req)
  let id ← uuidField req "proposal_id"
  raiseIf (scope.any (fun ids => !s.db.cfg.changeProposals.any fun r =>
      some r.proposalId = id ∧ r.kind = .policyChange ∧ ids.contains r.target) = true)
    "proposal not visible to this user"
  let approve ← boolField req "approve"
  match id with
  | none => .error "fn_decide_proposal: not found"
  | some id =>
    storeConfig s (fnDecideProposal pg now s.db.cfg s.db.calls id approve (nullIfEmpty (req.text "reply")))

def fixJson (c : Config) (f : FixProposal) : Json :=
  .object [("fix_id", idJson f.fixId), ("agent_id", idJson f.agentId),
    ("agent", .ofText (agentName c f.agentId)), ("fix_kind", .str f.fixKind.text),
    ("target_agent_id", idJson f.targetAgentId),
    ("target_agent", .ofText (agentName c f.targetAgentId)), ("detail", f.detail),
    ("reason", .ofText f.reason), ("status", .str f.status.text),
    ("decided_at", orNull (timeJson pg) f.decidedAt), ("decided_reply", .ofText f.decidedReply)]

def fixesList : Except String Json := do
  let scope := visibleAgentIds now s (tokenOf req)
  let rows := s.db.cfg.fixProposals.filter fun f =>
    (s.db.cfg.agent? f.agentId).isSome && (s.db.cfg.agent? f.targetAgentId).isSome &&
    (!req.has "status" || req.text "status" = some f.status.text) &&
    !isSelftest (orEmpty f.reason) && inSight scope f.targetAgentId
  pure (okReply [("fixes", .arr (rows.reverse.map (fixJson pg s.db.cfg)))])

def settleFix (id : Uuid) (status : ProposalStatus) (reply : Option String) (c : Config) : Config :=
  { c with
    fixProposals := update (·.fixId = id)
      (fun f => { f with status, decidedAt := some now, decidedReply := reply }) c.fixProposals }

def fnDecideFix (c : Config) (id : Option Uuid) (approve : Option Bool) (reply : Option String) :
    Except String (Config × Json) := do
  match c.fixProposals.find? fun f => some f.fixId = id with
  | none => .error "fn_decide_fix: not found"
  | some f =>
    raiseIf (f.status ≠ .pending) ("fn_decide_fix: already decided (" ++ f.status.text ++ ")")
    if approve = some false then
      pure (settleFix now f.fixId .rejected reply c, okReply [("status", .str "rejected")])
    else
      let (c', result) ← applyFix pg now c f.fixKind f.targetAgentId f.detail
      pure (settleFix now f.fixId .approved reply c',
        okReply [("status", .str "approved"), ("result", result)])

def fixesDecide : Except String (Site × Json) := do
  let scope := visibleAgentIds now s (tokenOf req)
  let id ← uuidField req "fix_id"
  raiseIf (scope.any (fun ids => !s.db.cfg.fixProposals.any fun f =>
      some f.fixId = id ∧ ids.contains f.targetAgentId) = true)
    "fix not visible to this user"
  let approve ← boolField req "approve"
  storeConfig s (fnDecideFix pg now s.db.cfg id approve (nullIfEmpty (req.text "reply")))

end Proposals

section Accounts

variable (now : Time) (s : Site) (req : Json)

def loggedIn : Except String User :=
  match sessionUser now s (tokenOf req) with
  | none => .error "not logged in"
  | some u => .ok u

/-- `fn_login` with the check of a password against a hash, none where pgcrypto is missing, and
the token the server draws. -/
def fnLogin (crypt : Option (String → String → Bool)) (token : String)
    (username password : Option String) : Except String (Site × Json) :=
  match crypt, s.users.find? fun u => u.username = btrim (orEmpty username) ∧ u.isActive with
  | none, _ => .error "pgcrypto is required for login but is not installed"
  | some _, none => .error "invalid username or password"
  | some crypt, some u =>
    if crypt (orEmpty password) u.passwordHash then
      let row : WebSession :=
        { token
          userId := u.userId
          expiresAt := now + 7 * 86400000
          lastSeenAt := now }
      if s.webSessions.any (·.token = token) then
        .error "duplicate key value violates unique constraint \"web_sessions_pkey\""
      else
        .ok ({ s with webSessions := s.webSessions ++ [row] },
          okReply [("session_token", .str token), ("user_id", idJson u.userId),
            ("username", .str u.username), ("role", .str u.role.text)])
    else .error "invalid username or password"

def fnLogout (token : Option String) : Site × Json :=
  ({ s with webSessions := s.webSessions.filter fun w => some w.token ≠ token }, okReply [])

def authMe : Json :=
  match sessionUser now s (tokenOf req) with
  | none => okReply [("logged_in", .bool false)]
  | some u => okReply [("logged_in", .bool true), ("user_id", idJson u.userId),
      ("username", .str u.username), ("role", .str u.role.text)]

def preference? (c : Config) (userId agentId : Uuid) : Option UserPreference :=
  c.userPreferences.find? fun p => p.userId = userId ∧ p.agentId = agentId

def myAgentJson (c : Config) (u : User) (a : Agent) (p : Policy) : Json :=
  let own := (preference? c u.userId a.agentId).map (·.llmConfig)
  .object [("agent_id", idJson a.agentId), ("name", .str a.name),
    ("provider", .ofText ((own.bind (·.text "provider")).or (p.llmConfig.text "provider"))),
    ("model", .ofText ((own.bind (·.text "model")).or (p.llmConfig.text "model"))),
    ("default_provider", .ofText (p.llmConfig.text "provider")),
    ("default_model", .ofText (p.llmConfig.text "model")),
    ("is_overridden", .bool own.isSome)]

def byName {α : Type} (name : α → String) (rows : List α) : List α :=
  rows.insertionSort fun a b => name a ≤ name b

def agentsMine : Except String Json := do
  let u ← loggedIn now s req
  let c := s.db.cfg
  let rows := (byName (·.name) c.agents).filterMap fun a =>
    if a.isActive ∧ (u.role = .admin ∨ assigned s u a.agentId) then
      (c.policy? a.agentId).map (myAgentJson c u a)
    else none
  pure (okReply [("agents", .arr rows)])

def fnSetMyModel (token : Option String) (agentId : Option Uuid) (provider model : Option String) :
    Except String (Site × Json) := do
  let u ← requireAgentAccess now s token agentId
  let c := s.db.cfg
  let other := fun p : UserPreference => decide (p.userId ≠ u.userId ∨ some p.agentId ≠ agentId)
  match agentId, provider, model with
  | none, _, _ => .error "agent inactive or missing"
  | some _, none, none =>
    storeConfig s (.ok ({ c with userPreferences := c.userPreferences.filter other },
      okReply [("overridden", .bool false)]))
  | some id, some provider, some model =>
    raiseIf ((c.providers.any fun p => p.name = provider ∧ p.isEnabled ∧ p.purpose ≠ .embedding) = false)
      "provider is not configured or enabled"
    let config := sanitizeLlmConfig (.object [("provider", .str provider), ("model", .str model)])
    let row : UserPreference :=
      { userId := u.userId
        agentId := id
        llmConfig := config }
    storeConfig s (.ok ({ c with userPreferences := c.userPreferences.filter other ++ [row] },
      okReply [("overridden", .bool true)]))
  | some _, _, _ => .error "provider and model are both required"

def setMyModel : Except String (Site × Json) := do
  let agentId ← uuidField req "agent_id"
  fnSetMyModel now s (tokenOf req) agentId (nullIfEmpty (req.text "provider"))
    (nullIfEmpty (req.text "model"))

def providersAvailable : Except String Json := do
  let _ ← loggedIn now s req
  let rows := s.db.cfg.providers.filter fun p =>
    p.isEnabled ∧ p.purpose = .chat ∧ isSelftest p.name = false
  pure (okReply [("providers", .arr ((byName (·.name) rows).map fun p =>
    .object [("name", .str p.name), ("kind", .str p.kind.text)]))])

def permissionsList : Except String Json := do
  let agentId ← uuidField req "agent_id"
  let rows := s.db.cfg.permissions.filter fun p => some p.agentId = agentId
  pure (okReply [("permissions", .arr (rows.map fun p =>
    .object [("type", .str p.resourceType.text), ("ref", .str p.resourceRef)]))])

def projectsList : Json :=
  let scope := visibleAgentIds now s (tokenOf req)
  let rows := s.db.cfg.projects.filter fun p =>
    !isSelftest p.name && scope.all fun ids => p.agentId.any ids.contains
  okReply [("projects", .arr ((byName (·.name) rows).map fun p =>
    .object [("project_id", idJson p.projectId), ("name", .str p.name),
      ("is_active", .bool p.isActive), ("agent_id", orNull idJson p.agentId),
      ("agent", .ofText (p.agentId.bind (agentName s.db.cfg))),
      ("preset_prompt", .ofText p.presetPrompt)]))]

end Accounts

section Conversations

variable (pg : Postgres) (now : Time) (s : Site) (req : Json)

def sentJson (r : Site × Uuid × Uuid) : Site × Json :=
  (r.1, okReply [("session_id", idJson r.2.1), ("task_id", idJson r.2.2)])

def chatSend : Except String (Site × Json) := do
  let agentId ← uuidField req "agent_id"
  (fnChatSend now s (tokenOf req) agentId (req.text "message")).map sentJson

def projectChatSend : Except String (Site × Json) := do
  let projectId ← uuidField req "project_id"
  (fnProjectChatSend now s (tokenOf req) projectId (req.text "message")).map sentJson

def messageJson (l : Log) : Json :=
  .object [("role", .str l.role.text), ("content", .str (logContentText l.content)),
    ("created_at", timeJson pg l.createdAt)]

/-- The rows of the root tasks of a session that its user is shown. -/
def thread (db : Db) (sessionId : Uuid) : List Log :=
  sortBy (·.createdAt) (db.logs.filter fun l =>
    (l.role = .user ∨ l.role = .assistant ∨ l.role = .operator) ∧
      db.tasks.any fun t => t.taskId = l.taskId ∧ t.sessionId = sessionId ∧ t.parentTaskId = none)

def historyOf (userId : Uuid) (place : ChatPlace) : Json :=
  match chat? s userId place with
  | none => okReply [("session_id", .null), ("status", .null), ("messages", .arr [])]
  | some c => okReply [("session_id", idJson c.sessionId),
      ("status", .ofText ((s.db.session? c.sessionId).map (·.status.text))),
      ("messages", .arr ((thread s.db c.sessionId).map (messageJson pg)))]

def chatHistory : Except String Json := do
  let agentId ← uuidField req "agent_id"
  let u ← requireAgentAccess now s (tokenOf req) agentId
  match agentId with
  | none => .error "agent inactive or missing"
  | some id => pure (historyOf pg s u.userId (.agent id))

def projectChatHistory : Except String Json := do
  let projectId ← uuidField req "project_id"
  let (u, _) ← requireProjectAccess now s (tokenOf req) projectId
  match projectId with
  | none => .error "project inactive or missing"
  | some id => pure (historyOf pg s u.userId (.project id))

def runBranch : Except String (Site × Json) := do
  let agentId ← uuidField req "agent_id"
  requireAgentAccessIfAccountsExist now s (tokenOf req) agentId
  let projectId ← optionalUuid req "project_id"
  match agentId with
  | none => .error "agent inactive or missing"
  | some id =>
    let (db, sessionId, taskId) ← fnCreateSession now s.db id (req.text "goal") projectId none
    pure (sentJson ({ s with db }, sessionId, taskId))

/-- The agent of a session, none where there is no session. -/
def agentOf (db : Db) (sessionId : Option Uuid) : Option Uuid :=
  (sessionId.bind db.session?).map (·.agentId)

def sessionsCancel : Except String (Site × Json) := do
  let id ← uuidField req "session_id"
  requireAgentAccessIfAccountsExist now s (tokenOf req) (agentOf s.db id)
  match id with
  | none => .error "session not found"
  | some id =>
    let (db, n) ← fnCancelSession now s.db id (req.text "reason")
    pure ({ s with db }, okReply [("tasks_cancelled", natJson n)])

def sessionsContinue : Except String (Site × Json) := do
  let id ← uuidField req "session_id"
  requireAgentAccessIfAccountsExist now s (tokenOf req) (agentOf s.db id)
  match id with
  | none =>
    raiseIf (btrim (orEmpty (req.text "message")) = "") "message required"
    .error "session not found"
  | some id =>
    let (db, taskId) ← fnContinueSession now s.db id (req.text "message")
    pure (sentJson ({ s with db }, id, taskId))

/-- Whether a session is a chat of the user with an agent or in a project. -/
def mapped (s : Site) (userId sessionId : Uuid) : Bool :=
  s.chats.any fun c => c.userId = userId ∧ c.sessionId = sessionId

def sessionJson (db : Db) (row : Session) : Json :=
  .object [("session_id", idJson row.sessionId), ("agent_id", idJson row.agentId),
    ("agent", .ofText (agentName db.cfg row.agentId)), ("project_id", orNull idJson row.projectId),
    ("goal", .str row.goal), ("status", .str row.status.text),
    ("final_answer", .ofText row.finalAnswer),
    ("started_at", orNull (timeJson pg) (startedAt db row.sessionId)),
    ("completed_at", orNull (timeJson pg) row.completedAt)]

def taskJson (t : Task) : Json :=
  .object [("task_id", idJson t.taskId), ("parent_task_id", orNull idJson t.parentTaskId),
    ("status", .str t.status.text), ("step_count", natJson t.stepCount),
    ("output", t.output.getD .null), ("error", .ofText t.error),
    ("created_at", timeJson pg t.createdAt), ("updated_at", timeJson pg t.updatedAt)]

def logJson (l : Log) : Json :=
  .object [("task_id", idJson l.taskId), ("step_number", natJson l.stepNumber),
    ("role", .str l.role.text), ("content", l.content), ("created_at", timeJson pg l.createdAt)]

def sessionTasks (db : Db) (sessionId : Uuid) : List Task :=
  sortBy (·.createdAt) (db.tasks.filter (·.sessionId = sessionId))

def sessionLogs (db : Db) (sessionId : Uuid) : List Log :=
  sortBy (·.createdAt) (db.logs.filter fun l => db.inSession sessionId l.taskId)

def sessionsGet : Except String Json := do
  let id ← uuidField req "session_id"
  match id.bind s.db.session? with
  | none => pure (.object [("ok", .bool false), ("error", .str "session_not_found")])
  | some row =>
    requireAgentAccessIfAccountsExist now s (tokenOf req) (some row.agentId)
    let other := fun u : User => decide (u.role ≠ .admin) && !mapped s u.userId row.sessionId
    raiseIf ((sessionUser now s (tokenOf req)).any other = true) "session access denied"
    pure (okReply [("session", sessionJson pg s.db row),
      ("tasks", .arr ((sessionTasks s.db row.sessionId).map (taskJson pg))),
      ("logs", .arr ((sessionLogs s.db row.sessionId).map (logJson pg)))])

end Conversations

section Messenger

variable (pg : Postgres) (now : Time) (s : Site) (req : Json)

def nameChar (c : Char) : Bool :=
  c.isAlphanum || c = '_' || c = '-'

/-- The names after an `@`, each once, in the order they first appear. -/
def mentions (text : String) : List String :=
  let names := ((text.toList.splitOn '@').tail).map fun cs => String.ofList (cs.takeWhile nameChar)
  (names.filter (· ≠ "")).eraseDups

/-- The loop of `fn_messenger_post` over the mentions: one `fn_chat_send` each. -/
def sendMentions (token : Option String) (text : String) :
    List String → Site → List Uuid → List Uuid → Except String (Site × List Uuid × List Uuid)
  | [], s, agentIds, sessionIds => .ok (s, agentIds, sessionIds)
  | name :: names, s, agentIds, sessionIds => do
    match s.db.cfg.agents.find? (·.name = name) with
    | none => .error ("no such agent: " ++ name)
    | some a =>
      let _ ← requireAgentAccess now s token (some a.agentId)
      let (s', sessionId, _) ← fnChatSend now s token (some a.agentId) (some text)
      sendMentions token text names s' (agentIds ++ [a.agentId]) (sessionIds ++ [sessionId])

def postMessage (s : Site) (row : ChannelMessage) : Site :=
  { s with
    channelMessages := s.channelMessages ++ [{ row with messageId := s.db.nextId }]
    db := { s.db with nextId := s.db.nextId + 1 } }

def fnMessengerPost (token text : Option String) : Except String (Site × Json) := do
  match sessionUser now s token with
  | none => .error "not logged in"
  | some u =>
    let text := btrim (orEmpty text)
    raiseIf (text = "") "message required"
    let (s', agentIds, sessionIds) ← sendMentions now token text (mentions text) s [] []
    let row : ChannelMessage :=
      { messageId := 0
        authorUserId := u.userId
        content := text
        mentionedAgentId := agentIds.head?
        sessionId := sessionIds.head?
        mentionedAgentIds := agentIds
        createdAt := now }
    pure (postMessage s' row, okReply [("message_id", idJson s'.db.nextId),
      ("mentioned_agent_id", orNull idJson agentIds.head?),
      ("session_id", orNull idJson sessionIds.head?),
      ("mentioned_agent_ids", .arr (agentIds.map idJson))])

def replyJson (row : Option Session) : List (String × Json) :=
  [("reply_status", .ofText (row.map (·.status.text))), ("reply", .ofText (row.bind (·.finalAnswer)))]

/-- The session in which an agent answered a mention. -/
def mentionSession (m : ChannelMessage) (agentId : Uuid) : Option Uuid :=
  (chat? s m.authorUserId (.agent agentId)).map (·.sessionId)

def channelJson (m : ChannelMessage) (author : User) : Json :=
  let mentioned := m.mentionedAgentIds.filterMap fun id => (agentName s.db.cfg id).map fun name =>
    Json.object (("agent", .str name) ::
      replyJson ((mentionSession s m id).bind s.db.session?))
  .object ([("message_id", idJson m.messageId), ("content", .str m.content),
    ("created_at", timeJson pg m.createdAt), ("author", .str author.username),
    ("mentioned_agent", .ofText (m.mentionedAgentId.bind (agentName s.db.cfg)))] ++
    replyJson (m.sessionId.bind s.db.session?) ++
    [("mentioned_agents", if mentioned.isEmpty then .null else .arr mentioned)])

/-- The messages of a page, the newest first. -/
def channelPage (n : Nat) : List (ChannelMessage × User) :=
  ((sortDesc (·.1.createdAt) (s.channelMessages.filterMap fun m =>
    (s.users.find? (·.userId = m.authorUserId)).map (m, ·))).take n)

def messengerList : Except String Json := do
  let _ ← loggedIn now s req
  let n ← limitField req 200 1000
  pure (okReply [("messages",
    .arr ((sortBy (·.1.createdAt) (channelPage s n)).map fun p => channelJson pg s p.1 p.2))])

end Messenger

section Histories

variable (pg : Postgres) (now : Time) (s : Site) (req : Json)

def memoryJson (c : Config) (m : Memory) : Json :=
  .object [("memory_id", idJson m.memoryId), ("agent_id", idJson m.agentId),
    ("agent", .ofText (agentName c m.agentId)), ("subject_id", .ofText m.subjectId),
    ("memory_type", .str m.memoryType), ("content", .str m.content),
    ("importance", .num (toString m.importance)),
    ("source_session_id", orNull idJson m.sourceSessionId), ("created_at", timeJson pg m.createdAt),
    ("last_accessed_at", orNull (timeJson pg) m.lastAccessedAt),
    ("expires_at", orNull (timeJson pg) m.expiresAt)]

def memoriesList : Except String Json := do
  let scope := visibleAgentIds now s (tokenOf req)
  let agentId ← optionalUuid req "agent_id"
  let n ← limitField req 200 1000
  let rows := s.db.cfg.memories.filter fun m => (s.db.cfg.agent? m.agentId).isSome &&
    agentId.all (· = m.agentId) && inSight scope m.agentId
  pure (okReply [("memories", .arr (((rankedMemories rows).take n).map (memoryJson pg s.db.cfg)))])

def memoriesCreate : Except String (Site × Json) := do
  let agentId ← uuidField req "agent_id"
  requireAgentAccessIfAccountsExist now s (tokenOf req) agentId
  match agentId with
  | none => .error "null value in column \"agent_id\" of relation \"agent_memories\""
  | some id =>
    match writeMemory pg now s.db.cfg id (req.text "content") (nullIfEmpty (req.text "memory_type"))
        (req.text "importance") (req.text "subject_id") (req.text "expires_in_days") none none with
    | .error e => pure (s, .object [("ok", .bool false), ("error", .str e)])
    | .ok (cfg, m) => storeConfig s (.ok (cfg,
        okReply [("memory_id", idJson m.memoryId), ("memory_type", .str m.memoryType)]))

def memoriesRemove : Except String (Site × Json) := do
  let id ← uuidField req "memory_id"
  let owner := (s.db.cfg.memories.find? fun m => some m.memoryId = id).map (·.agentId)
  requireAgentAccessIfAccountsExist now s (tokenOf req) owner
  let c := s.db.cfg
  storeConfig s (.ok ({ c with memories := c.memories.filter fun m => some m.memoryId ≠ id },
    okReply [("memory_id", orNull idJson id)]))

/-- `s LIKE p` on characters, `\` before a character that stands for itself. -/
def likeChars : List Char → List Char → Bool
  | [], [] => true
  | [], _ :: _ => false
  | '%' :: p, [] => likeChars p []
  | '%' :: p, c :: cs => likeChars p (c :: cs) || likeChars ('%' :: p) cs
  | '_' :: p, _ :: cs => likeChars p cs
  | '\\' :: a :: p, c :: cs => a = c && likeChars p cs
  | a :: p, c :: cs => a = c && likeChars p cs
  | _ :: _, [] => false
termination_by p cs => p.length + cs.length

/-- `to_tsvector('simple', d) @@ plainto_tsquery('simple', q) OR d ILIKE '%' || q || '%'`. -/
def findsText (query d : String) : Bool :=
  pg.keywordMatch d query ||
    likeChars ('%' :: ((lower query).toList ++ ['%'])) (lower d).toList

/-- A row of the search with the time it is ordered by. -/
structure SearchRow where
  source : String
  refId : Json
  agentId : Uuid
  sessionId : Option Uuid
  taskId : Option Uuid
  kind : String
  snippet : String
  createdAt : Time

def SearchRow.json (c : Config) (r : SearchRow) : Json :=
  .object [("source", .str r.source), ("ref_id", r.refId), ("agent_id", idJson r.agentId),
    ("agent", .ofText (agentName c r.agentId)), ("session_id", orNull idJson r.sessionId),
    ("task_id", orNull idJson r.taskId), ("kind", .str r.kind), ("snippet", .str r.snippet),
    ("created_at", timeJson pg r.createdAt)]

/-- What the three parts of the search have in common: the agents in sight and the two filters,
on the agent and on the project of the session. -/
structure SearchScope where
  query : String
  scope : Option (List Uuid)
  agentId : Option Uuid
  projectId : Option Uuid

def SearchScope.admits (f : SearchScope) (c : Config) (agentId : Uuid) (row : Option Session) : Bool :=
  (c.agent? agentId).isSome && inSight f.scope agentId && f.agentId.all (· = agentId) &&
    f.projectId.all (fun id => row.any (·.projectId = some id)) &&
    !isSelftest (orEmpty (row.map (·.goal)))

def memoryRows (f : SearchScope) (db : Db) : List SearchRow :=
  (db.cfg.memories.filter fun m => findsText pg f.query m.content &&
    f.admits db.cfg m.agentId (m.sourceSessionId.bind db.session?)).map fun m =>
      ⟨"memory", idJson m.memoryId, m.agentId, m.sourceSessionId, m.sourceTaskId, m.memoryType,
        left m.content 400, m.createdAt⟩

def failureRows (f : SearchScope) (db : Db) : List SearchRow :=
  db.logs.filterMap fun l => do
    let t ← db.task? l.taskId
    let row ← db.session? t.sessionId
    if l.role = .error ∧ findsText pg f.query l.content.render ∧
        f.admits db.cfg t.agentId (some row) then
      some ⟨"failure", .null, t.agentId, some t.sessionId, some l.taskId, "error",
        left l.content.render 400, l.createdAt⟩
    else none

def decisionRows (f : SearchScope) (db : Db) : List SearchRow :=
  db.sessions.filterMap fun row => row.finalAnswer.bind fun answer =>
    if findsText pg f.query answer ∧ f.admits db.cfg row.agentId (some row) then
      some ⟨"decision", idJson row.sessionId, row.agentId, some row.sessionId, none, row.status.text,
        left answer 400, (row.completedAt.or (startedAt db row.sessionId)).getD 0⟩
    else none

def historySearch : Except String Json := do
  let scope := visibleAgentIds now s (tokenOf req)
  match trimmed (req.text "query") with
  | none => pure (.object [("ok", .bool false), ("error", .str "query_required")])
  | some _ =>
    let agentId ← optionalUuid req "agent_id"
    let projectId ← optionalUuid req "project_id"
    let n ← limitField req 30 200
    let f : SearchScope := ⟨orEmpty (req.text "query"), scope, agentId, projectId⟩
    let rows := memoryRows pg f s.db ++ failureRows pg f s.db ++ decisionRows pg f s.db
    pure (okReply [("results", .arr (((sortDesc (·.createdAt) rows).take n).map (·.json pg s.db.cfg)))])

/-- Whether the task is of a session that is shown, of an agent in sight. -/
def shownTask (scope : Option (List Uuid)) (db : Db) (t : Task) : Bool :=
  (db.cfg.agent? t.agentId).isSome && (goalOf db t).any (!isSelftest ·) && inSight scope t.agentId

def eventTaskJson (c : Config) (t : Task) : Json :=
  .object [("task_id", idJson t.taskId), ("agent", .ofText (agentName c t.agentId)),
    ("status", .str t.status.text), ("step_count", natJson t.stepCount),
    ("updated_at", timeJson pg t.updatedAt), ("error", .str (left (orEmpty t.error) 240))]

def eventsReply : Json :=
  let scope := visibleAgentIds now s (tokenOf req)
  let tasks := (sortDesc (·.updatedAt) (s.db.tasks.filter (shownTask scope s.db))).take 12
  let logs := (sortDesc (·.createdAt) (s.db.logs.filter fun l =>
    (s.db.task? l.taskId).any (shownTask scope s.db))).take 15
  okReply [("server_time", timeJson pg now), ("tasks", .arr (tasks.map (eventTaskJson pg s.db.cfg))),
    ("logs", .arr (logs.map (logJson pg)))]

def ApprovalPayload.reason : ApprovalPayload → String
  | question reason => reason
  | ambiguous _ reason => reason
  | gate _ => "Execution requires approval"

/-- An approval in sight with its task and session. -/
def approvalRow (scope : Option (List Uuid)) (db : Db) (a : Approval) :
    Option (Approval × Task × Session) := do
  let t ← db.task? a.taskId
  let row ← db.session? t.sessionId
  if a.status = .pending ∧ (db.cfg.agent? t.agentId).isSome ∧ inSight scope t.agentId then
    some (a, t, row)
  else none

def approvalJson (c : Config) (x : Approval × Task × Session) : Json :=
  .object [("approval_id", idJson x.1.approvalId), ("task_id", idJson x.1.taskId),
    ("session_id", idJson x.2.1.sessionId), ("agent", .ofText (agentName c x.2.1.agentId)),
    ("goal", .str x.2.2.goal), ("reason", .str x.1.payload.reason),
    ("created_at", timeJson pg x.1.createdAt), ("expires_at", orNull (timeJson pg) x.1.expiresAt)]

def approvalsList : Except String Json := do
  let scope := visibleAgentIds now s (tokenOf req)
  let n ← limitField req 100 500
  let rows := s.db.approvals.filterMap (approvalRow scope s.db)
  pure (okReply [("approvals",
    .arr (((sortBy (·.1.createdAt) rows).take n).map (approvalJson pg s.db.cfg)))])

def approvalsDecide : Except String (Site × Json) := do
  let scope := visibleAgentIds now s (tokenOf req)
  let id ← uuidField req "approval_id"
  raiseIf (scope.any (fun ids => !s.db.approvals.any fun a => some a.approvalId = id ∧
      (s.db.task? a.taskId).any fun t => ids.contains t.agentId) = true)
    "approval not visible to this user"
  let accept ← boolField req "accept"
  match id with
  | none => .error "approval not pending"
  | some id =>
    let (db, reply) ← fnDecideApproval now s.db id (accept.getD false) (nullIfEmpty (req.text "reply"))
    pure ({ s with db }, reply)

end Histories

end Allgres
