import Allgres.Permissions
import Allgres.Postgres
import Allgres.Raise
import Allgres.SqlParser

/-! `fn_validate_sql`: the gate in front of the SQL sandbox. It answers with the
normalized statement or raises. -/

namespace Allgres

open Raise

def reservedSchemas : List String :=
  ["allgres_private", "allgres", "pg_catalog", "pg_toast", "information_schema"]

def deniedFns : List String :=
  ["current_setting", "set_config",
    "current_database", "current_catalog", "current_schema", "current_schemas",
    "current_user", "session_user",
    "inet_client_addr", "inet_client_port", "inet_server_addr", "inet_server_port",
    "pg_backend_pid", "pg_postmaster_start_time", "pg_conf_load_time",
    "pg_trigger_depth", "pg_is_in_recovery",
    "version",
    "txid_current", "txid_current_snapshot", "txid_status",
    "txid_snapshot_xmin", "txid_snapshot_xmax", "txid_snapshot_xip",
    "pg_current_xact_id", "pg_current_xact_id_if_assigned", "pg_current_snapshot",
    "pg_last_wal_receive_lsn", "pg_last_wal_replay_lsn", "pg_last_xact_replay_timestamp"]

/-- `regexp_replace(s, ';+\s*$', '')`. -/
def stripTerminator (s : String) : String :=
  let t := rtrimChars isSpace s.toList
  if t.getLast? = some ';' then String.ofList (rtrimChars (· == ';') t) else s

/-- `raw_parse_dump`: no statement gives the empty dump. -/
def rawParseDump (statements : Nodes) : Chars :=
  match statements with
  | .nil => []
  | xs => (Node.list xs).dump

/-- `schema.name`, as grants and the allowlist spell a relation. -/
def qualifiedName (schema name : Chars) : String :=
  String.ofList (schema ++ '.' :: name)

def reservedSchema (schema : Chars) : Bool :=
  reservedSchemas.contains (lower (String.ofList schema)) ||
    startsWith (lower (String.ofList schema)) "pg_"

/-- On the allowlist and granted to the agent. -/
def viewAllowed (c : Config) (agentId : Uuid) (ref : String) : Bool :=
  c.sqlSandboxAllowlist.contains ref && agentHasPermission c agentId .view (some ref)

def checkRelation (c : Config) (agentId : Uuid) (ctes : List Chars) (r : ReadName) :
    Except String Unit :=
  match r.schema with
  | none =>
    if r.name ∈ ctes then .ok ()
    else .error ("fn_validate_sql: unqualified name \"" ++ String.ofList r.name ++ "\" rejected")
  | some schema =>
    if reservedSchema schema then
      .error ("fn_validate_sql: schema \"" ++ String.ofList schema ++
        "\" is not readable by agents")
    else if viewAllowed c agentId (qualifiedName schema r.name) then .ok ()
    else .error ("fn_validate_sql: \"" ++ qualifiedName schema r.name ++ "\" not in allowlist")

/-- The `pg_proc` rows a name stands for: unqualified names are looked up in `pg_catalog`. -/
def procsNamed (c : Config) (schema : Option String) (name : String) : List PgProc :=
  c.pgProc.filter fun p => p.proname = name ∧ p.nspname = schema.getD "pg_catalog"

def safeProc (p : PgProc) : Bool :=
  !p.isVolatile && !p.prosecdef

def checkFunction (c : Config) (f : ReadName) : Except String Unit :=
  let name := String.ofList f.name
  if deniedFns.contains (lower name) then
    .error ("fn_validate_sql: function \"" ++ name ++ "\" is not allowed")
  else if !c.sqlFunctionAllowlist.contains (lower name) then
    .error ("fn_validate_sql: function \"" ++ name ++ "\" is not in the sandbox allowlist")
  else
    let all := procsNamed c (f.schema.map String.ofList) name
    if all.length = 0 then
      .error ("fn_validate_sql: unknown function \"" ++ name ++ "\"")
    else if (all.filter safeProc).length ≠ all.length then
      .error ("fn_validate_sql: function \"" ++ name ++
        "\" is volatile, security-definer, or not a pg_catalog builtin, and not allowed")
    else .ok ()

def checkAnalysis (c : Config) (agentId : Uuid) (a : Analysis) : Except String Unit := do
  raiseIf (a.statements ≠ 1)
    ("fn_validate_sql: expected one statement, found " ++ toString a.statements)
  raiseIf (a.kind ≠ .select) "fn_validate_sql: only SELECT / WITH ... SELECT is allowed"
  raiseIf (a.writes = true) "fn_validate_sql: statement writes; only reads are allowed"
  raiseIf (a.relations.length > 10)
    "fn_validate_sql: statement references too many tables (max 10)"
  each (checkRelation c agentId a.ctes) a.relations
  each (checkFunction c) a.functions

/-- The exception block around the parser. -/
def analyzeSql (pg : Postgres) (sql : String) : Except String Analysis :=
  match pg.rawParser sql with
  | .error e => .error ("fn_validate_sql: not parseable as SQL: " ++ e)
  | .ok statements => match analyzeDump (rawParseDump statements) with
    | none => .error "fn_validate_sql: statement could not be analysed"
    | some a => .ok a

/-- The exception block around `EXPLAIN`. -/
def explainCost (pg : Postgres) (c : Config) (sql : String) : Except String Rat :=
  match pg.explain c sql with
  | .error e => .error ("fn_validate_sql: engine rejected query: " ++ e)
  | .ok cost => .ok cost

def fnValidateSql (pg : Postgres) (c : Config) (agentId : Uuid) (sql : Option String) :
    Except String String := do
  let sql := stripTerminator (btrim (orEmpty sql))
  raiseIf (sql = "") "fn_validate_sql: empty sql"
  raiseIf (sql.length > 8000) "fn_validate_sql: statement too long"
  let a ← analyzeSql pg sql
  checkAnalysis c agentId a
  let cost ← explainCost pg c sql
  raiseIf (cost > 20000000)
    ("fn_validate_sql: estimated cost " ++ toString (cost + 1 / 2).floor ++ " is too high")
  pure sql

end Allgres
