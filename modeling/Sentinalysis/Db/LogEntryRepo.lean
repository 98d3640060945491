/-
# Sentinalysis.Db.LogEntryRepo — the multi-row insert of `log_entries`, and its pruning.

A batch is one statement: fourteen numbered placeholders for each entry, and as many bound values.
The protocol of the database counts the values of a statement in sixteen bits.
-/
import Sentinalysis.Db.Prune

namespace Sentinalysis.Db

open Lib

/-- A value bound to a placeholder. -/
inductive Bind
  | uuid (value : Option Uuid)
  | timestamp (value : DateTime)
  | text (value : Option String)
  | number (value : Option ℤ)
  | flag (value : Bool)
  | texts (value : List String)
  deriving DecidableEq, Repr

/-- `QueryBuilder`: the statement so far and the values bound in it. -/
structure QueryBuilder where
  sql : String
  args : List Bind
  deriving DecidableEq, Repr

namespace QueryBuilder

def push (query : QueryBuilder) (text : String) : QueryBuilder :=
  { query with sql := query.sql ++ text }

/-- `push_bind`: placeholders are numbered from one. -/
def pushBind (query : QueryBuilder) (value : Bind) : QueryBuilder where
  sql := query.sql ++ "$" ++ toString (query.args.length + 1)
  args := query.args ++ [value]

/-- The values of one tuple, with commas between them. -/
def pushTuple (query : QueryBuilder) : List Bind → QueryBuilder
  | [] => query
  | [value] => query.pushBind value
  | value :: values => ((query.pushBind value).push ", ").pushTuple values

def pushTuples (query : QueryBuilder) : List (List Bind) → QueryBuilder
  | [] => query
  | [tuple] => ((query.push "(").pushTuple tuple).push ")"
  | tuple :: tuples => (((query.push "(").pushTuple tuple).push "), ").pushTuples tuples

/-- `push_values`. -/
def pushValues (query : QueryBuilder) (tuples : List (List Bind)) : QueryBuilder :=
  (query.push "VALUES ").pushTuples tuples

@[simp] theorem args_push (query : QueryBuilder) (text : String) :
    (query.push text).args = query.args := rfl

@[simp] theorem args_pushTuple (query : QueryBuilder) (tuple : List Bind) :
    (query.pushTuple tuple).args = query.args ++ tuple := by
  fun_induction pushTuple query tuple with
  | case1 query => simp
  | case2 query value => rfl
  | case3 query value values _ ih => simpa [pushBind] using ih

@[simp] theorem args_pushTuples (query : QueryBuilder) (tuples : List (List Bind)) :
    (query.pushTuples tuples).args = query.args ++ tuples.flatten := by
  fun_induction pushTuples query tuples with
  | case1 query => simp
  | case2 query tuple => simp
  | case3 query tuple tuples _ ih => simpa using ih

/-- The values of a statement are those of its tuples. -/
theorem args_pushValues (query : QueryBuilder) (tuples : List (List Bind)) :
    (query.pushValues tuples).args = query.args ++ tuples.flatten := by
  rw [pushValues, args_pushTuples, args_push]

end QueryBuilder

/-- `INSERT_PREFIX`. -/
def insertPrefix : String :=
  "INSERT INTO log_entries (service_id, timestamp, level, message, raw_line, client_ip, "
    ++ "request_path, status_code, response_time_ms, is_noise, noise_reason, threat_level, "
    ++ "threat_categories, source_host)"

/-- The values of one entry. -/
def entryBinds (entry : InsertLogEntry) : List Bind := [
  .uuid entry.serviceId, .timestamp entry.timestamp, .text (some entry.level),
  .text (some entry.message), .text entry.rawLine, .text entry.clientIp, .text entry.requestPath,
  .number entry.statusCode, .number entry.responseTimeMs, .flag entry.isNoise,
  .text entry.noiseReason, .text (some entry.threatLevel), .texts entry.threatCategories,
  .text entry.sourceHost]

/-- `build_insert_query`. -/
def buildInsertQuery (entries : List InsertLogEntry) : QueryBuilder :=
  QueryBuilder.pushValues { sql := insertPrefix, args := [] } (entries.map entryBinds)

/-- The most values one statement can bind. -/
def maxBinds : ℕ := 65535

/-- Fourteen values for each entry. -/
theorem length_buildInsertQuery (entries : List InsertLogEntry) :
    (buildInsertQuery entries).args.length = 14 * entries.length := by
  rw [buildInsertQuery, QueryBuilder.args_pushValues, List.nil_append]
  induction entries with
  | nil => rfl
  | cons entry entries ih =>
    have hentry : (entryBinds entry).length = 14 := rfl
    rw [List.map_cons, List.flatten_cons, List.length_append, ih, hentry, List.length_cons]
    omega

/-! ## Pruning -/

/-- The `log_entries` table. -/
abbrev LogEntries := Keyed LogEntry.id

/-- `prune_log_entries`. -/
def pruneLogEntries (logs : LogEntries) (scan : Scan LogEntry) (now : DateTime)
    (keepDays : UInt32) : ℕ × LogEntries :=
  prune (·.timestamp) logs scan now keepDays

end Sentinalysis.Db
