/-
# Sentinalysis.Db.InsertStatement — the statement that is built for a batch, read back.

The builder writes columns and placeholders apart from the values, in an order of its own for each.
Read as a statement, what it wrote is the batch: a row for each entry, in order, with each value
under its column.
-/
import Sentinalysis.Db.LogEntryRepo
import Sentinalysis.Lib.Sql

namespace Sentinalysis.Db

open Lib Lib.Sql

namespace QueryBuilder

variable {args : List Bind} {start : String} {query : QueryBuilder} {r r' : Reader Bind}

/-- The text after the start of the statement, read with the values of the whole statement. -/
def Reads (args : List Bind) (start : String) (query : QueryBuilder) (r : Reader Bind) : Prop :=
  ∃ text, query.sql.toList = start.toList ++ text ∧ Reader.readText args {} text = some r

theorem Reads.push (h : Reads args start query r) {text : String}
    (htext : r.readText args text.toList = some r') : Reads args start (query.push text) r' := by
  obtain ⟨before, hsql, hbefore⟩ := h
  refine ⟨before ++ text.toList, ?_, ?_⟩
  · rw [QueryBuilder.push, String.toList_append, hsql, List.append_assoc]
  · rw [Reader.readText_append, hbefore]
    exact htext

/-- A bound value is one more placeholder. -/
theorem Reads.pushBind (h : Reads args start query r) (hmode : r.mode = .inside) (v : Bind) :
    Reads args start (query.pushBind v)
      { r with mode := .placeholder (some (query.args.length + 1)) } := by
  obtain ⟨before, hsql, hbefore⟩ := h
  refine ⟨before ++ ("$".toList ++ (toString (query.args.length + 1)).toList), ?_, ?_⟩
  · rw [QueryBuilder.pushBind, String.toList_append, String.toList_append, hsql,
      List.append_assoc, List.append_assoc]
  · rw [Reader.readText_append, hbefore]
    exact Reader.readText_placeholder hmode _

/-- The value of the placeholder is the bound one. -/
theorem value_of_args {v : Bind} (h : query.args ++ [v] <+: args) :
    Sql.value args (query.args.length + 1) = some v := by
  obtain ⟨rest, rfl⟩ := h
  simp [Sql.value]

/-- A tuple up to its end: all its values but the last are read, and the last is at hand. -/
theorem Reads.pushTuple {tuple : List Bind} (h : Reads args start query r)
    (hmode : r.mode = .inside) (hne : tuple ≠ []) (hargs : query.args ++ tuple <+: args) :
    ∃ n v init, tuple = init ++ [v] ∧ Sql.value args n = some v ∧
      Reads args start (query.pushTuple tuple)
        { r with tuple := r.tuple ++ init, mode := .placeholder (some n) } := by
  fun_induction QueryBuilder.pushTuple query tuple generalizing r with
  | case1 query => exact absurd rfl hne
  | case2 query v =>
    refine ⟨_, v, [], rfl, value_of_args hargs, ?_⟩
    simpa using h.pushBind hmode v
  | case3 query v values hvalues ih =>
    have hfirst : query.args ++ [v] <+: args := by
      refine List.IsPrefix.trans ?_ hargs
      rw [List.prefix_append_right_inj]
      exact ⟨values, rfl⟩
    have hnext := (h.pushBind hmode v).push
      (Reader.readText_next rfl (value_of_args hfirst))
    have hrest : ((query.pushBind v).push ", ").args ++ values <+: args := by
      rw [args_push]
      simpa [QueryBuilder.pushBind] using hargs
    obtain ⟨n, last, init, hsplit, hvalue, hreads⟩ := ih hnext rfl (by simpa using hvalues) hrest
    refine ⟨n, last, v :: init, by rw [hsplit, List.cons_append], hvalue, ?_⟩
    simpa using hreads

/-- All tuples. -/
theorem Reads.pushTuples {tuples : List (List Bind)} (h : Reads args start query r)
    (hmode : r.mode = .before) (htuple : r.tuple = []) (hne : tuples ≠ [])
    (hall : ∀ tuple ∈ tuples, tuple ≠ []) (hargs : query.args ++ tuples.flatten <+: args) :
    Reads args start (query.pushTuples tuples)
      { tuples := r.tuples ++ tuples, tuple := [], mode := .after } := by
  have hopen : r.readText args "(".toList = some { r with mode := .inside } := by
    simp [Reader.readText, Reader.read, hmode]
  fun_induction QueryBuilder.pushTuples query tuples generalizing r with
  | case1 query => exact absurd rfl hne
  | case2 query tuple =>
    rw [List.forall_mem_singleton] at hall
    obtain ⟨n, v, init, rfl, hvalue, hreads⟩ := (h.push hopen).pushTuple rfl hall
      (by simpa using hargs)
    have hend := hreads.push (Reader.readText_close rfl hvalue)
    simpa [htuple] using hend
  | case3 query tuple tuples htuples ih =>
    rw [List.forall_mem_cons] at hall
    obtain ⟨n, v, init, rfl, hvalue, hreads⟩ := (h.push hopen).pushTuple rfl hall.1
      (List.IsPrefix.trans (by simp) hargs)
    have hnext : Reader.readText args { r with
        tuple := r.tuple ++ init, mode := .placeholder (some n) } "), ".toList =
        some { tuples := r.tuples ++ [init ++ [v]], tuple := [], mode := .before } := by
      simp [Reader.readText, Reader.read, hvalue, htuple]
    have hend := ih (hreads.push hnext) rfl rfl (by simpa using htuples) hall.2
      (by simpa using hargs) (by simp [Reader.readText, Reader.read])
    simpa using hend

end QueryBuilder

/-- An entry as a row of `log_entries`. -/
def entryRow (entry : InsertLogEntry) : List (String × Bind) := [
  ("service_id", .uuid entry.serviceId), ("timestamp", .timestamp entry.timestamp),
  ("level", .text (some entry.level)), ("message", .text (some entry.message)),
  ("raw_line", .text entry.rawLine), ("client_ip", .text entry.clientIp),
  ("request_path", .text entry.requestPath), ("status_code", .number entry.statusCode),
  ("response_time_ms", .number entry.responseTimeMs), ("is_noise", .flag entry.isNoise),
  ("noise_reason", .text entry.noiseReason), ("threat_level", .text (some entry.threatLevel)),
  ("threat_categories", .texts entry.threatCategories), ("source_host", .text entry.sourceHost)]

/-- The text between the parentheses of the start. -/
def insertColumns : List Char :=
  ((insertPrefix.toList.dropWhile (· ≠ '(')).drop 1).takeWhile (· ≠ ')')

/-- The start of the statement by its parts, and the names in it. -/
theorem insertPrefix_parts : insertPrefix.toList = "INSERT INTO ".toList ++
      "log_entries ".toList ++ '(' :: (insertColumns ++ [')']) ∧ ')' ∉ insertColumns ∧
    columnNames insertColumns = ["service_id", "timestamp", "level", "message", "raw_line",
      "client_ip", "request_path", "status_code", "response_time_ms", "is_noise", "noise_reason",
      "threat_level", "threat_categories", "source_host"] := by
  decide +kernel

theorem zip_columnNames (entry : InsertLogEntry) :
    (columnNames insertColumns).zip (entryBinds entry) = entryRow entry := by
  rw [insertPrefix_parts.2.2]
  rfl

/-- **The statement that is built for a batch says the batch**: its rows are the entries, in order,
each value under its column. -/
theorem readInsert_buildInsertQuery (entry : InsertLogEntry) (entries : List InsertLogEntry) :
    readInsert (buildInsertQuery (entry :: entries)).sql (buildInsertQuery (entry :: entries)).args =
      some { table := "log_entries", rows := (entry :: entries).map entryRow } := by
  generalize hbatch : entry :: entries = batch
  have hstart : QueryBuilder.Reads (buildInsertQuery batch).args (insertPrefix ++ "VALUES ")
      (QueryBuilder.push ⟨insertPrefix, []⟩ "VALUES ") {} :=
    ⟨[], by rw [QueryBuilder.push, List.append_nil], rfl⟩
  have hquery : buildInsertQuery batch = (QueryBuilder.push ⟨insertPrefix, []⟩ "VALUES ").pushTuples
      (batch.map entryBinds) := by
    rw [buildInsertQuery, QueryBuilder.pushValues]
  have hargs : (buildInsertQuery batch).args = (batch.map entryBinds).flatten := by
    rw [buildInsertQuery, QueryBuilder.args_pushValues, List.nil_append]
  have hlength : ∀ tuple ∈ batch.map entryBinds,
      tuple.length = (columnNames insertColumns).length := by
    rintro _ htuple
    obtain ⟨entry, -, rfl⟩ := List.mem_map.mp htuple
    rw [insertPrefix_parts.2.2]
    rfl
  have hne : batch.map entryBinds ≠ [] := by simp [← hbatch]
  obtain ⟨text, hsql, htext⟩ := hstart.pushTuples rfl rfl hne
    (fun tuple htuple hempty => by
      have := hlength tuple htuple
      rw [hempty, insertPrefix_parts.2.2] at this
      cases this)
    (by rw [hargs]; exact List.prefix_rfl)
  have htuples : readTuples (buildInsertQuery batch).args text = some (batch.map entryBinds) := by
    simp [readTuples, htext]
  have hparts : (buildInsertQuery batch).sql.toList = "INSERT INTO ".toList ++
      "log_entries ".toList ++ '(' :: (insertColumns ++ ')' :: ("VALUES ".toList ++ text)) := by
    rw [hquery, hsql, String.toList_append, insertPrefix_parts.1]
    rw [List.append_assoc _ "VALUES ".toList, List.append_assoc, List.cons_append,
      List.append_assoc insertColumns, List.singleton_append]
  rw [readInsert_eq hparts (by simp) insertPrefix_parts.2.1 htuples hlength]
  have htable : String.ofList ("log_entries ".toList.filter (· ≠ ' ')) = "log_entries" := by
    simp
  rw [htable]
  simp only [List.map_map, Function.comp_def, zip_columnNames]

end Sentinalysis.Db
