import Timetable.Sql.Drop

/-!
# The tables of the engine

Beside the tables of a file there are tables that belong to the engine and that nobody can drop.
One lists the tables of the file and one those that a client keeps to itself. Others are computed
when they are read; among these are the tables of settings, one for each setting that has a value.
Names are the same in upper and lower case.
-/

namespace Timetable.Relational.EngineTable

/-- The list of tables that a path leads to. -/
def list? (p : Sql.TablePath) : Option String :=
  let isOfFile := p.table.toLower ∈ ["sqlite_master", "sqlite_schema"]
  let isOfClient := p.table.toLower ∈ ["sqlite_temp_master", "sqlite_temp_schema"]
  match p.schema.map String.toLower with
  | none =>
    if isOfFile then some "sqlite_master"
    else if isOfClient then some "sqlite_temp_master"
    else none
  | some "main" => if isOfFile then some "sqlite_master" else none
  | some "temp" => if isOfFile || isOfClient then some "sqlite_temp_master" else none
  | some _ => none

/-- The computed tables that are no tables of settings. -/
def computed : List String := ["dbstat", "fts3tokenize", "json_each", "json_tree", "sqlite_stmt"]

/-- The computed tables that cannot be had without arguments. -/
def dependent : List String := ["fts4aux"]

/-- The settings that have values. -/
def settings : List String :=
  ["analysis_limit", "application_id", "auto_vacuum", "automatic_index", "busy_timeout",
    "cache_size", "cache_spill", "cell_size_check", "checkpoint_fullfsync", "collation_list",
    "compile_options", "count_changes", "data_version", "database_list", "default_cache_size",
    "defer_foreign_keys", "empty_result_callbacks", "encoding", "foreign_key_check",
    "foreign_key_list", "foreign_keys", "freelist_count", "full_column_names", "fullfsync",
    "function_list", "hard_heap_limit", "ignore_check_constraints", "index_info", "index_list",
    "index_xinfo", "integrity_check", "journal_mode", "journal_size_limit", "legacy_alter_table",
    "locking_mode", "max_page_count", "module_list", "optimize", "page_count", "page_size",
    "pragma_list", "query_only", "quick_check", "read_uncommitted", "recursive_triggers",
    "reverse_unordered_selects", "schema_version", "secure_delete", "short_column_names",
    "soft_heap_limit", "synchronous", "table_info", "table_list", "table_xinfo", "temp_store",
    "threads", "trusted_schema", "user_version", "writable_schema"]

/-- Whether a name is that of a table of settings. -/
def isOfSetting (name : String) : Bool := settings.any fun s => "pragma_" ++ s = name.toLower

/-- What the engine makes of the name of a computed table. -/
inductive Answer
  | table (name : String)
  /-- A table that cannot be had without arguments. -/
  | noArguments (name : String)
deriving DecidableEq, Repr

/-- The computed table with a name, for a client that has `met` some tables of settings. It knows
them by the spelling in which it met them first. -/
def find? (met : List String) (name : String) : Option Answer :=
  let usual := name.toLower
  if usual ∈ computed then some (.table usual)
  else if usual ∈ dependent then some (.noArguments usual)
  else if isOfSetting name then some (.table ((met.find? (·.toLower = usual)).getD name))
  else none

/-- The tables of settings that a client has met once it has asked for a table. -/
def meet (met : List String) (name : String) : List String :=
  if isOfSetting name && met.all (·.toLower ≠ name.toLower) then met ++ [name] else met

end Timetable.Relational.EngineTable
