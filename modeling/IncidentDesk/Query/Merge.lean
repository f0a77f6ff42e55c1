import IncidentDesk.Dict

namespace incidentdesk.query

/-- The error of reading an attribute of a row that does not exist. -/
inductive MergeError where
  | AttributeError
deriving DecidableEq

/-- A column of the metadata, with its examples and its other names as a reader of
them has them. -/
structure ColumnInfo (E A : Type) where
  id : String
  name : String
  type : String
  role : String
  examples : E
  description : String
  aliases : A
  table_id : String
deriving DecidableEq

structure TableInfo where
  id : String
  name : String
  role : String
  description : String
deriving DecidableEq

structure MetricInfo where
  id : String
  name : String
  description : String
  relevant_columns : List String
  aliases : List String
deriving DecidableEq

structure ValueInfo (V : Type) where
  id : String
  value : V
  column_id : String
deriving DecidableEq

/-- A column as an entity, whose JSON columns are lists. -/
abbrev SchemaColumn (V : Type) := ColumnInfo (List V) (List String)

/-- A JSON column as an entity has it, or as the text that a raw query returns. -/
inductive Stored (α : Type) where
  | list (values : List α)
  | text (json : String)

/-- The tables of the metadata database, whose ids are primary keys, and the JSON text
that the driver gives for a list. -/
structure MetaMySQLRepository (V : Type) where
  column_info : List (SchemaColumn V)
  table_info : List TableInfo
  column_ids : (column_info.map ColumnInfo.id).Nodup
  table_ids : (table_info.map TableInfo.id).Nodup
  json : List V → String
  jsonAliases : List String → String

namespace MetaMySQLRepository

variable {V : Type} (repository : MetaMySQLRepository V)

def get_column_info_by_id (id : String) : Option (SchemaColumn V) := repository.column_info.find? fun c => c.id = id

def get_table_info_by_id (id : String) : Option TableInfo := repository.table_info.find? fun t => t.id = id

/-- The primary and foreign keys of a table, from a raw query. -/
def get_key_columns_by_table_id (table_id : String) : List (ColumnInfo (Stored V) (Stored String)) :=
  (repository.column_info.filter fun c => c.table_id = table_id && (c.role = "primary_key" || c.role = "foreign_key")).map
    fun c => { c with examples := .text (repository.json c.examples), aliases := .text (repository.jsonAliases c.aliases) }

end MetaMySQLRepository

/-- The results of the three branches of the recall. -/
structure Recall (V : Type) where
  retrieved_column_infos : List (SchemaColumn V)
  retrieved_metric_infos : List MetricInfo
  retrieved_value_infos : List (ValueInfo V)

structure ColumnInfoState (V : Type) where
  name : String
  type : String
  role : String
  examples : Stored V
  description : String
  aliases : Stored String

structure TableInfoState (V : Type) where
  name : String
  role : String
  description : String
  columns : List (ColumnInfoState V)

structure MetricInfoState where
  name : String
  description : String
  relevant_columns : List String
  aliases : List String

section Merge

variable {V : Type} [DecidableEq V] (repository : MetaMySQLRepository V)

/-- The columns by their ids. -/
def columnsById (columns : List (SchemaColumn V)) : List (String × SchemaColumn V) :=
  columns.foldl (fun d c => dict.put d c.id c) []

/-- The column of an id, from the metadata unless it is there. A row that does not
exist fails here already; in the source it does at its first use. -/
def complete (d : List (String × SchemaColumn V)) (id : String) : Except MergeError (List (String × SchemaColumn V)) :=
  if id ∈ d.map Prod.fst then .ok d
  else
    match repository.get_column_info_by_id id with
    | some c => .ok (dict.put d id c)
    | none => .error .AttributeError

/-- The examples with a value that was found. -/
def addExample (examples : List V) (value : V) : List V := if value ∈ examples then examples else examples ++ [value]

def addValue (d : List (String × SchemaColumn V)) (info : ValueInfo V) : Except MergeError (List (String × SchemaColumn V)) := do
  let d ← complete repository d info.column_id
  match d.lookup info.column_id with
  | some c => .ok (dict.put d info.column_id { c with examples := addExample c.examples info.value })
  | none => .error .AttributeError

/-- The columns that the recall leads to. -/
def mergedColumns (recalls : Recall V) : Except MergeError (List (String × SchemaColumn V)) := do
  let d := columnsById recalls.retrieved_column_infos
  let d ← (recalls.retrieved_metric_infos.flatMap MetricInfo.relevant_columns).foldlM (complete repository) d
  recalls.retrieved_value_infos.foldlM (addValue repository) d

/-- A table with its columns, and with its keys if they are not among these. -/
def withKeys (table_id : String) (columns : List (SchemaColumn V)) : List (ColumnInfo (Stored V) (Stored String)) :=
  let column_ids := columns.map ColumnInfo.id
  (columns.map fun c => { c with examples := .list c.examples, aliases := .list c.aliases }) ++
    (repository.get_key_columns_by_table_id table_id).filter fun key => key.id ∉ column_ids

/-- The tables with their columns. -/
def mergedTables (recalls : Recall V) : Except MergeError (List (TableInfo × List (ColumnInfo (Stored V) (Stored String)))) := do
  let d ← mergedColumns repository recalls
  (dict.group ColumnInfo.table_id (d.map Prod.snd)).mapM fun (table_id, columns) =>
    match repository.get_table_info_by_id table_id with
    | some table => .ok (table, withKeys repository table_id columns)
    | none => .error .AttributeError

def tableState (table : TableInfo × List (ColumnInfo (Stored V) (Stored String))) : TableInfoState V where
  name := table.1.name
  role := table.1.role
  description := table.1.description
  columns := table.2.map fun c =>
    { name := c.name, type := c.type, role := c.role, examples := c.examples, description := c.description
      aliases := c.aliases }

def metricState (metric : MetricInfo) : MetricInfoState where
  name := metric.name
  description := metric.description
  relevant_columns := metric.relevant_columns
  aliases := metric.aliases

def merge_retrieved_info (recalls : Recall V) : Except MergeError (List (TableInfoState V) × List MetricInfoState) := do
  let tables ← mergedTables repository recalls
  return (tables.map tableState, recalls.retrieved_metric_infos.map metricState)

end Merge

end incidentdesk.query
