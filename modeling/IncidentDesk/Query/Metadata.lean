import IncidentDesk.Client
import IncidentDesk.Dict
import IncidentDesk.Query.Agent

namespace incidentdesk.meta

open agent (Cell)
open Client (ask)

structure ColumnConfig where
  name : String
  role : String
  description : String
  aliases : List String
  sync : Bool

structure TableConfig where
  name : String
  role : String
  description : String
  columns : List ColumnConfig

structure MetricConfig where
  name : String
  description : String
  relevant_columns : List String
  aliases : List String

/-- `conf/meta_config.yaml`. -/
structure MetaConfig where
  tables : Option (List TableConfig)
  metrics : Option (List MetricConfig)

structure TableInfo where
  id : String
  name : String
  role : String
  description : String
deriving DecidableEq

structure ColumnInfo where
  id : String
  name : String
  type : String
  role : String
  examples : List Cell
  description : String
  aliases : List String
  table_id : String
deriving DecidableEq

structure MetricInfo where
  id : String
  name : String
  description : String
  relevant_columns : List String
  aliases : List String
deriving DecidableEq

structure ColumnMetric where
  column_id : String
  metric_id : String
deriving DecidableEq

structure ValueInfo where
  id : String
  value : Cell
  column_id : String
deriving DecidableEq

/-- The collections of vectors. -/
inductive Collection where
  | column_info_collection
  | metric_info_collection
deriving DecidableEq

/-- `uuid.uuid4()`: the run that draws it, and how many it has drawn for the same
collection. -/
abbrev Uuid := Nat × Nat

/-- A vector and its payload. -/
abbrev Point (ν α : Type) := ν × α

variable {ν α : Type}

inductive Request (ν : Type) where
  /-- `CREATE TABLE IF NOT EXISTS knowledge_build`. -/
  | create_knowledge_build
  /-- `SELECT version FROM knowledge_build WHERE id=1`. -/
  | select_version
  /-- `SELECT COUNT(*) FROM table_info`. -/
  | count_tables
  /-- The transaction that inserts tables and columns. -/
  | save_tables (tables : List TableInfo) (columns : List ColumnInfo)
  | collection_exists (collection : Collection)
  | create_collection (collection : Collection)
  | upsert_columns (points : List (Uuid × Point ν ColumnInfo))
  | upsert_metrics (points : List (Uuid × Point ν MetricInfo))
  | index_exists
  | create_index
  | bulk (values : List ValueInfo)
  /-- The transaction that inserts metrics and their columns. -/
  | save_metrics (metrics : List MetricInfo) (column_metrics : List ColumnMetric)
  /-- `INSERT INTO knowledge_build VALUES(1,'merged-v1')`. -/
  | insert_version (version : String)

/-- A reply, with what its request asks for. -/
structure Reply where
  version : Option String := none
  count : Nat := 0
  found : Bool := false

/-- What the stores hold: the tables of the metadata, the vectors, the values and the
version of the index. -/
structure Content (ν : Type) where
  tables : List TableInfo := []
  columns : List ColumnInfo := []
  column_points : List (Uuid × Point ν ColumnInfo) := []
  values : List (String × ValueInfo) := []
  metrics : List MetricInfo := []
  column_metrics : List ColumnMetric := []
  metric_points : List (Uuid × Point ν MetricInfo) := []
  version : Option String := none

structure Stores (ν : Type) where
  content : Content ν
  knowledge_build : Bool
  collections : List Collection
  index : Bool

/-- What the program rests on: how MySQL compares keys, the warehouse, and the
embedding. -/
structure Kit (ν : Type) where
  collate : String → String
  get_column_types : String → List (String × String)
  get_column_values : String → String → Nat → List Cell
  embed : List String → List ν

/-- What a request that writes does to the content. -/
def Content.write (content : Content ν) : Request ν → Content ν
  | .save_tables tables columns =>
    { content with tables := content.tables ++ tables, columns := content.columns ++ columns }
  | .upsert_columns points =>
    { content with column_points := points.foldl (fun d point => dict.put d point.1 point.2) content.column_points }
  | .upsert_metrics points =>
    { content with metric_points := points.foldl (fun d point => dict.put d point.1 point.2) content.metric_points }
  | .bulk values => { content with values := values.foldl (fun d value => dict.put d value.id value) content.values }
  | .save_metrics metrics column_metrics =>
    { content with metrics := content.metrics ++ metrics, column_metrics := content.column_metrics ++ column_metrics }
  | .insert_version version => { content with version := some version }
  | _ => content

def Request.writes : Request ν → Bool
  | .save_tables _ _ | .upsert_columns _ | .upsert_metrics _ | .bulk _ | .save_metrics _ _ | .insert_version _ => true
  | _ => false

section Stores

variable (kit : Kit ν)

/-- No two rows have the same key. -/
def Kit.distinct (rows : List String) : Bool := decide ((rows.map kit.collate).Nodup)

def Kit.distinctPairs (rows : List (String × String)) : Bool :=
  decide ((rows.map fun row => (kit.collate row.1, kit.collate row.2)).Nodup)

/-- The stores' answer to a request. -/
def serve (request : Request ν) (s : Stores ν) : Except String Reply × Stores ν :=
  let write : Except String Reply × Stores ν := (.ok {}, { s with content := s.content.write request })
  match request with
  | .create_knowledge_build => (.ok {}, { s with knowledge_build := true })
  | .select_version =>
    (if s.knowledge_build then .ok { version := s.content.version } else .error "ProgrammingError", s)
  | .count_tables => (.ok { count := s.content.tables.length }, s)
  | .save_tables tables columns =>
    if kit.distinct ((s.content.tables ++ tables).map (·.id)) &&
        kit.distinct ((s.content.columns ++ columns).map (·.id))
    then write else (.error "IntegrityError", s)
  | .collection_exists collection => (.ok { found := collection ∈ s.collections }, s)
  | .create_collection collection =>
    if collection ∈ s.collections then (.error "UnexpectedResponse", s)
    else (.ok {}, { s with collections := collection :: s.collections })
  | .upsert_columns _ =>
    if Collection.column_info_collection ∈ s.collections then write else (.error "UnexpectedResponse", s)
  | .upsert_metrics _ =>
    if Collection.metric_info_collection ∈ s.collections then write else (.error "UnexpectedResponse", s)
  | .index_exists => (.ok { found := s.index }, s)
  | .create_index => if s.index then (.error "BadRequestError", s) else (.ok {}, { s with index := true })
  | .bulk _ => write
  | .save_metrics metrics column_metrics =>
    if kit.distinct ((s.content.metrics ++ metrics).map (·.id)) &&
        kit.distinctPairs ((s.content.column_metrics ++ column_metrics).map fun row => (row.column_id, row.metric_id))
    then write else (.error "IntegrityError", s)
  | .insert_version _ =>
    if s.knowledge_build && s.content.version.isNone then write else (.error "IntegrityError", s)

end Stores

/-- A script that stops at its first error. -/
abbrev Script (ν : Type) := ExceptT String (Client (Request ν) Reply)

/-- `for i in range(0, len(items), size): items[i:i+size]`. -/
def batches (size : Nat) (items : List α) : List (List α) :=
  (List.range ((items.length + size - 1) / size)).map fun i => (items.drop (i * size)).take size

section Service

variable (kit : Kit ν) (run : Nat)

/-- `str(value)`. -/
def text : Cell → String
  | .null => "None"
  | .num value => toString value
  | .str value => value

def tableInfo (table : TableConfig) : TableInfo :=
  { id := table.name, name := table.name, role := table.role, description := table.description }

/-- `f"{table.name}.{column.name}"`. -/
def columnId (table : TableConfig) (column : ColumnConfig) : String := table.name ++ "." ++ column.name

/-- The columns of the configuration, with what the warehouse knows of them. -/
def columnInfos (tables : List TableConfig) : Except String (List ColumnInfo) := do
  let columns ← tables.mapM fun table => do
    let column_types := kit.get_column_types table.name
    table.columns.mapM fun column => do
      let column_values := kit.get_column_values table.name column.name 10
      let some type := column_types.lookup column.name | throw column.name
      return { id := columnId table column, name := column.name, type, role := column.role, examples := column_values
               description := column.description, aliases := column.aliases, table_id := table.name : ColumnInfo }
  return columns.flatten

def save_tables_to_meta_db (tables : List TableConfig) : Script ν (List ColumnInfo) := do
  let column_infos ← liftM (columnInfos kit tables)
  let _ ← ask (.save_tables (tables.map tableInfo) column_infos)
  return column_infos

def ensure_collection (collection : Collection) : Script ν PUnit := do
  if ¬ (← ask (.collection_exists collection)).found then
    let _ ← ask (.create_collection collection)

/-- The points of some records, of which each has its texts. -/
def points (texts : α → List String) (infos : List α) : List (Uuid × Point ν α) :=
  let points := infos.flatMap fun info => (texts info).map fun text => (text, info)
  let embeddings := (batches 20 (points.map Prod.fst)).flatMap kit.embed
  let ids := (List.range points.length).map fun n => (run, n)
  ids.zip (embeddings.zip (points.map Prod.snd))

/-- Save the points of some records in a collection. -/
def save_to_qdrant (collection : Collection) (upsert : List (Uuid × Point ν α) → Request ν)
    (texts : α → List String) (infos : List α) : Script ν PUnit := do
  ensure_collection collection
  (batches 10 (points kit run texts infos)).forM fun batch => do
    let _ ← ask (upsert batch)

def ColumnInfo.texts (info : ColumnInfo) : List String := info.name :: info.description :: info.aliases

def MetricInfo.texts (info : MetricInfo) : List String := info.name :: info.description :: info.aliases

def save_column_info_to_qdrant (column_infos : List ColumnInfo) : Script ν PUnit :=
  save_to_qdrant kit run .column_info_collection .upsert_columns ColumnInfo.texts column_infos

def ensure_index : Script ν PUnit := do
  if ¬ (← ask .index_exists).found then
    let _ ← ask .create_index

/-- `column2sync`. -/
def column2sync (tables : List TableConfig) : List (String × Bool) :=
  (tables.flatMap fun table => table.columns.map fun column => (columnId table column, column.sync)).foldl
    (fun d entry => dict.put d entry.1 entry.2) []

/-- The values of a column, if they are to be found. -/
def columnValues (tables : List TableConfig) (column_info : ColumnInfo) : Except String (List ValueInfo) := do
  let some sync := (column2sync tables).lookup column_info.id | throw column_info.id
  if sync then
    return (kit.get_column_values column_info.table_id column_info.name 100000).map fun value =>
      { id := column_info.id ++ "." ++ text value, value, column_id := column_info.id }
  return []

def valueInfos (tables : List TableConfig) (column_infos : List ColumnInfo) : Except String (List ValueInfo) := do
  return (← column_infos.mapM (columnValues kit tables)).flatten

def save_value_info_to_es (tables : List TableConfig) (column_infos : List ColumnInfo) : Script ν PUnit := do
  ensure_index
  let value_infos ← liftM (valueInfos kit tables column_infos)
  (batches 20 value_infos).forM fun batch => do
    let _ ← ask (.bulk batch)

def metricInfo (metric : MetricConfig) : MetricInfo :=
  { id := metric.name, name := metric.name, description := metric.description
    relevant_columns := metric.relevant_columns, aliases := metric.aliases }

def columnMetrics (metrics : List MetricConfig) : List ColumnMetric :=
  metrics.flatMap fun metric =>
    metric.relevant_columns.map fun column => { column_id := column, metric_id := metric.name }

def save_metrics_to_meta_db (metrics : List MetricConfig) : Script ν (List MetricInfo) := do
  let metric_infos := metrics.map metricInfo
  let _ ← ask (.save_metrics metric_infos (columnMetrics metrics))
  return metric_infos

def save_metrics_to_qdrant (metric_infos : List MetricInfo) : Script ν PUnit :=
  save_to_qdrant kit run .metric_info_collection .upsert_metrics MetricInfo.texts metric_infos

/-- `MetaKnowledgeService.build`. -/
def build (meta_config : MetaConfig) : Script ν PUnit := do
  let tables := meta_config.tables.getD []
  if tables ≠ [] then
    let column_infos ← save_tables_to_meta_db kit tables
    save_column_info_to_qdrant kit run column_infos
    save_value_info_to_es kit tables column_infos
  let metrics := meta_config.metrics.getD []
  if metrics ≠ [] then
    let metric_infos ← save_metrics_to_meta_db metrics
    save_metrics_to_qdrant kit run metric_infos

/-- `app.scripts.initialize`. -/
def main (meta_config : MetaConfig) : Script ν PUnit := do
  let _ ← ask .create_knowledge_build
  let version := (← ask .select_version).version
  if version = some "merged-v1" then
    return
  if (← ask .count_tables).count ≠ 0 then
    throw "Metadata is partially initialized. Preserve data and repair the index before retrying."
  build kit run meta_config
  let _ ← ask (.insert_version "merged-v1")

end Service

/-- Stores without an index. -/
def empty : Stores ν := { content := {}, knowledge_build := false, collections := [], index := false }

/-- Some runs of the script on stores without an index, after some acts. -/
def after (kit : Kit ν) (meta_config : MetaConfig) (runs : Nat) (acts : List Client.Act) :
    Client.System (Stores ν) (Request ν) Reply (Except String PUnit) :=
  machine.run (Client.System.step (serve kit))
    { store := empty, clients := (List.range runs).map fun run => (main kit run meta_config).run } acts

end incidentdesk.meta
