import IncidentDesk.Routine
import IncidentDesk.Machine
import IncidentDesk.Query.SqlGuard

namespace incidentdesk.agent

open query (Tree MAX_ROWS)

/-- A value of a row, as `json.dumps` writes it with `default=str`. -/
inductive Cell where
  | null
  | num (value : Int)
  | str (value : String)
deriving DecidableEq

/-- A row of an answer of the warehouse, by the names of its columns. -/
abbrev Record := List (String × Cell)

/-- What a node writes to its stream. -/
inductive Chunk where
  | progress (step status : String)
  | result (data : List Record) (sql : String) (row_limit : Nat)
deriving DecidableEq

/-- What the warehouse is asked to do. -/
inductive Statement where
  /-- `select version()`. -/
  | version
  | explain (sql : String)
  /-- `SET SESSION MAX_EXECUTION_TIME=5000`. -/
  | set_timeout
  | query (sql : String)
deriving DecidableEq

/-- What a call returns: the text of a model, or the rows of the warehouse. -/
structure Answer where
  text : String
  rows : List Record

/-- What the agent rests on: the parser and the printer of `sqlglot`, and the checks of
the relations, the metrics and the period, which are functions of the question and
of the statement. -/
structure Toolkit where
  py : Python
  parse : String → Option (List (Option Tree))
  sql : Tree → String
  validate_relations : String → Except String Unit
  validate_metrics : String → String → Except String Unit
  validate_period : String → String → Except String Unit

/-- `safe_sql` on a text. -/
def Toolkit.safe_sql (kit : Toolkit) (sql : String) : Except String String :=
  (query.safe_sql kit.py (kit.parse sql)).map kit.sql

/-- The three checks of a statement. -/
def Toolkit.contracts (kit : Toolkit) (question sql : String) : Except String Unit := do
  kit.validate_relations sql
  kit.validate_metrics question sql
  kit.validate_period question sql

/-- What the nodes share, as far as the nodes around the statement read it. -/
structure DataAgentState where
  query : String
  sql : Option String
  error : Option String
deriving DecidableEq

/-- What a node has done, or an answer that it has got. -/
abbrev Entry := Routine.Entry Chunk Statement (Except String Answer)

/-- A node's coroutine: it writes chunks, asks, and may fail. -/
abbrev Coroutine := ExceptT String (Routine Chunk Statement (Except String Answer))

namespace Coroutine

def writer (chunk : Chunk) : Coroutine Unit := ExceptT.lift (.write chunk (.done ()))

/-- A call of a model, of the retrieval or of the metadata. -/
def call : Coroutine Answer := ExceptT.mk (.await none .done)

/-- `await session.execute(text(statement))`. -/
def execute (statement : Statement) : Coroutine Answer :=
  ExceptT.mk (.send statement (.await (some statement) .done))

end Coroutine

open Coroutine

/-- The frame of every node: it tells when it begins and when it fails. -/
def attempt {α : Type} (step : String) (body : Coroutine α) : Coroutine α := do
  writer (.progress step "running")
  try body
  catch e =>
    writer (.progress step "error")
    throw e

/-- The frame of a node that gathers context for the prompt. -/
def gather (step : String) (body : Coroutine Answer) : Coroutine (DataAgentState → DataAgentState) :=
  attempt step do
    let _ ← body
    writer (.progress step "success")
    return id

section Nodes

variable (kit : Toolkit) (state : DataAgentState)

def extract_keywords := gather "抽取关键词" call

def recall_column := gather "召回字段信息" call

def recall_value := gather "召回字段取值" call

def recall_metric := gather "召回指标信息" call

def merge_retrieved_info := gather "合并召回信息" call

def filter_table := gather "过滤表信息" call

def filter_metric := gather "过滤指标信息" call

def add_extra_context := gather "添加额外上下文" (execute .version)

/-- `text.removeprefix("UNSUPPORTED:")`, if it starts with that. -/
def unsupported? (text : String) : Option String :=
  if "UNSUPPORTED:".toList.isPrefixOf text.toList then some (String.ofList (text.toList.drop 12)) else none

def generate_sql : Coroutine (DataAgentState → DataAgentState) :=
  attempt "生成SQL" do
    let result := (← call).text
    if let some reason := unsupported? (strip result) then
      throw (strip reason)
    writer (.progress "生成SQL" "success")
    return fun state => { state with sql := some result }

/-- `state["sql"]`. -/
def DataAgentState.getSql : Coroutine String :=
  match state.sql with
  | some sql => return sql
  | none => throw "'sql'"

/-- `DWMySQLRepository.validate`. -/
def validate (sql : String) : Coroutine Unit := do
  let sql ← liftM (kit.safe_sql sql)
  let _ ← execute (.explain sql)

/-- `DWMySQLRepository.run`. -/
def run (sql : String) : Coroutine (List Record) := do
  let sql ← liftM (kit.safe_sql sql)
  let _ ← execute .set_timeout
  return (← execute (.query sql)).rows

def validate_sql : Coroutine (DataAgentState → DataAgentState) :=
  attempt "校验SQL" do
    let sql ← state.getSql
    try
      liftM (kit.contracts state.query sql)
      validate kit sql
      writer (.progress "校验SQL" "success")
      pure fun state => { state with error := none }
    catch e =>
      writer (.progress "校验SQL" "success")
      pure fun state => { state with error := some e }

def correct_sql : Coroutine (DataAgentState → DataAgentState) :=
  attempt "校正SQL" do
    let _ ← state.getSql
    let result := (← call).text
    writer (.progress "校正SQL" "success")
    return fun state => { state with sql := some result }

def run_sql : Coroutine (DataAgentState → DataAgentState) :=
  attempt "执行SQL" do
    let sql ← liftM (kit.safe_sql (← state.getSql))
    liftM (kit.contracts state.query sql)
    validate kit sql
    let result ← run kit sql
    writer (.progress "执行SQL" "success")
    writer (.result result sql MAX_ROWS)
    return id

end Nodes

/-- The nodes of the graph. -/
inductive Name where
  | extract_keywords
  | recall_column
  | recall_value
  | recall_metric
  | merge_retrieved_info
  | filter_table
  | filter_metric
  | add_extra_context
  | generate_sql
  | validate_sql
  | correct_sql
  | run_sql
deriving DecidableEq

def node (kit : Toolkit) (state : DataAgentState) : Name → Coroutine (DataAgentState → DataAgentState)
  | .extract_keywords => extract_keywords
  | .recall_column => recall_column
  | .recall_value => recall_value
  | .recall_metric => recall_metric
  | .merge_retrieved_info => merge_retrieved_info
  | .filter_table => filter_table
  | .filter_metric => filter_metric
  | .add_extra_context => add_extra_context
  | .generate_sql => generate_sql
  | .validate_sql => validate_sql kit state
  | .correct_sql => correct_sql state
  | .run_sql => run_sql kit state

/-- The edges that leave a node, none where the graph ends. -/
def edges (state : DataAgentState) : Name → List Name
  | .extract_keywords => [.recall_column, .recall_value, .recall_metric]
  | .recall_column | .recall_value | .recall_metric => [.merge_retrieved_info]
  | .merge_retrieved_info => [.filter_table, .filter_metric]
  | .filter_table | .filter_metric => [.add_extra_context]
  | .add_extra_context => [.generate_sql]
  | .generate_sql => [.validate_sql]
  | .validate_sql => if state.error = none then [.run_sql] else [.correct_sql]
  | .correct_sql => [.run_sql]
  | .run_sql => []

/-- The nodes that follow on the nodes of a superstep, each of them once. -/
def successors (state : DataAgentState) (names : List Name) : List Name := (names.flatMap (edges state)).dedup

/-- The nodes of a superstep. -/
abbrev Superstep :=
  Routine.Crew Name Chunk Statement (Except String Answer) (Except String (DataAgentState → DataAgentState))

/-- A run of the graph. -/
structure Graph where
  state : DataAgentState
  tasks : Superstep
  trace : List Entry
  outcome : Option (Except String Unit)

/-- What can happen next: a node goes on, with an answer in case it waits for one; the
failure of a node ends the run, and the others are cancelled; or all nodes have
returned, and the next superstep begins. -/
inductive Act where
  | go (n : Nat) (answer : Except String Answer)
  | fail (n : Nat)
  | advance

/-- The updates of the nodes, when all of them have returned one. -/
def updates? (tasks : Superstep) : Option (List (DataAgentState → DataAgentState)) :=
  tasks.mapM fun task =>
    match task.2 with
    | .done (.ok update) => some update
    | _ => none

namespace Graph

def begin (kit : Toolkit) (state : DataAgentState) (names : List Name) : Superstep :=
  names.map fun name => (name, (node kit state name).run)

/-- `graph.astream` on a question. -/
def start (kit : Toolkit) (query : String) : Graph :=
  let state : DataAgentState := { query, sql := none, error := none }
  { state, tasks := begin kit state [.extract_keywords], trace := [], outcome := none }

/-- A node takes its next step. -/
def go (graph : Graph) (n : Nat) (answer : Except String Answer) : Graph :=
  let (tasks, more) := graph.tasks.go n answer
  { graph with tasks, trace := graph.trace ++ more }

def fail (graph : Graph) (n : Nat) : Graph :=
  match graph.tasks[n]? with
  | some (_, .done (.error e)) => { graph with tasks := [], outcome := some (.error e) }
  | _ => graph

def advance (kit : Toolkit) (graph : Graph) : Graph :=
  match updates? graph.tasks with
  | none => graph
  | some updates =>
    let state := updates.foldl (fun state update => update state) graph.state
    match successors state (graph.tasks.map Prod.fst) with
    | [] => { graph with state, tasks := [], outcome := some (.ok ()) }
    | names => { graph with state, tasks := begin kit state names }

def step (kit : Toolkit) (graph : Graph) (act : Act) : Graph :=
  if graph.outcome.isSome then graph
  else
    match act with
    | .go n answer => graph.go n answer
    | .fail n => graph.fail n
    | .advance => graph.advance kit

/-- The run of the graph on a question, after some acts. -/
abbrev after (kit : Toolkit) (query : String) (acts : List Act) : Graph :=
  machine.run (step kit) (start kit query) acts

/-- The chunks that the nodes have written. -/
def written (graph : Graph) : List Chunk :=
  graph.trace.filterMap fun entry =>
    match entry with
    | .written chunk => some chunk
    | _ => none

/-- The statements that the warehouse has got. -/
def sent (graph : Graph) : List Statement :=
  graph.trace.filterMap fun entry =>
    match entry with
    | .sent statement => some statement
    | _ => none

end Graph

end incidentdesk.agent
