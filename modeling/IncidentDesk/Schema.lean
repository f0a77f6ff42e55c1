import IncidentDesk.Json
import IncidentDesk.Sql.Atomic

namespace incidentdesk

/-- Microseconds since the zero `time.Time`, at the resolution of a PostgreSQL
timestamp. -/
abbrev Time := Int

def seconds (n : Int) : Time := n * 1000000

inductive Role where
  | investigator
  | approver
deriving DecidableEq

/-- `investigations.status`. -/
inductive Status where
  | queued
  | running
  | completed
  | partial_
  | waiting_information
  | failed
  | cancelled
deriving DecidableEq

/-- `jobs.state`. -/
inductive JobState where
  | queued
  | running
  | done
  | failed
  | cancelled
deriving DecidableEq

/-- `actions.state`. -/
inductive ActionState where
  | draft
  | approved
  | rejected
  | invalidated
  | executing
  | unknown
  | succeeded
deriving DecidableEq

/-- `memories.status`. -/
inductive MemoryStatus where
  | candidate
  | confirmed
  | revoked
  | expired
deriving DecidableEq

/-- `data_queries.status`. -/
inductive QueryStatus where
  | queued
  | running
  | completed
  | failed
deriving DecidableEq

/-- `conversation_turns.status`. -/
inductive TurnStatus where
  | pending
  | completed
  | failed
deriving DecidableEq

/-- A log query; `none` is the nil slice of a field that the request left out. -/
structure LogQuery where
  Mode : String
  Terms : Option (List String)
  Levels : Option (List String)
deriving DecidableEq

structure ConversationTurn where
  Role : String
  Content : String
deriving DecidableEq

structure ConversationInput where
  Text : String
  Timezone : String
  Mode : String
  Revision : Int
deriving DecidableEq

structure queryDecision where
  ResetContext : Bool
  Kind : String
  Clarification : String
  Answer : String
  Question : String
deriving DecidableEq

structure Service where
  team : String
  name : String
  repo : String
  watermark : Nat
  enabled : Bool
deriving DecidableEq

structure Investigation where
  team : String
  service : String
  subject : String
  symptom : String
  start_at : Time
  end_at : Time
  timezone : String
  status : Status
  idem : String
  request_hash : String
  report : Option Json
  manifest : Option Json
  source_version : Nat
  seq : Nat
  query : LogQuery

structure Job where
  state : JobState
  owner : Option String
  generation : Nat
  lease_until : Option Time
  available_at : Time
  attempts : Nat
  last_error : Option String
  last_callback : Option String
  result_hash : Option String
deriving DecidableEq

structure Event where
  kind : String
  payload : Json

structure Action where
  id : String
  version : Int
  state : ActionState
  target : String
  title : String
  body : String
  digest : String
  evidence_hash : String
  source_version : Nat
  approved_by : Option String
  approved_digest : Option String
  approved_version : Option Int
  result : Option Json
  marker : String
  updated_at : Time

structure Approval where
  action : String
  version : Int
  digest : String
  evidence_hash : String
  subject : String
  decision : String
deriving DecidableEq

structure Memory where
  investigation : String
  service : String
  team : String
  content : String
  status : MemoryStatus
  reviewer : Option String
  source_version : Nat
  expires_at : Time
deriving DecidableEq

structure Badcase where
  investigation : String
  category : String
  label : String
  reviewer : String
  status : String
  manifest : Option Json

structure QueryDataset where
  team : String
  name : String
  enabled : Bool
  version : String
deriving DecidableEq

structure UnifiedRequest where
  request_hash : String
  kind : Option String
  decision : Option queryDecision
deriving DecidableEq

structure DataQuery where
  id : String
  dataset : String
  question : String
  status : QueryStatus
  request_hash : String
  result : Option Json
  progress : List Json
  error : Option String
  attempts : Nat
  lease_until : Option Time
  fence : Option String
  created_at : Time

structure Conversation where
  subject : String
  title : String
  revision : Int
  required_teams : List String
  required_datasets : List String
  summary : Json
  context_after_seq : Nat
  updated_at : Time

/-- A row of `conversation_turns`. -/
structure Turn where
  conversation : String
  seq : Nat
  idem : String
  request_hash : String
  base_revision : Int
  input : ConversationInput
  history : List ConversationTurn
  status : TurnStatus
  response : Option Json
  response_status : Option Nat
  error : Option String
  fence : String
  lease_until : Option Time
  created_at : Time
  has_query_anchor : Bool

/-- The rows of the schema by their keys. `actions` rows are found by their
investigation, `data_queries` by subject and key; the other unique constraints
and primary keys are the `_id` and `_idem` entries, each holding what it points
to. An `advisory` key is only ever locked. -/
inductive Key where
  | advisory (n : Int)
  | members (subject team : String)
  | admins (subject : String)
  | services (id : String)
  | source_changes (service : String) (watermark : Nat)
  | investigations (id : String)
  | investigations_idem (subject idem : String)
  | jobs (id : String)
  | events (investigation : String) (seq : Nat)
  | actions (investigation : String)
  | actions_id (id : String)
  | approvals (id : String)
  | memories (id : String)
  | badcases (id : String)
  | query_datasets (id : String)
  | unified_requests (subject idem : String)
  | data_queries (subject idem : String)
  | data_queries_id (id : String)
  | conversations (id : String)
  | conversations_idem (subject create_idem : String)
  | conversation_turns (id : String)
  | conversation_turns_idem (conversation idem : String)
deriving DecidableEq

/-- The type of row under each key. A membership that has been deleted stays as
`none`, the dead version of its row. -/
@[reducible] def Row : Key → Type
  | .advisory _ => Unit
  | .members _ _ => Option Role
  | .admins _ => Unit
  | .services _ => Service
  | .source_changes _ _ => String
  | .investigations _ => Investigation
  | .investigations_idem _ _ => String
  | .jobs _ => Job
  | .events _ _ => Event
  | .actions _ => Action
  | .actions_id _ => String
  | .approvals _ => Approval
  | .memories _ => Memory
  | .badcases _ => Badcase
  | .query_datasets _ => QueryDataset
  | .unified_requests _ _ => UnifiedRequest
  | .data_queries _ _ => DataQuery
  | .data_queries_id _ => String × String
  | .conversations _ => Conversation
  | .conversations_idem _ _ => String
  | .conversation_turns _ => Turn
  | .conversation_turns_idem _ _ => String

abbrev Store := sql.Store Row

/-- What a handler can fail with: an answer of the API, a row that is not there,
a unique constraint, the database itself, or a stored document that cannot be
decoded. -/
inductive Error where
  | api (status : Nat) (code : String)
  | noRows
  | uniqueViolation
  | database
  | json
deriving DecidableEq

def E (status : Nat) (code : String) : Error := .api status code

abbrev Tx := sql.Tx Row Error

/-- `update investigations set f where p`. -/
abbrev updateInvestigations (p : Store → String → Investigation → Bool)
    (f : Store → String → Investigation → Investigation) : Tx (List (Sigma Row)) :=
  sql.Tx.updateAll
    (fun snap key row => match key, row with | .investigations id, row => p snap id row | _, _ => false)
    fun snap key row => match key, row with | .investigations id, row => f snap id row | _, row => row

/-- `update jobs set f where p`. -/
abbrev updateJobs (p : Job → Bool) (f : Job → Job) : Tx (List (Sigma Row)) :=
  sql.Tx.updateAll
    (fun _ key row => match key, row with | .jobs _, row => p row | _, _ => false)
    fun _ key row => match key, row with | .jobs _, row => f row | _, row => row

/-- `update actions set f where p`, the predicate with the action's investigation. -/
abbrev updateActions (p : Store → String → Action → Bool) (f : Action → Action) :
    Tx (List (Sigma Row)) :=
  sql.Tx.updateAll
    (fun snap key row => match key, row with | .actions id, row => p snap id row | _, _ => false)
    fun _ key row => match key, row with | .actions _, row => f row | _, row => row

/-- `update memories set f where p`. -/
abbrev updateMemories (p : Memory → Bool) (f : Memory → Memory) : Tx (List (Sigma Row)) :=
  sql.Tx.updateAll
    (fun _ key row => match key, row with | .memories _, row => p row | _, _ => false)
    fun _ key row => match key, row with | .memories _, row => f row | _, row => row

/-- `update events set f where p`, the predicate with the event's investigation. -/
abbrev updateEvents (p : Store → String → Bool) (f : Event → Event) : Tx (List (Sigma Row)) :=
  sql.Tx.updateAll
    (fun snap key _ => match key with | .events id _ => p snap id | _ => false)
    fun _ key row => match key, row with | .events _ _, row => f row | _, row => row

/-- `update badcases set f where p`. -/
abbrev updateBadcases (p : Store → Badcase → Bool) (f : Badcase → Badcase) :
    Tx (List (Sigma Row)) :=
  sql.Tx.updateAll
    (fun snap key row => match key, row with | .badcases _, row => p snap row | _, _ => false)
    fun _ key row => match key, row with | .badcases _, row => f row | _, row => row

end incidentdesk
