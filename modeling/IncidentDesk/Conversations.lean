import Mathlib.Algebra.GroupWithZero.Nat
import Mathlib.Data.List.Sort
import IncidentDesk.App

namespace incidentdesk

open sql (Tx.snapshot Tx.lockRow Tx.selectForUpdate Tx.require Tx.ofExcept Tx.refuse Tx.insert Tx.updateOne)

structure UnifiedInput where
  queryAnchor : Option Bool := none
  Text : String
  Timezone : String := ""
  Mode : String := ""
  History : List ConversationTurn := []

/-- `len([]rune(t.Content))`, added up. -/
def runes (turns : List ConversationTurn) : Nat := (turns.map (·.Content.length)).sum

def UnifiedInput.validateConversation (b : UnifiedInput) : Except Error Unit :=
  if b.Text.length < 1 ∨ b.Text.length > 2000 ∨ b.History.length > 12 then .error (E 400 "invalid_question")
  else if b.History.any fun t =>
      (t.Role ≠ "user" ∧ t.Role ≠ "assistant") ∨ TrimSpace t.Content = "" ∨ t.Content.length > 2000 then
    .error (E 400 "invalid_conversation")
  else if runes b.History > 16000 then .error (E 400 "invalid_conversation")
  else .ok ()

/-- What a decision says to the user or asks a tool. -/
def queryDecision.content (d : queryDecision) : Option String :=
  if d.Kind = "answer" then some d.Answer
  else if d.Kind = "clarification" then some d.Clarification
  else if d.Kind = "warehouse" ∨ d.Kind = "investigation" then some d.Question
  else none

def queryDecision.valid (d : queryDecision) : Bool :=
  match d.content with
  | some content => TrimSpace content ≠ "" && content.length ≤ 2000
  | none => false

/-- A question or an answer as `queryDecision.valid` wants it. -/
def validContent (content : String) : Bool := TrimSpace content ≠ "" && content.length ≤ 2000

/-- `exists(select 1 from members where subject=... and team=...)`. -/
def hasMember (snap : Store) (subject team : String) : Bool :=
  (snap.lookup (Key.members subject team)).join.isSome

/-- The owner sees a conversation as long as they may see all the sources that
it has used. -/
def conversationScope (snap : Store) (u : String) (c : Conversation) : Bool :=
  c.subject = u &&
    (c.required_teams.all fun t => hasMember snap u t) &&
    c.required_datasets.all fun k =>
      ((snap.lookup (Key.query_datasets k)).any fun d => d.enabled && hasMember snap u d.team)

/-- A turn as the handlers pass it on. -/
structure savedTurn where
  ID : String
  Seq : Nat
  Idem : String
  BaseRevision : Int
  Input : ConversationInput
  Status : TurnStatus
  Response : Option Json
  ResponseStatus : Nat
  Error : Option String
  CreatedAt : Time
  History : List ConversationTurn
  HasQueryAnchor : Bool
  Fence : String

/-- The turns of a conversation. -/
def turnsOf (snap : Store) (id : String) : List (String × Turn) :=
  snap.entries.filterMap fun e =>
    match e with
    | ⟨.conversation_turns turn, row⟩ => if row.conversation = id then some (turn, row) else none
    | _ => none

/-- `update conversation_turns set f where p`. -/
abbrev updateTurns (p : Turn → Bool) (f : Turn → Turn) : Tx (List (Sigma Row)) :=
  sql.Tx.updateAll
    (fun _ key row => match key, row with | .conversation_turns _, row => p row | _, _ => false)
    fun _ key row => match key, row with | .conversation_turns _, row => f row | _, row => row

/-- The check of an `Idempotency-Key` header. -/
def idemKey (key : String) : Except Error Unit :=
  if key.utf8ByteSize = 0 ∨ key.utf8ByteSize > 128 then .error (E 400 "invalid_idempotency_key") else .ok ()

/-- `insert into conversations`, with the defaults of the other columns. -/
def newConversation (now : Time) (u : String) : Conversation :=
  { subject := u, title := "新对话", revision := 0, required_teams := [], required_datasets := []
    summary := .obj [], context_after_seq := 0, updated_at := now }

/-- A conversation is made once for each key of a subject; `newID` is the fresh
identifier. -/
def createConversation (now : Time) (u key newID : String) : Tx String := do
  Tx.ofExcept (idemKey key)
  match ← Tx.lockRow (Key.conversations_idem u key) with
  | some id => return id
  | none =>
    Tx.insert (Key.conversations newID) (newConversation now u) .uniqueViolation
    Tx.insert (Key.conversations_idem u key) newID .uniqueViolation
    return newID

/-- The conversations in the scope of the caller, by the time of their last turn. -/
def listConversations (snap : Store) (u : String) (offset : Nat) : List (String × Conversation) :=
  let visible := snap.entries.filterMap fun e =>
    match e with
    | ⟨.conversations id, row⟩ => if conversationScope snap u row then some (id, row) else none
    | _ => none
  ((visible.insertionSort fun e e' =>
    e'.2.updated_at < e.2.updated_at ∨ e.2.updated_at = e'.2.updated_at ∧ e.1 ≤ e'.1).drop offset).take 50

/-- A conversation with its last 50 turns before a number, and whether there are
more of them. -/
def getConversation (snap : Store) (u id : String) (before : Nat) :
    Except Error (Conversation × List (String × Turn) × Bool) :=
  match (snap.lookup (Key.conversations id)).filter (conversationScope snap u) with
  | none => .error .noRows
  | some c =>
    let earlier := (turnsOf snap id).filter fun e => e.2.seq < before
    .ok (c, ((earlier.insertionSort fun e e' => e'.2.seq ≤ e.2.seq).take 50).reverse, earlier.length > 50)

def normalizeConversationInput (a : App) (b : ConversationInput) : Except Error ConversationInput := do
  let Text := TrimSpace b.Text
  if b.Revision < 0 then
    throw (E 400 "invalid_revision")
  let Timezone := if b.Timezone = "" then "UTC" else b.Timezone
  if ¬ a.LoadLocation Timezone then
    throw (E 400 "invalid_timezone")
  let Mode := if b.Mode = "" then "auto" else b.Mode
  if Mode ≠ "auto" ∧ Mode ≠ "warehouse" ∧ Mode ≠ "investigation" then
    throw (E 400 "invalid_query_mode")
  UnifiedInput.validateConversation { Text }
  return { Text, Timezone, Mode, Revision := b.Revision }

def ConversationInput.marshal (b : ConversationInput) : Json :=
  .obj [("text", .str b.Text), ("timezone", .str b.Timezone), ("mode", .str b.Mode), ("revision", .num b.Revision)]

def conversationReply (a : App) (m : Json) (created : Time) (zone : String) : String :=
  if str m "status" = "answer" then str m "answer"
  else if str m "status" = "clarification" then str m "clarification"
  else "已提交查询：" ++ str m "question" ++ "。请求时间：" ++ a.RFC3339 created ++ "，时区" ++ zone ++
    "；相对时间以当次日期为基准。此处只记录任务引用，业务数值需重新查询。"

/-- The resolved question of the last query, under a header of its own. -/
def queryAnchor (summary : Json) : List ConversationTurn :=
  let question := str summary "resolved_question"
  if question = "" then []
  else
    [{ Role := "assistant"
       Content := "历史查询上下文（仅理解追问，不是当前结果；新话题优先）。下一条是当时的完整查询问题。创建于" ++
         str summary "captured_at" ++ "，时区" ++ str summary "timezone" },
      { Role := "assistant", Content := question }]

/-- A document decoded into a `map[string]any`. -/
def Json.map? : Json → Option Json
  | .obj fields => some (.obj fields)
  | .null => some (.obj [])
  | _ => none

/-- A completed turn as a question and its answer, where its response decodes. -/
def exchange (a : App) (t : Turn) : Option (List ConversationTurn) :=
  (t.response.bind Json.map?).map fun response =>
    let reply := conversationReply a response t.created_at t.input.Timezone
    [{ Role := "user", Content := t.input.Text },
      { Role := "assistant", Content := if reply.length > 2000 then str response "question" else reply }]

/-- `for len(pairs) > 2 && size(history)+size(pairs) > 16000`. -/
def dropOldest (size : Nat) : List (List ConversationTurn) → List (List ConversationTurn)
  | pair :: pair' :: pairs =>
    if size + runes (pair :: pair' :: pairs).flatten > 16000 then dropOldest size (pair' :: pairs)
    else pair :: pair' :: pairs
  | pairs => pairs

/-- The last completed turns after the last reset, the newest first. -/
def recentTurns (snap : Store) (id : String) (after : Nat) : List Turn :=
  let completed := ((turnsOf snap id).map Prod.snd).filter fun t => t.status = .completed && after < t.seq
  (completed.insertionSort fun t t' => t'.seq ≤ t.seq).take 4

def conversationHistory (a : App) (id : String) (summary : Json) : Tx (List ConversationTurn) := do
  let snap ← Tx.snapshot
  let turns := recentTurns snap id (((snap.lookup (Key.conversations id)).map (·.context_after_seq)).getD 0)
  let pairs ← Tx.require (turns.reverse.mapM (exchange a)) .json
  let history := queryAnchor summary
  return history ++ (dropOldest (runes history) pairs).flatten

/-- `now()+interval '180 seconds'`. -/
def turnLease (now : Time) : Time := now + seconds 180

/-- The lease of a turn that is worked on has run out. -/
def Turn.interrupted (now : Time) (id : String) (t : Turn) : Bool :=
  t.conversation = id && t.status = .pending && t.lease_until.any (· < now)

def Turn.saved (ID : String) (t : Turn) : savedTurn :=
  { ID, Seq := t.seq, Idem := "", BaseRevision := t.base_revision, Input := t.input, Status := t.status
    Response := t.response, ResponseStatus := t.response_status.getD 0, Error := t.error
    CreatedAt := t.created_at, History := t.history, HasQueryAnchor := t.has_query_anchor, Fence := "" }

/-- The turn of a conversation under an idempotency key. -/
def turnByIdem (snap : Store) (id key : String) : Option (String × Turn) :=
  (snap.lookup (Key.conversation_turns_idem id key)).bind fun turn =>
    (snap.lookup (Key.conversation_turns turn)).map fun row => (turn, row)

def hasPending (snap : Store) (id : String) : Bool := (turnsOf snap id).any fun e => e.2.status = .pending

/-- A turn that has failed is taken up again, with the history it has. -/
def retryTurn (now : Time) (id fence : String) (revision : Int) (b : ConversationInput) (turn : String)
    (row : Turn) : Tx savedTurn := do
  Tx.refuse (b.Revision ≠ revision) (E 409 "conversation_changed")
  Tx.refuse (hasPending (← Tx.snapshot) id) (E 409 "conversation_busy")
  let _ ← Tx.updateOne (Key.conversation_turns turn) (fun _ => true) fun _ row =>
    { row with status := .pending, error := none, fence, lease_until := some (turnLease now) }
  return { row.saved turn with Status := .pending, Fence := fence }

/-- A turn is added to the conversation, with the history as it is now. -/
def newTurn (a : App) (now : Time) (id key newID fence : String) (seq : Nat) (revision : Int) (summary : Json)
    (b : ConversationInput) : Tx savedTurn := do
  Tx.refuse (b.Revision ≠ revision) (E 409 "conversation_changed")
  Tx.refuse (hasPending (← Tx.snapshot) id) (E 409 "conversation_busy")
  Tx.refuse ((turnsOf (← Tx.snapshot) id).length ≥ 500) (E 400 "conversation_full")
  let history ← conversationHistory a id summary
  let row : Turn :=
    { conversation := id, seq, idem := key, request_hash := a.Hash b.marshal, base_revision := revision, input := b
      history, status := .pending, response := none, response_status := none, error := none, fence
      lease_until := some (turnLease now), created_at := now
      has_query_anchor := str summary "resolved_question" ≠ "" }
  Tx.insert (Key.conversation_turns newID) row .uniqueViolation
  Tx.insert (Key.conversation_turns_idem id key) newID .uniqueViolation
  return { row.saved newID with Idem := key, Fence := fence }

/-- Take up a turn of a conversation: a completed one is handed back as it is, a
failed one is tried again, and under a new key a new one is made. `newID` and
`fence` are fresh identifiers, `seq` the next value of the column's sequence. -/
def reserveConversationTurn (a : App) (now : Time) (u id key : String) (b : ConversationInput)
    (newID fence : String) (seq : Nat) : Tx savedTurn := do
  let (_, row) ← Tx.selectForUpdate (Key.conversations id)
  let c ← Tx.require (row.filter (conversationScope (← Tx.snapshot) u)) .noRows
  let _ ← updateTurns (Turn.interrupted now id) fun row =>
    { row with status := .failed, error := some "conversation_interrupted" }
  match turnByIdem (← Tx.snapshot) id key with
  | some (turn, row) =>
    Tx.refuse (row.request_hash ≠ a.Hash b.marshal) (E 409 "idempotency_payload_conflict")
    match row.status with
    | .completed => return row.saved turn
    | .pending => sql.Tx.raise (E 409 "conversation_busy")
    | .failed =>
      Tx.refuse (row.base_revision ≠ c.revision) (E 409 "conversation_changed")
      retryTurn now id fence c.revision b turn row
  | none => newTurn a now id key newID fence seq c.revision c.summary b

def errorCode : Error → String
  | .api _ code => code
  | _ => "conversation_interrupted"

def failConversationTurn (t : savedTurn) (err : Error) : Tx Unit := do
  let _ ← Tx.updateOne (Key.conversation_turns t.ID) (fun row => row.fence = t.Fence && row.status = .pending)
    fun _ row => { row with status := .failed, error := some (errorCode err) }

/-- The data query with an identifier, and its dataset. -/
def queryByID (snap : Store) (id : String) : Option (String × DataQuery) :=
  (snap.lookup (Key.data_queries_id id)).bind fun key =>
    (snap.lookup (Key.data_queries key.1 key.2)).map fun q => (key.1, q)

/-- The team, the dataset and its version that an answered turn rests on, as far
as the caller may still see them. -/
def turnSources (snap : Store) (u : String) (response : Json) : Option (String × String × String) :=
  if str response "kind" = "warehouse" then
    ((queryByID snap (str response "id")).filter (·.1 = u)).bind fun (_, q) =>
      ((snap.lookup (Key.query_datasets q.dataset)).filter fun d => d.enabled && hasMember snap u d.team).map
        fun d => (d.team, q.dataset, d.version)
  else if str response "kind" = "investigation" then
    ((snap.lookup (Key.investigations (str response "id"))).filter fun i =>
      i.subject = u && hasMember snap u i.team).map fun i => (i.team, "", "")
  else some ("", "", "")

/-- A turn that made a task. -/
def isTask (response : Json) : Bool := str response "kind" = "warehouse" || str response "kind" = "investigation"

def resets (response : Json) : Bool :=
  match response.get? "reset_context" with
  | some (.bool value) => value
  | _ => false

/-- What later questions are understood by, where a turn changes it. -/
def newSummary (a : App) (t : savedTurn) (response : Json) (dataset version : String) : Option Json :=
  if isTask response then
    some (.obj
      [("schema_version", .num 1), ("kind", .str (str response "kind")),
        ("resolved_question", .str (str response "question")), ("task_id", .str (str response "id")),
        ("dataset_id", .str dataset), ("dataset_version", .str version),
        ("captured_at", .str (a.RFC3339 t.CreatedAt)), ("timezone", .str t.Input.Timezone),
        ("contains_current_result", .bool false)])
  else if resets response then some (.obj [])
  else none

/-- `CASE WHEN $3='' OR $3=ANY(required) THEN required ELSE array_append(required,$3) END`. -/
def requireSource (required : List String) (source : String) : List String :=
  if source = "" ∨ source ∈ required then required else required ++ [source]

def shortText (s : String) (n : Nat) : String := String.ofList (s.toList.take n)

def completeConversationTurn (a : App) (now : Time) (u id : String) (t : savedTurn) (response : Json)
    (status : Nat) : Tx Unit := do
  let (_, row) ← Tx.selectForUpdate (Key.conversations id)
  let c ← Tx.require (row.filter (conversationScope (← Tx.snapshot) u)) .noRows
  Tx.refuse (c.revision ≠ t.BaseRevision) (E 409 "conversation_changed")
  let (team, dataset, version) ← Tx.require (turnSources (← Tx.snapshot) u response) .noRows
  let updated ← Tx.updateOne (Key.conversation_turns t.ID) (fun row => row.fence = t.Fence && row.status = .pending)
    fun _ row => { row with
      status := .completed, response := some response, response_status := some status, error := none }
  Tx.refuse (updated = none) (E 409 "conversation_changed")
  let _ ← Tx.updateOne (Key.conversations id) (fun _ => true) fun _ row =>
    { row with
      revision := row.revision + 1
      updated_at := now
      title := if row.revision = 0 then shortText t.Input.Text 60 else row.title
      required_teams := requireSource row.required_teams team
      required_datasets := requireSource row.required_datasets dataset
      summary := (newSummary a t response dataset version).getD row.summary
      context_after_seq := if resets response then t.Seq else row.context_after_seq }

/-- The response of a turn: what the query was answered with, and what later
turns have to know of it. -/
def turnResponse (decision : queryDecision) (id : String) (t : savedTurn) (answer : List (String × String)) : Json :=
  let response := Json.obj (answer.map fun field => (field.1, .str field.2))
  let response :=
    if str response "kind" = "investigation" then Json.set "question" (.str decision.Question) response else response
  let response := if decision.ResetContext then Json.set "reset_context" (.bool true) response else response
  let response := Json.set "conversation_id" (.str id) response
  let response := Json.set "turn_id" (.str t.ID) response
  Json.set "revision" (.num (t.BaseRevision + 1)) response

end incidentdesk
