import IncidentDesk.App
import IncidentDesk.Sql.Rules
import Mathlib.Data.List.Sort

namespace incidentdesk

open sql sql.Tx

/-- `status in ('queued','running')`. -/
def QueryStatus.open_ (status : QueryStatus) : Bool := status = .queued || status = .running

/-- `select count(*) from data_queries where subject=... and status in
('queued','running')`. -/
def openQueries (snap : Store) (u : String) : Nat :=
  snap.count fun key row =>
    match key, row with
    | .data_queries u' _, (row : DataQuery) => u' = u && row.status.open_
    | _, _ => false

/-- `insert into data_queries`, with the defaults of the other columns. -/
def newDataQuery (now : Time) (id question hash : String) : DataQuery :=
  { id, dataset := "commerce", question, status := .queued, request_hash := hash, result := none
    progress := [], error := none, attempts := 0, lease_until := none, fence := none, created_at := now }

/-- The transaction in which `executeUnified` admits a question to the queue, or
finds the one that is there under the key. `id` is the fresh identifier. -/
def admitDataQuery (a : App) (now : Time) (u key hash id question : String) : Tx String := do
  let _ ← lockRow (Key.advisory (a.hashtext u))
  match (← snapshot).lookup (Key.data_queries u key) with
  | some prior =>
    refuse (prior.request_hash ≠ hash) (E 409 "idempotency_payload_conflict")
    return prior.id
  | none =>
    refuse (openQueries (← snapshot) u ≥ 5) (E 429 "too_many_queries")
    insert (Key.data_queries u key) (newDataQuery now id question hash) .uniqueViolation
    insert (Key.data_queries_id id) (u, key) .uniqueViolation
    return id

structure dataJob where
  ID : String
  Subject : String
  Dataset : String
  Question : String
  Fence : String
deriving DecidableEq

/-- `lease_until<now()`. -/
def DataQuery.expired (now : Time) (row : DataQuery) : Bool := row.lease_until.any fun lease => lease < now

/-- `update data_queries set f where p`. -/
abbrev updateDataQueries (p : DataQuery → Bool) (f : DataQuery → DataQuery) : Tx (List (Sigma Row)) :=
  updateAll (fun _ key row => match key, row with | .data_queries _ _, row => p row | _, _ => false)
    fun _ key row => match key, row with | .data_queries _ _, row => f row | _, row => row

/-- The error of a question whose second attempt was cut off. -/
def interrupted : String := "查询执行中断或超时，请重新提问。"

/-- The first statement of `claimDataQuery`: give up the questions that have
used both attempts. -/
def sweepDataQueries (now : Time) : Tx Unit := do
  let _ ← updateDataQueries (fun row => row.status = .running && row.expired now && row.attempts ≥ 2)
    fun row => { row with status := .failed, error := some interrupted }

/-- The condition under which `claimDataQuery` hands out a question. -/
def DataQuery.claimable (now : Time) (row : DataQuery) : Bool :=
  row.status = .queued || (row.status = .running && row.expired now && row.attempts < 2)

/-- The rows of `data_queries`. -/
def dataQueryRows (snap : Store) : List ((String × String) × DataQuery) :=
  snap.entries.filterMap fun e =>
    match e with
    | ⟨.data_queries u k, row⟩ => some ((u, k), row)
    | _ => none

/-- The questions that may be handed out, in the order of `created_at`. -/
def dataQueryCandidates (now : Time) (snap : Store) : List (String × String) :=
  let visible := (dataQueryRows snap).filter fun e => e.2.claimable now
  (visible.insertionSort fun e e' => e.2.created_at ≤ e'.2.created_at).map Prod.fst

/-- `for update skip locked limit 1`. -/
def dataQueryFirst (now : Time) : List (String × String) → Tx (Option (String × String × DataQuery))
  | [] => return none
  | (u, k) :: keys => do
    let some (some row) ← tryLockRow (Key.data_queries u k) | dataQueryFirst now keys
    if row.claimable now then return some (u, k, row) else dataQueryFirst now keys

/-- A question as its next attempt begins. -/
def DataQuery.begun (now : Time) (fence : String) (row : DataQuery) : DataQuery :=
  { row with
    status := .running, attempts := row.attempts + 1, lease_until := some (now + seconds 150)
    fence := some fence, progress := [] }

/-- The second statement of `claimDataQuery`. `fence` is a fresh identifier. -/
def claimDataQuery (now : Time) (fence : String) : Tx (Option dataJob) := do
  let snap ← snapshot
  let some (u, k, row) ← dataQueryFirst now (dataQueryCandidates now snap) | return none
  writeRow (Key.data_queries u k) (row.begun now fence)
  return some { ID := row.id, Subject := u, Dataset := row.dataset, Question := row.question, Fence := fence }

/-- `where id=... and fence=... and status='running'`. -/
def DataQuery.heldBy (j : dataJob) (row : DataQuery) : Bool :=
  row.id = j.ID && row.fence = some j.Fence && row.status = .running

/-- `update data_queries set f where id=... and fence=... and status='running'`. -/
def updateHeld (j : dataJob) (f : DataQuery → DataQuery) : Tx Unit := do
  match (← snapshot).lookup (Key.data_queries_id j.ID) with
  | none => return ()
  | some (u, k) =>
    let _ ← updateOne (Key.data_queries u k) (fun row => row.heldBy j) fun _ row => f row

/-- A statement of the queue, or the transaction of an admission. Each commits by
itself. -/
inductive QueueStatement where
  | submit (now : Time) (u key hash id question : String)
  | sweep (now : Time)
  | claim (now : Time) (fence : String)
  | progress (j : dataJob) (chunks : List Json)
  | fail (j : dataJob) (message : String)
  | complete (j : dataJob) (result : Json)

def QueueStatement.body (a : App) : QueueStatement → Tx Unit
  | submit now u key hash id question => discard (admitDataQuery a now u key hash id question)
  | sweep now => sweepDataQueries now
  | claim now fence => discard (claimDataQuery now fence)
  | progress j chunks => updateHeld j fun row => { row with progress := chunks }
  | fail j message => updateHeld j fun row =>
      { row with status := .failed, error := some message, result := none }
  | complete j result => updateHeld j fun row =>
      { row with status := .completed, result := some result, error := none }

/-- The attempt whose statement it is. -/
def QueueStatement.attempt : QueueStatement → Option dataJob
  | progress j _ | fail j _ | complete j _ => some j
  | _ => none

/-- What a run of the query service is to `executeDataQuery`: the chunks that it
streams, and the result or the error that it ends with. -/
structure QueryStream where
  chunks : List Json
  outcome : Except String Json

/-- The text that a failed attempt stores. -/
def failureMessage (message : String) : String :=
  if message.utf8ByteSize > 1000 then "查询失败，请缩小范围后重试。" else message

/-- The prefixes under which the chunks are stored one after the other. -/
def progressWrites (j : dataJob) (chunks : List Json) : List QueueStatement :=
  (List.range chunks.length).map fun n => .progress j (chunks.take (n + 1))

/-- The last statement of an attempt. -/
def finishDataQuery (j : dataJob) : Except String Json → QueueStatement
  | .ok result => .complete j result
  | .error message => .fail j (failureMessage message)

/-- The statements that an attempt sends when all of them succeed, given the
access checks before and after the stream. -/
def executeDataQuery (j : dataJob) (before : Except String Unit) (stream : QueryStream) (after : Except String Unit) :
    List QueueStatement :=
  match before with
  | .error message => [finishDataQuery j (.error message)]
  | .ok () =>
    if stream.chunks.length > 64 then
      progressWrites j (stream.chunks.take 64) ++ [finishDataQuery j (.error "查询步骤超过限制")]
    else
      progressWrites j stream.chunks ++
        [finishDataQuery j (stream.outcome.bind fun result => after.map fun _ => result)]

theorem executeDataQuery_attempt {j : dataJob} {before after : Except String Unit} {stream : QueryStream}
    {statement : QueueStatement} (h : statement ∈ executeDataQuery j before stream after) :
    statement.attempt = some j := by
  have hfinish (outcome : Except String Json) : (finishDataQuery j outcome).attempt = some j := by
    cases outcome <;> rfl
  have hprogress {chunks : List Json} (h : statement ∈ progressWrites j chunks) : statement.attempt = some j := by
    obtain ⟨n, -, rfl⟩ := List.mem_map.mp h
    rfl
  unfold executeDataQuery at h
  split at h
  · rw [List.mem_singleton] at h
    rw [h, hfinish]
  · split at h
    all_goals
      obtain h | h := List.mem_append.mp h
      · exact hprogress h
      · rw [List.mem_singleton] at h
        rw [h, hfinish]

end incidentdesk
