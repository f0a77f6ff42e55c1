import IncidentDesk.App
import Mathlib.Data.List.Sort

namespace incidentdesk

open sql (Tx.snapshot Tx.lockRow Tx.tryLockRow Tx.selectForUpdate Tx.require Tx.ofExcept Tx.refuse
  Tx.updateOne)

/-- A `json.RawMessage` with the number of bytes of its text; `none` stands for
a field that the request left out. -/
structure RawMessage where
  value : Json
  size : Nat

structure Callback where
  Records : Option (List Json) := none
  Owner : String
  Generation : Int
  CallbackID : String := ""
  Kind : String := ""
  Payload : Option RawMessage := none
  Status : String := ""
  Report : Option RawMessage := none
  Manifest : Option RawMessage := none
  Tool : String := ""

/-- The text that identifies a callback's whole content. -/
def Callback.marshal (b : Callback) : Json :=
  let raw (m : Option RawMessage) : Json := (m.map (·.value)).getD .null
  .obj [("records", (b.Records.map .arr).getD .null), ("owner", .str b.Owner),
    ("generation", .num b.Generation), ("callback_id", .str b.CallbackID), ("kind", .str b.Kind),
    ("payload", raw b.Payload), ("status", .str b.Status), ("report", raw b.Report),
    ("manifest", raw b.Manifest), ("tool", .str b.Tool)]

/-- `state in ('queued','running') and attempts>=4 and (lease_until is null or
lease_until<now())`. -/
def exhausted (now : Time) (job : Job) : Bool :=
  (job.state = .queued || job.state = .running) && job.attempts ≥ 4 &&
    job.lease_until.all fun lease => lease < now

/-- The condition under which `claim` hands out a task. -/
def claimable (now : Time) (job : Job) (i : Investigation) : Bool :=
  ((job.state = .queued && job.available_at ≤ now) ||
    (job.state = .running && job.lease_until.any fun lease => lease < now)) &&
    (i.status = .queued || i.status = .running)

/-- `select count(*) from jobs where state='running' and lease_until>now()`. -/
def activeJobs (now : Time) (snap : Store) : Nat :=
  snap.count fun key row =>
    match key, row with
    | .jobs _, (job : Job) => job.state = .running && job.lease_until.any fun lease => now < lease
    | _, _ => false

/-- The rows of `jobs`. -/
def jobRows (snap : Store) : List (String × Job) :=
  snap.entries.filterMap fun e =>
    match e with
    | ⟨.jobs id, job⟩ => some (id, job)
    | _ => none

/-- The claimable tasks a statement sees, in the order of `available_at`. -/
def claimCandidates (now : Time) (snap : Store) : List String :=
  let visible := (jobRows snap).filter fun (id, job) =>
    (snap.lookup (Key.investigations id)).any fun i => claimable now job i
  (visible.insertionSort fun e e' => e.2.available_at ≤ e'.2.available_at).map Prod.fst

/-- `for update of j,i skip locked limit 1`: the first candidate whose two rows
can be locked and whose newest versions are still claimable. -/
def claimFirst (now : Time) : List String → Tx (Option (String × Investigation))
  | [] => return none
  | id :: ids => do
    let some (some job) ← Tx.tryLockRow (Key.jobs id) | claimFirst now ids
    let some (some i) ← Tx.tryLockRow (Key.investigations id) | claimFirst now ids
    if claimable now job i then return some (id, i) else claimFirst now ids

/-- The task that `claim` hands to a worker. -/
structure Task where
  protocol_version : Nat := 1
  id : String
  subject : String
  team : String
  service : String
  symptom : String
  query : LogQuery
  start : Time
  end_ : Time
  source_version : Nat
  generation : Nat
  attempt : Nat
  owner : Option String
  lease_seconds : Nat
  budget : List (String × Nat) :=
    [("steps", 12), ("seconds", 120), ("output_bytes", 262144), ("model_calls", 3), ("tokens", 12000)]

def claimedTask (a : App) (snap : Store) (id : String) : Option Task :=
  (snap.lookup (Key.investigations id)).bind fun i =>
    (snap.lookup (Key.jobs id)).map fun j =>
      { id, subject := i.subject, team := i.team, service := i.service, symptom := i.symptom,
        query := i.query, start := i.start_at, end_ := i.end_at, source_version := i.source_version,
        generation := j.generation, attempt := j.attempts, owner := j.owner, lease_seconds := a.Lease }

/-- Give up the tasks that have used all their attempts. -/
def sweep (now : Time) : Tx Unit := do
  let _ ← updateInvestigations
    (fun snap id _ => (snap.lookup (Key.jobs id)).any fun job => exhausted now job)
    fun _ _ row => { row with status := .failed }
  let _ ← updateJobs (exhausted now) fun row =>
    { row with state := .failed, last_error := some "retry_limit" }

/-- Hand the locked task to the worker, under a new generation and lease. -/
def claimTask (a : App) (now : Time) (owner id : String) : Tx (Option Task) := do
  let _ ← Tx.updateOne (Key.jobs id) (fun _ => true) fun _ row =>
    { row with
      state := .running, owner := some owner, generation := row.generation + 1
      attempts := row.attempts + 1, lease_until := some (now + seconds a.Lease) }
  let _ ← Tx.updateOne (Key.investigations id) (fun _ => true) fun snap row =>
    { row with status := .running, source_version := currentWatermark snap row.service }
  event id "claimed" (.obj [("worker", .str owner)])
  let task ← Tx.require (claimedTask a (← Tx.snapshot) id) .noRows
  return some task

/-- Fail the locked task of an initiator who is no longer a member. -/
def revokeTask (id : String) : Tx (Option Task) := do
  let _ ← Tx.updateOne (Key.jobs id) (fun _ => true) fun _ row =>
    { row with state := .failed, last_error := some "permission_revoked" }
  let _ ← Tx.updateOne (Key.investigations id) (fun _ => true) fun _ row =>
    { row with status := .failed }
  return none

def claim (a : App) (now : Time) (owner : String) : Tx (Option Task) := do
  Tx.refuse (owner.utf8ByteSize < 1 ∨ owner.utf8ByteSize > 128) (E 400 "invalid_worker")
  let _ ← Tx.lockRow (Key.advisory 7002)
  sweep now
  if activeJobs now (← Tx.snapshot) ≥ a.MaxActive then
    return none
  let some (id, i) ← claimFirst now (claimCandidates now (← Tx.snapshot)) | return none
  match member (← Tx.snapshot) i.subject i.team false with
  | .error _ => revokeTask id
  | .ok _ => claimTask a now owner id

/-- Lock the task's rows and admit only the worker that holds its lease. -/
def fence (now : Time) (id : String) (b : Callback) : Tx String := do
  let snap ← Tx.snapshot
  let _ ← Tx.require (snap.lookup (Key.jobs id)) .noRows
  let _ ← Tx.require (snap.lookup (Key.investigations id)) .noRows
  let job ← Tx.require (← Tx.lockRow (Key.jobs id)) .noRows
  let i ← Tx.require (← Tx.lockRow (Key.investigations id)) .noRows
  -- a job that was never claimed has no owner, which does not scan into a string
  let owner ← Tx.require job.owner .database
  Tx.refuse
    (owner ≠ b.Owner ∨ (job.generation : Int) ≠ b.Generation ∨ job.state ≠ .running ∨
      ¬ job.lease_until.any fun lease => now < lease)
    (E 409 "stale_execution")
  Tx.ofExcept (member (← Tx.snapshot) i.subject i.team false)
  return i.subject

/-- Case folding of a rune, as the JSON decoder folds field names. -/
def foldRune (c : Char) : Char :=
  if c = 'ſ' then 's' else if c = '\u212a' then 'k' else c.toLower

/-- The value that decoding a document into a struct leaves in a field: the last
key that equals the field's name up to case. -/
def Json.field (fields : List (String × Json)) (name : String) : Json :=
  ((fields.reverse.find? fun e => e.1.toList.map foldRune = name.toList).map Prod.snd).getD .null

/-- Decode into a string; `null` leaves it empty. -/
def Json.asString : Json → Option String
  | .null => some ""
  | .str value => some value
  | _ => none

/-- Decode into a slice; `null` leaves it empty. -/
def Json.asSlice {α : Type} (decode : Json → Option α) : Json → Option (List α)
  | .null => some []
  | .arr items => items.mapM decode
  | _ => none

/-- Decode into a struct; `null` leaves its fields as they are. -/
def Json.asFields : Json → Option (List (String × Json))
  | .null => some []
  | .obj fields => some fields
  | _ => none

/-- What `validateReport` reads of a report. -/
structure Report where
  AnswerEvidence : List String
  Evidence : List String
  Facts : List (List String)
  Candidates : List (List String)

def Report.unmarshal (raw : Json) : Option Report := do
  let fields ← raw.asFields
  let evidence (item : Json) : Option (List String) := do
    ((← item.asFields) |> (Json.field · "evidence")).asSlice Json.asString
  return {
    AnswerEvidence := ← (Json.field fields "answer_evidence").asSlice Json.asString
    Evidence := ← (Json.field fields "evidence").asSlice fun item => do
      ((← item.asFields) |> (Json.field · "id")).asString
    Facts := ← (Json.field fields "facts").asSlice evidence
    Candidates := ← (Json.field fields "candidates").asSlice evidence }

/-- The identifiers of a report's evidence, all of them different. -/
def evidenceIDs : List String → List String → Except Error (List String)
  | seen, [] => .ok seen
  | seen, id :: ids =>
    if id = "" ∨ id ∈ seen then .error (E 400 "invalid_evidence_ids") else evidenceIDs (id :: seen) ids

/-- Every claim of a report names evidence, and only evidence the report has. -/
def checkRefs (ids : List String) : List (List String) → Except Error Unit
  | [] => .ok ()
  | r :: refs =>
    if r = [] then .error (E 400 "ungrounded_claim")
    else if r.any fun id => id ∉ ids then .error (E 400 "unknown_evidence")
    else checkRefs ids refs

def validateReport (raw : Option RawMessage) : Except Error Unit := do
  let some b := raw.bind fun m => Report.unmarshal m.value | throw (E 400 "invalid_report")
  let ids ← evidenceIDs [] b.Evidence
  checkRefs ids ((if b.AnswerEvidence = [] then [] else [b.AnswerEvidence]) ++ b.Facts ++ b.Candidates)

/-- The statuses that a result may carry. -/
def resultStatus (status : String) : Option Status :=
  if status = "completed" then some .completed
  else if status = "partial" then some .partial_
  else if status = "waiting_information" then some .waiting_information
  else if status = "failed" then some .failed
  else none

/-- The tools that a worker may ask to be authorized for. -/
def allowedTools : List String :=
  ["logs", "deployments", "git", "runbook", "cluster", "context", "memory", "sandbox"]

/-- What a callback answers. -/
inductive Reply where
  | ok
  | scope (subject team service : String) (query : LogQuery) (start end_ : Time) (watermark : Nat)
      (generation : Int)
  | memories (rows : List (String × Memory))

/-- The memories that the tool of this name may show to a task. -/
def taskMemories (now : Time) (snap : Store) (id : String) : Option (List (String × Memory)) := do
  let i ← snap.lookup (Key.investigations id)
  let s ← snap.lookup (Key.services i.service)
  return snap.entries.filterMap fun e =>
    match e with
    | ⟨.memories id, m⟩ =>
      if m.service = i.service ∧ m.team = i.team ∧ m.status = .confirmed ∧
          m.source_version = s.watermark ∧ now < m.expires_at then
        some (id, m)
      else none
    | _ => none

def authorize (now : Time) (id : String) (b : Callback) : Tx Reply := do
  Tx.refuse (b.Tool ∉ allowedTools) (E 403 "tool_not_allowed")
  let snap ← Tx.snapshot
  let i ← Tx.require (snap.lookup (Key.investigations id)) .noRows
  let s ← Tx.require ((snap.lookup (Key.services i.service)).filter (·.enabled)) .noRows
  let memories := (taskMemories now (← Tx.snapshot) id).getD []
  let reply :=
    if b.Tool = "memory" then .memories memories
    else .scope i.subject i.team i.service i.query i.start_at i.end_at s.watermark b.Generation
  event id "authorized" (.obj [("tool", .str b.Tool), ("generation", .num b.Generation)])
  return reply

/-- Store a worker's report, unless the sources have changed since the claim. -/
def acceptResult (a : App) (id : String) (b : Callback) : Tx Unit := do
  let snap ← Tx.snapshot
  let i ← Tx.require (snap.lookup (Key.investigations id)) .noRows
  let s ← Tx.require (snap.lookup (Key.services i.service)) .noRows
  Tx.refuse (i.source_version ≠ s.watermark) (E 409 "source_version_changed")
  Tx.refuse
    (b.CallbackID = "" ∨ (b.Report.any fun m => m.size > 262144) ∨ b.Manifest.any fun m => m.size > 524288)
    (E 400 "invalid_result")
  let status ← Tx.require (resultStatus b.Status) (E 400 "invalid_status")
  Tx.ofExcept (validateReport b.Report)
  let _ ← Tx.updateOne (Key.investigations id) (fun _ => true) fun _ row =>
    { row with status, report := b.Report.map (·.value), manifest := b.Manifest.map (·.value) }
  let _ ← Tx.updateOne (Key.jobs id) (fun _ => true) fun _ row =>
    { row with
      state := .done, lease_until := none, last_callback := some b.CallbackID
      result_hash := some (a.Hash b.marshal) }
  event id "result" (.obj [("status", .str b.Status), ("generation", .num b.Generation)])

/-- Put a failed attempt back into the queue, after a growing delay. -/
def requeue (now : Time) (id : String) (b : Callback) : Tx Unit := do
  let _ ← Tx.updateOne (Key.jobs id) (fun _ => true) fun _ row =>
    { row with
      state := .queued, lease_until := none
      available_at := now + seconds (min 30 (row.attempts * 2)), last_error := some b.Kind }
  let _ ← Tx.updateOne (Key.investigations id) (fun _ => true) fun _ row =>
    { row with status := .queued }

/-- Whether a result that this task has already accepted is being delivered
again, and if so whether it is the same one. -/
def replayed (a : App) (id : String) (b : Callback) : Tx Bool := do
  let (_, found) ← Tx.selectForUpdate (Key.jobs id)
  let job ← Tx.require found .noRows
  if job.last_callback.getD "" = b.CallbackID ∧ b.CallbackID ≠ "" ∧ job.owner.getD "" = b.Owner ∧
      (job.generation : Int) = b.Generation then
    Tx.refuse (job.result_hash.getD "" ≠ a.Hash b.marshal) (E 409 "callback_payload_conflict")
    return true
  return false

/-- The part of `callback` that only the holder of the lease reaches. -/
def fencedCallback (a : App) (now : Time) (id op : String) (b : Callback) : Tx Reply := do
  let _ ← fence now id b
  if op = "sandbox" then
    event id "sandbox_requested" (.obj [("records", .num (b.Records.getD []).length)])
    return .ok
  else if op = "heartbeat" then
    let _ ← Tx.updateOne (Key.jobs id) (fun _ => true) fun _ row =>
      { row with lease_until := some (now + seconds a.Lease) }
    return .ok
  else if op = "authorize" then
    authorize now id b
  else if op = "event" then
    Tx.refuse
      (b.Kind.utf8ByteSize < 1 ∨ b.Kind.utf8ByteSize > 64 ∨ b.Payload.any fun m => m.size > 32768)
      (E 400 "invalid_event")
    event id b.Kind ((b.Payload.map (·.value)).getD .null)
    return .ok
  else if op = "result" then
    acceptResult a id b
    return .ok
  else if op = "failure" then
    requeue now id b
    return .ok
  else
    .raise (E 404 "unknown_operation")

def callback (a : App) (now : Time) (id op : String) (b : Callback) : Tx Reply := do
  if op = "result" then
    if ← replayed a id b then
      return .ok
  fencedCallback a now id op b

end incidentdesk
