import IncidentDesk.Schema

namespace incidentdesk

open sql (Tx.snapshot Tx.lockRow Tx.writeRow Tx.require Tx.ofExcept Tx.refuse Tx.insert Tx.updateOne)

/-- The settings of the service, and the functions of its libraries that only
ever see values of the program: the digest of a JSON text, the time zone
database, the text form of a timestamp and PostgreSQL's `hashtext`. -/
structure App where
  Lease : Nat
  MaxActive : Nat
  Hash : Json → String
  LoadLocation : String → Bool
  RFC3339 : Time → String
  hashtext : String → Int

/-- `unicode.IsSpace`. -/
def isSpace (c : Char) : Bool :=
  c ∈ ['\t', '\n', '\x0b', '\x0c', '\r', ' ', '\u0085', '\u00a0', '\u1680', '\u2028', '\u2029',
    '\u202f', '\u205f', '\u3000'] || ('\u2000' ≤ c && c ≤ '\u200a')

/-- `strings.TrimSpace`. -/
def TrimSpace (s : String) : String :=
  String.ofList ((s.toList.dropWhile isSpace).reverse.dropWhile isSpace).reverse

/-- The live membership check, read from what the statement sees. -/
def member (snap : Store) (subject team : String) (approve : Bool) : Except Error Unit :=
  match (snap.lookup (Key.members subject team)).join with
  | none => .error (E 403 "team_forbidden")
  | some role =>
    if approve ∧ role ≠ .approver then .error (E 403 "approval_role_required") else .ok ()

/-- Append an event to the stream of an investigation, under its next number. -/
def event (id kind : String) (payload : Json) : Tx Unit := do
  let row ← Tx.updateOne (Key.investigations id) (fun _ => true) fun _ row => { row with seq := row.seq + 1 }
  let row ← Tx.require row .noRows
  Tx.insert (Key.events id row.seq) { kind, payload } .uniqueViolation

/-- The caller's right to see an investigation, checked by statements of their
own before a handler's transaction begins. -/
def access (snap : Store) (u id : String) : Except Error Unit :=
  match snap.lookup (Key.investigations id) with
  | none => .error .noRows
  | some row => member snap u row.team false

def LogQuery.marshal (q : LogQuery) : Json :=
  let strings : Option (List String) → Json
    | none => .null
    | some values => .arr (values.map .str)
  .obj [("mode", .str q.Mode), ("terms", strings q.Terms), ("levels", strings q.Levels)]

/-- The levels that a log query may ask for. -/
def allowedLevels : List String :=
  ["ERROR", "FATAL", "SEVERE", "FAILURE", "WARN", "WARNING", "CRITICAL", "ALERT", "EMERG", "INFO",
    "DEBUG", "TRACE", "UNKNOWN"]

/-- The query with its defaults filled in, or the error of its first bad field. -/
def LogQuery.validate (q : LogQuery) : Except Error LogQuery := do
  let mode := if q.Mode = "" then "anomalies" else q.Mode
  let terms := q.Terms.getD []
  let levels := q.Levels.getD []
  if mode ≠ "anomalies" ∧ mode ≠ "search" ∧ mode ≠ "all" then
    throw (E 400 "invalid_query_mode")
  if terms.length > 6 ∨ levels.length > 12 then
    throw (E 400 "query_too_large")
  if terms.any fun t => TrimSpace t = "" || t.utf8ByteSize > 100 then
    throw (E 400 "invalid_query_term")
  if levels.any fun l => l ∉ allowedLevels then
    throw (E 400 "invalid_query_level")
  return { Mode := mode, Terms := some terms, Levels := some levels }

structure Create where
  Service : String
  Symptom : String
  Start : Time
  End : Time
  Timezone : String
  Query : LogQuery
  Interpretation : Option Json := none

/-- The text that `create` hashes; `Interpretation` is not part of it. -/
def Create.marshal (a : App) (b : Create) : Json :=
  .obj [("service", .str b.Service), ("symptom", .str b.Symptom), ("start", .str (a.RFC3339 b.Start)),
    ("end", .str (a.RFC3339 b.End)), ("timezone", .str b.Timezone), ("query", b.Query.marshal)]

/-- The investigation that a subject has under an idempotency key. -/
def investigationByIdem (snap : Store) (u idem : String) : Option (String × Investigation) :=
  (snap.lookup (Key.investigations_idem u idem)).bind fun id =>
    (snap.lookup (Key.investigations id)).map fun row => (id, row)

/-- `select count(*) from investigations where team = ... and status in
('queued','running')`. -/
def openInvestigations (snap : Store) (team : String) : Nat :=
  snap.count fun key row =>
    match key, row with
    | .investigations _, (row : Investigation) =>
      row.team = team && (row.status = .queued || row.status = .running)
    | _, _ => false

/-- The checks that `createTask` makes before its transaction, and the query
with its defaults. -/
def createTaskChecks (a : App) (b : Create) (idem : String) : Except Error LogQuery := do
  let query ← b.Query.validate
  if idem.utf8ByteSize < 1 ∨ idem.utf8ByteSize > 128 ∨ b.Symptom.utf8ByteSize < 3 ∨
      b.Symptom.utf8ByteSize > 4000 ∨ b.Start = 0 ∨ b.End < b.Start ∨
      b.End - b.Start > seconds (7 * 24 * 3600) then
    throw (E 400 "invalid_scope")
  if ¬ a.LoadLocation b.Timezone then
    throw (E 400 "invalid_timezone")
  return query

def newInvestigation (u : String) (b : Create) (requestHash idem : String) (service : Service)
    (query : LogQuery) : Investigation :=
  { team := service.team, service := b.Service, subject := u, symptom := b.Symptom, start_at := b.Start
    end_at := b.End, timezone := b.Timezone, status := .queued, idem, request_hash := requestHash
    report := none, manifest := none, source_version := service.watermark, seq := 0, query }

/-- `insert into jobs(id)`, with the defaults of the other columns. -/
def newJob (now : Time) : Job :=
  { state := .queued, owner := none, generation := 0, lease_until := none, available_at := now
    attempts := 0, last_error := none, last_callback := none, result_hash := none }

/-- Admit an investigation under its idempotency key, or find the one that is
already there. `id` is the fresh identifier; the result is the one in use. -/
def createTask (a : App) (now : Time) (u : String) (b : Create) (requestHash idem id requestID : String) :
    Tx String := do
  let query ← Tx.ofExcept (createTaskChecks a b idem)
  let _ ← Tx.lockRow (Key.advisory 7001)
  match investigationByIdem (← Tx.snapshot) u idem with
  | some (oldID, old) =>
    Tx.refuse (old.request_hash ≠ requestHash) (E 409 "idempotency_payload_conflict")
    return oldID
  | none =>
    let service ← Tx.require (((← Tx.snapshot).lookup (Key.services b.Service)).filter (·.enabled)) .noRows
    Tx.ofExcept (member (← Tx.snapshot) u service.team false)
    Tx.refuse (openInvestigations (← Tx.snapshot) service.team ≥ 200) (E 429 "team_quota_exhausted")
    Tx.insert (Key.investigations id) (newInvestigation u b requestHash idem service query) .uniqueViolation
    Tx.insert (Key.investigations_idem u idem) id .uniqueViolation
    Tx.insert (Key.jobs id) (newJob now) .uniqueViolation
    event id "queued"
      (.obj [("request_id", .str requestID), ("interpretation", b.Interpretation.getD .null)])
    return id

def create (a : App) (now : Time) (u : String) (b : Create) (idem id requestID : String) : Tx String :=
  createTask a now u b (a.Hash (b.marshal a)) idem id requestID

/-- What `get` answers: the investigation, its report and manifest unless they
are stale, and its action. -/
structure Detail where
  investigation : Investigation
  report : Option Json
  manifest : Option Json
  action : Option Action
  evidence_stale : Bool

def get (snap : Store) (id : String) : Except Error Detail :=
  match snap.lookup (Key.investigations id) with
  | none => .error .noRows
  | some i =>
    match snap.lookup (Key.services i.service) with
    | none => .error .noRows
    | some s =>
      .ok
        { investigation := i
          report := if i.source_version = s.watermark then i.report else none
          manifest := if i.source_version = s.watermark then i.manifest else none
          action := snap.lookup (Key.actions id)
          evidence_stale := i.source_version ≠ s.watermark }

/-- `actions.state in ('draft','approved','rejected')`. -/
def ActionState.undecided (state : ActionState) : Bool :=
  state = .draft || state = .approved || state = .rejected

/-- `actions.state in ('succeeded','unknown','executing')`. -/
def ActionState.dispatched (state : ActionState) : Bool :=
  state = .succeeded || state = .unknown || state = .executing

def cancel (id : String) : Tx Unit := do
  let _ ← Tx.updateOne (Key.investigations id) (fun _ => true) fun _ row => { row with status := .cancelled }
  let _ ← Tx.updateOne (Key.jobs id) (fun _ => true)
    fun _ row => { row with state := .cancelled, lease_until := none }
  let _ ← Tx.updateOne (Key.actions id) (fun row => row.state.undecided)
    fun _ row => { row with state := .invalidated }
  event id "cancelled"
    (.obj [("note", .str "Already dispatched external requests require reconciliation.")])

/-- `status in ('waiting_information','failed','partial','completed')`. -/
def Status.resumable (status : Status) : Bool :=
  status = .waiting_information || status = .failed || status = .partial_ || status = .completed

/-- `(select watermark from services where id=investigations.service)`; the
foreign key on `service` makes the default unreachable. -/
def currentWatermark (snap : Store) (service : String) : Nat :=
  ((snap.lookup (Key.services service)).map (·.watermark)).getD 0

def resume (now : Time) (id information : String) : Tx Unit := do
  Tx.refuse (information.utf8ByteSize > 4000) (E 400 "information_too_large")
  let updated ← Tx.updateOne (Key.investigations id) (fun row => row.status.resumable) fun snap row =>
    { row with
      status := .queued
      symptom := row.symptom ++ "\n" ++ information
      source_version := currentWatermark snap row.service }
  Tx.refuse (updated = none) (E 409 "not_resumable")
  let _ ← Tx.updateOne (Key.jobs id) (fun _ => true) fun _ row =>
    { row with
      state := .queued, available_at := now, attempts := 0, last_callback := none, result_hash := none }
  let _ ← Tx.updateOne (Key.actions id) (fun row => !row.state.dispatched)
    fun _ row => { row with state := .invalidated }
  event id "resumed" (.obj [("information", .str information)])

end incidentdesk
