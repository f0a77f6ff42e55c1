import IncidentDesk.Client
import IncidentDesk.Datetime
import IncidentDesk.Dict
import IncidentDesk.Schema

namespace incidentdesk.worker.artifacts

open Client (ask)

/-- `scope["team"] + "/" + runtime.run.id + "/" + str(uuid.uuid4())`. -/
structure Key where
  team : String
  task : String
  uuid : Nat
deriving DecidableEq

inductive State where
  | staged
  | ready
deriving DecidableEq

/-- A row of `artifacts`. One that was deleted stays in the table, unseen. -/
structure Row where
  task : String
  team : String
  watermark : Nat
  digest : String
  state : State := .staged
  created_at : Time
  deleted : Bool := false

structure Scope where
  team : String
  watermark : Nat

inductive Request where
  /-- `insert into artifacts(key,task,team,watermark,digest,state) values(..,'staged')`. -/
  | insert (key : Key) (task team : String) (watermark : Nat) (digest : String)
  | put_object (key : Key) (body : String)
  /-- `update artifacts set state='ready' where key=%s`. -/
  | update (key : Key)
  /-- `select task,team,watermark,digest,state from artifacts where key=%s`. -/
  | select (key : Key)
  | get_object (key : Key)
  /-- `select key from artifacts where created_at<%s or (state='staged' and ..)`. -/
  | select_old (days : Nat)
  | delete_object (key : Key)
  /-- The end of the transaction that deletes rows. -/
  | delete (keys : List Key)

structure Reply where
  row : Option Row := none
  body : String := ""
  keys : List Key := []

/-- The database and the bucket. -/
structure Stores where
  now : Time
  rows : List (Key × Row)
  objects : List (Key × String)

/-- The row that a statement sees. -/
def Stores.row (s : Stores) (key : Key) : Option Row := (s.rows.lookup key).filter fun row => !row.deleted

/-- A statement that changes the row of a key, if it is seen. -/
def Stores.change (s : Stores) (key : Key) (f : Row → Row) : Stores :=
  match s.row key with
  | some row => { s with rows := dict.put s.rows key (f row) }
  | none => s

/-- The rows that `cleanup` selects. -/
def Row.old (now : Time) (days : Nat) (row : Row) : Bool :=
  row.created_at < now - days * datetime.day || row.state = .staged && row.created_at < now - datetime.hour

def serve : Client.Service Stores Request Reply
  | .insert key task team watermark digest, s =>
    if (s.row key).isSome then (.error "UniqueViolation", s)
    else (.ok {}, { s with rows := dict.put s.rows key { task, team, watermark, digest, created_at := s.now } })
  | .put_object key body, s => (.ok {}, { s with objects := dict.put s.objects key body })
  | .update key, s => (.ok {}, s.change key fun row => { row with state := .ready })
  | .select key, s => (.ok { row := s.row key }, s)
  | .get_object key, s =>
    match s.objects.lookup key with
    | some body => (.ok { body }, s)
    | none => (.error "NoSuchKey", s)
  | .select_old days, s =>
    (.ok { keys := (s.rows.map Prod.fst).filter fun key => (s.row key).any (Row.old s.now days) }, s)
  | .delete_object key, s => (.ok {}, { s with objects := s.objects.filter fun object => object.1 ≠ key })
  | .delete keys, s => (.ok {}, keys.foldl (fun s key => s.change key fun row => { row with deleted := true }) s)

/-- A script that stops at its first error. -/
abbrev Script := ExceptT String (Client Request Reply)

/-- `json.dumps(data, sort_keys=True)`, `json.loads` and the digest. -/
structure Kit (α : Type) where
  dumps : α → String
  loads : String → Except String α
  sha256 : String → String

inductive Result (α : Type) where
  | pointer (key : Key) (sha256 : String) (state : State)
  | data (data : α)
  | deleted (count : Nat)

variable {α : Type}

section Artifacts

variable (kit : Kit α)

/-- `Artifacts.put`, with what the API has answered to `authorize`. -/
def put (task : String) (authorized : Except String Scope) (uuid : Nat) (data : α) : Script (Result α) := do
  let scope ← liftM authorized
  let raw := kit.dumps data
  let digest := kit.sha256 raw
  let key := { team := scope.team, task, uuid }
  let _ ← ask (.insert key task scope.team scope.watermark digest)
  let _ ← ask (.put_object key raw)
  let _ ← ask (.update key)
  return .pointer key digest .ready

def get (task : String) (authorized : Except String Scope) (key : Key) : Script (Result α) := do
  let scope ← liftM authorized
  let some row := (← ask (.select key)).row | throw "artifact_unavailable"
  if (row.task, row.team, row.watermark) ≠ (task, scope.team, scope.watermark) ∨ row.state ≠ .ready then
    throw "artifact_unavailable"
  let raw := (← ask (.get_object key)).body
  if kit.sha256 raw ≠ row.digest then
    throw "artifact_integrity"
  return .data (← liftM (kit.loads raw))

def cleanup (days : Nat) : Script (Result α) := do
  let keys := (← ask (.select_old days)).keys
  keys.forM fun key => do
    let _ ← ask (.delete_object key)
  let _ ← ask (.delete keys)
  return .deleted keys.length

end Artifacts

/-- What a worker, or the one who cleans up, calls. -/
inductive Call (α : Type) where
  | put (task : String) (authorized : Except String Scope) (data : α)
  | get (task : String) (authorized : Except String Scope) (key : Key)
  | cleanup (days : Nat)

def Call.script (kit : Kit α) (n : Nat) : Call α → Script (Result α)
  | .put task authorized data => artifacts.put kit task authorized n data
  | .get task authorized key => artifacts.get kit task authorized key
  | .cleanup days => artifacts.cleanup days

abbrev System (α : Type) := Client.System Stores Request Reply (Except String (Result α))

/-- What can happen next: a call goes on, or time passes. -/
inductive Op where
  | act (act : Client.Act)
  | pass (time : Nat)

def step (system : System α) : Op → System α
  | .act act => system.step serve act
  | .pass time => { system with store := { system.store with now := system.store.now + time } }

/-- Some calls at stores that are empty, and what has happened. -/
def after (kit : Kit α) (calls : List (Call α)) (ops : List Op) : System α :=
  machine.run step
    { store := { now := 0, rows := [], objects := [] }
      clients := calls.mapIdx fun n call => (call.script kit n).run } ops

end incidentdesk.worker.artifacts
