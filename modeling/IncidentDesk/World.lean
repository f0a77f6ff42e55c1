import IncidentDesk.Machine
import IncidentDesk.Queue
import IncidentDesk.Actions
import IncidentDesk.Governance

namespace incidentdesk

/-- The requests whose handlers change the database, each with the inputs of its
transaction. The caller's access to an investigation is read by earlier
statements, so a transaction may run whatever the store says about it by then. -/
inductive Request where
  | createTask (u : String) (b : Create) (requestHash idem id requestID : String)
  | cancel (id : String)
  | resume (id information : String)
  | claim (owner : String)
  | callback (id op : String) (b : Callback)
  | draft (u id : String) (b : Draft) (aid : String)
  | decide (u id : String) (Version : Int) (decision approval : String)
  | invalidateSource (service : String) (remove : Bool)
  | configureService (service repo : String) (enabled : Bool)
  | setMember (subject team role : String)
  | memory (id content newID : String)
  | reviewMemory (u id decision : String)
  | badcase (u id category label newID : String)
  | reviewBadcase (u id label : String)

/-- The transaction of a request. -/
def Request.body (a : App) (now : Time) : Request → Tx Unit
  | createTask u b requestHash idem id requestID =>
    discard (incidentdesk.createTask a now u b requestHash idem id requestID)
  | cancel id => incidentdesk.cancel id
  | resume id information => incidentdesk.resume now id information
  | claim owner => discard (incidentdesk.claim a now owner)
  | callback id op b => discard (incidentdesk.callback a now id op b)
  | draft u id b aid => incidentdesk.draft a now u id b aid
  | decide u id Version decision approval => incidentdesk.decide now u id Version decision approval
  | invalidateSource service remove => incidentdesk.invalidateSource service remove
  | configureService service repo enabled => incidentdesk.configureService service repo enabled
  | setMember subject team role => incidentdesk.setMember subject team role
  | memory id content newID => incidentdesk.memory now id content newID
  | reviewMemory u id decision => incidentdesk.reviewMemory now u id decision
  | badcase u id category label newID => incidentdesk.badcase u id category label newID
  | reviewBadcase u id label => incidentdesk.reviewBadcase u id label

/-- Where a run of `actionStep` stands after its first transaction. -/
inductive Phase where
  | ready (remote : Remote)
  | waiting (since : Time) (next : Option Response → Remote)
  | ended

/-- A run of `actionStep` on some replica that has taken an action up. -/
structure Attempt where
  run : actionRun
  phase : Phase

/-- A request sent to GitHub on behalf of an action. -/
structure Sent where
  action : String
  method : String
  path : String
  body : Option Json

structure World where
  store : Store
  now : Time
  attempts : List Attempt
  sent : List Sent

/-- What can happen next: time passes, a request's transaction runs, or one of
the replicas takes a step of `actionStep` — its first transaction, sending a
request, receiving or giving up on the answer, its second transaction. A crash
ends an attempt at any point between. -/
inductive Op where
  | tick (d : Nat)
  | request (r : Request) (skip : Key → Bool)
  | begin (skip : Key → Bool)
  | send (n : Nat)
  | reply (n : Nat) (resp : Option Response)
  | finish (n : Nat)
  | crash (n : Nat)

/-- The rows that a transaction leaves: its own, or the old ones if it fails. -/
def commit {α : Type} (skip : Key → Bool) (body : Tx α) (σ : Store) : Store :=
  match body.run skip σ with
  | .ok (_, σ') => σ'
  | .error _ => σ

def World.setPhase (w : World) (n : Nat) (phase : Phase) : World :=
  { w with attempts := w.attempts.modify n fun t => { t with phase } }

/-- The time after which the HTTP client gives up on an answer. -/
def clientTimeout : Time := seconds 8

def World.begin (w : World) (skip : Key → Bool) : World :=
  match (actionBegin w.now).run skip w.store with
  | .ok (some r, σ) =>
    { w with store := σ, attempts := w.attempts ++ [{ run := r, phase := .ready r.remote }] }
  | .ok (none, σ) => { w with store := σ }
  | .error _ => w

def World.send (w : World) (n : Nat) (t : Attempt) : World :=
  match t.phase with
  | .ready (.call method path body next) =>
    { w.setPhase n (.waiting w.now next) with
      sent := w.sent ++ [{ action := t.run.ID, method, path, body }] }
  | _ => w

def World.reply (w : World) (n : Nat) (t : Attempt) (resp : Option Response) : World :=
  match t.phase with
  | .waiting since next =>
    w.setPhase n (.ready (next (if w.now < since + clientTimeout then resp else none)))
  | _ => w

def World.finish (w : World) (n : Nat) (t : Attempt) : World :=
  match t.phase with
  | .ready (.done result) =>
    { w.setPhase n .ended with
      store := commit (fun _ => false) (actionFinish w.now t.run result) w.store }
  | _ => w

/-- One step; an attempt that cannot take the named step stays as it is. -/
def World.step (a : App) (w : World) : Op → World
  | .tick d => { w with now := w.now + d }
  | .request r skip => { w with store := commit skip (r.body a w.now) w.store }
  | .begin skip => w.begin skip
  | .send n => (w.attempts[n]?.map (w.send n)).getD w
  | .reply n resp => (w.attempts[n]?.map fun t => w.reply n t resp).getD w
  | .finish n => (w.attempts[n]?.map (w.finish n)).getD w
  | .crash n => w.setPhase n .ended

/-- A request is not refused. -/
def World.Commits (a : App) (w : World) (r : Request) (skip : Key → Bool) : Prop :=
  ∃ σ', (r.body a w.now).run skip w.store = .ok ((), σ')

/-- The tables that are filled by the operators and not by requests. -/
def Key.configured : Key → Bool
  | .members _ _ | .admins _ | .services _ | .query_datasets _ => true
  | _ => false

/-- A database to which no request has been made yet. -/
def Initial (σ : Store) : Prop := ∀ key, key.configured = false → σ.lookup key = none

def World.init (σ : Store) (now : Time) : World := { store := σ, now, attempts := [], sent := [] }

/-- The world after a run from an initial database. -/
abbrev World.after (a : App) (σ : Store) (now : Time) (ops : List Op) : World :=
  machine.run (World.step a) (World.init σ now) ops

end incidentdesk
