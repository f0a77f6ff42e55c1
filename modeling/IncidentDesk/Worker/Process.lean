import IncidentDesk.Worker.Cache

namespace incidentdesk.process

open log_store (InYears)

/-- What a run has gathered: a bundle, whatever it holds, and the memories that are
shown with it. -/
structure Context (β : Type) where
  bundle : β
  memories : List (String × Memory)

/-- The values of a checkpoint that the graph has written at its end. -/
structure Saved (β : Type) where
  context : Context β
  source_version : Nat

/-- Where a run of `process` stands. -/
inductive Stage (β : Type) where
  /-- About to read the checkpoints. -/
  | started
  /-- About to ask, the first and the second time, whether it may take over the
  checkpoint of the generation before. -/
  | recovering (previous : Saved β)
  | rechecking (previous : Saved β)
  /-- About to enter the graph. -/
  | opening
  /-- In `ContextCache.get`: about to be authorized, and authorized. -/
  | reading
  | looking (scope : Scope)
  /-- Found in the cache. -/
  | remembering (cached : Context β)
  /-- In `assemble`. -/
  | assembling
  /-- In `ContextCache.put`: about to be authorized, and authorized. -/
  | storing (fresh : Context β)
  | inserting (scope : Scope) (fresh : Context β)
  /-- At the end of the graph, and after it. -/
  | gathered (context : Context β)
  | reporting (context : Context β)
  | ended

/-- A run of `process` on a task, with the baseline harness or with the graph. -/
structure Run (β : Type) where
  task : Task
  baseline : Bool
  stage : Stage β

/-- The API with its database, the workers' database and the runs of the workers. -/
structure Cluster (β : Type) where
  world : World
  cache : ContextCache.Table (Context β)
  /-- The checkpoints, by the task's id and generation. -/
  saved : List ((String × Nat) × Saved β)
  runs : List (Run β)

/-- What the workers are deployed with: the digest of their keys, and `report`, which
is a function of what has been gathered. -/
structure Deployment (β : Type) where
  sha256 : String → String
  report : Context β → RawMessage

/-- What can happen next. Anything that the workers do not do to their two databases
themselves is a step of the world: the requests of users, the heartbeats, events and
authorizations of an assembly on its way, and the requests whose answers are lost. -/
inductive Act (β : Type) where
  | world (op : Op)
  | claim (owner : String) (baseline : Bool) (skip : Key → Bool)
  | go (n : Nat) (skip : Key → Bool)
  | assemble (n : Nat) (bundle : β) (skip : Key → Bool)
  | submit (n : Nat) (b : Callback) (skip : Key → Bool)
  | crash (n : Nat)

/-- What a run sends to be authorized for a tool. -/
def asks (t : Task) (tool : String) : Callback :=
  { Owner := t.owner.getD "", Generation := t.generation, Tool := tool }

/-- What `runtime.authorize` answers, and nothing where it raises. -/
def authorized (a : App) (w : World) (t : Task) (tool : String) (skip : Key → Bool) : Option Reply :=
  match (callback a w.now t.id "authorize" (asks t tool)).run skip w.store with
  | .ok (reply, _) => some reply
  | .error _ => none

/-- The result that a run sends, with the callback's other fields from `b`. -/
def resultOf {β : Type} (d : Deployment β) (t : Task) (context : Context β) (b : Callback) : Callback :=
  { b with Owner := t.owner.getD "", Generation := t.generation, Report := some (d.report context) }

namespace Cluster

variable {β : Type}

def init (σ : Store) (now : Time) : Cluster β := { world := World.init σ now, cache := [], saved := [], runs := [] }

def setStage (c : Cluster β) (n : Nat) (stage : Stage β) : Cluster β :=
  { c with runs := c.runs.modify n fun r => { r with stage } }

/-- A request of a worker. -/
def request (a : App) (c : Cluster β) (r : Request) (skip : Key → Bool) : Cluster β :=
  { c with world := World.step a c.world (.request r skip) }

/-- The run `n` is authorized for a tool and goes on with the answer; a refusal ends it. -/
def ask (a : App) (c : Cluster β) (n : Nat) (t : Task) (tool : String) (skip : Key → Bool)
    (next : Reply → Stage β) : Cluster β :=
  (c.request a (.callback t.id "authorize" (asks t tool)) skip).setStage n
    ((authorized a c.world t tool skip).elim .ended next)

/-- The checkpoint of the generation before is taken over if the sources have not
changed since it was begun. -/
def recovers (a : App) (c : Cluster β) (t : Task) (previous : Saved β) (skip : Key → Bool) : Bool :=
  ((authorized a c.world t "context" skip).bind scopeOf).any fun scope =>
    scope.watermark = t.source_version && previous.source_version = scope.watermark

def save (c : Cluster β) (t : Task) (saved : Saved β) : Cluster β :=
  { c with saved := dict.put c.saved (t.id, t.generation) saved }

/-- Where a run begins: a task that has been tried before may have a checkpoint. -/
def start (c : Cluster β) (t : Task) : Stage β :=
  if (c.saved.lookup (t.id, t.generation)).isNone ∧ 1 < t.generation ∧ 1 < t.attempt then
    match c.saved.lookup (t.id, t.generation - 1) with
    | some previous => .recovering previous
    | none => .opening
  else .opening

/-- The next step of a run that is not in `assemble` and has not reported. -/
def go (a : App) (d : Deployment β) (c : Cluster β) (n : Nat) (r : Run β) (skip : Key → Bool) : Cluster β :=
  let t := r.task
  match r.stage with
  | .started => c.setStage n (c.start t)
  | .recovering previous => c.ask a n t "context" skip fun _ => .rechecking previous
  | .rechecking previous =>
    (if c.recovers a t previous skip then c.save t previous else c).ask a n t "context" skip fun _ => .opening
  | .opening =>
    c.setStage n <|
      if r.baseline then .assembling
      else
        match c.saved.lookup (t.id, t.generation) with
        | some saved => .reporting saved.context
        | none => .reading
  | .reading => c.ask a n t "context" skip fun reply => (scopeOf reply).elim .ended .looking
  | .looking scope =>
    let c := { c with cache := ContextCache.evict c.cache scope }
    c.setStage n <|
      match ContextCache.select c.world.now c.cache (ContextCache.key d.sha256 t scope) with
      | some cached => .remembering cached
      | none => .assembling
  | .remembering cached =>
    c.ask a n t "memory" skip fun reply => .gathered { cached with memories := memoriesOf reply }
  | .storing fresh =>
    c.ask a n t "context" skip fun reply =>
      (scopeOf reply).elim .ended fun scope =>
        if scope.watermark = t.source_version then .inserting scope fresh else .ended
  | .inserting scope fresh =>
    let key := ContextCache.key d.sha256 t scope
    { c with cache := ContextCache.upsert c.world.now c.cache key scope fresh }.setStage n (.gathered fresh)
  | .gathered context =>
    (c.save t { context, source_version := t.source_version }).setStage n (.reporting context)
  | .assembling | .reporting _ | .ended => c

/-- The assembly ends with a bundle and the memories that it is authorized for. -/
def assembled (a : App) (c : Cluster β) (n : Nat) (r : Run β) (bundle : β) (skip : Key → Bool) : Cluster β :=
  match r.stage with
  | .assembling =>
    c.ask a n r.task "memory" skip fun reply =>
      let context := { bundle, memories := memoriesOf reply }
      if r.baseline then .reporting context else .storing context
  | _ => c

def submit (a : App) (d : Deployment β) (c : Cluster β) (r : Run β) (b : Callback) (skip : Key → Bool) : Cluster β :=
  match r.stage with
  | .reporting context => c.request a (.callback r.task.id "result" (resultOf d r.task context b)) skip
  | _ => c

/-- The task that a worker is handed out, if its run can begin: times outside of the
years of a `datetime` are not accepted. -/
def taken (a : App) (w : World) (owner : String) (skip : Key → Bool) : Option Task :=
  match (claim a w.now owner).run skip w.store with
  | .ok (some t, _) => if InYears t.start ∧ InYears t.end_ then some t else none
  | _ => none

/-- One step; a run that cannot take the named step stays as it is. -/
def step (a : App) (d : Deployment β) (c : Cluster β) : Act β → Cluster β
  | .world op => { c with world := World.step a c.world op }
  | .claim owner baseline skip =>
    let runs := (taken a c.world owner skip).map fun task => { task, baseline, stage := .started }
    { c.request a (.claim owner) skip with runs := c.runs ++ runs.toList }
  | .go n skip => (c.runs[n]?.map fun r => c.go a d n r skip).getD c
  | .assemble n bundle skip => (c.runs[n]?.map fun r => c.assembled a n r bundle skip).getD c
  | .submit n b skip => (c.runs[n]?.map fun r => c.submit a d r b skip).getD c
  | .crash n => c.setStage n .ended

theorem world_ask (a : App) (c : Cluster β) (n : Nat) (t : Task) (tool : String) (skip : Key → Bool)
    (next : Reply → Stage β) :
    (c.ask a n t tool skip next).world = World.step a c.world (.request (.callback t.id "authorize" (asks t tool)) skip) :=
  rfl

theorem go_world (a : App) (d : Deployment β) (c : Cluster β) (n : Nat) (r : Run β) (skip : Key → Bool) :
    (c.go a d n r skip).world = c.world ∨ ∃ op, (c.go a d n r skip).world = World.step a c.world op := by
  unfold go
  cases r.stage with
  | started | opening | looking | inserting | gathered | assembling | reporting | ended => exact .inl rfl
  | recovering | reading | remembering | storing => exact .inr ⟨_, world_ask ..⟩
  | rechecking previous =>
    have hsame : (if c.recovers a r.task previous skip then c.save r.task previous else c).world = c.world := by
      split <;> rfl
    refine .inr ⟨.request (.callback r.task.id "authorize" (asks r.task "context")) skip, ?_⟩
    dsimp only
    rw [world_ask, hsame]

/-- A step of the cluster is a step of its world, or leaves the world alone. -/
theorem world_step (a : App) (d : Deployment β) (c : Cluster β) (act : Act β) :
    (step a d c act).world = c.world ∨ ∃ op, (step a d c act).world = World.step a c.world op := by
  cases act with
  | world op => exact .inr ⟨op, rfl⟩
  | claim owner baseline skip => exact .inr ⟨.request (.claim owner) skip, rfl⟩
  | go n skip =>
    simp only [step]
    cases c.runs[n]? with
    | none => exact .inl rfl
    | some r => exact go_world a d c n r skip
  | assemble n bundle skip =>
    simp only [step]
    cases c.runs[n]? with
    | none => exact .inl rfl
    | some r =>
      simp only [Option.map_some, Option.getD_some, assembled]
      split
      · exact .inr ⟨_, world_ask ..⟩
      · exact .inl rfl
  | submit n b skip =>
    simp only [step]
    cases c.runs[n]? with
    | none => exact .inl rfl
    | some r =>
      simp only [Option.map_some, Option.getD_some, submit]
      split
      · rename_i context _
        exact .inr ⟨.request (.callback r.task.id "result" (resultOf d r.task context b)) skip, rfl⟩
      · exact .inl rfl
  | crash => exact .inl rfl

/-- The cluster after a run from an initial database. -/
abbrev after (a : App) (d : Deployment β) (σ : Store) (now : Time) (acts : List (Act β)) : Cluster β :=
  machine.run (step a d) (init σ now) acts

end Cluster

end incidentdesk.process
