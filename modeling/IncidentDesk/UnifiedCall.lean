import IncidentDesk.DataQueries
import IncidentDesk.Routing
import IncidentDesk.Unified

namespace incidentdesk

open sql sql.Tx
open Workbench (Answer)

def naturalInput.marshal (b : naturalInput) : Json := .obj [("text", .str b.Text), ("timezone", .str b.Timezone)]

/-- The hash under which `natural` makes an investigation. -/
def naturalHash (a : App) (b : naturalInput) : String :=
  a.Hash (.obj [("Kind", .str "natural-v1"), ("Input", b.marshal)])

def datasetAccess (snap : Store) (u dataset : String) : Except Error Unit :=
  if (snap.lookup (Key.query_datasets dataset)).any fun d => d.enabled && hasMember snap u d.team then .ok ()
  else .error (E 403 "dataset_forbidden")

/-- `select s.id ... from services s join members m ... where m.subject=... and
s.enabled order by s.id`. -/
def serviceIDs (snap : Store) (u : String) : List String :=
  let visible := snap.entries.filterMap fun e =>
    match e with
    | ⟨.services id, row⟩ => if row.enabled && hasMember snap u row.team then some id else none
    | _ => none
  visible.insertionSort (· ≤ ·)

/-- The decision that is stored under a key. -/
def cachedDecision (σ : Store) (u key : String) : Option queryDecision :=
  (σ.lookup (Key.unified_requests u key)).bind (·.decision)

/-- What the planner returns to `natural`. -/
structure queryPlan where
  Model : Json
  Status : String
  Clarification : String
  Service : String
  Start : Time
  End : Time
  Query : LogQuery
  Explanation : String
  Mode : String

/-- A call of `executeUnified` that has passed the checks before its first
statement, with the fresh identifiers that it draws and what the router and the
planner say if it asks them. -/
structure UnifiedCall where
  Now : Time
  Subject : String
  Idem : String
  Input : UnifiedInput
  QueryID : String
  InvestigationID : String
  RequestID : String
  Route : Except Error RouteReply
  Plan : Except Error queryPlan

def UnifiedCall.hash (a : App) (c : UnifiedCall) : String := a.Hash c.Input.marshal

/-- What `natural` gets under a decision. -/
def UnifiedCall.natural (c : UnifiedCall) (d : queryDecision) : naturalInput :=
  { Text := d.Question, Timezone := c.Input.Timezone }

/-- The task that `natural` makes of a plan. -/
def UnifiedCall.task (c : UnifiedCall) (d : queryDecision) (plan : queryPlan) : Create :=
  { Service := plan.Service, Symptom := d.Question, Start := plan.Start, End := plan.End
    Timezone := c.Input.Timezone, Query := plan.Query
    Interpretation := some (.obj
      [("mode", .str plan.Mode), ("explanation", .str plan.Explanation), ("model", plan.Model)]) }

deriving instance DecidableEq for Workbench.Answer

/-- Where a call is between two of its transactions, with what it has read. -/
inductive Stage where
  | reserve
  | lookup (kind : Option String) (cached : Option queryDecision)
  | grant (id dataset question : String)
  | route (kind : Option String) (cached : Option queryDecision)
  | store (d : queryDecision)
  | natural (d : queryDecision)
  | accept (d : queryDecision) (id team : String)
  | plan (d : queryDecision)
  | createTask (d : queryDecision)
  | warehouse (d : queryDecision)
  | submit (d : queryDecision)
  | answered (answer : Answer)
  | failed (error : Error)
deriving DecidableEq

/-- The decision that a call acts on. -/
def Stage.decision : Stage → Option queryDecision
  | natural d | accept d _ _ | plan d | createTask d | warehouse d | submit d => some d
  | _ => none

/-- The call is over. -/
def Stage.final : Stage → Bool
  | answered _ | failed _ => true
  | _ => false

/-- What the caller gets when a check says no. -/
def Stage.ofExcept {α : Type} (result : Except Error α) (next : α → Stage) : Stage :=
  match result with
  | .error error => failed error
  | .ok value => next value

/-- How `executeUnified` goes on from its decision. -/
def UnifiedCall.act (a : App) (c : UnifiedCall) (d : queryDecision) : Stage :=
  if ¬ d.valid then .failed (E 502 "invalid_query_route")
  else if d.Kind = "answer" ∨ d.Kind = "clarification" then .answered d.reply
  else if d.Kind = "investigation" then .ofExcept (naturalChecks a (c.natural d) c.Idem) fun _ => .natural d
  else if d.Kind ≠ "warehouse" then .failed (E 502 "invalid_query_route")
  else .warehouse d

/-- The decision that a call without a stored one offers to store. -/
def UnifiedCall.routed (c : UnifiedCall) (kind : Option String) (hasInvestigation : Bool) :
    Except Error queryDecision :=
  let d := c.Input.preset kind hasInvestigation
  if c.Input.asks d then c.Route.bind fun reply => c.Input.settle (reply.decode d)
  else c.Input.settle d

/-- How `natural` goes on once it knows the services of its caller. -/
def UnifiedCall.planned (c : UnifiedCall) (d : queryDecision) (ids : List String) : Stage :=
  if ids = [] then .answered noServicesReply
  else .ofExcept c.Plan fun plan =>
    if plan.Status = "clarification" then .answered (plannerReply plan.Clarification plan.Mode)
    else if plan.Service ∉ ids ∨ plan.Status ≠ "ready" then .failed (E 502 "invalid_planner_scope")
    else .createTask d

/-- The next transaction of a call, each with what follows from it. -/
def Stage.body (a : App) (c : UnifiedCall) : Stage → Tx Stage
  | reserve => do
    let row ← upsert (Key.unified_requests c.Subject c.Idem)
      { request_hash := c.hash a, kind := none, decision := none } id
    return if row.request_hash ≠ c.hash a then failed (E 409 "idempotency_payload_conflict")
      else lookup row.kind row.decision
  | lookup kind cached => do
    match (← snapshot).lookup (Key.data_queries c.Subject c.Idem) with
    | some row =>
      return if c.hash a ≠ row.request_hash then failed (E 409 "idempotency_payload_conflict")
        else grant row.id row.dataset row.question
    | none => return route kind cached
  | grant id dataset question => do
    let snap ← snapshot
    return .ofExcept (datasetAccess snap c.Subject dataset) fun _ => answered (warehouseReply id question)
  | route kind cached => do
    let found := investigationByIdem (← snapshot) c.Subject c.Idem
    match cached with
    | some d => return c.act a d
    | none => return .ofExcept (c.routed kind found.isSome) store
  | store d => do
    let row ← updateOne (Key.unified_requests c.Subject c.Idem) (fun _ => true) fun _ row =>
      { row with decision := some (row.decision.getD d), kind := some ((row.decision.map (·.Kind)).getD d.Kind) }
    let stored ← require (row.bind (·.decision)) .noRows
    return c.act a stored
  | natural d => do
    match investigationByIdem (← snapshot) c.Subject c.Idem with
    | some (id, row) =>
      return if row.request_hash ≠ naturalHash a (c.natural d) then failed (E 409 "idempotency_payload_conflict")
        else accept d id row.team
    | none => return plan d
  | accept _ id team => do
    let snap ← snapshot
    return .ofExcept (member snap c.Subject team false) fun _ => answered (acceptedReply id)
  | plan d => do return c.planned d (serviceIDs (← snapshot) c.Subject)
  | createTask d => do
    let plan ← Tx.ofExcept c.Plan
    let id ← incidentdesk.createTask a c.Now c.Subject (c.task d plan) (naturalHash a (c.natural d)) c.Idem
      c.InvestigationID c.RequestID
    return answered (acceptedReply id)
  | warehouse d => do
    let snap ← snapshot
    return .ofExcept (datasetAccess snap c.Subject "commerce") fun _ => submit d
  | submit d => do
    let id ← admitDataQuery a c.Now c.Subject c.Idem (c.hash a) c.QueryID d.Question
    return answered (warehouseReply id d.Question)
  | answered answer => return answered answer
  | failed error => return failed error

/-- A decision leads to the warehouse, to `natural`, or to the end of the call. -/
theorem UnifiedCall.act_cases (a : App) (c : UnifiedCall) (d : queryDecision) :
    (c.act a d = .warehouse d ∧ d.Kind = "warehouse" ∧ d.valid = true) ∨
      (c.act a d = .natural d ∧ d.Kind = "investigation" ∧ d.valid = true) ∨
      (∃ error, c.act a d = .failed error) ∨ c.act a d = .answered d.reply := by
  unfold act
  by_cases hvalid : d.valid = true
  · rw [if_neg (not_not.mpr hvalid)]
    by_cases hsaid : d.Kind = "answer" ∨ d.Kind = "clarification"
    · rw [if_pos hsaid]
      exact .inr (.inr (.inr rfl))
    · rw [if_neg hsaid]
      by_cases hinvestigation : d.Kind = "investigation"
      · rw [if_pos hinvestigation]
        cases naturalChecks a (c.natural d) c.Idem with
        | error error => exact .inr (.inr (.inl ⟨error, rfl⟩))
        | ok => exact .inr (.inl ⟨rfl, hinvestigation, hvalid⟩)
      · rw [if_neg hinvestigation]
        by_cases hwarehouse : d.Kind = "warehouse"
        · rw [if_neg (not_not.mpr hwarehouse)]
          exact .inl ⟨rfl, hwarehouse, hvalid⟩
        · rw [if_pos hwarehouse]
          exact .inr (.inr (.inl ⟨_, rfl⟩))
  · rw [if_pos hvalid]
    exact .inr (.inr (.inl ⟨_, rfl⟩))

end incidentdesk
