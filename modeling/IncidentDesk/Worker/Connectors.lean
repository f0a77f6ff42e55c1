import IncidentDesk.Demo.Server

namespace incidentdesk.worker

open pagination (sorted)
open log_store (Record)
open server (Clock Content Deployment Scope)

/-- A step of a plan. The typed model bounds its limit. -/
structure PlanStep where
  source : String
  object : String
  path : List String
  limit : Nat
  bounds : 1 ≤ limit ∧ limit ≤ 100

/-- The number that a decimal text stands for. -/
def int (text : String) : Option Int :=
  match Json.number text.toList with
  | some (.num n, []) => some n
  | _ => none

def deploymentRecord (clock : Clock) (r : Deployment) : Record where
  id := r.id
  event_time := clock.isoformat r.event_time
  content := .obj [("id", .str r.id), ("service", .str r.service), ("app_id", .str r.app_id),
    ("version", .str r.version), ("commit_sha", .str r.commit_sha), ("watermark", .num r.watermark),
    ("deleted", r.deleted.elim .null .bool)]
  locator := "postgres://sources/deployments/" ++ r.id
  version := String.ofList (Json.digits r.watermark)
  deleted := r.deleted.getD false

namespace DeploymentSource

/-- The rows that the statement returns. -/
def rows (clock : Clock) (deployments : List Deployment) (scope : Scope) (cursor : Int) (limit : Nat) :
    List Deployment :=
  (sorted (fun r : Deployment => toLex (r.watermark, r.id))
    ((server.inScope clock deployments scope).filter fun r => cursor < r.watermark)).take limit

/-- A query, once the API has granted the scope. A cursor that is no number raises an
error. -/
def query (clock : Clock) (deployments : List Deployment) (now : String) (scope : Scope) (step : PlanStep)
    (cursor : Option String) : Except String server.Response := do
  let some cursor := if cursor.getD "" = "" then some 0 else int (cursor.getD "") | throw "ValueError"
  let rows := rows clock deployments scope cursor (step.limit + 1)
  return {
    records := (rows.map (deploymentRecord clock)).take step.limit
    next_cursor :=
      if step.limit < rows.length then
        (rows[step.limit - 1]?).map fun r => String.ofList (Json.digits r.watermark)
      else none
    summary := none
    provenance := none
    watermark := scope.watermark
    observed_at := now
    sync := none }

end DeploymentSource

/-- The connectors, by the source of a step. -/
def REGISTRY_query (lib : log_store.Library) (clock : Clock) (content : Content) (now : String) (scope : Scope)
    (step : PlanStep) (cursor : Option String) : Except String server.Response :=
  if step.source = "deployments" then DeploymentSource.query clock content.deployments now scope step cursor
  else
    match server.sources lib clock content now step.source scope step.limit cursor with
    | .ok response => .ok response
    | .error _ => .error "HTTPStatusError"

end incidentdesk.worker
