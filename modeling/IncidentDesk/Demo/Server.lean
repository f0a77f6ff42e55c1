import IncidentDesk.Demo.LogStore

namespace incidentdesk.server

open pagination (sorted)
open log_store (Record)

/-- A row of `sources.deployments`. -/
structure Deployment where
  id : String
  service : String
  app_id : String
  version : String
  commit_sha : String
  event_time : Int
  watermark : Int
  deleted : Option Bool
deriving DecidableEq

/-- What the API answers to an authorization: the scope of the investigation. -/
structure Scope where
  service : String
  start : String
  stop : String
  query : worker.LogQuery
  watermark : Int

/-- The instants that times stand for, and how they are written. -/
structure Clock where
  instant : String → Int
  isoformat : Int → String

/-- A commit of the demo repository, as `git show` prints it. -/
structure Commit where
  stamp : String
  diff : String
  config : String

/-- The last version of the runbook. -/
structure Runbook where
  sha : String
  stamp : String
  markdown : String

/-- An item of a list of the Kubernetes API. -/
structure Item where
  uid : String
  creationTimestamp : String
  name : String
  resourceVersion : String
  release : Option String
  fields : List (String × Json)

/-- What the sources hold, and how the demo is configured. -/
structure Content where
  logs : log_store.Store
  deployments : List Deployment
  unique : (deployments.map Deployment.id).Nodup
  commit : String → Option Commit
  runbook : String → Option Runbook
  pods : List Item
  events : List Item
  namespace_ : String
  unavailable : String
  delete_runbook : String

/-- The release that was current when the window of a scope began. -/
def current (clock : Clock) (deployments : List Deployment) (scope : Scope) : Option String :=
  let before := deployments.filter fun r =>
    r.service = scope.service && r.deleted = some false && r.event_time ≤ clock.instant scope.start
  (sorted (fun r : Deployment => toLex (r.event_time, r.watermark)) before).getLast?.map Deployment.id

/-- The deployments of a scope: those of its window, and the one that was current
when it began. -/
def inScope (clock : Clock) (deployments : List Deployment) (scope : Scope) : List Deployment :=
  deployments.filter fun r =>
    r.service = scope.service && r.event_time ≤ clock.instant scope.stop &&
      (clock.instant scope.start ≤ r.event_time || current clock deployments scope = some r.id)

/-- `[0-9a-f]{40}`. -/
def isSha (text : String) : Bool :=
  text.length = 40 && text.toList.all fun c => c.isDigit || ('a' ≤ c && c ≤ 'f')

/-- The record of a commit, for commits that can be read and are not of later than
the window. -/
def commitRecord (clock : Clock) (content : Content) (scope : Scope) (sha : String) : Option Record :=
  if isSha sha then
    (content.commit sha).bind fun commit =>
      if clock.instant scope.stop < clock.instant commit.stamp then none
      else some {
        id := sha
        event_time := commit.stamp
        content := .obj [("commit", .str sha), ("diff", .str commit.diff), ("config", .str commit.config),
          ("config_path", .str "config.json"), ("config_locator", .str ("demo-git://repo/" ++ sha ++ "/config.json")),
          ("service", .str scope.service), ("provenance", .str "local-demo")]
        locator := "demo-git://repo/commit/" ++ sha
        version := sha
        deleted := false }
  else none

/-- The commits that the deployments of a scope point to. -/
def shas (clock : Clock) (content : Content) (scope : Scope) : List String :=
  ((inScope clock content.deployments scope).map Deployment.commit_sha).dedup

/-- The fixtures belong to one service, and never to public datasets. -/
def hasFixtures (content : Content) (scope : Scope) : Bool :=
  scope.service = "svc-17" && log_store.catalog_provenance content.logs scope.service ≠ "public-dataset"

def related_records (clock : Clock) (content : Content) (source : String) (scope : Scope) : List Record :=
  if !hasFixtures content scope then []
  else if source = "runbook" then
    if content.delete_runbook = "true" then []
    else
      match content.runbook scope.stop with
      | none => []
      | some runbook => [{
          id := "orders-runbook"
          event_time := runbook.stamp
          content := .obj [("markdown", .str runbook.markdown), ("service", .str "svc-17"),
            ("provenance", .str "local-demo"), ("valid_as_of", .str scope.stop)]
          locator := "demo-git://repo/" ++ runbook.sha ++ "/RUNBOOK.md"
          version := runbook.sha
          deleted := false }]
  else ((shas clock content scope).take 50).filterMap (commitRecord clock content scope)

/-- The record of an item, with the fields that are shown. -/
def itemRecord (namespace_ resource : String) (item : Item) : Record where
  id := item.uid
  event_time := item.creationTimestamp
  content := .obj ([("name", .str item.name), ("release", item.release.elim .null .str)] ++
    item.fields.filter fun field => field.1 ∈ ["status", "reason", "message", "involvedObject"])
  locator := "k8s://" ++ namespace_ ++ "/" ++ resource ++ "/" ++ item.name
  version := item.resourceVersion
  deleted := false

def cluster_records (content : Content) : List Record :=
  content.pods.map (itemRecord content.namespace_ "pods") ++ content.events.map (itemRecord content.namespace_ "events")

/-- The answer of a source. -/
structure Response where
  records : List Record
  next_cursor : Option String
  summary : Option log_store.Summary
  provenance : Option String
  watermark : Int
  observed_at : String
  sync : Option String

/-- An answer with the first records only, and the last of them as its cursor. -/
def rescan (records : List Record) (provenance : Option String) (watermark : Int) (now : String) (limit : Nat) :
    Response where
  records := records.take limit
  next_cursor := if limit < records.length then (records[limit - 1]?).map Record.id else none
  summary := none
  provenance := provenance
  watermark := watermark
  observed_at := now
  sync := some "rescan"

/-- The endpoint of the sources, once the API has granted the scope. An error is
the status of the answer, with its text. -/
def sources (lib : log_store.Library) (clock : Clock) (content : Content) (now source : String) (scope : Scope)
    (limit : Int) (cursor : Option String) : Except (Nat × String) Response := do
  let limit := min 100 limit
  if limit < 1 then throw (400, "Bad Request")
  if content.unavailable = source then throw (503, "source_unavailable")
  if source = "logs" then
    match log_store.query lib content.logs { service := scope.service, start := scope.start, stop := scope.stop }
        scope.query limit cursor with
    | .error text => throw (400, text)
    | .ok page => return {
        records := page.records
        next_cursor := page.next_cursor
        summary := some page.summary
        provenance := some page.provenance
        watermark := scope.watermark
        observed_at := now
        sync := some "indexed-keyset-v2" }
  else if source = "git" ∨ source = "runbook" then
    return rescan (related_records clock content source scope) (some "local-demo") scope.watermark now limit.toNat
  else if content.namespace_ = "" then throw (503, "cluster_observer_not_configured")
  else if scope.service ≠ "svc-17" then throw (403, "namespace_outside_service_scope")
  else return rescan (cluster_records content) none scope.watermark now limit.toNat

end incidentdesk.server
