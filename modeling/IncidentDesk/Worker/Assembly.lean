import IncidentDesk.Trials
import IncidentDesk.Worker.Idempotence
import IncidentDesk.Worker.Mistral

namespace incidentdesk.worker

open datetime (second)
open mistral (cut getItem)
open pagination (sorted)

/-- What the assembly calls besides: the hexadecimal SHA-256 of a text, `==` of
decoded values, and the name of an error's class. -/
structure Libraries extends Library where
  hexdigest : String → String
  length_hexdigest : ∀ text, (hexdigest text).length = 64
  equal : Doc → Doc → Bool
  className : Failure → String

/-- A record as a source sends it. -/
structure SourceRecord where
  id : String
  event_time : String
  content : List (String × Doc)
  locator : String
  version : String
  deleted : Bool

/-- An answer of a source, with the entries that only a recording keeps. -/
structure SourceResponse where
  records : List SourceRecord
  next_cursor : Option String
  summary : Option (List (String × Doc))
  provenance : Option String
  watermark : Int
  observed_at : String
  retrieval : Option (List (String × Doc))
  more : List (String × Doc)

/-- A recording has the last answer of each source. -/
abbrev Recording := List (String × SourceResponse)

def redactText (text : String) : String := String.ofList (redaction.redactChars text.toList)

def SourceRecord.redact (r : SourceRecord) : SourceRecord where
  id := redactText r.id
  event_time := redactText r.event_time
  content := worker.redact.entries' r.content
  locator := redactText r.locator
  version := redactText r.version
  deleted := r.deleted

def SourceResponse.redact (out : SourceResponse) : SourceResponse where
  records := out.records.map SourceRecord.redact
  next_cursor := out.next_cursor.map redactText
  summary := out.summary.map worker.redact.entries'
  provenance := out.provenance.map redactText
  watermark := out.watermark
  observed_at := redactText out.observed_at
  retrieval := out.retrieval.map worker.redact.entries'
  more := worker.redact.entries' out.more

namespace Doc

/-- `sort_keys=True`. -/
def sortKeys : Doc → Doc
  | .str text => .str text
  | .list items => .list (items' items)
  | .dict entries => .dict (sorted Prod.fst (entries' entries))
  | .other value => .other value
where
  items' : List Doc → List Doc
    | [] => []
    | item :: items => sortKeys item :: items' items
  entries' : List (String × Doc) → List (String × Doc)
    | [] => []
    | (k, v) :: entries => (k, sortKeys v) :: entries' entries

/-- `if v:`. -/
def truthy : Doc → Bool
  | .str text => text ≠ ""
  | .list items => !items.isEmpty
  | .dict entries => !entries.isEmpty
  | .other .null => false
  | .other (.bool value) => value
  | .other (.int n) => n ≠ 0
  | .other (.float text) => text ≠ "0.0" && text ≠ "-0.0"

/-- What can be a key of a dictionary or an element of a set. -/
def hashable : Doc → Bool
  | .str _ | .other _ => true
  | _ => false

end Doc

def ONTOLOGY : List (String × List (String × String)) :=
  [("Service", [("team", "Team"), ("deployments", "Deployment"), ("runbook", "Runbook"), ("incidents", "Incident")]),
    ("Deployment", [("commit", "Commit")]), ("Commit", []), ("Runbook", []), ("Incident", [("service", "Service")]),
    ("Team", [])]

def MAPPINGS : List (String × List (String × List String)) :=
  [("logs", [("checkout-api", ["svc-17"]), ("payment-api", ["svc-23"]), ("ambiguous", ["svc-17", "svc-23"])]),
    ("deployments", [("svc-17", ["svc-17"]), ("svc-23", ["svc-23"])])]

/-- The one service that a name of a source stands for. -/
def resolve (source : String) (name : Doc) : Except Failure String :=
  if name.hashable then
    match name with
    | .str name =>
      match (((MAPPINGS.lookup source).getD []).lookup name).getD [] with
      | [id] => .ok id
      | _ => .error (.ValueError "ambiguous_or_unmapped_service")
    | _ => .error (.ValueError "ambiguous_or_unmapped_service")
  else .error .TypeError

def default_plan (run : RunContext) (OBSERVE_NAMESPACE : String) : QueryPlan where
  version := "1"
  service := run.service
  start := run.start
  stop := run.stop
  steps :=
    [{ source := "deployments", object := "Deployment", path := ["Service", "deployments"], limit := 50
       bounds := by decide },
      { source := "logs", object := "Service", path := ["Service"], limit := 20, bounds := by decide },
      { source := "git", object := "Commit", path := ["Service", "deployments", "commit"], limit := 50
        bounds := by decide },
      { source := "runbook", object := "Runbook", path := ["Service", "runbook"], limit := 50, bounds := by decide }] ++
    if OBSERVE_NAMESPACE = "" then []
    else [{ source := "cluster", object := "Incident", path := ["Service", "incidents"], limit := 50
            bounds := by decide }]

namespace validate_plan

/-- The instant of a time, if it has an offset. -/
def moment (t : DateTime) : Int :=
  match t.tz with
  | .fixed offset => t.wall - offset * second
  | _ => t.wall

/-- `t < s`, which times with and without an offset do not allow. -/
def lt (t s : DateTime) : Except Failure Bool :=
  if t.tz = .naive ↔ s.tz = .naive then .ok (moment t < moment s) else .error .TypeError

/-- Where a path of relations leads. -/
def follow (obj : String) : List String → Except Failure String
  | [] => .ok obj
  | relation :: path => do
    let some relations := ONTOLOGY.lookup obj | throw .KeyError
    let some obj := relations.lookup relation | throw (.ValueError "invalid_relation")
    follow obj path

def expected : List (String × String) :=
  [("logs", "Service"), ("deployments", "Deployment"), ("git", "Commit"), ("runbook", "Runbook"),
    ("cluster", "Incident")]

def step (s : PlanStep) : Except Failure Unit :=
  match s.path with
  | "Service" :: path => do
    if (← follow "Service" path) ≠ s.object then throw (.ValueError "object_type_mismatch")
    let some object := expected.lookup s.source | throw .KeyError
    if s.object ≠ object then throw (.ValueError "source_object_mismatch")
  | _ => throw (.ValueError "invalid_root")

end validate_plan

open validate_plan in
def validate_plan (plan : QueryPlan) (run : RunContext) : Except Failure Unit := do
  if plan.service ≠ run.service then throw (.PermissionError "plan_scope")
  if ← lt plan.start run.start then throw (.PermissionError "plan_scope")
  if ← lt run.stop plan.stop then throw (.PermissionError "plan_scope")
  if ← lt plan.stop plan.start then throw (.PermissionError "plan_scope")
  if run.budget.steps < plan.steps.length then throw (.ValueError "plan_budget")
  plan.steps.forM step

namespace validate_plan

theorem lt_self (t : DateTime) : lt t t = .ok false := by
  simp [lt]

end validate_plan

open validate_plan in
/-- The default plan of a run that can be asked for is valid. -/
theorem validate_default {run : RunContext} {OBSERVE_NAMESPACE : String} (hwindow : lt run.stop run.start = .ok false)
    (hsteps : 5 ≤ run.budget.steps) : validate_plan (default_plan run OBSERVE_NAMESPACE) run = .ok () := by
  have hlength : (default_plan run OBSERVE_NAMESPACE).steps.length ≤ 5 := by
    unfold default_plan
    split_ifs <;> simp
  have hall : (default_plan run OBSERVE_NAMESPACE).steps.forM validate_plan.step = .ok () := by
    unfold default_plan
    split_ifs <;> rfl
  have hstart : (default_plan run OBSERVE_NAMESPACE).start = run.start := rfl
  have hstop : (default_plan run OBSERVE_NAMESPACE).stop = run.stop := rfl
  have hservice : (default_plan run OBSERVE_NAMESPACE).service = run.service := rfl
  rw [validate_plan, hstart, hstop, hservice, lt_self, lt_self, hwindow]
  simp only [ne_eq, not_true_eq_false, if_false, bind, Except.bind, Bool.false_eq_true]
  rw [if_neg (by omega), hall]

/-- A run with another limit of its output. -/
def RunContext.within (run : RunContext) (output_bytes : Nat) : RunContext :=
  { run with budget := { run.budget with output_bytes } }

/-- Where an assembly calls the API or a source. -/
inductive Place where
  | plan_validated
  | tool_before (step : Nat)
  | query (step page : Nat)
  | retrieval_returned (step : Nat)
  | tool_after (step : Nat) (failed : Bool)
  | memory
  | context_assembled

/-- The runtime of an assembly: what its hooks come to, whether a tool may be called
after some calls and how many they are then, what a page of a source is, and the
memories that the API has. -/
structure Runtime where
  hook : Place → Except Failure Unit
  authorize : Place → String → Nat → Except Failure Unit × Nat
  answer : Place → Option String → Except Failure SourceResponse
  memories : List Doc

/-- What is around a run: whether its time is up, what the API answers, and what the sources do. -/
structure Surroundings where
  late : Place → Bool
  event : Place → Except Failure Unit
  authorized : Place → Except Failure Unit
  answer : Place → Option String → Except Failure SourceResponse
  memories : List Doc

namespace Runtime

/-- `Runtime`, which stops at the limits of the run. -/
def online (run : RunContext) (around : Surroundings) : Runtime where
  hook := around.event
  authorize place _ calls :=
    if run.budget.steps ≤ calls ∨ around.late place then (.error (.RuntimeError "budget_exhausted"), calls)
    else (around.authorized place, calls + 1)
  answer := around.answer
  memories := around.memories

/-- `OfflineRuntime`, which has no sources. -/
def offline (run : RunContext) : Runtime where
  hook _ := .ok ()
  authorize _ tool calls :=
    if tool ∉ ["logs", "deployments", "git", "runbook", "cluster", "context"] then
      (.error (.PermissionError "offline_write_denied"), calls)
    else if run.budget.steps < calls + 1 then (.error (.RuntimeError "budget_exhausted"), calls + 1)
    else (.ok (), calls + 1)
  answer _ _ := .error .KeyError
  memories := []

end Runtime

/-- What an assembly has gathered. -/
structure Gathered where
  calls : Nat
  facts : List Doc
  evidence : List Evidence
  missing : List String
  freshness : List Doc
  records : Recording
  versions : List (String × List Doc)
  retrieval : List (String × Doc)

def Gathered.empty : Gathered where
  calls := 0
  facts := []
  evidence := []
  missing := []
  freshness := []
  records := []
  versions := []
  retrieval := []

/-- An assembly that is under way. -/
abbrev Assembling := Trial Gathered Failure

/-- The errors that end an assembly although they strike at one source. -/
def Failure.fatal : Failure → Bool
  | .PermissionError _ => true
  | .HTTPStatusError status => status ∈ [401, 403, 409]
  | _ => false

/-- `c.get(k, default)` as a text. -/
def Libraries.text (lib : Libraries) (c : List (String × Doc)) (k : String) (default : Doc) : String :=
  lib.str ((c.lookup k).getD default)

def describe (lib : Libraries) (source : String) (c : List (String × Doc)) : Except Failure String :=
  if source = "logs" then
    .ok ("日志记录 " ++ lib.text c "level" (.str "UNKNOWN") ++ ": " ++ lib.text c "message" (.str "无消息"))
  else if source = "deployments" then
    .ok ("发布版本 " ++ lib.text c "version" .null ++ " 指向提交 " ++ lib.text c "commit_sha" .null)
  else if source = "git" then
    .ok ("代码提交 " ++ lib.text c "commit" .null ++ "，配置差异：" ++ lib.text c "config" (.str "未提供"))
  else if source = "runbook" then
    match (c.lookup "markdown").getD (.str "") with
    | .str text => .ok ("运行手册摘录：" ++ cut 300 text)
    | .dict _ => .error .KeyError
    | _ => .error .TypeError
  else .ok ("集群观测：" ++ cut 1500 (Doc.dumps Doc.unicode (.dict c)))

namespace assemble

section Steps

variable (lib : Libraries) (rt : Runtime) (run : RunContext) (recorded : Option Recording)

def authorize (place : Place) (tool : String) : Assembling Unit := do
  let g ← getThe Gathered
  let (result, calls) := rt.authorize place tool g.calls
  set { g with calls }
  liftM result

/-- `REGISTRY[step.source].query(runtime, step, cursor)`. -/
def query (place : Place) (step : PlanStep) (cursor : Option String) : Assembling SourceResponse := do
  authorize rt place step.source
  liftM (rt.answer place cursor)

/-- The pages that follow, as long as there is a cursor, and some `left`. -/
def further (i : Nat) (step : PlanStep) : Nat → Nat → SourceResponse → Assembling (SourceResponse × Nat)
  | 0, pages, out => return (out, pages)
  | left + 1, pages, out =>
    match out.next_cursor.filter (· ≠ "") with
    | none => return (out, pages)
    | some cursor => do
      let more ← query rt (.query i pages) step (some cursor)
      let known := out.records.map SourceRecord.id
      further i step left (pages + 1)
        { out with records := out.records ++ more.records.filter fun r => r.id ∉ known
                   next_cursor := more.next_cursor }

/-- The statistics of the search that a report shows. -/
def retrieval (out : SourceResponse) (pages : Nat) : List (String × Doc) :=
  Doc.update (out.summary.getD [])
    [("pages", .int pages), ("evidence_count", .int out.records.length),
      ("sampled", .bool (out.next_cursor.any (· ≠ ""))), ("provenance", .str (out.provenance.getD "unknown"))]

/-- The answer for a step, from its source or from a recording. -/
def retrieve (i : Nat) (step : PlanStep) : Assembling SourceResponse :=
  match recorded with
  | some recorded =>
    match recorded.lookup step.source with
    | none => throw (.RuntimeError ("unreplayable_missing_recording:" ++ step.source))
    | some out => do
      authorize rt (.query i 0) step.source
      return out
  | none => do
    let out ← query rt (.query i 0) step none
    if step.source = "logs" then
      let (out, pages) ← further rt i step 2 1 out
      return { out with retrieval := some (retrieval out pages) }
    else return out

/-- A record that names its service names that of the run. -/
def mapped (source : String) (content : List (String × Doc)) : Except Failure Unit :=
  if source ∈ MAPPINGS.map Prod.fst then do
    let name := (content.lookup (if source = "logs" then "service_name" else "app_id")).getD .null
    if (← resolve source name) ≠ run.service then throw (.PermissionError "source_scope_mismatch")
  else return

def raw (content : List (String × Doc)) : String := Doc.dumps Doc.unicode (Doc.sortKeys (.dict content))

def digest (r : SourceRecord) : String := lib.hexdigest (raw r.content)

/-- A large record is kept as a text that may be cut. -/
def snippet (content : List (String × Doc)) : Doc :=
  if (Doc.dumps .default (.dict content)).length ≤ 12000 then .dict content else .str (cut 12000 (raw content))

def evidenceOf (step : PlanStep) (out : SourceResponse) (r : SourceRecord) : Evidence where
  id := eid step.source r.id (digest lib r)
  source := step.source
  locator := r.locator
  collected_at := out.observed_at
  event_time := r.event_time
  version := r.version
  sha256 := digest lib r
  snippet := snippet r.content
  team := run.team
  source_record := r.id
  available := true

def observation (step : PlanStep) (id text : String) : Doc :=
  .dict [("id", .str ("fact:" ++ id)), ("kind", .str "observation"), ("text", .str text), ("evidence", .strings [id]),
    ("transform", .str "normalize-v1"), ("query_step", step.model_dump)]

/-- The version that a record names, if one is taken from it. -/
def version (step : PlanStep) (content : List (String × Doc)) : Except Failure (Option Doc) := do
  let version ←
    if step.source = "logs" then pure ((content.lookup "release").filter Doc.truthy)
    else if step.source = "deployments" then
      match content.lookup "version" with
      | some version => pure (some version)
      | none => throw .KeyError
    else pure none
  if version.any fun v => !v.hashable then throw .TypeError
  return version

/-- `versions.setdefault(source, set()).add(version)`. -/
def addVersion (versions : List (String × List Doc)) (source : String) (version : Doc) : List (String × List Doc) :=
  let known := (versions.lookup source).getD []
  dict.put versions source (if known.any (lib.equal version) then known else known ++ [version])

/-- What a record becomes. -/
def row (step : PlanStep) (out : SourceResponse) (r : SourceRecord) : Assembling Unit := do
  liftM (mapped run step.source r.content)
  modify fun g =>
    { g with missing := g.missing ++
               if 12000 < (raw r.content).length then [step.source ++ ": evidence snippet truncated"] else []
             evidence := g.evidence ++ [evidenceOf lib run step out r] }
  let text ← liftM (describe lib step.source r.content)
  modify fun g => { g with facts := g.facts ++ [observation step (eid step.source r.id (digest lib r)) text] }
  let version ← liftM (version step r.content)
  modify fun g => { g with versions := version.elim g.versions (addVersion lib g.versions step.source) }

def freshness (step : PlanStep) (out : SourceResponse) : Doc :=
  .dict [("source", .str step.source), ("observed_at", .str out.observed_at),
    ("watermark", .str (String.ofList (Json.digits out.watermark))),
    ("snapshot_consistency", .str "independent_source")]

/-- What is missing of an answer as a whole. -/
def incomplete (step : PlanStep) (out : SourceResponse) : List String :=
  (if out.next_cursor.any (· ≠ "") then
    [step.source ++ ": truncated; 已按查询条件检索并分层取样；证据预算内分页结束，仍有更多记录（truncated）"] else []) ++
  if (out.records.filter fun r => !r.deleted) = [] then [step.source ++ ": no accessible records in scope"] else []

/-- What the answer for a step becomes. -/
def record (i : Nat) (step : PlanStep) (answer : SourceResponse) : Assembling Unit := do
  let out := answer.redact
  modify fun g =>
    { g with retrieval := if step.source = "logs" then out.retrieval.getD g.retrieval else g.retrieval
             records := dict.put g.records step.source out }
  liftM (rt.hook (.retrieval_returned i))
  modify fun g =>
    { g with freshness := g.freshness ++ [freshness step out], missing := g.missing ++ incomplete step out }
  forM (out.records.filter fun r => !r.deleted) (row lib run step out)

/-- A step whose source and hooks do what they should. -/
def attempt (i : Nat) (step : PlanStep) : Assembling Unit := do
  let out ← retrieve rt recorded i step
  record lib rt run i step out
  liftM (rt.hook (.tool_after i false))

/-- A failure that strikes at one source leaves the others. -/
def recover (i : Nat) (step : PlanStep) (failure : Failure) : Assembling Unit :=
  if recorded.isSome ∨ failure.fatal then throw failure
  else do
    modify fun g => { g with missing := g.missing ++ [step.source ++ ": " ++ lib.className failure] }
    liftM (rt.hook (.tool_after i true))

/-- One step of the plan. -/
def visit (step : PlanStep × Nat) : Assembling Unit := do
  liftM (rt.hook (.tool_before step.2))
  tryCatch (attempt lib rt run recorded step.2 step.1) (recover lib rt recorded step.2 step.1)

end Steps

/-- What relates pieces of evidence. -/
structure Links where
  objects : List Doc
  facts : List Doc
  conflicts : List Doc

namespace Links

def none : Links := { objects := [], facts := [], conflicts := [] }

def append (a b : Links) : Links :=
  { objects := a.objects ++ b.objects, facts := a.facts ++ b.facts, conflicts := a.conflicts ++ b.conflicts }

end Links

section Linking

variable (lib : Libraries) (run : RunContext)

/-- The sets of versions differ. -/
def differ (a b : List Doc) : Bool :=
  !(a.all fun v => b.any (lib.equal v)) || !(b.all fun v => a.any (lib.equal v))

/-- `v.get(k)`. -/
def getD (k : String) (v : Doc) : Except Failure Doc := do return (← mistral.get k v).getD .null

def versionConflict (g : Gathered) : List Doc :=
  let logs := (g.versions.lookup "logs").getD []
  let deployments := (g.versions.lookup "deployments").getD []
  if logs ≠ [] ∧ deployments ≠ [] ∧ differ lib logs deployments then
    [.dict [("text", .str "日志与发布表的版本记录不一致；需要核对实例与发布时间。"),
      ("evidence", .strings ((g.evidence.filter fun e => e.source ∈ ["logs", "deployments"]).map Evidence.id))]]
  else []

/-- A release, and the commit that it points to. -/
def release (commits : List Evidence) (release : Evidence) : Except Failure Links := do
  let deployment : Doc := .dict [("type", .str "Deployment"), ("id", .str release.source_record),
    ("service", .str run.service), ("evidence", .strings [release.id]), ("valid_time", .str release.event_time)]
  let matched ← commits.filterM fun commit => do
    return lib.equal (← getD "commit" commit.snippet) (← getD "commit_sha" release.snippet)
  match matched with
  | commit :: _ =>
    let id ← getItem "commit" commit.snippet
    return {
      objects := [deployment, .dict [("type", .str "Commit"), ("id", id), ("deployment", .str release.source_record),
        ("evidence", .strings [release.id, commit.id])]]
      facts := [.dict [("id", .str ("fact:relation:" ++ release.id)), ("kind", .str "computed"),
        ("text", .str "发布记录与 Git 提交标识一致；这只确认变更归属，不证明故障因果。"),
        ("evidence", .strings [release.id, commit.id]), ("transform", .str "commit-equality-v1"),
        ("query_step", .dict [("relation", .str "Deployment.commit")])]]
      conflicts := [] }
  | [] =>
    return {
      objects := [deployment], facts := []
      conflicts := if commits = [] then [] else [.dict [("text", .str "发布指向的提交未匹配已读取的 Git 记录。"),
        ("evidence", .strings (release.id :: commits.map Evidence.id))]] }

/-- The releases that a workload of the cluster runs. -/
def cluster (releases : List Evidence) (observation : Evidence) : Except Failure Links := do
  let version ← getD "release" observation.snippet
  let same ← releases.filterM fun e => do return lib.equal (← getD "version" e.snippet) version && version.truthy
  return { Links.none with
    facts := same.map fun release => .dict [("id", .str ("fact:cluster-release:" ++ observation.id ++ ":" ++ release.id)),
      ("kind", .str "computed"), ("text", .str "集群工作负载的发布标签与结构化发布版本一致；因果关系仍需验证。"),
      ("evidence", .strings [observation.id, release.id]), ("transform", .str "release-label-equality-v1"),
      ("query_step", .dict [("relation", .str "Incident.service.deployments")])] }

open report (ofSource) in
def links (evidence : List Evidence) : Except Failure Links := do
  let releases ← (ofSource evidence "deployments").mapM (release lib run (ofSource evidence "git"))
  let observations ← (ofSource evidence "cluster").mapM (cluster lib (ofSource evidence "deployments"))
  return (releases ++ observations).foldl Links.append Links.none

/-- The bundle of what has been gathered. -/
def bundle (plan : QueryPlan) (g : Gathered) : Except Failure ContextBundle := do
  let links ← links lib run g.evidence
  return {
    version := "1"
    scope := [("team", .str run.team), ("subject", .str run.subject), ("service", .str run.service)]
    objects := .dict [("type", .str "Service"), ("id", .str run.service), ("team", .str run.team)] :: links.objects
    facts := g.facts ++ links.facts
    evidence := g.evidence
    missing := g.missing
    conflicts := versionConflict lib g ++ links.conflicts
    freshness := g.freshness
    plan := plan
    token_budget := run.budget.tokens
    memories := []
    retrieval := g.retrieval
    mapping_version := "2"
    ontology_version := "1" }

end Linking

/-- The loop. -/
def gather (lib : Libraries) (rt : Runtime) (run : RunContext) (plan : QueryPlan) (recorded : Option Recording) :
    Except Failure Unit × Gathered :=
  Trial.exec (forM plan.steps.zipIdx (visit lib rt run recorded)) Gathered.empty

/-- `len(bundle.model_dump_json().encode())`. -/
def size (lib : Libraries) (b : ContextBundle) : Nat := Doc.bytes ((b.model_dump lib.toLibrary).dumps .compact)

/-- The memories that a bundle gets, which a replay has not. -/
def remembered (rt : Runtime) (recorded : Option Recording) (calls : Nat) : Except Failure (List Doc) :=
  if recorded.isSome then .ok []
  else do
    (rt.authorize .memory "memory" calls).1
    return rt.memories

/-- What follows the loop. -/
def conclude (lib : Libraries) (rt : Runtime) (run : RunContext) (plan : QueryPlan) (recorded : Option Recording)
    (g : Gathered) : Except Failure (ContextBundle × Recording) := do
  let b ← bundle lib run plan g
  if run.budget.output_bytes < size lib b then throw (.RuntimeError "output_budget_exhausted")
  let memories ← remembered rt recorded g.calls
  rt.hook .context_assembled
  return ({ b with memories }, g.records)

end assemble

open assemble in
/-- `assemble` for a plan, the default one where none is given. -/
def assemble (lib : Libraries) (rt : Runtime) (run : RunContext) (plan : QueryPlan) (recorded : Option Recording) :
    Except Failure (ContextBundle × Recording) := do
  validate_plan plan run
  rt.hook .plan_validated
  let (outcome, g) := gather lib rt run plan recorded
  outcome
  conclude lib rt run plan recorded g

end incidentdesk.worker
