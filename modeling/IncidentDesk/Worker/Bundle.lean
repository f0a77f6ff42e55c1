import IncidentDesk.Datetime
import IncidentDesk.Worker.Connectors
import IncidentDesk.Worker.Document

namespace incidentdesk.worker

/-- The errors that end an investigation. -/
inductive Failure where
  | RuntimeError (text : String)
  | ValueError (text : String)
  | PermissionError (text : String)
  | KeyError
  | IndexError
  | AttributeError
  | TypeError
  | ValidationError
  | JSONDecodeError
  | HTTPStatusError (status : Nat)
  | TransportError
deriving DecidableEq

/-- The libraries: how datetimes are written by `isoformat` and by the typed models,
`repr` of a value, the order in which a set is gone over, whether a floating-point
number is positive, and `json.loads`. -/
structure Library where
  isoformat : DateTime → String
  datetime : DateTime → String
  repr : Doc → String
  order : List String → List String
  positive : String → Bool
  loads : String → Option Doc

/-- `str(v)`. -/
def Library.str (lib : Library) : Doc → String
  | .str text => text
  | v => lib.repr v

structure Budget where
  steps : Nat
  seconds : Nat
  output_bytes : Nat
  model_calls : Nat
  tokens : Nat

/-- What a run is about. -/
structure RunContext where
  subject : String
  team : String
  service : String
  symptom : String
  start : DateTime
  stop : DateTime
  budget : Budget

structure QueryPlan where
  version : String
  service : String
  start : DateTime
  stop : DateTime
  steps : List PlanStep

structure Evidence where
  id : String
  source : String
  locator : String
  collected_at : String
  event_time : String
  version : String
  sha256 : String
  snippet : Doc
  team : String
  source_record : String
  available : Bool

structure ContextBundle where
  version : String
  scope : List (String × Doc)
  objects : List Doc
  facts : List Doc
  evidence : List Evidence
  missing : List String
  conflicts : List Doc
  freshness : List Doc
  plan : QueryPlan
  token_budget : Nat
  memories : List Doc
  retrieval : List (String × Doc)
  mapping_version : String
  ontology_version : String

/-- `model_dump`. -/
def PlanStep.model_dump (s : PlanStep) : Doc :=
  .dict [("source", .str s.source), ("object", .str s.object), ("path", .strings s.path), ("limit", .int s.limit)]

def Evidence.model_dump (e : Evidence) : Doc :=
  .dict [("id", .str e.id), ("source", .str e.source), ("locator", .str e.locator),
    ("collected_at", .str e.collected_at), ("event_time", .str e.event_time), ("version", .str e.version),
    ("sha256", .str e.sha256), ("snippet", e.snippet), ("team", .str e.team), ("source_record", .str e.source_record),
    ("available", .bool e.available)]

/-- `model_dump(mode="json")`. -/
def QueryPlan.model_dump (lib : Library) (plan : QueryPlan) : Doc :=
  .dict [("version", .str plan.version), ("service", .str plan.service), ("start", .str (lib.datetime plan.start)),
    ("end", .str (lib.datetime plan.stop)), ("steps", .list (plan.steps.map PlanStep.model_dump))]

def ContextBundle.model_dump (lib : Library) (b : ContextBundle) : Doc :=
  .dict [("version", .str b.version), ("scope", .dict b.scope), ("objects", .list b.objects), ("facts", .list b.facts),
    ("evidence", .list (b.evidence.map Evidence.model_dump)), ("missing", .strings b.missing),
    ("conflicts", .list b.conflicts), ("freshness", .list b.freshness), ("plan", b.plan.model_dump lib),
    ("token_budget", .int b.token_budget), ("memories", .list b.memories), ("retrieval", .dict b.retrieval),
    ("mapping_version", .str b.mapping_version), ("ontology_version", .str b.ontology_version)]

namespace report

/-- What a log record suggests, by a term that it contains. -/
def terms : List (String × String) :=
  [("pool", "连接池耗尽可能导致请求等待；核对活跃连接、池上限和等待时间。"),
    ("timed out", "上游依赖延迟可能超过超时阈值；核对依赖耗时与阈值变更。"),
    ("invalid", "配置值可能不合法；对照运行时配置与发布提交。"),
    ("after release", "发布与异常时间相关；需要对照变更和实例指标验证因果。")]

def ofSource (evidence : List Evidence) (source : String) : List Evidence := evidence.filter fun e => e.source = source

/-- The evidence whose text contains a term. -/
def mentions (evidence : List Evidence) (term : String) : List String :=
  (evidence.filter fun e => isIn term (e.snippet.dumps .default)).map Evidence.id

def candidate (text rule : String) (ids : List String) : Doc :=
  .dict [("text", .str text), ("label", .str "有待验证"), ("rule", .str rule), ("evidence", .strings ids)]

/-- One candidate, if any evidence supports it. -/
def supported (text rule : String) (ids : List String) : List Doc :=
  if ids.isEmpty then [] else [candidate text rule ids]

def candidates (evidence : List Evidence) : List Doc :=
  (terms.flatMap fun (term, text) =>
      supported text "日志直接观测支持候选；时间相关不证明因果。" (mentions (ofSource evidence "logs") term)) ++
    supported "观测到 OOMKilled 退出；内存为何超限仍需工作集、限制值及请求分布验证。"
      "退出原因是观测事实，应用层原因仍是待验证解释。" (mentions (ofSource evidence "cluster") "OOMKilled") ++
    supported "观测到探针失败事件；对照对应发布的探针路径与应用启动状态。"
      "集群事件支持探针失败，尚不能单独确定应用故障根因。" (mentions (ofSource evidence "cluster") "Unhealthy")

/-- The value under a key as an f-string writes it. -/
def shown (lib : Library) (retrieval : List (String × Doc)) (k : String) : String :=
  lib.str ((retrieval.lookup k).getD (.int 0))

def answer (lib : Library) (b : ContextBundle) : String :=
  if b.retrieval.isEmpty then "以下为检索到的证据；候选原因需要进一步验证。"
  else "检索范围内共 " ++ shown lib b.retrieval "total_in_query" ++ " 条日志，匹配 " ++ shown lib b.retrieval "matched" ++
    " 条；以下展示 " ++ toString (ofSource b.evidence "logs").length ++ " 条可追溯证据。"

end report

def report (lib : Library) (b : ContextBundle) : Except Failure (List (String × Doc)) := do
  let some impact := b.scope.lookup "service" | throw .KeyError
  return [("impact", impact), ("retrieval", .dict b.retrieval), ("answer", .str (report.answer lib b)),
    ("facts", .list b.facts), ("candidates", .list (report.candidates b.evidence)), ("conflicts", .list b.conflicts),
    ("missing", .strings b.missing),
    ("next_steps", .strings ["核对实际部署版本与日志时间窗口。", "检查连接池和依赖延迟指标，补齐缺失来源后确认原因。"]),
    ("evidence", .list (b.evidence.map Evidence.model_dump)), ("freshness", .list b.freshness),
    ("context", b.model_dump lib), ("confidence_rule", .str "事实有直接来源；候选有待验证；无日志时不推断根因。"),
    ("historical_memory", .list b.memories), ("mode", .str "deterministic-baseline")]

end incidentdesk.worker
