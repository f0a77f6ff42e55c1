import IncidentDesk.App
import IncidentDesk.Datetime
import IncidentDesk.Python
import IncidentDesk.Worker.Redaction

namespace incidentdesk.worker

open regex (Pos Regex findall search)

structure ServiceOption where
  id : String
  name : String
  aliases : List String
  available_to : Option String

/-- The request of the planner; its clock is given as an instant. -/
structure NaturalRequest where
  text : String
  timezone : String
  now : Int
  services : List ServiceOption

structure LogQuery where
  mode : String
  terms : List String
  levels : List String
deriving DecidableEq

/-- The typed model's own checks. The terms are of any length. -/
def LogQuery.valid (q : LogQuery) : Bool :=
  q.mode ∈ ["anomalies", "search", "all"] && q.terms.length ≤ 6 && q.levels.length ≤ 12 &&
    q.levels.all fun level => level ∈ allowedLevels

structure Interpretation where
  service : Option String
  start : Option DateTime
  stop : Option DateTime
  query : LogQuery
  explanation : String
  clarification : Option String
deriving DecidableEq

/-- What a language model returns, once it has been parsed. Times are wall clock
times with an offset in minutes, if it gives one. -/
structure ModelOutput where
  service : Option String
  start : Option (Int × Option Int)
  stop : Option (Int × Option Int)
  query : LogQuery
  valid : query.valid = true
  explanation : String
  clarification : Option String

def parsed (t : Int × Option Int) : DateTime :=
  { wall := t.1, fold := false, tz := t.2.elim .naive fun minutes => .fixed (minutes * 60) }

/-- `Interpretation.model_validate`. -/
def ModelOutput.interpretation (m : ModelOutput) : Interpretation :=
  { service := m.service, start := m.start.map parsed, stop := m.stop.map parsed, query := m.query
    explanation := m.explanation, clarification := m.clarification }

/-- The planner with its libraries: the time zone database and the parser of
`datetime.fromisoformat`, which gives a wall clock time and an offset in seconds. -/
structure Planner where
  py : Python
  ZoneInfo : String → Option Zone
  fromisoformat : String → Option (Int × Option Int)

/-- `needle in text`. -/
def isIn (needle text : String) : Bool := text.toList.tails.any fun tail => needle.toList.isPrefixOf tail

namespace natural

open regex.Regex

/-- `[A-Za-z0-9_-]` under `re.IGNORECASE`. -/
def nameChar (c : Char) : Bool :=
  c.isAlphanum || c = '_' || c = '-' || c ∈ ['\u0130', '\u0131', '\u017f', '\u212a']

def literal (text : String) : Regex := word (fun c d => c = d) text

section Patterns

variable (py : Python)

def digit : Regex := char py.isDecimal

/-- `BGL|HDFS|svc-\d+|checkout-api|payment-api`, as whole names. -/
def serviceName : Regex :=
  seq (notBehind nameChar) (seq
    (anyOf [word ignoreCase "bgl", word ignoreCase "hdfs", seq (word ignoreCase "svc-") (plus (digit py)),
      word ignoreCase "checkout-api", word ignoreCase "payment-api"])
    (notAhead nameChar))

def knownName : Regex := anyOf [serviceName py, literal "订单", literal "支付"]

/-- A date, with its time of day if it has one. -/
def date : Regex :=
  let seconds := opt (seq (literal ":") (group 6 (times 2 (digit py))))
  let clock := opt (seq (char (· ∈ [' ', 'T'])) (seq (group 4 (between 1 1 (digit py))) (seq (literal ":")
    (seq (group 5 (times 2 (digit py))) seconds))))
  seq (group 1 (times 4 (digit py))) (seq (char (· ∈ ['-', '年', '/'])) (seq (group 2 (between 1 1 (digit py)))
    (seq (char (· ∈ ['-', '月', '/'])) (seq (group 3 (between 1 1 (digit py))) (seq (opt (literal "日")) clock)))))

def relative : Regex :=
  seq (anyOf [literal "最近", literal "过去", literal "近"]) (seq redaction.spaces (seq (group 1 (plus (digit py)))
    (seq redaction.spaces (group 2 (anyOf [literal "分钟", literal "小时", literal "天"])))))

/-- `blk_-?\d+`. -/
def blockId : Regex := seq (literal "blk_") (seq (opt (literal "-")) (plus (digit py)))

/-- Text in straight or in typographic quotation marks, without some characters. -/
def quotation (excluded : List Char) : Regex :=
  alt (seq (literal "\"") (seq (group 1 (plus (char fun c => c ≠ '"' && c ∉ excluded))) (literal "\"")))
    (seq (literal "“") (seq (group 2 (plus (char fun c => c ≠ '”' && c ∉ excluded))) (literal "”")))

def termPattern : Regex :=
  alt (blockId py) (alt (times 40 (char fun c => c.isDigit || ('a' ≤ c && c ≤ 'f'))) (quotation []))

/-- A word between word boundaries. -/
def wholeWord (text : String) : Regex :=
  seq (boundary py.isWord) (seq (word ignoreCase text) (boundary py.isWord))

/-- The expressions of time that the rules read. -/
def temporal : Regex :=
  anyOf [seq (times 4 (digit py)) (seq (char (· ∈ ['-', '年', '/'])) (seq (between 1 1 (digit py))
      (seq (char (· ∈ ['-', '月', '/'])) (between 1 1 (digit py))))),
    literal "昨天", literal "昨日", literal "今天", literal "今日",
    seq (anyOf [literal "最近", literal "过去", literal "近"]) (seq redaction.spaces (seq (plus (digit py))
      (seq redaction.spaces (anyOf [literal "分钟", literal "小时", literal "天"]))))]

end Patterns

/-- The text of a match. -/
def matchText (found : Pos × Pos) : String := String.ofList (found.1.upTo found.2)

def groupText (found : Pos × Pos) (n : Nat) : String := String.ofList (found.2.group n)

/-- A list without the later repetitions, as `list(dict.fromkeys(terms))` has it. -/
def fromkeys (terms : List String) : List String := terms.eraseDups

/-- `int(group or 0)` for a group of digits. -/
def groupInt (py : Python) (found : Pos × Pos) (n : Nat) : Except Raised Int :=
  match groupText found n with
  | "" => .ok 0
  | text => (py.int text).elim (.error .ValueError) .ok

/-- The local function `parse` of `rules`. -/
def parse (py : Python) (found : Pos × Pos) : Except Raised DateTime := do
  datetime.construct (← groupInt py found 1) (← groupInt py found 2) (← groupInt py found 3)
    (← groupInt py found 4) (← groupInt py found 5) (← groupInt py found 6)

def concepts : List (List String × String) :=
  [(["超时", "timeout"], "timed out"), (["连接池", "pool"], "pool"), (["校验", "checksum"], "checksum"),
    (["磁盘", "disk"], "disk"), (["内存", "memory"], "memory"), (["终止", "terminated"], "terminated")]

/-- The blocks that a text names. -/
def blocks (py : Python) (text : String) : List String := (findall (blockId py) text).map matchText

end natural

namespace rules

open natural

/-- `1` unit in seconds. -/
def unitSeconds (unit : String) : Int := if unit = "分钟" then 60 else if unit = "小时" then 3600 else 86400

/-- The end that two dates give, or one and an hour or a day. -/
def datedEnd (py : Python) (first : Pos × Pos) (start : DateTime) : List (Pos × Pos) → Except Raised DateTime
  | [] => start.add (if groupText first 4 = "" then datetime.day else datetime.hour)
  | second :: _ => do
    let stop ← parse py second
    if groupText second 4 = "" then stop.add datetime.day else return stop

def dated (py : Python) (first : Pos × Pos) (more : List (Pos × Pos)) : Except Raised (DateTime × DateTime) := do
  let start ← parse py first
  let stop ← datedEnd py first start more
  return (start, ← stop.add (-1))

/-- The end of the default window, which is the last log of a service that has
stopped writing, and whether it is. -/
def newest (planner : Planner) (zone : Zone) (service : ServiceOption) (now : DateTime) :
    Except Raised (DateTime × Bool) :=
  match service.available_to with
  | none => .ok (now, false)
  | some text => do
    if text = "" then return (now, false)
    let some latest := planner.fromisoformat (text.replace "Z" "+00:00") | throw .ValueError
    let yesterday ← now.add (-datetime.day)
    match latest.2 with
    | none => throw .TypeError
    | some offset =>
      let latest : DateTime := { wall := latest.1, fold := false, tz := .fixed offset }
      if latest.lt zone yesterday then
        return (← DateTime.ofInstant zone (latest.wall - latest.utcoffset zone), true)
      return (now, false)

/-- The window that a text asks for, and whether it is the archive's last day or
the last day by default. -/
def window (planner : Planner) (zone : Zone) (text : String) (service : ServiceOption) (now : DateTime) :
    Except Raised (DateTime × DateTime × String) :=
  match findall (date planner.py) text with
  | first :: more => do
    let (start, stop) ← dated planner.py first more
    return (start, stop, "")
  | [] =>
    if isIn "昨天" text || isIn "昨日" text then do
      let stop := now.midnight
      return (← stop.add (-datetime.day), ← stop.add (-1), "")
    else if isIn "今天" text || isIn "今日" text then return (now.midnight, now, "")
    else
      match search (relative planner.py) text with
      | some found => do
        let amount ← groupInt planner.py found 1
        return (← now.add (-(unitSeconds (groupText found 2) * amount * datetime.second)), now, "")
      | none => do
        let (stop, archived) ← newest planner zone service now
        return (← stop.add (-datetime.day), stop,
          if archived then "未指定时间，使用该数据源最新日志之前的24小时" else "未指定时间，使用最近24小时")

/-- The query of a text. -/
def query (py : Python) (text : String) : LogQuery :=
  let quoted := (findall (termPattern py) text).flatMap fun found =>
    [groupText found 1, groupText found 2].filter (· ≠ "")
  let named := concepts.filterMap fun concept =>
    if concept.1.any fun a => isIn a (py.lower text) then some concept.2 else none
  let terms := quoted ++ blocks py text ++ named
  let levels := ["ERROR", "FATAL", "WARN", "WARNING", "INFO", "DEBUG"].filter fun level =>
    (search (wholeWord py level.toLower) text).isSome
  let mode :=
    if terms ≠ [] then "search"
    else if ["全部", "所有日志", "正常日志"].any fun t => isIn t text then "all"
    else "anomalies"
  { mode, terms := (fromkeys terms).take 6, levels }

/-- An answer that asks back. -/
def asking (clarification : String) : Interpretation :=
  { service := none, start := none, stop := none, query := { mode := "anomalies", terms := [], levels := [] }
    explanation := "", clarification := some clarification }

/-- The services that a text names, the only one when it names none, or the
question to ask back. -/
def service (py : Python) (b : NaturalRequest) : Except String ServiceOption :=
  let named := b.services.filter fun s =>
    (s.id :: s.name :: s.aliases).any fun a => a ≠ "" && isIn (py.lower a) (py.lower b.text)
  let which := "请指定一个可访问的服务：" ++ "、".intercalate (b.services.map (·.name))
  match named, b.services with
  | [service], _ => .ok service
  | [], [service] => if (search (knownName py) b.text).isSome then .error which else .ok service
  | [], _ => .error which
  | _, _ => .error "请一次指定一个服务，或明确要查哪一个。"

end rules

/-- The plan that a text gives without a language model. -/
def rules (planner : Planner) (zone : Zone) (b : NaturalRequest) : Except Raised Interpretation := do
  let now ← DateTime.ofInstant zone b.now
  match rules.service planner.py b with
  | .error clarification => return rules.asking clarification
  | .ok service =>
    let (start, stop, explanation) ← rules.window planner zone b.text service now
    return { service := some service.id, start := some start, stop := some stop, query := rules.query planner.py b.text
             explanation := if explanation = "" then "按描述中的服务和历史时间检索" else explanation
             clarification := none }

/-- What the planner answers. -/
inductive Planned where
  | clarification (text mode : String)
  | ready (plan : Interpretation) (mode : String)
deriving DecidableEq

namespace natural

/-- All the names of the services. -/
def names (b : NaturalRequest) : List String := b.services.flatMap fun s => s.id :: s.name :: s.aliases

/-- The terms of a plan that are not names and not about logs in general. -/
def lexical (py : Python) (b : NaturalRequest) (terms : List String) : List String :=
  let entities := ((names b).filter (· ≠ "")).map py.casefold
  (terms.filter fun t =>
    py.casefold (strip t) ∉ entities && py.casefold (strip t) ∉ ["logs", "log", "异常", "日志", "错误"]).map strip

/-- What a text names exactly: blocks and quoted texts. -/
def identifiers (py : Python) (text : String) : List String :=
  let quoted := (findall (quotation ['\n']) text).map fun found =>
    if groupText found 1 ≠ "" then groupText found 1 else groupText found 2
  blocks py text ++ quoted

/-- The terms of a plan after the model: those that the text names exactly, and
otherwise the plan's own with the synonyms that the logs use. -/
def searchTerms (py : Python) (b : NaturalRequest) (terms : List String) : List String :=
  let exact := identifiers py b.text
  if exact ≠ [] then (fromkeys exact).take 6
  else
    let own := lexical py b terms
    let pooled := if isIn "连接池" b.text then "pool" :: own else own
    (fromkeys (if isIn "超时" b.text then "timed out" :: "timeout" :: pooled else pooled)).take 6

/-- The query of a plan after the model. -/
def refine (py : Python) (b : NaturalRequest) (q : LogQuery) : LogQuery :=
  let terms := searchTerms py b q.terms
  { q with terms, mode := if terms ≠ [] then "search" else q.mode }

/-- The plan of the language model, or that of the rules without one. -/
def firstPlan (planner : Planner) (zone : Zone) (b : NaturalRequest) :
    Option (Except Raised ModelOutput) → Except Raised Interpretation
  | some output => output.map ModelOutput.interpretation
  | none => rules planner zone b

/-- A plan with the window of the rules where the text has an expression of time,
and no plan where the rules cannot read it. -/
def timed (planner : Planner) (zone : Zone) (b : NaturalRequest) (plan : Interpretation) :
    Except Raised (Option Interpretation) :=
  if (search (temporal planner.py) b.text).isSome then
    match rules planner zone b with
    | .ok concrete =>
      .ok <| some <| if concrete.clarification.isSome then plan else
        { plan with
          start := concrete.start, stop := concrete.stop
          explanation := "按问题中明确给出的时间与所选时区执行，不按来源最新日期改写范围。" }
    | .error .TypeError => .error .TypeError
    | .error _ => .ok none
  else .ok (some plan)

/-- The check of the window that is shown. -/
def spanOk (zone : Zone) (plan : Interpretation) : Bool :=
  match plan.start, plan.stop with
  | some start, some stop =>
    start.tz ≠ .naive && stop.tz ≠ .naive && !stop.lt zone start && stop.sub zone start ≤ 7 * datetime.day
  | _, _ => false

/-- The last checks of a plan. -/
def conclude (zone : Zone) (b : NaturalRequest) (plan : Interpretation) (mode : String) : Except Raised Planned :=
  match plan.clarification.filter (· ≠ "") with
  | some clarification => .ok (.clarification clarification mode)
  | none =>
    if plan.service.all (· ∉ b.services.map (·.id)) then .error .ValueError
    else if spanOk zone plan then .ok (.ready plan mode)
    else .ok (.clarification "请给出明确的起止时间，且单次范围不超过7天。" mode)

end natural

open natural in
/-- The plan of a request, where `model` is what the language model returns, if
there is one. -/
def interpret (planner : Planner) (b : NaturalRequest) (model : Option (Except Raised ModelOutput)) :
    Except Raised Planned := do
  if b.services = [] then
    return .clarification "当前账号没有可访问的服务。" "unavailable"
  let some zone := planner.ZoneInfo b.timezone | throw .ValueError
  let accessible := (names b).map planner.py.casefold
  if (findall (serviceName planner.py) b.text).any fun found => planner.py.casefold (matchText found) ∉ accessible then
    return .clarification ("该服务不在当前账号可查询的来源中。可选：" ++ "、".intercalate (b.services.map (·.name))) "scope-check"
  let plan ← firstPlan planner zone b model
  let mode := if model.isSome then "mistral" else "rules-no-model"
  match ← timed planner zone b { plan with query := refine planner.py b plan.query } with
  | none => return .clarification "日期或时间无效，请提供一个有效的起止时间。" mode
  | some plan => conclude zone b plan mode

end incidentdesk.worker
