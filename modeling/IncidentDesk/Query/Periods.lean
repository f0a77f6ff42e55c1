import IncidentDesk.Worker.Natural

namespace incidentdesk.query

open datetime (daysInMonth)
open incidentdesk.worker (isIn)

/-- A day of the calendar, as `datetime.date` has it. -/
structure Date where
  year : Int
  month : Int
  day : Int
  year_range : 1 ≤ year ∧ year ≤ 9999
  month_range : 1 ≤ month ∧ month ≤ 12
  day_range : 1 ≤ day ∧ day ≤ daysInMonth year month
deriving DecidableEq

/-- `date(y, m, d)`, and nothing where it raises a `ValueError`. -/
def date (y m d : Int) : Option Date :=
  if h : (1 ≤ y ∧ y ≤ 9999) ∧ (1 ≤ m ∧ m ≤ 12) ∧ 1 ≤ d ∧ d ≤ daysInMonth y m then
    some { year := y, month := m, day := d, year_range := h.1, month_range := h.2.1, day_range := h.2.2 }
  else none

namespace Date

/-- Dates compare by year, then by month, then by day. -/
def le (d e : Date) : Bool :=
  d.year < e.year || d.year = e.year && (d.month < e.month || d.month = e.month && d.day ≤ e.day)

/-- The key of a day in the warehouse. -/
def date_id (d : Date) : Int := d.year * 10000 + d.month * 100 + d.day

end Date

/-- A literal of the parser, a number or a string, with its text. -/
structure Literal where
  this : String
  is_string : Bool
deriving DecidableEq

inductive Column where
  | month
  | date_id
deriving DecidableEq

inductive Op where
  | EQ
  | NullSafeEQ
  | NEQ
  | GT
  | GTE
  | LT
  | LTE
deriving DecidableEq

/-- A predicate on a column, which stands on the left of a comparison or on its
right. -/
inductive Predicate where
  | compare (op : Op) (column : Column) (expression : Literal)
  | flipped (op : Op) (this : Literal) (column : Column)
  | between (column : Column) (low high : Literal)
  | In (column : Column) (expressions : List Literal)
deriving DecidableEq

/-- A `WHERE` clause that is a conjunction: its predicates in the order in which
`find_all` visits them, and its text in MySQL, in upper case. -/
structure Where where
  predicates : List Predicate
  sql : String

namespace Predicate

/-- The columns of the predicate. -/
def column : Predicate → Column
  | compare _ column _ | flipped _ _ column | between column _ _ | In column _ => column

/-- `predicate.find_all(exp.Literal)`. -/
def literals : Predicate → List Literal
  | compare _ _ value | flipped _ value _ => [value]
  | between _ low high => [low, high]
  | In _ values => values

/-- The column in `predicate.this`, if there is one. -/
def this : Predicate → Option Column
  | compare _ column _ | between column _ _ | In column _ => some column
  | flipped _ _ _ => none

end Predicate

section Question

variable (py : Python)

open regex (Regex findall)
open regex.Regex
open incidentdesk.worker (redaction.spaces)
open incidentdesk.worker.natural (literal digit groupText)

/-- `20\d{2}`, and then the sign of a year, a hyphen or a slash. -/
def yearPattern : Regex :=
  seq (group 1 (seq (literal "20") (times 2 (digit py)))) (seq redaction.spaces
    (alt (literal "年") (char (· ∈ ['-', '/']))))

/-- `(\d{1,2}|十一|十二|[一二三四五六七八九十])\s*月`. -/
def monthPattern : Regex :=
  seq (group 1 (anyOf [between 1 1 (digit py), literal "十一", literal "十二",
    char (· ∈ ['一', '二', '三', '四', '五', '六', '七', '八', '九', '十'])])) (seq redaction.spaces (literal "月"))

def findYears (question : String) : List String := (findall (yearPattern py) question).map (groupText · 1)

def chinese : List (String × Int) :=
  [("1", 1), ("2", 2), ("3", 3), ("4", 4), ("5", 5), ("6", 6), ("7", 7), ("8", 8), ("9", 9), ("10", 10), ("11", 11),
    ("12", 12), ("一", 1), ("二", 2), ("三", 3), ("四", 4), ("五", 5), ("六", 6), ("七", 7), ("八", 8), ("九", 9), ("十", 10),
    ("十一", 11), ("十二", 12)]

/-- `m.lstrip("0")`. -/
def lstripZeros (m : String) : String := String.ofList (m.toList.dropWhile (· = '0'))

/-- The set of the months that the question names, where one is nothing if it is no
month. -/
def findMonths (question : String) : List (Option Int) :=
  ((findall (monthPattern py) question).map fun m => chinese.lookup (lstripZeros (groupText m 1))).dedup

/-- The one month that the question names. -/
def askedMonth (question : String) : Option Int :=
  match findMonths py question with
  | [some month] => some month
  | _ => none

/-- The year of the question when it names one month. -/
def askedYear (today : Date) (question : String) : Except String (Option Int) :=
  match (findYears py question).dedup with
  | [text] =>
    match py.int text with
    | some year => .ok (some year)
    | none => .error "invalid literal for int()"
  | [] =>
    if isIn "今年" question || isIn "本年" question || isIn "去年" question then
      .ok (some (today.year - if isIn "去年" question then 1 else 0))
    else .ok none
  | _ => .ok none

/-- The year that the first check wants, if it wants one. -/
def checkedYear (today : Date) (question : String) : Except String (Option Int) :=
  match (findYears py question).dedup with
  | [text] =>
    match py.int text with
    | some year => .ok (some year)
    | none => .error "invalid literal for int()"
  | [] =>
    if isIn "今年" question || isIn "本年" question then .ok (some today.year)
    else if isIn "去年" question then .ok (some (today.year - 1))
    else .ok none
  | _ => .ok none

end Question

/-- `v == str(year) or v.startswith(str(year)) and len(v) in (8, 10)`. -/
def spellsYear (year : Int) (v : String) : Bool :=
  v = toString year || (toString year).toList.isPrefixOf v.toList && (v.length = 8 || v.length = 10)

/-- `_validate_year`. -/
def validateYear (py : Python) (today : Date) (question : String) (clause : Option Where) : Except String Unit := do
  let some year ← checkedYear py today question | return
  let spelt := fun p : Predicate => p.column = .date_id && p.literals.any fun n => spellsYear year n.this
  if clause.any fun c => c.predicates.any spelt || year = today.year && isIn "YEAR(CURRENT_DATE)" c.sql then
    return
  throw s!"问题指定了 {year} 年，SQL 必须保留 year={year} 或该年 date_id 范围，不能改查全部历史订单。"

section Clause

variable (py : Python)

def date_value (expression : Literal) : Option Date :=
  let raw := expression.this.toList.filter fun c => c ≠ '-' ∧ c ≠ '/'
  if raw.length = 8 then do
    let y ← py.int (String.ofList (raw.take 4))
    let m ← py.int (String.ofList ((raw.drop 4).take 2))
    let d ← py.int (String.ofList (raw.drop 6))
    date y m d
  else none

/-- A day of the month in question, and of its year if there is one. -/
def Requested (month : Int) (year : Option Int) (value : Date) : Prop :=
  value.month = month ∧ ∀ y ∈ year, value.year = y

instance (month : Int) (year : Option Int) (value : Date) : Decidable (Requested month year value) :=
  inferInstanceAs (Decidable (value.month = month ∧ ∀ y ∈ year, value.year = y))

variable (month : Int) (year : Option Int)

/-- `requested(date_value(expression))`. -/
def requested (expression : Literal) : Bool := (date_value py expression).any fun value => Requested month year value

/-- The month column, compared with the month alone. -/
def monthOnly : Predicate → Bool
  | .compare .EQ .month v => v.this = toString month
  | .In .month values => values ≠ [] && values.all fun v => v.this = toString month
  | _ => false

/-- An interval of days of the month in question, or one such day. -/
def dateOnly : Predicate → Bool
  | .between .date_id low high => requested py month year low && requested py month year high
  | .compare .EQ .date_id v => requested py month year v
  | _ => false

/-- The lower bound that a predicate adds to `lowers`. -/
def lower? : Predicate → Option Date
  | .compare .GTE .date_id v => (date_value py v).filter fun value => Requested month year value
  | _ => none

/-- The upper bound that a predicate adds to `uppers`, and whether it is exclusive. -/
def upper? : Predicate → Option (Date × Bool)
  | .compare .LTE .date_id v => (date_value py v).map (·, false)
  | .compare .LT .date_id v => (date_value py v).map (·, true)
  | _ => none

/-- The last loop: whether an upper bound fits a lower one. -/
def closes (uppers : List (Date × Bool)) : List Date → Except String Bool
  | [] => .ok false
  | low :: lowers => do
    let some last := date low.year month (daysInMonth low.year month) | throw "day is out of range for month"
    let some following := date (low.year + if month = 12 then 1 else 0) (month % 12 + 1) 1
      | throw "year 10000 is out of range"
    if uppers.any fun (high, exclusive) => low.le high && high.le last || exclusive && high = following then
      return true
    closes uppers lowers

/-- The loop over the predicates. -/
def scan : List Predicate → List Date → List (Date × Bool) → Except String Bool
  | [], lowers, uppers => closes month uppers lowers
  | p :: ps, lowers, uppers =>
    if monthOnly month p then .ok true
    else if dateOnly py month year p then .ok true
    else scan ps (lowers ++ (lower? py month year p).toList) (uppers ++ (upper? py p).toList)

end Clause

/-- The check of a `SELECT` with at most one `WHERE` clause. -/
def validate_period (py : Python) (today : Date) (question : String) (clause : Option Where) : Except String Unit := do
  validateYear py today question clause
  let some month := askedMonth py question | return
  let year ← askedYear py today question
  let accepted ← match clause with
    | none => pure false
    | some c => scan py month year c.predicates [] []
  if accepted then
    return
  throw s!"问题指定了 {month} 月，SQL 必须保留 month={month} 或该月 date_id 的上下界，不能只按年份查询。"

end incidentdesk.query
