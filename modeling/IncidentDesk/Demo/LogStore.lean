import Mathlib.Algebra.GroupWithZero.Nat
import Mathlib.Data.Prod.Lex
import Mathlib.Data.String.Basic
import IncidentDesk.Base64
import IncidentDesk.JsonText
import IncidentDesk.Pagination
import IncidentDesk.Worker.Natural

namespace incidentdesk.log_store

open pagination (sorted unread)

def ERROR_LEVELS : List String :=
  ["ERROR", "FATAL", "SEVERE", "FAILURE", "WARN", "WARNING", "CRITICAL", "ALERT", "EMERG"]

/-- The checks of `query` on its specification. -/
def validate (spec : worker.LogQuery) : Except String Unit := do
  if spec.mode ∉ ["anomalies", "search", "all"] ∨ spec.terms.length > 6 ∨
      spec.terms.any (fun t => ¬(1 ≤ t.length ∧ t.length ≤ 100)) then
    throw "invalid_log_query"
  if spec.levels.length > 12 ∨ spec.levels.any (fun v => v ∉ ERROR_LEVELS ++ ["INFO", "DEBUG", "TRACE", "UNKNOWN"]) then
    throw "invalid_levels"

/-- The services and the window that a caller may read. -/
structure Scope where
  service : String
  start : String
  stop : String

/-- A row of the table `logs`. -/
structure Row where
  id : Int
  event_time : String
  service : String
  payload : List (String × Json)

/-- The database, with the rows in the order of an unordered scan and the rows
that full-text search finds for an expression. -/
structure Store where
  rows : List Row
  unique : (rows.map Row.id).Nodup
  fts : String → Except String (List Int)

/-- The functions of Python's libraries that a search calls: the digits of
Unicode, the time of a scope in UTC, and the text of bytes that are not all
printable ASCII. -/
structure Library where
  py : Python
  canonical : String → Except String String
  text : List Nat → Option (List Char)

/-- Python on ASCII text, for scopes that are in UTC already. -/
def Library.ascii : Library where
  py := .ascii
  canonical := .ok
  text := fun _ => none

/-- A value of a document as SQL has it. -/
def sqlText : Json → String
  | .str text => text
  | .num n => String.ofList (Json.digits n)
  | .bool value => if value then "1" else "0"
  | value => String.ofList (value.chars .compact)

def LEVEL (row : Row) : String :=
  String.toUpper <|
    match (Json.obj row.payload).get? "level" with
    | none | some .null => "UNKNOWN"
    | some level => sqlText level

/-- `if value:` of a decoded document. -/
def truthy : Json → Bool
  | .null => false
  | .bool value => value
  | .num n => n ≠ 0
  | .str text => text ≠ ""
  | .arr items => !items.isEmpty
  | .obj fields => !fields.isEmpty

/-- The order of the keyset. -/
def key (row : Row) : String ×ₗ Int := toLex (row.event_time, row.id)

def catalog_provenance (store : Store) (service : String) : String :=
  match (sorted key (store.rows.filter fun row => row.service = service)).head? with
  | some first => if ((Json.obj first.payload).get? "dataset").any truthy then "public-dataset" else "local-demo"
  | none => "local-demo"

/-- The full-text expression for some terms. -/
def expression (terms : List String) : String :=
  " OR ".intercalate (terms.map fun t =>
    String.ofList ('"' :: (t.toList.flatMap fun c => if c = '"' then ['"', '"'] else [c]) ++ ['"']))

/-- The rows that satisfy service, window and terms. -/
def matching (store : Store) (service start stop : String) (terms : List String) : Except String (List Row) := do
  let inWindow (row : Row) : Bool := row.service = service && start ≤ row.event_time && row.event_time ≤ stop
  if terms = [] then return store.rows.filter inWindow
  else
    let found ← store.fts (expression terms)
    return store.rows.filter fun row => inWindow row && row.id ∈ found

/-- The number of rows of each level. -/
def histogram (rows : List Row) : List (String × Nat) :=
  (rows.map LEVEL).dedup.map fun level => (level, rows.countP fun row => LEVEL row = level)

def selected_levels (spec : worker.LogQuery) : List String :=
  if spec.levels ≠ [] then spec.levels
  else if spec.mode = "anomalies" ∧ spec.terms = [] then ERROR_LEVELS
  else []

def matched (spec : worker.LogQuery) (rows : List Row) : Nat :=
  if selected_levels spec ≠ [] then
    ((selected_levels spec).map fun level => ((histogram rows).lookup level).getD 0).sum
  else ((histogram rows).map Prod.snd).sum

/-- Without any anomaly, the default search falls back to every level. -/
def fallback (spec : worker.LogQuery) (rows : List Row) : Bool :=
  spec.mode = "anomalies" && spec.levels = [] && matched spec rows = 0

/-- The levels that a search walks, the errors first. -/
def partitions (spec : worker.LogQuery) (rows : List Row) : List String :=
  let levels := (histogram rows).map Prod.fst
  if fallback spec rows then levels.insertionSort (· ≤ ·)
  else if selected_levels spec ≠ [] then selected_levels spec
  else levels.insertionSort fun x y => toLex (Decidable.decide (x ∉ ERROR_LEVELS), x) ≤ toLex (Decidable.decide (y ∉ ERROR_LEVELS), y)

/-- The rows that satisfy the selected levels too. -/
def selection (spec : worker.LogQuery) (rows : List Row) : List Row :=
  if fallback spec rows ∨ selected_levels spec = [] then rows
  else rows.filter fun row => LEVEL row ∈ selected_levels spec

/-- `json.loads` of some bytes. -/
def Library.loads (lib : Library) (bytes : List Nat) : Option Json :=
  (if bytes.all fun b => 31 < b && b < 127 then some (bytes.map Char.ofNat) else lib.text bytes).bind Json.loads

/-- The positions that a cursor stands for. -/
def positions (lib : Library) (cursor : Option String) : Except String (List (String × Json)) :=
  if cursor.getD "" = "" then return []
  else if (cursor.getD "").length > 4096 then throw "invalid_cursor"
  else
    match (base64.decode (cursor.getD "").toList).bind lib.loads with
    | some (.obj fields) => return fields
    | _ => throw "invalid_cursor"

/-- The cursor for some positions. -/
def encode (positions : List (String × Json)) : String :=
  String.ofList (base64.encode (((Json.obj positions).dumps.toList).map Char.toNat))

/-- An integer, as `isinstance(n, int)` has it. -/
def int? : Json → Option Int
  | .num n => some n
  | .bool value => some (if value then 1 else 0)
  | _ => none

/-- The rows that the first page has shown out of order. -/
def featured (positions : List (String × Json)) : Except String (List Int) :=
  match (Json.obj positions).get? "_featured" with
  | none => return []
  | some (.arr items) =>
    match items.mapM int? with
    | some ids => if items.length > 50 then throw "invalid_cursor" else return ids
    | none => throw "invalid_cursor"
  | some _ => throw "invalid_cursor"

/-- Where a level is to be continued. -/
def position (start : String) (positions : List (String × Json)) (level : String) : Except String (String ×ₗ Int) :=
  match (Json.obj positions).get? level with
  | none => return toLex (start, 0)
  | some (.arr [.str stamp, n]) =>
    match int? n with
    | some n => return toLex (stamp, n)
    | none => throw "invalid_cursor"
  | some _ => throw "invalid_cursor"

/-- `message.split(" ", n)[-1]`. -/
def afterSpaces : Nat → List Char → List Char
  | 0, text => text
  | n + 1, text =>
    match text.dropWhile (· ≠ ' ') with
    | _ :: rest => afterSpaces n rest
    | [] => text

open regex.Regex worker.natural in
/-- `0x[0-9a-fA-F]+|blk_-?\d+|\d+`. -/
def volatile (py : Python) : regex.Regex :=
  anyOf [seq (literal "0x") (plus (char fun c => c.isDigit || ('a' ≤ c && c ≤ 'f') || ('A' ≤ c && c ≤ 'F'))),
    blockId py, plus (digit py)]

/-- The pattern of a message, without what differs from one to the next. -/
def signature (lib : Library) (payload : List (String × Json)) : Except String (List Char) := do
  let message ←
    match (Json.obj payload).get? "dataset", ((Json.obj payload).get? "message").getD (.str "") with
    | some (.str "BGL"), .str message => pure (afterSpaces 8 message.toList)
    | some (.str "HDFS"), .str message => pure (afterSpaces 5 message.toList)
    | _, .str message => pure message.toList
    | some (.str "BGL"), _ | some (.str "HDFS"), _ => throw "AttributeError"
    | _, _ => throw "TypeError"
  return (regex.sub (volatile lib.py) (fun _ _ => ['#']) message).take 500

/-- Count a row with its pattern, which keeps the first row that it has had. -/
def group (groups : List (List Char × Nat × Row)) (signature : List Char) (row : Row) : List (List Char × Nat × Row) :=
  if groups.any fun g => g.1 = signature then
    groups.map fun g => if g.1 = signature then (g.1, g.2.1 + 1, g.2.2) else g
  else groups ++ [(signature, 1, row)]

/-- The first rows of the rarest patterns. -/
def rare (lib : Library) (limit : Nat) (rows : List Row) : Except String (List Row) := do
  let groups ← rows.foldlM (fun groups row => return group groups (← signature lib row.payload) row) []
  return ((sorted (fun g : Nat × Row => toLex (g.1, g.2.id)) (groups.map Prod.snd)).take (max 1 (limit / 2))).map
    Prod.snd

/-- What the loop over the levels has gathered. -/
structure Progress where
  records : List Row
  next_positions : List (String × Json)
  has_more : Bool

/-- The rows of a level that lie behind a position. -/
def unreadOf (rows : List Row) (level : String) (pos : String ×ₗ Int) : List Row :=
  unread key (rows.filter fun row => LEVEL row = level) pos

/-- One level of the loop. -/
def readLevel (start : String) (rows : List Row) (positions : List (String × Json)) (featured : List Int)
    (limit quota : Nat) (p : Progress) (level : String) : Except String Progress := do
  let pos ← position start positions level
  let count := min quota (limit - p.records.length)
  if count = 0 then return { p with has_more := true }
  else
    let found := (unreadOf rows level pos).take (count + 1)
    return {
      records := p.records ++ (found.take count).filter fun row => row.id ∉ featured
      next_positions := (found.take count).foldl
        (fun next row => Json.put next (level, .arr [.str row.event_time, .num row.id])) p.next_positions
      has_more := p.has_more || count < found.length }

structure Record where
  id : String
  event_time : String
  content : Json
  locator : String
  version : String
  deleted : Bool

def record (service : String) (row : Row) : Record where
  id := String.ofList (Json.digits row.id)
  event_time := row.event_time
  content := .obj row.payload
  locator := "logs://" ++ service ++ "/" ++ String.ofList (Json.digits row.id)
  version := String.ofList (Json.digits row.id)
  deleted := false

structure Summary where
  total_in_query : Nat
  matched : Nat
  levels : List (String × Nat)
  selection : String
  template_scan : Nat
  terms : List String
  mode : String
  labels_used : Bool

structure Page where
  records : List Record
  next_cursor : Option String
  summary : Summary
  provenance : String

/-- The representatives of rare patterns are looked for on the first page only. -/
def scans (spec : worker.LogQuery) (rows : List Row) (cursor : Option String) : Bool :=
  cursor.getD "" = "" && spec.mode = "anomalies" && spec.terms = [] &&
    0 < matched spec rows && matched spec rows ≤ 10000

/-- The levels of a search that have rows. -/
def eligible (spec : worker.LogQuery) (rows : List Row) : List String :=
  (partitions spec rows).filter fun level => ((histogram rows).lookup level).getD 0 ≠ 0

/-- A page of the rows that satisfy service, window and terms. -/
def walk (lib : Library) (start : String) (spec : worker.LogQuery) (rows : List Row) (limit : Nat)
    (cursor : Option String) : Except String Progress := do
  let positions ← positions lib cursor
  let featured ← featured positions
  let records ← if scans spec rows cursor then rare lib limit (selection spec rows) else pure []
  let featured := if scans spec rows cursor then records.map Row.id else featured
  let next_positions :=
    if scans spec rows cursor then Json.put positions ("_featured", .arr (featured.map .num)) else positions
  let levels := eligible spec rows
  let quota := max 1 ((limit - records.length) / max 1 levels.length)
  levels.foldlM (readLevel start (selection spec rows) positions featured limit quota)
    { records, next_positions, has_more := false }

/-- `limit`, as a search uses it. -/
def clamp (limit : Int) : Nat := (max 1 (min 100 limit)).toNat

def pageOf (store : Store) (scope : Scope) (spec : worker.LogQuery) (rows : List Row) (cursor : Option String)
    (progress : Progress) : Page where
  records := progress.records.map (record scope.service)
  next_cursor := if progress.has_more then some (encode progress.next_positions) else none
  summary := {
    total_in_query := ((histogram rows).map Prod.snd).sum
    matched := matched spec rows
    levels := histogram rows
    selection := "rare-patterns-and-severity-keyset"
    template_scan := if scans spec rows cursor then (selection spec rows).length else 0
    terms := spec.terms
    mode := spec.mode
    labels_used := false }
  provenance := catalog_provenance store scope.service

def query (lib : Library) (store : Store) (scope : Scope) (spec : worker.LogQuery) (limit : Int)
    (cursor : Option String) : Except String Page := do
  validate spec
  let start ← lib.canonical scope.start
  let stop ← lib.canonical scope.stop
  let rows ← matching store scope.service start stop spec.terms
  let progress ← walk lib start spec rows (clamp limit) cursor
  return pageOf store scope spec rows cursor progress

end incidentdesk.log_store
