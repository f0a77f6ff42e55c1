import IncidentDesk.Dict
import IncidentDesk.JsonText
import IncidentDesk.Worker.Redaction

namespace incidentdesk.worker

/-- A number, a boolean or null. A floating-point number is kept as `json.dumps`
writes it. -/
inductive Scalar where
  | null
  | bool (value : Bool)
  | int (value : Int)
  | float (text : String)
deriving DecidableEq

/-- A value as the worker decodes it from JSON text. -/
abbrev Doc := Value Scalar

namespace Value

def null : Doc := .other .null

def bool (value : Bool) : Doc := .other (.bool value)

def int (value : Int) : Doc := .other (.int value)

def strings (texts : List String) : Doc := .list (texts.map Value.str)

end Value

namespace Doc

/-- `json.dumps(..., ensure_ascii=False)`. -/
def unicode : Json.Format := { ascii := false, comma := [',', ' '], colon := [':', ' '] }

def scalarChars : Scalar → List Char
  | .null => ['n', 'u', 'l', 'l']
  | .bool true => ['t', 'r', 'u', 'e']
  | .bool false => ['f', 'a', 'l', 's', 'e']
  | .int n => Json.digits n
  | .float text => text.toList

/-- The text of a value. -/
def chars (fmt : Json.Format) : Doc → List Char
  | .str text => Json.quoted fmt.ascii text
  | .list items => '[' :: (fmt.comma.intercalate (itemTexts items) ++ [']'])
  | .dict entries => '{' :: (fmt.comma.intercalate (entryTexts entries) ++ ['}'])
  | .other value => scalarChars value
where
  itemTexts : List Doc → List (List Char)
    | [] => []
    | item :: items => chars fmt item :: itemTexts items
  entryTexts : List (String × Doc) → List (List Char)
    | [] => []
    | (k, v) :: entries => (Json.quoted fmt.ascii k ++ fmt.colon ++ chars fmt v) :: entryTexts entries

def dumps (fmt : Json.Format) (v : Doc) : String := String.ofList (v.chars fmt)

/-- `len(text.encode())`. -/
def bytes (text : String) : Nat := text.utf8ByteSize

/-- `v[k] = value`. -/
def set (k : String) (value : Doc) : Doc → Doc
  | .dict entries => .dict (dict.put entries k value)
  | v => v

/-- A change of `v[k]`. -/
def modify (k : String) (f : Doc → Doc) (v : Doc) : Doc := ((v.get? k).map fun value => set k (f value) v).getD v

/-- `{**v, **more}`. -/
def update (entries more : List (String × Doc)) : List (String × Doc) := more.foldl (fun d e => dict.put d e.1 e.2) entries

end Doc

end incidentdesk.worker
