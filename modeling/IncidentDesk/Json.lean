import Mathlib.Data.List.AList

namespace incidentdesk

/-- A JSON document. Numbers are the integers the API reads and writes: issue
numbers, versions, sequence numbers and counters. -/
inductive Json where
  | null
  | bool (value : Bool)
  | num (value : Int)
  | str (value : String)
  | arr (items : List Json)
  | obj (fields : List (String × Json))
deriving Inhabited

namespace Json

/-- The value under a key of an object, and nothing for other documents. -/
def get? : Json → String → Option Json
  | obj fields, key => (fields.find? fun field => field.1 = key).map Prod.snd
  | _, _ => none

/-- Set one key of an object, as `m[key] = value` does on a decoded map. -/
def set (key : String) (value : Json) : Json → Json
  | obj fields => obj ((key, value) :: fields.filter fun field => field.1 ≠ key)
  | document => document

/-- The `-` operator of jsonb, which removes a key from an object. -/
def remove (key : String) : Json → Json
  | obj fields => obj (fields.filter fun field => field.1 ≠ key)
  | document => document

/-- The `v.(string)` type assertion. -/
def string? : Json → Option String
  | str value => some value
  | _ => none

/-- The `v.(float64)` type assertion followed by `int(n)`. -/
def number? : Json → Option Int
  | num value => some value
  | _ => none

/-- The `v.([]any)` type assertion, with its zero value. -/
def items : Json → List Json
  | arr items => items
  | _ => []

end Json

/-- The string under a key, empty when it is absent or of another type. -/
def str (m : Json) (k : String) : String := ((m.get? k).bind Json.string?).getD ""

@[simp] theorem str_obj_cons_self (k v : String) (fields : List (String × Json)) :
    str (.obj ((k, .str v) :: fields)) k = v := by
  simp [str, Json.get?, Json.string?]

theorem str_obj_cons_ne {k k' : String} (h : k' ≠ k) (v : Json) (fields : List (String × Json)) :
    str (.obj ((k', v) :: fields)) k = str (.obj fields) k := by
  simp [str, Json.get?, h]

@[simp] theorem str_obj_nil (k : String) : str (.obj []) k = "" := rfl

theorem get?_set_ne {k k' : String} (h : k' ≠ k) (v document : Json) :
    (Json.set k' v document).get? k = document.get? k := by
  cases document with
  | obj fields =>
    rw [Json.set, Json.get?, Json.get?, List.find?_cons_of_neg (by simpa using h), List.find?_filter]
    refine congrArg (Option.map Prod.snd) (congrArg (List.find? · fields) (funext fun field => ?_))
    by_cases hkey : field.1 = k <;> simp [hkey, h.symm]
  | _ => rfl

theorem get?_set_self (k : String) (v : Json) (fields : List (String × Json)) :
    (Json.set k v (.obj fields)).get? k = some v := by
  simp [Json.set, Json.get?]

theorem str_set_ne {k k' : String} (h : k' ≠ k) (v document : Json) :
    str (Json.set k' v document) k = str document k := by
  rw [str, get?_set_ne h, str]

theorem str_set_self (k v : String) (fields : List (String × Json)) :
    str (Json.set k (.str v) (.obj fields)) k = v := by
  rw [str, get?_set_self]
  rfl

end incidentdesk
