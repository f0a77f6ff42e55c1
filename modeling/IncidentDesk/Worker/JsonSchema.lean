import IncidentDesk.Worker.Document

namespace incidentdesk.worker.json_schema

/-- The types of JSON Schema. -/
def ofType (t : String) : Doc → Prop
  | .str _ => t = "string"
  | .list _ => t = "array"
  | .dict _ => t = "object"
  | .other .null => t = "null"
  | .other (.bool _) => t = "boolean"
  | .other (.int _) => t = "integer" ∨ t = "number"
  | .other (.float _) => t = "number"

/-- The bound under a keyword. -/
def limit? (k : String) (schema : Doc) : Option Nat :=
  match schema.get? k with
  | some (.other (.int n)) => some n.toNat
  | _ => none

/-- The documents that a schema describes, for the keywords that typed models are
written with. -/
inductive Accepts (root : Doc) : Doc → Doc → Prop
  | ref {schema target v : Doc} {name : String} (href : schema.get? "$ref" = some (.str ("#/$defs/" ++ name)))
      (htarget : (root.get? "$defs").bind (·.get? name) = some target) (h : Accepts root target v) :
      Accepts root schema v
  | value {schema v : Doc} (href : schema.get? "$ref" = none)
      (htype : ∀ t, schema.get? "type" = some (.str t) → ofType t v)
      (hlength : ∀ text n, v = .str text → limit? "maxLength" schema = some n → text.length ≤ n)
      (henum : ∀ values, schema.get? "enum" = some (.list values) → v ∈ values)
      (hmin : ∀ items n, v = .list items → limit? "minItems" schema = some n → n ≤ items.length)
      (hmax : ∀ items n, v = .list items → limit? "maxItems" schema = some n → items.length ≤ n)
      (hitems : ∀ items each, v = .list items → schema.get? "items" = some each → ∀ item ∈ items, Accepts root each item)
      (hrequired : ∀ entries names, v = .dict entries → schema.get? "required" = some (.strings names) →
        ∀ name ∈ names, (entries.lookup name).isSome)
      (hadditional : ∀ entries, v = .dict entries → schema.get? "additionalProperties" = some (.bool false) →
        ∀ e ∈ entries, ((schema.get? "properties").bind (·.get? e.1)).isSome)
      (hproperties : ∀ entries each, v = .dict entries →
        ∀ e ∈ entries, (schema.get? "properties").bind (·.get? e.1) = some each → Accepts root each e.2) :
      Accepts root schema v

section Keywords

variable {root schema each v item : Doc} {k : String} {entries : List (String × Doc)} {items values : List Doc} {n : Nat}

theorem Accepts.property (h : Accepts root schema (.dict entries)) (href : schema.get? "$ref" = none)
    (hv : (k, v) ∈ entries) (heach : (schema.get? "properties").bind (·.get? k) = some each) : Accepts root each v := by
  cases h with
  | ref href' => cases href.symm.trans href'
  | value _ _ _ _ _ _ _ _ _ hproperties => exact hproperties entries each rfl (k, v) hv heach

theorem Accepts.element (h : Accepts root schema (.list items)) (href : schema.get? "$ref" = none)
    (heach : schema.get? "items" = some each) (hitem : item ∈ items) : Accepts root each item := by
  cases h with
  | ref href' => cases href.symm.trans href'
  | value _ _ _ _ _ _ hitems _ _ _ => exact hitems items each rfl heach item hitem

theorem Accepts.length (h : Accepts root schema (.list items)) (href : schema.get? "$ref" = none)
    (hn : limit? "maxItems" schema = some n) : items.length ≤ n := by
  cases h with
  | ref href' => cases href.symm.trans href'
  | value _ _ _ _ _ hmax _ _ _ _ => exact hmax items n rfl hn

theorem Accepts.enum (h : Accepts root schema v) (href : schema.get? "$ref" = none)
    (hvalues : schema.get? "enum" = some (.list values)) : v ∈ values := by
  cases h with
  | ref href' => cases href.symm.trans href'
  | value _ _ _ henum _ _ _ _ _ _ => exact henum values hvalues

theorem Accepts.target (name : String) (h : Accepts root schema v)
    (href : schema.get? "$ref" = some (.str ("#/$defs/" ++ name)))
    (htarget : (root.get? "$defs").bind (·.get? name) = some each) : Accepts root each v := by
  cases h with
  | @ref _ target _ name' href' htarget' h =>
    have hname : name = name' := by
      have heq := href.symm.trans href'
      simpa using heq
    rw [hname, htarget', Option.some.injEq] at htarget
    exact htarget ▸ h
  | value href' => cases href'.symm.trans href

end Keywords

end incidentdesk.worker.json_schema
