import IncidentDesk.App

namespace incidentdesk

open sql (Tx.require Tx.refuse Tx.insert Tx.insertEach Tx.updateOne)

/-- Whether an investigation belongs to a service, as the `in (select id from
investigations where service=...)` subqueries ask. -/
def ofService (snap : Store) (service id : String) : Bool :=
  (snap.lookup (Key.investigations id)).any fun i => i.service = service

/-- Remove what was derived from a deleted source. -/
def removeContent (service : String) : Tx Unit := do
  let _ ← updateInvestigations (fun _ _ row => row.service = service)
    fun _ _ row => { row with report := none, manifest := none }
  let _ ← updateActions (fun snap id _ => ofService snap service id) fun row =>
    { row with body := "[source content removed]", result := row.result.map (Json.remove "body") }
  let _ ← updateEvents (fun snap id => ofService snap service id) fun row =>
    { row with payload := .obj [("content_removed", .bool true)] }
  let _ ← updateMemories (fun row => row.service = service) fun row =>
    { row with content := "", status := .revoked }
  let _ ← updateBadcases (fun snap row => ofService snap service row.investigation) fun row =>
    { row with manifest := none }

/-- The notification of one changed investigation. -/
def sourceInvalidated (remove : Bool) (watermark : Nat) : Sigma Row → Option (Sigma Row)
  | ⟨.investigations id, row⟩ =>
    let payload := .obj [("content_removed", .bool remove), ("watermark", .num watermark)]
    some ⟨.events id row.seq, { kind := "source_invalidated", payload }⟩
  | _ => none

/-- Move a service to a new watermark, and close what rests on the old one. -/
def moveWatermark (service kind : String) : Tx Nat := do
  let updated ← Tx.updateOne (Key.services service) (fun _ => true)
    fun _ row => { row with watermark := row.watermark + 1 }
  let s ← Tx.require updated .noRows
  Tx.insert (Key.source_changes service s.watermark) kind .uniqueViolation
  let _ ← updateActions (fun snap id row => ofService snap service id && row.state.undecided)
    fun row => { row with state := .invalidated }
  let _ ← updateMemories (fun row => row.service = service && row.status ≠ .revoked)
    fun row => { row with status := .expired }
  return s.watermark

/-- Tell the workbenches that are already open: hiding the content on the next
read is not enough. -/
def notifyWorkbenches (service : String) (remove : Bool) (watermark : Nat) : Tx Unit := do
  let changed ← updateInvestigations (fun _ _ row => row.service = service)
    fun _ _ row => { row with seq := row.seq + 1 }
  Tx.insertEach .uniqueViolation (changed.filterMap (sourceInvalidated remove watermark))

def invalidateSource (service : String) (remove : Bool) : Tx Unit := do
  let watermark ← moveWatermark service (if remove then "deleted" else "modified")
  if remove then
    removeContent service
  notifyWorkbenches service remove watermark

/-- The character class of an owner or a repository name. -/
def repoChar (c : Char) : Bool := c.isAlphanum || c = '_' || c = '.' || c = '-'

/-- `^[A-Za-z0-9_.-]+/[A-Za-z0-9_.-]+$`. -/
def validRepo (repo : String) : Bool :=
  match repo.toList.span (· ≠ '/') with
  | (owner, '/' :: name) => owner ≠ [] && name ≠ [] && owner.all repoChar && name.all repoChar
  | _ => false

def configureService (service repo : String) (enabled : Bool) : Tx Unit := do
  Tx.refuse (¬ validRepo repo) (E 400 "invalid_repository")
  let _ ← Tx.updateOne (Key.services service) (fun _ => true) fun _ row => { row with repo, enabled }
  invalidateSource service false

end incidentdesk
