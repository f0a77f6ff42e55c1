import IncidentDesk.Sources
import Mathlib.Data.List.Sort

namespace incidentdesk

open sql (Tx.snapshot Tx.lockRow Tx.selectForUpdate Tx.require Tx.ofExcept Tx.refuse Tx.insert
  Tx.upsert Tx.updateOne)

/-- What `replay` answers. -/
structure Recording where
  report : Option Json
  manifest : Option Json
  events : List (Nat × Event)

/-- The events of an investigation. -/
def eventsOf (snap : Store) (id : String) : List (Nat × Event) :=
  snap.entries.filterMap fun e =>
    match e with
    | ⟨.events investigation seq, row⟩ => if investigation = id then some (seq, row) else none
    | _ => none

/-- A recording is refused when the first of `replay`'s two statements finds it
stale; the second one, which sees `snap'`, reads it. -/
def replay (snap snap' : Store) (id : String) : Except Error Recording :=
  match snap.lookup (Key.investigations id) with
  | none => .error .noRows
  | some i =>
    match snap.lookup (Key.services i.service) with
    | none => .error .noRows
    | some s =>
      if i.source_version ≠ s.watermark ∨ i.report.isNone then .error (E 410 "recording_unavailable")
      else
        match snap'.lookup (Key.investigations id) with
        | none => .error .noRows
        | some i =>
          let events := (eventsOf snap' id).insertionSort fun e e' => e.1 ≤ e'.1
          .ok { report := i.report, manifest := i.manifest, events }

/-- Remember a finding, as a candidate for review. -/
def memory (now : Time) (id content newID : String) : Tx Unit := do
  Tx.refuse (content.utf8ByteSize < 3 ∨ content.utf8ByteSize > 4000) (E 400 "invalid_memory")
  match (← Tx.snapshot).lookup (Key.investigations id) with
  | none => return ()
  | some i =>
    Tx.insert (Key.memories newID)
      { investigation := id, service := i.service, team := i.team, content, status := .candidate
        reviewer := none, source_version := i.source_version
        expires_at := now + seconds (30 * 24 * 3600) }
      .uniqueViolation

/-- The memories that a member of their teams may read, of one service where it is named. -/
def memories (now : Time) (snap : Store) (u service : String) : List (String × Memory) :=
  snap.entries.filterMap fun e =>
    match e with
    | ⟨.memories id, m⟩ =>
      if ((snap.lookup (Key.members u m.team)).join.isSome ∧ m.status = .confirmed ∧ now < m.expires_at ∧
          (snap.lookup (Key.services m.service)).any fun s => m.source_version = s.watermark) ∧
          (service = "" ∨ m.service = service) then
        some (id, m)
      else none
    | _ => none

/-- The decisions on a memory and the status each of them gives it. -/
def memoryDecision (decision : String) : Option MemoryStatus :=
  if decision = "confirm" then some .confirmed
  else if decision = "revoke" then some .revoked
  else none

/-- Confirm a memory, or revoke it together with everything that may rest on it. -/
def reviewMemory (now : Time) (u id decision : String) : Tx Unit := do
  let state ← Tx.require (memoryDecision decision) (E 400 "invalid_decision")
  let (snap, found) ← Tx.selectForUpdate (Key.memories id)
  let m ← Tx.require found .noRows
  let s ← Tx.require (snap.lookup (Key.services m.service)) .noRows
  Tx.ofExcept (member (← Tx.snapshot) u m.team true)
  Tx.refuse (state = .confirmed ∧ (m.source_version ≠ s.watermark ∨ m.expires_at < now))
    (E 409 "memory_stale")
  let _ ← Tx.updateOne (Key.memories id) (fun _ => true)
    fun _ row => { row with status := state, reviewer := some u }
  if state = .revoked then
    let m ← Tx.require ((← Tx.snapshot).lookup (Key.memories id)) .noRows
    invalidateSource m.service false

/-- The categories of a badcase. -/
def badcaseCategories : List String :=
  ["mapping", "retrieval", "conflict", "inference", "authorization", "tool", "recovery"]

/-- Copy an investigation's manifest into a badcase. -/
def recordBadcase (u id category label newID : String) : Tx Unit := do
  match (← Tx.snapshot).lookup (Key.investigations id) with
  | none => return ()
  | some i =>
    Tx.insert (Key.badcases newID)
      { investigation := id, category, label, reviewer := if label ≠ "" then u else ""
        status := if label ≠ "" then "reviewed" else "candidate", manifest := i.manifest }
      .uniqueViolation

/-- Report an investigation as a badcase; a caller who labels it at once reviews
it. -/
def badcase (u id category label newID : String) : Tx Unit := do
  Tx.refuse (category ∉ badcaseCategories ∨ label.utf8ByteSize > 4000) (E 400 "invalid_category")
  let i ← Tx.require ((← Tx.snapshot).lookup (Key.investigations id)) .noRows
  if label ≠ "" then
    Tx.ofExcept (member (← Tx.snapshot) u i.team true)
  recordBadcase u id category label newID

def reviewBadcase (u id label : String) : Tx Unit := do
  Tx.refuse (label.utf8ByteSize < 3 ∨ label.utf8ByteSize > 4000) (E 400 "invalid_label")
  let (snap, found) ← Tx.selectForUpdate (Key.badcases id)
  let row ← Tx.require found .noRows
  let i ← Tx.require (snap.lookup (Key.investigations row.investigation)) .noRows
  Tx.ofExcept (member (← Tx.snapshot) u i.team true)
  let _ ← Tx.updateOne (Key.badcases id) (fun _ => true)
    fun _ row => { row with label, reviewer := u, status := "reviewed" }

/-- The roles that an administrator may give, with none for a removal. -/
def memberRole (role : String) : Except Error (Option Role) :=
  if role = "" then .ok none
  else if role = "approver" then .ok (some .approver)
  else if role = "investigator" then .ok (some .investigator)
  else .error (E 400 "invalid_role")

def setMember (subject team role : String) : Tx Unit := do
  Tx.refuse (subject = "" ∨ (team ≠ "orders" ∧ team ≠ "payments")) (E 400 "invalid_member")
  match ← Tx.ofExcept (memberRole role) with
  | none =>
    let _ ← Tx.updateOne (Key.members subject team) (fun row => row.isSome) fun _ _ => none
  | some role =>
    let _ ← Tx.upsert (Key.members subject team) (some role) fun _ => some role

end incidentdesk
