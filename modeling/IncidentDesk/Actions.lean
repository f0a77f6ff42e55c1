import IncidentDesk.App
import IncidentDesk.GitHub
import Mathlib.Data.List.Sort

namespace incidentdesk

open sql (Tx.snapshot Tx.lockRow Tx.tryLockRow Tx.writeRow Tx.selectForUpdate Tx.require Tx.ofExcept
  Tx.refuse Tx.insert Tx.updateOne)

structure Draft where
  Version : Int
  Title : String
  Body : String

/-- `Hash(json.RawMessage(report))`; a missing report hashes as `null`. -/
def reportHash (a : App) (report : Option Json) : String := a.Hash (report.getD .null)

/-- The digest that an approval is bound to. -/
def actionDigest (a : App) (target title body evidence_hash : String) : String :=
  a.Hash (.arr [.str target, .str title, .str body, .str evidence_hash])

/-- Save a new version of an investigation's action. `aid` is the fresh
identifier of a first version; the marker is made from it once. -/
def draft (a : App) (now : Time) (u id : String) (b : Draft) (aid : String) : Tx Unit := do
  Tx.refuse
    (b.Title.utf8ByteSize < 3 ∨ b.Title.utf8ByteSize > 200 ∨ b.Body.utf8ByteSize < 3 ∨
      b.Body.utf8ByteSize > 20000)
    (E 400 "invalid_draft")
  let (snap, found) ← Tx.selectForUpdate (Key.investigations id)
  let i ← Tx.require found .noRows
  let s ← Tx.require (snap.lookup (Key.services i.service)) .noRows
  Tx.ofExcept (member (← Tx.snapshot) u i.team false)
  Tx.refuse (i.status ≠ .completed ∧ i.status ≠ .partial_) (E 409 "report_not_ready")
  Tx.refuse (i.source_version ≠ s.watermark) (E 409 "evidence_stale")
  let (_, existing) ← Tx.selectForUpdate (Key.actions id)
  Tx.refuse (existing.any fun row => row.state.dispatched) (E 409 "action_already_dispatched")
  let av := (existing.map (·.version)).getD 0
  Tx.refuse (b.Version ≠ av) (E 409 "version_conflict")
  let evidence_hash := reportHash a i.report
  let digest := actionDigest a s.repo b.Title b.Body evidence_hash
  match ← Tx.lockRow (Key.actions id) with
  | none =>
    let row : Action :=
      { id := aid, version := 1, state := .draft, target := s.repo, title := b.Title, body := b.Body,
        digest, evidence_hash, source_version := i.source_version, approved_by := none,
        approved_digest := none, approved_version := none, result := none,
        marker := "incidentdesk:" ++ aid, updated_at := now }
    Tx.insert (Key.actions id) row .uniqueViolation
    Tx.insert (Key.actions_id aid) id .uniqueViolation
  | some row =>
    -- the conflict clause keeps the row's target and marker
    Tx.writeRow (Key.actions id)
      { row with
        version := row.version + 1, state := .draft, title := b.Title, body := b.Body, digest
        evidence_hash, source_version := i.source_version, approved_by := none
        approved_digest := none, approved_version := none, updated_at := now }
  event id "draft_saved"
    (.obj [("version", .num (av + 1)), ("subject", .str u), ("digest", .str digest)])

/-- `update actions set f where id=...`. -/
def updateAction (aid : String) (f : Action → Action) : Tx Unit := do
  match (← Tx.snapshot).lookup (Key.actions_id aid) with
  | none => return ()
  | some id =>
    let _ ← Tx.updateOne (Key.actions id) (fun row => row.id = aid) fun _ row => f row

inductive Decision where
  | approve
  | reject
  | reconcile
deriving DecidableEq

def Decision.parse (decision : String) : Except Error Decision :=
  if decision = "approve" then .ok .approve
  else if decision = "reject" then .ok .reject
  else if decision = "reconcile" then .ok .reconcile
  else .error (E 400 "invalid_decision")

/-- Record the decision on one version of an action. -/
def record (now : Time) (u id : String) (act : Action) (decision : Decision) (approval : String) :
    Tx Unit := do
  let approved : Bool := decision = .approve
  let next : ActionState := if approved then .approved else .rejected
  Tx.insert (Key.approvals approval)
    { action := act.id, version := act.version, digest := act.digest
      evidence_hash := act.evidence_hash, subject := u
      decision := if approved then "approve" else "reject" }
    .uniqueViolation
  updateAction act.id fun row =>
    { row with
      state := next, approved_by := some u, approved_version := some row.version
      approved_digest := some row.digest, updated_at := now }
  event id (if approved then "approved" else "rejected")
    (.obj [("action", .str act.id), ("version", .num act.version), ("digest", .str act.digest),
      ("subject", .str u)])

/-- Approve, reject or reconcile the version of an action that the caller names.
`approval` is a fresh identifier. -/
def decide (now : Time) (u id : String) (Version : Int) (decision approval : String) : Tx Unit := do
  let decision ← Tx.ofExcept (Decision.parse decision)
  let snap ← Tx.snapshot
  let _ ← Tx.require (snap.lookup (Key.actions id)) .noRows
  let _ ← Tx.require (snap.lookup (Key.investigations id)) .noRows
  let act ← Tx.require (← Tx.lockRow (Key.actions id)) .noRows
  let i ← Tx.require (← Tx.lockRow (Key.investigations id)) .noRows
  let s ← Tx.require (snap.lookup (Key.services i.service)) .noRows
  Tx.ofExcept (member (← Tx.snapshot) u i.team true)
  Tx.refuse (act.version ≠ Version) (E 409 "version_conflict")
  if decision = .reconcile then
    Tx.refuse (act.state ≠ .unknown) (E 409 "not_unknown")
    updateAction act.id fun row => { row with updated_at := now - seconds 60 }
  else
    Tx.refuse (i.status = .cancelled ∨ act.source_version ≠ s.watermark ∨ act.target ≠ s.repo)
      (E 409 "approval_scope_stale")
    if decision = .approve ∧ (act.state = .approved ∨ act.state.dispatched) then
      return ()
    Tx.refuse (act.state ≠ .draft ∧ act.state ≠ .rejected) (E 409 "invalid_action_state")
    record now u id act decision approval

/-- The condition under which `actionStep` takes an action up. -/
def actionable (now : Time) (row : Action) : Bool :=
  row.state = .approved ||
    ((row.state = .executing || row.state = .unknown) && row.updated_at < now - seconds 15)

/-- The rows of `actions`, each with its investigation. -/
def actionRows (snap : Store) : List (String × Action) :=
  snap.entries.filterMap fun e =>
    match e with
    | ⟨.actions id, row⟩ => some (id, row)
    | _ => none

/-- The investigations whose actions a statement sees waiting, in the order of
`updated_at`. -/
def actionCandidates (now : Time) (snap : Store) : List String :=
  let visible := (actionRows snap).filter fun (id, row) =>
    actionable now row && (snap.lookup (Key.investigations id)).any fun i =>
      (snap.lookup (Key.services i.service)).isSome
  (visible.insertionSort fun e e' => e.2.updated_at ≤ e'.2.updated_at).map Prod.fst

/-- `for update of a,i skip locked limit 1`. -/
def actionFirst (now : Time) : List String → Tx (Option (String × Action × Investigation))
  | [] => return none
  | id :: ids => do
    let some (some act) ← Tx.tryLockRow (Key.actions id) | actionFirst now ids
    let some (some i) ← Tx.tryLockRow (Key.investigations id) | actionFirst now ids
    if actionable now act then return some (id, act, i) else actionFirst now ids

/-- Whether a membership check succeeds. -/
def isMember (snap : Store) (subject team : String) (approve : Bool) : Bool :=
  (member snap subject team approve).isOk

/-- What an approved action must still satisfy to be dispatched. -/
def dispatchable (snap : Store) (act : Action) (i : Investigation) (watermark : Nat) : Bool :=
  i.status ≠ .cancelled && act.source_version = watermark &&
    act.version = act.approved_version.getD 0 && act.digest = act.approved_digest.getD "" &&
    isMember snap (act.approved_by.getD "") i.team true && isMember snap i.subject i.team false

/-- The first transaction of `actionStep`: take an action up, and say what is to
be done at GitHub. -/
def actionBegin (now : Time) : Tx (Option actionRun) := do
  let snap ← Tx.snapshot
  let some (inv, act, i) ← actionFirst now (actionCandidates now snap) | return none
  let s ← Tx.require (snap.lookup (Key.services i.service)) .noRows
  let reconcile : Bool := act.state ≠ .approved
  if !reconcile ∧ !dispatchable (← Tx.snapshot) act i s.watermark then
    updateAction act.id fun row => { row with state := .invalidated, updated_at := now }
    event inv "approval_invalidated" (.obj [("action", .str act.id)])
    return none
  let configured ← Tx.require ((← Tx.snapshot).lookup (Key.services i.service)) .noRows
  Tx.refuse (!reconcile ∧ configured.repo ≠ act.target) (E 409 "target_changed")
  updateAction act.id fun row =>
    { row with state := if reconcile then .unknown else .executing, updated_at := now }
  event inv (if reconcile then "unknown" else "executing") (.obj [("action", .str act.id)])
  return some
    { ID := act.id, Investigation := inv, Target := act.target, Title := act.title, Body := act.body
      Marker := act.marker, Reconcile := reconcile }

/-- What `actionStep` does at GitHub. -/
def actionRun.remote (r : actionRun) : Remote := if r.Reconcile then reconcile r else issue r

/-- The state and the result that an attempt ends with. -/
def actionOutcome (r : actionRun) (result : Except String Json) : ActionState × Json :=
  match result with
  | .ok v => (.succeeded, v)
  | .error _ =>
    (.unknown,
      .obj [("message", .str "Outcome unknown; reconcile by marker. Automatic re-creation disabled."),
        ("marker", .str r.Marker)])

/-- The second transaction of `actionStep`: record the outcome. -/
def actionFinish (now : Time) (r : actionRun) (result : Except String Json) : Tx Unit := do
  let (state, result) := actionOutcome r result
  updateAction r.ID fun row => { row with state, result := some result, updated_at := now }
  event r.Investigation (if state = .succeeded then "action_succeeded" else "action_unknown")
    (.obj [("action", .str r.ID), ("result", result)])

end incidentdesk
