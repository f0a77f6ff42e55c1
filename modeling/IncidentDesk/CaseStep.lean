import IncidentDesk.Case

namespace incidentdesk

/-- The transactions of the system: those of the requests, and the two of
`actionStep`. -/
inductive Transaction where
  | request (r : Request)
  | begin
  | finish (r : actionRun) (result : Except String Json)

def Transaction.body (a : App) (now : Time) : Transaction → Tx Unit
  | request r => r.body a now
  | begin => discard (actionBegin now)
  | finish r result => actionFinish now r result

/-- The rows after `claim` has given up the exhausted tasks. -/
def sweptStore (now : Time) (σ : Store) : Store :=
  sql.Store.updateRows
    (fun key row => match key, row with | .jobs _, row => exhausted now row | _, _ => false)
    (fun key row =>
      match key, row with
      | .jobs _, row => { row with state := .failed, last_error := some "retry_limit" }
      | _, row => row)
    (sql.Store.updateRows
      (fun key row =>
        match key, row with
        | .investigations id, _ => (σ.lookup (Key.jobs id)).any fun job => exhausted now job
        | _, _ => false)
      (fun key row =>
        match key, row with
        | .investigations _, row => { row with status := .failed }
        | _, row => row)
      σ)

/-- The first of some tasks that can be locked and is claimable. -/
def claimChoice (now : Time) (skip : Key → Bool) (σ : Store) (ids : List String) :
    Option (String × Investigation) :=
  ids.findSome? fun id =>
    if skip (Key.jobs id) || skip (Key.investigations id) then none
    else
      (σ.lookup (Key.jobs id)).bind fun job =>
        ((σ.lookup (Key.investigations id)).filter (claimable now job)).map fun i => (id, i)

/-- The task that `claim` takes, if any. -/
def claimTarget (a : App) (now : Time) (skip : Key → Bool) (σ : Store) :
    Option (String × Investigation) :=
  let σ := sweptStore now σ
  if activeJobs now σ ≥ a.MaxActive then none else claimChoice now skip σ (claimCandidates now σ)

/-- What the lease fence requires of the task that a callback names. -/
structure Fenced (now : Time) (b : Callback) (c : Case) : Prop where
  owner : c.job.owner = some b.Owner
  generation : (c.job.generation : Int) = b.Generation
  running : c.job.state = .running
  live : (c.job.lease_until.any fun lease => now < lease) = true

/-- The requests that move a service to a new watermark; `remove` also deletes
what was derived from it. -/
inductive ChangesSource : Request → (remove : Bool) → Prop
  | invalidateSource {service remove} : ChangesSource (.invalidateSource service remove) remove
  | configureService {service repo enabled} :
      ChangesSource (.configureService service repo enabled) false
  | reviewMemory {u id decision} : ChangesSource (.reviewMemory u id decision) false

/-- An action, invalidated if it is in one of some states. -/
def Action.closeIf (p : ActionState → Bool) (row : Action) : Action :=
  if p row.state then { row with state := .invalidated } else row

theorem Action.closeIf_def (p : ActionState → Bool) :
    Action.closeIf p = fun row => if p row.state then { row with state := .invalidated } else row := rfl

/-- An action without what it took from a source. -/
def Action.removeContent (row : Action) : Action :=
  { row with body := "[source content removed]", result := row.result.map (Json.remove "body") }

theorem Action.removeContent_def : Action.removeContent = fun row =>
    { row with
      body := "[source content removed]", result := row.result.map (Json.remove "body") } := rfl

/-- An action after its sources have changed. -/
def Action.sourceChanged (remove : Bool) (row : Action) : Action :=
  if remove then (row.closeIf ActionState.undecided).removeContent
  else row.closeIf ActionState.undecided

/-- An investigation after its sources have changed. -/
def Investigation.sourceChanged (remove : Bool) (i : Investigation) : Investigation :=
  if remove then { i with report := none, manifest := none, seq := i.seq + 1 }
  else { i with seq := i.seq + 1 }

/-- The first version of an action. -/
def newAction (a : App) (now : Time) (c : Case) (b : Draft) (aid : String) : Action :=
  { id := aid, version := 1, state := .draft, target := c.service.repo, title := b.Title
    body := b.Body, evidence_hash := reportHash a c.investigation.report
    digest := actionDigest a c.service.repo b.Title b.Body (reportHash a c.investigation.report)
    source_version := c.investigation.source_version, approved_by := none, approved_digest := none
    approved_version := none, result := none, marker := "incidentdesk:" ++ aid, updated_at := now }

/-- The next version of an action. -/
def Action.redrafted (a : App) (now : Time) (c : Case) (b : Draft) (row : Action) : Action :=
  { row with
    version := row.version + 1, state := .draft, title := b.Title, body := b.Body
    digest := actionDigest a c.service.repo b.Title b.Body (reportHash a c.investigation.report)
    evidence_hash := reportHash a c.investigation.report
    source_version := c.investigation.source_version, approved_by := none, approved_digest := none
    approved_version := none, updated_at := now }

/-- Everything that one transaction can do to one case. `σ` and `σ'` are the rows
before and after it. -/
inductive CaseStep (a : App) (now : Time) (skip : Key → Bool) (σ σ' : Store) (id : String) :
    Transaction → Option Case → Option Case → Prop
  | unchanged {txn x} : CaseStep a now skip σ σ' id txn x x
  | created {u b requestHash idem requestID service query}
      (hservice : σ.lookup (Key.services b.Service) = some service)
      (hmember : isMember σ u service.team false) (hquota : openInvestigations σ service.team < 200) :
      CaseStep a now skip σ σ' id (.request (.createTask u b requestHash idem id requestID)) none
        (some
          { investigation := { newInvestigation u b requestHash idem service query with seq := 1 }
            job := newJob now, service, action := none })
  | cancelled {c} :
      CaseStep a now skip σ σ' id (.request (.cancel id)) (some c)
        (some
          { c with
            investigation :=
              { c.investigation with status := .cancelled, seq := c.investigation.seq + 1 }
            job := { c.job with state := .cancelled, lease_until := none }
            action := c.action.map (Action.closeIf ActionState.undecided) })
  | resumed {c information} (hsize : information.utf8ByteSize ≤ 4000)
      (hstatus : c.investigation.status.resumable = true) :
      CaseStep a now skip σ σ' id (.request (.resume id information)) (some c)
        (some
          { c with
            investigation :=
              { c.investigation with
                status := .queued, symptom := c.investigation.symptom ++ "\n" ++ information
                source_version := c.service.watermark, seq := c.investigation.seq + 1 }
            job :=
              { c.job with
                state := .queued, available_at := now, attempts := 0, last_callback := none
                result_hash := none }
            action := c.action.map (Action.closeIf fun state => !state.dispatched) })
  | swept {c owner} (hexhausted : exhausted now c.job = true) :
      CaseStep a now skip σ σ' id (.request (.claim owner)) (some c)
        (some
          { c with
            investigation := { c.investigation with status := .failed }
            job := { c.job with state := .failed, last_error := some "retry_limit" } })
  | revoked {c owner} (htarget : claimTarget a now skip σ = some (id, c.investigation))
      (hclaimable : claimable now c.job c.investigation = true) :
      CaseStep a now skip σ σ' id (.request (.claim owner)) (some c)
        (some
          { c with
            investigation := { c.investigation with status := .failed }
            job := { c.job with state := .failed, last_error := some "permission_revoked" } })
  | claimed {c owner} (hsize : 1 ≤ owner.utf8ByteSize ∧ owner.utf8ByteSize ≤ 128)
      (htarget : claimTarget a now skip σ = some (id, c.investigation))
      (hclaimable : claimable now c.job c.investigation = true)
      (hmember : isMember σ c.investigation.subject c.investigation.team false = true) :
      CaseStep a now skip σ σ' id (.request (.claim owner)) (some c)
        (some
          { c with
            investigation :=
              { c.investigation with
                status := .running, source_version := c.service.watermark
                seq := c.investigation.seq + 1 }
            job :=
              { c.job with
                state := .running, owner := some owner, generation := c.job.generation + 1
                attempts := c.job.attempts + 1, lease_until := some (now + seconds a.Lease) } })
  | noted {c op b} (hfence : Fenced now b c) :
      CaseStep a now skip σ σ' id (.request (.callback id op b)) (some c)
        (some { c with investigation := { c.investigation with seq := c.investigation.seq + 1 } })
  | heartbeat {c b} (hfence : Fenced now b c) :
      CaseStep a now skip σ σ' id (.request (.callback id "heartbeat" b)) (some c)
        (some { c with job := { c.job with lease_until := some (now + seconds a.Lease) } })
  | accepted {c b status} (hfence : Fenced now b c)
      (hfresh : c.investigation.source_version = c.service.watermark) (hid : b.CallbackID ≠ "")
      (hstatus : resultStatus b.Status = some status) :
      CaseStep a now skip σ σ' id (.request (.callback id "result" b)) (some c)
        (some
          { c with
            investigation :=
              { c.investigation with
                status, report := b.Report.map (·.value), manifest := b.Manifest.map (·.value)
                seq := c.investigation.seq + 1 }
            job :=
              { c.job with
                state := .done, lease_until := none, last_callback := some b.CallbackID
                result_hash := some (a.Hash b.marshal) } })
  | requeued {c b} (hfence : Fenced now b c) :
      CaseStep a now skip σ σ' id (.request (.callback id "failure" b)) (some c)
        (some
          { c with
            investigation := { c.investigation with status := .queued }
            job :=
              { c.job with
                state := .queued, lease_until := none
                available_at := now + seconds (min 30 (c.job.attempts * 2))
                last_error := some b.Kind } })
  | drafted {c u b aid row}
      (hstatus : c.investigation.status = .completed ∨ c.investigation.status = .partial_)
      (hfresh : c.investigation.source_version = c.service.watermark)
      (hversion : b.Version = (c.action.map (·.version)).getD 0)
      (hrow : c.action = none ∧ row = newAction a now c b aid ∨
        ∃ old, c.action = some old ∧ old.state.dispatched = false ∧ row = old.redrafted a now c b) :
      CaseStep a now skip σ σ' id (.request (.draft u id b aid)) (some c)
        (some
          { c with
            investigation := { c.investigation with seq := c.investigation.seq + 1 }
            action := some row })
  | approved {c u row approval} (hrow : c.action = some row)
      (hstate : row.state = .draft ∨ row.state = .rejected)
      (hmember : isMember σ u c.investigation.team true = true)
      (hrecord : σ'.lookup (Key.approvals approval) =
        some ⟨row.id, row.version, row.digest, row.evidence_hash, u, "approve"⟩) :
      CaseStep a now skip σ σ' id (.request (.decide u id row.version "approve" approval)) (some c)
        (some
          { c with
            investigation := { c.investigation with seq := c.investigation.seq + 1 }
            action := some
              { row with
                state := .approved, approved_by := some u, approved_version := some row.version
                approved_digest := some row.digest, updated_at := now } })
  | rejected {c u row approval} (hrow : c.action = some row)
      (hstate : row.state = .draft ∨ row.state = .rejected) :
      CaseStep a now skip σ σ' id (.request (.decide u id row.version "reject" approval)) (some c)
        (some
          { c with
            investigation := { c.investigation with seq := c.investigation.seq + 1 }
            action := some
              { row with
                state := .rejected, approved_by := some u, approved_version := some row.version
                approved_digest := some row.digest, updated_at := now } })
  | reconcileRequested {c u row approval} (hrow : c.action = some row)
      (hstate : row.state = .unknown) :
      CaseStep a now skip σ σ' id (.request (.decide u id row.version "reconcile" approval)) (some c)
        (some { c with action := some { row with updated_at := now - seconds 60 } })
  | sourceChanged {c r remove repo enabled} (hr : ChangesSource r remove) :
      CaseStep a now skip σ σ' id (.request r) (some c)
        (some
          { c with
            investigation := c.investigation.sourceChanged remove
            service := { c.service with watermark := c.service.watermark + 1, repo, enabled }
            action := c.action.map (Action.sourceChanged remove) })
  | approvalInvalidated {c row} (hrow : c.action = some row) (hstate : row.state = .approved) :
      CaseStep a now skip σ σ' id .begin (some c)
        (some
          { c with
            investigation := { c.investigation with seq := c.investigation.seq + 1 }
            action := some { row with state := .invalidated, updated_at := now } })
  | dispatched {c row} (hrow : c.action = some row) (hstate : row.state = .approved)
      (hdispatchable : dispatchable σ row c.investigation c.service.watermark = true)
      (htarget : c.service.repo = row.target) :
      CaseStep a now skip σ σ' id .begin (some c)
        (some
          { c with
            investigation := { c.investigation with seq := c.investigation.seq + 1 }
            action := some { row with state := .executing, updated_at := now } })
  | reconciling {c row} (hrow : c.action = some row)
      (hstate : row.state = .executing ∨ row.state = .unknown)
      (hwaited : row.updated_at < now - seconds 15) :
      CaseStep a now skip σ σ' id .begin (some c)
        (some
          { c with
            investigation := { c.investigation with seq := c.investigation.seq + 1 }
            action := some { row with state := .unknown, updated_at := now } })
  | finished {c row r result} (hrow : c.action = some row) (hid : row.id = r.ID) :
      CaseStep a now skip σ σ' id (.finish r result) (some c)
        (some
          { c with
            investigation := { c.investigation with seq := c.investigation.seq + 1 }
            action := some
              { row with
                state := (actionOutcome r result).1, result := some (actionOutcome r result).2
                updated_at := now } })

/-- A case that is there stays there. -/
theorem CaseStep.exists_after {a : App} {now : Time} {skip : Key → Bool} {σ σ' : Store} {id : String}
    {txn : Transaction} {c : Case} {x' : Option Case} (h : CaseStep a now skip σ σ' id txn (some c) x') :
    ∃ c', x' = some c' := by
  cases h <;> exact ⟨_, rfl⟩

/-- What a transaction leaves behind, from rows that fit together. -/
structure Effect (a : App) (now : Time) (skip : Key → Bool) (σ : Store) (txn : Transaction)
    (σ' : Store) : Prop where
  wf : Wf σ'
  cases : ∀ id, CaseStep a now skip σ σ' id txn (caseOf σ id) (caseOf σ' id)
  approvals : ∀ approval row, σ.lookup (Key.approvals approval) = some row →
    σ'.lookup (Key.approvals approval) = some row

/-- The cases of the other investigations stay as they are when the transaction
is about one of them. -/
theorem Effect.of_case {a : App} {now : Time} {skip : Key → Bool} {σ σ' : Store}
    {txn : Transaction} (id : String) (wf : Wf σ')
    (hcase : CaseStep a now skip σ σ' id txn (caseOf σ id) (caseOf σ' id))
    (hothers : ∀ id', id' ≠ id → caseOf σ' id' = caseOf σ id')
    (happrovals : ∀ approval row, σ.lookup (Key.approvals approval) = some row →
      σ'.lookup (Key.approvals approval) = some row) : Effect a now skip σ txn σ' where
  wf := wf
  cases id' := by
    by_cases hid : id' = id
    · subst hid
      exact hcase
    · rw [hothers id' hid]
      exact .unchanged
  approvals := happrovals

/-- A transaction that leaves the tracked tables alone. -/
theorem Effect.of_untracked {a : App} {now : Time} {skip : Key → Bool} {σ σ' : Store}
    {txn : Transaction} (hwf : Wf σ)
    (hlookup : ∀ key : Key, key.tracked = true → σ'.lookup key = σ.lookup key)
    (happrovals : ∀ approval row, σ.lookup (Key.approvals approval) = some row →
      σ'.lookup (Key.approvals approval) = some row) : Effect a now skip σ txn σ' where
  wf := hwf.evolves fun key hkey => by
    rw [hlookup key hkey]
    exact Evolves.refl σ key hkey
  cases id := by
    have hcase : caseOf σ' id = caseOf σ id := by
      simp only [caseOf, hlookup (Key.investigations id) rfl, hlookup (Key.jobs id) rfl,
        hlookup (Key.actions id) rfl, hlookup (Key.services _) rfl]
    rw [hcase]
    exact .unchanged
  approvals := happrovals

/-- A transaction that has changed nothing. -/
theorem Effect.refl {a : App} {now : Time} {skip : Key → Bool} {σ : Store} {txn : Transaction}
    (hwf : Wf σ) : Effect a now skip σ txn σ :=
  .of_untracked hwf (fun _ _ => rfl) fun _ _ h => h

end incidentdesk
