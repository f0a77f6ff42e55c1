import IncidentDesk.Effects.Reachable

namespace incidentdesk

/-- The pairs of `investigations.status` and `jobs.state` that belong together. -/
def paired : Status → JobState → Bool
  | .queued, .queued | .running, .running => true
  | .completed, .done | .partial_, .done | .waiting_information, .done | .failed, .done => true
  | .failed, .failed | .cancelled, .cancelled => true
  | _, _ => false

section Step

variable {a : App} {now : Time} {skip : Key → Bool} {σ σ' : Store} {id : String} {txn : Transaction}

theorem resultStatus_paired {status : String} {s : Status} (h : resultStatus status = some s) :
    paired s .done = true := by
  unfold resultStatus at h
  split_ifs at h <;> cases h <;> rfl

theorem paired_of_resumable {s : Status} {state : JobState} (h : paired s state = true)
    (hresumable : s.resumable = true) : state = .done ∨ state = .failed := by
  cases s <;> cases state <;> simp_all [paired, Status.resumable]

theorem CaseStep.paired {x : Option Case} {c' : Case}
    (hx : ∀ c, x = some c → incidentdesk.paired c.investigation.status c.job.state = true)
    (h : CaseStep a now skip σ σ' id txn x (some c')) :
    incidentdesk.paired c'.investigation.status c'.job.state = true := by
  cases h with
  | unchanged => exact hx _ rfl
  | accepted _ _ _ hstatus => exact resultStatus_paired hstatus
  | created | cancelled | resumed | swept | revoked | claimed | requeued => rfl
  | @sourceChanged c _ remove =>
    have hc := hx c rfl
    cases remove <;> exact hc
  | @noted c | @heartbeat c | @drafted c | @approved c | @rejected c | @reconcileRequested c
  | @approvalInvalidated c | @dispatched c | @reconciling c | @finished c => exact hx c rfl

end Step

/-- After every run each investigation and its job belong together. -/
theorem paired_after {a : App} {σ : Store} (hσ : Initial σ) (now : Time) (ops : List Op) {id : String} {c : Case}
    (hc : caseOf (World.after a σ now ops).store id = some c) : paired c.investigation.status c.job.state = true :=
  World.case_invariant (P := fun _ c => paired c.investigation.status c.job.state = true) hσ
    (fun _ _ _ _ _ _ _ ih hstep => hstep.paired ih) ops hc

end incidentdesk
