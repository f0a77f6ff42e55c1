import IncidentDesk.Dispatch
import IncidentDesk.Pairing

namespace incidentdesk

/-- An action that is still to be decided is about the report that its
investigation has now, and its digest covers its content. -/
def Case.Current (a : App) (c : Case) : Prop :=
  ∀ row, c.action = some row → row.state.undecided = true →
    (c.investigation.status = .completed ∨ c.investigation.status = .partial_) ∧
      row.evidence_hash = reportHash a c.investigation.report ∧
      row.digest = actionDigest a c.service.repo row.title row.body row.evidence_hash

structure Case.Consistent (a : App) (c : Case) : Prop where
  paired : incidentdesk.paired c.investigation.status c.job.state = true
  current : c.Current a

section Step

variable {a : App} {now : Time} {skip : Key → Bool} {σ σ' : Store} {id : String} {txn : Transaction}

/-- A task that is not finished has no action that is still to be decided. -/
theorem Case.Current.not_undecided {c : Case} (h : c.Current a)
    (hpaired : incidentdesk.paired c.investigation.status c.job.state = true)
    (hjob : c.job.state ≠ .done) {row : Action} (hrow : c.action = some row) :
    row.state.undecided = false := by
  by_contra hstate
  obtain ⟨hstatus | hstatus, -⟩ := h row hrow (by simpa using hstate) <;> rw [hstatus] at hpaired <;>
    cases hj : c.job.state <;> simp_all [incidentdesk.paired]

theorem exhausted_not_done {job : Job} (h : exhausted now job = true) : job.state ≠ .done := by
  intro hdone
  simp [exhausted, hdone] at h

theorem claimable_not_done {job : Job} {i : Investigation} (h : claimable now job i = true) :
    job.state ≠ .done := by
  intro hdone
  simp [claimable, hdone] at h

theorem Fenced.not_done {b : Callback} {c : Case} (h : Fenced now b c) : c.job.state ≠ .done := by
  rw [h.running]
  decide

/-- After a step on a task that was not finished, its action is not one to be
decided. -/
theorem Case.Current.of_not_done {c c' : Case} (h : c.Current a)
    (hpaired : incidentdesk.paired c.investigation.status c.job.state = true)
    (hjob : c.job.state ≠ .done) (haction : c'.action = c.action) : c'.Current a := by
  intro row hrow hstate
  rw [haction] at hrow
  rw [h.not_undecided hpaired hjob hrow] at hstate
  cases hstate

/-- After a step that only numbers an event, the action is about the same report. -/
theorem Case.Current.of_action_eq {c c' : Case} (h : c.Current a) (haction : c'.action = c.action)
    (hstatus : c'.investigation.status = c.investigation.status)
    (hreport : c'.investigation.report = c.investigation.report)
    (hservice : c'.service = c.service) : c'.Current a := by
  unfold Case.Current
  rw [haction, hstatus, hreport, hservice]
  exact h

theorem Action.closeIf_not_undecided {p : ActionState → Bool}
    (hp : ∀ state, state.undecided = true → p state = true) (row : Action) :
    (row.closeIf p).state.undecided = false := by
  unfold Action.closeIf
  by_cases hstate : p row.state
  · rw [if_pos hstate]
    rfl
  · rw [if_neg hstate]
    by_contra hundecided
    exact hstate (hp _ (by simpa using hundecided))

theorem Action.sourceChanged_not_undecided (remove : Bool) (row : Action) :
    (row.sourceChanged remove).state.undecided = false := by
  have hclosed := row.closeIf_not_undecided (p := ActionState.undecided) fun _ h => h
  cases remove <;> exact hclosed

/-- After a step that closes the action there is nothing to be decided. -/
theorem Case.Current.of_closed {c : Case} {f : Action → Action} {action : Option Action}
    (haction : c.action = action.map f) (hf : ∀ row, (f row).state.undecided = false) :
    c.Current a := by
  intro row hrow hstate
  rw [haction] at hrow
  obtain ⟨old, -, rfl⟩ := Option.map_eq_some_iff.mp hrow
  rw [hf] at hstate
  cases hstate

theorem CaseStep.consistent {x : Option Case} {c' : Case}
    (hx : ∀ c, x = some c → c.Consistent a)
    (h : CaseStep a now skip σ σ' id txn x (some c')) : c'.Consistent a := by
  refine ⟨h.paired fun c hc => (hx c hc).paired, ?_⟩
  cases h with
  | unchanged => exact (hx _ rfl).current
  | created =>
    rintro row ⟨⟩
  | cancelled => exact .of_closed rfl (Action.closeIf_not_undecided fun _ h => h)
  | resumed =>
    refine .of_closed rfl (Action.closeIf_not_undecided fun state h => ?_)
    rw [ActionState.not_dispatched_of_undecided state h]
    rfl
  | swept hexhausted =>
    exact (hx _ rfl).current.of_not_done (hx _ rfl).paired (exhausted_not_done hexhausted) rfl
  | revoked _ hclaimable | claimed _ _ hclaimable =>
    exact (hx _ rfl).current.of_not_done (hx _ rfl).paired (claimable_not_done hclaimable) rfl
  | noted hfence | heartbeat hfence | accepted hfence | requeued hfence =>
    exact (hx _ rfl).current.of_not_done (hx _ rfl).paired hfence.not_done rfl
  | drafted hstatus hfresh hversion hdrafted =>
    rintro _ ⟨⟩ -
    obtain ⟨-, rfl⟩ | ⟨old, -, -, rfl⟩ := hdrafted <;> exact ⟨hstatus, rfl, rfl⟩
  | @approved c _ row _ hrow hstate | @rejected c _ row _ hrow hstate =>
    rintro _ ⟨⟩ -
    have hundecided : row.state.undecided = true := by
      obtain hstate | hstate := hstate <;> rw [hstate] <;> rfl
    exact (hx c rfl).current row hrow hundecided
  | reconcileRequested hrow hstate =>
    rintro _ ⟨⟩ hundecided
    simp [hstate, ActionState.undecided] at hundecided
  | sourceChanged => exact .of_closed rfl (Action.sourceChanged_not_undecided _)
  | approvalInvalidated | dispatched | reconciling =>
    rintro _ ⟨⟩ hundecided
    cases hundecided
  | finished =>
    rintro _ ⟨⟩ hundecided
    rw [ActionState.not_undecided_of_dispatched (actionOutcome_dispatched _ _)] at hundecided
    cases hundecided

end Step

/-- Every case is consistent after every run. -/
theorem World.consistent_after (a : App) {σ : Store} (hσ : Initial σ) (now : Time) (ops : List Op)
    {id : String} {c : Case} (hc : caseOf (World.after a σ now ops).store id = some c) :
    c.Consistent a :=
  World.case_invariant (P := fun _ c => c.Consistent a) hσ
    (fun _ _ _ _ _ _ _ ih hstep => hstep.consistent ih) ops hc

/-- The approval that an action's current version rests on. -/
def Action.approval (row : Action) : Approval :=
  { action := row.id, version := row.version, digest := row.digest
    evidence_hash := row.evidence_hash, subject := row.approved_by.getD "", decision := "approve" }

/-- An approver decides on a version of an action with the content of `row`. -/
def Approves (id : String) (row : Action) (w : World) (op : Op) : Prop :=
  ∃ u approval skip row₀, op = .request (.decide u id row.version "approve" approval) skip ∧
    w.store.lookup (Key.actions id) = some row₀ ∧
    (row₀.version, row₀.title, row₀.body, row₀.target, row₀.digest) =
      (row.version, row.title, row.body, row.target, row.digest)

/-- An approved action has its approval on record, and was decided on with the
content it has. -/
theorem World.approved_after (a : App) {σ : Store} (hσ : Initial σ) (now : Time) (ops : List Op)
    {id : String} {c : Case} (hc : caseOf (World.after a σ now ops).store id = some c) :
    ∀ row, c.action = some row → row.state = .approved →
      (∃ approval, (World.after a σ now ops).store.lookup (Key.approvals approval) = some row.approval) ∧
        machine.Occurs (World.step a) (Approves id row) (World.init σ now) ops := by
  let P (ops : List Op) (id : String) (c : Case) : Prop :=
    ∀ row, c.action = some row → row.state = .approved →
      (∃ approval, (World.after a σ now ops).store.lookup (Key.approvals approval) = some row.approval) ∧
        machine.Occurs (World.step a) (Approves id row) (World.init σ now) ops
  have hkeep : ∀ ops op id c, P ops id c → P (ops ++ [op]) id c := by
    intro ops op id c hP row hrow hstate
    obtain ⟨⟨approval, happroval⟩, hoccurs⟩ := hP row hrow hstate
    refine ⟨⟨approval, ?_⟩, machine.occurs_concat.mpr (.inl hoccurs)⟩
    rw [World.after, machine.run_concat]
    obtain ⟨-, hstore | ⟨txn, -, heffect⟩⟩ :=
      (World.sound_after (a := a) hσ now ops).step (a := a) op
    · rwa [hstore]
    · exact heffect.approvals _ _ happroval
  refine World.case_induction (P := P) hσ hkeep ?_ ops (machine.always_true _ ops) id c hc
  intro ops op id c' txn w w' hw _ htxn hc' ih hstep row hrow hstate
  have hundecided : row.state.undecided = true := by rw [hstate]; rfl
  have hclosed {c : Case} {f : Action → Action} {action : Option Action}
      (haction : c.action = action.map f) (hf : ∀ row, (f row).state.undecided = false)
      (hrow : c.action = some row) : False := by
    rw [haction] at hrow
    obtain ⟨old, -, rfl⟩ := Option.map_eq_some_iff.mp hrow
    rw [hf] at hundecided
    cases hundecided
  cases hw_case : caseOf w.store id with
  | none =>
    rw [hw_case] at hstep
    cases hstep with
    | created => cases hrow
  | some c =>
    rw [hw_case] at hstep
    cases hstep with
    | unchanged => exact hkeep ops op id _ (ih _ hw_case) row hrow hstate
    | swept | revoked | claimed | noted | heartbeat | accepted | requeued =>
      exact hkeep ops op id c (ih c hw_case) row hrow hstate
    | cancelled => exact (hclosed rfl (Action.closeIf_not_undecided fun _ h => h) hrow).elim
    | resumed =>
      refine (hclosed rfl (Action.closeIf_not_undecided fun state h => ?_) hrow).elim
      rw [ActionState.not_dispatched_of_undecided state h]
      rfl
    | sourceChanged => exact (hclosed rfl (Action.sourceChanged_not_undecided _) hrow).elim
    | drafted _ _ _ hdrafted =>
      cases hrow
      obtain ⟨-, rfl⟩ | ⟨old, -, -, rfl⟩ := hdrafted <;> cases hstate
    | @approved _ u old approval hold _ _ hrecord =>
      cases hrow
      refine ⟨⟨approval, ?_⟩, machine.occurs_concat.mpr (.inr ?_)⟩
      · rw [World.after, machine.run_concat]
        exact hrecord
      · obtain ⟨-, -, -, hact⟩ := caseOf_eq_some.mp hw_case
        rw [hold] at hact
        obtain ⟨skip, rfl⟩ := World.transaction_eq_request htxn
        exact ⟨u, approval, skip, old, rfl, hact, rfl⟩
    | rejected | approvalInvalidated | dispatched | reconciling =>
      cases hrow
      cases hstate
    | reconcileRequested _ hunknown =>
      cases hrow
      rw [hunknown] at hstate
      cases hstate
    | finished =>
      cases hrow
      rw [ActionState.not_undecided_of_dispatched (actionOutcome_dispatched _ _)] at hundecided
      cases hundecided

/-- What an action is dispatched on: an approval on record for the version it
has, a digest of its content and of the present report, sources that have not
changed since, and two members who are still allowed to act. -/
structure Dispatchable (a : App) (σ : Store) (c : Case) (row : Action) : Prop where
  recorded : ∃ approval, σ.lookup (Key.approvals approval) = some row.approval
  digest : row.digest = actionDigest a row.target row.title row.body row.evidence_hash
  evidence : row.evidence_hash = reportHash a c.investigation.report
  ready : c.investigation.status = .completed ∨ c.investigation.status = .partial_
  fresh : row.source_version = c.service.watermark
  approver : isMember σ (row.approved_by.getD "") c.investigation.team true = true
  initiator : isMember σ c.investigation.subject c.investigation.team false = true

section Step

variable {a : App} {now : Time} {skip : Key → Bool} {σ σ' : Store} {id : String} {txn : Transaction}

/-- Only the first transaction of `actionStep` lets an approved action execute. -/
theorem CaseStep.executing {c c' : Case} {row row' : Action}
    (h : CaseStep a now skip σ σ' id txn (some c) (some c')) (hrow : c.action = some row)
    (hstate : row.state = .approved) (hrow' : c'.action = some row') (hstate' : row'.state = .executing) :
    txn = .begin ∧ dispatchable σ row c.investigation c.service.watermark = true ∧
      c.service.repo = row.target := by
  have hclosed {f : Action → Action} (haction : c'.action = c.action.map f)
      (hf : (f row).state ≠ .executing) : False := by
    rw [haction, hrow] at hrow'
    cases hrow'
    exact hf hstate'
  have hsame (haction : c'.action = c.action) : False := by
    rw [haction, hrow] at hrow'
    cases hrow'
    rw [hstate] at hstate'
    cases hstate'
  cases h with
  | unchanged | swept | revoked | claimed | noted | heartbeat | accepted | requeued =>
    exact (hsame rfl).elim
  | cancelled =>
    refine (hclosed rfl ?_).elim
    simp [Action.closeIf, hstate, ActionState.undecided]
  | resumed =>
    refine (hclosed rfl ?_).elim
    simp [Action.closeIf, hstate, ActionState.dispatched]
  | @sourceChanged _ _ remove =>
    refine (hclosed rfl ?_).elim
    cases remove <;>
      simp [Action.sourceChanged, Action.closeIf, Action.removeContent, hstate, ActionState.undecided]
  | drafted _ _ _ hdrafted =>
    cases hrow'
    obtain ⟨-, rfl⟩ | ⟨old, -, -, rfl⟩ := hdrafted <;> cases hstate'
  | dispatched hrow₁ _ hdispatchable htarget =>
    obtain rfl := Option.some.inj (hrow₁.symm.trans hrow)
    exact ⟨rfl, hdispatchable, htarget⟩
  | approved | rejected | approvalInvalidated | reconciling =>
    cases hrow'
    cases hstate'
  | reconcileRequested hrow₁ hunknown =>
    obtain rfl := Option.some.inj (hrow₁.symm.trans hrow)
    rw [hunknown] at hstate
    cases hstate
  | @finished _ _ r result =>
    cases hrow'
    cases result <;> cases hstate'

/-- A decision leaves the content of the action alone. -/
theorem CaseStep.decided {c c' : Case} {u decision approval : String} {Version : Int} {row : Action}
    (h : CaseStep a now skip σ σ' id (.request (.decide u id Version decision approval)) (some c) (some c'))
    (hrow : c.action = some row) : ∃ row', c'.action = some row' ∧
      (row'.version, row'.title, row'.body, row'.target, row'.digest) =
        (row.version, row.title, row.body, row.target, row.digest) := by
  cases h with
  | unchanged => exact ⟨row, hrow, rfl⟩
  | approved hrow' | rejected hrow' | reconcileRequested hrow' =>
    obtain rfl := Option.some.inj (hrow'.symm.trans hrow)
    exact ⟨_, rfl, rfl⟩
  | sourceChanged hr => cases hr

/-- A decision about one investigation does not touch the others. -/
theorem CaseStep.decided_other {id' u decision approval : String} {Version : Int} {x x' : Option Case}
    (h : CaseStep a now skip σ σ' id (.request (.decide u id' Version decision approval)) x x')
    (hid : id ≠ id') : x' = x := by
  cases h with
  | unchanged => rfl
  | approved | rejected | reconcileRequested => exact absurd rfl hid
  | sourceChanged hr => cases hr

end Step

open sql sql.Tx

/-- A decision is made on the version it names. -/
theorem decide_version {now : Time} {skip : Key → Bool} {σ : Store} (u id : String) (Version : Int)
    (decision approval : String) :
    Ensures skip (decide now u id Version decision approval) σ fun _ _ =>
      ∃ row, σ.lookup (Key.actions id) = some row ∧ row.version = Version := by
  unfold decide
  simp only [ensures_bind, ensures_ofExcept, ensures_snapshot, ensures_require, ensures_lockRow,
    ensures_refuse]
  intro _ _ _ _ _ _ act hact _ _ _ _ _ _ hversion
  exact fun _ _ _ => ⟨act, hact, not_not.mp hversion⟩

/-- A draft is saved as the version after the one it names. -/
theorem draft_version {a : App} {now : Time} {skip : Key → Bool} {σ : Store} (u id : String) (b : Draft)
    (aid : String) :
    Ensures skip (draft a now u id b aid) σ fun _ σ' =>
      b.Version = ((σ.lookup (Key.actions id)).map (·.version)).getD 0 ∧
        ∃ row, σ'.lookup (Key.actions id) = some row ∧ row.version = b.Version + 1 := by
  unfold draft
  simp only [ensures_bind, ensures_refuse, ensures_selectForUpdate, ensures_require,
    ensures_snapshot, ensures_ofExcept, ensures_lockRow]
  intro _ i _ s _ _ _ _ _ _ hversion
  have hversion' := not_not.mp hversion
  cases hrow : σ.lookup (Key.actions id) with
  | none =>
    simp only [ensures_bind, ensures_insert, ensures_event]
    intro _ _ _ _ _
    have hzero : b.Version = 0 := by simpa [hrow] using hversion'
    refine ⟨hzero, _, by simp [AList.lookup_insert_ne]; rfl, ?_⟩
    simp [hzero]
  | some old =>
    simp only [ensures_bind, ensures_writeRow, ensures_event]
    intro _ _ _
    have hold : b.Version = old.version := by simpa [hrow] using hversion'
    refine ⟨hold, _, by simp [AList.lookup_insert_ne]; rfl, ?_⟩
    simp [hold]

/-- When an approved action starts to execute, `issue` is run with its content. -/
theorem World.Sound.begin_executing {a : App} {w : World} (hw : w.Sound) {skip : Key → Bool} {id : String}
    {row row' : Action} (hrow : w.store.lookup (Key.actions id) = some row)
    (hstate : row.state = .approved)
    (hrow' : (w.begin skip).store.lookup (Key.actions id) = some row') (hstate' : row'.state = .executing) :
    ∃ r : actionRun, r.Title = row.title ∧ r.Body = row.body ∧ r.Target = row.target ∧
      (w.begin skip).attempts = w.attempts ++ [⟨r, .ready (issue r)⟩] := by
  have hbegun : Ensures skip (actionBegin w.now) w.store fun run σ' => Begun w.store σ' run :=
    Ensures.mono skip (actionBegin_effect (a := a) hw.wf) fun _ _ h => h.2
  have hsame (h : w.store.lookup (Key.actions id) = some row') : False := by
    rw [hrow] at h
    cases h
    rw [hstate] at hstate'
    cases hstate'
  unfold World.begin at hrow' ⊢
  split at hrow'
  · rename_i r σ' hrun
    have hr := (hbegun _ _ hrun).executing id row row' hrow hrow' hstate hstate'
    cases hr
    exact ⟨_, rfl, rfl, rfl, rfl⟩
  · rename_i σ' hrun
    have hr := (hbegun _ _ hrun).executing id row row' hrow hrow' hstate hstate'
    cases hr
  · exact (hsame hrow').elim

/-- An action that starts to execute has been approved with the content it has,
and everything its approval rests on still holds. -/
theorem World.executing_after (a : App) {σ : Store} (hσ : Initial σ) (now : Time) (ops : List Op) (op : Op)
    {id : String} {row row' : Action}
    (hrow : (World.after a σ now ops).store.lookup (Key.actions id) = some row)
    (hstate : row.state = .approved)
    (hrow' : (World.after a σ now (ops ++ [op])).store.lookup (Key.actions id) = some row')
    (hstate' : row'.state = .executing) :
    (∃ r : actionRun, r.Title = row.title ∧ r.Body = row.body ∧ r.Target = row.target ∧
        (World.after a σ now (ops ++ [op])).attempts =
          (World.after a σ now ops).attempts ++ [⟨r, .ready (issue r)⟩]) ∧
      machine.Occurs (World.step a) (Approves id row) (World.init σ now) ops ∧
      ∃ c, caseOf (World.after a σ now ops).store id = some c ∧
        Dispatchable a (World.after a σ now ops).store c row := by
  have hw := World.sound_after (a := a) hσ now ops
  obtain ⟨c, hc, hact⟩ := hw.wf.caseOf_of_action hrow
  rw [World.after, machine.run_concat] at hrow' ⊢
  obtain ⟨hw', hstore | ⟨txn, htxn, heffect⟩⟩ := hw.step (a := a) op
  · rw [hstore, hrow] at hrow'
    cases hrow'
    rw [hstate] at hstate'
    cases hstate'
  · obtain ⟨c', hc', hact'⟩ := hw'.wf.caseOf_of_action hrow'
    have hstep := heffect.cases id
    rw [hc, hc'] at hstep
    obtain ⟨rfl, hdispatchable, htarget⟩ := hstep.executing hact hstate hact' hstate'
    obtain ⟨skip, rfl⟩ := World.transaction_eq_begin htxn
    obtain ⟨hrecorded, hoccurs⟩ := World.approved_after a hσ now ops hc row hact hstate
    have hundecided : row.state.undecided = true := by rw [hstate]; rfl
    obtain ⟨hready, hevidence, hdigest⟩ :=
      (World.consistent_after a hσ now ops hc).current row hact hundecided
    simp only [dispatchable, Bool.and_eq_true, decide_eq_true_eq] at hdispatchable
    obtain ⟨⟨⟨⟨⟨-, hfresh⟩, -⟩, -⟩, happrover⟩, hinitiator⟩ := hdispatchable
    refine ⟨hw.begin_executing (a := a) hrow hstate hrow' hstate', hoccurs, c, hc, ?_⟩
    exact ⟨hrecorded, htarget ▸ hdigest, hevidence, hready, hfresh, happrover, hinitiator⟩

/-- Two drafts of one action that are both saved name different versions. -/
theorem draft_versions_after (a : App) {σ : Store} (hσ : Initial σ) (now : Time) (ops mid : List Op)
    {u u' id aid aid' : String} {b b' : Draft} {skip skip' : Key → Bool}
    (hdraft : (World.after a σ now ops).Commits a (.draft u id b aid) skip)
    (hdraft' : (World.after a σ now (ops ++ .request (.draft u id b aid) skip :: mid)).Commits a
      (.draft u' id b' aid') skip') : b'.Version ≠ b.Version := by
  obtain ⟨σ₁, hrun⟩ := hdraft
  obtain ⟨σ₂, hrun'⟩ := hdraft'
  obtain ⟨-, row, hrow, hversion⟩ := draft_version u id b aid _ _ hrun
  obtain ⟨hversion', -⟩ := draft_version u' id b' aid' _ _ hrun'
  have hsaved : (World.after a σ now (ops ++ [.request (.draft u id b aid) skip])).store = σ₁ := by
    rw [World.after, machine.run_concat]
    simp only [World.step, commit, hrun]
  rw [← hsaved] at hrow
  obtain ⟨row', hrow', hkept⟩ := action_kept_after a hσ now _ mid hrow
  rw [List.append_assoc, List.singleton_append] at hrow'
  rw [hrow'] at hversion'
  have hlater := hkept.version
  have hversion' : b'.Version = row'.version := hversion'
  omega

/-- A decision that has an effect is about the version it names, and changes
neither its content nor another action. -/
theorem decide_after (a : App) {σ : Store} (hσ : Initial σ) (now : Time) (ops : List Op)
    (u id : String) (Version : Int) (decision approval : String) (skip : Key → Bool) :
    let w := World.after a σ now ops
    let w' := World.step a w (.request (.decide u id Version decision approval) skip)
    w'.store = w.store ∨
      ∃ row row', w.store.lookup (Key.actions id) = some row ∧ row.version = Version ∧
        w'.store.lookup (Key.actions id) = some row' ∧
        (row'.version, row'.title, row'.body, row'.target, row'.digest) =
          (row.version, row.title, row.body, row.target, row.digest) ∧
        ∀ id', id' ≠ id → w'.store.lookup (Key.actions id') = w.store.lookup (Key.actions id') := by
  intro w w'
  have hw : w.Sound := World.sound_after hσ now ops
  cases hrun : (decide w.now u id Version decision approval).run skip w.store with
  | error =>
    refine .inl ?_
    simp only [w', World.step, Request.body, commit, hrun]
  | ok outcome =>
    obtain ⟨⟨⟩, σ'⟩ := outcome
    have hstore : w'.store = σ' := by
      simp only [w', World.step, Request.body, commit, hrun]
    have heffect : Effect a w.now skip w.store _ σ' :=
      decide_effect hw.wf u id Version decision approval _ _ hrun
    obtain ⟨row, hrow, hversion⟩ := decide_version u id Version decision approval _ _ hrun
    obtain ⟨c, hc, hact⟩ := hw.wf.caseOf_of_action hrow
    obtain ⟨row', hrow', -⟩ := heffect.action_kept hw.wf hrow
    obtain ⟨c', hc', hact'⟩ := heffect.wf.caseOf_of_action hrow'
    have hstep := heffect.cases id
    rw [hc, hc'] at hstep
    obtain ⟨_, hact₁, hcontent⟩ := hstep.decided hact
    cases hact₁.symm.trans hact'
    rw [hstore]
    refine .inr ⟨row, row', hrow, hversion, hrow', hcontent, fun id' hid => ?_⟩
    have hother := (heffect.cases id').decided_other hid
    rw [heffect.wf.lookup_actions, hother, hw.wf.lookup_actions]

/-- Over every run: an action starts to execute only with the content of an
approved version that is about the present report, at most one of the drafts
that name a version is saved, and a decision takes effect on the version it names. -/
theorem approved_content_kept (a : App) {σ : Store} (hσ : Initial σ) (now : Time) (ops : List Op) :
    let w := World.after a σ now ops
    (∀ op id row row', w.store.lookup (Key.actions id) = some row → row.state = .approved →
      (World.after a σ now (ops ++ [op])).store.lookup (Key.actions id) = some row' →
        row'.state = .executing →
          (∃ r : actionRun, r.Title = row.title ∧ r.Body = row.body ∧ r.Target = row.target ∧
            (World.after a σ now (ops ++ [op])).attempts = w.attempts ++ [⟨r, .ready (issue r)⟩]) ∧
          machine.Occurs (World.step a) (Approves id row) (World.init σ now) ops ∧
          ∃ c, caseOf w.store id = some c ∧ Dispatchable a w.store c row) ∧
    (∀ mid u u' id b b' aid aid' skip skip', w.Commits a (.draft u id b aid) skip →
      (World.after a σ now (ops ++ .request (.draft u id b aid) skip :: mid)).Commits a
        (.draft u' id b' aid') skip' → b'.Version ≠ b.Version) ∧
    ∀ u id Version decision approval skip,
      let w' := World.step a w (.request (.decide u id Version decision approval) skip)
      w'.store = w.store ∨
        ∃ row row', w.store.lookup (Key.actions id) = some row ∧ row.version = Version ∧
          w'.store.lookup (Key.actions id) = some row' ∧
          (row'.version, row'.title, row'.body, row'.target, row'.digest) =
            (row.version, row.title, row.body, row.target, row.digest) ∧
          ∀ id', id' ≠ id → w'.store.lookup (Key.actions id') = w.store.lookup (Key.actions id') :=
  ⟨fun op _ _ _ hrow hstate hrow' hstate' => World.executing_after a hσ now ops op hrow hstate hrow' hstate',
    fun mid _ _ _ _ _ _ _ _ _ hdraft hdraft' => draft_versions_after a hσ now ops mid hdraft hdraft',
    decide_after a hσ now ops⟩

theorem approved_content_kept_publishing :
    ∃ c row, caseOf (World.after deployed seed 0 approving).store "i1" = some c ∧ row.title = "订单超时" ∧
      Dispatchable deployed (World.after deployed seed 0 approving).store c row := by
  let w := World.after deployed seed 0 approving
  let w' := World.after deployed seed 0 (approving ++ [.begin unlocked])
  have hstate : ((w.store.lookup (Key.actions "i1")).map (·.state)) = some .approved := by decide
  have htitle : ((w.store.lookup (Key.actions "i1")).map (·.title)) = some "订单超时" := by decide
  have hstate' : ((w'.store.lookup (Key.actions "i1")).map (·.state)) = some .executing := by decide
  obtain ⟨row, hrow, hstate⟩ := Option.map_eq_some_iff.mp hstate
  obtain ⟨row', hrow', hstate'⟩ := Option.map_eq_some_iff.mp hstate'
  rw [hrow] at htitle
  obtain ⟨-, -, c, hc, hdispatchable⟩ := (approved_content_kept deployed seed_initial 0 approving).1
    (.begin unlocked) "i1" row row' hrow hstate hrow' hstate'
  exact ⟨c, row, hc, Option.some.inj htitle, hdispatchable⟩

end incidentdesk
