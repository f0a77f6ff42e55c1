import IncidentDesk.Effects.Investigations

namespace incidentdesk

open sql sql.Tx

attribute [local simp] AList.lookup_insert_ne

variable {a : App} {now : Time} {skip : Key → Bool} {σ : Store}

theorem draft_effect (hwf : Wf σ) (u id : String) (b : Draft) (aid : String) :
    Ensures skip (draft a now u id b aid) σ fun _ σ' =>
      Effect a now skip σ (.request (.draft u id b aid)) σ' := by
  unfold draft
  simp only [ensures_bind, ensures_refuse, ensures_selectForUpdate, ensures_require,
    ensures_snapshot, ensures_ofExcept, ensures_lockRow]
  intro _ i hi s hs _ _ hstatus hfresh hdispatched hversion
  obtain ⟨c, hc, rfl⟩ := hwf.caseOf_of_investigation hi
  obtain ⟨-, hj, hs', hact⟩ := caseOf_eq_some.mp hc
  obtain rfl : c.service = s := Option.some.inj (hs'.symm.trans hs)
  have hstatus' : c.investigation.status = .completed ∨ c.investigation.status = .partial_ := by
    by_contra h
    exact hstatus (not_or.mp h)
  rw [hact] at hdispatched hversion ⊢
  have hversion' := not_not.mp hversion
  have hfresh' := not_not.mp hfresh
  cases hrow : c.action with
  | none =>
    rw [hrow] at hact
    simp only [ensures_bind, ensures_insert, ensures_event]
    intro _ hnew_id i hi' _
    have hadded := hwf.addAction id (newAction a now c b aid) (by rw [hi]; rfl) hact
      (by simpa [newAction] using hnew_id)
    refine .of_case id (hadded.evolves ?_) ?_ ?_ ?_
    · refine .insert_untracked (.insert (.refl _) hi' ?_) rfl _
      simp [Key.keeps]
    · simp [hi] at hi'
      subst hi'
      rw [hc]
      convert CaseStep.drafted hstatus' hfresh' hversion' (.inl ⟨hrow, rfl⟩) using 1
      simp [caseOf, hj, hs, newAction]
    · intro id' hid
      simp [caseOf, hid]
    · intro approval row hrow
      simpa using hrow
  | some old =>
    rw [hrow] at hact hdispatched
    simp only [ensures_bind, ensures_writeRow, ensures_event]
    intro i hi' _
    refine .of_case id (hwf.evolves ?_) ?_ ?_ ?_
    · refine .insert_untracked (.insert (.insert (.refl σ) hact ?_) hi' ?_) rfl _ <;> simp [Key.keeps]
    · simp [hi] at hi'
      subst hi'
      rw [hc]
      have hdispatched' : old.state.dispatched = false := by simpa using hdispatched
      convert CaseStep.drafted hstatus' hfresh' hversion' (.inr ⟨old, hrow, hdispatched', rfl⟩) using 1
      simp [caseOf, hj, hs, Action.redrafted]
    · intro id' hid
      simp [caseOf, hid]
    · intro approval row hrow
      simpa using hrow

/-- An update by the id of an action that is there writes its row. -/
theorem ensures_updateAction (hwf : Wf σ) {id : String} {row : Action}
    (hrow : σ.lookup (Key.actions id) = some row) {f : Action → Action} {Q : Unit → Store → Prop} :
    Ensures skip (updateAction row.id f) σ Q ↔ Q () (σ.insert (Key.actions id) (f row)) := by
  unfold updateAction
  rw [ensures_bind, ensures_snapshot, (hwf.action id row hrow).2]
  simp [Store.updateOne, hrow]

/-- The path segment that names a decision. -/
def Decision.name : Decision → String
  | approve => "approve"
  | reject => "reject"
  | reconcile => "reconcile"

theorem Decision.parse_eq_ok {decision : String} {d : Decision} (h : parse decision = .ok d) :
    decision = d.name := by
  unfold parse at h
  split_ifs at h with happrove hreject hreconcile <;> cases h <;> assumption

theorem record_effect (hwf : Wf σ) {u id decision approval : String} {d : Decision} {c : Case}
    {act : Action} (hc : caseOf σ id = some c) (hact : c.action = some act)
    (hdecision : Decision.parse decision = .ok d) (hd : d ≠ .reconcile)
    (hmember : isMember σ u c.investigation.team true = true)
    (hstate : act.state = .draft ∨ act.state = .rejected) :
    Ensures skip (record now u id act d approval) σ fun _ σ' =>
      Effect a now skip σ (.request (.decide u id act.version decision approval)) σ' := by
  obtain ⟨hi, hj, hs, hact'⟩ := caseOf_eq_some.mp hc
  rw [hact] at hact'
  unfold record
  simp only [ensures_bind, ensures_insert]
  intro hnew
  have hwf' : Wf (σ.insert (Key.approvals approval)
      { action := act.id, version := act.version, digest := act.digest
        evidence_hash := act.evidence_hash, subject := u
        decision := if (d = .approve : Bool) then "approve" else "reject" }) :=
    hwf.evolves (.insert_untracked (.refl σ) rfl _)
  rw [ensures_updateAction hwf' (by simpa using hact'), ensures_event]
  intro i hi' _
  simp [hi] at hi'
  subst hi'
  refine .of_case id (hwf'.evolves ?_) ?_ ?_ ?_
  · refine .insert_untracked (.insert (.insert (.refl _) (by simpa using hact') ?_)
      (by simpa using hi) ?_) rfl _ <;> simp [Key.keeps]
  · rw [hc]
    obtain rfl := Decision.parse_eq_ok hdecision
    cases d with
    | approve =>
      change CaseStep a now skip σ _ id (.request (.decide u id act.version "approve" approval)) _ _
      convert CaseStep.approved hact hstate hmember ?_ using 1
      · simp [caseOf, hj, hs]
      · simp
    | reject =>
      change CaseStep a now skip σ _ id (.request (.decide u id act.version "reject" approval)) _ _
      convert CaseStep.rejected hact hstate using 1
      simp [caseOf, hj, hs]
    | reconcile => exact absurd rfl hd
  · intro id' hid
    simp [caseOf, hid]
  · intro approval' row hrow
    have hne : approval' ≠ approval := by
      rintro rfl
      rw [hnew] at hrow
      cases hrow
    simpa [hne] using hrow

theorem decide_effect (hwf : Wf σ) (u id : String) (Version : Int) (decision approval : String) :
    Ensures skip (decide now u id Version decision approval) σ fun _ σ' =>
      Effect a now skip σ (.request (.decide u id Version decision approval)) σ' := by
  unfold decide
  simp only [ensures_bind, ensures_ofExcept, ensures_snapshot, ensures_require, ensures_lockRow,
    ensures_refuse, ensures_ite, Tx.pure_eq_ret, ensures_ret]
  intro d hdecision _ _ _ _ act hact i hi s hs _ hmember hversion
  obtain rfl := not_not.mp hversion
  obtain ⟨c, hc, rfl⟩ := hwf.caseOf_of_investigation hi
  obtain ⟨-, hj, hs', hact'⟩ := caseOf_eq_some.mp hc
  obtain rfl := Option.some.inj (hs'.symm.trans hs)
  have hrow : c.action = some act := hact'.symm.trans hact
  have hmember : isMember σ u c.investigation.team true = true := by
    simp [isMember, hmember, Except.isOk, Except.toBool]
  refine ⟨fun hd hstate => ?_, fun hd _ => ⟨fun _ => .refl hwf, fun _ hstate => ?_⟩⟩
  · subst hd
    obtain rfl := Decision.parse_eq_ok hdecision
    rw [ensures_updateAction hwf hact]
    refine .of_case id (hwf.evolves ?_) ?_ ?_ ?_
    · refine .insert (.refl σ) hact ?_
      simp [Key.keeps]
    · rw [hc]
      change CaseStep a now skip σ _ id (.request (.decide u id act.version "reconcile" approval)) _ _
      convert CaseStep.reconcileRequested hrow (not_not.mp hstate) using 1
      simp [caseOf, hi, hj, hs]
    · intro id' hid
      simp [caseOf, hid]
    · intro approval row hrow
      simpa using hrow
  · refine record_effect hwf hc hrow hdecision hd hmember ?_
    by_contra h
    exact hstate (not_or.mp h)

/-- Changing the action of a case and appending an event about it. -/
theorem ensures_mark {txn : Transaction} {id kind : String} {payload : Json} {c : Case}
    {act : Action} {f : Action → Action} {Q : Unit → Store → Prop} (hwf : Wf σ)
    (hc : caseOf σ id = some c) (hrow : c.action = some act) (hid : (f act).id = act.id)
    (hstep : ∀ σ', CaseStep a now skip σ σ' id txn (some c)
      (some
        { c with
          investigation := { c.investigation with seq := c.investigation.seq + 1 }
          action := some (f act) }))
    (hQ : ∀ σ', Effect a now skip σ txn σ' → σ'.lookup (Key.actions id) = some (f act) →
      (∀ id', id' ≠ id → σ'.lookup (Key.actions id') = σ.lookup (Key.actions id')) → Q () σ') :
    Ensures skip (updateAction act.id f) σ fun _ σ' => Ensures skip (event id kind payload) σ' Q := by
  obtain ⟨hi, hj, hs, hact⟩ := caseOf_eq_some.mp hc
  rw [hrow] at hact
  rw [ensures_updateAction hwf hact, ensures_event]
  intro i hi' _
  simp [hi] at hi'
  subst hi'
  refine hQ _ (.of_case id (hwf.evolves ?_) ?_ ?_ ?_) (by simp) (fun id' hid => by simp [hid])
  · refine .insert_untracked (.insert (.insert (.refl σ) hact ?_) (by simpa using hi) ?_) rfl _
      <;> simp [Key.keeps, hid]
  · rw [hc]
    convert hstep _ using 1
    simp [caseOf, hj, hs]
  · intro id' hid
    simp [caseOf, hid]
  · intro approval row hrow
    simpa using hrow

/-- The action that `actionStep` takes, if any. -/
def actionChoice (now : Time) (skip : Key → Bool) (σ : Store) (ids : List String) :
    Option (String × Action × Investigation) :=
  ids.findSome? fun id =>
    if skip (Key.actions id) || skip (Key.investigations id) then none
    else
      ((σ.lookup (Key.actions id)).filter (actionable now)).bind fun act =>
        (σ.lookup (Key.investigations id)).map fun i => (id, act, i)

theorem run_actionFirst (ids : List String) :
    run skip (actionFirst now ids) σ = .ok (actionChoice now skip σ ids, σ) := by
  induction ids with
  | nil => rfl
  | cons id ids ih =>
    unfold actionFirst
    rw [run_bind_of_ok skip (run_tryLockRow skip _ σ)]
    simp only [actionChoice, List.findSome?_cons]
    by_cases hact : skip (Key.actions id)
    · simp [hact, ih, actionChoice]
    · cases hrow : σ.lookup (Key.actions id) with
      | none => simp [hact, ih, actionChoice]
      | some act =>
        simp only [hact, Bool.false_eq_true, if_false, Bool.false_or]
        rw [run_bind_of_ok skip (run_tryLockRow skip _ σ)]
        by_cases hinv : skip (Key.investigations id)
        · simp [hinv, ih, actionChoice]
        · cases hi : σ.lookup (Key.investigations id) with
          | none => simp [hinv, ih, actionChoice]
          | some i =>
            by_cases hactionable : actionable now act <;>
              simp [hinv, hactionable, ih, actionChoice, Option.filter]

theorem actionChoice_eq_some {ids : List String} {id : String} {act : Action} {i : Investigation}
    (h : actionChoice now skip σ ids = some (id, act, i)) :
    σ.lookup (Key.actions id) = some act ∧ σ.lookup (Key.investigations id) = some i ∧
      actionable now act = true := by
  unfold actionChoice at h
  rw [List.findSome?_eq_some_iff] at h
  obtain ⟨_, id', _, -, hchoice, -⟩ := h
  split at hchoice
  · cases hchoice
  · simp only [Option.bind_eq_some_iff, Option.map_eq_some_iff, Option.filter_eq_some_iff] at hchoice
    obtain ⟨act', ⟨hact, hactionable⟩, i', hi, heq⟩ := hchoice
    cases heq
    exact ⟨hact, hi, hactionable⟩

/-- What the first transaction of `actionStep` returns: nothing, or the content
of the one action that it has just marked. -/
structure Begun (σ σ' : Store) (run : Option actionRun) : Prop where
  taken : ∀ r, run = some r → ∃ row row', σ.lookup (Key.actions r.Investigation) = some row ∧
    σ'.lookup (Key.actions r.Investigation) = some row' ∧ row'.state.dispatched = true ∧
    (r.Reconcile = false → row.state = .approved) ∧
    r = ⟨row.id, r.Investigation, row.target, row.title, row.body, row.marker, r.Reconcile⟩
  executing : ∀ id row row', σ.lookup (Key.actions id) = some row →
    σ'.lookup (Key.actions id) = some row' → row.state = .approved → row'.state = .executing →
    run = some ⟨row.id, id, row.target, row.title, row.body, row.marker, false⟩

/-- Nothing is returned when no action has started to execute. -/
theorem Begun.of_none {σ σ' : Store} (h : ∀ id row row', σ.lookup (Key.actions id) = some row →
    σ'.lookup (Key.actions id) = some row' → row.state = .approved → row'.state ≠ .executing) :
    Begun σ σ' none where
  taken _ hrun := by cases hrun
  executing id row row' hrow hrow' happroved hexecuting :=
    absurd hexecuting (h id row row' hrow hrow' happroved)

theorem Begun.of_mark {σ σ' : Store} {id : String} {row row' : Action}
    (hrow : σ.lookup (Key.actions id) = some row) (hrow' : σ'.lookup (Key.actions id) = some row')
    (hothers : ∀ id', id' ≠ id → σ'.lookup (Key.actions id') = σ.lookup (Key.actions id'))
    (hdispatched : row'.state.dispatched = true) :
    Begun σ σ' (some ⟨row.id, id, row.target, row.title, row.body, row.marker,
      row.state ≠ .approved⟩) where
  taken := by
    rintro _ ⟨⟩
    exact ⟨row, row', hrow, hrow', hdispatched, by simp, rfl⟩
  executing id₁ row₁ row₁' hrow₁ hrow₁' happroved hexecuting := by
    by_cases hid : id₁ = id
    · subst hid
      obtain rfl := Option.some.inj (hrow.symm.trans hrow₁)
      simp [happroved]
    · rw [hothers id₁ hid, hrow₁] at hrow₁'
      cases hrow₁'
      rw [happroved] at hexecuting
      cases hexecuting

theorem actionBegin_effect (hwf : Wf σ) :
    Ensures skip (actionBegin now) σ fun run σ' =>
      Effect a now skip σ .begin σ' ∧ Begun σ σ' run := by
  unfold actionBegin
  rw [ensures_bind, ensures_snapshot, ensures_bind, ensures_of_run_ok skip (run_actionFirst _)]
  cases hchoice : actionChoice now skip σ (actionCandidates now σ) with
  | none =>
    refine (ensures_ret skip).mpr ⟨.refl hwf, .of_none fun id row row' hrow hrow' happroved => ?_⟩
    obtain rfl := Option.some.inj (hrow.symm.trans hrow')
    simp [happroved]
  | some choice =>
    obtain ⟨id, act, i⟩ := choice
    obtain ⟨hact, hi, hactionable⟩ := actionChoice_eq_some hchoice
    obtain ⟨c, hc, rfl⟩ := hwf.caseOf_of_investigation hi
    obtain ⟨-, hj, hs, hact'⟩ := caseOf_eq_some.mp hc
    have hrow : c.action = some act := hact'.symm.trans hact
    simp only [ensures_bind, ensures_require, ensures_snapshot, ensures_ite, ensures_refuse,
      Tx.pure_eq_ret, ensures_ret]
    intro s hs'
    obtain rfl := Option.some.inj (hs.symm.trans hs')
    by_cases happroved : act.state = .approved
    · simp only [happroved, ne_eq, not_true_eq_false, decide_false, Bool.not_false, true_and]
      refine ⟨fun _ => ?_, fun hdispatchable s hs' htarget => ?_⟩
      · refine ensures_mark (a := a) hwf hc hrow rfl (fun _ => .approvalInvalidated hrow happroved) ?_
        refine fun σ' heffect hact' hothers => ⟨heffect, .of_none fun id' row row' hrow hrow' _ => ?_⟩
        by_cases hid : id' = id
        · subst hid
          obtain rfl := Option.some.inj (hact'.symm.trans hrow')
          simp
        · rw [hothers id' hid, hrow] at hrow'
          cases hrow'
          simp [*]
      · obtain rfl := Option.some.inj (hs.symm.trans hs')
        refine ensures_mark (a := a) hwf hc hrow rfl
          (fun _ => .dispatched hrow happroved (by simpa using hdispatchable) (not_not.mp htarget)) ?_
        exact fun σ' heffect hact' hothers =>
          ⟨heffect, by simpa [happroved] using Begun.of_mark hact hact' hothers rfl⟩
    · have hstate : act.state = .executing ∨ act.state = .unknown := by
        simp [actionable, happroved] at hactionable
        exact hactionable.1
      have hwaited : act.updated_at < now - seconds 15 := by
        simp [actionable, happroved] at hactionable
        exact hactionable.2
      simp only [happroved, ne_eq, not_false_eq_true, decide_true, Bool.not_true, Bool.false_eq_true,
        false_and, if_true, IsEmpty.forall_iff, true_and]
      intro _ _ _ _
      refine ensures_mark (a := a) hwf hc hrow rfl (fun _ => .reconciling hrow hstate hwaited) ?_
      exact fun σ' heffect hact' hothers =>
        ⟨heffect, by simpa [happroved] using Begun.of_mark hact hact' hothers rfl⟩

/-- The second transaction of `actionStep` is about the action that the first
one took up. -/
theorem actionFinish_effect (hwf : Wf σ) {r : actionRun} {row : Action}
    (result : Except String Json) (hrow : σ.lookup (Key.actions r.Investigation) = some row)
    (hid : row.id = r.ID) :
    Ensures skip (actionFinish now r result) σ fun _ σ' =>
      Effect a now skip σ (.finish r result) σ' := by
  obtain ⟨c, hc, hact⟩ := hwf.caseOf_of_action hrow
  unfold actionFinish
  rw [ensures_bind, ← hid]
  refine ensures_mark (a := a) hwf hc hact rfl (fun _ => ?_) fun σ' heffect _ _ => heffect
  exact .finished hact hid

end incidentdesk
