import IncidentDesk.Effects.Investigations

namespace incidentdesk

open sql sql.Tx

attribute [local simp] AList.lookup_insert_ne

variable {a : App} {now : Time} {skip : Key → Bool} {σ : Store}

theorem ensures_sweep {Q : Unit → Store → Prop} :
    Ensures skip (sweep now) σ Q ↔ Q () (sweptStore now σ) := by
  unfold sweep sweptStore
  refine (ensures_bind skip).trans ((ensures_updateAll skip).trans ?_)
  exact (ensures_bind skip).trans ((ensures_updateAll skip).trans (ensures_ret skip))

theorem caseOf_sweptStore (hwf : Wf σ) (id : String) :
    caseOf (sweptStore now σ) id = (caseOf σ id).map fun c =>
      if exhausted now c.job then
        { c with
          investigation := { c.investigation with status := .failed }
          job := { c.job with state := .failed, last_error := some "retry_limit" } }
      else c := by
  cases hi : σ.lookup (Key.investigations id) with
  | none => simp [caseOf, sweptStore, hi]
  | some i =>
    obtain ⟨j, s, hj, hs, hc⟩ := hwf.rows hi
    rw [hc]
    by_cases hexhausted : exhausted now j <;> simp [caseOf, sweptStore, hi, hj, hs, hexhausted]

theorem evolves_sweptStore : Evolves σ (sweptStore now σ) := by
  refine .updateRows (.updateRows (.refl σ) ?_) ?_ <;> intro key row <;> cases key <;> simp [Key.keeps]

theorem run_claimFirst (ids : List String) :
    run skip (claimFirst now ids) σ = .ok (claimChoice now skip σ ids, σ) := by
  induction ids with
  | nil => rfl
  | cons id ids ih =>
    unfold claimFirst
    rw [run_bind_of_ok skip (run_tryLockRow skip _ σ)]
    simp only [claimChoice, List.findSome?_cons]
    by_cases hjob : skip (Key.jobs id)
    · simp [hjob, ih, claimChoice]
    · cases hj : σ.lookup (Key.jobs id) with
      | none => simp [hjob, ih, claimChoice]
      | some job =>
        simp only [hjob, Bool.false_eq_true, if_false, Bool.false_or]
        rw [run_bind_of_ok skip (run_tryLockRow skip _ σ)]
        by_cases hinv : skip (Key.investigations id)
        · simp [hinv, ih, claimChoice]
        · cases hi : σ.lookup (Key.investigations id) with
          | none => simp [hinv, ih, claimChoice]
          | some i =>
            by_cases hclaimable : claimable now job i <;>
              simp [hinv, hclaimable, ih, claimChoice, Option.filter]

theorem claimChoice_eq_some {ids : List String} {id : String} {i : Investigation}
    (h : claimChoice now skip σ ids = some (id, i)) :
    ∃ job, σ.lookup (Key.jobs id) = some job ∧ σ.lookup (Key.investigations id) = some i ∧
      claimable now job i = true := by
  unfold claimChoice at h
  rw [List.findSome?_eq_some_iff] at h
  obtain ⟨_, id', _, -, hchoice, -⟩ := h
  split at hchoice
  · cases hchoice
  · simp only [Option.bind_eq_some_iff, Option.map_eq_some_iff, Option.filter_eq_some_iff] at hchoice
    obtain ⟨job, hj, _, ⟨hi, hclaimable⟩, heq⟩ := hchoice
    cases heq
    exact ⟨job, hj, hi, hclaimable⟩

/-- A task that is taken after the sweep was not swept. -/
theorem claimChoice_sweptStore (hwf : Wf σ) {ids : List String} {id : String} {i : Investigation}
    (h : claimChoice now skip (sweptStore now σ) ids = some (id, i)) :
    ∃ c, caseOf σ id = some c ∧ caseOf (sweptStore now σ) id = some c ∧ c.investigation = i ∧
      claimable now c.job c.investigation = true := by
  obtain ⟨job, hj, hi, hclaimable⟩ := claimChoice_eq_some h
  obtain ⟨c', hc', rfl⟩ := (hwf.evolves evolves_sweptStore).caseOf_of_investigation hi
  obtain rfl : c'.job = job := Option.some.inj ((caseOf_eq_some.mp hc').2.1.symm.trans hj)
  have hswept := hc'
  rw [caseOf_sweptStore hwf, Option.map_eq_some_iff] at hswept
  obtain ⟨c, hc, hc_swept⟩ := hswept
  by_cases hexhausted : exhausted now c.job
  · rw [if_pos hexhausted] at hc_swept
    subst hc_swept
    simp [claimable] at hclaimable
  · rw [if_neg hexhausted] at hc_swept
    subst hc_swept
    exact ⟨c, hc, hc', rfl, hclaimable⟩

theorem sweep_cases (hwf : Wf σ) (σ' : Store) (owner id : String) :
    CaseStep a now skip σ σ' id (.request (.claim owner)) (caseOf σ id)
      (caseOf (sweptStore now σ) id) := by
  rw [caseOf_sweptStore hwf]
  cases caseOf σ id with
  | none => exact .unchanged
  | some c =>
    rw [Option.map_some]
    by_cases hexhausted : exhausted now c.job
    · rw [if_pos hexhausted]
      exact .swept hexhausted
    · rw [if_neg hexhausted]
      exact .unchanged

theorem sweep_effect (hwf : Wf σ) (owner : String) :
    Effect a now skip σ (.request (.claim owner)) (sweptStore now σ) where
  wf := hwf.evolves evolves_sweptStore
  cases := sweep_cases hwf _ owner
  approvals approval row hrow := by simpa [sweptStore] using hrow

/-- What `claim` does after the sweep is about the task that it has taken. -/
theorem Effect.of_target {owner : String} {σ' : Store} (hwf : Wf σ) (id : String) (wf : Wf σ')
    (hcase : CaseStep a now skip σ σ' id (.request (.claim owner)) (caseOf σ id) (caseOf σ' id))
    (hothers : ∀ id', id' ≠ id → caseOf σ' id' = caseOf (sweptStore now σ) id')
    (happrovals : ∀ approval, σ'.lookup (Key.approvals approval) =
      (sweptStore now σ).lookup (Key.approvals approval)) :
    Effect a now skip σ (.request (.claim owner)) σ' where
  wf := wf
  cases id' := by
    by_cases hid : id' = id
    · subst hid
      exact hcase
    · rw [hothers id' hid]
      exact sweep_cases hwf σ' owner id'
  approvals approval row hrow := by
    rw [happrovals approval]
    simpa [sweptStore] using hrow

theorem member_sweptStore (subject team : String) (approve : Bool) :
    member (sweptStore now σ) subject team approve = member σ subject team approve := by
  simp [member, sweptStore]

theorem claim_effect (hwf : Wf σ) (owner : String) :
    Ensures skip (claim a now owner) σ fun _ σ' =>
      Effect a now skip σ (.request (.claim owner)) σ' := by
  unfold claim
  simp only [ensures_bind, ensures_refuse, ensures_lockRow, ensures_sweep, ensures_snapshot,
    ensures_ite, Tx.pure_eq_ret, ensures_ret]
  intro hsize
  refine ⟨fun _ => sweep_effect hwf owner, fun hactive => ?_⟩
  rw [ensures_of_run_ok skip (run_claimFirst _)]
  cases hchoice : claimChoice now skip (sweptStore now σ) (claimCandidates now (sweptStore now σ)) with
  | none => exact (ensures_ret skip).mpr (sweep_effect hwf owner)
  | some choice =>
    obtain ⟨id, i⟩ := choice
    obtain ⟨c, hc, hc_swept, rfl, hclaimable⟩ := claimChoice_sweptStore hwf hchoice
    have htarget : claimTarget a now skip σ = some (id, c.investigation) := by
      simp only [claimTarget, if_neg hactive, hchoice]
    obtain ⟨hi, hj, hs, hact⟩ := caseOf_eq_some.mp hc_swept
    simp only [ensures_bind, ensures_snapshot]
    rw [member_sweptStore]
    cases hmember : member σ c.investigation.subject c.investigation.team false with
    | error =>
      simp only [revokeTask, ensures_bind, ensures_updateOne, Tx.pure_eq_ret, ensures_ret]
      refine .of_target hwf id (hwf.evolves ?_) ?_ ?_ ?_
      · refine .updateOne (.updateOne evolves_sweptStore ?_) ?_ <;> simp [Key.keeps]
      · rw [hc]
        convert CaseStep.revoked htarget hclaimable using 1
        simp [caseOf, hi, hj, hs, hact]
      · intro id' hid
        simp [caseOf, hid]
      · intro approval
        simp
    | ok =>
      simp only [claimTask, ensures_bind, ensures_updateOne, ensures_event, ensures_snapshot,
        ensures_require, Tx.pure_eq_ret, ensures_ret]
      intro i hi' _ _ _
      refine .of_target hwf id (hwf.evolves ?_) ?_ ?_ ?_
      · refine .insert_untracked (.insert (.updateOne (.updateOne evolves_sweptStore ?_) ?_) hi' ?_) rfl _
          <;> simp [Key.keeps]
      · simp [hi] at hi'
        subst hi'
        rw [hc]
        have hmember : isMember σ c.investigation.subject c.investigation.team false = true := by
          simp [isMember, hmember, Except.isOk, Except.toBool]
        have hsize : 1 ≤ owner.utf8ByteSize ∧ owner.utf8ByteSize ≤ 128 := by
          simpa only [not_or, not_lt] using hsize
        convert CaseStep.claimed hsize htarget hclaimable hmember using 1
        simp [caseOf, hj, hs, hact, currentWatermark]
      · intro id' hid
        simp [caseOf, hid]
      · intro approval
        simp

/-- Past the fence, the callback comes from the holder of a live lease. -/
theorem ensures_fence (hwf : Wf σ) {id : String} {b : Callback} {Q : String → Store → Prop}
    (h : ∀ c, caseOf σ id = some c → Fenced now b c → Q c.investigation.subject σ) :
    Ensures skip (fence now id b) σ Q := by
  unfold fence
  simp only [ensures_bind, ensures_snapshot, ensures_require, ensures_lockRow, ensures_refuse,
    ensures_ofExcept, Tx.pure_eq_ret, ensures_ret]
  intro _ _ _ _ job hj i hi owner howner hfence _ _
  obtain ⟨c, hc, rfl⟩ := hwf.caseOf_of_investigation hi
  obtain rfl : c.job = job := Option.some.inj ((caseOf_eq_some.mp hc).2.1.symm.trans hj)
  simp only [not_or, ne_eq, not_not] at hfence
  obtain ⟨rfl, hgeneration, hrunning, hlive⟩ := hfence
  exact h c hc ⟨howner, hgeneration, hrunning, hlive⟩

/-- The operations that only append an event. -/
theorem event_effect (hwf : Wf σ) {id op kind : String} {b : Callback} {payload : Json} {c : Case}
    (hc : caseOf σ id = some c) (hfence : Fenced now b c) :
    Ensures skip (event id kind payload) σ fun _ σ' =>
      Effect a now skip σ (.request (.callback id op b)) σ' := by
  rw [ensures_event]
  intro i hi _
  refine .of_case id (hwf.evolves ?_) ?_ ?_ ?_
  · refine .insert_untracked (.insert (.refl σ) hi ?_) rfl _
    simp [Key.keeps]
  · obtain ⟨hi', hj, hs, hact⟩ := caseOf_eq_some.mp hc
    obtain rfl := Option.some.inj (hi'.symm.trans hi)
    rw [hc]
    convert CaseStep.noted hfence using 1
    simp [caseOf, hj, hs, hact]
  · intro id' hid
    simp [caseOf, hid]
  · intro approval row hrow
    simpa using hrow

theorem acceptResult_effect (hwf : Wf σ) {id : String} {b : Callback} {c : Case}
    (hc : caseOf σ id = some c) (hfence : Fenced now b c) :
    Ensures skip (acceptResult a id b) σ fun _ σ' =>
      Effect a now skip σ (.request (.callback id "result" b)) σ' := by
  unfold acceptResult
  simp only [ensures_bind, ensures_snapshot, ensures_require, ensures_refuse, ensures_ofExcept,
    ensures_updateOne, ensures_event]
  obtain ⟨hi, hj, hs, hact⟩ := caseOf_eq_some.mp hc
  intro i hi' s hs' hfresh hvalid status hstatus _ _ i' hi'' _
  obtain rfl := Option.some.inj (hi.symm.trans hi')
  obtain rfl := Option.some.inj (hs.symm.trans hs')
  refine .of_case id (hwf.evolves ?_) ?_ ?_ ?_
  · refine .insert_untracked (.insert (.updateOne (.updateOne (.refl σ) ?_) ?_) hi'' ?_) rfl _
      <;> simp [Key.keeps]
  · simp [hi] at hi''
    subst hi''
    simp only [not_or] at hvalid
    rw [hc]
    convert CaseStep.accepted hfence (not_not.mp hfresh) hvalid.1 hstatus using 1
    simp [caseOf, hj, hs, hact]
  · intro id' hid
    simp [caseOf, hid]
  · intro approval row hrow
    simpa using hrow

theorem requeue_effect (hwf : Wf σ) {id : String} {b : Callback} {c : Case}
    (hc : caseOf σ id = some c) (hfence : Fenced now b c) :
    Ensures skip (requeue now id b) σ fun _ σ' =>
      Effect a now skip σ (.request (.callback id "failure" b)) σ' := by
  unfold requeue
  simp only [ensures_bind, ensures_updateOne, Tx.pure_eq_ret, ensures_ret]
  obtain ⟨hi, hj, hs, hact⟩ := caseOf_eq_some.mp hc
  refine .of_case id (hwf.evolves ?_) ?_ ?_ ?_
  · refine .updateOne (.updateOne (.refl σ) ?_) ?_ <;> simp [Key.keeps]
  · rw [hc]
    convert CaseStep.requeued hfence using 1
    simp [caseOf, hi, hj, hs, hact]
  · intro id' hid
    simp [caseOf, hid]
  · intro approval row hrow
    simpa using hrow

theorem heartbeat_effect (hwf : Wf σ) {id : String} {b : Callback} {c : Case}
    (hc : caseOf σ id = some c) (hfence : Fenced now b c) :
    Effect a now skip σ (.request (.callback id "heartbeat" b))
      (Store.updateOne (Key.jobs id) (fun _ => true)
        (fun row => { row with lease_until := some (now + seconds a.Lease) }) σ) := by
  obtain ⟨hi, hj, hs, hact⟩ := caseOf_eq_some.mp hc
  refine .of_case id (hwf.evolves ?_) ?_ ?_ ?_
  · refine .updateOne (.refl σ) ?_
    simp [Key.keeps]
  · rw [hc]
    convert CaseStep.heartbeat hfence using 1
    simp [caseOf, hi, hj, hs, hact]
  · intro id' hid
    simp [caseOf, hid]
  · intro approval row hrow
    simpa using hrow

theorem fencedCallback_effect (hwf : Wf σ) (id op : String) (b : Callback) :
    Ensures skip (fencedCallback a now id op b) σ fun _ σ' =>
      Effect a now skip σ (.request (.callback id op b)) σ' := by
  unfold fencedCallback
  rw [ensures_bind]
  refine ensures_fence hwf fun c hc hfence => ?_
  simp only [ensures_ite, ensures_bind, ensures_updateOne, ensures_refuse, Tx.pure_eq_ret, ensures_ret]
  refine ⟨?sandbox, fun _ => ⟨?heartbeat, fun _ => ⟨?authorize, fun _ => ⟨?event, fun _ =>
    ⟨?result, fun _ => ⟨?failure, fun _ => ensures_raise skip⟩⟩⟩⟩⟩⟩
  case sandbox => exact fun _ => event_effect hwf hc hfence
  case heartbeat =>
    rintro rfl
    exact heartbeat_effect hwf hc hfence
  case authorize =>
    intro _
    simp only [authorize, ensures_bind, ensures_snapshot, ensures_require, ensures_refuse,
      Tx.pure_eq_ret, ensures_ret]
    intro _ _ _ _ _
    exact event_effect hwf hc hfence
  case event => exact fun _ _ => event_effect hwf hc hfence
  case result =>
    rintro rfl
    exact acceptResult_effect hwf hc hfence
  case failure =>
    rintro rfl
    exact requeue_effect hwf hc hfence

/-- The replay shortcut changes nothing. -/
theorem ensures_replayed {id : String} {b : Callback} {Q : Bool → Store → Prop}
    (h : ∀ replay, Q replay σ) : Ensures skip (replayed a id b) σ Q := by
  unfold replayed
  simp only [ensures_bind, ensures_selectForUpdate, ensures_require, ensures_ite, ensures_refuse,
    Tx.pure_eq_ret, ensures_ret]
  exact fun _ _ => ⟨fun _ _ => h true, fun _ => h false⟩

theorem callback_effect (hwf : Wf σ) (id op : String) (b : Callback) :
    Ensures skip (callback a now id op b) σ fun _ σ' =>
      Effect a now skip σ (.request (.callback id op b)) σ' := by
  unfold callback
  simp only [ensures_ite, ensures_bind, Tx.pure_eq_ret, ensures_ret]
  exact ⟨fun _ => ensures_replayed fun replay =>
    ⟨fun _ => .refl hwf, fun _ => fencedCallback_effect hwf id op b⟩,
    fun _ => fencedCallback_effect hwf id op b⟩

end incidentdesk
