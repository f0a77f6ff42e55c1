import IncidentDesk.Leases
import IncidentDesk.Seed
import IncidentDesk.Streams

namespace incidentdesk

open sql sql.Tx

variable {a : App} {now : Time} {skip : Key → Bool} {σ σ' : Store}

/-- A job has used at most four attempts, and has none left over from an
earlier lease when it waits in the queue again. -/
structure Job.Bounded (job : Job) : Prop where
  attempts : job.attempts ≤ 4
  queued : job.state = .queued → job.attempts = 0 ∨ job.lease_until = none

/-- A job that is handed out has attempts left: one without was swept before. -/
theorem attempts_lt_of_claimTarget (hwf : Wf σ) {id : String} {c : Case}
    (hc : caseOf σ id = some c) (hbounded : c.job.Bounded)
    (htarget : claimTarget a now skip σ = some (id, c.investigation)) : c.job.attempts < 4 := by
  unfold claimTarget at htarget
  dsimp only at htarget
  split at htarget
  · cases htarget
  · obtain ⟨c', hc', hc_swept, -, hclaimable⟩ := claimChoice_sweptStore hwf htarget
    obtain rfl := Option.some.inj (hc.symm.trans hc')
    have hexhausted : exhausted now c.job = false := by
      rw [caseOf_sweptStore hwf, hc, Option.map_some] at hc_swept
      by_contra hexhausted
      rw [Bool.not_eq_false] at hexhausted
      rw [if_pos hexhausted, Option.some.injEq] at hc_swept
      rw [← hc_swept] at hclaimable
      simp [claimable] at hclaimable
    by_contra hattempts
    have hle : 4 ≤ c.job.attempts := by omega
    have hstate : c.job.state = .queued ∧ c.job.lease_until = none ∨
        c.job.state = .running ∧ ∃ lease, c.job.lease_until = some lease ∧ lease < now := by
      simp only [claimable, Bool.and_eq_true, Bool.or_eq_true, decide_eq_true_eq] at hclaimable
      obtain ⟨⟨hqueued, -⟩ | ⟨hrunning, hlease⟩, -⟩ := hclaimable
      · have hlease := hbounded.queued hqueued
        exact .inl ⟨hqueued, hlease.resolve_left (by omega)⟩
      · rw [Option.any_eq_true] at hlease
        obtain ⟨lease, hlease, hlt⟩ := hlease
        exact .inr ⟨hrunning, lease, hlease, by simpa using hlt⟩
    obtain ⟨hstate, hlease⟩ | ⟨hstate, lease, hlease, hlt⟩ := hstate
    · simp [exhausted, hstate, hlease, hle] at hexhausted
    · simp [exhausted, hstate, hlease, hle, hlt] at hexhausted

theorem CaseStep.bounded (hwf : Wf σ) {id : String} {txn : Transaction} {c' : Case}
    (hx : ∀ c, caseOf σ id = some c → c.job.Bounded)
    (h : CaseStep a now skip σ σ' id txn (caseOf σ id) (some c')) : c'.job.Bounded := by
  generalize hc : caseOf σ id = x at h
  cases h with
  | created => exact ⟨by simp [newJob], fun _ => .inl rfl⟩
  | resumed => exact ⟨by simp, fun _ => .inl rfl⟩
  | cancelled | swept | revoked | accepted => exact ⟨(hx _ hc).attempts, fun hstate => by cases hstate⟩
  | claimed _ htarget =>
    have hlt := attempts_lt_of_claimTarget hwf hc (hx _ hc) htarget
    exact ⟨by simp only; omega, fun hstate => by cases hstate⟩
  | heartbeat hfence =>
    refine ⟨(hx _ hc).attempts, fun hstate => ?_⟩
    simp only [hfence.running] at hstate
    cases hstate
  | requeued => exact ⟨(hx _ hc).attempts, fun _ => .inr rfl⟩
  | unchanged | noted | drafted | approved | rejected | reconcileRequested | sourceChanged | approvalInvalidated
  | dispatched | reconciling | finished =>
    have hbounded := hx _ hc
    exact hbounded

theorem bounded_after (hσ : Initial σ) (now : Time) (ops : List Op) {id : String} {c : Case}
    (hc : caseOf (World.after a σ now ops).store id = some c) : c.job.Bounded :=
  World.case_invariant (P := fun _ c => c.job.Bounded) hσ
    (fun _ _ _ _ _ hw _ ih hstep => hstep.bounded hw.wf ih) ops hc

/-- The attempts that an investigation has used. -/
def attemptsOf (σ : Store) (id : String) : Nat := ((σ.lookup (Key.jobs id)).map (·.attempts)).getD 0

theorem attemptsOf_eq {id : String} {c : Case} (hc : caseOf σ id = some c) : attemptsOf σ id = c.job.attempts := by
  rw [attemptsOf, (caseOf_eq_some.mp hc).2.1, Option.map_some, Option.getD_some]

theorem attemptsOf_le_four (hσ : Initial σ) (now : Time) (ops : List Op) (id : String) :
    attemptsOf (World.after a σ now ops).store id ≤ 4 := by
  rw [attemptsOf, (World.sound_after hσ now ops).wf.lookup_jobs]
  cases hc : caseOf (World.after a σ now ops).store id with
  | none => exact Nat.zero_le _
  | some c => exact (bounded_after hσ now ops hc).attempts

/-- The task that a claim hands out. -/
def World.handsOut (a : App) (w : World) : Op → Option String
  | .request (.claim owner) skip =>
    match (claim a w.now owner).run skip w.store with
    | .ok (some task, _) => some task.id
    | _ => none
  | _ => none

/-- A resume of the investigation goes through. -/
def Resumes (a : App) (id : String) (w : World) (op : Op) : Prop :=
  ∃ information skip, op = .request (.resume id information) skip ∧ w.Commits a (.resume id information) skip

theorem attemptsOf_sweptStore (now : Time) (id : String) : attemptsOf (sweptStore now σ) id = attemptsOf σ id := by
  simp only [attemptsOf, sweptStore, Store.lookup_updateRows, Option.map_map]
  cases σ.lookup (Key.jobs id) with
  | none => rfl
  | some job => by_cases hexhausted : exhausted now job <;> simp [hexhausted]

/-- A claim uses one attempt of the task that it hands out, and none of any other. -/
theorem claim_attempts (hwf : Wf σ) (owner : String) : Ensures skip (claim a now owner) σ fun task σ' =>
    (∀ t, task = some t → attemptsOf σ' t.id = attemptsOf σ t.id + 1) ∧
      ∀ id, attemptsOf σ' id ≠ attemptsOf σ id → ∃ t, task = some t ∧ t.id = id := by
  unfold claim
  simp only [ensures_bind, ensures_refuse, ensures_lockRow, ensures_sweep, ensures_snapshot,
    ensures_ite, Tx.pure_eq_ret, ensures_ret]
  refine fun _ => ⟨fun _ => by simp [attemptsOf_sweptStore], fun _ => ?_⟩
  rw [ensures_of_run_ok skip (run_claimFirst _)]
  cases hchoice : claimChoice now skip (sweptStore now σ) (claimCandidates now (sweptStore now σ)) with
  | none => exact (ensures_ret skip).mpr (by simp [attemptsOf_sweptStore])
  | some choice =>
    obtain ⟨id, i⟩ := choice
    obtain ⟨c, hc, hc_swept, rfl, -⟩ := claimChoice_sweptStore hwf hchoice
    obtain ⟨-, hj, -, -⟩ := caseOf_eq_some.mp hc_swept
    simp only [ensures_bind, ensures_snapshot]
    cases member (sweptStore now σ) c.investigation.subject c.investigation.team false with
    | error =>
      simp only [revokeTask, ensures_bind, ensures_updateOne, Tx.pure_eq_ret, ensures_ret]
      refine ⟨by simp, fun id' hid => absurd ?_ hid⟩
      refine Eq.trans ?_ (attemptsOf_sweptStore now id')
      by_cases hid : id' = id
      · subst hid
        simp [attemptsOf, hj]
      · simp [attemptsOf, hid]
    | ok =>
      simp only [claimTask, ensures_bind, ensures_updateOne, ensures_event, ensures_snapshot,
        ensures_require, Tx.pure_eq_ret, ensures_ret]
      intro i hi _ task htask
      have htaskid : task.id = id := by
        simp only [claimedTask, Option.bind_eq_some_iff, Option.map_eq_some_iff] at htask
        obtain ⟨_, -, _, -, rfl⟩ := htask
        rfl
      refine ⟨?_, fun id' hid => ⟨task, rfl, ?_⟩⟩
      · rintro t ⟨⟩
        rw [htaskid, attemptsOf_eq hc]
        simp [attemptsOf, hj, AList.lookup_insert_ne]
      · by_contra hne
        rw [htaskid] at hne
        refine hid (Eq.trans ?_ (attemptsOf_sweptStore now id'))
        simp [attemptsOf, Ne.symm hne, AList.lookup_insert_ne]

section Step

variable {w : World} {op : Op} {id : String}

/-- A request that is refused changes nothing. -/
theorem World.store_of_not_commits {r : Request} (h : ¬ w.Commits a r skip) :
    (World.step a w (.request r skip)).store = w.store := by
  change commit skip (r.body a w.now) w.store = w.store
  unfold commit
  cases hrun : (r.body a w.now).run skip w.store with
  | error => rfl
  | ok outcome => exact absurd ⟨outcome.2, hrun⟩ h

theorem CaseStep.attempts_le {txn : Transaction} {c : Case} {x' : Option Case}
    (h : CaseStep a now skip σ σ' id txn (some c) x') (hresume : ∀ information, txn ≠ .request (.resume id information)) :
    ∃ c', x' = some c' ∧ c.job.attempts ≤ c'.job.attempts := by
  cases h with
  | resumed => exact absurd rfl (hresume _)
  | claimed => exact ⟨_, rfl, Nat.le_succ _⟩
  | _ => exact ⟨_, rfl, le_rfl⟩

/-- Unless the investigation is resumed, a step takes no attempt back. -/
theorem World.Sound.attempts_le (hw : w.Sound) (hresume : ¬ Resumes a id w op) :
    attemptsOf w.store id ≤ attemptsOf (World.step a w op).store id := by
  obtain ⟨-, hstore | ⟨txn, htxn, heffect⟩⟩ := hw.step (a := a) op
  · rw [hstore]
  · cases hc : caseOf w.store id with
    | none =>
      rw [attemptsOf, hw.wf.lookup_jobs, hc]
      exact Nat.zero_le _
    | some c =>
      by_cases htxn' : ∃ information, txn = .request (.resume id information)
      · obtain ⟨information, rfl⟩ := htxn'
        obtain ⟨skip, rfl⟩ := World.transaction_eq_request htxn
        have hrefused : ¬ w.Commits a (.resume id information) skip := fun hcommits =>
          hresume ⟨information, skip, rfl, hcommits⟩
        rw [World.store_of_not_commits hrefused]
      · have hstep := heffect.cases id
        rw [hc] at hstep
        obtain ⟨c', hc', hle⟩ := hstep.attempts_le fun information h => htxn' ⟨information, h⟩
        rwa [attemptsOf_eq hc, attemptsOf_eq hc']

theorem World.store_of_run {r : Request} {σ' : Store} (hrun : (r.body a w.now).run skip w.store = .ok ((), σ')) :
    (World.step a w (.request r skip)).store = σ' := by
  change commit skip (r.body a w.now) w.store = σ'
  rw [commit, hrun]

theorem World.store_of_discard {α : Type} {r : Request} {body : Tx α} {value : α} {σ' : Store}
    (hbody : r.body a w.now = discard body) (hrun : body.run skip w.store = .ok (value, σ')) :
    (World.step a w (.request r skip)).store = σ' := by
  have hdiscard : discard body = body >>= fun _ => .ret () := rfl
  apply World.store_of_run
  rw [hbody, hdiscard, run_bind_of_ok skip hrun]
  rfl

/-- The operation that hands a task out raises its attempts. -/
theorem World.Sound.attempts_of_handsOut (hw : w.Sound) (h : w.handsOut a op = some id) :
    attemptsOf (World.step a w op).store id = attemptsOf w.store id + 1 := by
  unfold World.handsOut at h
  split at h
  · rename_i owner skip
    split at h
    · rename_i task σ' hrun
      cases h
      have hattempts := (claim_attempts hw.wf owner (some task) σ' hrun).1 task rfl
      rw [World.store_of_discard rfl hrun, hattempts]
    · cases h
  · cases h

/-- A claim that uses an attempt hands the task out. -/
theorem World.Sound.handsOut_of_attempts (hw : w.Sound) {owner : String}
    (h : attemptsOf (World.step a w (.request (.claim owner) skip)).store id ≠ attemptsOf w.store id) :
    w.handsOut a (.request (.claim owner) skip) = some id := by
  cases hrun : (claim a w.now owner).run skip w.store with
  | error =>
    have hrefused : ¬ w.Commits a (.claim owner) skip := by
      rintro ⟨σ', hcommits⟩
      have hdiscard : discard (claim a w.now owner) = claim a w.now owner >>= fun _ => .ret () := rfl
      change (discard (claim a w.now owner)).run skip w.store = .ok ((), σ') at hcommits
      rw [hdiscard, run_bind, hrun] at hcommits
      cases hcommits
    exact absurd (congrArg (attemptsOf · id) (World.store_of_not_commits hrefused)) h
  | ok outcome =>
    obtain ⟨task, σ'⟩ := outcome
    rw [World.store_of_discard rfl hrun] at h
    obtain ⟨t, rfl, hid⟩ := (claim_attempts hw.wf owner task σ' hrun).2 id h
    simp [World.handsOut, hrun, hid]

end Step

/-- Between two resumes a task is handed out at most four times. -/
theorem handedOut_le (hσ : Initial σ) (now : Time) (ops ops' : List Op) (id : String)
    (hresume : machine.Always (World.step a) (fun w op => ¬ Resumes a id w op) (World.after a σ now ops) ops') :
    machine.count (World.step a) (fun w op => w.handsOut a op = some id) (World.after a σ now ops) ops' ≤ 4 := by
  have hcount : attemptsOf (World.after a σ now ops).store id + machine.count (World.step a)
      (fun w op => w.handsOut a op = some id) (World.after a σ now ops) ops' ≤
        attemptsOf (machine.run (World.step a) (World.after a σ now ops) ops').store id := by
    refine machine.count_le (I := World.Sound) (φ := fun w : World => attemptsOf w.store id) (fun w op hw hresume => ?_)
      (World.sound_after hσ now ops) hresume
    refine ⟨(hw.step op).1, ?_⟩
    by_cases hhands : w.handsOut a op = some id
    · rw [if_pos (decide_eq_true hhands)]
      exact (hw.attempts_of_handsOut hhands).ge
    · rw [if_neg (by simpa using hhands)]
      exact hw.attempts_le hresume
  have hrun : World.after a σ now (ops ++ ops') =
      machine.run (World.step a) (World.after a σ now ops) ops' := machine.run_append _ _ _ _
  have hbound := attemptsOf_le_four (a := a) hσ now (ops ++ ops') id
  rw [hrun] at hbound
  omega

/-- A transaction that runs alone leaves the streams complete. -/
theorem numbered_commit (hσ : Numbered σ.lookup) (txn : Transaction) :
    Numbered (commit skip (txn.body a now) σ).lookup := by
  unfold commit
  cases hrun : (txn.body a now).run skip σ with
  | error => exact hσ
  | ok outcome =>
    have hproved := streams_proved a
    obtain ⟨ℓ, hℓ, hmet, hview⟩ := wp_run (fun _ _ _ => trivial) skip (.start hσ) (fun _ => rfl)
      (hproved.wp (now, txn) σ hσ) hrun
    have hinv : Numbered ℓ.commit.lookup := hproved.inv (now, txn) ℓ hmet.obeys hmet.inv hℓ
    intro id n
    have hnumbered := hinv id n
    simpa only [lastSeq, Local.lookup_commit, hview] using hnumbered

theorem numbered_after (hσ : Initial σ) (now : Time) (ops : List Op) :
    Numbered (World.after a σ now ops).store.lookup := by
  refine machine.run_invariant (I := fun w : World => Numbered w.store.lookup) ?_ (fun w op hw => ?_) ops
  · intro id n
    simp [World.init, lastSeq, hσ (Key.events id n) rfl, hσ (Key.investigations id) rfl]
    omega
  · rw [World.store_step]
    cases w.transaction op with
    | none => exact hw
    | some txn => exact numbered_commit hw txn

/-- The number after the last one of a stream is free. -/
theorem Numbered.next_free (h : Numbered σ.lookup) {id : String} {i : Investigation}
    (hi : σ.lookup (Key.investigations id) = some i) : σ.lookup (Key.events id (i.seq + 1)) = none := by
  have hnext := h id (i.seq + 1)
  have hlast : lastSeq σ.lookup id = i.seq := by simp [lastSeq, hi]
  rw [hlast] at hnext
  rw [← Option.not_isSome_iff_eq_none, hnext]
  omega

theorem succeeds_event {id kind : String} {payload : Json} {i : Investigation} {Q : Unit → Store → Prop}
    (hi : σ.lookup (Key.investigations id) = some i) (hfree : σ.lookup (Key.events id (i.seq + 1)) = none) :
    Succeeds skip (event id kind payload) σ Q ↔
      Q () ((σ.insert (Key.investigations id) { i with seq := i.seq + 1 }).insert (Key.events id (i.seq + 1))
        { kind, payload }) := by
  simp [event, hi, hfree, Store.updateOne, AList.lookup_insert_ne, Option.filter]

/-- A task whose rows are there is handed out, and nothing else changes. -/
theorem succeeds_claimTask {id : String} {owner : String} {i : Investigation} {job : Job}
    (hi : σ.lookup (Key.investigations id) = some i) (hjob : σ.lookup (Key.jobs id) = some job)
    (hfree : σ.lookup (Key.events id (i.seq + 1)) = none) :
    Succeeds skip (claimTask a now owner id) σ fun _ σ' => ∀ id', id' ≠ id →
      σ'.lookup (Key.jobs id') = σ.lookup (Key.jobs id') ∧
        σ'.lookup (Key.investigations id') = σ.lookup (Key.investigations id') := by
  simp only [claimTask, succeeds_bind, succeeds_updateOne]
  rw [succeeds_event (by simp [hi]; rfl) (by simpa using hfree), succeeds_snapshot, succeeds_require]
  refine ⟨_, by simp [claimedTask, hjob, AList.lookup_insert_ne]; rfl, ?_⟩
  rw [Tx.pure_eq_ret, succeeds_ret]
  intro id' hid
  simp [hid, AList.lookup_insert_ne]

/-- A claim fails the exhausted jobs, and goes through whatever it finds. -/
theorem claim_sweeps (hwf : Wf σ) (hnumbered : Numbered σ.lookup) {owner : String}
    (howner : 1 ≤ owner.utf8ByteSize ∧ owner.utf8ByteSize ≤ 128) :
    Succeeds skip (claim a now owner) σ fun _ σ' => ∀ id job, σ.lookup (Key.jobs id) = some job →
      exhausted now job = true → ∃ job' i', σ'.lookup (Key.jobs id) = some job' ∧ job'.state = .failed ∧
        σ'.lookup (Key.investigations id) = some i' ∧ i'.status = .failed := by
  have hsweep (Q : Unit → Store → Prop) : Succeeds skip (sweep now) σ Q ↔ Q () (sweptStore now σ) := by
    unfold sweep sweptStore
    refine (succeeds_bind skip).trans ((succeeds_updateAll skip).trans ?_)
    exact (succeeds_bind skip).trans ((succeeds_updateAll skip).trans (succeeds_ret skip))
  have hswept (id : String) (job : Job) (hjob : σ.lookup (Key.jobs id) = some job)
      (hexhausted : exhausted now job = true) : ∃ c, caseOf (sweptStore now σ) id = some c ∧
        c.job.state = .failed ∧ c.investigation.status = .failed := by
    obtain ⟨c, hc, rfl⟩ := hwf.caseOf_of_job hjob
    rw [caseOf_sweptStore hwf, hc, Option.map_some, if_pos hexhausted]
    exact ⟨_, rfl, rfl, rfl⟩
  have hdone (σ' : Store) (id' : String) (hlookup : ∀ id, id ≠ id' →
      σ'.lookup (Key.jobs id) = (sweptStore now σ).lookup (Key.jobs id) ∧
        σ'.lookup (Key.investigations id) = (sweptStore now σ).lookup (Key.investigations id))
      (htarget : ∀ c, caseOf (sweptStore now σ) id' = some c → claimable now c.job c.investigation = true)
      (id : String) (job : Job) (hjob : σ.lookup (Key.jobs id) = some job) (hexhausted : exhausted now job = true) :
      ∃ job' i', σ'.lookup (Key.jobs id) = some job' ∧ job'.state = .failed ∧
        σ'.lookup (Key.investigations id) = some i' ∧ i'.status = .failed := by
    obtain ⟨c, hc, hstate, hstatus⟩ := hswept id job hjob hexhausted
    have hid : id ≠ id' := by
      rintro rfl
      simpa [claimable, hstate] using htarget c hc
    obtain ⟨hi, hj, -, -⟩ := caseOf_eq_some.mp hc
    exact ⟨c.job, c.investigation, (hlookup id hid).1.trans hj, hstate, (hlookup id hid).2.trans hi, hstatus⟩
  have hkept (id : String) (job : Job) (hjob : σ.lookup (Key.jobs id) = some job)
      (hexhausted : exhausted now job = true) : ∃ job' i', (sweptStore now σ).lookup (Key.jobs id) = some job' ∧
        job'.state = .failed ∧ (sweptStore now σ).lookup (Key.investigations id) = some i' ∧
        i'.status = .failed := by
    obtain ⟨c, hc, hstate, hstatus⟩ := hswept id job hjob hexhausted
    obtain ⟨hi, hj, -, -⟩ := caseOf_eq_some.mp hc
    exact ⟨c.job, c.investigation, hj, hstate, hi, hstatus⟩
  unfold claim
  rw [succeeds_bind, succeeds_refuse]
  refine ⟨by omega, ?_⟩
  rw [succeeds_bind, succeeds_lockRow, succeeds_bind, hsweep, succeeds_bind, succeeds_snapshot]
  by_cases hactive : activeJobs now (sweptStore now σ) ≥ a.MaxActive
  · rw [if_pos hactive]
    exact (succeeds_ret skip).mpr hkept
  · rw [if_neg hactive, succeeds_bind, succeeds_snapshot, succeeds_bind,
      succeeds_of_run_ok skip (run_claimFirst _)]
    cases hchoice : claimChoice now skip (sweptStore now σ) (claimCandidates now (sweptStore now σ)) with
    | none => exact (succeeds_ret skip).mpr hkept
    | some choice =>
      obtain ⟨id', i⟩ := choice
      obtain ⟨c, hc, hc_swept, rfl, hclaimable⟩ := claimChoice_sweptStore hwf hchoice
      obtain ⟨hi, hj, -, -⟩ := caseOf_eq_some.mp hc_swept
      have htarget (c' : Case) (hc' : caseOf (sweptStore now σ) id' = some c') :
          claimable now c'.job c'.investigation = true := by
        obtain rfl := Option.some.inj (hc_swept.symm.trans hc')
        exact hclaimable
      simp only [succeeds_bind, succeeds_snapshot]
      cases member (sweptStore now σ) c.investigation.subject c.investigation.team false with
      | error =>
        simp only [revokeTask, succeeds_bind, succeeds_updateOne, Tx.pure_eq_ret, succeeds_ret]
        exact hdone _ id' (fun id hid => by simp [hid]) htarget
      | ok =>
        have hfree := hnumbered.next_free (caseOf_eq_some.mp hc).1
        have hfree' : (sweptStore now σ).lookup (Key.events id' (c.investigation.seq + 1)) = none := by
          simpa [sweptStore] using hfree
        have hclaimed : Succeeds skip (claimTask a now owner id') (sweptStore now σ) _ :=
          succeeds_claimTask hi hj hfree'
        obtain ⟨value, σ', hrun, hlookup⟩ := hclaimed
        exact ⟨value, σ', hrun, hdone σ' id' hlookup htarget⟩

/-- No job uses more than four attempts, so between two resumes it is handed out
at most four times; and every claim of a worker with a proper name, whether or
not there is room for it, fails the jobs that have used them up and hold no
unexpired lease, with their investigations. -/
theorem retries_bounded (a : App) (hσ : Initial σ) (now : Time) (ops : List Op) :
    let w := World.after a σ now ops
    (∀ id job, w.store.lookup (Key.jobs id) = some job → job.attempts ≤ 4) ∧
      (∀ id ops', machine.Always (World.step a) (fun w op => ¬ Resumes a id w op) w ops' →
        machine.count (World.step a) (fun w op => w.handsOut a op = some id) w ops' ≤ 4) ∧
      ∀ owner skip, 1 ≤ owner.utf8ByteSize ∧ owner.utf8ByteSize ≤ 128 →
        ∀ id job, w.store.lookup (Key.jobs id) = some job → job.state = .queued ∨ job.state = .running →
          4 ≤ job.attempts → (∀ lease, job.lease_until = some lease → lease < w.now) →
            ∃ job' i', let σ' := (World.step a w (.request (.claim owner) skip)).store
              σ'.lookup (Key.jobs id) = some job' ∧ job'.state = .failed ∧
                σ'.lookup (Key.investigations id) = some i' ∧ i'.status = .failed := by
  have hw := World.sound_after (a := a) hσ now ops
  refine ⟨fun id job hjob => ?_, fun id ops' => handedOut_le hσ now ops ops' id,
    fun owner skip howner id job hjob hstate hattempts hlease => ?_⟩
  · obtain ⟨c, hc, rfl⟩ := hw.wf.caseOf_of_job hjob
    exact (bounded_after hσ now ops hc).attempts
  · have hexhausted : exhausted (World.after a σ now ops).now job = true := by
      simp only [exhausted, Bool.and_eq_true, Bool.or_eq_true, decide_eq_true_eq]
      exact ⟨⟨hstate, hattempts⟩, by simpa [Option.all_eq_true] using hlease⟩
    obtain ⟨task, σ', hrun, hfailed⟩ := claim_sweeps (a := a) hw.wf (numbered_after hσ now ops) howner
    have hstore : (World.step a (World.after a σ now ops) (.request (.claim owner) skip)).store = σ' :=
      World.store_of_discard rfl hrun
    rw [hstore]
    exact hfailed id job hjob hexhausted

/-- A worker takes the task and loses its lease. -/
def losing : List Op := [.request (.claim "w1") unlocked, .tick 16000000]

theorem retries_bounded_losing :
    let w := World.after deployed seed 0 (completing.take 1)
    let w' := World.after deployed seed 0 (completing.take 1 ++ losing ++ losing ++ losing ++ losing)
    machine.count (World.step deployed) (fun w op => w.handsOut deployed op = some "i1") w
        (losing ++ losing ++ losing ++ losing) = 4 ∧
      machine.count (World.step deployed) (fun w op => w.handsOut deployed op = some "i1") w
        (losing ++ losing ++ losing ++ losing) ≤ 4 ∧
      ∃ job' i', let σ' := (World.step deployed w' (.request (.claim "w2") unlocked)).store
        σ'.lookup (Key.jobs "i1") = some job' ∧ job'.state = .failed ∧
          σ'.lookup (Key.investigations "i1") = some i' ∧ i'.status = .failed := by
  intro w w'
  have hresume : machine.Always (World.step deployed) (fun w op => ¬ Resumes deployed "i1" w op) w
      (losing ++ losing ++ losing ++ losing) := by
    simp only [losing, List.cons_append, List.nil_append, machine.always_cons]
    refine ⟨?_, ?_, ?_, ?_, ?_, ?_, ?_, ?_, machine.always_nil⟩ <;> rintro ⟨_, _, ⟨⟩, _⟩
  have hjob : (w'.store.lookup (Key.jobs "i1")).map (fun job => (job.state, job.attempts, job.lease_until, w'.now)) =
      some (.running, 4, some 63000000, 64000000) := by decide
  rw [Option.map_eq_some_iff] at hjob
  obtain ⟨job, hjob, heq⟩ := hjob
  simp only [Prod.mk.injEq] at heq
  obtain ⟨hstate, hattempts, hlease, hnow⟩ := heq
  refine ⟨by decide, (retries_bounded deployed seed_initial 0 _).2.1 "i1" _ hresume,
    (retries_bounded deployed seed_initial 0 _).2.2 "w2" unlocked (by decide) "i1" job hjob (.inr hstate)
      hattempts.ge fun lease hl => ?_⟩
  obtain rfl := Option.some.inj (hlease.symm.trans hl)
  exact hnow ▸ (by decide)

end incidentdesk
