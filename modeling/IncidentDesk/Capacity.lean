import IncidentDesk.Leases
import IncidentDesk.Seed

namespace incidentdesk

/-- A job runs under a lease that has not expired. -/
def Job.active (now : Time) (job : Job) : Bool :=
  job.state = .running && job.lease_until.any fun lease => now < lease

/-- A job that is active later is active now. -/
theorem Job.active_of_le {now now' : Time} (h : now ≤ now') {job : Job} (hactive : job.active now' = true) :
    job.active now = true := by
  unfold Job.active at *
  cases hlease : job.lease_until with
  | none => simp [hlease] at hactive
  | some lease =>
    simp only [hlease, Option.any_some, Bool.and_eq_true, decide_eq_true_eq] at hactive ⊢
    exact ⟨hactive.1, h.trans_lt hactive.2⟩

/-- The rows that `activeJobs` counts. -/
def countsActive (now : Time) (key : Key) (row : Row key) : Bool :=
  match key, row with
  | .jobs _, (job : Job) => job.active now
  | _, _ => false

theorem activeJobs_le_add {now now' : Time} {σ σ' : Store} (fresh : List String)
    (h : ∀ id job', σ'.lookup (Key.jobs id) = some job' → job'.active now' = true →
      id ∈ fresh ∨ ∃ job, σ.lookup (Key.jobs id) = some job ∧ job.active now = true) :
    activeJobs now' σ' ≤ activeJobs now σ + fresh.length := by
  have hcount := sql.Store.count_le_add (σ := σ) (τ := σ') (p := countsActive now') (q := countsActive now)
    (fresh.map Key.jobs) ?_
  · rw [List.length_map] at hcount
    exact hcount
  · intro key row' hrow' hp
    cases key with
    | jobs id =>
      obtain hfresh | ⟨job, hjob, hactive⟩ := h id row' hrow' hp
      · exact .inl (List.mem_map_of_mem hfresh)
      · exact .inr ⟨job, hjob, hactive⟩
    | _ => cases hp

section Step

variable {a : App} {now : Time} {skip : Key → Bool} {σ σ' : Store} {id : String} {txn : Transaction}

/-- Only a claim makes a job active. -/
theorem CaseStep.active {x : Option Case} {c' : Case} (h : CaseStep a now skip σ σ' id txn x (some c'))
    (hactive : c'.job.active now = true) :
    (∃ c, x = some c ∧ c.job.active now = true) ∨
      ∃ i, claimTarget a now skip σ = some (id, i) ∧ ∃ owner, txn = .request (.claim owner) := by
  cases h with
  | unchanged => exact .inl ⟨_, rfl, hactive⟩
  | created | cancelled | resumed | swept | revoked | accepted | requeued => cases hactive
  | claimed _ htarget => exact .inr ⟨_, htarget, _, rfl⟩
  | heartbeat hfence =>
    refine .inl ⟨_, rfl, ?_⟩
    simp only [Job.active, hfence.running, hfence.live]
    rfl
  | noted | drafted | approved | rejected | reconcileRequested | sourceChanged | approvalInvalidated
  | dispatched | reconciling | finished => exact .inl ⟨_, rfl, hactive⟩

/-- A task is handed out only while there is room for one more. -/
theorem activeJobs_lt_of_claimTarget {i : Investigation} (h : claimTarget a now skip σ = some (id, i)) :
    activeJobs now σ < a.MaxActive := by
  unfold claimTarget at h
  dsimp only at h
  split at h
  · cases h
  · rename_i hroom
    have hswept : activeJobs now σ ≤ activeJobs now (sweptStore now σ) + ([] : List String).length := by
      refine activeJobs_le_add [] fun id job hjob hactive => .inr ⟨job, ?_, hactive⟩
      have hexhausted : exhausted now job = false := by
        simp only [Job.active, Bool.and_eq_true, decide_eq_true_eq] at hactive
        cases hlease : job.lease_until with
        | none => simp [hlease] at hactive
        | some lease =>
          simp only [hlease, Option.any_some, decide_eq_true_eq] at hactive
          simp only [exhausted, hlease, Option.all_some, Bool.and_eq_false_iff, decide_eq_false_iff_not,
            not_lt]
          exact .inr hactive.2.le
      simp [sweptStore, hjob, hexhausted]
    rw [List.length_nil] at hswept
    omega

end Step

/-- At no moment of a run do more jobs hold a lease than the service allows. -/
theorem capacity_bound (a : App) {σ : Store} (hσ : Initial σ) (now : Time) (ops : List Op) :
    activeJobs (World.after a σ now ops).now (World.after a σ now ops).store ≤ a.MaxActive := by
  suffices hinv : (World.after a σ now ops).Sound ∧
      activeJobs (World.after a σ now ops).now (World.after a σ now ops).store ≤ a.MaxActive from hinv.2
  refine machine.run_invariant
    (I := fun w : World => w.Sound ∧ activeJobs w.now w.store ≤ a.MaxActive) ?_ ?_ ops
  · refine ⟨World.sound_after (a := a) hσ now [], ?_⟩
    have hnone : activeJobs now σ ≤ activeJobs now ∅ + 0 := activeJobs_le_add [] fun id job hjob => by
      rw [hσ (Key.jobs id) rfl] at hjob
      cases hjob
    exact hnone.trans (Nat.zero_le _)
  · rintro w op ⟨hw, hle⟩
    refine ⟨(hw.step op).1, ?_⟩
    have hnow : w.now ≤ (World.step a w op).now := World.now_le_step w op
    obtain ⟨hw', hstore | ⟨txn, htxn, heffect⟩⟩ := hw.step (a := a) op
    · rw [hstore]
      have hsame : activeJobs (World.step a w op).now w.store ≤ activeJobs w.now w.store + 0 :=
        activeJobs_le_add [] fun id job hjob hactive => .inr ⟨job, hjob, Job.active_of_le hnow hactive⟩
      exact hsame.trans hle
    · rw [World.now_eq_of_transaction htxn]
      have hjobs (id : String) (job' : Job) (hjob' : (World.step a w op).store.lookup (Key.jobs id) = some job')
          (hactive : job'.active w.now = true) :
          (∃ i, claimTarget a w.now op.locked w.store = some (id, i)) ∨
            ∃ job, w.store.lookup (Key.jobs id) = some job ∧ job.active w.now = true := by
        obtain ⟨c', hc', rfl⟩ := hw'.wf.caseOf_of_job hjob'
        have hstep := heffect.cases id
        rw [hc'] at hstep
        obtain ⟨c, hc, hactive⟩ | ⟨i, htarget, -⟩ := hstep.active hactive
        · exact .inr ⟨c.job, (caseOf_eq_some.mp hc).2.1, hactive⟩
        · exact .inl ⟨i, htarget⟩
      cases htarget : claimTarget a w.now op.locked w.store with
      | none =>
        have hcount := activeJobs_le_add [] fun id job' hjob' hactive =>
          (hjobs id job' hjob' hactive).imp_left fun ⟨i, hi⟩ => by
            rw [htarget] at hi
            cases hi
        exact hcount.trans hle
      | some target =>
        obtain ⟨id, i⟩ := target
        have hroom := activeJobs_lt_of_claimTarget htarget
        have hcount := activeJobs_le_add [id] fun id' job' hjob' hactive =>
          (hjobs id' job' hjob' hactive).imp_left fun ⟨i, hi⟩ => by
            rw [htarget] at hi
            cases hi
            exact List.mem_singleton_self id
        rw [List.length_singleton] at hcount
        omega

theorem capacity_bound_completing : activeJobs 0 (World.after deployed seed 0 (completing.take 2)).store = 1 ∧
    activeJobs (World.after deployed seed 0 (completing.take 2)).now
      (World.after deployed seed 0 (completing.take 2)).store ≤ 10 :=
  ⟨by decide, capacity_bound deployed seed_initial 0 (completing.take 2)⟩

end incidentdesk
