import IncidentDesk.Retries

namespace incidentdesk

open sql sql.Tx

variable {a : App} {now : Time} {skip : Key → Bool} {σ σ' : Store} {id : String}

/-- What no step takes from an investigation: what it is about stays, and its
generation and the watermark of its service only grow. -/
structure Case.Kept (c c' : Case) : Prop where
  subject : c'.investigation.subject = c.investigation.subject
  team : c'.investigation.team = c.investigation.team
  service : c'.investigation.service = c.investigation.service
  query : c'.investigation.query = c.investigation.query
  start : c'.investigation.start_at = c.investigation.start_at
  stop : c'.investigation.end_at = c.investigation.end_at
  generation : c.job.generation ≤ c'.job.generation
  watermark : c.service.watermark ≤ c'.service.watermark

theorem Case.Kept.refl (c : Case) : c.Kept c := ⟨rfl, rfl, rfl, rfl, rfl, rfl, le_rfl, le_rfl⟩

theorem Case.Kept.trans {c c' c'' : Case} (h : c.Kept c') (h' : c'.Kept c'') : c.Kept c'' where
  subject := h'.subject.trans h.subject
  team := h'.team.trans h.team
  service := h'.service.trans h.service
  query := h'.query.trans h.query
  start := h'.start.trans h.start
  stop := h'.stop.trans h.stop
  generation := h.generation.trans h'.generation
  watermark := h.watermark.trans h'.watermark

theorem CaseStep.kept {txn : Transaction} {c : Case} {x' : Option Case}
    (h : CaseStep a now skip σ σ' id txn (some c) x') : ∃ c', x' = some c' ∧ c.Kept c' := by
  cases h with
  | unchanged => exact ⟨c, rfl, .refl c⟩
  | claimed => exact ⟨_, rfl, rfl, rfl, rfl, rfl, rfl, rfl, Nat.le_succ _, le_rfl⟩
  | @sourceChanged _ _ remove =>
    cases remove <;> exact ⟨_, rfl, rfl, rfl, rfl, rfl, rfl, rfl, le_rfl, Nat.le_succ _⟩
  | cancelled | resumed | swept | revoked | noted | heartbeat | accepted | requeued | drafted | approved
  | rejected | reconcileRequested | approvalInvalidated | dispatched | reconciling | finished =>
    exact ⟨_, rfl, rfl, rfl, rfl, rfl, rfl, rfl, le_rfl, le_rfl⟩

/-- A task tells what its investigation is about, and nothing that has happened
since it was handed out makes it hold another lease. -/
structure Task.Held (t : Task) (c : Case) : Prop where
  subject : c.investigation.subject = t.subject
  team : c.investigation.team = t.team
  service : c.investigation.service = t.service
  query : c.investigation.query = t.query
  start : c.investigation.start_at = t.start
  stop : c.investigation.end_at = t.end_
  generation : t.generation ≤ c.job.generation
  watermark : t.source_version ≤ c.service.watermark
  running : c.job.generation = t.generation → c.job.state = .running →
    c.investigation.source_version = t.source_version

theorem CaseStep.held {t : Task} {txn : Transaction} {c : Case} {x' : Option Case} (hheld : t.Held c)
    (h : CaseStep a now skip σ σ' id txn (some c) x') : ∃ c', x' = some c' ∧ t.Held c' := by
  obtain ⟨c', rfl, hkept⟩ := h.kept
  have hrunning : c'.job.generation = t.generation → c'.job.state = .running →
      c'.investigation.source_version = t.source_version := by
    intro hgeneration hstate
    have hle := hheld.generation
    obtain ⟨_, owner, hc, -, -, hnext, -⟩ | ⟨_, hc, hstate, -, hsame, hsource⟩ := h.running hstate <;>
      obtain rfl := Option.some.inj hc
    · omega
    · rw [hsource]
      exact hheld.running (hsame.symm.trans hgeneration) hstate
  exact ⟨c', rfl, hkept.subject.trans hheld.subject, hkept.team.trans hheld.team,
    hkept.service.trans hheld.service, hkept.query.trans hheld.query, hkept.start.trans hheld.start,
    hkept.stop.trans hheld.stop, hheld.generation.trans hkept.generation,
    hheld.watermark.trans hkept.watermark, hrunning⟩

/-- The tasks of one investigation are about the same. -/
structure Task.Alike (t t' : Task) : Prop where
  subject : t.subject = t'.subject
  team : t.team = t'.team
  service : t.service = t'.service
  query : t.query = t'.query
  start : t.start = t'.start
  stop : t.end_ = t'.end_

theorem Task.Alike.refl (t : Task) : t.Alike t := ⟨rfl, rfl, rfl, rfl, rfl, rfl⟩

theorem Task.Held.alike {t t' : Task} {c : Case} (h : t.Held c) (h' : t'.Held c) : t.Alike t' :=
  ⟨h.subject.symm.trans h'.subject, h.team.symm.trans h'.team, h.service.symm.trans h'.service,
    h.query.symm.trans h'.query, h.start.symm.trans h'.start, h.stop.symm.trans h'.stop⟩

section World

variable {w : World} {op : Op}

/-- A step of the world keeps what the case of an investigation is about. -/
theorem World.Sound.case_kept (hw : w.Sound) (a : App) (op : Op) {c : Case} (hc : caseOf w.store id = some c) :
    ∃ c', caseOf (World.step a w op).store id = some c' ∧ c.Kept c' := by
  obtain ⟨-, hstore | ⟨txn, -, heffect⟩⟩ := hw.step (a := a) op
  · exact ⟨c, by rwa [hstore], .refl c⟩
  · have hstep := heffect.cases id
    rw [hc] at hstep
    exact hstep.kept

theorem World.Sound.case_held (hw : w.Sound) (a : App) (op : Op) {t : Task} {c : Case}
    (hc : caseOf w.store id = some c) (hheld : t.Held c) :
    ∃ c', caseOf (World.step a w op).store id = some c' ∧ t.Held c' := by
  obtain ⟨-, hstore | ⟨txn, -, heffect⟩⟩ := hw.step (a := a) op
  · exact ⟨c, by rwa [hstore], hheld⟩
  · have hstep := heffect.cases id
    rw [hc] at hstep
    exact hstep.held hheld

/-- A result is accepted from the sources as they are. -/
theorem CaseStep.accepts_fresh {b : Callback} {c c' : Case}
    (h : CaseStep a now skip σ σ' id (.request (.callback id "result" b)) (some c) (some c'))
    (hrunning : c.job.state = .running) (hdone : c'.job.state = .done) :
    c.investigation.source_version = c.service.watermark := by
  generalize hop : "result" = op at h
  cases h with
  | unchanged | noted | heartbeat =>
    simp only [hrunning] at hdone
    cases hdone
  | accepted _ hfresh => exact hfresh
  | requeued => cases hdone
  | sourceChanged hr => cases hr

/-- What an accepted result tells of the task it belongs to. -/
theorem Accepts.held {b : Callback} {t : Task} (hw : w.Sound) (h : Accepts a t.id b w op)
    (hgeneration : b.Generation = t.generation) {c : Case} (hc : caseOf w.store t.id = some c) (hheld : t.Held c) :
    c.service.watermark = t.source_version ∧ ∃ c', caseOf (World.step a w op).store t.id = some c' ∧
      c'.investigation.report = b.Report.map (·.value) := by
  obtain ⟨skip, c₁, c', rfl, hc₁, hc', hfence, hdone⟩ := h
  obtain rfl := Option.some.inj (hc.symm.trans hc₁)
  obtain rfl | ⟨txn, ⟨⟩, hstep⟩ := hw.case_step hc hc'
  · rw [hfence.running] at hdone
    cases hdone
  · have hsame : c.job.generation = t.generation := by
      have hfenced := hfence.generation
      omega
    refine ⟨?_, c', hc', (hstep.accepts hfence.running hdone).2.2.2.2.1⟩
    rw [← hstep.accepts_fresh hfence.running hdone]
    exact hheld.running hsame hfence.running

end World

/-- What a claim hands out is what the rows say when it commits: the sources are at the
watermark that the task names, and the generation is a new one. -/
theorem claim_task (hwf : Wf σ) (owner : String) : Ensures skip (claim a now owner) σ fun task σ' =>
    ∀ t, task = some t → ∃ old c, caseOf σ t.id = some old ∧ caseOf σ' t.id = some c ∧ t.Held c ∧
      old.job.generation < t.generation ∧ c.service.watermark = t.source_version := by
  unfold claim
  simp only [ensures_bind, ensures_refuse, ensures_lockRow, ensures_sweep, ensures_snapshot,
    ensures_ite, Tx.pure_eq_ret, ensures_ret]
  refine fun _ => ⟨?_, fun _ => ?_⟩
  · rintro _ _ ⟨⟩
  rw [ensures_of_run_ok skip (run_claimFirst _)]
  cases hchoice : claimChoice now skip (sweptStore now σ) (claimCandidates now (sweptStore now σ)) with
  | none =>
    rw [ensures_ret]
    rintro _ ⟨⟩
  | some choice =>
    obtain ⟨id, i⟩ := choice
    obtain ⟨c, hc, hc_swept, rfl, -⟩ := claimChoice_sweptStore hwf hchoice
    obtain ⟨hi, hj, hs, hact⟩ := caseOf_eq_some.mp hc_swept
    simp only [ensures_bind, ensures_snapshot]
    cases member (sweptStore now σ) c.investigation.subject c.investigation.team false with
    | error =>
      simp only [revokeTask, ensures_bind, ensures_updateOne, Tx.pure_eq_ret, ensures_ret]
      rintro _ ⟨⟩
    | ok =>
      simp only [claimTask, ensures_bind, ensures_updateOne, ensures_event, ensures_snapshot,
        ensures_require, Tx.pure_eq_ret, ensures_ret]
      rintro i hi' - task htask t ⟨⟩
      simp [hi] at hi'
      subst hi'
      simp [claimedTask, hj, currentWatermark, hs] at htask
      subst htask
      let i : Investigation :=
        { c.investigation with
          status := .running, source_version := c.service.watermark, seq := c.investigation.seq + 1 }
      let j : Job :=
        { c.job with
          state := .running, owner := some owner, generation := c.job.generation + 1
          attempts := c.job.attempts + 1, lease_until := some (now + seconds a.Lease) }
      refine ⟨c, ⟨i, j, c.service, c.action⟩, hc, caseOf_eq_some.mpr ⟨?_, ?_, ?_, ?_⟩,
        ⟨rfl, rfl, rfl, rfl, rfl, rfl, le_rfl, ?_, fun _ _ => ?_⟩, Nat.lt_succ_self _, ?_⟩
      all_goals simp [i, j, hj, hs, hact, currentWatermark]

/-- What an authorization answers about a task: what its rows say. -/
def Case.reply (now : Time) (σ : Store) (id : String) (b : Callback) (c : Case) : Reply :=
  if b.Tool = "memory" then .memories ((taskMemories now σ id).getD [])
  else
    .scope c.investigation.subject c.investigation.team c.investigation.service c.investigation.query
      c.investigation.start_at c.investigation.end_at c.service.watermark b.Generation

theorem authorize_reply (hwf : Wf σ) (id : String) (b : Callback) :
    Ensures skip (callback a now id "authorize" b) σ fun reply _ =>
      ∃ c, caseOf σ id = some c ∧ Fenced now b c ∧ reply = c.reply now σ id b := by
  have hcallback : callback a now id "authorize" b = fencedCallback a now id "authorize" b := by
    unfold callback
    rw [if_neg (by decide)]
  rw [hcallback, fencedCallback, ensures_bind]
  refine ensures_fence hwf fun c hc hfence => ?_
  rw [if_neg (by decide), if_neg (by decide), if_pos rfl]
  simp only [authorize, ensures_bind, ensures_snapshot, ensures_require, ensures_refuse, ensures_event,
    Tx.pure_eq_ret, ensures_ret]
  intro _ i hi s hs
  obtain ⟨hi', -, hs', -⟩ := caseOf_eq_some.mp hc
  obtain rfl := Option.some.inj (hi'.symm.trans hi)
  obtain rfl := Option.some.inj (hs'.symm.trans (Option.filter_eq_some_iff.mp hs).1)
  exact fun _ _ _ => ⟨c, hc, hfence, rfl⟩

/-- The memories of a task are of its service and team, confirmed, and from the sources
as they are. -/
theorem taskMemories_mem {c : Case} (hc : caseOf σ id = some c) {memories : List (String × Memory)}
    (h : taskMemories now σ id = some memories) {m : String × Memory} (hm : m ∈ memories) :
    m.2.service = c.investigation.service ∧ m.2.team = c.investigation.team ∧ m.2.status = .confirmed ∧
      m.2.source_version = c.service.watermark := by
  obtain ⟨hi, -, hs, -⟩ := caseOf_eq_some.mp hc
  simp only [taskMemories, hi, hs, Option.bind_eq_bind, Option.bind_some, Option.pure_def, Option.some.injEq] at h
  subst h
  obtain ⟨⟨key, row⟩, -, heq⟩ := List.mem_filterMap.mp hm
  cases key <;> simp only [reduceCtorEq] at heq
  split_ifs at heq with hrow
  obtain rfl := Option.some.inj heq
  exact ⟨hrow.1, hrow.2.1, hrow.2.2.1, hrow.2.2.2.1⟩

end incidentdesk
