import IncidentDesk.Effects.Reachable

namespace incidentdesk

/-- What the steps never take back: generations and watermarks only grow, an
investigation is only moved to a later watermark, and a job that is not running
neither runs again nor stores another result under its generation. -/
structure Case.Later (c c' : Case) : Prop where
  generation : c.job.generation ≤ c'.job.generation
  watermark : c.service.watermark ≤ c'.service.watermark
  source : c.investigation.source_version ≤ c'.investigation.source_version
  idle : c.job.state ≠ .running → c'.job.generation = c.job.generation →
    c'.job.state ≠ .running ∧ (c'.job.last_callback = none ∨
      c'.job.last_callback = c.job.last_callback ∧ c'.job.result_hash = c.job.result_hash)

theorem Case.Later.refl (c : Case) : c.Later c :=
  ⟨le_rfl, le_rfl, le_rfl, fun h _ => ⟨h, .inr ⟨rfl, rfl⟩⟩⟩

theorem Case.Later.trans {c c' c'' : Case} (h : c.Later c') (h' : c'.Later c'') : c.Later c'' where
  generation := h.generation.trans h'.generation
  watermark := h.watermark.trans h'.watermark
  source := h.source.trans h'.source
  idle hstate hgeneration := by
    have heq : c'.job.generation = c.job.generation := by
      have := h.generation
      have := h'.generation
      omega
    obtain ⟨hstate', hkept⟩ := h.idle hstate heq
    obtain ⟨hstate'', hkept'⟩ := h'.idle hstate' (hgeneration.trans heq.symm)
    refine ⟨hstate'', ?_⟩
    obtain hnone | ⟨hcallback, hhash⟩ := hkept'
    · exact .inl hnone
    · rw [hcallback, hhash]
      exact hkept

section Step

variable {a : App} {now : Time} {skip : Key → Bool} {σ σ' : Store} {id : String} {txn : Transaction}

theorem CaseStep.source_le {x : Option Case} {c' : Case}
    (hx : ∀ c, x = some c → c.investigation.source_version ≤ c.service.watermark)
    (h : CaseStep a now skip σ σ' id txn x (some c')) :
    c'.investigation.source_version ≤ c'.service.watermark := by
  cases h with
  | unchanged => exact hx _ rfl
  | created | resumed | claimed => exact le_rfl
  | @sourceChanged c _ remove =>
    refine (?_ : _ ≤ c.service.watermark).trans (Nat.le_succ _)
    cases remove <;> exact hx c rfl
  | @cancelled c | @swept c | @revoked c | @noted c | @heartbeat c | @accepted c | @requeued c
  | @drafted c | @approved c | @rejected c | @reconcileRequested c | @approvalInvalidated c
  | @dispatched c | @reconciling c | @finished c => exact hx c rfl

theorem CaseStep.later {c : Case} {x' : Option Case}
    (hsource : c.investigation.source_version ≤ c.service.watermark)
    (h : CaseStep a now skip σ σ' id txn (some c) x') : ∃ c', x' = some c' ∧ c.Later c' := by
  have hidle {c c' : Case} (hjob : c'.job = c.job) (hstate : c.job.state ≠ .running) :
      c'.job.state ≠ .running ∧ (c'.job.last_callback = none ∨
        c'.job.last_callback = c.job.last_callback ∧ c'.job.result_hash = c.job.result_hash) := by
    rw [hjob]
    exact ⟨hstate, .inr ⟨rfl, rfl⟩⟩
  cases h with
  | unchanged => exact ⟨c, rfl, .refl c⟩
  | claimed => exact ⟨_, rfl, Nat.le_succ _, le_rfl, hsource, fun _ h => absurd h (Nat.succ_ne_self _)⟩
  | resumed => exact ⟨_, rfl, le_rfl, le_rfl, hsource, fun _ _ => ⟨by simp, .inl rfl⟩⟩
  | @sourceChanged _ _ remove =>
    refine ⟨_, rfl, le_rfl, Nat.le_succ _, ?_, fun h _ => hidle rfl h⟩
    cases remove <;> exact le_rfl
  | cancelled | swept | revoked =>
    exact ⟨_, rfl, le_rfl, le_rfl, le_rfl, fun _ _ => ⟨by simp, .inr ⟨rfl, rfl⟩⟩⟩
  | accepted hfence | requeued hfence | heartbeat hfence =>
    exact ⟨_, rfl, le_rfl, le_rfl, le_rfl, fun h => absurd hfence.running h⟩
  | noted | drafted | approved | rejected | reconcileRequested | approvalInvalidated
  | dispatched | reconciling | finished =>
    exact ⟨_, rfl, le_rfl, le_rfl, le_rfl, fun h _ => hidle rfl h⟩

/-- A job that runs after a step has just been claimed, or ran before it under
the same lease holder and from the same sources. -/
theorem CaseStep.running {x : Option Case} {c' : Case}
    (h : CaseStep a now skip σ σ' id txn x (some c')) (hstate : c'.job.state = .running) :
    (∃ c owner, x = some c ∧ txn = .request (.claim owner) ∧ c'.job.owner = some owner ∧
        c'.job.generation = c.job.generation + 1 ∧
        c'.investigation.source_version = c.service.watermark) ∨
      ∃ c, x = some c ∧ c.job.state = .running ∧ c'.job.owner = c.job.owner ∧
        c'.job.generation = c.job.generation ∧
        c'.investigation.source_version = c.investigation.source_version := by
  cases h with
  | unchanged => exact .inr ⟨_, rfl, hstate, rfl, rfl, rfl⟩
  | created | cancelled | resumed | swept | revoked | accepted | requeued => cases hstate
  | claimed => exact .inl ⟨_, _, rfl, rfl, rfl, rfl, rfl⟩
  | @sourceChanged _ _ remove =>
    refine .inr ⟨_, rfl, hstate, rfl, rfl, ?_⟩
    cases remove <;> rfl
  | noted | heartbeat | drafted | approved | rejected | reconcileRequested | approvalInvalidated
  | dispatched | reconciling | finished => exact .inr ⟨_, rfl, hstate, rfl, rfl, rfl⟩

/-- A claim that changes a job and lets it run starts a new generation. -/
theorem CaseStep.claims {c c' : Case} {owner : String}
    (h : CaseStep a now skip σ σ' id (.request (.claim owner)) (some c) (some c'))
    (hjob : c'.job ≠ c.job) (hstate : c'.job.state = .running) :
    c'.job.generation = c.job.generation + 1 := by
  cases h with
  | unchanged => exact absurd rfl hjob
  | swept | revoked => cases hstate
  | claimed => rfl
  | sourceChanged hr => cases hr

/-- A result that ends the run of a job is stored with it. -/
theorem CaseStep.accepts {c c' : Case} {b : Callback}
    (h : CaseStep a now skip σ σ' id (.request (.callback id "result" b)) (some c) (some c'))
    (hrunning : c.job.state = .running) (hdone : c'.job.state = .done) :
    c'.job.last_callback = some b.CallbackID ∧ c'.job.result_hash = some (a.Hash b.marshal) ∧
      c'.job.generation = c.job.generation ∧ b.CallbackID ≠ "" ∧
      c'.investigation.report = b.Report.map (·.value) ∧
      c'.investigation.manifest = b.Manifest.map (·.value) := by
  generalize hop : "result" = op at h
  cases h with
  | unchanged | noted | heartbeat =>
    simp only [hrunning] at hdone
    cases hdone
  | accepted _ _ hid => exact ⟨rfl, rfl, rfl, hid, rfl, rfl⟩
  | requeued => cases hdone
  | sourceChanged hr => cases hr

end Step

/-- A claim hands a task to a worker, under the generation `g` and from the
sources at the watermark `v`. -/
def Claims (a : App) (id owner : String) (g v : Nat) (w : World) (op : Op) : Prop :=
  ∃ skip c c', op = .request (.claim owner) skip ∧ caseOf w.store id = some c ∧
    caseOf (World.step a w op).store id = some c' ∧ c'.job ≠ c.job ∧ c'.job.state = .running ∧
    c'.job.owner = some owner ∧ c'.job.generation = g ∧ c'.investigation.source_version = v

/-- The result `b` is accepted: it ends the run of the job that it belongs to. -/
def Accepts (a : App) (id : String) (b : Callback) (w : World) (op : Op) : Prop :=
  ∃ skip c c', op = .request (.callback id "result" b) skip ∧ caseOf w.store id = some c ∧
    caseOf (World.step a w op).store id = some c' ∧ Fenced w.now b c ∧ c'.job.state = .done

section World

variable {a : App} {w : World} {op : Op} {id : String}

/-- What an operation does to one case. -/
theorem World.Sound.case_step (hw : w.Sound) {c c' : Case} (hc : caseOf w.store id = some c)
    (hc' : caseOf (World.step a w op).store id = some c') : c' = c ∨ ∃ txn, w.transaction op = some txn ∧
      CaseStep a w.now op.locked w.store (World.step a w op).store id txn (some c) (some c') := by
  obtain ⟨-, hstore | ⟨txn, htxn, heffect⟩⟩ := hw.step (a := a) op
  · rw [hstore, hc] at hc'
    exact .inl (Option.some.inj hc').symm
  · have hstep := heffect.cases id
    rw [hc, hc'] at hstep
    exact .inr ⟨txn, htxn, hstep⟩

theorem Claims.generation {owner : String} {g v : Nat} (hw : w.Sound) (h : Claims a id owner g v w op) :
    ∃ c c', caseOf w.store id = some c ∧ caseOf (World.step a w op).store id = some c' ∧
      g = c.job.generation + 1 ∧ c'.job.generation = g := by
  obtain ⟨skip, c, c', rfl, hc, hc', hjob, hstate, -, hg, -⟩ := h
  obtain rfl | ⟨txn, ⟨⟩, hstep⟩ := hw.case_step hc hc'
  · exact absurd rfl hjob
  · exact ⟨c, c', hc, hc', hg ▸ hstep.claims hjob hstate, hg⟩

/-- What an accepted result leaves in its job. -/
theorem Accepts.stored {b : Callback} (hw : w.Sound) (h : Accepts a id b w op) :
    ∃ c c', caseOf w.store id = some c ∧ caseOf (World.step a w op).store id = some c' ∧
      c.job.state = .running ∧ (c.job.generation : Int) = b.Generation ∧ c'.job.state ≠ .running ∧
      c'.job.generation = c.job.generation ∧ b.CallbackID ≠ "" ∧
      c'.job.last_callback = some b.CallbackID ∧ c'.job.result_hash = some (a.Hash b.marshal) := by
  obtain ⟨skip, c, c', rfl, hc, hc', hfence, hdone⟩ := h
  obtain rfl | ⟨txn, ⟨⟩, hstep⟩ := hw.case_step hc hc'
  · rw [hfence.running] at hdone
    cases hdone
  · obtain ⟨hcallback, hhash, hgeneration, hid, -⟩ := hstep.accepts hfence.running hdone
    exact ⟨c, c', hc, hc', hfence.running, hfence.generation, by simp [hdone], hgeneration, hid, hcallback, hhash⟩

end World

section Run

variable (a : App) {σ : Store} (hσ : Initial σ) (now : Time) (ops : List Op) {id : String} {c : Case}

include hσ

/-- An investigation is never ahead of its service. -/
theorem source_le_after (hc : caseOf (World.after a σ now ops).store id = some c) :
    c.investigation.source_version ≤ c.service.watermark :=
  World.case_invariant (P := fun _ c => c.investigation.source_version ≤ c.service.watermark) hσ
    (fun _ _ _ _ _ _ _ ih hstep => hstep.source_le ih) ops hc

/-- Every later state has the investigation, at no earlier generation and watermark. -/
theorem later_after (ops' : List Op) (hc : caseOf (World.after a σ now ops).store id = some c) :
    ∃ c', caseOf (World.after a σ now (ops ++ ops')).store id = some c' ∧ c.Later c' := by
  induction ops' using List.reverseRecOn with
  | nil => exact ⟨c, by rwa [List.append_nil], .refl c⟩
  | append_singleton ops' op ih =>
    obtain ⟨c', hc', hlater⟩ := ih
    have hw := World.sound_after (a := a) hσ now (ops ++ ops')
    have hsource := source_le_after a hσ now (ops ++ ops') hc'
    rw [← List.append_assoc, World.after, machine.run_concat]
    obtain ⟨-, hstore | ⟨txn, -, heffect⟩⟩ := hw.step (a := a) op
    · rw [hstore]
      exact ⟨c', hc', hlater⟩
    · have hstep := heffect.cases id
      rw [hc'] at hstep
      obtain ⟨c'', hc'', hlater'⟩ := hstep.later hsource
      exact ⟨c'', hc'', hlater.trans hlater'⟩

/-- A job that runs was claimed under the generation and by the worker that it
has, and from the sources that its investigation has. -/
theorem running_after (hc : caseOf (World.after a σ now ops).store id = some c) :
    c.job.state = .running → ∃ owner, c.job.owner = some owner ∧
      machine.Occurs (World.step a) (Claims a id owner c.job.generation c.investigation.source_version)
        (World.init σ now) ops := by
  refine World.case_induction (P := fun ops id c => c.job.state = .running → ∃ owner,
    c.job.owner = some owner ∧ machine.Occurs (World.step a)
      (Claims a id owner c.job.generation c.investigation.source_version) (World.init σ now) ops)
    hσ ?_ ?_ ops (machine.always_true _ ops) id c hc
  · intro ops op id c hP hstate
    obtain ⟨owner, howner, hoccurs⟩ := hP hstate
    exact ⟨owner, howner, machine.occurs_concat.mpr (.inl hoccurs)⟩
  · intro ops op id c' txn w w' _ _ htxn hc' ih hstep hstate
    obtain ⟨c, owner, hc, rfl, howner, hgeneration, hsource⟩ |
      ⟨c, hc, hrunning, howner, hgeneration, hsource⟩ := hstep.running hstate
    · obtain ⟨skip, rfl⟩ := World.transaction_eq_request htxn
      refine ⟨owner, howner, machine.occurs_concat.mpr (.inr ?_)⟩
      refine ⟨skip, c, c', rfl, hc, hc', fun hjob => ?_, hstate, howner, rfl, rfl⟩
      rw [hjob] at hgeneration
      omega
    · obtain ⟨owner, howner', hoccurs⟩ := ih c hc hrunning
      rw [howner, hgeneration, hsource]
      exact ⟨owner, howner', machine.occurs_concat.mpr (.inl hoccurs)⟩

end Run

end incidentdesk
