import IncidentDesk.Leases
import IncidentDesk.Seed

namespace incidentdesk

/-- A report and a manifest were accepted from a run that was claimed at the
watermark `v`. -/
def Reported (a : App) (w : World) (ops : List Op) (id : String) (v : Nat) (report manifest : Option Json) :
    Prop :=
  ∃ b owner, ∃ g : Nat, (g : Int) = b.Generation ∧
    report = b.Report.map (·.value) ∧ manifest = b.Manifest.map (·.value) ∧
    machine.Occurs (World.step a) (Accepts a id b) w ops ∧
    machine.Occurs (World.step a) (Claims a id owner g v) w ops

theorem Reported.concat {a : App} {w : World} {ops : List Op} {id : String} {v : Nat}
    {report manifest : Option Json} (h : Reported a w ops id v report manifest) (op : Op) :
    Reported a w (ops ++ [op]) id v report manifest := by
  obtain ⟨b, owner, g, hg, hreport, hmanifest, haccepts, hclaims⟩ := h
  exact ⟨b, owner, g, hg, hreport, hmanifest, machine.occurs_concat.mpr (.inl haccepts),
    machine.occurs_concat.mpr (.inl hclaims)⟩

def Investigation.hasReport (i : Investigation) : Bool := i.report.isSome || i.manifest.isSome

/-- A new watermark would not be put on an old report. -/
def Case.Restampable (c : Case) : Prop :=
  c.investigation.hasReport = false ∨ c.investigation.source_version = c.service.watermark

/-- An operation stamps the watermark of the service only on an investigation
that has no report or is from that watermark already. -/
def StampsFresh (a : App) (w : World) : Op → Prop
  | .request (.resume id information) _ => ∀ c, caseOf w.store id = some c →
      information.utf8ByteSize ≤ 4000 → c.investigation.status.resumable = true → c.Restampable
  | .request (.claim owner) skip => ∀ id c, caseOf w.store id = some c →
      1 ≤ owner.utf8ByteSize ∧ owner.utf8ByteSize ≤ 128 →
        claimTarget a w.now skip w.store = some (id, c.investigation) →
          isMember w.store c.investigation.subject c.investigation.team false = true → c.Restampable
  | _ => True

section Step

variable {a : App} {now : Time} {skip : Key → Bool} {σ σ' : Store} {id : String} {txn : Transaction}

/-- Where the report of an investigation comes from: a callback, or the state
before the step, where `stamped` tells that it may have been stamped anew. -/
theorem CaseStep.hasReport {x : Option Case} {c' : Case} (h : CaseStep a now skip σ σ' id txn x (some c'))
    (hreport : c'.investigation.hasReport = true) :
    (∃ c b, x = some c ∧ txn = .request (.callback id "result" b) ∧ Fenced now b c ∧
        c'.job.state = .done ∧ c'.investigation.report = b.Report.map (·.value) ∧
        c'.investigation.manifest = b.Manifest.map (·.value) ∧
        c'.investigation.source_version = c.investigation.source_version) ∨
      ∃ c, x = some c ∧ c'.investigation.report = c.investigation.report ∧
        c'.investigation.manifest = c.investigation.manifest ∧
        (c'.investigation.source_version = c.investigation.source_version ∨
          c'.investigation.source_version = c.service.watermark ∧
            ((∃ information, txn = .request (.resume id information) ∧
                information.utf8ByteSize ≤ 4000 ∧ c.investigation.status.resumable = true) ∨
              ∃ owner, txn = .request (.claim owner) ∧
                (1 ≤ owner.utf8ByteSize ∧ owner.utf8ByteSize ≤ 128) ∧
                claimTarget a now skip σ = some (id, c.investigation) ∧
                isMember σ c.investigation.subject c.investigation.team false = true)) := by
  cases h with
  | unchanged => exact .inr ⟨_, rfl, rfl, rfl, .inl rfl⟩
  | created => cases hreport
  | accepted hfence => exact .inl ⟨_, _, rfl, rfl, hfence, rfl, rfl, rfl, rfl⟩
  | resumed hsize hstatus =>
    exact .inr ⟨_, rfl, rfl, rfl, .inr ⟨rfl, .inl ⟨_, rfl, hsize, hstatus⟩⟩⟩
  | claimed hsize htarget _ hmember =>
    exact .inr ⟨_, rfl, rfl, rfl, .inr ⟨rfl, .inr ⟨_, rfl, hsize, htarget, hmember⟩⟩⟩
  | @sourceChanged _ _ remove =>
    cases remove with
    | true => cases hreport
    | false => exact .inr ⟨_, rfl, rfl, rfl, .inl rfl⟩
  | cancelled | swept | revoked | noted | heartbeat | requeued | drafted | approved | rejected
  | reconcileRequested | approvalInvalidated | dispatched | reconciling | finished =>
    exact .inr ⟨_, rfl, rfl, rfl, .inl rfl⟩

end Step

/-- As long as stamps are fresh, the report of every investigation is from the
watermark that the investigation has. -/
theorem reported_after (a : App) {σ : Store} (hσ : Initial σ) (now : Time) (ops : List Op)
    (hok : machine.Always (World.step a) (StampsFresh a) (World.init σ now) ops)
    {id : String} {c : Case} (hc : caseOf (World.after a σ now ops).store id = some c) :
    c.investigation.hasReport = true → Reported a (World.init σ now) ops id
      c.investigation.source_version c.investigation.report c.investigation.manifest := by
  refine World.case_induction (P := fun ops id c => c.investigation.hasReport = true →
    Reported a (World.init σ now) ops id c.investigation.source_version c.investigation.report
      c.investigation.manifest) hσ ?_ ?_ ops hok id c hc
  · exact fun ops op id c hP hreport => (hP hreport).concat op
  · intro ops op id c' txn w w' _ hstamps htxn hc' ih hstep hreport
    obtain ⟨c, b, hc, rfl, hfence, hdone, hr, hm, hsource⟩ | ⟨c, hc, hr, hm, hsource⟩ :=
      hstep.hasReport hreport
    · obtain ⟨skip, rfl⟩ := World.transaction_eq_request htxn
      obtain ⟨owner, -, hclaims⟩ := running_after a hσ now ops hc hfence.running
      rw [hsource]
      refine ⟨b, owner, c.job.generation, hfence.generation, hr, hm, machine.occurs_concat.mpr (.inr ?_),
        machine.occurs_concat.mpr (.inl hclaims)⟩
      exact ⟨skip, c, c', rfl, hc, hc', hfence, hdone⟩
    · have hreport' : c.investigation.hasReport = true := by
        rwa [Investigation.hasReport, hr, hm] at hreport
      have hsame : c'.investigation.source_version = c.investigation.source_version := by
        obtain hsame | ⟨hwatermark, hstamp⟩ := hsource
        · exact hsame
        have hrestampable : c.Restampable := by
          obtain ⟨information, rfl, hsize, hstatus⟩ | ⟨owner, rfl, hsize, htarget, hmember⟩ := hstamp <;>
            obtain ⟨skip, rfl⟩ := World.transaction_eq_request htxn
          · exact hstamps c hc hsize hstatus
          · exact hstamps id c hc hsize htarget hmember
        obtain hnone | hcurrent := hrestampable
        · rw [hnone] at hreport'
          cases hreport'
        · exact hwatermark.trans hcurrent.symm
      rw [hsame, hr, hm]
      exact (ih c hc hreport').concat op

theorem Wf.get_eq_ok {σ : Store} (hwf : Wf σ) {id : String} {d : Detail} (h : get σ id = .ok d) :
    ∃ c, caseOf σ id = some c ∧ d.evidence_stale = Decidable.decide (c.investigation.source_version ≠ c.service.watermark) ∧
      d.report = (if c.investigation.source_version = c.service.watermark then c.investigation.report else none) ∧
      d.manifest =
        (if c.investigation.source_version = c.service.watermark then c.investigation.manifest else none) := by
  unfold get at h
  split at h
  · cases h
  · rename_i i hi
    obtain ⟨c, hc, rfl⟩ := hwf.caseOf_of_investigation hi
    rw [(caseOf_eq_some.mp hc).2.2.1] at h
    cases h
    exact ⟨c, hc, rfl, rfl, rfl⟩

theorem Wf.replay_eq_ok {σ σ' : Store} (hwf : Wf σ) (hwf' : Wf σ') {id : String} {r : Recording}
    (h : replay σ σ' id = .ok r) : ∃ c c', caseOf σ id = some c ∧ caseOf σ' id = some c' ∧
      c.investigation.source_version = c.service.watermark ∧
      r.report = c'.investigation.report ∧ r.manifest = c'.investigation.manifest := by
  unfold replay at h
  split at h
  · cases h
  · rename_i i hi
    obtain ⟨c, hc, rfl⟩ := hwf.caseOf_of_investigation hi
    rw [(caseOf_eq_some.mp hc).2.2.1] at h
    dsimp only at h
    split at h
    · cases h
    · rename_i hfresh
      split at h
      · cases h
      · rename_i i' hi'
        obtain ⟨c', hc', rfl⟩ := hwf'.caseOf_of_investigation hi'
        cases h
        exact ⟨c, c', hc, hc', not_not.mp (not_or.mp hfresh).1, rfl, rfl⟩

/-- As long as stamps are fresh, what `get` and `replay` show was accepted from a
run that was claimed at the present watermark; `replay` shows nothing older than
its first statement. -/
theorem reports_served_fresh (a : App) {σ : Store} (hσ : Initial σ) (now : Time) (ops ops' : List Op)
    (hok : machine.Always (World.step a) (StampsFresh a) (World.init σ now) (ops ++ ops')) (id : String) :
    let w := World.after a σ now ops
    let w' := World.after a σ now (ops ++ ops')
    (∀ d, get w.store id = .ok d → d.report.isSome = true ∨ d.manifest.isSome = true →
      ∃ c, caseOf w.store id = some c ∧ d.evidence_stale = false ∧
        Reported a (World.init σ now) ops id c.service.watermark d.report d.manifest) ∧
    ∀ r, replay w.store w'.store id = .ok r → r.report.isSome = true ∨ r.manifest.isSome = true →
      ∃ c c' v, caseOf w.store id = some c ∧ caseOf w'.store id = some c' ∧
        c.service.watermark ≤ v ∧ v ≤ c'.service.watermark ∧
        Reported a (World.init σ now) (ops ++ ops') id v r.report r.manifest := by
  intro w w'
  have hw : w.Sound := World.sound_after hσ now ops
  have hw' : w'.Sound := World.sound_after hσ now (ops ++ ops')
  constructor
  · intro d hd hreport
    obtain ⟨c, hc, hstale, hr, hm⟩ := hw.wf.get_eq_ok hd
    by_cases hfresh : c.investigation.source_version = c.service.watermark
    · rw [if_pos hfresh] at hr hm
      have hreport' : c.investigation.hasReport = true := by
        rw [Investigation.hasReport, ← hr, ← hm]
        simpa using hreport
      have hreported := reported_after a hσ now ops (machine.always_append.mp hok).1 hc hreport'
      rw [hfresh] at hreported
      exact ⟨c, hc, by simpa [hfresh] using hstale, by rwa [hr, hm]⟩
    · rw [hr, hm, if_neg hfresh, if_neg hfresh] at hreport
      simp at hreport
  · intro r hr hreport
    obtain ⟨c, c', hc, hc', hfresh, hreport_eq, hmanifest_eq⟩ := hw.wf.replay_eq_ok hw'.wf hr
    have hreport' : c'.investigation.hasReport = true := by
      rw [Investigation.hasReport, ← hreport_eq, ← hmanifest_eq]
      simpa using hreport
    obtain ⟨c'', hc'', hlater⟩ := later_after a hσ now ops ops' hc
    obtain rfl : c' = c'' := Option.some.inj (hc'.symm.trans hc'')
    have hreported := reported_after a hσ now (ops ++ ops') hok hc' hreport'
    rw [hreport_eq, hmanifest_eq]
    exact ⟨c, c', _, hc, hc', hfresh ▸ hlater.source, source_le_after a hσ now (ops ++ ops') hc', hreported⟩

theorem reports_served_fresh_completing :
    ∃ d c, get (World.after deployed seed 0 completing).store "i1" = .ok d ∧
      caseOf (World.after deployed seed 0 completing).store "i1" = some c ∧ d.report.isSome = true ∧
      Reported deployed (World.init seed 0) completing "i1" c.service.watermark d.report d.manifest := by
  have hok : machine.Always (World.step deployed) (StampsFresh deployed) (World.init seed 0)
      (completing ++ []) := by
    rw [List.append_nil]
    simp only [completing, machine.always_cons, machine.always_nil, StampsFresh, and_true, true_and]
    intro id c hc _ htarget _
    let w := World.after deployed seed 0 (completing.take 1)
    have hid : ((claimTarget deployed 0 unlocked w.store).map Prod.fst) = some "i1" := by decide
    have hreport : (caseOf w.store "i1").map (·.investigation.hasReport) = some false := by decide
    have htarget : claimTarget deployed 0 unlocked w.store = some (id, c.investigation) := htarget
    have hc : caseOf w.store id = some c := hc
    rw [htarget] at hid
    obtain rfl : id = "i1" := Option.some.inj hid
    rw [hc] at hreport
    exact .inl (Option.some.inj hreport)
  have hget : (get (World.after deployed seed 0 completing).store "i1").toOption.map (·.report.isSome) =
      some true := by decide
  cases hd : get (World.after deployed seed 0 completing).store "i1" with
  | error e =>
    rw [hd] at hget
    cases hget
  | ok d =>
    rw [hd] at hget
    have hreport : d.report.isSome = true := Option.some.inj hget
    obtain ⟨c, hc, -, hreported⟩ :=
      (reports_served_fresh deployed seed_initial 0 completing [] hok "i1").1 d hd (.inl hreport)
    exact ⟨d, c, rfl, hc, hreport, hreported⟩

/-- The sources change after the report, and the investigation is resumed. -/
def resuming : List Op :=
  completing ++
    [.request (.invalidateSource "svc-17" false) unlocked, .request (.resume "i1" "请更新") unlocked]

/-- Resuming an investigation makes its old report look fresh. -/
theorem stale_report_served_resuming :
    ∃ d c, get (World.after deployed seed 0 resuming).store "i1" = .ok d ∧
      caseOf (World.after deployed seed 0 resuming).store "i1" = some c ∧ d.report.isSome = true ∧
      d.evidence_stale = false ∧
      ¬ Reported deployed (World.init seed 0) resuming "i1" c.service.watermark d.report d.manifest := by
  let w := World.after deployed seed 0 resuming
  have hget : (get w.store "i1").toOption.map (fun d => (d.report.isSome, d.evidence_stale)) =
      some (true, false) := by decide
  have hwatermark : (caseOf w.store "i1").map (·.service.watermark) = some 2 := by decide
  obtain ⟨c, hc, hv⟩ := Option.map_eq_some_iff.mp hwatermark
  cases hd : get w.store "i1" with
  | error e =>
    rw [hd] at hget
    cases hget
  | ok d =>
    rw [hd] at hget
    obtain ⟨hreport, hstale⟩ := Prod.mk.inj (Option.some.inj hget)
    refine ⟨d, c, rfl, hc, hreport, hstale, ?_⟩
    rintro ⟨b, owner, g, -, -, -, -, hclaims⟩
    rw [hv] at hclaims
    simp only [resuming, completing, List.cons_append, List.nil_append, machine.occurs_cons,
      machine.occurs_nil, or_false] at hclaims
    obtain ⟨_, _, _, ⟨⟩, -⟩ | ⟨_, _, c, -, -, hc, -, -, -, -, hsource⟩ | ⟨_, _, _, ⟨⟩, -⟩ |
      ⟨_, _, _, ⟨⟩, -⟩ | ⟨_, _, _, ⟨⟩, -⟩ := hclaims
    have hclaimed : (caseOf (World.after deployed seed 0 (completing.take 2)).store "i1").map
        (·.investigation.source_version) = some 1 := by decide
    have hc : caseOf (World.after deployed seed 0 (completing.take 2)).store "i1" = some c := hc
    rw [hc] at hclaimed
    have hone : c.investigation.source_version = 1 := Option.some.inj hclaimed
    omega

end incidentdesk
