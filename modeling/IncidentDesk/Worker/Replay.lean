import IncidentDesk.Worker.Linking

namespace incidentdesk.worker

theorem redactText_idem (text : String) : redactText (redactText text) = redactText text := by
  rw [redactText, redactText, String.toList_ofList, redaction.redactChars_idem]

/-- Redaction leaves alone what it has redacted already. -/
theorem SourceRecord.redact_redact (r : SourceRecord) : r.redact.redact = r.redact := by
  simp only [SourceRecord.redact, redactText_idem, worker.redact_redact.entries_idem]

theorem SourceResponse.redact_redact (out : SourceResponse) : out.redact.redact = out.redact := by
  have hentries (fields : Option (List (String × Doc))) :
      (fields.map worker.redact.entries').map worker.redact.entries' = fields.map worker.redact.entries' := by
    cases fields with
    | none => rfl
    | some entries => exact congrArg some (worker.redact_redact.entries_idem entries)
  have htext (text : Option String) : (text.map redactText).map redactText = text.map redactText := by
    cases text with
    | none => rfl
    | some text => exact congrArg some (redactText_idem text)
  have hrecords (records : List SourceRecord) :
      (records.map SourceRecord.redact).map SourceRecord.redact = records.map SourceRecord.redact := by
    rw [List.map_map]
    exact List.map_congr_left fun r _ => r.redact_redact
  rw [SourceResponse.redact, SourceResponse.redact]
  simp only [redactText_idem, worker.redact_redact.entries_idem, hentries, htext, hrecords]

/-- The API does not fail while a source is read, unless it refuses to go on. -/
structure Surroundings.Steady (around : Surroundings) : Prop where
  returned : ∀ i failure, around.event (.retrieval_returned i) = .error failure → failure.fatal = true
  after : ∀ i failure, around.event (.tool_after i false) = .error failure → failure.fatal = true

/-- A plan is valid for a run that has its service, a window that holds the plan's, and a
budget for its steps. -/
theorem validate_plan_eq_ok {plan : QueryPlan} {run : RunContext} : validate_plan plan run = .ok () ↔
    plan.service = run.service ∧ validate_plan.lt plan.start run.start = .ok false ∧
      validate_plan.lt run.stop plan.stop = .ok false ∧ validate_plan.lt plan.stop plan.start = .ok false ∧
      plan.steps.length ≤ run.budget.steps ∧ ∀ step ∈ plan.steps, validate_plan.step step = .ok () := by
  rw [validate_plan, ← traversal.forM_eq_ok]
  by_cases hservice : plan.service = run.service
  · by_cases hsteps : run.budget.steps < plan.steps.length
    · rcases validate_plan.lt plan.start run.start with refused | _ | _ <;>
        rcases validate_plan.lt run.stop plan.stop with refused | _ | _ <;>
        rcases validate_plan.lt plan.stop plan.start with refused | _ | _ <;>
        simp [hservice, hsteps, bind, Except.bind]
    · rcases validate_plan.lt plan.start run.start with refused | _ | _ <;>
        rcases validate_plan.lt run.stop plan.stop with refused | _ | _ <;>
        rcases validate_plan.lt plan.stop plan.start with refused | _ | _ <;>
        simp [hservice, hsteps, not_lt.mp hsteps, bind, Except.bind]
  · simp [hservice, bind, Except.bind]

theorem validate_plan.source_mem {step : PlanStep} (h : validate_plan.step step = .ok ()) :
    step.source ∈ ["logs", "deployments", "git", "runbook", "cluster", "context"] := by
  have hmem : (expected.lookup step.source).isSome = true := by
    rw [validate_plan.step.eq_def] at h
    split at h
    · obtain ⟨obj, -, h⟩ := traversal.bind_eq_ok.mp h
      cases hexpected : expected.lookup step.source with
      | some object => rfl
      | none =>
        rw [hexpected] at h
        by_cases hobj : obj = step.object
        · simp [hobj] at h
        · simp [hobj, bind, Except.bind] at h
    · cases h
  exact List.mem_append_left ["context"] (dict.lookup_isSome.mp hmem)

/-- The bundles are the same but for the memories. -/
structure ContextBundle.Reproduces (b b' : ContextBundle) : Prop where
  objects : b'.objects = b.objects
  facts : b'.facts = b.facts
  evidence : b'.evidence = b.evidence
  missing : b'.missing = b.missing
  conflicts : b'.conflicts = b.conflicts
  freshness : b'.freshness = b.freshness
  retrieval : b'.retrieval = b.retrieval

namespace assemble

open Trial

variable {lib : Libraries} {rt rt' : Runtime} {run : RunContext} {around : Surroundings} {recorded : Option Recording}
  {step : PlanStep} {i : Nat} {answer : SourceResponse} {g g' g₀ : Gathered} {recording : Recording} {source : String}

section Record

/-- A state with another number of calls. -/
def recount (calls : Nat) (g : Gathered) : Gathered := { g with calls }

variable (lib rt run i step answer) in
theorem commutes_record (calls : Nat) : Commutes (recount calls) (record lib rt run i step answer) := by
  have hrow (r : SourceRecord) : Commutes (recount calls) (row lib run step answer.redact r) := by
    unfold row
    refine commutes_liftM.bind fun _ => (commutes_modify fun g => ?_).bind fun _ => commutes_liftM.bind fun _ =>
      (commutes_modify fun g => ?_).bind fun _ => commutes_liftM.bind fun _ => commutes_modify fun g => ?_
    all_goals rfl
  unfold record
  refine (commutes_modify fun g => ?_).bind fun _ => commutes_liftM.bind fun _ =>
    (commutes_modify fun g => ?_).bind fun _ => Commutes.forM fun r _ => hrow r
  all_goals rfl

theorem record_redact : record lib rt run i step answer.redact = record lib rt run i step answer := by
  simp only [record, SourceResponse.redact_redact]

/-- Runtimes that allow to go on make the same of an answer. -/
theorem record_hook (h : rt.hook (.retrieval_returned i) = .ok ()) (h' : rt'.hook (.retrieval_returned i) = .ok ()) :
    record lib rt run i step answer = record lib rt' run i step answer := by
  simp only [record, h, h']

theorem record_records (lib : Libraries) (rt : Runtime) (run : RunContext) (i : Nat) (step : PlanStep)
    (answer : SourceResponse) (g : Gathered) :
    (exec (record lib rt run i step answer) g).2.records = dict.put g.records step.source answer.redact := by
  have hrows (g' : Gathered) :
      (exec (forM (available answer.redact) (row lib run step answer.redact)) g').2.records = g'.records :=
    Keeps.forM (I := fun g => g.records = g'.records) (fun r _ => keeps_row (by rintro _ _ _ _ _ h; exact h)) g' rfl
  simp only [record, exec_bind, exec_liftM, exec_modify]
  cases rt.hook (.retrieval_returned i) with
  | error failure => rfl
  | ok => exact hrows _

/-- A query leaves all but the number of calls as it is. -/
theorem retrieve_calls (rt : Runtime) (recorded : Option Recording) (i : Nat) (step : PlanStep) (g : Gathered) :
    ∃ calls, (exec (retrieve rt recorded i step) g).2 = recount calls g :=
  keeps_retrieve (I := fun g' => ∃ calls, g' = recount calls g) (by rintro g' calls ⟨before, rfl⟩; exact ⟨calls, rfl⟩) g
    ⟨g.calls, rfl⟩

variable (lib rt run recorded i) in
theorem keeps_visit_records {found : Option SourceResponse} (hsource : step.source ≠ source) :
    Keeps (fun g => g.records.lookup source = found) (visit lib rt run recorded (step, i)) := by
  have hrecord (answer : SourceResponse) :
      Keeps (fun g => g.records.lookup source = found) (record lib rt run i step answer) := by
    intro g hg
    rw [record_records, dict.lookup_put, if_neg hsource.symm]
    exact hg
  have hrecover (failure : Failure) :
      Keeps (fun g => g.records.lookup source = found) (recover lib rt recorded i step failure) := by
    unfold recover
    split_ifs
    · exact keeps_throw
    · refine (keeps_modify fun g hg => ?_).bind fun _ => keeps_liftM
      exact hg
  unfold visit attempt
  exact keeps_liftM.bind fun _ => ((keeps_retrieve fun _ _ h => h).bind fun out =>
    (hrecord out).bind fun _ => keeps_liftM).tryCatch hrecover

end Record

section Visits

/-- A step of a loop that nothing goes wrong in. -/
def straight (lib : Libraries) (rt : Runtime) (run : RunContext) (recorded : Option Recording)
    (step : PlanStep × Nat) : Assembling Unit := do
  liftM (rt.hook (.tool_before step.2))
  attempt lib rt run recorded step.2 step.1

theorem visit_of_straight {visited : PlanStep × Nat} (h : exec (straight lib rt run recorded visited) g = (.ok (), g')) :
    exec (visit lib rt run recorded visited) g = (.ok (), g') := by
  obtain ⟨⟨⟩, g₁, hbefore, hattempt⟩ := exec_bind_eq_ok.mp h
  exact exec_bind_eq_ok.mpr ⟨(), g₁, hbefore, exec_tryCatch_eq_ok.mpr (.inl hattempt)⟩

/-- The answer is read if the API lets the assembly go on. -/
theorem record_ok (h : exec (record lib rt run i step answer) g = (.ok (), g')) :
    rt.hook (.retrieval_returned i) = .ok () := by
  obtain ⟨-, g₁, -, h⟩ := exec_bind_eq_ok.mp h
  obtain ⟨⟨⟩, g₂, hhook, -⟩ := exec_bind_eq_ok.mp h
  rw [exec_liftM] at hhook
  exact (Prod.mk.inj hhook).1

theorem record_error {failure : Failure} (h : exec (record lib rt run i step answer) g = (.error failure, g')) :
    rt.hook (.retrieval_returned i) = .error failure ∨ rt.hook (.retrieval_returned i) = .ok () := by
  obtain h | ⟨-, g₁, -, h⟩ := exec_bind_eq_error.mp h
  · cases h
  · obtain hhook | ⟨⟨⟩, g₂, hhook, -⟩ := exec_bind_eq_error.mp h
    · rw [exec_liftM] at hhook
      exact .inl (Prod.mk.inj hhook).1
    · rw [exec_liftM] at hhook
      exact .inr (Prod.mk.inj hhook).1

/-- A step that succeeds has read its answer to the end. -/
theorem attempt_ok (h : exec (attempt lib rt run recorded i step) g = (.ok (), g')) :
    ∃ out calls, exec (record lib rt run i step out) (recount calls g) = (.ok (), g') := by
  obtain ⟨calls, hcalls⟩ := retrieve_calls rt recorded i step g
  obtain ⟨out, g₁, hretrieve, h⟩ := exec_bind_eq_ok.mp h
  obtain ⟨⟨⟩, g₂, hrecord, hafter⟩ := exec_bind_eq_ok.mp h
  rw [hretrieve] at hcalls
  rw [exec_liftM] at hafter
  obtain rfl := (Prod.mk.inj hafter).2
  obtain rfl := hcalls
  exact ⟨out, calls, hrecord⟩

/-- A step that fails has not got an answer, or failed while it was reading it. -/
theorem attempt_error {failure : Failure} (hsteady : around.Steady) (hfatal : failure.fatal = false)
    (h : exec (attempt lib (.online run around) run none i step) g = (.error failure, g')) :
    (∃ calls, g' = recount calls g) ∨ ∃ out calls, around.event (.retrieval_returned i) = .ok () ∧
      exec (record lib (.online run around) run i step out) (recount calls g) = (.error failure, g') := by
  obtain ⟨calls, hcalls⟩ := retrieve_calls (.online run around) none i step g
  obtain hretrieve | ⟨out, g₁, hretrieve, h⟩ := exec_bind_eq_error.mp h
  · rw [hretrieve] at hcalls
    exact .inl ⟨calls, hcalls⟩
  · rw [hretrieve] at hcalls
    obtain rfl := hcalls
    obtain hrecord | ⟨-, g₂, -, hafter⟩ := exec_bind_eq_error.mp h
    · obtain hreturned | hreturned := record_error hrecord
      · rw [hsteady.returned i failure hreturned] at hfatal
        cases hfatal
      · exact .inr ⟨out, calls, hreturned, hrecord⟩
    · rw [exec_liftM] at hafter
      rw [hsteady.after i failure (Prod.mk.inj hafter).1] at hfatal
      cases hfatal

/-- A step of a loop that goes on has read its answer to the end, has not got one, or has
failed while it was reading it. -/
theorem visit_cases (hsteady : around.Steady)
    (h : exec (visit lib (.online run around) run none (step, i)) g = (.ok (), g')) :
    (∃ out calls, around.event (.retrieval_returned i) = .ok () ∧
        exec (record lib (.online run around) run i step out) (recount calls g) = (.ok (), g')) ∨
      (exec (straight lib (.online run around) run none (step, i)) g).1 ≠ .ok () ∧
        (g'.records = g.records ∨
          ∃ out calls failure g₁, around.event (.retrieval_returned i) = .ok () ∧
            exec (record lib (.online run around) run i step out) (recount calls g) = (.error failure, g₁) ∧
            g'.records = g₁.records) := by
  obtain ⟨⟨⟩, g₀, hbefore, h⟩ := exec_bind_eq_ok.mp h
  rw [exec_liftM] at hbefore
  obtain ⟨hhook, rfl⟩ := Prod.mk.inj hbefore
  obtain hattempt | ⟨failure, g₁, hattempt, hrecover⟩ := exec_tryCatch_eq_ok.mp h
  · obtain ⟨out, calls, hrecord⟩ := attempt_ok hattempt
    exact .inl ⟨out, calls, record_ok hrecord, hrecord⟩
  · have hstraight : (exec (straight lib (.online run around) run none (step, i)) g).1 ≠ .ok () := by
      rw [straight, exec_bind_ok (exec_liftM _ _ |>.trans (Prod.ext hhook rfl)), hattempt]
      rintro ⟨⟩
    unfold recover at hrecover
    split_ifs at hrecover with hended
    · cases hrecover
    · have hfatal : failure.fatal = false := by simpa using hended
      have hrecords : g'.records = g₁.records := by
        obtain ⟨⟨⟩, g₂, hmodify, hafter⟩ := exec_bind_eq_ok.mp hrecover
        rw [exec_modify] at hmodify
        rw [exec_liftM] at hafter
        rw [← (Prod.mk.inj hafter).2, ← (Prod.mk.inj hmodify).2]
      refine .inr ⟨hstraight, ?_⟩
      obtain ⟨calls, rfl⟩ | ⟨out, calls, hreturned, hrecord⟩ := attempt_error hsteady hfatal hattempt
      · exact .inl hrecords
      · exact .inr ⟨out, calls, failure, g₁, hreturned, hrecord, hrecords⟩

theorem offline_hook (place : Place) :
    exec (liftM ((Runtime.offline run).hook place) : Assembling Unit) g₀ = (.ok (), g₀) := rfl

variable (lib run i g₀) in
/-- A replay makes of what has been kept what was made of the answer. -/
theorem visit_offline (hlookup : recording.lookup step.source = some answer.redact)
    (hsource : step.source ∈ ["logs", "deployments", "git", "runbook", "cluster", "context"])
    (hcalls : g₀.calls < run.budget.steps) :
    exec (visit lib (.offline run) run (some recording) (step, i)) g₀ =
      exec (record lib (.offline run) run i step answer) (recount (g₀.calls + 1) g₀) := by
  have hretrieve : exec (retrieve (.offline run) (some recording) i step) g₀ =
      (.ok answer.redact, recount (g₀.calls + 1) g₀) := by
    simp only [retrieve, hlookup, authorize, Runtime.offline, exec_bind, exec_getThe, exec_set, exec_liftM, exec_pure,
      not_true_eq_false, if_false, hsource, if_neg (not_lt.mpr (Nat.succ_le_of_lt hcalls))]
    rfl
  rw [visit, exec_bind_ok (offline_hook _), exec_tryCatch, attempt, exec_bind_ok hretrieve, exec_bind, record_redact]
  rcases exec (record lib (.offline run) run i step answer) (recount (g₀.calls + 1) g₀) with ⟨failure | done, g₁⟩
  · rfl
  · rfl

/-- A replay does not go on without a recording. -/
theorem visit_unrecorded (hlookup : recording.lookup step.source = none) :
    (exec (visit lib (.offline run) run (some recording) (step, i)) g₀).1 ≠ .ok () := by
  rw [visit, exec_bind_ok (offline_hook _), exec_tryCatch, attempt, retrieve, hlookup]
  rintro ⟨⟩

variable (lib rt run recorded g) in
/-- What a source has recorded stays, as long as no later step asks it again. -/
theorem visits_records {steps : List (PlanStep × Nat)} (hsource : source ∉ steps.map fun s => s.1.source) :
    (exec (forM steps (visit lib rt run recorded)) g).2.records.lookup source = g.records.lookup source :=
  Keeps.forM (I := fun g' => g'.records.lookup source = g.records.lookup source)
    (fun _ hstep => keeps_visit_records lib rt run recorded _ fun heq => hsource (List.mem_map.mpr ⟨_, hstep, heq⟩)) g rfl

/-- A replay of a loop whose steps ask different sources ends as it has ended, or with an
error, and not with an error if nothing has gone wrong. -/
theorem replay_visits {steps : List (PlanStep × Nat)} (hsteady : around.Steady)
    (hdistinct : (steps.map fun s => s.1.source).Nodup)
    (hsources : ∀ s ∈ steps, s.1.source ∈ ["logs", "deployments", "git", "runbook", "cluster", "context"])
    (hfresh : ∀ s ∈ steps, g.records.lookup s.1.source = none)
    (h : exec (forM steps (visit lib (.online run around) run none)) g = (.ok (), g')) (calls : Nat)
    (hcalls : calls + steps.length ≤ run.budget.steps) :
    (∀ g₁, exec (forM steps (visit lib (.offline run) run (some g'.records))) (recount calls g) = (.ok (), g₁) →
        ∃ calls, g₁ = recount calls g') ∧
      ((exec (forM steps (straight lib (.online run around) run none)) g).1 = .ok () →
        ∃ g₁, exec (forM steps (visit lib (.offline run) run (some g'.records))) (recount calls g) = (.ok (), g₁)) := by
  induction steps generalizing g calls with
  | nil =>
    cases h
    exact ⟨fun g₁ h => ⟨calls, (Prod.mk.inj h).2.symm⟩, fun _ => ⟨_, rfl⟩⟩
  | cons visited steps ih =>
    obtain ⟨step, i⟩ := visited
    rw [List.map_cons, List.nodup_cons] at hdistinct
    rw [List.forM_cons] at h
    obtain ⟨⟨⟩, g₂, hvisit, hrest⟩ := exec_bind_eq_ok.mp h
    have hkept : g'.records.lookup step.source = g₂.records.lookup step.source := by
      have hrecords := visits_records lib (.online run around) run none g₂ hdistinct.1
      rwa [hrest] at hrecords
    have hfresh₂ : ∀ s ∈ steps, g₂.records.lookup s.1.source = none := by
      intro s hs
      have hother : step.source ≠ s.1.source := fun heq => hdistinct.1 (heq ▸ List.mem_map_of_mem hs)
      have hrecords := keeps_visit_records lib (.online run around) run none i hother g (hfresh s (List.mem_cons_of_mem _ hs))
      rwa [hvisit] at hrecords
    rw [List.length_cons] at hcalls
    simp only [List.forM_cons]
    have hsource := hsources (step, i) List.mem_cons_self
    -- A step that is read again to the end or to the failure that ended it.
    have hagain {out : SourceResponse} {before : Nat} {result : Except Failure Unit} {g₁ : Gathered}
        (hreturned : around.event (.retrieval_returned i) = .ok ())
        (hrecord : exec (record lib (.online run around) run i step out) (recount before g) = (result, g₁))
        (hrecords : g₂.records = g₁.records) :
        exec (visit lib (.offline run) run (some g'.records) (step, i)) (recount calls g) =
          (result, recount (calls + 1) g₁) := by
      have hout : g'.records.lookup step.source = some out.redact := by
        have hput := record_records lib (.online run around) run i step out (recount before g)
        rw [hrecord] at hput
        rw [hkept, hrecords, hput, dict.lookup_put, if_pos rfl]
      have hoffline : (Runtime.offline run).hook (.retrieval_returned i) = .ok () := rfl
      have honline : (Runtime.online run around).hook (.retrieval_returned i) = .ok () := hreturned
      rw [visit_offline lib run i _ hout hsource (by change calls < _; omega),
        record_hook hoffline honline]
      have hcommutes := commutes_record lib (.online run around) run step i out (calls + 1) (recount before g)
      rw [hrecord] at hcommutes
      exact hcommutes
    obtain ⟨out, before, hreturned, hrecord⟩ | ⟨hstraight, hfailed⟩ := visit_cases hsteady hvisit
    · have hoffline := hagain hreturned hrecord rfl
      have htail := ih hdistinct.2 (fun s hs => hsources s (List.mem_cons_of_mem _ hs)) hfresh₂ hrest
        (calls + 1) (by omega)
      refine ⟨fun g₁ h₁ => ?_, fun hall => ?_⟩
      · rw [exec_bind_ok hoffline] at h₁
        exact htail.1 g₁ h₁
      · rcases hfirst : exec (straight lib (.online run around) run none (step, i)) g with ⟨failure | done, g₃⟩
        · rw [exec_bind_error hfirst] at hall
          cases hall
        · have hsame := visit_of_straight hfirst
          rw [hvisit] at hsame
          obtain rfl := (Prod.mk.inj hsame).2
          rw [exec_bind_ok hfirst] at hall
          obtain ⟨g₁, h₁⟩ := htail.2 hall
          exact ⟨g₁, (exec_bind_ok hoffline).trans h₁⟩
    · have hended : (exec (visit lib (.offline run) run (some g'.records) (step, i)) (recount calls g)).1 ≠ .ok () := by
        obtain hrecords | ⟨out, before, failure, g₁, hreturned, hrecord, hrecords⟩ := hfailed
        · exact visit_unrecorded (by rw [hkept, hrecords, hfresh (step, i) List.mem_cons_self])
        · rw [hagain hreturned hrecord hrecords]
          rintro ⟨⟩
      refine ⟨fun g₁ h₁ => ?_, fun hall => ?_⟩
      · obtain ⟨⟨⟩, g₃, hfirst, -⟩ := exec_bind_eq_ok.mp h₁
        rw [hfirst] at hended
        exact absurd rfl hended
      · rcases hfirst : exec (straight lib (.online run around) run none (step, i)) g with ⟨failure | done, g₃⟩
        · rw [exec_bind_error hfirst] at hall
          cases hall
        · rw [hfirst] at hstraight
          exact absurd rfl hstraight

end Visits

/-- Replays of a plan, for any run, with the recordings of its investigations. -/
def Replayed (lib : Libraries) (plan : QueryPlan) : Prop :=
  ∀ run around b recording, Surroundings.Steady around →
    assemble lib (.online run around) run plan none = .ok (b, recording) →
      (∀ b' recording', assemble lib (.offline run) run plan (some recording) = .ok (b', recording') →
          b.Reproduces b') ∧
        ((exec (forM plan.steps.zipIdx (straight lib (.online run around) run none)) Gathered.empty).1 = .ok () →
          ∃ b' recording', assemble lib (.offline run) run plan (some recording) = .ok (b', recording'))

section Distinct

variable {plan : QueryPlan}

theorem replayed_of_distinct (hdistinct : (plan.steps.map PlanStep.source).Nodup) : Replayed lib plan := by
  intro run around b recording hsteady h
  obtain ⟨hplan, -, hgather, hconclude⟩ := assemble_eq_ok.mp h
  obtain ⟨b₁, memories, hb₁, hsize, -, -, rfl, rfl⟩ := conclude_eq_ok.mp hconclude
  obtain ⟨-, -, -, -, hsteps, hvalid⟩ := validate_plan_eq_ok.mp hplan
  have hmem {s : PlanStep × Nat} (hs : s ∈ plan.steps.zipIdx) : s.1 ∈ plan.steps :=
    List.fst_mem_of_mem_zipIdx hs
  have hsources : plan.steps.zipIdx.map (fun s => s.1.source) = plan.steps.map PlanStep.source := by
    rw [← List.zipIdx_map_fst 0 plan.steps, List.map_map]
    simp [Function.comp_def]
  have hloop : exec (forM plan.steps.zipIdx (visit lib (.online run around) run none)) Gathered.empty =
      (.ok (), (gather lib (.online run around) run plan none).2) := Prod.ext hgather rfl
  have hreplay := replay_visits hsteady (by rwa [hsources])
    (fun s hs => validate_plan.source_mem (hvalid _ (hmem hs))) (fun _ _ => rfl) hloop 0 (by simpa using hsteps)
  refine ⟨fun b' recording' h' => ?_, fun hall => ?_⟩
  · obtain ⟨-, -, hgather', hconclude'⟩ := assemble_eq_ok.mp h'
    obtain ⟨b₂, memories', hb₂, -, -, -, rfl, -⟩ := conclude_eq_ok.mp hconclude'
    obtain ⟨calls, hcalls⟩ := hreplay.1 _ (Prod.ext hgather' rfl)
    rw [show (gather lib (.offline run) run plan _).2 = _ from hcalls] at hb₂
    obtain rfl : b₁ = b₂ := Except.ok.inj (hb₁.symm.trans hb₂)
    exact ⟨rfl, rfl, rfl, rfl, rfl, rfl, rfl⟩
  · obtain ⟨g₁, hg₁⟩ := hreplay.2 hall
    obtain ⟨calls, rfl⟩ := hreplay.1 g₁ hg₁
    have hoffline : gather lib (.offline run) run plan (some (gather lib (.online run around) run plan none).2.records) =
        (.ok (), recount calls (gather lib (.online run around) run plan none).2) := hg₁
    exact ⟨{ b₁ with memories := [] }, _, assemble_eq_ok.mpr ⟨hplan, rfl, by rw [hoffline], by
      rw [hoffline]
      exact conclude_eq_ok.mpr ⟨b₁, [], hb₁, hsize, rfl, rfl, rfl, rfl⟩⟩⟩

end Distinct

section Repeated

/-- The sources answer without records, but for the `j`-th query, which fails. -/
def failingAt (j : Nat) : Surroundings where
  late _ := false
  event _ := .ok ()
  authorized _ := .ok ()
  answer
    | .query i _, _ => if i = j then .error (.HTTPStatusError 503) else .ok (answering [])
    | _, _ => .error (.HTTPStatusError 503)
  memories := []

theorem failingAt_steady (j : Nat) : (failingAt j).Steady where
  returned := by rintro i failure ⟨⟩
  after := by rintro i failure ⟨⟩

variable {plan : QueryPlan} {steps : List (PlanStep × Nat)} {j : Nat}

variable (lib rt run i step g) in
/-- An answer without records only says how fresh it is. -/
theorem record_blank (hanswer : answer.records = []) (hhook : rt.hook (.retrieval_returned i) = .ok ()) :
    ∃ g', exec (record lib rt run i step answer) g = (.ok (), g') ∧ g'.calls = g.calls ∧ g'.evidence = g.evidence ∧
      g'.records = dict.put g.records step.source answer.redact ∧ g'.freshness.length = g.freshness.length + 1 := by
  have hrecords : answer.redact.records = [] := by rw [SourceResponse.redact, hanswer]; rfl
  simp only [record, exec_bind, exec_modify, exec_liftM, hhook, hrecords, List.filter_nil]
  exact ⟨_, rfl, rfl, rfl, rfl, List.length_append⟩

variable (lib run step i j g) in
theorem visit_failingAt (hcalls : g.calls < run.budget.steps) :
    ∃ g', exec (visit lib (.online run (failingAt j)) run none (step, i)) g = (.ok (), g') ∧ g'.calls = g.calls + 1 ∧
      g'.evidence = g.evidence ∧ g'.freshness.length = g.freshness.length + (if i = j then 0 else 1) ∧
      (i = j → g'.records = g.records) ∧
      (i ≠ j → ∃ out, (out.records = [] ∧ out.redact = out) ∧ g'.records = dict.put g.records step.source out) := by
  have hquery (cursor : Option String) : exec (query (.online run (failingAt j)) (.query i 0) step cursor) g =
      (if i = j then .error (.HTTPStatusError 503) else .ok (answering []), recount (g.calls + 1) g) := by
    simp only [query, authorize, Runtime.online, failingAt, exec_bind, exec_getThe, exec_set, exec_liftM,
      Bool.false_eq_true, or_false, if_neg (not_le.mpr hcalls)]
    rfl
  have hbefore : exec (liftM ((Runtime.online run (failingAt j)).hook (.tool_before i)) : Assembling Unit) g =
      (.ok (), g) := rfl
  rw [visit, exec_bind_ok hbefore, exec_tryCatch]
  by_cases hij : i = j
  · rw [if_pos hij] at hquery
    have hretrieve : exec (retrieve (.online run (failingAt j)) none i step) g =
        (.error (.HTTPStatusError 503), recount (g.calls + 1) g) := exec_bind_error (hquery none)
    rw [attempt, exec_bind_error hretrieve, if_pos hij]
    exact ⟨_, rfl, rfl, rfl, rfl, fun _ => rfl, fun hne => absurd hij hne⟩
  · rw [if_neg hij] at hquery
    have hretrieve : ∃ out : SourceResponse, out.records = [] ∧
        exec (retrieve (.online run (failingAt j)) none i step) g = (.ok out, recount (g.calls + 1) g) := by
      rw [retrieve, exec_bind_ok (hquery none)]
      by_cases hlogs : step.source = "logs"
      · rw [if_pos hlogs]
        exact ⟨_, rfl, rfl⟩
      · rw [if_neg hlogs]
        exact ⟨_, rfl, rfl⟩
    obtain ⟨out, hout, hretrieve⟩ := hretrieve
    obtain ⟨g', hrecord, hcalls', hevidence, hrecords, hfreshness⟩ := record_blank lib
      (.online run (failingAt j)) run step i (recount (g.calls + 1) g) hout rfl
    rw [attempt, exec_bind_ok hretrieve, exec_bind_ok hrecord, if_neg hij]
    have hblank : out.redact.records = [] := by rw [SourceResponse.redact, hout]; rfl
    exact ⟨g', rfl, hcalls', hevidence, hfreshness, fun heq => absurd heq hij,
      fun _ => ⟨out.redact, ⟨hblank, out.redact_redact⟩, hrecords⟩⟩

/-- The sources of a recording have answered without records. -/
def Blank (recording : Recording) : Prop :=
  ∀ source out, recording.lookup source = some out → out.records = [] ∧ out.redact = out

variable (lib run steps j g) in
theorem visits_failingAt (hcalls : g.calls + steps.length ≤ run.budget.steps) :
    ∃ g', exec (forM steps (visit lib (.online run (failingAt j)) run none)) g = (.ok (), g') ∧
      g'.calls = g.calls + steps.length ∧ g'.evidence = g.evidence ∧
      g'.freshness.length = g.freshness.length + steps.countP (·.2 ≠ j) ∧ (Blank g.records → Blank g'.records) ∧
      (∀ source, (g.records.lookup source).isSome → (g'.records.lookup source).isSome) ∧
      ∀ s ∈ steps, s.2 ≠ j → (g'.records.lookup s.1.source).isSome := by
  induction steps generalizing g with
  | nil => exact ⟨g, rfl, rfl, rfl, rfl, id, fun _ => id, List.forall_mem_nil _⟩
  | cons s steps ih =>
    obtain ⟨step, i⟩ := s
    rw [List.length_cons] at hcalls
    obtain ⟨g₁, hvisit, hcalls₁, hevidence₁, hfreshness₁, hfailed, hrecorded⟩ := visit_failingAt lib run step i g j (by omega)
    obtain ⟨g', hvisits, hcalls', hevidence', hfreshness', hblank, hkept, hall⟩ := ih g₁ (by omega)
    refine ⟨g', ?_, ?_, hevidence'.trans hevidence₁, ?_, ?_, ?_, ?_⟩
    · rw [List.forM_cons, exec_bind_ok hvisit, hvisits]
    · rw [hcalls', hcalls₁, List.length_cons]
      omega
    · rw [hfreshness', hfreshness₁, List.countP_cons]
      by_cases hij : i = j <;> simp [hij]
      omega
    · intro h
      refine hblank ?_
      by_cases hij : i = j
      · rwa [hfailed hij]
      · obtain ⟨out, hout, hput⟩ := hrecorded hij
        intro source found hfound
        rw [hput, dict.lookup_put] at hfound
        split_ifs at hfound
        · exact Option.some.inj hfound ▸ hout
        · exact h source found hfound
    · intro source hsource
      refine hkept source ?_
      by_cases hij : i = j
      · rwa [hfailed hij]
      · obtain ⟨out, -, hput⟩ := hrecorded hij
        rw [hput, dict.lookup_put]
        split_ifs
        · rfl
        · exact hsource
    · intro s hs hsj
      obtain rfl | hs := List.mem_cons.mp hs
      · obtain ⟨out, -, hput⟩ := hrecorded hsj
        exact hkept step.source (by rw [hput, dict.lookup_put, if_pos rfl]; rfl)
      · exact hall s hs hsj

variable (lib run steps g) in
/-- A replay reads every answer that is recorded. -/
theorem visits_blank (hblank : Blank recording)
    (hsources : ∀ s ∈ steps, s.1.source ∈ ["logs", "deployments", "git", "runbook", "cluster", "context"])
    (hrecorded : ∀ s ∈ steps, (recording.lookup s.1.source).isSome) (hcalls : g.calls + steps.length ≤ run.budget.steps) :
    ∃ g', exec (forM steps (visit lib (.offline run) run (some recording))) g = (.ok (), g') ∧
      g'.evidence = g.evidence ∧ g'.freshness.length = g.freshness.length + steps.length := by
  induction steps generalizing g with
  | nil => exact ⟨g, rfl, rfl, rfl⟩
  | cons s steps ih =>
    obtain ⟨step, i⟩ := s
    rw [List.length_cons] at hcalls
    obtain ⟨out, hout⟩ := Option.isSome_iff_exists.mp (hrecorded (step, i) List.mem_cons_self)
    have hvisit := visit_offline lib run i g (hout.trans (congrArg some (hblank _ _ hout).2.symm))
      (hsources (step, i) List.mem_cons_self) (by omega)
    obtain ⟨g₁, hrecord, hcalls₁, hevidence₁, -, hfreshness₁⟩ := record_blank lib (.offline run) run step i
      (recount (g.calls + 1) g) (hblank _ _ hout).1 rfl
    have hcount : g₁.calls = g.calls + 1 := hcalls₁
    obtain ⟨g', hvisits, hevidence', hfreshness'⟩ := ih g₁
      (fun s hs => hsources s (List.mem_cons_of_mem _ hs)) (fun s hs => hrecorded s (List.mem_cons_of_mem _ hs)) (by omega)
    refine ⟨g', ?_, hevidence'.trans hevidence₁, ?_⟩
    · rw [List.forM_cons, exec_bind_ok (hvisit.trans hrecord), hvisits]
    · rw [hfreshness', hfreshness₁, List.length_cons]
      change g.freshness.length + 1 + _ = _
      omega

variable (lib run plan) in
theorem bundle_blank (hevidence : g.evidence = []) : ∃ b, bundle lib run plan g = .ok b ∧ b.freshness = g.freshness := by
  rw [bundle, hevidence]
  exact ⟨_, rfl, rfl⟩

/-- With a source that is asked twice, there is a replay that does not reproduce. -/
theorem distinct_of_replayed (h : Replayed lib plan) (hplan : validate_plan plan run = .ok ()) :
    (plan.steps.map PlanStep.source).Nodup := by
  rw [List.Nodup, List.pairwise_map, List.pairwise_iff_getElem]
  intro j k hj hk hjk hsame
  obtain ⟨hservice, hstart, hstop, hwindow, -, hvalid⟩ := validate_plan_eq_ok.mp hplan
  let run₁ : RunContext := { run with budget := { run.budget with steps := plan.steps.length + 1 } }
  have hplan₁ : validate_plan plan run₁ = .ok () :=
    validate_plan_eq_ok.mpr ⟨hservice, hstart, hstop, hwindow, Nat.le_succ _, hvalid⟩
  obtain ⟨g, hgather, hcalls, hevidence, hfreshness, hblank, -, hrecorded⟩ := visits_failingAt lib run₁
    Gathered.empty plan.steps.zipIdx j (by simp [Gathered.empty, run₁])
  have hmem {s : PlanStep × Nat} (hs : s ∈ plan.steps.zipIdx) : s.1 ∈ plan.steps := List.fst_mem_of_mem_zipIdx hs
  -- The failing query leaves no gap, because a later one has the same source.
  have hall : ∀ s ∈ plan.steps.zipIdx, (g.records.lookup s.1.source).isSome := by
    rintro ⟨step, i⟩ hs
    by_cases hij : i = j
    · have hlater := hrecorded (plan.steps[k], k) (List.mk_mem_zipIdx_iff_getElem?.mpr (List.getElem?_eq_getElem hk))
        (by simp; omega)
      have hstep : step = plan.steps[j] := by
        have hget := List.mk_mem_zipIdx_iff_getElem?.mp hs
        rw [hij, List.getElem?_eq_getElem hj] at hget
        exact (Option.some.inj hget).symm
      rw [hstep, hsame]
      exact hlater
    · exact hrecorded (step, i) hs hij
  obtain ⟨g', hreplay, hevidence', hfreshness'⟩ := visits_blank lib run₁ Gathered.empty
    plan.steps.zipIdx (hblank fun _ _ hnone => nomatch hnone)
    (fun s hs => validate_plan.source_mem (hvalid _ (hmem hs))) hall (by simp [Gathered.empty, run₁])
  obtain ⟨b, hb, hbfreshness⟩ := bundle_blank lib run₁ plan hevidence
  obtain ⟨b', hb', hbfreshness'⟩ := bundle_blank lib run₁ plan hevidence'
  obtain ⟨n, hn, hn'⟩ : ∃ n, size lib b ≤ n ∧ size lib b' ≤ n := ⟨max _ _, le_max_left _ _, le_max_right _ _⟩
  have hrun : gather lib (.online run₁ (failingAt j)) run₁ plan none = (.ok (), g) := hgather
  have hrun' : gather lib (.offline run₁) run₁ plan (some g.records) = (.ok (), g') := hreplay
  have hmemories : remembered (.online run₁ (failingAt j)) none g.calls = .ok [] :=
    remembered_online (by simp [hcalls, Gathered.empty, run₁]) rfl rfl
  have honline : assemble lib (.online (run₁.within n) (failingAt j)) (run₁.within n) plan none =
      .ok ({ b with memories := [] }, g.records) := by
    have hhook : (Runtime.online run₁ (failingAt j)).hook .plan_validated = .ok () := rfl
    have hassemble := assemble_within hplan₁ hhook (by rw [hrun]) (by rw [hrun, hb]) (by rw [hrun, hmemories]) rfl hn
    rw [hrun] at hassemble
    exact hassemble
  have hoffline : assemble lib (.offline (run₁.within n)) (run₁.within n) plan (some g.records) =
      .ok ({ b' with memories := [] }, g'.records) := by
    have hhook : (Runtime.offline run₁).hook .plan_validated = .ok () := rfl
    have hassemble := assemble_within hplan₁ hhook (by rw [hrun']) (by rw [hrun', hb']) rfl rfl hn'
    rw [hrun'] at hassemble
    exact hassemble
  have hreproduced := ((h _ _ _ _ (failingAt_steady j) honline).1 _ _ hoffline).freshness
  have hlength : g'.freshness.length = g.freshness.length := by
    rw [← hbfreshness, ← hbfreshness']
    exact congrArg List.length hreproduced
  have hless : plan.steps.zipIdx.countP (·.2 ≠ j) ≠ plan.steps.zipIdx.length := by
    rw [Ne, List.countP_eq_length]
    intro hall
    simpa using hall (plan.steps[j], j) (List.mk_mem_zipIdx_iff_getElem?.mpr (List.getElem?_eq_getElem hj))
  omega

end Repeated

/-- The recordings of the default plan can be replayed. -/
theorem replayed_default (lib : Libraries) (run : RunContext) (OBSERVE_NAMESPACE : String) :
    Replayed lib (default_plan run OBSERVE_NAMESPACE) :=
  replayed_of_distinct (default_sources run OBSERVE_NAMESPACE).1

/-- The replays of the investigations by a plan reproduce them, and end well if nothing has
gone wrong, if and only if the plan is refused or asks no source twice. -/
theorem replayed_iff (lib : Libraries) (plan : QueryPlan) :
    Replayed lib plan ↔ ((∃ run, validate_plan plan run = .ok ()) → (plan.steps.map PlanStep.source).Nodup) := by
  constructor
  · rintro h ⟨run, hplan⟩
    exact distinct_of_replayed h hplan
  · intro h run around b recording hsteady hassemble
    exact replayed_of_distinct (h ⟨run, (assemble_eq_ok.mp hassemble).1⟩) run around b recording hsteady hassemble

end assemble

end incidentdesk.worker
