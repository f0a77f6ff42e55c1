import IncidentDesk.Traversal
import IncidentDesk.Worker.Assembly

namespace incidentdesk.worker.assemble

open Trial

variable {lib : Libraries} {rt : Runtime} {run : RunContext} {recorded : Option Recording} {step : PlanStep} {i : Nat}
  {out : SourceResponse} {r : SourceRecord} {rs : List SourceRecord} {g : Gathered}

section Rows

/-- What can still fail for a record that is evidence already. -/
def finish (lib : Libraries) (step : PlanStep) (content : List (String × Doc)) : Except Failure Unit := do
  let _ ← describe lib step.source content
  let _ ← version step content
  return

theorem row_fst (lib : Libraries) (run : RunContext) (step : PlanStep) (out : SourceResponse) (r : SourceRecord)
    (g : Gathered) : (exec (row lib run step out r) g).1 = (do
    mapped run step.source r.content
    finish lib step r.content) := by
  simp only [row, finish, exec_bind, exec_liftM, exec_modify]
  cases mapped run step.source r.content with
  | error failure => rfl
  | ok => cases describe lib step.source r.content with
    | error failure => rfl
    | ok text => cases version step r.content <;> rfl

theorem row_evidence (lib : Libraries) (run : RunContext) (step : PlanStep) (out : SourceResponse) (r : SourceRecord)
    (g : Gathered) : (exec (row lib run step out r) g).2.evidence =
    g.evidence ++ if (mapped run step.source r.content).isOk then [evidenceOf lib run step out r] else [] := by
  simp only [row, exec_bind, exec_liftM, exec_modify]
  cases mapped run step.source r.content with
  | error failure => simp [Except.isOk, Except.toBool]
  | ok => cases describe lib step.source r.content with
    | error failure => rfl
    | ok text => cases version step r.content <;> rfl

/-- A record changes the evidence, the facts, the versions and what is missing. -/
theorem keeps_row {I : Gathered → Prop}
    (h : ∀ g facts evidence missing versions, I g → I { g with facts, evidence, missing, versions }) :
    Keeps I (row lib run step out r) := by
  unfold row
  refine keeps_liftM.bind fun _ => (keeps_modify fun g hg => ?_).bind fun _ => keeps_liftM.bind fun text =>
    (keeps_modify fun g hg => ?_).bind fun _ => keeps_liftM.bind fun found => keeps_modify fun g hg => ?_
  · exact h g g.facts _ _ g.versions hg
  · exact h g _ g.evidence g.missing g.versions hg
  · exact h g g.facts g.evidence g.missing _ hg

/-- The records that become evidence: all of them, unless one of them cannot. -/
def taken (lib : Libraries) (run : RunContext) (step : PlanStep) : List SourceRecord → List SourceRecord
  | [] => []
  | r :: rs =>
    if (mapped run step.source r.content).isOk then
      r :: if (finish lib step r.content).isOk then taken lib run step rs else []
    else []

theorem taken_front (rs : List SourceRecord) : taken lib run step rs <+: rs := by
  induction rs with
  | nil => exact List.prefix_rfl
  | cons r rs ih =>
    rw [taken]
    split_ifs
    · exact (List.prefix_cons_inj r).mpr ih
    · exact (List.prefix_cons_inj r).mpr List.nil_prefix
    · exact List.nil_prefix

theorem rows_evidence : (exec (forM rs (row lib run step out)) g).2.evidence =
    g.evidence ++ (taken lib run step rs).map (evidenceOf lib run step out) := by
  induction rs generalizing g with
  | nil => simp [taken]
  | cons r rs ih =>
    have hfst := row_fst lib run step out r g
    have hevidence := row_evidence lib run step out r g
    rw [List.forM_cons, exec_bind, taken]
    generalize exec (row lib run step out r) g = ended at hfst hevidence ⊢
    obtain ⟨result, g'⟩ := ended
    dsimp only at hfst hevidence
    subst hfst
    cases hmapped : mapped run step.source r.content with
    | error failure => simp [hevidence, hmapped, Except.isOk, Except.toBool, bind, Except.bind]
    | ok => cases hfinish : finish lib step r.content with
      | error failure => simp [hevidence, hmapped, Except.isOk, Except.toBool, bind, Except.bind]
      | ok => simp [hevidence, hmapped, ih, Except.isOk, Except.toBool, bind, Except.bind]

/-- All records become evidence if the loop ends well. -/
theorem taken_of_ok (h : (exec (forM rs (row lib run step out)) g).1 = .ok ()) : taken lib run step rs = rs := by
  induction rs generalizing g with
  | nil => rfl
  | cons r rs ih =>
    have hfst := row_fst lib run step out r g
    rw [List.forM_cons, exec_bind] at h
    generalize exec (row lib run step out r) g = ended at hfst h
    obtain ⟨result, g'⟩ := ended
    dsimp only at hfst
    subst hfst
    cases hmapped : mapped run step.source r.content with
    | error failure => simp [hmapped, bind, Except.bind] at h
    | ok => cases hfinish : finish lib step r.content with
      | error failure => simp [hmapped, hfinish, bind, Except.bind] at h
      | ok =>
        simp only [hmapped, hfinish, bind, Except.bind] at h
        simp [taken, hmapped, hfinish, ih h, Except.isOk, Except.toBool]

end Rows

section Steps

/-- The records of an answer that are still there. -/
def available (out : SourceResponse) : List SourceRecord := out.records.filter fun r => !r.deleted

theorem available_redact (out : SourceResponse) : available out.redact = (available out).map SourceRecord.redact := by
  have hdeleted (r : SourceRecord) : r.redact.deleted = r.deleted := by rw [SourceRecord.redact]
  rw [available, available, SourceResponse.redact]
  induction out.records with
  | nil => rfl
  | cons r rs ih =>
    rw [List.map_cons, List.filter_cons, List.filter_cons, ih, hdeleted]
    split <;> rfl

/-- The records of an answer that become evidence, as the source has sent them. -/
def used (lib : Libraries) (run : RunContext) (step : PlanStep) (answer : SourceResponse) : List SourceRecord :=
  (available answer).take (taken lib run step (available answer.redact)).length

theorem map_used (answer : SourceResponse) :
    (used lib run step answer).map SourceRecord.redact = taken lib run step (available answer.redact) := by
  rw [used, List.map_take, ← available_redact]
  exact (List.prefix_iff_eq_take.mp (taken_front _)).symm

/-- What an answer becomes. -/
def shown (lib : Libraries) (run : RunContext) (step : PlanStep) (answer : SourceResponse) : List Evidence :=
  (used lib run step answer).map fun r => evidenceOf lib run step answer.redact r.redact

theorem shown_eq (answer : SourceResponse) : shown lib run step answer =
    (taken lib run step (available answer.redact)).map (evidenceOf lib run step answer.redact) := by
  rw [shown, ← map_used, List.map_map]
  rfl

theorem record_evidence (lib : Libraries) (rt : Runtime) (run : RunContext) (i : Nat) (step : PlanStep)
    (answer : SourceResponse) (g : Gathered) : (exec (record lib rt run i step answer) g).2.evidence =
    g.evidence ++ if (rt.hook (.retrieval_returned i)).isOk then shown lib run step answer else [] := by
  simp only [record, exec_bind, exec_liftM, exec_modify]
  cases rt.hook (.retrieval_returned i) with
  | error failure => simp [Except.isOk, Except.toBool]
  | ok =>
    dsimp only
    rw [rows_evidence, shown_eq]
    rfl

/-- A query changes the number of calls. -/
theorem keeps_retrieve {I : Gathered → Prop} (h : ∀ g calls, I g → I { g with calls }) :
    Keeps I (retrieve rt recorded i step) := by
  have hauthorize (place : Place) : Keeps I (authorize rt place step.source) := fun g hg => h g _ hg
  have hquery (place : Place) (cursor : Option String) : Keeps I (query rt place step cursor) :=
    (hauthorize place).bind fun _ => keeps_liftM
  have hfurther (left pages : Nat) (out : SourceResponse) : Keeps I (further rt i step left pages out) := by
    induction left generalizing pages out with
    | zero => exact keeps_pure
    | succ left ih =>
      rw [further]
      split
      · exact keeps_pure
      · exact (hquery _ _).bind fun more => ih _ _
  unfold retrieve
  cases recorded with
  | none =>
    refine (hquery _ _).bind fun out => ?_
    split_ifs
    · exact (hfurther 2 1 out).bind fun _ => keeps_pure
    · exact keeps_pure
  | some recorded =>
    dsimp only
    split
    · exact keeps_throw
    · exact (hauthorize _).bind fun _ => keeps_pure

/-- The answer that a step gets, and goes on to read. -/
def reading (rt : Runtime) (recorded : Option Recording) (step : PlanStep × Nat) (g : Gathered) : Option SourceResponse :=
  match rt.hook (.tool_before step.2), (exec (retrieve rt recorded step.2 step.1) g).1,
    rt.hook (.retrieval_returned step.2) with
  | .ok _, .ok out, .ok _ => some out
  | _, _, _ => none

theorem recover_evidence {failure : Failure} :
    (exec (recover lib rt recorded i step failure) g).2.evidence = g.evidence := by
  unfold recover
  split_ifs <;> rfl

theorem attempt_evidence (lib : Libraries) (rt : Runtime) (run : RunContext) (recorded : Option Recording) (i : Nat)
    (step : PlanStep) (g : Gathered) : (exec (attempt lib rt run recorded i step) g).2.evidence = g.evidence ++
    match (exec (retrieve rt recorded i step) g).1, rt.hook (.retrieval_returned i) with
    | .ok out, .ok _ => shown lib run step out
    | _, _ => [] := by
  have hkept : (exec (retrieve rt recorded i step) g).2.evidence = g.evidence :=
    keeps_retrieve (I := fun g' => g'.evidence = g.evidence) (fun _ _ h => h) g rfl
  rw [attempt, exec_bind]
  generalize exec (retrieve rt recorded i step) g = ended at hkept ⊢
  obtain ⟨failure | out, g'⟩ := ended
  · simpa using hkept
  · have hrecord := record_evidence lib rt run i step out g'
    dsimp only at hkept ⊢
    rw [hkept] at hrecord
    rw [exec_bind]
    generalize exec (record lib rt run i step out) g' = ended at hrecord ⊢
    obtain ⟨failure | done, g''⟩ := ended
    · dsimp only at hrecord ⊢
      rw [hrecord]
      cases rt.hook (.retrieval_returned i) <;> rfl
    · dsimp only at hrecord ⊢
      rw [exec_liftM, hrecord]
      cases rt.hook (.retrieval_returned i) <;> rfl

theorem visit_evidence (lib : Libraries) (rt : Runtime) (run : RunContext) (recorded : Option Recording)
    (step : PlanStep × Nat) (g : Gathered) : (exec (visit lib rt run recorded step) g).2.evidence =
      g.evidence ++ (reading rt recorded step g).elim [] (shown lib run step.1) := by
  obtain ⟨step, i⟩ := step
  rw [visit, exec_bind, exec_liftM, reading]
  cases rt.hook (.tool_before i) with
  | error failure => simp
  | ok =>
    have hattempt := attempt_evidence lib rt run recorded i step g
    dsimp only
    rw [exec_tryCatch]
    generalize exec (attempt lib rt run recorded i step) g = ended at hattempt ⊢
    obtain ⟨failure | done, g'⟩ := ended
    · dsimp only at hattempt ⊢
      rw [recover_evidence, hattempt]
      cases (exec (retrieve rt recorded i step) g).1 <;> cases rt.hook (.retrieval_returned i) <;> rfl
    · dsimp only at hattempt ⊢
      rw [hattempt]
      cases (exec (retrieve rt recorded i step) g).1 <;> cases rt.hook (.retrieval_returned i) <;> rfl

/-- The answers that the steps of a plan get, with the steps. -/
def readings (lib : Libraries) (rt : Runtime) (run : RunContext) (recorded : Option Recording) :
    List (PlanStep × Nat) → Gathered → List (PlanStep × SourceResponse)
  | [], _ => []
  | step :: steps, g =>
    ((reading rt recorded step g).map (Prod.mk step.1)).toList ++
      match exec (visit lib rt run recorded step) g with
      | (.ok _, g') => readings lib rt run recorded steps g'
      | (.error _, _) => []

/-- The evidence is what the steps show of their answers. -/
theorem visits_evidence (steps : List (PlanStep × Nat)) :
    (exec (forM steps (visit lib rt run recorded)) g).2.evidence =
      g.evidence ++ (readings lib rt run recorded steps g).flatMap fun read => shown lib run read.1 read.2 := by
  induction steps generalizing g with
  | nil => simp [readings]
  | cons step steps ih =>
    have hvisit := visit_evidence lib rt run recorded step g
    rw [List.forM_cons, exec_bind, readings]
    generalize exec (visit lib rt run recorded step) g = ended at hvisit ⊢
    obtain ⟨failure | done, g'⟩ := ended
    · dsimp only at hvisit ⊢
      rw [hvisit]
      cases reading rt recorded step g <;> simp
    · dsimp only at hvisit ⊢
      rw [ih, hvisit]
      cases reading rt recorded step g <;> simp

/-- The steps that read an answer are steps of the plan, in its order. -/
theorem readings_sublist (lib : Libraries) (rt : Runtime) (run : RunContext) (recorded : Option Recording)
    (steps : List (PlanStep × Nat)) (g : Gathered) :
    ((readings lib rt run recorded steps g).map Prod.fst).Sublist (steps.map Prod.fst) := by
  induction steps generalizing g with
  | nil => exact List.nil_sublist _
  | cons step steps ih =>
    rw [readings, List.map_append, List.map_cons]
    have hrest : ((match exec (visit lib rt run recorded step) g with
        | (.ok _, g') => readings lib rt run recorded steps g'
        | (.error _, _) => []).map Prod.fst).Sublist (steps.map Prod.fst) := by
      rcases exec (visit lib rt run recorded step) g with ⟨failure | done, g'⟩
      · exact List.nil_sublist _
      · exact ih g'
    cases reading rt recorded step g with
    | none => exact hrest.cons _
    | some out => exact hrest.cons_cons _

/-- An answer that a step reads is what its query has returned. -/
theorem readings_spec {P : PlanStep → SourceResponse → Prop} {steps : List (PlanStep × Nat)}
    (h : ∀ step ∈ steps, Returns (P step.1) (retrieve rt recorded step.2 step.1)) (g : Gathered) :
    ∀ read ∈ readings lib rt run recorded steps g, P read.1 read.2 := by
  induction steps generalizing g with
  | nil => exact List.forall_mem_nil _
  | cons step steps ih =>
    intro read hread
    rw [readings] at hread
    rcases List.mem_append.mp hread with hread | hread
    · obtain ⟨out, hout, rfl⟩ := Option.map_eq_some_iff.mp (Option.mem_toList.mp hread)
      rw [reading] at hout
      split at hout
      · rename_i hretrieve _
        cases hout
        exact h step List.mem_cons_self g _ hretrieve
      · cases hout
    · rcases hvisit : exec (visit lib rt run recorded step) g with ⟨failure | done, g'⟩
      · rw [hvisit] at hread
        cases hread
      · rw [hvisit] at hread
        exact ih (fun step hstep => h step (List.mem_cons_of_mem _ hstep)) g' read hread

/-- What holds of every page, and of pages that are put together, holds of what a source
has returned. -/
theorem retrieve_spec {P : SourceResponse → Prop}
    (hanswer : ∀ page cursor out, rt.answer (.query i page) cursor = .ok out → P out)
    (hfurther : ∀ out more, P out → P more →
      P { out with records := out.records ++ more.records.filter fun r => r.id ∉ out.records.map SourceRecord.id
                   next_cursor := more.next_cursor })
    (hretrieval : ∀ out retrieval, P out → P { out with retrieval }) : Returns P (retrieve rt none i step) := by
  have hquery (page : Nat) (cursor : Option String) : Returns P (query rt (.query i page) step cursor) :=
    Returns.bind (P := fun _ => True) (fun _ _ _ => trivial) fun _ _ => returns_liftM (hanswer page cursor)
  have hpages (left pages : Nat) (out : SourceResponse) (hout : P out) :
      Returns (fun found => P found.1) (further rt i step left pages out) := by
    induction left generalizing pages out with
    | zero => exact returns_pure hout
    | succ left ih =>
      rw [further]
      split
      · exact returns_pure hout
      · exact (hquery _ _).bind fun more hmore => ih _ _ (hfurther out more hout hmore)
  unfold retrieve
  refine (hquery _ _).bind fun out hout => ?_
  split_ifs
  · exact (hpages 2 1 out hout).bind fun found hfound => returns_pure (hretrieval _ _ hfound)
  · exact returns_pure hout

/-- The pages of a source list a record once. -/
theorem retrieve_nodup
    (h : ∀ page cursor out, rt.answer (.query i page) cursor = .ok out → (out.records.map SourceRecord.id).Nodup) :
    Returns (fun out => (out.records.map SourceRecord.id).Nodup) (retrieve rt none i step) := by
  refine retrieve_spec h (fun out more hout hmore => ?_) fun _ _ h => h
  rw [List.map_append, List.nodup_append]
  refine ⟨hout, hmore.sublist (List.filter_sublist.map _), ?_⟩
  rintro id hid id' hid' rfl
  obtain ⟨r, hr, rfl⟩ := List.mem_map.mp hid'
  exact absurd hid (by simpa using (List.mem_filter.mp hr).2)

theorem retrieve_records {P : SourceRecord → Prop}
    (h : ∀ page cursor out, rt.answer (.query i page) cursor = .ok out → ∀ r ∈ out.records, P r) :
    Returns (fun out => ∀ r ∈ out.records, P r) (retrieve rt none i step) := by
  refine retrieve_spec h (fun out more hout hmore r hr => ?_) fun _ _ h => h
  rcases List.mem_append.mp hr with hr | hr
  · exact hout r hr
  · exact hmore r (List.mem_filter.mp hr).1

end Steps

section Whole

variable {plan : QueryPlan} {b : ContextBundle} {recording : Recording}

theorem assemble_eq (h : validate_plan plan run = .ok ()) (hhook : rt.hook .plan_validated = .ok ()) :
    assemble lib rt run plan recorded = (gather lib rt run plan recorded).1 >>= fun _ =>
      conclude lib rt run plan recorded (gather lib rt run plan recorded).2 := by
  rw [assemble, h, hhook]
  rfl

theorem conclude_eq_ok : conclude lib rt run plan recorded g = .ok (b, recording) ↔
    ∃ b' memories, bundle lib run plan g = .ok b' ∧ size lib b' ≤ run.budget.output_bytes ∧
      remembered rt recorded g.calls = .ok memories ∧ rt.hook .context_assembled = .ok () ∧
      b = { b' with memories } ∧ recording = g.records := by
  rw [conclude, traversal.bind_eq_ok]
  constructor
  · rintro ⟨b', hb', h⟩
    split at h
    · cases h
    · rename_i hsize
      obtain ⟨memories, hmemories, h⟩ := traversal.bind_eq_ok.mp h
      obtain ⟨⟨⟩, hhook, h⟩ := traversal.bind_eq_ok.mp h
      cases h
      exact ⟨b', memories, hb', not_lt.mp hsize, hmemories, hhook, rfl, rfl⟩
  · rintro ⟨b', memories, hb', hsize, hmemories, hhook, rfl, rfl⟩
    refine ⟨b', hb', ?_⟩
    rw [if_neg (not_lt.mpr hsize), hmemories, hhook]
    rfl

/-- What an assembly that returns a bundle has gone through. -/
theorem assemble_eq_ok : assemble lib rt run plan recorded = .ok (b, recording) ↔
    validate_plan plan run = .ok () ∧ rt.hook .plan_validated = .ok () ∧ (gather lib rt run plan recorded).1 = .ok () ∧
      conclude lib rt run plan recorded (gather lib rt run plan recorded).2 = .ok (b, recording) := by
  constructor
  · intro h
    rw [assemble, traversal.bind_eq_ok] at h
    obtain ⟨⟨⟩, hplan, h⟩ := h
    obtain ⟨⟨⟩, hhook, h⟩ := traversal.bind_eq_ok.mp h
    obtain ⟨⟨⟩, houtcome, h⟩ := traversal.bind_eq_ok.mp h
    exact ⟨hplan, hhook, houtcome, h⟩
  · rintro ⟨hplan, hhook, houtcome, h⟩
    rw [assemble_eq hplan hhook, houtcome]
    exact h

end Whole

section Budget

variable {plan : QueryPlan} {b : ContextBundle} {memories : List Doc} {around : Surroundings} {calls : Nat}

theorem remembered_online (hcalls : calls < run.budget.steps) (hlate : around.late .memory = false)
    (hauthorized : around.authorized .memory = .ok ()) :
    remembered (.online run around) none calls = .ok around.memories := by
  have hwithin : ¬ (run.budget.steps ≤ calls ∨ around.late .memory = true) := by
    rw [hlate]
    simpa using hcalls
  simp only [remembered, Runtime.online, if_neg hwithin, hauthorized]
  rfl

/-- The loop does not depend on how large a bundle may be, and what it has gathered is
returned where the bundle may be as large as it is. -/
theorem assemble_within (hplan : validate_plan plan run = .ok ()) (hhook : rt.hook .plan_validated = .ok ())
    (hgather : (gather lib rt run plan recorded).1 = .ok ())
    (hbundle : bundle lib run plan (gather lib rt run plan recorded).2 = .ok b)
    (hmemories : remembered rt recorded (gather lib rt run plan recorded).2.calls = .ok memories)
    (hdone : rt.hook .context_assembled = .ok ()) {n : Nat} (hn : size lib b ≤ n) :
    assemble lib rt (run.within n) plan recorded =
      .ok ({ b with memories }, (gather lib rt run plan recorded).2.records) :=
  assemble_eq_ok.mpr ⟨hplan, hhook, hgather, conclude_eq_ok.mpr ⟨b, memories, hbundle, hn, hmemories, hdone, rfl, rfl⟩⟩

end Budget

end incidentdesk.worker.assemble
