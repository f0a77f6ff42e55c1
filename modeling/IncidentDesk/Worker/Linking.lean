import IncidentDesk.Worker.Grounding

namespace incidentdesk.worker

/-- The errors that an assembly is meant to end with: a refused scope, a refused
authorization, an exhausted budget. -/
def Failure.intended : Failure → Bool
  | .PermissionError _ => true
  | .HTTPStatusError status => status ∈ [401, 403, 409]
  | .RuntimeError text => text = "budget_exhausted" || text = "output_budget_exhausted"
  | _ => false

theorem Failure.intended_of_fatal {failure : Failure} (h : failure.fatal = true) : failure.intended = true := by
  cases failure with
  | PermissionError | HTTPStatusError => exact h
  | _ => cases h

/-- The calls that are not made for the sake of one source. -/
def Place.outside : Place → Bool
  | .query _ _ | .retrieval_returned _ | .tool_after _ false => false
  | _ => true

/-- The API answers the calls outside of the sources, or refuses them. -/
structure Surroundings.Sound (around : Surroundings) : Prop where
  event : ∀ place failure, place.outside = true → around.event place = .error failure → failure.intended = true
  memory : ∀ failure, around.authorized .memory = .error failure → failure.intended = true

namespace assemble

open report (ofSource)
open Trial

section Links

variable {lib : Libraries} {run : RunContext} {evidence commits releases : List Evidence} {e : Evidence} {v : Doc}
  {k : String}

/-- A snippet that is an object still. -/
def intact : Doc → Bool
  | .dict _ => true
  | _ => false

/-- The value that an object has under a key. -/
def field (k : String) (v : Doc) : Doc := (v.get? k).getD .null

theorem getD_eq (k : String) (v : Doc) : getD k v = if intact v then .ok (field k v) else .error .AttributeError := by
  cases v with
  | dict | str | list | other => rfl

/-- The commit that a release is taken to point to. -/
def pointed (lib : Libraries) (commits : List Doc) (release : Doc) : Option Doc :=
  (commits.filter fun commit => lib.equal (field "commit" commit) (field "commit_sha" release)).head?

/-- Whatever is read to link the pieces of evidence is there to be read. -/
structure Linkable (lib : Libraries) (releases commits observations : List Doc) : Prop where
  pointed : ∀ release ∈ releases, ∀ commit, pointed lib commits release = some commit →
    (commit.get? "commit").isSome = true
  commits : ∀ release ∈ releases, ∀ commit ∈ commits, intact commit = true ∧ intact release = true
  cluster : ∀ observation ∈ observations, intact observation = true ∧ ∀ release ∈ releases, intact release = true

theorem getItem_eq_ok {v : Doc} : (∃ w, mistral.getItem k v = .ok w) ↔ (v.get? k).isSome = true := by
  cases v with
  | dict entries =>
    rw [mistral.getItem, Value.get?]
    cases entries.lookup k <;> simp
  | str | list | other => simp [mistral.getItem, Value.get?]

/-- Two values are compared where both are objects. -/
theorem equal_eq {k' : String} (w : Doc) : (do
    return lib.equal (← getD k w) (← getD k' v) : Except Failure Bool) =
      if intact w && intact v then .ok (lib.equal (field k w) (field k' v)) else .error .AttributeError := by
  rw [getD_eq, getD_eq]
  cases intact w <;> cases intact v <;> rfl

theorem release_isOk : (∃ l, release lib run commits e = .ok l) ↔
    (∀ c ∈ commits, intact c.snippet = true ∧ intact e.snippet = true) ∧
      ∀ c, pointed lib (commits.map Evidence.snippet) e.snippet = some c → (c.get? "commit").isSome = true := by
  have hpointed : pointed lib (commits.map Evidence.snippet) e.snippet = (commits.filter fun c =>
      lib.equal (field "commit" c.snippet) (field "commit_sha" e.snippet)).head?.map Evidence.snippet := by
    rw [pointed, List.filter_map, List.head?_map]
    rfl
  have hmatched (hintact : ∀ c ∈ commits, intact c.snippet = true ∧ intact e.snippet = true) :
      (commits.filterM fun commit => do
        return lib.equal (← getD "commit" commit.snippet) (← getD "commit_sha" e.snippet) : Except Failure _) =
          .ok (commits.filter fun c => lib.equal (field "commit" c.snippet) (field "commit_sha" e.snippet)) := by
    refine traversal.filterM_of_ok fun c hc => ?_
    rw [equal_eq, (hintact c hc).1, (hintact c hc).2]
    rfl
  rw [hpointed]
  constructor
  · rintro ⟨l, h⟩
    rw [release, traversal.bind_eq_ok] at h
    obtain ⟨found, hfound, h⟩ := h
    have hintact : ∀ c ∈ commits, intact c.snippet = true ∧ intact e.snippet = true := by
      intro c hc
      have hok := (traversal.filterM_eq_ok.mp hfound).1 c hc
      rw [equal_eq] at hok
      split at hok
      · rename_i hboth
        simpa using hboth
      · cases hok
    refine ⟨hintact, ?_⟩
    rw [hmatched hintact] at hfound
    obtain rfl := Except.ok.inj hfound
    split at h
    · rename_i commit rest hfilter
      obtain ⟨id, hid, -⟩ := traversal.bind_eq_ok.mp h
      rw [hfilter]
      rintro c ⟨⟩
      exact getItem_eq_ok.mp ⟨id, hid⟩
    · rename_i hfilter
      rw [hfilter]
      exact fun c hc => absurd hc (by simp)
  · rintro ⟨hintact, hcommit⟩
    rw [release, hmatched hintact]
    simp only [bind, Except.bind]
    cases hfilter : commits.filter fun c => lib.equal (field "commit" c.snippet) (field "commit_sha" e.snippet) with
    | nil => exact ⟨_, rfl⟩
    | cons commit rest =>
      obtain ⟨id, hid⟩ := getItem_eq_ok.mpr (hcommit commit.snippet (by rw [hfilter]; rfl))
      simp only [hid]
      exact ⟨_, rfl⟩

theorem cluster_isOk : (∃ l, cluster lib releases e = .ok l) ↔
    intact e.snippet = true ∧ ∀ c ∈ releases, intact c.snippet = true := by
  have hsame (version : Doc) (c : Evidence) : (do
      return lib.equal (← getD "version" c.snippet) version && version.truthy : Except Failure Bool) =
        if intact c.snippet then .ok (lib.equal (field "version" c.snippet) version && version.truthy)
        else .error .AttributeError := by
    rw [getD_eq]
    cases intact c.snippet <;> rfl
  constructor
  · rintro ⟨l, h⟩
    obtain ⟨version, hversion, h⟩ := traversal.bind_eq_ok.mp h
    obtain ⟨found, hfound, -⟩ := traversal.bind_eq_ok.mp h
    rw [getD_eq] at hversion
    split at hversion
    · rename_i hintact
      refine ⟨hintact, fun c hc => ?_⟩
      have hok := (traversal.filterM_eq_ok.mp hfound).1 c hc
      rw [hsame] at hok
      split at hok
      · assumption
      · cases hok
    · cases hversion
  · rintro ⟨he, hintact⟩
    have hversion : getD "release" e.snippet = .ok (field "release" e.snippet) := by rw [getD_eq, if_pos he]
    exact ⟨_, traversal.bind_eq_ok.mpr ⟨_, hversion, traversal.bind_eq_ok.mpr
      ⟨_, traversal.filterM_of_ok fun c hc => (hsame _ c).trans (if_pos (hintact c hc)), rfl⟩⟩⟩

/-- The snippets of the pieces of evidence of a source. -/
def snippets (evidence : List Evidence) (source : String) : List Doc := (ofSource evidence source).map Evidence.snippet

theorem links_isOk : (∃ l, links lib run evidence = .ok l) ↔
    Linkable lib (snippets evidence "deployments") (snippets evidence "git") (snippets evidence "cluster") := by
  constructor
  · rintro ⟨l, h⟩
    obtain ⟨releases, hreleases, h⟩ := traversal.bind_eq_ok.mp h
    obtain ⟨observations, hobservations, -⟩ := traversal.bind_eq_ok.mp h
    have hrelease := traversal.mapM_isOk.mp ⟨releases, hreleases⟩
    have hcluster := traversal.mapM_isOk.mp ⟨observations, hobservations⟩
    refine ⟨?_, ?_, ?_⟩
    · exact List.forall_mem_map.mpr fun e he => (release_isOk.mp (hrelease e he)).2
    · exact List.forall_mem_map.mpr fun e he => List.forall_mem_map.mpr (release_isOk.mp (hrelease e he)).1
    · exact List.forall_mem_map.mpr fun o ho =>
        (cluster_isOk.mp (hcluster o ho)).imp_right List.forall_mem_map.mpr
  · intro h
    have hreleases : ∀ e ∈ ofSource evidence "deployments", ∃ l, release lib run (ofSource evidence "git") e = .ok l :=
      fun e he => release_isOk.mpr
        ⟨List.forall_mem_map.mp (h.commits _ (List.mem_map_of_mem he)), h.pointed _ (List.mem_map_of_mem he)⟩
    have hcluster : ∀ o ∈ ofSource evidence "cluster", ∃ l, cluster lib (ofSource evidence "deployments") o = .ok l :=
      fun o ho => cluster_isOk.mpr ((h.cluster _ (List.mem_map_of_mem ho)).imp_right List.forall_mem_map.mp)
    obtain ⟨releases, hreleases⟩ := traversal.mapM_isOk.mpr hreleases
    obtain ⟨observations, hobservations⟩ := traversal.mapM_isOk.mpr hcluster
    exact ⟨_, traversal.bind_eq_ok.mpr ⟨releases, hreleases, traversal.bind_eq_ok.mpr ⟨observations, hobservations, rfl⟩⟩⟩

/-- What cannot be linked ends an assembly with an error of Python's. -/
theorem error_of_links {failure : Failure} (h : links lib run evidence = .error failure) : failure.intended = false := by
  have hgetD {k : String} {v : Doc} {failure : Failure} (h : getD k v = .error failure) : failure.intended = false := by
    cases v with
    | dict entries => cases h
    | str | list | other =>
      cases h
      rfl
  have hgetItem {k : String} {v : Doc} {failure : Failure} (h : mistral.getItem k v = .error failure) :
      failure.intended = false := by
    cases v with
    | dict entries =>
      rw [mistral.getItem] at h
      cases hlookup : entries.lookup k with
      | none =>
        rw [hlookup] at h
        cases h
        rfl
      | some w =>
        rw [hlookup] at h
        cases h
    | str | list | other =>
      cases h
      rfl
  have hrelease {commits : List Evidence} {e : Evidence} {failure : Failure}
      (h : release lib run commits e = .error failure) : failure.intended = false := by
    obtain h | ⟨found, -, h⟩ := traversal.bind_eq_error.mp h
    · obtain ⟨c, -, h⟩ := traversal.error_of_filterM h
      obtain h | ⟨v, -, h⟩ := traversal.bind_eq_error.mp h
      · exact hgetD h
      · obtain h | ⟨w, -, h⟩ := traversal.bind_eq_error.mp h
        · exact hgetD h
        · cases h
    · split at h
      · obtain h | ⟨id, -, h⟩ := traversal.bind_eq_error.mp h
        · exact hgetItem h
        · cases h
      · cases h
  have hcluster {releases : List Evidence} {e : Evidence} {failure : Failure}
      (h : cluster lib releases e = .error failure) : failure.intended = false := by
    obtain h | ⟨version, -, h⟩ := traversal.bind_eq_error.mp h
    · exact hgetD h
    · obtain h | ⟨found, -, h⟩ := traversal.bind_eq_error.mp h
      · obtain ⟨c, -, h⟩ := traversal.error_of_filterM h
        obtain h | ⟨v, -, h⟩ := traversal.bind_eq_error.mp h
        · exact hgetD h
        · cases h
      · cases h
  obtain h | ⟨releases, -, h⟩ := traversal.bind_eq_error.mp h
  · obtain ⟨e, -, h⟩ := traversal.error_of_mapM h
    exact hrelease h
  · obtain h | ⟨observations, -, h⟩ := traversal.bind_eq_error.mp h
    · obtain ⟨o, -, h⟩ := traversal.error_of_mapM h
      exact hcluster h
    · cases h

end Links

section Errors

variable {lib : Libraries} {run : RunContext} {around : Surroundings} {plan : QueryPlan} {failure : Failure}

/-- A failure of a source does not end the loop, unless it is meant to. -/
theorem gather_fails (hsound : around.Sound)
    (h : (gather lib (.online run around) run plan none).1 = .error failure) : failure.intended = true := by
  refine Fails.forM (E := fun failure => failure.intended = true) (fun step _ => ?_) Gathered.empty failure h
  refine (fails_liftM (hsound.event (.tool_before step.2) · rfl)).bind fun _ => fails_tryCatch fun failure => ?_
  unfold recover
  split_ifs with hfatal
  · exact fails_throw (Failure.intended_of_fatal (hfatal.resolve_left Bool.false_ne_true))
  · exact fails_modify.bind fun _ => fails_liftM (hsound.event (.tool_after step.2 true) · rfl)

/-- What follows the loop ends with an error of Python's if and only if something
cannot be linked. -/
theorem conclude_fails (hsound : around.Sound) {g : Gathered} :
    (∀ failure, conclude lib (.online run around) run plan none g = .error failure → failure.intended = true) ↔
      ∃ l, links lib run g.evidence = .ok l := by
  constructor
  · intro h
    cases hlinks : links lib run g.evidence with
    | ok l => exact ⟨l, rfl⟩
    | error failure =>
      have hfails : conclude lib (.online run around) run plan none g = .error failure := by
        rw [conclude, bundle, hlinks]
        rfl
      have hintended := h failure hfails
      rw [error_of_links hlinks] at hintended
      cases hintended
  · rintro ⟨l, hl⟩ failure h
    obtain h | ⟨b, -, h⟩ := traversal.bind_eq_error.mp h
    · rw [bundle, hl] at h
      cases h
    · dsimp only at h
      split at h
      · cases h
        rfl
      · obtain h | ⟨memories, -, h⟩ := traversal.bind_eq_error.mp h
        · obtain h | ⟨-, -, h⟩ := traversal.bind_eq_error.mp h
          · simp only [Runtime.online] at h
            split at h
            · cases h
              rfl
            · exact hsound.memory failure h
          · cases h
        · obtain h | ⟨-, -, h⟩ := traversal.bind_eq_error.mp h
          · exact hsound.event .context_assembled failure rfl h
          · cases h

/-- What the records of a source that become evidence are kept as. -/
def kept (lib : Libraries) (run : RunContext) (reads : List (PlanStep × SourceResponse)) (source : String) : List Doc :=
  (reads.filter fun read => read.1.source = source).flatMap fun read =>
    (used lib run read.1 read.2).map fun r => snippet r.redact.content

theorem snippets_shown (reads : List (PlanStep × SourceResponse)) (source : String) :
    snippets (reads.flatMap fun read => shown lib run read.1 read.2) source = kept lib run reads source := by
  induction reads with
  | nil => rfl
  | cons read reads ih =>
    have hsource : ∀ e ∈ shown lib run read.1 read.2, e.source = read.1.source := by
      intro e he
      obtain ⟨r, -, rfl⟩ := List.mem_map.mp he
      rfl
    rw [snippets, ofSource] at ih ⊢
    rw [List.flatMap_cons, List.filter_append, List.map_append, ih, kept, kept, List.filter_cons]
    by_cases h : read.1.source = source
    · rw [List.filter_eq_self.mpr fun e he => by simp [hsource e he, h], shown, List.map_map]
      simp [h, Function.comp_def, evidenceOf]
    · rw [List.filter_eq_nil_iff.mpr fun e he => by simp [hsource e he, h]]
      simp [h]

end Errors

end assemble

namespace mistral

open assemble (intact)

/-- An answer that says that nothing was found. -/
def denying : Answer := { answer := "没有查到", answer_evidence := [], candidates := [], next_steps := [] }

theorem search_denying : (regex.search denies_hits denying.answer).isSome = true := by
  decide

variable {lib : Library} {b : ContextBundle} {e : Evidence} {failure : Failure}

theorem excerpt_isOk : (∃ text, excerpt lib e = .ok text) ↔ intact e.snippet = true := by
  rw [excerpt]
  cases e.snippet <;> simp [intact]

theorem error_of_excerpt (h : excerpt lib e = .error failure) : intact e.snippet = false ∧ failure = .AttributeError := by
  rw [excerpt] at h
  cases hsnippet : e.snippet with
  | dict entries =>
    rw [hsnippet] at h
    cases h
  | str | list | other =>
    rw [hsnippet] at h
    cases h
    exact ⟨rfl, rfl⟩

/-- The guard reads the first three log records, where the statistics have hits. -/
theorem guarded_reads {r : List (String × Doc)} (hreport : report lib b = .ok r) :
    (∀ session parsed result, (∀ kind v, session.event kind v ≠ .error .AttributeError) →
        guarded lib session b parsed result ≠ .error .AttributeError) ↔
      (positive lib ((b.retrieval.lookup "matched").getD (.int 0)) = .ok true →
        ∀ e ∈ (report.ofSource b.evidence "logs").take 3, intact e.snippet = true) := by
  constructor
  · intro h hmatched
    by_contra hlarge
    let session : Session :=
      { key := none, model := "", authorize := .ok (), event := fun _ _ => .ok (), milliseconds := .null }
    refine h session denying [] (fun _ _ => by simp [session]) ?_
    cases hexcerpts : ((report.ofSource b.evidence "logs").take 3).mapM (excerpt lib) with
    | ok excerpts => exact absurd (fun e he => excerpt_isOk.mp (traversal.mapM_isOk.mp ⟨excerpts, hexcerpts⟩ e he)) hlarge
    | error failure =>
      obtain ⟨e, he, hfails⟩ := traversal.error_of_mapM hexcerpts
      obtain ⟨-, rfl⟩ := error_of_excerpt hfails
      have hlogs : report.ofSource b.evidence "logs" ≠ [] := by
        intro hempty
        rw [hempty] at he
        cases he
      simp only [guarded, if_neg hlogs, hmatched, search_denying, hreport, hexcerpts]
      rfl
  · intro h session parsed result hevent hguarded
    simp only [guarded] at hguarded
    split at hguarded
    · cases hguarded
    · obtain hguarded | ⟨hits, hmatched, hguarded⟩ := traversal.bind_eq_error.mp hguarded
      · rw [positive.eq_def] at hguarded
        split at hguarded <;> cases hguarded
      · split at hguarded
        · rename_i hdenies
          rw [(Bool.and_eq_true_iff.mp hdenies).1] at hmatched
          obtain hguarded | ⟨safe, -, hguarded⟩ := traversal.bind_eq_error.mp hguarded
          · rw [hreport] at hguarded
            cases hguarded
          · obtain hguarded | ⟨excerpts, -, hguarded⟩ := traversal.bind_eq_error.mp hguarded
            · obtain ⟨e, he, hfails⟩ := traversal.error_of_mapM hguarded
              exact absurd (h hmatched e he) (by simp [(error_of_excerpt hfails).1])
            · obtain hguarded | ⟨-, -, hguarded⟩ := traversal.bind_eq_error.mp hguarded
              · exact hevent _ _ hguarded
              · cases hguarded
        · cases hguarded

end mistral

open assemble in
/-- An assembly ends with a bundle or an error that it is meant to end with if and only
if its plan is refused so, if it is, and what it has read can be linked, which a record
that is kept as a text cannot. The guard of an answer reads the first log records of
what has been found in the same way. -/
theorem oversized_records (lib : Libraries) (run : RunContext) (around : Surroundings) (plan : QueryPlan)
    (hsound : around.Sound) :
    let reads := readings lib (.online run around) run none plan.steps.zipIdx Gathered.empty
    ((∀ failure, assemble lib (.online run around) run plan none = .error failure → failure.intended = true) ↔
        (∀ failure, validate_plan plan run = .error failure → failure.intended = true) ∧
        (validate_plan plan run = .ok () → around.event .plan_validated = .ok () →
          (gather lib (.online run around) run plan none).1 = .ok () →
          Linkable lib (kept lib run reads "deployments") (kept lib run reads "git") (kept lib run reads "cluster"))) ∧
      ∀ b recording, assemble lib (.online run around) run plan none = .ok (b, recording) →
        ((∀ session parsed result, (∀ kind v, session.event kind v ≠ .error .AttributeError) →
            mistral.guarded lib.toLibrary session b parsed result ≠ .error .AttributeError) ↔
          (mistral.positive lib.toLibrary ((b.retrieval.lookup "matched").getD (.int 0)) = .ok true →
            ∀ v ∈ (kept lib run reads "logs").take 3, intact v = true)) := by
  intro reads
  have hevidence : (gather lib (.online run around) run plan none).2.evidence =
      reads.flatMap fun read => shown lib run read.1 read.2 := by
    rw [gather, visits_evidence]
    rfl
  refine ⟨⟨fun h => ⟨fun failure hplan => ?_, fun hplan hhook hgather => ?_⟩, ?_⟩, ?_⟩
  · exact h failure (by rw [assemble, hplan]; rfl)
  · rw [assemble_eq hplan hhook, hgather] at h
    have hlinkable := links_isOk.mp ((conclude_fails hsound).mp h)
    rwa [hevidence, snippets_shown, snippets_shown, snippets_shown] at hlinkable
  · rintro ⟨hvalidate, hlinkable⟩ failure h
    cases hplan : validate_plan plan run with
    | error refused =>
      rw [assemble, hplan] at h
      cases h
      exact hvalidate _ hplan
    | ok => cases hhook : around.event .plan_validated with
      | error refused =>
        have hrefused : (Runtime.online run around).hook .plan_validated = .error refused := hhook
        rw [assemble, hplan, hrefused] at h
        cases h
        exact hsound.event .plan_validated _ rfl hhook
      | ok =>
        rw [assemble_eq hplan hhook] at h
        cases hgather : (gather lib (.online run around) run plan none).1 with
        | error ended =>
          rw [hgather] at h
          cases h
          exact gather_fails hsound hgather
        | ok =>
          rw [hgather] at h
          refine (conclude_fails hsound).mpr (links_isOk.mpr ?_) failure h
          rw [hevidence, snippets_shown, snippets_shown, snippets_shown]
          exact hlinkable hplan hhook hgather
  · intro b recording h
    obtain ⟨-, -, -, hconclude⟩ := assemble_eq_ok.mp h
    obtain ⟨b', memories, hb', -, -, -, rfl, -⟩ := conclude_eq_ok.mp hconclude
    obtain ⟨r, hr⟩ := report_bundle hb' memories
    rw [mistral.guarded_reads hr, ← snippets_shown, ← hevidence, ← (supported_bundle gather_grounded hb').1, snippets,
      ← List.map_take, List.forall_mem_map]

section Cluster

/-- The record of a workload that has `n` conditions. -/
def workload (n : Nat) : SourceRecord where
  id := "checkout-api"
  event_time := "2026-01-01T00:00:00+00:00"
  content := [("conditions", .list (List.replicate n (.int 0)))]
  locator := "k8s://orders/deployments/checkout-api"
  version := "4"
  deleted := false

/-- Only the cluster answers. -/
def onlyCluster (records : List SourceRecord) : Surroundings where
  late _ := false
  event _ := .ok ()
  authorized _ := .ok ()
  answer
    | .query 4 0, _ => .ok (answering records)
    | _, _ => .error (.HTTPStatusError 503)
  memories := []

theorem length_items_replicate (comma : List Char) (n : Nat) :
    n ≤ (comma.intercalate (Doc.chars.itemTexts .default (List.replicate n (.int 0)))).length := by
  induction n with
  | zero => exact Nat.zero_le _
  | succ n ih =>
    cases n with
    | zero => exact Nat.le_refl 1
    | succ n =>
      rw [List.replicate_succ] at ih
      rw [List.replicate_succ, List.replicate_succ, Doc.chars.itemTexts, Doc.chars.itemTexts,
        List.intercalate_cons_cons, ← Doc.chars.itemTexts, List.length_append, List.length_append]
      have hdigit : (Doc.chars .default (.int 0)).length = 1 := rfl
      omega

theorem redact_replicate (n : Nat) :
    redact.items' (List.replicate n (.int 0)) = List.replicate n (.int 0 : Doc) := by
  induction n with
  | zero => rfl
  | succ n ih =>
    rw [List.replicate_succ, redact.items', ih]
    rfl

theorem redact_workload (n : Nat) : (workload n).redact.content = (workload n).content := by
  have hkey : redaction.secretKey.fullmatch "conditions" = false := by decide
  rw [SourceRecord.redact, workload, redact.entries', redact.entries', hkey, redact, redact_replicate]
  rfl

def gatheredCluster (n : Nat) : Except Failure Unit × Gathered :=
  assemble.gather tools (.online ordersRun (onlyCluster [workload n])) ordersRun (default_plan ordersRun "orders") none

theorem gatheredCluster_eq (n : Nat) : (gatheredCluster n).1 = .ok () ∧ ∃ step, step.source = "cluster" ∧
    (gatheredCluster n).2.evidence =
      [assemble.evidenceOf tools ordersRun step (answering [workload n]).redact (workload n).redact] :=
  ⟨rfl, _, rfl, rfl⟩

theorem workload_large {n : Nat} (hn : 12000 ≤ n) :
    assemble.intact (assemble.snippet (workload n).redact.content) = false := by
  have hlength := length_items_replicate Json.Format.default.comma n
  have hdumps : 12000 < (Doc.dumps .default (.dict (workload n).content)).length := by
    rw [workload, Doc.dumps, String.length_ofList, Doc.chars, Doc.chars.entryTexts, Doc.chars.entryTexts,
      List.intercalate_singleton, Doc.chars]
    simp only [List.length_cons, List.length_append]
    omega
  rw [redact_workload, assemble.snippet, if_neg (by omega)]
  rfl

theorem snippet_evidenceOf (lib : Libraries) (run : RunContext) (step : PlanStep) (out : SourceResponse)
    (r : SourceRecord) : (assemble.evidenceOf lib run step out r).snippet = assemble.snippet r.content := rfl

theorem links_large {lib : Libraries} {run : RunContext} {e : Evidence} (hsource : e.source = "cluster")
    (hlarge : assemble.intact e.snippet = false) : assemble.links lib run [e] = .error .AttributeError := by
  rw [assemble.links, report.ofSource, report.ofSource, report.ofSource]
  simp [hsource, assemble.cluster, assemble.getD_eq, hlarge]
  rfl

theorem onlyCluster_sound (records : List SourceRecord) : (onlyCluster records).Sound where
  event := by rintro place failure - ⟨⟩
  memory := by rintro failure ⟨⟩

theorem plan_orders : validate_plan (default_plan ordersRun "orders") ordersRun = .ok () :=
  validate_default (validate_plan.lt_self _) (by decide)

theorem assemble_workload {n : Nat} (hn : 12000 ≤ n) :
    assemble tools (.online ordersRun (onlyCluster [workload n])) ordersRun (default_plan ordersRun "orders") none =
      .error .AttributeError := by
  obtain ⟨hgather, step, hstep, hevidence⟩ := gatheredCluster_eq n
  have hlarge : assemble.intact (assemble.evidenceOf tools ordersRun step (answering [workload n]).redact
      (workload n).redact).snippet = false := by rw [snippet_evidenceOf, workload_large hn]
  rw [gatheredCluster] at hgather hevidence
  rw [assemble.assemble_eq plan_orders rfl, hgather, assemble.conclude, assemble.bundle, hevidence,
    links_large hstep hlarge]
  rfl

/-- A workload with many conditions ends the assembly. -/
theorem workload_crash : (onlyCluster [workload 12000]).Sound ∧
    assemble tools (.online ordersRun (onlyCluster [workload 12000])) ordersRun (default_plan ordersRun "orders") none =
      .error .AttributeError ∧ Failure.AttributeError.intended = false :=
  ⟨onlyCluster_sound _, assemble_workload (Nat.le_refl _), rfl⟩

/-- A workload without conditions does not. -/
theorem workload_small : (onlyCluster [workload 0]).Sound ∧
    ∀ failure, assemble tools (.online ordersRun (onlyCluster [workload 0])) ordersRun (default_plan ordersRun "orders")
      none = .error failure → failure.intended = true := by
  refine ⟨onlyCluster_sound _, ?_⟩
  refine (oversized_records tools ordersRun (onlyCluster [workload 0]) (default_plan ordersRun "orders")
    (onlyCluster_sound _)).1.mpr ⟨fun failure hplan => ?_, fun _ _ _ => ?_⟩
  · rw [plan_orders] at hplan
    cases hplan
  · have hreleases : assemble.kept tools ordersRun (assemble.readings tools
        (.online ordersRun (onlyCluster [workload 0])) ordersRun none (default_plan ordersRun "orders").steps.zipIdx
        Gathered.empty) "deployments" = [] := rfl
    have hcluster : assemble.kept tools ordersRun (assemble.readings tools
        (.online ordersRun (onlyCluster [workload 0])) ordersRun none (default_plan ordersRun "orders").steps.zipIdx
        Gathered.empty) "cluster" = [.dict (workload 0).content] := rfl
    rw [hreleases, hcluster]
    exact ⟨List.forall_mem_nil _, List.forall_mem_nil _, List.forall_mem_singleton.mpr ⟨rfl, List.forall_mem_nil _⟩⟩

end Cluster

end incidentdesk.worker
