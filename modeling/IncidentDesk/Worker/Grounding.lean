import IncidentDesk.Queue
import IncidentDesk.Worker.Gathering
import IncidentDesk.Worker.Prompt

namespace incidentdesk

/-- What `validateReport` asks of a report. -/
structure Report.Grounded (b : Report) : Prop where
  named : "" ∉ b.Evidence
  distinct : b.Evidence.Nodup
  cited : ∀ ids ∈ b.Facts ++ b.Candidates, ids ≠ []
  known : ∀ ids ∈ b.AnswerEvidence :: (b.Facts ++ b.Candidates), ∀ id ∈ ids, id ∈ b.Evidence

section Validation

variable {seen ids known : List String} {refs : List (List String)} {raw : Option RawMessage}

theorem evidenceIDs_eq_ok : evidenceIDs seen ids = .ok known ↔
    (∀ id ∈ ids, id ≠ "" ∧ id ∉ seen) ∧ ids.Nodup ∧ known = ids.reverse ++ seen := by
  induction ids generalizing seen with
  | nil => simp [evidenceIDs, eq_comm]
  | cons id ids ih =>
    rw [evidenceIDs]
    by_cases h : id = "" ∨ id ∈ seen
    · rw [if_pos h]
      refine iff_of_false (by rintro ⟨⟩) fun hall => ?_
      obtain ⟨hne, hnew⟩ := hall.1 id List.mem_cons_self
      exact h.elim hne hnew
    · rw [if_neg h, ih, not_or] at *
      simp only [List.mem_cons, List.nodup_cons, List.reverse_cons, List.append_assoc, List.singleton_append, not_or]
      constructor
      · rintro ⟨hall, hnodup, rfl⟩
        refine ⟨?_, ⟨fun hmem => (hall id hmem).2.1 rfl, hnodup⟩, rfl⟩
        rintro other (rfl | hother)
        · exact h
        · exact ⟨(hall other hother).1, (hall other hother).2.2⟩
      · rintro ⟨hall, ⟨hnew, hnodup⟩, rfl⟩
        refine ⟨fun other hother => ⟨(hall other (.inr hother)).1, ?_, (hall other (.inr hother)).2⟩, hnodup, rfl⟩
        rintro rfl
        exact hnew hother

theorem checkRefs_eq_ok : checkRefs ids refs = .ok () ↔ ∀ r ∈ refs, r ≠ [] ∧ ∀ id ∈ r, id ∈ ids := by
  induction refs with
  | nil => simp [checkRefs]
  | cons r refs ih =>
    rw [checkRefs, List.forall_mem_cons, ← ih]
    by_cases hempty : r = []
    · simp [hempty]
    · by_cases hunknown : (r.any fun id => id ∉ ids) = true
      · have hnot : ¬ ∀ id ∈ r, id ∈ ids := by simpa using hunknown
        rw [if_neg hempty, if_pos hunknown]
        exact iff_of_false (by rintro ⟨⟩) fun h => hnot h.1.2
      · have hall : ∀ id ∈ r, id ∈ ids := by simpa using hunknown
        rw [if_neg hempty, if_neg hunknown]
        exact ⟨fun h => ⟨⟨hempty, hall⟩, h⟩, fun h => h.2⟩

/-- A report is accepted when it is decoded and every claim names evidence that it has. -/
theorem validateReport_eq_ok : validateReport raw = .ok () ↔
    ∃ m b, raw = some m ∧ Report.unmarshal m.value = some b ∧ b.Grounded := by
  rw [validateReport]
  cases hraw : raw.bind fun m => Report.unmarshal m.value with
  | none =>
    refine iff_of_false (by rintro ⟨⟩) ?_
    rintro ⟨m, b, rfl, hb, -⟩
    rw [Option.bind_some, hb] at hraw
    cases hraw
  | some b =>
    obtain ⟨m, rfl, hb⟩ := Option.bind_eq_some_iff.mp hraw
    have hiff : (do
        let ids ← evidenceIDs [] b.Evidence
        checkRefs ids ((if b.AnswerEvidence = [] then [] else [b.AnswerEvidence]) ++ b.Facts ++ b.Candidates)) =
          Except.ok () ↔ b.Grounded := by
      rw [traversal.bind_eq_ok]
      simp only [evidenceIDs_eq_ok, checkRefs_eq_ok, List.not_mem_nil, not_false_eq_true, and_true, List.append_nil]
      constructor
      · rintro ⟨_, ⟨hnamed, hdistinct, rfl⟩, hrefs⟩
        simp only [List.mem_reverse] at hrefs
        refine ⟨fun hmem => hnamed "" hmem rfl, hdistinct, fun ids hids => ?_, fun ids hids => ?_⟩
        · exact (hrefs ids (by simp only [List.mem_append] at hids ⊢; tauto)).1
        · by_cases hempty : ids = []
          · simp [hempty]
          · refine (hrefs ids ?_).2
            simp only [List.mem_cons, List.mem_append] at hids ⊢
            rcases hids with rfl | hids
            · simp [hempty]
            · tauto
      · intro h
        refine ⟨_, ⟨fun id hid hempty => h.named (hempty ▸ hid), h.distinct, rfl⟩, fun r hr => ?_⟩
        simp only [List.mem_append, List.mem_reverse] at hr ⊢
        by_cases hanswer : b.AnswerEvidence = []
        · rw [if_pos hanswer] at hr
          have hr' : r ∈ b.Facts ++ b.Candidates := by simpa using hr
          exact ⟨h.cited r hr', h.known r (List.mem_cons_of_mem _ hr')⟩
        · rw [if_neg hanswer] at hr
          rcases hr with (hr | hr) | hr
          · obtain rfl := List.mem_singleton.mp hr
            exact ⟨hanswer, h.known _ List.mem_cons_self⟩
          · exact ⟨h.cited r (List.mem_append_left _ hr), h.known r (List.mem_cons_of_mem _ (List.mem_append_left _ hr))⟩
          · exact ⟨h.cited r (List.mem_append_right _ hr), h.known r (List.mem_cons_of_mem _ (List.mem_append_right _ hr))⟩
    constructor
    · intro h
      exact ⟨m, b, rfl, hb, hiff.mp h⟩
    · rintro ⟨m', b', hm, hb', h⟩
      obtain rfl := Option.some.inj hm
      obtain rfl := Option.some.inj (hb.symm.trans hb')
      exact hiff.mpr h

end Validation

namespace worker

namespace Doc

/-- A value as the API decodes it from the text that the worker sends, with whole
numbers in the place of others. -/
def json (number : String → Int) : Doc → Json
  | .str text => .str text
  | .list items => .arr (items' items)
  | .dict entries => .obj (entries' entries)
  | .other .null => .null
  | .other (.bool value) => .bool value
  | .other (.int n) => .num n
  | .other (.float text) => .num (number text)
where
  items' : List Doc → List Json
    | [] => []
    | item :: items => json number item :: items' items
  entries' : List (String × Doc) → List (String × Json)
    | [] => []
    | (k, v) :: entries => (k, json number v) :: entries' entries

/-- Keys that the decoder tells apart, and reads as they are. -/
def Plain (keys : List String) : Prop := keys.Nodup ∧ ∀ k ∈ keys, k.toList.map foldRune = k.toList

instance (keys : List String) : Decidable (Plain keys) := by
  unfold Plain
  infer_instance

variable {number : String → Int} {entries : List (String × Doc)} {items : List Doc} {texts : List String}

theorem json_items : json.items' number items = items.map (json number) := by
  induction items with
  | nil => rfl
  | cons item items ih => rw [json.items', ih, List.map_cons]

theorem field_entries (h : Plain (entries.map Prod.fst)) (name : String) :
    Json.field (json.entries' number entries) name = ((entries.lookup name).map (json number)).getD .null := by
  suffices hfind : ((json.entries' number entries).reverse.find? fun e => e.1.toList.map foldRune = name.toList).map
      Prod.snd = (entries.lookup name).map (json number) by
    rw [Json.field, hfind]
  induction entries with
  | nil => rfl
  | cons e entries ih =>
    obtain ⟨k, v⟩ := e
    obtain ⟨hnodup, hfold⟩ := h
    simp only [List.map_cons, List.nodup_cons, List.forall_mem_cons] at hnodup hfold
    have ih := ih ⟨hnodup.2, hfold.2⟩
    have hk : (k.toList.map foldRune = name.toList) ↔ k = name := by rw [hfold.1, String.toList_inj]
    rw [json.entries', List.reverse_cons, List.find?_append, List.lookup_cons]
    by_cases heq : k = name
    · subst heq
      have hnone : entries.lookup k = none := dict.lookup_eq_none.mpr hnodup.1
      rw [hnone, Option.map_none, Option.map_eq_none_iff] at ih
      simp [ih, hfold.1]
    · have hbeq : (name == k) = false := beq_eq_false_iff_ne.mpr (Ne.symm heq)
      simp [hk, heq, hbeq, ih]

theorem asSlice_strings : ((Value.strings texts).json number).asSlice Json.asString = some texts := by
  rw [Value.strings, json, json_items, Json.asSlice, traversal.mapM_eq_some]
  induction texts with
  | nil => exact .nil
  | cons text texts ih => exact .cons rfl ih

end Doc

/-- What the decoder of the API takes the citations of a fact or a candidate for. -/
def Citing (v : Doc) (ids : List String) : Prop :=
  ∃ entries, v = .dict entries ∧ Doc.Plain (entries.map Prod.fst) ∧ entries.lookup "evidence" = some (.strings ids)

/-- The parts of a report that the API reads. -/
structure Published (report : List (String × Doc)) (b : Report) : Prop where
  plain : Doc.Plain (report.map Prod.fst)
  answers : (report.lookup "answer_evidence" = none ∧ b.AnswerEvidence = []) ∨
    report.lookup "answer_evidence" = some (.strings b.AnswerEvidence)
  evidence : ∃ found : List Evidence, report.lookup "evidence" = some (.list (found.map Evidence.model_dump)) ∧
    found.map Evidence.id = b.Evidence
  facts : ∃ facts, report.lookup "facts" = some (.list facts) ∧ List.Forall₂ Citing facts b.Facts
  candidates : ∃ candidates, report.lookup "candidates" = some (.list candidates) ∧
    List.Forall₂ Citing candidates b.Candidates

section Decoding

variable {number : String → Int} {report : List (String × Doc)} {b : Report}

theorem asSlice_citing (number : String → Int) {items : List Doc} {idss : List (List String)} (h : List.Forall₂ Citing items idss) :
    (Doc.json number (.list items)).asSlice (fun item => do
      ((← item.asFields) |> (Json.field · "evidence")).asSlice Json.asString) = some idss := by
  rw [Doc.json, Doc.json_items, Json.asSlice, traversal.mapM_eq_some]
  induction h with
  | nil => exact .nil
  | @cons item ids items idss hciting _ ih =>
    refine .cons ?_ ih
    obtain ⟨entries, rfl, hplain, hlookup⟩ := hciting
    rw [Doc.json, Json.asFields, Option.bind_eq_bind, Option.bind_some]
    dsimp only
    rw [Doc.field_entries hplain, hlookup]
    exact Doc.asSlice_strings

theorem asSlice_evidence (number : String → Int) (found : List Evidence) :
    (Doc.json number (.list (found.map Evidence.model_dump))).asSlice (fun item => do
      ((← item.asFields) |> (Json.field · "id")).asString) = some (found.map Evidence.id) := by
  rw [Doc.json, Doc.json_items, Json.asSlice, traversal.mapM_eq_some]
  induction found with
  | nil => exact .nil
  | cons e found ih =>
    refine .cons ?_ ih
    have hplain : Doc.Plain ["id", "source", "locator", "collected_at", "event_time", "version", "sha256", "snippet",
      "team", "source_record", "available"] := by decide
    obtain ⟨entries, hdump, hkeys, hid⟩ : ∃ entries, e.model_dump = .dict entries ∧
        Doc.Plain (entries.map Prod.fst) ∧ entries.lookup "id" = some (.str e.id) := ⟨_, rfl, hplain, rfl⟩
    rw [hdump, Doc.json, Json.asFields, Option.bind_eq_bind, Option.bind_some]
    dsimp only
    rw [Doc.field_entries hkeys, hid]
    rfl

theorem Published.unmarshal (h : Published report b) : Report.unmarshal (Doc.json number (.dict report)) = some b := by
  obtain ⟨plain, answers, ⟨found, hfound, hids⟩, ⟨facts, hfacts, hfacts'⟩, ⟨candidates, hcandidates, hcandidates'⟩⟩ := h
  have hanswer : (Json.field (Doc.json.entries' number report) "answer_evidence").asSlice Json.asString =
      some b.AnswerEvidence := by
    rw [Doc.field_entries plain]
    obtain ⟨hnone, hempty⟩ | hsome := answers
    · rw [hnone, hempty]
      rfl
    · rw [hsome]
      exact Doc.asSlice_strings
  rw [Doc.json, Report.unmarshal, Json.asFields]
  simp only [Option.bind_eq_bind, Option.bind_some, hanswer]
  rw [Doc.field_entries plain, hfound, Option.map_some, Option.getD_some, Doc.field_entries plain, hfacts,
    Option.map_some, Option.getD_some, Doc.field_entries plain, hcandidates, Option.map_some, Option.getD_some]
  have hevidence := asSlice_evidence number found
  have hfacts'' := asSlice_citing number hfacts'
  have hcandidates'' := asSlice_citing number hcandidates'
  simp only [Option.bind_eq_bind] at hevidence hfacts'' hcandidates''
  simp only [hevidence, hfacts'', hcandidates'', Option.bind_some, hids]
  rfl

end Decoding

/-- A claim that cites some evidence, and only evidence that there is. -/
def Supported (ids : List String) (v : Doc) : Prop := ∃ cited, Citing v cited ∧ cited ≠ [] ∧ ∀ id ∈ cited, id ∈ ids

section Support

variable {ids ids' : List String} {vs : List Doc} {v : Doc}

theorem Supported.mono (h : Supported ids v) (hids : ∀ id ∈ ids, id ∈ ids') : Supported ids' v := by
  obtain ⟨cited, hciting, hne, hcited⟩ := h
  exact ⟨cited, hciting, hne, fun id hid => hids id (hcited id hid)⟩

theorem forall_supported (h : ∀ v ∈ vs, Supported ids v) : ∃ idss, List.Forall₂ Citing vs idss ∧
    ∀ cited ∈ idss, cited ≠ [] ∧ ∀ id ∈ cited, id ∈ ids := by
  induction vs with
  | nil => exact ⟨[], .nil, List.forall_mem_nil _⟩
  | cons v vs ih =>
    obtain ⟨cited, hciting, hcited⟩ := h v List.mem_cons_self
    obtain ⟨idss, hforall, hall⟩ := ih fun w hw => h w (List.mem_cons_of_mem _ hw)
    exact ⟨cited :: idss, .cons hciting hforall, List.forall_mem_cons.mpr ⟨hcited, hall⟩⟩

theorem supported_observation (step : PlanStep) (text : String) {id : String} (h : id ∈ ids) :
    Supported ids (assemble.observation step id text) := by
  have hplain : Doc.Plain ["id", "kind", "text", "evidence", "transform", "query_step"] := by decide
  exact ⟨[id], ⟨_, rfl, hplain, rfl⟩, List.cons_ne_nil _ _, by simpa using h⟩

theorem supported_candidate (text rule : String) {cited : List String} (hne : cited ≠ []) (h : ∀ id ∈ cited, id ∈ ids) :
    Supported ids (report.candidate text rule cited) := by
  have hplain : Doc.Plain ["text", "label", "rule", "evidence"] := by decide
  exact ⟨cited, ⟨_, rfl, hplain, rfl⟩, hne, h⟩

/-- The candidates of a report cite the evidence whose text suggests them. -/
theorem supported_candidates (evidence : List Evidence) :
    ∀ v ∈ report.candidates evidence, Supported (evidence.map Evidence.id) v := by
  have hmentions (source term : String) : ∀ id ∈ report.mentions (report.ofSource evidence source) term,
      id ∈ evidence.map Evidence.id := by
    intro id hid
    obtain ⟨e, he, rfl⟩ := List.mem_map.mp hid
    exact List.mem_map_of_mem (List.mem_filter.mp (List.mem_filter.mp he).1).1
  have hone (text rule source term : String) :
      ∀ v ∈ report.supported text rule (report.mentions (report.ofSource evidence source) term),
        Supported (evidence.map Evidence.id) v := by
    intro v hv
    rw [report.supported] at hv
    split at hv
    · cases hv
    · rename_i hne
      obtain rfl := List.mem_singleton.mp hv
      exact supported_candidate text rule (by simpa using hne) (hmentions source term)
  intro v hv
  simp only [report.candidates, List.mem_append, List.mem_flatMap] at hv
  obtain (⟨⟨term, text⟩, -, hv⟩ | hv) | hv := hv
  · exact hone _ _ _ _ v hv
  · exact hone _ _ _ _ v hv
  · exact hone _ _ _ _ v hv

end Support

/-- What has been gathered so far is grounded. -/
def Gathered.Grounded (g : Gathered) : Prop := ∀ f ∈ g.facts, Supported (g.evidence.map Evidence.id) f

namespace assemble

open Trial

variable {lib : Libraries} {rt : Runtime} {run : RunContext} {recorded : Option Recording} {step : PlanStep} {i : Nat}
  {out : SourceResponse} {r : SourceRecord} {g : Gathered} {plan : QueryPlan} {b : ContextBundle}

theorem keeps_row_grounded : Keeps Gathered.Grounded (row lib run step out r) := by
  intro g hg
  have hshown (g' : Gathered) (hfacts : g'.facts = g.facts)
      (hevidence : g'.evidence = g.evidence ++ [evidenceOf lib run step out r]) : Gathered.Grounded g' := by
    intro f hf
    rw [hfacts] at hf
    rw [hevidence, List.map_append]
    exact (hg f hf).mono fun id hid => List.mem_append_left _ hid
  simp only [row, exec_bind, exec_liftM, exec_modify]
  cases mapped run step.source r.content with
  | error failure => exact hg
  | ok => cases describe lib step.source r.content with
    | error failure => exact hshown _ rfl rfl
    | ok text =>
      have hobserved (g' : Gathered)
          (hfacts : g'.facts = g.facts ++ [observation step (eid step.source r.id (digest lib r)) text])
          (hevidence : g'.evidence = g.evidence ++ [evidenceOf lib run step out r]) : Gathered.Grounded g' := by
        intro f hf
        rw [hfacts] at hf
        rcases List.mem_append.mp hf with hf | hf
        · rw [hevidence, List.map_append]
          exact (hg f hf).mono fun id hid => List.mem_append_left _ hid
        · obtain rfl := List.mem_singleton.mp hf
          rw [hevidence]
          exact supported_observation step text (by simp [evidenceOf])
      cases version step r.content with
      | error failure => exact hobserved _ rfl rfl
      | ok found => exact hobserved _ rfl rfl

theorem keeps_visit_grounded (step : PlanStep × Nat) : Keeps Gathered.Grounded (visit lib rt run recorded step) := by
  have hrecord (out : SourceResponse) : Keeps Gathered.Grounded (record lib rt run step.2 step.1 out) := by
    unfold record
    refine Keeps.bind (keeps_modify fun _ h => h) fun _ => keeps_liftM.bind fun _ => ?_
    exact Keeps.bind (keeps_modify fun _ h => h) fun _ => Keeps.forM fun _ _ => keeps_row_grounded
  have hrecover (failure : Failure) : Keeps Gathered.Grounded (recover lib rt recorded step.2 step.1 failure) := by
    unfold recover
    split_ifs
    · exact keeps_throw
    · exact Keeps.bind (keeps_modify fun _ h => h) fun _ => keeps_liftM
  unfold visit attempt
  refine keeps_liftM.bind fun _ => Keeps.tryCatch ?_ hrecover
  exact (keeps_retrieve fun _ _ h => h).bind fun out => (hrecord out).bind fun _ => keeps_liftM

theorem gather_grounded : (gather lib rt run plan recorded).2.Grounded :=
  (Keeps.forM fun step _ => keeps_visit_grounded step) Gathered.empty (List.forall_mem_nil _)

section Linking

open report (ofSource)

variable {evidence commits releases : List Evidence} {e : Evidence} {l : Links}

theorem mem_facts_foldl {f : Doc} {ls : List Links} : f ∈ (ls.foldl Links.append Links.none).facts ↔
    ∃ l ∈ ls, f ∈ l.facts := by
  suffices hacc : ∀ acc : Links, f ∈ (ls.foldl Links.append acc).facts ↔ f ∈ acc.facts ∨ ∃ l ∈ ls, f ∈ l.facts by
    simp [hacc, Links.none]
  induction ls with
  | nil => simp
  | cons l ls ih => simp [ih, Links.append, or_assoc]

theorem supported_release (h : release lib run commits e = .ok l) (he : e ∈ evidence)
    (hcommits : ∀ c ∈ commits, c ∈ evidence) : ∀ f ∈ l.facts, Supported (evidence.map Evidence.id) f := by
  rw [release, traversal.bind_eq_ok] at h
  obtain ⟨found, hfound, h⟩ := h
  obtain ⟨-, rfl⟩ := traversal.filterM_eq_ok.mp hfound
  split at h
  · rename_i commit rest hfilter
    obtain ⟨id, -, h⟩ := traversal.bind_eq_ok.mp h
    cases h
    have hcommit : commit ∈ commit :: rest := List.mem_cons_self
    rw [← hfilter] at hcommit
    have hmem := hcommits commit (List.mem_filter.mp hcommit).1
    have hplain : Doc.Plain ["id", "kind", "text", "evidence", "transform", "query_step"] := by decide
    intro f hf
    obtain rfl := List.mem_singleton.mp hf
    refine ⟨[e.id, commit.id], ⟨_, rfl, hplain, rfl⟩, List.cons_ne_nil _ _, ?_⟩
    simp only [List.forall_mem_cons]
    exact ⟨List.mem_map_of_mem he, List.mem_map_of_mem hmem, List.forall_mem_nil _⟩
  · cases h
    exact List.forall_mem_nil _

theorem supported_cluster (h : cluster lib releases e = .ok l) (he : e ∈ evidence)
    (hreleases : ∀ c ∈ releases, c ∈ evidence) : ∀ f ∈ l.facts, Supported (evidence.map Evidence.id) f := by
  rw [cluster, traversal.bind_eq_ok] at h
  obtain ⟨version, -, h⟩ := h
  obtain ⟨found, hfound, h⟩ := traversal.bind_eq_ok.mp h
  obtain ⟨-, rfl⟩ := traversal.filterM_eq_ok.mp hfound
  cases h
  have hplain : Doc.Plain ["id", "kind", "text", "evidence", "transform", "query_step"] := by decide
  intro f hf
  obtain ⟨c, hc, rfl⟩ := List.mem_map.mp hf
  refine ⟨[e.id, c.id], ⟨_, rfl, hplain, rfl⟩, List.cons_ne_nil _ _, ?_⟩
  simp only [List.forall_mem_cons]
  exact ⟨List.mem_map_of_mem he, List.mem_map_of_mem (hreleases c (List.mem_filter.mp hc).1), List.forall_mem_nil _⟩

theorem supported_links (h : links lib run evidence = .ok l) :
    ∀ f ∈ l.facts, Supported (evidence.map Evidence.id) f := by
  have hsource (source : String) : ∀ e ∈ ofSource evidence source, e ∈ evidence := fun e he => (List.mem_filter.mp he).1
  rw [links, traversal.bind_eq_ok] at h
  obtain ⟨releases, hreleases, h⟩ := h
  obtain ⟨observations, hobservations, h⟩ := traversal.bind_eq_ok.mp h
  cases h
  intro f hf
  obtain ⟨l, hl, hf⟩ := mem_facts_foldl.mp hf
  rcases List.mem_append.mp hl with hl | hl
  · obtain ⟨e, he, hrelease⟩ := traversal.forall₂_mem_right (traversal.mapM_eq_ok.mp hreleases) hl
    exact supported_release hrelease (hsource _ e he) (hsource _) f hf
  · obtain ⟨e, he, hcluster⟩ := traversal.forall₂_mem_right (traversal.mapM_eq_ok.mp hobservations) hl
    exact supported_cluster hcluster (hsource _ e he) (hsource _) f hf

/-- The facts of a bundle cite its evidence. -/
theorem supported_bundle (hg : g.Grounded) (h : bundle lib run plan g = .ok b) :
    b.evidence = g.evidence ∧ ∀ f ∈ b.facts, Supported (b.evidence.map Evidence.id) f := by
  rw [bundle, traversal.bind_eq_ok] at h
  obtain ⟨l, hl, h⟩ := h
  cases h
  refine ⟨rfl, fun f hf => ?_⟩
  rcases List.mem_append.mp hf with hf | hf
  · exact hg f hf
  · exact supported_links hl f hf

theorem report_bundle (h : bundle lib run plan g = .ok b) (memories : List Doc) :
    ∃ r, report lib.toLibrary { b with memories } = .ok r := by
  rw [bundle, traversal.bind_eq_ok] at h
  obtain ⟨l, -, h⟩ := h
  obtain rfl := Except.ok.inj h
  exact ⟨_, rfl⟩

end Linking

end assemble

/-- A report as the request that delivers it has it. -/
def message (number : String → Int) (report : List (String × Doc)) : RawMessage where
  value := Doc.json number (.dict report)
  size := Doc.bytes (Doc.dumps .compact (.dict report))

/-- A report that shows the evidence of a bundle, and whose claims cite it. -/
structure Presents (report : List (String × Doc)) (b : ContextBundle) : Prop where
  plain : Doc.Plain (report.map Prod.fst)
  answers : ∃ cited, ((report.lookup "answer_evidence" = none ∧ cited = []) ∨
    report.lookup "answer_evidence" = some (.strings cited)) ∧ ∀ id ∈ cited, id ∈ b.evidence.map Evidence.id
  evidence : report.lookup "evidence" = some (.list (b.evidence.map Evidence.model_dump))
  facts : ∃ facts, report.lookup "facts" = some (.list facts) ∧ ∀ v ∈ facts, Supported (b.evidence.map Evidence.id) v
  candidates : ∃ candidates, report.lookup "candidates" = some (.list candidates) ∧
    ∀ v ∈ candidates, Supported (b.evidence.map Evidence.id) v

section Reports

variable {number : String → Int} {r more : List (String × Doc)} {b : ContextBundle} {lib : Library}

/-- The API accepts such a report if and only if the ids of its evidence differ. -/
theorem Presents.accepted_iff (h : Presents r b) (hnamed : "" ∉ b.evidence.map Evidence.id) :
    validateReport (some (message number r)) = .ok () ↔ (b.evidence.map Evidence.id).Nodup := by
  obtain ⟨plain, ⟨cited, hanswers, hcited⟩, hevidence, ⟨facts, hfacts, hall⟩, ⟨candidates, hcandidates, hall'⟩⟩ := h
  obtain ⟨idss, hidss, hsupported⟩ := forall_supported hall
  obtain ⟨idss', hidss', hsupported'⟩ := forall_supported hall'
  let decoded : Report :=
    { AnswerEvidence := cited, Evidence := b.evidence.map Evidence.id, Facts := idss, Candidates := idss' }
  have hpublished : Published r decoded :=
    ⟨plain, hanswers, ⟨b.evidence, hevidence, rfl⟩, ⟨facts, hfacts, hidss⟩, ⟨candidates, hcandidates, hidss'⟩⟩
  rw [validateReport_eq_ok]
  constructor
  · rintro ⟨m, found, hm, hfound, hgrounded⟩
    obtain rfl := Option.some.inj hm
    obtain rfl := Option.some.inj (hpublished.unmarshal.symm.trans hfound)
    exact hgrounded.distinct
  · intro hdistinct
    refine ⟨_, decoded, rfl, hpublished.unmarshal, ⟨hnamed, hdistinct, fun ids hids => ?_, fun ids hids => ?_⟩⟩
    · rcases List.mem_append.mp hids with hids | hids
      · exact (hsupported ids hids).1
      · exact (hsupported' ids hids).1
    · rcases List.mem_cons.mp hids with rfl | hids
      · exact hcited
      · rcases List.mem_append.mp hids with hids | hids
        · exact (hsupported ids hids).2
        · exact (hsupported' ids hids).2

theorem presents_report (hfacts : ∀ v ∈ b.facts, Supported (b.evidence.map Evidence.id) v) (h : report lib b = .ok r) :
    Presents r b := by
  rw [report] at h
  split at h
  · obtain rfl := Except.ok.inj h
    have hplain : Doc.Plain ["impact", "retrieval", "answer", "facts", "candidates", "conflicts", "missing", "next_steps",
      "evidence", "freshness", "context", "confidence_rule", "historical_memory", "mode"] := by decide
    exact ⟨hplain, ⟨[], .inl ⟨rfl, rfl⟩, List.forall_mem_nil _⟩, rfl, ⟨_, rfl, hfacts⟩,
      ⟨_, rfl, supported_candidates b.evidence⟩⟩
  · cases h

theorem plain_update (h : Doc.Plain (r.map Prod.fst)) (hmore : ∀ e ∈ more, e.1.toList.map foldRune = e.1.toList) :
    Doc.Plain ((Doc.update r more).map Prod.fst) := by
  rw [Doc.update]
  induction more generalizing r with
  | nil => exact h
  | cons e more ih =>
    obtain ⟨he, hmore⟩ := List.forall_mem_cons.mp hmore
    refine ih ⟨dict.nodup_put h.1, fun k hk => ?_⟩ hmore
    rcases dict.mem_keys_put.mp hk with hk | rfl
    · exact h.2 k hk
    · exact he

end Reports

namespace mistral

variable {lib : Library} {session : Session} {run : RunContext} {b : ContextBundle} {provider : Provider}
  {cited : List Evidence} {value usage : Doc} {parsed : Answer} {result published : List (String × Doc)}

theorem evidence_of_answer? (h : answer? value = some parsed) : ∀ c ∈ parsed.candidates, c.evidence ≠ [] := by
  simp only [answer?, Option.bind_eq_bind, Option.bind_eq_some_iff, Option.pure_def] at h
  obtain ⟨fields, -, answer, -, answer_evidence, -, candidates, ⟨w, -, hcandidates⟩, next_steps, -, hparsed⟩ := h
  obtain rfl := Option.some.inj hparsed
  intro c hc
  cases w with
  | list items =>
    rw [list?] at hcandidates
    split at hcandidates
    · obtain ⟨item, -, hitem⟩ := traversal.forall₂_mem_right (traversal.mapM_eq_some.mp hcandidates) hc
      simp only [claim?, Option.bind_eq_bind, Option.bind_eq_some_iff, Option.pure_def] at hitem
      obtain ⟨fields, -, text, -, ids, ⟨w, -, hids⟩, hc⟩ := hitem
      obtain rfl := Option.some.inj hc
      cases w with
      | list items =>
        rw [list?] at hids
        split at hids
        · rename_i hlength
          have hsame := (traversal.mapM_eq_some.mp hids).length_eq
          intro hempty
          dsimp only at hempty
          rw [hempty, List.length_nil] at hsame
          omega
        · cases hids
      | str | dict | other => cases hids
    · cases hcandidates
  | str | dict | other => cases hcandidates

theorem supported_candidate (c : Claim) {ids : List String} (hne : c.evidence ≠ []) (h : ∀ id ∈ c.evidence, id ∈ ids) :
    Supported ids (candidate c) := by
  have hplain : Doc.Plain ["text", "evidence", "label", "rule"] := by decide
  exact ⟨c.evidence, ⟨_, rfl, hplain, rfl⟩, hne, h⟩

/-- A false answer is replaced by one that presents the bundle as well. -/
theorem presents_guarded (hfacts : ∀ v ∈ b.facts, Supported (b.evidence.map Evidence.id) v) (hresult : Presents result b)
    (h : guarded lib session b parsed result = .ok published) : Presents published b := by
  simp only [guarded] at h
  split at h
  · cases h
    exact hresult
  · obtain ⟨hits, -, h⟩ := traversal.bind_eq_ok.mp h
    split at h
    · obtain ⟨safe, hsafe, h⟩ := traversal.bind_eq_ok.mp h
      obtain ⟨excerpts, -, h⟩ := traversal.bind_eq_ok.mp h
      obtain ⟨-, -, h⟩ := traversal.bind_eq_ok.mp h
      obtain rfl := Except.ok.inj h
      obtain ⟨candidates, hcandidates, hall⟩ := (presents_report hfacts hsafe).candidates
      obtain ⟨facts, hfacts, hall'⟩ := hresult.facts
      have hlogs : ∀ id ∈ ((report.ofSource b.evidence "logs").take 3).map Evidence.id, id ∈ b.evidence.map Evidence.id :=
        List.map_subset _ ((List.take_sublist _ _).trans List.filter_sublist).subset
      refine ⟨plain_update hresult.plain ?_, ⟨_, .inr ?_, hlogs⟩, ?_, ⟨facts, ?_, hall'⟩, ⟨candidates, ?_, hall⟩⟩
      · simp only [List.forall_mem_cons]
        decide
      · simp [Doc.update, dict.lookup_put]
      · simp [Doc.update, dict.lookup_put, hresult.evidence]
      · simp [Doc.update, dict.lookup_put, hfacts]
      · simp [Doc.update, dict.lookup_put, hcandidates]
    · cases h
      exact hresult

/-- What `investigate` publishes presents the bundle. -/
theorem presents_conclude (hfacts : ∀ v ∈ b.facts, Supported (b.evidence.map Evidence.id) v)
    (hcited : ∀ e ∈ cited, e ∈ b.evidence) (h : conclude lib session b cited value usage = .ok published) :
    Presents published b := by
  obtain ⟨parsed, haccept, h⟩ := traversal.bind_eq_ok.mp h
  obtain ⟨-, -, h⟩ := traversal.bind_eq_ok.mp h
  obtain ⟨reported, hreported, hguarded⟩ := traversal.bind_eq_ok.mp h
  obtain ⟨hanswer, hevidence, hcandidates⟩ := accept_eq_ok.mp haccept
  have hreport := presents_report hfacts hreported
  obtain ⟨facts, hfacts', hall⟩ := hreport.facts
  have hids : ∀ id ∈ cited.map Evidence.id, id ∈ b.evidence.map Evidence.id := fun id hid => by
    obtain ⟨e, he, rfl⟩ := List.mem_map.mp hid
    exact List.mem_map_of_mem (hcited e he)
  refine presents_guarded hfacts ⟨plain_update hreport.plain ?_,
    ⟨parsed.answer_evidence, .inr ?_, fun id hid => hids id (hevidence id hid)⟩, ?_, ⟨facts, ?_, hall⟩,
    ⟨parsed.candidates.map candidate, ?_, ?_⟩⟩ hguarded
  · simp only [List.forall_mem_cons]
    decide
  · simp [Doc.update, dict.lookup_put]
  · simp [Doc.update, dict.lookup_put, hreport.evidence]
  · simp [Doc.update, dict.lookup_put, hfacts']
  · simp [Doc.update, dict.lookup_put]
  · intro v hv
    obtain ⟨c, hc, rfl⟩ := List.mem_map.mp hv
    exact supported_candidate c (evidence_of_answer? hanswer c hc) fun id hid => hids id (hcandidates c hc id hid)

/-- Whatever the model answers, a report that is published presents the bundle. -/
theorem presents_investigate (hfacts : ∀ v ∈ b.facts, Supported (b.evidence.map Evidence.id) v)
    (h : (investigate lib session run b provider).outcome = .ok published) : Presents published b := by
  obtain ⟨failure, hnone⟩ | ⟨sent, cited, hsent, hsome⟩ := investigate_budget lib session run b
  · rw [hnone] at h
    cases h
  · rw [hsome] at h
    obtain ⟨⟨value, usage⟩, -, h⟩ := traversal.bind_eq_ok.mp h
    refine presents_conclude hfacts (fun e he => ?_) h
    rcases List.mem_append.mp (hsent.chosen.subset he) with he | he
    · exact (List.mem_filter.mp ((List.take_sublist _ _).subset he)).1
    · exact (List.mem_filter.mp ((List.take_sublist _ _).subset he)).1

end mistral

section Ids

variable {lib : Libraries} {rt : Runtime} {run : RunContext} {step : PlanStep} {out : SourceResponse}

/-- Where the first colon stands is determined. -/
theorem append_colon_inj {a a' b b' : List Char} (ha : ':' ∉ a) (ha' : ':' ∉ a') :
    a ++ ':' :: b = a' ++ ':' :: b' ↔ a = a' ∧ b = b' := by
  constructor
  · intro h
    induction a generalizing a' with
    | nil =>
      cases a' with
      | nil => exact ⟨rfl, (List.cons.inj h).2⟩
      | cons c a' => exact absurd ((List.cons.inj h).1 ▸ List.mem_cons_self) ha'
    | cons c a ih =>
      cases a' with
      | nil => exact absurd ((List.cons.inj h).1 ▸ List.mem_cons_self) ha
      | cons c' a' =>
        obtain ⟨rfl, hrest⟩ := List.cons.inj h
        obtain ⟨rfl, rfl⟩ :=
          ih (fun hm => ha (List.mem_cons_of_mem _ hm)) (fun hm => ha' (List.mem_cons_of_mem _ hm)) hrest
        exact ⟨rfl, rfl⟩
  · rintro ⟨rfl, rfl⟩
    rfl

theorem eid_inj {source source' digest digest' : String} (id id' : String) (hsource : ':' ∉ source.toList)
    (hsource' : ':' ∉ source'.toList) (hdigest : digest.length = 64) (hdigest' : digest'.length = 64) :
    eid source id digest = eid source' id' digest' ↔
      source = source' ∧ id = id' ∧ digest.toList.take 12 = digest'.toList.take 12 := by
  have hlist (source id digest : String) : (eid source id digest).toList =
      source.toList ++ ':' :: (id.toList ++ ':' :: digest.toList.take 12) := by
    simp [eid]
  have hlength : (digest.toList.take 12).length = (digest'.toList.take 12).length := by
    rw [List.length_take, List.length_take, String.length_toList, String.length_toList, hdigest, hdigest']
  rw [← String.toList_inj, hlist, hlist, append_colon_inj hsource hsource', String.toList_inj]
  refine and_congr_right fun _ => ⟨fun h => ?_, ?_⟩
  · obtain ⟨hid, hrest⟩ := List.append_inj' h (by simpa using hlength)
    exact ⟨String.toList_inj.mp hid, (List.cons.inj hrest).2⟩
  · rintro ⟨rfl, h⟩
    rw [h]
/-- What tells the evidence of two records of one source apart is gone: redaction gives
them one id, and their contents digests that begin alike. -/
def Confused (lib : Libraries) (r r' : SourceRecord) : Prop :=
  redactText r.id = redactText r'.id ∧
    (assemble.digest lib r.redact).toList.take 12 = (assemble.digest lib r'.redact).toList.take 12

open assemble (shown used evidenceOf digest)

theorem nodup_shown (hstep : ':' ∉ step.source.toList) (hout : (out.records.map SourceRecord.id).Nodup) :
    ((shown lib run step out).map Evidence.id).Nodup ↔
      ∀ r ∈ used lib run step out, ∀ r' ∈ used lib run step out, r.id ≠ r'.id → ¬ Confused lib r r' := by
  have hused : ((used lib run step out).map SourceRecord.id).Nodup :=
    hout.sublist (((List.take_sublist _ _).trans List.filter_sublist).map _)
  rw [shown, List.map_map, List.nodup_map_iff_inj_on hused.of_map]
  have heid (r r' : SourceRecord) : (Evidence.id ∘ fun r => evidenceOf lib run step out.redact r.redact) r =
      (Evidence.id ∘ fun r => evidenceOf lib run step out.redact r.redact) r' ↔ Confused lib r r' := by
    have h := eid_inj r.redact.id r'.redact.id hstep hstep
      (lib.length_hexdigest (assemble.raw r.redact.content)) (lib.length_hexdigest (assemble.raw r'.redact.content))
    exact h.trans (and_iff_right rfl)
  constructor
  · intro h r hr r' hr' hne hconfused
    exact hne (congrArg SourceRecord.id (h r hr r' hr' ((heid r r').mpr hconfused)))
  · intro h r hr r' hr' heq
    by_contra hne
    exact h r hr r' hr' (fun hid => hne (List.inj_on_of_nodup_map hused hr hr' hid)) ((heid r r').mp heq)

theorem eid_ne_empty (source id digest : String) : eid source id digest ≠ "" := by
  intro h
  have hlength := congrArg String.length h
  simp [eid] at hlength

theorem default_sources (run : RunContext) (OBSERVE_NAMESPACE : String) :
    ((default_plan run OBSERVE_NAMESPACE).steps.map PlanStep.source).Nodup ∧
      ∀ step ∈ (default_plan run OBSERVE_NAMESPACE).steps, ':' ∉ step.source.toList := by
  unfold default_plan
  split_ifs
  · simp
  · simp

/-- Evidence of different steps differs, and so the ids do if those of each step do. -/
theorem nodup_readings {reads : List (PlanStep × SourceResponse)} (hsources : (reads.map fun read => read.1.source).Nodup)
    (hcolon : ∀ read ∈ reads, ':' ∉ read.1.source.toList) :
    ((reads.flatMap fun read => shown lib run read.1 read.2).map Evidence.id).Nodup ↔
      ∀ read ∈ reads, ((shown lib run read.1 read.2).map Evidence.id).Nodup := by
  rw [List.map_flatMap, List.nodup_flatMap]
  refine and_iff_left ?_
  have hpairwise := List.pairwise_map.mp hsources
  refine (List.Pairwise.and_mem.mp hpairwise).imp ?_
  rintro read read' ⟨hread, hread', hne⟩ id hid hid'
  obtain ⟨e, he, rfl⟩ := List.mem_map.mp hid
  obtain ⟨e', he', heq⟩ := List.mem_map.mp hid'
  obtain ⟨r, -, rfl⟩ := List.mem_map.mp he
  obtain ⟨r', -, rfl⟩ := List.mem_map.mp he'
  exact hne ((eid_inj _ _ (hcolon _ hread') (hcolon _ hread) (lib.length_hexdigest _) (lib.length_hexdigest _)).mp heq).1.symm

/-- The reports of an investigation by the default plan are accepted by the API if and
only if its evidence can be told apart: no source has sent two records that redaction
gives one id, and contents whose digests begin alike. -/
theorem accepted_iff_told_apart (lib : Libraries) (run : RunContext) (around : Surroundings) (OBSERVE_NAMESPACE : String)
    (number : String → Int) (b : ContextBundle) (recording : Recording)
    (hdistinct : ∀ place cursor out, around.answer place cursor = .ok out → (out.records.map SourceRecord.id).Nodup)
    (h : assemble lib (.online run around) run (default_plan run OBSERVE_NAMESPACE) none = .ok (b, recording)) :
    (∀ raw, validateReport raw = .ok () ↔
      ∃ m decoded, raw = some m ∧ Report.unmarshal m.value = some decoded ∧ decoded.Grounded) ∧
    (((∃ r, report lib.toLibrary b = .ok r ∧ validateReport (some (message number r)) = .ok ()) ∧
        ∀ session provider r, (mistral.investigate lib.toLibrary session run b provider).outcome = .ok r →
          validateReport (some (message number r)) = .ok ()) ↔
      ∀ read ∈ assemble.readings lib (.online run around) run none (default_plan run OBSERVE_NAMESPACE).steps.zipIdx
          Gathered.empty,
        ∀ r ∈ used lib run read.1 read.2, ∀ r' ∈ used lib run read.1 read.2, r.id ≠ r'.id → ¬ Confused lib r r') := by
  refine ⟨fun raw => validateReport_eq_ok, ?_⟩
  obtain ⟨-, -, -, hconclude⟩ := assemble.assemble_eq_ok.mp h
  obtain ⟨b', memories, hb', -, -, -, rfl, -⟩ := assemble.conclude_eq_ok.mp hconclude
  obtain ⟨hevidence, hfacts⟩ := assemble.supported_bundle assemble.gather_grounded hb'
  obtain ⟨hnodup, hcolon⟩ := default_sources run OBSERVE_NAMESPACE
  set reads := assemble.readings lib (.online run around) run none (default_plan run OBSERVE_NAMESPACE).steps.zipIdx
    Gathered.empty with hreads
  have hsteps : (reads.map Prod.fst).Sublist (default_plan run OBSERVE_NAMESPACE).steps := by
    have hsublist := assemble.readings_sublist lib (.online run around) run none
      (default_plan run OBSERVE_NAMESPACE).steps.zipIdx Gathered.empty
    rwa [List.zipIdx_map_fst] at hsublist
  have hcolons : ∀ read ∈ reads, ':' ∉ read.1.source.toList := fun read hread =>
    hcolon _ (hsteps.subset (List.mem_map_of_mem hread))
  have hshown : b'.evidence = reads.flatMap fun read => shown lib run read.1 read.2 := by
    rw [hevidence, assemble.gather, assemble.visits_evidence]
    rfl
  have hnamed : "" ∉ b'.evidence.map Evidence.id := by
    rw [hshown]
    intro hempty
    obtain ⟨e, he, hid⟩ := List.mem_map.mp hempty
    obtain ⟨read, -, he⟩ := List.mem_flatMap.mp he
    obtain ⟨r, -, rfl⟩ := List.mem_map.mp he
    exact eid_ne_empty _ _ _ hid
  have hids : (b'.evidence.map Evidence.id).Nodup ↔ ∀ read ∈ reads, ∀ r ∈ used lib run read.1 read.2,
      ∀ r' ∈ used lib run read.1 read.2, r.id ≠ r'.id → ¬ Confused lib r r' := by
    rw [hshown, nodup_readings (by simpa [Function.comp_def] using hnodup.sublist (hsteps.map PlanStep.source)) hcolons]
    refine forall₂_congr fun read hread => nodup_shown (hcolons read hread) ?_
    exact assemble.readings_spec (P := fun _ out => (out.records.map SourceRecord.id).Nodup)
      (fun step _ => assemble.retrieve_nodup fun page => hdistinct _) _ read hread
  rw [← hids]
  obtain ⟨r, hr⟩ := assemble.report_bundle hb' memories
  constructor
  · rintro ⟨⟨r', hr', haccepted⟩, -⟩
    exact ((presents_report (b := { b' with memories }) hfacts hr').accepted_iff hnamed).mp haccepted
  · intro hdistinct
    refine ⟨⟨r, hr, ?_⟩, fun session provider r' hr' => ?_⟩
    · exact ((presents_report (b := { b' with memories }) hfacts hr).accepted_iff hnamed).mpr hdistinct
    · exact ((mistral.presents_investigate (b := { b' with memories }) hfacts hr').accepted_iff hnamed).mpr hdistinct

end Ids

section Releases

/-- The digests of the contents of some releases. -/
def releaseDigests : List (String × String) :=
  [("token=[REDACTED]", "0cbc46694c1af7e7a1cb294a7a1a3143dde73b1cac55703b570cc28e6bcecdd4"),
    ("dep-1", "81b84921f023634a1a61cdec0df64f2336c2d1bd3013fda54686f8a9f62843b6"),
    ("dep-2", "9b9222ecb02d0c38e145afe1ff72e0cf326798c3dc8d3e26a1697ec28b382885")].map fun (id, digest) =>
      ("\x7b\"app_id\": \"svc-17\", \"commit_sha\": \"c0ffee\", \"deleted\": false, \"id\": \"" ++ id ++
        "\", \"service\": \"svc-17\", \"version\": \"v2\", \"watermark\": 4\x7d", digest)

/-- The libraries on the texts of a short investigation. -/
def tools : Libraries where
  isoformat _ := "2026-01-01T00:00:00+00:00"
  datetime _ := "2026-01-01T00:00:00Z"
  repr v := v.dumps .default
  order texts := texts
  positive _ := true
  loads _ := none
  hexdigest text := if (((releaseDigests.lookup text).getD "").length = 64) then (releaseDigests.lookup text).getD ""
    else String.ofList (List.replicate 64 '0')
  length_hexdigest text := by
    split_ifs with h
    · exact h
    · decide
  equal v w := v.dumps .default = w.dumps .default
  className
    | .HTTPStatusError _ => "HTTPStatusError"
    | _ => "RuntimeError"

def newYear : DateTime := { wall := 0, fold := false, tz := .fixed 0 }

def ordersRun : RunContext where
  subject := "alice"
  team := "orders"
  service := "svc-17"
  symptom := "errors"
  start := newYear
  stop := newYear
  budget := { steps := 12, seconds := 120, output_bytes := 0, model_calls := 3, tokens := 12000 }

/-- The record of a release. -/
def releaseRecord (id : String) : SourceRecord where
  id := id
  event_time := "2026-01-01T00:00:00+00:00"
  content := [("id", .str id), ("service", .str "svc-17"), ("app_id", .str "svc-17"), ("version", .str "v2"),
    ("commit_sha", .str "c0ffee"), ("watermark", .int 4), ("deleted", .bool false)]
  locator := "postgres://sources/deployments/" ++ id
  version := "4"
  deleted := false

def answering (records : List SourceRecord) : SourceResponse where
  records := records
  next_cursor := none
  summary := none
  provenance := none
  watermark := 4
  observed_at := "2026-01-01T00:00:01+00:00"
  retrieval := none
  more := []

/-- Only the first source of the plan answers. -/
def onlyReleases (records : List SourceRecord) : Surroundings where
  late _ := false
  event _ := .ok ()
  authorized _ := .ok ()
  answer
    | .query 0 0, _ => .ok (answering records)
    | _, _ => .error (.HTTPStatusError 503)
  memories := []

/-- What an investigation of two releases gathers. -/
def gatheredReleases (id id' : String) : Except Failure Unit × Gathered :=
  assemble.gather tools (.online ordersRun (onlyReleases [releaseRecord id, releaseRecord id'])) ordersRun
    (default_plan ordersRun "") none

/-- Where the loop ends well, a bundle comes back if it may be large enough. -/
theorem assemble_releases {id id' : String} (hgather : (gatheredReleases id id').1 = .ok ())
    (hbundle : (assemble.bundle tools ordersRun (default_plan ordersRun "") (gatheredReleases id id').2).isOk = true)
    (hcalls : (gatheredReleases id id').2.calls < 12) :
    ∃ output_bytes b memories recording, assemble tools
        (.online (ordersRun.within output_bytes) (onlyReleases [releaseRecord id, releaseRecord id']))
        (ordersRun.within output_bytes) (default_plan (ordersRun.within output_bytes) "") none =
          .ok ({ b with memories }, recording) ∧
      assemble.bundle tools ordersRun (default_plan ordersRun "") (gatheredReleases id id').2 = .ok b := by
  cases hb : assemble.bundle tools ordersRun (default_plan ordersRun "") (gatheredReleases id id').2 with
  | error failure =>
    rw [hb] at hbundle
    cases hbundle
  | ok b =>
    have hplan : validate_plan (default_plan ordersRun "") ordersRun = .ok () :=
      validate_default (validate_plan.lt_self _) (by decide)
    have hmemories : assemble.remembered (.online ordersRun (onlyReleases [releaseRecord id, releaseRecord id'])) none
        (gatheredReleases id id').2.calls = .ok [] := assemble.remembered_online hcalls rfl rfl
    obtain ⟨n, hn⟩ : ∃ n, assemble.size tools b ≤ n := ⟨_, le_rfl⟩
    exact ⟨n, b, _, _, assemble.assemble_within hplan rfl hgather hb hmemories rfl hn, rfl⟩

theorem onlyReleases_nodup {id id' : String} (hne : id ≠ id') (place : Place) (cursor : Option String)
    (out : SourceResponse) (hout : (onlyReleases [releaseRecord id, releaseRecord id']).answer place cursor = .ok out) :
    (out.records.map SourceRecord.id).Nodup := by
  simp only [onlyReleases] at hout
  split at hout
  · cases hout
    simpa [answering, releaseRecord] using hne
  · cases hout

theorem releases_confused : ∃ output_bytes b recording r,
    let run := ordersRun.within output_bytes
    let around := onlyReleases [releaseRecord "token=1", releaseRecord "token=2"]
    (∀ place cursor out, around.answer place cursor = .ok out → (out.records.map SourceRecord.id).Nodup) ∧
      assemble tools (.online run around) run (default_plan run "") none = .ok (b, recording) ∧
      report tools.toLibrary b = .ok r ∧ validateReport (some (message (fun _ => 0) r)) ≠ .ok () := by
  have hrun : (gatheredReleases "token=1" "token=2").1 = .ok () ∧
      (assemble.bundle tools ordersRun (default_plan ordersRun "") (gatheredReleases "token=1" "token=2").2).isOk = true ∧
      (gatheredReleases "token=1" "token=2").2.calls < 12 ∧
      "" ∉ (gatheredReleases "token=1" "token=2").2.evidence.map Evidence.id ∧
      ¬ ((gatheredReleases "token=1" "token=2").2.evidence.map Evidence.id).Nodup := by decide +kernel
  obtain ⟨hgather, hbundle, hcalls, hnamed, hnodup⟩ := hrun
  obtain ⟨output_bytes, b, memories, recording, hassemble, hb⟩ := assemble_releases hgather hbundle hcalls
  obtain ⟨hevidence, hfacts⟩ := assemble.supported_bundle (g := (gatheredReleases "token=1" "token=2").2)
    assemble.gather_grounded hb
  obtain ⟨r, hr⟩ := assemble.report_bundle hb memories
  refine ⟨output_bytes, { b with memories }, recording, r, onlyReleases_nodup (by decide), hassemble, hr, ?_⟩
  intro haccepted
  rw [← hevidence] at hnamed hnodup
  exact hnodup (((presents_report (b := { b with memories }) hfacts hr).accepted_iff hnamed).mp haccepted)

/-- The ids of these two releases do not look like secrets. -/
theorem releases_told_apart : ∃ output_bytes b recording,
    let run := ordersRun.within output_bytes
    let around := onlyReleases [releaseRecord "dep-1", releaseRecord "dep-2"]
    (∀ place cursor out, around.answer place cursor = .ok out → (out.records.map SourceRecord.id).Nodup) ∧
      assemble tools (.online run around) run (default_plan run "") none = .ok (b, recording) ∧
      ∃ r, report tools.toLibrary b = .ok r ∧ validateReport (some (message (fun _ => 0) r)) = .ok () := by
  have hrun : (gatheredReleases "dep-1" "dep-2").1 = .ok () ∧
      (assemble.bundle tools ordersRun (default_plan ordersRun "") (gatheredReleases "dep-1" "dep-2").2).isOk = true ∧
      (gatheredReleases "dep-1" "dep-2").2.calls < 12 ∧ redactText "dep-1" ≠ redactText "dep-2" := by decide +kernel
  obtain ⟨hgather, hbundle, hcalls, hapart⟩ := hrun
  obtain ⟨output_bytes, b, memories, recording, hassemble, hb⟩ := assemble_releases hgather hbundle hcalls
  refine ⟨output_bytes, { b with memories }, recording, onlyReleases_nodup (by decide), hassemble, ?_⟩
  refine (((accepted_iff_told_apart tools _ _ "" (fun _ => 0) _ _ (onlyReleases_nodup (by decide)) hassemble).2).mpr ?_).1
  intro read hread r hr r' hr' hne hconfused
  have hrecords : ∀ r ∈ read.2.records, r.id = "dep-1" ∨ r.id = "dep-2" := by
    refine assemble.readings_spec (P := fun _ out => ∀ r ∈ out.records, r.id = "dep-1" ∨ r.id = "dep-2")
      (fun step _ => assemble.retrieve_records fun page cursor out hout => ?_) _ read hread
    simp only [Runtime.online, onlyReleases] at hout
    split at hout
    · cases hout
      simp [answering, releaseRecord]
    · cases hout
  have hused (r : SourceRecord) (hr : r ∈ assemble.used tools (ordersRun.within output_bytes) read.1 read.2) :
      r.id = "dep-1" ∨ r.id = "dep-2" := hrecords r (List.mem_filter.mp ((List.take_sublist _ _).subset hr)).1
  have hids := hconfused.1
  obtain hid | hid := hused r hr <;> obtain hid' | hid' := hused r' hr'
  · exact hne (hid.trans hid'.symm)
  · exact hapart (by rwa [hid, hid'] at hids)
  · exact hapart (by rw [hid, hid'] at hids; exact hids.symm)
  · exact hne (hid.trans hid'.symm)

end Releases

end worker

end incidentdesk
