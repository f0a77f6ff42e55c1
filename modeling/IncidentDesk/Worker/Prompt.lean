import IncidentDesk.Traversal
import IncidentDesk.Worker.JsonSchema
import IncidentDesk.Worker.Mistral

namespace incidentdesk.worker.mistral

open json_schema (Accepts)
open report (ofSource)

/-- An answer cites an id, for the answer itself or for a candidate. -/
def Cites (v : Doc) (id : String) : Prop :=
  (∃ ids, v.get? "answer_evidence" = some (.list ids) ∧ .str id ∈ ids) ∨
    ∃ cs c ids, v.get? "candidates" = some (.list cs) ∧ c ∈ cs ∧ c.get? "evidence" = some (.list ids) ∧ .str id ∈ ids

/-- The schema lets an answer cite an id. -/
def Permitted (schema : Doc) (id : String) : Prop := ∃ v, Accepts schema schema v ∧ Cites v id

/-- An answer that cites an id may be accepted. -/
def Accepted (allowed : List Evidence) (id : String) : Prop :=
  ∃ v parsed, accept allowed v = .ok parsed ∧ Cites v id

/-- The schema of an answer, by what it says of the ids and of the numbers of ids and
candidates. -/
def schemaOf (items claimItems : Doc) (maxEvidence maxCandidates : Int) : Doc :=
  .dict [
    ("$defs", .dict [("Claim", .dict [
      ("additionalProperties", .bool false),
      ("properties", .dict [
        ("text", .dict [("maxLength", .int 1000), ("title", .str "Text"), ("type", .str "string")]),
        ("evidence", .dict [("items", claimItems), ("maxItems", .int 5), ("minItems", .int 1), ("title", .str "Evidence"),
          ("type", .str "array")])]),
      ("required", .strings ["text", "evidence"]), ("title", .str "Claim"), ("type", .str "object")])]),
    ("additionalProperties", .bool false),
    ("properties", .dict [
      ("answer", .dict [("maxLength", .int 1800), ("title", .str "Answer"), ("type", .str "string")]),
      ("answer_evidence", .dict [("items", items), ("maxItems", .int maxEvidence), ("title", .str "Answer Evidence"),
        ("type", .str "array")]),
      ("candidates", .dict [("items", .dict [("$ref", .str "#/$defs/Claim")]), ("maxItems", .int maxCandidates),
        ("title", .str "Candidates"), ("type", .str "array")]),
      ("next_steps", .dict [("items", .dict [("type", .str "string")]), ("maxItems", .int 4), ("title", .str "Next Steps"),
        ("type", .str "array")])]),
    ("required", .strings ["answer", "answer_evidence", "candidates", "next_steps"]), ("title", .str "Answer"),
    ("type", .str "object")]

/-- The ids that a schema lists. -/
def enumeration (ids : List String) : Doc := .dict [("type", .str "string"), ("enum", .strings ids)]

section Schema

variable {items claimItems : Doc} {m n : Int} {allowed : List Evidence} {ids : List String} {id : String} {v : Doc}

theorem model_json_schema_eq :
    Answer.model_json_schema = schemaOf (.dict [("type", .str "string")]) (.dict [("type", .str "string")]) 10 4 := rfl

theorem constrain_references_some (h : allowed.map Evidence.id ≠ []) :
    constrain_references allowed (schemaOf items claimItems m n) =
      schemaOf (enumeration (allowed.map Evidence.id)) (enumeration (allowed.map Evidence.id)) m n := by
  simp [constrain_references, h, schemaOf, enumeration, Doc.modify, Doc.set, Value.get?, dict.put, List.lookup_cons]

theorem constrain_references_none (h : allowed.map Evidence.id = []) :
    constrain_references allowed (schemaOf items claimItems m n) = schemaOf items claimItems 0 0 := by
  simp [constrain_references, h, schemaOf, Doc.modify, Doc.set, Value.get?, dict.put, List.lookup_cons]

theorem mem_of_get? {k : String} {w : Doc} (h : v.get? k = some w) : ∃ entries, v = .dict entries ∧ (k, w) ∈ entries := by
  cases v with
  | dict entries =>
    obtain ⟨before, after, rfl, -⟩ := List.lookup_eq_some_iff.mp h
    exact ⟨_, rfl, List.mem_append_right before List.mem_cons_self⟩
  | str | list | other => cases h

/-- A list that a schema describes has no more items than it may have. -/
theorem pos_of_accepts {root schema each : Doc} {maximum : Int} {values : List Doc} {value : Doc}
    (h : Accepts root schema (.list values)) (href : schema.get? "$ref" = none)
    (hmax : schema.get? "maxItems" = some (.int maximum)) (heach : schema.get? "items" = some each)
    (hvalue : value ∈ values) : 0 < maximum ∧ Accepts root each value := by
  have hlength := h.length href (n := maximum.toNat) (by rw [json_schema.limit?, hmax]; rfl)
  have hpos := List.length_pos_of_mem hvalue
  exact ⟨by omega, h.element href heach hvalue⟩

/-- Where an answer cites an id, the schema describes the id. -/
theorem Cites.described (hv : Accepts (schemaOf items claimItems m n) (schemaOf items claimItems m n) v)
    (hcites : Cites v id) :
    (0 < m ∧ Accepts (schemaOf items claimItems m n) items (.str id)) ∨
      (0 < n ∧ Accepts (schemaOf items claimItems m n) claimItems (.str id)) := by
  have hproperty {k : String} {w : Doc} (each : Doc) (hget : v.get? k = some w)
      (heach : ((schemaOf items claimItems m n).get? "properties").bind (·.get? k) = some each) :
      Accepts (schemaOf items claimItems m n) each w := by
    obtain ⟨entries, rfl, hmem⟩ := mem_of_get? hget
    exact hv.property rfl hmem heach
  obtain ⟨ids, hget, hid⟩ | ⟨cs, c, ids, hget, hc, hevidence, hid⟩ := hcites
  · have hanswer := hproperty (.dict [("items", items), ("maxItems", .int m), ("title", .str "Answer Evidence"),
      ("type", .str "array")]) hget rfl
    exact .inl (pos_of_accepts hanswer rfl rfl rfl hid)
  · have hcandidates := hproperty (.dict [("items", .dict [("$ref", .str "#/$defs/Claim")]),
      ("maxItems", .int n), ("title", .str "Candidates"), ("type", .str "array")]) hget rfl
    obtain ⟨hpos, hclaim⟩ := pos_of_accepts hcandidates rfl rfl rfl hc
    have htarget := hclaim.target "Claim" rfl rfl
    obtain ⟨entries, rfl, hmem⟩ := mem_of_get? hevidence
    have hlist : Accepts (schemaOf items claimItems m n) (.dict [("items", claimItems), ("maxItems", .int 5),
        ("minItems", .int 1), ("title", .str "Evidence"), ("type", .str "array")]) (.list ids) :=
      htarget.property rfl hmem rfl
    exact .inr ⟨hpos, hlist.element rfl rfl hid⟩

theorem mem_of_accepts {root : Doc} (h : Accepts root (enumeration ids) (.str id)) : id ∈ ids := by
  have henum : Value.str id ∈ ids.map Value.str := h.enum rfl rfl
  simpa using henum

/-- An answer that cites one id. -/
def citing (id : String) : Doc :=
  .dict [("answer", .str ""), ("answer_evidence", .strings [id]), ("candidates", .list []), ("next_steps", .list [])]

theorem cites_citing : Cites (citing id) id := .inl ⟨[.str id], rfl, List.mem_singleton_self _⟩

theorem accepts_text {root schema : Doc} {text : String} (href : schema.get? "$ref" = none)
    (htype : schema.get? "type" = some (.str "string"))
    (hlength : ∀ n, json_schema.limit? "maxLength" schema = some n → text.length ≤ n)
    (henum : ∀ values, schema.get? "enum" = some (.list values) → .str text ∈ values) :
    Accepts root schema (.str text) := by
  refine .value href (fun t ht => ?_) (fun text' n heq hn => ?_) henum nofun nofun nofun nofun nofun nofun
  · cases htype.symm.trans ht
    rfl
  · cases heq
    exact hlength n hn

theorem accepts_list {root each : Doc} {maximum : Int} {title : String} {values : List Doc}
    (hlength : (values.length : Int) ≤ maximum) (heach : ∀ value ∈ values, Accepts root each value) :
    Accepts root (.dict [("items", each), ("maxItems", .int maximum), ("title", .str title), ("type", .str "array")])
      (.list values) := by
  refine .value rfl (fun t ht => ?_) nofun nofun nofun (fun values' k heq hk => ?_) (fun values' each' heq heach' => ?_)
    nofun nofun nofun
  · cases ht
    rfl
  · cases heq
    cases hk
    omega
  · cases heq
    cases heach'
    exact heach

theorem accepts_citing (hid : id ∈ ids) (hm : 1 ≤ m) (hn : 0 ≤ n) :
    Accepts (schemaOf (enumeration ids) claimItems m n) (schemaOf (enumeration ids) claimItems m n) (citing id) := by
  refine .value rfl (fun t ht => ?_) (by rintro _ _ ⟨⟩) (by rintro _ ⟨⟩) (by rintro _ _ ⟨⟩) (by rintro _ _ ⟨⟩)
    (by rintro _ _ ⟨⟩) (fun entries names heq hnames => ?_) (fun entries heq _ => ?_)
    (fun entries each heq e he heach => ?_)
  · cases ht
    rfl
  · cases heq
    have hlist : ["answer", "answer_evidence", "candidates", "next_steps"] = names :=
      List.map_injective_iff.mpr (fun _ _ => Value.str.inj) (Value.list.inj (Option.some.inj hnames))
    rw [← hlist]
    simp [List.lookup_cons]
  · cases heq
    simp only [List.forall_mem_cons, List.not_mem_nil, false_imp_iff, implies_true, and_true]
    exact ⟨rfl, rfl, rfl, rfl⟩
  · cases heq
    simp only [List.mem_cons, List.not_mem_nil, or_false] at he
    obtain rfl | rfl | rfl | rfl := he
    · cases heach
      exact accepts_text rfl rfl (fun k hk => Nat.zero_le k) (by rintro _ ⟨⟩)
    · cases heach
      refine accepts_list hm fun value hvalue => ?_
      obtain rfl := List.mem_singleton.mp hvalue
      refine accepts_text rfl rfl (by rintro _ ⟨⟩) fun values hvalues => ?_
      cases hvalues
      exact List.mem_map_of_mem hid
    · cases heach
      exact accepts_list hn (List.forall_mem_nil _)
    · cases heach
      exact accepts_list (by decide) (List.forall_mem_nil _)

end Schema

section Answers

variable {allowed : List Evidence} {id : String} {v : Doc} {parsed : Answer}

/-- An answer is accepted when the typed model reads it and it cites nothing else. -/
theorem accept_eq_ok : accept allowed v = .ok parsed ↔
    answer? v = some parsed ∧ (∀ id ∈ parsed.answer_evidence, id ∈ allowed.map Evidence.id) ∧
      ∀ c ∈ parsed.candidates, ∀ id ∈ c.evidence, id ∈ allowed.map Evidence.id := by
  rw [accept, traversal.bind_eq_ok, Answer.model_validate]
  cases hanswer : answer? v with
  | none => simp
  | some found =>
    simp only [Option.elim_some, Except.ok.injEq, exists_eq_left', Option.some.injEq]
    have hall : (found.answer_evidence.all (· ∈ allowed.map Evidence.id) &&
        found.candidates.all fun c => c.evidence.all (· ∈ allowed.map Evidence.id)) = true ↔
        (∀ id ∈ found.answer_evidence, id ∈ allowed.map Evidence.id) ∧
          ∀ c ∈ found.candidates, ∀ id ∈ c.evidence, id ∈ allowed.map Evidence.id := by
      simp only [Bool.and_eq_true, List.all_eq_true, decide_eq_true_eq]
    by_cases hgrounded : (found.answer_evidence.all (· ∈ allowed.map Evidence.id) &&
        found.candidates.all fun c => c.evidence.all (· ∈ allowed.map Evidence.id)) = true
    · rw [if_pos hgrounded]
      constructor
      · rintro ⟨⟩
        exact ⟨rfl, hall.mp hgrounded⟩
      · rintro ⟨rfl, -⟩
        rfl
    · rw [if_neg hgrounded]
      constructor
      · rintro ⟨⟩
      · rintro ⟨rfl, hcited⟩
        exact absurd (hall.mpr hcited) hgrounded

theorem strings_of_list? {least most : Nat} {values : List Doc} {texts : List String}
    (h : list? least most string? (.list values) = some texts) (hid : .str id ∈ values) : id ∈ texts := by
  rw [list?] at h
  split at h
  · have hforall := traversal.mapM_eq_some.mp h
    rename_i hlength
    clear h hlength
    induction hforall with
    | nil => cases hid
    | cons hxy _ ih =>
      obtain rfl | hid := List.mem_cons.mp hid
      · cases hxy
        exact List.mem_cons_self
      · exact List.mem_cons_of_mem _ (ih hid)
  · cases h

/-- What the typed model reads from a field of an object. -/
theorem field_eq_some {α : Type} {names : List String} {read : Doc → Option α} {k : String} {fields : List (String × Doc)}
    {w : Doc} {found : α} (hfields : fields? names v = some fields) (hread : (fields.lookup k).bind read = some found)
    (hget : v.get? k = some w) : read w = some found := by
  cases v with
  | dict entries =>
    rw [fields?] at hfields
    split at hfields
    · cases hfields
      have hlookup : fields.lookup k = some w := hget
      rwa [hlookup] at hread
    · cases hfields
  | str | list | other => cases hget

/-- What an answer cites is in what is read of it. -/
theorem Cites.cited (hcites : Cites v id) (h : answer? v = some parsed) :
    id ∈ parsed.answer_evidence ∨ ∃ c ∈ parsed.candidates, id ∈ c.evidence := by
  simp only [answer?, Option.bind_eq_bind, Option.bind_eq_some_iff, Option.pure_def] at h
  obtain ⟨fields, hfields, answer, -, answer_evidence, hevidence, candidates, hcandidates, next_steps, -, hparsed⟩ := h
  obtain rfl := Option.some.inj hparsed
  obtain ⟨ids, hget, hid⟩ | ⟨cs, c, ids, hget, hc, hclaim, hid⟩ := hcites
  · have hread := field_eq_some hfields (Option.bind_eq_some_iff.mpr hevidence) hget
    exact .inl (strings_of_list? hread hid)
  · have hread := field_eq_some hfields (Option.bind_eq_some_iff.mpr hcandidates) hget
    obtain ⟨claim, hmem, hclaim?⟩ : ∃ claim ∈ candidates, claim? c = some claim := by
      rw [list?] at hread
      split at hread
      · have hforall := traversal.mapM_eq_some.mp hread
        obtain ⟨n, hn, rfl⟩ := List.getElem_of_mem hc
        have hn' : n < candidates.length := hforall.length_eq ▸ hn
        exact ⟨candidates[n], List.getElem_mem hn', hforall.get hn hn'⟩
      · cases hread
    simp only [claim?, Option.bind_eq_bind, Option.bind_eq_some_iff, Option.pure_def] at hclaim?
    obtain ⟨fields', hfields', text, -, evidence, hevidence', hclaimed⟩ := hclaim?
    obtain rfl := Option.some.inj hclaimed
    have hids := field_eq_some hfields' (Option.bind_eq_some_iff.mpr hevidence') hclaim
    exact .inr ⟨_, hmem, strings_of_list? hids hid⟩

theorem accepted_iff : Accepted allowed id ↔ id ∈ allowed.map Evidence.id := by
  constructor
  · rintro ⟨v, parsed, haccept, hcites⟩
    obtain ⟨hanswer, hevidence, hcandidates⟩ := accept_eq_ok.mp haccept
    obtain hid | ⟨c, hc, hid⟩ := hcites.cited hanswer
    · exact hevidence id hid
    · exact hcandidates c hc id hid
  · intro hid
    refine ⟨citing id, { answer := "", answer_evidence := [id], candidates := [], next_steps := [] },
      accept_eq_ok.mpr ⟨?_, ?_, nofun⟩, cites_citing⟩
    · rfl
    · intro id' hid'
      rwa [List.mem_singleton.mp hid']

end Answers

section Loop

variable {lib : Library} {run : RunContext} {b : ContextBundle} {session : Session} {p : Prompt} {id : String}

/-- What stays true while evidence is taken off a prompt. -/
structure Prompt.Inv (lib : Library) (run : RunContext) (b : ContextBundle) (p : Prompt) : Prop where
  chosen : p.allowed <+: mistral.allowed b
  shown : List.Forall₂ (fun e doc => shown lib b e = .ok doc) p.allowed p.evidence
  content : p.content = (data lib run b p.evidence).dumps Doc.unicode
  schema : (p.allowed ≠ [] ∧ p.schema = schemaOf (enumeration (p.allowed.map Evidence.id))
      (enumeration (p.allowed.map Evidence.id)) 10 4) ∨
    (p.allowed = [] ∧ ∃ items claimItems, p.schema = schemaOf items claimItems 0 0)

theorem whole_inv {evidence : List Doc} (h : (allowed b).mapM (shown lib b) = .ok evidence) :
    (whole lib run b evidence).Inv lib run b where
  chosen := List.prefix_refl _
  shown := traversal.mapM_eq_ok.mp h
  content := rfl
  schema := by
    simp only [whole, model_json_schema_eq]
    by_cases hnone : mistral.allowed b = []
    · exact .inr ⟨hnone, _, _, constrain_references_none (by rw [hnone]; rfl)⟩
    · exact .inl ⟨hnone, constrain_references_some fun hmap => hnone (List.map_eq_nil_iff.mp hmap)⟩

theorem Prompt.Inv.pop (h : p.Inv lib run b) (hsome : p.evidence ≠ []) : (p.pop lib run b).Inv lib run b where
  chosen := (List.dropLast_prefix _).trans h.chosen
  shown := by
    simp only [Prompt.pop, List.dropLast_eq_take, h.shown.length_eq]
    exact List.forall₂_take _ h.shown
  content := rfl
  schema := by
    have hallowed : p.allowed ≠ [] := by
      intro hnone
      have hlength := h.shown.length_eq
      rw [hnone] at hlength
      exact hsome (List.length_eq_zero_iff.mp hlength.symm)
    obtain ⟨-, hschema⟩ | ⟨hnone, -⟩ := h.schema
    · simp only [Prompt.pop, hschema]
      by_cases hlast : p.allowed.dropLast = []
      · exact .inr ⟨hlast, _, _, constrain_references_none (by rw [hlast]; rfl)⟩
      · exact .inl ⟨hlast, constrain_references_some fun hmap => hlast (List.map_eq_nil_iff.mp hmap)⟩
    · exact absurd hnone hallowed

theorem prompt_spec (h : prompt lib run b session = .ok p) : p.Inv lib run b ∧
    p.size + output_budget run.budget.tokens + 1000 ≤ run.budget.tokens := by
  rw [prompt, traversal.bind_eq_ok] at h
  obtain ⟨-, -, h⟩ := h
  split at h
  · cases h
  · obtain ⟨evidence, hevidence, h⟩ := traversal.bind_eq_ok.mp h
    obtain hrun | ⟨q, hrun⟩ := Option.eq_none_or_eq_some ((shrinking lib run b).run (whole lib run b evidence))
    · rw [hrun] at h
      cases h
    · rw [hrun] at h
      cases h
      obtain ⟨hinv, hfits⟩ := Shrinking.run_induction (P := Prompt.Inv lib run b) (fun q hq hinv => hinv.pop (by simpa [shrinking] using hq))
        (whole_inv hevidence) hrun
      exact ⟨hinv, of_decide_eq_true hfits⟩

/-- The schema lets an answer cite what the model is shown. -/
theorem Prompt.Inv.permitted_iff (h : p.Inv lib run b) : Permitted p.schema id ↔ id ∈ p.allowed.map Evidence.id := by
  obtain ⟨-, hschema⟩ | ⟨hnone, items, claimItems, hschema⟩ := h.schema
  · rw [hschema]
    constructor
    · rintro ⟨v, hv, hcites⟩
      obtain ⟨-, hid⟩ | ⟨-, hid⟩ := hcites.described hv
      · exact mem_of_accepts hid
      · exact mem_of_accepts hid
    · intro hid
      exact ⟨citing id, accepts_citing hid (by decide) (by decide), cites_citing⟩
  · rw [hschema, hnone]
    constructor
    · rintro ⟨v, hv, hcites⟩
      obtain ⟨hpos, -⟩ | ⟨hpos, -⟩ := hcites.described hv
      · exact absurd hpos (by decide)
      · exact absurd hpos (by decide)
    · rintro ⟨⟩

/-- Evidence from other sources is taken off a prompt only after all the logs. -/
theorem allowed_logs_first {cited dropped : List Evidence} (hsplit : allowed b = cited ++ dropped) {e e' : Evidence}
    (he : e ∈ dropped) (hlinked : e.source ≠ "logs") (he' : e' ∈ cited) : e'.source ≠ "logs" := by
  have hlogs {e : Evidence} (he : e ∈ (ofSource b.evidence "logs").take 30) : e.source = "logs" := by
    simpa using (List.mem_filter.mp (List.mem_of_mem_take he)).2
  have hothers {e : Evidence} (he : e ∈ (b.evidence.filter fun e => e.source ≠ "logs").take 10) : e.source ≠ "logs" := by
    simpa using (List.mem_filter.mp (List.mem_of_mem_take he)).2
  rw [allowed] at hsplit
  obtain ⟨kept, hallowed, hdropped⟩ | ⟨rest, hsources, hrest⟩ := List.append_eq_append_iff.mp hsplit
  · exact absurd (hlogs (hdropped ▸ List.mem_append_right kept he)) hlinked
  · exact hothers (hsources ▸ List.mem_append_left rest he')

end Loop

/-- A request that has been sent, and the evidence that the model may cite. -/
structure Dispatched (lib : Library) (session : Session) (run : RunContext) (b : ContextBundle) (sent : Request)
    (cited : List Evidence) : Prop where
  within : Doc.bytes (sent.messages.dumps Doc.unicode) + Doc.bytes (sent.schema.dumps .default) + sent.max_tokens + 1000 ≤
    run.budget.tokens
  output : sent.max_tokens = output_budget run.budget.tokens
  /-- What the model is told: the evidence, by its ids, and how much it is. -/
  told : ∃ evidence, sent.messages = messages ((data lib run b evidence).dumps Doc.unicode) ∧
    evidence.map (·.get? "id") = cited.map (fun e => some (.str e.id)) ∧
    (data lib run b evidence).get? "evidence" = some (.list evidence) ∧
    (data lib run b evidence).get? "model_evidence_count" = some (.int cited.length)
  chosen : cited <+: allowed b
  logs_first : ∀ dropped, allowed b = cited ++ dropped → (∃ e ∈ dropped, e.source ≠ "logs") → ∀ e ∈ cited, e.source ≠ "logs"
  permitted : ∀ id, Permitted sent.schema id ↔ id ∈ cited.map Evidence.id
  accepted : ∀ id, Accepted cited id ↔ id ∈ cited.map Evidence.id
  rejected : ∀ v usage id, Cites v id → id ∉ cited.map Evidence.id → ∃ failure, conclude lib session b cited v usage = .error failure
  reported : ∀ v usage result, conclude lib session b cited v usage = .ok result →
    result.lookup "model_evidence_count" = some (.int cited.length)

section Budget

variable {lib : Library} {session : Session} {run : RunContext} {b : ContextBundle} {p : Prompt}

/-- The answer that is put in the place of a false one is about as much evidence. -/
theorem guarded_count {parsed : Answer} {result published : List (String × Doc)}
    (h : guarded lib session b parsed result = .ok published) :
    published.lookup "model_evidence_count" = result.lookup "model_evidence_count" := by
  simp only [guarded] at h
  split at h
  · cases h
    rfl
  · obtain ⟨hits, -, h⟩ := traversal.bind_eq_ok.mp h
    split at h
    · obtain ⟨safe, -, h⟩ := traversal.bind_eq_ok.mp h
      obtain ⟨excerpts, -, h⟩ := traversal.bind_eq_ok.mp h
      obtain ⟨-, -, h⟩ := traversal.bind_eq_ok.mp h
      obtain rfl := Except.ok.inj h
      simp [Doc.update, dict.lookup_put]
    · cases h
      rfl

theorem Prompt.Inv.dispatched (h : p.Inv lib run b)
    (hfits : p.size + output_budget run.budget.tokens + 1000 ≤ run.budget.tokens) :
    Dispatched lib session run b (request session run p) p.allowed where
  within := by
    rw [Prompt.size] at hfits
    exact hfits
  output := rfl
  told := by
    refine ⟨p.evidence, by rw [request, h.content], ?_, rfl, ?_⟩
    · refine (traversal.forall₂_map_eq h.shown fun e doc hdoc => ?_).symm
      rw [mistral.shown] at hdoc
      split at hdoc
      · cases hdoc
        rfl
      · cases hdoc
    · rw [h.shown.length_eq]
      rfl
  chosen := h.chosen
  logs_first dropped hsplit := fun ⟨e, he, hlinked⟩ e' he' => allowed_logs_first hsplit he hlinked he'
  permitted id := h.permitted_iff
  accepted id := accepted_iff
  rejected v usage id hcites hid := by
    cases haccept : accept p.allowed v with
    | error failure => exact ⟨failure, by rw [conclude, haccept]; rfl⟩
    | ok parsed => exact absurd (accepted_iff.mp ⟨v, parsed, haccept, hcites⟩) hid
  reported v usage result hresult := by
    obtain ⟨parsed, -, hresult⟩ := traversal.bind_eq_ok.mp hresult
    obtain ⟨-, -, hresult⟩ := traversal.bind_eq_ok.mp hresult
    obtain ⟨reported, -, hguarded⟩ := traversal.bind_eq_ok.mp hresult
    rw [guarded_count hguarded]
    simp only [Doc.update, List.foldl_cons, List.foldl_nil, dict.lookup_put, if_true]

end Budget

/-- Either an investigation ends before the model is asked, or the request that is sent
is within the budget, and the prompt, the schema and the check of the answer are about the same evidence. -/
theorem investigate_budget (lib : Library) (session : Session) (run : RunContext) (b : ContextBundle) :
    (∃ failure, ∀ provider, investigate lib session run b provider = { request := none, outcome := .error failure }) ∨
      ∃ sent cited, Dispatched lib session run b sent cited ∧ ∀ provider, investigate lib session run b provider =
        { request := some sent
          outcome := do
            let (value, usage) ← (complete lib session provider sent).2
            conclude lib session b cited value usage } := by
  cases hprompt : prompt lib run b session with
  | error failure =>
    refine .inl ⟨failure, fun provider => ?_⟩
    rw [investigate, hprompt]
  | ok p =>
    obtain ⟨hinv, hfits⟩ := prompt_spec hprompt
    cases hkey : session.key with
    | none =>
      refine .inl ⟨.RuntimeError "mistral_not_configured", fun provider => ?_⟩
      rw [investigate, hprompt]
      simp only [complete, hkey]
      rfl
    | some key =>
      refine .inr ⟨request session run p, p.allowed, hinv.dispatched hfits, fun provider => ?_⟩
      rw [investigate, hprompt]
      simp only [complete, hkey]

end incidentdesk.worker.mistral
