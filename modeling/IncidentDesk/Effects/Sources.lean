import IncidentDesk.Effects.Investigations

namespace incidentdesk

open sql sql.Tx

attribute [local simp] AList.lookup_insert_ne

variable {a : App} {now : Time} {skip : Key → Bool} {σ σ' σ'' : Store}

/-- Every row that belongs to a service is rewritten, table by table; the rows of
other services and the jobs stay as they are. -/
structure Rewrites (service : String) (f : Service → Service) (g : Investigation → Investigation)
    (h : Action → Action) (σ σ' : Store) : Prop where
  services : ∀ id, σ'.lookup (Key.services id) = (σ.lookup (Key.services id)).map fun row =>
    if id = service then f row else row
  investigations : ∀ id, σ'.lookup (Key.investigations id) =
    (σ.lookup (Key.investigations id)).map fun i => if i.service = service then g i else i
  actions : ∀ id, σ'.lookup (Key.actions id) = (σ.lookup (Key.actions id)).map fun row =>
    if ofService σ service id then h row else row
  jobs : ∀ id, σ'.lookup (Key.jobs id) = σ.lookup (Key.jobs id)
  actions_id : ∀ id, σ'.lookup (Key.actions_id id) = σ.lookup (Key.actions_id id)
  approvals : ∀ id, σ'.lookup (Key.approvals id) = σ.lookup (Key.approvals id)

namespace Rewrites

variable {service : String} {f f' : Service → Service} {g g' : Investigation → Investigation}
  {h h' : Action → Action}

theorem refl (service : String) (σ : Store) : Rewrites service id id id σ σ := by
  constructor <;> intro id <;> simp

/-- Rewriting an investigation without moving it keeps it with its service. -/
theorem ofService_eq (hσ : Rewrites service f g h σ σ') (hg : ∀ i, (g i).service = i.service)
    (id : String) : ofService σ' service id = ofService σ service id := by
  unfold ofService
  rw [hσ.investigations id]
  cases σ.lookup (Key.investigations id) with
  | none => rfl
  | some i => by_cases hservice : i.service = service <;> simp [hservice, hg]

theorem trans (hσ : Rewrites service f g h σ σ') (hσ' : Rewrites service f' g' h' σ' σ'')
    (hg : ∀ i, (g i).service = i.service) :
    Rewrites service (f' ∘ f) (g' ∘ g) (h' ∘ h) σ σ'' where
  services id := by
    rw [hσ'.services, hσ.services, Option.map_map]
    by_cases hid : id = service <;> simp [hid, Function.comp_def]
  investigations id := by
    rw [hσ'.investigations, hσ.investigations]
    cases σ.lookup (Key.investigations id) with
    | none => rfl
    | some i => by_cases hservice : i.service = service <;> simp [hservice, hg]
  actions id := by
    rw [hσ'.actions, hσ.actions, hσ.ofService_eq hg, Option.map_map]
    by_cases hservice : ofService σ service id <;> simp [hservice, Function.comp_def]
  jobs id := (hσ'.jobs id).trans (hσ.jobs id)
  actions_id id := (hσ'.actions_id id).trans (hσ.actions_id id)
  approvals id := (hσ'.approvals id).trans (hσ.approvals id)

end Rewrites

theorem updateInvestigations_rewrites (service : String) (g : Investigation → Investigation) :
    Ensures skip (updateInvestigations (fun _ _ row => row.service = service) fun _ _ row => g row) σ
      fun _ σ' => Rewrites service id g id σ σ' := by
  rw [ensures_updateAll]
  constructor <;> intro id <;> simp

theorem updateActions_rewrites {service : String} {p : Store → String → Action → Bool}
    {f h : Action → Action} (hp : ∀ id row, (if p σ id row then f row else row) =
      if ofService σ service id then h row else row) :
    Ensures skip (updateActions p f) σ fun _ σ' => Rewrites service id id h σ σ' := by
  rw [ensures_updateAll]
  constructor <;> intro id
  case actions => simp only [Store.lookup_updateRows, hp]
  all_goals simp

/-- The tables that `Rewrites` speaks about. -/
def Key.rewritten : Key → Bool
  | .approvals _ => true
  | key => key.tracked

/-- A statement about another table rewrites nothing. -/
theorem updateAll_rewrites (service : String) {p : Store → (key : Key) → Row key → Bool}
    {f : Store → (key : Key) → Row key → Row key}
    (hp : ∀ (key : Key) row, key.rewritten = true → p σ key row = false) :
    Ensures skip (updateAll p f : Tx _) σ fun _ σ' => Rewrites service id id id σ σ' := by
  rw [ensures_updateAll]
  have hsame (key : Key) (hkey : key.rewritten = true) :
      (σ.updateRows (p σ) (f σ)).lookup key = σ.lookup key := by
    rw [Store.lookup_updateRows]
    cases σ.lookup key with
    | none => rfl
    | some row => simp [hp key row hkey]
  constructor <;> intro id <;> rw [hsame _ rfl] <;> simp

theorem updateMemories_rewrites (service : String) (p : Memory → Bool) (f : Memory → Memory) :
    Ensures skip (updateMemories p f) σ fun _ σ' => Rewrites service id id id σ σ' := by
  refine updateAll_rewrites service fun key row hkey => ?_
  cases key <;> first | rfl | cases hkey

theorem updateEvents_rewrites (service : String) (p : Store → String → Bool) (f : Event → Event) :
    Ensures skip (updateEvents p f) σ fun _ σ' => Rewrites service id id id σ σ' := by
  refine updateAll_rewrites service fun key row hkey => ?_
  cases key <;> first | rfl | cases hkey

theorem updateBadcases_rewrites (service : String) (p : Store → Badcase → Bool) (f : Badcase → Badcase) :
    Ensures skip (updateBadcases p f) σ fun _ σ' => Rewrites service id id id σ σ' := by
  refine updateAll_rewrites service fun key row hkey => ?_
  cases key <;> first | rfl | cases hkey

theorem moveWatermark_rewrites (service kind : String) :
    Ensures skip (moveWatermark service kind) σ fun _ σ' =>
      Rewrites service (fun row => { row with watermark := row.watermark + 1 }) id
        (Action.closeIf ActionState.undecided) σ σ' := by
  unfold moveWatermark
  rw [ensures_bind, ensures_updateOne, ensures_bind, ensures_require]
  intro s _
  rw [ensures_bind, ensures_insert]
  intro _
  have hmoved : Rewrites service (fun row => { row with watermark := row.watermark + 1 }) id id σ
      ((σ.updateOne (Key.services service) (fun _ => true) fun row =>
        { row with watermark := row.watermark + 1 }).insert (Key.source_changes service s.watermark) kind) := by
    constructor <;> intro id
    case services =>
      by_cases hid : id = service
      · subst hid
        simp
      · simp [hid]
    all_goals simp
  rw [ensures_bind]
  refine (updateActions_rewrites (h := Action.closeIf ActionState.undecided) fun id row => ?_).mono skip
    fun _ σ₁ (hσ₁ : Rewrites service id id _ _ σ₁) => ?_
  · rw [Action.closeIf]
    cases ofService _ service id <;> rfl
  rw [ensures_bind]
  refine (updateMemories_rewrites service _ _).mono skip fun _ σ₂ hσ₂ => (ensures_ret skip).mpr ?_
  exact (hmoved.trans hσ₁ fun _ => rfl).trans hσ₂ fun _ => rfl

theorem removeContent_rewrites (service : String) :
    Ensures skip (removeContent service) σ fun _ σ' =>
      Rewrites service id (fun i => { i with report := none, manifest := none }) Action.removeContent
        σ σ' := by
  unfold removeContent
  rw [ensures_bind]
  refine (updateInvestigations_rewrites service _).mono skip fun _ σ₁ hσ₁ => ?_
  rw [ensures_bind]
  refine (updateActions_rewrites (h := Action.removeContent) fun _ _ => rfl).mono skip fun _ σ₂ hσ₂ => ?_
  rw [ensures_bind]
  refine (updateEvents_rewrites service _ _).mono skip fun _ σ₃ hσ₃ => ?_
  rw [ensures_bind]
  refine (updateMemories_rewrites service _ _).mono skip fun _ σ₄ hσ₄ => ?_
  rw [ensures_bind]
  refine (updateBadcases_rewrites service _ _).mono skip fun _ σ₅ hσ₅ => (ensures_ret skip).mpr ?_
  have h₂ := hσ₁.trans hσ₂ fun _ => rfl
  have h₃ := h₂.trans hσ₃ fun _ => rfl
  exact (h₃.trans hσ₄ fun _ => rfl).trans hσ₅ fun _ => rfl

theorem key_of_sourceInvalidated {remove : Bool} {watermark : Nat} {changed : List (Sigma Row)} {e : Sigma Row}
    (he : e ∈ changed.filterMap (sourceInvalidated remove watermark)) : ∃ id n, e.1 = Key.events id n := by
  obtain ⟨⟨key, row⟩, -, he⟩ := List.mem_filterMap.mp he
  cases key with
  | investigations id =>
    cases he
    exact ⟨id, row.seq, rfl⟩
  | _ => cases he

theorem lookup_insertRows_sourceInvalidated {remove : Bool} {watermark : Nat}
    {changed : List (Sigma Row)} {key : Key} (hkey : ∀ id seq, key ≠ .events id seq) :
    (Store.insertRows (changed.filterMap (sourceInvalidated remove watermark)) σ).lookup key =
      σ.lookup key := by
  refine Store.lookup_insertRows_of_notMem fun e he heq => ?_
  obtain ⟨id, n, hevent⟩ := key_of_sourceInvalidated he
  exact hkey id n (heq.symm.trans hevent)

/-- Notifying the workbenches only numbers and adds events. -/
theorem notifyWorkbenches_rewrites (service : String) (remove : Bool) (watermark : Nat) :
    Ensures skip (notifyWorkbenches service remove watermark) σ fun _ σ' =>
      Rewrites service id (fun i => { i with seq := i.seq + 1 }) id σ σ' := by
  unfold notifyWorkbenches
  rw [ensures_bind]
  refine (updateInvestigations_rewrites service _).mono skip fun changed σ₁ hσ₁ => ?_
  refine ensures_insertEach skip ?_
  constructor <;> intro id <;> rw [lookup_insertRows_sourceInvalidated (by simp)]
  · exact hσ₁.services id
  · exact hσ₁.investigations id
  · exact hσ₁.actions id
  · exact hσ₁.jobs id
  · exact hσ₁.actions_id id
  · exact hσ₁.approvals id

theorem invalidateSource_rewrites (service : String) (remove : Bool) :
    Ensures skip (invalidateSource service remove) σ fun _ σ' =>
      Rewrites service (fun row => { row with watermark := row.watermark + 1 })
        (Investigation.sourceChanged remove) (Action.sourceChanged remove) σ σ' := by
  unfold invalidateSource
  rw [ensures_bind]
  refine (moveWatermark_rewrites service _).mono skip fun watermark σ₁ hσ₁ => ?_
  cases remove with
  | true =>
    simp only [if_true, ensures_bind]
    refine (removeContent_rewrites service).mono skip fun _ σ₂ hσ₂ => ?_
    refine (notifyWorkbenches_rewrites service true watermark).mono skip fun _ σ₃ hσ₃ => ?_
    exact (hσ₁.trans hσ₂ fun _ => rfl).trans hσ₃ fun _ => rfl
  | false =>
    simp only [Bool.false_eq_true, if_false]
    refine (notifyWorkbenches_rewrites service false watermark).mono skip fun _ σ₃ hσ₃ => ?_
    exact hσ₁.trans hσ₃ fun _ => rfl

/-- Rewriting the rows of a service rewrites its cases. -/
theorem Rewrites.caseOf_eq {service : String} {f : Service → Service}
    {g : Investigation → Investigation} {h : Action → Action} (hσ : Rewrites service f g h σ σ')
    (hg : ∀ i, (g i).service = i.service) (id : String) :
    caseOf σ' id = (caseOf σ id).map fun c =>
      if c.investigation.service = service then
        { c with investigation := g c.investigation, service := f c.service, action := c.action.map h }
      else c := by
  unfold caseOf
  rw [hσ.investigations, hσ.jobs, hσ.actions]
  cases hi : σ.lookup (Key.investigations id) with
  | none => rfl
  | some i =>
    cases σ.lookup (Key.jobs id) with
    | none => simp
    | some j =>
      by_cases hservice : i.service = service
      · subst hservice
        have hs' : σ'.lookup (Key.services (g i).service) =
            (σ.lookup (Key.services i.service)).map f := by
          generalize hmoved : (g i).service = service
          obtain rfl : i.service = service := (hg i).symm.trans hmoved
          simp [hσ.services]
        simp [hs', ofService, hi, Function.comp_def]
      · cases hs : σ.lookup (Key.services i.service) <;>
          simp [hσ.services, hservice, hs, ofService, hi]

theorem Rewrites.evolves {service : String} {f : Service → Service}
    {g : Investigation → Investigation} {h : Action → Action} (hσ : Rewrites service f g h σ σ')
    (hg : ∀ i, (g i).service = i.service) (hh : ∀ row, (h row).id = row.id) : Evolves σ σ' := by
  intro key hkey
  cases key <;> simp [Key.tracked] at hkey
  case services id =>
    rw [hσ.services]
    cases σ.lookup (Key.services id) <;> simp [Key.keeps]
  case investigations id =>
    rw [hσ.investigations]
    cases σ.lookup (Key.investigations id) with
    | none => exact .none
    | some i => by_cases hservice : i.service = service <;> exact .some (by simp [Key.keeps, hservice, hg])
  case jobs id =>
    rw [hσ.jobs]
    exact Evolves.refl σ _ rfl
  case actions id =>
    rw [hσ.actions]
    cases σ.lookup (Key.actions id) with
    | none => exact .none
    | some row => by_cases hservice : ofService σ service id <;>
        exact .some (by simp [Key.keeps, hservice, hh])
  case actions_id id =>
    rw [hσ.actions_id]
    exact Evolves.refl σ _ rfl

theorem Investigation.sourceChanged_service (remove : Bool) (i : Investigation) :
    (i.sourceChanged remove).service = i.service := by
  cases remove <;> rfl

theorem Action.sourceChanged_id (remove : Bool) (row : Action) :
    (row.sourceChanged remove).id = row.id := by
  cases remove <;> by_cases hstate : row.state.undecided <;>
    simp [Action.sourceChanged, Action.removeContent, Action.closeIf, hstate]

theorem Rewrites.effect {service : String} {f : Service → Service} {remove : Bool} {r : Request}
    (hwf : Wf σ) (hr : ChangesSource r remove)
    (hσ : Rewrites service f (Investigation.sourceChanged remove) (Action.sourceChanged remove) σ σ')
    (hf : ∀ row, ∃ repo enabled, f row = { row with watermark := row.watermark + 1, repo, enabled }) :
    Effect a now skip σ (.request r) σ' where
  wf := hwf.evolves (hσ.evolves (Investigation.sourceChanged_service remove)
    (Action.sourceChanged_id remove))
  cases id := by
    rw [hσ.caseOf_eq (Investigation.sourceChanged_service remove)]
    cases caseOf σ id with
    | none => exact .unchanged
    | some c =>
      rw [Option.map_some]
      by_cases hservice : c.investigation.service = service
      · obtain ⟨repo, enabled, hf⟩ := hf c.service
        rw [if_pos hservice, hf]
        exact .sourceChanged hr
      · rw [if_neg hservice]
        exact .unchanged
  approvals id row hrow := (hσ.approvals id).trans hrow

theorem invalidateSource_effect (hwf : Wf σ) (service : String) (remove : Bool) :
    Ensures skip (invalidateSource service remove) σ fun _ σ' =>
      Effect a now skip σ (.request (.invalidateSource service remove)) σ' :=
  (invalidateSource_rewrites service remove).mono skip fun _ _ hσ =>
    hσ.effect hwf .invalidateSource fun row => ⟨row.repo, row.enabled, rfl⟩

theorem configureService_effect (hwf : Wf σ) (service repo : String) (enabled : Bool) :
    Ensures skip (configureService service repo enabled) σ fun _ σ' =>
      Effect a now skip σ (.request (.configureService service repo enabled)) σ' := by
  unfold configureService
  simp only [ensures_bind, ensures_refuse, ensures_updateOne]
  intro _
  have hconfigured : Rewrites service (fun row => { row with repo, enabled }) id id σ
      (Store.updateOne (Key.services service) (fun _ => true)
        (fun row => { row with repo, enabled }) σ) := by
    constructor <;> intro id
    case services =>
      by_cases hid : id = service
      · subst hid
        simp
      · simp [hid]
    all_goals simp
  refine (invalidateSource_rewrites service false).mono skip fun _ σ' hσ' => ?_
  exact (hconfigured.trans hσ' fun _ => rfl).effect hwf .configureService
    fun row => ⟨repo, enabled, rfl⟩

theorem reviewMemory_effect (hwf : Wf σ) (u mid decision : String) :
    Ensures skip (reviewMemory now u mid decision) σ fun _ σ' =>
      Effect a now skip σ (.request (.reviewMemory u mid decision)) σ' := by
  unfold reviewMemory
  simp only [ensures_bind, ensures_require, ensures_selectForUpdate, ensures_snapshot,
    ensures_ofExcept, ensures_refuse, ensures_updateOne, ensures_ite, Tx.pure_eq_ret, ensures_ret]
  intro state _ _ _ _ _ _ _ _
  have hreviewed (service : String) : Rewrites service id id id σ
      (Store.updateOne (Key.memories mid) (fun _ => true)
        (fun row => { row with status := state, reviewer := some u }) σ) := by
    constructor <;> intro id <;> simp
  refine ⟨fun _ m _ => ?_, fun _ => ?_⟩
  · refine (invalidateSource_rewrites m.service false).mono skip fun _ σ' hσ' => ?_
    exact ((hreviewed m.service).trans hσ' fun _ => rfl).effect hwf .reviewMemory
      fun row => ⟨row.repo, row.enabled, rfl⟩
  · refine .of_untracked hwf (fun key hkey => ?_) fun approval row hrow => ?_
    · rw [Store.lookup_updateOne_ne]
      rintro rfl
      cases hkey
    · simpa using hrow

theorem memory_effect (hwf : Wf σ) (id content newID : String) :
    Ensures skip (memory now id content newID) σ fun _ σ' =>
      Effect a now skip σ (.request (.memory id content newID)) σ' := by
  unfold memory
  simp only [ensures_bind, ensures_refuse, ensures_snapshot]
  intro _
  cases σ.lookup (Key.investigations id) with
  | none => exact (ensures_ret skip).mpr (.refl hwf)
  | some i =>
    simp only [ensures_insert]
    refine fun _ => .of_untracked hwf (fun key hkey => ?_) fun approval row hrow => ?_
    · rw [AList.lookup_insert_ne]
      rintro rfl
      cases hkey
    · simpa using hrow

theorem badcase_effect (hwf : Wf σ) (u id category label newID : String) :
    Ensures skip (badcase u id category label newID) σ fun _ σ' =>
      Effect a now skip σ (.request (.badcase u id category label newID)) σ' := by
  have hrecorded : Ensures skip (recordBadcase u id category label newID) σ fun _ σ' =>
      Effect a now skip σ (.request (.badcase u id category label newID)) σ' := by
    unfold recordBadcase
    rw [ensures_bind, ensures_snapshot]
    cases σ.lookup (Key.investigations id) with
    | none => exact (ensures_ret skip).mpr (.refl hwf)
    | some i =>
      simp only [ensures_insert]
      refine fun _ => .of_untracked hwf (fun key hkey => ?_) fun approval row hrow => ?_
      · rw [AList.lookup_insert_ne]
        rintro rfl
        cases hkey
      · simpa using hrow
  unfold badcase
  simp only [ensures_bind, ensures_refuse, ensures_require, ensures_snapshot, ensures_ite, ensures_ofExcept]
  exact fun _ i _ => ⟨fun _ _ _ => hrecorded, fun _ => hrecorded⟩

theorem reviewBadcase_effect (hwf : Wf σ) (u id label : String) :
    Ensures skip (reviewBadcase u id label) σ fun _ σ' =>
      Effect a now skip σ (.request (.reviewBadcase u id label)) σ' := by
  unfold reviewBadcase
  simp only [ensures_bind, ensures_refuse, ensures_require, ensures_snapshot, ensures_selectForUpdate, ensures_ofExcept,
    ensures_updateOne, Tx.pure_eq_ret, ensures_ret]
  intro _ _ _ _ _ _ _
  refine .of_untracked hwf (fun key hkey => ?_) fun approval row hrow => ?_
  · rw [Store.lookup_updateOne_ne]
    rintro rfl
    cases hkey
  · simpa using hrow

theorem setMember_effect (hwf : Wf σ) (subject team role : String) :
    Ensures skip (setMember subject team role) σ fun _ σ' =>
      Effect a now skip σ (.request (.setMember subject team role)) σ' := by
  unfold setMember
  simp only [ensures_bind, ensures_refuse, ensures_ofExcept]
  intro _ role _
  have hmembers (key : Key) (hkey : key.tracked = true) : key ≠ .members subject team := by
    rintro rfl
    cases hkey
  cases role with
  | none =>
    simp only [ensures_bind, ensures_updateOne, Tx.pure_eq_ret, ensures_ret]
    refine .of_untracked hwf (fun key hkey => ?_) fun approval row hrow => ?_
    · rw [Store.lookup_updateOne_ne (hmembers key hkey)]
    · simpa using hrow
  | some role =>
    simp only [ensures_bind, ensures_upsert, Tx.pure_eq_ret, ensures_ret]
    refine .of_untracked hwf (fun key hkey => ?_) fun approval row hrow => ?_
    · rw [AList.lookup_insert_ne (hmembers key hkey)]
    · simpa using hrow

end incidentdesk
