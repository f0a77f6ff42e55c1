import IncidentDesk.World

namespace incidentdesk

/-- One investigation with its job, its service and its action. -/
structure Case where
  investigation : Investigation
  job : Job
  service : Service
  action : Option Action

def caseOf (σ : Store) (id : String) : Option Case :=
  (σ.lookup (Key.investigations id)).bind fun investigation =>
    (σ.lookup (Key.jobs id)).bind fun job =>
      (σ.lookup (Key.services investigation.service)).map fun service =>
        { investigation, job, service, action := σ.lookup (Key.actions id) }

theorem caseOf_eq_some {σ : Store} {id : String} {c : Case} :
    caseOf σ id = some c ↔
      σ.lookup (Key.investigations id) = some c.investigation ∧
        σ.lookup (Key.jobs id) = some c.job ∧
        σ.lookup (Key.services c.investigation.service) = some c.service ∧
        σ.lookup (Key.actions id) = c.action := by
  obtain ⟨i, j, s, act⟩ := c
  simp only [caseOf, Option.bind_eq_some_iff, Option.map_eq_some_iff, Case.mk.injEq]
  constructor
  · rintro ⟨_, hi, _, hj, _, hs, rfl, rfl, rfl, hact⟩
    exact ⟨hi, hj, hs, hact⟩
  · rintro ⟨hi, hj, hs, hact⟩
    exact ⟨i, hi, j, hj, s, hs, rfl, rfl, rfl, hact⟩

/-- What ties the rows of the schema to each other: an investigation has a job
and a service, and an action belongs to an investigation and is found by its id. -/
structure Wf (σ : Store) : Prop where
  job : ∀ id, (σ.lookup (Key.jobs id)).isSome = (σ.lookup (Key.investigations id)).isSome
  service : ∀ id i, σ.lookup (Key.investigations id) = some i →
    (σ.lookup (Key.services i.service)).isSome = true
  action : ∀ id row, σ.lookup (Key.actions id) = some row →
    (σ.lookup (Key.investigations id)).isSome = true ∧
      σ.lookup (Key.actions_id row.id) = some id
  action_id : ∀ aid id, σ.lookup (Key.actions_id aid) = some id →
    ∃ row, σ.lookup (Key.actions id) = some row ∧ row.id = aid

/-- The rows of an investigation's case are there. -/
theorem Wf.rows {σ : Store} (hwf : Wf σ) {id : String} {i : Investigation}
    (hi : σ.lookup (Key.investigations id) = some i) :
    ∃ j s, σ.lookup (Key.jobs id) = some j ∧ σ.lookup (Key.services i.service) = some s ∧
      caseOf σ id = some ⟨i, j, s, σ.lookup (Key.actions id)⟩ := by
  have hjob := hwf.job id
  rw [hi, Option.isSome_some, Option.isSome_iff_exists] at hjob
  obtain ⟨j, hj⟩ := hjob
  obtain ⟨s, hs⟩ := Option.isSome_iff_exists.mp (hwf.service id i hi)
  exact ⟨j, s, hj, hs, caseOf_eq_some.mpr ⟨hi, hj, hs, rfl⟩⟩

theorem Wf.caseOf_of_investigation {σ : Store} (hwf : Wf σ) {id : String} {i : Investigation}
    (hi : σ.lookup (Key.investigations id) = some i) :
    ∃ c, caseOf σ id = some c ∧ c.investigation = i := by
  obtain ⟨j, s, -, -, hc⟩ := hwf.rows hi
  exact ⟨_, hc, rfl⟩

theorem Wf.caseOf_of_job {σ : Store} (hwf : Wf σ) {id : String} {job : Job}
    (hjob : σ.lookup (Key.jobs id) = some job) : ∃ c, caseOf σ id = some c ∧ c.job = job := by
  have hi := hwf.job id
  rw [hjob, Option.isSome_some, eq_comm, Option.isSome_iff_exists] at hi
  obtain ⟨i, hi⟩ := hi
  obtain ⟨c, hc, -⟩ := hwf.caseOf_of_investigation hi
  exact ⟨c, hc, Option.some.inj ((caseOf_eq_some.mp hc).2.1.symm.trans hjob)⟩

theorem Wf.caseOf_of_action {σ : Store} (hwf : Wf σ) {id : String} {row : Action}
    (hrow : σ.lookup (Key.actions id) = some row) :
    ∃ c, caseOf σ id = some c ∧ c.action = some row := by
  obtain ⟨i, hi⟩ := Option.isSome_iff_exists.mp (hwf.action id row hrow).1
  obtain ⟨c, hc, -⟩ := hwf.caseOf_of_investigation hi
  exact ⟨c, hc, (caseOf_eq_some.mp hc).2.2.2.symm.trans hrow⟩

/-- An investigation that is not there has no action. -/
theorem Wf.action_eq_none {σ : Store} (hwf : Wf σ) {id : String}
    (hi : σ.lookup (Key.investigations id) = none) : σ.lookup (Key.actions id) = none := by
  by_contra hrow
  obtain ⟨row, hrow⟩ := Option.ne_none_iff_exists'.mp hrow
  have hi' := (hwf.action id row hrow).1
  rw [hi] at hi'
  cases hi'

theorem caseOf_eq_none {σ : Store} {id : String} (h : σ.lookup (Key.investigations id) = none) :
    caseOf σ id = none := by
  simp [caseOf, h]

theorem Wf.caseOf_eq_none_iff {σ : Store} (hwf : Wf σ) {id : String} :
    caseOf σ id = none ↔ σ.lookup (Key.investigations id) = none := by
  refine ⟨fun h => ?_, caseOf_eq_none⟩
  by_contra hi
  obtain ⟨i, hi⟩ := Option.ne_none_iff_exists'.mp hi
  obtain ⟨c, hc, -⟩ := hwf.caseOf_of_investigation hi
  rw [h] at hc
  cases hc

/-- The action of an investigation is read from its case. -/
theorem Wf.lookup_actions {σ : Store} (hwf : Wf σ) (id : String) :
    σ.lookup (Key.actions id) = (caseOf σ id).bind (·.action) := by
  cases hc : caseOf σ id with
  | none => exact hwf.action_eq_none (hwf.caseOf_eq_none_iff.mp hc)
  | some c => exact (caseOf_eq_some.mp hc).2.2.2

/-- So is its job. -/
theorem Wf.lookup_jobs {σ : Store} (hwf : Wf σ) (id : String) :
    σ.lookup (Key.jobs id) = (caseOf σ id).map (·.job) := by
  cases hc : caseOf σ id with
  | none =>
    have hjob := hwf.job id
    rw [hwf.caseOf_eq_none_iff.mp hc, Option.isSome_none, Option.isSome_eq_false_iff,
      Option.isNone_iff_eq_none] at hjob
    exact hjob
  | some c => exact (caseOf_eq_some.mp hc).2.1

/-- The tables that a case is read from. -/
def Key.tracked : Key → Bool
  | .investigations _ | .jobs _ | .services _ | .actions _ | .actions_id _ => true
  | _ => false

/-- What no update of a row changes. -/
def Key.keeps : (key : Key) → Row key → Row key → Prop
  | .investigations _, i, i' => i'.service = i.service
  | .actions _, row, row' => row'.id = row.id
  | .actions_id _, id, id' => id' = id
  | _, _, _ => True

@[simp] theorem Key.keeps_refl (key : Key) (row : Row key) : key.keeps row row := by
  cases key <;> simp [Key.keeps]

theorem Key.keeps_trans {key : Key} {row row' row'' : Row key} (h : key.keeps row row')
    (h' : key.keeps row' row'') : key.keeps row row'' := by
  cases key <;> simp_all [Key.keeps]

/-- The rows of the tracked tables have been updated, none added or removed. -/
def Evolves (σ σ' : Store) : Prop :=
  ∀ key : Key, key.tracked = true → Option.Rel key.keeps (σ.lookup key) (σ'.lookup key)

namespace Evolves

variable {σ₀ σ σ' : Store}

theorem refl (σ : Store) : Evolves σ σ := by
  intro key _
  cases σ.lookup key with
  | none => exact .none
  | some row => exact .some (key.keeps_refl row)

/-- A row that was there is there in its new version. -/
theorem lookup_after (h : Evolves σ σ') {key : Key} (hkey : key.tracked = true) {row : Row key}
    (hrow : σ.lookup key = some row) : ∃ row', σ'.lookup key = some row' ∧ key.keeps row row' := by
  have hrel := h key hkey
  rw [hrow] at hrel
  generalize σ'.lookup key = after at hrel ⊢
  cases hrel with
  | some hkeeps => exact ⟨_, rfl, hkeeps⟩

/-- A row that is there was there in an older version. -/
theorem lookup_before (h : Evolves σ σ') {key : Key} (hkey : key.tracked = true) {row' : Row key}
    (hrow' : σ'.lookup key = some row') : ∃ row, σ.lookup key = some row ∧ key.keeps row row' := by
  have hrel := h key hkey
  rw [hrow'] at hrel
  generalize σ.lookup key = before at hrel ⊢
  cases hrel with
  | some hkeeps => exact ⟨_, rfl, hkeeps⟩

theorem isSome_eq (h : Evolves σ σ') {key : Key} (hkey : key.tracked = true) :
    (σ'.lookup key).isSome = (σ.lookup key).isSome := by
  have hrel := h key hkey
  generalize σ.lookup key = before, σ'.lookup key = after at hrel ⊢
  cases hrel <;> rfl

theorem trans (h : Evolves σ₀ σ) (h' : Evolves σ σ') : Evolves σ₀ σ' := by
  intro key hkey
  cases hrow : σ₀.lookup key with
  | none =>
    have hafter : (σ'.lookup key).isSome = false := by
      rw [h'.isSome_eq hkey, h.isSome_eq hkey, hrow, Option.isSome_none]
    rw [Option.isSome_eq_false_iff, Option.isNone_iff_eq_none] at hafter
    rw [hafter]
    exact .none
  | some row =>
    obtain ⟨row', hrow', hkeeps⟩ := h.lookup_after hkey hrow
    obtain ⟨row'', hrow'', hkeeps'⟩ := h'.lookup_after hkey hrow'
    rw [hrow'']
    exact .some (Key.keeps_trans hkeeps hkeeps')

theorem updateRows (h : Evolves σ₀ σ) {p : (key : Key) → Row key → Bool}
    {f : (key : Key) → Row key → Row key} (hf : ∀ (key : Key) row, key.keeps row (f key row)) :
    Evolves σ₀ (sql.Store.updateRows p f σ) := by
  refine h.trans fun key _ => ?_
  rw [sql.Store.lookup_updateRows]
  cases σ.lookup key with
  | none => exact .none
  | some row =>
    refine .some ?_
    by_cases hp : p key row
    · simpa [hp] using hf key row
    · simp [hp]

theorem updateOne (h : Evolves σ₀ σ) {key : Key} {p : Row key → Bool} {f : Row key → Row key}
    (hf : ∀ row, key.keeps row (f row)) : Evolves σ₀ (sql.Store.updateOne key p f σ) := by
  refine h.trans fun key' _ => ?_
  by_cases hkey : key' = key
  · subst hkey
    rw [sql.Store.lookup_updateOne_self]
    cases σ.lookup key' with
    | none => exact .none
    | some row =>
      refine .some ?_
      by_cases hp : p row
      · simpa [hp] using hf row
      · simp [hp]
  · rw [sql.Store.lookup_updateOne_ne hkey]
    exact refl σ key' ‹_›

theorem insert (h : Evolves σ₀ σ) {key : Key} {row row' : Row key} (hrow : σ.lookup key = some row)
    (hkeeps : key.keeps row row') : Evolves σ₀ (σ.insert key row') := by
  refine h.trans fun key' _ => ?_
  by_cases hkey : key' = key
  · subst hkey
    rw [hrow, AList.lookup_insert]
    exact .some hkeeps
  · rw [AList.lookup_insert_ne hkey]
    exact refl σ key' ‹_›

theorem insert_untracked (h : Evolves σ₀ σ) {key : Key} (hkey : key.tracked = false)
    (row : Row key) : Evolves σ₀ (σ.insert key row) := by
  refine h.trans fun key' htracked => ?_
  have hne : key' ≠ key := by
    rintro rfl
    simp [hkey] at htracked
  rw [AList.lookup_insert_ne hne]
  exact refl σ key' htracked

end Evolves

theorem Wf.evolves {σ σ' : Store} (hwf : Wf σ) (h : Evolves σ σ') : Wf σ' := by
  constructor
  · intro id
    rw [h.isSome_eq rfl, h.isSome_eq rfl, hwf.job id]
  · intro id i' hi'
    obtain ⟨i, hi, hservice⟩ := h.lookup_before rfl hi'
    have hservice : i'.service = i.service := hservice
    rw [hservice, h.isSome_eq rfl]
    exact hwf.service id i hi
  · intro id row' hrow'
    obtain ⟨row, hrow, hid⟩ := h.lookup_before rfl hrow'
    have hid : row'.id = row.id := hid
    obtain ⟨hi, haid⟩ := hwf.action id row hrow
    obtain ⟨id', haid', heq⟩ := h.lookup_after rfl haid
    have heq : id' = id := heq
    exact ⟨(h.isSome_eq rfl).trans hi, by rw [hid, haid', heq]⟩
  · intro aid id haid'
    obtain ⟨id₀, haid, heq⟩ := h.lookup_before rfl haid'
    have heq : id = id₀ := heq
    rw [← heq] at haid
    obtain ⟨row, hrow, hrow_id⟩ := hwf.action_id aid id haid
    obtain ⟨row', hrow', hid⟩ := h.lookup_after rfl hrow
    have hid : row'.id = row.id := hid
    exact ⟨row', hrow', hid.trans hrow_id⟩

/-- Admitting an investigation with its job keeps the rows together. -/
theorem Wf.addInvestigation {σ σ' : Store} (hwf : Wf σ) (id : String) (i : Investigation)
    (hnew : σ.lookup (Key.investigations id) = none)
    (hservice : (σ.lookup (Key.services i.service)).isSome = true)
    (hi : σ'.lookup (Key.investigations id) = some i)
    (hj : (σ'.lookup (Key.jobs id)).isSome = true)
    (hothers : ∀ key : Key, key.tracked = true → key ≠ .investigations id → key ≠ .jobs id →
      σ'.lookup key = σ.lookup key) : Wf σ' := by
  constructor
  · intro id'
    by_cases hid : id' = id
    · subst hid
      rw [hi, hj, Option.isSome_some]
    · rw [hothers (Key.jobs id') rfl (by simp) (by simp [hid]),
        hothers (Key.investigations id') rfl (by simp [hid]) (by simp)]
      exact hwf.job id'
  · intro id' i' hi'
    rw [hothers (Key.services i'.service) rfl (by simp) (by simp)]
    by_cases hid : id' = id
    · subst hid
      rw [hi] at hi'
      cases hi'
      exact hservice
    · rw [hothers (Key.investigations id') rfl (by simp [hid]) (by simp)] at hi'
      exact hwf.service id' i' hi'
  · intro id' row hrow
    rw [hothers (Key.actions id') rfl (by simp) (by simp)] at hrow
    rw [hothers (Key.actions_id row.id) rfl (by simp) (by simp)]
    obtain ⟨hi', haid⟩ := hwf.action id' row hrow
    have hid : id' ≠ id := by
      rintro rfl
      simp [hnew] at hi'
    exact ⟨by rwa [hothers (Key.investigations id') rfl (by simp [hid]) (by simp)], haid⟩
  · intro aid id' haid
    rw [hothers (Key.actions_id aid) rfl (by simp) (by simp)] at haid
    rw [hothers (Key.actions id') rfl (by simp) (by simp)]
    exact hwf.action_id aid id' haid

/-- So does giving an investigation its first action, under an id of its own. -/
theorem Wf.addAction {σ : Store} (hwf : Wf σ) (id : String) (row : Action)
    (hi : (σ.lookup (Key.investigations id)).isSome = true)
    (hnew : σ.lookup (Key.actions id) = none) (hnew_id : σ.lookup (Key.actions_id row.id) = none) :
    Wf ((σ.insert (Key.actions id) row).insert (Key.actions_id row.id) id) := by
  constructor
  · intro id'
    simpa [AList.lookup_insert_ne] using hwf.job id'
  · intro id' i hi'
    simp only [AList.lookup_insert_ne, ne_eq, reduceCtorEq, not_false_eq_true] at hi' ⊢
    exact hwf.service id' i hi'
  · intro id' row' hrow'
    rw [AList.lookup_insert_ne (by simp)] at hrow'
    rw [AList.lookup_insert_ne (by simp), AList.lookup_insert_ne (by simp)]
    by_cases hid : id' = id
    · subst hid
      rw [AList.lookup_insert] at hrow'
      cases hrow'
      exact ⟨hi, AList.lookup_insert _⟩
    · rw [AList.lookup_insert_ne (by simp [hid])] at hrow'
      obtain ⟨hi', haid⟩ := hwf.action id' row' hrow'
      have hne : row'.id ≠ row.id := by
        intro heq
        rw [heq, hnew_id] at haid
        cases haid
      exact ⟨hi', by rwa [AList.lookup_insert_ne (by simp [hne]), AList.lookup_insert_ne (by simp)]⟩
  · intro aid id' haid
    rw [AList.lookup_insert_ne (by simp)]
    by_cases heq : aid = row.id
    · subst heq
      rw [AList.lookup_insert] at haid
      cases haid
      exact ⟨row, AList.lookup_insert _, rfl⟩
    · rw [AList.lookup_insert_ne (by simp [heq]), AList.lookup_insert_ne (by simp)] at haid
      obtain ⟨row', hrow', hid'⟩ := hwf.action_id aid id' haid
      have hne : id' ≠ id := by
        rintro rfl
        rw [hnew] at hrow'
        cases hrow'
      exact ⟨row', by rwa [AList.lookup_insert_ne (by simp [hne])], hid'⟩

end incidentdesk
