import IncidentDesk.CaseStep

namespace incidentdesk

open sql sql.Tx

attribute [local simp] AList.lookup_insert_ne

variable {a : App} {now : Time} {skip : Key → Bool} {σ : Store}

@[simp] theorem ensures_event {id kind : String} {payload : Json} {Q : Unit → Store → Prop} :
    Ensures skip (event id kind payload) σ Q ↔
      ∀ i, σ.lookup (Key.investigations id) = some i →
        σ.lookup (Key.events id (i.seq + 1)) = none →
          Q () ((σ.insert (Key.investigations id) { i with seq := i.seq + 1 }).insert
            (Key.events id (i.seq + 1)) { kind, payload }) := by
  unfold event
  cases hi : σ.lookup (Key.investigations id) with
  | none => simp [hi]
  | some i => simp [hi, Store.updateOne]

theorem cancel_effect (hwf : Wf σ) (id : String) :
    Ensures skip (cancel id) σ fun _ σ' => Effect a now skip σ (.request (.cancel id)) σ' := by
  unfold cancel
  simp only [ensures_bind, ensures_updateOne, ensures_event]
  intro i hi _
  refine .of_case id (hwf.evolves ?_) ?_ ?_ ?_
  · refine .insert_untracked
      (.insert (.updateOne (.updateOne (.updateOne (.refl σ) ?_) ?_) ?_) hi ?_) rfl _ <;> simp [Key.keeps]
  · simp at hi
    obtain ⟨i, hi, rfl⟩ := hi
    obtain ⟨j, s, hj, hs, hc⟩ := hwf.rows hi
    rw [hc]
    convert CaseStep.cancelled using 1
    simp [caseOf, hj, hs, Action.closeIf_def]
  · intro id' hid
    simp [caseOf, hid]
  · intro approval row hrow
    simpa using hrow

theorem resume_effect (hwf : Wf σ) (id information : String) :
    Ensures skip (resume now id information) σ fun _ σ' =>
      Effect a now skip σ (.request (.resume id information)) σ' := by
  unfold resume
  simp only [ensures_bind, ensures_refuse, ensures_updateOne, ensures_event]
  intro hsize hupdated i hi _
  refine .of_case id (hwf.evolves ?_) ?_ ?_ ?_
  · refine .insert_untracked
      (.insert (.updateOne (.updateOne (.updateOne (.refl σ) ?_) ?_) ?_) hi ?_) rfl _ <;> simp [Key.keeps]
  · simp at hi hupdated
    obtain ⟨i, hi, rfl⟩ := hi
    obtain ⟨_, hi', hstatus⟩ := hupdated
    obtain rfl := Option.some.inj (hi.symm.trans hi')
    obtain ⟨j, s, hj, hs, hc⟩ := hwf.rows hi
    rw [hc]
    convert CaseStep.resumed (not_lt.mp hsize) ?_ using 1
    · simp [caseOf, hj, hs, hstatus, currentWatermark, Action.closeIf_def]
    · exact hstatus
  · intro id' hid
    simp [caseOf, hid]
  · intro approval row hrow
    simpa using hrow

theorem createTask_effect (hwf : Wf σ) (u : String) (b : Create)
    (requestHash idem id requestID : String) :
    Ensures skip (createTask a now u b requestHash idem id requestID) σ fun _ σ' =>
      Effect a now skip σ (.request (.createTask u b requestHash idem id requestID)) σ' := by
  unfold createTask
  simp only [ensures_bind, ensures_ofExcept, ensures_lockRow, ensures_snapshot]
  intro query _
  cases hold : investigationByIdem σ u idem with
  | some old =>
    simp only [ensures_bind, ensures_refuse, Tx.pure_eq_ret, ensures_ret]
    exact fun _ => .refl hwf
  | none =>
    simp only [ensures_bind, ensures_require, ensures_snapshot, ensures_ofExcept, ensures_refuse,
      ensures_insert, ensures_event, Tx.pure_eq_ret, ensures_ret]
    intro s hs _ hmember hquota hnew _ _ i hi _
    obtain ⟨hs, -⟩ := Option.filter_eq_some_iff.mp hs
    simp at hi
    subst hi
    refine .of_case id (hwf.addInvestigation id { newInvestigation u b requestHash idem s query with seq := 1 }
      hnew ?_ ?_ ?_ ?_) ?_ ?_ ?_
    · simp [newInvestigation, hs]
    · simp [newInvestigation]
    · simp
    · intro key hkey hi hj
      have hidem : key ≠ Key.investigations_idem u idem := by
        rintro rfl
        cases hkey
      have hevent (seq : Nat) : key ≠ Key.events id seq := by
        rintro rfl
        cases hkey
      simp [hi, hj, hidem, hevent]
    · rw [caseOf_eq_none hnew]
      have hmember : isMember σ u s.team false = true := by
        simp [isMember, hmember, Except.isOk, Except.toBool]
      convert CaseStep.created hs hmember (not_le.mp hquota) using 1
      simp [caseOf, newInvestigation, hwf.action_eq_none hnew]
      exact ⟨hs, rfl⟩
    · intro id' hid
      simp [caseOf, hid]
    · intro approval row hrow
      simpa using hrow

end incidentdesk
