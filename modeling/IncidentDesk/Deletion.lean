import IncidentDesk.Effects.Deletion
import IncidentDesk.Retries
import IncidentDesk.Seed

namespace incidentdesk

open sql sql.Tx

variable {a : App} {now : Time} {skip : Key → Bool} {σ σ' : Store}

/-- An investigation whose content was deleted: a run that was claimed before can
no longer store a result, and no draft can be made from one. -/
structure Case.Cut (c : Case) : Prop where
  report : c.investigation.report = none
  manifest : c.investigation.manifest = none
  stale : c.job.state = .running ∨ c.investigation.status = .completed ∨ c.investigation.status = .partial_ →
    c.investigation.source_version < c.service.watermark
  body : ∀ row, c.action = some row → row.body = "[source content removed]"

section Step

variable {id : String} {txn : Transaction}

theorem CaseStep.service_eq {c c' : Case} (h : CaseStep a now skip σ σ' id txn (some c) (some c')) :
    c'.investigation.service = c.investigation.service := by
  cases h with
  | @sourceChanged _ _ remove => exact Investigation.sourceChanged_service remove _
  | _ => rfl

theorem Action.closeIf_body (p : ActionState → Bool) (row : Action) : (row.closeIf p).body = row.body := by
  unfold Action.closeIf
  split <;> rfl

/-- Until a claim, a deleted investigation stays so. -/
theorem CaseStep.cut {x : Option Case} {c' : Case} (h : CaseStep a now skip σ σ' id txn x (some c'))
    (hx : ∀ c, x = some c → c.Cut)
    (hclaim : ∀ c, x = some c → (∃ owner, txn = .request (.claim owner)) → c'.job.attempts = c.job.attempts) :
    c'.Cut := by
  cases h with
  | unchanged => exact hx _ rfl
  | created => exact ⟨rfl, rfl, by simp [newJob, newInvestigation], by rintro _ ⟨⟩⟩
  | @cancelled c =>
    have hc := hx _ rfl
    refine ⟨hc.report, hc.manifest, by simp, fun row hrow => ?_⟩
    obtain ⟨old, hold, rfl⟩ := Option.map_eq_some_iff.mp hrow
    rw [Action.closeIf_body, hc.body old hold]
  | @resumed c =>
    have hc := hx _ rfl
    refine ⟨hc.report, hc.manifest, by simp, fun row hrow => ?_⟩
    obtain ⟨old, hold, rfl⟩ := Option.map_eq_some_iff.mp hrow
    rw [Action.closeIf_body, hc.body old hold]
  | swept | revoked =>
    have hc := hx _ rfl
    exact ⟨hc.report, hc.manifest, by simp, hc.body⟩
  | claimed =>
    have hattempts := hclaim _ rfl ⟨_, rfl⟩
    simp at hattempts
  | noted | heartbeat =>
    have hc := hx _ rfl
    exact ⟨hc.report, hc.manifest, hc.stale, hc.body⟩
  | accepted hfence hfresh => exact absurd hfresh ((hx _ rfl).stale (.inl hfence.running)).ne
  | requeued =>
    have hc := hx _ rfl
    exact ⟨hc.report, hc.manifest, by simp, hc.body⟩
  | drafted hstatus hfresh => exact absurd hfresh ((hx _ rfl).stale (.inr hstatus)).ne
  | approved hrow | rejected hrow | reconcileRequested hrow | approvalInvalidated hrow | dispatched hrow
  | reconciling hrow | finished hrow =>
    have hc := hx _ rfl
    refine ⟨hc.report, hc.manifest, hc.stale, ?_⟩
    rintro _ ⟨⟩
    have hbody := hc.body _ hrow
    exact hbody
  | @sourceChanged c _ remove =>
    have hc := hx _ rfl
    have hstale (h : c.job.state = .running ∨ c.investigation.status = .completed ∨ c.investigation.status = .partial_) :
        c.investigation.source_version < c.service.watermark + 1 := Nat.lt_succ_of_lt (hc.stale h)
    cases remove with
    | true =>
      refine ⟨rfl, rfl, hstale, fun row hrow => ?_⟩
      obtain ⟨old, hold, rfl⟩ := Option.map_eq_some_iff.mp hrow
      rfl
    | false =>
      refine ⟨hc.report, hc.manifest, hstale, fun row hrow => ?_⟩
      obtain ⟨old, hold, rfl⟩ := Option.map_eq_some_iff.mp hrow
      exact (Action.closeIf_body _ old).trans (hc.body old hold)

/-- The text of an investigation's issue. -/
def issueText (σ : Store) (id : String) : Option Json :=
  ((σ.lookup (Key.actions id)).bind (·.result)).bind (Json.get? · "body")

theorem Json.get?_remove (key : String) (document : Json) : (document.remove key).get? key = none := by
  cases document with
  | obj fields =>
    simp only [Json.remove, Json.get?, Option.map_eq_none_iff, List.find?_eq_none, List.mem_filter]
    rintro field ⟨-, hfield⟩
    simpa using hfield
  | _ => rfl

theorem Action.sourceChanged_text (act : Option Action) :
    ((act.map (Action.sourceChanged true)).bind (·.result)).bind (Json.get? · "body") = none := by
  cases act with
  | none => rfl
  | some row =>
    have hresult : (row.sourceChanged true).result = row.result.map (Json.remove "body") := by
      simp only [Action.sourceChanged, Action.removeContent, Action.closeIf, if_true]
      split <;> rfl
    rw [Option.map_some, Option.bind_some, hresult]
    cases row.result with
    | none => rfl
    | some result => exact Json.get?_remove "body" result

/-- An issue's text comes from the end of an attempt. -/
theorem CaseStep.issueText {c c' : Case} (h : CaseStep a now skip σ σ' id txn (some c) (some c')) :
    (c'.action.bind (·.result)).bind (Json.get? · "body") = (c.action.bind (·.result)).bind (Json.get? · "body") ∨
      (c'.action.bind (·.result)).bind (Json.get? · "body") = none ∨
      ∃ r result row, txn = .finish r result ∧ c.action = some row ∧ row.id = r.ID := by
  have hclose (p : ActionState → Bool) (act : Option Action) :
      ((act.map (Action.closeIf p)).bind (·.result)) = act.bind (·.result) := by
    cases act with
    | none => rfl
    | some row =>
      simp only [Option.map_some, Option.bind_some, Action.closeIf]
      split <;> rfl
  cases h with
  | finished hrow hid => exact .inr (.inr ⟨_, _, _, rfl, hrow, hid⟩)
  | cancelled | resumed => exact .inl (by rw [hclose])
  | drafted _ _ _ hdrafted =>
    obtain ⟨hnone, rfl⟩ | ⟨old, hold, -, rfl⟩ := hdrafted
    · exact .inr (.inl rfl)
    · exact .inl (by rw [hold]; rfl)
  | approved hrow | rejected hrow | reconcileRequested hrow | approvalInvalidated hrow | dispatched hrow
  | reconciling hrow => exact .inl (by rw [hrow]; rfl)
  | @sourceChanged _ _ remove =>
    cases remove with
    | true => exact .inr (.inl (Action.sourceChanged_text _))
    | false => exact .inl (congrArg (Option.bind · (Json.get? · "body")) (hclose ActionState.undecided c.action))
  | _ => exact .inl rfl

end Step

/-- The rows after the operations `ops`. -/
abbrev World.since (a : App) (w : World) (ops : List Op) : Store := (machine.run (World.step a) w ops).store

section World

variable {w : World} {op : Op} {service : String}

theorem World.copied_step (w : World) (op : Op) : Copied w.store (World.step a w op).store.lookup := by
  rw [World.store_step]
  cases w.transaction op with
  | none => exact .start w.store
  | some txn =>
    rw [Option.map_some, Option.getD_some, commit]
    cases hrun : (txn.body a w.now).run op.locked w.store with
    | error => exact .start w.store
    | ok outcome => exact transaction_copied txn outcome.1 outcome.2 hrun

/-- An investigation stays, with its service. -/
theorem World.Sound.investigation_step (hw : w.Sound) (op : Op) {id : String} {i : Investigation}
    (hi : w.store.lookup (Key.investigations id) = some i) :
    ∃ i', (World.step a w op).store.lookup (Key.investigations id) = some i' ∧ i'.service = i.service := by
  obtain ⟨-, hstore | ⟨txn, -, heffect⟩⟩ := hw.step (a := a) op
  · exact ⟨i, by rw [hstore, hi], rfl⟩
  · obtain ⟨c, hc, rfl⟩ := hw.wf.caseOf_of_investigation hi
    have hcase := heffect.cases id
    rw [hc] at hcase
    obtain ⟨c', hc'⟩ := hcase.exists_after
    rw [hc'] at hcase
    exact ⟨c'.investigation, (caseOf_eq_some.mp hc').1, hcase.service_eq⟩

theorem World.Sound.ofService_step (hw : w.Sound) (op : Op) {id : String} {i : Investigation}
    (hi : w.store.lookup (Key.investigations id) = some i) :
    ofService (World.step a w op).store service id = ofService w.store service id := by
  obtain ⟨i', hi', hservice⟩ := hw.investigation_step (a := a) op hi
  simp [ofService, hi, hi', hservice]

theorem World.Sound.ofService_run (hw : w.Sound) (ops : List Op) {id : String} {i : Investigation}
    (hi : w.store.lookup (Key.investigations id) = some i) :
    ofService (w.since a ops) service id = ofService w.store service id := by
  let I (w' : World) : Prop := w'.Sound ∧ (∃ i', w'.store.lookup (Key.investigations id) = some i') ∧
    ofService w'.store service id = ofService w.store service id
  have hrun : I (machine.run (World.step a) w ops) := by
    refine machine.run_invariant ⟨hw, ⟨i, hi⟩, rfl⟩ (fun w' op ⟨hw', ⟨i', hi'⟩, hof⟩ => ?_) ops
    obtain ⟨i'', hi'', -⟩ := hw'.investigation_step (a := a) op hi'
    exact ⟨(hw'.step op).1, ⟨i'', hi''⟩, (hw'.ofService_step op hi').trans hof⟩
  exact hrun.2.2

end World

/-- A claim hands out a task of the service. -/
def Reclaims (a : App) (service : String) (w : World) (op : Op) : Prop :=
  ∃ id, w.handsOut a op = some id ∧ ofService w.store service id = true

/-- What was under way still writes: a run brings an event, or one of the first
`before` attempts records its outcome. -/
def Late (a : App) (service : String) (before : Nat) (w : World) (op : Op) : Prop :=
  (∃ id b skip, op = .request (.callback id "event" b) skip ∧ w.Commits a (.callback id "event" b) skip ∧
    ofService w.store service id = true) ∨
  ∃ n r result, op = .finish n ∧ n < before ∧ w.attempts[n]? = some ⟨r, .ready (.done result)⟩ ∧
    ofService w.store service r.Investigation = true

/-- The operation is neither a callback, but for those of which it `admits` what
they bring, nor the end of one of the first `before` attempts. -/
def Op.Fresh (admits : Callback → Prop) (before : Nat) : Op → Prop
  | .request (.callback _ _ b) _ => admits b
  | .finish n => before ≤ n
  | _ => True

/-- What is read at the end of the run was put there on its way, and not by what
was under way when it started. -/
def Renewed {β : Type} (a : App) (w : World) (ops : List Op) (admits : Callback → Prop) (read : Store → Option β) :
    Prop :=
  machine.Occurs (World.step a) (fun w' op => op.Fresh admits w.attempts.length ∧
    read w'.store ≠ read (w.since a ops) ∧ read (World.step a w' op).store = read (w.since a ops)) w ops

/-- Of what a service's investigations had when its content was deleted, in `w`,
nothing has come back after the operations `ops`. -/
structure Gone (a : App) (service : String) (w : World) (ops : List Op) : Prop where
  report : ∀ id i, (w.since a ops).lookup (Key.investigations id) = some i →
    i.service = service → i.report = none ∧ i.manifest = none
  body : ∀ id row, ofService (w.since a ops) service id = true →
    (w.since a ops).lookup (Key.actions id) = some row → row.body = "[source content removed]"
  issue : ∀ id, ofService (w.since a ops) service id = true →
    issueText (w.since a ops) id = none ∨
      Renewed a w ops (fun _ => False) (issueText · id)
  events : ∀ id n e, ofService (w.since a ops) service id = true →
    (w.since a ops).lookup (Key.events id n) = some e →
      Blank e.payload ∨ Renewed a w ops (·.Notice e.payload) fun σ => (σ.lookup (Key.events id n)).map (·.payload)
  memories : ∀ id m, (w.since a ops).lookup (Key.memories id) = some m → m.service = service →
    m.content = "" ∨ Renewed a w ops (fun _ => False) fun σ => (σ.lookup (Key.memories id)).map fun m => (m.service, m.content)
  badcases : ∀ id row, ofService (w.since a ops) service row.investigation = true →
    (w.since a ops).lookup (Key.badcases id) = some row → row.manifest = none

/-- Every badcase has its investigation. -/
theorem backed_after (hσ : Initial σ) (now : Time) (ops : List Op) {id : String} {row : Badcase}
    (hrow : (World.after a σ now ops).store.lookup (Key.badcases id) = some row) :
    ∃ i, (World.after a σ now ops).store.lookup (Key.investigations row.investigation) = some i := by
  refine machine.run_induction (P := fun _ (w : World) => ∀ id row,
    w.store.lookup (Key.badcases id) = some row → ∃ i, w.store.lookup (Key.investigations row.investigation) = some i)
    (fun id row hrow => ?_) (fun ops op ih id row hrow => ?_) ops id row hrow
  · have hrow : σ.lookup (Key.badcases id) = some row := hrow
    rw [hσ (Key.badcases id) rfl] at hrow
    cases hrow
  · have hw := World.sound_after (a := a) hσ now ops
    have hbefore : ∃ i, (World.after a σ now ops).store.lookup (Key.investigations row.investigation) = some i := by
      obtain ⟨old, hold, hsame, -⟩ | ⟨i, hi, -⟩ := World.copied_step (a := a) _ op id row hrow
      · rw [hsame]
        exact ih id old hold
      · exact ⟨i, hi⟩
    obtain ⟨i, hi⟩ := hbefore
    obtain ⟨i', hi', -⟩ := hw.investigation_step (a := a) op hi
    exact ⟨i', hi'⟩

/-- What holds of a service from the deletion of its content to a claim. -/
structure Deleted (service : String) (σ : Store) : Prop where
  cut : ∀ id c, caseOf σ id = some c → c.investigation.service = service → c.Cut
  badcases : ∀ id row, ofService σ service row.investigation = true → σ.lookup (Key.badcases id) = some row →
    row.manifest = none

theorem ofService_eq {service id : String} {c : Case} (hc : caseOf σ id = some c) :
    ofService σ service id = Decidable.decide (c.investigation.service = service) := by
  simp [ofService, (caseOf_eq_some.mp hc).1]

theorem Deleted.step {w : World} {op : Op} {service : String} (h : Deleted service w.store) (hw : w.Sound)
    (hbacked : ∀ id row, w.store.lookup (Key.badcases id) = some row →
      ∃ i, w.store.lookup (Key.investigations row.investigation) = some i)
    (hclaim : ¬ Reclaims a service w op) : Deleted service (World.step a w op).store where
  cut id c' hc' hservice := by
    obtain ⟨-, hstore | ⟨txn, htxn, heffect⟩⟩ := hw.step (a := a) op
    · rw [hstore] at hc'
      exact h.cut id c' hc' hservice
    · have hcase := heffect.cases id
      rw [hc'] at hcase
      refine hcase.cut (fun c hc => ?_) fun c hc howner => ?_
      · rw [hc] at hcase
        exact h.cut id c hc (hcase.service_eq.symm.trans hservice)
      · by_contra hattempts
        obtain ⟨owner, rfl⟩ := howner
        obtain ⟨skip, rfl⟩ := World.transaction_eq_request htxn
        rw [hc] at hcase
        refine hclaim ⟨id, hw.handsOut_of_attempts ?_, ?_⟩
        · rwa [attemptsOf_eq hc, attemptsOf_eq hc']
        · rw [ofService_eq hc, ← hcase.service_eq, hservice]
          exact decide_eq_true rfl
  badcases id row hof hrow := by
    obtain ⟨old, hold, hsame, hmanifest⟩ | ⟨i, hi, hmanifest⟩ := World.copied_step (a := a) w op id row hrow
    · obtain ⟨i, hi⟩ := hbacked id old hold
      rw [hsame, hw.ofService_step op hi] at hof
      obtain hmanifest | hmanifest := hmanifest
      · rw [hmanifest, h.badcases id old hof hold]
      · exact hmanifest
    · rw [hw.ofService_step op hi] at hof
      obtain ⟨c, hc, rfl⟩ := hw.wf.caseOf_of_investigation hi
      rw [ofService_eq hc, decide_eq_true_eq] at hof
      rwa [(h.cut _ c hc hof).manifest, or_self] at hmanifest

section Run

variable {w : World} {op : Op} {service : String}

/-- An event that a step has written is of an investigation that was there. -/
theorem World.Sound.callback_investigation (hw : w.Sound) (hnumbered : Numbered (World.step a w op).store.lookup)
    {id : String} {n : Nat} {e : Event} (hop : ∀ txn, w.transaction op = some txn → ∀ u b requestHash idem requestID,
      txn ≠ .request (.createTask u b requestHash idem id requestID))
    (he : (World.step a w op).store.lookup (Key.events id n) = some e) :
    ∃ i, w.store.lookup (Key.investigations id) = some i := by
  have hn := (hnumbered id n).mp (Option.isSome_iff_exists.mpr ⟨e, he⟩)
  cases hi : w.store.lookup (Key.investigations id) with
  | some i => exact ⟨i, rfl⟩
  | none =>
    have hnone : (World.step a w op).store.lookup (Key.investigations id) = none := by
      obtain ⟨-, hstore | ⟨txn, htxn, heffect⟩⟩ := hw.step (a := a) op
      · rw [hstore, hi]
      · have hcase := heffect.cases id
        rw [caseOf_eq_none hi] at hcase
        rw [← heffect.wf.caseOf_eq_none_iff]
        cases hc' : caseOf (World.step a w op).store id with
        | none => rfl
        | some c' =>
          rw [hc'] at hcase
          cases hcase with
          | created => exact absurd rfl (hop _ htxn _ _ _ _ _)
    simp [lastSeq, hnone] at hn
    omega

theorem commit_noted {notes : String → Json → Prop} {body : Tx Unit}
    (h : Ensures skip body σ fun _ σ' => Noted σ notes σ'.lookup) : Noted σ notes (commit skip body σ).lookup := by
  unfold commit
  cases hrun : body.run skip σ with
  | error => exact .start σ
  | ok outcome => exact h outcome.1 outcome.2 hrun

theorem World.callback_noted (w : World) (id name : String) (b : Callback) (skip : Key → Bool) :
    Noted w.store (fun id' payload => id' = id ∧ b.Notes name payload)
      (World.step a w (.request (.callback id name b) skip)).store.lookup :=
  commit_noted ((ensures_discard skip).mpr (incidentdesk.callback_noted id name b))

theorem World.transaction_finish {n : Nat} {txn : Transaction} (h : w.transaction (.finish n) = some txn) :
    ∃ r result, txn = .finish r result ∧ w.attempts[n]? = some ⟨r, .ready (.done result)⟩ := by
  simp only [World.transaction] at h
  split at h
  · rename_i r result ht
    cases h
    exact ⟨r, result, rfl, ht⟩
  · cases h

theorem World.finish_noted {n : Nat} {r : actionRun} {result : Except String Json}
    (h : w.transaction (.finish n) = some (.finish r result)) :
    Noted w.store (fun id _ => id = r.Investigation) (World.step a w (.finish n)).store.lookup := by
  rw [World.store_step, h]
  exact commit_noted (actionFinish_noted r result)

/-- An event that a step brings to the service was not brought by what was under
way. -/
theorem World.Sound.fresh_event (hw : w.Sound) (hnumbered : Numbered (World.step a w op).store.lookup) {before : Nat}
    (hlate : ¬ Late a service before w op) {id : String} {n : Nat} {e : Event}
    (hof : ofService (World.step a w op).store service id = true)
    (hnew : (w.store.lookup (Key.events id n)).map (·.payload) ≠ some e.payload)
    (he : ((World.step a w op).store.lookup (Key.events id n)).map (·.payload) = some e.payload) :
    op.Fresh (·.Notice e.payload) before := by
  obtain ⟨e', he', hpayload⟩ := Option.map_eq_some_iff.mp he
  have hchanged {P : Prop} (hold : w.store.lookup (Key.events id n) = some e') : P := by
    rw [hold, Option.map_some, hpayload] at hnew
    exact absurd rfl hnew
  cases op with
  | request r skip =>
    cases r with
    | callback id' name b =>
      obtain ⟨i, hi⟩ := hw.callback_investigation hnumbered (by rintro _ ⟨⟩ _ _ _ _ _ ⟨⟩) he'
      rw [hw.ofService_step _ hi] at hof
      obtain hold | ⟨rfl, hevent | hnotice⟩ := (World.callback_noted w id' name b skip).events id n e' he'
      · exact hchanged hold
      · by_cases hcommits : w.Commits a (.callback id name b) skip
        · exact absurd (.inl ⟨id, b, skip, hevent ▸ rfl, hevent ▸ hcommits, hof⟩) hlate
        · rw [World.store_of_not_commits hcommits] at he'
          exact hchanged he'
      · exact hpayload ▸ hnotice
    | _ => trivial
  | finish m =>
    cases htxn : w.transaction (.finish m) with
    | none =>
      rw [World.store_step, htxn] at he'
      exact hchanged he'
    | some txn =>
      obtain ⟨r, result, rfl, ht⟩ := World.transaction_finish htxn
      obtain ⟨i, hi⟩ := hw.callback_investigation hnumbered
        (fun txn' htxn' => by cases htxn.symm.trans htxn'; rintro _ _ _ _ _ ⟨⟩) he'
      rw [hw.ofService_step _ hi] at hof
      obtain hold | rfl := (World.finish_noted htxn).events id n e' he'
      · exact hchanged hold
      · by_contra hbefore
        exact hlate (.inr ⟨m, r, result, rfl, Nat.lt_of_not_le hbefore, ht, hof⟩)
  | _ => trivial

theorem World.fresh_memory {β : Type} (w : World) {before : Nat} {id : String} (read : Option Memory → β) {m : β}
    (hnew : read (w.store.lookup (Key.memories id)) ≠ m)
    (hm : read ((World.step a w op).store.lookup (Key.memories id)) = m) :
    op.Fresh (fun _ => False) before := by
  cases op with
  | request r skip =>
    cases r with
    | callback id' name b =>
      rw [(World.callback_noted w id' name b skip).memories id] at hm
      exact absurd hm hnew
    | _ => trivial
  | finish m =>
    cases htxn : w.transaction (.finish m) with
    | none =>
      rw [World.store_step, htxn] at hm
      exact absurd hm hnew
    | some txn =>
      obtain ⟨r, result, rfl, -⟩ := World.transaction_finish htxn
      rw [(World.finish_noted htxn).memories id] at hm
      exact absurd hm hnew
  | _ => trivial

theorem issueText_eq {id : String} (hwf : Wf σ) :
    issueText σ id = (((caseOf σ id).bind (·.action)).bind (·.result)).bind (Json.get? · "body") := by
  rw [issueText, hwf.lookup_actions]

/-- So is an issue's text. -/
theorem World.Sound.fresh_issue (hw : w.Sound) {before : Nat} (hlate : ¬ Late a service before w op) {id : String}
    (hof : ofService (World.step a w op).store service id = true)
    (hnew : issueText w.store id ≠ issueText (World.step a w op).store id)
    (htext : issueText (World.step a w op).store id ≠ none) : op.Fresh (fun _ => False) before := by
  obtain ⟨hw', hstore | ⟨txn, htxn, heffect⟩⟩ := hw.step (a := a) op
  · rw [hstore] at hnew
    exact absurd rfl hnew
  rw [issueText_eq hw.wf, issueText_eq hw'.wf] at hnew
  rw [issueText_eq hw'.wf] at htext
  have hcase := heffect.cases id
  cases hc : caseOf w.store id with
  | none =>
    rw [hc] at hcase hnew
    generalize caseOf (World.step a w op).store id = x at hcase htext hnew
    cases hcase with
    | unchanged => exact absurd rfl hnew
    | created => exact absurd rfl htext
  | some c =>
    rw [hc] at hcase hnew
    obtain ⟨c', hc'⟩ := hcase.exists_after
    rw [hc'] at hcase hnew htext
    obtain hsame | hnone | ⟨r, result, row, rfl, hrow, hid⟩ := hcase.issueText
    · exact absurd hsame.symm hnew
    · exact absurd hnone htext
    · obtain ⟨n, rfl, ht⟩ := World.transaction_eq_finish htxn
      by_contra hbefore
      obtain ⟨row', hrow', hid', -⟩ := hw.grounded _ (List.mem_of_getElem? ht)
      have hinvestigation : r.Investigation = id := by
        have haction := (hw.wf.action _ row' hrow').2
        have haction' := (hw.wf.action id row ((caseOf_eq_some.mp hc).2.2.2.trans hrow)).2
        rw [hid'] at haction
        rw [hid] at haction'
        exact Option.some.inj (haction.symm.trans haction')
      rw [hw.ofService_step _ (caseOf_eq_some.mp hc).1] at hof
      exact hlate (.inr ⟨n, r, result, rfl, Nat.lt_of_not_le hbefore, ht, hinvestigation ▸ hof⟩)

end Run

/-- Right after the deletion nothing is left. -/
theorem deleted_invalidateSource (hσ : Initial σ) (now : Time) (ops : List Op) {service : String}
    (hcommits : (World.after a σ now ops).Commits a (.invalidateSource service true) skip) :
    let σ' := (World.step a (World.after a σ now ops) (.request (.invalidateSource service true) skip)).store
    Deleted service σ' ∧ Blanked service σ' ∧ ∀ id, ofService σ' service id = true → issueText σ' id = none := by
  have hw := World.sound_after (a := a) hσ now ops
  have hw' := (hw.step (a := a) (.request (.invalidateSource service true) skip)).1
  obtain ⟨σ', hrun⟩ := hcommits
  have hstore : (World.step a (World.after a σ now ops) (.request (.invalidateSource service true) skip)).store = σ' :=
    World.store_of_run hrun
  rw [hstore]
  have hblanked : Blanked service σ' := invalidateSource_blanked service () σ' hrun
  have hrewrites := invalidateSource_rewrites service true () σ' hrun
  have hcases (id : String) (c' : Case) (hc' : caseOf σ' id = some c') (hservice : c'.investigation.service = service) :
      ∃ c, caseOf (World.after a σ now ops).store id = some c ∧ c' = { c with
        investigation := c.investigation.sourceChanged true
        service := { c.service with watermark := c.service.watermark + 1 }
        action := c.action.map (Action.sourceChanged true) } := by
    rw [hrewrites.caseOf_eq (Investigation.sourceChanged_service true), Option.map_eq_some_iff] at hc'
    obtain ⟨c, hc, rfl⟩ := hc'
    by_cases hof : c.investigation.service = service
    · exact ⟨c, hc, by rw [if_pos hof]⟩
    · rw [if_neg hof] at hservice
      exact absurd hservice hof
  refine ⟨⟨fun id c' hc' hservice => ?_, fun id row => hblanked.badcases id row⟩, hblanked, fun id hof => ?_⟩
  · obtain ⟨c, hc, rfl⟩ := hcases id c' hc' hservice
    refine ⟨rfl, rfl, fun _ => Nat.lt_succ_of_le (source_le_after a hσ now ops hc), fun row hrow => ?_⟩
    obtain ⟨old, -, rfl⟩ := Option.map_eq_some_iff.mp hrow
    rfl
  · rw [issueText_eq (hstore ▸ hw'.wf)]
    cases hc' : caseOf σ' id with
    | none => rfl
    | some c' =>
      rw [ofService_eq hc', decide_eq_true_eq] at hof
      obtain ⟨c, -, rfl⟩ := hcases id c' hc' hof
      exact Action.sourceChanged_text c.action

/-- What is read at the end was there at the start, or it is renewed if every step
that reads it anew is fresh. -/
theorem eq_or_renewed {β : Type} {w : World} {ops : List Op} {ok : World → Op → Prop} {admits : Callback → Prop}
    (read : Store → Option β) (hok : machine.Always (World.step a) ok w ops)
    (hfresh : ∀ pre op post, ops = pre ++ op :: post → ok (machine.run (World.step a) w pre) op →
      read (w.since a pre) ≠ read (w.since a ops) →
      read (World.step a (machine.run (World.step a) w pre) op).store = read (w.since a ops) →
        op.Fresh admits w.attempts.length) :
    read (w.since a ops) = read w.store ∨ Renewed a w ops admits read := by
  obtain hsame | ⟨pre, op, post, rfl, hop, hnew, hset⟩ := machine.eq_or_occurs (fun w' => read w'.store) hok
  · exact .inl hsame
  · exact .inr ⟨pre, op, post, rfl, hfresh pre op post rfl hop hnew hset, hnew, hset⟩

/-- Once a service's content has been deleted, none of it comes back until one of
its investigations is claimed again, as long as no run that was under way brings
an event and no attempt that was under way records its outcome. -/
theorem deleted_content_gone (a : App) (hσ : Initial σ) (now : Time) (ops ops' : List Op) (service : String)
    (skip : Key → Bool) (hcommits : (World.after a σ now ops).Commits a (.invalidateSource service true) skip) :
    let w := World.step a (World.after a σ now ops) (.request (.invalidateSource service true) skip)
    machine.Always (World.step a) (fun w' op => ¬ Reclaims a service w' op ∧ ¬ Late a service w.attempts.length w' op)
        w ops' →
      Gone a service w ops' := by
  intro w hok
  obtain ⟨hdeleted, hblanked, hissue⟩ := deleted_invalidateSource hσ now ops hcommits
  have hafter (ops'' : List Op) : machine.run (World.step a) w ops'' =
      World.after a σ now (ops ++ .request (.invalidateSource service true) skip :: ops'') := by
    rw [World.after, machine.run_append, machine.run_cons]
  have hw (ops'' : List Op) : (machine.run (World.step a) w ops'').Sound := hafter ops'' ▸ World.sound_after hσ now _
  have hnumbered (ops'' : List Op) : Numbered (w.since a ops'').lookup := by
    rw [World.since, hafter]
    exact numbered_after hσ now _
  have hkept : Deleted service (w.since a ops') := by
    refine machine.run_induction_along (P := fun _ w' => Deleted service w'.store) hdeleted
      (fun ops'' op h hop => h.step (hw ops'') (fun id row hrow => ?_) hop.1) ops' hok
    rw [hafter] at hrow ⊢
    exact backed_after hσ now _ hrow
  have hevent (ops'' : List Op) (id : String) (n : Nat) (e : Event)
      (he : (w.since a ops'').lookup (Key.events id n) = some e) :
      ∃ i, (w.since a ops'').lookup (Key.investigations id) = some i := by
    have hn := (hnumbered ops'' id n).mp (Option.isSome_iff_exists.mpr ⟨e, he⟩)
    rw [← Option.isSome_iff_exists]
    by_contra hnone
    rw [Option.not_isSome_iff_eq_none] at hnone
    simp [lastSeq, hnone] at hn
    omega
  have htexts (ops'' : List Op) (id : String) (htext : issueText (w.since a ops'') id ≠ none) :
      ∃ i, (w.since a ops'').lookup (Key.investigations id) = some i := by
    cases hrow : (w.since a ops'').lookup (Key.actions id) with
    | none =>
      rw [issueText, hrow] at htext
      exact absurd rfl htext
    | some row => exact Option.isSome_iff_exists.mp ((hw ops'').wf.action id row hrow).1
  have hlast (pre : List Op) (op : Op) :
      w.since a (pre ++ [op]) = (World.step a (machine.run (World.step a) w pre) op).store := by
    rw [World.since, machine.run_concat]
  -- the service of an investigation is that at the end
  have hservice {pre post : List Op} {op : Op} (hops : ops' = pre ++ op :: post) {id : String} {i : Investigation}
      (hi : (w.since a (pre ++ [op])).lookup (Key.investigations id) = some i) :
      ofService (w.since a (pre ++ [op])) service id = ofService (w.since a ops') service id := by
    have hrun : w.since a ops' = (machine.run (World.step a) w (pre ++ [op])).since a post := by
      rw [World.since, World.since, hops, ← machine.run_append, List.append_assoc, List.singleton_append]
    rw [hrun]
    exact ((hw (pre ++ [op])).ofService_run post hi).symm
  refine ⟨fun id i hi hservice => ?_, fun id row hof hrow => ?_, fun id hof => ?_, fun id n e hof he => ?_,
    fun id m hm hmemory => ?_, fun id row hof hrow => hkept.badcases id row hof hrow⟩
  · obtain ⟨c, hc, rfl⟩ := (hw ops').wf.caseOf_of_investigation hi
    have hcut := hkept.cut id c hc hservice
    exact ⟨hcut.report, hcut.manifest⟩
  · obtain ⟨c, hc, hact⟩ := (hw ops').wf.caseOf_of_action hrow
    rw [ofService_eq hc, decide_eq_true_eq] at hof
    exact (hkept.cut id c hc hof).body row hact
  · by_cases htext : issueText (w.since a ops') id = none
    · exact .inl htext
    refine (eq_or_renewed (issueText · id) hok fun pre op post hops hop hnew hset => ?_).imp_left fun hsame => ?_
    · rw [← hset] at hnew htext
      obtain ⟨i, hi⟩ := htexts (pre ++ [op]) id (by rwa [hlast])
      rw [← hservice hops hi, hlast] at hof
      exact (hw pre).fresh_issue hop.2 hof hnew htext
    · obtain ⟨i, hi⟩ := htexts [] id (hsame ▸ htext)
      have hof' : ofService (w.since a ops') service id = ofService w.store service id := (hw []).ofService_run ops' hi
      exact absurd (hsame.trans (hissue id (hof'.symm.trans hof))) htext
  · have hend : ((w.since a ops').lookup (Key.events id n)).map (·.payload) = some e.payload := by
      rw [he, Option.map_some]
    refine (eq_or_renewed (fun σ => (σ.lookup (Key.events id n)).map (·.payload)) hok
      fun pre op post hops hop hnew hset => ?_).imp_left fun hsame => ?_
    · rw [hend] at hnew hset
      obtain ⟨e', he', -⟩ := Option.map_eq_some_iff.mp hset
      obtain ⟨i, hi⟩ := hevent (pre ++ [op]) id n e' (by rwa [hlast])
      have hnumbered' := hnumbered (pre ++ [op])
      rw [hlast] at hnumbered'
      rw [← hservice hops hi, hlast] at hof
      exact (hw pre).fresh_event hnumbered' hop.2 hof hnew hset
    · rw [hend, eq_comm, Option.map_eq_some_iff] at hsame
      obtain ⟨e₀, he₀, hpayload⟩ := hsame
      obtain ⟨i, hi⟩ := hevent [] id n e₀ he₀
      have hof' : ofService (w.since a ops') service id = ofService w.store service id := (hw []).ofService_run ops' hi
      exact hpayload ▸ hblanked.events id n e₀ (hof'.symm.trans hof) he₀
  · have hend : ((w.since a ops').lookup (Key.memories id)).map (fun m => (m.service, m.content)) =
        some (m.service, m.content) := by
      rw [hm, Option.map_some]
    refine (eq_or_renewed (fun σ => (σ.lookup (Key.memories id)).map fun m => (m.service, m.content)) hok
      fun pre op post hops hop hnew hset => ?_).imp_left fun hsame => ?_
    · rw [hend] at hnew hset
      exact World.fresh_memory _ (Option.map fun m => (m.service, m.content)) hnew hset
    · rw [hend, eq_comm, Option.map_eq_some_iff] at hsame
      obtain ⟨m₀, hm₀, heq⟩ := hsame
      obtain ⟨hsame, hcontent⟩ := Prod.mk.inj heq
      exact hcontent ▸ hblanked.memories id m₀ hm₀ (hsame.trans hmemory)

/-- The content of the orders service is deleted. -/
def deleting : Op := .request (.invalidateSource "svc-17" true) unlocked

/-- A worker reports what it has found so far. -/
def observing : Op :=
  let payload := .obj [("text", .str "订单明细")]
  .request
    (.callback "i1" "event"
      { Owner := "w1", Generation := 1, Kind := "observation", Payload := some { value := payload, size := 23 } })
    unlocked

theorem deleted_content_gone_completing :
    Gone deployed "svc-17" (World.after deployed seed 0 (completing.take 2 ++ [deleting]))
      [.request (.callback "i1" "result" (result 1)) unlocked] := by
  have hcommits : (World.after deployed seed 0 (completing.take 2)).Commits deployed (.invalidateSource "svc-17" true)
      unlocked := ⟨_, rfl⟩
  have hgone := deleted_content_gone deployed seed_initial 0 (completing.take 2)
    [.request (.callback "i1" "result" (result 1)) unlocked] "svc-17" unlocked hcommits
  refine hgone (machine.always_cons.mpr ⟨⟨?_, ?_⟩, machine.always_nil⟩)
  · rintro ⟨_, ⟨⟩, -⟩
  · rintro (⟨_, _, _, hop, -⟩ | ⟨_, _, _, ⟨⟩, -⟩)
    simp at hop

theorem Blank.text {payload : Json} (h : Blank payload) : payload.get? "text" = none := by
  cases h <;> rfl

theorem Callback.Notice.text {b : Callback} {payload : Json} (h : b.Notice payload) : payload.get? "text" = none := by
  cases h <;> rfl

theorem renewed_singleton {β : Type} {w : World} {op : Op} {admits : Callback → Prop} {read : Store → Option β}
    (h : Renewed a w [op] admits read) : op.Fresh admits w.attempts.length :=
  ((machine.occurs_cons.mp h).resolve_right machine.occurs_nil).1

/-- A run that is under way brings its next event, and an attempt that is under
way the text of its issue, after the deletion. -/
theorem deleted_content_back :
    (¬ ∀ ops ops', machine.Always (World.step deployed) (fun w op => ¬ Reclaims deployed "svc-17" w op)
        (World.after deployed seed 0 (ops ++ [deleting])) ops' →
      Gone deployed "svc-17" (World.after deployed seed 0 (ops ++ [deleting])) ops') ∧
      ¬ Gone deployed "svc-17" (World.after deployed seed 0 (posting ++ [deleting])) [.finish 0] := by
  constructor
  · intro h
    have hgone := h (completing.take 2) [observing]
      (machine.always_cons.mpr ⟨by rintro ⟨_, ⟨⟩, -⟩, machine.always_nil⟩)
    have he : ((World.after deployed seed 0 (completing.take 2 ++ [deleting])).since deployed [observing]).lookup
        (Key.events "i1" 4) = some { kind := "observation", payload := .obj [("text", .str "订单明细")] } := by rfl
    obtain hblank | hrenewed := hgone.events "i1" 4 _ (by decide) he
    · have hnone : Json.get? (.obj [("text", .str "订单明细")]) "text" = none := hblank.text
      exact absurd hnone (by decide)
    · have hnotice : Callback.Notice _ (.obj [("text", .str "订单明细")]) := renewed_singleton hrenewed
      exact absurd hnotice.text (by decide)
  · intro hgone
    obtain hnone | hrenewed := hgone.issue "i1" (by decide)
    · exact absurd hnone (by decide)
    · have hfresh : (World.after deployed seed 0 (posting ++ [deleting])).attempts.length ≤ 0 := renewed_singleton hrenewed
      exact absurd hfresh (by decide)

end incidentdesk
