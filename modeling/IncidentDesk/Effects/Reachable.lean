import IncidentDesk.Effects.Queue
import IncidentDesk.Effects.Actions
import IncidentDesk.Effects.Sources

namespace incidentdesk

open sql sql.Tx

variable {a : App} {now : Time} {skip : Key → Bool} {σ : Store} {w : World}

theorem request_effect (hwf : Wf σ) (r : Request) :
    Ensures skip (r.body a now) σ fun _ σ' => Effect a now skip σ (.request r) σ' := by
  cases r with
  | createTask u b requestHash idem id requestID =>
    exact (ensures_discard skip).mpr (createTask_effect hwf u b requestHash idem id requestID)
  | cancel id => exact cancel_effect hwf id
  | resume id information => exact resume_effect hwf id information
  | claim owner => exact (ensures_discard skip).mpr (claim_effect hwf owner)
  | callback id op b => exact (ensures_discard skip).mpr (callback_effect hwf id op b)
  | draft u id b aid => exact draft_effect hwf u id b aid
  | decide u id Version decision approval => exact decide_effect hwf u id Version decision approval
  | invalidateSource service remove => exact invalidateSource_effect hwf service remove
  | configureService service repo enabled => exact configureService_effect hwf service repo enabled
  | setMember subject team role => exact setMember_effect hwf subject team role
  | memory id content newID => exact memory_effect hwf id content newID
  | reviewMemory u id decision => exact reviewMemory_effect hwf u id decision
  | badcase u id category label newID => exact badcase_effect hwf u id category label newID
  | reviewBadcase u id label => exact reviewBadcase_effect hwf u id label

/-- What no transaction takes from an action: its identity, its marker, the
versions it has had, and that it has been dispatched. -/
structure Action.Kept (row row' : Action) : Prop where
  id : row'.id = row.id
  marker : row'.marker = row.marker
  version : row.version ≤ row'.version
  dispatched : row.state.dispatched = true → row'.state.dispatched = true

theorem Action.Kept.refl (row : Action) : row.Kept row := ⟨rfl, rfl, le_rfl, fun h => h⟩

theorem Action.Kept.trans {row row' row'' : Action} (h : row.Kept row') (h' : row'.Kept row'') :
    row.Kept row'' :=
  ⟨h'.id.trans h.id, h'.marker.trans h.marker, h.version.trans h'.version, fun hd => h'.dispatched (h.dispatched hd)⟩

/-- An action that is dispatched is not one that is still to be decided. -/
theorem ActionState.not_undecided_of_dispatched {state : ActionState}
    (h : state.dispatched = true) : state.undecided = false := by
  cases state <;> simp_all [ActionState.dispatched, ActionState.undecided]

theorem actionOutcome_dispatched (r : actionRun) (result : Except String Json) :
    (actionOutcome r result).1.dispatched = true := by
  cases result <;> rfl

theorem Action.kept_closeIf {p : ActionState → Bool} (hp : ∀ state, p state = true → state.dispatched = false)
    (row : Action) : row.Kept (row.closeIf p) := by
  unfold Action.closeIf
  by_cases hstate : p row.state
  · rw [if_pos hstate]
    exact ⟨rfl, rfl, le_rfl, fun hd => by rw [hp _ hstate] at hd; cases hd⟩
  · rw [if_neg hstate]
    exact .refl row

theorem ActionState.not_dispatched_of_undecided (state : ActionState) (h : state.undecided = true) :
    state.dispatched = false := by
  cases state <;> simp_all [ActionState.dispatched, ActionState.undecided]

theorem Action.kept_sourceChanged (remove : Bool) (row : Action) : row.Kept (row.sourceChanged remove) := by
  have hkept := row.kept_closeIf ActionState.not_dispatched_of_undecided
  cases remove with
  | true => exact ⟨hkept.id, hkept.marker, hkept.version, hkept.dispatched⟩
  | false => exact hkept

theorem CaseStep.action_kept {σ' : Store} {id : String} {txn : Transaction} {c : Case}
    {x' : Option Case} (h : CaseStep a now skip σ σ' id txn (some c) x') {row : Action}
    (hrow : c.action = some row) : ∃ c' row', x' = some c' ∧ c'.action = some row' ∧ row.Kept row' := by
  cases h with
  | unchanged => exact ⟨c, row, rfl, hrow, .refl row⟩
  | cancelled =>
    exact ⟨_, _, rfl, by rw [hrow, Option.map_some],
      row.kept_closeIf ActionState.not_dispatched_of_undecided⟩
  | resumed =>
    exact ⟨_, _, rfl, by rw [hrow, Option.map_some], row.kept_closeIf fun _ hd => by simpa using hd⟩
  | drafted _ _ _ hdrafted =>
    obtain ⟨hnone, -⟩ | ⟨old, hold, hstate, rfl⟩ := hdrafted
    · rw [hnone] at hrow
      cases hrow
    · obtain rfl : old = row := Option.some.inj (hold.symm.trans hrow)
      have hversion : old.version ≤ old.version + 1 := by omega
      exact ⟨_, _, rfl, rfl, rfl, rfl, hversion, fun hd => by rw [hstate] at hd; cases hd⟩
  | sourceChanged => exact ⟨_, _, rfl, by rw [hrow, Option.map_some], row.kept_sourceChanged _⟩
  | approved hrow' hstate | rejected hrow' hstate =>
    obtain rfl := Option.some.inj (hrow'.symm.trans hrow)
    refine ⟨_, _, rfl, rfl, rfl, rfl, le_rfl, fun hd => ?_⟩
    rcases hstate with hstate | hstate <;> rw [hstate] at hd <;> cases hd
  | approvalInvalidated hrow' hstate =>
    obtain rfl := Option.some.inj (hrow'.symm.trans hrow)
    exact ⟨_, _, rfl, rfl, rfl, rfl, le_rfl, fun hd => by rw [hstate] at hd; cases hd⟩
  | reconcileRequested hrow' =>
    obtain rfl := Option.some.inj (hrow'.symm.trans hrow)
    exact ⟨_, _, rfl, rfl, rfl, rfl, le_rfl, fun hd => hd⟩
  | dispatched hrow' | reconciling hrow' =>
    obtain rfl := Option.some.inj (hrow'.symm.trans hrow)
    exact ⟨_, _, rfl, rfl, rfl, rfl, le_rfl, fun _ => rfl⟩
  | finished hrow' =>
    obtain rfl := Option.some.inj (hrow'.symm.trans hrow)
    exact ⟨_, _, rfl, rfl, rfl, rfl, le_rfl, fun _ => actionOutcome_dispatched _ _⟩
  | _ => exact ⟨_, row, rfl, hrow, .refl row⟩

/-- An action that is there stays there. -/
theorem Effect.action_kept {txn : Transaction} {σ' : Store} (h : Effect a now skip σ txn σ')
    (hwf : Wf σ) {id : String} {row : Action} (hrow : σ.lookup (Key.actions id) = some row) :
    ∃ row', σ'.lookup (Key.actions id) = some row' ∧ row.Kept row' := by
  obtain ⟨c, hc, hact⟩ := hwf.caseOf_of_action hrow
  have hstep := h.cases id
  rw [hc] at hstep
  obtain ⟨c', row', hc', hact', hkept⟩ := hstep.action_kept hact
  exact ⟨row', (caseOf_eq_some.mp hc').2.2.2.trans hact', hkept⟩

/-- The transaction that an operation runs. -/
def World.transaction (w : World) : Op → Option Transaction
  | .request r _ => some (.request r)
  | .begin _ => some .begin
  | .finish n =>
    match w.attempts[n]? with
    | some ⟨r, .ready (.done result)⟩ => some (.finish r result)
    | _ => none
  | _ => none

theorem World.transaction_eq_begin {op : Op} (h : w.transaction op = some .begin) :
    ∃ skip, op = .begin skip := by
  cases op with
  | begin skip => exact ⟨skip, rfl⟩
  | request | send | reply | tick | crash => cases h
  | finish n =>
    simp only [World.transaction] at h
    split at h <;> cases h

theorem World.transaction_eq_request {op : Op} {r : Request} (h : w.transaction op = some (.request r)) :
    ∃ skip, op = .request r skip := by
  cases op with
  | request _ skip =>
    cases h
    exact ⟨skip, rfl⟩
  | begin | send | reply | tick | crash => cases h
  | finish n =>
    simp only [World.transaction] at h
    split at h <;> cases h

theorem World.transaction_eq_finish {op : Op} {r : actionRun} {result : Except String Json}
    (h : w.transaction op = some (.finish r result)) :
    ∃ n, op = .finish n ∧ w.attempts[n]? = some ⟨r, .ready (.done result)⟩ := by
  cases op with
  | finish n =>
    simp only [World.transaction] at h
    split at h
    · rename_i ht
      cases h
      exact ⟨n, rfl, ht⟩
    · cases h
  | request | begin | send | reply | tick | crash => cases h

/-- The rows that are locked by others while an operation runs. -/
def Op.locked : Op → Key → Bool
  | .request _ skip => skip
  | .begin skip => skip
  | _ => fun _ => false

/-- An attempt is about an action that has been dispatched. -/
def Attempt.Grounded (σ : Store) (t : Attempt) : Prop :=
  ∃ row, σ.lookup (Key.actions t.run.Investigation) = some row ∧ row.id = t.run.ID ∧
    row.marker = t.run.Marker ∧ row.state.dispatched = true

structure World.Sound (w : World) : Prop where
  wf : Wf w.store
  grounded : ∀ t ∈ w.attempts, t.Grounded w.store

theorem Attempt.Grounded.effect {t : Attempt} {txn : Transaction} {σ' : Store}
    (ht : t.Grounded σ) (hwf : Wf σ) (h : Effect a now skip σ txn σ') : t.Grounded σ' := by
  obtain ⟨row, hrow, hid, hmarker, hdispatched⟩ := ht
  obtain ⟨row', hrow', hkept⟩ := h.action_kept hwf hrow
  exact ⟨row', hrow', hkept.id.trans hid, hkept.marker.trans hmarker, hkept.dispatched hdispatched⟩

/-- The phase an attempt is in does not matter to what it is about. -/
theorem Attempt.Grounded.of_run_eq {t t' : Attempt} (ht : t.Grounded σ) (hrun : t'.run = t.run) :
    t'.Grounded σ := by
  unfold Grounded
  rw [hrun]
  exact ht

theorem commit_effect {txn : Transaction} {α : Type} {body : Tx α} (hwf : Wf σ)
    (h : Ensures skip body σ fun _ σ' => Effect a now skip σ txn σ') :
    Effect a now skip σ txn (commit skip body σ) := by
  unfold commit
  cases hrun : body.run skip σ with
  | error => exact .refl hwf
  | ok outcome => exact h outcome.1 outcome.2 hrun

theorem World.mem_setPhase {n : Nat} {phase : Phase} {t : Attempt}
    (ht : t ∈ (w.setPhase n phase).attempts) : ∃ t₀ ∈ w.attempts, t.run = t₀.run := by
  simp only [World.setPhase, List.mem_iff_getElem?, List.getElem?_modify] at ht
  obtain ⟨m, hm⟩ := ht
  obtain ⟨t₀, ht₀, rfl⟩ := Option.map_eq_some_iff.mp hm
  refine ⟨t₀, List.mem_of_getElem? ht₀, ?_⟩
  split <;> rfl

theorem World.Sound.setPhase (hw : w.Sound) (n : Nat) (phase : Phase) :
    (w.setPhase n phase).Sound where
  wf := hw.wf
  grounded t ht := by
    obtain ⟨t₀, ht₀, hrun⟩ := World.mem_setPhase ht
    exact (hw.grounded t₀ ht₀).of_run_eq hrun

theorem World.Sound.effect (hw : w.Sound) {txn : Transaction} {σ' : Store}
    (h : Effect a now skip w.store txn σ') : World.Sound { w with store := σ' } where
  wf := h.wf
  grounded t ht := (hw.grounded t ht).effect hw.wf h

theorem Begun.grounded {σ' : Store} {r : actionRun} {phase : Phase} (hwf : Wf σ)
    (h : Effect a now skip σ .begin σ') (hbegun : Begun σ σ' (some r)) :
    Attempt.Grounded σ' ⟨r, phase⟩ := by
  obtain ⟨row, row', hrow, hrow', hdispatched, -, hr⟩ := hbegun.taken r rfl
  obtain ⟨row'', hrow'', hkept⟩ := h.action_kept hwf hrow
  obtain rfl := Option.some.inj (hrow'.symm.trans hrow'')
  exact ⟨row', hrow', by rw [hkept.id, hr], by rw [hkept.marker, hr], hdispatched⟩

/-- What an operation does to the store: nothing, or what its transaction does. -/
def World.Stepped (a : App) (w : World) (op : Op) (w' : World) : Prop :=
  w'.Sound ∧ (w'.store = w.store ∨
    ∃ txn, w.transaction op = some txn ∧ Effect a w.now op.locked w.store txn w'.store)

theorem World.Sound.begin_stepped (hw : w.Sound) (skip : Key → Bool) :
    World.Stepped a w (.begin skip) (w.begin skip) := by
  unfold World.begin
  have heffect : Ensures skip (actionBegin w.now) w.store fun run σ' =>
      Effect a w.now skip w.store .begin σ' ∧ Begun w.store σ' run := actionBegin_effect hw.wf
  split
  · rename_i r σ' hrun
    obtain ⟨heffect, hbegun⟩ := heffect _ _ hrun
    refine ⟨⟨heffect.wf, fun t ht => ?_⟩, .inr ⟨.begin, rfl, heffect⟩⟩
    obtain ht | ht := List.mem_append.mp ht
    · exact (hw.grounded t ht).effect hw.wf heffect
    · obtain rfl := List.mem_singleton.mp ht
      exact hbegun.grounded hw.wf heffect
  · rename_i σ' hrun
    obtain ⟨heffect, -⟩ := heffect _ _ hrun
    exact ⟨hw.effect heffect, .inr ⟨.begin, rfl, heffect⟩⟩
  · exact ⟨hw, .inl rfl⟩

theorem World.Sound.finish_stepped (hw : w.Sound) {n : Nat} {t : Attempt}
    (ht : w.attempts[n]? = some t) : World.Stepped a w (.finish n) (w.finish n t) := by
  obtain ⟨r, phase⟩ := t
  unfold World.finish
  split
  · rename_i result hphase
    obtain rfl : phase = .ready (.done result) := hphase
    obtain ⟨row, hrow, hid, -, -⟩ := hw.grounded _ (List.mem_of_getElem? ht)
    have heffect : Effect a w.now (fun _ => false) w.store (.finish r result)
        (commit (fun _ => false) (actionFinish w.now r result) w.store) :=
      commit_effect hw.wf (actionFinish_effect hw.wf result hrow hid)
    refine ⟨(hw.setPhase n .ended).effect heffect, .inr ⟨_, ?_, heffect⟩⟩
    simp [World.transaction, ht]
  · exact ⟨hw, .inl rfl⟩

/-- An operation runs at most one transaction, and attempts come from first
transactions only. -/
theorem World.Sound.step (hw : w.Sound) (op : Op) : World.Stepped a w op (World.step a w op) := by
  cases op with
  | tick d => exact ⟨⟨hw.wf, hw.grounded⟩, .inl rfl⟩
  | request r skip =>
    have heffect : Effect a w.now skip w.store (.request r) (commit skip (r.body a w.now) w.store) :=
      commit_effect hw.wf (request_effect hw.wf r)
    exact ⟨hw.effect heffect, .inr ⟨_, rfl, heffect⟩⟩
  | begin skip => exact hw.begin_stepped skip
  | send n =>
    simp only [World.step]
    cases w.attempts[n]? with
    | none => exact ⟨hw, .inl rfl⟩
    | some t =>
      simp only [Option.map_some, Option.getD_some, World.send]
      split
      · exact ⟨⟨hw.wf, (hw.setPhase n _).grounded⟩, .inl rfl⟩
      · exact ⟨hw, .inl rfl⟩
  | reply n resp =>
    simp only [World.step]
    cases w.attempts[n]? with
    | none => exact ⟨hw, .inl rfl⟩
    | some t =>
      simp only [Option.map_some, Option.getD_some, World.reply]
      split
      · exact ⟨hw.setPhase n _, .inl rfl⟩
      · exact ⟨hw, .inl rfl⟩
  | finish n =>
    simp only [World.step]
    cases ht : w.attempts[n]? with
    | none => exact ⟨hw, .inl rfl⟩
    | some t => exact hw.finish_stepped ht
  | crash n => exact ⟨hw.setPhase n .ended, .inl rfl⟩

/-- The rows are those that the transaction of the operation commits. -/
theorem World.store_step (w : World) (op : Op) : (World.step a w op).store =
    ((w.transaction op).map fun txn => commit op.locked (txn.body a w.now) w.store).getD w.store := by
  cases op with
  | tick | request | crash => rfl
  | begin skip =>
    have hdiscard : discard (actionBegin w.now) = actionBegin w.now >>= fun _ => .ret () := rfl
    simp only [World.step, World.begin, World.transaction, Option.map_some, Option.getD_some, Op.locked, commit,
      Transaction.body]
    rw [hdiscard, run_bind]
    cases (actionBegin w.now).run skip w.store with
    | error => rfl
    | ok outcome => obtain ⟨_ | r, σ'⟩ := outcome <;> rfl
  | send n | reply n =>
    simp only [World.step, World.transaction, Option.map_none, Option.getD_none]
    cases w.attempts[n]? with
    | none => rfl
    | some t =>
      simp only [Option.map_some, Option.getD_some, World.send, World.reply]
      split <;> rfl
  | finish n =>
    simp only [World.step, World.transaction]
    cases w.attempts[n]? with
    | none => rfl
    | some t =>
      obtain ⟨r, phase⟩ := t
      simp only [Option.map_some, Option.getD_some, World.finish]
      cases phase with
      | ended | waiting => rfl
      | ready remote => cases remote <;> rfl

/-- The clock only moves between transactions. -/
theorem World.now_step (w : World) (op : Op) : (World.step a w op).now =
    match op with
    | .tick d => w.now + d
    | _ => w.now := by
  cases op with
  | tick | request | crash => rfl
  | begin skip =>
    simp only [World.step, World.begin]
    split <;> rfl
  | send n | reply n | finish n =>
    simp only [World.step]
    cases w.attempts[n]? with
    | none => rfl
    | some t =>
      simp only [Option.map_some, Option.getD_some, World.send, World.reply, World.finish]
      split <;> rfl

theorem World.now_le_step (w : World) (op : Op) : w.now ≤ (World.step a w op).now := by
  rw [World.now_step]
  cases op with
  | tick d => exact Int.le_add_of_nonneg_right (Int.natCast_nonneg d)
  | _ => exact le_rfl

theorem World.now_eq_of_transaction {op : Op} {txn : Transaction} (h : w.transaction op = some txn) :
    (World.step a w op).now = w.now := by
  rw [World.now_step]
  cases op with
  | tick => cases h
  | _ => rfl

theorem Initial.wf (hσ : Initial σ) : Wf σ where
  job id := by simp [hσ (Key.jobs id) rfl, hσ (Key.investigations id) rfl]
  service id i hi := by
    rw [hσ (Key.investigations id) rfl] at hi
    cases hi
  action id row hrow := by
    rw [hσ (Key.actions id) rfl] at hrow
    cases hrow
  action_id aid id haid := by
    rw [hσ (Key.actions_id aid) rfl] at haid
    cases haid

theorem World.sound_after (hσ : Initial σ) (now : Time) (ops : List Op) :
    (World.after a σ now ops).Sound := by
  refine machine.run_invariant ⟨hσ.wf, ?_⟩ (fun w op hw => (hw.step op).1) ops
  intro t ht
  cases ht

/-- To show something of every case after every run whose steps satisfy `ok`, it
is enough to show it of the case that one transaction has produced from a case
that had it, or from none; `P` may speak about the run. -/
theorem World.case_induction {ok : World → Op → Prop} {P : List Op → String → Case → Prop}
    (hσ : Initial σ) (hkeep : ∀ ops op id c, P ops id c → P (ops ++ [op]) id c)
    (hstep : ∀ ops op id c' txn, let w := World.after a σ now ops; let w' := World.step a w op
      w.Sound → ok w op → w.transaction op = some txn → caseOf w'.store id = some c' →
        (∀ c, caseOf w.store id = some c → P ops id c) →
          CaseStep a w.now op.locked w.store w'.store id txn (caseOf w.store id) (some c') →
            P (ops ++ [op]) id c') :
    ∀ ops, machine.Always (World.step a) ok (World.init σ now) ops →
      ∀ id c, caseOf (World.after a σ now ops).store id = some c → P ops id c := by
  refine machine.run_induction_along
    (P := fun ops (w : World) => ∀ id c, caseOf w.store id = some c → P ops id c) ?_ ?_
  · intro id c hc
    rw [show (World.init σ now).store = σ from rfl, caseOf_eq_none (hσ _ rfl)] at hc
    cases hc
  · intro ops op ih hok id c' hc'
    have hw := World.sound_after (a := a) hσ now ops
    obtain ⟨-, hstore | ⟨txn, htxn, heffect⟩⟩ := hw.step (a := a) op
    · rw [hstore] at hc'
      exact hkeep ops op id c' (ih id c' hc')
    · have hcase := heffect.cases id
      rw [hc'] at hcase
      exact hstep ops op id c' txn hw hok htxn hc' (ih id) hcase

/-- The same for properties of a case alone, over all runs. -/
theorem World.case_invariant {P : String → Case → Prop} (hσ : Initial σ)
    (hstep : ∀ w op id c' txn, let w' := World.step a w op
      w.Sound → w.transaction op = some txn → (∀ c, caseOf w.store id = some c → P id c) →
        CaseStep a w.now op.locked w.store w'.store id txn (caseOf w.store id) (some c') → P id c')
    (ops : List Op) {id : String} {c : Case}
    (hc : caseOf (World.after a σ now ops).store id = some c) : P id c :=
  World.case_induction (P := fun _ => P) hσ (fun _ _ _ _ h => h)
    (fun _ _ id c' txn hw _ htxn _ ih hcase => hstep _ _ id c' txn hw htxn ih hcase) ops
    (machine.always_true _ ops) id c hc

end incidentdesk
