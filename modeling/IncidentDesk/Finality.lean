import IncidentDesk.Effects.Reachable
import IncidentDesk.Seed

namespace incidentdesk

theorem Json.remove_remove (key : String) (document : Json) :
    (document.remove key).remove key = document.remove key := by
  cases document <;> simp [Json.remove, List.filter_filter]

/-- The action is still about the issue it was about. Removing a source deletes
the text that was read back with the issue, and nothing else of it. -/
def Action.SameIssue (row row' : Action) : Prop :=
  row'.result = row.result ∨ row'.result = row.result.map (Json.remove "body")

theorem Action.SameIssue.trans {row row' row'' : Action} (h : row.SameIssue row')
    (h' : row'.SameIssue row'') : row.SameIssue row'' := by
  unfold SameIssue at *
  obtain h' | h' := h' <;> obtain h | h := h <;> rw [h', h]
  · exact .inl rfl
  · exact .inr rfl
  · exact .inr rfl
  · refine .inr ?_
    cases row.result <;> simp [Json.remove_remove]

theorem Action.sameIssue_closeIf (p : ActionState → Bool) (row : Action) :
    row.SameIssue (row.closeIf p) := by
  unfold Action.closeIf
  by_cases hstate : p row.state
  · rw [if_pos hstate]
    exact .inl rfl
  · rw [if_neg hstate]
    exact .inl rfl

section Step

variable {a : App} {now : Time} {skip : Key → Bool} {σ σ' : Store} {id : String} {txn : Transaction}

/-- Only the second transaction of `actionStep` writes to a succeeded action. -/
theorem CaseStep.succeeded {c : Case} {x' : Option Case} {row : Action}
    (h : CaseStep a now skip σ σ' id txn (some c) x') (hrow : c.action = some row)
    (hstate : row.state = .succeeded) :
    (∃ c' row', x' = some c' ∧ c'.action = some row' ∧ row'.state = .succeeded ∧ row.SameIssue row') ∨
      ∃ r result, txn = .finish r result ∧ row.id = r.ID := by
  have hclosed {p : ActionState → Bool} (hp : p row.state = false) : (row.closeIf p).state = .succeeded := by
    rw [Action.closeIf, hp]
    exact hstate
  have hundecided : ActionState.undecided row.state = false := by rw [hstate]; rfl
  cases h with
  | unchanged => exact .inl ⟨c, row, rfl, hrow, hstate, .inl rfl⟩
  | cancelled =>
    exact .inl ⟨_, _, rfl, by rw [hrow, Option.map_some], hclosed hundecided, row.sameIssue_closeIf _⟩
  | resumed =>
    refine .inl ⟨_, _, rfl, by rw [hrow, Option.map_some], hclosed ?_, row.sameIssue_closeIf _⟩
    rw [hstate]
    rfl
  | @sourceChanged _ _ remove =>
    refine .inl ⟨_, _, rfl, by rw [hrow, Option.map_some], ?_, ?_⟩
    · cases remove <;> exact hclosed hundecided
    · cases remove with
      | true => exact (row.sameIssue_closeIf _).trans (.inr rfl)
      | false => exact row.sameIssue_closeIf _
  | drafted _ _ _ hdrafted =>
    obtain ⟨hnone, -⟩ | ⟨old, hold, hdispatched, -⟩ := hdrafted
    · rw [hnone] at hrow
      cases hrow
    · obtain rfl : old = row := Option.some.inj (hold.symm.trans hrow)
      rw [hstate] at hdispatched
      cases hdispatched
  | approved hrow' hdecidable | rejected hrow' hdecidable =>
    obtain rfl := Option.some.inj (hrow'.symm.trans hrow)
    rw [hstate] at hdecidable
    rcases hdecidable with h | h <;> cases h
  | reconcileRequested hrow' hstate' | approvalInvalidated hrow' hstate' | dispatched hrow' hstate' =>
    obtain rfl := Option.some.inj (hrow'.symm.trans hrow)
    rw [hstate] at hstate'
    cases hstate'
  | reconciling hrow' hstate' =>
    obtain rfl := Option.some.inj (hrow'.symm.trans hrow)
    rw [hstate] at hstate'
    rcases hstate' with h | h <;> cases h
  | finished hrow' hid =>
    obtain rfl := Option.some.inj (hrow'.symm.trans hrow)
    exact .inr ⟨_, _, rfl, hid⟩
  | _ => exact .inl ⟨_, row, rfl, hrow, hstate, .inl rfl⟩

end Step

/-- An attempt finishes while its action has not succeeded yet. -/
def FinishesOpen (w : World) : Op → Prop
  | .finish n => ∀ r result row, w.attempts[n]? = some ⟨r, .ready (.done result)⟩ →
      w.store.lookup (Key.actions r.Investigation) = some row → row.state ≠ .succeeded
  | _ => True

theorem World.Sound.succeeded_step {a : App} {w : World} (hw : w.Sound) {op : Op} (hopen : FinishesOpen w op)
    {id : String} {row : Action} (hrow : w.store.lookup (Key.actions id) = some row)
    (hstate : row.state = .succeeded) :
    ∃ row', (World.step a w op).store.lookup (Key.actions id) = some row' ∧ row'.state = .succeeded ∧
      row.SameIssue row' := by
  obtain ⟨-, hstore | ⟨txn, htxn, heffect⟩⟩ := hw.step (a := a) op
  · rw [hstore]
    exact ⟨row, hrow, hstate, .inl rfl⟩
  · obtain ⟨c, hc, hact⟩ := hw.wf.caseOf_of_action hrow
    have hstep := heffect.cases id
    rw [hc] at hstep
    obtain ⟨c', row', hc', hact', hstate', hsame⟩ | ⟨r, result, rfl, hid⟩ := hstep.succeeded hact hstate
    · exact ⟨row', (caseOf_eq_some.mp hc').2.2.2.trans hact', hstate', hsame⟩
    · obtain ⟨n, rfl, ht⟩ := World.transaction_eq_finish htxn
      obtain ⟨row₁, hrow₁, hid₁, -⟩ := hw.grounded _ (List.mem_of_getElem? ht)
      have haid := (hw.wf.action _ _ hrow).2
      have haid₁ := (hw.wf.action _ _ hrow₁).2
      rw [hid, ← hid₁, haid₁] at haid
      obtain rfl := Option.some.inj haid
      obtain rfl := Option.some.inj (hrow.symm.trans hrow₁)
      exact absurd hstate (hopen _ _ _ ht hrow)

/-- As long as attempts finish before their action has succeeded, a success is
final: the action stays succeeded, with the same issue. -/
theorem success_final (a : App) {σ : Store} (hσ : Initial σ) (now : Time) (ops ops' : List Op)
    (hok : machine.Always (World.step a) FinishesOpen (World.init σ now) (ops ++ ops')) {id : String}
    {row : Action} (hrow : (World.after a σ now ops).store.lookup (Key.actions id) = some row)
    (hstate : row.state = .succeeded) :
    ∃ row', (World.after a σ now (ops ++ ops')).store.lookup (Key.actions id) = some row' ∧
      row'.state = .succeeded ∧ row.SameIssue row' := by
  induction ops' using List.reverseRecOn with
  | nil => exact ⟨row, by rwa [List.append_nil], hstate, .inl rfl⟩
  | append_singleton ops' op ih =>
    rw [← List.append_assoc, machine.always_concat] at hok
    obtain ⟨row', hrow', hstate', hsame⟩ := ih hok.1
    have hw := World.sound_after (a := a) hσ now (ops ++ ops')
    obtain ⟨row'', hrow'', hstate'', hsame'⟩ := hw.succeeded_step (a := a) hok.2 hrow' hstate'
    rw [← List.append_assoc, World.after, machine.run_concat]
    exact ⟨row'', hrow'', hstate'', hsame.trans hsame'⟩

theorem success_final_publishing :
    ∃ row', (World.after deployed seed 0 (publishing ++ [.request (.cancel "i1") unlocked])).store.lookup
      (Key.actions "i1") = some row' ∧ row'.state = .succeeded := by
  let w := World.after deployed seed 0 posting
  have hopen : (w.store.lookup (Key.actions "i1")).map (·.state) = some .executing := by decide +kernel
  have hrun : (w.attempts[0]?).map (·.run.Investigation) = some "i1" := by decide +kernel
  have hsucceeded : ((World.after deployed seed 0 publishing).store.lookup (Key.actions "i1")).map
      (·.state) = some .succeeded := by decide +kernel
  obtain ⟨row, hrow, hstate⟩ := Option.map_eq_some_iff.mp hsucceeded
  have hok : machine.Always (World.step deployed) FinishesOpen (World.init seed 0)
      (publishing ++ [.request (.cancel "i1") unlocked]) := by
    rw [machine.always_concat, publishing, machine.always_concat]
    refine ⟨⟨?_, fun r result row ht hrow => ?_⟩, trivial⟩
    · simp only [posting, approving, completing, List.cons_append, List.nil_append, machine.always_cons,
        machine.always_nil, FinishesOpen, and_true]
    · have ht : w.attempts[0]? = some ⟨r, .ready (.done result)⟩ := ht
      rw [ht] at hrun
      rw [show r.Investigation = "i1" from Option.some.inj hrun] at hrow
      have hrow : w.store.lookup (Key.actions "i1") = some row := hrow
      rw [hrow] at hopen
      rw [show row.state = .executing from Option.some.inj hopen]
      decide
  obtain ⟨row', hrow', hstate', -⟩ := success_final deployed seed_initial 0 publishing _ hok hrow hstate
  exact ⟨row', hrow', hstate'⟩

/-- The issue of the action, as GitHub shows it. -/
def published : Json := .obj [("number", .num 7), ("body", .str "<!-- incidentdesk:a1 -->")]

/-- Two answers of almost eight seconds keep an attempt busy for longer than the
fifteen seconds after which another one reconciles the action, and succeeds. -/
def overtaking : List Op :=
  approving ++
    [.begin unlocked, .send 0, .tick 7900000, .reply 0 (some ⟨201, some published⟩), .send 0, .tick 7800000,
      .begin unlocked, .send 1, .reply 1 (some ⟨200, some (.arr [published])⟩), .send 1,
      .reply 1 (some ⟨200, some published⟩), .finish 1]

/-- The attempt that was overtaken then reports an error, which undoes the success. -/
theorem success_undone_overtaking :
    ((World.after deployed seed 0 overtaking).store.lookup (Key.actions "i1")).map (·.state) =
        some .succeeded ∧
      ((World.after deployed seed 0 (overtaking ++ [.reply 0 (some ⟨502, none⟩), .finish 0])).store.lookup
        (Key.actions "i1")).map (·.state) = some .unknown := by
  decide +kernel

end incidentdesk
