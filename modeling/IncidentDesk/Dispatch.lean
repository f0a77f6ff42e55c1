import IncidentDesk.Effects.Reachable
import IncidentDesk.Seed

namespace incidentdesk

/-- The requests still to be made all read. -/
def Remote.ReadOnly : Remote → Prop
  | .done _ => True
  | .call method _ _ next => method = "GET" ∧ ∀ resp, (next resp).ReadOnly

/-- The next request may write, those after it only read. -/
def Remote.WritesFirst : Remote → Prop
  | .done _ => False
  | .call _ _ _ next => ∀ resp, (next resp).ReadOnly

def Phase.ReadOnly : Phase → Prop
  | .ready remote => remote.ReadOnly
  | .waiting _ next => ∀ resp, (next resp).ReadOnly
  | .ended => True

theorem Remote.github_readOnly {path : String} {body : Option Json} {next : Json → Remote}
    (h : ∀ v, (next v).ReadOnly) : (Remote.github "GET" path body next).ReadOnly := by
  refine ⟨rfl, fun resp => ?_⟩
  dsimp only
  split
  · trivial
  · exact h _

/-- Creating an issue writes once, with its first request. -/
theorem issue_writesFirst (r : actionRun) : (issue r).WritesFirst := by
  intro resp
  dsimp only
  split
  · trivial
  · split
    · trivial
    · refine Remote.github_readOnly fun v => ?_
      split <;> trivial

theorem readMatch_readOnly (r : actionRun) (found : Option Json) : (readMatch r found).ReadOnly := by
  unfold readMatch
  split
  · trivial
  · split
    · trivial
    · exact Remote.github_readOnly fun _ => trivial

theorem reconcilePages_readOnly (r : actionRun) (pages page : Nat) (found : Option Json) :
    (reconcilePages r pages page found).ReadOnly := by
  induction pages generalizing page found with
  | zero => exact readMatch_readOnly r found
  | succ pages ih =>
    refine Remote.github_readOnly fun v => ?_
    dsimp only
    split
    · trivial
    · split
      · exact readMatch_readOnly r _
      · exact ih _ _

/-- How often `issue` has sent its `POST` for an action. -/
def World.posts (w : World) (aid : String) : Nat :=
  w.sent.countP fun s => s.action = aid && s.method = "POST"

/-- How often `issue` has been started for an action. -/
def World.issues (w : World) (aid : String) : Nat :=
  w.attempts.countP fun t => t.run.ID = aid && !t.run.Reconcile

/-- Why there is one `POST` at most. Only one attempt of each action may write,
and while it has not sent its first request nothing has been posted. -/
structure World.PostsOnce (w : World) : Prop where
  sound : w.Sound
  writer : ∀ (n m : Nat) (t t' : Attempt), w.attempts[n]? = some t → w.attempts[m]? = some t' →
    t.run.ID = t'.run.ID → t.run.Reconcile = false → t'.run.Reconcile = false → n = m
  phase : ∀ t ∈ w.attempts, t.phase.ReadOnly ∨ t.run.Reconcile = false ∧
    w.posts t.run.ID = 0 ∧ ∃ remote, t.phase = .ready remote ∧ remote.WritesFirst
  posted : ∀ aid, 0 < w.posts aid → ∃ t ∈ w.attempts, t.run.ID = aid
  posts : ∀ aid, w.posts aid ≤ 1

section Step

variable {a : App} {w : World}

/-- The attempts after one of them has moved to another phase. -/
theorem World.getElem?_setPhase {n m : Nat} {phase : Phase} {t : Attempt}
    (ht : (w.setPhase n phase).attempts[m]? = some t) :
    ∃ t₀, w.attempts[m]? = some t₀ ∧ t.run = t₀.run ∧
      t.phase = if n = m then phase else t₀.phase := by
  simp only [World.setPhase, List.getElem?_modify] at ht
  obtain ⟨t₀, ht₀, rfl⟩ := Option.map_eq_some_iff.mp ht
  refine ⟨t₀, ht₀, ?_⟩
  by_cases hnm : n = m <;> simp [hnm]

theorem World.PostsOnce.setPhase {w' : World} (hw : w.PostsOnce) (n : Nat) (phase : Phase)
    (hsound : w'.Sound) (hattempts : w'.attempts = (w.setPhase n phase).attempts)
    (hposts : ∀ aid, w'.posts aid = w.posts aid ∨
      ∃ t, w.attempts[n]? = some t ∧ t.run.ID = aid ∧ ¬ t.phase.ReadOnly ∧ w'.posts aid ≤ 1)
    (hphase : phase.ReadOnly) : w'.PostsOnce where
  sound := hsound
  writer k m t t' ht ht' hid hr hr' := by
    rw [hattempts] at ht ht'
    obtain ⟨t₀, ht₀, hrun, -⟩ := World.getElem?_setPhase ht
    obtain ⟨t₀', ht₀', hrun', -⟩ := World.getElem?_setPhase ht'
    rw [hrun] at hid hr
    rw [hrun'] at hid hr'
    exact hw.writer k m t₀ t₀' ht₀ ht₀' hid hr hr'
  phase t ht := by
    rw [hattempts] at ht
    obtain ⟨m, ht⟩ := List.mem_iff_getElem?.mp ht
    obtain ⟨t₀, ht₀, hrun, ht_phase⟩ := World.getElem?_setPhase ht
    by_cases hnm : n = m
    · rw [if_pos hnm] at ht_phase
      rw [ht_phase]
      exact .inl hphase
    · rw [if_neg hnm] at ht_phase
      rw [ht_phase, hrun]
      obtain hread | ⟨hr, hzero, hwrites⟩ := hw.phase t₀ (List.mem_of_getElem? ht₀)
      · exact .inl hread
      · obtain hsame | ⟨t₁, ht₁, hid, hnread, -⟩ := hposts t₀.run.ID
        · exact .inr ⟨hr, hsame.trans hzero, hwrites⟩
        · obtain hread | ⟨hr₁, -⟩ := hw.phase t₁ (List.mem_of_getElem? ht₁)
          · exact absurd hread hnread
          · exact absurd (hw.writer n m t₁ t₀ ht₁ ht₀ hid hr₁ hr) hnm
  posted aid hpos := by
    have hmem : ∀ t ∈ w.attempts, ∃ t' ∈ w'.attempts, t'.run = t.run := by
      intro t ht
      obtain ⟨m, ht⟩ := List.mem_iff_getElem?.mp ht
      rw [hattempts]
      refine ⟨if n = m then { t with phase } else t, List.mem_iff_getElem?.mpr ⟨m, ?_⟩, ?_⟩
      · simp only [World.setPhase, List.getElem?_modify, ht]
        by_cases hnm : n = m <;> simp [hnm]
      · by_cases hnm : n = m <;> simp [hnm]
    have hold : ∃ t ∈ w.attempts, t.run.ID = aid := by
      obtain hsame | ⟨t, ht, hid, -⟩ := hposts aid
      · exact hw.posted aid (hsame ▸ hpos)
      · exact ⟨t, List.mem_of_getElem? ht, hid⟩
    obtain ⟨t, ht, rfl⟩ := hold
    obtain ⟨t', ht', hrun⟩ := hmem t ht
    exact ⟨t', ht', by rw [hrun]⟩
  posts aid := by
    obtain hsame | ⟨-, -, -, -, hle⟩ := hposts aid
    · rw [hsame]
      exact hw.posts aid
    · exact hle

/-- An action that is still approved has not been taken up by any attempt. -/
theorem World.Sound.not_taken (hw : w.Sound) {id : String} {row : Action}
    (hrow : w.store.lookup (Key.actions id) = some row) (hstate : row.state = .approved) {t : Attempt}
    (ht : t ∈ w.attempts) : t.run.ID ≠ row.id := by
  intro hid
  obtain ⟨row', hrow', hid', -, hdispatched⟩ := hw.grounded t ht
  have haid := (hw.wf.action _ _ hrow).2
  have haid' := (hw.wf.action _ _ hrow').2
  rw [hid'.trans hid, haid] at haid'
  obtain rfl : id = t.run.Investigation := Option.some.inj haid'
  obtain rfl := Option.some.inj (hrow.symm.trans hrow')
  rw [hstate] at hdispatched
  cases hdispatched

private theorem getElem?_concat_eq_some {ts : List Attempt} {last t : Attempt} {n : Nat}
    (h : (ts ++ [last])[n]? = some t) : ts[n]? = some t ∨ n = ts.length ∧ t = last := by
  rw [List.getElem?_append] at h
  split at h
  · exact .inl h
  · rename_i hn
    obtain ⟨hlt, ht⟩ := List.getElem?_eq_some_iff.mp h
    simp only [List.length_singleton] at hlt
    refine .inr ⟨by omega, ?_⟩
    simpa using ht.symm

theorem actionRun.remote_readOnly {r : actionRun} (hr : r.Reconcile = true) :
    r.remote.ReadOnly := by
  rw [actionRun.remote, if_pos hr]
  exact reconcilePages_readOnly r 5 1 none

theorem actionRun.remote_writesFirst {r : actionRun} (hr : r.Reconcile = false) :
    r.remote.WritesFirst := by
  rw [actionRun.remote, hr]
  exact issue_writesFirst r

theorem World.PostsOnce.begin (a : App) (hw : w.PostsOnce) (skip : Key → Bool) : (w.begin skip).PostsOnce := by
  have hsound := (hw.sound.begin_stepped (a := a) skip).1
  have heffect : sql.Tx.Ensures skip (actionBegin w.now) w.store fun run σ' =>
      Effect a w.now skip w.store .begin σ' ∧ Begun w.store σ' run := actionBegin_effect hw.sound.wf
  unfold World.begin at hsound ⊢
  split at hsound
  · rename_i r σ' hrun
    obtain ⟨row, -, hrow, -, -, happroved, hr⟩ := (heffect _ _ hrun).2.taken r rfl
    have hfresh (hreconcile : r.Reconcile = false) : ∀ t ∈ w.attempts, t.run.ID ≠ r.ID := by
      rw [show r.ID = row.id by rw [hr]]
      exact fun t ht => hw.sound.not_taken hrow (happroved hreconcile) ht
    refine ⟨hsound, fun n m t t' ht ht' hid hr hr' => ?_, fun t ht => ?_, fun aid hpos => ?_, hw.posts⟩
    · obtain ht | ⟨rfl, rfl⟩ := getElem?_concat_eq_some ht <;>
        obtain ht' | ⟨rfl, rfl⟩ := getElem?_concat_eq_some ht'
      · exact hw.writer n m t t' ht ht' hid hr hr'
      · exact absurd hid (hfresh hr' t (List.mem_of_getElem? ht))
      · exact absurd hid.symm (hfresh hr t' (List.mem_of_getElem? ht'))
      · rfl
    · obtain ht | ht := List.mem_append.mp ht
      · exact hw.phase t ht
      · obtain rfl := List.mem_singleton.mp ht
        cases hreconcile : r.Reconcile with
        | true => exact .inl (actionRun.remote_readOnly hreconcile)
        | false =>
          refine .inr ⟨rfl, ?_, _, rfl, actionRun.remote_writesFirst hreconcile⟩
          by_contra hposts
          obtain ⟨t, ht, hid⟩ := hw.posted r.ID (Nat.pos_of_ne_zero hposts)
          exact hfresh hreconcile t ht hid
    · obtain ⟨t, ht, hid⟩ := hw.posted aid hpos
      exact ⟨t, List.mem_append_left _ ht, hid⟩
  · exact ⟨hsound, hw.writer, hw.phase, hw.posted, hw.posts⟩
  · exact hw

theorem World.PostsOnce.send (hw : w.PostsOnce) {n : Nat} {t : Attempt}
    (ht : w.attempts[n]? = some t) : (w.send n t).PostsOnce := by
  have hmem := List.mem_of_getElem? ht
  unfold World.send
  split
  · rename_i method path body next hphase
    have hcount (aid : String) : World.posts
        { w.setPhase n (.waiting w.now next) with
          sent := w.sent ++ [{ action := t.run.ID, method, path, body }] } aid =
        w.posts aid + if t.run.ID = aid ∧ method = "POST" then 1 else 0 := by
      simp [World.posts, List.countP_append, List.countP_cons]
    have hread := hw.phase t hmem
    rw [hphase] at hread
    refine hw.setPhase n (.waiting w.now next) ⟨hw.sound.wf, (hw.sound.setPhase n _).grounded⟩ rfl
      (fun aid => ?_) ?_
    · rw [hcount]
      obtain ⟨rfl, -⟩ | ⟨-, hzero, -⟩ := hread
      · simp
      · by_cases hpost : t.run.ID = aid ∧ method = "POST"
        · obtain ⟨rfl, rfl⟩ := hpost
          refine .inr ⟨t, ht, rfl, ?_, by simp [hzero]⟩
          rw [hphase]
          exact fun hread => absurd hread.1 (by decide)
        · simp [hpost]
    · obtain hread | ⟨-, -, _, ⟨⟩, hwrites⟩ := hread
      · exact hread.2
      · exact hwrites
  · exact hw

theorem World.PostsOnce.step (a : App) (hw : w.PostsOnce) (op : Op) :
    (World.step a w op).PostsOnce := by
  have hsound := (hw.sound.step (a := a) op).1
  -- a step that sends nothing leaves the log alone
  have hquiet (n : Nat) (phase : Phase) (w' : World) (hsound : w'.Sound)
      (hattempts : w'.attempts = (w.setPhase n phase).attempts) (hsent : w'.sent = w.sent)
      (hphase : phase.ReadOnly) : w'.PostsOnce :=
    hw.setPhase n phase hsound hattempts (fun aid => .inl (by rw [World.posts, hsent, World.posts]))
      hphase
  cases op with
  | tick d | request r skip => exact ⟨hsound, hw.writer, hw.phase, hw.posted, hw.posts⟩
  | begin skip => exact hw.begin a skip
  | send n =>
    simp only [World.step]
    cases ht : w.attempts[n]? with
    | none => exact hw
    | some t => exact hw.send ht
  | reply n resp =>
    simp only [World.step] at hsound ⊢
    cases ht : w.attempts[n]? with
    | none => exact hw
    | some t =>
      rw [ht] at hsound
      simp only [Option.map_some, Option.getD_some] at hsound ⊢
      unfold World.reply at hsound ⊢
      split at hsound
      · rename_i since next hphase
        refine hquiet n _ _ hsound rfl rfl ?_
        obtain hread | ⟨-, -, _, hready, -⟩ := hw.phase t (List.mem_of_getElem? ht)
        · rw [hphase] at hread
          exact hread _
        · rw [hphase] at hready
          cases hready
      · exact hw
  | finish n =>
    simp only [World.step] at hsound ⊢
    cases ht : w.attempts[n]? with
    | none => exact hw
    | some t =>
      rw [ht] at hsound
      simp only [Option.map_some, Option.getD_some] at hsound ⊢
      unfold World.finish at hsound ⊢
      split at hsound
      · exact hquiet n .ended _ hsound rfl rfl trivial
      · exact hw
  | crash n => exact hquiet n .ended _ hsound rfl rfl trivial

end Step

/-- A list has at most one element of a kind if no two positions hold one. -/
private theorem countP_le_one {α : Type} {p : α → Bool} : ∀ {xs : List α},
    (∀ (n m : Nat) x y, xs[n]? = some x → xs[m]? = some y → p x = true → p y = true → n = m) →
      xs.countP p ≤ 1
  | [], _ => by simp
  | x :: xs, h => by
    by_cases hx : p x = true
    · have hrest : xs.countP p = 0 := by
        rw [List.countP_eq_zero]
        intro y hy hpy
        obtain ⟨m, hm⟩ := List.mem_iff_getElem?.mp hy
        have := h 0 (m + 1) x y rfl hm hx hpy
        omega
      simp [hx, hrest]
    · rw [List.countP_cons_of_neg hx]
      refine countP_le_one fun n m y z hy hz hpy hpz => ?_
      have := h (n + 1) (m + 1) y z hy hz hpy hpz
      omega

theorem World.PostsOnce.issues_le_one {w : World} (hw : w.PostsOnce) (aid : String) : w.issues aid ≤ 1 := by
  refine countP_le_one fun n m t t' ht ht' hp hp' => ?_
  simp only [Bool.and_eq_true, decide_eq_true_eq, Bool.not_eq_true'] at hp hp'
  exact hw.writer n m t t' ht ht' (hp.1.trans hp'.1.symm) hp.2 hp'.2

/-- An action that is there stays there over every run: it keeps its id and its
marker, and once dispatched it stays dispatched. -/
theorem action_kept_after (a : App) {σ : Store} (hσ : Initial σ) (now : Time) (ops ops' : List Op)
    {id : String} {row : Action}
    (hrow : (World.after a σ now ops).store.lookup (Key.actions id) = some row) :
    ∃ row', (World.after a σ now (ops ++ ops')).store.lookup (Key.actions id) = some row' ∧
      row.Kept row' := by
  induction ops' using List.reverseRecOn with
  | nil => exact ⟨row, by rwa [List.append_nil], .refl row⟩
  | append_singleton ops' op ih =>
    obtain ⟨row', hrow', hkept⟩ := ih
    have hw := World.sound_after (a := a) hσ now (ops ++ ops')
    rw [← List.append_assoc, World.after, machine.run_concat]
    obtain ⟨-, hstore | ⟨txn, -, heffect⟩⟩ := hw.step (a := a) op
    · rw [hstore]
      exact ⟨row', hrow', hkept⟩
    · obtain ⟨row'', hrow'', hkept'⟩ := heffect.action_kept hw.wf hrow'
      exact ⟨row'', hrow'', hkept.trans hkept'⟩

/-- Over every run, `issue` is started at most once for an action and sends at
most one `POST`, and a dispatched action stays dispatched with the marker it was
given. -/
theorem issue_posts_at_most_once (a : App) {σ : Store} (hσ : Initial σ) (now : Time) (ops : List Op) :
    (∀ aid, (World.after a σ now ops).issues aid ≤ 1 ∧ (World.after a σ now ops).posts aid ≤ 1) ∧
      ∀ ops' id row, (World.after a σ now ops).store.lookup (Key.actions id) = some row →
        ∃ row', (World.after a σ now (ops ++ ops')).store.lookup (Key.actions id) = some row' ∧
          row'.id = row.id ∧ row'.marker = row.marker ∧
          (row.state.dispatched = true → row'.state.dispatched = true) := by
  have hinit : (World.init σ now).PostsOnce := by
    refine ⟨World.sound_after (a := a) hσ now [], ?_, ?_, ?_, ?_⟩ <;>
      simp [World.init, World.posts]
  have honce : (World.after a σ now ops).PostsOnce :=
    machine.run_invariant hinit (fun w op hw => hw.step a op) ops
  refine ⟨fun aid => ⟨honce.issues_le_one aid, honce.posts aid⟩, fun ops' id row hrow => ?_⟩
  obtain ⟨row', hrow', hkept⟩ := action_kept_after a hσ now ops ops' hrow
  exact ⟨row', hrow', hkept.id, hkept.marker, hkept.dispatched⟩

theorem issue_posts_once_publishing :
    (World.after deployed seed 0 publishing).posts "a1" = 1 ∧
      (World.after deployed seed 0 publishing).posts "a1" ≤ 1 :=
  ⟨by decide, ((issue_posts_at_most_once deployed seed_initial 0 publishing).1 "a1").2⟩

end incidentdesk
