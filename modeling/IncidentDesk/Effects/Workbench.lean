import IncidentDesk.Effects.Conversations
import IncidentDesk.Text

namespace incidentdesk

open sql sql.Tx

/-- What never changes of a turn. -/
def Turn.frozen (row : Turn) : Turn :=
  { row with status := .pending, response := none, response_status := none, error := none, fence := "", lease_until := none }

theorem savedTurn.Matches.frozen {t : savedTurn} {row row' : Turn} (h : t.Matches row) (hrow : row'.frozen = row.frozen) :
    t.Matches row' where
  seq := h.seq.trans (congrArg Turn.seq hrow).symm
  base_revision := h.base_revision.trans (congrArg Turn.base_revision hrow).symm
  input := h.input.trans (congrArg Turn.input hrow).symm
  created_at := h.created_at.trans (congrArg Turn.created_at hrow).symm
  history := h.history.trans (congrArg Turn.history hrow).symm
  has_query_anchor := h.has_query_anchor.trans (congrArg Turn.has_query_anchor hrow).symm

namespace Thread

variable {a : App} {snap : Store} {P : Turn → Stored → Prop} {th th' : Thread}

theorem mem_mapTurns {g : String → Turn → Turn} {tid : String} {row : Turn} (h : (tid, row) ∈ th.turns) :
    (tid, g tid row) ∈ (th.mapTurns g).turns :=
  List.mem_map_of_mem (f := fun e => (e.1, g e.1 e.2)) h

/-- No turn is lost, and what a turn was made with stays. -/
theorem Step.frozen (h : Step a snap P th th') {tid : String} {row : Turn} (hmem : (tid, row) ∈ th.turns) :
    ∃ row', (tid, row') ∈ th'.turns ∧ row'.frozen = row.frozen := by
  cases h with
  | close p error => exact ⟨_, mem_mapTurns hmem, by split <;> rfl⟩
  | retry tid' fence row' lease => exact ⟨_, mem_mapTurns hmem, by split <;> rfl⟩
  | add tid' row' => exact ⟨row, List.mem_append_left _ hmem, rfl⟩
  | complete tid' row' s =>
    let g (tid : String) (row : Turn) := if tid = tid' then row.answered s else row
    exact ⟨g tid row, mem_mapTurns hmem, by unfold g; split <;> rfl⟩

theorem frozen (h : Relation.ReflTransGen (Step a snap P) th th') {tid : String} {row : Turn}
    (hmem : (tid, row) ∈ th.turns) : ∃ row', (tid, row') ∈ th'.turns ∧ row'.frozen = row.frozen := by
  induction h with
  | refl => exact ⟨row, hmem, rfl⟩
  | tail _ hstep ih =>
    obtain ⟨row', hmem', hrow'⟩ := ih
    obtain ⟨row'', hmem'', hrow''⟩ := hstep.frozen hmem'
    exact ⟨row'', hmem'', hrow''.trans hrow'⟩

end Thread

section Rows

variable {a : App} {snap σ σ' : Store} {P : Turn → Stored → Prop}

/-- A turn that is there belongs to a thread. -/
theorem Threaded.exists_thread (hσ : Threaded σ) {tid : String} {row : Turn}
    (hrow : σ.lookup (Key.conversation_turns tid) = some row) :
    ∃ th, threadOf σ row.conversation = some th ∧ (tid, row) ∈ th.turns := by
  obtain ⟨c, hc⟩ := Option.isSome_iff_exists.mp (hσ.conversation tid row hrow)
  exact ⟨⟨c, thread σ row.conversation⟩, by rw [threadOf, hc, Option.map_some], mem_thread_iff.mpr ⟨hrow, rfl⟩⟩

theorem Shifts.frozen (hσ : Threaded σ) (h : Shifts a snap P σ σ') {tid : String} {row : Turn}
    (hrow : σ.lookup (Key.conversation_turns tid) = some row) :
    ∃ row', σ'.lookup (Key.conversation_turns tid) = some row' ∧ row'.frozen = row.frozen := by
  obtain ⟨th, hth, hmem⟩ := hσ.exists_thread hrow
  obtain ⟨th', hth', hsteps⟩ := h _ th hth
  obtain ⟨row', hmem', hfrozen⟩ := Thread.frozen hsteps hmem
  rw [← (threadOf_eq_some.mp hth').2, mem_thread_iff] at hmem'
  exact ⟨row', hmem'.1, hfrozen⟩

theorem Shifts.issued (hσ : Threaded σ) (h : Shifts a snap P σ σ') {t : Workbench.Attempt} (ht : t.Issued σ) :
    t.Issued σ' := by
  obtain ⟨row, hrow, hid, hmatches⟩ := ht
  obtain ⟨row', hrow', hfrozen⟩ := h.frozen hσ hrow
  exact ⟨row', hrow', (congrArg Turn.conversation hfrozen).trans hid, hmatches.frozen hfrozen⟩

/-- Where the tables of the conversations stay as they are. -/
theorem Threaded.congr (hσ : Threaded σ)
    (hconversation : ∀ id, (σ.lookup (Key.conversations id)).isSome = true →
      (σ'.lookup (Key.conversations id)).isSome = true)
    (hturns : ∀ tid, σ'.lookup (Key.conversation_turns tid) = σ.lookup (Key.conversation_turns tid))
    (hindex : ∀ id key, σ'.lookup (Key.conversation_turns_idem id key) =
      σ.lookup (Key.conversation_turns_idem id key)) : Threaded σ' where
  ascending id := by
    rw [thread_congr (hσ.ascending id) hturns]
    exact hσ.ascending id
  conversation tid row hrow := hconversation _ (hσ.conversation tid row (hturns tid ▸ hrow))
  indexed id key tid htid := by
    obtain ⟨row, hrow, hid⟩ := hσ.indexed id key tid (hindex id key ▸ htid)
    exact ⟨row, (hturns tid).trans hrow, hid⟩

end Rows

namespace Workbench

variable {a : App} {w : Workbench}

/-- What holds of every reachable workbench. -/
structure Sound (w : Workbench) : Prop where
  threaded : Threaded w.store
  numbers : ∀ tid row, w.store.lookup (Key.conversation_turns tid) = some row → row.seq ≤ w.seq
  issued : ∀ t ∈ w.attempts, t.Issued w.store

/-- The operation ends an attempt at the turn with this answer. -/
def Records (w : Workbench) (op : Op) (row : Turn) (s : Stored) : Prop :=
  ∃ now n answer decision t, op = .complete now n answer decision ∧ w.attempts[n]? = some t ∧ t.turn.Matches row ∧
    s.response = turnResponse decision t.id t.turn answer.fields ∧ s.status = answer.code

/-- The other tables stay, but for rows that the rest of the system may change. -/
def Changes (σ σ' : Store) : Prop :=
  ∀ key : Key, key.conversing = false → σ'.lookup key = σ.lookup key ∨ key.named = true ∧
    ∃ row', σ'.lookup key = some row' ∧ ∀ row, σ.lookup key = some row → key.settled row row' = true

/-- The workbench has moved every conversation on, and begun new ones without
turns. -/
structure Advances (a : App) (P : Turn → Stored → Prop) (w w' : Workbench) : Prop where
  sound : w'.Sound
  shifts : Shifts a w.store P w.store w'.store
  changes : Changes w.store w'.store
  begun : ∀ id th, threadOf w.store id = none → threadOf w'.store id = some th →
    ∃ now u, th = ⟨newConversation now u, []⟩

variable {P : Turn → Stored → Prop}

theorem threadOf_eq_none {σ : Store} {id : String} :
    threadOf σ id = none ↔ (σ.lookup (Key.conversations id)).isSome = false := by
  rw [threadOf, Option.map_eq_none_iff, Option.isSome_eq_false_iff, Option.isNone_iff_eq_none]

/-- No conversation has been begun. -/
theorem Advances.of_isSome {w' : Workbench} (hsound : w'.Sound) (hshifts : Shifts a w.store P w.store w'.store)
    (hchanges : Changes w.store w'.store)
    (h : ∀ id, (w'.store.lookup (Key.conversations id)).isSome = (w.store.lookup (Key.conversations id)).isSome) :
    Advances a P w w' := by
  refine ⟨hsound, hshifts, hchanges, fun id th hnone hth => ?_⟩
  rw [threadOf_eq_none, ← h id, ← threadOf_eq_none, hth] at hnone
  cases hnone

theorem Changes.of_eq {σ σ' : Store} (h : ∀ key : Key, key.conversing = false → σ'.lookup key = σ.lookup key) :
    Changes σ σ' := fun key hkey => .inl (h key hkey)

theorem Changes.refl (σ : Store) : Changes σ σ := .of_eq fun _ _ => rfl

theorem Sound.refl (hw : w.Sound) : Advances a P w w := .of_isSome hw (.refl _) (.refl _) fun _ => rfl

theorem Sound.draw (hw : w.Sound) : Advances a P w { w with seq := w.seq + 1 } :=
  .of_isSome ⟨hw.threaded, fun tid row hrow => Nat.le_succ_of_le (hw.numbers tid row hrow), hw.issued⟩ (.refl _)
    (.refl _) fun _ => rfl

theorem Sound.elsewhere (hw : w.Sound) (key : Key) (row : Row key) : Advances a P w (w.elsewhere key row) := by
  unfold Workbench.elsewhere
  split
  case isFalse => exact hw.refl
  case isTrue h =>
    obtain ⟨⟨hkey, hnamed⟩, hsettled⟩ : (key.conversing = false ∧ key.named = true) ∧
        (w.store.lookup key).all (fun old => key.settled old row) = true := by simpa using h
    have hchanges : Changes w.store (w.store.insert key row) := by
      intro key' hkey'
      by_cases hsame : key' = key
      · subst hsame
        refine .inr ⟨hnamed, row, AList.lookup_insert _, fun old hold => ?_⟩
        rw [hold] at hsettled
        exact hsettled
      · exact .inl (AList.lookup_insert_ne hsame)
    have hsame (key' : Key) (hkey' : key'.conversing = true) :
        (w.store.insert key row).lookup key' = w.store.lookup key' := by
      refine AList.lookup_insert_ne ?_
      rintro rfl
      rw [hkey] at hkey'
      cases hkey'
    have hthreaded := hw.threaded.congr (fun id hid => (hsame (.conversations id) rfl).symm ▸ hid)
      (fun tid => hsame _ rfl) fun id key => hsame _ rfl
    have hshifts : Shifts a w.store P w.store (w.store.insert key row) :=
      .of_congr hw.threaded (fun id c hc => (hsame _ rfl).trans hc) fun tid => hsame _ rfl
    refine .of_isSome ⟨hthreaded, fun tid row hrow => ?_, fun t ht => hshifts.issued hw.threaded (hw.issued t ht)⟩
      hshifts hchanges fun id => by rw [hsame _ rfl]
    exact hw.numbers tid row ((hsame _ rfl).symm.trans hrow)

/-- A transaction that adds no turn, or fails. -/
theorem Sound.commit (hw : w.Sound) {body : Tx Unit}
    (hbody : Ensures unlocked body w.store fun _ σ' => ∀ n, Moves a w.store P n w.store σ') :
    Advances a P w { w with store := commit unlocked body w.store } := by
  unfold incidentdesk.commit
  cases hrun : body.run unlocked w.store with
  | error => exact hw.refl
  | ok outcome =>
    have hmoves := hbody outcome.1 outcome.2 hrun
    refine .of_isSome ⟨(hmoves 0).threaded, fun tid row hrow => ?_, fun t ht =>
      (hmoves 0).shifts.issued hw.threaded (hw.issued t ht)⟩ (hmoves 0).shifts (.of_eq (hmoves 0).elsewhere)
      (hmoves 0).conversations
    obtain hseq | ⟨old, hold, hseq⟩ := (hmoves (row.seq + 1)).numbers tid row hrow
    · omega
    · exact hseq ▸ hw.numbers tid old hold

theorem reserve_moves {σ : Store} (snap : Store) (P : Turn → Stored → Prop) (hσ : Threaded σ) {seq : Nat}
    (hpos : 0 < seq) (hseq : ∀ tid row, σ.lookup (Key.conversation_turns tid) = some row → row.seq < seq) (now : Time)
    (u id key : String) (b : ConversationInput) (newID fence : String) :
    Ensures unlocked (reserve a now u id key b newID fence seq) σ fun t σ' =>
      Moves a snap P t.Seq σ σ' ∧ HandsOut u id t σ' := by
  unfold reserve
  simp only [ensures_bind, ensures_ofExcept]
  exact fun _ _ b' hb' =>
    reserveConversationTurn_moves hσ hpos hseq u key (normalizeConversationInput_text hb') newID fence

theorem Sound.post (hw : w.Sound) (now : Time) (u id key : String) (b : ConversationInput) (newID fence : String) :
    Advances a P w (w.post a now u id key b newID fence) := by
  unfold Workbench.post
  cases hrun : (reserve a now u id key b newID fence (w.seq + 1)).run unlocked w.store with
  | error => exact hw.refl
  | ok outcome =>
    obtain ⟨t, σ'⟩ := outcome
    obtain ⟨hmoves, hhands⟩ := reserve_moves w.store P hw.threaded (Nat.succ_pos _)
      (fun tid row hrow => Nat.lt_succ_of_le (hw.numbers tid row hrow)) now u id key b newID fence t σ' hrun
    have hissued : ∀ t' ∈ w.attempts, t'.Issued σ' := fun t' ht' => hmoves.shifts.issued hw.threaded (hw.issued t' ht')
    refine .of_isSome ⟨hmoves.threaded, fun tid row hrow => ?_, fun t' ht' => ?_⟩ hmoves.shifts
      (.of_eq hmoves.elsewhere) hmoves.conversations
    · obtain hseq | ⟨old, hold, hseq⟩ := hmoves.numbers tid row hrow
      · exact hseq ▸ le_max_right _ _
      · exact hseq ▸ (hw.numbers tid old hold).trans (le_max_left _ _)
    · by_cases hstatus : t.Status = .pending
      · simp only [hstatus, if_true, List.mem_append, List.mem_singleton] at ht'
        obtain ht' | rfl := ht'
        · exact hissued t' ht'
        · exact hhands.issued
      · simp only [hstatus, if_false] at ht'
        exact hissued t' ht'

theorem Sound.create (hw : w.Sound) (now : Time) (u key newID : String) :
    Advances a P w { w with store := incidentdesk.commit unlocked (discard (createConversation now u key newID)) w.store } := by
  have hbody : Ensures unlocked (discard (createConversation now u key newID)) w.store fun _ σ' =>
      Advances a P w { w with store := σ' } := by
    unfold createConversation
    rw [ensures_discard]
    simp only [ensures_bind, ensures_ofExcept, ensures_lockRow]
    intro _ _
    cases w.store.lookup (Key.conversations_idem u key) with
    | some id => exact (ensures_ret unlocked).mpr hw.refl
    | none =>
      simp only [ensures_bind, ensures_insert, Tx.pure_eq_ret, ensures_ret]
      intro hnew _
      obtain ⟨σ', hσ'⟩ : ∃ σ' : Store, (w.store.insert (Key.conversations newID) (newConversation now u)).insert
        (Key.conversations_idem u key) newID = σ' := ⟨_, rfl⟩
      rw [hσ']
      have hsame (key' : Key) (hkey : key' ≠ .conversations newID) (hkey' : key' ≠ .conversations_idem u key) :
          σ'.lookup key' = w.store.lookup key' := by
        rw [← hσ', AList.lookup_insert_ne hkey', AList.lookup_insert_ne hkey]
      have hbegun : σ'.lookup (Key.conversations newID) = some (newConversation now u) := by
        rw [← hσ', AList.lookup_insert_ne (by simp), AList.lookup_insert]
      have hkept (id : String) (c : Conversation) (hc : w.store.lookup (Key.conversations id) = some c) :
          σ'.lookup (Key.conversations id) = some c := by
        refine (hsame _ ?_ (by simp)).trans hc
        rintro ⟨⟩
        rw [hnew] at hc
        cases hc
      have hturns (tid : String) : σ'.lookup (Key.conversation_turns tid) = w.store.lookup (Key.conversation_turns tid) :=
        hsame _ (by simp) (by simp)
      have hthreaded : Threaded σ' := hw.threaded.congr (fun id hid => by
        obtain ⟨c, hc⟩ := Option.isSome_iff_exists.mp hid
        rw [hkept id c hc, Option.isSome_some]) hturns fun id key => hsame _ (by simp) (by simp)
      have hshifts : Shifts a w.store P w.store σ' := .of_congr hw.threaded hkept hturns
      refine ⟨⟨hthreaded, fun tid row hrow => hw.numbers tid row (hturns tid ▸ hrow),
        fun t ht => hshifts.issued hw.threaded (hw.issued t ht)⟩, hshifts, .of_eq fun key' hkey' => ?_,
        fun id th hnone hth => ⟨now, u, ?_⟩⟩
      · refine hsame key' ?_ ?_ <;> rintro rfl <;> cases hkey'
      obtain ⟨hc, hthread⟩ := threadOf_eq_some.mp hth
      have hid : id = newID := by
        by_contra hid
        rw [hsame _ (by simpa using hid) (by simp)] at hc
        rw [threadOf, hc] at hnone
        cases hnone
      subst hid
      obtain ⟨c, turns⟩ := th
      obtain rfl : newConversation now u = c := Option.some.inj (hbegun.symm.trans hc)
      obtain rfl : thread σ' id = turns := hthread
      have hempty : thread σ' id = [] := by
        rw [thread_congr (hw.threaded.ascending id) hturns, List.eq_nil_iff_forall_not_mem]
        rintro ⟨tid, row⟩ hmem
        rw [mem_thread_iff] at hmem
        have hisSome := hw.threaded.conversation tid row hmem.1
        rw [hmem.2, hnew] at hisSome
        cases hisSome
      rw [hempty]
  unfold incidentdesk.commit
  cases hrun : (discard (createConversation now u key newID)).run unlocked w.store with
  | error => exact hw.refl
  | ok outcome => exact hbody outcome.1 outcome.2 hrun

theorem Sound.step (hw : w.Sound) (op : Op) : Advances a (w.Records op) w (w.step a op) := by
  cases op with
  | elsewhere key row => exact hw.elsewhere key row
  | draw => exact hw.draw
  | create now u key newID => exact hw.create now u key newID
  | post now u id key b newID fence => exact hw.post now u id key b newID fence
  | complete now n answer decision =>
    simp only [Workbench.step]
    cases ht : w.attempts[n]? with
    | none => exact hw.refl
    | some t =>
      refine hw.commit (completeConversationTurn_moves hw.threaded (hw.issued t (List.mem_of_getElem? ht)) ?_)
      exact fun row s hmatches hresponse hstatus => ⟨now, n, answer, decision, t, rfl, ht, hmatches, hresponse, hstatus⟩
  | fail n err =>
    simp only [Workbench.step]
    cases ht : w.attempts[n]? with
    | none => exact hw.refl
    | some t => exact hw.commit (failConversationTurn_moves hw.threaded t.turn err)

/-- A database without conversations. -/
theorem Sound.init {σ : Store} (hσ : Initial σ) : Sound { store := σ, seq := 0, attempts := [] } where
  threaded :=
    { ascending := fun id => by
        have hempty : thread σ id = [] := List.eq_nil_iff_forall_not_mem.mpr fun ⟨tid, row⟩ hmem => by
          rw [mem_thread_iff, hσ (.conversation_turns tid) rfl] at hmem
          cases hmem.1
        rw [hempty]
        exact .nil
      conversation := fun tid row hrow => by
        rw [hσ (.conversation_turns tid) rfl] at hrow
        cases hrow
      indexed := fun id key tid htid => by
        rw [hσ (.conversation_turns_idem id key) rfl] at htid
        cases htid }
  numbers tid row hrow := by
    rw [hσ (.conversation_turns tid) rfl] at hrow
    cases hrow
  issued t ht := by cases ht

theorem sound_run (hw : w.Sound) (ops : List Op) : (machine.run (Workbench.step a) w ops).Sound :=
  machine.run_invariant hw (fun _ op hw => (hw.step op).sound) ops

theorem sound_after {σ : Store} (hσ : Initial σ) (ops : List Op) : (after a σ ops).Sound := sound_run (.init hσ) ops

theorem Changes.named {σ σ' : Store} (h : Changes σ σ') (hσ : Named σ) : Named σ' := by
  intro key hkey
  have hconversing : key.conversing = false := by
    cases key with
    | members | query_datasets => rfl
    | _ => cases hkey
  obtain hsame | ⟨hnamed, -⟩ := h key hconversing
  · exact hsame.trans (hσ key hkey)
  · rw [hkey] at hnamed
    cases hnamed

/-- A row that is there stays, and keeps what the tasks and datasets are. -/
theorem Changes.settled {σ σ' : Store} (h : Changes σ σ') (key : Key) {row : Row key} (hkey : key.conversing = false)
    (hrow : σ.lookup key = some row) :
    ∃ row', σ'.lookup key = some row' ∧ (row' = row ∨ key.settled row row' = true) := by
  obtain hsame | ⟨-, row', hrow', hsettled⟩ := h key hkey
  · exact ⟨row, hsame.trans hrow, .inl rfl⟩
  · exact ⟨row', hrow', .inr (hsettled row hrow)⟩

/-- What is true of a conversation without turns and kept by all that can happen
to one, and by what happens around it, is true of every conversation. -/
theorem thread_invariant {σ : Store} {I : Store → Thread → Prop} {ok : Workbench → Op → Prop} (hσ : Initial σ)
    (hnew : ∀ σ now u, I σ ⟨newConversation now u, []⟩)
    (hstep : ∀ w op th th', w.Sound → ok w op → I w.store th → Thread.Step a w.store (w.Records op) th th' →
      I w.store th')
    (hchanges : ∀ σ σ' th, Changes σ σ' → I σ th → I σ' th) {ops : List Op}
    (hok : machine.Always (Workbench.step a) ok { store := σ, seq := 0, attempts := [] } ops) :
    ∀ id th, threadOf (after a σ ops).store id = some th → I (after a σ ops).store th := by
  refine (machine.run_invariant_along (I := fun w => w.Sound ∧ ∀ id th, threadOf w.store id = some th → I w.store th)
    ⟨.init hσ, fun id th hth => ?_⟩ ?_ hok).2
  · rw [threadOf, hσ (.conversations id) rfl] at hth
    cases hth
  · rintro w op ⟨hw, hI⟩ hop
    have hadvances : Advances a (w.Records op) w (w.step a op) := hw.step op
    refine ⟨hadvances.sound, fun id th' hth' => ?_⟩
    cases hth : threadOf w.store id with
    | none =>
      obtain ⟨now, u, rfl⟩ := hadvances.begun id th' hth hth'
      exact hnew _ now u
    | some th =>
      obtain ⟨th'', hth'', hsteps⟩ := hadvances.shifts id th hth
      have hkept : I w.store th'' := by
        clear hth''
        induction hsteps with
        | refl => exact hI id th hth
        | tail _ hlast ih => exact hstep w op _ _ hw hop ih hlast
      exact hchanges _ _ th' hadvances.changes (Option.some.inj (hth''.symm.trans hth') ▸ hkept)

end Workbench

end incidentdesk
