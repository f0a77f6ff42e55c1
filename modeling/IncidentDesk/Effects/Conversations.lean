import IncidentDesk.Threads

namespace incidentdesk

open sql sql.Tx

variable {a : App} {now : Time} {skip : Key → Bool} {snap σ σ' σ'' : Store} {P : Turn → Stored → Prop} {n : Nat}
  {id : String}

theorem threadOf_eq_some {th : Thread} :
    threadOf σ id = some th ↔ σ.lookup (Key.conversations id) = some th.conversation ∧ thread σ id = th.turns := by
  obtain ⟨c, turns⟩ := th
  simp only [threadOf, Option.map_eq_some_iff, Thread.mk.injEq]
  constructor
  · rintro ⟨_, hc, rfl, hturns⟩
    exact ⟨hc, hturns⟩
  · exact fun ⟨hc, hturns⟩ => ⟨c, hc, rfl, hturns⟩

namespace Shifts

theorem refl (σ : Store) : Shifts a snap P σ σ := fun _ th h => ⟨th, h, .refl⟩

theorem trans (h : Shifts a snap P σ σ') (h' : Shifts a snap P σ' σ'') : Shifts a snap P σ σ'' := by
  intro id th hth
  obtain ⟨th', hth', hsteps⟩ := h id th hth
  obtain ⟨th'', hth'', hsteps'⟩ := h' id th' hth'
  exact ⟨th'', hth'', hsteps.trans hsteps'⟩

/-- Where no row of a turn and no conversation is changed. -/
theorem of_congr (hσ : Threaded σ)
    (hconversation : ∀ id c, σ.lookup (Key.conversations id) = some c → σ'.lookup (Key.conversations id) = some c)
    (hturns : ∀ tid, σ'.lookup (Key.conversation_turns tid) = σ.lookup (Key.conversation_turns tid)) :
    Shifts a snap P σ σ' := by
  intro id th hth
  obtain ⟨hc, hthread⟩ := threadOf_eq_some.mp hth
  refine ⟨th, threadOf_eq_some.mpr ⟨hconversation id _ hc, ?_⟩, .refl⟩
  rw [thread_congr (hσ.ascending id) hturns, hthread]

/-- Turns are updated, each thread by a step of its own. -/
theorem of_map {g : String → Turn → Turn} (hσ : Threaded σ)
    (hconversation : ∀ id, σ'.lookup (Key.conversations id) = σ.lookup (Key.conversations id))
    (hlookup : ∀ tid, σ'.lookup (Key.conversation_turns tid) = (σ.lookup (Key.conversation_turns tid)).map (g tid))
    (hg : ∀ tid row, (g tid row).conversation = row.conversation)
    (hg' : ∀ tid row, (g tid row).seq = row.seq)
    (hstep : ∀ id th, threadOf σ id = some th →
      Relation.ReflTransGen (Thread.Step a snap P) th (th.mapTurns g)) :
    Shifts a snap P σ σ' := by
  intro id th hth
  obtain ⟨hc, hthread⟩ := threadOf_eq_some.mp hth
  refine ⟨th.mapTurns g, threadOf_eq_some.mpr ⟨(hconversation id).trans hc, ?_⟩, hstep id th hth⟩
  rw [thread_map (hσ.ascending id) hlookup hg hg', hthread]
  rfl

end Shifts

/-- Turns are updated in place. -/
theorem Threaded.map {g : String → Turn → Turn} (hσ : Threaded σ)
    (hconversation : ∀ id, (σ'.lookup (Key.conversations id)).isSome = (σ.lookup (Key.conversations id)).isSome)
    (hindex : ∀ id key, σ'.lookup (Key.conversation_turns_idem id key) =
      σ.lookup (Key.conversation_turns_idem id key))
    (hlookup : ∀ tid, σ'.lookup (Key.conversation_turns tid) = (σ.lookup (Key.conversation_turns tid)).map (g tid))
    (hg : ∀ tid row, (g tid row).conversation = row.conversation)
    (hg' : ∀ tid row, (g tid row).seq = row.seq) : Threaded σ' where
  ascending id := by
    rw [thread_map (hσ.ascending id) hlookup hg hg', Ascending, List.pairwise_map]
    simpa only [hg'] using hσ.ascending id
  conversation tid row hrow := by
    rw [hlookup, Option.map_eq_some_iff] at hrow
    obtain ⟨old, hold, rfl⟩ := hrow
    rw [hconversation, hg]
    exact hσ.conversation tid old hold
  indexed id key tid htid := by
    obtain ⟨row, hrow, hid⟩ := hσ.indexed id key tid (hindex id key ▸ htid)
    exact ⟨g tid row, by rw [hlookup, hrow, Option.map_some], (hg tid row).trans hid⟩

theorem mem_thread_iff {tid : String} {row : Turn} :
    (tid, row) ∈ thread σ id ↔ σ.lookup (Key.conversation_turns tid) = some row ∧ row.conversation = id := by
  rw [mem_thread, mem_turnsOf]

theorem hasPending_eq {th : Thread} (hth : threadOf σ id = some th) : hasPending σ id = th.pending := by
  rw [Thread.pending, ← (threadOf_eq_some.mp hth).2, hasPending]
  exact (thread_perm σ id).any_eq.symm

theorem length_turnsOf {th : Thread} (hth : threadOf σ id = some th) : (turnsOf σ id).length = th.turns.length := by
  rw [← (threadOf_eq_some.mp hth).2]
  exact (thread_perm σ id).length_eq.symm

/-- The last turns of the table are those of the thread. -/
theorem recentTurns_eq {th : Thread} (hσ : Threaded σ) (hth : threadOf σ id = some th) :
    recentTurns σ id th.conversation.context_after_seq =
      (th.completed.filter fun t => th.conversation.context_after_seq < t.seq).reverse.take 4 := by
  rw [recentTurns, Thread.completed, List.filter_filter, ← (threadOf_eq_some.mp hth).2]
  have hsorted : ((thread σ id).map Prod.snd).Pairwise fun t t' => t.seq < t'.seq :=
    List.pairwise_map.mpr (hσ.ascending id)
  have hperm := ((thread_perm σ id).symm.map Prod.snd).filter fun t =>
    t.status = .completed && th.conversation.context_after_seq < t.seq
  refine congrArg (List.take 4) (insertionSort_eq_reverse (f := Turn.seq) (hsorted.filter _) (hperm.trans ?_))
  refine .of_eq (List.filter_congr fun t _ => Bool.and_comm _ _)

theorem ensures_conversationHistory {th : Thread} (hσ : Threaded σ) (hth : threadOf σ id = some th) :
    Ensures skip (conversationHistory a id th.conversation.summary) σ fun history σ' =>
      σ' = σ ∧ th.history a = some history := by
  unfold conversationHistory
  simp only [ensures_bind, ensures_snapshot, ensures_require, Tx.pure_eq_ret, ensures_ret, true_and,
    (threadOf_eq_some.mp hth).1, Option.map_some, Option.getD_some, recentTurns_eq hσ hth]
  intro pairs hpairs
  rw [Thread.history, hpairs]
  rfl

namespace Moves

theorem trans (h : Moves a snap P n σ σ') (h' : Moves a snap P n σ' σ'') : Moves a snap P n σ σ'' where
  threaded := h'.threaded
  shifts := h.shifts.trans h'.shifts
  conversations id := (h'.conversations id).trans (h.conversations id)
  numbers tid row'' hrow'' := by
    obtain hn | ⟨row', hrow', hseq'⟩ := h'.numbers tid row'' hrow''
    · exact .inl hn
    · obtain hn | ⟨row, hrow, hseq⟩ := h.numbers tid row' hrow'
      · exact .inl (hseq'.symm.trans hn)
      · exact .inr ⟨row, hrow, hseq.trans hseq'⟩
  elsewhere key hkey := (h'.elsewhere key hkey).trans (h.elsewhere key hkey)

end Moves

/-- Turns are updated in place, each thread by a step of its own. -/
theorem Moves.map {p : String → Turn → Bool} {f : Turn → Turn} (hσ : Threaded σ)
    (hlookup : ∀ tid, σ'.lookup (Key.conversation_turns tid) =
      (σ.lookup (Key.conversation_turns tid)).map fun row => if p tid row then f row else row)
    (hothers : ∀ key, (∀ tid, key ≠ .conversation_turns tid) → σ'.lookup key = σ.lookup key)
    (hf : ∀ row, (f row).conversation = row.conversation) (hf' : ∀ row, (f row).seq = row.seq)
    (hstep : ∀ id th, threadOf σ id = some th →
      Relation.ReflTransGen (Thread.Step a snap P) th (th.mapTurns fun tid row => if p tid row then f row else row)) :
    Moves a snap P n σ σ' := by
  have hg (tid : String) (row : Turn) :
      (if p tid row then f row else row).conversation = row.conversation := by
    split
    · exact hf row
    · rfl
  have hg' (tid : String) (row : Turn) : (if p tid row then f row else row).seq = row.seq := by
    split
    · exact hf' row
    · rfl
  have hconversation (id : String) : σ'.lookup (Key.conversations id) = σ.lookup (Key.conversations id) :=
    hothers _ (by simp)
  refine ⟨hσ.map (fun id => by rw [hconversation]) (fun id key => hothers _ (by simp)) hlookup hg hg', ?_,
    fun id => by rw [hconversation], ?_, ?_⟩
  · exact .of_map hσ hconversation hlookup hg hg' hstep
  · intro tid row' hrow'
    rw [hlookup, Option.map_eq_some_iff] at hrow'
    obtain ⟨row, hrow, rfl⟩ := hrow'
    exact .inr ⟨row, hrow, (hg' tid row).symm⟩
  · intro key hkey
    refine hothers key fun tid => ?_
    rintro rfl
    cases hkey

variable (a snap P) in
theorem interrupt_moves (hσ : Threaded σ) :
    Ensures skip (updateTurns (Turn.interrupted now id) fun row =>
      { row with status := .failed, error := some "conversation_interrupted" }) σ fun _ σ' =>
        (∀ n, Moves a snap P n σ σ') ∧
          ∀ id, σ'.lookup (Key.conversations id) = σ.lookup (Key.conversations id) := by
  rw [ensures_updateAll]
  refine ⟨fun n => .map (p := fun _ row => row.interrupted now id) (f := fun row =>
    { row with status := .failed, error := some "conversation_interrupted" }) hσ (fun tid => by simp) ?_
    (fun _ => rfl) (fun _ => rfl) fun id' th _ => .single ?_, fun id => by simp⟩
  · intro key hkey
    rw [Store.lookup_updateRows]
    cases hrow : σ.lookup key with
    | none => rfl
    | some row =>
      cases key with
      | conversation_turns tid => exact absurd rfl (hkey tid)
      | _ => rfl
  · refine .close th _ _ fun tid row hp => ?_
    simp only [Turn.interrupted, Bool.and_eq_true, decide_eq_true_eq] at hp
    exact hp.1.2

/-- The attempt that a transaction hands out works on a turn that is its own. -/
structure HandsOut (u id : String) (t : savedTurn) (σ : Store) : Prop where
  issued : Workbench.Attempt.Issued σ ⟨u, id, t⟩
  live : t.Status = .pending → Workbench.Attempt.Live σ ⟨u, id, t⟩

theorem Thread.mapTurns_congr {th : Thread} {g g' : String → Turn → Turn}
    (h : ∀ tid row, (tid, row) ∈ th.turns → g tid row = g' tid row) : th.mapTurns g = th.mapTurns g' := by
  have hturns : th.turns.map (fun e => (e.1, g e.1 e.2)) = th.turns.map fun e => (e.1, g' e.1 e.2) :=
    List.map_congr_left fun ⟨tid, row⟩ he => Prod.ext rfl (h tid row he)
  rw [Thread.mapTurns, hturns, Thread.mapTurns]

/-- Where no turn of a thread is touched the thread stays as it is. -/
theorem Thread.mapTurns_eq {th : Thread} {g : String → Turn → Turn}
    (h : ∀ tid row, (tid, row) ∈ th.turns → g tid row = row) : th.mapTurns g = th := by
  rw [Thread.mapTurns_congr h, Thread.mapTurns]
  simp

theorem retryTurn_moves {th : Thread} {fence tid : String} {b : ConversationInput} {row : Turn} (hσ : Threaded σ)
    (hth : threadOf σ id = some th) (hrow : σ.lookup (Key.conversation_turns tid) = some row)
    (hid : row.conversation = id) (hstatus : row.status = .failed)
    (hbase : row.base_revision = th.conversation.revision) (u : String) :
    Ensures skip (retryTurn now id fence th.conversation.revision b tid row) σ fun t σ' =>
      Moves a snap P t.Seq σ σ' ∧ HandsOut u id t σ' := by
  unfold retryTurn
  simp only [ensures_bind, ensures_refuse, ensures_snapshot, ensures_updateOne, Tx.pure_eq_ret, ensures_ret]
  intro _ hpending
  rw [hasPending_eq hth, Bool.not_eq_true] at hpending
  have hmem : (tid, row) ∈ th.turns := (threadOf_eq_some.mp hth).2 ▸ mem_thread_iff.mpr ⟨hrow, hid⟩
  let retried (row : Turn) : Turn :=
    { row with status := .pending, error := none, fence, lease_until := some (turnLease now) }
  have hretried : (σ.updateOne (Key.conversation_turns tid) (fun _ => true) retried).lookup
      (Key.conversation_turns tid) = some (retried row) := by simp [hrow]
  refine ⟨.map (p := fun tid' _ => tid' = tid) (f := retried) hσ ?_ ?_ (fun _ => rfl) (fun _ => rfl) ?_,
    ⟨retried row, hretried, hid, ⟨rfl, rfl, rfl, rfl, rfl, rfl⟩⟩, fun _ => ⟨retried row, hretried, rfl, rfl⟩⟩
  · intro tid'
    by_cases htid : tid' = tid
    · subst htid
      simp [hrow, retried]
    · simp [htid]
  · exact fun key hkey => Store.lookup_updateOne_ne (hkey tid) _ _ _
  · intro id' th' hth'
    by_cases hid' : id' = id
    · subst hid'
      obtain rfl := Option.some.inj (hth.symm.trans hth')
      simpa only [decide_eq_true_eq] using .single (.retry th tid fence row _ hmem hstatus hbase hpending)
    · rw [Thread.mapTurns_eq]
      intro tid' row' hmem'
      rw [← (threadOf_eq_some.mp hth').2, mem_thread_iff] at hmem'
      refine if_neg fun htid => hid' ?_
      obtain rfl : tid' = tid := of_decide_eq_true htid
      exact (Option.some.inj (hrow.symm.trans hmem'.1) ▸ hmem'.2).symm.trans hid

/-- A turn is added to its conversation under a new number. -/
theorem Moves.add {th : Thread} {key tid : String} {row : Turn} (hσ : Threaded σ) (hth : threadOf σ id = some th)
    (hid : row.conversation = id) (hnew : σ.lookup (Key.conversation_turns tid) = none)
    (hseq : ∀ tid old, σ.lookup (Key.conversation_turns tid) = some old → old.seq < row.seq) (hn : row.seq = n)
    (hstep : Thread.Step a snap P th (th.add tid row)) :
    Moves a snap P n σ
      ((σ.insert (Key.conversation_turns tid) row).insert (Key.conversation_turns_idem id key) tid) := by
  let σ' : Store := (σ.insert (Key.conversation_turns tid) row).insert (Key.conversation_turns_idem id key) tid
  have hlast (id' : String) : ∀ e ∈ thread σ id', e.2.seq < row.seq := fun e he =>
    hseq e.1 e.2 (mem_thread_iff.mp he).1
  have hascending (id' : String) : Ascending (thread (σ.insert (Key.conversation_turns tid) row) id') := by
    rw [thread_insert (hσ.ascending id') hnew (hlast id')]
    refine List.pairwise_append.mpr ⟨hσ.ascending id', by split <;> simp, fun e he e' he' => ?_⟩
    split at he'
    · rw [List.mem_singleton] at he'
      exact he' ▸ hlast id' e he
    · cases he'
  have hthread (id' : String) : thread σ' id' = thread σ id' ++ if id = id' then [(tid, row)] else [] := by
    rw [thread_congr (hascending id') fun tid' => AList.lookup_insert_ne (by simp),
      thread_insert (hσ.ascending id') hnew (hlast id'), hid]
  have hlookup (tid' : String) : σ'.lookup (Key.conversation_turns tid') =
      (σ.insert (Key.conversation_turns tid) row).lookup (Key.conversation_turns tid') :=
    AList.lookup_insert_ne (by simp)
  have hconversation (id' : String) : σ'.lookup (Key.conversations id') = σ.lookup (Key.conversations id') :=
    (AList.lookup_insert_ne (by simp)).trans (AList.lookup_insert_ne (by simp))
  constructor
  · constructor
    · intro id'
      rw [thread_congr (hascending id') hlookup]
      exact hascending id'
    · intro tid' row' hrow'
      rw [hlookup] at hrow'
      rw [hconversation]
      by_cases htid : tid' = tid
      · subst htid
        obtain rfl := Option.some.inj ((AList.lookup_insert σ).symm.trans hrow')
        rw [hid, (threadOf_eq_some.mp hth).1, Option.isSome_some]
      · exact hσ.conversation tid' row' ((AList.lookup_insert_ne (by simpa using htid)).symm.trans hrow')
    · intro id' key' tid' htid'
      by_cases hkey : id' = id ∧ key' = key
      · obtain ⟨rfl, rfl⟩ := hkey
        obtain rfl := Option.some.inj ((AList.lookup_insert _).symm.trans htid')
        exact ⟨row, by rw [hlookup, AList.lookup_insert], hid⟩
      · rw [AList.lookup_insert_ne (by simpa using hkey), AList.lookup_insert_ne (by simp)] at htid'
        obtain ⟨old, hold, hold'⟩ := hσ.indexed id' key' tid' htid'
        have hne : tid' ≠ tid := by
          rintro rfl
          rw [hnew] at hold
          cases hold
        exact ⟨old, by rw [hlookup, AList.lookup_insert_ne (by simpa using hne), hold], hold'⟩
  · intro id' th' hth'
    obtain ⟨hc', hturns'⟩ := threadOf_eq_some.mp hth'
    by_cases hid' : id = id'
    · subst hid'
      obtain rfl := Option.some.inj (hth.symm.trans hth')
      refine ⟨th.add tid row, threadOf_eq_some.mpr ⟨(hconversation id).trans hc', ?_⟩, .single hstep⟩
      rw [hthread, if_pos rfl, hturns']
      rfl
    · refine ⟨th', threadOf_eq_some.mpr ⟨(hconversation id').trans hc', ?_⟩, .refl⟩
      rw [hthread, if_neg hid', List.append_nil, hturns']
  · exact fun id' => by rw [hconversation]
  · intro tid' row' hrow'
    rw [hlookup] at hrow'
    by_cases htid : tid' = tid
    · subst htid
      exact .inl (Option.some.inj ((AList.lookup_insert σ).symm.trans hrow') ▸ hn)
    · exact .inr ⟨row', (AList.lookup_insert_ne (by simpa using htid)).symm.trans hrow', rfl⟩
  · intro key' hkey'
    have hne : key' ≠ Key.conversation_turns_idem id key ∧ key' ≠ Key.conversation_turns tid := by
      constructor <;> rintro rfl <;> cases hkey'
    rw [AList.lookup_insert_ne hne.1, AList.lookup_insert_ne hne.2]

theorem newTurn_moves {th : Thread} {key newID fence : String} {seq : Nat} {b : ConversationInput} (hσ : Threaded σ)
    (hth : threadOf σ id = some th) (hpos : 0 < seq)
    (hseq : ∀ tid row, σ.lookup (Key.conversation_turns tid) = some row → row.seq < seq)
    (htext : validContent b.Text = true) (u : String) :
    Ensures skip (newTurn a now id key newID fence seq th.conversation.revision th.conversation.summary b) σ
      fun t σ' => Moves a snap P t.Seq σ σ' ∧ HandsOut u id t σ' := by
  unfold newTurn
  simp only [ensures_bind, ensures_refuse, ensures_snapshot, Tx.pure_eq_ret, ensures_ret, hasPending_eq hth,
    length_turnsOf hth, Bool.not_eq_true]
  intro _ hpending hlength
  refine (ensures_conversationHistory hσ hth).mono skip ?_
  rintro history σ' ⟨hσ', hhistory⟩
  subst hσ'
  simp only [ensures_insert]
  intro hnew hfree
  have hfresh : ∀ e ∈ th.turns, e.1 ≠ newID := by
    rintro ⟨tid, row⟩ hmem rfl
    rw [← (threadOf_eq_some.mp hth).2, mem_thread_iff, hnew] at hmem
    cases hmem.1
  have hlast : ∀ e ∈ th.turns, e.2.seq < seq := by
    rintro ⟨tid, row⟩ hmem
    rw [← (threadOf_eq_some.mp hth).2, mem_thread_iff] at hmem
    exact hseq tid row hmem.1
  refine ⟨.add hσ hth rfl hnew hseq rfl (.add th newID _ rfl rfl hpending hpos hlast (by omega) hfresh hhistory rfl htext), ?_,
    fun _ => ?_⟩
  · exact ⟨_, (AList.lookup_insert_ne (by simp)).trans (AList.lookup_insert _), rfl, ⟨rfl, rfl, rfl, rfl, rfl, rfl⟩⟩
  · exact ⟨_, (AList.lookup_insert_ne (by simp)).trans (AList.lookup_insert _), rfl, rfl⟩

/-- The index leads to a turn of the conversation. -/
theorem Threaded.turnByIdem (hσ : Threaded σ) {key tid : String} {row : Turn}
    (h : turnByIdem σ id key = some (tid, row)) :
    σ.lookup (Key.conversation_turns tid) = some row ∧ row.conversation = id := by
  simp only [incidentdesk.turnByIdem, Option.bind_eq_some_iff, Option.map_eq_some_iff] at h
  obtain ⟨tid', htid, row', hrow, heq⟩ := h
  obtain ⟨rfl, rfl⟩ := Prod.mk.inj heq
  obtain ⟨row'', hrow'', hid⟩ := hσ.indexed id key tid' htid
  exact ⟨hrow, Option.some.inj (hrow.symm.trans hrow'') ▸ hid⟩

theorem reserveConversationTurn_moves (hσ : Threaded σ) {seq : Nat} (hpos : 0 < seq)
    (hseq : ∀ tid row, σ.lookup (Key.conversation_turns tid) = some row → row.seq < seq)
    (u key : String) {b : ConversationInput} (htext : validContent b.Text = true) (newID fence : String) :
    Ensures skip (reserveConversationTurn a now u id key b newID fence seq) σ fun t σ' =>
      Moves a snap P t.Seq σ σ' ∧ HandsOut u id t σ' := by
  unfold reserveConversationTurn
  simp only [ensures_bind, ensures_selectForUpdate, ensures_snapshot, ensures_require]
  intro c hc
  obtain ⟨hc, -⟩ := Option.filter_eq_some_iff.mp hc
  refine (interrupt_moves a snap P hσ).mono skip ?_
  rintro _ σ₁ ⟨h₁, hsame⟩
  have hσ₁ := (h₁ 0).threaded
  have hth : threadOf σ₁ id = some ⟨c, thread σ₁ id⟩ := by rw [threadOf, hsame, hc, Option.map_some]
  have hstep {t : savedTurn} {σ' : Store} (h : Moves a snap P t.Seq σ₁ σ' ∧ HandsOut u id t σ') :
      Moves a snap P t.Seq σ σ' ∧ HandsOut u id t σ' := ⟨(h₁ t.Seq).trans h.1, h.2⟩
  cases hturn : turnByIdem σ₁ id key with
  | none =>
    have hseq₁ : ∀ tid row, σ₁.lookup (Key.conversation_turns tid) = some row → row.seq < seq := by
      intro tid row hrow
      obtain hn | ⟨old, hold, hsame⟩ := (h₁ (row.seq + 1)).numbers tid row hrow
      · omega
      · exact hsame ▸ hseq tid old hold
    exact (newTurn_moves hσ₁ hth hpos hseq₁ htext u).mono skip fun t σ' h => hstep h
  | some found =>
    obtain ⟨tid, row⟩ := found
    obtain ⟨hrow, hid⟩ := hσ₁.turnByIdem hturn
    simp only [ensures_bind, ensures_refuse]
    intro _
    cases hstatus : row.status with
    | completed =>
      refine (ensures_ret skip).mpr ⟨h₁ _, ⟨row, hrow, hid, ⟨rfl, rfl, rfl, rfl, rfl, rfl⟩⟩, fun hpending => ?_⟩
      exact absurd (hstatus.symm.trans hpending) (by decide)
    | pending => exact ensures_raise skip
    | failed =>
      simp only [ensures_bind, ensures_refuse]
      intro hbase
      exact (retryTurn_moves hσ₁ hth hrow hid hstatus (by simpa using hbase) u).mono skip fun t σ' h => hstep h

theorem failConversationTurn_moves (hσ : Threaded σ) (t : savedTurn) (err : Error) :
    Ensures skip (failConversationTurn t err) σ fun _ σ' => ∀ n, Moves a snap P n σ σ' := by
  unfold failConversationTurn
  simp only [ensures_bind, ensures_updateOne, Tx.pure_eq_ret, ensures_ret]
  intro n
  refine .map (p := fun tid row => tid = t.ID && (row.fence = t.Fence && row.status = .pending)) (f := fun row =>
    { row with status := .failed, error := some (errorCode err) }) hσ (fun tid => ?_)
    (fun key hkey => Store.lookup_updateOne_ne (hkey t.ID) _ _ _) (fun _ => rfl) (fun _ => rfl) fun id th _ => .single ?_
  · by_cases htid : tid = t.ID
    · subst htid
      simp
    · simp [htid]
  · refine .close th _ _ fun tid row hp => ?_
    simp only [Bool.and_eq_true, decide_eq_true_eq] at hp
    exact hp.2.2

theorem completeConversationTurn_moves {u : String} {t : savedTurn} {response : Json} {status : Nat}
    (hσ : Threaded σ) (hissued : Workbench.Attempt.Issued σ ⟨u, id, t⟩)
    (hP : ∀ row s, t.Matches row → s.response = response → s.status = status → P row s) :
    Ensures skip (completeConversationTurn a now u id t response status) σ fun _ σ' => ∀ n, Moves a σ P n σ σ' := by
  obtain ⟨row, hrow, hid, hmatches⟩ : ∃ row, σ.lookup (Key.conversation_turns t.ID) = some row ∧
    row.conversation = id ∧ t.Matches row := hissued
  unfold completeConversationTurn
  simp only [ensures_bind, ensures_selectForUpdate, ensures_snapshot, ensures_require, ensures_refuse, ensures_updateOne,
    Tx.pure_eq_ret, ensures_ret]
  rintro c hc hrevision ⟨team, dataset, version⟩ hsources hupdated
  obtain ⟨hc, hscope⟩ := Option.filter_eq_some_iff.mp hc
  let s : Stored := { response, status, team, dataset, version, now }
  simp only [hrow, Option.map_eq_none_iff, Option.filter_eq_none_iff, Option.some.injEq, forall_eq', Bool.not_eq_true,
    Bool.and_eq_false_imp, decide_eq_true_eq, decide_eq_false_iff_not, Classical.not_imp, not_not] at hupdated
  obtain ⟨hfence, hstatus⟩ := hupdated
  have howner : u = c.subject := by
    simp only [conversationScope, Bool.and_eq_true, decide_eq_true_eq] at hscope
    exact hscope.1.1.symm
  have hrevision : row.base_revision = c.revision := by
    rw [← hmatches.base_revision]
    simpa using (not_not.mp hrevision).symm
  generalize hσ' : Store.updateOne (Key.conversations id) _ _ _ = σ'
  have hturns (tid : String) : σ'.lookup (Key.conversation_turns tid) =
      (σ.lookup (Key.conversation_turns tid)).map fun row => if tid = t.ID then row.answered s else row := by
    rw [← hσ', Store.lookup_updateOne_ne (by simp)]
    by_cases htid : tid = t.ID
    · subst htid
      simp [hrow, hfence, hstatus, Turn.answered, s]
    · simp [htid]
  have hconversation : σ'.lookup (Key.conversations id) = some (c.answered a s t.ID row) := by
    rw [← hσ', Store.lookup_updateOne_self, Store.lookup_updateOne_ne (by simp), hc]
    simp [Conversation.answered, newSummary, Turn.saved, hmatches.input, hmatches.seq, hmatches.created_at, s]
  have hothers (key : Key) (hkey : ∀ tid, key ≠ .conversation_turns tid) (hkey' : key ≠ .conversations id) :
      σ'.lookup key = σ.lookup key := by
    rw [← hσ', Store.lookup_updateOne_ne hkey', Store.lookup_updateOne_ne (hkey t.ID)]
  have hg (tid : String) (row : Turn) :
      (if tid = t.ID then row.answered s else row).conversation = row.conversation := by split <;> rfl
  have hg' (tid : String) (row : Turn) : (if tid = t.ID then row.answered s else row).seq = row.seq := by split <;> rfl
  have hconversation' (id' : String) (hid' : id' ≠ id) :
      σ'.lookup (Key.conversations id') = σ.lookup (Key.conversations id') :=
    hothers _ (by simp) (by simpa using hid')
  have hisSome (id' : String) :
      (σ'.lookup (Key.conversations id')).isSome = (σ.lookup (Key.conversations id')).isSome := by
    by_cases hid' : id' = id
    · rw [hid', hconversation, hc, Option.isSome_some, Option.isSome_some]
    · rw [hconversation' id' hid']
  have hthread (id' : String) : thread σ' id' =
      (thread σ id').map fun e => (e.1, if e.1 = t.ID then e.2.answered s else e.2) :=
    thread_map (hσ.ascending id') hturns hg hg'
  intro n
  refine ⟨hσ.map hisSome (fun id key => hothers _ (by simp) (by simp)) hturns hg hg', fun id' th hth => ?_, hisSome, ?_, ?_⟩
  · obtain ⟨hc', hturns'⟩ := threadOf_eq_some.mp hth
    by_cases hid' : id' = id
    · subst hid'
      obtain rfl : th.conversation = c := Option.some.inj (hc'.symm.trans hc)
      have hmem : (t.ID, row) ∈ th.turns := hturns' ▸ mem_thread_iff.mpr ⟨hrow, hid⟩
      refine ⟨_, threadOf_eq_some.mpr ⟨hconversation, ?_⟩,
        .single (.complete th t.ID row s hmem hstatus hrevision (howner ▸ hscope) (howner ▸ hsources)
          (hP row s hmatches rfl rfl))⟩
      rw [hthread, hturns']
      rfl
    · refine ⟨th, threadOf_eq_some.mpr ⟨(hconversation' id' hid').trans hc', ?_⟩, .refl⟩
      rw [hthread, hturns']
      refine (List.map_congr_left ?_).trans (List.map_id _)
      rintro ⟨tid, row'⟩ hmem
      rw [← hturns', mem_thread_iff] at hmem
      refine Prod.ext rfl (if_neg ?_)
      rintro rfl
      exact hid' (hmem.2.symm.trans (Option.some.inj (hrow.symm.trans hmem.1) ▸ hid))
  · intro tid row' hrow'
    rw [hturns, Option.map_eq_some_iff] at hrow'
    obtain ⟨old, hold, rfl⟩ := hrow'
    exact .inr ⟨old, hold, (hg' tid old).symm⟩
  · intro key hkey
    refine hothers key (fun tid => ?_) ?_ <;> rintro rfl <;> cases hkey

end incidentdesk
