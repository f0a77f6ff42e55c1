import IncidentDesk.Effects.Workbench

namespace incidentdesk

namespace Thread

variable {a : App} {snap : Store} {P : Turn → Stored → Prop} {th th' : Thread}

/-- The turns of a conversation follow each other: the revision counts the
answered ones, in the order of their numbers, and nobody works on two. -/
structure Linear (th : Thread) : Prop where
  numbered : Ascending th.turns
  positive : ∀ e ∈ th.turns, 0 < e.2.seq
  ids : (th.turns.map Prod.fst).Nodup
  bases : th.turns.Pairwise fun e e' => e.2.base_revision ≤ e'.2.base_revision
  le : ∀ e ∈ th.turns, e.2.base_revision ≤ th.conversation.revision
  one : th.turns.Pairwise fun e e' => ¬ (e.2.status = .pending ∧ e'.2.status = .pending)
  current : ∀ e ∈ th.turns, e.2.status = .pending → e.2.base_revision = th.conversation.revision
  revision : th.conversation.revision = th.completed.length
  completed : th.completed.map (·.base_revision) = (List.range th.completed.length).map Int.ofNat
  length : th.turns.length ≤ 500

theorem filter_map_congr {α β : Type} {p : β → Bool} {f g : α → β} {l : List α}
    (h : ∀ x ∈ l, p (f x) = p (g x) ∧ (p (g x) = true → f x = g x)) : (l.map f).filter p = (l.map g).filter p := by
  induction l with
  | nil => rfl
  | cons x l ih =>
    obtain ⟨hp, heq⟩ := h x List.mem_cons_self
    rw [List.map_cons, List.map_cons, List.filter_cons, List.filter_cons, hp,
      ih fun y hy => h y (List.mem_cons_of_mem _ hy)]
    split
    · rw [heq ‹_›]
    · rfl

/-- Turns that have not been answered are updated. -/
theorem completed_mapTurns {g : String → Turn → Turn}
    (h : ∀ tid row, (tid, row) ∈ th.turns → g tid row = row ∨ row.status ≠ .completed ∧ (g tid row).status ≠ .completed) :
    (th.mapTurns g).completed = th.completed := by
  rw [completed, mapTurns, List.map_map, completed]
  apply filter_map_congr
  rintro ⟨tid, row⟩ hmem
  obtain heq | ⟨hne, hne'⟩ := h tid row hmem
  · simp [heq]
  · simp [hne, hne']

theorem completed_close {p : String → Turn → Bool} {error : Option String}
    (hp : ∀ tid row, p tid row = true → row.status = .pending) :
    (th.mapTurns fun tid row => if p tid row then { row with status := .failed, error } else row).completed =
      th.completed := by
  refine completed_mapTurns fun tid row _ => ?_
  by_cases hp' : p tid row = true
  · rw [if_pos hp', hp tid row hp']
    exact .inr ⟨nofun, nofun⟩
  · exact .inl (if_neg hp')

theorem mem_completed {t : Turn} : t ∈ th.completed ↔ ∃ tid, (tid, t) ∈ th.turns ∧ t.status = .completed := by
  simp [completed]

/-- The answered turns have smaller base revisions than the next one. -/
theorem Linear.base_lt (hth : th.Linear) {t : Turn} (ht : t ∈ th.completed) :
    t.base_revision < th.conversation.revision := by
  have hmem : t.base_revision ∈ th.completed.map (·.base_revision) := List.mem_map_of_mem ht
  rw [hth.completed, List.mem_map] at hmem
  obtain ⟨n, hn, hbase⟩ := hmem
  rw [List.mem_range] at hn
  rw [hth.revision, ← hbase]
  exact Int.ofNat_lt.mpr hn

/-- The pending turn comes after all that have been answered. -/
theorem Linear.completed_complete (hth : th.Linear) {tid : String} {row : Turn} (hmem : (tid, row) ∈ th.turns)
    (hstatus : row.status = .pending) (s : Stored) :
    (th.mapTurns fun tid' row => if tid' = tid then row.answered s else row).completed =
      th.completed ++ [row.answered s] := by
  obtain ⟨pre, post, hturns⟩ := List.append_of_mem hmem
  have hpost : ∀ e ∈ post, e.2.status ≠ .completed := by
    intro e he hcompleted
    have hmem' : e ∈ th.turns := by simp [hturns, he]
    have hlt := hth.base_lt (mem_completed.mpr ⟨e.1, hmem', hcompleted⟩)
    have hle : row.base_revision ≤ e.2.base_revision := by
      have hbases := hth.bases
      rw [hturns, List.pairwise_append, List.pairwise_cons] at hbases
      exact hbases.2.1.1 e he
    rw [hth.current _ hmem hstatus] at hle
    omega
  have hids := hth.ids
  rw [hturns, List.map_append, List.map_cons, List.nodup_append, List.nodup_cons] at hids
  obtain ⟨-, ⟨htid, -⟩, hdisjoint⟩ := hids
  have hkept {es : List (String × Turn)} (hes : ∀ e ∈ es, e.1 ≠ tid) :
      (es.map fun e => (e.1, if e.1 = tid then e.2.answered s else e.2)) = es := by
    conv_rhs => rw [← List.map_id es]
    exact List.map_congr_left fun e he => by simp [hes e he]
  have hpre : ∀ e ∈ pre, e.1 ≠ tid := fun e he => hdisjoint _ (List.mem_map_of_mem he) _ List.mem_cons_self
  have hpost' : ∀ e ∈ post, e.1 ≠ tid := by
    intro e he heq
    have hmem' : e.1 ∈ post.map Prod.fst := List.mem_map_of_mem he
    exact htid (by rwa [heq] at hmem')
  have hnone : (post.map Prod.snd).filter (·.status = .completed) = [] := by
    rw [List.filter_eq_nil_iff]
    intro t ht
    obtain ⟨e, he, rfl⟩ := List.mem_map.mp ht
    simpa using hpost e he
  rw [Thread.completed, Thread.completed, Thread.mapTurns, hturns, List.map_append, List.map_cons, hkept hpre,
    hkept hpost']
  simp only [List.map_append, List.map_cons, List.filter_append, List.filter_cons, hnone, hstatus]
  simp [Turn.answered]

/-- Nobody works on a second turn. -/
theorem Linear.eq_of_pending (hth : th.Linear) {e e' : String × Turn} (he : e ∈ th.turns) (he' : e' ∈ th.turns)
    (hpending : e.2.status = .pending) (hpending' : e'.2.status = .pending) : e = e' := by
  refine List.Pairwise.forall_of_forall_of_flip
    (R := fun e e' => e.2.status = .pending → e'.2.status = .pending → e = e') (fun _ _ _ _ => rfl)
    (hth.one.imp fun hne h h' => absurd ⟨h, h'⟩ hne) (hth.one.imp fun hne h h' => absurd ⟨h', h⟩ hne) he he' hpending
    hpending'

/-- A turn is found by its identifier. -/
theorem Linear.eq_of_id (hth : th.Linear) {e e' : String × Turn} (he : e ∈ th.turns) (he' : e' ∈ th.turns)
    (hid : e.1 = e'.1) : e = e' :=
  List.inj_on_of_nodup_map hth.ids he he' hid

theorem Linear.completed_retry (hth : th.Linear) {tid fence : String} {row : Turn} {lease_until : Option Time}
    (hmem : (tid, row) ∈ th.turns) (hstatus : row.status = .failed) :
    (th.mapTurns fun tid' row =>
      if tid' = tid then { row with status := .pending, error := none, fence, lease_until } else row).completed =
        th.completed := by
  refine completed_mapTurns fun tid' row' hmem' => ?_
  by_cases htid : tid' = tid
  · have heq : (tid', row') = (tid, row) := hth.eq_of_id hmem' hmem htid
    cases heq
    rw [if_pos rfl, hstatus]
    exact .inr ⟨nofun, nofun⟩
  · exact .inl (if_neg htid)

theorem pending_eq_false : th.pending = false ↔ ∀ e ∈ th.turns, e.2.status ≠ .pending := by
  simp [pending]

/-- Turns are updated without moving them or answering one. -/
theorem Linear.mapTurns (hth : th.Linear) {g : String → Turn → Turn}
    (hseq : ∀ tid row, (g tid row).seq = row.seq)
    (hbase : ∀ tid row, (g tid row).base_revision = row.base_revision)
    (hone : (th.mapTurns g).turns.Pairwise fun e e' => ¬ (e.2.status = .pending ∧ e'.2.status = .pending))
    (hcurrent : ∀ e ∈ (th.mapTurns g).turns, e.2.status = .pending → e.2.base_revision = th.conversation.revision)
    (hcompleted : (th.mapTurns g).completed = th.completed) : (th.mapTurns g).Linear where
  numbered := by
    rw [Thread.mapTurns, Ascending, List.pairwise_map]
    simpa only [hseq] using hth.numbered
  positive e he := by
    obtain ⟨e₀, he₀, rfl⟩ := List.mem_map.mp he
    exact (hth.positive e₀ he₀).trans_eq (hseq _ _).symm
  ids := by simpa [Thread.mapTurns, Function.comp_def] using hth.ids
  bases := by
    rw [Thread.mapTurns, List.pairwise_map]
    simpa only [hbase] using hth.bases
  le e he := by
    obtain ⟨e₀, he₀, rfl⟩ := List.mem_map.mp he
    exact (hbase _ _).trans_le (hth.le e₀ he₀)
  one := hone
  current := hcurrent
  revision := by
    rw [hcompleted]
    exact hth.revision
  completed := by
    rw [hcompleted]
    exact hth.completed
  length := by
    rw [Thread.mapTurns, List.length_map]
    exact hth.length

theorem Linear.close (hth : th.Linear) {p : String → Turn → Bool} {error : Option String}
    (hp : ∀ tid row, p tid row = true → row.status = .pending) :
    (th.mapTurns fun tid row => if p tid row then { row with status := .failed, error } else row).Linear := by
  have hstatus {tid : String} {row : Turn}
      (h : (if p tid row then { row with status := .failed, error } else row : Turn).status = .pending) :
      row.status = .pending := by
    split at h
    · cases h
    · exact h
  have hbase (tid : String) (row : Turn) :
      (if p tid row then { row with status := .failed, error } else row : Turn).base_revision = row.base_revision := by
    split <;> rfl
  refine hth.mapTurns (fun tid row => by split <;> rfl) hbase ?_ (fun e he hpending => ?_) (completed_close hp)
  · exact List.pairwise_map.mpr (hth.one.imp fun hne h => hne ⟨hstatus h.1, hstatus h.2⟩)
  · obtain ⟨e₀, he₀, rfl⟩ := List.mem_map.mp he
    exact (hbase _ _).trans (hth.current e₀ he₀ (hstatus hpending))

theorem Linear.retry (hth : th.Linear) {tid fence : String} {row : Turn} {lease_until : Option Time}
    (hmem : (tid, row) ∈ th.turns) (hstatus : row.status = .failed)
    (hbase : row.base_revision = th.conversation.revision) (hpending : th.pending = false) :
    (th.mapTurns fun tid' row =>
      if tid' = tid then { row with status := .pending, error := none, fence, lease_until } else row).Linear := by
  rw [pending_eq_false] at hpending
  have hid {e : String × Turn} (he : e ∈ th.turns)
      (h : (if e.1 = tid then { e.2 with status := .pending, error := none, fence, lease_until } else e.2 : Turn).status =
        .pending) : e.1 = tid := by
    by_contra hne
    rw [if_neg hne] at h
    exact hpending e he h
  refine hth.mapTurns (fun tid row => by split <;> rfl) (fun tid row => by split <;> rfl) ?_ (fun e he h => ?_)
    (hth.completed_retry hmem hstatus)
  · rw [Thread.mapTurns, List.pairwise_map]
    refine List.Pairwise.imp_of_mem (fun he he' hne h => ?_) (List.pairwise_map.mp hth.ids)
    exact hne ((hid he h.1).trans (hid he' h.2).symm)
  · obtain ⟨e₀, he₀, rfl⟩ := List.mem_map.mp he
    have heq : e₀ = (tid, row) := hth.eq_of_id he₀ hmem (hid he₀ h)
    subst heq
    simpa using hbase

theorem Linear.add (hth : th.Linear) {tid : String} {row : Turn} (hstatus : row.status = .pending)
    (hbase : row.base_revision = th.conversation.revision) (hpending : th.pending = false) (hseq : 0 < row.seq)
    (hlast : ∀ e ∈ th.turns, e.2.seq < row.seq) (hlength : th.turns.length < 500) (hnew : ∀ e ∈ th.turns, e.1 ≠ tid) : (th.add tid row).Linear := by
  rw [pending_eq_false] at hpending
  have hcompleted : (th.add tid row).completed = th.completed := by
    simp [Thread.completed, Thread.add, hstatus]
  have hmem {e : String × Turn} (he : e ∈ (th.add tid row).turns) : e ∈ th.turns ∨ e = (tid, row) := by
    simpa [Thread.add] using he
  refine ⟨?_, fun e he => ?_, ?_, ?_, fun e he => ?_, ?_, fun e he h => ?_, ?_, ?_, ?_⟩
  · refine List.pairwise_append.mpr ⟨hth.numbered, by simp, fun e he e' he' => ?_⟩
    rw [List.mem_singleton.mp he']
    exact hlast e he
  · obtain he | rfl := hmem he
    · exact hth.positive e he
    · exact hseq
  · rw [Thread.add, List.map_append, List.nodup_append]
    refine ⟨hth.ids, by simp, fun x hx y hy => ?_⟩
    obtain ⟨e, he, rfl⟩ := List.mem_map.mp hx
    simp only [List.map_cons, List.map_nil, List.mem_singleton] at hy
    exact hy ▸ hnew e he
  · refine List.pairwise_append.mpr ⟨hth.bases, by simp, fun e he e' he' => ?_⟩
    rw [List.mem_singleton.mp he', hbase]
    exact hth.le e he
  · obtain he | rfl := hmem he
    · exact hth.le e he
    · exact hbase.le
  · refine List.pairwise_append.mpr ⟨hth.one, by simp, fun e he e' he' h => hpending e he h.1⟩
  · obtain he | rfl := hmem he
    · exact absurd h (hpending e he)
    · exact hbase
  · rw [hcompleted]
    exact hth.revision
  · rw [hcompleted]
    exact hth.completed
  · simp only [Thread.add, List.length_append, List.length_singleton]
    omega

theorem Linear.complete (hth : th.Linear) {tid : String} {row : Turn} {s : Stored} (hmem : (tid, row) ∈ th.turns)
    (hstatus : row.status = .pending) (hbase : row.base_revision = th.conversation.revision) :
    Linear { th.mapTurns (fun tid' row => if tid' = tid then row.answered s else row) with
      conversation := th.conversation.answered a s tid row } := by
  let th' : Thread := { th.mapTurns (fun tid' row => if tid' = tid then row.answered s else row) with
    conversation := th.conversation.answered a s tid row }
  have hcompleted : th'.completed = th.completed ++ [row.answered s] := hth.completed_complete hmem hstatus s
  have hbases (tid' : String) (row : Turn) :
      (if tid' = tid then row.answered s else row).base_revision = row.base_revision := by split <;> rfl
  have hpending {e : String × Turn} (h : (if e.1 = tid then e.2.answered s else e.2).status = .pending) :
      e.1 ≠ tid ∧ e.2.status = .pending := by
    split at h
    · cases h
    · exact ⟨‹_›, h⟩
  have hrevision : th'.conversation.revision = th.conversation.revision + 1 := rfl
  have hseqs (tid' : String) (row : Turn) : (if tid' = tid then row.answered s else row).seq = row.seq := by
    split <;> rfl
  refine (⟨?_, fun e he => ?_, ?_, ?_, fun e he => ?_, ?_, fun e he h => ?_, ?_, ?_, ?_⟩ : th'.Linear)
  · refine List.pairwise_map.mpr ?_
    simpa only [hseqs] using hth.numbered
  · obtain ⟨e₀, he₀, rfl⟩ := List.mem_map.mp he
    exact (hth.positive e₀ he₀).trans_eq (hseqs _ _).symm
  · simpa [th', Thread.mapTurns, Function.comp_def] using hth.ids
  · refine List.pairwise_map.mpr ?_
    simpa only [hbases] using hth.bases
  · obtain ⟨e₀, he₀, rfl⟩ := List.mem_map.mp he
    have hle := (hbases e₀.1 e₀.2).trans_le (hth.le e₀ he₀)
    exact hle.trans (by omega)
  · exact List.pairwise_map.mpr (hth.one.imp fun hne h => hne ⟨(hpending h.1).2, (hpending h.2).2⟩)
  · obtain ⟨e₀, he₀, rfl⟩ := List.mem_map.mp he
    obtain ⟨hne, h⟩ := hpending h
    exact absurd (congrArg Prod.fst (hth.eq_of_pending he₀ hmem h hstatus)) hne
  · rw [hcompleted, hrevision, hth.revision, List.length_append, List.length_singleton]
    rfl
  · rw [hcompleted, List.map_append, List.length_append, List.length_singleton, List.range_succ, List.map_append,
      hth.completed]
    have hanswered : (row.answered s).base_revision = row.base_revision := rfl
    simp [hanswered, hbase, hth.revision]
  · simpa only [th', Thread.mapTurns, List.length_map] using hth.length

theorem Linear.step (hth : th.Linear) (h : Step a snap P th th') : th'.Linear := by
  cases h with
  | close p error hp => exact hth.close hp
  | retry tid fence row lease hmem hstatus hbase hpending => exact hth.retry hmem hstatus hbase hpending
  | add tid row hstatus hbase hpending hseq hlast hlength hnew =>
    exact hth.add hstatus hbase hpending hseq hlast hlength hnew
  | complete tid row s hmem hstatus hbase => exact hth.complete hmem hstatus hbase

/-- The turn `tid` of the thread has been answered, and the rest is as before. -/
structure Answers (a : App) (snap : Store) (P : Turn → Stored → Prop) (th th' : Thread) (tid : String) (row : Turn)
    (s : Stored) : Prop where
  mem : (tid, row) ∈ th.turns
  status : row.status = .pending
  base : row.base_revision = th.conversation.revision
  scope : conversationScope snap th.conversation.subject th.conversation = true
  sources : turnSources snap th.conversation.subject s.response = some (s.team, s.dataset, s.version)
  allowed : P row s
  turns : th'.turns = (th.mapTurns fun tid' row => if tid' = tid then row.answered s else row).turns
  completed : th'.completed = th.completed ++ [row.answered s]
  conversation : th'.conversation = th.conversation.answered a s tid row

/-- What is answered, and what is said of the conversation as a whole, changes
only when a turn is answered. -/
theorem Linear.completed_step (hth : th.Linear) (h : Step a snap P th th') :
    th'.completed = th.completed ∧ th'.conversation = th.conversation ∨
      ∃ tid row s, Answers a snap P th th' tid row s := by
  cases h with
  | close p error hp => exact .inl ⟨completed_close hp, rfl⟩
  | retry tid fence row lease hmem hstatus => exact .inl ⟨hth.completed_retry hmem hstatus, rfl⟩
  | add tid row hstatus => exact .inl ⟨by simp [Thread.completed, Thread.add, hstatus], rfl⟩
  | complete tid row s hmem hstatus hbase hscope hsources hP =>
    exact .inr ⟨tid, row, s, hmem, hstatus, hbase, hscope, hsources, hP, rfl, hth.completed_complete hmem hstatus s, rfl⟩

/-- An answered turn is not touched again. -/
theorem Linear.final_step (hth : th.Linear) (h : Step a snap P th th') {e : String × Turn} (he : e ∈ th.turns)
    (hcompleted : e.2.status = .completed) : e ∈ th'.turns := by
  have hkept {g : String → Turn → Turn} (hg : g e.1 e.2 = e.2) : e ∈ (th.mapTurns g).turns :=
    List.mem_map.mpr ⟨e, he, Prod.ext rfl hg⟩
  cases h with
  | close p error hp =>
    refine hkept (if_neg fun hp' => ?_)
    rw [hp _ _ hp'] at hcompleted
    cases hcompleted
  | retry tid fence row lease hmem hstatus =>
    refine hkept (if_neg fun htid => ?_)
    have heq : e = (tid, row) := hth.eq_of_id he hmem htid
    rw [heq, hstatus] at hcompleted
    cases hcompleted
  | add tid row => exact List.mem_append_left _ he
  | complete tid row s hmem hstatus =>
    have htid : e.1 ≠ tid := by
      intro htid
      have heq : e = (tid, row) := hth.eq_of_id he hmem htid
      rw [heq, hstatus] at hcompleted
      cases hcompleted
    exact hkept (g := fun tid' row => if tid' = tid then row.answered s else row) (if_neg htid)

end Thread

namespace Workbench

open sql sql.Tx

variable {a : App} {σ : Store} {w : Workbench} {id : String}

theorem linear_after (hσ : Initial σ) (ops : List Op) {th : Thread}
    (hth : threadOf (after a σ ops).store id = some th) : th.Linear := by
  refine thread_invariant (I := fun _ => Thread.Linear) hσ (fun _ now u => ?_)
    (fun _ _ _ _ _ _ hth hstep => hth.step hstep) (fun _ _ _ _ hth => hth) (machine.always_true _ ops) id th hth
  constructor <;> simp [newConversation, Thread.completed]

/-- The answered turns of a conversation in the order of their numbers. -/
def answeredTurns (σ : Store) (id : String) : List Turn := ((thread σ id).map Prod.snd).filter (·.status = .completed)

theorem final_after (hσ : Initial σ) (ops ops' : List Op) {e : String × Turn}
    (he : e ∈ turnsOf (after a σ ops).store id) (hcompleted : e.2.status = .completed) :
    e ∈ turnsOf (after a σ (ops ++ ops')).store id := by
  induction ops' using List.reverseRecOn with
  | nil => rwa [List.append_nil]
  | append_singleton ops' op ih =>
    rw [← List.append_assoc, after, machine.run_concat]
    have hw := sound_after (a := a) hσ (ops ++ ops')
    obtain ⟨hrow, hid⟩ := mem_turnsOf.mp ih
    obtain ⟨th, hth, hmem⟩ := hw.threaded.exists_thread hrow
    rw [hid] at hth
    obtain ⟨th', hth', hsteps⟩ := (hw.step (a := a) op).shifts id th hth
    have hlinear := linear_after hσ _ hth
    have hmem' : th'.Linear ∧ e ∈ th'.turns := by
      clear hth'
      induction hsteps with
      | refl => exact ⟨hlinear, hmem⟩
      | tail _ hstep ih => exact ⟨ih.1.step hstep, ih.1.final_step hstep ih.2 hcompleted⟩
    exact mem_thread.mp ((threadOf_eq_some.mp hth').2 ▸ hmem'.2)

/-- A late call for a turn that another attempt has taken over does nothing. -/
theorem complete_superseded {t : Attempt} {row : Turn}
    (hrow : σ.lookup (Key.conversation_turns t.turn.ID) = some row) (hfence : row.fence ≠ t.turn.Fence) (now : Time)
    (answer : Answer) (decision : queryDecision) : ∃ err, (t.complete a now answer decision).run unlocked σ = .error err := by
  have hensures : Ensures unlocked (t.complete a now answer decision) σ fun _ _ => False := by
    unfold Attempt.complete completeConversationTurn
    simp only [ensures_bind, ensures_selectForUpdate, ensures_snapshot, ensures_require, ensures_refuse,
      ensures_updateOne, Tx.pure_eq_ret, ensures_ret]
    intro _ _ _ _ _ hupdated
    exact hupdated (by simp [hrow, hfence])
  cases hrun : (t.complete a now answer decision).run unlocked σ with
  | error err => exact ⟨err, rfl⟩
  | ok outcome => exact (hensures outcome.1 outcome.2 hrun).elim

theorem fail_superseded {t : savedTurn} {row : Turn} (hrow : σ.lookup (Key.conversation_turns t.ID) = some row)
    (hfence : row.fence ≠ t.Fence) (err : Error) : (failConversationTurn t err).run unlocked σ = .ok ((), σ) := by
  unfold failConversationTurn
  rw [run_bind_of_ok unlocked (run_updateOne unlocked _ _ _ σ)]
  simp [Store.updateOne, hrow, hfence]

section Retry

variable {c : Conversation} {u key tid newID fence : String} {row : Turn} {now : Time} {b : ConversationInput} {seq : Nat}

/-- What `reserveConversationTurn` goes on with after it has closed the turns
whose lease has run out. -/
theorem succeeds_interrupt {Q : Store → Prop}
    (h : ∀ σ', (∀ tid, σ'.lookup (Key.conversation_turns tid) = (σ.lookup (Key.conversation_turns tid)).map fun row =>
        if row.interrupted now id then { row with status := .failed, error := some "conversation_interrupted" } else row) →
      (∀ key, (∀ tid, key ≠ .conversation_turns tid) → σ'.lookup key = σ.lookup key) → Q σ') :
    Succeeds unlocked (updateTurns (Turn.interrupted now id) fun row =>
      { row with status := .failed, error := some "conversation_interrupted" }) σ fun _ σ' => Q σ' := by
  rw [succeeds_updateAll]
  refine h _ (fun tid => by simp) fun key hkey => ?_
  rw [Store.lookup_updateRows]
  cases hrow : σ.lookup key with
  | none => rfl
  | some row =>
    cases key with
    | conversation_turns tid => exact absurd rfl (hkey tid)
    | _ => rfl

/-- A turn that has failed, or whose lease has run out, can be taken up again by
its key, however many turns there are. -/
theorem retry_admitted (hσ : Threaded σ) (hc : σ.lookup (Key.conversations id) = some c)
    (hscope : conversationScope σ u c = true) (hturn : turnByIdem σ id key = some (tid, row))
    (hcompleted : row.status ≠ .completed) (hhash : row.request_hash = a.Hash b.marshal)
    (hbase : row.base_revision = c.revision) (hrevision : b.Revision = c.revision)
    (hpending : ∀ e ∈ turnsOf σ id, e.2.status = .pending → e.2.interrupted now id = true) :
    Succeeds unlocked (reserveConversationTurn a now u id key b newID fence seq) σ fun t _ =>
      t.ID = tid ∧ t.Status = .pending ∧ t.Fence = fence := by
  obtain ⟨hrow, hid⟩ := hσ.turnByIdem hturn
  unfold reserveConversationTurn
  simp only [succeeds_bind, succeeds_selectForUpdate, succeeds_snapshot, succeeds_require]
  refine ⟨c, by simp [hc, hscope], succeeds_interrupt fun σ' hturns hothers => ?_⟩
  obtain ⟨row', hrow', hfailed, hhash', hbase'⟩ : ∃ row', σ'.lookup (Key.conversation_turns tid) = some row' ∧
      row'.status = .failed ∧ row'.request_hash = row.request_hash ∧ row'.base_revision = row.base_revision := by
    refine ⟨_, (hturns tid).trans (by rw [hrow, Option.map_some]), ?_, by split <;> rfl, by split <;> rfl⟩
    split
    · rfl
    · rename_i hinterrupted
      cases hstatus : row.status with
      | failed => rfl
      | completed => exact absurd hstatus hcompleted
      | pending => exact absurd (hpending (tid, row) (mem_turnsOf.mpr ⟨hrow, hid⟩) hstatus) hinterrupted
  have hturn' : turnByIdem σ' id key = some (tid, row') := by
    simp only [turnByIdem, Option.bind_eq_some_iff, Option.map_eq_some_iff] at hturn ⊢
    obtain ⟨tid', htid, row₀, hrow₀, heq⟩ := hturn
    obtain ⟨rfl, rfl⟩ := Prod.mk.inj heq
    exact ⟨tid', (hothers _ (by simp)).trans htid, row', hrow', rfl⟩
  have hidle : hasPending σ' id = false := by
    rw [hasPending, List.any_eq_false]
    rintro ⟨tid', row₁⟩ hmem hstatus
    obtain ⟨hrow₁, hid₁⟩ := mem_turnsOf.mp hmem
    rw [hturns, Option.map_eq_some_iff] at hrow₁
    obtain ⟨old, hold, rfl⟩ := hrow₁
    split at hid₁
    · simp [*] at hstatus
    · rename_i hinterrupted
      rw [if_neg hinterrupted, decide_eq_true_eq] at hstatus
      exact hinterrupted (hpending (tid', old) (mem_turnsOf.mpr ⟨hold, hid₁⟩) hstatus)
  simp only [succeeds_bind, succeeds_snapshot, hturn', succeeds_refuse, hfailed, retryTurn, hidle, succeeds_updateOne,
    Tx.pure_eq_ret, succeeds_ret]
  simp [hhash', hhash, hbase', hbase, hrevision, Turn.saved]

/-- A turn that has been answered is handed back as it is. -/
theorem replay_admitted (hσ : Threaded σ) (hc : σ.lookup (Key.conversations id) = some c)
    (hscope : conversationScope σ u c = true) (hturn : turnByIdem σ id key = some (tid, row))
    (hcompleted : row.status = .completed) (hhash : row.request_hash = a.Hash b.marshal) :
    Succeeds unlocked (reserveConversationTurn a now u id key b newID fence seq) σ fun t _ => t = row.saved tid := by
  obtain ⟨hrow, hid⟩ := hσ.turnByIdem hturn
  unfold reserveConversationTurn
  simp only [succeeds_bind, succeeds_selectForUpdate, succeeds_snapshot, succeeds_require]
  refine ⟨c, by simp [hc, hscope], succeeds_interrupt fun σ' hturns hothers => ?_⟩
  have hrow' : σ'.lookup (Key.conversation_turns tid) = some row := by
    rw [hturns, hrow, Option.map_some, if_neg]
    simp [Turn.interrupted, hcompleted]
  have hturn' : turnByIdem σ' id key = some (tid, row) := by
    simp only [turnByIdem, Option.bind_eq_some_iff, Option.map_eq_some_iff] at hturn ⊢
    obtain ⟨tid', htid, row₀, hrow₀, heq⟩ := hturn
    obtain ⟨rfl, rfl⟩ := Prod.mk.inj heq
    exact ⟨tid', (hothers _ (by simp)).trans htid, row₀, hrow', rfl⟩
  simp only [succeeds_bind, hturn', succeeds_refuse, hhash, ne_eq, not_true, not_false_eq_true, true_and, hcompleted,
    Tx.pure_eq_ret, succeeds_ret]

end Retry

/-- The conversation `id`, whose row is `c`, has one history: its turns are
answered one after the other, in the order of their numbers, and what has been
answered stays. -/
structure LinearHistory (a : App) (w : Workbench) (id : String) (c : Conversation) : Prop where
  one : ∀ e ∈ turnsOf w.store id, ∀ e' ∈ turnsOf w.store id, e.2.status = .pending → e'.2.status = .pending → e = e'
  revision : c.revision = (answeredTurns w.store id).length
  numbered : (answeredTurns w.store id).Pairwise fun t t' => t.seq < t'.seq
  bases : (answeredTurns w.store id).map (·.base_revision) =
    (List.range (answeredTurns w.store id).length).map Int.ofNat
  final : ∀ ops, ∀ e ∈ turnsOf w.store id, e.2.status = .completed →
    e ∈ turnsOf (machine.run (step a) w ops).store id
  fenced : ∀ (t : Attempt) row, w.store.lookup (Key.conversation_turns t.turn.ID) = some row → row.fence ≠ t.turn.Fence →
    (∀ now answer decision, ∃ err, (t.complete a now answer decision).run unlocked w.store = .error err) ∧
      ∀ err, (failConversationTurn t.turn err).run unlocked w.store = .ok ((), w.store)
  length : (turnsOf w.store id).length ≤ 500
  retried : ∀ now u key b newID fence seq tid row, conversationScope w.store u c = true →
    turnByIdem w.store id key = some (tid, row) → row.status ≠ .completed → row.request_hash = a.Hash b.marshal →
    row.base_revision = c.revision → b.Revision = c.revision →
    (∀ e ∈ turnsOf w.store id, e.2.status = .pending → e.2.interrupted now id = true) →
    Succeeds unlocked (reserveConversationTurn a now u id key b newID fence seq) w.store fun t _ =>
      t.ID = tid ∧ t.Status = .pending ∧ t.Fence = fence
  replayed : ∀ now u key b newID fence seq tid row, conversationScope w.store u c = true →
    turnByIdem w.store id key = some (tid, row) → row.status = .completed → row.request_hash = a.Hash b.marshal →
    Succeeds unlocked (reserveConversationTurn a now u id key b newID fence seq) w.store fun t _ => t = row.saved tid

theorem conversations_linear (hσ : Initial σ) (ops : List Op) {c : Conversation}
    (hc : (after a σ ops).store.lookup (Key.conversations id) = some c) : LinearHistory a (after a σ ops) id c := by
  have hth : threadOf (after a σ ops).store id = some ⟨c, thread (after a σ ops).store id⟩ := by
    rw [threadOf, hc, Option.map_some]
  have hthreaded := (sound_after (a := a) hσ ops).threaded
  have hlinear := linear_after hσ ops hth
  have hnumbered : ((thread (after a σ ops).store id).map Prod.snd).Pairwise fun t t' => t.seq < t'.seq :=
    List.pairwise_map.mpr (hthreaded.ascending id)
  exact
    { one := fun e he e' he' => hlinear.eq_of_pending (mem_thread.mpr he) (mem_thread.mpr he')
      revision := hlinear.revision
      numbered := hnumbered.filter _
      bases := hlinear.completed
      final := fun ops' e he hcompleted => by
        rw [← machine.run_append]
        exact final_after hσ ops ops' he hcompleted
      fenced := fun t row hrow hfence => ⟨fun now answer decision => complete_superseded hrow hfence now answer decision,
        fun err => fail_superseded hrow hfence err⟩
      length := (length_turnsOf hth).trans_le hlinear.length
      retried := fun now u key b newID fence seq tid row hscope hturn hcompleted hhash hbase hrevision hpending =>
        retry_admitted hthreaded hc hscope hturn hcompleted hhash hbase hrevision hpending
      replayed := fun now u key b newID fence seq tid row hscope hturn hcompleted hhash =>
        replay_admitted hthreaded hc hscope hturn hcompleted hhash }

theorem conversations_linear_answering : ∃ c, c.revision = 1 ∧ LinearHistory deployed (after deployed seed answering) "c1" c := by
  have hanswered : ((after deployed seed answering).store.lookup (Key.conversations "c1")).map (·.revision) = some 1 := by
    decide +kernel
  obtain ⟨c, hc, hrevision⟩ := Option.map_eq_some_iff.mp hanswered
  exact ⟨c, hrevision, conversations_linear seed_initial answering hc⟩

end Workbench

end incidentdesk
