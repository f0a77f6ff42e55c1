import IncidentDesk.DataQueries
import IncidentDesk.Seed
import IncidentDesk.Sql.Interleaving
import IncidentDesk.Sql.Rules

namespace incidentdesk

open sql sql.Tx

/-- A question has used at most both attempts, and none while it waits. -/
structure DataQuery.Bounded (row : DataQuery) : Prop where
  attempts : row.attempts ≤ 2
  queued : row.status = .queued → row.attempts = 0

/-- What a statement of the queue makes of the question under a key. -/
inductive Written : QueueStatement → String → String → Option DataQuery → DataQuery → Prop where
  | admitted (now : Time) (u key hash id question : String) (row : DataQuery)
      (hstatus : row.status = .queued) (hattempts : row.attempts = 0) :
      Written (.submit now u key hash id question) u key none row
  | swept (now : Time) (u key : String) (row : DataQuery) (hrunning : row.status = .running)
      (hexpired : row.expired now = true) (hattempts : 2 ≤ row.attempts) :
      Written (.sweep now) u key (some row) { row with status := .failed, error := some interrupted }
  | claimed (now : Time) (fence u key : String) (row : DataQuery) (hclaimable : row.claimable now = true) :
      Written (.claim now fence) u key (some row) (row.begun now fence)
  | progressed (j : dataJob) (chunks : List Json) (u key : String) (row : DataQuery) (hheld : row.heldBy j = true) :
      Written (.progress j chunks) u key (some row) { row with progress := chunks }
  | failed (j : dataJob) (message u key : String) (row : DataQuery) (hheld : row.heldBy j = true) :
      Written (.fail j message) u key (some row)
        { row with status := .failed, error := some message, result := none }
  | completed (j : dataJob) (result : Json) (u key : String) (row : DataQuery) (hheld : row.heldBy j = true) :
      Written (.complete j result) u key (some row)
        { row with status := .completed, result := some result, error := none }

theorem DataQuery.running_of_heldBy {row : DataQuery} {j : dataJob} (h : row.heldBy j = true) :
    row.status = .running := by
  simp only [heldBy, Bool.and_eq_true, decide_eq_true_eq] at h
  exact h.2

theorem DataQuery.open_of_claimable {row : DataQuery} {now : Time} (h : row.claimable now = true) :
    row.status.open_ = true := by
  simp only [claimable, Bool.or_eq_true, Bool.and_eq_true, decide_eq_true_eq] at h
  obtain hqueued | ⟨⟨hrunning, -⟩, -⟩ := h
  · rw [hqueued]
    rfl
  · rw [hrunning]
    rfl

namespace Written

variable {statement : QueueStatement} {u key : String} {old : Option DataQuery} {row row' : DataQuery}

/-- A question that is changed was open. -/
theorem open_ (h : Written statement u key (some row) row') : row.status.open_ = true := by
  cases h with
  | swept _ _ _ _ hrunning =>
    rw [hrunning]
    rfl
  | claimed _ _ _ _ _ hclaimable => exact DataQuery.open_of_claimable hclaimable
  | progressed _ _ _ _ _ hheld | failed _ _ _ _ _ hheld | completed _ _ _ _ _ hheld =>
    rw [DataQuery.running_of_heldBy hheld]
    rfl

theorem bounded (h : Written statement u key old row') (hold : ∀ row, old = some row → row.Bounded) :
    row'.Bounded := by
  cases h with
  | admitted _ _ _ _ _ _ _ hstatus hattempts => exact ⟨by omega, fun _ => hattempts⟩
  | swept => exact ⟨(hold _ rfl).attempts, fun hqueued => by cases hqueued⟩
  | claimed now fence _ _ row hclaimable =>
    refine ⟨?_, fun hqueued => by cases hqueued⟩
    have hqueued := (hold _ rfl).queued
    simp only [DataQuery.claimable, Bool.or_eq_true, Bool.and_eq_true, decide_eq_true_eq] at hclaimable
    simp only [DataQuery.begun]
    obtain hstatus | ⟨-, hattempts⟩ := hclaimable
    · have hzero := hqueued hstatus
      omega
    · omega
  | progressed => exact ⟨(hold _ rfl).attempts, (hold _ rfl).queued⟩
  | failed | completed => exact ⟨(hold _ rfl).attempts, fun hqueued => by cases hqueued⟩

end Written

/-- How the statements of the queue share the questions: who adds an open one has
the lock of its subject. -/
def queryQueue (a : App) : Discipline Row where
  root
    | .data_queries u _ => Key.advisory (a.hashtext u)
    | key => key
  Free
    | .data_queries _ _, (old : Option DataQuery), (new : Option DataQuery) =>
      ∀ row', new = some row' → row'.status.open_ = true → ∃ row, old = some row ∧ row.status.open_ = true
    | _, _, _ => True
  Inv σ := (∀ u, openQueries σ u ≤ 5) ∧
    ∀ u k row, σ.lookup (Key.data_queries u k) = some row → row.Bounded
  Step _ _ := True
  free_refl key row := by
    cases key with
    | data_queries => exact fun row' hrow' hopen => ⟨row', hrow', hopen⟩
    | _ => trivial
  free_trans key row row' row'' h h' := by
    cases key with
    | data_queries =>
      intro last hlast hopen
      obtain ⟨mid, hmid, hopen⟩ := h' last hlast hopen
      exact h mid hmid hopen
    | _ => trivial
  step_refl _ := trivial
  step_trans _ _ _ _ _ := trivial

/-- The open questions of a subject are those that were open before, and some
that are new. -/
theorem openQueries_le_add {σ τ : Store} {u : String} (fresh : List String)
    (h : ∀ k (row' : DataQuery), τ.lookup (Key.data_queries u k) = some row' → row'.status.open_ = true →
      k ∈ fresh ∨ ∃ row : DataQuery, σ.lookup (Key.data_queries u k) = some row ∧ row.status.open_ = true) :
    openQueries τ u ≤ openQueries σ u + fresh.length := by
  have hcount : openQueries τ u ≤ openQueries σ u + (fresh.map (Key.data_queries u)).length := by
    refine Store.count_le_add _ fun key row' hrow' hopen => ?_
    cases key with
    | data_queries u' k =>
      simp only [Bool.and_eq_true, decide_eq_true_eq] at hopen
      obtain ⟨rfl, hopen⟩ := hopen
      refine (h k row' hrow' hopen).imp (fun hk => List.mem_map_of_mem hk) ?_
      rintro ⟨row, hrow, hopen⟩
      exact ⟨row, hrow, by simpa using hopen⟩
    | _ => cases hopen
  rwa [List.length_map] at hcount

theorem openQueries_le {σ τ : Store} {u : String}
    (h : ∀ k (row' : DataQuery), τ.lookup (Key.data_queries u k) = some row' → row'.status.open_ = true →
      ∃ row : DataQuery, σ.lookup (Key.data_queries u k) = some row ∧ row.status.open_ = true) :
    openQueries τ u ≤ openQueries σ u :=
  openQueries_le_add [] fun k row' hrow' hopen => .inr (h k row' hrow' hopen)

/-- No question has been written yet. -/
def Untouched (ℓ : Local Row) : Prop := ∀ u k, ℓ.writes.lookup (Key.data_queries u k) = none

/-- The subject may open another question. -/
def Room (a : App) (u : String) (ℓ : Local Row) : Prop :=
  Key.advisory (a.hashtext u) ∈ ℓ.locks ∧ openQueries ℓ.committed u < 5

/-- Every question that the transaction has written is one that its statement
writes, and a new one has its place. -/
structure Recorded (a : App) (statement : QueueStatement) (ℓ : Local Row) : Prop where
  written : ∀ u k row', ℓ.writes.lookup (Key.data_queries u k) = some row' →
    Written statement u k (ℓ.committed.lookup (Key.data_queries u k)) row'
  room : ∀ u k row', ℓ.writes.lookup (Key.data_queries u k) = some row' →
    ℓ.committed.lookup (Key.data_queries u k) = none → Room a u ℓ

section Assertions

variable {a : App} {statement : QueueStatement} {ℓ ℓ' : Local Row} {u : String}

theorem Untouched.steady : Steady (queryQueue a) Untouched where
  stable ℓ ℓ' hrely h := by
    intro u k
    rw [hrely.writes]
    exact h u k
  hold _ _ h := h

theorem Untouched.recorded (h : Untouched ℓ) : Recorded a statement ℓ where
  written u k row' hrow' := by cases (h u k).symm.trans hrow'
  room u k row' hrow' := by cases (h u k).symm.trans hrow'

theorem Untouched.lookup (h : Untouched ℓ) (u k : String) :
    ℓ.lookup (Key.data_queries u k) = ℓ.committed.lookup (Key.data_queries u k) := by
  rw [Local.lookup, h u k, Option.none_or]

theorem Room.steady : Steady (queryQueue a) (Room a u) where
  stable ℓ ℓ' hrely h := by
    refine ⟨hrely.locks ▸ h.1, Nat.lt_of_le_of_lt (openQueries_le fun k row' hrow' hopen => ?_) h.2⟩
    exact hrely.rooted (Key.data_queries u k) h.1 row' hrow' hopen
  hold ℓ key h := ⟨List.mem_cons_of_mem _ h.1, h.2⟩

theorem Recorded.steady : Steady (queryQueue a) (Recorded a statement) where
  stable ℓ ℓ' hrely h := by
    have hsame {u k : String} {row' : DataQuery} (hrow' : ℓ'.writes.lookup (Key.data_queries u k) = some row') :
        ℓ'.committed.lookup (Key.data_queries u k) = ℓ.committed.lookup (Key.data_queries u k) := by
      refine hrely.locked _ ?_
      rw [← hrely.locks]
      exact (hrely.obeys _ row' hrow').1
    constructor
    · intro u k row' hrow'
      rw [hsame hrow']
      exact h.written u k row' (hrely.writes ▸ hrow')
    · intro u k row' hrow' hnone
      exact Room.steady.stable ℓ ℓ' hrely (h.room u k row' (hrely.writes ▸ hrow') ((hsame hrow').symm.trans hnone))
  hold ℓ key h := ⟨h.written, fun u k row' hrow' hnone => Room.steady.hold ℓ key (h.room u k row' hrow' hnone)⟩

/-- A statement writes a question that it has not written before. -/
theorem Recorded.write (h : Recorded a statement ℓ) {k : String} {row' : DataQuery}
    (huntouched : ℓ.writes.lookup (Key.data_queries u k) = none)
    (hwritten : Written statement u k (ℓ.lookup (Key.data_queries u k)) row')
    (hroom : ℓ.lookup (Key.data_queries u k) = none → Room a u ℓ) :
    Recorded a statement (ℓ.write (Key.data_queries u k) row') := by
  have hlookup : ℓ.lookup (Key.data_queries u k) = ℓ.committed.lookup (Key.data_queries u k) := by
    rw [Local.lookup, huntouched, Option.none_or]
  rw [hlookup] at hwritten hroom
  have hcases {u' k' : String} {row : DataQuery}
      (hrow : (ℓ.write (Key.data_queries u k) row').writes.lookup (Key.data_queries u' k') = some row) :
      (u' = u ∧ k' = k ∧ row = row') ∨ ℓ.writes.lookup (Key.data_queries u' k') = some row := by
    by_cases hkey : Key.data_queries u' k' = Key.data_queries u k
    · obtain ⟨rfl, rfl⟩ := Key.data_queries.inj hkey
      rw [Local.write, AList.lookup_insert] at hrow
      exact .inl ⟨rfl, rfl, (Option.some.inj hrow).symm⟩
    · rw [Local.write, AList.lookup_insert_ne hkey] at hrow
      exact .inr hrow
  constructor
  · intro u' k' row hrow
    obtain ⟨rfl, rfl, rfl⟩ | hrow := hcases hrow
    · exact hwritten
    · exact h.written u' k' row hrow
  · intro u' k' row hrow hnone
    obtain ⟨rfl, rfl, rfl⟩ | hrow := hcases hrow
    · exact hroom hnone
    · exact h.room u' k' row hrow hnone

theorem Recorded.write_id (h : Recorded a statement ℓ) {id : String} {row : String × String} :
    Recorded a statement (ℓ.write (Key.data_queries_id id) row) := by
  have hsame (u k : String) : (ℓ.write (Key.data_queries_id id) row).writes.lookup (Key.data_queries u k) =
      ℓ.writes.lookup (Key.data_queries u k) :=
    AList.lookup_insert_ne (by simp)
  exact ⟨fun u k row' hrow' => h.written u k row' (hsame u k ▸ hrow'),
    fun u k row' hrow' => h.room u k row' (hsame u k ▸ hrow')⟩

/-- Whoever changes a question without opening it needs no lock but the row's. -/
theorem writable_of_written {k : String} {row row' : DataQuery} (huntouched : Untouched ℓ)
    (hlookup : ℓ.lookup (Key.data_queries u k) = some row) (hwritten : Written statement u k (some row) row') :
    Writable (queryQueue a) ℓ (Key.data_queries u k) row' := by
  refine .inr fun _ _ _ => ⟨row, ?_, hwritten.open_⟩
  rw [← huntouched.lookup, hlookup]

/-- The one question that a statement changes. -/
theorem Untouched.write {k : String} {row row' : DataQuery} (h : Untouched ℓ)
    (hlookup : ℓ.lookup (Key.data_queries u k) = some row) (hwritten : Written statement u k (some row) row') :
    Writable (queryQueue a) ℓ (Key.data_queries u k) row' ∧
      Recorded a statement (ℓ.write (Key.data_queries u k) row') := by
  refine ⟨writable_of_written h hlookup hwritten, h.recorded.write (h u k) (hlookup.symm ▸ hwritten) fun hnone => ?_⟩
  rw [hlookup] at hnone
  cases hnone

/-- A sweep comes to each question once: those it has written are not running. -/
theorem Recorded.untouched_of_running {now : Time} {k : String} {row : DataQuery}
    (h : Recorded a (.sweep now) ℓ) (hlookup : ℓ.lookup (Key.data_queries u k) = some row)
    (hrunning : row.status = .running) : ℓ.writes.lookup (Key.data_queries u k) = none := by
  cases hrow : ℓ.writes.lookup (Key.data_queries u k) with
  | none => rfl
  | some row' =>
    rw [Local.lookup, hrow, Option.some_or] at hlookup
    cases hlookup
    have hwritten := h.written u k row hrow
    generalize ℓ.committed.lookup (Key.data_queries u k) = old at hwritten
    cases hwritten
    cases hrunning

end Assertions

section Statements

variable {W : Local Row → (key : Key) → Row key → Prop} (a : App) (now : Time)

theorem triple_admitDataQuery (u key hash id question : String) :
    Triple (queryQueue a) W Untouched (admitDataQuery a now u key hash id question)
      fun _ => Recorded a (.submit now u key hash id question) := by
  refine (triple_lock (Q := fun _ ℓ => Untouched ℓ ∧ Key.advisory (a.hashtext u) ∈ ℓ.locks) Untouched.steady
    fun _ ℓ hℓ hkey _ => ⟨hℓ, hkey⟩).bind fun _ => ?_
  have hsteady : Steady (queryQueue a) fun ℓ => Untouched ℓ ∧ Key.advisory (a.hashtext u) ∈ ℓ.locks :=
    ⟨fun ℓ ℓ' hrely h => ⟨Untouched.steady.stable ℓ ℓ' hrely h.1, hrely.locks ▸ h.2⟩,
      fun ℓ key h => ⟨h.1, List.mem_cons_of_mem _ h.2⟩⟩
  refine (triple_snapshot (Q := fun _ ℓ => Untouched ℓ ∧ Key.advisory (a.hashtext u) ∈ ℓ.locks) hsteady.stable
    fun ℓ _ hℓ _ => hℓ).bind fun snap => ?_
  cases snap.lookup (Key.data_queries u key) with
  | some prior => exact triple_refuse_bind fun _ => triple_ret fun ℓ hℓ => hℓ.1.recorded
  | none =>
    refine (triple_snapshot (Q := fun snap ℓ => openQueries snap u < 5 → Untouched ℓ ∧ Room a u ℓ) hsteady.stable
      fun ℓ snap hℓ hsnap hroom => ?_).bind fun snap => triple_refuse_bind fun hcount => ?_
    · refine ⟨hℓ.1, hℓ.2, Nat.lt_of_le_of_lt (openQueries_le fun k row' hrow' hopen => ⟨row', ?_, hopen⟩) hroom⟩
      rw [hsnap, hℓ.1.lookup, hrow']
    · refine Triple.mono (J := fun ℓ => Untouched ℓ ∧ Room a u ℓ) ?_ (fun ℓ hℓ => hℓ (by omega)) fun _ _ h => h
      have hsteady : Steady (queryQueue a) fun ℓ => Untouched ℓ ∧ Room a u ℓ :=
        ⟨fun ℓ ℓ' hrely h => ⟨Untouched.steady.stable ℓ ℓ' hrely h.1, Room.steady.stable ℓ ℓ' hrely h.2⟩,
          fun ℓ key h => ⟨h.1, Room.steady.hold ℓ key h.2⟩⟩
      refine Triple.bind (Q := fun _ => Recorded a (.submit now u key hash id question)) ?_ fun _ =>
        Triple.bind (Q := fun _ => Recorded a (.submit now u key hash id question)) ?_ fun _ => triple_ret fun _ h => h
      · refine triple_insert hsteady fun ℓ hℓ _ _ hnone _ => ⟨.inl hℓ.2.1, ?_⟩
        exact hℓ.1.recorded.write (hℓ.1 u key) (hnone.symm ▸ .admitted now u key hash id question _ rfl rfl)
          fun _ => hℓ.2
      · exact triple_insert Recorded.steady fun ℓ hℓ _ _ _ _ => ⟨.inr trivial, hℓ.write_id⟩

theorem triple_sweepDataQueries :
    Triple (queryQueue a) W Untouched (sweepDataQueries now) fun _ => Recorded a (.sweep now) := by
  refine ((triple_updateAll (J := fun _ => Recorded a (.sweep now)) (fun _ => Recorded.steady)
    fun snap done ℓ key row hℓ _ hkey hrow hp _ => ?_).mono (fun ℓ hℓ => hℓ.recorded) fun _ _ h => h).bind
      fun _ => triple_ret fun _ h => h
  cases key with
  | data_queries u k =>
    simp only [Bool.and_eq_true, decide_eq_true_eq] at hp
    obtain ⟨⟨hrunning, hexpired⟩, hattempts⟩ := hp
    have hwritten : Written (.sweep now) u k (some row) _ := .swept now u k row hrunning hexpired hattempts
    have huntouched := hℓ.untouched_of_running hrow hrunning
    refine ⟨.inr fun _ _ _ => ⟨row, ?_, hwritten.open_⟩, hℓ.write huntouched (hrow.symm ▸ hwritten) fun hnone => ?_⟩
    · rwa [Local.lookup, huntouched, Option.none_or] at hrow
    · rw [hrow] at hnone
      cases hnone
  | _ => cases hp

/-- The question that a claim has found is locked, and may be handed out. -/
def Found (now : Time) : Option (String × String × DataQuery) → Local Row → Prop
  | none, ℓ => Untouched ℓ
  | some (u, k, row), ℓ => (Untouched ℓ ∧ Key.data_queries u k ∈ ℓ.locks ∧
      ℓ.lookup (Key.data_queries u k) = some row) ∧ row.claimable now = true

theorem triple_dataQueryFirst : ∀ keys : List (String × String),
    Triple (queryQueue a) W Untouched (dataQueryFirst now keys) (Found now)
  | [] => triple_ret fun _ hℓ => hℓ
  | (u, k) :: keys => by
    have ih := triple_dataQueryFirst keys
    refine (triple_tryLockRow (Q := fun row ℓ => Untouched ℓ ∧ ∀ row', row = some (some row') →
        Key.data_queries u k ∈ ℓ.locks ∧ ℓ.lookup (Key.data_queries u k) = some row') Untouched.steady.stable
      (fun ℓ hℓ => ⟨hℓ, fun _ h => by cases h⟩) fun ℓ hℓ => ⟨hℓ, fun row' hrow' => ?_⟩).bind fun row => ?_
    · exact ⟨List.mem_cons_self, Option.some.inj hrow'⟩
    · match row with
      | none | some none => exact ih.mono (fun _ hℓ => hℓ.1) fun _ _ h => h
      | some (some row) =>
        refine triple_ite (fun hclaimable => triple_ret fun ℓ hℓ => ?_) fun _ =>
          ih.mono (fun _ hℓ => hℓ.1) fun _ _ h => h
        obtain ⟨hkey, hrow⟩ := hℓ.2 row rfl
        exact ⟨⟨hℓ.1, hkey, hrow⟩, hclaimable⟩

theorem triple_claimDataQuery (fence : String) :
    Triple (queryQueue a) W Untouched (claimDataQuery now fence) fun _ => Recorded a (.claim now fence) := by
  refine (triple_snapshot (Q := fun _ => Untouched) Untouched.steady.stable fun _ _ hℓ _ => hℓ).bind fun snap => ?_
  refine (triple_dataQueryFirst a now _).bind fun found => ?_
  match found with
  | none => exact triple_ret fun _ hℓ => hℓ.recorded
  | some (u, k, row) =>
    refine Triple.bind (Q := fun _ => Recorded a (.claim now fence)) ?_ fun _ => triple_ret fun _ h => h
    intro ℓ hℓ
    refine triple_write (Q := fun _ => Recorded a (.claim now fence)) Untouched.steady
      (fun ℓ' huntouched _ _ hrow _ => ?_) ℓ hℓ.1
    exact huntouched.write hrow (.claimed now fence u k row hℓ.2)

/-- An attempt changes the question only while it holds the fence. -/
theorem triple_updateHeld {statement : QueueStatement} (j : dataJob) (f : DataQuery → DataQuery)
    (hf : ∀ u k row, row.heldBy j = true → Written statement u k (some row) (f row)) :
    Triple (queryQueue a) W Untouched (updateHeld j f) fun _ => Recorded a statement := by
  refine (triple_snapshot (Q := fun _ => Untouched) Untouched.steady.stable fun _ _ hℓ _ => hℓ).bind fun snap => ?_
  match snap.lookup (Key.data_queries_id j.ID) with
  | none => exact triple_ret fun _ hℓ => hℓ.recorded
  | some (u, k) =>
    refine (triple_updateOne (Q := fun _ => Recorded a statement) Untouched.steady
      (fun _ hℓ => hℓ.recorded) fun ℓ _ row hℓ _ _ hrow hheld _ => ?_).bind fun _ => triple_ret fun _ h => h
    exact hℓ.write hrow (hf u k row hheld)

theorem triple_statement (statement : QueueStatement) :
    Triple (queryQueue a) W Untouched (statement.body a) fun _ => Recorded a statement := by
  cases statement with
  | submit now u key hash id question => exact triple_discard (triple_admitDataQuery a now u key hash id question)
  | sweep now => exact triple_sweepDataQueries a now
  | claim now fence => exact triple_discard (triple_claimDataQuery a now fence)
  | progress j chunks => exact triple_updateHeld a j _ fun u k row => .progressed j chunks u k row
  | fail j message => exact triple_updateHeld a j _ fun u k row => .failed j message u k row
  | complete j result => exact triple_updateHeld a j _ fun u k row => .completed j result u k row

end Statements

section Commits

variable {a : App} {statement : QueueStatement} {ℓ : Local Row}

/-- A question that is committed is the one that was, or what the statement has
made of it. -/
theorem Recorded.commit (h : Recorded a statement ℓ) {u k : String} {row' : DataQuery}
    (hrow' : ℓ.commit.lookup (Key.data_queries u k) = some row') :
    ℓ.committed.lookup (Key.data_queries u k) = some row' ∨
      Written statement u k (ℓ.committed.lookup (Key.data_queries u k)) row' := by
  rw [Local.lookup_commit, Local.lookup, Option.or_eq_some_iff] at hrow'
  obtain hrow' | ⟨-, hrow'⟩ := hrow'
  · exact .inr (h.written u k row' hrow')
  · exact .inl hrow'

theorem Recorded.openQueries_commit (h : Recorded a statement ℓ) (u : String)
    (hle : openQueries ℓ.committed u ≤ 5) : openQueries ℓ.commit u ≤ 5 := by
  by_cases hnew : ∃ k row', ℓ.writes.lookup (Key.data_queries u k) = some row' ∧
      ℓ.committed.lookup (Key.data_queries u k) = none
  · obtain ⟨k, row', hrow', hnone⟩ := hnew
    have hroom := (h.room u k row' hrow' hnone).2
    have hwritten := hnone ▸ h.written u k row' hrow'
    cases hwritten with
    | admitted now _ _ hash id question =>
      have hle : openQueries ℓ.commit u ≤ openQueries ℓ.committed u + [k].length := by
        refine openQueries_le_add _ fun k' row hrow hopen => ?_
        obtain hrow | hwritten := h.commit hrow
        · exact .inr ⟨row, hrow, hopen⟩
        · generalize hold : ℓ.committed.lookup (Key.data_queries u k') = old at hwritten
          cases hwritten
          exact .inl (by simp)
      simp only [List.length_singleton] at hle
      omega
  · refine (openQueries_le fun k row' hrow' hopen => ?_).trans hle
    obtain hrow | hwritten := h.commit hrow'
    · exact ⟨row', hrow, hopen⟩
    · rw [Local.lookup_commit, Local.lookup, Option.or_eq_some_iff] at hrow'
      obtain hrow' | ⟨-, hrow'⟩ := hrow'
      · cases hold : ℓ.committed.lookup (Key.data_queries u k) with
        | none => exact absurd ⟨k, row', hrow', hold⟩ hnew
        | some row =>
          rw [hold] at hwritten
          exact ⟨row, rfl, hwritten.open_⟩
      · exact ⟨row', hrow', hopen⟩

theorem Recorded.bounded_commit (h : Recorded a statement ℓ) {u k : String} {row' : DataQuery}
    (hbounded : ∀ row, ℓ.committed.lookup (Key.data_queries u k) = some row → row.Bounded)
    (hrow' : ℓ.commit.lookup (Key.data_queries u k) = some row') : row'.Bounded := by
  obtain hrow' | hwritten := h.commit hrow'
  · exact hbounded row' hrow'
  · exact hwritten.bounded hbounded

end Commits

theorem queryQueue_proved (a : App) :
    (queryQueue a).Proved (fun _ _ _ _ => True) (Recorded a) (QueueStatement.body a) where
  stable _ := Recorded.steady.stable
  inv _ _ _ hinv h := ⟨fun u => h.openQueries_commit u (hinv.1 u), fun u k _ => h.bounded_commit (hinv.2 u k)⟩
  step _ _ _ _ _ := trivial
  wp statement σ _ := triple_statement a statement (.start σ) fun _ _ => rfl

/-- What may become of a question in one step, given the statement that commits
there, if any does. -/
structure DataQuery.Guarded (statement : Option QueueStatement) (row row' : DataQuery) : Prop where
  /-- An answered question, and one that has failed, stay as they are. -/
  final : row.status.open_ = false → row' = row
  /-- An attempt that has lost its fence changes nothing. -/
  fenced : ∀ j, statement.bind QueueStatement.attempt = some j → row.heldBy j = false → row' = row
  /-- Who holds the fence writes the answer; a claim begins it anew, and a sweep
  gives up a second attempt. -/
  written : row'.progress = row.progress ∧ row'.result = row.result ∧ row'.error = row.error ∨
    (∃ j, statement.bind QueueStatement.attempt = some j ∧ row.heldBy j = true) ∨
    (∃ now fence, statement = some (.claim now fence) ∧ row.claimable now = true ∧
      row' = row.begun now fence) ∨
    ∃ now, statement = some (.sweep now) ∧ row.status = .running ∧ row.expired now = true ∧ 2 ≤ row.attempts ∧
      row' = { row with status := .failed, error := some interrupted }

theorem DataQuery.Guarded.refl (statement : Option QueueStatement) (row : DataQuery) : row.Guarded statement row where
  final _ := rfl
  fenced _ _ _ := rfl
  written := .inl ⟨rfl, rfl, rfl⟩

theorem Written.guarded {statement : QueueStatement} {u k : String} {row row' : DataQuery}
    (h : Written statement u k (some row) row') : row.Guarded (some statement) row' where
  final hfinal := by
    rw [h.open_] at hfinal
    cases hfinal
  fenced j hj hheld := by
    cases h with
    | swept | claimed => cases hj
    | progressed _ _ _ _ _ hheld' | failed _ _ _ _ _ hheld' | completed _ _ _ _ _ hheld' =>
      cases hj
      rw [hheld'] at hheld
      cases hheld
  written := by
    cases h with
    | swept now _ _ _ hrunning hexpired hattempts => exact .inr (.inr (.inr ⟨now, rfl, hrunning, hexpired, hattempts, rfl⟩))
    | claimed now fence _ _ _ hclaimable => exact .inr (.inr (.inl ⟨now, fence, rfl, hclaimable, rfl⟩))
    | progressed j _ _ _ _ hheld | failed j _ _ _ _ hheld | completed j _ _ _ _ hheld =>
      exact .inr (.inl ⟨j, rfl, hheld⟩)

section Runs

/-- The queue with the statements that are open on its connections. -/
abbrev QueueState := Database Row Error QueueStatement

variable {a : App} {db : QueueState} {move : Move QueueStatement}

/-- The attempts that a question has used. -/
def QueueState.attempts (u k : String) (db : QueueState) : Nat :=
  match db.store.lookup (Key.data_queries u k) with
  | none => 0
  | some row => row.attempts

/-- A move commits a claim that hands out the question. -/
def QueueState.handsOut (u k : String) (db : QueueState) (move : Move QueueStatement) : Bool :=
  match db.commits move with
  | some { label := .claim _ _, writes, .. } => (writes.lookup (Key.data_queries u k)).isSome
  | _ => false

abbrev QueueState.Sound (a : App) : QueueState → Prop :=
  Database.Sound (queryQueue a) (fun _ _ _ _ => True) (Recorded a)

theorem QueueState.Sound.step (h : QueueState.Sound a db) : QueueState.Sound a (db.step (QueueStatement.body a) move) :=
  (Database.Sound.step (queryQueue_proved a) h fun _ _ _ _ _ _ _ _ _ => trivial).1

/-- What one move makes of a question. -/
theorem QueueState.lookup_step (h : QueueState.Sound a db) (move : Move QueueStatement) (u k : String) :
    (db.step (QueueStatement.body a) move).store.lookup (Key.data_queries u k) =
        db.store.lookup (Key.data_queries u k) ∧ QueueState.handsOut u k db move = false ∨
      ∃ t row', db.commits move = some t ∧ t.writes.lookup (Key.data_queries u k) = some row' ∧
        (db.step (QueueStatement.body a) move).store.lookup (Key.data_queries u k) = some row' ∧
        Written t.label u k (db.store.lookup (Key.data_queries u k)) row' := by
  rw [Database.store_step]
  unfold QueueState.handsOut
  cases ht : db.commits move with
  | none => exact .inl ⟨rfl, rfl⟩
  | some t =>
    simp only [Option.map_some, Option.getD_some, Local.lookup_commit, Local.lookup]
    cases hrow : t.writes.lookup (Key.data_queries u k) with
    | none =>
      refine .inl ⟨by simp [Open.at, hrow], ?_⟩
      split
      · next heq =>
        cases heq
        rw [hrow]
        rfl
      · rfl
    | some row' =>
      exact .inr ⟨t, row', rfl, hrow, by simp [Open.at, hrow], (h.commits ht).1.written u k row' hrow⟩

theorem QueueState.guarded_step (h : QueueState.Sound a db) {u k : String} {row : DataQuery}
    (hrow : db.store.lookup (Key.data_queries u k) = some row) :
    ∃ row', (db.step (QueueStatement.body a) move).store.lookup (Key.data_queries u k) = some row' ∧
      row.Guarded ((db.commits move).map (·.label)) row' := by
  obtain ⟨hsame, -⟩ | ⟨t, row', ht, -, hrow', hwritten⟩ := QueueState.lookup_step h move u k
  · exact ⟨row, hsame.trans hrow, .refl _ row⟩
  · rw [hrow] at hwritten
    rw [ht]
    exact ⟨row', hrow', hwritten.guarded⟩

/-- A claim uses one of the attempts of the question that it hands out. -/
theorem QueueState.attempts_step (h : QueueState.Sound a db) (u k : String) :
    QueueState.attempts u k db + (if QueueState.handsOut u k db move then 1 else 0) ≤
      QueueState.attempts u k (db.step (QueueStatement.body a) move) := by
  obtain ⟨hsame, hhands⟩ | ⟨t, row', ht, hwrites, hrow', hwritten⟩ := QueueState.lookup_step h move u k
  · rw [hhands]
    simp [attempts, hsame]
  · unfold attempts handsOut
    rw [hrow', ht]
    obtain ⟨label, body, writes, locks⟩ := t
    generalize db.store.lookup (Key.data_queries u k) = old at hwritten
    cases hwritten with
    | claimed now fence _ _ row => simp [hwrites, DataQuery.begun]
    | admitted | swept | progressed | failed | completed => simp

theorem QueueState.attempts_le_two (h : QueueState.Sound a db) (u k : String) : QueueState.attempts u k db ≤ 2 := by
  unfold attempts
  cases hrow : db.store.lookup (Key.data_queries u k) with
  | none => exact Nat.zero_le _
  | some row => exact (h.inv.2 u k row hrow).attempts

theorem sound_idle_of_no_queries {σ : Store} (hσ : ∀ u k, σ.lookup (Key.data_queries u k) = none) :
    QueueState.Sound a (.idle σ) := by
  refine .idle ⟨fun u => ?_, fun u k row hrow => by cases (hσ u k).symm.trans hrow⟩
  have hle : openQueries σ u ≤ openQueries (∅ : Store) u :=
    openQueries_le fun k row' hrow' => by cases (hσ u k).symm.trans hrow'
  have hzero : openQueries (∅ : Store) u = 0 := rfl
  omega

end Runs

/-- Whatever the statements of the queue do to each other and wherever they stop,
no question is handed out more than twice, what becomes of it is guarded by its
fence and its status, and no subject has more than five open ones. -/
theorem data_query_queue_safe (a : App) {σ : Store} (hσ : ∀ u k, σ.lookup (Key.data_queries u k) = none)
    (moves : List (Move QueueStatement)) :
    (∀ u k, machine.count (Database.step (QueueStatement.body a)) (QueueState.handsOut u k) (.idle σ) moves ≤ 2) ∧
      machine.Always (Database.step (QueueStatement.body a)) (fun db move => ∀ u k row,
        db.store.lookup (Key.data_queries u k) = some row →
        ∃ row', (db.step (QueueStatement.body a) move).store.lookup (Key.data_queries u k) = some row' ∧
          row.Guarded ((db.commits move).map (·.label)) row') (.idle σ) moves ∧
      ∀ u, openQueries (machine.run (Database.step (QueueStatement.body a)) (.idle σ) moves).store u ≤ 5 := by
  have hinit : QueueState.Sound a (.idle σ) := sound_idle_of_no_queries hσ
  have hsound (moves : List (Move QueueStatement)) :
      QueueState.Sound a (machine.run (Database.step (QueueStatement.body a)) (.idle σ) moves) :=
    machine.run_invariant hinit (fun _ _ h => h.step) moves
  refine ⟨fun u k => ?_, fun pre move post _ u k row hrow => QueueState.guarded_step (hsound pre) hrow,
    (hsound moves).inv.1⟩
  have hcount := machine.count_le (p := QueueState.handsOut u k) (φ := QueueState.attempts u k)
    (fun db move h _ => ⟨QueueState.Sound.step h, QueueState.attempts_step h u k⟩) hinit
    (machine.always_true (Database.idle σ) moves)
  exact (Nat.le_of_add_left_le hcount).trans (QueueState.attempts_le_two (hsound moves) u k)

/-- A statement with its connection to itself. -/
def alone (statement : QueueStatement) : List (Move QueueStatement) :=
  .start 1 statement :: List.replicate 8 (.exec 1)

/-- Both attempts at a question are cut off, and a sweep is about to commit. -/
def abandoned : List (Move QueueStatement) :=
  alone (.submit 0 "alice" "k1" "h1" "q1" "orders by month") ++ alone (.claim (seconds 1) "f1") ++
    alone (.claim (seconds 200) "f2") ++ .start 1 (.sweep (seconds 400)) :: List.replicate 3 (.exec 1)

theorem data_query_queue_safe_abandoned :
    machine.count (Database.step (QueueStatement.body deployed)) (QueueState.handsOut "alice" "k1") (.idle seed)
      abandoned ≤ 2 :=
  (data_query_queue_safe deployed (fun u k => by rfl) abandoned).1 "alice" "k1"

set_option maxRecDepth 2000 in
/-- The sweep writes the error of a question with no attempt at it under way. -/
theorem sweep_writes_error :
    ∃ db row row', machine.run (Database.step (QueueStatement.body deployed)) (.idle seed) abandoned = db ∧
      db.store.lookup (Key.data_queries "alice" "k1") = some row ∧
      (db.step (QueueStatement.body deployed) (.exec 1)).store.lookup (Key.data_queries "alice" "k1") = some row' ∧
      row'.error ≠ row.error ∧ (db.commits (.exec 1)).bind (·.label.attempt) = none := by
  refine ⟨_, _, _, rfl, rfl, rfl, by decide, rfl⟩

end incidentdesk
