import IncidentDesk.CaseStep
import IncidentDesk.Sql.Interleaving
import IncidentDesk.Sql.Rules

namespace incidentdesk

open sql sql.Tx

/-- The last number that an investigation has given to an event. -/
def lastSeq (rows : (key : Key) → Option (Row key)) (id : String) : Nat :=
  ((rows (Key.investigations id)).map (·.seq)).getD 0

/-- The events of every investigation are numbered from one to its `seq`. -/
def Numbered (rows : (key : Key) → Option (Row key)) : Prop :=
  ∀ id n, (rows (Key.events id n)).isSome = true ↔ 1 ≤ n ∧ n ≤ lastSeq rows id

/-- The row that is locked by whoever adds an event is its investigation's. -/
def Key.stream : Key → Key
  | .events id _ => .investigations id
  | key => key

/-- An event that is there may be overwritten by anyone. -/
def Key.sameEvents : (key : Key) → Option (Row key) → Option (Row key) → Prop
  | .events _ _, row, row' => row.isSome = row'.isSome
  | _, _, _ => True

/-- How transactions share the event streams. -/
def streams : Discipline Row where
  root := Key.stream
  Free := Key.sameEvents
  Inv σ := Numbered σ.lookup
  Step σ σ' := ∀ id, lastSeq σ.lookup id ≤ lastSeq σ'.lookup id
  free_refl key row := by cases key <;> simp [Key.sameEvents]
  free_trans key row row' row'' h h' := by
    cases key with
    | events => exact Eq.trans h h'
    | _ => trivial
  step_refl σ id := le_rfl
  step_trans σ σ' σ'' h h' id := (h id).trans (h' id)

/-- The streams as a transaction sees them while it still has to add the events
`pending`, whose numbers it has already taken. -/
structure Streaming (pending : String → Nat → Prop) (ℓ : Local Row) : Prop where
  numbered : ∀ id n, (ℓ.lookup (Key.events id n)).isSome = true ∨ pending id n ↔
    1 ≤ n ∧ n ≤ lastSeq ℓ.lookup id
  locked : ∀ id n, pending id n → Key.investigations id ∈ ℓ.locks
  grown : ∀ id, lastSeq ℓ.committed.lookup id ≤ lastSeq ℓ.lookup id

/-- No event is missing from any stream. -/
abbrev Complete : Local Row → Prop := Streaming fun _ _ => False

/-- What any transaction may do to a row by itself: keep the numbers. -/
def Key.keepsSeq : (key : Key) → Option (Row key) → Row key → Prop
  | .investigations _, row, row' => row'.seq = (row.map (·.seq)).getD 0
  | .events _ _, row, _ => row.isSome = true
  | _, _, _ => True

namespace Streaming

variable {pending : String → Nat → Prop} {ℓ ℓ' : Local Row} {id : String}

/-- A row that the transaction has not written is the committed one. -/
theorem lookup_committed {key : Key} (h : ℓ.writes.lookup key = none) :
    ℓ.lookup key = ℓ.committed.lookup key := by
  rw [Local.lookup, h, Option.none_or]

theorem lastSeq_congr {rows rows' : (key : Key) → Option (Row key)}
    (h : rows' (Key.investigations id) = rows (Key.investigations id)) : lastSeq rows' id = lastSeq rows id := by
  rw [lastSeq, h, lastSeq]

/-- A stream whose investigation is locked keeps its last number. -/
theorem lastSeq_of_locked (hrely : Rely streams ℓ ℓ') (hid : Key.investigations id ∈ ℓ.locks) :
    lastSeq ℓ'.lookup id = lastSeq ℓ.lookup id ∧
      lastSeq ℓ'.committed.lookup id = lastSeq ℓ.committed.lookup id :=
  ⟨lastSeq_congr (hrely.lookup_eq hid), lastSeq_congr (hrely.locked _ hid)⟩

/-- An event is there for the transaction as it is for everybody, unless it has
locked the investigation. -/
theorem isSome_of_not_locked (hobeys : ℓ.Obeys streams) (hid : Key.investigations id ∉ ℓ.locks) (n : Nat) :
    (ℓ.lookup (Key.events id n)).isSome = (ℓ.committed.lookup (Key.events id n)).isSome := by
  cases hrow : ℓ.writes.lookup (Key.events id n) with
  | none => rw [lookup_committed hrow]
  | some row =>
    obtain ⟨-, hroot | hfree⟩ := hobeys (Key.events id n) row hrow
    · exact absurd hroot hid
    · have hfree : (ℓ.committed.lookup (Key.events id n)).isSome = true := hfree
      rw [Local.lookup, hrow, hfree, Option.some_or, Option.isSome_some]

theorem lastSeq_of_not_locked (hobeys : ℓ.Obeys streams) (hid : Key.investigations id ∉ ℓ.locks) :
    lastSeq ℓ.lookup id = lastSeq ℓ.committed.lookup id := by
  refine lastSeq_congr (lookup_committed ?_)
  by_contra hrow
  obtain ⟨row, hrow⟩ := Option.ne_none_iff_exists'.mp hrow
  exact hid (hobeys _ row hrow).1

theorem stable (pending : String → Nat → Prop) : Stable streams (Streaming pending) := by
  intro ℓ ℓ' hrely h
  refine ⟨fun id n => ?_, fun id n hn => by rw [hrely.locks]; exact h.locked id n hn, fun id => ?_⟩
  · by_cases hid : Key.investigations id ∈ ℓ.locks
    · rw [(lastSeq_of_locked hrely hid).1, ← h.numbered id n]
      have hfree : (ℓ.committed.lookup (Key.events id n)).isSome =
          (ℓ'.committed.lookup (Key.events id n)).isSome := hrely.rooted (Key.events id n) hid
      simp only [Local.lookup, hrely.writes, Option.isSome_or, hfree]
    · have hpending : ¬ pending id n := fun hn => hid (h.locked id n hn)
      have hid' : Key.investigations id ∉ ℓ'.locks := by rwa [hrely.locks]
      rw [isSome_of_not_locked hrely.obeys hid' n, lastSeq_of_not_locked hrely.obeys hid', ← hrely.inv id n]
      exact or_iff_left hpending
  · by_cases hid : Key.investigations id ∈ ℓ.locks
    · rw [(lastSeq_of_locked hrely hid).1, (lastSeq_of_locked hrely hid).2]
      exact h.grown id
    · have hid' : Key.investigations id ∉ ℓ'.locks := by rwa [hrely.locks]
      exact (lastSeq_of_not_locked hrely.obeys hid').ge

theorem steady (pending : String → Nat → Prop) : Steady streams (Streaming pending) where
  stable := stable pending
  hold _ _ h := ⟨h.numbered, fun id n hn => List.mem_cons_of_mem _ (h.locked id n hn), h.grown⟩

theorem congr {pending' : String → Nat → Prop} (h : Streaming pending ℓ)
    (hpending : ∀ id n, pending' id n ↔ pending id n) : Streaming pending' ℓ :=
  ⟨fun id n => by rw [hpending]; exact h.numbered id n, fun id n hn => h.locked id n ((hpending id n).mp hn),
    h.grown⟩

/-- A write to a table that has nothing to do with the streams. -/
theorem write_other {key : Key} (h : Streaming pending ℓ) (row : Row key)
    (hkey : ∀ id, key ≠ .investigations id) (hkey' : ∀ id n, key ≠ .events id n) :
    Streaming pending (ℓ.write key row) := by
  have hseq (id : String) : lastSeq (ℓ.write key row).lookup id = lastSeq ℓ.lookup id :=
    lastSeq_congr (Local.lookup_write_ne (hkey id).symm ℓ row)
  refine ⟨fun id n => ?_, h.locked, fun id => ?_⟩
  · rw [hseq, Local.lookup_write_ne (hkey' id n).symm]
    exact h.numbered id n
  · rw [hseq]
    exact h.grown id

/-- An investigation is written with some number, and the events up to it are
there or still to be added. -/
theorem write_investigation {pending' : String → Nat → Prop} (h : Streaming pending ℓ) (i : Investigation)
    (hlocked : Key.investigations id ∈ ℓ.locks) (hle : lastSeq ℓ.lookup id ≤ i.seq)
    (hpending : ∀ n, (ℓ.lookup (Key.events id n)).isSome = true ∨ pending' id n ↔ 1 ≤ n ∧ n ≤ i.seq)
    (hothers : ∀ id' n, id' ≠ id → (pending' id' n ↔ pending id' n)) :
    Streaming pending' (ℓ.write (Key.investigations id) i) := by
  have hseq {id' : String} (hid : id' ≠ id) :
      lastSeq (ℓ.write (Key.investigations id) i).lookup id' = lastSeq ℓ.lookup id' := by
    have hne : Key.investigations id' ≠ Key.investigations id := by simpa using hid
    exact lastSeq_congr (Local.lookup_write_ne hne ℓ i)
  have hseq_self : lastSeq (ℓ.write (Key.investigations id) i).lookup id = i.seq := by
    rw [lastSeq, Local.lookup_write_self, Option.map_some, Option.getD_some]
  refine ⟨fun id' n => ?_, fun id' n hn => ?_, fun id' => ?_⟩
  · rw [Local.lookup_write_ne (by simp)]
    by_cases hid : id' = id
    · subst hid
      rw [hseq_self]
      exact hpending n
    · rw [hseq hid, hothers id' n hid]
      exact h.numbered id' n
  · by_cases hid : id' = id
    · subst hid
      exact hlocked
    · exact h.locked id' n ((hothers id' n hid).mp hn)
  · by_cases hid : id' = id
    · subst hid
      rw [hseq_self]
      exact (h.grown id').trans hle
    · rw [hseq hid]
      exact h.grown id'

/-- An event is written that was pending or already there. -/
theorem write_event {pending' : String → Nat → Prop} {n : Nat} (h : Streaming pending ℓ) (row : Event)
    (hpending : ∀ id' n', (ℓ.lookup (Key.events id' n')).isSome = true ∨ pending id' n' ↔
      (id' = id ∧ n' = n ∨ (ℓ.lookup (Key.events id' n')).isSome = true) ∨ pending' id' n')
    (hsub : ∀ id' n', pending' id' n' → pending id' n') :
    Streaming pending' (ℓ.write (Key.events id n) row) := by
  have hseq (id' : String) : lastSeq (ℓ.write (Key.events id n) row).lookup id' = lastSeq ℓ.lookup id' := by
    have hne : Key.investigations id' ≠ Key.events id n := by simp
    exact lastSeq_congr (Local.lookup_write_ne hne ℓ row)
  refine ⟨fun id' n' => ?_, fun id' n' hn => h.locked id' n' (hsub id' n' hn), fun id' => ?_⟩
  · rw [hseq, ← h.numbered id' n', hpending id' n']
    refine or_congr_left ?_
    by_cases hkey : id' = id ∧ n' = n
    · obtain ⟨rfl, rfl⟩ := hkey
      simp
    · rw [Local.lookup_write_ne (by simpa using hkey)]
      simp [hkey]
  · rw [hseq]
    exact h.grown id'

/-- Complete streams stay complete under the writes that keep the numbers. -/
theorem kept : Kept streams Complete Key.keepsSeq where
  toSteady := steady _
  write ℓ key row h hmet hkey hrow := by
    cases key with
    | investigations id =>
      have hseq : row.seq = lastSeq ℓ.lookup id := hrow
      refine ⟨.inl hkey, h.write_investigation row hkey hseq.ge (fun n => ?_) fun _ _ _ => Iff.rfl⟩
      rw [hseq]
      exact h.numbered id n
    | events id n =>
      have hrow : (ℓ.lookup (Key.events id n)).isSome = true := hrow
      refine ⟨?_, h.write_event row (fun id' n' => ?_) fun _ _ => False.elim⟩
      · by_cases hid : Key.investigations id ∈ ℓ.locks
        · exact .inl hid
        · exact .inr ((isSome_of_not_locked hmet.obeys hid n).symm.trans hrow)
      · by_cases hkey : id' = id ∧ n' = n
        · obtain ⟨rfl, rfl⟩ := hkey
          simp [hrow]
        · simp [hkey]
    | _ => exact ⟨.inr trivial, h.write_other row (by simp) (by simp)⟩

end Streaming

end incidentdesk
