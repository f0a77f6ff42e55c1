import IncidentDesk.Effects.Sources
import IncidentDesk.Handlers
import IncidentDesk.Numbering

namespace incidentdesk

open sql sql.Tx

section Keeps

variable {W : Local Row → (key : Key) → Row key → Prop} {α : Type}

/-- An event that has taken the next number of its stream. -/
abbrev Awaiting (id : String) (n : Nat) : Local Row → Prop := Streaming fun id' n' => id' = id ∧ n' = n

/-- Taking the next number of a stream leaves one event to be added. -/
theorem Streaming.write_next {pending : String → Nat → Prop} {ℓ : Local Row} {id : String} {i i' : Investigation}
    (h : Streaming pending ℓ) (hkey : Key.investigations id ∈ ℓ.locks)
    (hi : ℓ.lookup (Key.investigations id) = some i) (hseq : i'.seq = i.seq + 1) :
    Streaming (fun id' n' => pending id' n' ∨ id' = id ∧ n' = i'.seq) (ℓ.write (Key.investigations id) i') := by
  have hlast : lastSeq ℓ.lookup id = i.seq := by rw [lastSeq, hi, Option.map_some, Option.getD_some]
  refine h.write_investigation i' hkey (by omega) (fun n => ?_) fun id' n hid => by simp [hid]
  rw [← or_assoc, h.numbered id n, hlast, hseq]
  simp only [true_and]
  omega

/-- Adding a pending event leaves the others pending. -/
theorem Streaming.write_pending {pending pending' : String → Nat → Prop} {ℓ : Local Row} {id : String} {n : Nat}
    (h : Streaming pending ℓ) (row : Event)
    (hpending : ∀ id' n', pending id' n' ↔ id' = id ∧ n' = n ∨ pending' id' n') :
    Streaming pending' (ℓ.write (Key.events id n) row) :=
  h.write_event row (fun id' n' => by rw [hpending, ← or_assoc, or_comm (a := _ = true)])
    fun id' n' hn => (hpending id' n').mpr (.inr hn)

theorem keeps_event (id kind : String) (payload : Json) : Keeps streams W Complete (event id kind payload) := by
  refine Triple.bind (Q := fun row ℓ => ∀ i, row = some i → Awaiting id i.seq ℓ) ?_ fun row => ?_
  · refine triple_updateOne (Streaming.steady _) (by simp) fun ℓ snap i hℓ _ hkey hi _ _ => ⟨.inl hkey, ?_⟩
    rintro i' ⟨⟩
    have hseq : ({ i with seq := i.seq + 1 } : Investigation).seq = i.seq + 1 := rfl
    simpa using hℓ.write_next hkey hi hseq
  · refine (triple_require (Q := fun i => Awaiting id i.seq) fun i hi ℓ hℓ => hℓ i hi).bind fun i => ?_
    refine triple_insert (Streaming.steady _) fun ℓ hℓ _ _ _ _ => ⟨.inl (hℓ.locked id i.seq ⟨rfl, rfl⟩), ?_⟩
    exact hℓ.write_pending _ (by simp)

/-- The events that the rows of an `insert ... select` would add. -/
def Adds (rows : List (Sigma Row)) (id : String) (n : Nat) : Prop :=
  ∃ row : Event, (⟨.events id n, row⟩ : Sigma Row) ∈ rows

theorem adds_nil (id : String) (n : Nat) : ¬ Adds [] id n := by
  rintro ⟨row, h⟩
  cases h

theorem adds_cons {id id' : String} {n n' : Nat} {row : Event} {rest : List (Sigma Row)} :
    Adds (⟨.events id n, row⟩ :: rest) id' n' ↔ id' = id ∧ n' = n ∨ Adds rest id' n' := by
  constructor
  · rintro ⟨row', h⟩
    obtain h | h := List.mem_cons.mp h
    · cases h
      exact .inl ⟨rfl, rfl⟩
    · exact .inr ⟨row', h⟩
  · rintro (⟨rfl, rfl⟩ | ⟨row', h⟩)
    · exact ⟨row, List.mem_cons_self⟩
    · exact ⟨row', List.mem_cons_of_mem _ h⟩

theorem adds_concat {id id' : String} {n n' : Nat} {row : Event} {rows : List (Sigma Row)} :
    Adds (rows ++ [⟨.events id n, row⟩]) id' n' ↔ Adds rows id' n' ∨ id' = id ∧ n' = n := by
  have hcons : Adds [⟨.events id n, row⟩] id' n' ↔ id' = id ∧ n' = n := by
    rw [adds_cons, or_iff_left (adds_nil id' n')]
  rw [← hcons]
  simp only [Adds, List.mem_append, exists_or]

/-- Events that are pending are added one after the other. -/
theorem triple_insertEvents (rows : List (Sigma Row)) (hrows : ∀ e ∈ rows, ∃ id n, e.1 = Key.events id n) :
    Triple streams W (Streaming (Adds rows)) (insertEach (ε := Error) .uniqueViolation rows) fun _ => Complete := by
  refine (triple_insertEach (J := fun rest ℓ => (∀ e ∈ rest, ∃ id n, e.1 = Key.events id n) ∧
    Streaming (Adds rest) ℓ) (fun rest => (Streaming.steady _).and_left _) ?_ rows).mono
    (fun ℓ hℓ => ⟨hrows, hℓ⟩) fun _ ℓ hℓ => hℓ.2.congr fun id n => by simp [adds_nil]
  rintro key row rest ℓ ⟨hkeys, hℓ⟩ - - - -
  obtain ⟨id, n, rfl⟩ := hkeys _ List.mem_cons_self
  refine ⟨.inl (hℓ.locked id n ⟨row, List.mem_cons_self⟩), fun e he => hkeys e (List.mem_cons_of_mem _ he), ?_⟩
  exact hℓ.write_pending row fun id' n' => adds_cons

/-- Every investigation of which a notification has made a new version has its
event added. -/
theorem keeps_notifyWorkbenches (service : String) (remove : Bool) (watermark : Nat) :
    Keeps streams W Complete (notifyWorkbenches service remove watermark) := by
  let changed (rows : List (Sigma Row)) := rows.filterMap (sourceInvalidated remove watermark)
  refine Triple.bind (Q := fun rows => Streaming (Adds (changed rows))) ?_ fun rows => ?_
  · refine (triple_updateAll (J := fun rows => Streaming (Adds (changed rows)))
      (fun _ => Streaming.steady _) fun snap rows ℓ key row hℓ _ hkey hrow hp _ => ?_).mono ?_ fun _ _ h => h
    · cases key with
      | investigations id =>
        refine ⟨.inl hkey, ?_⟩
        have hseq : ({ row with seq := row.seq + 1 } : Investigation).seq = row.seq + 1 := rfl
        refine (hℓ.write_next hkey hrow hseq).congr fun id' n' => ?_
        have hchanged : changed (rows ++ [⟨.investigations id, { row with seq := row.seq + 1 }⟩]) =
            changed rows ++ [⟨.events id (row.seq + 1),
              { kind := "source_invalidated", payload := .obj [("content_removed", .bool remove),
                ("watermark", .num watermark)] }⟩] := by
          simp [changed, sourceInvalidated]
        rw [hchanged, adds_concat]
      | _ => cases hp
    · exact fun ℓ hℓ => hℓ.congr fun id n => iff_of_false (adds_nil id n) not_false
  · exact triple_insertEvents _ fun _ he => key_of_sourceInvalidated he

theorem keeps_transaction (a : App) (now : Time) (txn : Transaction) :
    Keeps streams W Complete (txn.body a now) := by
  have hJ : Kept streams Complete Key.stamped := Streaming.kept.mono fun key row row' h => by
    cases key with
    | investigations =>
      cases row with
      | none => exact h
      | some row => exact h.1
    | events => exact h
    | _ => trivial
  refine keeps_body (kept_sourced hJ) keeps_event a now txn (keeps_stamps hJ keeps_event keeps_notifyWorkbenches a now txn)
    fun u id category label newID _ => ?_
  refine Streaming.kept.snapshot.bind fun snap => ?_
  cases snap.lookup (Key.investigations id) with
  | none => exact keeps_ret
  | some i => exact Streaming.kept.insert (by trivial)

end Keeps

/-- A transaction with the time at which it begins. -/
abbrev Session := Time × Transaction

def Session.body (a : App) (t : Session) : Tx Unit := t.2.body a t.1

/-- Every transaction of the system leaves the streams complete. -/
theorem streams_proved (a : App) : streams.Proved (fun _ _ _ _ => True) (fun _ => Complete) (Session.body a) where
  stable _ := Streaming.stable _
  inv _ ℓ _ _ h id n := by
    have hnumbered := h.numbered id n
    rw [or_false] at hnumbered
    simpa [lastSeq] using hnumbered
  step _ ℓ _ _ h id := by simpa [lastSeq] using h.grown id
  wp t σ hσ := by
    refine keeps_transaction a t.1 t.2 _ ⟨fun id n => ?_, fun _ _ => False.elim, fun _ => le_rfl⟩
    rw [or_false]
    exact hσ id n

end incidentdesk
