import IncidentDesk.Sql.Interleaving
import Mathlib.Logic.Relation

namespace sql

/-- The rows for which transactions are watched, each under a name of its own. -/
structure Territory (κ π : Type) where
  part : κ → Option π
  inj : ∀ key key' p, part key = some p → part key' = some p → key = key'

/-- The order in which a transaction takes the rows of a territory: which it may
hold while it waits for another, and which it must. -/
structure LockOrder (π : Type) where
  Before : π → π → Prop
  Needs : π → π → Prop

section Territory

variable {κ π : Type} (T : Territory κ π) (O : LockOrder π)

/-- A transaction that holds these locks waits for the row in the given order. -/
def LockOrder.Allows (held : List κ) (key : κ) : Prop :=
  ∀ q, T.part key = some q → (∀ key' ∈ held, ∀ p, T.part key' = some p → O.Before p q) ∧
    ∀ p, O.Needs q p → ∃ key' ∈ held, T.part key' = some p

def Territory.parts (key : κ) : List π := (T.part key).toList

/-- The locks include the rows of `B`, and of the territory at most those of `A`. -/
structure Territory.Holding (A B : List π) (held : List κ) : Prop where
  within : ∀ key ∈ held, ∀ p, T.part key = some p → p ∈ A
  keeps : ∀ p ∈ B, ∃ key ∈ held, T.part key = some p

/-- A transaction that holds all of `B` and at most `A` may wait for the row of
this name. -/
def LockOrder.Permits (A B : List π) (q : π) : Prop :=
  q ∈ B ∨ (∀ p ∈ A, p = q ∨ O.Before p q) ∧ ∀ p, O.Needs q p → p ∈ B

variable {T O} {A A' B B' : List π} {key : κ} {held : List κ}

@[simp] theorem Territory.mem_parts {p : π} : p ∈ T.parts key ↔ T.part key = some p := by
  simp [Territory.parts]

theorem LockOrder.Permits.mono {q : π} (h : O.Permits A B q) (hA : ∀ p ∈ A', p ∈ A) (hB : ∀ p ∈ B, p ∈ B') :
    O.Permits A' B' q :=
  h.imp (hB q) fun h => ⟨fun p hp => h.1 p (hA p hp), fun p hp => hB p (h.2 p hp)⟩

/-- A transaction does not wait for what it holds. -/
theorem permits_held (h : ∀ q ∈ T.parts key, q ∈ B) (q : π) (hq : q ∈ T.parts key) : O.Permits A B q := .inl (h q hq)

/-- A row that a transaction has just locked may be written. -/
theorem permits_locked (q : π) (hq : q ∈ T.parts key) : O.Permits (T.parts key ++ A) (T.parts key ++ B) q :=
  .inl (List.mem_append_left _ hq)

namespace Territory.Holding

theorem nil : T.Holding [] [] [] where
  within _ h := by cases h
  keeps _ h := by cases h

theorem mono (h : T.Holding A B held) (hA : ∀ p ∈ A, p ∈ A') (hB : ∀ p ∈ B', p ∈ B) : T.Holding A' B' held :=
  ⟨fun key hkey p hp => hA p (h.within key hkey p hp), fun p hp => h.keeps p (hB p hp)⟩

theorem cons (h : T.Holding A B held) (key : κ) : T.Holding (T.parts key ++ A) (T.parts key ++ B) (key :: held) where
  within key' hkey' p hp := by
    obtain rfl | hkey' := List.mem_cons.mp hkey'
    · exact List.mem_append_left _ (mem_parts.mpr hp)
    · exact List.mem_append_right _ (h.within key' hkey' p hp)
  keeps p hp := by
    obtain hp | hp := List.mem_append.mp hp
    · exact ⟨key, List.mem_cons_self, mem_parts.mp hp⟩
    · obtain ⟨key', hkey', hp⟩ := h.keeps p hp
      exact ⟨key', List.mem_cons_of_mem _ hkey', hp⟩

/-- Nothing but the rows of `A` is held while a row is waited for. -/
theorem allows (h : T.Holding A B held) (hkey : ∀ q ∈ T.parts key, O.Permits A B q) :
    key ∈ held ∨ O.Allows T held key := by
  by_cases hheld : key ∈ held
  · exact .inl hheld
  refine .inr fun q hq => ?_
  obtain hB | ⟨hbefore, hneeds⟩ := hkey q (mem_parts.mpr hq)
  · obtain ⟨key', hkey', hq'⟩ := h.keeps q hB
    obtain rfl := T.inj key key' q hq hq'
    exact absurd hkey' hheld
  · refine ⟨fun key' hkey' p hp => ?_, fun p hp => h.keeps p (hneeds p hp)⟩
    obtain rfl | hp' := hbefore p (h.within key' hkey' p hp)
    · obtain rfl := T.inj key key' p hq hp
      exact absurd hkey' hheld
    · exact hp'

theorem insert (h : T.Holding A B held) (hkey : ∀ q ∈ T.parts key, q ∈ A) : T.Holding A B (key :: held) :=
  (h.cons key).mono (fun p hp => (List.mem_append.mp hp).elim (hkey p) id) fun _ => List.mem_append_right _

theorem and_mem (h : T.Holding A B held) (hkey : key ∈ held) : T.Holding A (T.parts key ++ B) held :=
  ⟨h.within, fun p hp => (List.mem_append.mp hp).elim (fun hp => ⟨key, hkey, mem_parts.mp hp⟩) (h.keeps p)⟩

theorem back (h : T.Holding (T.parts key ++ A) (T.parts key ++ B) held) : T.Holding (T.parts key ++ A) B held :=
  h.mono (fun _ hp => hp) fun _ => List.mem_append_right _

/-- A row that was locked already is locked again. -/
theorem again (h : T.Holding (T.parts key ++ (T.parts key ++ A)) (T.parts key ++ (T.parts key ++ B)) held) :
    T.Holding (T.parts key ++ A) (T.parts key ++ B) held :=
  h.mono (fun p hp => by simpa using hp) fun _ => List.mem_append_right _

end Territory.Holding

/-- The locks after a statement that may have locked the row, and has if `found`. -/
def Territory.Took (T : Territory κ π) (key : κ) (A B : List π) (found : Prop) (held : List κ) : Prop :=
  T.Holding (T.parts key ++ A) B held ∧ (found → T.Holding (T.parts key ++ A) (T.parts key ++ B) held)

theorem Territory.Holding.took {found : Prop} (h : T.Holding (T.parts key ++ A) (T.parts key ++ B) held) :
    T.Took key A B found held :=
  ⟨h.back, fun _ => h⟩

theorem Territory.Holding.missed {found : Prop} (h : T.Holding A B held) (hfound : ¬ found) :
    T.Took key A B found held :=
  ⟨h.mono (fun _ => List.mem_append_right _) fun _ hp => hp, fun hfound' => absurd hfound' hfound⟩

end Territory

variable {κ : Type} [DecidableEq κ] {ρ : κ → Type} {ε α β ω π : Type}

namespace Tx

/-- The weakest precondition of a body, over the rows that the transaction has
locked, under which it ends in `Q` and waits for a row only when `E` allows it
with the rows that it has by then. `I` is what every version of a row satisfies,
also those that the body writes. -/
def acquires (I : (key : κ) → Option (ρ key) → Prop) (E : List κ → κ → Prop) :
    Tx ρ ε α → (α → List κ → Prop) → List κ → Prop
  | ret value, Q, held => Q value held
  | raise _, _, _ => True
  | scan next, Q, held => ∀ snap : Store ρ, (∀ key, I key (snap.lookup key)) → acquires I E (next snap) Q held
  | lock key next, Q, held =>
      (key ∈ held ∨ E held key) ∧ ∀ row, I key row → acquires I E (next row) Q (key :: held)
  | tryLock key next, Q, held =>
      acquires I E (next none) Q held ∧ ∀ row, I key row → acquires I E (next (some row)) Q (key :: held)
  | write key row next, Q, held =>
      (key ∈ held ∨ E held key) ∧ I key (some row) ∧ acquires I E next Q (key :: held)

/-- From every set of locks in `J` the body locks rows in the order that `E`
allows, and ends in `Q`. -/
def Locks (I : (key : κ) → Option (ρ key) → Prop) (E : List κ → κ → Prop) (J : List κ → Prop) (body : Tx ρ ε α)
    (Q : α → List κ → Prop) : Prop :=
  ∀ held, J held → acquires I E body Q held

variable {I : (key : κ) → Option (ρ key) → Prop} {E : List κ → κ → Prop} {J : List κ → Prop} {key : κ}

theorem acquires_mono {Q Q' : α → List κ → Prop} (himp : ∀ value held, Q value held → Q' value held)
    {body : Tx ρ ε α} {held : List κ} (h : acquires I E body Q held) : acquires I E body Q' held := by
  induction body generalizing held with
  | ret value => exact himp value held h
  | raise => trivial
  | scan next ih => exact fun snap hsnap => ih snap (h snap hsnap)
  | lock key next ih => exact ⟨h.1, fun row hrow => ih row (h.2 row hrow)⟩
  | tryLock key next ih => exact ⟨ih none h.1, fun row hrow => ih (some row) (h.2 row hrow)⟩
  | write key row next ih => exact ⟨h.1, h.2.1, ih h.2.2⟩

theorem acquires_bind {body : Tx ρ ε α} {f : α → Tx ρ ε β} {Q : β → List κ → Prop} {held : List κ} :
    acquires I E (body >>= f) Q held ↔ acquires I E body (fun value => acquires I E (f value) Q) held := by
  induction body generalizing held with
  | ret | raise => rfl
  | scan next ih => exact forall₂_congr fun snap _ => ih snap
  | lock key next ih => exact and_congr_right fun _ => forall₂_congr fun row _ => ih row
  | tryLock key next ih => exact and_congr (ih none) (forall₂_congr fun row _ => ih (some row))
  | write key row next ih => exact and_congr_right fun _ => and_congr_right fun _ => ih

section Rules

variable {Q : α → List κ → Prop} {Q' : β → List κ → Prop} {body : Tx ρ ε α} {f : α → Tx ρ ε β}

theorem Locks.bind (h : Locks I E J body Q) (hf : ∀ value, Locks I E (Q value) (f value) Q') :
    Locks I E J (body >>= f) Q' :=
  fun held hJ => acquires_bind.mpr (acquires_mono hf (h held hJ))

theorem Locks.pre {J' : List κ → Prop} (h : Locks I E J body Q) (hJ : ∀ held, J' held → J held) :
    Locks I E J' body Q :=
  fun held hJ' => h held (hJ held hJ')

theorem Locks.post {Q'' : α → List κ → Prop} (h : Locks I E J body Q)
    (hQ : ∀ value held, Q value held → Q'' value held) : Locks I E J body Q'' :=
  fun held hJ => acquires_mono hQ (h held hJ)

theorem locks_ret {value : α} (h : ∀ held, J held → Q value held) : Locks I E J (ret value : Tx ρ ε α) Q := h

theorem Locks.bind_ret {value : α → β} (h : Locks I E J body Q)
    (hQ : ∀ value' held, Q value' held → Q' (value value') held) :
    Locks I E J (body >>= fun value' => ret (value value')) Q' :=
  h.bind fun value' => locks_ret (hQ value')

theorem locks_and {condition : Prop} (h : condition → Locks I E J body Q) :
    Locks I E (fun held => condition ∧ J held) body Q :=
  fun held hheld => h hheld.1 held hheld.2

theorem locks_raise {error : ε} : Locks I E J (raise error : Tx ρ ε α) Q := fun _ _ => trivial

theorem locks_refuse_bind {condition : Prop} [Decidable condition] {error : ε} {f : Unit → Tx ρ ε β}
    (h : ¬ condition → Locks I E J (f ()) Q') : Locks I E J (refuse condition error >>= f) Q' := by
  unfold refuse
  by_cases hcondition : condition
  · rw [if_pos hcondition]
    exact locks_raise
  · rw [if_neg hcondition]
    exact h hcondition

theorem locks_require_bind {found : Option α} {error : ε}
    (h : ∀ value, found = some value → Locks I E J (f value) Q') : Locks I E J (require found error >>= f) Q' := by
  cases found with
  | none => exact locks_raise
  | some value => exact h value rfl

theorem locks_ofExcept_bind {result : Except ε α} (h : ∀ value, result = .ok value → Locks I E J (f value) Q') :
    Locks I E J (ofExcept result >>= f) Q' := by
  cases result with
  | error error => exact locks_raise
  | ok value => exact h value rfl

theorem locks_ite {condition : Prop} [Decidable condition] {body' : Tx ρ ε α}
    (h : condition → Locks I E J body Q) (h' : ¬ condition → Locks I E J body' Q) :
    Locks I E J (if condition then body else body') Q := by
  by_cases hcondition : condition
  · rw [if_pos hcondition]
    exact h hcondition
  · rw [if_neg hcondition]
    exact h' hcondition

theorem locks_snapshot_bind {f : Store ρ → Tx ρ ε β}
    (h : ∀ snap : Store ρ, (∀ key, I key (snap.lookup key)) → Locks I E J (f snap) Q') :
    Locks I E J (snapshot >>= f) Q' :=
  fun held hJ snap hsnap => h snap hsnap held hJ

theorem locks_lockRow {Q : Option (ρ key) → List κ → Prop} (hE : ∀ held, J held → key ∈ held ∨ E held key)
    (h : ∀ row held, I key row → J held → Q row (key :: held)) : Locks I E J (lockRow key : Tx ρ ε _) Q :=
  fun held hJ => ⟨hE held hJ, fun row hrow => h row held hrow hJ⟩

theorem locks_writeRow {row : ρ key} {Q : Unit → List κ → Prop} (hE : ∀ held, J held → key ∈ held ∨ E held key)
    (hrow : I key (some row)) (h : ∀ held, J held → Q () (key :: held)) :
    Locks I E J (writeRow key row : Tx ρ ε Unit) Q :=
  fun held hJ => ⟨hE held hJ, hrow, h held hJ⟩

theorem locks_tryLockRow (hJ : ∀ held, J held → J (key :: held)) :
    Locks I E J (tryLockRow key : Tx ρ ε _) fun row held => (row ≠ none → key ∈ held) ∧ J held :=
  fun held h => ⟨⟨fun hnone => absurd rfl hnone, h⟩, fun _ _ => ⟨fun _ => List.mem_cons_self, hJ held h⟩⟩

end Rules

section Orderly

variable {T : Territory κ π} {O : LockOrder π} {A B C : List π}

theorem orderly_lockRow (h : ∀ q ∈ T.parts key, O.Permits A B q) :
    Locks I (O.Allows T) (T.Holding A B) (lockRow key : Tx ρ ε _)
      fun _ => T.Holding (T.parts key ++ A) (T.parts key ++ B) :=
  locks_lockRow (fun _ hheld => hheld.allows h) fun _ _ _ hheld => hheld.cons key

theorem orderly_writeRow {row : ρ key} (h : ∀ q ∈ T.parts key, O.Permits A B q) (hrow : I key (some row)) :
    Locks I (O.Allows T) (T.Holding A B) (writeRow key row : Tx ρ ε Unit)
      fun _ => T.Holding (T.parts key ++ A) (T.parts key ++ B) :=
  locks_writeRow (fun _ hheld => hheld.allows h) hrow fun _ hheld => hheld.cons key

theorem orderly_selectForUpdate (h : ∀ q ∈ T.parts key, O.Permits A B q) :
    Locks I (O.Allows T) (T.Holding A B) (selectForUpdate key : Tx ρ ε _)
      fun found => T.Took key A B (found.2 ≠ none) := by
  refine locks_snapshot_bind fun snap _ => ?_
  cases snap.lookup key with
  | none => exact locks_ret fun held hheld => hheld.missed fun h => h rfl
  | some seen => exact (orderly_lockRow h).bind_ret fun _ _ hheld => hheld.took

/-- A row that has just been locked is replaced. -/
theorem orderly_replace {row : ρ key} (hrow : I key (some row)) :
    Locks I (O.Allows T) (T.Holding (T.parts key ++ A) (T.parts key ++ B)) (writeRow key row : Tx ρ ε Unit)
      fun _ => T.Holding (T.parts key ++ A) (T.parts key ++ B) :=
  (orderly_writeRow permits_locked hrow).post fun _ _ hheld => hheld.again

/-- A row is locked, and what is read of it satisfies the invariant. -/
theorem orderly_lock (h : ∀ q ∈ T.parts key, O.Permits A B q) :
    Locks I (O.Allows T) (T.Holding A B) (lockRow key : Tx ρ ε _)
      fun row held => I key row ∧ T.Holding (T.parts key ++ A) (T.parts key ++ B) held :=
  locks_lockRow (fun _ hheld => hheld.allows h) fun _ _ hrow hheld => ⟨hrow, hheld.cons key⟩

theorem orderly_updateOne_some {p : ρ key → Bool} {f : Store ρ → ρ key → ρ key} (h : ∀ q ∈ T.parts key, O.Permits A B q)
    (hI : ∀ snap row, I key (some row) → I key (some (f snap row))) :
    Locks I (O.Allows T) (T.Holding A B) (updateOne key p f : Tx ρ ε _) fun row => T.Took key A B (row ≠ none) := by
  refine locks_snapshot_bind fun snap _ => ?_
  cases (snap.lookup key).filter p with
  | none => exact locks_ret fun held hheld => hheld.missed fun h => h rfl
  | some seen =>
    refine (orderly_lock h).bind fun row => locks_and fun hrow => ?_
    cases hp : row.filter p with
    | none => exact locks_ret fun held hheld => hheld.took
    | some row' =>
      obtain ⟨rfl, -⟩ := Option.filter_eq_some_iff.mp hp
      exact (orderly_replace (hI snap row' hrow)).bind_ret fun _ _ hheld => hheld.took

theorem orderly_updateOne {p : ρ key → Bool} {f : Store ρ → ρ key → ρ key} (h : ∀ q ∈ T.parts key, O.Permits A B q)
    (hI : ∀ snap row, I key (some row) → I key (some (f snap row))) :
    Locks I (O.Allows T) (T.Holding A B) (updateOne key p f : Tx ρ ε _) fun _ => T.Holding (T.parts key ++ A) B :=
  (orderly_updateOne_some h hI).post fun _ _ h => h.1

/-- An update that is sure to find its row. -/
theorem orderly_updateOne_found {p : ρ key → Bool} {f : Store ρ → ρ key → ρ key}
    (h : ∀ q ∈ T.parts key, O.Permits A B q) (hI : ∀ snap row, I key (some row) → I key (some (f snap row)))
    (hfound : ∀ q ∈ T.parts key, ∀ row, I key row → (row.filter p).isSome = true) :
    Locks I (O.Allows T) (T.Holding A B) (updateOne key p f : Tx ρ ε _)
      fun _ => T.Holding (T.parts key ++ A) (T.parts key ++ B) := by
  by_cases hkey : T.parts key = []
  · refine (orderly_updateOne h hI).post fun row held hheld => ?_
    rwa [hkey] at hheld ⊢
  obtain ⟨q, hq⟩ := List.exists_mem_of_ne_nil _ hkey
  refine locks_snapshot_bind fun snap hsnap => ?_
  obtain ⟨seen, hseen⟩ := Option.isSome_iff_exists.mp (hfound q hq _ (hsnap key))
  rw [hseen]
  refine (orderly_lock h).bind fun row => locks_and fun hrow => ?_
  obtain ⟨row', hrow'⟩ := Option.isSome_iff_exists.mp (hfound q hq row hrow)
  rw [hrow']
  obtain ⟨rfl, -⟩ := Option.filter_eq_some_iff.mp hrow'
  exact (orderly_replace (hI snap row' hrow)).bind_ret fun _ _ hheld => hheld

theorem orderly_insert {row : ρ key} {duplicate : ε} (h : ∀ q ∈ T.parts key, O.Permits A B q)
    (hrow : I key (some row)) :
    Locks I (O.Allows T) (T.Holding A B) (insert key row duplicate : Tx ρ ε Unit)
      fun _ => T.Holding (T.parts key ++ A) (T.parts key ++ B) :=
  (orderly_lockRow h).bind fun _ => locks_refuse_bind fun _ =>
    orderly_replace hrow

/-- An update of many rows, of which those in the territory are among `C`. -/
theorem orderly_updateEach {p : (key : κ) → ρ key → Bool} {f : (key : κ) → ρ key → ρ key}
    (h : ∀ q ∈ C, O.Permits (C ++ A) B q) (hI : ∀ key row, I key (some row) → I key (some (f key row))) :
    ∀ keys : List κ, (∀ key ∈ keys, ∀ q ∈ T.parts key, q ∈ C) →
      Locks I (O.Allows T) (T.Holding (C ++ A) B) (updateEach p f keys : Tx ρ ε _) fun _ => T.Holding (C ++ A) B
  | [], _ => locks_ret fun _ hheld => hheld
  | key :: keys, hkeys => by
    have hkey := hkeys key List.mem_cons_self
    have hrest : Locks I (O.Allows T) (T.Holding (C ++ A) B) (updateEach p f keys : Tx ρ ε _)
        fun _ => T.Holding (C ++ A) B :=
      orderly_updateEach h hI keys fun key' hkey' => hkeys key' (List.mem_cons_of_mem _ hkey')
    have hback {held : List κ} (hheld : T.Holding (T.parts key ++ (C ++ A)) (T.parts key ++ B) held) :
        T.Holding (C ++ A) B held := by
      refine hheld.mono (fun q hq => ?_) fun _ => List.mem_append_right _
      obtain hq | hq := List.mem_append.mp hq
      · exact List.mem_append_left _ (hkey q hq)
      · exact hq
    refine (orderly_lock fun q hq => h q (hkey q hq)).bind fun row => locks_and fun hrow => ?_
    cases hp : row.filter (p key) with
    | none => exact hrest.pre fun _ hheld => hback hheld
    | some row' =>
      obtain ⟨rfl, -⟩ := Option.filter_eq_some_iff.mp hp
      refine (orderly_replace (hI key row' hrow)).bind fun _ => ?_
      exact (hrest.pre fun _ hheld => hback hheld).bind_ret fun _ _ hheld => hheld

theorem orderly_updateAll {p : Store ρ → (key : κ) → ρ key → Bool} {f : Store ρ → (key : κ) → ρ key → ρ key}
    (h : ∀ q ∈ C, O.Permits (C ++ A) B q)
    (hI : ∀ snap key row, I key (some row) → I key (some (f snap key row)))
    (hkeys : ∀ snap : Store ρ, (∀ key, I key (snap.lookup key)) → ∀ key row, snap.lookup key = some row →
      p snap key row = true → ∀ q ∈ T.parts key, q ∈ C) :
    Locks I (O.Allows T) (T.Holding A B) (updateAll p f : Tx ρ ε _) fun _ => T.Holding (C ++ A) B := by
  refine locks_snapshot_bind fun snap hsnap => ?_
  refine (orderly_updateEach h (hI snap) _ fun key hkey => ?_).pre
    fun _ hheld => hheld.mono (fun _ => List.mem_append_right _) fun _ hp => hp
  obtain ⟨⟨key, row⟩, he, rfl⟩ := List.mem_map.mp hkey
  obtain ⟨hrow, hp⟩ := Store.mem_select.mp he
  exact hkeys snap hsnap key row hrow hp

/-- Rows that are added outside of the territory. -/
theorem orderly_insertEach {duplicate : ε} :
    ∀ rows : List (Sigma ρ), (∀ e ∈ rows, T.parts e.1 = [] ∧ I e.1 (some e.2)) →
      Locks I (O.Allows T) (T.Holding A B) (insertEach duplicate rows : Tx ρ ε Unit) fun _ => T.Holding A B
  | [], _ => locks_ret fun _ hheld => hheld
  | ⟨key, row⟩ :: rest, hrows => by
    obtain ⟨hkey, hrow⟩ := hrows _ List.mem_cons_self
    refine (orderly_insert (fun q hq => ?_) hrow).bind fun _ => ?_
    · rw [hkey] at hq
      cases hq
    · rw [hkey]
      exact orderly_insertEach rest fun e he => hrows e (List.mem_cons_of_mem _ he)

end Orderly

end Tx

end sql
