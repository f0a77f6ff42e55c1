import IncidentDesk.Machine
import IncidentDesk.Sql.Statement

namespace sql

variable {κ : Type} [DecidableEq κ] {ρ : κ → Type} {ε α β ω : Type}

/-- Some rows laid over others. -/
def Store.overlay (writes committed : Store ρ) : Store ρ := writes ∪ committed

@[simp] theorem Store.lookup_overlay (writes committed : Store ρ) (key : κ) :
    (writes.overlay committed).lookup key = (writes.lookup key).or (committed.lookup key) := by
  unfold overlay
  cases hrow : writes.lookup key with
  | none => rw [AList.lookup_union_right (AList.lookup_eq_none.mp hrow), Option.none_or]
  | some row => rw [AList.lookup_union_left (AList.lookup_isSome.mp (by simp [hrow])), hrow, Option.some_or]

/-- What one transaction has to do with: the committed rows, the rows it has
written and not yet committed, and the rows that it has locked. -/
structure Local (ρ : κ → Type) where
  committed : Store ρ
  writes : Store ρ
  locks : List κ

namespace Local

/-- The newest version of a row, as the transaction itself reads it. -/
def lookup (ℓ : Local ρ) (key : κ) : Option (ρ key) := (ℓ.writes.lookup key).or (ℓ.committed.lookup key)

/-- The rows that the transaction leaves when it commits. -/
def commit (ℓ : Local ρ) : Store ρ := ℓ.writes.overlay ℓ.committed

def hold (ℓ : Local ρ) (key : κ) : Local ρ := { ℓ with locks := key :: ℓ.locks }

def write (ℓ : Local ρ) (key : κ) (row : ρ key) : Local ρ := { ℓ with writes := ℓ.writes.insert key row }

/-- A transaction that has just begun. -/
def start (σ : Store ρ) : Local ρ := { committed := σ, writes := ∅, locks := [] }

@[simp] theorem lookup_commit (ℓ : Local ρ) (key : κ) : ℓ.commit.lookup key = ℓ.lookup key :=
  Store.lookup_overlay _ _ key

@[simp] theorem lookup_start (σ : Store ρ) (key : κ) : (start σ).lookup key = σ.lookup key := rfl

@[simp] theorem lookup_hold (ℓ : Local ρ) (key key' : κ) : (ℓ.hold key).lookup key' = ℓ.lookup key' := rfl

@[simp] theorem lookup_write_self (ℓ : Local ρ) (key : κ) (row : ρ key) :
    (ℓ.write key row).lookup key = some row := by
  simp [lookup, write]

@[simp] theorem lookup_write_ne {key key' : κ} (h : key' ≠ key) (ℓ : Local ρ) (row : ρ key) :
    (ℓ.write key row).lookup key' = ℓ.lookup key' := by
  simp [lookup, write, AList.lookup_insert_ne h]

end Local

/-- How transactions share the rows. `root key` is the row that whoever changes
`key` must have locked, unless the change is `Free`; `Inv` holds of the rows
whenever they are committed, and `Step` relates them to those of any later commit. -/
structure Discipline (ρ : κ → Type) where
  root : κ → κ
  Free : (key : κ) → Option (ρ key) → Option (ρ key) → Prop
  Inv : Store ρ → Prop
  Step : Store ρ → Store ρ → Prop
  free_refl : ∀ key row, Free key row row
  free_trans : ∀ key row row' row'', Free key row row' → Free key row' row'' → Free key row row''
  step_refl : ∀ σ, Step σ σ
  step_trans : ∀ σ σ' σ'', Step σ σ' → Step σ' σ'' → Step σ σ''

/-- A transaction writes only rows that it has locked, with their roots where
the change asks for it. -/
def Local.Obeys (D : Discipline ρ) (ℓ : Local ρ) : Prop :=
  ∀ key row, ℓ.writes.lookup key = some row →
    key ∈ ℓ.locks ∧ (D.root key ∈ ℓ.locks ∨ D.Free key (ℓ.committed.lookup key) (some row))

/-- What the commits of other transactions can do to what a transaction sees:
they leave what it has locked, and keep the invariant. -/
structure Rely (D : Discipline ρ) (ℓ ℓ' : Local ρ) : Prop where
  writes : ℓ'.writes = ℓ.writes
  locks : ℓ'.locks = ℓ.locks
  inv : D.Inv ℓ'.committed
  step : D.Step ℓ.committed ℓ'.committed
  obeys : ℓ'.Obeys D
  locked : ∀ key ∈ ℓ.locks, ℓ'.committed.lookup key = ℓ.committed.lookup key
  rooted : ∀ key, D.root key ∈ ℓ.locks → D.Free key (ℓ.committed.lookup key) (ℓ'.committed.lookup key)

namespace Rely

variable {D : Discipline ρ} {ℓ ℓ' ℓ'' : Local ρ}

theorem refl (hinv : D.Inv ℓ.committed) (hobeys : ℓ.Obeys D) : Rely D ℓ ℓ :=
  ⟨rfl, rfl, hinv, D.step_refl _, hobeys, fun _ _ => rfl, fun key _ => D.free_refl key _⟩

theorem trans (h : Rely D ℓ ℓ') (h' : Rely D ℓ' ℓ'') : Rely D ℓ ℓ'' where
  writes := h'.writes.trans h.writes
  locks := h'.locks.trans h.locks
  inv := h'.inv
  step := D.step_trans _ _ _ h.step h'.step
  obeys := h'.obeys
  locked key hkey := (h'.locked key (by rwa [h.locks])).trans (h.locked key hkey)
  rooted key hkey := D.free_trans key _ _ _ (h.rooted key hkey) (h'.rooted key (by rwa [h.locks]))

/-- A row that the transaction has locked reads the same. -/
theorem lookup_eq (h : Rely D ℓ ℓ') {key : κ} (hkey : key ∈ ℓ.locks) : ℓ'.lookup key = ℓ.lookup key := by
  simp only [Local.lookup, h.writes, h.locked key hkey]

end Rely

/-- An assertion that the commits of other transactions cannot break. -/
def Stable (D : Discipline ρ) (J : Local ρ → Prop) : Prop := ∀ ℓ ℓ', Rely D ℓ ℓ' → J ℓ → J ℓ'

namespace Tx

/-- The weakest precondition of a body under which, whatever the other
transactions commit between its requests, it obeys the discipline and ends in
`Q`. `W` is what may be assumed of the rows that it writes. -/
def wp (D : Discipline ρ) (W : Local ρ → (key : κ) → ρ key → Prop) :
    Tx ρ ε α → (α → Local ρ → Prop) → Local ρ → Prop
  | ret value, Q, ℓ => Q value ℓ
  | raise _, _, _ => True
  | scan next, Q, ℓ => ∀ ℓ', Rely D ℓ ℓ' → ∀ snap : Store ρ,
      (∀ key, snap.lookup key = ℓ'.lookup key) → wp D W (next snap) Q ℓ'
  | lock key next, Q, ℓ => ∀ ℓ', Rely D ℓ ℓ' → wp D W (next (ℓ'.lookup key)) Q (ℓ'.hold key)
  | tryLock key next, Q, ℓ => ∀ ℓ', Rely D ℓ ℓ' →
      wp D W (next none) Q ℓ' ∧ wp D W (next (some (ℓ'.lookup key))) Q (ℓ'.hold key)
  | write key row next, Q, ℓ => ∀ ℓ', Rely D ℓ ℓ' → W ℓ' key row →
      (D.root key ∈ key :: ℓ'.locks ∨ D.Free key (ℓ'.committed.lookup key) (some row)) ∧
        wp D W next Q ((ℓ'.hold key).write key row)

variable {D : Discipline ρ} {W : Local ρ → (key : κ) → ρ key → Prop}

theorem wp_mono {Q Q' : α → Local ρ → Prop} (himp : ∀ value ℓ, Q value ℓ → Q' value ℓ) {body : Tx ρ ε α}
    {ℓ : Local ρ} (h : wp D W body Q ℓ) : wp D W body Q' ℓ := by
  induction body generalizing ℓ with
  | ret value => exact himp value ℓ h
  | raise => trivial
  | scan next ih => exact fun ℓ' hrely snap hsnap => ih snap (h ℓ' hrely snap hsnap)
  | lock key next ih => exact fun ℓ' hrely => ih _ (h ℓ' hrely)
  | tryLock key next ih => exact fun ℓ' hrely => ⟨ih _ (h ℓ' hrely).1, ih _ (h ℓ' hrely).2⟩
  | write key row next ih => exact fun ℓ' hrely hW => ⟨(h ℓ' hrely hW).1, ih (h ℓ' hrely hW).2⟩

theorem wp_bind {body : Tx ρ ε α} {f : α → Tx ρ ε β} {Q : β → Local ρ → Prop} {ℓ : Local ρ} :
    wp D W (body >>= f) Q ℓ ↔ wp D W body (fun value => wp D W (f value) Q) ℓ := by
  induction body generalizing ℓ with
  | ret | raise => rfl
  | scan next ih => exact forall₄_congr fun ℓ' _ snap _ => ih snap
  | lock key next ih => exact forall₂_congr fun ℓ' _ => ih _
  | tryLock key next ih => exact forall₂_congr fun ℓ' _ => and_congr (ih _) (ih _)
  | write key row next ih => exact forall₃_congr fun ℓ' _ _ => and_congr_right fun _ => ih

/-- What a body has to start from survives the commits of others before it. -/
theorem wp_stable {Q : α → Local ρ → Prop} (hQ : ∀ value, Stable D (Q value)) (body : Tx ρ ε α) :
    Stable D (wp D W body Q) := by
  intro ℓ ℓ' hrely h
  cases body with
  | ret value => exact hQ value ℓ ℓ' hrely h
  | raise => trivial
  | scan | lock | tryLock | write => exact fun ℓ'' hrely' => h ℓ'' (hrely.trans hrely')

end Tx

end sql
