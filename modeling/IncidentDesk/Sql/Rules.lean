import IncidentDesk.Sql.Atomic
import IncidentDesk.Sql.ReadCommitted

namespace sql.Tx

variable {κ : Type} [DecidableEq κ] {ρ : κ → Type} {ε α β : Type} (D : Discipline ρ)
  (W : Local ρ → (key : κ) → ρ key → Prop)

/-- From every place where `J` holds the body runs to one where `Q` does. -/
def Triple (J : Local ρ → Prop) (body : Tx ρ ε α) (Q : α → Local ρ → Prop) : Prop :=
  ∀ ℓ, J ℓ → wp D W body Q ℓ

/-- The body keeps `J`. -/
abbrev Keeps (J : Local ρ → Prop) (body : Tx ρ ε α) : Prop := Triple D W J body fun _ => J

/-- An assertion that neither the commits of others nor taking a lock can break. -/
structure Steady (J : Local ρ → Prop) : Prop where
  stable : Stable D J
  hold : ∀ ℓ key, J ℓ → J (ℓ.hold key)

/-- Where a transaction stands when it obeys the discipline and others have
committed what they may. -/
structure Met (ℓ : Local ρ) : Prop where
  inv : D.Inv ℓ.committed
  obeys : ℓ.Obeys D

/-- A row may be written: it is locked, and its root where that is needed. -/
def Writable (ℓ : Local ρ) (key : κ) (row : ρ key) : Prop :=
  D.root key ∈ ℓ.locks ∨ D.Free key (ℓ.committed.lookup key) (some row)

variable {D W} {J : Local ρ → Prop} {ℓ ℓ' : Local ρ} {key : κ}

theorem Met.of_rely (h : Rely D ℓ ℓ') : Met D ℓ' := ⟨h.inv, h.obeys⟩

theorem Met.start {σ : Store ρ} (h : D.Inv σ) : Met D (.start σ) where
  inv := h
  obeys key row hrow := by cases hrow

theorem Met.hold (h : Met D ℓ) (key : κ) : Met D (ℓ.hold key) :=
  ⟨h.inv, fun key' row hrow => ⟨List.mem_cons_of_mem _ (h.obeys key' row hrow).1,
    (h.obeys key' row hrow).2.imp_left (List.mem_cons_of_mem _)⟩⟩

theorem Met.write (h : Met D ℓ) {row : ρ key} (hkey : key ∈ ℓ.locks) (hrow : Writable D ℓ key row) :
    Met D (ℓ.write key row) where
  inv := h.inv
  obeys key' row' hrow' := by
    by_cases hne : key' = key
    · subst hne
      obtain rfl : row = row' := by simpa [Local.write] using hrow'
      exact ⟨hkey, hrow⟩
    · exact h.obeys key' row' (by simpa [Local.write, AList.lookup_insert_ne hne] using hrow')

/-- A transaction that nobody disturbs ends where its proof says. -/
theorem wp_run (hW : ∀ ℓ key row, W ℓ key row) (skip : κ → Bool) {body : Tx ρ ε α}
    {Q : α → Local ρ → Prop} {σ σ' : Store ρ} {value : α} (hmet : Met D ℓ)
    (hσ : ∀ key, σ.lookup key = ℓ.lookup key) (hwp : wp D W body Q ℓ)
    (hrun : run skip body σ = .ok (value, σ')) :
    ∃ ℓ', Q value ℓ' ∧ Met D ℓ' ∧ ∀ key, σ'.lookup key = ℓ'.lookup key := by
  have hrefl {ℓ : Local ρ} (h : Met D ℓ) : Rely D ℓ ℓ := .refl h.inv h.obeys
  induction body generalizing ℓ σ with
  | ret value' =>
    cases hrun
    exact ⟨ℓ, hwp, hmet, hσ⟩
  | raise => cases hrun
  | scan next ih => exact ih σ hmet hσ (hwp ℓ (hrefl hmet) σ hσ) hrun
  | lock key next ih =>
    rw [run, hσ key] at hrun
    exact ih _ (hmet.hold key) hσ (hwp ℓ (hrefl hmet)) hrun
  | tryLock key next ih =>
    rw [run, hσ key] at hrun
    by_cases hkey : skip key = true
    · rw [if_pos hkey] at hrun
      exact ih _ hmet hσ (hwp ℓ (hrefl hmet)).1 hrun
    · rw [if_neg hkey] at hrun
      exact ih _ (hmet.hold key) hσ (hwp ℓ (hrefl hmet)).2 hrun
  | write key row next ih =>
    obtain ⟨hrow, hnext⟩ := hwp ℓ (hrefl hmet) (hW ℓ key row)
    refine ih ((hmet.hold key).write List.mem_cons_self hrow) (fun key' => ?_) hnext hrun
    by_cases hne : key' = key
    · subst hne
      simp
    · rw [AList.lookup_insert_ne hne, Local.lookup_write_ne hne, Local.lookup_hold, hσ key']

section Basic

variable {Q : α → Local ρ → Prop} {Q' : β → Local ρ → Prop} {body : Tx ρ ε α} {f : α → Tx ρ ε β}

theorem Triple.bind (h : Triple D W J body Q) (hf : ∀ value, Triple D W (Q value) (f value) Q') :
    Triple D W J (body >>= f) Q' :=
  fun ℓ hJ => wp_bind.mpr (wp_mono hf (h ℓ hJ))

theorem Triple.mono {J' : Local ρ → Prop} {Q'' : α → Local ρ → Prop} (h : Triple D W J body Q)
    (hJ : ∀ ℓ, J' ℓ → J ℓ) (hQ : ∀ value ℓ, Q value ℓ → Q'' value ℓ) : Triple D W J' body Q'' :=
  fun ℓ hJ' => wp_mono hQ (h ℓ (hJ ℓ hJ'))

theorem triple_ret {value : α} (h : ∀ ℓ, J ℓ → Q value ℓ) : Triple D W J (ret value : Tx ρ ε α) Q := h

theorem triple_raise (error : ε) : Triple D W J (raise error : Tx ρ ε α) Q := fun _ _ => trivial

theorem triple_require {found : Option α} {error : ε} (h : ∀ value, found = some value → ∀ ℓ, J ℓ → Q value ℓ) :
    Triple D W J (require found error : Tx ρ ε α) Q := by
  cases found with
  | none => exact triple_raise error
  | some value => exact h value rfl

theorem triple_ofExcept {result : Except ε α} (h : ∀ value, result = .ok value → ∀ ℓ, J ℓ → Q value ℓ) :
    Triple D W J (ofExcept result : Tx ρ ε α) Q := by
  cases result with
  | error error => exact triple_raise error
  | ok value => exact h value rfl

theorem triple_refuse {condition : Prop} [Decidable condition] {error : ε} {Q : Unit → Local ρ → Prop}
    (h : ¬ condition → ∀ ℓ, J ℓ → Q () ℓ) : Triple D W J (refuse condition error : Tx ρ ε Unit) Q := by
  unfold refuse
  by_cases hcondition : condition
  · rw [if_pos hcondition]
    exact triple_raise error
  · rw [if_neg hcondition]
    exact h hcondition

theorem triple_ite {condition : Prop} [Decidable condition] {body' : Tx ρ ε α}
    (h : condition → Triple D W J body Q) (h' : ¬ condition → Triple D W J body' Q) :
    Triple D W J (if condition then body else body') Q := by
  by_cases hcondition : condition
  · rw [if_pos hcondition]
    exact h hcondition
  · rw [if_neg hcondition]
    exact h' hcondition

theorem triple_discard {Q : Unit → Local ρ → Prop} (h : Triple D W J body fun _ => Q ()) :
    Triple D W J (discard body) Q :=
  h.bind fun _ => triple_ret fun _ h => h

/-- What a statement has checked is known to those that follow it. -/
theorem triple_refuse_bind {condition : Prop} [Decidable condition] {error : ε} {f : Unit → Tx ρ ε β}
    (h : ¬ condition → Triple D W J (f ()) Q') : Triple D W J (refuse condition error >>= f) Q' :=
  (triple_refuse (Q := fun _ ℓ => ¬ condition ∧ J ℓ) fun hcondition _ hℓ => ⟨hcondition, hℓ⟩).bind
    fun _ ℓ hℓ => h hℓ.1 ℓ hℓ.2

theorem triple_require_bind {found : Option α} {error : ε}
    (h : ∀ value, found = some value → Triple D W J (f value) Q') :
    Triple D W J (require found error >>= f) Q' :=
  (triple_require (Q := fun value ℓ => found = some value ∧ J ℓ) fun _ hvalue _ hℓ => ⟨hvalue, hℓ⟩).bind
    fun value ℓ hℓ => h value hℓ.1 ℓ hℓ.2

theorem keeps_ret {value : α} : Keeps D W J (ret value : Tx ρ ε α) := triple_ret fun _ hℓ => hℓ

theorem keeps_require {found : Option α} {error : ε} : Keeps D W J (require found error : Tx ρ ε α) :=
  triple_require fun _ _ _ hℓ => hℓ

theorem keeps_ofExcept {result : Except ε α} : Keeps D W J (ofExcept result : Tx ρ ε α) :=
  triple_ofExcept fun _ _ _ hℓ => hℓ

theorem keeps_refuse {condition : Prop} [Decidable condition] {error : ε} :
    Keeps D W J (refuse condition error : Tx ρ ε Unit) :=
  triple_refuse fun _ _ hℓ => hℓ

theorem keeps_discard (h : Keeps D W J body) : Keeps D W J (discard body) := triple_discard h

end Basic

section Requests

theorem triple_snapshot {Q : Store ρ → Local ρ → Prop} (hJ : Stable D J)
    (h : ∀ ℓ snap, J ℓ → (∀ key, snap.lookup key = ℓ.lookup key) → Q snap ℓ) :
    Triple D W J (snapshot : Tx ρ ε (Store ρ)) Q :=
  fun ℓ hℓ ℓ' hrely snap hsnap => h ℓ' snap (hJ ℓ ℓ' hrely hℓ) hsnap

theorem triple_lockRow {Q : Option (ρ key) → Local ρ → Prop} (hJ : Stable D J)
    (h : ∀ ℓ, J ℓ → Q (ℓ.lookup key) (ℓ.hold key)) : Triple D W J (lockRow key : Tx ρ ε _) Q :=
  fun ℓ hℓ ℓ' hrely => h ℓ' (hJ ℓ ℓ' hrely hℓ)

theorem triple_tryLockRow {Q : Option (Option (ρ key)) → Local ρ → Prop} (hJ : Stable D J)
    (hskip : ∀ ℓ, J ℓ → Q none ℓ) (h : ∀ ℓ, J ℓ → Q (some (ℓ.lookup key)) (ℓ.hold key)) :
    Triple D W J (tryLockRow key : Tx ρ ε _) Q :=
  fun ℓ hℓ ℓ' hrely => ⟨hskip ℓ' (hJ ℓ ℓ' hrely hℓ), h ℓ' (hJ ℓ ℓ' hrely hℓ)⟩

theorem triple_writeRow {row : ρ key} {Q : Unit → Local ρ → Prop} (hJ : Stable D J)
    (h : ∀ ℓ, J ℓ → Met D ℓ → W ℓ key row →
      Writable D (ℓ.hold key) key row ∧ Q () ((ℓ.hold key).write key row)) :
    Triple D W J (writeRow key row : Tx ρ ε Unit) Q :=
  fun ℓ hℓ ℓ' hrely hW => h ℓ' (hJ ℓ ℓ' hrely hℓ) (.of_rely hrely) hW

end Requests

/-- `J` together with a locked row that reads as given. -/
theorem Steady.locked (hJ : Steady D J) (key : κ) (row : Option (ρ key)) :
    Steady D fun ℓ => J ℓ ∧ key ∈ ℓ.locks ∧ ℓ.lookup key = row where
  stable ℓ ℓ' hrely h := by
    obtain ⟨hℓ, hkey, hrow⟩ := h
    exact ⟨hJ.stable ℓ ℓ' hrely hℓ, by rwa [hrely.locks], (hrely.lookup_eq hkey).trans hrow⟩
  hold ℓ key' h := ⟨hJ.hold ℓ key' h.1, List.mem_cons_of_mem _ h.2.1, h.2.2⟩

theorem Steady.and_left (hJ : Steady D J) (condition : Prop) : Steady D fun ℓ => condition ∧ J ℓ where
  stable ℓ ℓ' hrely h := ⟨h.1, hJ.stable ℓ ℓ' hrely h.2⟩
  hold ℓ key h := ⟨h.1, hJ.hold ℓ key h.2⟩

section Statements

/-- A row is locked and found as it is. -/
theorem triple_lock {Q : Option (ρ key) → Local ρ → Prop} (hJ : Steady D J)
    (h : ∀ row ℓ, J ℓ → key ∈ ℓ.locks → ℓ.lookup key = row → Q row ℓ) :
    Triple D W J (lockRow key : Tx ρ ε _) Q :=
  triple_lockRow hJ.stable fun ℓ hℓ => h _ _ (hJ.hold ℓ key hℓ) List.mem_cons_self rfl

/-- A locked row is written. -/
theorem triple_write {old : Option (ρ key)} {row : ρ key} {Q : Unit → Local ρ → Prop} (hJ : Steady D J)
    (h : ∀ ℓ, J ℓ → Met D ℓ → key ∈ ℓ.locks → ℓ.lookup key = old → (∃ ℓ₀, ℓ = ℓ₀.hold key ∧ W ℓ₀ key row) →
      Writable D ℓ key row ∧ Q () (ℓ.write key row)) :
    Triple D W (fun ℓ => J ℓ ∧ key ∈ ℓ.locks ∧ ℓ.lookup key = old) (writeRow key row : Tx ρ ε Unit) Q := by
  refine triple_writeRow (hJ.locked key old).stable fun ℓ hℓ hmet hW => ?_
  exact h (ℓ.hold key) (hJ.hold ℓ key hℓ.1) (hmet.hold key) List.mem_cons_self hℓ.2.2 ⟨ℓ, rfl, hW⟩

theorem triple_updateOne {p : ρ key → Bool} {f : Store ρ → ρ key → ρ key}
    {Q : Option (ρ key) → Local ρ → Prop} (hJ : Steady D J) (hnone : ∀ ℓ, J ℓ → Q none ℓ)
    (h : ∀ ℓ snap row, J ℓ → Met D ℓ → key ∈ ℓ.locks → ℓ.lookup key = some row → p row = true →
      (∃ ℓ₀, ℓ = ℓ₀.hold key ∧ W ℓ₀ key (f snap row)) →
      Writable D ℓ key (f snap row) ∧ Q (some (f snap row)) (ℓ.write key (f snap row))) :
    Triple D W J (updateOne key p f : Tx ρ ε _) Q := by
  refine (triple_snapshot (Q := fun _ => J) hJ.stable fun ℓ _ hℓ _ => hℓ).bind fun snap => ?_
  cases (snap.lookup key).filter p with
  | none => exact triple_ret hnone
  | some seen =>
    refine (triple_lock (Q := fun row ℓ => J ℓ ∧ key ∈ ℓ.locks ∧ ℓ.lookup key = row) hJ
      fun row ℓ hℓ hkey hrow => ⟨hℓ, hkey, hrow⟩).bind fun row => ?_
    cases hp : row.filter p with
    | none => exact triple_ret fun ℓ hℓ => hnone ℓ hℓ.1
    | some row' =>
      obtain ⟨rfl, hrow⟩ := Option.filter_eq_some_iff.mp hp
      refine (triple_write (Q := fun _ => Q (some (f snap row'))) hJ
        fun ℓ hℓ hmet hkey hlookup hW => ?_).bind fun _ => triple_ret fun _ h => h
      exact h ℓ snap row' hℓ hmet hkey hlookup hrow hW

theorem triple_insert {row : ρ key} {duplicate : ε} {Q : Unit → Local ρ → Prop} (hJ : Steady D J)
    (h : ∀ ℓ, J ℓ → Met D ℓ → key ∈ ℓ.locks → ℓ.lookup key = none → (∃ ℓ₀, ℓ = ℓ₀.hold key ∧ W ℓ₀ key row) →
      Writable D ℓ key row ∧ Q () (ℓ.write key row)) :
    Triple D W J (insert key row duplicate : Tx ρ ε Unit) Q := by
  refine (triple_lock (Q := fun row ℓ => J ℓ ∧ key ∈ ℓ.locks ∧ ℓ.lookup key = row) hJ
    fun row ℓ hℓ hkey hrow => ⟨hℓ, hkey, hrow⟩).bind fun found => ?_
  refine (triple_refuse (Q := fun _ ℓ => J ℓ ∧ key ∈ ℓ.locks ∧ ℓ.lookup key = none)
    fun hfound ℓ hℓ => ?_).bind fun _ => triple_write hJ h
  rw [Option.not_isSome_iff_eq_none] at hfound
  exact hfound ▸ hℓ

theorem triple_upsert {fresh : ρ key} {merge : ρ key → ρ key} {Q : ρ key → Local ρ → Prop} (hJ : Steady D J)
    (h : ∀ ℓ found, J ℓ → Met D ℓ → key ∈ ℓ.locks → ℓ.lookup key = found →
      (∃ ℓ₀, ℓ = ℓ₀.hold key ∧ W ℓ₀ key ((found.map merge).getD fresh)) →
      Writable D ℓ key ((found.map merge).getD fresh) ∧
        Q ((found.map merge).getD fresh) (ℓ.write key ((found.map merge).getD fresh))) :
    Triple D W J (upsert key fresh merge : Tx ρ ε _) Q := by
  refine (triple_lock (Q := fun row ℓ => J ℓ ∧ key ∈ ℓ.locks ∧ ℓ.lookup key = row) hJ
    fun row ℓ hℓ hkey hrow => ⟨hℓ, hkey, hrow⟩).bind fun found => ?_
  refine (triple_write (Q := fun _ => Q _) hJ fun ℓ hℓ hmet hkey hlookup hW => ?_).bind
    fun _ => triple_ret fun _ h => h
  exact h ℓ found hℓ hmet hkey hlookup hW

theorem triple_selectForUpdate {Q : Store ρ × Option (ρ key) → Local ρ → Prop} (hJ : Steady D J)
    (hnone : ∀ snap ℓ, J ℓ → Q (snap, none) ℓ)
    (h : ∀ snap row ℓ, J ℓ → key ∈ ℓ.locks → ℓ.lookup key = row → Q (snap, row) ℓ) :
    Triple D W J (selectForUpdate key : Tx ρ ε _) Q := by
  refine (triple_snapshot (Q := fun _ => J) hJ.stable fun ℓ _ hℓ _ => hℓ).bind fun snap => ?_
  cases snap.lookup key with
  | none => exact triple_ret (hnone snap)
  | some seen =>
    refine (triple_lock (Q := fun row ℓ => J ℓ ∧ key ∈ ℓ.locks ∧ ℓ.lookup key = row) hJ
      fun row ℓ hℓ hkey hrow => ⟨hℓ, hkey, hrow⟩).bind fun row => triple_ret fun ℓ hℓ => ?_
    exact h snap row ℓ hℓ.1 hℓ.2.1 hℓ.2.2

/-- The rows of a multi-row update are changed one after the other; `J` says
what holds once some of them have been. -/
theorem triple_updateEach {p : (key : κ) → ρ key → Bool} {f : (key : κ) → ρ key → ρ key}
    {J : List (Sigma ρ) → Local ρ → Prop} (hJ : ∀ done, Steady D (J done))
    (h : ∀ done ℓ key row, J done ℓ → Met D ℓ → key ∈ ℓ.locks → ℓ.lookup key = some row → p key row = true →
      (∃ ℓ₀, ℓ = ℓ₀.hold key ∧ W ℓ₀ key (f key row)) →
      Writable D ℓ key (f key row) ∧ J (done ++ [⟨key, f key row⟩]) (ℓ.write key (f key row))) :
    ∀ (keys : List κ) (done : List (Sigma ρ)),
      Triple D W (J done) (updateEach p f keys : Tx ρ ε _) fun changed => J (done ++ changed)
  | [], done => triple_ret fun ℓ hℓ => by rwa [List.append_nil]
  | key :: keys, done => by
    refine (triple_lock (Q := fun row ℓ => J done ℓ ∧ key ∈ ℓ.locks ∧ ℓ.lookup key = row) (hJ done)
      fun row ℓ hℓ hkey hrow => ⟨hℓ, hkey, hrow⟩).bind fun row => ?_
    cases hp : row.filter (p key) with
    | none => exact (triple_updateEach hJ h keys done).mono (fun _ hℓ => hℓ.1) fun _ _ h => h
    | some row' =>
      obtain ⟨rfl, hrow⟩ := Option.filter_eq_some_iff.mp hp
      refine (triple_write (Q := fun _ => J (done ++ [⟨key, f key row'⟩])) (hJ done)
        fun ℓ hℓ hmet hkey hlookup hW => h done ℓ key row' hℓ hmet hkey hlookup hrow hW).bind fun _ => ?_
      refine (triple_updateEach hJ h keys _).bind fun changed => triple_ret fun ℓ hℓ => ?_
      rwa [List.append_assoc] at hℓ

theorem triple_updateAll {p : Store ρ → (key : κ) → ρ key → Bool} {f : Store ρ → (key : κ) → ρ key → ρ key}
    {J : List (Sigma ρ) → Local ρ → Prop} (hJ : ∀ done, Steady D (J done))
    (h : ∀ snap done ℓ key row, J done ℓ → Met D ℓ → key ∈ ℓ.locks → ℓ.lookup key = some row →
      p snap key row = true → (∃ ℓ₀, ℓ = ℓ₀.hold key ∧ W ℓ₀ key (f snap key row)) →
      Writable D ℓ key (f snap key row) ∧ J (done ++ [⟨key, f snap key row⟩]) (ℓ.write key (f snap key row))) :
    Triple D W (J []) (updateAll p f : Tx ρ ε _) J := by
  refine (triple_snapshot (Q := fun _ => J []) (hJ []).stable fun ℓ _ hℓ _ => hℓ).bind fun snap => ?_
  exact triple_updateEach hJ (h snap) _ []

/-- The rows of an `insert ... select` are added one after the other; `J` says
what holds while the given ones are still to be added. -/
theorem triple_insertEach {duplicate : ε} {J : List (Sigma ρ) → Local ρ → Prop} (hJ : ∀ rest, Steady D (J rest))
    (h : ∀ key row rest ℓ, J (⟨key, row⟩ :: rest) ℓ → Met D ℓ → key ∈ ℓ.locks → ℓ.lookup key = none →
      (∃ ℓ₀, ℓ = ℓ₀.hold key ∧ W ℓ₀ key row) → Writable D ℓ key row ∧ J rest (ℓ.write key row)) :
    ∀ rows : List (Sigma ρ), Triple D W (J rows) (insertEach duplicate rows : Tx ρ ε Unit) fun _ => J []
  | [] => triple_ret fun _ hℓ => hℓ
  | ⟨key, row⟩ :: rest =>
    (triple_insert (Q := fun _ => J rest) (hJ _) (h key row rest)).bind fun _ => triple_insertEach hJ h rest

end Statements

/-- `J` survives the writes that `R` allows, given the version of the row that
they replace. -/
structure Kept (D : Discipline ρ) (J : Local ρ → Prop) (R : (key : κ) → Option (ρ key) → ρ key → Prop) : Prop
    extends Steady D J where
  write : ∀ ℓ key row, J ℓ → Met D ℓ → key ∈ ℓ.locks → R key (ℓ.lookup key) row →
    Writable D ℓ key row ∧ J (ℓ.write key row)

namespace Kept

variable {R : (key : κ) → Option (ρ key) → ρ key → Prop}

theorem mono {R' : (key : κ) → Option (ρ key) → ρ key → Prop} (hJ : Kept D J R)
    (h : ∀ key row row', R' key row row' → R key row row') : Kept D J R' where
  toSteady := hJ.toSteady
  write ℓ key row hℓ hmet hkey hrow := hJ.write ℓ key row hℓ hmet hkey (h key _ _ hrow)

theorem snapshot (hJ : Kept D J R) : Keeps D W J (snapshot : Tx ρ ε (Store ρ)) :=
  triple_snapshot hJ.stable fun _ _ hℓ _ => hℓ

theorem lockRow (hJ : Kept D J R) (key : κ) : Keeps D W J (lockRow key : Tx ρ ε _) :=
  triple_lock hJ.toSteady fun _ _ hℓ _ _ => hℓ

theorem tryLockRow (hJ : Kept D J R) (key : κ) : Keeps D W J (tryLockRow key : Tx ρ ε _) :=
  triple_tryLockRow hJ.stable (fun _ hℓ => hℓ) fun ℓ hℓ => hJ.hold ℓ key hℓ

theorem selectForUpdate (hJ : Kept D J R) (key : κ) : Keeps D W J (selectForUpdate key : Tx ρ ε _) :=
  triple_selectForUpdate hJ.toSteady (fun _ _ hℓ => hℓ) fun _ _ _ hℓ _ _ => hℓ

theorem insert (hJ : Kept D J R) {row : ρ key} {duplicate : ε} (hR : R key none row) :
    Keeps D W J (insert key row duplicate : Tx ρ ε Unit) :=
  triple_insert hJ.toSteady fun ℓ hℓ hmet hkey hnone _ =>
    hJ.write ℓ key row hℓ hmet hkey (hnone.symm ▸ hR)

theorem upsert (hJ : Kept D J R) {fresh : ρ key} {merge : ρ key → ρ key} (hfresh : R key none fresh)
    (hmerge : ∀ row, R key (some row) (merge row)) : Keeps D W J (upsert key fresh merge : Tx ρ ε _) := by
  refine triple_upsert hJ.toSteady fun ℓ found hℓ hmet hkey hfound _ => hJ.write ℓ key _ hℓ hmet hkey ?_
  rw [hfound]
  cases found with
  | none => exact hfresh
  | some row => exact hmerge row

theorem updateOne (hJ : Kept D J R) {p : ρ key → Bool} {f : Store ρ → ρ key → ρ key}
    (hR : ∀ snap row, p row = true → R key (some row) (f snap row)) :
    Keeps D W J (updateOne key p f : Tx ρ ε _) :=
  triple_updateOne hJ.toSteady (fun _ hℓ => hℓ) fun ℓ snap row hℓ hmet hkey hrow hp _ =>
    hJ.write ℓ key _ hℓ hmet hkey (hrow.symm ▸ hR snap row hp)

theorem updateAll (hJ : Kept D J R) {p : Store ρ → (key : κ) → ρ key → Bool}
    {f : Store ρ → (key : κ) → ρ key → ρ key}
    (hR : ∀ snap key row, p snap key row = true → R key (some row) (f snap key row)) :
    Keeps D W J (updateAll p f : Tx ρ ε _) :=
  triple_updateAll (fun _ => hJ.toSteady) fun snap _ ℓ key row hℓ hmet hkey hrow hp _ =>
    hJ.write ℓ key _ hℓ hmet hkey (hrow.symm ▸ hR snap key row hp)

theorem insertEach (hJ : Kept D J R) {rows : List (Sigma ρ)} {duplicate : ε} (hR : ∀ e ∈ rows, R e.1 none e.2) :
    Keeps D W J (insertEach duplicate rows : Tx ρ ε Unit) := by
  induction rows with
  | nil => exact keeps_ret
  | cons e rows ih =>
    exact (hJ.insert (hR e List.mem_cons_self)).bind fun _ => ih fun e he => hR e (List.mem_cons_of_mem _ he)

end Kept

/-- Transactions that run one at a time. -/
def solo : Discipline ρ where
  root := id
  Free _ _ _ := True
  Inv _ := True
  Step σ σ' := σ' = σ
  free_refl _ _ := trivial
  free_trans _ _ _ _ _ _ := trivial
  step_refl _ := rfl
  step_trans _ _ _ h h' := h'.trans h

section Solo

variable {P : ((key : κ) → Option (ρ key)) → Prop}

/-- An assertion about the rows is kept by the writes that keep it. -/
theorem kept_solo {R : (key : κ) → Option (ρ key) → ρ key → Prop}
    (hP : ∀ (ℓ : Local ρ) key row, P ℓ.lookup → R key (ℓ.lookup key) row → P (ℓ.write key row).lookup) :
    Kept solo (fun ℓ => P ℓ.lookup) R where
  stable ℓ ℓ' hrely h := by
    have hlookup : ℓ'.lookup = ℓ.lookup := by
      funext key
      have hcommitted : ℓ'.committed = ℓ.committed := hrely.step
      simp only [Local.lookup, hrely.writes, hcommitted]
    change P ℓ'.lookup
    rwa [hlookup]
  hold _ _ h := h
  write ℓ key row h _ _ hrow := ⟨.inr trivial, hP ℓ key row h hrow⟩

theorem ensures_of_keeps (skip : κ → Bool) {body : Tx ρ ε α} {σ : Store ρ}
    (hbody : Keeps solo (fun _ _ _ => True) (fun ℓ => P ℓ.lookup) body) (hP : P σ.lookup) :
    Ensures skip body σ fun _ σ' => P σ'.lookup := by
  intro value σ' hrun
  obtain ⟨ℓ', hℓ', -, hlookup⟩ := wp_run (fun _ _ _ => trivial) skip (Met.start (D := solo) trivial)
    (fun _ => rfl) (hbody (.start σ) hP) hrun
  rwa [funext hlookup]

end Solo

end sql.Tx
