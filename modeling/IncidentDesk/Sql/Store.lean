import Mathlib.Data.List.AList

namespace sql

variable {κ : Type} [DecidableEq κ] {ρ : κ → Type}

/-- The rows of a database: at most one row for each key. A table is the set of
keys of one constructor of `κ`, and `ρ` gives each key its type of row. -/
abbrev Store (ρ : κ → Type) := AList ρ

namespace Store

/-- Number of rows satisfying a predicate, as `select count(*)` computes it. -/
def count (p : (key : κ) → ρ key → Bool) (σ : Store ρ) : Nat :=
  σ.entries.countP fun e => p e.1 e.2

/-- The rows satisfying a predicate, in the order in which the store lists them. -/
def select (p : (key : κ) → ρ key → Bool) (σ : Store ρ) : List (Sigma ρ) :=
  σ.entries.filter fun e => p e.1 e.2

/-- The effect of `update ... set f where key = ... and p`. -/
def updateOne (key : κ) (p : ρ key → Bool) (f : ρ key → ρ key) (σ : Store ρ) : Store ρ :=
  match σ.lookup key with
  | some row => if p row then σ.insert key (f row) else σ
  | none => σ

/-- The effect of `update ... set f where p` on every row that satisfies `p`. -/
def updateRows (p : (key : κ) → ρ key → Bool) (f : (key : κ) → ρ key → ρ key)
    (σ : Store ρ) : Store ρ :=
  (σ.select p).foldl (fun acc e => acc.insert e.1 (f e.1 e.2)) σ

/-- The effect of `insert into ... select`. -/
def insertRows (es : List (Sigma ρ)) (σ : Store ρ) : Store ρ :=
  es.foldl (fun acc e => acc.insert e.1 e.2) σ

theorem mem_select {p : (key : κ) → ρ key → Bool} {σ : Store ρ} {e : Sigma ρ} :
    e ∈ σ.select p ↔ σ.lookup e.1 = some e.2 ∧ p e.1 e.2 = true := by
  obtain ⟨key, row⟩ := e
  simp only [select, List.mem_filter, and_congr_left_iff]
  intro _
  exact AList.mem_lookup_iff.symm

omit [DecidableEq κ] in
theorem select_nodupKeys (p : (key : κ) → ρ key → Bool) (σ : Store ρ) :
    (σ.select p).NodupKeys :=
  σ.nodupKeys.sublist List.filter_sublist

@[simp] theorem lookup_updateOne_self (key : κ) (p : ρ key → Bool) (f : ρ key → ρ key)
    (σ : Store ρ) :
    (σ.updateOne key p f).lookup key =
      (σ.lookup key).map fun row => if p row then f row else row := by
  unfold updateOne
  cases hrow : σ.lookup key with
  | none => simp [hrow]
  | some row =>
    by_cases hp : p row <;> simp [hp, hrow]

@[simp] theorem lookup_updateOne_ne {key key' : κ} (h : key' ≠ key) (p : ρ key → Bool)
    (f : ρ key → ρ key) (σ : Store ρ) :
    (σ.updateOne key p f).lookup key' = σ.lookup key' := by
  unfold updateOne
  cases σ.lookup key with
  | none => rfl
  | some row =>
    by_cases hp : p row
    · simp [hp, AList.lookup_insert_ne h]
    · simp [hp]

private theorem lookup_foldl_insert (f : (key : κ) → ρ key → ρ key) (key : κ) :
    ∀ (es : List (Sigma ρ)) (acc : Store ρ), es.NodupKeys →
      (es.foldl (fun acc e => acc.insert e.1 (f e.1 e.2)) acc).lookup key =
        match es.dlookup key with
        | some row => some (f key row)
        | none => acc.lookup key
  | [], acc, _ => rfl
  | ⟨k, row⟩ :: es, acc, hnodup => by
    rw [List.nodupKeys_cons] at hnodup
    rw [List.foldl_cons, lookup_foldl_insert f key es _ hnodup.2]
    by_cases h : key = k
    · subst h
      rw [List.dlookup_eq_none.mpr hnodup.1, List.dlookup_cons_eq]
      simp
    · rw [List.dlookup_cons_ne _ _ h, AList.lookup_insert_ne h]

/-- An update of many rows changes exactly the rows satisfying its predicate. -/
@[simp] theorem lookup_updateRows (p : (key : κ) → ρ key → Bool)
    (f : (key : κ) → ρ key → ρ key) (σ : Store ρ) (key : κ) :
    (σ.updateRows p f).lookup key =
      (σ.lookup key).map fun row => if p key row then f key row else row := by
  unfold updateRows
  rw [lookup_foldl_insert f key _ _ (select_nodupKeys p σ)]
  cases hsel : (σ.select p).dlookup key with
  | some row =>
    have hmem := mem_select.mp (List.of_mem_dlookup hsel)
    simp [hmem.1, hmem.2]
  | none =>
    cases hrow : σ.lookup key with
    | none => rfl
    | some row =>
      have hp : p key row ≠ true := by
        intro hp
        have hmem : (⟨key, row⟩ : Sigma ρ) ∈ σ.select p := mem_select.mpr ⟨hrow, hp⟩
        rw [List.mem_dlookup (select_nodupKeys p σ) hmem] at hsel
        cases hsel
      simp [hp]

theorem lookup_insertRows_of_notMem {key : κ} :
    ∀ {es : List (Sigma ρ)} {σ : Store ρ}, (∀ e ∈ es, e.1 ≠ key) →
      (σ.insertRows es).lookup key = σ.lookup key
  | [], _, _ => rfl
  | e :: es, σ, h => by
    have hrest : (insertRows es (σ.insert e.1 e.2)).lookup key = (σ.insert e.1 e.2).lookup key :=
      lookup_insertRows_of_notMem fun e' he' => h e' (List.mem_cons_of_mem _ he')
    have hne : key ≠ e.1 := fun hkey => h e List.mem_cons_self hkey.symm
    exact hrest.trans (AList.lookup_insert_ne hne)

/-- A row is one of those that are added, or was there. -/
theorem lookup_insertRows {key : κ} {row : ρ key} :
    ∀ {es : List (Sigma ρ)} {σ : Store ρ}, (σ.insertRows es).lookup key = some row →
      ⟨key, row⟩ ∈ es ∨ σ.lookup key = some row
  | [], _, h => .inr h
  | e :: es, σ, h => by
    obtain hmem | hrow := lookup_insertRows (σ := σ.insert e.1 e.2) h
    · exact .inl (List.mem_cons_of_mem _ hmem)
    · by_cases hkey : key = e.1
      · subst hkey
        rw [AList.lookup_insert] at hrow
        cases hrow
        exact .inl List.mem_cons_self
      · exact .inr (by rwa [AList.lookup_insert_ne hkey] at hrow)

/-- The rows that satisfy a predicate are no more than those that satisfied one
before, together with some keys that are new. -/
theorem count_le_add {p q : (key : κ) → ρ key → Bool} {σ τ : Store ρ} (fresh : List κ)
    (h : ∀ key row', τ.lookup key = some row' → p key row' = true →
      key ∈ fresh ∨ ∃ row, σ.lookup key = some row ∧ q key row = true) :
    τ.count p ≤ σ.count q + fresh.length := by
  have hsubset : (τ.select p).keys ⊆ fresh ++ (σ.select q).keys := by
    intro key hkey
    obtain ⟨row', hrow'⟩ := List.exists_of_mem_keys hkey
    obtain ⟨hlookup, hp⟩ := mem_select.mp hrow'
    rw [List.mem_append]
    obtain hfresh | ⟨row, hrow, hq⟩ := h key row' hlookup hp
    · exact .inl hfresh
    · have hmem : (⟨key, row⟩ : Sigma ρ) ∈ σ.select q := mem_select.mpr ⟨hrow, hq⟩
      exact .inr (List.mem_keys_of_mem hmem)
  have hlength := (List.subperm_of_subset (select_nodupKeys p τ) hsubset).length_le
  rw [List.length_append] at hlength
  simp only [List.keys, List.length_map, select, ← List.countP_eq_length_filter] at hlength
  unfold count
  omega

/-- Replacing or adding one row leaves the other rows as they were, up to order. -/
theorem entries_insert_perm (σ : Store ρ) (key : κ) (row : ρ key) :
    ∃ rest, (σ.insert key row).entries.Perm (⟨key, row⟩ :: rest) ∧
      σ.entries.Perm (((σ.lookup key).map (Sigma.mk key)).toList ++ rest) := by
  refine ⟨(σ.erase key).entries, ?_, ?_⟩
  · rw [AList.entries_insert]
    exact List.Perm.refl _
  · cases hrow : σ.lookup key with
    | none =>
      have hnot : key ∉ σ := AList.lookup_eq_none.mp hrow
      have herase : (σ.erase key).entries = σ.entries := List.kerase_of_notMem_keys hnot
      simp [herase]
    | some old =>
      have hmem : (⟨key, old⟩ : Sigma ρ) ∈ σ.entries := AList.mem_lookup_iff.mp hrow
      obtain ⟨row', l₁, l₂, hnot, hsplit, hkerase⟩ :=
        List.exists_of_kerase (List.mem_keys_of_mem hmem)
      have hmem' : (⟨key, row'⟩ : Sigma ρ) ∈ σ.entries := by rw [hsplit]; simp
      have hold : row' = old := Option.some.inj ((AList.mem_lookup_iff.mpr hmem').symm.trans hrow)
      have herase : (σ.erase key).entries = l₁ ++ l₂ := hkerase
      rw [herase, hsplit, hold]
      simp

/-- Replacing or adding one row counts the new version instead of the old one. -/
theorem count_insert (p : (key : κ) → ρ key → Bool) (σ : Store ρ) (key : κ) (row : ρ key) :
    count p (σ.insert key row) + ((σ.lookup key).filter (p key)).toList.length =
      count p σ + if p key row then 1 else 0 := by
  obtain ⟨rest, hnew, hold⟩ := entries_insert_perm σ key row
  have hlookup : (((σ.lookup key).map (Sigma.mk key)).toList.countP fun e => p e.1 e.2) =
      ((σ.lookup key).filter (p key)).toList.length := by
    cases σ.lookup key with
    | none => rfl
    | some old => by_cases hp : p key old <;> simp [hp, Option.filter]
  rw [count, count, hnew.countP_eq, hold.countP_eq, List.countP_append, hlookup, List.countP_cons]
  dsimp only
  omega

theorem count_insert_of_false {p : (key : κ) → ρ key → Bool} {key : κ} (hp : ∀ row, p key row = false) (σ : Store ρ)
    (row : ρ key) : count p (σ.insert key row) = count p σ := by
  have hcount := count_insert p σ key row
  rw [hp row, Option.filter_eq_none_iff.mpr fun row _ => by simp [hp row]] at hcount
  simpa using hcount

end Store

end sql
