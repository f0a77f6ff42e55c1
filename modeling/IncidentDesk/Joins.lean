import Mathlib.Data.List.Basic

namespace joins

variable {ι ρ : Type}

inductive Side where
  | inner
  | left
  | right
deriving DecidableEq

/-- A joined row: each source with its row, or with none where an outer join found
no match. -/
abbrev Env (ι ρ : Type) := List (ι × Option ρ)

/-- Sources and their joined rows. -/
structure Joined (ι ρ : Type) where
  names : List ι
  rows : List (Env ι ρ)

def absent (names : List ι) : Env ι ρ := names.map (·, none)

namespace Joined

/-- One row without sources, which is where a list of joins starts. -/
def unit : Joined ι ρ := { names := [], rows := [[]] }

def single (name : ι) (rows : List ρ) : Joined ι ρ :=
  { names := [name], rows := rows.map fun row => [(name, some row)] }

/-- A join on a condition, with the rows that an outer join adds. -/
def join (side : Side) (on : Env ι ρ → Env ι ρ → Bool) (l r : Joined ι ρ) : Joined ι ρ where
  names := l.names ++ r.names
  rows := (l.rows.flatMap fun e => (r.rows.filter (on e)).map (e ++ ·)) ++
    (if side = .left then (l.rows.filter fun e => !r.rows.any (on e)).map (· ++ absent r.names) else []) ++
    if side = .right then (r.rows.filter fun f => !l.rows.any (on · f)).map (absent l.names ++ ·) else []

/-- Every joined row has every source. -/
def Proper (j : Joined ι ρ) : Prop := ∀ e ∈ j.rows, e.map Prod.fst = j.names

end Joined

/-- Any two rows that are present stand in a relation. -/
def Related (R : ι → ρ → ι → ρ → Prop) (e : Env ι ρ) : Prop :=
  ∀ x a, (x, some a) ∈ e → ∀ y b, (y, some b) ∈ e → R x a y b

variable {side : Side} {on : Env ι ρ → Env ι ρ → Bool} {l r : Joined ι ρ} {e f : Env ι ρ} {names : List ι}
  {R : ι → ρ → ι → ρ → Prop}

theorem not_mem_absent {x : ι} {a : ρ} : (x, some a) ∉ absent (ρ := ρ) names := by
  simp [absent]

theorem absent_names : (absent (ρ := ρ) names).map Prod.fst = names := by
  simp [absent, Function.comp_def]

/-- A joined row matches, or one of its sides is absent. -/
theorem Joined.mem_join (h : e ∈ (l.join side on r).rows) :
    (∃ e₁ ∈ l.rows, ∃ e₂ ∈ r.rows, on e₁ e₂ = true ∧ e = e₁ ++ e₂) ∨
      (∃ e₁ ∈ l.rows, e = e₁ ++ absent r.names) ∨ ∃ e₂ ∈ r.rows, e = absent l.names ++ e₂ := by
  simp only [join, List.mem_append, List.mem_flatMap, List.mem_map, List.mem_filter] at h
  rcases h with (⟨e₁, he₁, e₂, ⟨he₂, hon⟩, rfl⟩ | hleft) | hright
  · exact Or.inl ⟨e₁, he₁, e₂, he₂, hon, rfl⟩
  · split at hleft
    · obtain ⟨e₁, he₁, rfl⟩ := List.mem_map.mp hleft
      exact Or.inr (Or.inl ⟨e₁, (List.mem_filter.mp he₁).1, rfl⟩)
    · cases hleft
  · split at hright
    · obtain ⟨e₂, he₂, rfl⟩ := List.mem_map.mp hright
      exact Or.inr (Or.inr ⟨e₂, (List.mem_filter.mp he₂).1, rfl⟩)
    · cases hright

theorem Joined.mem_inner (h : e ∈ (l.join .inner on r).rows) :
    ∃ e₁ ∈ l.rows, ∃ e₂ ∈ r.rows, on e₁ e₂ = true ∧ e = e₁ ++ e₂ := by
  simp only [join, List.mem_append, List.mem_flatMap, List.mem_map, List.mem_filter] at h
  rcases h with (⟨e₁, he₁, e₂, ⟨he₂, hon⟩, rfl⟩ | hleft) | hright
  · exact ⟨e₁, he₁, e₂, he₂, hon, rfl⟩
  · cases hleft
  · cases hright

/-- Rows that match are joined, whatever the side. -/
theorem Joined.join_mem (he : e ∈ l.rows) (hf : f ∈ r.rows) (hon : on e f = true) :
    e ++ f ∈ (l.join side on r).rows := by
  simp only [join, List.mem_append, List.mem_flatMap, List.mem_map, List.mem_filter]
  exact Or.inl (Or.inl ⟨e, he, f, ⟨hf, hon⟩, rfl⟩)

theorem Joined.proper_unit : (unit : Joined ι ρ).Proper := by
  intro e he
  obtain rfl : e = [] := by simpa [unit] using he
  rfl

theorem Joined.proper_single {name : ι} {rows : List ρ} : (single name rows).Proper := by
  intro e he
  obtain ⟨row, -, rfl⟩ := List.mem_map.mp he
  rfl

theorem Joined.Proper.join (hl : l.Proper) (hr : r.Proper) : (l.join side on r).Proper := by
  intro e he
  rcases mem_join he with ⟨e₁, h₁, e₂, h₂, -, rfl⟩ | ⟨e₁, h₁, rfl⟩ | ⟨e₂, h₂, rfl⟩
  · rw [List.map_append, hl e₁ h₁, hr e₂ h₂]
    rfl
  · rw [List.map_append, hl e₁ h₁, absent_names]
    rfl
  · rw [List.map_append, hr e₂ h₂, absent_names]
    rfl

/-- A join keeps a relation that holds on both of its sides and that its condition
gives between them. -/
theorem Related.join (hl : ∀ e ∈ l.rows, Related R e) (hr : ∀ e ∈ r.rows, Related R e)
    (hon : ∀ e ∈ l.rows, ∀ f ∈ r.rows, on e f = true → ∀ x a, (x, some a) ∈ e → ∀ y b, (y, some b) ∈ f →
      R x a y b ∧ R y b x a) :
    ∀ e ∈ (l.join side on r).rows, Related R e := by
  intro e he x a hx y b hy
  rcases Joined.mem_join he with ⟨e₁, h₁, e₂, h₂, hmatch, rfl⟩ | ⟨e₁, h₁, rfl⟩ | ⟨e₂, h₂, rfl⟩
  · rcases List.mem_append.mp hx with hx | hx <;> rcases List.mem_append.mp hy with hy | hy
    · exact hl e₁ h₁ x a hx y b hy
    · exact (hon e₁ h₁ e₂ h₂ hmatch x a hx y b hy).1
    · exact (hon e₁ h₁ e₂ h₂ hmatch y b hy x a hx).2
    · exact hr e₂ h₂ x a hx y b hy
  · have hx' := (List.mem_append.mp hx).resolve_right not_mem_absent
    have hy' := (List.mem_append.mp hy).resolve_right not_mem_absent
    exact hl e₁ h₁ x a hx' y b hy'
  · have hx' := (List.mem_append.mp hx).resolve_left not_mem_absent
    have hy' := (List.mem_append.mp hy).resolve_left not_mem_absent
    exact hr e₂ h₂ x a hx' y b hy'

end joins
