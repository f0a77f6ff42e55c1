import Mathlib.Init

/-- A loop that takes parts off a state until what is left fits. -/
structure Shrinking (σ : Type) where
  fits : σ → Bool
  empty : σ → Bool
  pop : σ → σ
  parts : σ → Nat
  pop_lt : ∀ s, empty s = false → parts (pop s) < parts s

namespace Shrinking

variable {σ : Type} (loop : Shrinking σ)

/-- What is left when it fits, and nothing when there are no parts to take off. -/
def run (s : σ) : Option σ :=
  if loop.fits s then some s
  else
    match hempty : loop.empty s with
    | true => none
    | false =>
      have := loop.pop_lt s hempty
      run (loop.pop s)
termination_by loop.parts s
decreasing_by assumption

variable {loop} {s t : σ}

/-- What each step keeps is kept by the loop, and what the loop ends with fits. -/
theorem run_induction {P : σ → Prop} (hpop : ∀ s, loop.empty s = false → P s → P (loop.pop s)) (hs : P s)
    (h : loop.run s = some t) : P t ∧ loop.fits t = true := by
  induction hparts : loop.parts s using Nat.strongRecOn generalizing s with
  | ind parts ih =>
    rw [run] at h
    split at h
    · cases h
      exact ⟨hs, ‹_›⟩
    · split at h
      · cases h
      · rename_i hempty
        exact ih _ (hparts ▸ loop.pop_lt s hempty) (hpop s hempty hs) h rfl

end Shrinking
