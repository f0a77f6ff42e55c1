import Mathlib.Data.List.Lex
import Mathlib.Data.Nat.Basic
import Mathlib.Tactic.IntervalCases

namespace decimal

/-- The last digits of a number, as many as there is room for: `%0wd`. -/
def pad : Nat → Nat → List Char
  | 0, _ => []
  | w + 1, n => pad w (n / 10) ++ [Nat.digitChar (n % 10)]

variable {w m n : Nat} {c d : Char} {s s' rest rest' : List Char}

@[simp] theorem length_pad (w n : Nat) : (pad w n).length = w := by
  induction w generalizing n with
  | zero => rfl
  | succ w ih => rw [pad, List.length_append, ih, List.length_singleton]

theorem digitChar_lt (hn : n < 10) (h : m < n) : Nat.digitChar m < Nat.digitChar n := by
  interval_cases n <;> interval_cases m <;> decide

/-- A number of fewer digits than there is room for comes before a greater one,
whatever stands behind the two. -/
theorem pad_append_lt (hn : n < 10 ^ w) (h : m < n) : pad w m ++ rest < pad w n ++ rest' := by
  induction w generalizing m n rest rest' with
  | zero =>
    rw [Nat.pow_zero] at hn
    omega
  | succ w ih =>
    have hdiv : n / 10 < 10 ^ w := by
      rw [Nat.pow_succ] at hn
      omega
    simp only [pad, List.append_assoc, List.singleton_append]
    obtain hlt | ⟨heq, hlt⟩ : m / 10 < n / 10 ∨ m / 10 = n / 10 ∧ m % 10 < n % 10 := by omega
    · exact ih hdiv hlt
    · rw [heq]
      apply List.append_left_lt
      rw [List.cons_lt_cons_iff]
      exact .inl (digitChar_lt (Nat.mod_lt n (by omega)) hlt)

/-- Behind equal numbers, the order is that of what follows. -/
theorem pad_append_lt_of_eq (heq : m = n) (h : rest < rest') : pad w m ++ rest < pad w n ++ rest' := by
  rw [heq]
  exact List.append_left_lt h

/-- A separator behind two numbers does not change their order. -/
theorem cons_lt_cons (h : rest < rest') : c :: rest < c :: rest' := by
  rw [List.cons_lt_cons_iff]
  exact .inr ⟨rfl, h⟩

end decimal
