import Mathlib.Data.List.Induction

namespace machine

variable {σ ω : Type} (step : σ → ω → σ)

/-- The state that a sequence of operations leads to. -/
def run (s : σ) (ops : List ω) : σ := ops.foldl step s

@[simp] theorem run_nil (s : σ) : run step s [] = s := rfl

@[simp] theorem run_cons (s : σ) (op : ω) (ops : List ω) :
    run step s (op :: ops) = run step (step s op) ops := rfl

theorem run_append (s : σ) (ops ops' : List ω) :
    run step s (ops ++ ops') = run step (run step s ops) ops' := List.foldl_append

@[simp] theorem run_concat (s : σ) (ops : List ω) (op : ω) :
    run step s (ops ++ [op]) = step (run step s ops) op := by
  rw [run_append]
  rfl

/-- Some step of the run is taken in a state and with an operation related by `R`. -/
def Occurs (R : σ → ω → Prop) (s : σ) (ops : List ω) : Prop :=
  ∃ pre op post, ops = pre ++ op :: post ∧ R (run step s pre) op

/-- Every step of the run is taken in a state and with an operation related by `R`. -/
def Always (R : σ → ω → Prop) (s : σ) (ops : List ω) : Prop :=
  ∀ pre op post, ops = pre ++ op :: post → R (run step s pre) op

/-- How many steps of the run are taken in a state and with an operation that
satisfy `p`. -/
def count (p : σ → ω → Bool) : σ → List ω → Nat
  | _, [] => 0
  | s, op :: ops => (if p s op then 1 else 0) + count p (step s op) ops

variable {step}

/-- The split points of a run that ends with `op` are those of the run before it
and the last one. -/
private theorem concat_eq_append_cons {ops pre post : List ω} {op last : ω} :
    ops ++ [last] = pre ++ op :: post ↔
      (∃ post', post = post' ++ [last] ∧ ops = pre ++ op :: post') ∨
        post = [] ∧ ops = pre ∧ last = op := by
  constructor
  · intro h
    rcases List.eq_nil_or_concat post with rfl | ⟨post', last', rfl⟩
    · obtain ⟨hops, hlast⟩ := List.append_inj' h rfl
      exact .inr ⟨rfl, hops, by simpa using hlast⟩
    · have h' : ops ++ [last] = (pre ++ op :: post') ++ [last'] := by simpa using h
      obtain ⟨hops, hlast⟩ := List.append_inj' h' rfl
      exact .inl ⟨post', by simpa using hlast.symm, hops⟩
  · rintro (⟨post', rfl, rfl⟩ | ⟨rfl, rfl, rfl⟩) <;> simp

theorem occurs_nil {R : σ → ω → Prop} {s : σ} : ¬ Occurs step R s [] := by
  rintro ⟨pre, op, post, h, -⟩
  simp at h

theorem occurs_cons {R : σ → ω → Prop} {s : σ} {ops : List ω} {op : ω} :
    Occurs step R s (op :: ops) ↔ R s op ∨ Occurs step R (step s op) ops := by
  constructor
  · rintro ⟨pre, op', post, h, hR⟩
    cases pre with
    | nil =>
      cases h
      exact .inl hR
    | cons first pre =>
      cases h
      exact .inr ⟨pre, op', post, rfl, hR⟩
  · rintro (hR | ⟨pre, op', post, rfl, hR⟩)
    · exact ⟨[], op, ops, rfl, hR⟩
    · exact ⟨op :: pre, op', post, rfl, hR⟩

theorem occurs_concat {R : σ → ω → Prop} {s : σ} {ops : List ω} {op : ω} :
    Occurs step R s (ops ++ [op]) ↔ Occurs step R s ops ∨ R (run step s ops) op := by
  constructor
  · rintro ⟨pre, op', post, h, hR⟩
    rcases concat_eq_append_cons.mp h with ⟨post', -, hops⟩ | ⟨-, rfl, rfl⟩
    · exact .inl ⟨pre, op', post', hops, hR⟩
    · exact .inr hR
  · rintro (⟨pre, op', post, rfl, hR⟩ | hR)
    · exact ⟨pre, op', post ++ [op], by simp, hR⟩
    · exact ⟨ops, op, [], rfl, hR⟩

theorem always_nil {R : σ → ω → Prop} {s : σ} : Always step R s [] := by
  intro pre op post h
  simp at h

theorem always_cons {R : σ → ω → Prop} {s : σ} {ops : List ω} {op : ω} :
    Always step R s (op :: ops) ↔ R s op ∧ Always step R (step s op) ops := by
  constructor
  · intro h
    exact ⟨h [] op ops rfl, fun pre op' post hops => h (op :: pre) op' post (by rw [hops]; rfl)⟩
  · rintro ⟨hR, h⟩ pre op' post hops
    cases pre with
    | nil =>
      cases hops
      exact hR
    | cons first pre =>
      cases hops
      exact h pre op' post rfl

theorem always_concat {R : σ → ω → Prop} {s : σ} {ops : List ω} {op : ω} :
    Always step R s (ops ++ [op]) ↔ Always step R s ops ∧ R (run step s ops) op := by
  constructor
  · intro h
    exact ⟨fun pre op' post hops => h pre op' (post ++ [op]) (by simp [hops]), h ops op [] rfl⟩
  · rintro ⟨h, hR⟩ pre op' post hops
    rcases concat_eq_append_cons.mp hops with ⟨post', -, rfl⟩ | ⟨-, rfl, rfl⟩
    · exact h pre op' post' rfl
    · exact hR

theorem always_append {R : σ → ω → Prop} {s : σ} {ops ops' : List ω} :
    Always step R s (ops ++ ops') ↔ Always step R s ops ∧ Always step R (run step s ops) ops' := by
  induction ops' using List.reverseRecOn with
  | nil => simp [always_nil]
  | append_singleton ops' op ih =>
    rw [← List.append_assoc, always_concat, always_concat, ih, run_append, and_assoc]

/-- A quantity that every step keeps or raises, and that the steps counted by
`p` raise, bounds their number. -/
theorem count_le {ok : σ → ω → Prop} {p : σ → ω → Bool} {I : σ → Prop} {φ : σ → Nat}
    (hstep : ∀ s op, I s → ok s op → I (step s op) ∧ φ s + (if p s op then 1 else 0) ≤ φ (step s op))
    {s : σ} (hs : I s) {ops : List ω} (hok : Always step ok s ops) :
    φ s + count step p s ops ≤ φ (run step s ops) := by
  induction ops generalizing s with
  | nil => exact Nat.le_refl _
  | cons op ops ih =>
    rw [always_cons] at hok
    obtain ⟨hs', hle⟩ := hstep s op hs hok.1
    have hrest := ih hs' hok.2
    rw [count, run_cons]
    omega

/-- Steps that change nothing can be left out of a run. -/
theorem run_filter {p : ω → Bool} {s : σ} {ops : List ω}
    (h : Always step (fun s op => p op = false → step s op = s) s ops) :
    run step s (ops.filter p) = run step s ops := by
  induction ops using List.reverseRecOn with
  | nil => rfl
  | append_singleton ops op ih =>
    rw [always_concat] at h
    rw [List.filter_append, run_append, ih h.1, run_concat]
    cases hp : p op with
    | true => simp [hp]
    | false => simp [hp, h.2 hp]

private theorem run_filter_around {p : ω → Prop} [DecidablePred p] {s : σ} {pre post : List ω} {op : ω}
    (hpre : Always step (fun s op => p op → step s op = s) s pre)
    (hpost : Always step (fun s op => p op → step s op = s) (step (run step s pre) op) post) :
    run step s (pre ++ op :: post) =
      run step s (pre.filter (fun op => ¬ p op) ++ op :: post.filter fun op => ¬ p op) := by
  rw [run_append, run_append, run_cons, run_cons]
  have hpre' : run step s (pre.filter fun op => ¬ p op) = run step s pre :=
    run_filter fun pre' op' post' hops hp => hpre pre' op' post' hops (by simpa using hp)
  have hpost' : run step (step (run step s pre) op) (post.filter fun op => ¬ p op) =
      run step (step (run step s pre) op) post :=
    run_filter fun pre' op' post' hops hp => hpost pre' op' post' hops (by simpa using hp)
  rw [hpre', hpost']

/-- If the operations of some kind change nothing but for one of them, all but
one of them can be left out of a run. -/
theorem run_once {p : ω → Prop} [DecidablePred p] {R : σ → ω → Prop} {s : σ} {ops : List ω}
    (hstep : Always step (fun s op => p op → step s op = s ∨ R s op) s ops)
    (hR : ∀ s op, R s op → p op)
    (honce : ∀ pre op mid op', R (run step s pre) op → ¬ R (run step s (pre ++ op :: mid)) op')
    (hp : ∃ op ∈ ops, p op) :
    ∃ pre op post, ops = pre ++ op :: post ∧ p op ∧ run step s ops =
      run step s (pre.filter (fun op => ¬ p op) ++ op :: post.filter fun op => ¬ p op) := by
  by_cases hoccurs : Occurs step R s ops
  · obtain ⟨pre, op, post, rfl, hop⟩ := hoccurs
    refine ⟨pre, op, post, rfl, hR _ _ hop, run_filter_around ?_ ?_⟩
    · rintro pre' op' mid rfl hop'
      obtain hsame | hop' := hstep pre' op' (mid ++ op :: post) (by simp) hop'
      · exact hsame
      · exact absurd hop (honce pre' op' mid op hop')
    · rintro mid op' post' rfl hop'
      have hrun : run step (step (run step s pre) op) mid = run step s (pre ++ op :: mid) :=
        (run_append step s pre (op :: mid)).symm
      rw [hrun]
      obtain hsame | hop' := hstep (pre ++ op :: mid) op' post' (by simp) hop'
      · exact hsame
      · exact absurd hop' (honce pre op mid op' hop)
  · have hsame : Always step (fun s op => p op → step s op = s) s ops := by
      intro pre op post hops hop
      obtain hsame | hop := hstep pre op post hops hop
      · exact hsame
      · exact absurd ⟨pre, op, post, hops, hop⟩ hoccurs
    obtain ⟨op, hmem, hop⟩ := hp
    obtain ⟨pre, post, rfl⟩ := List.append_of_mem hmem
    rw [always_append, always_cons] at hsame
    exact ⟨pre, op, post, rfl, hop, run_filter_around hsame.1 hsame.2.2⟩

/-- What holds at the start and is kept by every step that satisfies `ok` holds
after every run of such steps. `P` may speak about the run itself. -/
theorem run_induction_along {ok : σ → ω → Prop} {P : List ω → σ → Prop} {s : σ} (hinit : P [] s)
    (hstep : ∀ ops op, P ops (run step s ops) → ok (run step s ops) op →
      P (ops ++ [op]) (step (run step s ops) op)) :
    ∀ ops, Always step ok s ops → P ops (run step s ops) := by
  intro ops
  induction ops using List.reverseRecOn with
  | nil => exact fun _ => hinit
  | append_singleton ops op ih =>
    intro hok
    rw [always_concat] at hok
    rw [run_concat]
    exact hstep ops op (ih hok.1) hok.2

/-- Every run takes steps of some kind. -/
theorem always_true (s : σ) (ops : List ω) : Always step (fun _ _ => True) s ops :=
  fun _ _ _ _ => trivial

theorem run_induction {P : List ω → σ → Prop} {s : σ} (hinit : P [] s)
    (hstep : ∀ ops op, P ops (run step s ops) → P (ops ++ [op]) (step (run step s ops) op))
    (ops : List ω) : P ops (run step s ops) :=
  run_induction_along hinit (fun ops op h _ => hstep ops op h) ops (always_true s ops)

/-- An invariant of the initial state and of every step holds of every state a
run leads to. -/
theorem run_invariant {I : σ → Prop} {s : σ} (hinit : I s) (hstep : ∀ s op, I s → I (step s op))
    (ops : List ω) : I (run step s ops) :=
  run_induction (P := fun _ => I) hinit (fun _ op h => hstep _ op h) ops

theorem run_invariant_along {ok : σ → ω → Prop} {I : σ → Prop} {s : σ} (hinit : I s)
    (hstep : ∀ s op, I s → ok s op → I (step s op)) {ops : List ω} (hok : Always step ok s ops) :
    I (run step s ops) :=
  run_induction_along (P := fun _ => I) hinit (fun _ op h hop => hstep _ op h hop) ops hok

theorem always_of_forall {p : ω → Prop} {s : σ} {ops : List ω} (h : ∀ op ∈ ops, p op) :
    Always step (fun _ op => p op) s ops := by
  rintro pre op post rfl
  exact h op (by simp)

theorem always_of_invariant {I : σ → Prop} {s : σ} (hinit : I s) (hstep : ∀ s op, I s → I (step s op))
    (ops : List ω) : Always step (fun s _ => I s) s ops := by
  rintro pre op post -
  exact run_invariant hinit hstep pre

/-- A value that is not the one at the start has been set by some step. -/
theorem eq_or_occurs {ok : σ → ω → Prop} {β : Type} (f : σ → β) {s : σ} {ops : List ω} (hok : Always step ok s ops) :
    f (run step s ops) = f s ∨
      Occurs step (fun s' op => ok s' op ∧ f s' ≠ f (run step s ops) ∧ f (step s' op) = f (run step s ops)) s ops := by
  refine run_induction_along (P := fun ops s' => f s' = f s ∨
    Occurs step (fun s'' op => ok s'' op ∧ f s'' ≠ f s' ∧ f (step s'' op) = f s') s ops) (.inl rfl)
    (fun ops op h hop => ?_) ops hok
  by_cases hsame : f (step (run step s ops) op) = f (run step s ops)
  · rw [hsame]
    obtain h | ⟨pre, op', post, rfl, h⟩ := h
    · exact .inl h
    · exact .inr ⟨pre, op', post ++ [op], by simp, h⟩
  · exact .inr ⟨ops, op, [], rfl, hop, fun h => hsame h.symm, rfl⟩

end machine
