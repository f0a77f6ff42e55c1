import Mathlib.Data.List.Forall2

namespace traversal

variable {α β γ ε : Type} {xs : List α} {ys : List β}

theorem mapM_eq_some {f : α → Option β} : xs.mapM f = some ys ↔ List.Forall₂ (fun x y => f x = some y) xs ys := by
  induction xs generalizing ys with
  | nil => simp [eq_comm]
  | cons x xs ih =>
    rw [List.mapM_cons, List.forall₂_cons_left_iff]
    simp only [Option.bind_eq_bind, Option.bind_eq_some_iff, Option.pure_def, Option.some.injEq, ih]
    constructor
    · rintro ⟨y, hy, ys, hys, rfl⟩
      exact ⟨y, ys, hy, hys, rfl⟩
    · rintro ⟨y, ys, hy, hys, rfl⟩
      exact ⟨y, hy, ys, hys, rfl⟩

theorem bind_eq_ok {x : Except ε α} {f : α → Except ε β} {y : β} : (x >>= f) = .ok y ↔ ∃ a, x = .ok a ∧ f a = .ok y := by
  cases x <;> simp [bind, Except.bind]

theorem bind_eq_error {x : Except ε α} {f : α → Except ε β} {e : ε} :
    (x >>= f) = .error e ↔ x = .error e ∨ ∃ a, x = .ok a ∧ f a = .error e := by
  cases x <;> simp [bind, Except.bind]

theorem mapM_eq_ok {f : α → Except ε β} : xs.mapM f = .ok ys ↔ List.Forall₂ (fun x y => f x = .ok y) xs ys := by
  induction xs generalizing ys with
  | nil => simp [pure, Except.pure, eq_comm]
  | cons x xs ih =>
    rw [List.mapM_cons, List.forall₂_cons_left_iff, bind_eq_ok]
    constructor
    · rintro ⟨y, hy, h⟩
      obtain ⟨ys, hys, h⟩ := bind_eq_ok.mp h
      cases h
      exact ⟨y, ys, hy, ih.mp hys, rfl⟩
    · rintro ⟨y, ys, hy, hys, rfl⟩
      exact ⟨y, hy, bind_eq_ok.mpr ⟨ys, ih.mpr hys, rfl⟩⟩

theorem forM_eq_ok {f : α → Except ε Unit} : xs.forM f = .ok () ↔ ∀ x ∈ xs, f x = .ok () := by
  induction xs with
  | nil => exact iff_of_true rfl (List.forall_mem_nil _)
  | cons x xs ih =>
    rw [List.forM, bind_eq_ok, List.forall_mem_cons]
    constructor
    · rintro ⟨⟨⟩, hx, h⟩
      exact ⟨hx, ih.mp h⟩
    · rintro ⟨hx, h⟩
      exact ⟨(), hx, ih.mpr h⟩

/-- A loop that succeeds on every element gives the list of its results. -/
theorem mapM_forall₂ {f : α → Except ε β} (R : α → β → Prop) (h : ∀ x ∈ xs, ∃ y, f x = .ok y ∧ R x y) :
    ∃ ys, xs.mapM f = .ok ys ∧ List.Forall₂ R xs ys := by
  induction xs with
  | nil => exact ⟨[], rfl, .nil⟩
  | cons x xs ih =>
    obtain ⟨y, hy, hxy⟩ := h x List.mem_cons_self
    obtain ⟨ys, hys, hrest⟩ := ih fun z hz => h z (List.mem_cons_of_mem _ hz)
    refine ⟨y :: ys, ?_, .cons hxy hrest⟩
    rw [List.mapM_cons, hy]
    simp only [bind, Except.bind, hys]
    rfl

theorem error_of_mapM {f : α → Except ε β} {e : ε} (h : xs.mapM f = .error e) : ∃ x ∈ xs, f x = .error e := by
  induction xs with
  | nil => cases h
  | cons x xs ih =>
    rw [List.mapM_cons] at h
    obtain hx | ⟨y, -, h⟩ := bind_eq_error.mp h
    · exact ⟨x, List.mem_cons_self, hx⟩
    · obtain hxs | ⟨ys, -, h⟩ := bind_eq_error.mp h
      · obtain ⟨x', hx', he⟩ := ih hxs
        exact ⟨x', List.mem_cons_of_mem _ hx', he⟩
      · cases h

theorem filterAuxM_eq_ok {f : α → Except ε Bool} {acc zs : List α} : xs.filterAuxM f acc = .ok zs ↔
    (∀ x ∈ xs, (f x).isOk = true) ∧ zs = (xs.filter fun x => (f x).toOption = some true).reverse ++ acc := by
  induction xs generalizing acc with
  | nil =>
    constructor
    · intro h
      cases h
      exact ⟨List.forall_mem_nil _, rfl⟩
    · rintro ⟨-, rfl⟩
      rfl
  | cons x xs ih =>
    rw [List.filterAuxM, bind_eq_ok, List.forall_mem_cons]
    cases hx : f x with
    | error e => simp [Except.isOk, Except.toBool]
    | ok b =>
      cases b <;> simp [ih, hx, Except.isOk, Except.toBool, Except.toOption]

/-- A filter that succeeds has asked about every element. -/
theorem filterM_eq_ok {f : α → Except ε Bool} {zs : List α} : xs.filterM f = .ok zs ↔
    (∀ x ∈ xs, (f x).isOk = true) ∧ zs = xs.filter fun x => (f x).toOption = some true := by
  rw [List.filterM, bind_eq_ok]
  simp only [filterAuxM_eq_ok, List.append_nil]
  constructor
  · rintro ⟨_, ⟨hall, rfl⟩, h⟩
    cases h
    exact ⟨hall, List.reverse_reverse _⟩
  · rintro ⟨hall, rfl⟩
    exact ⟨_, ⟨hall, rfl⟩, congrArg Except.ok (List.reverse_reverse _)⟩

theorem filterM_of_ok {f : α → Except ε Bool} {p : α → Bool} (h : ∀ x ∈ xs, f x = .ok (p x)) :
    xs.filterM f = .ok (xs.filter p) := by
  refine filterM_eq_ok.mpr ⟨fun x hx => by rw [h x hx]; rfl, List.filter_congr fun x hx => ?_⟩
  rw [h x hx]
  cases p x <;> rfl

theorem error_of_filterM {f : α → Except ε Bool} {e : ε} (h : xs.filterM f = .error e) : ∃ x ∈ xs, f x = .error e := by
  suffices haux : ∀ acc, xs.filterAuxM f acc = .error e → ∃ x ∈ xs, f x = .error e by
    rw [List.filterM] at h
    obtain h | ⟨zs, -, h⟩ := bind_eq_error.mp h
    · exact haux [] h
    · cases h
  clear h
  induction xs with
  | nil => rintro acc ⟨⟩
  | cons x xs ih =>
    intro acc h
    rw [List.filterAuxM] at h
    obtain hx | ⟨b, -, h⟩ := bind_eq_error.mp h
    · exact ⟨x, List.mem_cons_self, hx⟩
    · obtain ⟨x', hx', he⟩ := ih _ h
      exact ⟨x', List.mem_cons_of_mem _ hx', he⟩

theorem mapM_isOk {f : α → Except ε β} : (∃ ys, xs.mapM f = .ok ys) ↔ ∀ x ∈ xs, ∃ y, f x = .ok y := by
  constructor
  · rintro ⟨ys, h⟩
    have hall := mapM_eq_ok.mp h
    clear h
    induction hall with
    | nil => exact List.forall_mem_nil _
    | cons hxy _ ih => exact List.forall_mem_cons.mpr ⟨⟨_, hxy⟩, ih⟩
  · intro h
    obtain ⟨ys, hys, -⟩ := mapM_forall₂ (fun _ _ => True) fun x hx => (h x hx).imp fun y hy => ⟨hy, trivial⟩
    exact ⟨ys, hys⟩

theorem forall₂_map_eq {R : α → β → Prop} {f : α → γ} {g : β → γ} (h : List.Forall₂ R xs ys)
    (heq : ∀ x y, R x y → f x = g y) : xs.map f = ys.map g := by
  induction h with
  | nil => rfl
  | cons hxy _ ih => rw [List.map_cons, List.map_cons, heq _ _ hxy, ih]

theorem forall₂_mem_right {R : α → β → Prop} (h : List.Forall₂ R xs ys) {y : β} (hy : y ∈ ys) : ∃ x ∈ xs, R x y := by
  induction h with
  | nil => cases hy
  | cons hxy _ ih =>
    rcases List.mem_cons.mp hy with rfl | hy
    · exact ⟨_, List.mem_cons_self, hxy⟩
    · obtain ⟨x, hx, hR⟩ := ih hy
      exact ⟨x, List.mem_cons_of_mem _ hx, hR⟩

end traversal
