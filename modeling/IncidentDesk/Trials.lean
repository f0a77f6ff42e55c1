import Mathlib.Init

/-- A computation with a state, which an error leaves as it is then. -/
abbrev Trial (σ ε : Type) : Type → Type := ExceptT ε (StateM σ)

namespace Trial

variable {σ ε α β : Type}

/-- How a computation ends, and the state that it leaves. -/
def exec (m : Trial σ ε α) (s : σ) : Except ε α × σ := (ExceptT.run m).run s

variable {m : Trial σ ε α} {f : α → Trial σ ε β} {handler : ε → Trial σ ε α} {s s' : σ} {a : α} {e : ε}

@[simp] theorem exec_pure (a : α) (s : σ) : exec (pure a : Trial σ ε α) s = (.ok a, s) := rfl

@[simp] theorem exec_throw (e : ε) (s : σ) : exec (throw e : Trial σ ε α) s = (.error e, s) := rfl

@[simp] theorem exec_get (s : σ) : exec (get : Trial σ ε σ) s = (.ok s, s) := rfl

@[simp] theorem exec_getThe (s : σ) : exec (getThe σ : Trial σ ε σ) s = (.ok s, s) := rfl

@[simp] theorem exec_set (s s' : σ) : exec (set s' : Trial σ ε PUnit) s = (.ok ⟨⟩, s') := rfl

@[simp] theorem exec_modify (g : σ → σ) (s : σ) : exec (modify g : Trial σ ε PUnit) s = (.ok ⟨⟩, g s) := rfl

@[simp] theorem exec_liftM (result : Except ε α) (s : σ) :
    exec (liftM result : Trial σ ε α) s = (result, s) := rfl

theorem exec_bind : exec (m >>= f) s =
    match exec m s with
    | (.ok a, s') => exec (f a) s'
    | (.error e, s') => (.error e, s') := by
  change (ExceptT.bindCont f ((ExceptT.run m).run s).1).run ((ExceptT.run m).run s).2 = _
  unfold exec
  rcases (ExceptT.run m).run s with ⟨_ | _, _⟩ <;> rfl

theorem exec_tryCatch : exec (tryCatch m handler) s =
    match exec m s with
    | (.ok a, s') => (.ok a, s')
    | (.error e, s') => exec (handler e) s' := by
  have hrun : (ExceptT.run m).run s = StateT.run m s := rfl
  unfold exec tryCatch
  simp only [instMonadExceptOfMonadExceptOf, tryCatchThe, MonadExceptOf.tryCatch, ExceptT.tryCatch, ExceptT.run_mk,
    StateT.run_bind, hrun]
  rcases StateT.run m s with ⟨_ | _, _⟩ <;> rfl

theorem exec_bind_ok (h : exec m s = (.ok a, s')) : exec (m >>= f) s = exec (f a) s' := by
  rw [exec_bind, h]

theorem exec_bind_error (h : exec m s = (.error e, s')) : exec (m >>= f) s = (.error e, s') := by
  rw [exec_bind, h]

theorem exec_bind_eq_ok {b : β} : exec (m >>= f) s = (.ok b, s') ↔
    ∃ a s₁, exec m s = (.ok a, s₁) ∧ exec (f a) s₁ = (.ok b, s') := by
  rw [exec_bind]
  rcases exec m s with ⟨e | a, s₁⟩ <;> simp [and_assoc]

theorem exec_bind_eq_error : exec (m >>= f) s = (.error e, s') ↔
    exec m s = (.error e, s') ∨ ∃ a s₁, exec m s = (.ok a, s₁) ∧ exec (f a) s₁ = (.error e, s') := by
  rw [exec_bind]
  rcases exec m s with ⟨e | a, s₁⟩ <;> simp [and_assoc]

theorem exec_tryCatch_eq_ok : exec (tryCatch m handler) s = (.ok a, s') ↔
    exec m s = (.ok a, s') ∨ ∃ e s₁, exec m s = (.error e, s₁) ∧ exec (handler e) s₁ = (.ok a, s') := by
  rw [exec_tryCatch]
  rcases exec m s with ⟨e | a, s₁⟩ <;> simp [and_assoc]

/-- Whatever a computation comes to, `I` stays true. -/
def Keeps (I : σ → Prop) (m : Trial σ ε α) : Prop := ∀ s, I s → I (exec m s).2

variable {I : σ → Prop}

theorem keeps_pure : Keeps I (pure a : Trial σ ε α) := fun _ h => h

theorem keeps_throw : Keeps I (throw e : Trial σ ε α) := fun _ h => h

theorem keeps_liftM {result : Except ε α} : Keeps I (liftM result : Trial σ ε α) := fun _ h => h

theorem keeps_modify {g : σ → σ} (h : ∀ s, I s → I (g s)) : Keeps I (modify g : Trial σ ε PUnit) := h

theorem Keeps.bind (hm : Keeps I m) (hf : ∀ a, Keeps I (f a)) : Keeps I (m >>= f) := by
  intro s hs
  have h := hm s hs
  rw [exec_bind]
  generalize exec m s = ended at h ⊢
  rcases ended with ⟨e | a, s'⟩
  · exact h
  · exact hf a s' h

theorem Keeps.tryCatch (hm : Keeps I m) (hhandler : ∀ e, Keeps I (handler e)) : Keeps I (tryCatch m handler) := by
  intro s hs
  have h := hm s hs
  rw [exec_tryCatch]
  generalize exec m s = ended at h ⊢
  rcases ended with ⟨e | a, s'⟩
  · exact hhandler e s' h
  · exact h

theorem Keeps.forM {g : α → Trial σ ε PUnit} {xs : List α} (h : ∀ x ∈ xs, Keeps I (g x)) :
    Keeps I (forM xs g : Trial σ ε PUnit) := by
  induction xs with
  | nil => exact keeps_pure
  | cons x xs ih =>
    rw [List.forM_cons]
    exact (h x List.mem_cons_self).bind fun _ => ih fun y hy => h y (List.mem_cons_of_mem _ hy)

/-- A computation does the same whatever the part of the state is that `φ` changes. -/
def Commutes (φ : σ → σ) (m : Trial σ ε α) : Prop := ∀ s, exec m (φ s) = ((exec m s).1, φ (exec m s).2)

variable {φ : σ → σ}

theorem commutes_pure : Commutes φ (pure a : Trial σ ε α) := fun _ => rfl

theorem commutes_liftM {result : Except ε α} : Commutes φ (liftM result : Trial σ ε α) := fun _ => rfl

theorem commutes_modify {g : σ → σ} (h : ∀ s, g (φ s) = φ (g s)) : Commutes φ (modify g : Trial σ ε PUnit) := by
  intro s
  rw [exec_modify, exec_modify, h]

theorem Commutes.bind (hm : Commutes φ m) (hf : ∀ a, Commutes φ (f a)) : Commutes φ (m >>= f) := by
  intro s
  rw [exec_bind, exec_bind, hm s]
  rcases exec m s with ⟨e | a, s'⟩
  · rfl
  · exact hf a s'

theorem Commutes.forM {g : α → Trial σ ε PUnit} {xs : List α} (h : ∀ x ∈ xs, Commutes φ (g x)) :
    Commutes φ (forM xs g : Trial σ ε PUnit) := by
  induction xs with
  | nil => exact commutes_pure
  | cons x xs ih =>
    rw [List.forM_cons]
    exact (h x List.mem_cons_self).bind fun _ => ih fun y hy => h y (List.mem_cons_of_mem _ hy)

/-- What a computation returns has a property. -/
def Returns (P : α → Prop) (m : Trial σ ε α) : Prop := ∀ s a, (exec m s).1 = .ok a → P a

variable {P : α → Prop} {Q : β → Prop}

theorem returns_pure (h : P a) : Returns P (pure a : Trial σ ε α) := by
  rintro s _ ⟨⟩
  exact h

theorem returns_throw : Returns P (throw e : Trial σ ε α) := by
  rintro s a ⟨⟩

theorem returns_liftM {result : Except ε α} (h : ∀ a, result = .ok a → P a) :
    Returns P (liftM result : Trial σ ε α) := fun _ => h

theorem Returns.bind (hm : Returns P m) (hf : ∀ a, P a → Returns Q (f a)) : Returns Q (m >>= f) := by
  intro s b hb
  have h := hm s
  rw [exec_bind] at hb
  generalize exec m s = ended at h hb
  rcases ended with ⟨e | a, s'⟩
  · cases hb
  · exact hf a (h a rfl) s' b hb

/-- The errors of a computation have a property. -/
def Fails (E : ε → Prop) (m : Trial σ ε α) : Prop := ∀ s e, (exec m s).1 = .error e → E e

variable {E : ε → Prop}

theorem fails_pure : Fails E (pure a : Trial σ ε α) := by
  rintro s e ⟨⟩

theorem fails_throw (h : E e) : Fails E (throw e : Trial σ ε α) := by
  rintro s _ ⟨⟩
  exact h

theorem fails_modify {g : σ → σ} : Fails E (modify g : Trial σ ε PUnit) := by
  rintro s e ⟨⟩

theorem fails_liftM {result : Except ε α} (h : ∀ e, result = .error e → E e) :
    Fails E (liftM result : Trial σ ε α) := fun _ => h

theorem Fails.bind (hm : Fails E m) (hf : ∀ a, Fails E (f a)) : Fails E (m >>= f) := by
  intro s e he
  have h := hm s
  rw [exec_bind] at he
  generalize exec m s = ended at h he
  rcases ended with ⟨e' | a, s'⟩
  · cases he
    exact h _ rfl
  · exact hf a s' e he

/-- Only what the handler does not handle is left. -/
theorem fails_tryCatch (hhandler : ∀ e, Fails E (handler e)) : Fails E (tryCatch m handler) := by
  intro s e he
  rw [exec_tryCatch] at he
  generalize exec m s = ended at he
  rcases ended with ⟨e' | a, s'⟩
  · exact hhandler e' s' e he
  · cases he

theorem Fails.forM {g : α → Trial σ ε PUnit} {xs : List α} (h : ∀ x ∈ xs, Fails E (g x)) :
    Fails E (forM xs g : Trial σ ε PUnit) := by
  induction xs with
  | nil => exact fails_pure
  | cons x xs ih =>
    rw [List.forM_cons]
    exact (h x List.mem_cons_self).bind fun _ => ih fun y hy => h y (List.mem_cons_of_mem _ hy)

end Trial
