import IncidentDesk.Sql.Store

namespace sql

/-- The body of a database transaction, as the row operations its statements
perform. `scan` is the snapshot a statement reads when it begins, `lock` waits
for a row lock and then reads the newest version of the row, `tryLock` is the
same lock under `skip locked`, and `write` stores a new version of a row. A body
that raises is rolled back. -/
inductive Tx {κ : Type} (ρ : κ → Type) (ε α : Type) : Type where
  | ret (value : α)
  | raise (error : ε)
  | scan (next : Store ρ → Tx ρ ε α)
  | lock (key : κ) (next : Option (ρ key) → Tx ρ ε α)
  | tryLock (key : κ) (next : Option (Option (ρ key)) → Tx ρ ε α)
  | write (key : κ) (row : ρ key) (next : Tx ρ ε α)

namespace Tx

variable {κ : Type} {ρ : κ → Type} {ε α β γ : Type}

/-- Sequencing; an error ends the whole body. -/
def bind (body : Tx ρ ε α) (f : α → Tx ρ ε β) : Tx ρ ε β :=
  match body with
  | ret value => f value
  | raise error => raise error
  | scan next => scan fun snap => (next snap).bind f
  | lock key next => lock key fun row => (next row).bind f
  | tryLock key next => tryLock key fun row => (next row).bind f
  | write key row next => write key row (next.bind f)

instance : Monad (Tx ρ ε) where
  pure := ret
  bind := bind

@[simp] theorem pure_eq_ret (value : α) : (pure value : Tx ρ ε α) = ret value := rfl

@[simp] theorem ret_bind (value : α) (f : α → Tx ρ ε β) : (ret value >>= f) = f value := rfl

@[simp] theorem raise_bind (error : ε) (f : α → Tx ρ ε β) :
    ((raise error : Tx ρ ε α) >>= f) = raise error := rfl

@[simp] theorem scan_bind (next : Store ρ → Tx ρ ε α) (f : α → Tx ρ ε β) :
    (scan next >>= f) = scan fun snap => next snap >>= f := rfl

@[simp] theorem lock_bind (key : κ) (next : Option (ρ key) → Tx ρ ε α) (f : α → Tx ρ ε β) :
    (lock key next >>= f) = lock key fun row => next row >>= f := rfl

@[simp] theorem tryLock_bind (key : κ) (next : Option (Option (ρ key)) → Tx ρ ε α)
    (f : α → Tx ρ ε β) :
    (tryLock key next >>= f) = tryLock key fun row => next row >>= f := rfl

@[simp] theorem write_bind (key : κ) (row : ρ key) (next : Tx ρ ε α) (f : α → Tx ρ ε β) :
    (write key row next >>= f) = write key row (next >>= f) := rfl

theorem bind_ret (body : Tx ρ ε α) : body >>= ret = body := by
  induction body with
  | ret | raise => rfl
  | scan next ih => simp [ih]
  | lock key next ih => simp [ih]
  | tryLock key next ih => simp [ih]
  | write key row next ih => simp [ih]

theorem bind_assoc' (body : Tx ρ ε α) (f : α → Tx ρ ε β) (g : β → Tx ρ ε γ) :
    body >>= f >>= g = body >>= fun value => f value >>= g := by
  induction body with
  | ret | raise => rfl
  | scan next ih => simp [ih]
  | lock key next ih => simp [ih]
  | tryLock key next ih => simp [ih]
  | write key row next ih => simp [ih]

instance : LawfulMonad (Tx ρ ε) :=
  LawfulMonad.mk' (Tx ρ ε) bind_ret (fun _ _ => rfl) bind_assoc'

end Tx

end sql
