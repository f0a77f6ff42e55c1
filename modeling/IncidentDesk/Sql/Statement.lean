import IncidentDesk.Sql.Tx

namespace sql.Tx

variable {κ : Type} [DecidableEq κ] {ρ : κ → Type} {ε α : Type}

/-- The snapshot a reading statement sees: what was committed when it began,
with the writes of its own transaction. -/
def snapshot : Tx ρ ε (Store ρ) := scan ret

/-- Wait for the lock of a row and read its newest version. -/
def lockRow (key : κ) : Tx ρ ε (Option (ρ key)) := lock key ret

/-- Lock a row under `skip locked`: `none` when another transaction holds it. -/
def tryLockRow (key : κ) : Tx ρ ε (Option (Option (ρ key))) := tryLock key ret

def writeRow (key : κ) (row : ρ key) : Tx ρ ε Unit := write key row (ret ())

/-- The value of an option, or the given error when it is absent. -/
def require (found : Option α) (error : ε) : Tx ρ ε α :=
  match found with
  | some value => ret value
  | none => raise error

/-- Raise the error that a check has returned. -/
def ofExcept (result : Except ε α) : Tx ρ ε α :=
  match result with
  | .ok value => ret value
  | .error error => raise error

/-- Raise the error when the condition holds. -/
def refuse (condition : Prop) [Decidable condition] (error : ε) : Tx ρ ε Unit :=
  if condition then raise error else ret ()

/-- `select ... where key = ... for update`: the statement's snapshot together
with the newest version of the row. A row missing from the snapshot is not
waited for. -/
def selectForUpdate (key : κ) : Tx ρ ε (Store ρ × Option (ρ key)) := do
  let snap ← snapshot
  match snap.lookup key with
  | none => return (snap, none)
  | some _ => return (snap, ← lockRow key)

/-- `insert into ...`, raising `duplicate` when the key is taken. The lock is
the wait for another transaction's uncommitted row with the same key. -/
def insert (key : κ) (row : ρ key) (duplicate : ε) : Tx ρ ε Unit := do
  let found ← lockRow key
  refuse (found.isSome = true) duplicate
  writeRow key row

/-- `insert into ... on conflict do update ... returning *`. -/
def upsert (key : κ) (fresh : ρ key) (merge : ρ key → ρ key) : Tx ρ ε (ρ key) := do
  let found ← lockRow key
  let row := (found.map merge).getD fresh
  writeRow key row
  return row

/-- `update ... set f where key = ... and p returning *`: the new version of the
row, if the statement changed one. The statement finds its row in the snapshot
and checks it again once it holds the row's lock. -/
def updateOne (key : κ) (p : ρ key → Bool) (f : Store ρ → ρ key → ρ key) :
    Tx ρ ε (Option (ρ key)) := do
  let snap ← snapshot
  match (snap.lookup key).filter p with
  | none => return none
  | some _ =>
    match (← lockRow key).filter p with
    | none => return none
    | some row =>
      writeRow key (f snap row)
      return some (f snap row)

/-- The rows of a multi-row update, locked, checked again and changed in turn;
the result lists the new versions. -/
def updateEach (p : (key : κ) → ρ key → Bool) (f : (key : κ) → ρ key → ρ key) :
    List κ → Tx ρ ε (List (Sigma ρ))
  | [] => ret []
  | key :: keys => do
    match (← lockRow key).filter (p key) with
    | none => updateEach p f keys
    | some row =>
      writeRow key (f key row)
      return ⟨key, f key row⟩ :: (← updateEach p f keys)

/-- `update ... set f where p returning *`: the snapshot gives the rows, and the
values that subqueries of `p` and `f` read. -/
def updateAll (p : Store ρ → (key : κ) → ρ key → Bool)
    (f : Store ρ → (key : κ) → ρ key → ρ key) : Tx ρ ε (List (Sigma ρ)) := do
  let snap ← snapshot
  updateEach (p snap) (f snap) ((snap.select (p snap)).map Sigma.fst)

/-- `insert into ... select`, one row after the other. -/
def insertEach (duplicate : ε) : List (Sigma ρ) → Tx ρ ε Unit
  | [] => ret ()
  | e :: es => do
    insert e.1 e.2 duplicate
    insertEach duplicate es

end sql.Tx
