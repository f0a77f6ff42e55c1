import IncidentDesk.Sql.ReadCommitted

namespace sql

variable {κ : Type} [DecidableEq κ] {ρ : κ → Type} {ε ω : Type}

/-- A transaction in progress. -/
structure Open (ρ : κ → Type) (ε ω : Type) where
  label : ω
  body : Tx ρ ε Unit
  writes : Store ρ
  locks : List κ

def Open.at (t : Open ρ ε ω) (σ : Store ρ) : Local ρ := { committed := σ, writes := t.writes, locks := t.locks }

/-- Nothing is left of a transaction but to commit. -/
def Open.done (t : Open ρ ε ω) : Bool :=
  match t.body with
  | .ret _ => true
  | _ => false

/-- A database with the transactions that are open on its connections. -/
structure Database (ρ : κ → Type) (ε ω : Type) where
  store : Store ρ
  opens : Store fun _ : Nat => Open ρ ε ω

/-- What can happen next: a transaction begins on a free connection, the one on
a connection makes its next request, or it is rolled back. -/
inductive Move (ω : Type) where
  | start (n : Nat) (label : ω)
  | exec (n : Nat)
  | abort (n : Nat)

namespace Database

/-- A transaction on another connection has locked the row. -/
def held (db : Database ρ ε ω) (n : Nat) (key : κ) : Bool :=
  (db.opens.erase n).entries.any fun e => key ∈ e.2.locks

def set (db : Database ρ ε ω) (n : Nat) (t : Open ρ ε ω) : Database ρ ε ω :=
  { db with opens := db.opens.insert n t }

def close (db : Database ρ ε ω) (n : Nat) : Database ρ ε ω := { db with opens := db.opens.erase n }

/-- One request of an open transaction. Where the row is locked by another one,
`lock` and `write` wait and `tryLock` goes on without it. -/
def exec (db : Database ρ ε ω) (n : Nat) (t : Open ρ ε ω) : Database ρ ε ω :=
  match t.body with
  | .ret _ => { (db.close n) with store := (t.at db.store).commit }
  | .raise _ => db.close n
  | .scan next => db.set n { t with body := next (t.at db.store).commit }
  | .lock key next =>
    if db.held n key then db
    else db.set n { t with body := next ((t.at db.store).lookup key), locks := key :: t.locks }
  | .tryLock key next =>
    if db.held n key then db.set n { t with body := next none }
    else db.set n { t with body := next (some ((t.at db.store).lookup key)), locks := key :: t.locks }
  | .write key row next =>
    if db.held n key then db
    else db.set n { t with body := next, writes := t.writes.insert key row, locks := key :: t.locks }

variable (body : ω → Tx ρ ε Unit)

def step (db : Database ρ ε ω) : Move ω → Database ρ ε ω
  | .start n label =>
    if n ∈ db.opens then db else db.set n { label, body := body label, writes := ∅, locks := [] }
  | .exec n => ((db.opens.lookup n).map (db.exec n)).getD db
  | .abort n => db.close n

/-- The transaction that a move commits. -/
def commits (db : Database ρ ε ω) : Move ω → Option (Open ρ ε ω)
  | .exec n => (db.opens.lookup n).filter Open.done
  | _ => none

/-- No transaction is open yet. -/
def idle (σ : Store ρ) : Database ρ ε ω := { store := σ, opens := ∅ }

/-- The row that a move writes, if it writes one, satisfies `W`. -/
def Writes (W : ω → Local ρ → (key : κ) → ρ key → Prop) (db : Database ρ ε ω) (move : Move ω) : Prop :=
  ∀ n t key row next, move = .exec n → db.opens.lookup n = some t → t.body = .write key row next →
    db.held n key = false → W t.label (t.at db.store) key row

omit [DecidableEq κ] in
theorem lookup_erase {db : Database ρ ε ω} {n m : Nat} {t : Open ρ ε ω}
    (h : (db.opens.erase n).lookup m = some t) : m ≠ n ∧ db.opens.lookup m = some t := by
  by_cases hm : m = n
  · subst hm
    rw [AList.lookup_erase] at h
    cases h
  · exact ⟨hm, by rwa [AList.lookup_erase_ne hm] at h⟩

omit [DecidableEq κ] in
theorem lookup_insert (db : Database ρ ε ω) {n m : Nat} {t t' : Open ρ ε ω}
    (h : (db.opens.insert n t).lookup m = some t') : m = n ∧ t' = t ∨ m ≠ n ∧ db.opens.lookup m = some t' := by
  by_cases hm : m = n
  · subst hm
    rw [AList.lookup_insert] at h
    exact .inl ⟨rfl, (Option.some.inj h).symm⟩
  · rw [AList.lookup_insert_ne hm] at h
    exact .inr ⟨hm, h⟩

theorem held_eq_false {db : Database ρ ε ω} {n : Nat} {key : κ} :
    db.held n key = false ↔ ∀ m t, m ≠ n → db.opens.lookup m = some t → key ∉ t.locks := by
  unfold held
  rw [List.any_eq_false]
  constructor
  · intro h m t hm ht hkey
    have hmem : (⟨m, t⟩ : Sigma fun _ : Nat => Open ρ ε ω) ∈ (db.opens.erase n).entries :=
      AList.mem_lookup_iff.mp ((AList.lookup_erase_ne hm).trans ht)
    exact h _ hmem (decide_eq_true hkey)
  · rintro h ⟨m, t⟩ hmem hkey
    have hlookup : (db.opens.erase n).lookup m = some t := AList.mem_lookup_iff.mpr hmem
    have hm : m ≠ n := by
      rintro rfl
      rw [AList.lookup_erase] at hlookup
      cases hlookup
    rw [AList.lookup_erase_ne hm] at hlookup
    exact h m t hm hlookup (of_decide_eq_true hkey)

/-- A request leaves the transactions that are open the ones they were. -/
theorem exec_label {db : Database ρ ε ω} {n m : Nat} {t t' : Open ρ ε ω} (ht : db.opens.lookup n = some t)
    (ht' : (db.exec n t).opens.lookup m = some t') : ∃ u, db.opens.lookup m = some u ∧ u.label = t'.label := by
  have hset {u : Open ρ ε ω} (ht' : (db.set n u).opens.lookup m = some t') (hu : u.label = t.label) :
      ∃ v, db.opens.lookup m = some v ∧ v.label = t'.label := by
    obtain ⟨rfl, rfl⟩ | ⟨-, hold⟩ := lookup_insert _ ht'
    · exact ⟨t, ht, hu.symm⟩
    · exact ⟨t', hold, rfl⟩
  unfold Database.exec at ht'
  obtain ⟨label, body, writes, locks⟩ := t
  cases body with
  | ret | raise => exact ⟨t', (lookup_erase ht').2, rfl⟩
  | scan next => exact hset ht' rfl
  | lock key next | tryLock key next | write key row next =>
    by_cases hkey : db.held n key = true
    · simp only [hkey, if_true] at ht'
      first | exact ⟨t', ht', rfl⟩ | exact hset ht' rfl
    · rw [Bool.not_eq_true] at hkey
      simp only [hkey] at ht'
      exact hset ht' rfl

/-- What is committed changes only where a transaction commits. -/
theorem store_step (db : Database ρ ε ω) (move : Move ω) :
    (db.step body move).store = ((db.commits move).map fun t => (t.at db.store).commit).getD db.store := by
  cases move with
  | start n label => by_cases hn : n ∈ db.opens <;> simp [step, commits, set, hn]
  | abort n => rfl
  | exec n =>
    cases ht : db.opens.lookup n with
    | none => simp [step, commits, ht]
    | some t =>
      simp only [step, commits, ht, Option.map_some, Option.getD_some]
      unfold exec
      obtain ⟨label, body', writes, locks⟩ := t
      cases body' with
      | ret | raise | scan => rfl
      | lock key | tryLock key | write key =>
        by_cases hkey : db.held n key = true <;> simp [hkey, set, Option.filter, Open.done]

end Database

/-- What each transaction of a kind is proved to do: it starts anywhere, obeys
the discipline, and may commit where it ends. -/
structure Discipline.Proved (D : Discipline ρ) (W : ω → Local ρ → (key : κ) → ρ key → Prop)
    (Post : ω → Local ρ → Prop) (body : ω → Tx ρ ε Unit) : Prop where
  stable : ∀ label, Stable D (Post label)
  inv : ∀ label ℓ, ℓ.Obeys D → D.Inv ℓ.committed → Post label ℓ → D.Inv ℓ.commit
  step : ∀ label ℓ, ℓ.Obeys D → D.Inv ℓ.committed → Post label ℓ → D.Step ℓ.committed ℓ.commit
  wp : ∀ label σ, D.Inv σ → Tx.wp D (W label) (body label) (fun _ => Post label) (.start σ)

/-- Every open transaction is where its proof has got to, and no two of them
have locked the same row. -/
structure Database.Sound (D : Discipline ρ) (W : ω → Local ρ → (key : κ) → ρ key → Prop)
    (Post : ω → Local ρ → Prop) (db : Database ρ ε ω) : Prop where
  inv : D.Inv db.store
  wp : ∀ n t, db.opens.lookup n = some t → Tx.wp D (W t.label) t.body (fun _ => Post t.label) (t.at db.store)
  obeys : ∀ n t, db.opens.lookup n = some t → (t.at db.store).Obeys D
  disjoint : ∀ n m t t' key, n ≠ m → db.opens.lookup n = some t → db.opens.lookup m = some t' →
    key ∈ t.locks → key ∉ t'.locks

namespace Database.Sound

variable {D : Discipline ρ} {W : ω → Local ρ → (key : κ) → ρ key → Prop} {Post : ω → Local ρ → Prop}
  {db : Database ρ ε ω} {n : Nat} {t : Open ρ ε ω}

theorem idle {σ : Store ρ} (hinv : D.Inv σ) : (Database.idle σ : Database ρ ε ω).Sound D W Post where
  inv := hinv
  wp n t ht := by cases ht
  obeys n t ht := by cases ht
  disjoint n m t t' key _ ht := by cases ht

theorem close (h : db.Sound D W Post) (n : Nat) : (db.close n).Sound D W Post where
  inv := h.inv
  wp m t ht := h.wp m t (lookup_erase ht).2
  obeys m t ht := h.obeys m t (lookup_erase ht).2
  disjoint m m' t t' key hne ht ht' := h.disjoint m m' t t' key hne (lookup_erase ht).2 (lookup_erase ht').2

/-- One of the transactions has moved, to a place its proof covers. -/
theorem set (h : db.Sound D W Post) (hwp : Tx.wp D (W t.label) t.body (fun _ => Post t.label) (t.at db.store))
    (hobeys : (t.at db.store).Obeys D) (hlocks : ∀ key ∈ t.locks, db.held n key = false) :
    (db.set n t).Sound D W Post := by
  constructor
  · exact h.inv
  · intro m t' ht'
    obtain ⟨-, rfl⟩ | ⟨-, ht'⟩ := lookup_insert _ ht'
    · exact hwp
    · exact h.wp m t' ht'
  · intro m t' ht'
    obtain ⟨-, rfl⟩ | ⟨-, ht'⟩ := lookup_insert _ ht'
    · exact hobeys
    · exact h.obeys m t' ht'
  · intro m m' t' t'' key hne ht' ht'' hkey hkey'
    obtain ⟨rfl, rfl⟩ | ⟨hm, hold⟩ := lookup_insert _ ht' <;> obtain ⟨rfl, rfl⟩ | ⟨hm', hold'⟩ := lookup_insert _ ht''
    · exact hne rfl
    · exact held_eq_false.mp (hlocks key hkey) m' t'' hm' hold' hkey'
    · exact held_eq_false.mp (hlocks key hkey') m t' hm hold hkey
    · exact h.disjoint m m' t' t'' key hne hold hold' hkey hkey'

/-- A transaction that commits has reached the end of its proof. -/
theorem commits {move : Move ω} (h : db.Sound D W Post) (ht : db.commits move = some t) :
    Post t.label (t.at db.store) ∧ (t.at db.store).Obeys D := by
  cases move with
  | start | abort => cases ht
  | exec n =>
    obtain ⟨ht, hbody⟩ := Option.filter_eq_some_iff.mp ht
    obtain ⟨label, body', writes, locks⟩ := t
    cases body' with
    | ret value => exact ⟨h.wp n _ ht, h.obeys n _ ht⟩
    | raise | scan | lock | tryLock | write => cases hbody

theorem not_held (h : db.Sound D W Post) (ht : db.opens.lookup n = some t) {key : κ} (hkey : key ∈ t.locks) :
    db.held n key = false :=
  held_eq_false.mpr fun m t' hm ht' hkey' => h.disjoint n m t t' key hm.symm ht ht' hkey hkey'

/-- A commit is something that every other transaction relies on. -/
theorem rely (h : db.Sound D W Post) (ht : db.opens.lookup n = some t)
    (hinv : D.Inv (t.at db.store).commit) (hstep : D.Step db.store (t.at db.store).commit) {m : Nat}
    {t' : Open ρ ε ω} (hm : m ≠ n) (ht' : db.opens.lookup m = some t') :
    Rely D (t'.at db.store) (t'.at (t.at db.store).commit) := by
  have hkept (key : κ) (hkey : key ∈ t'.locks) :
      (t.at db.store).commit.lookup key = db.store.lookup key := by
    have hwrites : t.writes.lookup key = none := by
      by_contra hrow
      obtain ⟨row, hrow⟩ := Option.ne_none_iff_exists'.mp hrow
      exact h.disjoint n m t t' key hm.symm ht ht' (h.obeys n t ht key row hrow).1 hkey
    simp [Local.lookup, Open.at, hwrites]
  refine ⟨rfl, rfl, hinv, hstep, ?_, hkept, ?_⟩
  · intro key row hrow
    obtain ⟨hkey, hchange⟩ := h.obeys m t' ht' key row hrow
    refine ⟨hkey, hchange.imp_right fun hfree => ?_⟩
    exact (hkept key hkey).symm ▸ hfree
  · intro key hroot
    change D.Free key (db.store.lookup key) ((t.at db.store).commit.lookup key)
    rw [Local.lookup_commit]
    cases hrow : t.writes.lookup key with
    | none => simpa [Local.lookup, Open.at, hrow] using D.free_refl key _
    | some row =>
      obtain ⟨-, hroot' | hfree⟩ := h.obeys n t ht key row hrow
      · exact absurd hroot (h.disjoint n m t t' _ hm.symm ht ht' hroot')
      · simpa [Local.lookup, Open.at, hrow] using hfree

variable {body : ω → Tx ρ ε Unit}

/-- A transaction commits. -/
theorem committed (hD : D.Proved W Post body) (h : db.Sound D W Post) (ht : db.opens.lookup n = some t)
    (hpost : Post t.label (t.at db.store)) :
    Database.Sound D W Post { (db.close n) with store := (t.at db.store).commit } ∧
      D.Step db.store (t.at db.store).commit := by
  have hinv := hD.inv t.label _ (h.obeys n t ht) h.inv hpost
  have hstep := hD.step t.label _ (h.obeys n t ht) h.inv hpost
  have hothers {m : Nat} {t' : Open ρ ε ω} (ht' : (db.opens.erase n).lookup m = some t') :
      db.opens.lookup m = some t' ∧ Rely D (t'.at db.store) (t'.at (t.at db.store).commit) :=
    ⟨(lookup_erase ht').2, h.rely ht hinv hstep (lookup_erase ht').1 (lookup_erase ht').2⟩
  refine ⟨⟨hinv, ?_, ?_, (h.close n).disjoint⟩, hstep⟩
  · intro m t' ht'
    obtain ⟨ht', hrely⟩ := hothers ht'
    exact Tx.wp_stable (fun _ => hD.stable t'.label) t'.body _ _ hrely (h.wp m t' ht')
  · intro m t' ht'
    exact (hothers ht').2.obeys

theorem exec (hD : D.Proved W Post body) (h : db.Sound D W Post) (ht : db.opens.lookup n = some t)
    (hwrites : ∀ key row next, t.body = .write key row next → db.held n key = false →
      W t.label (t.at db.store) key row) :
    (db.exec n t).Sound D W Post ∧ D.Step db.store (db.exec n t).store := by
  have hwp := h.wp n t ht
  have hobeys := h.obeys n t ht
  have hrefl : Rely D (t.at db.store) (t.at db.store) := .refl h.inv hobeys
  have hold {key : κ} (hkey : db.held n key = false) : ∀ key' ∈ key :: t.locks, db.held n key' = false := by
    intro key' hmem
    obtain rfl | hmem := List.mem_cons.mp hmem
    · exact hkey
    · exact h.not_held ht hmem
  have hobeys_hold (key : κ) : ((t.at db.store).hold key).Obeys D := fun key' row hrow =>
    ⟨List.mem_cons_of_mem _ (hobeys key' row hrow).1,
      (hobeys key' row hrow).2.imp_left (List.mem_cons_of_mem _)⟩
  unfold Database.exec
  obtain ⟨label, body', writes, locks⟩ := t
  cases body' with
  | ret => exact h.committed hD ht hwp
  | raise => exact ⟨h.close n, D.step_refl _⟩
  | scan next =>
    exact ⟨h.set (hwp _ hrefl _ (Local.lookup_commit _)) hobeys fun key => h.not_held ht, D.step_refl _⟩
  | lock key next =>
    by_cases hkey : db.held n key = true
    · simp only [hkey]
      exact ⟨h, D.step_refl _⟩
    · simp only [hkey]
      exact ⟨h.set (hwp _ hrefl) (hobeys_hold key) (hold (by simpa using hkey)), D.step_refl _⟩
  | tryLock key next =>
    by_cases hkey : db.held n key = true
    · simp only [hkey]
      exact ⟨h.set (hwp _ hrefl).1 hobeys fun key => h.not_held ht, D.step_refl _⟩
    · simp only [hkey]
      exact ⟨h.set (hwp _ hrefl).2 (hobeys_hold key) (hold (by simpa using hkey)), D.step_refl _⟩
  | write key row next =>
    by_cases hkey : db.held n key = true
    · simp only [hkey]
      exact ⟨h, D.step_refl _⟩
    · simp only [hkey]
      obtain ⟨hchange, hnext⟩ := hwp _ hrefl (hwrites key row next rfl (by simpa using hkey))
      refine ⟨h.set hnext ?_ (hold (by simpa using hkey)), D.step_refl _⟩
      intro key' row' hrow'
      by_cases hkey' : key' = key
      · subst hkey'
        obtain rfl : row = row' := by simpa [Open.at] using hrow'
        exact ⟨List.mem_cons_self, hchange⟩
      · have hrow' : writes.lookup key' = some row' := by
          simpa [Open.at, AList.lookup_insert_ne hkey'] using hrow'
        exact hobeys_hold key key' row' hrow'

theorem step (hD : D.Proved W Post body) (h : db.Sound D W Post) {move : Move ω}
    (hwrites : db.Writes W move) :
    (db.step body move).Sound D W Post ∧ D.Step db.store (db.step body move).store := by
  cases move with
  | start n label =>
    unfold Database.step
    by_cases hn : n ∈ db.opens
    · simp only [hn, if_true]
      exact ⟨h, D.step_refl _⟩
    · simp only [hn, if_false]
      refine ⟨h.set (hD.wp label db.store h.inv) ?_ ?_, D.step_refl _⟩
      · intro key row hrow
        cases hrow
      · intro key hkey
        cases hkey
  | exec n =>
    cases ht : db.opens.lookup n with
    | none =>
      simp only [Database.step, ht, Option.map_none, Option.getD_none]
      exact ⟨h, D.step_refl _⟩
    | some t =>
      simp only [Database.step, ht, Option.map_some, Option.getD_some]
      exact h.exec hD ht fun key row next => hwrites n t key row next rfl ht
  | abort n => exact ⟨h.close n, D.step_refl _⟩

end Database.Sound

namespace Discipline.Proved

variable {D : Discipline ρ} {W : ω → Local ρ → (key : κ) → ρ key → Prop} {Post : ω → Local ρ → Prop}
  {body : ω → Tx ρ ε Unit} {db : Database ρ ε ω} {moves : List (Move ω)}

/-- However the statements of any number of transactions interleave, the
invariant holds of what is committed. -/
theorem sound (hD : D.Proved W Post body) (hdb : db.Sound D W Post)
    (hwrites : machine.Always (Database.step body) (Database.Writes W) db moves) :
    (machine.run (Database.step body) db moves).Sound D W Post :=
  machine.run_invariant_along hdb (fun _ _ h hop => (h.step hD hop).1) hwrites

/-- The rows committed later are related to those committed now. -/
theorem step_run (hD : D.Proved W Post body) (hdb : db.Sound D W Post)
    (hwrites : machine.Always (Database.step body) (Database.Writes W) db moves) :
    D.Step db.store (machine.run (Database.step body) db moves).store := by
  refine (machine.run_invariant_along (I := fun db' => db'.Sound D W Post ∧ D.Step db.store db'.store)
    ⟨hdb, D.step_refl _⟩ ?_ hwrites).2
  rintro db' move ⟨hdb', hstep⟩ hmove
  obtain ⟨hdb'', hstep'⟩ := hdb'.step hD hmove
  exact ⟨hdb'', D.step_trans _ _ _ hstep hstep'⟩

end Discipline.Proved

end sql
