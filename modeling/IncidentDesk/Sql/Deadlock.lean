import IncidentDesk.Sql.Locking

namespace sql

variable {κ : Type} [DecidableEq κ] {ρ : κ → Type} {ε ω π : Type}

/-- The row that a transaction asks to lock next, if it would wait for it. -/
def Open.awaits (t : Open ρ ε ω) : Option κ :=
  match t.body with
  | .lock key _ | .write key _ _ => some key
  | _ => none

namespace Database

/-- The transaction on connection `n` waits for a row that the one on `m` has locked. -/
def Waits (db : Database ρ ε ω) (n m : Nat) (key : κ) : Prop :=
  n ≠ m ∧ ∃ t t', db.opens.lookup n = some t ∧ t.awaits = some key ∧ db.opens.lookup m = some t' ∧ key ∈ t'.locks

/-- There is a cycle of transactions, each waiting for a row of the territory
that the next one has locked. -/
def Deadlocked (T : Territory κ π) (db : Database ρ ε ω) : Prop :=
  ∃ n, Relation.TransGen (fun n m => ∃ key, (T.part key).isSome = true ∧ db.Waits n m key) n n

/-- A transaction is started only while none is open that it is at odds with. -/
def Starts (R : ω → ω → Prop) (db : Database ρ ε ω) (move : Move ω) : Prop :=
  ∀ n label, move = .start n label → n ∉ db.opens → ∀ m t, db.opens.lookup m = some t → ¬ R label t.label

/-- Every open transaction locks rows in its order, and no two have locked the same. -/
structure Orderly (T : Territory κ π) (I : (key : κ) → Option (ρ key) → Prop) (O : ω → LockOrder π)
    (db : Database ρ ε ω) : Prop where
  rows : ∀ key, I key (db.store.lookup key)
  writes : ∀ n t, db.opens.lookup n = some t → ∀ key row, t.writes.lookup key = some row → I key (some row)
  acquires : ∀ n t, db.opens.lookup n = some t →
    Tx.acquires I ((O t.label).Allows T) t.body (fun _ _ => True) t.locks
  disjoint : ∀ n m t t' key, n ≠ m → db.opens.lookup n = some t → db.opens.lookup m = some t' →
    key ∈ t.locks → key ∉ t'.locks

namespace Orderly

variable {T : Territory κ π} {I : (key : κ) → Option (ρ key) → Prop} {O : ω → LockOrder π} {db : Database ρ ε ω}
  {n : Nat} {t : Open ρ ε ω}

theorem idle {σ : Store ρ} (h : ∀ key, I key (σ.lookup key)) : (Database.idle σ : Database ρ ε ω).Orderly T I O where
  rows := h
  writes n t ht := by cases ht
  acquires n t ht := by cases ht
  disjoint n m t t' key _ ht := by cases ht

theorem lookup_at (h : db.Orderly T I O) (ht : ∀ key row, t.writes.lookup key = some row → I key (some row)) (key : κ) :
    I key ((t.at db.store).lookup key) := by
  unfold Local.lookup Open.at
  cases hrow : t.writes.lookup key with
  | none => exact h.rows key
  | some row => exact ht key row hrow

theorem close (h : db.Orderly T I O) (n : Nat) : (db.close n).Orderly T I O where
  rows := h.rows
  writes m t ht := h.writes m t (lookup_erase ht).2
  acquires m t ht := h.acquires m t (lookup_erase ht).2
  disjoint m m' t t' key hne ht ht' := h.disjoint m m' t t' key hne (lookup_erase ht).2 (lookup_erase ht').2

theorem committed (h : db.Orderly T I O) (ht : db.opens.lookup n = some t) :
    Orderly T I O { (db.close n) with store := (t.at db.store).commit } where
  rows key := by
    rw [Local.lookup_commit]
    exact h.lookup_at (h.writes n t ht) key
  writes := (h.close n).writes
  acquires := (h.close n).acquires
  disjoint := (h.close n).disjoint

/-- One of the transactions has moved on. -/
theorem set (h : db.Orderly T I O) (hwrites : ∀ key row, t.writes.lookup key = some row → I key (some row))
    (hacquires : Tx.acquires I ((O t.label).Allows T) t.body (fun _ _ => True) t.locks)
    (hlocks : ∀ key ∈ t.locks, db.held n key = false) : (db.set n t).Orderly T I O := by
  constructor
  · exact h.rows
  · intro m t' ht'
    obtain ⟨-, rfl⟩ | ⟨-, ht'⟩ := lookup_insert _ ht'
    · exact hwrites
    · exact h.writes m t' ht'
  · intro m t' ht'
    obtain ⟨-, rfl⟩ | ⟨-, ht'⟩ := lookup_insert _ ht'
    · exact hacquires
    · exact h.acquires m t' ht'
  · intro m m' t' t'' key hne ht' ht'' hkey hkey'
    obtain ⟨rfl, rfl⟩ | ⟨hm, hold⟩ := lookup_insert _ ht' <;> obtain ⟨rfl, rfl⟩ | ⟨hm', hold'⟩ := lookup_insert _ ht''
    · exact hne rfl
    · exact held_eq_false.mp (hlocks key hkey) m' t'' hm' hold' hkey'
    · exact held_eq_false.mp (hlocks key hkey') m t' hm hold hkey
    · exact h.disjoint m m' t' t'' key hne hold hold' hkey hkey'

theorem exec (h : db.Orderly T I O) (ht : db.opens.lookup n = some t) : (db.exec n t).Orderly T I O := by
  have hwrites := h.writes n t ht
  have hacquires := h.acquires n t ht
  have hlookup := h.lookup_at hwrites
  have hheld (key : κ) (hkey : key ∈ t.locks) : db.held n key = false :=
    held_eq_false.mpr fun m t' hm ht' hkey' => h.disjoint n m t t' key hm.symm ht ht' hkey hkey'
  have hcons {key : κ} (hkey : db.held n key = false) : ∀ key' ∈ key :: t.locks, db.held n key' = false := by
    intro key' hmem
    obtain rfl | hmem := List.mem_cons.mp hmem
    · exact hkey
    · exact hheld key' hmem
  unfold Database.exec
  obtain ⟨label, body, writes, locks⟩ := t
  cases body with
  | ret => exact h.committed ht
  | raise => exact h.close n
  | scan next => exact h.set hwrites (hacquires _ fun key => by rw [Local.lookup_commit]; exact hlookup key) hheld
  | lock key next =>
    by_cases hkey : db.held n key = true
    · simpa only [hkey, if_true] using h
    · rw [Bool.not_eq_true] at hkey
      simp only [hkey]
      exact h.set hwrites (hacquires.2 _ (hlookup key)) (hcons hkey)
  | tryLock key next =>
    by_cases hkey : db.held n key = true
    · simp only [hkey, if_true]
      exact h.set hwrites hacquires.1 hheld
    · rw [Bool.not_eq_true] at hkey
      simp only [hkey]
      exact h.set hwrites (hacquires.2 _ (hlookup key)) (hcons hkey)
  | write key row next =>
    by_cases hkey : db.held n key = true
    · simpa only [hkey, if_true] using h
    · rw [Bool.not_eq_true] at hkey
      simp only [hkey]
      refine h.set (fun key' row' hrow' => ?_) hacquires.2.2 (hcons hkey)
      by_cases hne : key' = key
      · subst hne
        obtain rfl : row = row' := by simpa using hrow'
        exact hacquires.2.1
      · exact hwrites key' row' (by simpa [AList.lookup_insert_ne hne] using hrow')

variable {body : ω → Tx ρ ε Unit}

theorem step (hbody : ∀ label, Tx.acquires I ((O label).Allows T) (body label) (fun _ _ => True) [])
    (h : db.Orderly T I O) (move : Move ω) : (db.step body move).Orderly T I O := by
  cases move with
  | start n label =>
    unfold Database.step
    by_cases hn : n ∈ db.opens
    · simpa only [hn, if_true] using h
    · simp only [hn, if_false]
      refine h.set (fun key row hrow => ?_) (hbody label) fun key hkey => ?_
      · cases hrow
      · cases hkey
  | exec n =>
    cases ht : db.opens.lookup n with
    | none => simpa only [Database.step, ht, Option.map_none, Option.getD_none] using h
    | some t =>
      simp only [Database.step, ht, Option.map_some, Option.getD_some]
      exact h.exec ht
  | abort n => exact h.close n

/-- A transaction that waits does so in its order. -/
theorem allows (h : db.Orderly T I O) {m : Nat} {key : κ} (hwaits : db.Waits n m key)
    (ht : db.opens.lookup n = some t) : t.awaits = some key ∧ (O t.label).Allows T t.locks key := by
  obtain ⟨hne, t₁, t', ht₁, hawaits, ht', hkey⟩ := hwaits
  obtain rfl : t = t₁ := Option.some.inj (ht.symm.trans ht₁)
  have hown : key ∉ t.locks := fun hown => h.disjoint n m t t' key hne ht ht' hown hkey
  refine ⟨hawaits, ?_⟩
  have hacquires := h.acquires n t ht
  obtain ⟨label, body, writes, locks⟩ := t
  cases body with
  | lock | write =>
    obtain rfl := Option.some.inj hawaits
    exact hacquires.1.resolve_left hown
  | ret | raise | scan | tryLock => cases hawaits

end Orderly

/-- A transaction that holds a row of the territory under one name and waits for
one under another. -/
def Link (T : Territory κ π) (db : Database ρ ε ω) (n : Nat) (p q : π) : Prop :=
  ∃ t held key, db.opens.lookup n = some t ∧ held ∈ t.locks ∧ T.part held = some p ∧
    t.awaits = some key ∧ T.part key = some q

omit [DecidableEq κ] in
/-- What a cycle would have to be made of: each of its transactions waits for
what the next one holds, and holds what the one before it waits for. -/
theorem Deadlocked.links {T : Territory κ π} {db : Database ρ ε ω} (h : db.Deadlocked T) :
    ∃ C : Nat → π → π → Prop, (∃ n p q, C n p q) ∧
      ∀ n p q, C n p q → db.Link T n p q ∧ (∃ key m, T.part key = some q ∧ db.Waits n m key) ∧
        (∃ m r, C m q r) ∧ ∃ m o, C m o p := by
  obtain ⟨n₀, hcycle⟩ := h
  let R (n m : Nat) : Prop := ∃ key, (T.part key).isSome = true ∧ db.Waits n m key
  let Within (n : Nat) : Prop := Relation.TransGen R n₀ n ∧ Relation.TransGen R n n₀
  have hnext {n : Nat} (hn : Within n) : ∃ m, R n m ∧ Within m := by
    obtain ⟨m, hR, hback⟩ := Relation.TransGen.head'_iff.mp hn.2
    refine ⟨m, hR, hn.1.tail hR, ?_⟩
    obtain rfl | hback := Relation.reflTransGen_iff_eq_or_transGen.mp hback
    · exact hcycle
    · exact hback
  have hprev {n : Nat} (hn : Within n) : ∃ l, R l n ∧ Within l := by
    obtain ⟨l, hforth, hR⟩ := Relation.TransGen.tail'_iff.mp hn.1
    refine ⟨l, hR, ?_, .head hR hn.2⟩
    obtain rfl | hforth := Relation.reflTransGen_iff_eq_or_transGen.mp hforth
    · exact hcycle
    · exact hforth
  have hpart {key : κ} (hkey : (T.part key).isSome = true) : ∃ p, T.part key = some p := Option.isSome_iff_exists.mp hkey
  refine ⟨fun n p q => ∃ l m held key, Within l ∧ Within n ∧ Within m ∧ T.part held = some p ∧ T.part key = some q ∧
    db.Waits l n held ∧ db.Waits n m key, ?_, ?_⟩
  · obtain ⟨l, ⟨held, hheld, hl⟩, hwl⟩ := hprev ⟨hcycle, hcycle⟩
    obtain ⟨m, ⟨key, hkey, hm⟩, hwm⟩ := hnext ⟨hcycle, hcycle⟩
    obtain ⟨p, hp⟩ := hpart hheld
    obtain ⟨q, hq⟩ := hpart hkey
    exact ⟨n₀, p, q, l, m, held, key, hwl, ⟨hcycle, hcycle⟩, hwm, hp, hq, hl, hm⟩
  · rintro n p q ⟨l, m, held, key, hwl, hwn, hwm, hp, hq, hl, hm⟩
    refine ⟨?_, ⟨key, m, hq, hm⟩, ?_, ?_⟩
    · obtain ⟨-, -, t, -, -, ht, hheld⟩ := hl
      obtain ⟨-, t', -, ht', hawaits, -, -⟩ := hm
      obtain rfl : t = t' := Option.some.inj (ht.symm.trans ht')
      exact ⟨t, held, key, ht, hheld, hp, hawaits, hq⟩
    · obtain ⟨o, ⟨key', hkey', ho⟩, hwo⟩ := hnext hwm
      obtain ⟨r, hr⟩ := hpart hkey'
      exact ⟨m, r, n, o, key, key', hwn, hwm, hwo, hq, hr, hm, ho⟩
    · obtain ⟨o, ⟨key', hkey', ho⟩, hwo⟩ := hprev hwl
      obtain ⟨r, hr⟩ := hpart hkey'
      exact ⟨l, r, o, n, key', held, hwo, hwl, hwn, hr, hp, ho, hl⟩

/-- Of the transactions that are open together none are at odds, when none was
started beside one that it is at odds with. -/
theorem apart {R : ω → ω → Prop} (hR : ∀ label label', R label label' → R label' label) {body : ω → Tx ρ ε Unit}
    {σ : Store ρ} {moves : List (Move ω)}
    (h : machine.Always (Database.step body) (Database.Starts R) (Database.idle σ) moves) {n m : Nat}
    {t t' : Open ρ ε ω} (hne : n ≠ m)
    (ht : (machine.run (Database.step body) (Database.idle σ) moves).opens.lookup n = some t)
    (ht' : (machine.run (Database.step body) (Database.idle σ) moves).opens.lookup m = some t') :
    ¬ R t.label t'.label := by
  let Apart (db : Database ρ ε ω) : Prop :=
    ∀ n m t t', n ≠ m → db.opens.lookup n = some t → db.opens.lookup m = some t' → ¬ R t.label t'.label
  refine (machine.run_invariant_along (I := Apart) ?_ ?_ h) n m t t' hne ht ht'
  · intro n m t t' _ ht
    cases ht
  · intro db move hdb hmove
    cases move with
    | start n label =>
      unfold Database.step
      by_cases hn : n ∈ db.opens
      · simpa only [hn, if_true] using hdb
      · simp only [hn, if_false]
        intro m m' t t' hne ht ht'
        have hfree {m : Nat} {t : Open ρ ε ω} (ht : db.opens.lookup m = some t) : ¬ R label t.label :=
          hmove n label rfl hn m t ht
        obtain ⟨rfl, rfl⟩ | ⟨-, hold⟩ := lookup_insert _ ht <;> obtain ⟨rfl, rfl⟩ | ⟨-, hold'⟩ := lookup_insert _ ht'
        · exact absurd rfl hne
        · exact hfree hold'
        · exact fun hopposed => hfree hold (hR _ _ hopposed)
        · exact hdb m m' t t' hne hold hold'
    | exec n =>
      cases hn : db.opens.lookup n with
      | none => simpa only [Database.step, hn, Option.map_none, Option.getD_none] using hdb
      | some t₀ =>
        simp only [Database.step, hn, Option.map_some, Option.getD_some]
        have hlabel {m : Nat} {t : Open ρ ε ω} (ht : (db.exec n t₀).opens.lookup m = some t) :
            ∃ t', db.opens.lookup m = some t' ∧ t'.label = t.label := exec_label hn ht
        intro m m' t t' hne ht ht'
        obtain ⟨u, hu, hlu⟩ := hlabel ht
        obtain ⟨u', hu', hlu'⟩ := hlabel ht'
        rw [← hlu, ← hlu']
        exact hdb m m' u u' hne hu hu'
    | abort n => exact fun m m' t t' hne ht ht' => hdb m m' t t' hne (lookup_erase ht).2 (lookup_erase ht').2

end Database

end sql
