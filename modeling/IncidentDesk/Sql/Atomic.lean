import IncidentDesk.Sql.Statement

namespace sql.Tx

variable {κ : Type} [DecidableEq κ] {ρ : κ → Type} {ε α β : Type}

/-- A transaction executed with no other transaction between its statements.
`skip` are the rows another transaction has locked at that time, as far as a
`skip locked` clause can tell. -/
def run (skip : κ → Bool) : Tx ρ ε α → Store ρ → Except ε (α × Store ρ)
  | ret value, σ => .ok (value, σ)
  | raise error, _ => .error error
  | scan next, σ => run skip (next σ) σ
  | lock key next, σ => run skip (next (σ.lookup key)) σ
  | tryLock key next, σ => run skip (next (if skip key then none else some (σ.lookup key))) σ
  | write key row next, σ => run skip next (σ.insert key row)

variable (skip : κ → Bool)

@[simp] theorem run_ret (value : α) (σ : Store ρ) :
    run skip (ret value : Tx ρ ε α) σ = .ok (value, σ) := rfl

@[simp] theorem run_raise (error : ε) (σ : Store ρ) :
    run skip (raise error : Tx ρ ε α) σ = .error error := rfl

theorem run_bind (body : Tx ρ ε α) (f : α → Tx ρ ε β) (σ : Store ρ) :
    run skip (body >>= f) σ =
      match run skip body σ with
      | .ok (value, σ') => run skip (f value) σ'
      | .error error => .error error := by
  induction body generalizing σ with
  | ret | raise => rfl
  | scan next ih => exact ih σ σ
  | lock key next ih => exact ih (σ.lookup key) σ
  | tryLock key next ih => exact ih _ σ
  | write key row next ih => exact ih (σ.insert key row)

/-- A body whose result is known can be replaced by it. -/
theorem run_bind_of_ok {body : Tx ρ ε α} {σ σ' : Store ρ} {value : α}
    (h : run skip body σ = .ok (value, σ')) (f : α → Tx ρ ε β) :
    run skip (body >>= f) σ = run skip (f value) σ' := by
  rw [run_bind, h]

theorem run_bind_of_error {body : Tx ρ ε α} {σ : Store ρ} {error : ε}
    (h : run skip body σ = .error error) (f : α → Tx ρ ε β) :
    run skip (body >>= f) σ = .error error := by
  rw [run_bind, h]

/-- An error that no part raises is not raised. -/
theorem run_bind_ne_error {body : Tx ρ ε α} {f : α → Tx ρ ε β} {σ : Store ρ} {error : ε}
    (h : run skip body σ ≠ .error error)
    (hf : ∀ value σ', run skip body σ = .ok (value, σ') → run skip (f value) σ' ≠ .error error) :
    run skip (body >>= f) σ ≠ .error error := by
  rw [run_bind]
  cases hbody : run skip body σ with
  | ok result => exact hf result.1 result.2 hbody
  | error error' =>
    rintro ⟨⟩
    exact h hbody

theorem run_snapshot (σ : Store ρ) :
    run skip (snapshot : Tx ρ ε (Store ρ)) σ = .ok (σ, σ) := rfl

theorem run_lockRow (key : κ) (σ : Store ρ) :
    run skip (lockRow key : Tx ρ ε _) σ = .ok (σ.lookup key, σ) := rfl

theorem run_tryLockRow (key : κ) (σ : Store ρ) :
    run skip (tryLockRow key : Tx ρ ε _) σ =
      .ok (if skip key then none else some (σ.lookup key), σ) := rfl

theorem run_writeRow (key : κ) (row : ρ key) (σ : Store ρ) :
    run skip (writeRow key row : Tx ρ ε Unit) σ = .ok ((), σ.insert key row) := rfl

theorem run_require (found : Option α) (error : ε) (σ : Store ρ) :
    run skip (require found error : Tx ρ ε α) σ =
      match found with
      | some value => .ok (value, σ)
      | none => .error error := by
  cases found <;> rfl

theorem run_ofExcept (result : Except ε α) (σ : Store ρ) :
    run skip (ofExcept result : Tx ρ ε α) σ =
      match result with
      | .ok value => .ok (value, σ)
      | .error error => .error error := by
  cases result <;> rfl

theorem run_refuse (condition : Prop) [Decidable condition] (error : ε) (σ : Store ρ) :
    run skip (refuse condition error : Tx ρ ε Unit) σ =
      if condition then .error error else .ok ((), σ) := by
  unfold refuse
  split <;> rfl

theorem run_selectForUpdate (key : κ) (σ : Store ρ) :
    run skip (selectForUpdate key : Tx ρ ε _) σ = .ok ((σ, σ.lookup key), σ) := by
  unfold selectForUpdate
  rw [run_bind_of_ok skip (run_snapshot skip σ)]
  cases hrow : σ.lookup key with
  | none => rfl
  | some row =>
    rw [run_bind_of_ok skip (run_lockRow skip key σ), hrow]
    rfl

theorem run_insert (key : κ) (row : ρ key) (duplicate : ε) (σ : Store ρ) :
    run skip (insert key row duplicate : Tx ρ ε Unit) σ =
      if (σ.lookup key).isSome then .error duplicate else .ok ((), σ.insert key row) := by
  unfold insert
  rw [run_bind_of_ok skip (run_lockRow skip key σ), run_bind, run_refuse]
  cases σ.lookup key <;> simp [run_writeRow]

theorem run_upsert (key : κ) (fresh : ρ key) (merge : ρ key → ρ key) (σ : Store ρ) :
    run skip (upsert key fresh merge : Tx ρ ε _) σ =
      .ok (((σ.lookup key).map merge).getD fresh,
        σ.insert key (((σ.lookup key).map merge).getD fresh)) := rfl

theorem run_updateOne (key : κ) (p : ρ key → Bool) (f : Store ρ → ρ key → ρ key)
    (σ : Store ρ) :
    run skip (updateOne key p f : Tx ρ ε _) σ =
      .ok (((σ.lookup key).filter p).map (f σ), σ.updateOne key p (f σ)) := by
  unfold updateOne Store.updateOne
  rw [run_bind_of_ok skip (run_snapshot skip σ)]
  cases hrow : σ.lookup key with
  | none => rfl
  | some row =>
    by_cases hp : p row
    · simp only [Option.filter, hp, if_true]
      rw [run_bind_of_ok skip (run_lockRow skip key σ), hrow]
      simp only [hp, if_true]
      rw [run_bind_of_ok skip (run_writeRow skip key _ σ)]
      rfl
    · simp [Option.filter, hp]

private theorem run_updateEach (p : (key : κ) → ρ key → Bool) (f : (key : κ) → ρ key → ρ key) :
    ∀ (es : List (Sigma ρ)) (σ : Store ρ), es.NodupKeys →
      (∀ e ∈ es, σ.lookup e.1 = some e.2 ∧ p e.1 e.2 = true) →
      run skip (updateEach p f (es.map Sigma.fst) : Tx ρ ε _) σ =
        .ok (es.map fun e => ⟨e.1, f e.1 e.2⟩, es.foldl (fun acc e => acc.insert e.1 (f e.1 e.2)) σ)
  | [], _, _, _ => rfl
  | ⟨key, row⟩ :: es, σ, hnodup, hes => by
    rw [List.nodupKeys_cons] at hnodup
    obtain ⟨hrow, hp⟩ := hes ⟨key, row⟩ List.mem_cons_self
    rw [List.map_cons, updateEach, run_bind_of_ok skip (run_lockRow skip key σ), hrow]
    simp only [Option.filter, hp, if_true]
    rw [run_bind_of_ok skip (run_writeRow skip key _ σ)]
    -- the remaining rows have other keys, so this write leaves them as the snapshot saw them
    have hrest : ∀ e ∈ es, (σ.insert key (f key row)).lookup e.1 = some e.2 ∧ p e.1 e.2 = true := by
      intro e he
      have hne : e.1 ≠ key := by
        rintro rfl
        exact hnodup.1 (List.mem_keys.mpr ⟨e.2, he⟩)
      rw [AList.lookup_insert_ne hne]
      exact hes e (List.mem_cons_of_mem _ he)
    rw [run_bind_of_ok skip (run_updateEach p f es _ hnodup.2 hrest)]
    rfl

theorem run_updateAll (p : Store ρ → (key : κ) → ρ key → Bool)
    (f : Store ρ → (key : κ) → ρ key → ρ key) (σ : Store ρ) :
    run skip (updateAll p f : Tx ρ ε _) σ =
      .ok ((σ.select (p σ)).map fun e => ⟨e.1, f σ e.1 e.2⟩, σ.updateRows (p σ) (f σ)) := by
  unfold updateAll
  rw [run_bind_of_ok skip (run_snapshot skip σ)]
  exact run_updateEach skip (p σ) (f σ) _ σ (Store.select_nodupKeys _ σ)
    fun e he => Store.mem_select.mp he

/-- Inserting several rows adds them all, unless one of them is a duplicate. -/
theorem run_insertEach (duplicate : ε) : ∀ (es : List (Sigma ρ)) (σ : Store ρ),
    run skip (insertEach duplicate es : Tx ρ ε Unit) σ = .error duplicate ∨
      run skip (insertEach duplicate es : Tx ρ ε Unit) σ = .ok ((), σ.insertRows es)
  | [], σ => .inr rfl
  | ⟨key, row⟩ :: es, σ => by
    rw [insertEach, run_bind, run_insert]
    by_cases hrow : (σ.lookup key).isSome
    · exact .inl (by simp [hrow])
    · simpa [hrow, Store.insertRows] using run_insertEach duplicate es (σ.insert key row)

/-- The postcondition of a committed body: whenever it does not raise, its value
and the rows it leaves satisfy `Q`. -/
def Ensures (body : Tx ρ ε α) (σ : Store ρ) (Q : α → Store ρ → Prop) : Prop :=
  ∀ value σ', run skip body σ = .ok (value, σ') → Q value σ'

section Rules

variable {σ : Store ρ}

theorem Ensures.mono {body : Tx ρ ε α} {Q Q' : α → Store ρ → Prop}
    (h : Ensures skip body σ Q) (himp : ∀ value σ', Q value σ' → Q' value σ') :
    Ensures skip body σ Q' :=
  fun value σ' hrun => himp value σ' (h value σ' hrun)

@[simp] theorem ensures_bind {body : Tx ρ ε α} {f : α → Tx ρ ε β} {Q : β → Store ρ → Prop} :
    Ensures skip (body >>= f) σ Q ↔
      Ensures skip body σ fun value σ' => Ensures skip (f value) σ' Q := by
  unfold Ensures
  rw [run_bind]
  constructor
  · intro h value σ' hbody result σ'' hf
    exact h result σ'' (by rw [hbody]; exact hf)
  · intro h result σ'' hrun
    cases hbody : run skip body σ with
    | error error => simp [hbody] at hrun
    | ok outcome =>
      rw [hbody] at hrun
      exact h outcome.1 outcome.2 hbody result σ'' hrun

/-- A body with a known result ensures what holds of that result. -/
theorem ensures_of_run_ok {body : Tx ρ ε α} {σ' : Store ρ} {value : α}
    (h : run skip body σ = .ok (value, σ')) {Q : α → Store ρ → Prop} :
    Ensures skip body σ Q ↔ Q value σ' := by
  unfold Ensures
  rw [h]
  constructor
  · exact fun hQ => hQ value σ' rfl
  · rintro hQ _ _ ⟨⟩
    exact hQ

@[simp] theorem ensures_ret {value : α} {Q : α → Store ρ → Prop} :
    Ensures skip (ret value : Tx ρ ε α) σ Q ↔ Q value σ :=
  ensures_of_run_ok skip rfl

@[simp] theorem ensures_raise {error : ε} {Q : α → Store ρ → Prop} :
    Ensures skip (raise error : Tx ρ ε α) σ Q := by
  intro value σ' h
  cases h

@[simp] theorem ensures_discard {body : Tx ρ ε α} {Q : Unit → Store ρ → Prop} :
    Ensures skip (discard body) σ Q ↔ Ensures skip body σ fun _ σ' => Q () σ' := by
  have hdiscard : discard body = body >>= fun _ => ret () := rfl
  rw [hdiscard, ensures_bind]
  simp

@[simp] theorem ensures_snapshot {Q : Store ρ → Store ρ → Prop} :
    Ensures skip (snapshot : Tx ρ ε _) σ Q ↔ Q σ σ :=
  ensures_of_run_ok skip (run_snapshot skip σ)

@[simp] theorem ensures_lockRow {key : κ} {Q : Option (ρ key) → Store ρ → Prop} :
    Ensures skip (lockRow key : Tx ρ ε _) σ Q ↔ Q (σ.lookup key) σ :=
  ensures_of_run_ok skip (run_lockRow skip key σ)

@[simp] theorem ensures_tryLockRow {key : κ} {Q : Option (Option (ρ key)) → Store ρ → Prop} :
    Ensures skip (tryLockRow key : Tx ρ ε _) σ Q ↔
      Q (if skip key then none else some (σ.lookup key)) σ :=
  ensures_of_run_ok skip (run_tryLockRow skip key σ)

@[simp] theorem ensures_writeRow {key : κ} {row : ρ key} {Q : Unit → Store ρ → Prop} :
    Ensures skip (writeRow key row : Tx ρ ε _) σ Q ↔ Q () (σ.insert key row) :=
  ensures_of_run_ok skip (run_writeRow skip key row σ)

@[simp] theorem ensures_require {found : Option α} {error : ε} {Q : α → Store ρ → Prop} :
    Ensures skip (require found error : Tx ρ ε _) σ Q ↔ ∀ value, found = some value → Q value σ := by
  unfold require
  cases found <;> simp

@[simp] theorem ensures_ofExcept {result : Except ε α} {Q : α → Store ρ → Prop} :
    Ensures skip (ofExcept result : Tx ρ ε _) σ Q ↔ ∀ value, result = .ok value → Q value σ := by
  unfold ofExcept
  cases result <;> simp

@[simp] theorem ensures_refuse {condition : Prop} [Decidable condition] {error : ε}
    {Q : Unit → Store ρ → Prop} :
    Ensures skip (refuse condition error : Tx ρ ε _) σ Q ↔ (¬ condition → Q () σ) := by
  unfold refuse
  by_cases h : condition <;> simp [h]

@[simp] theorem ensures_selectForUpdate {key : κ}
    {Q : Store ρ × Option (ρ key) → Store ρ → Prop} :
    Ensures skip (selectForUpdate key : Tx ρ ε _) σ Q ↔ Q (σ, σ.lookup key) σ :=
  ensures_of_run_ok skip (run_selectForUpdate skip key σ)

@[simp] theorem ensures_insert {key : κ} {row : ρ key} {duplicate : ε}
    {Q : Unit → Store ρ → Prop} :
    Ensures skip (insert key row duplicate : Tx ρ ε _) σ Q ↔
      (σ.lookup key = none → Q () (σ.insert key row)) := by
  unfold Ensures
  rw [run_insert]
  cases σ.lookup key with
  | some old => simp
  | none => simpa using ⟨fun h => h (), fun h _ => h⟩

@[simp] theorem ensures_upsert {key : κ} {fresh : ρ key} {merge : ρ key → ρ key}
    {Q : ρ key → Store ρ → Prop} :
    Ensures skip (upsert key fresh merge : Tx ρ ε _) σ Q ↔
      Q (((σ.lookup key).map merge).getD fresh)
        (σ.insert key (((σ.lookup key).map merge).getD fresh)) :=
  ensures_of_run_ok skip (run_upsert skip key fresh merge σ)

@[simp] theorem ensures_updateOne {key : κ} {p : ρ key → Bool} {f : Store ρ → ρ key → ρ key}
    {Q : Option (ρ key) → Store ρ → Prop} :
    Ensures skip (updateOne key p f : Tx ρ ε _) σ Q ↔
      Q (((σ.lookup key).filter p).map (f σ)) (σ.updateOne key p (f σ)) :=
  ensures_of_run_ok skip (run_updateOne skip key p f σ)

@[simp] theorem ensures_updateAll {p : Store ρ → (key : κ) → ρ key → Bool}
    {f : Store ρ → (key : κ) → ρ key → ρ key} {Q : List (Sigma ρ) → Store ρ → Prop} :
    Ensures skip (updateAll p f : Tx ρ ε _) σ Q ↔
      Q ((σ.select (p σ)).map fun e => ⟨e.1, f σ e.1 e.2⟩) (σ.updateRows (p σ) (f σ)) :=
  ensures_of_run_ok skip (run_updateAll skip p f σ)

theorem ensures_insertEach {duplicate : ε} {es : List (Sigma ρ)} {Q : Unit → Store ρ → Prop}
    (h : Q () (σ.insertRows es)) : Ensures skip (insertEach duplicate es : Tx ρ ε _) σ Q := by
  intro value σ' hrun
  obtain herror | hok := run_insertEach skip duplicate es σ
  · rw [herror] at hrun
    cases hrun
  · rw [hok] at hrun
    cases hrun
    exact h

@[simp] theorem ensures_ite {condition : Prop} [Decidable condition] {body body' : Tx ρ ε α}
    {Q : α → Store ρ → Prop} :
    Ensures skip (if condition then body else body') σ Q ↔
      (condition → Ensures skip body σ Q) ∧ (¬ condition → Ensures skip body' σ Q) := by
  by_cases h : condition <;> simp [h]

end Rules

/-- The body commits, and its value and the rows it leaves satisfy `Q`. -/
def Succeeds (body : Tx ρ ε α) (σ : Store ρ) (Q : α → Store ρ → Prop) : Prop :=
  ∃ value σ', run skip body σ = .ok (value, σ') ∧ Q value σ'

section Rules

variable {σ : Store ρ}

@[simp] theorem succeeds_bind {body : Tx ρ ε α} {f : α → Tx ρ ε β} {Q : β → Store ρ → Prop} :
    Succeeds skip (body >>= f) σ Q ↔
      Succeeds skip body σ fun value σ' => Succeeds skip (f value) σ' Q := by
  unfold Succeeds
  rw [run_bind]
  constructor
  · rintro ⟨result, σ'', hrun, hQ⟩
    cases hbody : run skip body σ with
    | error error => simp [hbody] at hrun
    | ok outcome =>
      rw [hbody] at hrun
      exact ⟨outcome.1, outcome.2, rfl, result, σ'', hrun, hQ⟩
  · rintro ⟨value, σ', hbody, hf⟩
    rw [hbody]
    exact hf

theorem succeeds_of_run_ok {body : Tx ρ ε α} {σ' : Store ρ} {value : α}
    (h : run skip body σ = .ok (value, σ')) {Q : α → Store ρ → Prop} :
    Succeeds skip body σ Q ↔ Q value σ' := by
  unfold Succeeds
  rw [h]
  constructor
  · rintro ⟨_, _, ⟨⟩, hQ⟩
    exact hQ
  · exact fun hQ => ⟨value, σ', rfl, hQ⟩

theorem not_succeeds_of_run_error {body : Tx ρ ε α} {error : ε} (h : run skip body σ = .error error)
    {Q : α → Store ρ → Prop} : ¬ Succeeds skip body σ Q := by
  rintro ⟨_, _, hrun, -⟩
  rw [h] at hrun
  cases hrun

@[simp] theorem succeeds_ret {value : α} {Q : α → Store ρ → Prop} :
    Succeeds skip (ret value : Tx ρ ε α) σ Q ↔ Q value σ :=
  succeeds_of_run_ok skip rfl

@[simp] theorem succeeds_snapshot {Q : Store ρ → Store ρ → Prop} :
    Succeeds skip (snapshot : Tx ρ ε _) σ Q ↔ Q σ σ :=
  succeeds_of_run_ok skip (run_snapshot skip σ)

@[simp] theorem succeeds_lockRow {key : κ} {Q : Option (ρ key) → Store ρ → Prop} :
    Succeeds skip (lockRow key : Tx ρ ε _) σ Q ↔ Q (σ.lookup key) σ :=
  succeeds_of_run_ok skip (run_lockRow skip key σ)

@[simp] theorem succeeds_selectForUpdate {key : κ} {Q : Store ρ × Option (ρ key) → Store ρ → Prop} :
    Succeeds skip (selectForUpdate key : Tx ρ ε _) σ Q ↔ Q (σ, σ.lookup key) σ :=
  succeeds_of_run_ok skip (run_selectForUpdate skip key σ)

@[simp] theorem succeeds_require {found : Option α} {error : ε} {Q : α → Store ρ → Prop} :
    Succeeds skip (require found error : Tx ρ ε _) σ Q ↔ ∃ value, found = some value ∧ Q value σ := by
  cases found with
  | none => exact iff_of_false (not_succeeds_of_run_error skip rfl) (by rintro ⟨_, ⟨⟩, -⟩)
  | some value =>
    refine (succeeds_of_run_ok skip rfl).trans ⟨fun hQ => ⟨value, rfl, hQ⟩, ?_⟩
    rintro ⟨_, ⟨⟩, hQ⟩
    exact hQ

@[simp] theorem succeeds_ofExcept {result : Except ε α} {Q : α → Store ρ → Prop} :
    Succeeds skip (ofExcept result : Tx ρ ε _) σ Q ↔ ∃ value, result = .ok value ∧ Q value σ := by
  cases result with
  | error error => exact iff_of_false (not_succeeds_of_run_error skip rfl) (by rintro ⟨_, ⟨⟩, -⟩)
  | ok value =>
    refine (succeeds_of_run_ok skip rfl).trans ⟨fun hQ => ⟨value, rfl, hQ⟩, ?_⟩
    rintro ⟨_, ⟨⟩, hQ⟩
    exact hQ

@[simp] theorem succeeds_refuse {condition : Prop} [Decidable condition] {error : ε}
    {Q : Unit → Store ρ → Prop} :
    Succeeds skip (refuse condition error : Tx ρ ε _) σ Q ↔ ¬ condition ∧ Q () σ := by
  by_cases h : condition
  · have herror : run skip (refuse condition error : Tx ρ ε Unit) σ = .error error := by
      rw [run_refuse, if_pos h]
    exact iff_of_false (not_succeeds_of_run_error skip herror) fun hQ => hQ.1 h
  · have hok : run skip (refuse condition error : Tx ρ ε Unit) σ = .ok ((), σ) := by
      rw [run_refuse, if_neg h]
    rw [succeeds_of_run_ok skip hok]
    exact (and_iff_right h).symm

@[simp] theorem succeeds_insert {key : κ} {row : ρ key} {duplicate : ε} {Q : Unit → Store ρ → Prop} :
    Succeeds skip (insert key row duplicate : Tx ρ ε _) σ Q ↔
      σ.lookup key = none ∧ Q () (σ.insert key row) := by
  cases hrow : σ.lookup key with
  | some old =>
    have herror : run skip (insert key row duplicate : Tx ρ ε Unit) σ = .error duplicate := by
      simp [run_insert, hrow]
    exact iff_of_false (not_succeeds_of_run_error skip herror) fun hQ => by cases hQ.1
  | none =>
    have hok : run skip (insert key row duplicate : Tx ρ ε Unit) σ = .ok ((), σ.insert key row) := by
      simp [run_insert, hrow]
    rw [succeeds_of_run_ok skip hok]
    exact (and_iff_right rfl).symm

@[simp] theorem succeeds_updateOne {key : κ} {p : ρ key → Bool} {f : Store ρ → ρ key → ρ key}
    {Q : Option (ρ key) → Store ρ → Prop} :
    Succeeds skip (updateOne key p f : Tx ρ ε _) σ Q ↔
      Q (((σ.lookup key).filter p).map (f σ)) (σ.updateOne key p (f σ)) :=
  succeeds_of_run_ok skip (run_updateOne skip key p f σ)

@[simp] theorem succeeds_updateAll {p : Store ρ → (key : κ) → ρ key → Bool}
    {f : Store ρ → (key : κ) → ρ key → ρ key} {Q : List (Sigma ρ) → Store ρ → Prop} :
    Succeeds skip (updateAll p f : Tx ρ ε _) σ Q ↔
      Q ((σ.select (p σ)).map fun e => ⟨e.1, f σ e.1 e.2⟩) (σ.updateRows (p σ) (f σ)) :=
  succeeds_of_run_ok skip (run_updateAll skip p f σ)

end Rules

end sql.Tx
