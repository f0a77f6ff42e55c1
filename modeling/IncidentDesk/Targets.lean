import IncidentDesk.Effects.Actions
import IncidentDesk.Seed
import IncidentDesk.Streams

namespace incidentdesk

open sql sql.Tx

/-- A draft gives the present watermark to an action that is there already only while
the target of the action is the repository that is configured. -/
def TargetKept (t : Session) (ℓ : Local Row) : (key : Key) → Row key → Prop
  | .actions id, row => (∃ u b aid, t.2 = .request (.draft u id b aid)) → ∀ (old : Action) (i : Investigation)
      (s : Service), ℓ.lookup (Key.actions id) = some old → ℓ.lookup (Key.investigations id) = some i →
      ℓ.lookup (Key.services i.service) = some s → row.source_version = s.watermark → old.target = s.repo
  | _, _ => True

/-- A later version of a row: the watermark of a service does not fall, and its
repository changes with it, but for the row in `lax`. -/
def Key.follows (lax : Option Key) : (key : Key) → Row key → Row key → Prop
  | .services name, s, s' => s.watermark ≤ s'.watermark ∧
      (lax ≠ some (Key.services name) → s'.watermark = s.watermark → s'.repo = s.repo)
  | .investigations _, i, i' => i'.service = i.service
  | .actions_id _, id, id' => id' = id
  | _, _, _ => True

/-- All rows are still there, in a later version. -/
def Follows (lax : Option Key) (rows rows' : (key : Key) → Option (Row key)) : Prop :=
  ∀ key row, rows key = some row → ∃ row', rows' key = some row' ∧ key.follows lax row row'

/-- An action whose state is among those in `p` has the configured target if its version
is the watermark, unless the service is the row in `lax`. -/
def Stands (p : ActionState → Bool) (lax : Option Key) (rows : (key : Key) → Option (Row key)) (id : String)
    (act : Action) : Prop :=
  ∃ (i : Investigation) (s : Service), rows (Key.investigations id) = some i ∧
    rows (Key.services i.service) = some s ∧ act.source_version ≤ s.watermark ∧
    (lax ≠ some (Key.services i.service) → p act.state = true → act.source_version = s.watermark →
      act.target = s.repo)

/-- Every action stands, and is found by its identifier, unless it is the row in `lax`. -/
structure Aligned (p : ActionState → Bool) (lax : Option Key) (rows : (key : Key) → Option (Row key)) : Prop where
  stands : ∀ id act, rows (Key.actions id) = some act → Stands p lax rows id act
  index : ∀ id act, rows (Key.actions id) = some act →
    lax = some (Key.actions id) ∨ rows (Key.actions_id act.id) = some id

section Rows

variable {p : ActionState → Bool} {lax : Option Key} {rows rows' rows'' : (key : Key) → Option (Row key)} {key : Key}
  {id : String} {act : Action}

theorem Key.follows_refl (row : Row key) : key.follows lax row row := by
  cases key with
  | services => exact ⟨le_rfl, fun _ _ => rfl⟩
  | investigations | actions_id => rfl
  | _ => trivial

theorem Key.follows_trans {row row' row'' : Row key} (h : key.follows lax row row') (h' : key.follows lax row' row'') :
    key.follows lax row row'' := by
  cases key with
  | services name =>
    refine ⟨h.1.trans h'.1, fun hlax hsame => ?_⟩
    have hle : row.watermark ≤ row'.watermark := h.1
    have hle' : row'.watermark ≤ row''.watermark := h'.1
    exact (h'.2 hlax (by omega)).trans (h.2 hlax (by omega))
  | investigations | actions_id => exact Eq.trans h' h
  | _ => trivial

theorem Key.follows_lax {row row' : Row key} (h : key.follows none row row') : key.follows lax row row' := by
  cases key with
  | services => exact ⟨h.1, fun _ => h.2 nofun⟩
  | investigations | actions_id => exact h
  | _ => trivial

theorem Follows.refl : Follows lax rows rows := fun key row hrow => ⟨row, hrow, key.follows_refl row⟩

theorem Follows.trans (h : Follows lax rows rows') (h' : Follows lax rows' rows'') : Follows lax rows rows'' := by
  intro key row hrow
  obtain ⟨row', hrow', hfollows⟩ := h key row hrow
  obtain ⟨row'', hrow'', hfollows'⟩ := h' key row' hrow'
  exact ⟨row'', hrow'', key.follows_trans hfollows hfollows'⟩

theorem Follows.relax (h : Follows none rows rows') : Follows lax rows rows' := by
  intro key row hrow
  obtain ⟨row', hrow', hfollows⟩ := h key row hrow
  exact ⟨row', hrow', key.follows_lax hfollows⟩

theorem Stands.relax (h : Stands p none rows id act) : Stands p lax rows id act := by
  obtain ⟨i, s, hi, hs, hle, htarget⟩ := h
  exact ⟨i, s, hi, hs, hle, fun _ => htarget nofun⟩

theorem Follows.strict (h : Follows lax rows rows') (hlax : ∀ name, lax ≠ some (Key.services name)) :
    Follows none rows rows' := by
  intro key row hrow
  obtain ⟨row', hrow', hfollows⟩ := h key row hrow
  refine ⟨row', hrow', ?_⟩
  cases key with
  | services name => exact ⟨hfollows.1, fun _ => hfollows.2 (hlax name)⟩
  | investigations | actions_id => exact hfollows
  | _ => trivial

theorem Stands.strict (h : Stands p lax rows id act) (hlax : ∀ name, lax ≠ some (Key.services name)) :
    Stands p none rows id act := by
  obtain ⟨i, s, hi, hs, hle, htarget⟩ := h
  exact ⟨i, s, hi, hs, hle, fun _ => htarget (hlax i.service)⟩

/-- An action stands whatever its service goes on to. -/
theorem Stands.follows (h : Stands p lax rows id act) (hrows : Follows lax rows rows') : Stands p lax rows' id act := by
  obtain ⟨i, s, hi, hs, hle, htarget⟩ := h
  obtain ⟨i', hi', hservice⟩ := hrows (Key.investigations id) i hi
  have hservice' : i'.service = i.service := hservice
  obtain ⟨s', hs', hwatermark, hrepo⟩ := hrows (Key.services i.service) s hs
  refine ⟨i', s', hi', hservice' ▸ hs', Nat.le_trans hle hwatermark, fun hlax hp hversion => ?_⟩
  rw [hservice'] at hlax
  have hle' : s.watermark ≤ s'.watermark := hwatermark
  rw [hrepo hlax (by omega)]
  exact htarget hlax hp (by omega)

theorem Aligned.relax (h : Aligned p none rows) : Aligned p lax rows where
  stands id act hact := Stands.relax (h.stands id act hact)
  index id act hact := .inr ((h.index id act hact).resolve_left nofun)

/-- Only the actions that are new have to be looked at again. -/
theorem Aligned.follows (h : Aligned p lax rows) (hrows : Follows lax rows rows')
    (hnew : ∀ id act, rows' (Key.actions id) = some act → rows (Key.actions id) = some act ∨
      Stands p lax rows' id act ∧ (lax = some (Key.actions id) ∨ rows' (Key.actions_id act.id) = some id)) :
    Aligned p lax rows' where
  stands id act hact := by
    obtain hold | hnew := hnew id act hact
    · exact Stands.follows (h.stands id act hold) hrows
    · exact hnew.1
  index id act hact := by
    obtain hold | hnew := hnew id act hact
    · refine (h.index id act hold).imp_right fun hindex => ?_
      obtain ⟨id', hid', hsame⟩ := hrows (Key.actions_id act.id) id hindex
      exact hid'.trans (congrArg some hsame)
    · exact hnew.2

end Rows

/-- The transactions share all rows, and change them only to later versions. -/
def targets (p : ActionState → Bool) : Discipline Row where
  root := id
  Free _ _ _ := True
  Inv σ := Aligned p none σ.lookup
  Step σ σ' := Follows none σ.lookup σ'.lookup
  free_refl _ _ := trivial
  free_trans _ _ _ _ _ _ := trivial
  step_refl _ := .refl
  step_trans _ _ _ := Follows.trans

/-- What a transaction sees is a later version of what is committed, in which the actions
are aligned. -/
structure Targeting (p : ActionState → Bool) (lax : Option Key) (ℓ : Local Row) : Prop where
  follows : Follows lax ℓ.committed.lookup ℓ.lookup
  aligned : Aligned p lax ℓ.lookup

section View

variable {p : ActionState → Bool} {lax : Option Key} {ℓ ℓ' : Local Row} {key : Key} {id : String} {act : Action}

/-- What a transaction has not written it sees as it is committed. -/
theorem lookup_cases (ℓ : Local Row) (key : Key) :
    (∃ row, ℓ.writes.lookup key = some row ∧ ℓ.lookup key = some row) ∨
      ℓ.writes.lookup key = none ∧ ℓ.lookup key = ℓ.committed.lookup key := by
  unfold Local.lookup
  cases ℓ.writes.lookup key with
  | none => exact .inr ⟨rfl, rfl⟩
  | some row => exact .inl ⟨row, rfl, rfl⟩

/-- A transaction comes to see later versions when others commit. -/
theorem follows_of_rely (h : Rely (targets p) ℓ ℓ') : Follows none ℓ.lookup ℓ'.lookup := by
  intro key row hrow
  obtain ⟨row', hwritten, hview⟩ | ⟨hwritten, hview⟩ := lookup_cases ℓ key
  · obtain rfl := Option.some.inj (hview.symm.trans hrow)
    refine ⟨row', ?_, key.follows_refl row'⟩
    rw [Local.lookup, h.writes, hwritten, Option.some_or]
  · obtain ⟨row', hrow', hfollows⟩ := h.step key row (hview.symm.trans hrow)
    refine ⟨row', ?_, hfollows⟩
    rw [Local.lookup, h.writes, hwritten, Option.none_or]
    exact hrow'

/-- A row that a transaction has written is as it was when others have committed. -/
theorem lookup_written (h : Rely (targets p) ℓ ℓ') {row : Row key} (hwritten : ℓ'.writes.lookup key = some row) :
    key ∈ ℓ.locks ∧ ℓ'.lookup key = ℓ.lookup key := by
  have hlocked := (h.obeys key row hwritten).1
  rw [h.locks] at hlocked
  exact ⟨hlocked, h.lookup_eq hlocked⟩

theorem Targeting.steady (p : ActionState → Bool) (lax : Option Key) : Steady (targets p) (Targeting p lax) where
  stable ℓ ℓ' hrely h := by
    have hcommitted : Follows lax ℓ'.committed.lookup ℓ'.lookup := by
      intro key row hrow
      obtain ⟨row', hwritten, -⟩ | ⟨-, hview⟩ := lookup_cases ℓ' key
      · obtain ⟨hlocked, hsame⟩ := lookup_written hrely hwritten
        rw [hsame]
        exact h.follows key row ((hrely.locked key hlocked).symm.trans hrow)
      · exact ⟨row, hview.trans hrow, key.follows_refl row⟩
    refine ⟨hcommitted, h.aligned.follows (follows_of_rely hrely).relax fun id act hact => ?_⟩
    obtain ⟨act', hwritten, -⟩ | ⟨-, hview⟩ := lookup_cases ℓ' (Key.actions id)
    · exact .inl ((lookup_written hrely hwritten).2.symm.trans hact)
    · have hinv : Aligned p none ℓ'.committed.lookup := hrely.inv
      have hact' : ℓ'.committed.lookup (Key.actions id) = some act := hview.symm.trans hact
      have hindex := (hinv.index id act hact').resolve_left nofun
      obtain ⟨id', hid', hsame⟩ := hcommitted (Key.actions_id act.id) id hindex
      exact .inr ⟨Stands.follows (Stands.relax (hinv.stands id act hact')) hcommitted,
        .inr (hid'.trans (congrArg some hsame))⟩
  hold _ _ h := ⟨h.follows, h.aligned⟩

theorem follows_write {row : Row key} (h : ∀ old, ℓ.lookup key = some old → key.follows lax old row) :
    Follows lax ℓ.lookup (ℓ.write key row).lookup := by
  intro key' row' hrow'
  by_cases hkey : key' = key
  · subst hkey
    exact ⟨row, Local.lookup_write_self ℓ key' row, h row' hrow'⟩
  · exact ⟨row', by rw [Local.lookup_write_ne hkey, hrow'], key'.follows_refl row'⟩

/-- A later version of a row that is no action is written. -/
theorem Targeting.write (h : Targeting p lax ℓ) {row : Row key} (hkey : ∀ id, key ≠ Key.actions id)
    (hfollows : ∀ old, ℓ.lookup key = some old → key.follows lax old row) : Targeting p lax (ℓ.write key row) where
  follows := h.follows.trans (follows_write hfollows)
  aligned := h.aligned.follows (follows_write hfollows) fun id act hact =>
    .inl (by rwa [Local.lookup_write_ne (hkey id).symm] at hact)

/-- A version of an action that stands is written. -/
theorem Targeting.write_action (h : Targeting p none ℓ) (hstands : Stands p lax ℓ.lookup id act)
    (hindex : lax = some (Key.actions id) ∨ ℓ.lookup (Key.actions_id act.id) = some id) :
    Targeting p lax (ℓ.write (Key.actions id) act) := by
  have hfollows : Follows lax ℓ.lookup (ℓ.write (Key.actions id) act).lookup :=
    follows_write fun old _ => trivial
  refine ⟨h.follows.relax.trans hfollows, h.aligned.relax.follows hfollows fun id' act' hact' => ?_⟩
  by_cases hid : id' = id
  · subst hid
    obtain rfl : act = act' := Option.some.inj ((Local.lookup_write_self ℓ (Key.actions id') act).symm.trans hact')
    have hne : Key.actions_id act.id ≠ Key.actions id' := nofun
    refine .inr ⟨Stands.follows hstands hfollows, hindex.imp_right fun hindex => ?_⟩
    rwa [Local.lookup_write_ne hne]
  · have hne : Key.actions id' ≠ Key.actions id := by simpa using hid
    rw [Local.lookup_write_ne hne] at hact'
    exact .inl hact'

/-- Either all actions are looked at, or those that are approved. -/
structure Covering (p : ActionState → Bool) : Prop where
  approved : p .approved = true
  others : ∀ state state', state ≠ .approved → p state = true → p state' = true

/-- An action stands still when it settles. -/
theorem Stands.settles (hp : Covering p) {rows : (key : Key) → Option (Row key)} {old : Action}
    (h : Stands p lax rows id old) (hact : old.Settles act) : Stands p lax rows id act := by
  obtain ⟨i, s, hi, hs, hle, htarget⟩ := h
  refine ⟨i, s, hi, hs, by rwa [hact.source_version], fun hlax hstate hversion => ?_⟩
  rw [hact.target]
  refine htarget hlax ?_ (hact.source_version.symm.trans hversion)
  by_cases happroved : act.state = .approved
  · rw [hact.approved happroved]
    exact hp.approved
  · exact hp.others act.state old.state happroved hstate

/-- The actions stay aligned by all that is not about stamps. -/
theorem Targeting.kept (hp : Covering p) : Kept (targets p) (Targeting p none) fun key row row' =>
    (∃ id n, key = Key.events id n) ∨ key.sourced row row' where
  toSteady := Targeting.steady p none
  write ℓ key row h _ _ hrow := by
    refine ⟨.inr trivial, ?_⟩
    obtain ⟨id, n, rfl⟩ | hrow := hrow
    · exact h.write nofun fun _ _ => trivial
    have hother (hne : ∀ id, key ≠ Key.actions id) (hservice : ∀ name, key ≠ Key.services name)
        (hid : ∀ aid, key ≠ Key.actions_id aid) : Targeting p none (ℓ.write key row) := by
      refine h.write hne fun old hold => ?_
      cases key with
      | investigations id =>
        rw [hold] at hrow
        exact hrow.2
      | services name => exact absurd rfl (hservice name)
      | actions_id aid => exact absurd rfl (hid aid)
      | _ => trivial
    cases key with
    | actions id =>
      obtain ⟨old, hold, hsettles⟩ := hrow
      have hstands := Stands.settles hp (h.aligned.stands id old hold) hsettles
      refine h.write_action hstands (.inr ?_)
      rw [hsettles.id]
      exact (h.aligned.index id old hold).resolve_left nofun
    | services | actions_id => exact hrow.elim
    | _ => exact hother nofun nofun nofun

/-- A new action is entered under its identifier. -/
theorem Targeting.enter (h : Targeting p (some (Key.actions id)) ℓ) (hact : ℓ.lookup (Key.actions id) = some act)
    (hnone : ℓ.lookup (Key.actions_id act.id) = none) :
    Targeting p none (ℓ.write (Key.actions_id act.id) id) := by
  have hlax (name : String) : some (Key.actions id) ≠ some (Key.services name) := by simp
  have hview : Follows none ℓ.lookup (ℓ.write (Key.actions_id act.id) id).lookup :=
    follows_write fun old hold => by rw [hnone] at hold; cases hold
  have hactions (id' : String) : Key.actions id' ≠ Key.actions_id act.id := nofun
  refine ⟨(h.follows.strict hlax).trans hview, fun id' act' hact' => ?_, fun id' act' hact' => ?_⟩
  · rw [Local.lookup_write_ne (hactions id')] at hact'
    exact Stands.follows (Stands.strict (h.aligned.stands id' act' hact') hlax) hview
  · rw [Local.lookup_write_ne (hactions id')] at hact'
    by_cases hid : id' = id
    · subst hid
      obtain rfl : act = act' := Option.some.inj (hact.symm.trans hact')
      exact .inr (Local.lookup_write_self ℓ (Key.actions_id act.id) id')
    · have hindex := (h.aligned.index id' act' hact').resolve_left (by simpa using Ne.symm hid)
      obtain ⟨id'', hid'', hsame⟩ := hview (Key.actions_id act'.id) id' hindex
      exact .inr (hid''.trans (congrArg some hsame))

/-- A new watermark leaves no action behind that has it. -/
theorem Targeting.bump {name : String} {s : Service} (h : Targeting p (some (Key.services name)) ℓ)
    (hs : ℓ.lookup (Key.services name) = some s) :
    Targeting p none (ℓ.write (Key.services name) { s with watermark := s.watermark + 1 }) := by
  have hview : Follows (some (Key.services name)) ℓ.lookup
      (ℓ.write (Key.services name) { s with watermark := s.watermark + 1 }).lookup := by
    refine follows_write fun old hold => ?_
    obtain rfl : s = old := Option.some.inj (hs.symm.trans hold)
    exact ⟨Nat.le_succ _, fun hlax => absurd rfl hlax⟩
  have hself := Local.lookup_write_self ℓ (Key.services name) { s with watermark := s.watermark + 1 }
  constructor
  · intro key row hrow
    obtain ⟨row', hrow', hfollows⟩ := h.follows.trans hview key row hrow
    refine ⟨row', hrow', ?_⟩
    cases key with
    | services name' =>
      refine ⟨hfollows.1, fun _ hsame => ?_⟩
      by_cases hname : name' = name
      · subst hname
        obtain ⟨s', hs', hle, -⟩ := h.follows (Key.services name') row hrow
        obtain rfl : s = s' := Option.some.inj (hs.symm.trans hs')
        obtain rfl := Option.some.inj (hself.symm.trans hrow')
        have hsame' : s.watermark + 1 = row.watermark := hsame
        have hle' : row.watermark ≤ s.watermark := hle
        omega
      · exact hfollows.2 (by simpa using Ne.symm hname) hsame
    | investigations | actions_id => exact hfollows
    | _ => trivial
  · have hactions (id : String) : Key.actions id ≠ Key.services name := nofun
    have hids (aid : String) : Key.actions_id aid ≠ Key.services name := nofun
    have hinvestigations (id : String) : Key.investigations id ≠ Key.services name := nofun
    refine ⟨fun id act hact => ?_, fun id act hact => ?_⟩
    · rw [Local.lookup_write_ne (hactions id)] at hact
      obtain ⟨i, s', hi, hs', hle, htarget⟩ := h.aligned.stands id act hact
      by_cases hname : i.service = name
      · rw [hname] at hs'
        obtain rfl : s = s' := Option.some.inj (hs.symm.trans hs')
        refine ⟨i, { s with watermark := s.watermark + 1 }, ?_, by rw [hname]; exact hself, by simp only; omega, ?_⟩
        · rwa [Local.lookup_write_ne (hinvestigations id)]
        · intro _ _ hversion
          simp only at hversion
          omega
      · have hne : Key.services i.service ≠ Key.services name := by simpa using hname
        refine ⟨i, s', by rwa [Local.lookup_write_ne (hinvestigations id)], by rwa [Local.lookup_write_ne hne], hle, fun _ => ?_⟩
        exact htarget (by simpa using Ne.symm hname)
    · rw [Local.lookup_write_ne (hactions id)] at hact
      rw [Local.lookup_write_ne (hids act.id)]
      exact .inr ((h.aligned.index id act hact).resolve_left nofun)

end View

section Transactions

variable {p : ActionState → Bool} {W : Local Row → (key : Key) → Row key → Prop} {J : Local Row → Prop}

/-- A snapshot that was taken earlier. -/
def Seen (p : ActionState → Bool) (snap : Store) (ℓ : Local Row) : Prop :=
  Targeting p none ℓ ∧ Follows none snap.lookup ℓ.lookup

theorem Seen.steady (p : ActionState → Bool) (snap : Store) : Steady (targets p) (Seen p snap) where
  stable ℓ ℓ' hrely h := ⟨(Targeting.steady p none).stable ℓ ℓ' hrely h.1, h.2.trans (follows_of_rely hrely)⟩
  hold ℓ key h := ⟨(Targeting.steady p none).hold ℓ key h.1, h.2⟩

theorem seen_snapshot : Triple (targets p) W (Targeting p none) (snapshot : Tx (Store)) (Seen p) := by
  refine triple_snapshot (Targeting.steady p none).stable fun ℓ snap hℓ hsnap => ⟨hℓ, ?_⟩
  intro key row hrow
  exact ⟨row, (hsnap key).symm.trans hrow, key.follows_refl row⟩

theorem steady_snapshot (hJ : Steady (targets p) J) : Keeps (targets p) W J (snapshot : Tx (Store)) :=
  triple_snapshot hJ.stable fun _ _ hℓ _ => hℓ

theorem kept_targets (hp : Covering p) : Kept (targets p) (Targeting p none) Key.sourced :=
  (Targeting.kept hp).mono fun _ _ _ h => .inr h

theorem targets_event (hp : Covering p) (id kind : String) (payload : Json) :
    Keeps (targets p) W (Targeting p none) (event id kind payload) := by
  refine Triple.bind (Q := fun _ => Targeting p none) ?_ fun row => keeps_require.bind fun i =>
    (Targeting.kept hp).insert (.inl ⟨id, i.seq, rfl⟩)
  refine triple_updateOne (Targeting.steady p none) (fun _ hℓ => hℓ) fun ℓ snap i hℓ _ _ hi _ _ => ⟨.inr trivial, ?_⟩
  refine hℓ.write nofun fun old hold => ?_
  obtain rfl : i = old := Option.some.inj (hi.symm.trans hold)
  rfl

theorem targets_notifyWorkbenches (hp : Covering p) (service : String) (remove : Bool) (watermark : Nat) :
    Keeps (targets p) W (Targeting p none) (notifyWorkbenches service remove watermark) := by
  refine Triple.bind (Q := fun _ => Targeting p none) ?_ fun changed =>
    (Targeting.kept hp).insertEach fun e he => .inl (key_of_sourceInvalidated he)
  refine triple_updateAll (fun _ => Targeting.steady p none) fun snap done ℓ key row hℓ _ _ hrow hselect _ =>
    ⟨.inr trivial, ?_⟩
  cases key with
  | investigations id =>
    refine hℓ.write nofun fun old hold => ?_
    obtain rfl : row = old := Option.some.inj (hrow.symm.trans hold)
    rfl
  | _ => cases hselect

/-- What has been read of a service tells what an action has to be stamped with. -/
theorem Seen.stands {snap : Store} {ℓ : Local Row} {id : String} {i : Investigation} {s : Service} {act : Action}
    (h : Seen p snap ℓ) (hi : ℓ.lookup (Key.investigations id) = some i)
    (hs : snap.lookup (Key.services i.service) = some s) (hversion : act.source_version = s.watermark)
    (htarget : ∀ s', ℓ.lookup (Key.services i.service) = some s' → p act.state = true →
      act.source_version = s'.watermark → s'.repo = s.repo → act.target = s'.repo) : Stands p none ℓ.lookup id act := by
  obtain ⟨s', hs', hle, hrepo⟩ := h.2 (Key.services i.service) s hs
  have hle' : s.watermark ≤ s'.watermark := hle
  refine ⟨i, s', hi, hs', by omega, fun _ hstate hversion' => ?_⟩
  exact htarget s' hs' hstate hversion' (hrepo nofun (by omega))

/-- A row is selected, locked and found as it is, if it is there. -/
theorem seen_selectForUpdate (key : Key) :
    Triple (targets p) W (Targeting p none) (selectForUpdate key : Tx (Store × Option (Row key))) fun r ℓ =>
      Seen p r.1 ℓ ∧ ∀ row, r.2 = some row → key ∈ ℓ.locks ∧ ℓ.lookup key = some row := by
  refine seen_snapshot.bind fun snap => ?_
  cases snap.lookup key with
  | none => exact triple_ret fun ℓ hℓ => ⟨hℓ, nofun⟩
  | some seen =>
    refine (triple_lock (Q := fun row ℓ => Seen p snap ℓ ∧ key ∈ ℓ.locks ∧ ℓ.lookup key = row) (Seen.steady p snap)
      fun row ℓ hℓ hkey hrow => ⟨hℓ, hkey, hrow⟩).bind fun row => triple_ret fun ℓ hℓ => ⟨hℓ.1, fun row' hrow' => ?_⟩
    exact ⟨hℓ.2.1, hℓ.2.2.trans hrow'⟩

/-- A new action has been added that is not found by its identifier yet. -/
def Entering (p : ActionState → Bool) (id aid : String) (ℓ : Local Row) : Prop :=
  Targeting p (some (Key.actions id)) ℓ ∧ Key.actions id ∈ ℓ.locks ∧
    ∃ act : Action, act.id = aid ∧ ℓ.lookup (Key.actions id) = some act

theorem Entering.steady (p : ActionState → Bool) (id aid : String) : Steady (targets p) (Entering p id aid) where
  stable ℓ ℓ' hrely h := by
    obtain ⟨hℓ, hkey, act, hid, hact⟩ := h
    exact ⟨(Targeting.steady p _).stable ℓ ℓ' hrely hℓ, hrely.locks ▸ hkey, act, hid,
      (hrely.lookup_eq hkey).trans hact⟩
  hold ℓ key h := ⟨(Targeting.steady p _).hold ℓ key h.1, List.mem_cons_of_mem _ h.2.1, h.2.2⟩

theorem targets_draft (hp : Covering p) (a : App) (now : Time) (u id : String) (b : Draft) (aid : String) :
    Keeps (targets p)
      (fun ℓ key row => p .draft = true → TargetKept (now, .request (.draft u id b aid)) ℓ key row)
      (Targeting p none) (draft a now u id b aid) := by
  unfold draft
  refine keeps_refuse.bind fun _ => (seen_selectForUpdate (Key.investigations id)).bind fun ⟨snap, found⟩ => ?_
  refine (triple_require (Q := fun i ℓ => Seen p snap ℓ ∧ Key.investigations id ∈ ℓ.locks ∧
    ℓ.lookup (Key.investigations id) = some i) fun i hi ℓ hℓ => ⟨hℓ.1, hℓ.2 i hi⟩).bind fun i => ?_
  have hread := (Seen.steady p snap).locked (Key.investigations id) (some i)
  refine triple_require_bind fun s hs => (steady_snapshot hread).bind fun _ => keeps_ofExcept.bind fun _ =>
    keeps_refuse.bind fun _ => triple_refuse_bind fun hfresh => ?_
  have hversion : i.source_version = s.watermark := not_not.mp hfresh
  refine Triple.bind (Q := fun _ ℓ => Seen p snap ℓ ∧ Key.investigations id ∈ ℓ.locks ∧
    ℓ.lookup (Key.investigations id) = some i) (triple_selectForUpdate hread (fun _ _ h => h) fun _ _ _ h _ _ => h)
    fun existing => keeps_refuse.bind fun _ => keeps_refuse.bind fun _ => ?_
  refine (triple_lock (Q := fun row ℓ => (Seen p snap ℓ ∧ Key.investigations id ∈ ℓ.locks ∧
    ℓ.lookup (Key.investigations id) = some i) ∧ Key.actions id ∈ ℓ.locks ∧ ℓ.lookup (Key.actions id) = row) hread
    fun row ℓ hℓ hkey hrow => ⟨hℓ, hkey, hrow⟩).bind fun row => ?_
  cases row with
  | none =>
    refine Triple.bind (Q := fun _ => Entering p id aid) ?_ fun _ =>
      Triple.bind (Q := fun _ => Targeting p none) ?_ fun _ => targets_event hp id _ _
    · refine triple_insert (hread.locked (Key.actions id) none) fun ℓ hℓ _ hkey _ _ => ⟨.inr trivial, ?_⟩
      obtain ⟨⟨hseen, -, hi⟩, -, -⟩ := hℓ
      refine ⟨hseen.1.write_action (Stands.relax (hseen.stands hi hs hversion fun s' _ _ _ hrepo => hrepo.symm))
        (.inl rfl), hkey, _, ?_, Local.lookup_write_self ℓ (Key.actions id) _⟩
      rfl
    · refine triple_insert (Entering.steady p id aid) fun ℓ hℓ _ _ hnone _ => ⟨.inr trivial, ?_⟩
      obtain ⟨hℓ, -, act, rfl, hact⟩ := hℓ
      exact hℓ.enter hact hnone
  | some row =>
    refine Triple.bind (Q := fun _ => Targeting p none) ?_ fun _ => targets_event hp id _ _
    refine triple_write hread fun ℓ hℓ _ _ hrow hW => ⟨.inr trivial, ?_⟩
    obtain ⟨hseen, -, hi⟩ := hℓ
    obtain ⟨ℓ₀, rfl, hW⟩ := hW
    refine hseen.1.write_action (hseen.stands hi hs hversion fun s' hs' hp' hversion' _ => ?_)
      (.inr ((hseen.1.aligned.index id row hrow).resolve_left nofun))
    exact hW hp' ⟨u, b, aid, rfl⟩ row i s' hrow hi hs' hversion'

/-- What `decide` has read and locked of an action when it comes to record a decision. -/
def Deciding (p : ActionState → Bool) (snap : Store) (id : String) (act : Action) (i : Investigation) (ℓ : Local Row) :
    Prop :=
  (Seen p snap ℓ ∧ Key.actions id ∈ ℓ.locks ∧ ℓ.lookup (Key.actions id) = some act) ∧
    Key.investigations id ∈ ℓ.locks ∧ ℓ.lookup (Key.investigations id) = some i

theorem Deciding.steady (p : ActionState → Bool) (snap : Store) (id : String) (act : Action) (i : Investigation) :
    Steady (targets p) (Deciding p snap id act i) :=
  ((Seen.steady p snap).locked (Key.actions id) (some act)).locked (Key.investigations id) (some i)

/-- The action that has been decided on is the one that is found by its identifier. -/
theorem targets_record (hp : Covering p) (now : Time) (u id : String) {snap : Store} {act : Action} {i : Investigation}
    {s : Service} (hs : snap.lookup (Key.services i.service) = some s) (hversion : act.source_version = s.watermark)
    (htarget : act.target = s.repo) (decision : Decision) (approval : String) :
    Triple (targets p) W (Deciding p snap id act i) (record now u id act decision approval)
      fun _ => Targeting p none := by
  have hsteady := Deciding.steady p snap id act i
  refine Triple.bind (Q := fun _ => Deciding p snap id act i) ?_ fun _ =>
    Triple.bind (Q := fun _ => Targeting p none) ?_ fun _ => targets_event hp id _ _
  · refine triple_insert hsteady fun ℓ hℓ _ _ hnone _ => ⟨.inr trivial, ?_⟩
    obtain ⟨⟨hseen, hkey, hact⟩, hkey', hi⟩ := hℓ
    have hactions : Key.actions id ≠ Key.approvals approval := nofun
    have hinvestigations : Key.investigations id ≠ Key.approvals approval := nofun
    refine ⟨⟨⟨hseen.1.write nofun fun _ _ => trivial, hseen.2.trans (follows_write fun _ _ => trivial)⟩, hkey, ?_⟩,
      hkey', ?_⟩
    · rwa [Local.lookup_write_ne hactions]
    · rwa [Local.lookup_write_ne hinvestigations]
  · refine (triple_snapshot (Q := fun snap' ℓ => Deciding p snap id act i ℓ ∧
      snap'.lookup (Key.actions_id act.id) = some id) hsteady.stable fun ℓ snap' hℓ hsnap => ⟨hℓ, ?_⟩).bind fun snap' => ?_
    · rw [hsnap]
      exact (hℓ.1.1.1.aligned.index id act hℓ.1.2.2).resolve_left nofun
    · intro ℓ hℓ
      rw [hℓ.2]
      refine (Triple.bind (Q := fun _ => Targeting p none) (W := W) ?_ fun _ => keeps_ret) ℓ hℓ.1
      refine triple_updateOne hsteady (fun ℓ hℓ => hℓ.1.1.1) fun ℓ _ row hℓ _ _ hrow _ _ => ⟨.inr trivial, ?_⟩
      obtain ⟨⟨hseen, -, hact⟩, -, hi⟩ := hℓ
      obtain rfl : act = row := Option.some.inj (hact.symm.trans hrow)
      exact hseen.1.write_action (hseen.stands hi hs hversion fun s' _ _ _ hrepo => htarget.trans hrepo.symm)
        (.inr ((hseen.1.aligned.index id act hact).resolve_left nofun))

theorem targets_decide (hp : Covering p) (now : Time) (u id : String) (Version : Int) (decision approval : String) :
    Keeps (targets p) W (Targeting p none) (decide now u id Version decision approval) := by
  refine keeps_ofExcept.bind fun decision => seen_snapshot.bind fun snap => keeps_require.bind fun _ =>
    keeps_require.bind fun _ => ?_
  refine (triple_lock (Q := fun row ℓ => Seen p snap ℓ ∧ Key.actions id ∈ ℓ.locks ∧ ℓ.lookup (Key.actions id) = row)
    (Seen.steady p snap) fun row ℓ hℓ hkey hrow => ⟨hℓ, hkey, hrow⟩).bind fun found => ?_
  refine triple_require_bind fun act hact => ?_
  subst hact
  refine (triple_lock (Q := fun row ℓ => (Seen p snap ℓ ∧ Key.actions id ∈ ℓ.locks ∧
    ℓ.lookup (Key.actions id) = some act) ∧ Key.investigations id ∈ ℓ.locks ∧
      ℓ.lookup (Key.investigations id) = row) ((Seen.steady p snap).locked _ _)
    fun row ℓ hℓ hkey hrow => ⟨hℓ, hkey, hrow⟩).bind fun found => ?_
  refine triple_require_bind fun i hi => ?_
  subst hi
  have hsteady := Deciding.steady p snap id act i
  refine triple_require_bind fun s hs => (steady_snapshot hsteady).bind fun _ => keeps_ofExcept.bind fun _ =>
    keeps_refuse.bind fun _ => triple_ite (fun _ => ?_) fun _ => ?_
  · refine Triple.mono (J := Targeting p none) ?_ (fun ℓ hℓ => hℓ.1.1.1) fun _ _ h => h
    exact keeps_refuse.bind fun _ => keeps_updateAction (kept_ordinary (kept_targets hp)) act.id
      fun row => ⟨rfl, rfl, rfl, fun h => h⟩
  · refine triple_refuse_bind fun hscope => triple_ite (fun _ => triple_ret fun ℓ hℓ => hℓ.1.1.1) fun _ =>
      keeps_refuse.bind fun _ => ?_
    rw [not_or, not_or, not_not, not_not] at hscope
    exact targets_record hp now u id hs hscope.2.1 hscope.2.2 decision approval

theorem targets_moveWatermark (hp : Covering p) (service kind : String) :
    Triple (targets p) W (Targeting p (some (Key.services service))) (moveWatermark service kind)
      fun _ => Targeting p none :=
  triple_moveWatermark (kept_targets hp) service kind <|
    triple_updateOne (Targeting.steady p _) (fun _ _ h => by cases h) fun _ _ _ hℓ _ _ hrow _ _ =>
      ⟨.inr trivial, fun _ => hℓ.bump hrow⟩

theorem Targeting.relax {ℓ : Local Row} (h : Targeting p none ℓ) (lax : Option Key) : Targeting p lax ℓ :=
  ⟨h.follows.relax, h.aligned.relax⟩

theorem targets_invalidateSource (hp : Covering p) (service : String) (remove : Bool) :
    Triple (targets p) W (Targeting p (some (Key.services service))) (invalidateSource service remove)
      fun _ => Targeting p none :=
  triple_invalidateSource (kept_targets hp) (targets_notifyWorkbenches hp) service remove
    (targets_moveWatermark hp service)

/-- A new repository comes with a new watermark. -/
theorem targets_configureService (hp : Covering p) (service repo : String) (enabled : Bool) :
    Keeps (targets p) W (Targeting p none) (configureService service repo enabled) := by
  refine keeps_refuse.bind fun _ => Triple.bind (Q := fun _ => Targeting p (some (Key.services service))) ?_ fun _ =>
    targets_invalidateSource hp service false
  refine triple_updateOne (Targeting.steady p none) (fun ℓ hℓ => hℓ.relax _) fun ℓ _ s hℓ _ _ hs _ _ =>
    ⟨.inr trivial, (hℓ.relax _).write nofun fun old hold => ?_⟩
  obtain rfl : s = old := Option.some.inj (hs.symm.trans hold)
  exact ⟨le_rfl, fun hlax => absurd rfl hlax⟩

end Transactions

theorem targets_body {p : ActionState → Bool} (hp : Covering p) (a : App) (t : Session) :
    Keeps (targets p) (fun ℓ key row => p .draft = true → TargetKept t ℓ key row) (Targeting p none) (t.body a) := by
  obtain ⟨now, txn⟩ := t
  have hinvalidate (service : String) (remove : Bool) :
      Keeps (targets p) (fun ℓ key row => p .draft = true → TargetKept (now, txn) ℓ key row) (Targeting p none)
        (invalidateSource service remove) :=
    (targets_invalidateSource hp service remove).mono (fun ℓ hℓ => hℓ.relax _) fun _ _ h => h
  refine keeps_body (kept_targets hp) (targets_event hp) a now txn (fun htxn => ?_) fun u id category label newID _ => ?_
  · cases txn with
    | request r =>
      cases r with
      | draft u id b aid => exact targets_draft hp a now u id b aid
      | decide u id Version decision approval => exact targets_decide hp now u id Version decision approval
      | invalidateSource service remove => exact hinvalidate service remove
      | configureService service repo enabled => exact targets_configureService hp service repo enabled
      | reviewMemory u id decision =>
        exact keeps_reviewMemory (kept_targets hp) now u id decision fun service => hinvalidate service false
      | _ => cases htxn
    | _ => cases htxn
  · refine (steady_snapshot (Targeting.steady p none)).bind fun snap => ?_
    cases snap.lookup (Key.investigations id) with
    | none => exact keeps_ret
    | some i =>
      exact triple_insert (Targeting.steady p none) fun ℓ hℓ _ _ _ _ =>
        ⟨.inr trivial, hℓ.write nofun fun _ _ => trivial⟩

/-- Every transaction of the system leaves the actions aligned. -/
theorem targets_proved {p : ActionState → Bool} (hp : Covering p) (a : App) :
    (targets p).Proved (fun t ℓ key row => p .draft = true → TargetKept t ℓ key row) (fun _ => Targeting p none)
      (Session.body a) where
  stable _ := (Targeting.steady p none).stable
  inv _ ℓ _ _ h := by
    have hview : ℓ.commit.lookup = ℓ.lookup := funext fun key => Local.lookup_commit ℓ key
    change Aligned p none ℓ.commit.lookup
    rw [hview]
    exact h.aligned
  step _ ℓ _ _ h := by
    have hview : ℓ.commit.lookup = ℓ.lookup := funext fun key => Local.lookup_commit ℓ key
    change Follows none ℓ.committed.lookup ℓ.commit.lookup
    rw [hview]
    exact h.follows
  wp t σ hσ := targets_body hp a t (.start σ) ⟨.refl, hσ⟩

def allStates : ActionState → Bool := fun _ => true

def approvedOnly : ActionState → Bool := fun state => state = .approved

theorem covering_all : Covering allStates := ⟨rfl, fun _ _ _ _ => rfl⟩

theorem covering_approved : Covering approvedOnly where
  approved := rfl
  others state state' hne h := absurd (by simpa [approvedOnly] using h) hne

section Unreachable

variable {now : Time} {skip : Key → Bool} {σ : Store}

theorem run_updateAction_ne {aid : String} {f : Action → Action} {error : Error} :
    run skip (updateAction aid f) σ ≠ .error error := by
  unfold updateAction
  rw [run_bind_of_ok skip (run_snapshot skip σ)]
  cases σ.lookup (Key.actions_id aid) with
  | none => exact nofun
  | some id =>
    refine run_bind_ne_error skip ?_ fun _ _ _ => nofun
    rw [run_updateOne]
    exact nofun

theorem run_event_ne {id kind : String} {payload : Json} {error : Error} (hnone : error ≠ .noRows)
    (hunique : error ≠ .uniqueViolation) : run skip (event id kind payload) σ ≠ .error error := by
  refine run_bind_ne_error skip ?_ fun row σ' _ => run_bind_ne_error skip ?_ fun i σ'' _ => ?_
  · rw [run_updateOne]
    exact nofun
  · rw [run_require]
    cases row with
    | none =>
      rintro ⟨⟩
      exact hnone rfl
    | some row => exact nofun
  · rw [run_insert]
    split
    · rintro ⟨⟩
      exact hunique rfl
    · exact nofun

theorem run_require_ok {α : Type} {found : Option α} {error : Error} {value : α} {σ' : Store}
    (h : run skip (Tx.require found error) σ = .ok (value, σ')) : found = some value ∧ σ' = σ := by
  rw [run_require] at h
  cases found with
  | none => cases h
  | some value' =>
    cases h
    exact ⟨rfl, rfl⟩

theorem run_require_ne {α : Type} {found : Option α} {error error' : Error} (h : error' ≠ error) :
    run skip (Tx.require found error) σ ≠ .error error' := by
  rw [run_require]
  cases found with
  | none =>
    rintro ⟨⟩
    exact h rfl
  | some value => exact nofun

/-- A run of `actionStep` that finds the approved actions aligned does not stop at a
target that has changed. -/
theorem actionBegin_ne_target_changed (h : Aligned approvedOnly none σ.lookup) :
    run skip (actionBegin now) σ ≠ .error (E 409 "target_changed") := by
  unfold actionBegin
  rw [run_bind_of_ok skip (run_snapshot skip σ), run_bind_of_ok skip (run_actionFirst _)]
  cases hchoice : actionChoice now skip σ (actionCandidates now σ) with
  | none => rintro ⟨⟩
  | some choice =>
    obtain ⟨id, act, i⟩ := choice
    obtain ⟨hact, hi, -⟩ := actionChoice_eq_some hchoice
    refine run_bind_ne_error skip (run_require_ne (by simp [E])) fun s σ' hs => ?_
    obtain ⟨hs, rfl⟩ := run_require_ok hs
    rw [run_bind_of_ok skip (run_snapshot skip σ')]
    split
    · exact run_bind_ne_error skip run_updateAction_ne fun _ _ _ =>
        run_bind_ne_error skip (run_event_ne (by simp [E]) (by simp [E])) fun _ _ _ => by rintro ⟨⟩
    · rename_i hinvalid
      rw [run_bind_of_ok skip (run_snapshot skip σ')]
      refine run_bind_ne_error skip (run_require_ne (by simp [E])) fun configured σ'' hconfigured => ?_
      obtain ⟨hconfigured, rfl⟩ := run_require_ok hconfigured
      obtain rfl : s = configured := Option.some.inj (hs.symm.trans hconfigured)
      refine run_bind_ne_error skip ?_ fun _ _ _ => run_bind_ne_error skip run_updateAction_ne fun _ _ _ =>
        run_bind_ne_error skip (run_event_ne (by simp [E]) (by simp [E])) fun _ _ _ => by rintro ⟨⟩
      rw [run_refuse]
      split_ifs with hchanged
      · -- it has just been seen to be dispatchable, so its version is the watermark
        obtain ⟨hfresh, hrepo⟩ := hchanged
        have happroved : act.state = .approved := by simpa using hfresh
        have hdispatchable : dispatchable σ'' act i s.watermark = true := by simpa [happroved] using hinvalid
        have hversion : act.source_version = s.watermark := by
          simp only [dispatchable, Bool.and_eq_true, decide_eq_true_eq] at hdispatchable
          exact hdispatchable.1.1.1.1.2
        obtain ⟨i', s', hi', hs', -, htarget⟩ := h.stands id act hact
        obtain rfl : i = i' := Option.some.inj (hi.symm.trans hi')
        obtain rfl : s = s' := Option.some.inj (hs.symm.trans hs')
        exact absurd (htarget (by simp) (by simp [approvedOnly, happroved]) hversion).symm hrepo
      · rintro ⟨⟩

end Unreachable

theorem Initial.aligned {p : ActionState → Bool} {σ : Store} (hσ : Initial σ) : Aligned p none σ.lookup where
  stands id act hact := by
    rw [hσ (Key.actions id) rfl] at hact
    cases hact
  index id act hact := by
    rw [hσ (Key.actions id) rfl] at hact
    cases hact

/-- The database after some statements of any transactions, and ends of them. -/
abbrev Database.after (a : App) (σ : Store) (moves : List (Move Session)) : Store :=
  (machine.run (Database.step (Session.body a)) (Database.idle σ) moves).store

theorem aligned_after (a : App) {p : ActionState → Bool} (hp : Covering p) {σ : Store} (hσ : Initial σ)
    {moves : List (Move Session)} (hwrites : machine.Always (Database.step (Session.body a))
      (Database.Writes fun t ℓ key row => p .draft = true → TargetKept t ℓ key row) (Database.idle σ) moves) :
    Aligned p none (Database.after a σ moves).lookup :=
  ((targets_proved hp a).sound (.idle hσ.aligned) hwrites).inv

/-- A new repository is being configured. -/
def configuring : Session := (0, .request (.configureService "svc-17" "acme/orders" true))

/-- Some transactions, one after the other. -/
def serially (sessions : List Session) : List (Move Session) :=
  sessions.flatMap fun t => .start 0 t :: List.replicate 25 (.exec 0)

/-- An action is drafted, and again after another repository has been configured and the
investigation has been made anew. -/
def redrafting : List Session :=
  [(0, .request (.createTask "alice" symptom "h1" "k1" "i1" "r1")), (0, .request (.claim "w1")),
    (0, .request (.callback "i1" "result" (result 1))),
    (0, .request (.draft "alice" "i1" { Version := 0, Title := "订单超时", Body := "请检查" } "a1")), configuring,
    (0, .request (.resume "i1" "")), (0, .request (.claim "w1")),
    (0, .request (.callback "i1" "result" { result 2 with CallbackID := "c2" })),
    (0, .request (.draft "alice" "i1" { Version := 1, Title := "订单超时", Body := "请检查" } "a2"))]

end incidentdesk
