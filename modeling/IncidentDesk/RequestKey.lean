import IncidentDesk.Handlers
import IncidentDesk.Sql.Interleaving
import IncidentDesk.UnifiedCall

namespace incidentdesk

open sql sql.Tx
open Workbench (Answer)

/-- Where a call of `executeUnified` comes from: the endpoint of its own, or a
turn of a conversation. -/
inductive Asking where
  | unifiedQuery (u key : String) (b : UnifiedInput)
  | postConversationTurn (u : String) (turn : savedTurn) (b : ConversationInput)

def Asking.subject : Asking → String
  | unifiedQuery u _ _ | postConversationTurn u _ _ => u

/-- The idempotency key of the call. The turn gives it under which all attempts at
it are made. -/
def Asking.key : Asking → String
  | unifiedQuery _ key _ => key
  | postConversationTurn _ turn _ => "conversation:" ++ turn.ID

def Asking.input : Asking → UnifiedInput
  | unifiedQuery _ _ b => b
  | postConversationTurn _ turn b =>
    { queryAnchor := some turn.HasQueryAnchor, Text := b.Text, Timezone := b.Timezone, Mode := b.Mode
      History := turn.History }

/-- The call as it comes to its first statement, if its checks let it. What it
draws and what it is told is given. -/
def Asking.begin (a : App) (r : Asking) (given : UnifiedCall) : Option UnifiedCall :=
  match r.input.normalize a r.key with
  | .error _ => none
  | .ok b => some { given with Subject := r.subject, Idem := r.key, Input := b }

/-- A transaction of a call, with the stage that it leads to. -/
structure Transit where
  call : UnifiedCall
  stage : Stage
  next : Stage

/-- A transit commits only if it leads where it says. -/
def Transit.body (a : App) (t : Transit) : Tx Unit := do
  let next ← t.stage.body a t.call
  refuse (next ≠ t.next) .database

/-- The database, and the calls that are under way or have been answered. -/
structure Desk where
  db : Database Row Error Transit
  calls : sql.Store fun _ : Nat => UnifiedCall × Stage

/-- What can happen next: a call arrives, begins its next transaction, makes the
next request of the one that is open, or crashes. -/
inductive Desk.Move where
  | arrive (n : Nat) (r : Asking) (given : UnifiedCall)
  | begin (n : Nat) (next : Stage)
  | exec (n : Nat)
  | crash (n : Nat)

/-- The calls after a request of one of them: it goes on to its next stage where
the transaction commits, and is gone where the transaction has failed. -/
def Desk.settle (d : Desk) (n : Nat) (db : Database Row Error Transit) : Desk :=
  match d.db.commits (.exec n) with
  | some t => { db, calls := d.calls.insert n (t.label.call, t.label.next) }
  | none => if n ∈ db.opens then { d with db } else { db, calls := d.calls.erase n }

def Desk.step (a : App) (d : Desk) : Desk.Move → Desk
  | .arrive n r given =>
    if n ∈ d.calls then d
    else match r.begin a given with
      | none => d
      | some c => { d with calls := d.calls.insert n (c, .reserve) }
  | .begin n next =>
    match d.calls.lookup n with
    | none => d
    | some (c, s) =>
      if s.final then d
      else { d with db := d.db.step (Transit.body a) (.start n { call := c, stage := s, next }) }
  | .exec n => if n ∈ d.db.opens then d.settle n (d.db.step (Transit.body a) (.exec n)) else d
  | .crash n =>
    match d.calls.lookup n with
    | none => d
    | some (_, s) =>
      if s.final then d else { db := d.db.step (Transit.body a) (.abort n), calls := d.calls.erase n }

def Desk.open_ (σ : Store) : Desk := { db := .idle σ, calls := ∅ }

abbrev Desk.after (a : App) (σ : Store) (moves : List Desk.Move) : Desk :=
  machine.run (Desk.step a) (Desk.open_ σ) moves

/-- What no call changes of a row that is there. -/
def Key.stays : (key : Key) → Row key → Row key → Prop
  | .unified_requests _ _, row, row' =>
    row'.request_hash = row.request_hash ∧ ∀ d, row.decision = some d → row'.decision = some d
  | .data_queries _ _, row, row' => row' = row
  | .investigations_idem _ _, id, id' => id' = id
  | _, _, _ => True

theorem Key.stays_refl (key : Key) (row : Row key) : key.stays row row := by
  cases key with
  | unified_requests => exact ⟨rfl, fun _ h => h⟩
  | data_queries | investigations_idem => rfl
  | _ => trivial

theorem Key.stays_trans {key : Key} {row row' row'' : Row key} (h : key.stays row row') (h' : key.stays row' row'') :
    key.stays row row'' := by
  cases key with
  | unified_requests => exact ⟨h'.1.trans h.1, fun d hd => h'.2 d (h.2 d hd)⟩
  | data_queries | investigations_idem => exact Eq.trans h' h
  | _ => trivial

/-- All rows are still there, as far as calls are concerned. -/
def Stays (σ σ' : Store) : Prop :=
  ∀ key row, σ.lookup key = some row → ∃ row', σ'.lookup key = some row' ∧ key.stays row row'

theorem Stays.refl (σ : Store) : Stays σ σ := fun key row hrow => ⟨row, hrow, key.stays_refl row⟩

theorem Stays.trans {σ σ' σ'' : Store} (h : Stays σ σ') (h' : Stays σ' σ'') : Stays σ σ'' := by
  intro key row hrow
  obtain ⟨row', hrow', hstays⟩ := h key row hrow
  obtain ⟨row'', hrow'', hstays'⟩ := h' key row' hrow'
  exact ⟨row'', hrow'', Key.stays_trans hstays hstays'⟩

/-- The calls share all rows; whoever changes one leaves what others have read of
it. `init` are the rows from which they have started. -/
def unifiedRows (init : Store) : Discipline Row where
  root := id
  Free _ _ _ := True
  Inv σ := Stays init σ
  Step := Stays
  free_refl _ _ := trivial
  free_trans _ _ _ _ _ _ := trivial
  step_refl := Stays.refl
  step_trans _ _ _ := Stays.trans

/-- What a call may write at a stage. A data query and an investigation are only
written where none is. -/
def Stage.Writes (a : App) (c : UnifiedCall) (s : Stage) : (key : Key) → Option (Row key) → Row key → Prop
  | .unified_requests u k, row, row' => ∀ old, row = some old → Key.stays (.unified_requests u k) old row'
  | .data_queries u k, row, row' => row = none ∧ u = c.Subject ∧ k = c.Idem ∧
      ∃ d, s = .submit d ∧ row'.request_hash = c.hash a ∧ row'.question = d.Question
  | .investigations_idem u k, row, _ => row = none ∧ u = c.Subject ∧ k = c.Idem ∧ ∃ d, s = .createTask d
  | _, _, _ => True

theorem Stage.Writes.stays {a : App} {c : UnifiedCall} {s : Stage} {key : Key} {row row' : Row key}
    (h : s.Writes a c key (some row) row') : key.stays row row' := by
  cases key with
  | unified_requests => exact h row rfl
  | data_queries | investigations_idem => cases h.1
  | _ => trivial

theorem Stage.Writes.trans {a : App} {c : UnifiedCall} {s : Stage} {key : Key} {old : Option (Row key)}
    {row row' : Row key} (h : s.Writes a c key old row) (h' : s.Writes a c key (some row) row') :
    s.Writes a c key old row' := by
  cases key with
  | unified_requests => exact fun first hfirst => Key.stays_trans (h first hfirst) (h' row rfl)
  | data_queries | investigations_idem => cases h'.1
  | _ => trivial

/-- A transaction has written what its stage may write. -/
structure Leaves (a : App) (init : Store) (c : UnifiedCall) (s : Stage) (ℓ : Local Row) : Prop where
  since : Stays init ℓ.committed
  written : ∀ key row, ℓ.writes.lookup key = some row → s.Writes a c key (ℓ.committed.lookup key) row

/-- There is a row of some kind under a key. -/
def Holds (key : Key) (P : Row key → Prop) (rows : (key : Key) → Option (Row key)) : Prop :=
  ∃ row, rows key = some row ∧ P row

section Leaves

variable {a : App} {init : Store} {c : UnifiedCall} {s : Stage} {ℓ ℓ' : Local Row}

/-- A row that a transaction reads is one that it replaces by what it may write. -/
theorem Leaves.stays (h : Leaves a init c s ℓ) : Stays ℓ.committed ℓ.commit := by
  intro key row hrow
  rw [Local.lookup_commit, Local.lookup]
  cases hwrites : ℓ.writes.lookup key with
  | none => exact ⟨row, hrow, key.stays_refl row⟩
  | some row' =>
    have hwritten := h.written key row' hwrites
    rw [hrow] at hwritten
    exact ⟨row', rfl, hwritten.stays⟩

theorem Leaves.steady : Steady (unifiedRows init) (Leaves a init c s) where
  stable ℓ ℓ' hrely h := by
    refine ⟨hrely.inv, fun key row hrow => ?_⟩
    have hkey : key ∈ ℓ.locks := by
      rw [← hrely.locks]
      exact (hrely.obeys key row hrow).1
    rw [hrely.locked key hkey]
    exact h.written key row (hrely.writes ▸ hrow)
  hold _ _ h := ⟨h.since, h.written⟩

/-- A transaction writes what its stage may. -/
theorem Leaves.kept : Kept (unifiedRows init) (Leaves a init c s) (s.Writes a c) where
  toSteady := Leaves.steady
  write ℓ key row h _ _ hrow := by
    refine ⟨.inr trivial, h.since, fun key' row' hrow' => ?_⟩
    by_cases hkey : key' = key
    · subst hkey
      rw [Local.write, AList.lookup_insert] at hrow'
      obtain rfl := Option.some.inj hrow'
      rw [Local.lookup] at hrow
      cases hwrites : ℓ.writes.lookup key' with
      | none => rwa [hwrites, Option.none_or] at hrow
      | some old =>
        rw [hwrites, Option.some_or] at hrow
        exact (h.written key' old hwrites).trans hrow
    · rw [Local.write, AList.lookup_insert_ne hkey] at hrow'
      exact h.written key' row' hrow'

/-- What others commit leaves the rows that a transaction has read. -/
theorem stays_of_rely (hrely : Rely (unifiedRows init) ℓ ℓ') {key : Key} {row : Row key}
    (hrow : ℓ.lookup key = some row) : ∃ row', ℓ'.lookup key = some row' ∧ key.stays row row' := by
  rw [Local.lookup, Option.or_eq_some_iff] at hrow
  obtain hwrites | ⟨hnone, hrow⟩ := hrow
  · exact ⟨row, by rw [Local.lookup, hrely.writes, hwrites, Option.some_or], key.stays_refl row⟩
  · obtain ⟨row', hrow', hstays⟩ := hrely.step key row hrow
    exact ⟨row', by rw [Local.lookup, hrely.writes, hnone, Option.none_or, hrow'], hstays⟩

/-- What a transaction has read stays true. -/
theorem Leaves.kept_holds {key : Key} {P : Row key → Prop} (hP : ∀ row row', key.stays row row' → P row → P row') :
    Kept (unifiedRows init) (fun ℓ => Leaves a init c s ℓ ∧ Holds key P ℓ.lookup) (s.Writes a c) where
  stable ℓ ℓ' hrely h := by
    obtain ⟨hleaves, row, hrow, hrowP⟩ := h
    obtain ⟨row', hrow', hstays⟩ := stays_of_rely hrely hrow
    exact ⟨Leaves.steady.stable ℓ ℓ' hrely hleaves, row', hrow', hP row row' hstays hrowP⟩
  hold ℓ key' h := ⟨Leaves.steady.hold ℓ key' h.1, h.2⟩
  write ℓ key' row' h hmet hkey' hwrites := by
    obtain ⟨hleaves, row, hrow, hrowP⟩ := h
    obtain ⟨hwritable, hleaves⟩ := Leaves.kept.write ℓ key' row' hleaves hmet hkey' hwrites
    refine ⟨hwritable, hleaves, ?_⟩
    by_cases hkey : key = key'
    · subst hkey
      rw [hrow] at hwrites
      exact ⟨row', Local.lookup_write_self ℓ key row', hP row row' hwrites.stays hrowP⟩
    · exact ⟨row, (Local.lookup_write_ne hkey ℓ row').trans hrow, hrowP⟩

end Leaves

/-- What a call has learned on its way from one stage to the next. -/
inductive Learned (a : App) (init : Store) (c : UnifiedCall) (rows : (key : Key) → Option (Row key)) :
    Stage → Stage → Prop where
  | conflict : Learned a init c rows .reserve (.failed (E 409 "idempotency_payload_conflict"))
  | reserved (kind : Option String) (cached : Option queryDecision)
      (h : Holds (.unified_requests c.Subject c.Idem)
        (fun row => row.request_hash = c.hash a ∧ ∀ d, cached = some d → row.decision = some d) rows) :
      Learned a init c rows .reserve (.lookup kind cached)
  | found (kind : Option String) (cached : Option queryDecision) (row : DataQuery)
      (h : Holds (.data_queries c.Subject c.Idem) (· = row) rows) :
      Learned a init c rows (.lookup kind cached) (.grant row.id row.dataset row.question)
  | missed (kind : Option String) (cached : Option queryDecision)
      (h : init.lookup (Key.data_queries c.Subject c.Idem) = none) :
      Learned a init c rows (.lookup kind cached) (.route kind cached)
  | granted (id dataset question : String) :
      Learned a init c rows (.grant id dataset question) (.answered (warehouseReply id question))
  | cached (kind : Option String) (d : queryDecision) : Learned a init c rows (.route kind (some d)) (c.act a d)
  | routed (kind : Option String) (d : queryDecision) : Learned a init c rows (.route kind none) (.store d)
  | stored (d d' : queryDecision)
      (h : Holds (.unified_requests c.Subject c.Idem) (fun row => row.decision = some d') rows) :
      Learned a init c rows (.store d) (c.act a d')
  | known (d : queryDecision) (id team : String)
      (h : Holds (.investigations_idem c.Subject c.Idem) (· = id) rows) :
      Learned a init c rows (.natural d) (.accept d id team)
  | unknown (d : queryDecision) : Learned a init c rows (.natural d) (.plan d)
  | accepted (d : queryDecision) (id team : String) :
      Learned a init c rows (.accept d id team) (.answered (acceptedReply id))
  | planned (d : queryDecision) : Learned a init c rows (.plan d) (.createTask d)
  | asked (d : queryDecision) (answer : Answer) (h : answer.code = 200) :
      Learned a init c rows (.plan d) (.answered answer)
  | made (d : queryDecision) (id : String) (h : Holds (.investigations_idem c.Subject c.Idem) (· = id) rows) :
      Learned a init c rows (.createTask d) (.answered (acceptedReply id))
  | allowed (d : queryDecision) : Learned a init c rows (.warehouse d) (.submit d)
  | admitted (d : queryDecision) (id : String)
      (h : Holds (.data_queries c.Subject c.Idem) (fun row => row.id = id) rows) :
      Learned a init c rows (.submit d) (.answered (warehouseReply id d.Question))
  | failed (s : Stage) (error : Error) (h : s ≠ .reserve) : Learned a init c rows s (.failed error)
  | settled (s : Stage) (h : s.final = true) : Learned a init c rows s s

section Stages

variable {W : Local Row → (key : Key) → Row key → Prop} {a : App} {init : Store} {c : UnifiedCall}

/-- A transaction leaves what it may, and has learned what it goes on with. -/
def Passes (a : App) (init : Store) (c : UnifiedCall) (s next : Stage) (ℓ : Local Row) : Prop :=
  Leaves a init c s ℓ ∧ Learned a init c ℓ.lookup s next

/-- Where the next stage follows from a check, the error ends the call. -/
theorem Learned.ofExcept {rows : (key : Key) → Option (Row key)} {s : Stage} {α : Type} {result : Except Error α}
    {next : α → Stage} (hs : s ≠ .reserve) (h : ∀ value, Learned a init c rows s (next value)) :
    Learned a init c rows s (.ofExcept result next) := by
  cases result with
  | error error => exact .failed s error hs
  | ok value => exact h value

/-- A stage that only reads goes on by what its statement sees. -/
theorem triple_read {s : Stage} {f : Store → Tx Stage}
    (h : ∀ snap, Triple (unifiedRows init) W
      (fun ℓ => Leaves a init c s ℓ ∧ ∀ key, snap.lookup key = ℓ.lookup key) (f snap) (Passes a init c s)) :
    Triple (unifiedRows init) W (Leaves a init c s) (snapshot >>= f) (Passes a init c s) :=
  (triple_snapshot (Q := fun snap ℓ => Leaves a init c s ℓ ∧ ∀ key, snap.lookup key = ℓ.lookup key)
    Leaves.steady.stable fun _ _ hℓ hsnap => ⟨hℓ, hsnap⟩).bind h

theorem triple_reserve :
    Triple (unifiedRows init) W (Leaves a init c .reserve) (Stage.reserve.body a c) (Passes a init c .reserve) := by
  refine (triple_upsert (Q := fun (row : UnifiedRequest) ℓ => Leaves a init c .reserve ℓ ∧
      Holds (.unified_requests c.Subject c.Idem) (fun row' => row'.request_hash = row.request_hash ∧
        ∀ d, row.decision = some d → row'.decision = some d) ℓ.lookup) Leaves.steady
      fun ℓ found hℓ hmet hkey hfound _ => ?_).bind fun row => triple_ret fun ℓ hℓ => ⟨hℓ.1, ?_⟩
  · obtain ⟨hwritable, hleaves⟩ := Leaves.kept.write ℓ (Key.unified_requests c.Subject c.Idem)
      ((found.map id).getD { request_hash := c.hash a, kind := none, decision := none }) hℓ hmet hkey (by
        rintro old hold
        rw [← hfound, hold]
        exact Key.stays_refl _ old)
    exact ⟨hwritable, hleaves, _, Local.lookup_write_self _ _ _, rfl, fun _ h => h⟩
  · by_cases hhash : row.request_hash = c.hash a
    · rw [if_neg (not_not.mpr hhash)]
      obtain ⟨row', hrow', hsame, hdecision⟩ := hℓ.2
      exact .reserved row.kind row.decision ⟨row', hrow', hsame.trans hhash, hdecision⟩
    · rw [if_pos hhash]
      exact .conflict

theorem triple_lookup (kind : Option String) (cached : Option queryDecision) :
    Triple (unifiedRows init) W (Leaves a init c (.lookup kind cached)) ((Stage.lookup kind cached).body a c)
      (Passes a init c (.lookup kind cached)) := by
  refine triple_read fun snap => ?_
  cases hrow : snap.lookup (Key.data_queries c.Subject c.Idem) with
  | some row =>
    refine triple_ret fun ℓ hℓ => ⟨hℓ.1, ?_⟩
    split
    · exact .failed _ _ (by simp)
    · exact .found kind cached row ⟨row, (hℓ.2 _).symm.trans hrow, rfl⟩
  | none =>
    refine triple_ret fun ℓ hℓ => ⟨hℓ.1, .missed kind cached ?_⟩
    cases hinit : init.lookup (Key.data_queries c.Subject c.Idem) with
    | none => rfl
    | some row =>
      obtain ⟨row', hrow', -⟩ := (hℓ.1.since.trans hℓ.1.stays) _ row hinit
      rw [Local.lookup_commit, ← hℓ.2, hrow] at hrow'
      cases hrow'

theorem triple_grant (id dataset question : String) :
    Triple (unifiedRows init) W (Leaves a init c (.grant id dataset question))
      ((Stage.grant id dataset question).body a c) (Passes a init c (.grant id dataset question)) :=
  triple_read fun _ => triple_ret fun _ hℓ =>
    ⟨hℓ.1, Learned.ofExcept nofun fun _ => .granted id dataset question⟩

theorem triple_route (kind : Option String) (cached : Option queryDecision) :
    Triple (unifiedRows init) W (Leaves a init c (.route kind cached)) ((Stage.route kind cached).body a c)
      (Passes a init c (.route kind cached)) := by
  refine triple_read fun snap => ?_
  cases cached with
  | some d => exact triple_ret fun ℓ hℓ => ⟨hℓ.1, .cached kind d⟩
  | none => exact triple_ret fun ℓ hℓ => ⟨hℓ.1, Learned.ofExcept nofun fun d => .routed kind d⟩

theorem triple_store (d : queryDecision) :
    Triple (unifiedRows init) W (Leaves a init c (.store d)) ((Stage.store d).body a c)
      (Passes a init c (.store d)) := by
  refine Triple.bind (Q := fun (row : Option UnifiedRequest) ℓ => Leaves a init c (.store d) ℓ ∧
    ∀ d', row.bind (·.decision) = some d' →
      Holds (.unified_requests c.Subject c.Idem) (fun row => row.decision = some d') ℓ.lookup) ?_ fun row => ?_
  · refine triple_updateOne Leaves.steady (fun ℓ hℓ => ⟨hℓ, nofun⟩) fun ℓ snap row hℓ hmet hkey hrow _ _ => ?_
    obtain ⟨hwritable, hleaves⟩ := Leaves.kept.write ℓ (Key.unified_requests c.Subject c.Idem)
      { row with decision := some (row.decision.getD d), kind := some ((row.decision.map (·.Kind)).getD d.Kind) }
      hℓ hmet hkey (by
        rintro old hold
        rw [hrow] at hold
        obtain rfl := Option.some.inj hold
        exact ⟨rfl, fun d' hd' => by simp [hd']⟩)
    exact ⟨hwritable, hleaves, fun d' hd' => ⟨_, Local.lookup_write_self _ _ _, hd'⟩⟩
  · exact triple_require_bind fun stored hstored => triple_ret fun ℓ hℓ =>
      ⟨hℓ.1, .stored d stored (hℓ.2 stored hstored)⟩

theorem triple_natural (d : queryDecision) :
    Triple (unifiedRows init) W (Leaves a init c (.natural d)) ((Stage.natural d).body a c)
      (Passes a init c (.natural d)) := by
  refine triple_read fun snap => ?_
  cases hfound : investigationByIdem snap c.Subject c.Idem with
  | none => exact triple_ret fun ℓ hℓ => ⟨hℓ.1, .unknown d⟩
  | some found =>
    refine triple_ret fun ℓ hℓ => ⟨hℓ.1, ?_⟩
    obtain ⟨id, hid, hrow⟩ := Option.bind_eq_some_iff.mp hfound
    obtain ⟨row, -, rfl⟩ := Option.map_eq_some_iff.mp hrow
    dsimp only
    split
    · exact .failed _ _ (by simp)
    · exact .known d id row.team ⟨id, (hℓ.2 _).symm.trans hid, rfl⟩

theorem triple_accept (d : queryDecision) (id team : String) :
    Triple (unifiedRows init) W (Leaves a init c (.accept d id team)) ((Stage.accept d id team).body a c)
      (Passes a init c (.accept d id team)) :=
  triple_read fun _ => triple_ret fun _ hℓ => ⟨hℓ.1, Learned.ofExcept nofun fun _ => .accepted d id team⟩

theorem triple_plan (d : queryDecision) :
    Triple (unifiedRows init) W (Leaves a init c (.plan d)) ((Stage.plan d).body a c)
      (Passes a init c (.plan d)) := by
  refine triple_read fun snap => triple_ret fun ℓ hℓ => ⟨hℓ.1, ?_⟩
  unfold UnifiedCall.planned
  split
  · exact .asked d _ rfl
  · refine Learned.ofExcept (by simp) fun plan => ?_
    split
    · exact .asked d _ rfl
    · split
      · exact .failed _ _ (by simp)
      · exact .planned d

theorem triple_createTask (d : queryDecision) :
    Triple (unifiedRows init) W (Leaves a init c (.createTask d)) ((Stage.createTask d).body a c)
      (Passes a init c (.createTask d)) := by
  refine keeps_ofExcept.bind fun plan => ?_
  have hwrites (key : Key) (row : Option (Row key)) (row' : Row key)
      (h : Key.admitted c.Subject c.Idem (naturalHash a (c.natural d)) key row row') :
      (Stage.createTask d).Writes a c key row row' := by
    cases key with
    | investigations_idem => exact ⟨h.2.2, h.1, h.2.1, d, rfl⟩
    | unified_requests | data_queries => exact h.elim
    | _ => trivial
  have hsame (id row row' : String) (h : Key.stays (.investigations_idem c.Subject c.Idem) row row')
      (hrow : row = id) : row' = id := Eq.trans h hrow
  refine (triple_createTask_admitted (Q := fun id ℓ => Leaves a init c (.createTask d) ℓ ∧
      Holds (.investigations_idem c.Subject c.Idem) (· = id) ℓ.lookup) (Leaves.kept.mono hwrites)
      (fun id => (Leaves.kept_holds (hsame id)).mono hwrites)
      (fun id ℓ hℓ hid => ⟨hℓ, id, hid, rfl⟩) a c.Now _ _ _).bind
    fun id => triple_ret fun ℓ hℓ => ⟨hℓ.1, .made d id hℓ.2⟩

theorem triple_warehouse (d : queryDecision) :
    Triple (unifiedRows init) W (Leaves a init c (.warehouse d)) ((Stage.warehouse d).body a c)
      (Passes a init c (.warehouse d)) :=
  triple_read fun _ => triple_ret fun _ hℓ => ⟨hℓ.1, Learned.ofExcept nofun fun _ => .allowed d⟩

theorem triple_submit (d : queryDecision) :
    Triple (unifiedRows init) W (Leaves a init c (.submit d)) ((Stage.submit d).body a c)
      (Passes a init c (.submit d)) := by
  let Admitted (id : String) (ℓ : Local Row) : Prop := Leaves a init c (.submit d) ℓ ∧
    Holds (.data_queries c.Subject c.Idem) (fun row : DataQuery => row.id = id) ℓ.lookup
  have hkept (id : String) : Kept (unifiedRows init) (Admitted id) ((Stage.submit d).Writes a c) :=
    Leaves.kept_holds fun row row' hsame hrow => (congrArg DataQuery.id hsame).trans hrow
  refine Triple.bind (Q := Admitted) ?_ fun id => triple_ret fun ℓ hℓ => ⟨hℓ.1, .admitted d id hℓ.2⟩
  refine (Leaves.kept.lockRow _).bind fun _ => ?_
  refine (triple_snapshot (Q := fun snap ℓ => Leaves a init c (.submit d) ℓ ∧
    ∀ key, snap.lookup key = ℓ.lookup key) Leaves.steady.stable fun _ _ hℓ hsnap => ⟨hℓ, hsnap⟩).bind fun snap => ?_
  cases hrow : snap.lookup (Key.data_queries c.Subject c.Idem) with
  | some prior =>
    exact triple_refuse_bind fun _ => triple_ret fun ℓ hℓ => ⟨hℓ.1, prior, (hℓ.2 _).symm.trans hrow, rfl⟩
  | none =>
    refine Triple.mono (J := Leaves a init c (.submit d)) ?_ (fun ℓ hℓ => hℓ.1) fun _ _ h => h
    refine Leaves.kept.snapshot.bind fun snap => keeps_refuse.bind fun _ => ?_
    refine Triple.bind (Q := fun _ => Admitted c.QueryID) ?_ fun _ =>
      Triple.bind (Q := fun _ => Admitted c.QueryID) ((hkept c.QueryID).insert (by trivial)) fun _ =>
      triple_ret fun ℓ hℓ => hℓ
    refine triple_insert Leaves.steady fun ℓ hℓ hmet hkey hnone _ => ?_
    obtain ⟨hwritable, hleaves⟩ := Leaves.kept.write ℓ (Key.data_queries c.Subject c.Idem)
      (newDataQuery c.Now c.QueryID d.Question (c.hash a)) hℓ hmet hkey ⟨hnone, rfl, rfl, d, rfl, rfl, rfl⟩
    exact ⟨hwritable, hleaves, _, Local.lookup_write_self _ _ _, rfl⟩

theorem triple_stage (s : Stage) :
    Triple (unifiedRows init) W (Leaves a init c s) (s.body a c) (Passes a init c s) := by
  cases s with
  | reserve => exact triple_reserve
  | lookup kind cached => exact triple_lookup kind cached
  | grant id dataset question => exact triple_grant id dataset question
  | route kind cached => exact triple_route kind cached
  | store d => exact triple_store d
  | natural d => exact triple_natural d
  | accept d id team => exact triple_accept d id team
  | plan d => exact triple_plan d
  | createTask d => exact triple_createTask d
  | warehouse d => exact triple_warehouse d
  | submit d => exact triple_submit d
  | answered answer => exact triple_ret fun ℓ hℓ => ⟨hℓ, .settled _ rfl⟩
  | failed error => exact triple_ret fun ℓ hℓ => ⟨hℓ, .settled _ rfl⟩

end Stages

end incidentdesk
