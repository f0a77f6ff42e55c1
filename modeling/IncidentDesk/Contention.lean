import IncidentDesk.Actions
import IncidentDesk.Queue
import IncidentDesk.Effects.Sources
import IncidentDesk.Seed
import IncidentDesk.Sql.Deadlock

namespace incidentdesk

open sql sql.Tx

/-- The transactions that contend for the rows of an investigation. -/
inductive Contender where
  | draft (now : Time) (u id : String) (b : Draft) (aid : String)
  | decide (now : Time) (u id : String) (Version : Int) (decision approval : String)
  | cancel (id : String)
  | resume (now : Time) (id information : String)
  | callback (now : Time) (id op : String) (b : Callback)
  | claim (now : Time) (owner : String)
  | invalidateSource (service : String) (remove : Bool)
  | actionBegin (now : Time)
  | actionFinish (now : Time) (r : actionRun) (result : Except String Json)

def Contender.body (a : App) : Contender → Tx Unit
  | draft now u id b aid => incidentdesk.draft a now u id b aid
  | decide now u id Version decision approval => incidentdesk.decide now u id Version decision approval
  | cancel id => incidentdesk.cancel id
  | resume now id information => incidentdesk.resume now id information
  | callback now id op b => discard (incidentdesk.callback a now id op b)
  | claim now owner => discard (incidentdesk.claim a now owner)
  | invalidateSource service remove => incidentdesk.invalidateSource service remove
  | actionBegin now => discard (incidentdesk.actionBegin now)
  | actionFinish now r result => incidentdesk.actionFinish now r result

/-- The rows that belong to one investigation. -/
inductive Part where
  | service
  | investigation
  | job
  | action
deriving DecidableEq

def Key.part (id service : String) : Key → Option Part
  | .services service' => if service' = service then some .service else none
  | .investigations id' => if id' = id then some .investigation else none
  | .jobs id' => if id' = id then some .job else none
  | .actions id' => if id' = id then some .action else none
  | _ => none

/-- The rows of the investigation `id` of a service. -/
def rowsOf (id service : String) : Territory Key Part where
  part := Key.part id service
  inj key key' p h h' := by
    cases key <;> cases key' <;> simp_all [Key.part] <;> grind

/-- The order in which a transaction waits for the rows of an investigation. -/
def Contender.Before (id service : String) : Contender → Part → Part → Prop
  | draft _ _ id' _ _, .investigation, .action => id' = id
  | decide _ _ id' _ _ _, .action, .investigation => id' = id
  | cancel id', .investigation, .job | cancel id', .investigation, .action | cancel id', .job, .action => id' = id
  | resume _ id' _, .investigation, .job | resume _ id' _, .investigation, .action
  | resume _ id' _, .job, .action => id' = id
  | callback _ id' _ _, .job, .investigation => id' = id
  | claim _ _, .investigation, .job => True
  | invalidateSource service' _, .service, .action | invalidateSource service' _, .service, .investigation
  | invalidateSource service' _, .action, .investigation => service' = service
  | invalidateSource service' remove, .investigation, .action => service' = service ∧ remove = true
  | actionFinish _ r _, .action, .investigation => r.Investigation = id
  | _, _, _ => False

/-- The service whose sources a transaction invalidates. -/
def Contender.invalidates : Contender → Option String
  | invalidateSource service _ => some service
  | _ => none

/-- `invalidateSource` locks the row of its service first of all. -/
def Contender.Needs (service : String) (t : Contender) (q p : Part) : Prop :=
  p = .service ∧ q ≠ .service ∧ t.invalidates = some service

def Contender.order (id service : String) (t : Contender) : LockOrder Part where
  Before := t.Before id service
  Needs := t.Needs service

/-- What every version of a row satisfies once the investigation is there. -/
def Placed (id service : String) : (key : Key) → Option (Row key) → Prop
  | .investigations id', row => id' = id → ∃ i, row = some i ∧ i.service = service
  | _, _ => True

section Orderly

variable {id service : String} {t : Contender} {A B : List Part}

/-- The body of a transaction in progress, from one set of locks to the next. -/
abbrev Orders (id service : String) (t : Contender) {α : Type} (A B : List Part) (body : Tx α)
    (Q : α → List Key → Prop) : Prop :=
  Locks (Placed id service) ((t.order id service).Allows (rowsOf id service)) ((rowsOf id service).Holding A B) body Q

section Parts

variable {id' service' : String} {q : Part}

@[simp] theorem part_services :
    (rowsOf id service).part (Key.services service') = some q ↔ service' = service ∧ q = .service := by
  simp [rowsOf, Key.part, eq_comm]

@[simp] theorem part_investigations :
    (rowsOf id service).part (Key.investigations id') = some q ↔ id' = id ∧ q = .investigation := by
  simp [rowsOf, Key.part, eq_comm]

@[simp] theorem part_jobs : (rowsOf id service).part (Key.jobs id') = some q ↔ id' = id ∧ q = .job := by
  simp [rowsOf, Key.part, eq_comm]

@[simp] theorem part_actions : (rowsOf id service).part (Key.actions id') = some q ↔ id' = id ∧ q = .action := by
  simp [rowsOf, Key.part, eq_comm]

end Parts

/-- A transaction other than `invalidateSource` may wait for what comes last in
its order. -/
theorem permits_last {key : Key} (ht : t.invalidates = none)
    (h : ∀ q ∈ (rowsOf id service).parts key, ∀ p ∈ A, p = q ∨ t.Before id service p q) (q : Part)
    (hq : q ∈ (rowsOf id service).parts key) : (t.order id service).Permits A B q :=
  .inr ⟨h q hq, fun _ hneeds => by cases ht.symm.trans hneeds.2.2⟩

theorem orders_event {id' kind : String} {payload : Json}
    (h : ∀ q ∈ (rowsOf id service).parts (Key.investigations id'), (t.order id service).Permits A B q) :
    Orders id service t A B (event id' kind payload) fun _ _ => True := by
  refine (orderly_updateOne h fun snap row hrow hid => ?_).bind fun row => ?_
  · obtain ⟨i, hi, hservice⟩ := hrow hid
    cases hi
    exact ⟨_, rfl, hservice⟩
  · refine locks_require_bind fun row' _ => ?_
    refine (orderly_insert (fun q hq => ?_) trivial).post fun _ _ _ => trivial
    cases Territory.mem_parts.mp hq

theorem orders_event_held {id' kind : String} {payload : Json}
    (h : id' = id → Part.investigation ∈ B) : Orders id service t A B (event id' kind payload) fun _ _ => True := by
  refine orders_event (permits_held fun q hq => ?_)
  obtain ⟨hid, rfl⟩ := part_investigations.mp (Territory.mem_parts.mp hq)
  exact h hid

/-- The investigation itself is always there. -/
theorem placed_found {id' : String} (q : Part) (hq : q ∈ (rowsOf id service).parts (Key.investigations id'))
    (row : Option Investigation) (hrow : Placed id service (Key.investigations id') row) :
    (row.filter fun _ => true).isSome = true := by
  obtain ⟨rfl, -⟩ := part_investigations.mp (Territory.mem_parts.mp hq)
  obtain ⟨i, rfl, -⟩ := hrow rfl
  rfl

theorem orders_cancel (id' : String) :
    Orders id service (.cancel id') [] [] (cancel id') fun _ _ => True := by
  refine (orderly_updateOne_found ?_ ?_ placed_found).bind fun _ => ?_
  · exact permits_last rfl nofun
  · simp [Placed]
  refine (orderly_updateOne ?_ ?_).bind fun _ => ?_
  · apply permits_last rfl
    simp [Contender.Before]
  · simp [Placed]
  refine (orderly_updateOne ?_ ?_).bind fun _ => ?_
  · apply permits_last rfl
    simp
    rintro rfl p (⟨-, rfl⟩ | ⟨-, rfl⟩)
    · exact .inr rfl
    · exact .inr rfl
  · simp [Placed]
  exact orders_event_held fun hid => by simp [hid]

theorem orders_resume (now : Time) (id' information : String) :
    Orders id service (.resume now id' information) [] [] (resume now id' information) fun _ _ => True := by
  refine locks_refuse_bind fun _ => ?_
  refine (orderly_updateOne_some ?_ ?_).bind fun updated => locks_refuse_bind fun hupdated => ?_
  · exact permits_last rfl nofun
  · simp [Placed]
  refine Locks.pre ?_ fun _ hheld => hheld.2 hupdated
  refine (orderly_updateOne ?_ ?_).bind fun _ => ?_
  · apply permits_last rfl
    simp [Contender.Before]
  · simp [Placed]
  refine (orderly_updateOne ?_ ?_).bind fun _ => ?_
  · apply permits_last rfl
    simp
    rintro rfl p (⟨-, rfl⟩ | ⟨-, rfl⟩)
    · exact .inr rfl
    · exact .inr rfl
  · simp [Placed]
  exact orders_event_held fun hid => by simp [hid]

theorem orders_draft (a : App) (now : Time) (u id' : String) (b : Draft) (aid : String) :
    Orders id service (.draft now u id' b aid) [] [] (draft a now u id' b aid) fun _ _ => True := by
  refine locks_refuse_bind fun _ => ?_
  refine (orderly_selectForUpdate ?_).bind fun found => ?_
  · exact permits_last rfl nofun
  obtain ⟨snap, found⟩ := found
  refine locks_require_bind fun i hi => Locks.pre ?_ fun _ hheld => hheld.2 (by simp [hi])
  refine locks_require_bind fun s _ => locks_snapshot_bind fun _ _ => locks_ofExcept_bind fun _ _ =>
    locks_refuse_bind fun _ => locks_refuse_bind fun _ => ?_
  refine (orderly_selectForUpdate ?_).bind fun existing => ?_
  · apply permits_last rfl
    simp [Contender.Before]
  refine Locks.pre ?_ fun _ hheld => hheld.1
  refine locks_refuse_bind fun _ => locks_refuse_bind fun _ => ?_
  refine (orderly_lockRow ?_).bind fun row => ?_
  · apply permits_last rfl
    simp
    rintro rfl p (⟨-, rfl⟩ | ⟨-, rfl⟩)
    · exact .inl rfl
    · exact .inr rfl
  cases row with
  | none =>
    refine (orderly_insert permits_locked trivial).bind fun _ => (orderly_insert nofun trivial).bind fun _ => ?_
    exact orders_event_held fun hid => by simp [hid]
  | some row =>
    refine (orderly_replace trivial).bind fun _ => ?_
    exact orders_event_held fun hid => by simp [hid]

/-- Whichever action has the identifier, no row but it is locked. -/
theorem orders_updateAction {aid : String} {f : Action → Action} (h : (t.order id service).Permits A B .action) :
    Orders id service t A B (updateAction aid f) fun _ => (rowsOf id service).Holding (.action :: A) B := by
  refine locks_snapshot_bind fun snap _ => ?_
  cases snap.lookup (Key.actions_id aid) with
  | none => exact locks_ret fun _ hheld => hheld.mono (fun _ => List.mem_cons_of_mem _) fun _ hp => hp
  | some id' =>
    refine (orderly_updateOne ?_ fun _ _ _ => trivial).bind_ret fun _ _ hheld => hheld.mono ?_ fun _ hp => hp
    · simp
      rintro rfl
      exact h
    · simp
      rintro p (⟨-, rfl⟩ | hp)
      · exact .inl rfl
      · exact .inr hp

theorem orders_decide (now : Time) (u id' : String) (Version : Int) (decision approval : String) :
    Orders id service (.decide now u id' Version decision approval) [] []
      (incidentdesk.decide now u id' Version decision approval) fun _ _ => True := by
  refine locks_ofExcept_bind fun decision' _ => locks_snapshot_bind fun snap _ =>
    locks_require_bind fun _ _ => locks_require_bind fun _ _ => ?_
  refine (orderly_lockRow ?_).bind fun act => locks_require_bind fun act _ => ?_
  · exact permits_last rfl nofun
  refine (orderly_lockRow ?_).bind fun i => locks_require_bind fun i _ => ?_
  · apply permits_last rfl
    simp [Contender.Before]
  refine locks_require_bind fun s _ => locks_snapshot_bind fun _ _ => locks_ofExcept_bind fun _ _ =>
    locks_refuse_bind fun _ => ?_
  have haction : ((Contender.decide now u id' Version decision approval).order id service).Permits
      ((rowsOf id service).parts (Key.investigations id') ++ ((rowsOf id service).parts (Key.actions id') ++ []))
      ((rowsOf id service).parts (Key.investigations id') ++ ((rowsOf id service).parts (Key.actions id') ++ []))
      .action := by
    by_cases hid : id' = id
    · exact .inl (by simp [hid])
    · exact .inr ⟨by simp [hid], by simp [Contender.order, Contender.Needs, Contender.invalidates]⟩
  refine locks_ite (fun _ => ?_) fun _ => ?_
  · exact locks_refuse_bind fun _ => (orders_updateAction haction).post fun _ _ _ => trivial
  · refine locks_refuse_bind fun _ => locks_ite (fun _ => locks_ret fun _ _ => trivial) fun _ =>
      locks_refuse_bind fun _ => ?_
    refine (orderly_insert nofun trivial).bind fun _ => (orders_updateAction ?_).bind fun _ => ?_
    · exact haction
    · exact orders_event_held fun hid => by simp [hid]

theorem orders_actionFinish (now : Time) (r : actionRun) (result : Except String Json) :
    Orders id service (.actionFinish now r result) [] [] (actionFinish now r result) fun _ _ => True := by
  refine (orders_updateAction ?_).bind fun _ => ?_
  · exact .inr ⟨nofun, by simp [Contender.order, Contender.Needs, Contender.invalidates]⟩
  · apply orders_event
    apply permits_last rfl
    simp
    rintro hid
    exact hid

/-- What `Placed` says of the investigation whose rows these are. -/
theorem Placed.service_eq {snap : Store} (h : ∀ key, Placed id service key (snap.lookup key)) {i : Investigation}
    (hi : snap.lookup (Key.investigations id) = some i) : i.service = service := by
  obtain ⟨i', hi', hservice⟩ := h (Key.investigations id) rfl
  obtain rfl : i = i' := Option.some.inj (hi.symm.trans hi')
  exact hservice

section Tables

variable {C : List Part} (hC : ∀ q ∈ C, (t.order id service).Permits (C ++ A) B q)

include hC

theorem orders_updateInvestigations {p : Store → String → Investigation → Bool}
    {f : Store → String → Investigation → Investigation}
    (hservice : ∀ snap id' row, (f snap id' row).service = row.service)
    (hp : ∀ snap i, i.service = service → p snap id i = true → Part.investigation ∈ C) :
    Orders id service t A B (updateInvestigations p f) fun _ => (rowsOf id service).Holding (C ++ A) B := by
  refine orderly_updateAll hC (fun snap key row hrow => ?_) fun snap hsnap key row hrow hrow' q hq => ?_
  · cases key with
    | investigations id' =>
      intro hid
      obtain ⟨i, hi, hi'⟩ := hrow hid
      cases hi
      exact ⟨_, rfl, (hservice snap id' row).trans hi'⟩
    | _ => trivial
  · cases key with
    | investigations id' =>
      obtain ⟨rfl, rfl⟩ := part_investigations.mp (Territory.mem_parts.mp hq)
      exact hp snap row (Placed.service_eq hsnap hrow) hrow'
    | _ => cases hrow'

theorem orders_updateJobs {p : Job → Bool} {f : Job → Job} (hp : Part.job ∈ C) :
    Orders id service t A B (updateJobs p f) fun _ => (rowsOf id service).Holding (C ++ A) B := by
  refine orderly_updateAll hC (fun snap key row hrow => ?_) fun snap hsnap key row hrow hrow' q hq => ?_
  · cases key with
    | investigations => exact hrow
    | _ => trivial
  · cases key with
    | jobs id' =>
      obtain ⟨rfl, rfl⟩ := part_jobs.mp (Territory.mem_parts.mp hq)
      exact hp
    | _ => cases hrow'

theorem orders_updateActions {p : Store → String → Action → Bool} {f : Action → Action}
    (hp : ∀ snap i row, snap.lookup (Key.investigations id) = some i → i.service = service → p snap id row = true →
      Part.action ∈ C) :
    Orders id service t A B (updateActions p f) fun _ => (rowsOf id service).Holding (C ++ A) B := by
  refine orderly_updateAll hC (fun snap key row hrow => ?_) fun snap hsnap key row hrow hrow' q hq => ?_
  · cases key with
    | investigations => exact hrow
    | _ => trivial
  · cases key with
    | actions id' =>
      obtain ⟨rfl, rfl⟩ := part_actions.mp (Territory.mem_parts.mp hq)
      obtain ⟨i, hi, hservice⟩ := hsnap (Key.investigations id') rfl
      exact hp snap i row hi hservice hrow'
    | _ => cases hrow'

end Tables

/-- An update of rows that do not belong to an investigation's. -/
theorem orders_updateOthers {p : Store → (key : Key) → Row key → Bool} {f : Store → (key : Key) → Row key → Row key}
    (hp : ∀ snap key row, p snap key row = true → (rowsOf id service).parts key = [])
    (hf : ∀ snap i, f snap (Key.investigations id) i = i) :
    Orders id service t A B (updateAll p f) fun _ => (rowsOf id service).Holding A B := by
  refine orderly_updateAll (C := []) nofun (fun snap key row hrow => ?_) fun snap _ key row _ hrow q hq => ?_
  · cases key with
    | investigations id' =>
      rintro rfl
      rw [hf]
      exact hrow rfl
    | _ => trivial
  · rwa [hp snap key row hrow] at hq

theorem orders_sweep (now : Time) (owner : String) :
    Orders id service (.claim now owner) [] [] (sweep now)
      fun _ => (rowsOf id service).Holding [.job, .investigation] [] := by
  refine (orders_updateInvestigations (C := [.investigation]) ?_ ?_ ?_).bind fun _ => ?_
  · simp [LockOrder.Permits, Contender.order, Contender.Needs, Contender.invalidates]
  · simp
  · simp
  refine Locks.bind_ret (orders_updateJobs (C := [.job]) ?_ ?_) fun _ _ hheld => hheld
  · simp [LockOrder.Permits, Contender.order, Contender.Needs, Contender.invalidates, Contender.Before]
  · simp

theorem orders_claimFirst (now : Time) (owner : String) (ids : List String) :
    Orders id service (.claim now owner) [.job, .investigation] [] (claimFirst now ids) fun found held =>
      ∀ id' i, found = some (id', i) → (rowsOf id service).Holding [.job, .investigation]
        ((rowsOf id service).parts (Key.investigations id') ++ (rowsOf id service).parts (Key.jobs id')) held := by
  induction ids with
  | nil => exact locks_ret fun _ _ _ _ h => by cases h
  | cons id' ids ih =>
    refine Locks.bind (locks_tryLockRow fun held hheld => hheld.insert (by simp)) fun job => ?_
    obtain _ | _ | job := job
    · exact ih.pre fun _ hheld => hheld.2
    · exact ih.pre fun _ hheld => hheld.2
    refine Locks.bind (locks_tryLockRow fun held hheld =>
      ⟨fun hjob => List.mem_cons_of_mem _ (hheld.1 hjob), hheld.2.insert (by simp)⟩) fun i => ?_
    obtain _ | _ | i := i
    · exact ih.pre fun _ hheld => hheld.2.2
    · exact ih.pre fun _ hheld => hheld.2.2
    refine locks_ite (fun _ => locks_ret ?_) fun _ => ih.pre fun _ hheld => hheld.2.2
    rintro held ⟨hi, hjob, hheld⟩ id₀ i₀ ⟨⟩
    simpa using (hheld.and_mem (hjob (by simp))).and_mem (hi (by simp))

theorem orders_claim (a : App) (now : Time) (owner : String) :
    Orders id service (.claim now owner) [] [] (discard (claim a now owner)) fun _ _ => True := by
  refine Locks.bind_ret (Q := fun _ _ => True) ?_ fun _ _ _ => trivial
  refine locks_refuse_bind fun _ => ?_
  refine (orderly_lockRow nofun).bind fun _ => (orders_sweep now owner).bind fun _ => ?_
  refine locks_snapshot_bind fun _ _ => locks_ite (fun _ => locks_ret fun _ _ => trivial) fun _ => ?_
  refine locks_snapshot_bind fun _ _ => (orders_claimFirst now owner _).bind fun found => ?_
  cases found with
  | none => exact locks_ret fun _ _ => trivial
  | some found =>
    obtain ⟨id', i⟩ := found
    refine Locks.pre ?_ fun _ hheld => hheld id' i rfl
    refine locks_snapshot_bind fun snap _ => ?_
    cases member snap i.subject i.team false with
    | error =>
      refine (orderly_updateOne ?_ ?_).bind fun _ => (orderly_updateOne ?_ ?_).bind_ret fun _ _ _ => trivial
      · exact permits_held (by simp)
      · simp [Placed]
      · exact permits_held (by simp)
      · simp [Placed]
    | ok =>
      refine (orderly_updateOne ?_ ?_).bind fun _ => (orderly_updateOne ?_ ?_).bind fun _ => ?_
      · exact permits_held (by simp)
      · simp [Placed]
      · exact permits_held (by simp)
      · simp [Placed]
      refine (orders_event_held fun hid => by simp [hid]).bind fun _ => ?_
      exact locks_snapshot_bind fun _ _ => locks_require_bind fun _ _ => locks_ret fun _ _ => trivial

theorem orders_fence {op : String} {b : Callback} (now : Time) (id' : String) :
    Orders id service (.callback now id' op b) ((rowsOf id service).parts (Key.jobs id')) [] (fence now id' b)
      fun _ => (rowsOf id service).Holding
        ((rowsOf id service).parts (Key.investigations id') ++ (rowsOf id service).parts (Key.jobs id'))
        ((rowsOf id service).parts (Key.investigations id') ++ (rowsOf id service).parts (Key.jobs id')) := by
  refine locks_snapshot_bind fun _ _ => locks_require_bind fun _ _ => locks_require_bind fun _ _ => ?_
  refine (orderly_lockRow ?_).bind fun job => locks_require_bind fun job _ => ?_
  · apply permits_last rfl
    simp +contextual
  refine (orderly_lockRow ?_).bind fun i => locks_require_bind fun i _ => ?_
  · apply permits_last rfl
    simp +contextual [Contender.Before]
  refine locks_require_bind fun _ _ => locks_refuse_bind fun _ => locks_snapshot_bind fun _ _ =>
    locks_ofExcept_bind fun _ _ => locks_ret fun _ hheld => hheld.mono ?_ ?_
  · simp
  · simp

theorem orders_fencedCallback (a : App) (now : Time) (id' op : String) (b : Callback) :
    Orders id service (.callback now id' op b) ((rowsOf id service).parts (Key.jobs id')) []
      (fencedCallback a now id' op b) fun _ _ => True := by
  refine (orders_fence now id').bind fun _ => ?_
  have hevent {kind : String} {payload : Json} {reply : Reply} :
      Orders id service (.callback now id' op b)
        ((rowsOf id service).parts (Key.investigations id') ++ (rowsOf id service).parts (Key.jobs id'))
        ((rowsOf id service).parts (Key.investigations id') ++ (rowsOf id service).parts (Key.jobs id'))
        (do event id' kind payload; return reply) fun _ _ => True :=
    Locks.bind_ret (orders_event_held fun hid => by simp [hid]) fun _ _ _ => trivial
  refine locks_ite (fun _ => hevent) fun _ => locks_ite (fun _ => ?_) fun _ => locks_ite (fun _ => ?_) fun _ =>
    locks_ite (fun _ => locks_refuse_bind fun _ => hevent) fun _ => locks_ite (fun _ => ?_) fun _ =>
    locks_ite (fun _ => ?_) fun _ => locks_raise
  · refine (orderly_updateOne ?_ ?_).bind_ret fun _ _ _ => trivial
    · exact permits_held (by simp)
    · simp [Placed]
  · exact locks_refuse_bind fun _ => locks_snapshot_bind fun _ _ => locks_require_bind fun _ _ =>
      locks_require_bind fun _ _ => locks_snapshot_bind fun _ _ => hevent
  · refine Locks.bind_ret (Q := fun _ _ => True) ?_ fun _ _ _ => trivial
    refine locks_snapshot_bind fun _ _ => locks_require_bind fun _ _ => locks_require_bind fun _ _ =>
      locks_refuse_bind fun _ => locks_refuse_bind fun _ => locks_require_bind fun _ _ =>
      locks_ofExcept_bind fun _ _ => ?_
    refine (orderly_updateOne ?_ ?_).bind fun _ => (orderly_updateOne ?_ ?_).bind fun _ => ?_
    · exact permits_held (by simp)
    · simp [Placed]
    · exact permits_held (by simp)
    · simp [Placed]
    · exact orders_event_held fun hid => by simp [hid]
  · refine Locks.bind_ret (Q := fun _ _ => True) ?_ fun _ _ _ => trivial
    refine (orderly_updateOne ?_ ?_).bind fun _ => (orderly_updateOne ?_ ?_).bind_ret fun _ _ _ => trivial
    · exact permits_held (by simp)
    · simp [Placed]
    · exact permits_held (by simp)
    · simp [Placed]

theorem orders_callback (a : App) (now : Time) (id' op : String) (b : Callback) :
    Orders id service (.callback now id' op b) [] [] (discard (callback a now id' op b)) fun _ _ => True := by
  have hfenced : Orders id service (.callback now id' op b) ((rowsOf id service).parts (Key.jobs id')) []
      (fencedCallback a now id' op b) fun _ _ => True := orders_fencedCallback a now id' op b
  refine Locks.bind_ret (Q := fun _ _ => True) ?_ fun _ _ _ => trivial
  refine locks_ite (fun _ => ?_) fun _ => hfenced.pre fun _ hheld => hheld.mono nofun fun _ hp => hp
  refine Locks.bind (Q := fun _ => (rowsOf id service).Holding ((rowsOf id service).parts (Key.jobs id')) []) ?_
    fun again => ?_
  · refine (orderly_selectForUpdate ?_).bind fun found => locks_require_bind fun job _ => ?_
    · exact permits_last rfl nofun
    have hheld {locks : List Key} (h : (rowsOf id service).Holding
        ((rowsOf id service).parts (Key.jobs id') ++ []) [] locks) :
        (rowsOf id service).Holding ((rowsOf id service).parts (Key.jobs id')) [] locks :=
      h.mono (by simp) fun _ hp => hp
    refine Locks.pre ?_ fun _ h => hheld h.1
    exact locks_ite (fun _ => locks_refuse_bind fun _ => locks_ret fun _ hheld => hheld) fun _ =>
      locks_ret fun _ hheld => hheld
  · exact locks_ite (fun _ => locks_ret fun _ _ => trivial) fun _ => hfenced

section Invalidation

/-- The rows that `invalidateSource` has locked, if it is for the service of the
investigation. -/
abbrev touched (service' service : String) (parts : List Part) : List Part := if service' = service then parts else []

theorem mem_touched {service' : String} {parts : List Part} {q : Part} :
    q ∈ touched service' service parts ↔ service' = service ∧ q ∈ parts := by
  unfold touched
  split <;> simp_all

theorem parts_services_eq (service' : String) :
    (rowsOf id service).parts (Key.services service') = touched service' service [.service] := by
  simp only [Territory.parts, rowsOf, Key.part, touched]
  split <;> rfl

variable {service' : String} {remove : Bool} {parts : List Part}

/-- `invalidateSource` after some of its statements: it holds the row of its
service, and at most the named rows. -/
abbrev Invalidating (id service service' : String) (parts : List Part) : List Key → Prop :=
  (rowsOf id service).Holding (touched service' service parts) (touched service' service [.service])

abbrev Invalidates (id service service' : String) (remove : Bool) {α : Type} (parts : List Part) (body : Tx α)
    (parts' : List Part) : Prop :=
  Orders id service (.invalidateSource service' remove) (touched service' service parts)
    (touched service' service [.service]) body fun _ => Invalidating id service service' parts'

theorem permits_touched {next : Part}
    (hnext : ∀ p ∈ parts, p = next ∨ (Contender.invalidateSource service remove).Before id service p next) (q : Part)
    (hq : q ∈ touched service' service [next]) :
    ((Contender.invalidateSource service' remove).order id service).Permits
      (touched service' service [next] ++ touched service' service parts) (touched service' service [.service]) q := by
  obtain ⟨rfl, hmem⟩ := mem_touched.mp hq
  obtain rfl := List.mem_singleton.mp hmem
  refine .inr ⟨fun p hp => ?_, fun p hneeds => mem_touched.mpr ⟨rfl, List.mem_singleton.mpr hneeds.1⟩⟩
  obtain hp | hp := List.mem_append.mp hp
  · exact .inl (List.mem_singleton.mp (mem_touched.mp hp).2)
  · exact hnext p (mem_touched.mp hp).2

theorem Invalidating.cons {next : Part} {held : List Key}
    (h : (rowsOf id service).Holding (touched service' service [next] ++ touched service' service parts)
      (touched service' service [.service]) held) : Invalidating id service service' (next :: parts) held := by
  refine h.mono (fun p hp => mem_touched.mpr ?_) fun _ hp => hp
  obtain hp | hp := List.mem_append.mp hp
  · exact ⟨(mem_touched.mp hp).1, List.mem_cons.mpr (.inl (List.mem_singleton.mp (mem_touched.mp hp).2))⟩
  · exact ⟨(mem_touched.mp hp).1, List.mem_cons_of_mem _ (mem_touched.mp hp).2⟩

theorem invalidates_investigations {p : Store → String → Investigation → Bool}
    {f : Store → String → Investigation → Investigation}
    (hparts : ∀ p ∈ parts, p = .investigation ∨
      (Contender.invalidateSource service remove).Before id service p .investigation)
    (hservice : ∀ snap id' row, (f snap id' row).service = row.service)
    (hp : ∀ snap i, p snap id i = true → i.service = service') :
    Invalidates id service service' remove parts (updateInvestigations p f) (.investigation :: parts) := by
  refine (orders_updateInvestigations (permits_touched hparts) hservice ?_).post fun _ _ => Invalidating.cons
  intro snap i hi hrow
  exact mem_touched.mpr ⟨(hp snap i hrow).symm.trans hi, List.mem_singleton_self _⟩

theorem invalidates_actions {p : Store → String → Action → Bool} {f : Action → Action}
    (hparts : ∀ p ∈ parts, p = .action ∨ (Contender.invalidateSource service remove).Before id service p .action)
    (hp : ∀ snap row, p snap id row = true → ofService snap service' id = true) :
    Invalidates id service service' remove parts (updateActions p f) (.action :: parts) := by
  refine (orders_updateActions (permits_touched hparts) ?_).post fun _ _ => Invalidating.cons
  intro snap i row hi hservice hrow
  have hof : i.service = service' := by simpa [ofService, hi] using hp snap row hrow
  exact mem_touched.mpr ⟨hof.symm.trans hservice, List.mem_singleton_self _⟩

theorem invalidates_moveWatermark (kind : String) :
    Orders id service (.invalidateSource service' remove) [] [] (moveWatermark service' kind) fun _ =>
      Invalidating id service service' [.action, .service] := by
  refine (orderly_updateOne_some ?_ fun _ _ _ => trivial).bind fun updated => locks_require_bind fun s hs => ?_
  · simp [LockOrder.Permits, Contender.order, Contender.Needs]
  refine Locks.pre (J := Invalidating id service service' [.service]) ?_ fun held hheld => ?_
  · refine (orderly_insert nofun trivial).bind fun _ => (invalidates_actions ?_ ?_).bind fun _ => ?_
    · simp [Contender.Before]
    · simp +contextual
    refine (orders_updateOthers ?_ ?_).bind_ret fun _ _ hheld => hheld
    · intro snap key row hp
      cases key with
      | memories => rfl
      | _ => cases hp
    · simp
  · have hheld' := hheld.2 (by simp [hs])
    simpa [parts_services_eq] using hheld'

theorem invalidates_removeContent :
    Orders id service (.invalidateSource service' true) (touched service' service [.action, .service])
      (touched service' service [.service]) (removeContent service') fun _ =>
      Invalidating id service service' [.action, .investigation, .action, .service] := by
  refine (invalidates_investigations ?_ (by simp) (by simp)).bind fun _ => (invalidates_actions ?_ ?_).bind fun _ => ?_
  · simp [Contender.Before]
  · simp [Contender.Before]
  · simp
  refine (orders_updateOthers ?_ ?_).bind fun _ => (orders_updateOthers ?_ ?_).bind fun _ =>
    (orders_updateOthers ?_ ?_).bind_ret fun _ _ hheld => hheld
  · intro snap key row hp
    cases key with
    | events => rfl
    | _ => cases hp
  · simp
  · intro snap key row hp
    cases key with
    | memories => rfl
    | _ => cases hp
  · simp
  · intro snap key row hp
    cases key with
    | badcases => rfl
    | _ => cases hp
  · simp

theorem invalidates_notifyWorkbenches (watermark : Nat)
    (hparts : ∀ p ∈ parts, p = .investigation ∨
      (Contender.invalidateSource service remove).Before id service p .investigation) :
    Orders id service (.invalidateSource service' remove) (touched service' service parts)
      (touched service' service [.service]) (notifyWorkbenches service' remove watermark) fun _ _ => True := by
  refine (invalidates_investigations hparts (by simp) (by simp)).bind fun changed => ?_
  refine (orderly_insertEach _ fun e he => ?_).post fun _ _ _ => trivial
  obtain ⟨id', n, hevent⟩ := key_of_sourceInvalidated he
  obtain ⟨key, row⟩ := e
  obtain rfl := hevent
  exact ⟨rfl, trivial⟩

theorem orders_invalidateSource (service' : String) (remove : Bool) :
    Orders id service (.invalidateSource service' remove) [] [] (invalidateSource service' remove) fun _ _ => True := by
  refine (invalidates_moveWatermark _).bind fun watermark => ?_
  cases remove with
  | false =>
    refine invalidates_notifyWorkbenches watermark ?_
    simp [Contender.Before]
  | true =>
    refine invalidates_removeContent.bind fun _ => invalidates_notifyWorkbenches watermark ?_
    simp [Contender.Before]

end Invalidation

/-- Whoever has locked the investigation has locked its action before. -/
def Paired (id : String) (held : List Key) : Prop := Key.investigations id ∈ held → Key.actions id ∈ held

theorem orders_actionFirst (now : Time) (ids : List String) :
    Locks (Placed id service) (((Contender.actionBegin now).order id service).Allows (rowsOf id service))
      (fun held => (rowsOf id service).Holding [.action, .investigation] [] held ∧ Paired id held) (actionFirst now ids)
      fun found held => Paired id held ∧ ∀ id' act i, found = some (id', act, i) →
        (rowsOf id service).Holding [.action, .investigation]
          ((rowsOf id service).parts (Key.investigations id') ++ (rowsOf id service).parts (Key.actions id')) held := by
  induction ids with
  | nil => exact locks_ret fun _ hheld => ⟨hheld.2, fun _ _ _ h => by cases h⟩
  | cons id' ids ih =>
    refine Locks.bind (locks_tryLockRow fun held hheld => ⟨hheld.1.insert (by simp), ?_⟩) fun act => ?_
    · exact fun hi => List.mem_cons_of_mem _ (hheld.2 (by simpa using hi))
    obtain _ | _ | act := act
    · exact ih.pre fun _ hheld => hheld.2
    · exact ih.pre fun _ hheld => hheld.2
    refine Locks.bind (locks_tryLockRow fun held hheld =>
      ⟨fun hact => List.mem_cons_of_mem _ (hheld.1 hact), hheld.2.1.insert (by simp), fun hi => ?_⟩) fun i => ?_
    · obtain hi | hi := List.mem_cons.mp hi
      · cases hi
        exact List.mem_cons_of_mem _ (hheld.1 (by simp))
      · exact List.mem_cons_of_mem _ (hheld.2.2 hi)
    obtain _ | _ | i := i
    · exact ih.pre fun _ hheld => hheld.2.2
    · exact ih.pre fun _ hheld => hheld.2.2
    refine locks_ite (fun _ => locks_ret ?_) fun _ => ih.pre fun _ hheld => hheld.2.2
    rintro held ⟨hi, hact, hheld, hpaired⟩
    refine ⟨hpaired, ?_⟩
    rintro id₀ act₀ i₀ ⟨⟩
    simpa using (hheld.and_mem (hact (by simp))).and_mem (hi (by simp))

/-- The action that is taken up is locked, or its investigation is not. -/
theorem orders_updatePaired {now : Time} {aid : String} {f : Action → Action} :
    Locks (Placed id service) (((Contender.actionBegin now).order id service).Allows (rowsOf id service))
      (fun held => Paired id held ∧ (rowsOf id service).Holding [.action, .investigation] B held)
      (updateAction aid f) fun _ => (rowsOf id service).Holding [.action, .investigation] B := by
  rintro held ⟨hpaired, hheld⟩
  by_cases hact : Key.actions id ∈ held
  · have hlocked := hheld.and_mem hact
    refine (orders_updateAction (.inl (by simp))).post (fun _ _ h => h.mono ?_ ?_) held hlocked
    · simp
    · intro p hp
      exact List.mem_append_right _ hp
  · have hfree : (rowsOf id service).Holding [.action] B held := by
      refine ⟨fun key hkey p hp => ?_, hheld.keeps⟩
      have hp' := hheld.within key hkey p hp
      simp only [List.mem_cons, List.not_mem_nil, or_false] at hp' ⊢
      refine hp'.resolve_right fun hinv => hact (hpaired ?_)
      rw [← (rowsOf id service).inj key (Key.investigations id) p hp (by simp [hinv])]
      exact hkey
    refine (orders_updateAction (.inr ⟨by simp, ?_⟩)).post (fun _ _ h => h.mono ?_ fun _ hp => hp) held hfree
    · simp [Contender.order, Contender.Needs, Contender.invalidates]
    · simp +contextual

theorem orders_actionBegin (now : Time) :
    Orders id service (.actionBegin now) [] [] (discard (actionBegin now)) fun _ _ => True := by
  refine Locks.bind_ret (Q := fun _ _ => True) ?_ fun _ _ _ => trivial
  refine locks_snapshot_bind fun snap _ => ?_
  refine Locks.bind ((orders_actionFirst now _).pre fun held hheld => ⟨hheld.mono nofun nofun, fun hi => ?_⟩)
    fun found => ?_
  · cases hheld.within _ hi .investigation (by simp)
  obtain _ | ⟨inv, act, i⟩ := found
  · exact locks_ret fun _ _ => trivial
  refine Locks.pre ?_ fun held hheld => And.intro hheld.1 (hheld.2 inv act i rfl)
  have htake {aid : String} {f : Action → Action} {kind : String} {payload : Json} {value : Option actionRun} :
      Locks (Placed id service) (((Contender.actionBegin now).order id service).Allows (rowsOf id service))
        (fun held => Paired id held ∧ (rowsOf id service).Holding [.action, .investigation]
          ((rowsOf id service).parts (Key.investigations inv) ++ (rowsOf id service).parts (Key.actions inv)) held)
        (do updateAction aid f; event inv kind payload; return value) fun _ _ => True := by
    refine orders_updatePaired.bind fun _ => Locks.bind_ret (Q := fun _ _ => True) ?_ fun _ _ _ => trivial
    exact orders_event_held fun hid => by simp [hid]
  refine locks_require_bind fun s _ => locks_snapshot_bind fun _ _ => locks_ite (fun _ => htake) fun _ => ?_
  exact locks_snapshot_bind fun _ _ => locks_require_bind fun _ _ => locks_refuse_bind fun _ => htake

/-- Every transaction waits for the rows of an investigation in its order. -/
theorem orders_body (a : App) (t : Contender) : Orders id service t [] [] (t.body a) fun _ _ => True := by
  cases t with
  | draft now u id' b aid => exact orders_draft a now u id' b aid
  | decide now u id' Version decision approval => exact orders_decide now u id' Version decision approval
  | cancel id' => exact orders_cancel id'
  | resume now id' information => exact orders_resume now id' information
  | callback now id' op b => exact orders_callback a now id' op b
  | claim now owner => exact orders_claim a now owner
  | invalidateSource service' remove => exact orders_invalidateSource service' remove
  | actionBegin now => exact orders_actionBegin now
  | actionFinish now r result => exact orders_actionFinish now r result

end Orderly

/-- Two transactions take two rows of the investigation in opposite orders.
Invalidations of one service follow each other, by the row of the service. -/
def Opposed (id service : String) (t t' : Contender) : Prop :=
  (∃ p q, t.Before id service p q ∧ t'.Before id service q p) ∧
    ¬ (t.invalidates = some service ∧ t'.invalidates = some service)

theorem Opposed.symm {id service : String} {t t' : Contender} (h : Opposed id service t t') :
    Opposed id service t' t := by
  obtain ⟨⟨p, q, hpq, hqp⟩, hne⟩ := h
  exact ⟨⟨q, p, hqp, hpq⟩, fun h => hne ⟨h.2, h.1⟩⟩

section Order

variable {id service : String} {t : Contender} {p q : Part}

theorem not_before_service : ¬ t.Before id service p .service := by
  intro h
  cases t <;> cases p <;> cases h

theorem not_before_self : ¬ t.Before id service p p := by
  intro h
  cases t <;> cases p <;> cases h

theorem eq_investigation_of_before (h : t.Before id service .action q) : q = .investigation := by
  cases t <;> cases q <;> first | rfl | cases h

/-- Who waits for the action holds the investigation, or has done nothing yet
but move the service. -/
theorem before_action (h : t.Before id service p .action) : p = .service ∨ t.Before id service .investigation .action := by
  cases t <;> cases p <;> first | exact .inl rfl | exact .inr h | exact h.elim

end Order

/-- The database while the handlers run. -/
abbrev Contention (a : App) (σ : Store) (moves : List (Move Contender)) : Database Row Error Contender :=
  machine.run (Database.step (Contender.body a)) (Database.idle σ) moves

theorem contention_orderly (a : App) {σ : Store} {id : String} {i : Investigation}
    (hi : σ.lookup (Key.investigations id) = some i) (moves : List (Move Contender)) :
    (Contention a σ moves).Orderly (rowsOf id i.service) (Placed id i.service) (Contender.order id i.service) := by
  refine machine.run_invariant (.idle fun key => ?_) (fun db move hdb => hdb.step (fun t => ?_) move) moves
  · cases key with
    | investigations id' =>
      rintro rfl
      exact ⟨i, hi, rfl⟩
    | _ => trivial
  · exact orders_body a t [] .nil

/-- Two transactions of a cycle are not both invalidations, as these would both
have locked their service. -/
theorem not_opposed_of_link {a : App} {σ : Store} {id : String} {i : Investigation}
    (hi : σ.lookup (Key.investigations id) = some i) {moves : List (Move Contender)}
    (hmoves : machine.Always (Database.step (Contender.body a)) (Database.Starts (Opposed id i.service))
      (Database.idle σ) moves) {n m : Nat} (hne : n ≠ m) {t t' : Open Row Error Contender}
    (ht : (Contention a σ moves).opens.lookup n = some t) (ht' : (Contention a σ moves).opens.lookup m = some t')
    (hheld : t.label.invalidates = some i.service → ∃ key ∈ t.locks, (rowsOf id i.service).part key = some .service)
    (hheld' : t'.label.invalidates = some i.service → ∃ key ∈ t'.locks, (rowsOf id i.service).part key = some .service)
    {p q : Part} (hpq : t.label.Before id i.service p q) : ¬ t'.label.Before id i.service q p := by
  intro hqp
  refine Database.apart (fun _ _ => Opposed.symm) hmoves hne ht ht' ⟨⟨p, q, hpq, hqp⟩, fun hboth => ?_⟩
  obtain ⟨key, hkey, hpart⟩ := hheld hboth.1
  obtain ⟨key', hkey', hpart'⟩ := hheld' hboth.2
  obtain rfl := (rowsOf id i.service).inj key key' _ hpart hpart'
  exact (contention_orderly a hi moves).disjoint n m t t' key hne ht ht' hkey hkey'

/-- As long as no handler is started beside one that takes two of its rows in the
opposite order, the transactions on an investigation never wait in a cycle. -/
theorem deadlock_free_of_unopposed (a : App) (σ : Store) (id : String) (i : Investigation)
    (hi : σ.lookup (Key.investigations id) = some i) (moves : List (Move Contender))
    (hmoves : machine.Always (Database.step (Contender.body a)) (Database.Starts (Opposed id i.service))
      (Database.idle σ) moves) :
    ¬ (Contention a σ moves).Deadlocked (rowsOf id i.service) := by
  intro hdeadlock
  obtain ⟨C, ⟨n₀, p₀, q₀, hC⟩, hlinks⟩ := hdeadlock.links
  have horderly := contention_orderly a hi moves
  have hbefore {n : Nat} {p q : Part} (h : C n p q) : ∃ t, (Contention a σ moves).opens.lookup n = some t ∧
      t.label.Before id i.service p q ∧ (t.label.invalidates = some i.service →
        ∃ key ∈ t.locks, (rowsOf id i.service).part key = some .service) := by
    obtain ⟨⟨t, held, -, ht, hheld, hp, -, -⟩, ⟨key, m, hq, hwaits⟩, -, -⟩ := hlinks n p q h
    obtain ⟨-, hallows⟩ := horderly.allows hwaits ht
    obtain ⟨hbefore, hneeds⟩ := hallows q hq
    have hpq := hbefore held hheld p hp
    refine ⟨t, ht, hpq, fun hinvalidates => hneeds .service ⟨rfl, ?_, hinvalidates⟩⟩
    rintro rfl
    exact not_before_service hpq
  -- a transaction waits for one row at a time
  have hunique {n : Nat} {p p' q q' : Part} (h : C n p q) (h' : C n p' q') : q = q' := by
    obtain ⟨⟨t, -, key, ht, -, -, hawaits, hq⟩, -⟩ := hlinks n p q h
    obtain ⟨⟨t', -, key', ht', -, -, hawaits', hq'⟩, -⟩ := hlinks n p' q' h'
    obtain rfl := Option.some.inj (ht.symm.trans ht')
    obtain rfl := Option.some.inj (hawaits.symm.trans hawaits')
    exact Option.some.inj (hq.symm.trans hq')
  have hapart {n m : Nat} {p q o r : Part} (h : C n p q) (h' : C m o r) (hne : q ≠ r) {t t' : Open Row Error Contender}
      (ht : (Contention a σ moves).opens.lookup n = some t) (ht' : (Contention a σ moves).opens.lookup m = some t')
      {p' q' : Part} (hpq : t.label.Before id i.service p' q') : ¬ t'.label.Before id i.service q' p' := by
    obtain ⟨u, hu, -, hheld⟩ := hbefore h
    obtain ⟨u', hu', -, hheld'⟩ := hbefore h'
    obtain rfl := Option.some.inj (ht.symm.trans hu)
    obtain rfl := Option.some.inj (ht'.symm.trans hu')
    refine not_opposed_of_link hi hmoves ?_ ht ht' hheld hheld' hpq
    rintro rfl
    exact hne (hunique h h')
  have hservice {n : Nat} {p q : Part} (h : C n p q) : p ≠ .service := by
    rintro rfl
    obtain ⟨-, -, -, m, o, hprev⟩ := hlinks n _ q h
    obtain ⟨t, -, hpq, -⟩ := hbefore hprev
    exact not_before_service hpq
  -- nobody in the cycle holds the action: it would wait for the investigation,
  -- which the one before it takes first
  have haction {n : Nat} {q : Part} (h : C n .action q) : False := by
    obtain ⟨t, ht, hpq, -⟩ := hbefore h
    obtain rfl := eq_investigation_of_before hpq
    obtain ⟨-, -, -, m, o, hprev⟩ := hlinks n _ _ h
    obtain ⟨t', ht', hpq', -⟩ := hbefore hprev
    exact hapart h hprev nofun ht ht' hpq ((before_action hpq').resolve_left (hservice hprev))
  have hwaits {n : Nat} {p : Part} (h : C n p .action) : False := by
    obtain ⟨-, -, ⟨m, r, hnext⟩, -⟩ := hlinks n p _ h
    exact haction hnext
  -- what is left is the investigation and the job
  obtain ⟨-, -, ⟨m, r, hnext⟩, -⟩ := hlinks n₀ p₀ q₀ hC
  obtain ⟨t, ht, hpq, -⟩ := hbefore hC
  obtain ⟨t', ht', hqr, -⟩ := hbefore hnext
  have hp := hservice hC
  have hq := hservice hnext
  cases q₀ with
  | service => exact hq rfl
  | action => exact hwaits hC
  | investigation =>
    cases r with
    | service => exact not_before_service hqr
    | investigation => exact not_before_self hqr
    | action => exact hwaits hnext
    | job =>
      cases p₀ with
      | service => exact hp rfl
      | action => exact haction hC
      | investigation => exact not_before_self hpq
      | job => exact hapart hC hnext nofun ht ht' hpq hqr
  | job =>
    cases r with
    | service => exact not_before_service hqr
    | job => exact not_before_self hqr
    | action => exact hwaits hnext
    | investigation =>
      cases p₀ with
      | service => exact hp rfl
      | action => exact haction hC
      | job => exact not_before_self hpq
      | investigation => exact hapart hC hnext nofun ht ht' hpq hqr

/-- An investigation that a worker has in its hands. -/
def claimed : Store :=
  (World.after deployed seed (seconds 300)
    [.request (.createTask "alice" symptom "h1" "k1" "i1" "r1") unlocked, .request (.claim "w1") unlocked]).store

/-- The heartbeat of the worker that has it. -/
def heartbeat : Contender := .callback (seconds 301) "i1" "heartbeat" { Owner := "w1", Generation := 1 }

theorem not_opposed_heartbeat : ¬ Opposed "i1" "svc-17" heartbeat heartbeat := by
  rintro ⟨⟨p, q, hpq, hqp⟩, -⟩
  cases p <;> cases q <;> first | exact hpq | exact hqp

theorem heartbeats_deadlock_free :
    ¬ (Contention deployed claimed [.start 1 heartbeat, .start 2 heartbeat]).Deadlocked (rowsOf "i1" "svc-17") := by
  refine deadlock_free_of_unopposed deployed claimed "i1" _ rfl _ ?_
  refine machine.always_cons.mpr ⟨?_, machine.always_cons.mpr ⟨?_, machine.always_nil⟩⟩
  · rintro n label ⟨⟩ - m t ht
    cases ht
  · rintro n label ⟨⟩ - m t ht
    obtain ⟨-, rfl⟩ | ⟨-, ht⟩ := (Database.idle claimed).lookup_insert ht
    · exact not_opposed_heartbeat
    · cases ht

/-- The heartbeat has locked the job when a cancellation locks the investigation. -/
def heartbeatAndCancel : List (Move Contender) :=
  [.start 1 heartbeat, .exec 1, .exec 1, .start 2 (.cancel "i1"), .exec 2, .exec 2, .exec 2, .exec 2]

theorem heartbeat_cancel_deadlocked :
    (Contention deployed claimed heartbeatAndCancel).Deadlocked (rowsOf "i1" "svc-17") := by
  refine ⟨1, .head (b := 2) ⟨Key.investigations "i1", rfl, by decide, ?_⟩
    (.single ⟨Key.jobs "i1", rfl, by decide, ?_⟩)⟩
  · exact ⟨_, _, rfl, rfl, rfl, by decide⟩
  · exact ⟨_, _, rfl, rfl, rfl, by decide⟩

end incidentdesk
