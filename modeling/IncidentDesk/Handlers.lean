import IncidentDesk.CaseStep
import IncidentDesk.Sql.Rules

namespace incidentdesk

open sql sql.Tx

/-- An action keeps what it is about, and is not approved anew. -/
structure Action.Settles (old row : Action) : Prop where
  id : row.id = old.id
  target : row.target = old.target
  source_version : row.source_version = old.source_version
  approved : row.state = .approved → old.state = .approved

theorem Action.settles_invalidated (row : Action) : row.Settles { row with state := .invalidated } :=
  ⟨rfl, rfl, rfl, nofun⟩

/-- What most handlers write besides the events that they add: no service, no memory
and no badcase; they leave an investigation its service and its number of events,
and settle the actions that are there. -/
def Key.ordinary : (key : Key) → Option (Row key) → Row key → Prop
  | .investigations _, none, row' => row'.seq = 0
  | .investigations _, some row, row' => row'.seq = row.seq ∧ row'.service = row.service
  | .actions _, row, row' => ∃ old, row = some old ∧ old.Settles row'
  | .services _, _, _ | .actions_id _, _, _ | .events _ _, _, _ | .memories _, _, _ | .badcases _, _, _ => False
  | _, _, _ => True

/-- What the handlers of sources, memories and badcases write besides: they only
touch events that are there, and the manifest of a badcase only to remove it. -/
def Key.sourced : (key : Key) → Option (Row key) → Row key → Prop
  | .investigations _, none, row' => row'.seq = 0
  | .investigations _, some row, row' => row'.seq = row.seq ∧ row'.service = row.service
  | .actions _, row, row' => ∃ old, row = some old ∧ old.Settles row'
  | .services _, _, _ | .actions_id _, _, _ => False
  | .events _ _, row, _ => row.isSome = true
  | .badcases _, row, row' => ∃ old, row = some old ∧ row'.investigation = old.investigation ∧
      (row'.manifest = old.manifest ∨ row'.manifest = none)
  | _, _, _ => True

/-- What may be written by a transaction that stamps actions or services. -/
def Key.stamped : (key : Key) → Option (Row key) → Row key → Prop
  | .services _, _, _ | .actions _, _, _ | .actions_id _, _, _ => True
  | key, row, row' => key.sourced row row'

/-- What may be written by a transaction that stamps actions. -/
def Key.drafted : (key : Key) → Option (Row key) → Row key → Prop
  | .actions _, _, _ | .actions_id _, _, _ => True
  | key, row, row' => key.ordinary row row'

/-- The transactions that stamp an action with a watermark or approve it, or move
the watermark of a service. -/
def Transaction.stamps : Transaction → Bool
  | request (.draft ..) | request (.decide ..) | request (.invalidateSource ..) | request (.configureService ..)
  | request (.reviewMemory ..) => true
  | _ => false

section Relations

variable {D : Discipline Row} {J : Local Row → Prop}

/-- What survives the writes to sources survives the ordinary ones. -/
theorem kept_ordinary (hJ : Kept D J Key.sourced) : Kept D J Key.ordinary :=
  hJ.mono fun key row row' h => by
    cases key with
    | investigations => cases row <;> exact h
    | actions => exact h
    | services | actions_id | events | badcases | memories => exact h.elim
    | _ => trivial

theorem kept_sourced (hJ : Kept D J Key.stamped) : Kept D J Key.sourced :=
  hJ.mono fun key row row' h => by
    cases key with
    | services | actions | actions_id => trivial
    | _ => exact h

theorem kept_drafted (hJ : Kept D J Key.stamped) : Kept D J Key.drafted :=
  hJ.mono fun key row row' h => by
    cases key with
    | investigations => cases row <;> exact h
    | services | actions | actions_id => trivial
    | events | badcases | memories => exact h.elim
    | _ => trivial

end Relations

/-- The payloads that the API makes of a callback by itself: they only tell which
of the known tools or statuses it named, or how many records it has. -/
inductive Callback.Notice (b : Callback) : Json → Prop
  | records (n : Nat) : Notice b (.obj [("records", .num n)])
  | tool (htool : b.Tool ∈ allowedTools) :
      Notice b (.obj [("tool", .str b.Tool), ("generation", .num b.Generation)])
  | status (hstatus : (resultStatus b.Status).isSome = true) :
      Notice b (.obj [("status", .str b.Status), ("generation", .num b.Generation)])

/-- The events that a callback may add. -/
def Callback.Notes (op : String) (b : Callback) (payload : Json) : Prop := op = "event" ∨ b.Notice payload

section Handlers

variable {D : Discipline Row} {W : Local Row → (key : Key) → Row key → Prop} {J : Local Row → Prop}
  (hJ : Kept D J Key.ordinary)

include hJ

theorem keeps_sweep (now : Time) : Keeps D W J (sweep now) := by
  refine (hJ.updateAll fun snap key row hp => ?_).bind fun _ =>
    (hJ.updateAll fun snap key row hp => ?_).bind fun _ => keeps_ret
  · cases key with
    | investigations => exact ⟨rfl, rfl⟩
    | _ => cases hp
  · cases key with
    | jobs => trivial
    | _ => cases hp

theorem keeps_claimFirst (now : Time) (ids : List String) : Keeps D W J (claimFirst now ids) := by
  induction ids with
  | nil => exact keeps_ret
  | cons id ids ih =>
    refine (hJ.tryLockRow _).bind fun job => ?_
    obtain _ | _ | job := job
    · exact ih
    · exact ih
    · refine (hJ.tryLockRow _).bind fun i => ?_
      obtain _ | _ | i := i
      · exact ih
      · exact ih
      · exact triple_ite (fun _ => keeps_ret) fun _ => ih

theorem keeps_revokeTask (id : String) : Keeps D W J (revokeTask id) := by
  refine (hJ.updateOne fun _ _ _ => by trivial).bind fun _ =>
    (hJ.updateOne fun _ _ _ => by exact ⟨rfl, rfl⟩).bind fun _ => keeps_ret

theorem keeps_fence (now : Time) (id : String) (b : Callback) : Keeps D W J (fence now id b) := by
  refine hJ.snapshot.bind fun snap => keeps_require.bind fun _ => keeps_require.bind fun _ =>
    (hJ.lockRow _).bind fun _ => keeps_require.bind fun job =>
    (hJ.lockRow _).bind fun _ => keeps_require.bind fun i => ?_
  exact keeps_require.bind fun owner => keeps_refuse.bind fun _ => hJ.snapshot.bind fun snap =>
    keeps_ofExcept.bind fun _ => keeps_ret

theorem keeps_requeue (now : Time) (id : String) (b : Callback) : Keeps D W J (requeue now id b) :=
  (hJ.updateOne fun _ _ _ => by trivial).bind fun _ =>
    (hJ.updateOne fun _ _ _ => by exact ⟨rfl, rfl⟩).bind fun _ => keeps_ret

theorem keeps_replayed (a : App) (id : String) (b : Callback) : Keeps D W J (replayed a id b) := by
  refine (hJ.selectForUpdate _).bind fun found => keeps_require.bind fun job =>
    triple_ite (fun _ => ?_) fun _ => keeps_ret
  exact keeps_refuse.bind fun _ => keeps_ret

theorem keeps_updateAction (aid : String) {f : Action → Action} (hf : ∀ row : Action, row.Settles (f row)) :
    Keeps D W J (updateAction aid f) := by
  refine hJ.snapshot.bind fun snap => ?_
  cases snap.lookup (Key.actions_id aid) with
  | none => exact keeps_ret
  | some id => exact (hJ.updateOne fun _ row _ => by exact ⟨row, rfl, hf row⟩).bind fun _ => keeps_ret

theorem keeps_setMember (subject team role : String) : Keeps D W J (setMember subject team role) := by
  refine keeps_refuse.bind fun _ => keeps_ofExcept.bind fun role => ?_
  cases role with
  | none => exact (hJ.updateOne fun _ _ _ => by trivial).bind fun _ => keeps_ret
  | some role => exact (hJ.upsert (by trivial) fun _ => by trivial).bind fun _ => keeps_ret

theorem keeps_actionFirst (now : Time) (ids : List String) : Keeps D W J (actionFirst now ids) := by
  induction ids with
  | nil => exact keeps_ret
  | cons id ids ih =>
    refine (hJ.tryLockRow _).bind fun act => ?_
    obtain _ | _ | act := act
    · exact ih
    · exact ih
    · refine (hJ.tryLockRow _).bind fun i => ?_
      obtain _ | _ | i := i
      · exact ih
      · exact ih
      · exact triple_ite (fun _ => keeps_ret) fun _ => ih

section Callback

variable {id op : String} {b : Callback}
  (hnotes : ∀ kind payload, b.Notes op payload → Keeps D W J (event id kind payload))

include hnotes

theorem keeps_authorize (now : Time) : Keeps D W J (authorize now id b) := by
  refine triple_refuse_bind fun htool => hJ.snapshot.bind fun snap => keeps_require.bind fun i =>
    keeps_require.bind fun s => hJ.snapshot.bind fun snap => (hnotes _ _ (.inr ?_)).bind fun _ => keeps_ret
  exact .tool (not_not.mp htool)

theorem keeps_acceptResult (a : App) : Keeps D W J (acceptResult a id b) := by
  refine hJ.snapshot.bind fun snap => keeps_require.bind fun i => keeps_require.bind fun s =>
    keeps_refuse.bind fun _ => keeps_refuse.bind fun _ => triple_require_bind fun status hstatus =>
    keeps_ofExcept.bind fun _ => ?_
  exact (hJ.updateOne fun _ _ _ => by exact ⟨rfl, rfl⟩).bind fun _ =>
    (hJ.updateOne fun _ _ _ => by trivial).bind fun _ => hnotes _ _ (.inr (.status (by rw [hstatus]; rfl)))

theorem keeps_fencedCallback (a : App) (now : Time) : Keeps D W J (fencedCallback a now id op b) := by
  refine (keeps_fence hJ now id b).bind fun _ => triple_ite (fun _ => ?_) fun _ => triple_ite (fun _ => ?_) fun _ =>
    triple_ite (fun _ => ?_) fun _ => triple_ite (fun hop => ?_) fun _ => triple_ite (fun _ => ?_) fun _ =>
    triple_ite (fun _ => ?_) fun _ => triple_raise _
  · exact (hnotes _ _ (.inr (.records _))).bind fun _ => keeps_ret
  · exact (hJ.updateOne fun _ _ _ => by trivial).bind fun _ => keeps_ret
  · exact keeps_authorize hJ hnotes now
  · exact keeps_refuse.bind fun _ => (hnotes _ _ (.inl hop)).bind fun _ => keeps_ret
  · exact (keeps_acceptResult hJ hnotes a).bind fun _ => keeps_ret
  · exact (keeps_requeue hJ now id b).bind fun _ => keeps_ret

theorem keeps_callback (a : App) (now : Time) : Keeps D W J (callback a now id op b) := by
  unfold callback
  refine triple_ite (fun _ => (keeps_replayed hJ a id b).bind fun replay => ?_) fun _ => ?_
  · exact triple_ite (fun _ => keeps_ret) fun _ => keeps_fencedCallback hJ hnotes a now
  · exact keeps_fencedCallback hJ hnotes a now

end Callback

/-- The approval of an action is left to its own proof. -/
theorem keeps_decide (now : Time) (u id : String) (Version : Int) (decision approval : String)
    (hrecord : ∀ act decision, Keeps D W J (record now u id act decision approval)) :
    Keeps D W J (decide now u id Version decision approval) := by
  refine keeps_ofExcept.bind fun decision => hJ.snapshot.bind fun snap => keeps_require.bind fun _ =>
    keeps_require.bind fun _ => (hJ.lockRow _).bind fun _ => keeps_require.bind fun act =>
    (hJ.lockRow _).bind fun _ => keeps_require.bind fun i => keeps_require.bind fun s =>
    hJ.snapshot.bind fun snap => keeps_ofExcept.bind fun _ => keeps_refuse.bind fun _ =>
    triple_ite (fun _ => ?_) fun _ => ?_
  · exact keeps_refuse.bind fun _ => keeps_updateAction hJ act.id fun row => ⟨rfl, rfl, rfl, fun h => h⟩
  · exact keeps_refuse.bind fun _ => triple_ite (fun _ => keeps_ret) fun _ =>
      keeps_refuse.bind fun _ => hrecord act decision

section Events

variable (hevent : ∀ id kind payload, Keeps D W J (event id kind payload))

include hevent

theorem keeps_createTask (a : App) (now : Time) (u : String) (b : Create) (requestHash idem id requestID : String) :
    Keeps D W J (createTask a now u b requestHash idem id requestID) := by
  unfold createTask
  refine keeps_ofExcept.bind fun query => (hJ.lockRow _).bind fun _ =>
    hJ.snapshot.bind fun snap => ?_
  cases investigationByIdem snap u idem with
  | some found => exact keeps_refuse.bind fun _ => keeps_ret
  | none =>
    refine hJ.snapshot.bind fun snap => keeps_require.bind fun service =>
      hJ.snapshot.bind fun snap => keeps_ofExcept.bind fun _ =>
      hJ.snapshot.bind fun snap => keeps_refuse.bind fun _ => ?_
    refine (hJ.insert (by rfl)).bind fun _ => (hJ.insert (by trivial)).bind fun _ =>
      (hJ.insert (by trivial)).bind fun _ => ?_
    exact (hevent id _ _).bind fun _ => keeps_ret

theorem keeps_cancel (id : String) : Keeps D W J (cancel id) := by
  refine (hJ.updateOne fun _ _ _ => by exact ⟨rfl, rfl⟩).bind fun _ =>
    (hJ.updateOne fun _ _ _ => by trivial).bind fun _ =>
    (hJ.updateOne fun _ row _ => by exact ⟨row, rfl, row.settles_invalidated⟩).bind fun _ => hevent id _ _

theorem keeps_resume (now : Time) (id information : String) :
    Keeps D W J (resume now id information) := by
  refine keeps_refuse.bind fun _ => (hJ.updateOne fun _ _ _ => by exact ⟨rfl, rfl⟩).bind fun _ =>
    keeps_refuse.bind fun _ => (hJ.updateOne fun _ _ _ => by trivial).bind fun _ =>
    (hJ.updateOne fun _ row _ => by exact ⟨row, rfl, row.settles_invalidated⟩).bind fun _ => hevent id _ _

theorem keeps_claimTask (a : App) (now : Time) (owner id : String) :
    Keeps D W J (claimTask a now owner id) := by
  refine (hJ.updateOne fun _ _ _ => by trivial).bind fun _ =>
    (hJ.updateOne fun _ _ _ => by exact ⟨rfl, rfl⟩).bind fun _ => (hevent id _ _).bind fun _ =>
    hJ.snapshot.bind fun snap => keeps_require.bind fun _ => keeps_ret

theorem keeps_claim (a : App) (now : Time) (owner : String) : Keeps D W J (claim a now owner) := by
  unfold claim
  refine keeps_refuse.bind fun _ => (hJ.lockRow _).bind fun _ => (keeps_sweep hJ now).bind fun _ =>
    hJ.snapshot.bind fun snap => triple_ite (fun _ => keeps_ret) fun _ => ?_
  refine hJ.snapshot.bind fun snap => (keeps_claimFirst hJ now _).bind fun target => ?_
  obtain _ | ⟨id, i⟩ := target
  · exact keeps_ret
  · refine hJ.snapshot.bind fun snap => ?_
    cases member snap i.subject i.team false with
    | error => exact keeps_revokeTask hJ id
    | ok => exact keeps_claimTask hJ hevent a now owner id

theorem keeps_actionBegin (now : Time) : Keeps D W J (actionBegin now) := by
  refine hJ.snapshot.bind fun snap => (keeps_actionFirst hJ now _).bind fun target => ?_
  obtain _ | ⟨inv, act, i⟩ := target
  · exact keeps_ret
  · refine keeps_require.bind fun s => hJ.snapshot.bind fun snap' => triple_ite (fun _ => ?_) fun _ => ?_
    · refine (keeps_updateAction hJ act.id ?_).bind fun _ => (hevent inv _ _).bind fun _ => keeps_ret
      exact fun row => ⟨rfl, rfl, rfl, nofun⟩
    · refine hJ.snapshot.bind fun snap => keeps_require.bind fun configured => keeps_refuse.bind fun _ =>
        (keeps_updateAction hJ act.id ?_).bind fun _ => (hevent inv _ _).bind fun _ => keeps_ret
      refine fun row => ⟨rfl, rfl, rfl, fun happroved => ?_⟩
      split at happroved <;> cases happroved

end Events

theorem keeps_actionFinish (now : Time) (r : actionRun) (result : Except String Json)
    (hevent : ∀ kind payload, Keeps D W J (event r.Investigation kind payload)) :
    Keeps D W J (actionFinish now r result) := by
  refine (keeps_updateAction hJ r.ID ?_).bind fun _ => hevent _ _
  refine fun row => ⟨rfl, rfl, rfl, fun happroved => ?_⟩
  cases result <;> cases happroved

end Handlers

section Sources

variable {D : Discipline Row} {W : Local Row → (key : Key) → Row key → Prop} {J : Local Row → Prop}
  (hJ : Kept D J Key.sourced)

include hJ

theorem keeps_removeContent (service : String) : Keeps D W J (removeContent service) := by
  refine (hJ.updateAll fun snap key row hp => ?_).bind fun _ =>
    (hJ.updateAll fun snap key row hp => ?_).bind fun _ =>
    (hJ.updateAll fun snap key row hp => ?_).bind fun _ =>
    (hJ.updateAll fun snap key row hp => ?_).bind fun _ =>
    (hJ.updateAll fun snap key row hp => ?_).bind fun _ => keeps_ret
  · cases key with
    | investigations => exact ⟨rfl, rfl⟩
    | _ => cases hp
  · cases key with
    | actions => exact ⟨row, rfl, rfl, rfl, rfl, id⟩
    | _ => cases hp
  · cases key with
    | events => rfl
    | _ => cases hp
  · cases key with
    | memories => trivial
    | _ => cases hp
  · cases key with
    | badcases => exact ⟨row, rfl, rfl, .inr rfl⟩
    | _ => cases hp

/-- What a new watermark needs to be kept is kept by the rest of the statements. -/
theorem triple_moveWatermark {J' : Local Row → Prop} (service kind : String)
    (hbump : Triple D W J' (updateOne (ε := Error) (Key.services service) (fun _ => true)
      fun _ row => { row with watermark := row.watermark + 1 }) fun updated ℓ => updated.isSome = true → J ℓ) :
    Triple D W J' (moveWatermark service kind) fun _ => J := by
  refine hbump.bind fun updated => (triple_require (Q := fun _ => J) fun s hs ℓ hℓ => hℓ (by rw [hs]; rfl)).bind
    fun s => (hJ.insert (by trivial)).bind fun _ => (hJ.updateAll fun snap key row hp => ?_).bind
    fun _ => (hJ.updateAll fun snap key row hp => ?_).bind fun _ => keeps_ret
  · cases key with
    | actions => exact ⟨row, rfl, row.settles_invalidated⟩
    | _ => cases hp
  · cases key with
    | memories => trivial
    | _ => cases hp

theorem keeps_memory (now : Time) (id content newID : String) :
    Keeps D W J (memory now id content newID) := by
  refine keeps_refuse.bind fun _ => hJ.snapshot.bind fun snap => ?_
  cases snap.lookup (Key.investigations id) with
  | none => exact keeps_ret
  | some i => exact hJ.insert (by trivial)

theorem keeps_reviewBadcase (u id label : String) : Keeps D W J (reviewBadcase u id label) :=
  keeps_refuse.bind fun _ => (hJ.selectForUpdate _).bind fun _ => keeps_require.bind fun _ =>
    keeps_require.bind fun _ => hJ.snapshot.bind fun _ => keeps_ofExcept.bind fun _ =>
    (hJ.updateOne fun _ _ _ => by exact ⟨_, rfl, rfl, .inl rfl⟩).bind fun _ => keeps_ret

theorem triple_invalidateSource {J' : Local Row → Prop}
    (hnotify : ∀ service remove watermark, Keeps D W J (notifyWorkbenches service remove watermark))
    (service : String) (remove : Bool) (hmove : ∀ kind, Triple D W J' (moveWatermark service kind) fun _ => J) :
    Triple D W J' (invalidateSource service remove) fun _ => J := by
  refine (hmove _).bind fun watermark => ?_
  cases remove with
  | false => exact hnotify service false watermark
  | true => exact (keeps_removeContent hJ service).bind fun _ => hnotify service true watermark

theorem keeps_reviewMemory (now : Time) (u id decision : String)
    (hinvalidate : ∀ service, Keeps D W J (invalidateSource service false)) :
    Keeps D W J (reviewMemory now u id decision) := by
  refine keeps_require.bind fun state => (hJ.selectForUpdate _).bind fun found =>
    keeps_require.bind fun m => keeps_require.bind fun s => hJ.snapshot.bind fun snap =>
    keeps_ofExcept.bind fun _ => keeps_refuse.bind fun _ =>
    (hJ.updateOne fun _ _ _ => by trivial).bind fun _ => triple_ite (fun _ => ?_) fun _ => keeps_ret
  exact hJ.snapshot.bind fun snap => keeps_require.bind fun m => hinvalidate m.service

theorem keeps_badcase {u id category label newID : String}
    (hrecord : Keeps D W J (recordBadcase u id category label newID)) :
    Keeps D W J (badcase u id category label newID) :=
  keeps_refuse.bind fun _ => hJ.snapshot.bind fun _ => keeps_require.bind fun _ =>
    triple_ite (fun _ => hJ.snapshot.bind fun _ => keeps_ofExcept.bind fun _ => hrecord) fun _ => hrecord

/-- An assertion is kept by every transaction if it survives what their
statements write. -/
theorem keeps_body (hevent : ∀ id kind payload, Keeps D W J (event id kind payload))
    (a : App) (now : Time) (txn : Transaction) (hstamps : txn.stamps = true → Keeps D W J (txn.body a now))
    (hrecord : ∀ u id category label newID, txn = .request (.badcase u id category label newID) →
      Keeps D W J (recordBadcase u id category label newID)) : Keeps D W J (txn.body a now) := by
  have hJ' : Kept D J Key.ordinary := kept_ordinary hJ
  cases txn with
  | request r =>
    cases r with
    | createTask u b requestHash idem id requestID =>
      exact keeps_discard (keeps_createTask hJ' hevent a now u b requestHash idem id requestID)
    | cancel id => exact keeps_cancel hJ' hevent id
    | resume id information => exact keeps_resume hJ' hevent now id information
    | claim owner => exact keeps_discard (keeps_claim hJ' hevent a now owner)
    | callback id op b => exact keeps_discard (keeps_callback hJ' (fun kind payload _ => hevent id kind payload) a now)
    | draft | decide | invalidateSource | configureService | reviewMemory => exact hstamps rfl
    | setMember subject team role => exact keeps_setMember hJ' subject team role
    | memory id content newID => exact keeps_memory hJ now id content newID
    | badcase u id category label newID => exact keeps_badcase hJ (hrecord u id category label newID rfl)
    | reviewBadcase u id label => exact keeps_reviewBadcase hJ u id label
  | begin => exact keeps_discard (keeps_actionBegin hJ' hevent now)
  | finish r result => exact keeps_actionFinish hJ' now r result (hevent r.Investigation)

end Sources

section Drafts

variable {D : Discipline Row} {W : Local Row → (key : Key) → Row key → Prop} {J : Local Row → Prop}
  (hJ : Kept D J Key.drafted)

include hJ

theorem keeps_draft (hevent : ∀ id kind payload, Keeps D W J (event id kind payload))
    (a : App) (now : Time) (u id : String) (b : Draft) (aid : String) :
    Keeps D W J (draft a now u id b aid) := by
  unfold draft
  refine keeps_refuse.bind fun _ => (hJ.selectForUpdate _).bind fun found => keeps_require.bind fun i =>
    keeps_require.bind fun s => hJ.snapshot.bind fun snap => keeps_ofExcept.bind fun _ =>
    keeps_refuse.bind fun _ => keeps_refuse.bind fun _ => (hJ.selectForUpdate _).bind fun existing =>
    keeps_refuse.bind fun _ => keeps_refuse.bind fun _ => (hJ.lockRow _).bind fun row => ?_
  cases row with
  | none =>
    exact (hJ.insert (by trivial)).bind fun _ => (hJ.insert (by trivial)).bind fun _ =>
      hevent id _ _
  | some row =>
    refine (triple_writeRow hJ.stable fun ℓ hℓ hmet _ => ?_).bind fun _ => hevent id _ _
    exact hJ.write _ _ _ (hJ.hold ℓ _ hℓ) (hmet.hold _) List.mem_cons_self trivial

theorem keeps_record (hevent : ∀ id kind payload, Keeps D W J (event id kind payload)) (now : Time) (u id : String)
    (act : Action) (decision : Decision) (approval : String) :
    Keeps D W J (record now u id act decision approval) := by
  refine (hJ.insert (by trivial)).bind fun _ => Triple.bind (Q := fun _ => J) ?_ fun _ => hevent id _ _
  refine hJ.snapshot.bind fun snap => ?_
  cases snap.lookup (Key.actions_id act.id) with
  | none => exact keeps_ret
  | some id => exact (hJ.updateOne fun _ _ _ => by trivial).bind fun _ => keeps_ret

end Drafts

section Stamps

variable {D : Discipline Row} {W : Local Row → (key : Key) → Row key → Prop} {J : Local Row → Prop}
  (hJ : Kept D J Key.stamped)

include hJ

/-- The transactions that stamp actions, or services, keep what survives any write
of an action or a service. -/
theorem keeps_stamps (hevent : ∀ id kind payload, Keeps D W J (event id kind payload))
    (hnotify : ∀ service remove watermark, Keeps D W J (notifyWorkbenches service remove watermark))
    (a : App) (now : Time) (txn : Transaction) (htxn : txn.stamps = true) : Keeps D W J (txn.body a now) := by
  have hinvalidate (service : String) (remove : Bool) : Keeps D W J (invalidateSource service remove) :=
    triple_invalidateSource (kept_sourced hJ) hnotify service remove fun kind =>
      triple_moveWatermark (kept_sourced hJ) service kind
        ((hJ.updateOne fun _ _ _ => by trivial).mono (fun _ h => h) fun _ _ h _ => h)
  cases txn with
  | request r =>
    cases r with
    | draft u id b aid => exact keeps_draft (kept_drafted hJ) hevent a now u id b aid
    | decide u id Version decision approval =>
      exact keeps_decide (kept_ordinary (kept_sourced hJ)) now u id Version decision approval fun act decision =>
        keeps_record (kept_drafted hJ) hevent now u id act decision approval
    | invalidateSource service remove => exact hinvalidate service remove
    | configureService service repo enabled =>
      exact keeps_refuse.bind fun _ => (hJ.updateOne fun _ _ _ => by trivial).bind fun _ => hinvalidate service false
    | reviewMemory u id decision =>
      exact keeps_reviewMemory (kept_sourced hJ) now u id decision fun service => hinvalidate service false
    | _ => cases htxn
  | _ => cases htxn

end Stamps

/-- What `createTask` writes: a new investigation under its key, with its job and
its first event. -/
def Key.admitted (u idem requestHash : String) : (key : Key) → Option (Row key) → Row key → Prop
  | .investigations _, none, row' => row'.request_hash = requestHash
  | .investigations _, some row, row' => row'.request_hash = row.request_hash
  | .investigations_idem u' idem', row, _ => u' = u ∧ idem' = idem ∧ row = none
  | .jobs _, _, _ | .events _ _, _, _ => True
  | _, _, _ => False

section Admission

variable {D : Discipline Row} {W : Local Row → (key : Key) → Row key → Prop} {J : Local Row → Prop}
  {u idem requestHash : String}

theorem keeps_event_admitted (hJ : Kept D J (Key.admitted u idem requestHash)) (id kind : String) (payload : Json) :
    Keeps D W J (event id kind payload) :=
  (hJ.updateOne fun _ _ _ => by rfl).bind fun _ => keeps_require.bind fun _ => hJ.insert (by trivial)

/-- `createTask` ends with the identifier that is under the key, whether it has
found it there or made it. -/
theorem triple_createTask_admitted {Q : String → Local Row → Prop} (hJ : Kept D J (Key.admitted u idem requestHash))
    (hQ : ∀ id, Kept D (Q id) (Key.admitted u idem requestHash))
    (hunder : ∀ id ℓ, J ℓ → ℓ.lookup (Key.investigations_idem u idem) = some id → Q id ℓ) (a : App) (now : Time)
    (b : Create) (id requestID : String) :
    Triple D W J (createTask a now u b requestHash idem id requestID) Q := by
  unfold createTask
  refine keeps_ofExcept.bind fun query => (hJ.lockRow _).bind fun _ => ?_
  refine (triple_snapshot (Q := fun snap ℓ => J ℓ ∧
    ∀ id row, investigationByIdem snap u idem = some (id, row) → Q id ℓ) hJ.stable
    fun ℓ snap hℓ hsnap => ⟨hℓ, fun id row hfound => ?_⟩).bind fun snap => ?_
  · obtain ⟨id', hid', hrow⟩ := Option.bind_eq_some_iff.mp hfound
    obtain ⟨row', -, hpair⟩ := Option.map_eq_some_iff.mp hrow
    obtain ⟨rfl, -⟩ := Prod.mk.inj hpair
    exact hunder id' ℓ hℓ ((hsnap _).symm.trans hid')
  · cases hfound : investigationByIdem snap u idem with
    | some found =>
      exact triple_refuse_bind fun _ => triple_ret fun ℓ hℓ => hℓ.2 found.1 found.2 rfl
    | none =>
      refine Triple.mono (J := J) ?_ (fun ℓ hℓ => hℓ.1) fun _ _ h => h
      refine hJ.snapshot.bind fun snap => keeps_require.bind fun service =>
        hJ.snapshot.bind fun snap => keeps_ofExcept.bind fun _ =>
        hJ.snapshot.bind fun snap => keeps_refuse.bind fun _ => ?_
      refine Triple.bind (Q := fun _ => J) (hJ.insert (by rfl)) fun _ =>
        Triple.bind (Q := fun _ => Q id) ?_ fun _ =>
        Triple.bind (Q := fun _ => Q id) ((hQ id).insert (by trivial)) fun _ =>
        Triple.bind (Q := fun _ => Q id) (keeps_event_admitted (hQ id) id _ _) fun _ => triple_ret fun _ h => h
      refine triple_insert hJ.toSteady fun ℓ hℓ hmet hkey hnone _ => ?_
      obtain ⟨hwritable, hwritten⟩ := hJ.write ℓ (Key.investigations_idem u idem) id hℓ hmet hkey
        ⟨rfl, rfl, hnone⟩
      exact ⟨hwritable, hunder id _ hwritten (Local.lookup_write_self _ _ _)⟩

end Admission

end incidentdesk
