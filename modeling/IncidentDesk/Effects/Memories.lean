import IncidentDesk.Effects.Reachable
import IncidentDesk.Handlers

namespace incidentdesk

open sql sql.Tx

attribute [local simp] AList.lookup_insert_ne

variable {a : App} {now : Time} {skip : Key → Bool} {σ σ' : Store}

/-- What a change of its source does to a memory. -/
def Memory.sourceChanged (remove : Bool) (m : Memory) : Memory :=
  let m := if m.status = .revoked then m else { m with status := .expired }
  if remove then { m with content := "", status := .revoked } else m

/-- The status of a memory that has been taken back. -/
def MemoryStatus.closed (status : MemoryStatus) : Prop := status = .revoked ∨ status = .expired

/-- What no transaction changes in a memory. -/
structure Memory.Kept (m m' : Memory) : Prop where
  service : m'.service = m.service
  team : m'.team = m.team
  source_version : m'.source_version = m.source_version
  expires_at : m'.expires_at = m.expires_at

theorem Memory.sourceChanged_closed (remove : Bool) (m : Memory) : (m.sourceChanged remove).status.closed := by
  unfold sourceChanged
  cases remove with
  | true => exact .inl rfl
  | false =>
    by_cases hstatus : m.status = .revoked
    · rw [if_pos hstatus]
      exact .inl hstatus
    · rw [if_neg hstatus]
      exact .inr rfl

theorem Memory.sourceChanged_kept (remove : Bool) (m : Memory) : m.Kept (m.sourceChanged remove) := by
  unfold sourceChanged
  by_cases hstatus : m.status = .revoked <;> cases remove <;> simp only [hstatus, if_true, if_false] <;>
    exact ⟨rfl, rfl, rfl, rfl⟩

/-- What a transaction does to the memory `id`. A memory is taken back with the
watermark of its service, and confirmed by an approver of its team only while it
carries that watermark. -/
inductive MemoryStep (σ σ' : Store) (txn : Transaction) (id : String) : Option Memory → Option Memory → Prop
  | unchanged {x : Option Memory} : MemoryStep σ σ' txn id x x
  | created {iid : String} {i : Investigation} {m : Memory} (hi : σ.lookup (Key.investigations iid) = some i)
      (hservice : m.service = i.service) (hsource : m.source_version = i.source_version)
      (hstatus : m.status = .candidate) : MemoryStep σ σ' txn id none (some m)
  | confirmed {u : String} {m : Memory} {s : Service} (htxn : txn = .request (.reviewMemory u id "confirm"))
      (happrover : member σ u m.team true = .ok ()) (hs : σ.lookup (Key.services m.service) = some s)
      (hsource : m.source_version = s.watermark) :
      MemoryStep σ σ' txn id (some m) (some { m with status := .confirmed, reviewer := some u })
  | closed {m m' : Memory} (hkept : m.Kept m') (hclosed : m'.status.closed)
      (hmoved : ∀ s, σ.lookup (Key.services m.service) = some s →
        ∃ s', σ'.lookup (Key.services m.service) = some s' ∧ s.watermark < s'.watermark) :
      MemoryStep σ σ' txn id (some m) (some m')

/-- What a transaction does to the memories and to the watermarks. -/
structure MemoryEffect (σ : Store) (txn : Transaction) (σ' : Store) : Prop where
  services : ∀ name s, σ.lookup (Key.services name) = some s →
    ∃ s', σ'.lookup (Key.services name) = some s' ∧ s.watermark ≤ s'.watermark
  memories : ∀ id, MemoryStep σ σ' txn id (σ.lookup (Key.memories id)) (σ'.lookup (Key.memories id))

/-- The tables of the services and of the memories. -/
def Key.watched : Key → Bool
  | .services _ | .memories _ => true
  | _ => false

/-- The services and the memories are as they were. -/
def Unwatched (σ : Store) (rows : (key : Key) → Option (Row key)) : Prop :=
  ∀ key, key.watched = true → rows key = σ.lookup key

theorem Unwatched.start (σ : Store) : Unwatched σ σ.lookup := fun _ _ => rfl

theorem Unwatched.effect {txn : Transaction} (h : Unwatched σ σ'.lookup) : MemoryEffect σ txn σ' where
  services name s hs := ⟨s, (h _ rfl).trans hs, le_rfl⟩
  memories id := by
    have hsame : σ'.lookup (Key.memories id) = σ.lookup (Key.memories id) := h _ rfl
    rw [hsame]
    exact .unchanged

section Quiet

theorem kept_unwatched : Kept solo (fun ℓ => Unwatched σ ℓ.lookup) fun key _ _ => key.watched = false := by
  refine kept_solo (P := Unwatched σ) fun ℓ key row h hkey key' hkey' => ?_
  have hne : key' ≠ key := by
    rintro rfl
    rw [hkey] at hkey'
    cases hkey'
  rw [Local.lookup_write_ne hne]
  exact h key' hkey'

theorem kept_unwatched_drafted : Kept solo (fun ℓ => Unwatched σ ℓ.lookup) Key.drafted :=
  kept_unwatched.mono fun key row row' h => by
    cases key with
    | services | memories => exact h.elim
    | _ => rfl

theorem keeps_event_unwatched (id kind : String) (payload : Json) :
    Keeps solo (fun _ _ _ => True) (fun ℓ => Unwatched σ ℓ.lookup) (event id kind payload) :=
  (kept_unwatched.updateOne fun _ _ _ => rfl).bind fun _ => keeps_require.bind fun _ =>
    kept_unwatched.insert (by rfl)

theorem recordBadcase_unwatched (u id category label newID : String) :
    Keeps solo (fun _ _ _ => True) (fun ℓ => Unwatched σ ℓ.lookup) (recordBadcase u id category label newID) := by
  unfold recordBadcase
  refine kept_unwatched.snapshot.bind fun snap => ?_
  cases snap.lookup (Key.investigations id) with
  | none => exact keeps_ret
  | some i => exact kept_unwatched.insert (by rfl)

/-- A transaction that changes no source and no memory. -/
def Transaction.quiet : Transaction → Bool
  | .request (.invalidateSource ..) | .request (.configureService ..) | .request (.memory ..)
  | .request (.reviewMemory ..) => false
  | _ => true

theorem unwatched_body (txn : Transaction) (hquiet : txn.quiet = true) :
    Keeps solo (fun _ _ _ => True) (fun ℓ => Unwatched σ ℓ.lookup) (txn.body a now) := by
  have hJ : Kept solo (fun ℓ => Unwatched σ ℓ.lookup) Key.ordinary := kept_unwatched.mono fun key row row' h => by
    cases key with
    | services | memories => exact h.elim
    | _ => rfl
  have hevent := keeps_event_unwatched (σ := σ)
  cases txn with
  | request r =>
    cases r with
    | createTask u b requestHash idem id requestID =>
      exact keeps_discard (keeps_createTask hJ hevent a now u b requestHash idem id requestID)
    | cancel id => exact keeps_cancel hJ hevent id
    | resume id information => exact keeps_resume hJ hevent now id information
    | claim owner => exact keeps_discard (keeps_claim hJ hevent a now owner)
    | callback id op b => exact keeps_discard (keeps_callback hJ (fun kind payload _ => hevent id kind payload) a now)
    | draft u id b aid => exact keeps_draft kept_unwatched_drafted hevent a now u id b aid
    | decide u id Version decision approval =>
      exact keeps_decide hJ now u id Version decision approval fun act decision =>
        keeps_record kept_unwatched_drafted hevent now u id act decision approval
    | setMember subject team role => exact keeps_setMember hJ subject team role
    | badcase u id category label newID =>
      have hrecord := recordBadcase_unwatched (σ := σ) u id category label newID
      exact keeps_refuse.bind fun _ => kept_unwatched.snapshot.bind fun _ => keeps_require.bind fun _ =>
        triple_ite (fun _ => kept_unwatched.snapshot.bind fun _ => keeps_ofExcept.bind fun _ => hrecord) fun _ => hrecord
    | reviewBadcase u id label =>
      exact keeps_refuse.bind fun _ => (kept_unwatched.selectForUpdate _).bind fun _ => keeps_require.bind fun _ =>
        keeps_require.bind fun _ => kept_unwatched.snapshot.bind fun _ => keeps_ofExcept.bind fun _ =>
        (kept_unwatched.updateOne fun _ _ _ => rfl).bind fun _ => keeps_ret
    | invalidateSource | configureService | memory | reviewMemory => cases hquiet
  | begin => exact keeps_discard (keeps_actionBegin hJ hevent now)
  | finish r result => exact keeps_actionFinish hJ now r result (hevent r.Investigation)

end Quiet

section Sources

/-- The memories of a service are closed while all others stay as they are. -/
theorem moveWatermark_memories (service kind : String) :
    Ensures skip (moveWatermark service kind) σ fun _ σ' => ∀ id, σ'.lookup (Key.memories id) =
      (σ.lookup (Key.memories id)).map fun m => if m.service = service then m.sourceChanged false else m := by
  unfold moveWatermark
  simp only [ensures_bind, ensures_updateOne, ensures_require, ensures_insert, ensures_updateAll,
    Tx.pure_eq_ret, ensures_ret]
  intro s _ _ id
  rw [Store.lookup_updateRows, Store.lookup_updateRows]
  simp only [Bool.false_eq_true, if_false, ne_eq, reduceCtorEq, not_false_eq_true, AList.lookup_insert_ne,
    Store.lookup_updateOne_ne, Option.map_map]
  congr 1
  funext m
  by_cases hservice : m.service = service <;> by_cases hstatus : m.status = .revoked <;>
    simp [Memory.sourceChanged, hservice, hstatus]

theorem removeContent_memories (service : String) :
    Ensures skip (removeContent service) σ fun _ σ' => ∀ id, σ'.lookup (Key.memories id) =
      (σ.lookup (Key.memories id)).map fun m =>
        if m.service = service then { m with content := "", status := .revoked } else m := by
  unfold removeContent
  simp only [ensures_bind, ensures_updateAll, Tx.pure_eq_ret, ensures_ret]
  intro id
  simp [Store.lookup_updateRows, Function.comp_def]

theorem notifyWorkbenches_memories (service : String) (remove : Bool) (watermark : Nat) :
    Ensures skip (notifyWorkbenches service remove watermark) σ fun _ σ' =>
      ∀ id, σ'.lookup (Key.memories id) = σ.lookup (Key.memories id) := by
  unfold notifyWorkbenches
  rw [ensures_bind, ensures_updateAll]
  refine ensures_insertEach skip fun id => ?_
  rw [lookup_insertRows_sourceInvalidated (by simp)]
  simp

theorem invalidateSource_memories (service : String) (remove : Bool) :
    Ensures skip (invalidateSource service remove) σ fun _ σ' => ∀ id, σ'.lookup (Key.memories id) =
      (σ.lookup (Key.memories id)).map fun m => if m.service = service then m.sourceChanged remove else m := by
  unfold invalidateSource
  rw [ensures_bind]
  refine (moveWatermark_memories service _).mono skip fun watermark σ₁ hσ₁ => ?_
  cases remove with
  | false =>
    simp only [Bool.false_eq_true, if_false]
    exact (notifyWorkbenches_memories service false watermark).mono skip fun _ σ₂ hσ₂ id => (hσ₂ id).trans (hσ₁ id)
  | true =>
    simp only [if_true, ensures_bind]
    refine (removeContent_memories service).mono skip fun _ σ₂ hσ₂ => ?_
    refine (notifyWorkbenches_memories service true watermark).mono skip fun _ σ₃ hσ₃ id => ?_
    rw [hσ₃, hσ₂, hσ₁, Option.map_map]
    congr 1
    funext m
    by_cases hservice : m.service = service
    · have hmoved : (m.sourceChanged false).service = service := (m.sourceChanged_kept false).service.trans hservice
      by_cases hstatus : m.status = .revoked <;> simp [hservice, Memory.sourceChanged, hstatus]
    · simp [hservice]

/-- A change of a source closes the memories that it may have made wrong, and
moves the watermark that they carry. -/
theorem sourceChanged_memoryEffect {f : Service → Service} {g : String → Memory → Memory} {txn : Transaction}
    (service : String) (hf : ∀ s, (f s).watermark = s.watermark + 1) (hkept : ∀ id (m : Memory), m.Kept (g id m))
    (hclosed : ∀ id m, (g id m).status.closed)
    (hservices : ∀ name, σ'.lookup (Key.services name) = (σ.lookup (Key.services name)).map fun s =>
      if name = service then f s else s)
    (hmemories : ∀ id, σ'.lookup (Key.memories id) = (σ.lookup (Key.memories id)).map fun m =>
      if m.service = service then g id m else m) : MemoryEffect σ txn σ' where
  services name s hs := by
    refine ⟨if name = service then f s else s, by rw [hservices, hs]; rfl, ?_⟩
    by_cases hname : name = service
    · rw [if_pos hname, hf]
      exact Nat.le_succ _
    · rw [if_neg hname]
  memories id := by
    rw [hmemories]
    cases σ.lookup (Key.memories id) with
    | none => exact .unchanged
    | some m =>
      rw [Option.map_some]
      by_cases hservice : m.service = service
      · rw [if_pos hservice]
        refine .closed (hkept id m) (hclosed id m) fun s hs => ⟨f s, ?_, ?_⟩
        · rw [hservices, hs, Option.map_some, if_pos hservice]
        · rw [hf]
          exact Nat.lt_succ_self _
      · rw [if_neg hservice]
        exact .unchanged

theorem invalidateSource_memoryEffect (service : String) (remove : Bool) :
    Ensures skip (invalidateSource service remove) σ fun _ σ' =>
      MemoryEffect σ (.request (.invalidateSource service remove)) σ' := fun value σ' hrun =>
  sourceChanged_memoryEffect _ (fun _ => rfl) (fun _ => Memory.sourceChanged_kept remove)
    (fun _ => Memory.sourceChanged_closed remove) (invalidateSource_rewrites service remove value σ' hrun).services
    (invalidateSource_memories service remove value σ' hrun)

theorem configureService_memoryEffect (service repo : String) (enabled : Bool) :
    Ensures skip (configureService service repo enabled) σ fun _ σ' =>
      MemoryEffect σ (.request (.configureService service repo enabled)) σ' := by
  unfold configureService
  simp only [ensures_bind, ensures_refuse, ensures_updateOne]
  intro _ value σ' hrun
  have hservices := (invalidateSource_rewrites service false value σ' hrun).services
  have hmemories := invalidateSource_memories service false value σ' hrun
  refine sourceChanged_memoryEffect service
    (f := fun s => { s with repo, enabled, watermark := s.watermark + 1 }) (fun s => rfl)
    (fun _ => Memory.sourceChanged_kept false) (fun _ => Memory.sourceChanged_closed false) (fun name => ?_) fun id => ?_
  · rw [hservices]
    by_cases hname : name = service
    · subst hname
      simp [Function.comp_def]
    · simp [hname]
  · rw [hmemories]
    simp

theorem memory_memoryEffect (id content newID : String) :
    Ensures skip (memory now id content newID) σ fun _ σ' =>
      MemoryEffect σ (.request (.memory id content newID)) σ' := by
  unfold memory
  simp only [ensures_bind, ensures_refuse, ensures_snapshot]
  intro _
  cases hi : σ.lookup (Key.investigations id) with
  | none => exact (ensures_ret skip).mpr (Unwatched.start σ).effect
  | some i =>
    simp only [ensures_insert]
    refine fun hfresh => ⟨fun name s hs => ⟨s, by simpa using hs, le_rfl⟩, fun mid => ?_⟩
    by_cases hmid : mid = newID
    · subst hmid
      rw [AList.lookup_insert, hfresh]
      exact .created hi rfl rfl rfl
    · rw [AList.lookup_insert_ne (by simpa using hmid)]
      exact .unchanged

theorem memoryDecision_confirmed {decision : String} (h : memoryDecision decision = some .confirmed) :
    decision = "confirm" := by
  unfold memoryDecision at h
  split at h
  · assumption
  · split at h <;> cases h

theorem reviewMemory_memoryEffect (u mid decision : String) :
    Ensures skip (reviewMemory now u mid decision) σ fun _ σ' =>
      MemoryEffect σ (.request (.reviewMemory u mid decision)) σ' := by
  unfold reviewMemory
  simp only [ensures_bind, ensures_require, ensures_selectForUpdate, ensures_snapshot,
    ensures_ofExcept, ensures_refuse, ensures_updateOne, ensures_ite, Tx.pure_eq_ret, ensures_ret]
  intro state hstate m hm s hs _ happrover hfresh
  refine ⟨fun hrevoked m₁ hm₁ value σ' hrun => ?_, fun hrevoked => ?_⟩
  · -- the memory is revoked first, and then closed again with the others of its service
    obtain rfl : m₁ = { m with status := state, reviewer := some u } := by simpa [hm] using hm₁.symm
    have hservices := (invalidateSource_rewrites m.service false value σ' hrun).services
    have hmemories := invalidateSource_memories m.service false value σ' hrun
    refine sourceChanged_memoryEffect m.service (f := fun s => { s with watermark := s.watermark + 1 })
      (g := fun id m => ((if id = mid then { m with status := state, reviewer := some u } else m) : Memory).sourceChanged
        false) (fun _ => rfl) (fun id m => ?_) (fun id m => Memory.sourceChanged_closed false _) (fun name => ?_)
      fun id => ?_
    · obtain ⟨hservice, hteam, hsource, hexpires⟩ := Memory.sourceChanged_kept false
        (if id = mid then { m with status := state, reviewer := some u } else m)
      by_cases hid : id = mid <;> simp only [hid, if_true, if_false] at hservice hteam hsource hexpires ⊢ <;>
        exact ⟨hservice, hteam, hsource, hexpires⟩
    · rw [hservices]
      simp
    · rw [hmemories]
      by_cases hid : id = mid
      · subst hid
        simp [hm]
      · simp [hid]
  · have hconfirmed : state = .confirmed := by
      unfold memoryDecision at hstate
      split at hstate
      · exact (Option.some.inj hstate).symm
      · split at hstate
        · exact absurd (Option.some.inj hstate).symm hrevoked
        · cases hstate
    subst hconfirmed
    obtain rfl := memoryDecision_confirmed hstate
    refine ⟨fun name s hs => ⟨s, by simpa using hs, le_rfl⟩, fun id => ?_⟩
    by_cases hid : id = mid
    · subst hid
      simp only [true_and, not_or, not_not] at hfresh
      rw [Store.lookup_updateOne_self, hm]
      exact .confirmed rfl happrover hs hfresh.1
    · rw [Store.lookup_updateOne_ne (by simpa using hid)]
      exact .unchanged

theorem transaction_memoryEffect (txn : Transaction) :
    Ensures skip (txn.body a now) σ fun _ σ' => MemoryEffect σ txn σ' := by
  cases hquiet : txn.quiet with
  | true =>
    exact (ensures_of_keeps skip (unwatched_body txn hquiet) (.start σ)).mono skip fun _ _ h => h.effect
  | false =>
    cases txn with
    | request r =>
      cases r with
      | invalidateSource service remove => exact invalidateSource_memoryEffect service remove
      | configureService service repo enabled => exact configureService_memoryEffect service repo enabled
      | memory id content newID => exact memory_memoryEffect id content newID
      | reviewMemory u id decision => exact reviewMemory_memoryEffect u id decision
      | _ => cases hquiet
    | _ => cases hquiet

end Sources

theorem World.memory_step (w : World) (op : Op) : (World.step a w op).store = w.store ∨
    ∃ txn, w.transaction op = some txn ∧ MemoryEffect w.store txn (World.step a w op).store := by
  rw [World.store_step]
  cases htxn : w.transaction op with
  | none => exact .inl rfl
  | some txn =>
    rw [Option.map_some, Option.getD_some, commit]
    cases hrun : (txn.body a w.now).run op.locked w.store with
    | error => exact .inl rfl
    | ok outcome => exact .inr ⟨txn, rfl, transaction_memoryEffect txn outcome.1 outcome.2 hrun⟩

end incidentdesk
