import IncidentDesk.Effects.Sources
import IncidentDesk.Handlers

namespace incidentdesk

open sql sql.Tx

variable {a : App} {now : Time} {skip : Key → Bool} {σ σ' : Store}

/-- What stands in place of deleted content. -/
inductive Blank : Json → Prop
  | removed : Blank (.obj [("content_removed", .bool true)])
  | notice (watermark : Nat) :
      Blank (.obj [("content_removed", .bool true), ("watermark", .num watermark)])

/-- Nothing that was taken from the service is left in these tables. -/
structure Blanked (service : String) (σ : Store) : Prop where
  events : ∀ id n e, ofService σ service id = true → σ.lookup (Key.events id n) = some e → Blank e.payload
  memories : ∀ id m, σ.lookup (Key.memories id) = some m → m.service = service → m.content = ""
  badcases : ∀ id row, ofService σ service row.investigation = true → σ.lookup (Key.badcases id) = some row →
    row.manifest = none

theorem updateEvents_blank (service : String) :
    Ensures skip (updateEvents (fun snap id => ofService snap service id) fun row =>
      { row with payload := .obj [("content_removed", .bool true)] }) σ fun _ σ' =>
        ∀ id n e, ofService σ' service id = true → σ'.lookup (Key.events id n) = some e → Blank e.payload := by
  rw [ensures_updateAll]
  intro id n e hof he
  have hof : ofService σ service id = true := by
    rw [← hof]
    simp [ofService]
  rw [Store.lookup_updateRows, Option.map_eq_some_iff] at he
  obtain ⟨old, -, he⟩ := he
  rw [if_pos hof] at he
  exact he ▸ .removed

theorem updateMemories_blank (service : String) :
    Ensures skip (updateMemories (fun row => row.service = service) fun row =>
      { row with content := "", status := .revoked }) σ fun _ σ' =>
        (∀ id n, σ'.lookup (Key.events id n) = σ.lookup (Key.events id n)) ∧
          (∀ id, ofService σ' service id = ofService σ service id) ∧
          ∀ id m, σ'.lookup (Key.memories id) = some m → m.service = service → m.content = "" := by
  rw [ensures_updateAll]
  refine ⟨fun _ _ => by simp, fun _ => by simp [ofService], fun id m hm hservice => ?_⟩
  rw [Store.lookup_updateRows, Option.map_eq_some_iff] at hm
  obtain ⟨old, -, rfl⟩ := hm
  by_cases hof : old.service = service <;> simp_all

theorem updateBadcases_blank (service : String) :
    Ensures skip (updateBadcases (fun snap row => ofService snap service row.investigation) fun row =>
      { row with manifest := none }) σ fun _ σ' =>
        (∀ id n, σ'.lookup (Key.events id n) = σ.lookup (Key.events id n)) ∧
          (∀ id, ofService σ' service id = ofService σ service id) ∧
          (∀ id, σ'.lookup (Key.memories id) = σ.lookup (Key.memories id)) ∧
          ∀ id row, ofService σ service row.investigation = true → σ'.lookup (Key.badcases id) = some row →
            row.manifest = none := by
  rw [ensures_updateAll]
  refine ⟨fun _ _ => by simp, fun _ => by simp [ofService], fun _ => by simp, fun id row hservice hrow => ?_⟩
  rw [Store.lookup_updateRows, Option.map_eq_some_iff] at hrow
  obtain ⟨old, -, rfl⟩ := hrow
  by_cases hof : ofService σ service old.investigation = true <;> simp_all

theorem removeContent_blanked (service : String) :
    Ensures skip (removeContent service) σ fun _ σ' => Blanked service σ' := by
  unfold removeContent
  rw [ensures_bind, ensures_updateAll, ensures_bind, ensures_updateAll, ensures_bind]
  refine (updateEvents_blank service).mono skip fun _ σ₃ hevents => ?_
  rw [ensures_bind]
  refine (updateMemories_blank service).mono skip fun _ σ₄ ⟨hevents₄, hof₄, hmemories⟩ => ?_
  rw [ensures_bind]
  refine (updateBadcases_blank service).mono skip fun _ σ₅ ⟨hevents₅, hof₅, hmemories₅, hbadcases⟩ =>
    (ensures_ret skip).mpr ⟨fun id n e hof he => ?_, fun id m hm => ?_, fun id row hof hrow => ?_⟩
  · exact hevents id n e (by rwa [← hof₄, ← hof₅]) (by rwa [← hevents₄, ← hevents₅])
  · exact hmemories id m (by rwa [← hmemories₅])
  · exact hbadcases id row (by rwa [← hof₅]) hrow

theorem notifyWorkbenches_blanked {service : String} (hσ : Blanked service σ) (watermark : Nat) :
    Ensures skip (notifyWorkbenches service true watermark) σ fun _ σ' => Blanked service σ' := by
  unfold notifyWorkbenches
  rw [ensures_bind]
  have hbumped : Ensures skip (updateInvestigations (fun _ _ row => row.service = service)
      fun _ _ row => { row with seq := row.seq + 1 }) σ fun _ σ₁ => Blanked service σ₁ := by
    have hrewrites : Ensures skip (updateInvestigations (fun _ _ row => row.service = service)
        fun _ _ row => { row with seq := row.seq + 1 }) σ fun _ σ₁ =>
          Rewrites service id (fun i => { i with seq := i.seq + 1 }) id σ σ₁ :=
      updateInvestigations_rewrites service _
    rw [ensures_updateAll] at hrewrites ⊢
    have hof := hrewrites.ofService_eq fun _ => rfl
    refine ⟨fun id n e hservice he => hσ.events id n e (hof id ▸ hservice) (by simpa using he),
      fun id m hm => hσ.memories id m (by simpa using hm), fun id row hservice hrow => ?_⟩
    exact hσ.badcases id row (hof row.investigation ▸ hservice) (by simpa using hrow)
  refine hbumped.mono skip fun changed σ₁ hσ₁ => ?_
  refine ensures_insertEach skip ?_
  have hlookup {key : Key} (hkey : ∀ id seq, key ≠ .events id seq) :
      (Store.insertRows (changed.filterMap (sourceInvalidated true watermark)) σ₁).lookup key = σ₁.lookup key :=
    lookup_insertRows_sourceInvalidated hkey
  have hofService (id : String) : ofService (Store.insertRows (changed.filterMap (sourceInvalidated true watermark)) σ₁)
      service id = ofService σ₁ service id := by
    rw [ofService, hlookup (by simp), ofService]
  refine ⟨fun id n e hof he => ?_, fun id m hm => ?_, fun id row hof hrow => ?_⟩
  · rw [hofService] at hof
    obtain hmem | he := Store.lookup_insertRows he
    · obtain ⟨⟨key, row⟩, -, hnotice⟩ := List.mem_filterMap.mp hmem
      cases key <;> cases hnotice
      exact .notice watermark
    · exact hσ₁.events id n e hof he
  · rw [hlookup (by simp)] at hm
    exact hσ₁.memories id m hm
  · rw [hofService] at hof
    rw [hlookup (by simp)] at hrow
    exact hσ₁.badcases id row hof hrow

theorem invalidateSource_blanked (service : String) :
    Ensures skip (invalidateSource service true) σ fun _ σ' => Blanked service σ' := by
  unfold invalidateSource
  rw [ensures_bind]
  refine (moveWatermark_rewrites service _).mono skip fun watermark σ₁ _ => ?_
  simp only [if_true, ensures_bind]
  exact (removeContent_blanked service).mono skip fun _ σ₂ hσ₂ => notifyWorkbenches_blanked hσ₂ watermark

/-- What a callback and the end of an attempt write besides the case: notes to
the stream of one investigation. -/
structure Noted (σ : Store) (notes : String → Json → Prop) (rows : (key : Key) → Option (Row key)) : Prop where
  memories : ∀ id, rows (Key.memories id) = σ.lookup (Key.memories id)
  events : ∀ id n e, rows (Key.events id n) = some e → σ.lookup (Key.events id n) = some e ∨ notes id e.payload

section Noted

variable {notes : String → Json → Prop}

theorem Noted.start (σ : Store) : Noted σ notes σ.lookup := ⟨fun _ => rfl, fun _ _ _ he => .inl he⟩

theorem kept_noted : Kept solo (fun ℓ => Noted σ notes ℓ.lookup) Key.ordinary := by
  refine kept_solo (P := Noted σ notes) fun ℓ key row h hrow => ⟨fun id => ?_, fun id n e he => ?_⟩
  · rw [Local.lookup_write_ne]
    · exact h.memories id
    · rintro rfl
      exact hrow
  · rw [Local.lookup_write_ne] at he
    · exact h.events id n e he
    · rintro rfl
      exact hrow

theorem keeps_noted {id kind : String} {payload : Json} (hnotes : notes id payload) :
    Keeps solo (fun _ _ _ => True) (fun ℓ => Noted σ notes ℓ.lookup) (event id kind payload) := by
  have hkept : Kept solo (fun ℓ => Noted σ notes ℓ.lookup) fun key _ row =>
      match key, row with
      | .events id' _, row => id' = id ∧ row.payload = payload
      | .memories _, _ => False
      | _, _ => True := by
    refine kept_solo (P := Noted σ notes) fun ℓ key row h hrow => ⟨fun id' => ?_, fun id' n e he => ?_⟩
    · rw [Local.lookup_write_ne]
      · exact h.memories id'
      · rintro rfl
        exact hrow
    · by_cases hkey : Key.events id' n = key
      · subst hkey
        rw [Local.lookup_write_self] at he
        cases he
        obtain ⟨rfl, hpayload⟩ := hrow
        exact .inr (hpayload ▸ hnotes)
      · rw [Local.lookup_write_ne hkey] at he
        exact h.events id' n e he
  exact (hkept.updateOne fun _ _ _ => by trivial).bind fun _ => keeps_require.bind fun _ =>
    hkept.insert (by exact ⟨rfl, rfl⟩)

theorem callback_noted (id op : String) (b : Callback) :
    Ensures skip (callback a now id op b) σ fun _ σ' =>
      Noted σ (fun id' payload => id' = id ∧ b.Notes op payload) σ'.lookup :=
  ensures_of_keeps skip (keeps_callback kept_noted (fun _ _ hnotes => keeps_noted ⟨rfl, hnotes⟩) a now) (.start σ)

theorem actionFinish_noted (r : actionRun) (result : Except String Json) :
    Ensures skip (actionFinish now r result) σ fun _ σ' =>
      Noted σ (fun id _ => id = r.Investigation) σ'.lookup :=
  ensures_of_keeps skip (keeps_actionFinish kept_noted now r result fun _ _ => keeps_noted rfl) (.start σ)

end Noted

/-- A badcase keeps its manifest or loses it, and a new one copies that of its
investigation. -/
def Copied (σ : Store) (rows : (key : Key) → Option (Row key)) : Prop :=
  ∀ id row, rows (Key.badcases id) = some row →
    (∃ old, σ.lookup (Key.badcases id) = some old ∧ row.investigation = old.investigation ∧
      (row.manifest = old.manifest ∨ row.manifest = none)) ∨
    ∃ i, σ.lookup (Key.investigations row.investigation) = some i ∧ (row.manifest = i.manifest ∨ row.manifest = none)

theorem Copied.start (σ : Store) : Copied σ σ.lookup := fun _ row hrow => .inl ⟨row, hrow, rfl, .inl rfl⟩

theorem recordBadcase_copied (u id category label newID : String) :
    Ensures skip (recordBadcase u id category label newID) σ fun _ σ' => Copied σ σ'.lookup := by
  unfold recordBadcase
  rw [ensures_bind, ensures_snapshot]
  cases hi : σ.lookup (Key.investigations id) with
  | none => exact (ensures_ret skip).mpr (.start σ)
  | some i =>
    simp only [ensures_insert]
    intro _ id' row hrow
    by_cases hid : id' = newID
    · subst hid
      obtain rfl := Option.some.inj ((AList.lookup_insert σ).symm.trans hrow)
      exact .inr ⟨i, hi, .inl rfl⟩
    · exact Copied.start σ id' row ((AList.lookup_insert_ne (by simpa using hid)).symm.trans hrow)

/-- A bad case keeps its investigation, and its manifest unless it loses it. -/
def keepsManifest (key : Key) (row : Option (Row key)) (row' : Row key) : Prop :=
  match key, row, row' with
  | .badcases _, row, (row' : Badcase) => ∃ old : Badcase, row = some old ∧
      row'.investigation = old.investigation ∧ (row'.manifest = old.manifest ∨ row'.manifest = none)
  | _, _, _ => True

theorem transaction_copied (txn : Transaction) :
    Ensures skip (txn.body a now) σ fun _ σ' => Copied σ σ'.lookup := by
  by_cases hbadcase : ∃ u id category label newID, txn = .request (.badcase u id category label newID)
  · obtain ⟨u, id, category, label, newID, rfl⟩ := hbadcase
    have hrecord : Ensures skip (recordBadcase u id category label newID) σ fun _ σ' => Copied σ σ'.lookup :=
      recordBadcase_copied u id category label newID
    change Ensures skip (badcase u id category label newID) σ _
    unfold badcase
    simp only [ensures_bind, ensures_refuse, ensures_require, ensures_snapshot, ensures_ite, ensures_ofExcept]
    exact fun _ i _ => ⟨fun _ _ _ => hrecord, fun _ => hrecord⟩
  · have hkept : Kept solo (fun ℓ => Copied σ ℓ.lookup) keepsManifest := by
      refine kept_solo (P := Copied σ) fun ℓ key row h hrow id row' hrow' => ?_
      by_cases hkey : Key.badcases id = key
      · subst hkey
        rw [Local.lookup_write_self] at hrow'
        cases hrow'
        obtain ⟨old, hold, hinvestigation, hmanifest⟩ := hrow
        have hcases {manifest : Option Json} (h : old.manifest = manifest ∨ old.manifest = none) :
            row'.manifest = manifest ∨ row'.manifest = none := by
          obtain hmanifest | hmanifest := hmanifest
          · rwa [hmanifest]
          · exact .inr hmanifest
        rw [hinvestigation]
        obtain ⟨first, hfirst, hsame, hfrom⟩ | ⟨i, hi, hfrom⟩ := h id old hold
        · exact .inl ⟨first, hfirst, hsame, hcases hfrom⟩
        · exact .inr ⟨i, hi, hcases hfrom⟩
      · rw [Local.lookup_write_ne hkey] at hrow'
        exact h id row' hrow'
    have hevent (id kind : String) (payload : Json) : Keeps solo (fun _ _ _ => True) (fun ℓ => Copied σ ℓ.lookup)
        (event id kind payload) :=
      (hkept.updateOne fun _ _ _ => by trivial).bind fun _ => keeps_require.bind fun _ =>
        hkept.insert (by trivial)
    have hstamped : Kept solo (fun ℓ => Copied σ ℓ.lookup) Key.stamped := hkept.mono fun key row row' h => by
      cases key with
      | badcases => exact h
      | _ => trivial
    have hnotify (service : String) (remove : Bool) (watermark : Nat) :
        Keeps solo (fun _ _ _ => True) (fun ℓ => Copied σ ℓ.lookup) (notifyWorkbenches service remove watermark) := by
      refine (hkept.updateAll fun snap key row hp => ?_).bind fun changed => hkept.insertEach fun e he => ?_
      · cases key with
        | badcases => cases hp
        | _ => trivial
      · obtain ⟨id, n, hkey⟩ := key_of_sourceInvalidated he
        obtain ⟨key, row⟩ := e
        obtain rfl : key = Key.events id n := hkey
        trivial
    exact ensures_of_keeps skip (P := Copied σ) (keeps_body (kept_sourced hstamped) hevent a now txn
      (keeps_stamps hstamped hevent hnotify a now txn) fun u id category label newID h =>
        absurd ⟨u, id, category, label, newID, h⟩ hbadcase) (.start σ)

end incidentdesk
