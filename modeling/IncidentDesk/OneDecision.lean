import IncidentDesk.RequestKey
import IncidentDesk.Seed

namespace incidentdesk

open sql sql.Tx
open Workbench (Answer)

section Known

variable {a : App} {init : Store} {c : UnifiedCall}

theorem Holds.mono {key : Key} {P : Row key → Prop} {rows rows' : (key : Key) → Option (Row key)}
    (h : Holds key P rows)
    (hrows : ∀ key row, rows key = some row → ∃ row', rows' key = some row' ∧ key.stays row row')
    (hP : ∀ row row', key.stays row row' → P row → P row') : Holds key P rows' := by
  obtain ⟨row, hrow, hrowP⟩ := h
  obtain ⟨row', hrow', hstays⟩ := hrows key row hrow
  exact ⟨row', hrow', hP row row' hstays hrowP⟩

/-- What a call has learned stays true when others commit. -/
theorem Learned.mono {rows rows' : (key : Key) → Option (Row key)} {s next : Stage} (h : Learned a init c rows s next)
    (hrows : ∀ key row, rows key = some row → ∃ row', rows' key = some row' ∧ key.stays row row') :
    Learned a init c rows' s next := by
  cases h with
  | conflict => exact .conflict
  | reserved kind cached h =>
    exact .reserved kind cached (h.mono hrows fun row row' hstays hrow =>
      ⟨hstays.1.trans hrow.1, fun d hd => hstays.2 d (hrow.2 d hd)⟩)
  | found kind cached row h => exact .found kind cached row (h.mono hrows fun _ _ hstays hrow => Eq.trans hstays hrow)
  | missed kind cached h => exact .missed kind cached h
  | granted id dataset question => exact .granted id dataset question
  | cached kind d => exact .cached kind d
  | routed kind d => exact .routed kind d
  | stored d d' h => exact .stored d d' (h.mono hrows fun _ _ hstays hrow => hstays.2 d' hrow)
  | known d id team h => exact .known d id team (h.mono hrows fun _ _ hstays hrow => Eq.trans hstays hrow)
  | unknown d => exact .unknown d
  | accepted d id team => exact .accepted d id team
  | planned d => exact .planned d
  | asked d answer h => exact .asked d answer h
  | made d id h => exact .made d id (h.mono hrows fun _ _ hstays hrow => Eq.trans hstays hrow)
  | allowed d => exact .allowed d
  | admitted d id h =>
    exact .admitted d id (h.mono hrows fun _ _ hstays hrow => (congrArg DataQuery.id hstays).trans hrow)
  | failed s error h => exact .failed s error h
  | settled s h => exact .settled s h

end Known

/-- Every transaction of a call passes to its next stage. -/
theorem transit_proved (a : App) (init : Store) : (unifiedRows init).Proved (fun _ _ _ _ => True)
    (fun t => Passes a init t.call t.stage t.next) (Transit.body a) where
  stable t ℓ ℓ' hrely h :=
    ⟨Leaves.steady.stable ℓ ℓ' hrely h.1, h.2.mono fun _ _ hrow => stays_of_rely hrely hrow⟩
  inv _ _ _ _ h := h.1.since.trans h.1.stays
  step _ _ _ _ h := h.1.stays
  wp t σ hσ := by
    refine ((triple_stage t.stage).bind fun next => triple_refuse fun hnext ℓ hℓ => ?_) (.start σ)
      ⟨hσ, fun key row hrow => by cases hrow⟩
    rw [not_not] at hnext
    exact hnext ▸ hℓ

/-- The key is reserved for the body of the call. -/
def Reserved (a : App) (c : UnifiedCall) (σ : Store) (P : UnifiedRequest → Prop) : Prop :=
  Holds (.unified_requests c.Subject c.Idem) (fun row => row.request_hash = c.hash a ∧ P row) σ.lookup

/-- The stored decision is the one of the call, and it asks for a tool under a key
that has had no data query. -/
structure Decided (a : App) (init : Store) (c : UnifiedCall) (σ : Store) (d : queryDecision) (kind : String) :
    Prop where
  stored : Reserved a c σ fun row => row.decision = some d
  kind : d.Kind = kind
  new : init.lookup (Key.data_queries c.Subject c.Idem) = none

/-- What is so when a call is at a stage. -/
def Known (a : App) (init : Store) (c : UnifiedCall) (σ : Store) : Stage → Prop
  | .reserve => True
  | .lookup _ cached => Reserved a c σ fun row => ∀ d, cached = some d → row.decision = some d
  | .route _ cached => (Reserved a c σ fun row => ∀ d, cached = some d → row.decision = some d) ∧
      init.lookup (Key.data_queries c.Subject c.Idem) = none
  | .store _ => (Reserved a c σ fun _ => True) ∧ init.lookup (Key.data_queries c.Subject c.Idem) = none
  | .grant id _ question => (Reserved a c σ fun _ => True) ∧
      Holds (.data_queries c.Subject c.Idem) (fun row : DataQuery => row.id = id ∧ row.question = question) σ.lookup
  | .natural d | .plan d | .createTask d => Decided a init c σ d "investigation"
  | .accept d id _ => Decided a init c σ d "investigation" ∧
      Holds (.investigations_idem c.Subject c.Idem) (· = id) σ.lookup
  | .warehouse d | .submit d => Decided a init c σ d "warehouse"
  | .failed error => error = E 409 "idempotency_payload_conflict" ∨ Reserved a c σ fun _ => True
  | .answered answer => (Reserved a c σ fun _ => True) ∧ (answer.code = 202 →
      (∃ row : DataQuery, σ.lookup (Key.data_queries c.Subject c.Idem) = some row ∧
        answer = warehouseReply row.id row.question) ∨
      ∃ id d, σ.lookup (Key.investigations_idem c.Subject c.Idem) = some id ∧ answer = acceptedReply id ∧
        Decided a init c σ d "investigation")

section Invariant

variable {a : App} {init σ σ' : Store} {c : UnifiedCall} {s next : Stage} {d : queryDecision} {kind : String}

theorem Reserved.mono {P : UnifiedRequest → Prop} (h : Reserved a c σ P) (hstays : Stays σ σ')
    (hP : ∀ row row' : UnifiedRequest, (∀ d, row.decision = some d → row'.decision = some d) → P row → P row') :
    Reserved a c σ' P :=
  Holds.mono h hstays fun row row' hsame hrow => ⟨hsame.1.trans hrow.1, hP row row' hsame.2 hrow.2⟩

theorem Reserved.any {P : UnifiedRequest → Prop} (h : Reserved a c σ P) : Reserved a c σ fun _ => True := by
  obtain ⟨row, hrow, hhash, -⟩ := h
  exact ⟨row, hrow, hhash, trivial⟩

theorem Decided.mono (h : Decided a init c σ d kind) (hstays : Stays σ σ') : Decided a init c σ' d kind :=
  ⟨h.stored.mono hstays fun _ _ hsame hrow => hsame d hrow, h.kind, h.new⟩

theorem Known.mono (h : Known a init c σ s) (hstays : Stays σ σ') : Known a init c σ' s := by
  have hany (h : Reserved a c σ fun _ => True) : Reserved a c σ' fun _ => True := h.mono hstays fun _ _ _ _ => trivial
  have hcached {cached : Option queryDecision}
      (h : Reserved a c σ fun row => ∀ d, cached = some d → row.decision = some d) :
      Reserved a c σ' fun row => ∀ d, cached = some d → row.decision = some d :=
    h.mono hstays fun _ _ hsame hrow d hd => hsame d (hrow d hd)
  cases s with
  | reserve => trivial
  | lookup => exact hcached h
  | route => exact ⟨hcached h.1, h.2⟩
  | store => exact ⟨hany h.1, h.2⟩
  | grant id _ question =>
    obtain ⟨hreserved, row, hrow, hid⟩ := h
    obtain ⟨row', hrow', hsame⟩ := hstays (Key.data_queries c.Subject c.Idem) row hrow
    obtain rfl : row' = row := hsame
    exact ⟨hany hreserved, row', hrow', hid⟩
  | natural | plan | createTask | warehouse | submit => exact Decided.mono h hstays
  | accept => exact ⟨h.1.mono hstays, h.2.mono hstays fun _ _ hsame hrow => Eq.trans hsame hrow⟩
  | failed => exact h.imp_right hany
  | answered =>
    refine ⟨hany h.1, fun hcode => ?_⟩
    obtain ⟨row, hrow, hanswer⟩ | ⟨id, d, hid, hanswer, hdecided⟩ := h.2 hcode
    · obtain ⟨row', hrow', hsame⟩ := hstays (Key.data_queries c.Subject c.Idem) row hrow
      obtain rfl : row' = row := hsame
      exact .inl ⟨row', hrow', hanswer⟩
    · obtain ⟨id', hid', hsame⟩ := hstays (Key.investigations_idem c.Subject c.Idem) id hid
      obtain rfl : id' = id := hsame
      exact .inr ⟨id', d, hid', hanswer, hdecided.mono hstays⟩

/-- The key is reserved for a call that has got anywhere. -/
theorem Known.reserved (h : Known a init c σ s) (hs : s ≠ .reserve)
    (hfailed : s ≠ .failed (E 409 "idempotency_payload_conflict")) : Reserved a c σ fun _ => True := by
  cases s with
  | reserve => exact absurd rfl hs
  | lookup => exact Reserved.any h
  | route | store | grant | answered => exact Reserved.any h.1
  | natural | plan | createTask | warehouse | submit => exact (Decided.stored h).any
  | accept => exact h.1.stored.any
  | failed => exact h.resolve_left fun herror => hfailed (congrArg _ herror)

/-- A data query was there before the calls, or the stored decision has made it. -/
def Asked (init σ : Store) : Prop := ∀ u k (row : DataQuery), σ.lookup (Key.data_queries u k) = some row →
  init.lookup (Key.data_queries u k) = some row ∨
    ∃ d : queryDecision, Holds (.unified_requests u k) (fun row => row.decision = some d) σ.lookup ∧
      d.Kind = "warehouse" ∧ row.question = d.Question

/-- A call goes on from its decision as the stored one says. -/
theorem known_act (hstored : Reserved a c σ fun row => row.decision = some d)
    (hnew : init.lookup (Key.data_queries c.Subject c.Idem) = none) : Known a init c σ (c.act a d) := by
  obtain ⟨hact, hkind, -⟩ | ⟨hact, hkind, -⟩ | ⟨error, hact⟩ | hact := UnifiedCall.act_cases a c d
  · rw [hact]
    exact ⟨hstored, hkind, hnew⟩
  · rw [hact]
    exact ⟨hstored, hkind, hnew⟩
  · rw [hact]
    exact .inr hstored.any
  · rw [hact]
    exact ⟨hstored.any, fun hcode => by cases hcode⟩

/-- What a call has learned tells what is so at its next stage. -/
theorem Known.pass (h : Known a init c σ s) (hlive : s.final = false) (hstays : Stays σ σ') (hasked : Asked init σ')
    (hlearned : Learned a init c σ'.lookup s next) : Known a init c σ' next := by
  have h' := h.mono hstays
  cases hlearned with
  | conflict => exact .inl rfl
  | reserved kind cached hrow => exact hrow
  | found kind cached row hrow =>
    obtain ⟨row', hrow', rfl⟩ := hrow
    exact ⟨Reserved.any h', row', hrow', rfl, rfl⟩
  | missed kind cached hnew => exact ⟨h', hnew⟩
  | granted id dataset question =>
    obtain ⟨hreserved, row, hrow, rfl, rfl⟩ := h'
    exact ⟨hreserved, fun _ => .inl ⟨row, hrow, rfl⟩⟩
  | cached kind d =>
    obtain ⟨⟨row, hrow, hhash, hdecision⟩, hnew⟩ := h'
    exact known_act ⟨row, hrow, hhash, hdecision d rfl⟩ hnew
  | routed kind d => exact ⟨Reserved.any h'.1, h'.2⟩
  | stored d d' hstored =>
    obtain ⟨⟨row, hrow, hhash, -⟩, hnew⟩ := h'
    obtain ⟨row', hrow', hdecision⟩ := hstored
    obtain rfl := Option.some.inj (hrow.symm.trans hrow')
    exact known_act ⟨row, hrow, hhash, hdecision⟩ hnew
  | known d id team hid => exact ⟨h', hid⟩
  | unknown | planned | allowed => exact h'
  | accepted d id team =>
    obtain ⟨hdecided, id', hid, rfl⟩ := h'
    exact ⟨hdecided.stored.any, fun _ => .inr ⟨id', d, hid, rfl, hdecided⟩⟩
  | asked d answer hcode =>
    refine ⟨(Decided.stored h').any, fun hcode' => ?_⟩
    rw [hcode] at hcode'
    cases hcode'
  | made d id hid =>
    obtain ⟨id', hid', rfl⟩ := hid
    exact ⟨(Decided.stored h').any, fun _ => .inr ⟨id', d, hid', rfl, h'⟩⟩
  | admitted d id hrow =>
    obtain ⟨row, hrow, rfl⟩ := hrow
    obtain ⟨⟨reservation, hreservation, hhash, hdecision⟩, -, hnew⟩ := h'
    refine ⟨⟨reservation, hreservation, hhash, trivial⟩, fun _ => .inl ⟨row, hrow, ?_⟩⟩
    obtain hinit | ⟨d', ⟨reservation', hreservation', hdecision'⟩, -, hquestion⟩ := hasked _ _ row hrow
    · rw [hnew] at hinit
      cases hinit
    · obtain rfl := Option.some.inj (hreservation.symm.trans hreservation')
      obtain rfl := Option.some.inj (hdecision.symm.trans hdecision')
      rw [hquestion]
  | failed s error hs =>
    refine .inr (h'.reserved hs ?_)
    rintro rfl
    cases hlive
  | settled s hover =>
    rw [hover] at hlive
    cases hlive

end Invariant

/-- A data query that is made has the stored decision behind it. -/
theorem Asked.commit {a : App} {init : Store} {c : UnifiedCall} {s : Stage} {ℓ : Local Row}
    (h : Asked init ℓ.committed) (hleaves : Leaves a init c s ℓ) (hknown : Known a init c ℓ.committed s) :
    Asked init ℓ.commit := by
  have hholds {u k : String} {d : queryDecision}
      (h : Holds (.unified_requests u k) (fun row => row.decision = some d) ℓ.committed.lookup) :
      Holds (.unified_requests u k) (fun row => row.decision = some d) ℓ.commit.lookup :=
    h.mono hleaves.stays fun _ _ hsame hrow => hsame.2 d hrow
  intro u k row hrow
  rw [Local.lookup_commit, Local.lookup, Option.or_eq_some_iff] at hrow
  obtain hwrites | ⟨-, hrow⟩ := hrow
  · obtain ⟨-, rfl, rfl, d, rfl, -, hquestion⟩ := hleaves.written (Key.data_queries u k) row hwrites
    obtain ⟨⟨row', hrow', -, hdecision⟩, hkind, -⟩ := hknown
    exact .inr ⟨d, hholds ⟨row', hrow', hdecision⟩, hkind, hquestion⟩
  · exact (h u k row hrow).imp_right (Exists.imp fun d hd => hd.imp_left hholds)

namespace Desk

/-- Every call is where its reads have led it. -/
structure Sound (a : App) (init : Store) (d : Desk) : Prop where
  db : Database.Sound (unifiedRows init) (fun _ _ _ _ => True)
    (fun t => Passes a init t.call t.stage t.next) d.db
  calls : ∀ n t, d.db.opens.lookup n = some t →
    d.calls.lookup n = some (t.label.call, t.label.stage) ∧ t.label.stage.final = false
  known : ∀ n c s, d.calls.lookup n = some (c, s) → Known a init c d.db.store s
  asked : Asked init d.db.store

section Step

variable {a : App} {init : Store} {d : Desk} {n : Nat}

theorem Sound.open_ (a : App) (init : Store) : Sound a init (Desk.open_ init) where
  db := .idle (Stays.refl init)
  calls n t ht := by cases ht
  known n c s hc := by cases hc
  asked u k row hrow := .inl hrow

theorem lookup_calls_insert {calls : sql.Store fun _ : Nat => UnifiedCall × Stage} {m : Nat}
    {entry entry' : UnifiedCall × Stage} (h : (calls.insert n entry).lookup m = some entry') :
    m = n ∧ entry' = entry ∨ m ≠ n ∧ calls.lookup m = some entry' := by
  by_cases hm : m = n
  · subst hm
    rw [AList.lookup_insert] at h
    exact .inl ⟨rfl, (Option.some.inj h).symm⟩
  · rw [AList.lookup_insert_ne hm] at h
    exact .inr ⟨hm, h⟩

theorem lookup_calls_erase {calls : sql.Store fun _ : Nat => UnifiedCall × Stage} {m : Nat}
    {entry : UnifiedCall × Stage} (h : (calls.erase n).lookup m = some entry) : calls.lookup m = some entry := by
  by_cases hm : m = n
  · subst hm
    rw [AList.lookup_erase] at h
    cases h
  · rwa [AList.lookup_erase_ne hm] at h

theorem Sound.db_step (h : d.Sound a init) (move : sql.Move Transit) :
    Database.Sound (unifiedRows init) (fun _ _ _ _ => True) (fun t => Passes a init t.call t.stage t.next)
      (d.db.step (Transit.body a) move) :=
  (h.db.step (transit_proved a init) fun _ _ _ _ _ _ _ _ _ => trivial).1

/-- A call that is new on its connection. -/
theorem Sound.arrive (h : d.Sound a init) (hn : n ∉ d.calls) (c : UnifiedCall) :
    Sound a init { d with calls := d.calls.insert n (c, .reserve) } where
  db := h.db
  calls m t ht := by
    obtain ⟨hm, hlive⟩ := h.calls m t ht
    refine ⟨?_, hlive⟩
    rwa [AList.lookup_insert_ne]
    rintro rfl
    exact hn (AList.lookup_isSome.mp (by rw [hm]; rfl))
  known m c' s hc := by
    obtain ⟨-, hentry⟩ | ⟨-, hc⟩ := lookup_calls_insert hc
    · cases hentry
      trivial
    · exact h.known m c' s hc
  asked := h.asked

/-- A call begins the transaction of its stage. -/
theorem Sound.begin (h : d.Sound a init) {c : UnifiedCall} {s : Stage} (hc : d.calls.lookup n = some (c, s))
    (hlive : s.final = false) (next : Stage) :
    Sound a init { d with db := d.db.step (Transit.body a) (.start n { call := c, stage := s, next }) } where
  db := h.db_step (.start n { call := c, stage := s, next })
  calls m t ht := by
    change (d.db.step (Transit.body a) _).opens.lookup m = some t at ht
    unfold Database.step at ht
    by_cases hn : n ∈ d.db.opens
    · simp only [hn, if_true] at ht
      exact h.calls m t ht
    · simp only [hn, if_false] at ht
      obtain ⟨rfl, rfl⟩ | ⟨-, ht⟩ := Database.lookup_insert _ ht
      · exact ⟨hc, hlive⟩
      · exact h.calls m t ht
  known m c' s' hc' := by
    change Known a init c' (d.db.step (Transit.body a) _).store s'
    rw [Database.store_step]
    exact h.known m c' s' hc'
  asked := by
    change Asked init (d.db.step (Transit.body a) _).store
    rw [Database.store_step]
    exact h.asked

/-- A call that is gone. -/
theorem Sound.gone (h : d.Sound a init) {db : Database Row Error Transit}
    (hdb : Database.Sound (unifiedRows init) (fun _ _ _ _ => True)
      (fun t => Passes a init t.call t.stage t.next) db) (hstore : db.store = d.db.store)
    (hopens : ∀ m t, db.opens.lookup m = some t → m ≠ n ∧ ∃ t', d.db.opens.lookup m = some t' ∧ t'.label = t.label) :
    Sound a init { db, calls := d.calls.erase n } where
  db := hdb
  calls m t ht := by
    obtain ⟨hm, t', ht', hlabel⟩ := hopens m t ht
    rw [AList.lookup_erase_ne hm, ← hlabel]
    exact h.calls m t' ht'
  known m c s hc := by
    rw [hstore]
    exact h.known m c s (lookup_calls_erase hc)
  asked := by
    rw [hstore]
    exact h.asked

/-- The transactions that are open after a request were open before it. -/
theorem lookup_exec {db : Database Row Error Transit} {m : Nat} {t : Open Row Error Transit}
    (ht : (db.step (Transit.body a) (.exec n)).opens.lookup m = some t) :
    ∃ t', db.opens.lookup m = some t' ∧ t'.label = t.label := by
  cases hn : db.opens.lookup n with
  | none =>
    simp only [Database.step, hn, Option.map_none, Option.getD_none] at ht
    exact ⟨t, ht, rfl⟩
  | some t₀ =>
    simp only [Database.step, hn, Option.map_some, Option.getD_some] at ht
    exact Database.exec_label hn ht

/-- A transaction that commits is closed. -/
theorem lookup_commits {db : Database Row Error Transit} {m : Nat} {t t' : Open Row Error Transit}
    (ht : db.commits (.exec n) = some t) (ht' : (db.step (Transit.body a) (.exec n)).opens.lookup m = some t') :
    m ≠ n := by
  obtain ⟨hn, hdone⟩ := Option.filter_eq_some_iff.mp ht
  obtain ⟨label, body, writes, locks⟩ := t
  cases body with
  | ret value =>
    simp only [Database.step, hn, Option.map_some, Option.getD_some, Database.exec] at ht'
    exact (Database.lookup_erase ht').1
  | raise | scan | lock | tryLock | write => cases hdone

/-- The transaction of a call commits. -/
theorem Sound.committed (h : d.Sound a init) {t : Open Row Error Transit} (ht : d.db.commits (.exec n) = some t) :
    Sound a init
      { db := d.db.step (Transit.body a) (.exec n), calls := d.calls.insert n (t.label.call, t.label.next) } := by
  obtain ⟨⟨hleaves, hlearned⟩, -⟩ := h.db.commits ht
  obtain ⟨hn, hlive⟩ := h.calls n t (Option.filter_eq_some_iff.mp ht).1
  have hstore : (d.db.step (Transit.body a) (.exec n)).store = (t.at d.db.store).commit := by
    rw [Database.store_step, ht, Option.map_some, Option.getD_some]
  have hknown := h.known n _ _ hn
  have hasked : Asked init (t.at d.db.store).commit := Asked.commit h.asked hleaves hknown
  refine ⟨h.db_step (.exec n), fun m t' ht' => ?_, fun m c s hc => ?_, ?_⟩
  · obtain ⟨t'', ht'', hlabel⟩ := lookup_exec (a := a) ht'
    change (d.calls.insert n (t.label.call, t.label.next)).lookup m = _ ∧ _
    rw [AList.lookup_insert_ne (lookup_commits (a := a) ht ht'), ← hlabel]
    exact h.calls m t'' ht''
  · change Known a init c (d.db.step (Transit.body a) (.exec n)).store s
    rw [hstore]
    obtain ⟨-, hentry⟩ | ⟨-, hc⟩ := lookup_calls_insert hc
    · cases hentry
      refine hknown.pass hlive hleaves.stays hasked ?_
      simpa only [Local.lookup_commit] using hlearned
    · exact (h.known m c s hc).mono hleaves.stays
  · change Asked init (d.db.step (Transit.body a) (.exec n)).store
    rwa [hstore]

theorem Sound.settle (h : d.Sound a init) : Sound a init (d.settle n (d.db.step (Transit.body a) (.exec n))) := by
  unfold Desk.settle
  cases ht : d.db.commits (.exec n) with
  | some t => exact h.committed ht
  | none =>
    have hstore : (d.db.step (Transit.body a) (.exec n)).store = d.db.store := by
      rw [Database.store_step, ht, Option.map_none, Option.getD_none]
    dsimp only
    by_cases hn : n ∈ (d.db.step (Transit.body a) (.exec n)).opens
    · rw [if_pos hn]
      refine ⟨h.db_step (.exec n), fun m t ht => ?_, fun m c s hc => ?_, ?_⟩
      · obtain ⟨t', ht', hlabel⟩ := lookup_exec (a := a) ht
        rw [← hlabel]
        exact h.calls m t' ht'
      · change Known a init c (d.db.step (Transit.body a) (.exec n)).store s
        rw [hstore]
        exact h.known m c s hc
      · change Asked init (d.db.step (Transit.body a) (.exec n)).store
        rw [hstore]
        exact h.asked
    · rw [if_neg hn]
      refine h.gone (h.db_step (.exec n)) hstore fun m t ht => ⟨?_, lookup_exec (a := a) ht⟩
      rintro rfl
      exact hn (AList.lookup_isSome.mp (by rw [ht]; rfl))

theorem Sound.step (h : d.Sound a init) (move : Desk.Move) : Sound a init (d.step a move) := by
  cases move with
  | arrive n r given =>
    change Sound a init (if n ∈ d.calls then d else _)
    by_cases hn : n ∈ d.calls
    · rwa [if_pos hn]
    · rw [if_neg hn]
      cases r.begin a given with
      | none => exact h
      | some c => exact h.arrive hn c
  | begin n next =>
    cases hc : d.calls.lookup n with
    | none =>
      simp only [Desk.step, hc]
      exact h
    | some call =>
      obtain ⟨c, s⟩ := call
      simp only [Desk.step, hc]
      by_cases hlive : s.final = true
      · rwa [if_pos hlive]
      · rw [if_neg hlive]
        exact h.begin hc (Bool.eq_false_iff.mpr hlive) next
  | exec n =>
    change Sound a init (if n ∈ d.db.opens then _ else d)
    by_cases hn : n ∈ d.db.opens
    · rw [if_pos hn]
      exact h.settle
    · rwa [if_neg hn]
  | crash n =>
    cases hc : d.calls.lookup n with
    | none =>
      simp only [Desk.step, hc]
      exact h
    | some call =>
      obtain ⟨c, s⟩ := call
      simp only [Desk.step, hc]
      by_cases hlive : s.final = true
      · rwa [if_pos hlive]
      · rw [if_neg hlive]
        refine h.gone (h.db_step (.abort n)) rfl fun m t ht => ?_
        obtain ⟨hm, ht⟩ := Database.lookup_erase ht
        exact ⟨hm, t, ht, rfl⟩

theorem sound_after (a : App) (init : Store) (moves : List Desk.Move) : Sound a init (Desk.after a init moves) :=
  machine.run_invariant (Sound.open_ a init) (fun _ move h => h.step move) moves

/-- The transaction that a move commits. -/
def commits (d : Desk) : Desk.Move → Option (Open Row Error Transit)
  | .exec n => d.db.commits (.exec n)
  | _ => none

/-- A move makes the row under a key. -/
def creates (key : Key) (d : Desk) (move : Desk.Move) : Bool :=
  (d.commits move).any fun t => (t.writes.lookup key).isSome

theorem creates_eq_true {key : Key} {d : Desk} {move : Desk.Move} :
    creates key d move = true ↔ ∃ t, d.commits move = some t ∧ (t.writes.lookup key).isSome = true := by
  unfold creates
  cases d.commits move with
  | none => simp
  | some t => simp

theorem store_step (d : Desk) (move : Desk.Move) :
    (d.step a move).db.store = ((d.commits move).map fun t => (t.at d.db.store).commit).getD d.db.store := by
  cases move with
  | arrive n r given =>
    change (if n ∈ d.calls then d else _).db.store = d.db.store
    by_cases hn : n ∈ d.calls
    · rw [if_pos hn]
    · rw [if_neg hn]
      cases r.begin a given <;> rfl
  | begin n next =>
    cases hc : d.calls.lookup n with
    | none => simp [Desk.step, commits, hc]
    | some call =>
      by_cases hlive : call.2.final = true
      · simp [Desk.step, commits, hc, hlive]
      · simp only [Desk.step, commits, hc, hlive, Bool.false_eq_true, if_false]
        rw [Database.store_step]
        rfl
  | exec n =>
    rw [commits, ← Database.store_step (Transit.body a)]
    change (if n ∈ d.db.opens then d.settle n _ else d).db.store = _
    by_cases hn : n ∈ d.db.opens
    · rw [if_pos hn, Desk.settle]
      cases d.db.commits (.exec n) with
      | some t => rfl
      | none =>
        dsimp only
        split <;> rfl
    · rw [if_neg hn, Database.step, AList.lookup_eq_none.mpr hn]
      rfl
  | crash n =>
    cases hc : d.calls.lookup n with
    | none => simp [Desk.step, commits, hc]
    | some call => by_cases hlive : call.2.final = true <;> simp [Desk.step, commits, hc, hlive, Database.step, Database.close]

theorem Sound.commits (h : d.Sound a init) {move : Desk.Move} {t : Open Row Error Transit}
    (ht : d.commits move = some t) :
    Leaves a init t.label.call t.label.stage (t.at d.db.store) ∧ Known a init t.label.call d.db.store t.label.stage := by
  cases move with
  | arrive | begin | crash => cases ht
  | exec n =>
    change d.db.commits (.exec n) = some t at ht
    exact ⟨(h.db.commits ht).1.1, h.known n _ _ (h.calls n t (Option.filter_eq_some_iff.mp ht).1).1⟩

theorem Sound.stays_step (h : d.Sound a init) (move : Desk.Move) : Stays d.db.store (d.step a move).db.store := by
  rw [store_step]
  cases ht : d.commits move with
  | none => exact .refl _
  | some t => exact (h.commits ht).1.stays

theorem Sound.stays_run (h : d.Sound a init) (moves : List Desk.Move) :
    Stays d.db.store (machine.run (Desk.step a) d moves).db.store :=
  (machine.run_invariant (I := fun d' => Sound a init d' ∧ Stays d.db.store d'.db.store) ⟨h, .refl _⟩
    (fun _ move h => ⟨h.1.step move, h.2.trans (h.1.stays_step move)⟩) moves).2

/-- A row that calls only write where there is none is made once. -/
theorem count_creates_le_one (key : Key)
    (hkey : ∀ (c : UnifiedCall) (s : Stage) row row', s.Writes a c key row row' → row = none) (moves : List Desk.Move) :
    machine.count (Desk.step a) (creates key) (Desk.open_ init) moves ≤ 1 := by
  have hcount := machine.count_le (p := creates key)
    (φ := fun d : Desk => if (d.db.store.lookup key).isSome = true then 1 else 0) (I := Sound a init)
    (fun d move (h : d.Sound a init) _ => ⟨h.step move, ?_⟩) (Sound.open_ a init)
    (machine.always_true (Desk.open_ init) moves)
  · split at hcount <;> split at hcount <;> omega
  · have hstays := h.stays_step move key
    by_cases hcreates : creates key d move = true
    · obtain ⟨t, ht, hwrites⟩ := creates_eq_true.mp hcreates
      obtain ⟨row, hrow⟩ := Option.isSome_iff_exists.mp hwrites
      have hnone : d.db.store.lookup key = none := hkey _ _ _ _ ((h.commits ht).1.written key row hrow)
      have hmade : (d.step a move).db.store.lookup key = some row := by
        rw [store_step, ht, Option.map_some, Option.getD_some, Local.lookup_commit, Local.lookup]
        simp [Open.at, hrow]
      simp [hcreates, hnone, hmade]
    · cases hrow : d.db.store.lookup key with
      | none => simp [hcreates]
      | some row =>
        obtain ⟨row', hrow', -⟩ := hstays row hrow
        simp [hcreates, hrow']

end Step

end Desk

theorem cachedDecision_eq_some {σ : Store} {u key : String} {d : queryDecision} :
    cachedDecision σ u key = some d ↔ Holds (.unified_requests u key) (fun row => row.decision = some d) σ.lookup :=
  Option.bind_eq_some_iff

/-- What a key stands for, whatever calls are made under it. -/
structure OneTask (a : App) (init : Store) (moves : List Desk.Move) (u key : String) : Prop where
  /-- The decision that is stored first stays. -/
  decision : ∀ pre post d, moves = pre ++ post → cachedDecision (Desk.after a init pre).db.store u key = some d →
    cachedDecision (Desk.after a init moves).db.store u key = some d
  /-- Every call that has got past routing acts on it. -/
  acts : ∀ n c s d, (Desk.after a init moves).calls.lookup n = some (c, s) → c.Subject = u → c.Idem = key →
    s.decision = some d → cachedDecision (Desk.after a init moves).db.store u key = some d
  /-- At most one data query is made, at most one investigation, and not both. -/
  query : machine.count (Desk.step a) (Desk.creates (.data_queries u key)) (Desk.open_ init) moves ≤ 1
  investigation : machine.count (Desk.step a) (Desk.creates (.investigations_idem u key)) (Desk.open_ init) moves ≤ 1
  kinds : ¬ (machine.Occurs (Desk.step a) (fun d move => d.creates (.data_queries u key) move = true)
      (Desk.open_ init) moves ∧
    machine.Occurs (Desk.step a) (fun d move => d.creates (.investigations_idem u key) move = true)
      (Desk.open_ init) moves)
  /-- All calls that are accepted get the same reply. -/
  replies : ∀ n n' c c' answer answer', (Desk.after a init moves).calls.lookup n = some (c, .answered answer) →
    (Desk.after a init moves).calls.lookup n' = some (c', .answered answer') → c.Subject = u → c.Idem = key →
    c'.Subject = u → c'.Idem = key → answer.code = 202 → answer'.code = 202 → answer = answer'
  /-- A call with another body than the first has not got anywhere. -/
  conflict : ∀ n c s row, (Desk.after a init moves).calls.lookup n = some (c, s) → c.Subject = u → c.Idem = key →
    (Desk.after a init moves).db.store.lookup (Key.unified_requests u key) = some row → row.request_hash ≠ c.hash a →
    s = .reserve ∨ s = .failed (E 409 "idempotency_payload_conflict")
  /-- What is made is made by a call with the body of the first. -/
  maker : machine.Always (Desk.step a) (fun d move => ∀ t, d.commits move = some t →
    (t.writes.lookup (Key.data_queries u key)).isSome = true ∨
      (t.writes.lookup (Key.investigations_idem u key)).isSome = true →
    ∃ row : UnifiedRequest, d.db.store.lookup (Key.unified_requests u key) = some row ∧
      row.request_hash = t.label.call.hash a) (Desk.open_ init) moves

section Made

variable {a : App} {init : Store} {d : Desk} {move : Desk.Move} {t : Open Row Error Transit} {u key : String}

/-- A data query is made by a call that acts on a decision for the warehouse. -/
theorem Desk.Sound.query_made (h : d.Sound a init) (ht : d.commits move = some t)
    (hwrites : (t.writes.lookup (Key.data_queries u key)).isSome = true) :
    t.label.call.Subject = u ∧ t.label.call.Idem = key ∧
      ∃ decision, Decided a init t.label.call d.db.store decision "warehouse" := by
  obtain ⟨row, hrow⟩ := Option.isSome_iff_exists.mp hwrites
  obtain ⟨hleaves, hknown⟩ := h.commits ht
  obtain ⟨-, rfl, rfl, decision, hstage, -⟩ := hleaves.written (Key.data_queries u key) row hrow
  rw [hstage] at hknown
  exact ⟨rfl, rfl, decision, hknown⟩

/-- An investigation is made by a call that acts on a decision for one. -/
theorem Desk.Sound.investigation_made (h : d.Sound a init) (ht : d.commits move = some t)
    (hwrites : (t.writes.lookup (Key.investigations_idem u key)).isSome = true) :
    t.label.call.Subject = u ∧ t.label.call.Idem = key ∧
      ∃ decision, Decided a init t.label.call d.db.store decision "investigation" := by
  obtain ⟨row, hrow⟩ := Option.isSome_iff_exists.mp hwrites
  obtain ⟨hleaves, hknown⟩ := h.commits ht
  obtain ⟨-, rfl, rfl, decision, hstage⟩ := hleaves.written (Key.investigations_idem u key) row hrow
  rw [hstage] at hknown
  exact ⟨rfl, rfl, decision, hknown⟩

theorem Decided.cached {c : UnifiedCall} {σ : Store} {decision : queryDecision} {kind : String}
    (h : Decided a init c σ decision kind) : cachedDecision σ c.Subject c.Idem = some decision := by
  obtain ⟨row, hrow, -, hdecision⟩ := h.stored
  exact cachedDecision_eq_some.mpr ⟨row, hrow, hdecision⟩

/-- Under a decision for an investigation no data query is made. -/
theorem Decided.no_query {c : UnifiedCall} {σ : Store} {decision : queryDecision} {row : DataQuery}
    (h : Decided a init c σ decision "investigation") (hasked : Asked init σ)
    (hrow : σ.lookup (Key.data_queries c.Subject c.Idem) = some row) : False := by
  obtain hinit | ⟨decision', hdecision', hkind, -⟩ := hasked _ _ row hrow
  · rw [h.new] at hinit
    cases hinit
  · have hsame := h.cached.symm.trans (cachedDecision_eq_some.mpr hdecision')
    obtain rfl := Option.some.inj hsame
    have hboth := h.kind.symm.trans hkind
    simp at hboth

/-- A decision that is stored at some time of a run is stored at its end. -/
theorem cachedDecision_after {pre : List Desk.Move} {decision : queryDecision} (post : List Desk.Move)
    (h : cachedDecision (Desk.after a init pre).db.store u key = some decision) :
    cachedDecision (Desk.after a init (pre ++ post)).db.store u key = some decision := by
  rw [cachedDecision_eq_some] at h ⊢
  rw [Desk.after, machine.run_append]
  exact h.mono ((Desk.sound_after a init pre).stays_run post) fun _ _ hsame hrow => hsame.2 decision hrow

end Made

/-- However the statements of any calls interleave, and wherever calls crash, a
key stands for one decision and one task. -/
theorem one_task_per_key (a : App) (init : Store) (moves : List Desk.Move) (u key : String) :
    OneTask a init moves u key := by
  have hsound := Desk.sound_after a init moves
  have hcached {c : UnifiedCall} {d : queryDecision} {kind : String}
      (h : Decided a init c (Desk.after a init moves).db.store d kind) :
      cachedDecision (Desk.after a init moves).db.store c.Subject c.Idem = some d := h.cached
  constructor
  · rintro pre post d rfl h
    exact cachedDecision_after _ h
  · rintro n c s d hc rfl rfl hd
    have hknown := hsound.known n c s hc
    cases s with
    | natural | plan | createTask | warehouse | submit =>
      cases hd
      exact Decided.cached hknown
    | accept =>
      cases hd
      exact Decided.cached hknown.1
    | reserve | lookup | grant | route | store | answered | failed => cases hd
  · exact Desk.count_creates_le_one (.data_queries u key) (fun _ _ _ _ h => h.1) moves
  · exact Desk.count_creates_le_one (.investigations_idem u key) (fun _ _ _ _ h => h.1) moves
  · rintro ⟨⟨pre, move, post, hmoves, hquery⟩, pre', move', post', hmoves', hinvestigation⟩
    obtain ⟨t, ht, hwrites⟩ := Desk.creates_eq_true.mp hquery
    obtain ⟨t', ht', hwrites'⟩ := Desk.creates_eq_true.mp hinvestigation
    obtain ⟨rfl, rfl, decision, hdecided⟩ := (Desk.sound_after a init pre).query_made ht hwrites
    obtain ⟨hsubject, hidem, decision', hdecided'⟩ :=
      (Desk.sound_after a init pre').investigation_made ht' hwrites'
    have hend := cachedDecision_after (move :: post) hdecided.cached
    have hend' := cachedDecision_after (move' :: post') hdecided'.cached
    rw [← hmoves] at hend
    rw [← hmoves', hsubject, hidem, hend] at hend'
    obtain rfl := Option.some.inj hend'
    have hkind := hdecided.kind.symm.trans hdecided'.kind
    simp at hkind
  · rintro n n' c c' answer answer' hc hc' rfl rfl hsubject hidem hcode hcode'
    have hknown := (hsound.known n c _ hc).2 hcode
    have hknown' := (hsound.known n' c' _ hc').2 hcode'
    have hnot {c : UnifiedCall} {row : DataQuery} {d : queryDecision}
        (hrow : (Desk.after a init moves).db.store.lookup (Key.data_queries c.Subject c.Idem) = some row)
        (hdecided : Decided a init c (Desk.after a init moves).db.store d "investigation") : False :=
      hdecided.no_query hsound.asked hrow
    obtain ⟨row, hrow, hanswer⟩ | ⟨id, d, hid, hanswer, hdecided⟩ := hknown
    · obtain ⟨row', hrow', hanswer'⟩ | ⟨id', d', -, -, hdecided'⟩ := hknown'
      · rw [hsubject, hidem] at hrow'
        obtain rfl := Option.some.inj (hrow.symm.trans hrow')
        rw [hanswer, hanswer']
      · rw [← hsubject, ← hidem] at hrow
        exact (hnot hrow hdecided').elim
    · obtain ⟨row', hrow', -⟩ | ⟨id', d', hid', hanswer', -⟩ := hknown'
      · rw [hsubject, hidem] at hrow'
        exact (hnot hrow' hdecided).elim
      · rw [hsubject, hidem] at hid'
        obtain rfl := Option.some.inj (hid.symm.trans hid')
        rw [hanswer, hanswer']
  · rintro n c s row hc rfl rfl hrow hhash
    by_contra hs
    rw [not_or] at hs
    obtain ⟨row', hrow', hhash', -⟩ := (hsound.known n c s hc).reserved hs.1 hs.2
    obtain rfl := Option.some.inj (hrow.symm.trans hrow')
    exact hhash hhash'
  · rintro pre move post - t ht hwrites
    obtain ⟨rfl, rfl, decision, hdecided⟩ | ⟨rfl, rfl, decision, hdecided⟩ := hwrites.imp
      ((Desk.sound_after a init pre).query_made ht) ((Desk.sound_after a init pre).investigation_made ht)
    all_goals
      obtain ⟨row, hrow, hhash, -⟩ := hdecided.stored
      exact ⟨row, hrow, hhash⟩

/-- What a call is given from outside when nobody has to be asked. -/
def unasked : UnifiedCall :=
  { Now := 0, Subject := "", Idem := "", Input := { Text := "" }, QueryID := "q1", InvestigationID := "i1"
    RequestID := "r1", Route := .error .database, Plan := .error .database }

def toWarehouse : queryDecision :=
  { ResetContext := false, Kind := "warehouse", Clarification := "", Answer := "", Question := "orders by month" }

/-- A question for the warehouse goes through all its stages. -/
def admitting : List Desk.Move :=
  .arrive 1 (.unifiedQuery "alice" "k1" { Text := "orders by month", Mode := "warehouse" }) unasked ::
    [.lookup none none, .route none none, .store toWarehouse, .warehouse toWarehouse, .submit toWarehouse,
      .answered (warehouseReply "q1" "orders by month")].flatMap fun next => .begin 1 next :: List.replicate 9 (.exec 1)

set_option maxRecDepth 4000 in
example : ((Desk.after deployed seed admitting).calls.lookup 1).map (·.2) =
    some (.answered (warehouseReply "q1" "orders by month")) := by decide

end incidentdesk
