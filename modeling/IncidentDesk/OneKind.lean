import IncidentDesk.Effects.Reachable
import IncidentDesk.Handlers
import IncidentDesk.QueryQueue
import IncidentDesk.UnifiedCall

namespace incidentdesk

open sql sql.Tx

namespace UnifiedCall

variable (a : App) (c : UnifiedCall)

/-- A call takes its next transaction with no other one in between. -/
def step (st : Stage × Store) (skip : Key → Bool) : Stage × Store :=
  match (st.1.body a c).run skip st.2 with
  | .ok (next, σ') => (next, σ')
  | .error error => (.failed error, st.2)

/-- A call after some of its transactions. -/
abbrev after (σ : Store) (skips : List (Key → Bool)) : Stage × Store := machine.run (c.step a) (.reserve, σ) skips

/-- The call is sent to the warehouse: by a stored decision, or by the router,
which is only asked if the question comes with a history. -/
def Diverted (σ : Store) : Prop :=
  match cachedDecision σ c.Subject c.Idem with
  | some d => d.Kind = "warehouse" ∧ d.valid = true
  | none => c.Input.History ≠ [] ∧ (c.Input.Mode = "auto" ∨ c.Input.Mode = "warehouse") ∧
      ∃ reply, c.Route = .ok reply ∧ reply.Kind = some "warehouse" ∧
        validContent (reply.Question.getD c.Input.Text) = true

/-- A question that is sent to the warehouse is admitted. -/
structure Admissible (σ : Store) : Prop where
  hash : ∀ row, σ.lookup (Key.unified_requests c.Subject c.Idem) = some row → row.request_hash = c.hash a
  new : σ.lookup (Key.data_queries c.Subject c.Idem) = none
  access : datasetAccess σ c.Subject "commerce" = .ok ()
  room : openQueries σ c.Subject < 5
  fresh : σ.lookup (Key.data_queries_id c.QueryID) = none

end UnifiedCall

section Routing

variable {a : App} {c : UnifiedCall} {d : queryDecision}

theorem valid_warehouse (hkind : d.Kind = "warehouse") : d.valid = validContent d.Question := by
  simp [queryDecision.valid, queryDecision.content, hkind, validContent]

theorem UnifiedCall.act_warehouse (hkind : d.Kind = "warehouse") (hvalid : d.valid = true) :
    c.act a d = .warehouse d := by
  simp [act, hkind, hvalid]

/-- The router sends a question with a history to the warehouse if the user has
not chosen the other tool. -/
theorem settle_warehouse_iff {b : UnifiedInput} (hhistory : b.History ≠ []) {d' : queryDecision} :
    b.settle d = .ok d' ∧ d'.Kind = "warehouse" ↔
      d' = d ∧ d.Kind = "warehouse" ∧ (b.Mode = "auto" ∨ b.Mode = "warehouse") ∧ validContent d.Question = true := by
  have hsettle : b.settle d =
      if (b.restrict d).valid = true then .ok (b.restrict d) else .error (E 502 "invalid_query_route") := by
    cases hvalid : (b.restrict d).valid <;> simp [UnifiedInput.settle, hhistory, hvalid]
  rw [hsettle]
  by_cases hswitch : b.Mode ≠ "auto" ∧ d.isTool = true ∧ d.Kind ≠ b.Mode
  · have hrestrict : b.restrict d = switchTool := if_pos hswitch
    rw [hrestrict]
    constructor
    · rintro ⟨hd', hkind⟩
      split at hd'
      · obtain rfl := Except.ok.inj hd'
        simp [switchTool] at hkind
      · cases hd'
    · rintro ⟨-, hkind, hmode | hmode, -⟩
      · exact absurd hmode hswitch.1
      · exact absurd (hkind.trans hmode.symm) hswitch.2.2
  · have hrestrict : b.restrict d = d := if_neg hswitch
    rw [hrestrict]
    constructor
    · rintro ⟨hd', hkind⟩
      by_cases hvalid : d.valid = true
      · rw [if_pos hvalid] at hd'
        obtain rfl := Except.ok.inj hd'
        refine ⟨rfl, hkind, ?_, valid_warehouse hkind ▸ hvalid⟩
        by_contra hmode
        rw [not_or] at hmode
        exact hswitch ⟨hmode.1, by simp [queryDecision.isTool, hkind], fun h => hmode.2 (h.symm.trans hkind)⟩
      · rw [if_neg hvalid] at hd'
        cases hd'
    · rintro ⟨rfl, hkind, -, hvalid⟩
      rw [valid_warehouse hkind, if_pos hvalid]
      exact ⟨rfl, hkind⟩

theorem UnifiedCall.routed_valid {kind : Option String} {found : Bool} (hhistory : c.Input.History ≠ [])
    (h : c.routed kind found = .ok d) (hkind : d.Kind = "warehouse") : d.valid = true := by
  have hasks : c.Input.asks (c.Input.preset kind found) = true := by simp [UnifiedInput.asks, hhistory]
  cases hroute : c.Route with
  | error error => simp [routed, hasks, hroute, Except.bind] at h
  | ok reply =>
    have hsettle : c.Input.settle (reply.decode (c.Input.preset kind found)) = .ok d := by
      simpa [routed, hasks, hroute, Except.bind] using h
    obtain ⟨rfl, -, -, hvalid⟩ := (settle_warehouse_iff hhistory).mp ⟨hsettle, hkind⟩
    rw [valid_warehouse hkind, hvalid]

/-- A key that has an investigation gets a warehouse decision from the router
alone. -/
theorem UnifiedCall.routed_warehouse_iff (kind : Option String) :
    (∃ d, c.routed kind true = .ok d ∧ d.Kind = "warehouse") ↔
      c.Input.History ≠ [] ∧ (c.Input.Mode = "auto" ∨ c.Input.Mode = "warehouse") ∧
        ∃ reply, c.Route = .ok reply ∧ reply.Kind = some "warehouse" ∧
          validContent (reply.Question.getD c.Input.Text) = true := by
  by_cases hhistory : c.Input.History = []
  · constructor
    · rintro ⟨d, hd, hkind⟩
      have hrouted : c.routed kind true = c.Input.settle (c.Input.preset kind true) := by
        simp [routed, UnifiedInput.asks, UnifiedInput.preset, hhistory]
      rw [hrouted, UnifiedInput.settle] at hd
      by_cases hswitch : c.Input.Mode ≠ "auto" ∧ (c.Input.preset kind true).isTool = true ∧
          (c.Input.preset kind true).Kind ≠ c.Input.Mode
      · have hrestrict : c.Input.restrict (c.Input.preset kind true) = switchTool := if_pos hswitch
        simp only [hrestrict, hhistory, true_and] at hd
        split at hd
        · cases hd
        · obtain rfl := Except.ok.inj hd
          simp [switchTool, queryDecision.isTool] at hkind
      · have hrestrict : c.Input.restrict (c.Input.preset kind true) = c.Input.preset kind true := if_neg hswitch
        simp only [hrestrict, hhistory, true_and] at hd
        split at hd
        · cases hd
        · obtain rfl := Except.ok.inj hd
          split at hkind <;> simp [UnifiedInput.preset] at hkind
    · rintro ⟨h, -⟩
      exact absurd hhistory h
  · have hasks : c.Input.asks (c.Input.preset kind true) = true := by simp [UnifiedInput.asks, hhistory]
    cases hroute : c.Route with
    | error error => simp [routed, hasks, hroute, Except.bind]
    | ok reply =>
      have hrouted : c.routed kind true = c.Input.settle (reply.decode (c.Input.preset kind true)) := by
        simp [routed, hasks, hroute, Except.bind]
      have hdecode : (reply.decode (c.Input.preset kind true)).Kind = "warehouse" ↔ reply.Kind = some "warehouse" := by
        cases hkind : reply.Kind <;> simp [RouteReply.decode, UnifiedInput.preset, hkind]
      have hquestion : (reply.decode (c.Input.preset kind true)).Question = reply.Question.getD c.Input.Text := rfl
      constructor
      · rintro ⟨d, hd, hkind⟩
        rw [hrouted] at hd
        obtain ⟨rfl, hkind, hmode, hvalid⟩ := (settle_warehouse_iff hhistory).mp ⟨hd, hkind⟩
        exact ⟨hhistory, hmode, reply, rfl, hdecode.mp hkind, hquestion ▸ hvalid⟩
      · rintro ⟨-, hmode, reply', hreply, hkind, hvalid⟩
        obtain rfl := Except.ok.inj hreply
        obtain ⟨hd, hkind⟩ := (settle_warehouse_iff hhistory).mpr ⟨rfl, hdecode.mpr hkind, hmode, hquestion ▸ hvalid⟩
        exact ⟨_, hrouted.trans hd, hkind⟩

end Routing

/-- All but the reservation of the key is as it was. -/
def UnifiedCall.Frame (c : UnifiedCall) (σ τ : Store) : Prop :=
  ∀ key, key ≠ Key.unified_requests c.Subject c.Idem → τ.lookup key = σ.lookup key

section Frame

variable {a : App} {c : UnifiedCall} {σ τ : Store}

theorem UnifiedCall.Frame.insert (h : c.Frame σ τ) (row : UnifiedRequest) :
    c.Frame σ (τ.insert (Key.unified_requests c.Subject c.Idem) row) := by
  intro key hkey
  rw [AList.lookup_insert_ne hkey, h key hkey]

theorem UnifiedCall.Frame.investigationByIdem (h : c.Frame σ τ) (u idem : String) :
    investigationByIdem τ u idem = investigationByIdem σ u idem := by
  unfold incidentdesk.investigationByIdem
  rw [h _ (by simp)]
  congr 1
  funext id
  rw [h _ (by simp)]

theorem UnifiedCall.Frame.datasetAccess (h : c.Frame σ τ) (u dataset : String) :
    datasetAccess τ u dataset = datasetAccess σ u dataset := by
  unfold incidentdesk.datasetAccess hasMember
  rw [h _ (by simp)]
  have hmember (d : QueryDataset) : τ.lookup (Key.members u d.team) = σ.lookup (Key.members u d.team) := h _ (by simp)
  simp only [hmember]

theorem UnifiedCall.Frame.openQueries (h : c.Frame σ τ) (u : String) : openQueries τ u = openQueries σ u := by
  refine Nat.le_antisymm (openQueries_le fun k row hrow hopen => ⟨row, ?_, hopen⟩)
    (openQueries_le fun k row hrow hopen => ⟨row, ?_, hopen⟩)
  · rwa [← h _ (by simp)]
  · rwa [h _ (by simp)]

end Frame

section Steps

variable {a : App} {c : UnifiedCall} {σ τ : Store} {skip : Key → Bool} {d : queryDecision}

theorem UnifiedCall.step_lookup {kind : Option String} {cached : Option queryDecision}
    (hnew : τ.lookup (Key.data_queries c.Subject c.Idem) = none) :
    c.step a (.lookup kind cached, τ) skip = (.route kind cached, τ) := by
  have hrun : ((Stage.lookup kind cached).body a c).run skip τ = .ok (.route kind cached, τ) := by
    simp only [Stage.body, run_bind, run_snapshot, hnew, Tx.pure_eq_ret, run_ret]
  simp only [step, hrun]

theorem UnifiedCall.step_route {kind : Option String} {cached : Option queryDecision} :
    c.step a (.route kind cached, τ) skip =
      (match cached with
      | some d => c.act a d
      | none => .ofExcept (c.routed kind (investigationByIdem τ c.Subject c.Idem).isSome) .store, τ) := by
  cases cached <;> rfl

theorem UnifiedCall.step_store (a : App) (skip : Key → Bool) (d : queryDecision) {row : UnifiedRequest}
    (hrow : τ.lookup (Key.unified_requests c.Subject c.Idem) = some row) :
    ∃ row', c.step a (.store d, τ) skip = (c.act a (row.decision.getD d),
      τ.insert (Key.unified_requests c.Subject c.Idem) row') := by
  have hrun : ∃ row', ((Stage.store d).body a c).run skip τ = .ok (c.act a (row.decision.getD d),
      τ.insert (Key.unified_requests c.Subject c.Idem) row') := by
    simp only [Stage.body, run_bind, run_updateOne, hrow, run_require, Tx.pure_eq_ret, run_ret, Option.filter,
      if_true, Option.map_some, Option.bind_some, Store.updateOne]
    exact ⟨_, rfl⟩
  obtain ⟨row', hrun⟩ := hrun
  exact ⟨row', by simp only [step, hrun]⟩

theorem UnifiedCall.step_warehouse :
    c.step a (.warehouse d, τ) skip =
      (.ofExcept (datasetAccess τ c.Subject "commerce") fun _ => .submit d, τ) := rfl

/-- Under a new key a question is admitted if the subject has room for it. -/
theorem run_admitDataQuery {now : Time} {u key hash id question : String}
    (hnew : σ.lookup (Key.data_queries u key) = none) :
    (admitDataQuery a now u key hash id question).run skip σ =
      if openQueries σ u ≥ 5 then .error (E 429 "too_many_queries")
      else if (σ.lookup (Key.data_queries_id id)).isSome = true then .error .uniqueViolation
      else .ok (id, (σ.insert (Key.data_queries u key) (newDataQuery now id question hash)).insert
        (Key.data_queries_id id) (u, key)) := by
  unfold admitDataQuery
  rw [run_bind_of_ok skip (run_lockRow skip _ σ), run_bind_of_ok skip (run_snapshot skip σ)]
  simp only [hnew]
  rw [run_bind_of_ok skip (run_snapshot skip σ), run_bind, run_refuse]
  by_cases hroom : openQueries σ u ≥ 5
  · rw [if_pos hroom, if_pos hroom]
  · rw [if_neg hroom, if_neg hroom]
    dsimp only
    rw [run_bind, run_insert, hnew]
    dsimp only [Option.isSome_none]
    rw [if_neg Bool.false_ne_true]
    dsimp only
    rw [run_bind, run_insert, AList.lookup_insert_ne (by simp)]
    by_cases hfresh : (σ.lookup (Key.data_queries_id id)).isSome = true
    · rw [if_pos hfresh, if_pos hfresh]
    · rw [if_neg hfresh, if_neg hfresh]
      rfl

/-- The last step to a data query. -/
theorem UnifiedCall.step_submit (hnew : τ.lookup (Key.data_queries c.Subject c.Idem) = none) :
    ((c.step a (.submit d, τ) skip).2.lookup (Key.data_queries c.Subject c.Idem)).isSome = true ↔
      openQueries τ c.Subject < 5 ∧ τ.lookup (Key.data_queries_id c.QueryID) = none := by
  simp only [step, Stage.body, run_bind, run_admitDataQuery hnew]
  by_cases hroom : openQueries τ c.Subject ≥ 5
  · simp [hroom, hnew]
  · cases hfresh : τ.lookup (Key.data_queries_id c.QueryID) with
    | some row => simp [hroom, hnew]
    | none => simp [not_le.mp hroom, hroom, AList.lookup_insert_ne]

end Steps

/-- A task that is made leaves the data queries as they are. -/
theorem createTask_keeps_queries {a : App} {now : Time} {u : String} {b : Create} {requestHash idem id requestID : String}
    {skip : Key → Bool} {σ : Store} (u' k : String) :
    Ensures skip (createTask a now u b requestHash idem id requestID) σ fun _ σ' =>
      σ'.lookup (Key.data_queries u' k) = σ.lookup (Key.data_queries u' k) := by
  have hkept : Kept solo (fun ℓ : Local Row => ℓ.lookup (Key.data_queries u' k) = σ.lookup (Key.data_queries u' k))
      (Key.admitted u idem requestHash) := by
    refine kept_solo (P := fun rows => rows (Key.data_queries u' k) = σ.lookup (Key.data_queries u' k)) ?_
    intro ℓ key row hℓ hrow
    by_cases hkey : Key.data_queries u' k = key
    · subst hkey
      exact hrow.elim
    · rw [Local.lookup_write_ne hkey, hℓ]
  exact ensures_of_keeps (P := fun rows => rows (Key.data_queries u' k) = σ.lookup (Key.data_queries u' k)) skip
    (triple_createTask_admitted hkept (fun _ => hkept) (fun _ _ h _ => h) a now b id requestID) rfl

/-- The call has left the warehouse aside, or has come back from it. -/
def Stage.apart : Stage → Bool
  | grant _ _ _ | natural _ | accept _ _ _ | plan _ | createTask _ | answered _ | failed _ => true
  | _ => false

namespace UnifiedCall

/-- A call has got past its reservation. -/
structure Going (a : App) (c : UnifiedCall) (σ τ : Store) : Prop where
  frame : c.Frame σ τ
  hash : ∀ row, σ.lookup (Key.unified_requests c.Subject c.Idem) = some row → row.request_hash = c.hash a

/-- Where a call can be that starts under the key of an investigation. Only one
that is sent to the warehouse comes to admit a data query. -/
inductive Reached (a : App) (c : UnifiedCall) (σ : Store) : Stage → Store → Prop where
  | reserve : Reached a c σ .reserve σ
  | lookup (kind : Option String) (τ : Store) (h : c.Going a σ τ)
      (hcached : cachedDecision τ c.Subject c.Idem = cachedDecision σ c.Subject c.Idem) :
      Reached a c σ (.lookup kind (cachedDecision σ c.Subject c.Idem)) τ
  | route (kind : Option String) (τ : Store) (h : c.Going a σ τ)
      (hcached : cachedDecision τ c.Subject c.Idem = cachedDecision σ c.Subject c.Idem)
      (hnew : σ.lookup (Key.data_queries c.Subject c.Idem) = none) :
      Reached a c σ (.route kind (cachedDecision σ c.Subject c.Idem)) τ
  | store (d : queryDecision) (τ : Store) (h : c.Going a σ τ) (hcached : cachedDecision τ c.Subject c.Idem = none)
      (hnew : σ.lookup (Key.data_queries c.Subject c.Idem) = none)
      (hdiverted : d.Kind = "warehouse" → c.Diverted σ) : Reached a c σ (.store d) τ
  | warehouse (d : queryDecision) (τ : Store) (h : c.Going a σ τ)
      (hnew : σ.lookup (Key.data_queries c.Subject c.Idem) = none) (hdiverted : c.Diverted σ) :
      Reached a c σ (.warehouse d) τ
  | submit (d : queryDecision) (τ : Store) (h : c.Going a σ τ)
      (hnew : σ.lookup (Key.data_queries c.Subject c.Idem) = none) (hdiverted : c.Diverted σ)
      (haccess : datasetAccess σ c.Subject "commerce" = .ok ()) : Reached a c σ (.submit d) τ
  | apart (s : Stage) (τ : Store) (hs : s.apart = true)
      (hsame : τ.lookup (Key.data_queries c.Subject c.Idem) = σ.lookup (Key.data_queries c.Subject c.Idem)) :
      Reached a c σ s τ

section Reached

variable {a : App} {c : UnifiedCall} {σ τ : Store} {skip : Key → Bool} {s : Stage} {d : queryDecision}

theorem Going.queries (h : c.Going a σ τ) (u k : String) :
    τ.lookup (Key.data_queries u k) = σ.lookup (Key.data_queries u k) := h.frame _ (by simp)

theorem Reached.queries (h : c.Reached a σ s τ) :
    τ.lookup (Key.data_queries c.Subject c.Idem) = σ.lookup (Key.data_queries c.Subject c.Idem) := by
  cases h with
  | reserve => rfl
  | apart _ _ _ hsame => exact hsame
  | lookup _ _ h | route _ _ h | store _ _ h | warehouse _ _ h | submit _ _ h => exact h.queries _ _

theorem step_induct {P : Stage → Store → Prop} (hfailed : ∀ error, P (.failed error) τ)
    (h : Ensures skip (s.body a c) τ P) : P (c.step a (s, τ) skip).1 (c.step a (s, τ) skip).2 := by
  unfold step
  cases hrun : (s.body a c).run skip τ with
  | error error => exact hfailed error
  | ok outcome => exact h outcome.1 outcome.2 hrun

/-- After a decision the call is apart, or it is sent to the warehouse. -/
theorem reached_act (h : c.Going a σ τ) (hnew : σ.lookup (Key.data_queries c.Subject c.Idem) = none)
    (hdiverted : d.Kind = "warehouse" → d.valid = true → c.Diverted σ) : c.Reached a σ (c.act a d) τ := by
  obtain ⟨hact, hkind, hvalid⟩ | ⟨hact, -⟩ | ⟨error, hact⟩ | hact := act_cases a c d
  · rw [hact]
    exact .warehouse d τ h hnew (hdiverted hkind hvalid)
  · rw [hact]
    exact .apart _ τ rfl (h.queries _ _)
  · rw [hact]
    exact .apart _ τ rfl (h.queries _ _)
  · rw [hact]
    exact .apart _ τ rfl (h.queries _ _)

/-- What follows from a check alone leaves the call apart. -/
theorem apart_ofExcept {α : Type} {result : Except Error α} {next : α → Stage}
    (h : ∀ value, (next value).apart = true) : (Stage.ofExcept result next).apart = true := by
  cases result with
  | error => rfl
  | ok value => exact h value

theorem step_apart (hs : s.apart = true)
    (hsame : τ.lookup (Key.data_queries c.Subject c.Idem) = σ.lookup (Key.data_queries c.Subject c.Idem)) :
    c.Reached a σ (c.step a (s, τ) skip).1 (c.step a (s, τ) skip).2 := by
  refine step_induct (fun error => .apart _ τ rfl hsame) ?_
  cases s with
  | reserve | lookup | route | store | warehouse | submit => cases hs
  | grant id dataset question =>
    simp only [Stage.body, ensures_bind, ensures_snapshot, Tx.pure_eq_ret, ensures_ret]
    exact .apart _ τ (apart_ofExcept fun _ => rfl) hsame
  | natural d =>
    simp only [Stage.body, ensures_bind, ensures_snapshot]
    cases investigationByIdem τ c.Subject c.Idem with
    | none => exact (ensures_ret skip).mpr (.apart _ τ rfl hsame)
    | some found =>
      refine (ensures_ret skip).mpr (.apart _ τ ?_ hsame)
      split <;> rfl
  | accept d id team =>
    simp only [Stage.body, ensures_bind, ensures_snapshot, Tx.pure_eq_ret, ensures_ret]
    exact .apart _ τ (apart_ofExcept fun _ => rfl) hsame
  | plan d =>
    simp only [Stage.body, ensures_bind, ensures_snapshot, Tx.pure_eq_ret, ensures_ret]
    refine .apart _ τ ?_ hsame
    unfold planned
    split
    · rfl
    · refine apart_ofExcept fun plan => ?_
      split
      · rfl
      · split <;> rfl
  | createTask d =>
    simp only [Stage.body, ensures_bind, ensures_ofExcept, Tx.pure_eq_ret, ensures_ret]
    intro plan _ id τ' hrun
    exact .apart _ τ' rfl ((createTask_keeps_queries _ _ id τ' hrun).trans hsame)
  | answered answer | failed error => exact (ensures_ret skip).mpr (.apart _ τ rfl hsame)

theorem Reached.step (hexists : (investigationByIdem σ c.Subject c.Idem).isSome = true)
    (hnot : ¬ (c.Diverted σ ∧ c.Admissible a σ)) (h : c.Reached a σ s τ) :
    c.Reached a σ (c.step a (s, τ) skip).1 (c.step a (s, τ) skip).2 := by
  have hfailed (error : Error) : c.Reached a σ (.failed error) τ := .apart _ τ rfl h.queries
  cases h with
  | reserve =>
    refine step_induct hfailed ?_
    simp only [Stage.body, ensures_bind, ensures_upsert, Tx.pure_eq_ret, ensures_ret]
    generalize hrow : ((σ.lookup (Key.unified_requests c.Subject c.Idem)).map id).getD
      { request_hash := c.hash a, kind := none, decision := none } = row
    have hframe : c.Frame σ (σ.insert (Key.unified_requests c.Subject c.Idem) row) :=
      Frame.insert (fun _ _ => rfl) row
    by_cases hhash : row.request_hash = c.hash a
    · rw [if_neg (not_not.mpr hhash)]
      have hdecision : row.decision = cachedDecision σ c.Subject c.Idem := by
        rw [← hrow, cachedDecision]
        cases σ.lookup (Key.unified_requests c.Subject c.Idem) <;> rfl
      rw [hdecision]
      refine .lookup row.kind _ ⟨hframe, fun old hold => ?_⟩ ?_
      · rw [hold] at hrow
        rw [← hhash, ← hrow]
        rfl
      · rw [cachedDecision, AList.lookup_insert]
        exact hdecision
    · rw [if_pos hhash]
      exact .apart _ _ rfl (hframe _ (by simp))
  | lookup kind _ h hcached =>
    cases hrow : τ.lookup (Key.data_queries c.Subject c.Idem) with
    | none =>
      rw [step_lookup hrow]
      exact .route kind τ h hcached ((h.queries _ _).symm.trans hrow)
    | some row =>
      refine step_induct hfailed ?_
      simp only [Stage.body, ensures_bind, ensures_snapshot, hrow, Tx.pure_eq_ret, ensures_ret]
      refine .apart _ τ ?_ (h.queries _ _)
      split <;> rfl
  | route kind _ h hcached hnew =>
    rw [step_route]
    cases hdecision : cachedDecision σ c.Subject c.Idem with
    | some d =>
      refine reached_act h hnew fun hkind hvalid => ?_
      simp only [Diverted, hdecision]
      exact ⟨hkind, hvalid⟩
    | none =>
      rw [h.frame.investigationByIdem, hexists]
      cases hrouted : c.routed kind true with
      | error error => exact hfailed error
      | ok d =>
        refine .store d τ h (hcached.trans hdecision) hnew fun hkind => ?_
        simp only [Diverted, hdecision]
        exact (routed_warehouse_iff kind).mp ⟨d, hrouted, hkind⟩
  | store d _ h hcached hnew hdiverted =>
    cases hrow : τ.lookup (Key.unified_requests c.Subject c.Idem) with
    | none =>
      refine step_induct hfailed ?_
      simp [Stage.body, hrow]
    | some row =>
      have hnone : row.decision = none := by simpa [cachedDecision, hrow] using hcached
      obtain ⟨row', hstep⟩ := step_store a skip d hrow
      rw [hstep, hnone]
      exact reached_act ⟨h.frame.insert row', h.hash⟩ hnew fun hkind _ => hdiverted hkind
  | warehouse d _ h hnew hdiverted =>
    rw [step_warehouse, h.frame.datasetAccess]
    cases haccess : datasetAccess σ c.Subject "commerce" with
    | error error => exact hfailed error
    | ok => exact .submit d τ h hnew hdiverted haccess
  | submit d _ h hnew hdiverted haccess =>
    have hnew' := (h.queries c.Subject c.Idem).trans hnew
    refine .apart _ _ (step_induct (P := fun s _ => s.apart = true) (fun _ => rfl)
      ((ensures_bind skip).mpr fun _ _ _ => (ensures_ret skip).mpr rfl)) ?_
    rw [hnew, ← Option.not_isSome_iff_eq_none, step_submit hnew', h.frame.openQueries, h.frame _ (by simp)]
    exact fun hroom => hnot ⟨hdiverted, h.hash, hnew, haccess, hroom.1, hroom.2⟩
  | apart _ _ hs hsame => exact step_apart hs hsame

theorem reached_after (hexists : (investigationByIdem σ c.Subject c.Idem).isSome = true)
    (hnot : ¬ (c.Diverted σ ∧ c.Admissible a σ)) (skips : List (Key → Bool)) :
    c.Reached a σ (c.after a σ skips).1 (c.after a σ skips).2 :=
  machine.run_invariant (I := fun st : Stage × Store => c.Reached a σ st.1 st.2) .reserve
    (fun _ _ h => h.step hexists hnot) skips

theorem step_reserve (skip : Key → Bool) (hhash : ∀ row, σ.lookup (Key.unified_requests c.Subject c.Idem) = some row →
    row.request_hash = c.hash a) :
    ∃ row, row.decision = cachedDecision σ c.Subject c.Idem ∧ c.step a (.reserve, σ) skip =
      (.lookup row.kind row.decision, σ.insert (Key.unified_requests c.Subject c.Idem) row) := by
  have hstep : ∀ row, ((σ.lookup (Key.unified_requests c.Subject c.Idem)).map id).getD
      { request_hash := c.hash a, kind := none, decision := none } = row →
      c.step a (.reserve, σ) skip = (if row.request_hash ≠ c.hash a then .failed (E 409 "idempotency_payload_conflict")
        else .lookup row.kind row.decision, σ.insert (Key.unified_requests c.Subject c.Idem) row) := by
    rintro _ rfl
    rfl
  cases hrow : σ.lookup (Key.unified_requests c.Subject c.Idem) with
  | none =>
    rw [hrow] at hstep
    refine ⟨_, ?_, (hstep _ rfl).trans (by rw [if_neg]; exact not_not.mpr rfl)⟩
    simp [cachedDecision, hrow]
  | some row =>
    rw [hrow] at hstep
    refine ⟨row, ?_, (hstep _ rfl).trans (by rw [if_neg]; exacts [rfl, not_not.mpr (hhash row hrow)])⟩
    simp [cachedDecision, hrow]

/-- What is left of a call that is sent to the warehouse. -/
theorem admitted_after_warehouse (h : c.Going a σ τ) (hadmissible : c.Admissible a σ) :
    ((machine.run (c.step a) (.warehouse d, τ) [skip, skip]).2.lookup
      (Key.data_queries c.Subject c.Idem)).isSome = true := by
  rw [machine.run_cons, machine.run_cons, machine.run_nil, step_warehouse, h.frame.datasetAccess, hadmissible.access]
  refine (step_submit ((h.queries _ _).trans hadmissible.new)).mpr ?_
  rw [h.frame.openQueries, h.frame _ (by simp)]
  exact ⟨hadmissible.room, hadmissible.fresh⟩

/-- A call that is sent to the warehouse and admissible makes a data query. -/
theorem admitted_of_diverted (hexists : (investigationByIdem σ c.Subject c.Idem).isSome = true)
    (hdiverted : c.Diverted σ) (hadmissible : c.Admissible a σ) :
    ∃ skips, ((c.after a σ skips).2.lookup (Key.data_queries c.Subject c.Idem)).isSome = true := by
  obtain ⟨row, hdecision, hreserve⟩ := step_reserve (fun _ => false) hadmissible.hash
  have hgoing : c.Going a σ (σ.insert (Key.unified_requests c.Subject c.Idem) row) :=
    ⟨Frame.insert (fun _ _ => rfl) row, hadmissible.hash⟩
  have hstart (skips : List (Key → Bool)) : c.after a σ ((fun _ => false) :: (fun _ => false) :: skips) =
      machine.run (c.step a) (.route row.kind row.decision, σ.insert (Key.unified_requests c.Subject c.Idem) row)
        skips := by
    rw [after, machine.run_cons, machine.run_cons, hreserve, step_lookup ((hgoing.queries _ _).trans hadmissible.new)]
  cases hcached : cachedDecision σ c.Subject c.Idem with
  | some d =>
    simp only [Diverted, hcached] at hdiverted
    refine ⟨[fun _ => false, fun _ => false, fun _ => false, fun _ => false, fun _ => false], ?_⟩
    rw [hstart, machine.run_cons, step_route, hdecision, hcached]
    dsimp only
    rw [act_warehouse hdiverted.1 hdiverted.2]
    exact admitted_after_warehouse hgoing hadmissible
  | none =>
    simp only [Diverted, hcached] at hdiverted
    obtain ⟨d, hrouted, hkind⟩ := (routed_warehouse_iff row.kind).mpr hdiverted
    have hact := act_warehouse (a := a) (c := c) hkind (routed_valid hdiverted.1 hrouted hkind)
    obtain ⟨row', hstore⟩ := step_store (c := c) a (fun _ => false) d
      (AList.lookup_insert (a := Key.unified_requests c.Subject c.Idem) (b := row) σ)
    have hnone : row.decision = none := hdecision.trans hcached
    refine ⟨[fun _ => false, fun _ => false, fun _ => false, fun _ => false, fun _ => false, fun _ => false], ?_⟩
    rw [hstart, machine.run_cons, step_route, hnone, hgoing.frame.investigationByIdem, hexists, hrouted]
    dsimp only [Stage.ofExcept]
    rw [machine.run_cons, hstore, hnone, Option.getD_none, hact]
    exact admitted_after_warehouse ⟨hgoing.frame.insert row', hadmissible.hash⟩ hadmissible

end Reached

end UnifiedCall

/-- Under the key of an investigation a call leaves the data queries alone unless
it is sent to the warehouse and admitted there. -/
theorem one_kind_of_task_iff (a : App) (c : UnifiedCall) (σ : Store)
    (hexists : (investigationByIdem σ c.Subject c.Idem).isSome = true) :
    (∀ skips, (c.after a σ skips).2.lookup (Key.data_queries c.Subject c.Idem) =
        σ.lookup (Key.data_queries c.Subject c.Idem)) ↔ ¬ (c.Diverted σ ∧ c.Admissible a σ) := by
  constructor
  · rintro hsame ⟨hdiverted, hadmissible⟩
    obtain ⟨skips, hadmitted⟩ := UnifiedCall.admitted_of_diverted hexists hdiverted hadmissible
    rw [hsame skips, hadmissible.new] at hadmitted
    cases hadmitted
  · exact fun hnot skips => (UnifiedCall.reached_after hexists hnot skips).queries

/-- An investigation that waits in the queue under the key `k1`. -/
def investigating : Store :=
  (World.after deployed seed (seconds 300) [.request (.createTask "alice" symptom "h1" "k1" "i1" "r1") unlocked]).store

/-- A question under the same key, which the router takes for one of the warehouse. -/
def followUp (history : List ConversationTurn) : UnifiedCall :=
  { Now := seconds 301, Subject := "alice", Idem := "k1"
    Input := { Text := "orders by month", Timezone := "UTC", Mode := "auto", History := history }
    QueryID := "q1", InvestigationID := "i2", RequestID := "r2"
    Route := .ok { Kind := some "warehouse", Question := some "orders by month" }, Plan := .error .database }

theorem followUp_without_history : (investigationByIdem investigating "alice" "k1").isSome = true ∧
    ∀ skips, ((followUp []).after deployed investigating skips).2.lookup (Key.data_queries "alice" "k1") =
      investigating.lookup (Key.data_queries "alice" "k1") := by
  refine ⟨rfl, (one_kind_of_task_iff deployed (followUp []) investigating rfl).mpr ?_⟩
  rintro ⟨hdiverted, -⟩
  exact hdiverted.1 rfl

/-- With a history the key of the investigation names a data query as well. -/
theorem followUp_with_history :
    (investigationByIdem investigating "alice" "k1").isSome = true ∧
      ∃ skips, (((followUp [{ Role := "user", Content := "hello" }]).after deployed investigating skips).2.lookup
        (Key.data_queries "alice" "k1")).isSome = true ∧ investigating.lookup (Key.data_queries "alice" "k1") = none := by
  exact ⟨rfl, List.replicate 6 unlocked, by decide, rfl⟩

end incidentdesk
