import IncidentDesk.Pairing
import IncidentDesk.Retries

namespace incidentdesk

open sql sql.Tx

/-- `investigations.status in ('queued','running')`. -/
def Status.open_ (status : Status) : Bool := status = .queued || status = .running

/-- The rows that `openInvestigations` counts. -/
def countsOpen (team : String) (key : Key) (row : Row key) : Bool :=
  match key, row with
  | .investigations _, (i : Investigation) => i.team = team && i.status.open_
  | _, _ => false

theorem openInvestigations_le_add {σ σ' : Store} {team : String} (fresh : List String)
    (h : ∀ id i', σ'.lookup (Key.investigations id) = some i' → i'.team = team → i'.status.open_ = true →
      id ∈ fresh ∨ ∃ i, σ.lookup (Key.investigations id) = some i ∧ i.team = team ∧ i.status.open_ = true) :
    openInvestigations σ' team ≤ openInvestigations σ team + fresh.length := by
  have hcount := Store.count_le_add (σ := σ) (τ := σ') (p := countsOpen team) (q := countsOpen team)
    (fresh.map Key.investigations) ?_
  · rw [List.length_map] at hcount
    exact hcount
  · intro key row' hrow' hp
    cases key with
    | investigations id =>
      simp only [countsOpen, Bool.and_eq_true, decide_eq_true_eq] at hp ⊢
      obtain hfresh | ⟨i, hi, hteam, hopen⟩ := h id row' hrow' hp.1 hp.2
      · exact .inl (List.mem_map_of_mem hfresh)
      · exact .inr ⟨i, hi, hteam, hopen⟩
    | _ => cases hp

/-- Another open investigation of the team counts. -/
theorem openInvestigations_insert_new {σ : Store} {team id : String} {i : Investigation}
    (hclosed : ∀ i₀, σ.lookup (Key.investigations id) = some i₀ → i₀.status.open_ = false) (hteam : i.team = team)
    (hopen : i.status.open_ = true) :
    openInvestigations (σ.insert (Key.investigations id) i) team = openInvestigations σ team + 1 := by
  have hcount := Store.count_insert (countsOpen team) σ (Key.investigations id) i
  have hnone : (σ.lookup (Key.investigations id)).filter (countsOpen team (Key.investigations id)) = none := by
    rw [Option.filter_eq_none_iff]
    intro i₀ hi₀
    simp [countsOpen, hclosed i₀ hi₀]
  rw [hnone] at hcount
  simp only [countsOpen, hteam, hopen, decide_true, Bool.and_self, Option.toList_none, List.length_nil, Nat.add_zero,
    if_true] at hcount
  exact hcount

/-- Rows of other tables are not counted. -/
theorem openInvestigations_insert_of_ne (σ : Store) (team : String) {key : Key} (row : Row key)
    (hkey : ∀ id, key ≠ Key.investigations id) :
    openInvestigations (σ.insert key row) team = openInvestigations σ team := by
  apply Store.count_insert_of_false
  intro row
  cases key with
  | investigations id => exact absurd rfl (hkey id)
  | _ => rfl

theorem openInvestigations_event {σ : Store} {team id : String} {i : Investigation} {row : Event}
    (hi : σ.lookup (Key.investigations id) = some i) :
    openInvestigations ((σ.insert (Key.investigations id) { i with seq := i.seq + 1 }).insert
      (Key.events id (i.seq + 1)) row) team = openInvestigations σ team := by
  rw [openInvestigations_insert_of_ne _ _ _ (by simp)]
  have hcount := Store.count_insert (countsOpen team) σ (Key.investigations id) { i with seq := i.seq + 1 }
  have hsame : countsOpen team (Key.investigations id) { i with seq := i.seq + 1 } =
      countsOpen team (Key.investigations id) i := rfl
  rw [hi, hsame] at hcount
  by_cases hp : countsOpen team (Key.investigations id) i = true
  · simp only [hp, Option.filter, Option.toList_some, List.length_singleton, if_true] at hcount
    exact Nat.add_right_cancel hcount
  · simp only [hp, Option.filter] at hcount
    exact hcount

section Step

variable {a : App} {now : Time} {skip : Key → Bool} {σ σ' : Store} {id : String} {txn : Transaction}

/-- An investigation is opened by its creation and by a resume, and by nothing
else. -/
theorem CaseStep.opens {x : Option Case} {c' : Case}
    (hx : ∀ c, x = some c → incidentdesk.paired c.investigation.status c.job.state = true)
    (h : CaseStep a now skip σ σ' id txn x (some c')) (hopen : c'.investigation.status.open_ = true) :
    (∃ c, x = some c ∧ c.investigation.team = c'.investigation.team ∧ c.investigation.status.open_ = true) ∨
      (∃ u b requestHash idem requestID, txn = .request (.createTask u b requestHash idem id requestID) ∧
        openInvestigations σ c'.investigation.team < 200) ∨
      ∃ c information, x = some c ∧ txn = .request (.resume id information) ∧
        c.investigation.team = c'.investigation.team := by
  cases h with
  | unchanged => exact .inl ⟨_, rfl, rfl, hopen⟩
  | created _ _ hquota => exact .inr (.inl ⟨_, _, _, _, _, rfl, hquota⟩)
  | resumed => exact .inr (.inr ⟨_, _, rfl, rfl, rfl⟩)
  | cancelled | swept | revoked => cases hopen
  | claimed _ _ hclaimable =>
    refine .inl ⟨_, rfl, rfl, ?_⟩
    simp only [claimable, Bool.and_eq_true] at hclaimable
    exact hclaimable.2
  | @requeued c _ hfence =>
    refine .inl ⟨_, rfl, rfl, ?_⟩
    have hpaired := hx _ rfl
    rw [hfence.running] at hpaired
    cases hstatus : c.investigation.status <;> simp_all [incidentdesk.paired, Status.open_]
  | @accepted c _ _ hfence =>
    refine .inl ⟨_, rfl, rfl, ?_⟩
    have hpaired := hx _ rfl
    rw [hfence.running] at hpaired
    cases hstatus : c.investigation.status <;> simp_all [incidentdesk.paired, Status.open_]
  | @sourceChanged c _ remove =>
    refine .inl ⟨_, rfl, ?_⟩
    cases remove <;> exact ⟨rfl, hopen⟩
  | noted | heartbeat | drafted | approved | rejected | reconcileRequested | approvalInvalidated | dispatched
  | reconciling | finished => exact .inl ⟨_, rfl, rfl, hopen⟩

end Step

/-- A resume that goes through finds room in the team's quota. -/
def ResumesWithin (a : App) (w : World) (op : Op) : Prop :=
  ∀ id i, Resumes a id w op → w.store.lookup (Key.investigations id) = some i →
    openInvestigations w.store i.team < 200

/-- The investigation that a transaction may open. -/
def Transaction.opens : Transaction → Option String
  | .request (.createTask _ _ _ _ id _) => some id
  | .request (.resume id _) => some id
  | _ => none

section World

variable {a : App} {w : World} {op : Op}

/-- An investigation that is open after a step was so before it, or the step has
opened it while the team was below its quota. -/
theorem World.opens
    (hpaired : ∀ id c, caseOf w.store id = some c → paired c.investigation.status c.job.state = true)
    (hresume : ResumesWithin a w op) {txn : Transaction} (htxn : w.transaction op = some txn)
    (heffect : Effect a w.now op.locked w.store txn (World.step a w op).store) {id : String} {i' : Investigation}
    (hi' : (World.step a w op).store.lookup (Key.investigations id) = some i') (hopen : i'.status.open_ = true) :
    (∃ i, w.store.lookup (Key.investigations id) = some i ∧ i.team = i'.team ∧ i.status.open_ = true) ∨
      openInvestigations w.store i'.team < 200 ∧ txn.opens = some id := by
  obtain ⟨c', hc', rfl⟩ := heffect.wf.caseOf_of_investigation hi'
  have hstep := heffect.cases id
  rw [hc'] at hstep
  obtain ⟨c, hc, hteam, hopen⟩ | ⟨u, b, requestHash, idem, requestID, rfl, hquota⟩ |
    ⟨c, information, hc, rfl, hteam⟩ := hstep.opens (hpaired id) hopen
  · exact .inl ⟨c.investigation, (caseOf_eq_some.mp hc).1, hteam, hopen⟩
  · exact .inr ⟨hquota, rfl⟩
  · obtain ⟨skip, rfl⟩ := World.transaction_eq_request htxn
    by_cases hcommits : w.Commits a (.resume id information) skip
    · refine .inr ⟨?_, rfl⟩
      rw [← hteam]
      exact hresume id c.investigation ⟨information, skip, rfl, hcommits⟩ (caseOf_eq_some.mp hc).1
    · rw [World.store_of_not_commits hcommits] at hi'
      exact .inl ⟨c'.investigation, hi', rfl, hopen⟩

theorem World.Sound.openInvestigations_le (hw : w.Sound)
    (hpaired : ∀ id c, caseOf w.store id = some c → paired c.investigation.status c.job.state = true)
    (hresume : ResumesWithin a w op) (team : String) (hle : openInvestigations w.store team ≤ 200) :
    openInvestigations (World.step a w op).store team ≤ 200 := by
  obtain ⟨-, hstore | ⟨txn, htxn, heffect⟩⟩ := hw.step (a := a) op
  · rwa [hstore]
  by_cases hroom : openInvestigations w.store team < 200
  · have hcount : openInvestigations (World.step a w op).store team ≤
        openInvestigations w.store team + txn.opens.toList.length := by
      refine openInvestigations_le_add _ fun id i' hi' hteam hopen => ?_
      obtain hold | ⟨-, hopens⟩ := World.opens hpaired hresume htxn heffect hi' hopen
      · exact .inr (hteam ▸ hold)
      · exact .inl (by simp [hopens])
    have hlength : txn.opens.toList.length ≤ 1 := by cases txn.opens <;> simp
    omega
  · have hcount : openInvestigations (World.step a w op).store team ≤ openInvestigations w.store team + 0 := by
      refine openInvestigations_le_add [] fun id i' hi' hteam hopen => ?_
      obtain hold | ⟨hquota, -⟩ := World.opens hpaired hresume htxn heffect hi' hopen
      · exact .inr (hteam ▸ hold)
      · exact absurd (hteam ▸ hquota) hroom
    omega

end World

/-- As long as every resume that goes through finds room in the quota, no team
ever has more than two hundred open investigations. -/
theorem team_quota (a : App) {σ : Store} (hσ : Initial σ) (now : Time) (ops : List Op)
    (hresume : machine.Always (World.step a) (ResumesWithin a) (World.init σ now) ops) (team : String) :
    openInvestigations (World.after a σ now ops).store team ≤ 200 := by
  refine machine.run_induction_along (P := fun _ (w : World) => openInvestigations w.store team ≤ 200) ?_ ?_ ops hresume
  · have hnone : openInvestigations σ team ≤ openInvestigations ∅ team + 0 :=
      openInvestigations_le_add [] fun id i hi => by
        rw [hσ (Key.investigations id) rfl] at hi
        cases hi
    exact hnone.trans (Nat.zero_le _)
  · intro ops op hle hresume
    exact (World.sound_after hσ now ops).openInvestigations_le
      (fun id c hc => paired_after hσ now ops hc) hresume team hle

theorem team_quota_completing :
    openInvestigations (World.after deployed seed 0 (completing.take 1)).store "orders" = 1 ∧
      openInvestigations (World.after deployed seed 0 (completing.take 1)).store "orders" ≤ 200 := by
  have hresume : machine.Always (World.step deployed) (ResumesWithin deployed) (World.init seed 0)
      (completing.take 1) := by
    simp only [completing, List.take_succ_cons, List.take_zero, machine.always_cons]
    exact ⟨(by rintro _ _ ⟨_, _, ⟨⟩, _⟩), machine.always_nil⟩
  exact ⟨by decide, team_quota deployed seed_initial 0 _ hresume "orders"⟩

/-- Names of two hundred requests. -/
def requestName (m : Nat) : String :=
  String.ofList (List.replicate (m % 100 + 1) 'a' ++ List.replicate (m / 100 + 1) 'b')

theorem requestName_injective {m n : Nat} (h : requestName m = requestName n) : m = n := by
  have hlist := String.ofList_injective h
  have ha := congrArg (List.count 'a') hlist
  have hb := congrArg (List.count 'b') hlist
  simp [List.count_replicate] at ha hb
  omega
theorem createTaskChecks_requestName :
    ∀ n < 200, (createTaskChecks deployed symptom (requestName n)).isOk = true := by
  decide +kernel

/-- The rows that a request with this name makes. -/
def Key.Named (name : String) : Key → Prop
  | .investigations id | .jobs id | .events id _ => id = name
  | .investigations_idem _ idem => idem = name
  | _ => False

/-- After an investigation has been completed, requests have opened `n` others. -/
structure Filled (n : Nat) (σ : Store) : Prop where
  count : openInvestigations σ "orders" = n
  kept : ∀ key : Key, (∀ m < n, ¬ key.Named (requestName m)) →
    σ.lookup key = (World.after deployed seed 0 completing).store.lookup key

theorem requestName_ne (m : Nat) : requestName m ≠ "i1" ∧ requestName m ≠ "k1" := by
  constructor <;> intro h <;>
  · have ha := congrArg (List.count 'a') (congrArg String.toList h)
    simp [requestName, List.count_replicate] at ha

theorem requestName_free (m : Nat) {key : Key} (hkey : key.Named (requestName m)) :
    (World.after deployed seed 0 completing).store.lookup key = none := by
  have hothers : (World.after deployed seed 0 completing).store.entries.all (fun e => match e.1 with
      | .investigations id | .jobs id | .events id _ => id = "i1"
      | .investigations_idem _ idem => idem = "k1"
      | _ => true) = true := by decide
  rw [List.all_eq_true] at hothers
  by_contra hsome
  obtain ⟨row, hrow⟩ := Option.ne_none_iff_exists'.mp hsome
  have hother := hothers _ (AList.mem_lookup_iff.mp hrow)
  cases key with
  | investigations | jobs | events => exact (requestName_ne m).1 (hkey.symm.trans (of_decide_eq_true hother))
  | investigations_idem => exact (requestName_ne m).2 (hkey.symm.trans (of_decide_eq_true hother))
  | _ => exact hkey

theorem Key.named_unique {key : Key} {name name' : String} (h : key.Named name) (h' : key.Named name') :
    name = name' := by
  cases key with
  | investigations | jobs | events | investigations_idem => exact h.symm.trans h'
  | _ => exact h.elim

theorem Filled.create {n : Nat} {σ : Store} (now : Time) (h : Filled n σ) (hn : n < 200) :
    Succeeds unlocked (createTask deployed now "bob" symptom "h1" (requestName n) (requestName n) "r1") σ
      fun _ σ' => Filled (n + 1) σ' := by
  have hfree (key : Key) (hkey : key.Named (requestName n)) : σ.lookup key = none := by
    rw [h.kept key fun m hm hkey' => ?_]
    · exact requestName_free n hkey
    · have heq := requestName_injective (key.named_unique hkey hkey')
      omega
  have hi := hfree (Key.investigations (requestName n)) rfl
  have hidem := hfree (Key.investigations_idem "bob" (requestName n)) rfl
  have hj := hfree (Key.jobs (requestName n)) rfl
  have hevents (k : Nat) := hfree (Key.events (requestName n) k) rfl
  unfold createTask
  obtain ⟨query, hquery⟩ : ∃ query, createTaskChecks deployed symptom (requestName n) = .ok query := by
    have hok := createTaskChecks_requestName n hn
    cases hquery : createTaskChecks deployed symptom (requestName n) with
    | error => rw [hquery] at hok; cases hok
    | ok query => exact ⟨query, rfl⟩
  have hidem' : investigationByIdem σ "bob" (requestName n) = none := by simp [investigationByIdem, hidem]
  rw [succeeds_bind, succeeds_ofExcept]
  refine ⟨query, hquery, ?_⟩
  rw [succeeds_bind, succeeds_lockRow, succeeds_bind, succeeds_snapshot, hidem']
  dsimp only
  let service : Service :=
    { team := "orders", name := "订单服务", repo := "local/incident-demo", watermark := 1, enabled := true }
  have hservice : σ.lookup (Key.services symptom.Service) = some service :=
    (h.kept (Key.services symptom.Service) fun _ _ h => h).trans (by decide)
  have hmember : incidentdesk.member σ "bob" "orders" false = Except.ok () := by
    rw [incidentdesk.member, h.kept (Key.members "bob" "orders") fun _ _ h => h]
    decide
  have hquota : ¬ openInvestigations σ "orders" ≥ 200 := by
    rw [h.count]
    omega
  simp only [succeeds_bind, succeeds_snapshot, succeeds_require, succeeds_ofExcept, succeeds_refuse, succeeds_insert]
  refine ⟨service, by rw [hservice]; rfl, (), hmember, hquota, hi, by simpa using hidem, by simpa using hj, ?_⟩
  rw [succeeds_event (i := newInvestigation "bob" symptom "h1" (requestName n) service query)
    (by simp [AList.lookup_insert_ne]) (by simpa using hevents _), Tx.pure_eq_ret, succeeds_ret]
  refine ⟨?_, fun key hkey => ?_⟩
  · have hnew : openInvestigations (σ.insert (Key.investigations (requestName n))
        (newInvestigation "bob" symptom "h1" (requestName n) service query)) "orders" = n + 1 :=
      (openInvestigations_insert_new (by simp [hi]) rfl rfl).trans (congrArg (· + 1) h.count)
    rw [openInvestigations_event, openInvestigations_insert_of_ne, openInvestigations_insert_of_ne, hnew]
    all_goals simp [AList.lookup_insert_ne]
  · have hnamed : ¬ key.Named (requestName n) := hkey n (Nat.lt_succ_self n)
    rw [← h.kept key fun m hm => hkey m (by omega)]
    have hnot (key' : Key) (row : Row key') (τ : Store) (hkey' : key'.Named (requestName n)) :
        (τ.insert key' row).lookup key = τ.lookup key := AList.lookup_insert_ne fun heq => hnamed (heq ▸ hkey')
    exact (hnot (Key.events _ _) _ _ rfl).trans <| (hnot (Key.investigations _) _ _ rfl).trans <|
      (hnot (Key.jobs _) _ _ rfl).trans <| (hnot (Key.investigations_idem _ _) _ _ rfl).trans <|
        hnot (Key.investigations _) _ _ rfl

/-- Bob asks for `n` investigations. -/
def filling (n : Nat) : List Op :=
  (List.range n).map fun m =>
    .request (.createTask "bob" symptom "h1" (requestName m) (requestName m) "r1") unlocked

theorem filled_filling {n : Nat} (hn : n ≤ 200) :
    Filled n (World.after deployed seed 0 (completing ++ filling n)).store := by
  induction n with
  | zero =>
    refine ⟨?_, fun key _ => ?_⟩
    · decide
    · rw [filling, List.range_zero, List.map_nil, List.append_nil]
  | succ n ih =>
    have hfilled := ih (by omega)
    obtain ⟨_, σ', hrun, hfilled'⟩ := hfilled.create _ (by omega)
    have hstep : (World.after deployed seed 0 (completing ++ filling (n + 1))).store = σ' := by
      rw [filling, List.range_succ, List.map_append, ← List.append_assoc, World.after, machine.run_append]
      exact World.store_of_discard rfl hrun
    rwa [hstep]

theorem resume_opens (now : Time) (skip : Key → Bool) {σ : Store} {id information : String} {i : Investigation} {job : Job}
    (hsize : ¬ information.utf8ByteSize > 4000) (hi : σ.lookup (Key.investigations id) = some i)
    (hresumable : i.status.resumable = true) (hclosed : i.status.open_ = false)
    (hjob : σ.lookup (Key.jobs id) = some job) (haction : σ.lookup (Key.actions id) = none)
    (hfree : σ.lookup (Key.events id (i.seq + 1)) = none) :
    Succeeds skip (resume now id information) σ fun _ σ' =>
      openInvestigations σ' i.team = openInvestigations σ i.team + 1 := by
  let reopened : Investigation :=
    { i with
      status := .queued, symptom := i.symptom ++ "\n" ++ information, source_version := currentWatermark σ i.service }
  let requeued : Job :=
    { job with state := .queued, available_at := now, attempts := 0, last_callback := none, result_hash := none }
  let σ₁ : Store := (σ.insert (Key.investigations id) reopened).insert (Key.jobs id) requeued
  have hreopened : σ₁.lookup (Key.investigations id) = some reopened := by simp [σ₁, AList.lookup_insert_ne]
  have hevent : σ₁.lookup (Key.events id (reopened.seq + 1)) = none := by simpa [σ₁] using hfree
  have hsteps : Succeeds skip (event id "resumed" (.obj [("information", .str information)])) σ₁ fun _ σ' =>
      openInvestigations σ' i.team = openInvestigations σ i.team + 1 := by
    rw [succeeds_event hreopened hevent, openInvestigations_event hreopened, openInvestigations_insert_of_ne]
    · exact openInvestigations_insert_new (fun i₀ hi₀ => Option.some.inj (hi.symm.trans hi₀) ▸ hclosed) rfl rfl
    · simp
  simp only [resume, succeeds_bind, succeeds_refuse, succeeds_updateOne]
  refine ⟨hsize, by simp [hi, hresumable, Option.filter], ?_⟩
  simpa [Store.updateOne, hi, hresumable, hjob, haction, AList.lookup_insert_ne] using hsteps

/-- When the quota is used up, the completed investigation is still resumed. -/
theorem team_quota_exceeded :
    ¬ ∀ (ops : List Op) (team : String), openInvestigations (World.after deployed seed 0 ops).store team ≤ 200 := by
  intro h
  have hfilled := filled_filling le_rfl
  have hkept (key : Key) (hkey : ∀ m, ¬ key.Named (requestName m)) := hfilled.kept key fun m _ => hkey m
  have hne (m : Nat) := (requestName_ne m).1.symm
  have hi : ((World.after deployed seed 0 completing).store.lookup (Key.investigations "i1")).map
      (fun i => (i.status, i.team, i.seq)) = some (.completed, "orders", 3) := by decide
  have hjob : ((World.after deployed seed 0 completing).store.lookup (Key.jobs "i1")).isSome = true := by decide
  rw [← hkept (Key.investigations "i1") hne] at hi
  rw [← hkept (Key.jobs "i1") hne] at hjob
  obtain ⟨i, hi, heq⟩ := Option.map_eq_some_iff.mp hi
  obtain ⟨job, hjob⟩ := Option.isSome_iff_exists.mp hjob
  simp only [Prod.mk.injEq] at heq
  obtain ⟨hstatus, hteam, hseq⟩ := heq
  obtain ⟨_, σ', hrun, hopen⟩ := resume_opens (World.after deployed seed 0 (completing ++ filling 200)).now
    unlocked (show ¬ "".utf8ByteSize > 4000 by decide) hi (by rw [hstatus]; rfl) (by rw [hstatus]; rfl) hjob
    (by rw [hkept (Key.actions "i1") fun _ h => h]; decide)
    (by rw [hseq, hkept (Key.events "i1" 4) hne]; decide)
  have hstep : (World.after deployed seed 0
      (completing ++ filling 200 ++ [.request (.resume "i1" "") unlocked])).store = σ' := by
    rw [World.after, machine.run_concat]
    exact World.store_of_run hrun
  have hle := h (completing ++ filling 200 ++ [.request (.resume "i1" "") unlocked]) "orders"
  rw [hstep, ← hteam, hopen, hteam, hfilled.count] at hle
  exact absurd hle (by decide)

end incidentdesk
