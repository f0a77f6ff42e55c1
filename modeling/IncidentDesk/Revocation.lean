import IncidentDesk.LinearHistory

namespace incidentdesk

open sql sql.Tx

/-- The team of the task that a turn has made, and the dataset of a query. -/
def Turn.source (σ : Store) (t : Turn) : Option (String × Option String) :=
  t.response.bind fun response =>
    if str response "kind" = "warehouse" then
      (queryByID σ (str response "id")).bind fun (_, q) =>
        (σ.lookup (Key.query_datasets q.dataset)).map fun d => (d.team, some q.dataset)
    else if str response "kind" = "investigation" then
      (σ.lookup (Key.investigations (str response "id"))).map fun i => (i.team, none)
    else none

/-- What the answered turns rest on is required of who reads the conversation. -/
def Thread.Sourced (σ : Store) (th : Thread) : Prop :=
  ∀ t ∈ th.completed, t.madeTask = true → ∃ team dataset, t.source σ = some (team, dataset) ∧
    team ∈ th.conversation.required_teams ∧ ∀ k ∈ dataset, k ∈ th.conversation.required_datasets

section Sources

variable {a : App} {snap σ σ' : Store} {u team source : String} {required : List String}

theorem subset_requireSource (required : List String) (source : String) : required ⊆ requireSource required source := by
  unfold requireSource
  split
  · exact List.Subset.refl _
  · exact List.subset_append_left _ _

theorem mem_requireSource (hsource : source ≠ "") : source ∈ requireSource required source := by
  unfold requireSource
  split
  case isTrue h => exact h.resolve_left hsource
  case isFalse => exact List.mem_append_right _ List.mem_cons_self

/-- Whoever is in a team is in one that has a name. -/
theorem Named.team_ne (hσ : Named σ) (h : hasMember σ u team = true) : team ≠ "" := by
  rintro rfl
  rw [hasMember, hσ (.members u "") (by simp [Key.named])] at h
  cases h

theorem Named.dataset_ne (hσ : Named σ) {k : String} {d : QueryDataset}
    (h : σ.lookup (Key.query_datasets k) = some d) : k ≠ "" := by
  rintro rfl
  rw [hσ (.query_datasets "") (by simp [Key.named])] at h
  cases h

/-- A data query stays with its subject and its dataset. -/
theorem queryByID_changes {id : String} {q : DataQuery} (h : Workbench.Changes σ σ')
    (hq : queryByID σ id = some (u, q)) : ∃ q', queryByID σ' id = some (u, q') ∧ q'.dataset = q.dataset := by
  obtain ⟨⟨subject, idem⟩, hid, hq⟩ := Option.bind_eq_some_iff.mp hq
  obtain ⟨q₀, hq₀, heq⟩ := Option.map_eq_some_iff.mp hq
  obtain ⟨rfl, rfl⟩ := Prod.mk.inj heq
  obtain ⟨key', hid', hkey⟩ := h.settled (.data_queries_id _) rfl hid
  obtain rfl : key' = (subject, idem) := by simpa [Key.settled] using hkey
  obtain ⟨q', hq', hsame⟩ := h.settled (.data_queries subject idem) rfl hq₀
  refine ⟨q', by simp [queryByID, hid', hq'], ?_⟩
  obtain rfl | hsame := hsame
  · rfl
  · simp only [Key.settled, Bool.and_eq_true, decide_eq_true_eq] at hsame
    exact hsame.2

/-- The source of a task stays what it is. -/
theorem source_changes {t : Turn} {s : String × Option String} (h : Workbench.Changes σ σ')
    (ht : t.source σ = some s) : t.source σ' = some s := by
  obtain ⟨response, hresponse, ht⟩ := Option.bind_eq_some_iff.mp ht
  rw [Turn.source, hresponse, Option.bind_some]
  split at ht
  · rename_i hkind
    obtain ⟨⟨u, q⟩, hq, ht⟩ := Option.bind_eq_some_iff.mp ht
    obtain ⟨d, hd, rfl⟩ := Option.map_eq_some_iff.mp ht
    obtain ⟨q', hq', hdataset⟩ := queryByID_changes h hq
    obtain ⟨d', hd', hsame⟩ := h.settled (.query_datasets _) rfl hd
    have hteam : d'.team = d.team := by
      obtain rfl | hsame := hsame
      · rfl
      · simpa [Key.settled] using hsame
    rw [if_pos hkind, hq', Option.bind_some]
    dsimp only
    rw [hdataset, hd', Option.map_some, hteam]
  · split at ht
    · rename_i hkind hkind'
      obtain ⟨i, hi, rfl⟩ := Option.map_eq_some_iff.mp ht
      obtain ⟨i', hi', hsame⟩ := h.settled (.investigations _) rfl hi
      have hteam : i'.team = i.team := by
        obtain rfl | hsame := hsame
        · rfl
        · simp only [Key.settled, Bool.and_eq_true, decide_eq_true_eq] at hsame
          exact hsame.2
      simp [hkind', hi', hteam]
    · cases ht

/-- An answer that makes a task rests on what the transaction has found for it,
and both have names. -/
theorem source_answered (hσ : Named σ) (row : Turn) {s : Stored} (htask : isTask s.response = true)
    (h : turnSources σ u s.response = some (s.team, s.dataset, s.version)) :
    ∃ dataset, (row.answered s).source σ = some (s.team, dataset) ∧ s.team ≠ "" ∧
      ∀ k ∈ dataset, k = s.dataset ∧ k ≠ "" := by
  have hsource : (row.answered s).source σ = (({ row with response := some s.response } : Turn).source σ) := rfl
  rw [hsource, Turn.source, Option.bind_some]
  unfold turnSources at h
  split at h
  · rename_i hkind
    obtain ⟨⟨subject, q⟩, hq, h⟩ := Option.bind_eq_some_iff.mp h
    obtain ⟨hq, -⟩ := Option.filter_eq_some_iff.mp hq
    obtain ⟨d, hd, heq⟩ := Option.map_eq_some_iff.mp h
    obtain ⟨hd, hmember⟩ := Option.filter_eq_some_iff.mp hd
    simp only [Prod.mk.injEq] at heq
    obtain ⟨hteam, hdataset, -⟩ := heq
    rw [Bool.and_eq_true] at hmember
    refine ⟨some q.dataset, by simp [hkind, hq, hd, hteam], hteam ▸ hσ.team_ne hmember.2, ?_⟩
    rintro k ⟨⟩
    exact ⟨hdataset, hσ.dataset_ne hd⟩
  · split at h
    · rename_i hkind hkind'
      obtain ⟨i, hi, heq⟩ := Option.map_eq_some_iff.mp h
      obtain ⟨hi, hmember⟩ := Option.filter_eq_some_iff.mp hi
      simp only [Prod.mk.injEq] at heq
      rw [Bool.and_eq_true] at hmember
      exact ⟨none, by simp [hkind', hi, heq.1], heq.1 ▸ hσ.team_ne hmember.2, by simp⟩
    · simp [isTask, *] at htask

end Sources

namespace Thread

variable {a : App} {snap σ σ' : Store} {P : Turn → Stored → Prop} {th th' : Thread}

/-- What is required of the reader never becomes less. -/
theorem Linear.required_subset (hth : th.Linear) (h : Step a snap P th th') :
    th'.conversation.subject = th.conversation.subject ∧
      th.conversation.required_teams ⊆ th'.conversation.required_teams ∧
      th.conversation.required_datasets ⊆ th'.conversation.required_datasets := by
  obtain ⟨-, hc⟩ | ⟨tid, row, s, hanswers⟩ := hth.completed_step h
  · rw [hc]
    exact ⟨rfl, List.Subset.refl _, List.Subset.refl _⟩
  · rw [hanswers.conversation]
    exact ⟨rfl, subset_requireSource _ _, subset_requireSource _ _⟩

theorem Sourced.step (hsourced : th.Sourced σ) (hσ : Named σ) (hth : th.Linear) (h : Step a σ P th th') :
    th'.Sourced σ := by
  obtain ⟨-, hteams, hdatasets⟩ := hth.required_subset h
  have hkept {t : Turn} (ht : t ∈ th.completed) (htask : t.madeTask = true) : ∃ team dataset,
      t.source σ = some (team, dataset) ∧ team ∈ th'.conversation.required_teams ∧
        ∀ k ∈ dataset, k ∈ th'.conversation.required_datasets := by
    obtain ⟨team, dataset, hsource, hteam, hdataset⟩ := hsourced t ht htask
    exact ⟨team, dataset, hsource, hteams hteam, fun k hk => hdatasets (hdataset k hk)⟩
  intro t ht htask
  obtain ⟨hcompleted, -⟩ | ⟨tid, row, s, hanswers⟩ := hth.completed_step h
  · exact hkept (hcompleted ▸ ht) htask
  · rw [hanswers.completed, List.mem_append, List.mem_singleton] at ht
    obtain ht | rfl := ht
    · exact hkept ht htask
    · obtain ⟨dataset, hsource, hteam, hdataset⟩ := source_answered hσ row
        (by simpa [Turn.madeTask, Turn.answered] using htask) hanswers.sources
      rw [hanswers.conversation]
      refine ⟨s.team, dataset, hsource, mem_requireSource hteam, fun k hk => ?_⟩
      obtain ⟨rfl, hk'⟩ := hdataset k hk
      exact mem_requireSource hk'

theorem Sourced.changes (h : th.Sourced σ) (hσ : Workbench.Changes σ σ') : th.Sourced σ' := by
  intro t ht htask
  obtain ⟨team, dataset, hsource, hrequired⟩ := h t ht htask
  exact ⟨team, dataset, source_changes hσ hsource, hrequired⟩

end Thread

namespace Workbench

variable {a : App} {σ : Store} {u id : String} {c : Conversation}

/-- The caller `u` gets nothing of a conversation and into none of its turns:
neither by the list, nor by reading it, nor by taking up a turn (a new one, one
that failed, or one that has been answered), nor by ending an attempt. -/
structure Refuses (a : App) (σ : Store) (u id : String) : Prop where
  listed : ∀ offset, ∀ e ∈ listConversations σ u offset, e.1 ≠ id
  read : ∀ before, getConversation σ u id before = .error .noRows
  reserved : ∀ now key b newID fence seq,
    (reserveConversationTurn a now u id key b newID fence seq).run unlocked σ = .error .noRows
  completed : ∀ now (t : Attempt) answer decision, t.u = u → t.id = id →
    (t.complete a now answer decision).run unlocked σ = .error .noRows

/-- All the ways into a conversation look at its scope. -/
theorem refuses_of_scope (hc : σ.lookup (Key.conversations id) = some c) (hscope : conversationScope σ u c = false) :
    Refuses a σ u id := by
  have hnone : (σ.lookup (Key.conversations id)).filter (conversationScope σ u) = none := by
    rw [hc, Option.filter_some, if_neg (by simp [hscope])]
  have hrequire : (sql.Tx.require ((σ.lookup (Key.conversations id)).filter (conversationScope σ u)) Error.noRows :
      Tx Conversation).run unlocked σ = .error .noRows := by
    rw [hnone]
    rfl
  constructor
  · rintro offset ⟨id', c'⟩ he rfl
    have hmem := List.mem_of_mem_drop (List.mem_of_mem_take he)
    rw [List.mem_insertionSort, List.mem_filterMap] at hmem
    obtain ⟨⟨key, row⟩, hrow, heq⟩ := hmem
    cases key with
    | conversations id =>
      simp only [Option.ite_none_right_eq_some, Option.some.injEq, Prod.mk.injEq] at heq
      obtain ⟨hvisible, rfl, rfl⟩ := heq
      obtain rfl := Option.some.inj (hc.symm.trans (AList.mem_lookup_iff.mpr hrow))
      rw [hscope] at hvisible
      cases hvisible
    | _ => cases heq
  · intro before
    rw [getConversation, hnone]
  · intro now key b newID fence seq
    unfold reserveConversationTurn
    rw [run_bind_of_ok unlocked (run_selectForUpdate unlocked _ σ), run_bind_of_ok unlocked (run_snapshot unlocked σ)]
    exact run_bind_of_error unlocked hrequire _
  · rintro now t answer decision rfl rfl
    unfold Attempt.complete completeConversationTurn
    rw [run_bind_of_ok unlocked (run_selectForUpdate unlocked _ σ), run_bind_of_ok unlocked (run_snapshot unlocked σ)]
    exact run_bind_of_error unlocked hrequire _

theorem scope_other (h : u ≠ c.subject) : conversationScope σ u c = false := by
  simp [conversationScope, Ne.symm h]

theorem scope_team {team : String} (hteam : team ∈ c.required_teams) (h : hasMember σ u team = false) :
    conversationScope σ u c = false := by
  have hall : (c.required_teams.all fun t => hasMember σ u t) = false := by
    rw [List.all_eq_false]
    exact ⟨team, hteam, by simp [h]⟩
  rw [conversationScope, hall]
  simp

theorem scope_dataset {k : String} (hk : k ∈ c.required_datasets)
    (h : (σ.lookup (Key.query_datasets k)).any (fun d => d.enabled && hasMember σ u d.team) = false) :
    conversationScope σ u c = false := by
  have hall : (c.required_datasets.all fun k =>
      ((σ.lookup (Key.query_datasets k)).any fun d => d.enabled && hasMember σ u d.team)) = false := by
    rw [List.all_eq_false]
    exact ⟨k, hk, by simp [h]⟩
  rw [conversationScope, hall]
  simp

/-- What the answered turns of a conversation have read decides who gets at it. -/
structure HidesRevoked (a : App) (w : Workbench) (id : String) (c : Conversation) : Prop where
  required : ∀ e ∈ turnsOf w.store id, e.2.status = .completed → e.2.madeTask = true → ∃ team dataset,
    e.2.source w.store = some (team, dataset) ∧ team ∈ c.required_teams ∧ ∀ k ∈ dataset, k ∈ c.required_datasets
  kept : ∀ ops, ∃ c', (machine.run (step a) w ops).store.lookup (Key.conversations id) = some c' ∧
    c'.subject = c.subject ∧ c.required_teams ⊆ c'.required_teams ∧ c.required_datasets ⊆ c'.required_datasets
  revoked : ∀ e ∈ turnsOf w.store id, e.2.status = .completed → e.2.madeTask = true → ∀ team dataset,
    e.2.source w.store = some (team, dataset) →
    (hasMember w.store c.subject team = false ∨ ∃ k ∈ dataset, (w.store.lookup (Key.query_datasets k)).any
      (fun d => d.enabled && hasMember w.store c.subject d.team) = false) →
    Refuses a w.store c.subject id
  owner : ∀ u, u ≠ c.subject → Refuses a w.store u id

theorem named_always (hσ : Initial σ) (hnamed : Named σ) (ops : List Op) : machine.Always (step a)
    (fun w _ => w.Sound ∧ Named w.store) { store := σ, seq := 0, attempts := [] } ops :=
  machine.always_of_invariant (I := fun w => w.Sound ∧ Named w.store) ⟨.init hσ, hnamed⟩ (fun w op hw =>
    have hadvances : Advances a (w.Records op) w (w.step a op) := hw.1.step op
    ⟨hadvances.sound, hadvances.changes.named hw.2⟩) ops

theorem sourced_after (hσ : Initial σ) (hnamed : Named σ) (ops : List Op) {th : Thread}
    (hth : threadOf (after a σ ops).store id = some th) : th.Sourced (after a σ ops).store := by
  refine (thread_invariant (I := fun σ th => th.Linear ∧ th.Sourced σ) hσ (fun σ now u => ⟨?_, ?_⟩) ?_ ?_
    (named_always hσ hnamed ops) id th hth).2
  · constructor <;> simp [newConversation, Thread.completed]
  · simp [Thread.Sourced, Thread.completed]
  · exact fun w op th th' _ hw hth hstep => ⟨hth.1.step hstep, hth.2.step hw.2 hth.1 hstep⟩
  · exact fun σ σ' th hchanges hth => ⟨hth.1, hth.2.changes hchanges⟩

theorem required_after (hσ : Initial σ) (ops ops' : List Op)
    (hc : (after a σ ops).store.lookup (Key.conversations id) = some c) :
    ∃ c', (after a σ (ops ++ ops')).store.lookup (Key.conversations id) = some c' ∧ c'.subject = c.subject ∧
      c.required_teams ⊆ c'.required_teams ∧ c.required_datasets ⊆ c'.required_datasets := by
  induction ops' using List.reverseRecOn with
  | nil => exact ⟨c, by rwa [List.append_nil], rfl, List.Subset.refl _, List.Subset.refl _⟩
  | append_singleton ops' op ih =>
    obtain ⟨c', hc', hkept⟩ := ih
    rw [← List.append_assoc, after, machine.run_concat]
    have hth' : threadOf (after a σ (ops ++ ops')).store id = some ⟨c', thread (after a σ (ops ++ ops')).store id⟩ := by
      rw [threadOf, hc', Option.map_some]
    have hlinear := linear_after hσ _ hth'
    obtain ⟨th'', hth'', hsteps⟩ := ((sound_after hσ (ops ++ ops')).step (a := a) op).shifts id _ hth'
    refine ⟨th''.conversation, (threadOf_eq_some.mp hth'').1, ?_⟩
    clear hth''
    have hboth : th''.Linear ∧ th''.conversation.subject = c.subject ∧
        c.required_teams ⊆ th''.conversation.required_teams ∧
          c.required_datasets ⊆ th''.conversation.required_datasets := by
      induction hsteps with
      | refl => exact ⟨hlinear, hkept⟩
      | tail _ hstep ih =>
        obtain ⟨hlinear, hsubject, hteams, hdatasets⟩ := ih
        obtain ⟨hsubject', hteams', hdatasets'⟩ := hlinear.required_subset hstep
        exact ⟨hlinear.step hstep, hsubject'.trans hsubject, List.Subset.trans hteams hteams',
          List.Subset.trans hdatasets hdatasets'⟩
    exact hboth.2

theorem revoked_hidden (hσ : Initial σ) (hnamed : Named σ) (ops : List Op)
    (hc : (after a σ ops).store.lookup (Key.conversations id) = some c) : HidesRevoked a (after a σ ops) id c := by
  have hth : threadOf (after a σ ops).store id = some ⟨c, thread (after a σ ops).store id⟩ := by
    rw [threadOf, hc, Option.map_some]
  have hsourced := sourced_after hσ hnamed ops hth
  have hrequired : ∀ e ∈ turnsOf (after a σ ops).store id, e.2.status = .completed → e.2.madeTask = true →
      ∃ team dataset, e.2.source (after a σ ops).store = some (team, dataset) ∧ team ∈ c.required_teams ∧
        ∀ k ∈ dataset, k ∈ c.required_datasets := by
    intro e he hcompleted htask
    exact hsourced e.2 (Thread.mem_completed.mpr ⟨e.1, mem_thread.mpr he, hcompleted⟩) htask
  refine ⟨hrequired, fun ops' => ?_, fun e he hcompleted htask team dataset hsource hrevoked => ?_,
    fun u hu => refuses_of_scope hc (scope_other hu)⟩
  · rw [← machine.run_append]
    exact required_after hσ ops ops' hc
  · obtain ⟨team', dataset', hsource', hteam, hdataset⟩ := hrequired e he hcompleted htask
    obtain ⟨rfl, rfl⟩ := Prod.mk.inj (Option.some.inj (hsource'.symm.trans hsource))
    obtain hmember | ⟨k, hk, hdisabled⟩ := hrevoked
    · exact refuses_of_scope hc (scope_team hteam hmember)
    · exact refuses_of_scope hc (scope_dataset (hdataset k hk) hdisabled)

/-- `alice` leaves the team whose data the conversation has read. -/
def leaving : List Op := querying ++ [.elsewhere (.members "alice" "orders") none]

theorem revoked_hidden_leaving : ∃ c, c.required_teams = ["orders"] ∧ c.required_datasets = ["commerce"] ∧
    HidesRevoked deployed (after deployed seed leaving) "c1" c := by
  have hrequired : ((after deployed seed leaving).store.lookup (Key.conversations "c1")).map
      (fun c => (c.required_teams, c.required_datasets)) = some (["orders"], ["commerce"]) := by decide +kernel
  obtain ⟨c, hc, heq⟩ := Option.map_eq_some_iff.mp hrequired
  obtain ⟨hteams, hdatasets⟩ := Prod.mk.inj heq
  exact ⟨c, hteams, hdatasets, revoked_hidden seed_initial seed_named leaving hc⟩

end Workbench

end incidentdesk
