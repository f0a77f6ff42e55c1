import IncidentDesk.Effects.Memories
import IncidentDesk.Leases
import IncidentDesk.Retries

namespace incidentdesk

open sql sql.Tx

/-- Who may be shown memories: a member, of one service or of all of them, and a
worker that asks for a task. -/
inductive Viewer where
  | member (u service : String)
  | task (id : String) (b : Callback) (skip : Key → Bool)

/-- The memories that a reader is shown. -/
def World.served (a : App) (w : World) : Viewer → List (String × Memory)
  | .member u service => memories w.now w.store u service
  | .task id b skip =>
    match (callback a w.now id "authorize" b).run skip w.store with
    | .ok (.memories rows, _) => rows
    | _ => []

/-- The reader belongs to a team, a worker by the task that it asks for. -/
def Viewer.Belongs (σ : Store) (team : String) : Viewer → Prop
  | .member u _ => incidentdesk.member σ u team false = .ok ()
  | .task id _ _ => ∃ i, σ.lookup (Key.investigations id) = some i ∧ i.team = team ∧
      incidentdesk.member σ i.subject team false = .ok ()

/-- An approver of the team confirms a memory. -/
def Confirms (a : App) (id team : String) (w : World) (op : Op) : Prop :=
  ∃ u skip, op = .request (.reviewMemory u id "confirm") skip ∧ w.Commits a (.reviewMemory u id "confirm") skip ∧
    member w.store u team true = .ok ()

/-- What holds of a memory that is shown. -/
structure Memory.Live (w : World) (m : Memory) : Prop where
  status : m.status = .confirmed
  unexpired : w.now < m.expires_at
  current : ∃ s, w.store.lookup (Key.services m.service) = some s ∧ m.source_version = s.watermark

/-- A memory that was taken back, or whose time is over. -/
def Memory.Over (now : Time) (m : Memory) : Prop := m.status.closed ∨ m.expires_at ≤ now

/-- A memory is never ahead of its service, and one that was taken back is behind it. -/
def Memory.Stands (σ : Store) (m : Memory) : Prop :=
  ∃ s, σ.lookup (Key.services m.service) = some s ∧ m.source_version ≤ s.watermark ∧
    (m.status.closed → m.source_version < s.watermark)

/-- A memory that will not be shown again: its service is past it, or its time is over. -/
def Memory.Past (w : World) (m : Memory) : Prop :=
  m.expires_at ≤ w.now ∨ ∃ s, w.store.lookup (Key.services m.service) = some s ∧ m.source_version < s.watermark

section Served

variable {a : App} {w : World} {id : String} {m : Memory}

theorem mem_memories {u service : String} (h : (id, m) ∈ memories w.now w.store u service) :
    w.store.lookup (Key.memories id) = some m ∧ m.Live w ∧ member w.store u m.team false = .ok () := by
  obtain ⟨⟨key, row⟩, hmem, hrow⟩ := List.mem_filterMap.mp h
  cases key with
  | memories id' =>
    simp only [Option.ite_none_right_eq_some, Option.some.injEq, Prod.mk.injEq] at hrow
    obtain ⟨⟨⟨hmember, hstatus, hexpires, hcurrent⟩, -⟩, rfl, rfl⟩ := hrow
    refine ⟨AList.mem_lookup_iff.mpr hmem, ⟨hstatus, hexpires, ?_⟩, ?_⟩
    · obtain ⟨s, hs, hversion⟩ := (Option.any_eq_true ..).mp hcurrent
      exact ⟨s, hs, of_decide_eq_true hversion⟩
    · obtain ⟨role, hrole⟩ := Option.isSome_iff_exists.mp hmember
      rw [member, hrole]
      rfl
  | _ => cases hrow

theorem mem_taskMemories {i : Investigation} (hi : w.store.lookup (Key.investigations id) = some i) {mid : String}
    (h : (mid, m) ∈ (taskMemories w.now w.store id).getD []) :
    w.store.lookup (Key.memories mid) = some m ∧ m.Live w ∧ i.team = m.team := by
  rw [taskMemories, hi] at h
  cases hs : w.store.lookup (Key.services i.service) with
  | none => simp [hs] at h
  | some s =>
    simp only [hs, Option.pure_def, Option.bind_eq_bind, Option.bind_some, Option.getD_some] at h
    obtain ⟨⟨key, row⟩, hmem, hrow⟩ := List.mem_filterMap.mp h
    cases key with
    | memories id' =>
      simp only [Option.ite_none_right_eq_some, Option.some.injEq, Prod.mk.injEq] at hrow
      obtain ⟨⟨hservice, hteam, hstatus, hcurrent, hexpires⟩, rfl, rfl⟩ := hrow
      exact ⟨AList.mem_lookup_iff.mpr hmem, ⟨hstatus, hexpires, s, hservice ▸ hs, hcurrent⟩, hteam.symm⟩
    | _ => cases hrow

/-- A worker is shown the memories of its task, as long as the task's subject
belongs to the team. -/
theorem authorize_memories (now : Time) (skip : Key → Bool) (σ : Store) (b : Callback) :
    Ensures skip (callback a now id "authorize" b) σ fun reply _ => ∀ rows, reply = .memories rows →
      ∃ i, σ.lookup (Key.investigations id) = some i ∧ member σ i.subject i.team false = .ok () ∧
        rows = (taskMemories now σ id).getD [] := by
  have hop : ("authorize" : String) ≠ "result" ∧ ("authorize" : String) ≠ "sandbox" ∧
      ("authorize" : String) ≠ "heartbeat" := by decide
  unfold callback fencedCallback fence authorize
  simp only [hop, if_false, if_true, ensures_bind, ensures_snapshot, ensures_require, ensures_lockRow, ensures_refuse,
    ensures_ofExcept, ensures_event, Tx.pure_eq_ret, ensures_ret]
  intro _ _ _ _ _ _ i hi _ _ _ _ hmember _ _ _ s _ _ _ _ rows hreply
  by_cases htool : b.Tool = "memory"
  · rw [if_pos htool] at hreply
    exact ⟨i, hi, hmember, (Reply.memories.inj hreply).symm⟩
  · rw [if_neg htool] at hreply
    cases hreply

theorem World.served_live {r : Viewer} (h : (id, m) ∈ w.served a r) :
    w.store.lookup (Key.memories id) = some m ∧ m.Live w ∧ r.Belongs w.store m.team := by
  cases r with
  | member u service => exact mem_memories h
  | task tid b skip =>
    rw [served] at h
    split at h
    · rename_i rows σ' hrun
      obtain ⟨i, hi, hmember, rfl⟩ := authorize_memories w.now skip w.store b _ _ hrun rows rfl
      obtain ⟨hm, hlive, hteam⟩ := mem_taskMemories hi h
      exact ⟨hm, hlive, i, hi, hteam, hteam ▸ hmember⟩
    · cases h

/-- What is past is not shown. -/
theorem Memory.Past.not_served (h : m.Past w) {r : Viewer} (hserved : (id, m) ∈ w.served a r) : False := by
  obtain ⟨-, hlive, -⟩ := World.served_live hserved
  obtain hexpired | ⟨s, hs, hversion⟩ := h
  · exact absurd hlive.unexpired (Int.not_lt.mpr hexpired)
  · obtain ⟨s', hs', hcurrent⟩ := hlive.current
    obtain rfl := Option.some.inj (hs.symm.trans hs')
    omega

end Served

section Step

variable {a : App} {w : World} {op : Op} {id : String} {m : Memory}

/-- The watermarks do not fall. -/
theorem World.watermark_step (w : World) (op : Op) {name : String} {s : Service}
    (hs : w.store.lookup (Key.services name) = some s) :
    ∃ s', (World.step a w op).store.lookup (Key.services name) = some s' ∧ s.watermark ≤ s'.watermark := by
  obtain hstore | ⟨txn, -, heffect⟩ := World.memory_step (a := a) w op
  · exact ⟨s, hstore ▸ hs, le_rfl⟩
  · exact heffect.services name s hs

/-- A memory stays, and only its content, its status and its reviewer change. -/
theorem World.memory_kept (w : World) (op : Op) (hm : w.store.lookup (Key.memories id) = some m) :
    ∃ m', (World.step a w op).store.lookup (Key.memories id) = some m' ∧ m.Kept m' := by
  obtain hstore | ⟨txn, -, heffect⟩ := World.memory_step (a := a) w op
  · exact ⟨m, hstore ▸ hm, rfl, rfl, rfl, rfl⟩
  · have hstep := heffect.memories id
    rw [hm] at hstep
    generalize (World.step a w op).store.lookup (Key.memories id) = x at hstep ⊢
    cases hstep with
    | unchanged => exact ⟨m, rfl, rfl, rfl, rfl, rfl⟩
    | confirmed => exact ⟨_, rfl, rfl, rfl, rfl, rfl⟩
    | closed hkept => exact ⟨_, rfl, hkept⟩

theorem Memory.Past.step (h : m.Past w) (op : Op) {m' : Memory} (hkept : m.Kept m') :
    m'.Past (World.step a w op) := by
  obtain hexpired | ⟨s, hs, hversion⟩ := h
  · exact .inl (hkept.expires_at ▸ Int.le_trans hexpired (World.now_le_step w op))
  · obtain ⟨s', hs', hle⟩ := World.watermark_step (a := a) w op hs
    refine .inr ⟨s', hkept.service ▸ hs', ?_⟩
    rw [hkept.source_version]
    omega

theorem Memory.Stands.step (hw : w.Sound)
    (hsource : ∀ c id, caseOf w.store id = some c → c.investigation.source_version ≤ c.service.watermark)
    (h : ∀ id m, w.store.lookup (Key.memories id) = some m → m.Stands w.store) (op : Op)
    (hm : (World.step a w op).store.lookup (Key.memories id) = some m) : m.Stands (World.step a w op).store := by
  obtain hstore | ⟨txn, -, heffect⟩ := World.memory_step (a := a) w op
  · rw [hstore] at hm ⊢
    exact h id m hm
  have hstep := heffect.memories id
  rw [hm] at hstep
  have hmoved (name : String) (v : Nat) (hle : ∃ s, w.store.lookup (Key.services name) = some s ∧ v ≤ s.watermark) :
      ∃ s', (World.step a w op).store.lookup (Key.services name) = some s' ∧ v ≤ s'.watermark := by
    obtain ⟨s, hs, hle⟩ := hle
    obtain ⟨s', hs', hle'⟩ := heffect.services name s hs
    exact ⟨s', hs', hle.trans hle'⟩
  generalize hold : w.store.lookup (Key.memories id) = x at hstep
  cases hstep with
  | unchanged =>
    obtain ⟨s, hs, hle, hclosed⟩ := h id m hold
    obtain ⟨s', hs', hle'⟩ := heffect.services m.service s hs
    exact ⟨s', hs', hle.trans hle', fun hstatus => (hclosed hstatus).trans_le hle'⟩
  | created hi hservice hversion hstatus =>
    obtain ⟨c, hc, rfl⟩ := hw.wf.caseOf_of_investigation hi
    obtain ⟨s', hs', hle⟩ := hmoved m.service m.source_version
      ⟨c.service, hservice ▸ (caseOf_eq_some.mp hc).2.2.1, hversion ▸ hsource c _ hc⟩
    refine ⟨s', hs', hle, ?_⟩
    rw [hstatus]
    rintro (h | h) <;> cases h
  | @confirmed _ m₀ s _ _ hs hversion =>
    obtain ⟨s', hs', hle⟩ := hmoved m₀.service m₀.source_version ⟨s, hs, hversion.le⟩
    exact ⟨s', hs', hle, by rintro (h | h) <;> cases h⟩
  | @closed m₀ _ hkept _ hgrown =>
    obtain ⟨s, hs, hle, -⟩ := h id m₀ hold
    obtain ⟨s', hs', hlt⟩ := hgrown s hs
    refine ⟨s', hkept.service ▸ hs', ?_, fun _ => ?_⟩ <;> rw [hkept.source_version] <;> omega

/-- A memory comes to be confirmed by an approver's decision. -/
theorem World.confirms (hm : (World.step a w op).store.lookup (Key.memories id) = some m)
    (hstatus : m.status = .confirmed)
    (hnew : (w.store.lookup (Key.memories id)).map (fun m => (m.status, m.team)) ≠ some (m.status, m.team)) :
    Confirms a id m.team w op := by
  obtain hstore | ⟨txn, htxn, heffect⟩ := World.memory_step (a := a) w op
  · rw [hstore] at hm
    rw [hm] at hnew
    exact absurd rfl hnew
  have hstep := heffect.memories id
  rw [hm] at hstep
  generalize hold : w.store.lookup (Key.memories id) = x at hstep hnew
  cases hstep with
  | unchanged => exact absurd rfl hnew
  | created _ _ _ hcandidate => cases hcandidate.symm.trans hstatus
  | closed _ hclosed =>
    rw [hstatus] at hclosed
    obtain h | h := hclosed <;> cases h
  | @confirmed u m₀ s hreview happrover =>
    subst hreview
    obtain ⟨skip, rfl⟩ := World.transaction_eq_request htxn
    refine ⟨u, skip, rfl, ?_, happrover⟩
    by_contra hrefused
    rw [World.store_of_not_commits hrefused, hold] at hm
    exact hnew (congrArg (Option.map fun m => (m.status, m.team)) hm)

end Step

section Run

variable (a : App) {σ : Store} (hσ : Initial σ) (now : Time)

include hσ

theorem stands_after (ops : List Op) : ∀ id m,
    (World.after a σ now ops).store.lookup (Key.memories id) = some m → m.Stands (World.after a σ now ops).store := by
  refine machine.run_induction (P := fun _ (w : World) => ∀ id m, w.store.lookup (Key.memories id) = some m →
    m.Stands w.store) (fun id m hm => ?_) (fun ops op ih id m hm => ?_) ops
  · have hm : σ.lookup (Key.memories id) = some m := hm
    rw [hσ (Key.memories id) rfl] at hm
    cases hm
  · exact Memory.Stands.step (World.sound_after hσ now ops) (fun c id hc => source_le_after a hσ now ops hc) ih op hm

/-- Whoever is shown a memory is shown one that an approver of its team has
confirmed. -/
theorem confirms_after (ops : List Op) {id : String} {m : Memory}
    (hm : (World.after a σ now ops).store.lookup (Key.memories id) = some m) (hstatus : m.status = .confirmed) :
    machine.Occurs (World.step a) (Confirms a id m.team) (World.init σ now) ops := by
  have hstatuses := machine.eq_or_occurs (fun w : World => (w.store.lookup (Key.memories id)).map fun m => (m.status, m.team))
    (machine.always_true (World.init σ now) ops : machine.Always (World.step a) (fun _ _ => True) _ ops)
  obtain hinit | ⟨pre, op, post, hops, -, hnew, hset⟩ := hstatuses
  · have hnone : (World.init σ now).store.lookup (Key.memories id) = none := hσ (Key.memories id) rfl
    rw [hm, hnone] at hinit
    cases hinit
  · refine ⟨pre, op, post, hops, ?_⟩
    rw [hm, Option.map_some] at hnew hset
    obtain ⟨m', hm', heq⟩ := Option.map_eq_some_iff.mp hset
    obtain ⟨hstatus', hteam⟩ := Prod.mk.inj heq
    rw [← hteam]
    refine World.confirms hm' (hstatus'.trans hstatus) ?_
    rwa [hstatus', hteam]

omit hσ in
/-- A memory that is past stays so. -/
theorem past_run {w : World} {id : String} {m : Memory} (hm : w.store.lookup (Key.memories id) = some m)
    (hpast : m.Past w) (ops : List Op) : ∃ m', (machine.run (World.step a) w ops).store.lookup (Key.memories id) =
      some m' ∧ m'.Past (machine.run (World.step a) w ops) := by
  refine machine.run_invariant (I := fun w : World => ∃ m', w.store.lookup (Key.memories id) = some m' ∧ m'.Past w)
    ⟨m, hm, hpast⟩ (fun w op ⟨m', hm', hpast'⟩ => ?_) ops
  obtain ⟨m'', hm'', hkept⟩ := World.memory_kept (a := a) w op hm'
  exact ⟨m'', hm'', hpast'.step op hkept⟩

/-- What is shown was confirmed by an approver of its team, to a reader of that
team, within its time and at the present watermark; and what was taken back or has
run out is shown to nobody, whatever happens next. -/
theorem memories_stay_over (ops : List Op) :
    (∀ r id m, (id, m) ∈ (World.after a σ now ops).served a r →
      m.Live (World.after a σ now ops) ∧ r.Belongs (World.after a σ now ops).store m.team ∧
        machine.Occurs (World.step a) (Confirms a id m.team) (World.init σ now) ops) ∧
      ∀ id m, (World.after a σ now ops).store.lookup (Key.memories id) = some m → m.Over (World.after a σ now ops).now →
        ∀ ops' r m', (id, m') ∉ (World.after a σ now (ops ++ ops')).served a r := by
  refine ⟨fun r id m h => ?_, fun id m hm hover ops' r m' h => ?_⟩
  · obtain ⟨hm, hlive, hreader⟩ := World.served_live h
    exact ⟨hlive, hreader, confirms_after a hσ now ops hm hlive.status⟩
  · have hpast : m.Past (World.after a σ now ops) := by
      obtain hclosed | hexpired := hover
      · obtain ⟨s, hs, -, hversion⟩ := stands_after a hσ now ops id m hm
        exact .inr ⟨s, hs, hversion hclosed⟩
      · exact .inl hexpired
    obtain ⟨m'', hm'', hpast''⟩ := past_run a hm hpast ops'
    rw [World.after, machine.run_append] at h
    obtain rfl := Option.some.inj (hm''.symm.trans (World.served_live h).1)
    exact hpast''.not_served h

end Run

/-- A finding is remembered, confirmed by `alice`, and taken back again. -/
def remembering : List Op :=
  completing ++
    [.request (.memory "i1" "连接池耗尽" "m1") unlocked, .request (.reviewMemory "alice" "m1" "confirm") unlocked]

def revoking : Op := .request (.reviewMemory "alice" "m1" "revoke") unlocked

/-- `bob` is shown the memory until it is revoked. -/
theorem memories_stay_over_revoking :
    ((World.after deployed seed 0 remembering).served deployed (.member "bob" "")).map Prod.fst = ["m1"] ∧
      ∀ ops' r m, ("m1", m) ∉ (World.after deployed seed 0 (remembering ++ [revoking] ++ ops')).served deployed r := by
  refine ⟨by decide, ?_⟩
  exact (memories_stay_over deployed seed_initial 0 (remembering ++ [revoking])).2 "m1" _ rfl (.inl (.inl rfl))

end incidentdesk
