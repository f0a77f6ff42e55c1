import IncidentDesk.Leases
import IncidentDesk.Seed

namespace incidentdesk

open sql sql.Tx

/-- A callback brings the result that a job has stored, under the same identifier. -/
structure Redelivers (a : App) (b : Callback) (c : Case) : Prop where
  callback : c.job.last_callback.getD "" = b.CallbackID
  nonempty : b.CallbackID ≠ ""
  owner : c.job.owner.getD "" = b.Owner
  generation : (c.job.generation : Int) = b.Generation
  hash : c.job.result_hash.getD "" = a.Hash b.marshal

section Handler

variable {a : App} {now : Time} {skip : Key → Bool} {σ : Store}

theorem fencedCallback_fenced (hwf : Wf σ) (id op : String) (b : Callback) :
    Ensures skip (fencedCallback a now id op b) σ fun _ _ => ∃ c, caseOf σ id = some c ∧ Fenced now b c := by
  unfold fencedCallback
  rw [ensures_bind]
  exact ensures_fence hwf fun c hc hfence _ _ _ => ⟨c, hc, hfence⟩

theorem ensures_replayed_of (hwf : Wf σ) {id : String} {b : Callback} {Q : Bool → Store → Prop}
    (htrue : ∀ c, caseOf σ id = some c → Redelivers a b c → Q true σ) (hfalse : Q false σ) :
    Ensures skip (replayed a id b) σ Q := by
  unfold replayed
  simp only [ensures_bind, ensures_selectForUpdate, ensures_require, ensures_ite, ensures_refuse,
    Tx.pure_eq_ret, ensures_ret]
  intro job hj
  refine ⟨?_, fun _ => hfalse⟩
  rintro ⟨hcallback, hnonempty, howner, hgeneration⟩ hhash
  obtain ⟨c, hc, rfl⟩ := hwf.caseOf_of_job hj
  exact htrue c hc ⟨hcallback, hnonempty, howner, hgeneration, not_not.mp hhash⟩

/-- A callback changes something only for the holder of a live lease. -/
theorem callback_fenced (hwf : Wf σ) (id op : String) (b : Callback) :
    Ensures skip (callback a now id op b) σ fun _ σ' =>
      σ' = σ ∨ ∃ c, caseOf σ id = some c ∧ Fenced now b c := by
  have hfenced : Ensures skip (fencedCallback a now id op b) σ fun _ σ' =>
      σ' = σ ∨ ∃ c, caseOf σ id = some c ∧ Fenced now b c :=
    Ensures.mono skip (fencedCallback_fenced hwf id op b) fun _ _ h => .inr h
  unfold callback
  simp only [ensures_ite, ensures_bind, Tx.pure_eq_ret, ensures_ret]
  exact ⟨fun _ => ensures_replayed fun replay => ⟨fun _ => .inl rfl, fun _ => hfenced⟩, fun _ => hfenced⟩

theorem acceptResult_done (id : String) (b : Callback) :
    Ensures skip (acceptResult a id b) σ fun _ σ' =>
      ∀ job, σ'.lookup (Key.jobs id) = some job → job.state = .done := by
  unfold acceptResult
  simp only [ensures_bind, ensures_snapshot, ensures_require, ensures_refuse, ensures_ofExcept,
    ensures_updateOne, ensures_event]
  intro _ _ _ _ _ _ _ _ _ _ _ _ _ job hjob
  simp [AList.lookup_insert_ne] at hjob
  obtain ⟨_, _, rfl⟩ := hjob
  rfl

/-- A result that is not refused is stored already, or ends the run of its job. -/
theorem callback_result (hwf : Wf σ) (id : String) (b : Callback) :
    Ensures skip (callback a now id "result" b) σ fun _ σ' => ∃ c, caseOf σ id = some c ∧
      (σ' = σ ∧ Redelivers a b c ∨ Fenced now b c ∧
        ∀ job, σ'.lookup (Key.jobs id) = some job → job.state = .done) := by
  unfold callback
  simp only [if_true, ensures_ite, ensures_bind, Tx.pure_eq_ret, ensures_ret]
  refine ensures_replayed_of hwf (fun c hc hredelivers => ?_) ?_
  · exact ⟨fun _ => ⟨c, hc, .inl ⟨rfl, hredelivers⟩⟩, fun h => absurd rfl h⟩
  · refine ⟨fun h => by simp at h, fun _ => ?_⟩
    unfold fencedCallback
    rw [ensures_bind]
    refine ensures_fence hwf fun c hc hfence => ?_
    simp only [String.reduceEq, if_false, if_true, ensures_bind, Tx.pure_eq_ret, ensures_ret]
    exact Ensures.mono skip (acceptResult_done id b) fun _ _ hdone => ⟨c, hc, .inr ⟨hfence, hdone⟩⟩

end Handler

/-- A request either commits, or is refused and changes nothing. -/
theorem World.step_request (a : App) (w : World) (r : Request) (skip : Key → Bool) :
    (∃ σ', (r.body a w.now).run skip w.store = .ok ((), σ') ∧
        World.step a w (.request r skip) = { w with store := σ' }) ∨
      ¬ w.Commits a r skip ∧ World.step a w (.request r skip) = w := by
  cases hrun : (r.body a w.now).run skip w.store with
  | error =>
    refine .inr ⟨?_, by simp only [World.step, commit, hrun]⟩
    rintro ⟨σ', hrun'⟩
    rw [hrun] at hrun'
    cases hrun'
  | ok outcome => exact .inl ⟨outcome.2, rfl, by simp only [World.step, commit, hrun]⟩

theorem World.Sound.callback_step {a : App} {w : World} (hw : w.Sound) (id op : String) (b : Callback)
    (skip : Key → Bool) : World.step a w (.request (.callback id op b) skip) = w ∨
      ∃ c, caseOf w.store id = some c ∧ Fenced w.now b c := by
  obtain ⟨σ', hrun, hstep⟩ | ⟨-, hsame⟩ := World.step_request a w (.callback id op b) skip
  · have hfenced : Ensures skip ((Request.callback id op b).body a w.now) w.store fun _ σ' =>
        σ' = w.store ∨ ∃ c, caseOf w.store id = some c ∧ Fenced w.now b c :=
      (ensures_discard skip).mpr (callback_fenced hw.wf id op b)
    obtain rfl | hfenced := hfenced () σ' hrun
    · exact .inl hstep
    · exact .inr hfenced
  · exact .inl hsame

/-- Delivering a result changes nothing, or the result is accepted. -/
theorem World.Sound.result_step {a : App} {w : World} (hw : w.Sound) (id : String) (b : Callback)
    (skip : Key → Bool) :
    let op := Op.request (.callback id "result" b) skip
    World.step a w op = w ∧
        (w.Commits a (.callback id "result" b) skip → ∃ c, caseOf w.store id = some c ∧ Redelivers a b c) ∨
      Accepts a id b w op := by
  intro op
  obtain ⟨σ', hrun, hstep⟩ | ⟨hrefused, hsame⟩ := World.step_request a w (.callback id "result" b) skip
  · have hresult : Ensures skip ((Request.callback id "result" b).body a w.now) w.store fun _ σ' =>
        ∃ c, caseOf w.store id = some c ∧ (σ' = w.store ∧ Redelivers a b c ∨ Fenced w.now b c ∧
          ∀ job, σ'.lookup (Key.jobs id) = some job → job.state = .done) :=
      (ensures_discard skip).mpr (callback_result hw.wf id b)
    obtain ⟨c, hc, ⟨rfl, hredelivers⟩ | ⟨hfence, hdone⟩⟩ := hresult () σ' hrun
    · exact .inl ⟨hstep, fun _ => ⟨c, hc, hredelivers⟩⟩
    · have hstore : (World.step a w op).store = σ' := by rw [hstep]
      have heffect : Effect a w.now skip w.store (.request (.callback id "result" b)) σ' :=
        request_effect hw.wf (.callback id "result" b) () σ' hrun
      have hcase := heffect.cases id
      rw [hc] at hcase
      obtain ⟨c', hc'⟩ := hcase.exists_after
      refine .inr ⟨skip, c, c', rfl, hc, by rw [hstore, hc'], hfence, ?_⟩
      exact hdone _ (caseOf_eq_some.mp hc').2.1
  · exact .inl ⟨hsame, fun h => absurd h hrefused⟩

section Run

variable (a : App) {σ : Store} (hσ : Initial σ) (now : Time) (ops : List Op) {id : String} {op : Op}

include hσ

/-- The case after one operation and some more. -/
theorem later_after_cons (mid : List Op) {c : Case}
    (hc : caseOf (World.step a (World.after a σ now ops) op).store id = some c) :
    ∃ c', caseOf (World.after a σ now (ops ++ op :: mid)).store id = some c' ∧ c.Later c' := by
  have hops : ops ++ op :: mid = (ops ++ [op]) ++ mid := by simp
  rw [hops]
  refine later_after a hσ now (ops ++ [op]) mid ?_
  rwa [World.after, machine.run_concat]

/-- Of two claims of a task, the later one has the greater generation. -/
theorem claims_increase (mid : List Op) {op' : Op} {owner owner' : String} {g g' v v' : Nat}
    (h : Claims a id owner g v (World.after a σ now ops) op)
    (h' : Claims a id owner' g' v' (World.after a σ now (ops ++ op :: mid)) op') : g < g' := by
  obtain ⟨-, c, -, hc, -, hg⟩ := h.generation (World.sound_after hσ now ops)
  obtain ⟨c', -, hc', -, hg', -⟩ := h'.generation (World.sound_after hσ now _)
  obtain ⟨c'', hc'', hlater⟩ := later_after_cons a hσ now ops mid hc
  obtain rfl := Option.some.inj (hc'.symm.trans hc'')
  have := hlater.generation
  omega

/-- Of two results that are accepted for a task, the later one has the greater
generation. -/
theorem accepts_increase (mid : List Op) {op' : Op} {b b' : Callback}
    (h : Accepts a id b (World.after a σ now ops) op)
    (h' : Accepts a id b' (World.after a σ now (ops ++ op :: mid)) op') : b.Generation < b'.Generation := by
  obtain ⟨c₀, c, -, hc, -, hg, hstate, hgeneration, -⟩ := h.stored (World.sound_after hσ now ops)
  obtain ⟨c', -, hc', -, hrunning, hg', -⟩ := h'.stored (World.sound_after hσ now _)
  obtain ⟨c'', hc'', hlater⟩ := later_after_cons a hσ now ops mid hc
  obtain rfl := Option.some.inj (hc'.symm.trans hc'')
  have hne : c'.job.generation ≠ c.job.generation := fun heq => (hlater.idle hstate heq).1 hrunning
  have := hlater.generation
  omega

/-- The last claim of a task was made by a worker under a generation. -/
def LatestClaim (a : App) (w : World) (ops : List Op) (id owner : String) (g : Nat) : Prop :=
  ∃ pre op post v, ops = pre ++ op :: post ∧ Claims a id owner g v (machine.run (World.step a) w pre) op ∧
    ∀ owner' g' v', ¬ machine.Occurs (World.step a) (Claims a id owner' g' v')
      (World.step a (machine.run (World.step a) w pre) op) post

theorem latestClaim_after {c : Case} (hc : caseOf (World.after a σ now ops).store id = some c)
    (hstate : c.job.state = .running) : ∃ owner, c.job.owner = some owner ∧
      LatestClaim a (World.init σ now) ops id owner c.job.generation := by
  obtain ⟨owner, howner, pre, op, post, rfl, hclaims⟩ := running_after a hσ now ops hc hstate
  refine ⟨owner, howner, pre, op, post, _, rfl, hclaims, ?_⟩
  rintro owner' g' v' ⟨mid, op', post', rfl, hclaims'⟩
  have hrun : machine.run (World.step a) (World.step a (World.after a σ now pre) op) mid =
      World.after a σ now (pre ++ op :: mid) :=
    (machine.run_append (World.step a) _ pre (op :: mid)).symm
  rw [hrun] at hclaims'
  have hlt := claims_increase a hσ now pre mid hclaims hclaims'
  obtain ⟨-, c', -, hc', -, hg'⟩ := hclaims'.generation (World.sound_after hσ now _)
  obtain ⟨c'', hc'', hlater⟩ := later_after_cons a hσ now (pre ++ op :: mid) post' hc'
  rw [List.append_assoc, List.cons_append, hc] at hc''
  obtain rfl := Option.some.inj hc''
  have := hlater.generation
  omega

/-- Every callback that changes something comes from the last claim of its task,
while the lease lives. -/
theorem callback_after (op : String) (b : Callback) (skip : Key → Bool) :
    let w := World.after a σ now ops
    World.step a w (.request (.callback id op b) skip) = w ∨
      ∃ c, caseOf w.store id = some c ∧ Fenced w.now b c ∧
        LatestClaim a (World.init σ now) ops id b.Owner c.job.generation := by
  intro w
  obtain hsame | ⟨c, hc, hfence⟩ :=
    (World.sound_after (a := a) hσ now ops).callback_step (a := a) id op b skip
  · exact .inl hsame
  · obtain ⟨owner, howner, hlatest⟩ := latestClaim_after a hσ now ops hc hfence.running
    obtain rfl := Option.some.inj (hfence.owner.symm.trans howner)
    exact .inr ⟨c, hc, hfence, hlatest⟩

/-- After a result has been accepted, one with another digest is refused unless
it is from a later generation. -/
theorem conflict_refused (mid : List Op) {b b' : Callback} (skip : Key → Bool)
    (h : Accepts a id b (World.after a σ now ops) op)
    (hhash : a.Hash b'.marshal ≠ a.Hash b.marshal) (hg : b'.Generation ≤ b.Generation) :
    let w := World.after a σ now (ops ++ op :: mid)
    ¬ w.Commits a (.callback id "result" b') skip ∧
      World.step a w (.request (.callback id "result" b') skip) = w := by
  intro w
  obtain ⟨c₀, c, -, hc, -, hg₀, hstate, hgeneration, hne, hcallback, hstored⟩ :=
    h.stored (World.sound_after hσ now ops)
  obtain ⟨c', hc', hlater⟩ := later_after_cons a hσ now ops mid hc
  have hw : w.Sound := World.sound_after hσ now _
  obtain ⟨hsame, hcommits⟩ | haccepts := hw.result_step (a := a) id b' skip
  · refine ⟨fun h => ?_, hsame⟩
    obtain ⟨c'', hc'', hredelivers⟩ := hcommits h
    obtain rfl := Option.some.inj (hc'.symm.trans hc'')
    have heq : c'.job.generation = c.job.generation := by
      have := hlater.generation
      have := hredelivers.generation
      omega
    obtain ⟨-, hnone | ⟨-, hhash'⟩⟩ := hlater.idle hstate heq
    · have := hredelivers.callback
      rw [hnone] at this
      exact hredelivers.nonempty this.symm
    · have := hredelivers.hash
      rw [hhash', hstored] at this
      exact hhash this.symm
  · have := accepts_increase a hσ now ops mid h haccepts
    omega

/-- An operation delivers the result `b` to a task. -/
def Delivers (id : String) (b : Callback) (op : Op) : Prop :=
  ∃ skip, op = .request (.callback id "result" b) skip

open Classical in
/-- Delivering a result several times is the same as delivering it once. -/
theorem redelivery_after {b : Callback} (hdelivers : ∃ op ∈ ops, Delivers id b op) :
    ∃ pre op post, ops = pre ++ op :: post ∧ Delivers id b op ∧
      World.after a σ now ops = World.after a σ now
        (pre.filter (fun op => ¬ Delivers id b op) ++ op :: post.filter fun op => ¬ Delivers id b op) := by
  refine machine.run_once (R := Accepts a id b) ?_ ?_ ?_ hdelivers
  · rintro pre op post - ⟨skip, rfl⟩
    exact ((World.sound_after (a := a) hσ now pre).result_step (a := a) id b skip).imp_left And.left
  · rintro w op ⟨skip, -, -, rfl, -⟩
    exact ⟨skip, rfl⟩
  · intro pre op mid op' h h'
    exact lt_irrefl _ (accepts_increase a hσ now pre mid h h')

end Run

open Classical in
/-- Over every run: later claims have greater generations, callbacks change
something only for the holder of the latest lease, one result at most is accepted
under a generation, delivering a result again changes nothing, and a result that
contradicts an accepted one is refused unless it is from a later generation. -/
theorem lease_fencing (a : App) {σ : Store} (hσ : Initial σ) (now : Time) (ops : List Op) (id : String) :
    let w := World.after a σ now ops
    (∀ op mid op' owner owner' g g' v v', Claims a id owner g v w op →
      Claims a id owner' g' v' (World.after a σ now (ops ++ op :: mid)) op' → g < g') ∧
    (∀ op b skip, World.step a w (.request (.callback id op b) skip) = w ∨
      ∃ c, caseOf w.store id = some c ∧ Fenced w.now b c ∧
        LatestClaim a (World.init σ now) ops id b.Owner c.job.generation) ∧
    (∀ op mid op' b b', Accepts a id b w op →
      Accepts a id b' (World.after a σ now (ops ++ op :: mid)) op' → b.Generation < b'.Generation) ∧
    (∀ b, (∃ op ∈ ops, Delivers id b op) → ∃ pre op post, ops = pre ++ op :: post ∧ Delivers id b op ∧
      w = World.after a σ now
        (pre.filter (fun op => ¬ Delivers id b op) ++ op :: post.filter fun op => ¬ Delivers id b op)) ∧
    ∀ op mid b b' skip, Accepts a id b w op → a.Hash b'.marshal ≠ a.Hash b.marshal →
      b'.Generation ≤ b.Generation →
        let w' := World.after a σ now (ops ++ op :: mid)
        ¬ w'.Commits a (.callback id "result" b') skip ∧
          World.step a w' (.request (.callback id "result" b') skip) = w' :=
  ⟨fun _ mid _ _ _ _ _ _ _ => claims_increase a hσ now ops mid,
    fun op b skip => callback_after a hσ now ops op b skip,
    fun _ mid _ _ _ => accepts_increase a hσ now ops mid,
    fun _ => redelivery_after a hσ now ops,
    fun _ mid _ _ skip => conflict_refused a hσ now ops mid skip⟩

/-- In `completing`, the result is accepted. -/
theorem accepts_completing : Accepts deployed "i1" (result 1) (World.after deployed seed 0 (completing.take 2))
    (.request (.callback "i1" "result" (result 1)) unlocked) := by
  let w := World.after deployed seed 0 (completing.take 2)
  have hfence : (caseOf w.store "i1").map (fun c => (c.job.owner, c.job.generation, c.job.state,
      c.job.lease_until.any fun lease => w.now < lease)) = some (some "w1", 1, .running, true) := by decide
  have hdone : (caseOf (World.after deployed seed 0 completing).store "i1").map (·.job.state) = some .done := by
    decide
  obtain ⟨c, hc, hfence⟩ := Option.map_eq_some_iff.mp hfence
  obtain ⟨c', hc', hdone⟩ := Option.map_eq_some_iff.mp hdone
  simp only [Prod.mk.injEq] at hfence
  obtain ⟨howner, hgeneration, hstate, hlease⟩ := hfence
  exact ⟨unlocked, c, c', rfl, hc, hc', ⟨howner, by rw [hgeneration]; rfl, hstate, hlease⟩, hdone⟩

theorem lease_fencing_completing :
    ¬ (World.after deployed seed 0 completing).Commits deployed
      (.callback "i1" "result" { result 1 with Status := "partial" }) unlocked := by
  have hhash : deployed.Hash ({ result 1 with Status := "partial" } : Callback).marshal ≠
      deployed.Hash (result 1).marshal := by decide
  exact ((lease_fencing deployed seed_initial 0 (completing.take 2) "i1").2.2.2.2 _ [] _ _ unlocked
    accepts_completing hhash le_rfl).1

/-- The investigation is resumed and claimed again. -/
def rerunning : List Op :=
  completing ++ [.request (.resume "i1" "请更新") unlocked, .request (.claim "w1") unlocked]

/-- After a resume and a claim, the identifier of an accepted result is accepted
with another payload. -/
theorem callback_id_reused_rerunning :
    let b : Callback := { result 2 with Status := "partial" }
    let w := World.after deployed seed 0 rerunning
    Accepts deployed "i1" (result 1) (World.after deployed seed 0 (completing.take 2))
        (.request (.callback "i1" "result" (result 1)) unlocked) ∧
      b.CallbackID = (result 1).CallbackID ∧ deployed.Hash b.marshal ≠ deployed.Hash (result 1).marshal ∧
      w.Commits deployed (.callback "i1" "result" b) unlocked ∧
      World.step deployed w (.request (.callback "i1" "result" b) unlocked) ≠ w := by
  intro b w
  have hhash : deployed.Hash b.marshal ≠ deployed.Hash (result 1).marshal := by decide
  have hstate : (w.store.lookup (Key.jobs "i1")).map (·.state) = some .running := by decide
  have hdone : ((World.step deployed w (.request (.callback "i1" "result" b) unlocked)).store.lookup
      (Key.jobs "i1")).map (·.state) = some .done := by decide
  have hchanged : World.step deployed w (.request (.callback "i1" "result" b) unlocked) ≠ w := by
    intro hsame
    rw [hsame, hstate] at hdone
    cases hdone
  refine ⟨accepts_completing, rfl, hhash, ?_, hchanged⟩
  obtain ⟨σ', hrun, -⟩ | ⟨-, hsame⟩ := World.step_request deployed w (.callback "i1" "result" b) unlocked
  · exact ⟨σ', hrun⟩
  · exact absurd hsame hchanged

end incidentdesk
