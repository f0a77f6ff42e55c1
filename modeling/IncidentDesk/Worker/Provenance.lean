import IncidentDesk.Seed
import IncidentDesk.Worker.Process

namespace incidentdesk.process

open sql
open log_store (InYears)
open ContextCache (keyText)

variable {β : Type} {a : App} {d : Deployment β}

section Task

variable {σ σ' : Store} {w : World} {t : Task} {tool : String} {skip : Key → Bool}

/-- What an authorization says about a task when its service is at a watermark. -/
def scopeAt (t : Task) (watermark : Nat) : Scope :=
  { subject := t.subject, team := t.team, service := t.service, query := t.query, start := t.start
    end_ := t.end_, watermark }

/-- A watermark that the service of a task has had since the task was handed out. -/
def Seen (σ : Store) (t : Task) (v : Nat) : Prop :=
  ∃ c, caseOf σ t.id = some c ∧ t.Held c ∧ t.source_version ≤ v ∧ v ≤ c.service.watermark

/-- Memories that the service at a watermark has for a task. -/
def Shown (t : Task) (v : Nat) (memories : List (String × Memory)) : Prop :=
  ∀ m ∈ memories, m.2.service = t.service ∧ m.2.team = t.team ∧ m.2.status = .confirmed ∧ m.2.source_version = v

/-- Nothing that a task rests on is taken from it. -/
def Onward (σ σ' : Store) : Prop := ∀ t v, Seen σ t v → Seen σ' t v

theorem Onward.refl (σ : Store) : Onward σ σ := fun _ _ h => h

theorem onward_step (hw : w.Sound) (a : App) (op : Op) : Onward w.store (World.step a w op).store := by
  rintro t v ⟨c, hc, hheld, hle, hv⟩
  obtain ⟨c', hc', hkept⟩ := hw.case_kept a op hc
  obtain ⟨c'', hc'', hheld'⟩ := hw.case_held a op hc hheld
  obtain rfl := Option.some.inj (hc'.symm.trans hc'')
  exact ⟨c', hc', hheld', hle, hv.trans hkept.watermark⟩

/-- What is answered is what the rows say. -/
theorem authorized_reply (hw : w.Sound) {c : Case} (hc : caseOf w.store t.id = some c) {reply : Reply}
    (h : authorized a w t tool skip = some reply) : reply = c.reply w.now w.store t.id (asks t tool) := by
  unfold authorized at h
  split at h
  · rename_i answer σ' hrun
    obtain rfl := Option.some.inj h
    obtain ⟨c', hc', -, hreply⟩ := authorize_reply hw.wf t.id (asks t tool) _ _ hrun
    obtain rfl := Option.some.inj (hc.symm.trans hc')
    exact hreply
  · cases h

theorem authorized_scope (hw : w.Sound) (hseen : Seen w.store t t.source_version) {reply : Reply}
    (h : authorized a w t "context" skip = some reply) : ∃ v, scopeOf reply = some (scopeAt t v) ∧ Seen w.store t v := by
  obtain ⟨c, hc, hheld, -, hwatermark⟩ := hseen
  refine ⟨c.service.watermark, ?_, c, hc, hheld, hwatermark, le_rfl⟩
  rw [authorized_reply hw hc h, Case.reply, if_neg (by simp [asks])]
  simp only [scopeOf, scopeAt, hheld.subject, hheld.team, hheld.service, hheld.query, hheld.start, hheld.stop]

theorem authorized_memories (hw : w.Sound) (hseen : Seen w.store t t.source_version) {reply : Reply}
    (h : authorized a w t "memory" skip = some reply) : ∃ v, Seen w.store t v ∧ Shown t v (memoriesOf reply) := by
  obtain ⟨c, hc, hheld, -, hwatermark⟩ := hseen
  refine ⟨c.service.watermark, ⟨c, hc, hheld, hwatermark, le_rfl⟩, ?_⟩
  rw [authorized_reply hw hc h, Case.reply, if_pos (show (asks t "memory").Tool = "memory" from rfl)]
  intro m hm
  change m ∈ (taskMemories w.now w.store t.id).getD [] at hm
  cases hmemories : taskMemories w.now w.store t.id with
  | none =>
    rw [hmemories] at hm
    cases hm
  | some memories =>
    rw [hmemories] at hm
    have hfound := taskMemories_mem hc hmemories hm
    rwa [hheld.service, hheld.team] at hfound

end Task

section Produced

variable (a d) (c₀ : Cluster β)

/-- A worker takes a task, as the run `n`. -/
def Starts (n : Nat) (t : Task) (c : Cluster β) (act : Act β) : Prop :=
  ∃ owner baseline skip, act = .claim owner baseline skip ∧ Cluster.taken a c.world owner skip = some t ∧
    n = c.runs.length

/-- The run `n` ends its assembly with a bundle. -/
def Assembles (n : Nat) (bundle : β) (c : Cluster β) (act : Act β) : Prop :=
  ∃ r skip, act = .assemble n bundle skip ∧ c.runs[n]? = some r ∧ r.stage = .assembling

/-- A run on a task has begun. -/
abbrev Began (acts : List (Act β)) (n : Nat) (t : Task) : Prop :=
  machine.Occurs (Cluster.step a d) (Starts a n t) c₀ acts

/-- A run on a task has begun, and has ended its assembly with a bundle. -/
def Produced (acts : List (Act β)) (n : Nat) (t : Task) (bundle : β) : Prop :=
  ∃ pre act post, acts = pre ++ act :: post ∧ Starts a n t (machine.run (Cluster.step a d) c₀ pre) act ∧
    machine.Occurs (Cluster.step a d) (Assembles n bundle) (machine.run (Cluster.step a d) c₀ (pre ++ [act])) post

/-- A bundle was produced for a task whose key, at the watermark that it was handed out
at, is the key of this one. -/
def Traced (acts : List (Act β)) (t : Task) (v : Nat) (bundle : β) : Prop :=
  ∃ n t', Produced a d c₀ acts n t' bundle ∧
    d.sha256 (keyText t (scopeAt t v)) = d.sha256 (keyText t' (scopeAt t' t'.source_version))

/-- What a run has found for its task. -/
structure Found (acts : List (Act β)) (σ : Store) (t : Task) (context : Context β) : Prop where
  bundle : ∃ v, Seen σ t v ∧ Traced a d c₀ acts t v context.bundle
  memories : ∃ v, Seen σ t v ∧ Shown t v context.memories

/-- What a run on a task of this investigation has found, from the sources that the
checkpoint names. -/
def Recovered (acts : List (Act β)) (σ : Store) (id : String) (saved : Saved β) : Prop :=
  ∃ t, t.id = id ∧ t.source_version = saved.source_version ∧ Found a d c₀ acts σ t saved.context

/-- What holds of a run where it stands. -/
def Good (acts : List (Act β)) (σ : Store) (n : Nat) (t : Task) : Stage β → Prop
  | .started | .opening | .reading | .assembling | .ended => True
  | .recovering previous | .rechecking previous => Recovered a d c₀ acts σ t.id previous
  | .looking scope => ∃ v, scope = scopeAt t v ∧ Seen σ t v
  | .remembering cached => ∃ v, Seen σ t v ∧ Traced a d c₀ acts t v cached.bundle
  | .storing fresh => Produced a d c₀ acts n t fresh.bundle ∧ Found a d c₀ acts σ t fresh
  | .inserting scope fresh =>
    scope = scopeAt t t.source_version ∧ Produced a d c₀ acts n t fresh.bundle ∧ Found a d c₀ acts σ t fresh
  | .gathered context | .reporting context => Found a d c₀ acts σ t context

variable {a d c₀} {acts : List (Act β)} {σ σ' : Store} {n : Nat} {t t' : Task} {v : Nat} {bundle : β}

theorem Produced.of_began (hbegan : Began a d c₀ acts n t) {act : Act β}
    (h : Assembles n bundle (machine.run (Cluster.step a d) c₀ acts) act) :
    Produced a d c₀ (acts ++ [act]) n t bundle := by
  obtain ⟨pre, start, post, rfl, hstarts⟩ := hbegan
  refine ⟨pre, start, post ++ [act], by simp, hstarts, machine.occurs_concat.mpr (.inr ?_)⟩
  rw [← machine.run_append]
  simpa using h

theorem Produced.grow (h : Produced a d c₀ acts n t bundle) (act : Act β) :
    Produced a d c₀ (acts ++ [act]) n t bundle := by
  obtain ⟨pre, start, post, rfl, hstarts, hassembles⟩ := h
  exact ⟨pre, start, post ++ [act], by simp, hstarts, machine.occurs_concat.mpr (.inl hassembles)⟩

theorem Produced.traced (h : Produced a d c₀ acts n t bundle) : Traced a d c₀ acts t t.source_version bundle :=
  ⟨n, t, h, rfl⟩

theorem Traced.grow (h : Traced a d c₀ acts t v bundle) (act : Act β) : Traced a d c₀ (acts ++ [act]) t v bundle := by
  obtain ⟨n, t', hproduced, hkey⟩ := h
  exact ⟨n, t', hproduced.grow act, hkey⟩

theorem Found.grow {context : Context β} (h : Found a d c₀ acts σ t context) (act : Act β) :
    Found a d c₀ (acts ++ [act]) σ t context where
  bundle := by
    obtain ⟨v, hseen, htraced⟩ := h.bundle
    exact ⟨v, hseen, htraced.grow act⟩
  memories := h.memories

theorem Found.onward {context : Context β} (h : Found a d c₀ acts σ t context) (hσ : Onward σ σ') :
    Found a d c₀ acts σ' t context where
  bundle := by
    obtain ⟨v, hseen, htraced⟩ := h.bundle
    exact ⟨v, hσ t v hseen, htraced⟩
  memories := by
    obtain ⟨v, hseen, hshown⟩ := h.memories
    exact ⟨v, hσ t v hseen, hshown⟩

theorem Recovered.grow {id : String} {saved : Saved β} (h : Recovered a d c₀ acts σ id saved) (act : Act β) :
    Recovered a d c₀ (acts ++ [act]) σ id saved := by
  obtain ⟨t, hid, hsource, hfound⟩ := h
  exact ⟨t, hid, hsource, hfound.grow act⟩

theorem Recovered.onward {id : String} {saved : Saved β} (h : Recovered a d c₀ acts σ id saved) (hσ : Onward σ σ') :
    Recovered a d c₀ acts σ' id saved := by
  obtain ⟨t, hid, hsource, hfound⟩ := h
  exact ⟨t, hid, hsource, hfound.onward hσ⟩

theorem Good.grow {stage : Stage β} (h : Good a d c₀ acts σ n t stage) (act : Act β) :
    Good a d c₀ (acts ++ [act]) σ n t stage := by
  cases stage with
  | started | opening | reading | assembling | ended => trivial
  | recovering | rechecking => exact Recovered.grow h act
  | looking => exact h
  | remembering =>
    obtain ⟨v, hseen, htraced⟩ := h
    exact ⟨v, hseen, htraced.grow act⟩
  | storing => exact ⟨h.1.grow act, h.2.grow act⟩
  | inserting => exact ⟨h.1, h.2.1.grow act, h.2.2.grow act⟩
  | gathered | reporting => exact Found.grow h act

theorem Good.onward {stage : Stage β} (h : Good a d c₀ acts σ n t stage) (hσ : Onward σ σ') :
    Good a d c₀ acts σ' n t stage := by
  cases stage with
  | started | opening | reading | assembling | ended => trivial
  | recovering | rechecking => exact Recovered.onward h hσ
  | looking =>
    obtain ⟨v, hscope, hseen⟩ := h
    exact ⟨v, hscope, hσ t v hseen⟩
  | remembering =>
    obtain ⟨v, hseen, htraced⟩ := h
    exact ⟨v, hσ t v hseen, htraced⟩
  | storing => exact ⟨h.1, h.2.onward hσ⟩
  | inserting => exact ⟨h.1, h.2.1, h.2.2.onward hσ⟩
  | gathered | reporting => exact Found.onward h hσ

/-- What a run on one task of an investigation has found can be used by a run on
another one, if both were handed out at the same watermark. -/
theorem Recovered.found {saved : Saved β} (h : Recovered a d c₀ acts σ t.id saved)
    (hseen : Seen σ t t.source_version) (hsource : saved.source_version = t.source_version) :
    Found a d c₀ acts σ t saved.context := by
  obtain ⟨t', hid, hsource', hbundle, hmemories⟩ := h
  obtain ⟨c, hc, hheld, -, -⟩ := hseen
  have hsame {v : Nat} (hseen' : Seen σ t' v) : Seen σ t v ∧ t'.Alike t := by
    obtain ⟨c', hc', hheld', hle, hv⟩ := hseen'
    rw [hid, hc] at hc'
    obtain rfl := Option.some.inj hc'
    exact ⟨⟨c, hc, hheld, by rwa [← hsource, ← hsource'], hv⟩, hheld'.alike hheld⟩
  constructor
  · obtain ⟨v, hseen', n, t'', hproduced, hkey⟩ := hbundle
    obtain ⟨hseen, halike⟩ := hsame hseen'
    refine ⟨v, hseen, n, t'', hproduced, ?_⟩
    rw [← hkey]
    simp only [keyText, scopeAt, halike.subject, halike.team, halike.service, halike.query, halike.start, halike.stop]
  · obtain ⟨v, hseen', hshown⟩ := hmemories
    obtain ⟨hseen, halike⟩ := hsame hseen'
    refine ⟨v, hseen, fun m hm => ?_⟩
    rw [← halike.service, ← halike.team]
    exact hshown m hm

end Produced

/-- What holds of every reachable cluster. -/
structure Sound (a : App) (d : Deployment β) (c₀ : Cluster β) (acts : List (Act β)) (c : Cluster β) : Prop where
  world : c.world.Sound
  began : ∀ (n : Nat) (r : Run β), c.runs[n]? = some r → Began a d c₀ acts n r.task
  seen : ∀ (n : Nat) (r : Run β), c.runs[n]? = some r → Seen c.world.store r.task r.task.source_version
  /-- No two runs are on the same task. -/
  apart : ∀ (m n : Nat) (r r' : Run β), c.runs[m]? = some r → c.runs[n]? = some r' → r.task.id = r'.task.id →
    r.task.generation = r'.task.generation → m = n
  stage : ∀ (n : Nat) (r : Run β), c.runs[n]? = some r → Good a d c₀ acts c.world.store n r.task r.stage
  cache : ∀ e ∈ c.cache, ∃ n t, Produced a d c₀ acts n t e.2.bundle.bundle ∧
    e.1 = d.sha256 (keyText t (scopeAt t t.source_version))
  saved : ∀ e ∈ c.saved, Recovered a d c₀ acts c.world.store e.1.1 e.2 ∧ ∃ (n : Nat) (r : Run β), c.runs[n]? = some r ∧
    (r.task.id, r.task.generation) = e.1 ∧ r.task.source_version = e.2.source_version

namespace Sound

variable {c₀ c : Cluster β} {acts : List (Act β)} {n : Nat} {r : Run β} {skip : Key → Bool}

theorem grow (h : Sound a d c₀ acts c) (act : Act β) : Sound a d c₀ (acts ++ [act]) c where
  world := h.world
  began n r hr := machine.occurs_concat.mpr (.inl (h.began n r hr))
  seen := h.seen
  apart := h.apart
  stage n r hr := (h.stage n r hr).grow act
  cache e he := by
    obtain ⟨n, t, hproduced, hkey⟩ := h.cache e he
    exact ⟨n, t, hproduced.grow act, hkey⟩
  saved e he := ⟨(h.saved e he).1.grow act, (h.saved e he).2⟩

theorem stepWorld (h : Sound a d c₀ acts c) (op : Op) :
    Sound a d c₀ acts { c with world := World.step a c.world op } where
  world := (h.world.step op).1
  began := h.began
  seen n r hr := onward_step h.world a op _ _ (h.seen n r hr)
  apart := h.apart
  stage n r hr := (h.stage n r hr).onward (onward_step h.world a op)
  cache := h.cache
  saved e he := ⟨(h.saved e he).1.onward (onward_step h.world a op), (h.saved e he).2⟩

/-- The runs after a run has gone to another stage. -/
theorem getElem?_setStage {m : Nat} {stage : Stage β} {r : Run β} (hr : (c.setStage n stage).runs[m]? = some r) :
    ∃ r', c.runs[m]? = some r' ∧ r.task = r'.task ∧ (r.stage = r'.stage ∨ m = n ∧ r.stage = stage) := by
  rw [Cluster.setStage, List.getElem?_modify] at hr
  obtain ⟨r', hr', rfl⟩ := Option.map_eq_some_iff.mp hr
  refine ⟨r', hr', ?_⟩
  by_cases hn : n = m
  · simp [hn]
  · simp [hn]

theorem setStage (h : Sound a d c₀ acts c) (hr : c.runs[n]? = some r) {stage : Stage β}
    (hstage : Good a d c₀ acts c.world.store n r.task stage) : Sound a d c₀ acts (c.setStage n stage) where
  world := h.world
  began m r hr := by
    obtain ⟨r', hr', htask, -⟩ := getElem?_setStage hr
    rw [htask]
    exact h.began m r' hr'
  seen m r hr := by
    obtain ⟨r', hr', htask, -⟩ := getElem?_setStage hr
    rw [htask]
    exact h.seen m r' hr'
  apart m m' r₁ r₂ hr₁ hr₂ := by
    obtain ⟨r₁', hr₁', htask₁, -⟩ := getElem?_setStage hr₁
    obtain ⟨r₂', hr₂', htask₂, -⟩ := getElem?_setStage hr₂
    rw [htask₁, htask₂]
    exact h.apart m m' r₁' r₂' hr₁' hr₂'
  stage m r' hr' := by
    obtain ⟨r'', hr'', htask, hsame | ⟨rfl, hstage'⟩⟩ := getElem?_setStage hr'
    · rw [htask, hsame]
      exact h.stage m r'' hr''
    · obtain rfl := Option.some.inj (hr.symm.trans hr'')
      rw [htask, hstage']
      exact hstage
  cache := h.cache
  saved e he := by
    obtain ⟨hrecovered, m, r', hr', hkey, hsource⟩ := h.saved e he
    refine ⟨hrecovered, m, ?_⟩
    rw [Cluster.setStage, List.getElem?_modify, hr']
    refine ⟨_, rfl, ?_⟩
    by_cases hn : n = m <;> simp [hn, hkey, hsource]

/-- A run goes on with what it is answered. -/
theorem ask (h : Sound a d c₀ acts c) (hr : c.runs[n]? = some r) {tool : String} {next : Reply → Stage β}
    (hnext : ∀ reply, authorized a c.world r.task tool skip = some reply →
      Good a d c₀ acts c.world.store n r.task (next reply)) :
    Sound a d c₀ acts (c.ask a n r.task tool skip next) := by
  refine setStage (h.stepWorld _) hr ?_
  refine Good.onward ?_ (onward_step h.world a _)
  cases hreply : authorized a c.world r.task tool skip with
  | none => trivial
  | some reply => exact hnext reply hreply

theorem save (h : Sound a d c₀ acts c) (hr : c.runs[n]? = some r) {saved : Saved β}
    (hrecovered : Recovered a d c₀ acts c.world.store r.task.id saved)
    (hsource : saved.source_version = r.task.source_version) : Sound a d c₀ acts (c.save r.task saved) where
  world := h.world
  began := h.began
  seen := h.seen
  apart := h.apart
  stage := h.stage
  cache := h.cache
  saved e he := by
    obtain rfl | he := dict.mem_put he
    · exact ⟨hrecovered, n, r, hr, rfl, hsource.symm⟩
    · exact h.saved e he

theorem withCache (h : Sound a d c₀ acts c) {cache : ContextCache.Table (Context β)}
    (hcache : ∀ e ∈ cache, e ∈ c.cache ∨ ∃ n t, Produced a d c₀ acts n t e.2.bundle.bundle ∧
      e.1 = d.sha256 (keyText t (scopeAt t t.source_version))) : Sound a d c₀ acts { c with cache } where
  world := h.world
  began := h.began
  seen := h.seen
  apart := h.apart
  stage := h.stage
  cache e he := by
    obtain he | hproduced := hcache e he
    · exact h.cache e he
    · exact hproduced
  saved := h.saved

/-- The checkpoint of a run's own generation is one that the run can go on from. -/
theorem found_of_saved (h : Sound a d c₀ acts c) (hr : c.runs[n]? = some r) {saved : Saved β}
    (hsaved : c.saved.lookup (r.task.id, r.task.generation) = some saved) :
    Found a d c₀ acts c.world.store r.task saved.context := by
  obtain ⟨hrecovered, m, r', hr', hkey, hsource⟩ := h.saved _ (dict.mem_of_lookup hsaved)
  obtain ⟨hid, hgeneration⟩ := Prod.mk.inj hkey
  obtain rfl := h.apart m n r' r hr' hr hid hgeneration
  obtain rfl := Option.some.inj (hr.symm.trans hr')
  exact hrecovered.found (h.seen m r hr) hsource.symm

/-- The next step of a run keeps what holds of the cluster. -/
theorem go (h : Sound a d c₀ acts c) (hr : c.runs[n]? = some r) (skip : Key → Bool) :
    Sound a d c₀ acts (c.go a d n r skip) := by
  have hgood := h.stage n r hr
  have hseen := h.seen n r hr
  unfold Cluster.go
  cases hstage : r.stage with
  | started =>
    refine h.setStage hr ?_
    unfold Cluster.start
    split
    · cases hsaved : c.saved.lookup (r.task.id, r.task.generation - 1) with
      | none => trivial
      | some previous => exact (h.saved _ (dict.mem_of_lookup hsaved)).1
    · trivial
  | recovering previous =>
    rw [hstage] at hgood
    exact h.ask hr fun _ _ => hgood
  | rechecking previous =>
    rw [hstage] at hgood
    dsimp only
    split
    · rename_i hrecovers
      have hsource : previous.source_version = r.task.source_version := by
        obtain ⟨scope, -, hscope⟩ := (Option.any_eq_true _ _).mp hrecovers
        simp only [Bool.and_eq_true, decide_eq_true_eq] at hscope
        exact hscope.2.trans hscope.1
      exact (h.save hr hgood hsource).ask hr fun _ _ => trivial
    · exact h.ask hr fun _ _ => trivial
  | opening =>
    refine h.setStage hr ?_
    split
    · trivial
    · cases hsaved : c.saved.lookup (r.task.id, r.task.generation) with
      | none => trivial
      | some saved => exact h.found_of_saved hr hsaved
  | reading =>
    refine h.ask hr fun reply hreply => ?_
    obtain ⟨v, hscope, hv⟩ := authorized_scope h.world hseen hreply
    rw [hscope]
    exact ⟨v, rfl, hv⟩
  | looking scope =>
    rw [hstage] at hgood
    obtain ⟨v, rfl, hv⟩ := hgood
    have hevicted : Sound a d c₀ acts { c with cache := ContextCache.evict c.cache (scopeAt r.task v) } :=
      h.withCache fun e he => .inl (List.mem_of_mem_filter he)
    refine hevicted.setStage hr ?_
    dsimp only
    split
    · rename_i cached hselect
      obtain ⟨row, hrow, hcached⟩ := Option.bind_eq_some_iff.mp hselect
      obtain ⟨m, t, hproduced, hkey⟩ := hevicted.cache _ (dict.mem_of_lookup hrow)
      split_ifs at hcached
      obtain rfl := Option.some.inj hcached
      exact ⟨v, hv, m, t, hproduced, hkey⟩
    · trivial
  | remembering cached =>
    rw [hstage] at hgood
    refine h.ask hr fun reply hreply => ?_
    exact ⟨hgood, authorized_memories h.world hseen hreply⟩
  | assembling | reporting | ended => exact h
  | storing fresh =>
    rw [hstage] at hgood
    refine h.ask hr fun reply hreply => ?_
    obtain ⟨v, hscope, -⟩ := authorized_scope h.world hseen hreply
    rw [hscope]
    dsimp only [Option.elim]
    split
    · rename_i hv
      exact ⟨congrArg (scopeAt r.task) hv, hgood⟩
    · trivial
  | inserting scope fresh =>
    rw [hstage] at hgood
    obtain ⟨rfl, hproduced, hfound⟩ := hgood
    have hgathered : Good a d c₀ acts c.world.store n r.task (.gathered fresh) := hfound
    let key := ContextCache.key d.sha256 r.task (scopeAt r.task r.task.source_version)
    let cache := ContextCache.upsert c.world.now c.cache key (scopeAt r.task r.task.source_version) fresh
    have hinserted : Sound a d c₀ acts { c with cache } := h.withCache fun e he => by
      obtain rfl | he := dict.mem_put he
      · refine .inr ⟨n, r.task, ?_, rfl⟩
        dsimp only
        split <;> exact hproduced
      · exact .inl he
    exact hinserted.setStage hr hgathered
  | gathered context =>
    rw [hstage] at hgood
    have hfound : Found a d c₀ acts c.world.store r.task context := hgood
    have hreporting : Good a d c₀ acts c.world.store n r.task (.reporting context) := hgood
    exact setStage (h.save hr ⟨r.task, rfl, rfl, hfound⟩ rfl) hr hreporting

/-- A task that is taken is on a new generation, and its service is at the watermark
that it names. -/
theorem taken (h : Sound a d c₀ acts c) {owner : String} {t : Task}
    (htaken : Cluster.taken a c.world owner skip = some t) : (InYears t.start ∧ InYears t.end_) ∧
      (∃ c', caseOf (World.step a c.world (.request (.claim owner) skip)).store t.id = some c' ∧ t.Held c' ∧
        c'.service.watermark = t.source_version) ∧
      ∀ (n : Nat) (r : Run β), c.runs[n]? = some r → r.task.id = t.id → r.task.generation < t.generation := by
  unfold Cluster.taken at htaken
  split at htaken
  · rename_i task σ' hrun
    split_ifs at htaken with hyears
    obtain rfl := Option.some.inj htaken
    obtain ⟨old, c', hold, hc', hheld, hlt, hwatermark⟩ := claim_task h.world.wf owner _ _ hrun task rfl
    have hstore : (World.step a c.world (.request (.claim owner) skip)).store = σ' :=
      World.store_of_discard rfl hrun
    refine ⟨hyears, ⟨c', by rwa [hstore], hheld, hwatermark⟩, fun n r hr hid => ?_⟩
    obtain ⟨c'', hc'', hheld', -, -⟩ := h.seen n r hr
    rw [hid] at hc''
    obtain rfl := Option.some.inj (hold.symm.trans hc'')
    exact hheld'.generation.trans_lt hlt
  · cases htaken

/-- A run begins that is on a generation of its own. -/
theorem addRun (h : Sound a d c₀ acts c) {t : Task} {baseline : Bool}
    (hseen : Seen c.world.store t t.source_version) (hbegan : Began a d c₀ acts c.runs.length t)
    (hlt : ∀ (n : Nat) (r : Run β), c.runs[n]? = some r → r.task.id = t.id → r.task.generation < t.generation) :
    Sound a d c₀ acts { c with runs := c.runs ++ [{ task := t, baseline, stage := .started }] } := by
  have hcases {m : Nat} {r : Run β} (hr : (c.runs ++ [{ task := t, baseline, stage := .started }])[m]? = some r) :
      c.runs[m]? = some r ∨ m = c.runs.length ∧ r = { task := t, baseline, stage := .started } := by
    by_cases hm : m < c.runs.length
    · rw [List.getElem?_append_left hm] at hr
      exact .inl hr
    · rw [List.getElem?_append_right (by omega), List.getElem?_singleton] at hr
      split_ifs at hr
      exact .inr ⟨by omega, (Option.some.inj hr).symm⟩
  constructor
  case world => exact h.world
  case began =>
    intro m r hr
    obtain hr | ⟨rfl, rfl⟩ := hcases hr
    · exact h.began m r hr
    · exact hbegan
  case seen =>
    intro m r hr
    obtain hr | ⟨rfl, rfl⟩ := hcases hr
    · exact h.seen m r hr
    · exact hseen
  case apart =>
    intro m m' r r' hr hr' hid hgeneration
    obtain hr | ⟨rfl, rfl⟩ := hcases hr <;> obtain hr' | ⟨rfl, rfl⟩ := hcases hr'
    · exact h.apart m m' r r' hr hr' hid hgeneration
    · exact absurd hgeneration (hlt m r hr hid).ne
    · exact absurd hgeneration.symm (hlt m' r' hr' hid.symm).ne
    · rfl
  case stage =>
    intro m r hr
    obtain hr | ⟨rfl, rfl⟩ := hcases hr
    · exact h.stage m r hr
    · trivial
  case cache => exact h.cache
  case saved =>
    intro e he
    obtain ⟨hrecovered, m, r, hr, hkey⟩ := h.saved e he
    obtain ⟨hm, -⟩ := List.getElem?_eq_some_iff.mp hr
    exact ⟨hrecovered, m, r, (List.getElem?_append_left hm).trans hr, hkey⟩

/-- Every step keeps what holds of the cluster. -/
theorem step (h : Sound a d c₀ acts (machine.run (Cluster.step a d) c₀ acts)) (act : Act β) :
    Sound a d c₀ (acts ++ [act]) (Cluster.step a d (machine.run (Cluster.step a d) c₀ acts) act) := by
  have hgrow := h.grow act
  generalize hc : machine.run (Cluster.step a d) c₀ acts = c at h hgrow
  cases act with
  | world op => exact hgrow.stepWorld op
  | claim owner baseline skip =>
    have hworld := hgrow.stepWorld (.request (.claim owner) skip)
    simp only [Cluster.step, Cluster.request]
    cases htaken : Cluster.taken a c.world owner skip with
    | none => simpa using hworld
    | some t =>
      obtain ⟨-, ⟨c', hc', hheld, hwatermark⟩, hlt⟩ := h.taken htaken
      refine hworld.addRun ⟨c', hc', hheld, le_rfl, hwatermark.ge⟩ ?_ hlt
      exact machine.occurs_concat.mpr (.inr ⟨owner, baseline, skip, rfl, by rwa [hc], by rw [hc]⟩)
  | go n skip =>
    simp only [Cluster.step]
    cases hr : c.runs[n]? with
    | none => exact hgrow
    | some r => exact hgrow.go hr skip
  | assemble n bundle skip =>
    simp only [Cluster.step]
    cases hr : c.runs[n]? with
    | none => exact hgrow
    | some r =>
      simp only [Option.map_some, Option.getD_some, Cluster.assembled]
      split
      · rename_i hstage
        refine hgrow.ask hr fun reply hreply => ?_
        have hproduced : Produced a d c₀ (acts ++ [.assemble n bundle skip]) n r.task bundle :=
          .of_began (h.began n r hr) ⟨r, skip, rfl, by rw [hc, hr], hstage⟩
        have hseen := h.seen n r hr
        have hfound : Found a d c₀ (acts ++ [.assemble n bundle skip]) c.world.store r.task
            { bundle, memories := memoriesOf reply } :=
          ⟨⟨_, hseen, hproduced.traced⟩, authorized_memories h.world hseen hreply⟩
        split
        · exact hfound
        · exact ⟨hproduced, hfound⟩
      · exact hgrow
  | submit n b skip =>
    simp only [Cluster.step]
    cases hr : c.runs[n]? with
    | none => exact hgrow
    | some r =>
      simp only [Option.map_some, Option.getD_some, Cluster.submit]
      split
      · exact hgrow.stepWorld _
      · exact hgrow
  | crash n =>
    simp only [Cluster.step]
    cases hr : c.runs[n]? with
    | none =>
      rw [Cluster.setStage, List.modify_eq_self (by simpa using hr)]
      exact hgrow
    | some r => exact hgrow.setStage hr trivial

end Sound

theorem currentWatermark_eq {σ : Store} {id : String} {c : Case} (hc : caseOf σ id = some c) :
    currentWatermark σ c.investigation.service = c.service.watermark := by
  rw [currentWatermark, (caseOf_eq_some.mp hc).2.2.1, Option.map_some, Option.getD_some]

section Run

variable (a d) {σ : Store} (hσ : Initial σ) (now : Time)

include hσ

theorem sound_after (acts : List (Act β)) : Sound a d (Cluster.init σ now) acts (Cluster.after a d σ now acts) := by
  refine machine.run_induction (P := fun acts c => Sound a d (Cluster.init σ now) acts c) ?_
    (fun acts act h => h.step act) acts
  have hworld : (World.init σ now).Sound := World.sound_after (a := a) hσ now []
  constructor
  case world => exact hworld
  all_goals simp [Cluster.init]

/-- An investigation that is there stays there, with its service at no earlier watermark. -/
theorem kept_after (acts acts' : List (Act β)) {id : String} {c : Case}
    (hc : caseOf (Cluster.after a d σ now acts).world.store id = some c) :
    ∃ c', caseOf (Cluster.after a d σ now (acts ++ acts')).world.store id = some c' ∧ c.Kept c' := by
  induction acts' using List.reverseRecOn with
  | nil => exact ⟨c, by rwa [List.append_nil], .refl c⟩
  | append_singleton acts' act ih =>
    obtain ⟨c', hc', hkept⟩ := ih
    rw [← List.append_assoc, Cluster.after, machine.run_concat]
    have hw := (sound_after a d hσ now (acts ++ acts')).world
    obtain hsame | ⟨op, hstep⟩ := Cluster.world_step a d (Cluster.after a d σ now (acts ++ acts')) act
    · exact ⟨c', by rwa [hsame], hkept⟩
    · obtain ⟨c'', hc'', hkept'⟩ := hw.case_kept a op hc'
      exact ⟨c'', by rwa [hstep], hkept.trans hkept'⟩

/-- When its run begins, the service of a task is at the watermark that it names. -/
theorem watermark_of_starts {pre : List (Act β)} {act : Act β} {n : Nat} {t : Task}
    (h : Starts a n t (Cluster.after a d σ now pre) act) : (InYears t.start ∧ InYears t.end_) ∧
      ∃ c, caseOf (Cluster.after a d σ now (pre ++ [act])).world.store t.id = some c ∧ t.Held c ∧
        c.service.watermark = t.source_version := by
  obtain ⟨owner, baseline, skip, rfl, htaken, -⟩ := h
  obtain ⟨hyears, hcase, -⟩ := (sound_after a d hσ now pre).taken htaken
  refine ⟨hyears, ?_⟩
  rw [Cluster.after, machine.run_concat]
  exact hcase

/-- If the service of a task is still at the watermark that the task names, it has been at
it since the run began. -/
theorem watermark_since {pre mid more : List (Act β)} {act : Act β} {n : Nat} {t : Task}
    (h : Starts a n t (Cluster.after a d σ now pre) act)
    (hnow : currentWatermark (Cluster.after a d σ now (pre ++ act :: (mid ++ more))).world.store t.service =
      t.source_version) :
    currentWatermark (Cluster.after a d σ now (pre ++ act :: mid)).world.store t.service = t.source_version := by
  obtain ⟨-, c, hc, hheld, hwatermark⟩ := watermark_of_starts a d hσ now h
  obtain ⟨c', hc', hkept⟩ := kept_after a d hσ now (pre ++ [act]) mid hc
  obtain ⟨c'', hc'', hkept'⟩ := kept_after a d hσ now (pre ++ [act] ++ mid) more hc'
  rw [show pre ++ act :: mid = pre ++ [act] ++ mid by simp]
  rw [show pre ++ act :: (mid ++ more) = pre ++ [act] ++ mid ++ more by simp] at hnow
  have hservice : c'.investigation.service = t.service := hkept.service.trans hheld.service
  rw [← hservice, currentWatermark_eq hc']
  rw [← hservice, ← hkept'.service, currentWatermark_eq hc''] at hnow
  have hle := hkept.watermark
  have hle' := hkept'.watermark
  omega

/-- Over every run of workers, with crashes at any point: a result that is accepted reports
a bundle that was assembled, by this run or by another one, on a task about the same, and
from when that task was handed out until now the sources have been at the watermark that
this task names, unless the texts of the two cache keys collide. The memories that it
reports are of its service and team, confirmed, and from these sources. -/
theorem accepted_provenance (acts : List (Act β)) {n : Nat} {r : Run β} {context : Context β} {b : Callback}
    {skip : Key → Bool} (hr : (Cluster.after a d σ now acts).runs[n]? = some r) (hstage : r.stage = .reporting context)
    (haccepts : Accepts a r.task.id (resultOf d r.task context b) (Cluster.after a d σ now acts).world
      (.request (.callback r.task.id "result" (resultOf d r.task context b)) skip)) :
    let t := r.task
    (∃ c, caseOf (Cluster.after a d σ now (acts ++ [.submit n b skip])).world.store t.id = some c ∧
        c.investigation.report = some (d.report context).value) ∧
      Shown t t.source_version context.memories ∧
      ∃ pre act post n' t', acts = pre ++ act :: post ∧ Starts a n' t' (Cluster.after a d σ now pre) act ∧
        machine.Occurs (Cluster.step a d) (Assembles n' context.bundle) (Cluster.after a d σ now (pre ++ [act])) post ∧
        (ContextCache.Collision d.sha256 (keyText t (scopeAt t t.source_version))
            (keyText t' (scopeAt t' t'.source_version)) ∨
          t.Alike t' ∧ ∀ mid more, post = mid ++ more →
            currentWatermark (Cluster.after a d σ now (pre ++ act :: mid)).world.store t.service = t.source_version) := by
  intro t
  have hsound := sound_after a d hσ now acts
  obtain ⟨c, hc, hheld, -, -⟩ := hsound.seen n r hr
  obtain ⟨hwatermark, hreport⟩ : c.service.watermark = t.source_version ∧ _ :=
    haccepts.held hsound.world rfl hc hheld
  have hfound : Found a d (Cluster.init σ now) acts (Cluster.after a d σ now acts).world.store t context := by
    have hgood := hsound.stage n r hr
    rwa [hstage] at hgood
  -- Whatever the run has seen of its service was this watermark.
  have hseen {v : Nat} (h : Seen (Cluster.after a d σ now acts).world.store t v) : v = t.source_version := by
    obtain ⟨c', hc', -, hle, hv⟩ := h
    obtain rfl := Option.some.inj (hc.symm.trans hc')
    omega
  refine ⟨?_, ?_, ?_⟩
  · rw [Cluster.after, machine.run_concat]
    change ∃ c, caseOf (Cluster.step a d (Cluster.after a d σ now acts) (.submit n b skip)).world.store t.id = _ ∧ _
    simp only [Cluster.step, hr, Option.map_some, Option.getD_some, Cluster.submit, hstage]
    exact hreport
  · obtain ⟨v, hv, hshown⟩ := hfound.memories
    rwa [← hseen hv]
  · obtain ⟨v, hv, n', t', ⟨pre, act, post, rfl, hstarts, hassembles⟩, hkey⟩ := hfound.bundle
    obtain rfl := hseen hv
    refine ⟨pre, act, post, n', t', rfl, hstarts, hassembles, ?_⟩
    by_cases htext : keyText t (scopeAt t t.source_version) = keyText t' (scopeAt t' t'.source_version)
    · obtain ⟨_, _, _, -, hstarts'⟩ := hsound.began n r hr
      obtain ⟨⟨hstart, hend⟩, -⟩ := watermark_of_starts a d hσ now hstarts'
      obtain ⟨⟨hstart', hend'⟩, -⟩ := watermark_of_starts a d hσ now hstarts
      obtain ⟨hsubject, hteam, hservice, hstart, hend, hsource, hquery⟩ :=
        ContextCache.keyText_inj hstart hend hstart' hend' htext
      have hservice : t.service = t'.service := hservice
      have hsource : t.source_version = t'.source_version := hsource
      refine .inr ⟨⟨hsubject, hteam, hservice, hquery, hstart, hend⟩, ?_⟩
      rintro mid more rfl
      have hnow : currentWatermark (Cluster.after a d σ now (pre ++ act :: (mid ++ more))).world.store t'.service =
          t'.source_version := by
        rw [← hservice, ← hsource, ← hheld.service, currentWatermark_eq hc, hwatermark]
      rw [hservice, hsource]
      exact watermark_since a d hσ now hstarts hnow
    · exact .inl ⟨htext, hkey⟩

end Run

/-- Digests that keep the whole text, and a report without findings. -/
def reports : Deployment String where
  sha256 := id
  report _ := { value := .obj [("evidence", .arr []), ("facts", .arr []), ("candidates", .arr [])], size := 42 }

/-- An investigation is made and taken up, and its bundle is assembled and cached. -/
def assembling : List (Act String) :=
  [.world (.request (.createTask "alice" symptom "h1" "k1" "i1" "r1") unlocked), .claim "w1" false unlocked,
    .go 0 unlocked, .go 0 unlocked, .go 0 unlocked, .go 0 unlocked, .assemble 0 "bundle" unlocked, .go 0 unlocked,
    .go 0 unlocked, .go 0 unlocked]

/-- The context that a run is about to report. -/
def Stage.reported : Stage β → Option (Context β)
  | .reporting context => some context
  | _ => none

theorem accepted_provenance_assembling : ∃ r context,
    (Cluster.after deployed reports seed 0 assembling).runs[0]? = some r ∧ r.stage = .reporting context ∧
      context.bundle = "bundle" ∧ Shown r.task r.task.source_version context.memories := by
  let c := Cluster.after deployed reports seed 0 assembling
  have hrun : (c.runs[0]?.map fun r => (r.task.id, r.task.owner, r.task.generation,
      r.stage.reported.map fun context => context.bundle)) = some ("i1", some "w1", 1, some "bundle") := by
    decide +kernel
  have hfence : (caseOf c.world.store "i1").map (fun found => (found.job.owner, found.job.generation, found.job.state,
      found.job.lease_until.any fun lease => c.world.now < lease)) = some (some "w1", 1, .running, true) := by
    decide +kernel
  let op : Op := .request (.callback "i1" "result" (result 1)) unlocked
  have hdone : (caseOf (World.step deployed c.world op).store "i1").map (fun found => found.job.state) = some .done := by
    decide +kernel
  obtain ⟨r, hr, hrun⟩ := Option.map_eq_some_iff.mp hrun
  obtain ⟨found, hfound, hfence⟩ := Option.map_eq_some_iff.mp hfence
  obtain ⟨done, hc', hdone⟩ := Option.map_eq_some_iff.mp hdone
  simp only [Prod.mk.injEq] at hrun hfence
  obtain ⟨hid, howner, hgeneration, hreported⟩ := hrun
  obtain ⟨context, hcontext, hbundle⟩ := Option.map_eq_some_iff.mp hreported
  have hstage : r.stage = .reporting context := by
    cases hstage : r.stage <;> rw [hstage] at hcontext <;> cases hcontext
    rfl
  have hresult : resultOf reports r.task context (result 1) = result 1 := by
    simp only [resultOf, howner, hgeneration]
    rfl
  have haccepts : Accepts deployed r.task.id (resultOf reports r.task context (result 1)) c.world
      (.request (.callback r.task.id "result" (resultOf reports r.task context (result 1))) unlocked) := by
    rw [hresult, hid]
    exact ⟨unlocked, found, done, rfl, hfound, hc', ⟨hfence.1, by rw [hfence.2.1]; rfl, hfence.2.2.1, hfence.2.2.2⟩, hdone⟩
  exact ⟨r, context, hr, hstage, hbundle,
    (accepted_provenance deployed reports seed_initial 0 assembling hr hstage haccepts).2.1⟩

end incidentdesk.process
