import IncidentDesk.Worker.Artifacts

namespace incidentdesk.worker.artifacts

open Client (Act)

variable {α : Type}

/-- Where a call is. -/
inductive Phase (α : Type) where
  | staging (task : String) (scope : Scope) (data : α)
  | uploading (key : Key) (data : α)
  | publishing (key : Key) (data : α)
  | selecting (task : String) (scope : Scope) (key : Key)
  | fetching (task : String) (scope : Scope) (key : Key) (row : Row)
  | choosing (days : Nat)
  | deleting (keys rest : List Key)
  | ended (result : Except String (Result α))

section Phases

variable (kit : Kit α) (n : Nat)

def Phase.start : Call α → Phase α
  | .put task (.ok scope) data => .staging task scope data
  | .get task (.ok scope) key => .selecting task scope key
  | .put _ (.error e) _ | .get _ (.error e) _ => .ended (.error e)
  | .cleanup days => .choosing days

/-- What it asks for next. -/
def Phase.request : Phase α → Option Request
  | .staging task scope data => some
      (.insert { team := scope.team, task, uuid := n } task scope.team scope.watermark (kit.sha256 (kit.dumps data)))
  | .uploading key data => some (.put_object key (kit.dumps data))
  | .publishing key _ => some (.update key)
  | .selecting _ _ key => some (.select key)
  | .fetching _ _ key _ => some (.get_object key)
  | .choosing days => some (.select_old days)
  | .deleting _ (key :: _) => some (.delete_object key)
  | .deleting keys [] => some (.delete keys)
  | .ended _ => none

/-- Where a reply takes it. -/
def Phase.reply : Phase α → Reply → Phase α
  | .staging task scope data, _ => .uploading { team := scope.team, task, uuid := n } data
  | .uploading key data, _ => .publishing key data
  | .publishing key data, _ => .ended (.ok (.pointer key (kit.sha256 (kit.dumps data)) .ready))
  | .selecting task scope key, reply =>
    match reply.row with
    | some row =>
      if (row.task, row.team, row.watermark) ≠ (task, scope.team, scope.watermark) ∨ row.state ≠ .ready then
        .ended (.error "artifact_unavailable")
      else .fetching task scope key row
    | none => .ended (.error "artifact_unavailable")
  | .fetching _ _ _ row, reply =>
    if kit.sha256 reply.body ≠ row.digest then .ended (.error "artifact_integrity")
    else .ended ((kit.loads reply.body).map .data)
  | .choosing _, reply => .deleting reply.keys reply.keys
  | .deleting keys (_ :: rest), _ => .deleting keys rest
  | .deleting keys [], _ => .ended (.ok (.deleted keys.length))
  | .ended result, _ => .ended result

def Phase.next (p : Phase α) : Except String Reply → Phase α
  | .ok reply => p.reply kit n reply
  | .error e => .ended (.error e)

/-- What is left of its script. -/
def Phase.client : Phase α → Client Request Reply (Except String (Result α))
  | .staging task scope data => (artifacts.put kit task (.ok scope) n data).run
  | .uploading key data => ExceptT.run do
      let _ ← Client.ask (.put_object key (kit.dumps data))
      let _ ← Client.ask (.update key)
      return .pointer key (kit.sha256 (kit.dumps data)) .ready
  | .publishing key data => ExceptT.run do
      let _ ← Client.ask (.update key)
      return .pointer key (kit.sha256 (kit.dumps data)) .ready
  | .selecting task scope key => (artifacts.get kit task (.ok scope) key).run
  | .fetching _ _ key row => ExceptT.run do
      let raw := (← Client.ask (.get_object key)).body
      if kit.sha256 raw ≠ row.digest then
        throw "artifact_integrity"
      return .data (← liftM (kit.loads raw))
  | .choosing days => (artifacts.cleanup days).run
  | .deleting keys rest => ExceptT.run do
      rest.forM fun key => do
        let _ ← Client.ask (.delete_object key)
      let _ ← Client.ask (.delete keys)
      return .deleted keys.length
  | .ended result => .done result

theorem start_client (call : Call α) : (call.script kit n).run = (Phase.start call).client kit n := by
  cases call with
  | put task authorized data => cases authorized <;> rfl
  | get task authorized key => cases authorized <;> rfl
  | cleanup days => rfl

theorem stages (kit : Kit α) : Client.Stages (fun n (p : Phase α) => p.client kit n) (fun n p => p.request kit n)
    (fun n p answer => p.next kit n answer) := by
  intro n p
  cases p with
  | ended result => exact .inl ⟨⟨result, rfl⟩, rfl⟩
  | staging | uploading | publishing =>
    refine .inr ⟨_, rfl, congrArg (Client.call _) (funext ?_)⟩
    rintro (e | reply) <;> rfl
  | selecting task scope key =>
    refine .inr ⟨_, rfl, congrArg (Client.call _) (funext ?_)⟩
    rintro (e | ⟨row, body, keys⟩)
    · rfl
    · cases row with
      | none => rfl
      | some row =>
        dsimp only [Phase.next, Phase.reply]
        split_ifs with hrow
        · exact (if_pos hrow).trans rfl
        · exact (if_neg hrow).trans rfl
  | fetching task scope key row =>
    refine .inr ⟨_, rfl, congrArg (Client.call _) (funext ?_)⟩
    rintro (e | reply)
    · rfl
    · dsimp only [Phase.next, Phase.reply]
      split_ifs with hdigest
      · exact (if_pos hdigest).trans rfl
      · refine (if_neg hdigest).trans ?_
        cases kit.loads reply.body <;> rfl
  | choosing days =>
    refine .inr ⟨_, rfl, congrArg (Client.call _) (funext ?_)⟩
    rintro (e | reply) <;> rfl
  | deleting keys rest =>
    cases rest with
    | nil =>
      refine .inr ⟨_, rfl, congrArg (Client.call _) (funext ?_)⟩
      rintro (e | reply) <;> rfl
    | cons key rest =>
      refine .inr ⟨_, rfl, congrArg (Client.call _) (funext ?_)⟩
      rintro (e | reply) <;> rfl

end Phases

section Sound

variable {kit : Kit α} {calls : List (Call α)} {system : System α} {phases : List (Phase α)}

/-- A put has staged a row. -/
def Staged (kit : Kit α) (calls : List (Call α)) (key : Key) (row : Row) : Prop :=
  ∃ scope data, calls[key.uuid]? = some (.put key.task (.ok scope) data) ∧ scope.team = key.team ∧
    row.task = key.task ∧ row.team = key.team ∧ row.watermark = scope.watermark ∧
    row.digest = kit.sha256 (kit.dumps data)

/-- A put has stored an object. -/
def Uploaded (kit : Kit α) (calls : List (Call α)) (key : Key) (body : String) : Prop :=
  ∃ scope data, calls[key.uuid]? = some (.put key.task (.ok scope) data) ∧ scope.team = key.team ∧
    body = kit.dumps data

/-- What a get may return: what a put has stored for the same task, team and watermark. -/
def Returned (kit : Kit α) (calls : List (Call α)) (n : Nat) (result : α) : Prop :=
  ∃ scope key scope' data, calls[n]? = some (.get key.task (.ok scope) key) ∧
    calls[key.uuid]? = some (.put key.task (.ok scope') data) ∧ scope'.team = scope.team ∧
    scope'.watermark = scope.watermark ∧ kit.loads (kit.dumps data) = .ok result

/-- A phase belongs to its call. -/
def Phase.Of (kit : Kit α) (calls : List (Call α)) (n : Nat) : Phase α → Prop
  | .staging task scope data => calls[n]? = some (.put task (.ok scope) data)
  | .uploading key data | .publishing key data =>
    key.uuid = n ∧ ∃ scope, calls[n]? = some (.put key.task (.ok scope) data) ∧ scope.team = key.team
  | .selecting task scope key => calls[n]? = some (.get task (.ok scope) key)
  | .fetching task scope key row => calls[n]? = some (.get task (.ok scope) key) ∧ Staged kit calls key row ∧
    (row.task, row.team, row.watermark) = (task, scope.team, scope.watermark)
  | .ended (.ok (.data result)) => Returned kit calls n result
  | .choosing _ | .deleting _ _ | .ended _ => True

/-- What is stored, and what is returned of it, was put. -/
structure Sound (kit : Kit α) (calls : List (Call α)) (system : System α) (phases : List (Phase α)) : Prop where
  clients : system.clients = phases.mapIdx fun n p => p.client kit n
  rows : ∀ entry ∈ system.store.rows, Staged kit calls entry.1 entry.2
  objects : ∀ entry ∈ system.store.objects, Uploaded kit calls entry.1 entry.2
  phases : ∀ n (p : Phase α), phases[n]? = some p → p.Of kit calls n

theorem of_set {F : Nat → Phase α → Prop} {n : Nat} {p : Phase α} (hp : F n p)
    (h : ∀ m q, m ≠ n → phases[m]? = some q → F m q) (m : Nat) (q : Phase α)
    (hq : (phases.set n p)[m]? = some q) : F m q := by
  rw [List.getElem?_set] at hq
  split_ifs at hq with heq hlt
  · obtain rfl := Option.some.inj hq
    exact heq ▸ hp
  · exact h m q (fun hm => heq hm.symm) hq

theorem row_eq_some {s : Stores} {key : Key} {row : Row} (h : s.row key = some row) :
    s.rows.lookup key = some row ∧ row.deleted = false := by
  obtain ⟨hrow, hdeleted⟩ := Option.filter_eq_some_iff.mp h
  exact ⟨hrow, by simpa using hdeleted⟩

/-- What is staged stays so under a statement that keeps all but the state. -/
theorem staged_change {s : Stores} {key : Key} {f : Row → Row}
    (hf : ∀ row, (f row).task = row.task ∧ (f row).team = row.team ∧ (f row).watermark = row.watermark ∧
      (f row).digest = row.digest)
    (h : ∀ entry ∈ s.rows, Staged kit calls entry.1 entry.2) :
    ∀ entry ∈ (s.change key f).rows, Staged kit calls entry.1 entry.2 := by
  unfold Stores.change
  cases hrow : s.row key with
  | none => exact h
  | some row =>
    intro entry hentry
    obtain rfl | hentry := dict.mem_put hentry
    · obtain ⟨scope, data, hcall, hteam, hrow⟩ := h _ (dict.mem_of_lookup (row_eq_some hrow).1)
      obtain ⟨htask, hteam', hwatermark, hdigest⟩ := hf row
      exact ⟨scope, data, hcall, hteam, by rw [htask, hteam', hwatermark, hdigest]; exact hrow⟩
    · exact h entry hentry

theorem staged_delete {keys : List Key} {s : Stores} (h : ∀ entry ∈ s.rows, Staged kit calls entry.1 entry.2) :
    ∀ entry ∈ (serve (.delete keys) s).2.rows, Staged kit calls entry.1 entry.2 := by
  change ∀ entry ∈ (keys.foldl _ s).rows, _
  induction keys generalizing s with
  | nil => exact h
  | cons key keys ih => exact ih (staged_change (fun _ => ⟨rfl, rfl, rfl, rfl⟩) h)

@[simp] theorem objects_change (s : Stores) (key : Key) (f : Row → Row) : (s.change key f).objects = s.objects := by
  unfold Stores.change
  cases s.row key <;> rfl

@[simp] theorem now_change (s : Stores) (key : Key) (f : Row → Row) : (s.change key f).now = s.now := by
  unfold Stores.change
  cases s.row key <;> rfl

theorem objects_delete (keys : List Key) (s : Stores) : (serve (.delete keys) s).2.objects = s.objects := by
  change (keys.foldl _ s).objects = _
  induction keys generalizing s with
  | nil => rfl
  | cons key keys ih => exact (ih _).trans (objects_change s key _)

/-- A request of a call keeps what is stored put. -/
theorem serve_sound {s : Stores} {n : Nat} {p : Phase α} {request : Request}
    (hrows : ∀ entry ∈ s.rows, Staged kit calls entry.1 entry.2)
    (hobjects : ∀ entry ∈ s.objects, Uploaded kit calls entry.1 entry.2) (hp : p.Of kit calls n)
    (hrequest : p.request kit n = some request) :
    (∀ entry ∈ (serve request s).2.rows, Staged kit calls entry.1 entry.2) ∧
      (∀ entry ∈ (serve request s).2.objects, Uploaded kit calls entry.1 entry.2) ∧
      (p.next kit n (serve request s).1).Of kit calls n := by
  cases p with
  | staging task scope data =>
    obtain rfl := Option.some.inj hrequest
    simp only [serve]
    split_ifs
    · exact ⟨hrows, hobjects, trivial⟩
    · refine ⟨fun entry hentry => ?_, hobjects, rfl, scope, hp, rfl⟩
      obtain rfl | hentry := dict.mem_put hentry
      · exact ⟨scope, data, hp, rfl, rfl, rfl, rfl, rfl⟩
      · exact hrows entry hentry
  | uploading key data =>
    obtain rfl := Option.some.inj hrequest
    obtain ⟨rfl, scope, hcall, hteam⟩ := hp
    refine ⟨hrows, fun entry hentry => ?_, rfl, scope, hcall, hteam⟩
    obtain rfl | hentry := dict.mem_put hentry
    · exact ⟨scope, data, hcall, hteam, rfl⟩
    · exact hobjects entry hentry
  | publishing key data =>
    obtain rfl := Option.some.inj hrequest
    refine ⟨staged_change (fun _ => ⟨rfl, rfl, rfl, rfl⟩) hrows, ?_, trivial⟩
    change ∀ entry ∈ (s.change key _).objects, _
    rwa [objects_change]
  | selecting task scope key =>
    obtain rfl := Option.some.inj hrequest
    refine ⟨hrows, hobjects, ?_⟩
    change Phase.Of kit calls n (Phase.reply kit n (.selecting task scope key) { row := s.row key })
    cases hrow : s.row key with
    | none => exact trivial
    | some row =>
      dsimp only [Phase.reply]
      split_ifs with hdenied
      · exact trivial
      · refine ⟨hp, hrows _ (dict.mem_of_lookup (row_eq_some hrow).1), ?_⟩
        by_contra hscope
        exact hdenied (.inl hscope)
  | fetching task scope key row =>
    obtain rfl := Option.some.inj hrequest
    obtain ⟨hcall, hstaged, hscope⟩ := hp
    simp only [serve]
    cases hobject : s.objects.lookup key with
    | none => exact ⟨hrows, hobjects, trivial⟩
    | some body =>
      refine ⟨hrows, hobjects, ?_⟩
      obtain ⟨scope', data, hput, hteam, htask, hrow, hwatermark, -⟩ := hstaged
      obtain ⟨scope'', data', hput', -, hbody⟩ := hobjects _ (dict.mem_of_lookup hobject)
      obtain ⟨-, rfl⟩ : scope' = scope'' ∧ data = data' := by simpa using hput.symm.trans hput'
      simp only [Prod.mk.injEq] at hscope
      obtain ⟨rfl, hscopeTeam, hscopeWatermark⟩ := hscope
      dsimp only [Phase.next, Phase.reply]
      split_ifs
      · exact trivial
      · cases hloads : kit.loads body with
        | error e => exact trivial
        | ok result =>
          refine ⟨scope, key, scope', data, htask ▸ hcall, hput, ?_, ?_, hbody ▸ hloads⟩
          · rw [hteam, ← hrow, hscopeTeam]
          · rw [← hwatermark, hscopeWatermark]
  | choosing days =>
    obtain rfl := Option.some.inj hrequest
    exact ⟨hrows, hobjects, trivial⟩
  | deleting keys rest =>
    cases rest with
    | nil =>
      obtain rfl := Option.some.inj hrequest
      refine ⟨staged_delete hrows, ?_, trivial⟩
      rwa [objects_delete]
    | cons key rest =>
      obtain rfl := Option.some.inj hrequest
      exact ⟨hrows, fun entry hentry => hobjects entry (List.mem_of_mem_filter hentry), trivial⟩
  | ended result => cases hrequest

theorem Sound.step (h : Sound kit calls system phases) (op : Op) :
    ∃ phases', Sound kit calls (step system op) phases' := by
  cases op with
  | pass time => exact ⟨phases, h.clients, h.rows, h.objects, h.phases⟩
  | act act =>
    obtain hsame | ⟨p, r, answer, store, hp, hrequest, hstep, hstore⟩ :=
      Client.System.step_stages serve (stages kit) h.clients act
    · exact ⟨phases, by rw [artifacts.step, hsame]; exact h⟩
    have hof := h.phases _ p hp
    obtain ⟨hrows, hobjects, hnext⟩ := serve_sound h.rows h.objects hof hrequest
    refine ⟨phases.set act.client (p.next kit act.client answer), ?_⟩
    rw [artifacts.step, hstep]
    obtain ⟨-, rfl, rfl | ⟨e, rfl⟩⟩ | ⟨rfl, e, rfl⟩ := hstore
    · exact ⟨rfl, hrows, hobjects, of_set hnext fun m q _ hq => h.phases m q hq⟩
    · exact ⟨rfl, hrows, hobjects, of_set trivial fun m q _ hq => h.phases m q hq⟩
    · exact ⟨rfl, h.rows, h.objects, of_set trivial fun m q _ hq => h.phases m q hq⟩

/-- Calls that have not begun. -/
theorem Sound.start (kit : Kit α) (calls : List (Call α)) :
    Sound kit calls (after kit calls []) (calls.map Phase.start) where
  clients := by
    refine List.ext_getElem? fun n => ?_
    change (calls.mapIdx _)[n]? = _
    rw [List.getElem?_mapIdx, List.getElem?_mapIdx, List.getElem?_map]
    cases calls[n]? with
    | none => rfl
    | some call => exact congrArg some (start_client kit n call)
  rows := fun entry hentry => by cases hentry
  objects := fun entry hentry => by cases hentry
  phases := by
    intro n p hp
    rw [List.getElem?_map] at hp
    obtain ⟨call, hcall, rfl⟩ := Option.map_eq_some_iff.mp hp
    cases call with
    | put task authorized data =>
      cases authorized with
      | error e => exact trivial
      | ok scope => exact hcall
    | get task authorized key =>
      cases authorized with
      | error e => exact trivial
      | ok scope => exact hcall
    | cleanup days => exact trivial

theorem sound_after (kit : Kit α) (calls : List (Call α)) (ops : List Op) :
    ∃ phases, Sound kit calls (after kit calls ops) phases := by
  refine machine.run_invariant (I := fun system : System α => ∃ phases, Sound kit calls system phases)
    ⟨_, Sound.start kit calls⟩ ?_ ops
  rintro system op ⟨phases, hsound⟩
  exact hsound.step op

/-- What a get returns is what a put has stored for the same task, under a scope with
the same team and watermark, whatever calls run at once, fail, crash or clean up. -/
theorem get_returns_what_was_put (kit : Kit α) (calls : List (Call α)) (ops : List Op) {n : Nat} {result : α}
    (h : (after kit calls ops).clients[n]? = some (.done (.ok (.data result)))) : Returned kit calls n result := by
  obtain ⟨phases, hsound⟩ := sound_after kit calls ops
  rw [hsound.clients, List.getElem?_mapIdx] at h
  obtain ⟨p, hp, hdone⟩ := Option.map_eq_some_iff.mp h
  obtain ⟨-, hnone⟩ | ⟨r, -, hcall⟩ := stages kit n p
  · have hof := hsound.phases n p hp
    cases p with
    | ended answer =>
      obtain rfl : answer = .ok (.data result) := Client.done.inj hdone
      exact hof
    | deleting keys rest => cases rest <;> cases hnone
    | _ => cases hnone
  · cases hcall.symm.trans hdone

def putThenGet : List (Call String) :=
  [.put "t1" (.ok { team := "core", watermark := 1 }) "a",
    .get "t1" (.ok { team := "core", watermark := 1 }) { team := "core", task := "t1", uuid := 0 }]

theorem get_returns_what_was_put_one : Returned { dumps := id, loads := .ok, sha256 := id } putThenGet 1 "a" :=
  get_returns_what_was_put _ putThenGet
    [.act (.answer 0), .act (.answer 0), .act (.answer 0), .act (.answer 1), .act (.answer 1)] rfl

end Sound

section Tidy

variable {kit : Kit α} {system : System α} {phases : List (Phase α)} {s s' : Stores} {key : Key}

/-- A row that was staged more than an hour ago. -/
def Stores.Expired (s : Stores) (key : Key) : Prop :=
  ∃ row, s.rows.lookup key = some row ∧ row.created_at < s.now - datetime.hour

/-- What is known of the stores where a call is. -/
def Phase.Knows (s : Stores) (n : Nat) : Phase α → Prop
  | .staging task scope _ => s.rows.lookup { team := scope.team, task, uuid := n } = none
  | .uploading key _ => ∃ row, s.rows.lookup key = some row
  | .choosing days => 0 < days
  | .deleting keys rest => ∀ key ∈ keys, s.Expired key ∧ (key ∉ rest → key ∉ s.objects.map Prod.fst)
  | _ => True

/-- Each object has its row, and a row that was deleted had expired. -/
structure Stores.Tidy (s : Stores) : Prop where
  deleted : ∀ key row, s.rows.lookup key = some row → row.deleted = true → s.Expired key
  objects : ∀ key ∈ s.objects.map Prod.fst, ∃ row, s.rows.lookup key = some row ∧ row.deleted = false

structure Tidy (kit : Kit α) (system : System α) (phases : List (Phase α)) : Prop where
  clients : system.clients = phases.mapIdx fun n p => p.client kit n
  store : system.store.Tidy
  phases : ∀ n (p : Phase α), phases[n]? = some p → p.Knows system.store n

/-- The row of the object that a call is about to upload. -/
def uploads (system : System α) (n : Nat) : Option Row :=
  match system.clients[n]? with
  | some (.call (.put_object key _) _) => system.store.rows.lookup key
  | _ => none

/-- An upload comes to the bucket within an hour after its row was staged. -/
def Prompt (system : System α) : Op → Prop
  | .act act => act.arrives = true → ∀ row ∈ uploads system act.client,
    system.store.now ≤ row.created_at + datetime.hour
  | .pass _ => True

instance (system : System α) (op : Op) : Decidable (Prompt system op) :=
  match op with
  | .act _ => inferInstanceAs (Decidable (_ → _))
  | .pass _ => .isTrue trivial

theorem lookup_change (s : Stores) (key other : Key) (f : Row → Row) :
    (s.change key f).rows.lookup other =
      if other = key then (s.rows.lookup other).map fun row => if row.deleted then row else f row
      else s.rows.lookup other := by
  unfold Stores.change Stores.row
  cases hrow : s.rows.lookup key with
  | none =>
    dsimp only [Option.filter_none]
    split_ifs with heq
    · rw [heq, hrow, Option.map_none]
    · rfl
  | some row =>
    rw [Option.filter_some]
    cases hdeleted : row.deleted with
    | true =>
      rw [Bool.not_true, if_neg Bool.false_ne_true]
      split_ifs with heq
      · rw [heq, hrow, Option.map_some, hdeleted]
        rfl
      · rfl
    | false =>
      rw [Bool.not_false, if_pos rfl]
      dsimp only
      rw [dict.lookup_put]
      split_ifs with heq
      · rw [heq, hrow, Option.map_some, hdeleted]
        rfl
      · rfl

/-- What a step of a call leaves to the others: rows stay, with their age; new rows have
its number; and there are no new objects of rows that have expired. -/
structure Stores.Leaves (n : Nat) (s s' : Stores) : Prop where
  now : s.now ≤ s'.now
  rows : ∀ key row, s.rows.lookup key = some row →
    ∃ row', s'.rows.lookup key = some row' ∧ row'.created_at = row.created_at
  fresh : ∀ key, key.uuid ≠ n → s.rows.lookup key = none → s'.rows.lookup key = none
  objects : ∀ key, s.Expired key → key ∈ s'.objects.map Prod.fst → key ∈ s.objects.map Prod.fst

variable {n : Nat} {p : Phase α}

theorem Stores.Expired.leaves (h : s.Expired key) (hleaves : s.Leaves n s') : s'.Expired key := by
  obtain ⟨row, hrow, hold⟩ := h
  obtain ⟨row', hrow', hcreated⟩ := hleaves.rows key row hrow
  exact ⟨row', hrow', hcreated ▸ Int.lt_of_lt_of_le hold (Int.sub_le_sub_right hleaves.now _)⟩

theorem Phase.Knows.leaves {m : Nat} {q : Phase α} (h : q.Knows s m) (hleaves : s.Leaves n s') (hne : m ≠ n) :
    q.Knows s' m := by
  cases q with
  | staging task scope data => exact hleaves.fresh _ hne h
  | uploading key data =>
    obtain ⟨row, hrow⟩ := h
    obtain ⟨row', hrow', -⟩ := hleaves.rows key row hrow
    exact ⟨row', hrow'⟩
  | choosing days => exact h
  | deleting keys rest =>
    intro key hkey
    obtain ⟨hexpired, habsent⟩ := h key hkey
    exact ⟨hexpired.leaves hleaves, fun hrest hobject => habsent hrest (hleaves.objects key hexpired hobject)⟩
  | _ => exact trivial

theorem leaves_same (hnow : s'.now = s.now) (hrows : s'.rows = s.rows)
    (hobjects : ∀ key ∈ s'.objects.map Prod.fst, key ∈ s.objects.map Prod.fst) : s.Leaves n s' where
  now := Int.le_of_eq hnow.symm
  rows key row hrow := ⟨row, by rw [hrows, hrow], rfl⟩
  fresh key _ hnone := by rw [hrows, hnone]
  objects key _ hkey := hobjects key hkey

theorem leaves_change (s : Stores) (key : Key) {f : Row → Row} (hf : ∀ row, (f row).created_at = row.created_at) :
    s.Leaves n (s.change key f) where
  now := Int.le_of_eq (now_change s key f).symm
  rows other row hrow := by
    rw [lookup_change]
    split_ifs
    · refine ⟨_, by rw [hrow, Option.map_some], ?_⟩
      split_ifs
      · rfl
      · exact hf row
    · exact ⟨row, hrow, rfl⟩
  fresh other _ hnone := by
    rw [lookup_change, hnone, Option.map_none, ite_self]
  objects other _ hother := by rwa [objects_change] at hother

theorem leaves_pass (time : Nat) : s.Leaves n { s with now := s.now + time } where
  now := Int.le_add_of_nonneg_right (Int.natCast_nonneg time)
  rows _ row hrow := ⟨row, hrow, rfl⟩
  fresh _ _ h := h
  objects _ _ h := h

theorem Stores.Leaves.trans {s'' : Stores} (h : s.Leaves n s') (h' : s'.Leaves n s'') : s.Leaves n s'' where
  now := Int.le_trans h.now h'.now
  rows key row hrow := by
    obtain ⟨row', hrow', hcreated⟩ := h.rows key row hrow
    obtain ⟨row'', hrow'', hcreated'⟩ := h'.rows key row' hrow'
    exact ⟨row'', hrow'', hcreated'.trans hcreated⟩
  fresh key hne hnone := h'.fresh key hne (h.fresh key hne hnone)
  objects key hexpired hkey := h.objects key hexpired (h'.objects key (hexpired.leaves h) hkey)

theorem leaves_delete (keys : List Key) (s : Stores) : s.Leaves n (serve (.delete keys) s).2 := by
  change s.Leaves n (keys.foldl _ s)
  induction keys generalizing s with
  | nil => exact leaves_same rfl rfl fun _ h => h
  | cons key keys ih =>
    have hfirst : s.Leaves n (s.change key fun row => { row with deleted := true }) := leaves_change s key fun _ => rfl
    exact hfirst.trans (ih _)

/-- The rows that are deleted are those of the keys. -/
theorem lookup_delete (keys : List Key) (s : Stores) (key : Key) :
    (serve (.delete keys) s).2.rows.lookup key =
      if key ∈ keys then (s.rows.lookup key).map fun row => { row with deleted := true } else s.rows.lookup key := by
  change (keys.foldl _ s).rows.lookup key = _
  induction keys generalizing s with
  | nil => rfl
  | cons first keys ih =>
    rw [List.foldl_cons, ih, lookup_change]
    by_cases heq : key = first
    · rw [if_pos heq, if_pos (List.mem_cons.mpr (.inl heq)), Option.map_map]
      have hdeleted (row : Row) : (if row.deleted = true then row else { row with deleted := true }) =
          { row with deleted := true } := by
        split_ifs with h
        · rw [← h]
        · rfl
      split_ifs
      · refine congrArg (Option.map · _) (funext fun row => ?_)
        dsimp only [Function.comp_apply]
        rw [hdeleted]
      · exact congrArg (Option.map · _) (funext hdeleted)
    · rw [if_neg heq]
      simp [heq]

/-- What `cleanup` selects has expired. -/
theorem expired_of_selected {days : Nat} (hdays : 0 < days)
    (hkey : key ∈ (s.rows.map Prod.fst).filter fun key => (s.row key).any (Row.old s.now days)) : s.Expired key := by
  obtain ⟨row, hrow, hold⟩ := (Option.any_eq_true _ _).mp (List.mem_filter.mp hkey).2
  refine ⟨row, (row_eq_some hrow).1, ?_⟩
  unfold Row.old at hold
  have hday : datetime.hour ≤ days * datetime.day := by
    have hone : (1 : Int) ≤ days := by omega
    unfold datetime.day
    unfold datetime.hour datetime.second
    omega
  simp only [Bool.or_eq_true, Bool.and_eq_true, decide_eq_true_eq] at hold
  obtain hold | ⟨-, hold⟩ := hold
  · exact Int.lt_of_lt_of_le hold (Int.sub_le_sub_left hday _)
  · exact hold

theorem ne_of_lookup {row : Row} {other : Key} (hnone : s.rows.lookup key = none)
    (hrow : s.rows.lookup other = some row) : other ≠ key := by
  rintro rfl
  cases hnone.symm.trans hrow

/-! What each statement that changes the stores does. -/

theorem leaves_insert (row : Row) (hnone : s.rows.lookup key = none) (hkey : key.uuid = n) :
    s.Leaves n { s with rows := dict.put s.rows key row } where
  now := Int.le_refl _
  rows other found hfound := ⟨found, (dict.lookup_put.trans (if_neg (ne_of_lookup hnone hfound))).trans hfound, rfl⟩
  fresh other hne hfresh := by
    have hother : other ≠ key := by
      rintro rfl
      exact hne hkey
    exact (dict.lookup_put.trans (if_neg hother)).trans hfresh
  objects _ _ h := h

theorem Stores.Tidy.insert {row : Row} (h : s.Tidy) (hnone : s.rows.lookup key = none) (hrow : row.deleted = false) :
    Stores.Tidy { s with rows := dict.put s.rows key row } where
  deleted other found hfound hdead := by
    rw [dict.lookup_put] at hfound
    split_ifs at hfound
    · obtain rfl := Option.some.inj hfound
      cases hdead.symm.trans hrow
    · exact (h.deleted other found hfound hdead).leaves (leaves_insert row hnone rfl)
  objects other hother := by
    obtain ⟨found, hfound, halive⟩ := h.objects other hother
    exact ⟨found, (dict.lookup_put.trans (if_neg (ne_of_lookup hnone hfound))).trans hfound, halive⟩

/-- A row that is young enough has not expired. -/
theorem not_expired {row : Row} (hrow : s.rows.lookup key = some row)
    (hyoung : s.now ≤ row.created_at + datetime.hour) : ¬ s.Expired key := by
  rintro ⟨row', hrow', hold⟩
  obtain rfl := Option.some.inj (hrow.symm.trans hrow')
  exact Int.not_lt.mpr (Int.sub_right_le_of_le_add hyoung) hold

theorem leaves_put_object (body : String) (hyoung : ¬ s.Expired key) :
    s.Leaves n { s with objects := dict.put s.objects key body } where
  now := Int.le_refl _
  rows _ row hrow := ⟨row, hrow, rfl⟩
  fresh _ _ h := h
  objects other hexpired hother := by
    obtain hother | rfl := dict.mem_keys_put.mp hother
    · exact hother
    · exact absurd hexpired hyoung

theorem Stores.Tidy.put_object {row : Row} {body : String} (h : s.Tidy) (hrow : s.rows.lookup key = some row)
    (hyoung : ¬ s.Expired key) : Stores.Tidy { s with objects := dict.put s.objects key body } where
  deleted := h.deleted
  objects other hother := by
    obtain hother | rfl := dict.mem_keys_put.mp hother
    · exact h.objects other hother
    · exact ⟨row, hrow, Bool.eq_false_iff.mpr fun hdead => hyoung (h.deleted _ row hrow hdead)⟩

theorem Stores.Tidy.pass (h : s.Tidy) (time : Nat) : Stores.Tidy { s with now := s.now + time } where
  deleted key row hrow hdead := (h.deleted key row hrow hdead).leaves (leaves_pass (n := 0) time)
  objects := h.objects

/-- A statement that does not delete. -/
theorem Stores.Tidy.change {f : Row → Row} (h : s.Tidy) (key : Key)
    (hf : ∀ row, (f row).created_at = row.created_at ∧ (f row).deleted = row.deleted) : (s.change key f).Tidy where
  deleted other row hrow hdead := by
    refine Stores.Expired.leaves (n := 0) ?_ (leaves_change s key fun row => (hf row).1)
    rw [lookup_change] at hrow
    split_ifs at hrow
    · obtain ⟨found, hfound, rfl⟩ := Option.map_eq_some_iff.mp hrow
      refine h.deleted other found hfound ?_
      split_ifs at hdead with hfound
      · exact hfound
      · exact (hf found).2.symm.trans hdead
    · exact h.deleted other row hrow hdead
  objects other hother := by
    rw [objects_change] at hother
    obtain ⟨row, hrow, halive⟩ := h.objects other hother
    rw [lookup_change, hrow, Option.map_some, if_neg (Bool.eq_false_iff.mp halive)]
    split_ifs
    · exact ⟨f row, rfl, (hf row).2.trans halive⟩
    · exact ⟨row, rfl, halive⟩

theorem Stores.Tidy.delete {keys : List Key} (h : s.Tidy)
    (hkeys : ∀ key ∈ keys, s.Expired key ∧ key ∉ s.objects.map Prod.fst) : (serve (.delete keys) s).2.Tidy where
  deleted key row hrow hdead := by
    refine Stores.Expired.leaves (n := 0) ?_ (leaves_delete keys s)
    rw [lookup_delete] at hrow
    split_ifs at hrow with hmem
    · exact (hkeys key hmem).1
    · exact h.deleted key row hrow hdead
  objects key hkey := by
    rw [objects_delete] at hkey
    obtain ⟨row, hrow, halive⟩ := h.objects key hkey
    rw [lookup_delete, if_neg fun hmem => (hkeys key hmem).2 hkey]
    exact ⟨row, hrow, halive⟩

theorem mem_delete_object {other : Key}
    (h : other ∈ (serve (.delete_object key) s).2.objects.map Prod.fst) :
    other ∈ s.objects.map Prod.fst ∧ other ≠ key := by
  obtain ⟨object, hobject, rfl⟩ := List.mem_map.mp h
  obtain ⟨hobject, hne⟩ := List.mem_filter.mp hobject
  exact ⟨List.mem_map_of_mem hobject, by simpa using hne⟩

/-- A request of a call leaves the stores tidy, if an upload is not late. -/
theorem serve_tidy {request : Request} (h : s.Tidy) (hp : p.Knows s n) (hrequest : p.request kit n = some request)
    (hprompt : ∀ key body row, request = .put_object key body → s.rows.lookup key = some row →
      s.now ≤ row.created_at + datetime.hour) :
    s.Leaves n (serve request s).2 ∧ (serve request s).2.Tidy ∧
      (p.next kit n (serve request s).1).Knows (serve request s).2 n := by
  cases p with
  | staging task scope data =>
    obtain rfl := Option.some.inj hrequest
    have hnone : s.row { team := scope.team, task, uuid := n } = none := by
      rw [Stores.row, hp]
      rfl
    rw [serve, hnone]
    exact ⟨leaves_insert _ hp rfl, h.insert hp rfl, _, dict.lookup_put.trans (if_pos rfl)⟩
  | uploading key data =>
    obtain rfl := Option.some.inj hrequest
    obtain ⟨row, hrow⟩ := hp
    have hyoung := not_expired hrow (hprompt key _ row rfl hrow)
    exact ⟨leaves_put_object _ hyoung, h.put_object hrow hyoung, trivial⟩
  | publishing key data =>
    obtain rfl := Option.some.inj hrequest
    exact ⟨leaves_change s key fun _ => rfl, h.change key fun _ => ⟨rfl, rfl⟩, trivial⟩
  | selecting task scope key =>
    obtain rfl := Option.some.inj hrequest
    refine ⟨leaves_same rfl rfl fun _ h => h, h, ?_⟩
    change Phase.Knows s n (Phase.reply kit n (.selecting task scope key) { row := s.row key })
    dsimp only [Phase.reply]
    cases s.row key with
    | none => exact trivial
    | some row =>
      dsimp only
      split_ifs <;> exact trivial
  | fetching task scope key row =>
    obtain rfl := Option.some.inj hrequest
    have hsame : (serve (.get_object key) s).2 = s := by
      simp only [serve]
      cases s.objects.lookup key <;> rfl
    rw [hsame]
    refine ⟨leaves_same rfl rfl fun _ h => h, h, ?_⟩
    cases (serve (.get_object key) s).1 with
    | error e => exact trivial
    | ok reply =>
      dsimp only [Phase.next, Phase.reply]
      split_ifs <;> exact trivial
  | choosing days =>
    obtain rfl := Option.some.inj hrequest
    exact ⟨leaves_same rfl rfl fun _ h => h, h,
      fun key hkey => ⟨expired_of_selected hp hkey, fun hrest => absurd hkey hrest⟩⟩
  | deleting keys rest =>
    cases rest with
    | nil =>
      obtain rfl := Option.some.inj hrequest
      refine ⟨leaves_delete keys s, h.delete fun key hkey => ?_, trivial⟩
      exact ⟨(hp key hkey).1, (hp key hkey).2 List.not_mem_nil⟩
    | cons first rest =>
      obtain rfl := Option.some.inj hrequest
      refine ⟨leaves_same rfl rfl fun key hkey => (mem_delete_object hkey).1,
        ⟨h.deleted, fun key hkey => h.objects key (mem_delete_object hkey).1⟩, fun key hkey => ?_⟩
      refine ⟨(hp key hkey).1, fun hrest hobject => ?_⟩
      obtain ⟨hobject, hne⟩ := mem_delete_object hobject
      exact (hp key hkey).2 (by simp [hne, hrest]) hobject
  | ended result => cases hrequest

/-- The row of an object that comes to the bucket is young. -/
theorem Tidy.young (h : Tidy kit system phases) {act : Act} (hprompt : Prompt system (.act act))
    (harrives : act.arrives = true) (hp : phases[act.client]? = some p) {body : String} {row : Row}
    (hrequest : p.request kit act.client = some (.put_object key body))
    (hrow : system.store.rows.lookup key = some row) : system.store.now ≤ row.created_at + datetime.hour := by
  obtain ⟨-, hnone⟩ | ⟨request, hsome, hcall⟩ := stages kit act.client p
  · cases hnone.symm.trans hrequest
  · obtain rfl := Option.some.inj (hsome.symm.trans hrequest)
    have hclient : system.clients[act.client]? = some (p.client kit act.client) := by
      rw [h.clients, List.getElem?_mapIdx, hp, Option.map_some]
    refine hprompt harrives row ?_
    rw [uploads, hclient, show p.client kit act.client = _ from hcall]
    exact hrow

theorem Tidy.step (h : Tidy kit system phases) {op : Op} (hprompt : Prompt system op) :
    ∃ phases', Tidy kit (step system op) phases' := by
  cases op with
  | pass time =>
    exact ⟨phases, h.clients, h.store.pass time,
      fun n p hp => (h.phases n p hp).leaves (leaves_pass time) (Nat.ne_of_lt (Nat.lt_succ_self n))⟩
  | act act =>
    obtain hsame | ⟨p, r, answer, store, hp, hrequest, hstep, hstore⟩ :=
      Client.System.step_stages serve (stages kit) h.clients act
    · exact ⟨phases, by rw [artifacts.step, hsame]; exact h⟩
    refine ⟨phases.set act.client (p.next kit act.client answer), ?_⟩
    rw [artifacts.step, hstep]
    obtain ⟨harrives, rfl, hanswer⟩ | ⟨rfl, e, rfl⟩ := hstore
    · have hyoung (key : Key) (body : String) (row : Row) (hr : r = .put_object key body)
          (hrow : system.store.rows.lookup key = some row) : system.store.now ≤ row.created_at + datetime.hour :=
        h.young hprompt harrives hp (hr ▸ hrequest) hrow
      obtain ⟨hleaves, htidy, hnext⟩ := serve_tidy h.store (h.phases _ p hp) hrequest hyoung
      refine ⟨rfl, htidy, of_set ?_ fun m q hne hq => (h.phases m q hq).leaves hleaves hne⟩
      obtain rfl | ⟨e, rfl⟩ := hanswer
      · exact hnext
      · exact trivial
    · exact ⟨rfl, h.store, of_set trivial fun m q _ hq => h.phases m q hq⟩

theorem Tidy.start (kit : Kit α) {calls : List (Call α)}
    (hdays : ∀ days, Call.cleanup days ∈ calls → 0 < days) :
    Tidy kit (after kit calls []) (calls.map Phase.start) where
  clients := (Sound.start kit calls).clients
  store :=
    { deleted := fun key row hrow => by cases hrow
      objects := fun key hkey => by cases hkey }
  phases := by
    intro n p hp
    rw [List.getElem?_map] at hp
    obtain ⟨call, hcall, rfl⟩ := Option.map_eq_some_iff.mp hp
    cases call with
    | put task authorized data =>
      cases authorized with
      | error e => exact trivial
      | ok scope => rfl
    | get task authorized key => cases authorized <;> exact trivial
    | cleanup days => exact hdays days (List.mem_of_getElem? hcall)

/-- As long as uploads come within an hour after their rows were staged, cleaning up
leaves no object without its row, whatever calls run at once, fail or crash. -/
theorem objects_have_rows (kit : Kit α) {calls : List (Call α)}
    (hdays : ∀ days, Call.cleanup days ∈ calls → 0 < days) {ops : List Op}
    (hprompt : machine.Always step Prompt (after kit calls []) ops) :
    ∀ object ∈ (after kit calls ops).store.objects, ((after kit calls ops).store.row object.1).isSome := by
  have hstep (system : System α) (op : Op) (h : ∃ phases, Tidy kit system phases) (hop : Prompt system op) :
      ∃ phases, Tidy kit (step system op) phases := by
    obtain ⟨phases, htidy⟩ := h
    exact htidy.step hop
  obtain ⟨phases, htidy⟩ := machine.run_invariant_along
    (I := fun system : System α => ∃ phases, Tidy kit system phases) ⟨_, Tidy.start kit hdays⟩ hstep hprompt
  intro object hobject
  obtain ⟨row, hrow, halive⟩ := htidy.store.objects _ (List.mem_map_of_mem hobject)
  change (after kit calls ops).store.rows.lookup object.1 = some row at hrow
  rw [Stores.row, hrow, Option.filter_some, halive]
  rfl

/-- A put that crashes after its upload, one that does not, and someone who cleans up
after an hour. -/
def twoPuts : List (Call String) :=
  [.put "t1" (.ok { team := "core", watermark := 1 }) "a", .cleanup 30,
    .put "t2" (.ok { team := "core", watermark := 1 }) "b"]

def plainKit : Kit String := { dumps := id, loads := .ok, sha256 := id }

def oneCrash : List Op :=
  [.act (.answer 0), .act (.lose 0 "ReadTimeout"), .pass 3600000001, .act (.answer 1), .act (.answer 2),
    .act (.answer 1), .act (.answer 2), .act (.answer 1)]

theorem objects_have_rows_crash :
    (after plainKit twoPuts oneCrash).store.objects.map Prod.fst = [{ team := "core", task := "t2", uuid := 2 }] ∧
      ∀ object ∈ (after plainKit twoPuts oneCrash).store.objects,
        ((after plainKit twoPuts oneCrash).store.row object.1).isSome := by
  refine ⟨by decide +kernel, objects_have_rows plainKit ?_ ?_⟩
  · simp [twoPuts]
  · simp only [oneCrash, machine.always_cons, machine.always_nil, and_true]
    decide +kernel

/-- An object that comes later stays without a row. -/
example :
    let late := [.act (.answer 0), .pass 3600000001, .act (.answer 1), .act (.answer 1), .act (.answer 1),
      .act (.answer 0)]
    ∃ object ∈ (after plainKit twoPuts late).store.objects,
      ((after plainKit twoPuts late).store.row object.1).isNone := by
  decide +kernel

end Tidy

end incidentdesk.worker.artifacts
