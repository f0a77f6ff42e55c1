import IncidentDesk.Machine

/-- A program that calls a service, where each call may fail. -/
inductive Client (σ β ρ : Type) where
  | done (result : ρ)
  | call (request : σ) (next : Except String β → Client σ β ρ)

namespace Client

variable {σ β ρ τ S V : Type}

protected def bind : Client σ β ρ → (ρ → Client σ β τ) → Client σ β τ
  | done result, f => f result
  | call request next, f => call request fun answer => (next answer).bind f

instance : Monad (Client σ β) where
  pure := done
  bind := Client.bind

/-- A client writes along a plan: its requests that write are those of the plan, in its
order, and there are none after an error. `Q` is true of its result and of what is
left of the plan then. -/
def Plans (writes : σ → Bool) (Q : ρ → List σ → Prop) : Client σ β ρ → List σ → Prop
  | done result, plan => Q result plan
  | call request next, plan =>
    ∃ rest, plan = (if writes request then [request] else []) ++ rest ∧
      (∀ reply, (next (.ok reply)).Plans writes Q rest) ∧ ∀ e, (next (.error e)).Plans writes Q []

section Plans

variable {writes : σ → Bool} {Q Q' : ρ → List σ → Prop} {r : Client σ β ρ} {plan : List σ}

theorem Plans.imp (h : r.Plans writes Q plan) (hQ : ∀ result rest, Q result rest → Q' result rest) :
    r.Plans writes Q' plan := by
  induction r generalizing plan with
  | done result => exact hQ result plan h
  | call request next ih =>
    obtain ⟨rest, hplan, hok, herror⟩ := h
    exact ⟨rest, hplan, fun reply => ih _ (hok reply), fun e => ih _ (herror e)⟩

theorem plans_bind {f : ρ → Client σ β τ} {Q : τ → List σ → Prop} :
    (r >>= f).Plans writes Q plan ↔ r.Plans writes (fun result rest => (f result).Plans writes Q rest) plan := by
  change (r.bind f).Plans writes Q plan ↔ _
  induction r generalizing plan with
  | done result => exact Iff.rfl
  | call request next ih =>
    refine exists_congr fun rest => and_congr Iff.rfl (and_congr ?_ ?_)
    · exact forall_congr' fun reply => ih (.ok reply)
    · exact forall_congr' fun e => ih (.error e)

end Plans

/-! A client that stops at its first error. -/

section Failing

variable {writes : σ → Bool} {m : ExceptT String (Client σ β) ρ} {requests more : List σ}

/-- What is true of a result, and nothing of an error. -/
def Unless (Q : ρ → List σ → Prop) : Except String ρ → List σ → Prop
  | .ok result, rest => Q result rest
  | .error _, _ => True

def ask (request : σ) : ExceptT String (Client σ β) β := ExceptT.mk (call request done)

/-- A client that writes some requests, if no call fails, and the first of them if one
does. -/
def Writes (writes : σ → Bool) (m : ExceptT String (Client σ β) ρ) (requests : List σ) : Prop :=
  ∀ rest, m.run.Plans writes (Unless fun _ rest' => rest' = rest) (requests ++ rest)

theorem writes_ask {request : σ} (h : writes request = true) :
    Writes writes (ask request : ExceptT String (Client σ β) β) [request] :=
  fun rest => ⟨rest, by rw [if_pos h], fun _ => rfl, fun _ => trivial⟩

theorem writes_read {request : σ} (h : writes request = false) :
    Writes writes (ask request : ExceptT String (Client σ β) β) [] :=
  fun rest => ⟨rest, by rw [if_neg (ne_true_of_eq_false h)], fun _ => rfl, fun _ => trivial⟩

theorem writes_pure {result : ρ} : Writes writes (pure result : ExceptT String (Client σ β) ρ) [] := fun _ => rfl

theorem writes_throw {e : String} : Writes writes (throw e : ExceptT String (Client σ β) ρ) requests :=
  fun _ => trivial

theorem Writes.bind {f : ρ → ExceptT String (Client σ β) τ} (hm : Writes writes m requests)
    (hf : ∀ result, Writes writes (f result) more) : Writes writes (m >>= f) (requests ++ more) := by
  intro rest
  change Plans writes _ (m.run >>= ExceptT.bindCont f) _
  rw [List.append_assoc]
  refine plans_bind.mpr ((hm _).imp ?_)
  rintro (e | result) rest' hrest
  · trivial
  · exact hrest ▸ hf result rest

/-- A client that reads first. -/
theorem Writes.read {f : ρ → ExceptT String (Client σ β) τ} (hm : Writes writes m [])
    (hf : ∀ result, Writes writes (f result) more) : Writes writes (m >>= f) more :=
  hm.bind hf

/-- A computation of its own, which may fail. -/
theorem writes_liftM {x : Except String ρ} {f : ρ → ExceptT String (Client σ β) τ}
    (hf : ∀ result, x = .ok result → Writes writes (f result) requests) :
    Writes writes (liftM x >>= f) requests := by
  cases x with
  | error e => exact fun _ => trivial
  | ok result => exact hf result rfl

/-- A loop that writes. -/
theorem writes_forM {α : Type} {f : α → ExceptT String (Client σ β) PUnit} {write : α → σ} {items : List α}
    (hf : ∀ item, Writes writes (f item) [write item]) : Writes writes (items.forM f) (items.map write) := by
  induction items with
  | nil => exact writes_pure
  | cons item items ih => exact (hf item).bind fun _ => ih

/-- A client that writes no more than some requests. -/
def Within (writes : σ → Bool) (m : ExceptT String (Client σ β) ρ) (requests : List σ) : Prop :=
  m.run.Plans writes (fun _ _ => True) requests

theorem within_pure {result : ρ} : Within writes (pure result : ExceptT String (Client σ β) ρ) requests := trivial

theorem within_throw {e : String} : Within writes (throw e : ExceptT String (Client σ β) ρ) requests := trivial

theorem Writes.within {f : ρ → ExceptT String (Client σ β) τ} (hm : Writes writes m requests)
    (hf : ∀ result, Within writes (f result) more) : Within writes (m >>= f) (requests ++ more) := by
  change Plans writes _ (m.run >>= ExceptT.bindCont f) _
  refine plans_bind.mpr ((hm more).imp ?_)
  rintro (e | result) rest' hrest
  · trivial
  · exact hrest ▸ hf result

theorem Writes.within_read {f : ρ → ExceptT String (Client σ β) τ} (hm : Writes writes m [])
    (hf : ∀ result, Within writes (f result) more) : Within writes (m >>= f) more :=
  hm.within hf

end Failing

/-- A service: its answer to a request, and how it is then. -/
abbrev Service (S σ β : Type) := σ → S → Except String β × S

/-- A service and its clients. -/
structure System (S σ β ρ : Type) where
  store : S
  clients : List (Client σ β ρ)

/-- What can happen next: a call is answered; its answer is lost; or it does not come to
the service. A client that crashes is one that does not go on. -/
inductive Act where
  | answer (n : Nat)
  | lose (n : Nat) (e : String)
  | refuse (n : Nat) (e : String)

/-- The client that an act is one of. -/
def Act.client : Act → Nat
  | .answer n | .lose n _ | .refuse n _ => n

def System.step (serve : Service S σ β) (system : System S σ β ρ) (act : Act) : System S σ β ρ :=
  match system.clients[act.client]? with
  | some (.call request next) =>
    let (answer, store) := serve request system.store
    match act with
    | .answer n => { store, clients := system.clients.set n (next answer) }
    | .lose n e => { store, clients := system.clients.set n (next (.error e)) }
    | .refuse n e => { system with clients := system.clients.set n (next (.error e)) }
  | _ => system

/-! Clients that write along plans of which only one can begin. -/

section Exclusive

variable (serve : Service S σ β) (writes : σ → Bool) (view : S → V) (effect : σ → V → V)

/-- What a request does to what is seen of the service: it has its effect if it writes
and is answered, and none otherwise. -/
structure Service.Effects : Prop where
  ok : ∀ request s reply, (serve request s).1 = .ok reply →
    view (serve request s).2 = if writes request then effect request (view s) else view s
  error : ∀ request s e, (serve request s).1 = .error e → view (serve request s).2 = view s

/-- What is seen after some requests. -/
def effects (requests : List σ) (v : V) : V := requests.foldl (fun v request => effect request v) v

variable (plan : Nat → List σ) (v₀ : V)

/-- No plan can begin when another one has. -/
def Claims : Prop :=
  ∀ owner k n request rest s, 0 < k → k ≤ (plan owner).length → plan n = request :: rest →
    view s = effects effect ((plan owner).take k) v₀ → ∃ e, (serve request s).1 = .error e

/-- A client that has not stopped writes what is left, and nothing if it has. -/
def Left (plan : List σ) (client : Client σ β ρ) : Prop :=
  client.Plans writes (fun _ _ => True) plan ∨ client.Plans writes (fun _ _ => True) []

/-- No plan has begun. -/
structure System.Free (system : System S σ β ρ) : Prop where
  view : view system.store = v₀
  clients : ∀ n client, system.clients[n]? = some client → Left writes (plan n) client

/-- One plan has come to its `k`-th write. -/
structure System.Held (owner k : Nat) (system : System S σ β ρ) : Prop where
  pos : 0 < k
  le : k ≤ (plan owner).length
  view : view system.store = effects effect ((plan owner).take k) v₀
  clients : ∀ n client, system.clients[n]? = some client →
    Left writes (if n = owner then (plan n).drop k else plan n) client

variable {serve writes view effect plan v₀} {system : System S σ β ρ} {owner k : Nat}

/-- A call of a client writes the next of its plan, if it writes. -/
theorem Left.call {p : List σ} {request : σ} {next : Except String β → Client σ β ρ}
    (h : Left writes p (.call request next)) :
    (∀ e, (next (.error e)).Plans writes (fun _ _ => True) []) ∧
      (writes request = false ∧ (∀ answer, Left writes p (next answer)) ∨
        writes request = true ∧ ∃ rest, p = request :: rest ∧
          ∀ reply, Left writes rest (next (.ok reply))) := by
  obtain ⟨rest, hplan, hok, herror⟩ | ⟨rest, hplan, hok, herror⟩ := h
  · refine ⟨herror, ?_⟩
    cases hwrites : writes request with
    | false =>
      obtain rfl : p = rest := by simpa [hwrites] using hplan
      refine .inl ⟨rfl, ?_⟩
      rintro (e | reply)
      · exact .inr (herror e)
      · exact .inl (hok reply)
    | true =>
      rw [hwrites] at hplan
      exact .inr ⟨rfl, rest, hplan, fun reply => .inl (hok reply)⟩
  · refine ⟨herror, ?_⟩
    cases hwrites : writes request with
    | false =>
      obtain rfl : [] = rest := by simpa [hwrites] using hplan
      refine .inl ⟨rfl, ?_⟩
      rintro (e | reply)
      · exact .inr (herror e)
      · exact .inr (hok reply)
    | true =>
      rw [hwrites] at hplan
      cases hplan

/-- What an act does: nothing, or a call of a client comes to the service or does not,
and the client hears of it or does not. -/
theorem System.step_cases (serve : Service S σ β) (system : System S σ β ρ) (act : Act) :
    system.step serve act = system ∨ ∃ n request next answer store,
      system.clients[n]? = some (.call request next) ∧
      system.step serve act = { store, clients := system.clients.set n (next answer) } ∧
      (store = (serve request system.store).2 ∧
          (answer = (serve request system.store).1 ∨ ∃ e, answer = .error e) ∨
        store = system.store ∧ ∃ e, answer = .error e) := by
  unfold System.step
  split
  · rename_i request next hclient
    right
    cases act with
    | answer n => exact ⟨n, request, next, _, _, hclient, rfl, .inl ⟨rfl, .inl rfl⟩⟩
    | lose n e => exact ⟨n, request, next, _, _, hclient, rfl, .inl ⟨rfl, .inr ⟨e, rfl⟩⟩⟩
    | refuse n e => exact ⟨n, request, next, _, _, hclient, rfl, .inr ⟨rfl, e, rfl⟩⟩
  · exact .inl rfl

theorem getElem?_set_cases {clients : List (Client σ β ρ)} {n j : Nat} {client new : Client σ β ρ}
    (h : (clients.set n new)[j]? = some client) : j = n ∧ client = new ∨ j ≠ n ∧ clients[j]? = some client := by
  rw [List.getElem?_set] at h
  split at h
  · rename_i heq
    split at h
    · exact .inl ⟨heq.symm, (Option.some.inj h).symm⟩
    · cases h
  · rename_i hne
    exact .inr ⟨fun heq => hne heq.symm, h⟩

/-- A call that does not write, or is not answered, changes nothing. -/
theorem Service.Effects.view_eq (heffects : Service.Effects serve writes view effect) {request : σ} {s store : S}
    {answer : Except String β}
    (h : store = (serve request s).2 ∧ (answer = (serve request s).1 ∨ ∃ e, answer = .error e) ∨
      store = s ∧ ∃ e, answer = .error e)
    (hquiet : writes request = false ∨ ∃ e, (serve request s).1 = .error e) : view store = view s := by
  obtain ⟨rfl, -⟩ | ⟨rfl, -⟩ := h
  · cases hanswer : (serve request s).1 with
    | error e => exact heffects.error request s e hanswer
    | ok reply =>
      obtain hread | ⟨e, he⟩ := hquiet
      · rw [heffects.ok request s reply hanswer, hread]
        rfl
      · rw [hanswer] at he
        cases he
  · rfl

theorem effects_take_succ {requests rest : List σ} {request : σ} (hdrop : requests.drop k = request :: rest) (v : V) :
    effects effect (requests.take (k + 1)) v = effect request (effects effect (requests.take k) v) := by
  have hlt : k < requests.length := by
    by_contra hle
    rw [List.drop_eq_nil_iff.mpr (by omega)] at hdrop
    cases hdrop
  have hget : requests[k] = request := by
    rw [List.drop_eq_getElem_cons hlt] at hdrop
    exact (List.cons.inj hdrop).1
  rw [effects, List.take_add_one, List.getElem?_eq_getElem hlt, hget, List.foldl_append]
  rfl

theorem System.Held.step (heffects : Service.Effects serve writes view effect)
    (hclaims : Claims serve view effect plan v₀) (h : system.Held writes view effect plan v₀ owner k) (act : Act) :
    ∃ k' ≥ k, (system.step serve act).Held writes view effect plan v₀ owner k' := by
  obtain hsame | ⟨n, request, next, answer, store, hclient, hstep, hstore⟩ := system.step_cases serve act
  · exact ⟨k, Nat.le_refl k, by rwa [hsame]⟩
  rw [hstep]
  have hupdate {k' : Nat} (hclient : Left writes (if n = owner then (plan n).drop k' else plan n) (next answer))
      (hothers : k' = k ∨ n = owner) (j : Nat) (client : Client σ β ρ)
      (hj : (system.clients.set n (next answer))[j]? = some client) :
      Left writes (if j = owner then (plan j).drop k' else plan j) client := by
    obtain ⟨rfl, rfl⟩ | ⟨hne, hj⟩ := getElem?_set_cases hj
    · exact hclient
    · obtain rfl | rfl := hothers
      · exact h.clients j client hj
      · have hleft := h.clients j client hj
        rw [if_neg hne] at hleft ⊢
        exact hleft
  have hquiet (hview : view store = view system.store)
      (hclient : Left writes (if n = owner then (plan n).drop k else plan n) (next answer)) :
      ∃ k' ≥ k, System.Held writes view effect plan v₀ owner k'
        { store, clients := system.clients.set n (next answer) } :=
    ⟨k, Nat.le_refl k, h.pos, h.le, hview.trans h.view, hupdate hclient (.inl rfl)⟩
  obtain ⟨hstopped, ⟨hread, hleft⟩ | ⟨hwrites, rest, hplan, hleft⟩⟩ := (h.clients n _ hclient).call
  · exact hquiet (heffects.view_eq hstore (.inl hread)) (hleft answer)
  have hstop {p : List σ} (hanswer : ∃ e, answer = .error e) : Left writes p (next answer) := by
    obtain ⟨e, rfl⟩ := hanswer
    exact .inr (hstopped e)
  have hfail (hserved : ∃ e, (serve request system.store).1 = .error e) :
      ∃ k' ≥ k, System.Held writes view effect plan v₀ owner k'
        { store, clients := system.clients.set n (next answer) } := by
    refine hquiet (heffects.view_eq hstore (.inr hserved)) (hstop ?_)
    obtain ⟨-, hanswer | hanswer⟩ | ⟨-, hanswer⟩ := hstore
    · rwa [hanswer]
    · exact hanswer
    · exact hanswer
  by_cases howner : n = owner
  · subst howner
    rw [if_pos rfl] at hplan
    cases hserved : (serve request system.store).1 with
    | error e => exact hfail ⟨e, hserved⟩
    | ok reply =>
      obtain ⟨rfl, hanswer⟩ | ⟨rfl, hanswer⟩ := hstore
      · have hlt : k < (plan n).length := by
          have hlength := congrArg List.length hplan
          rw [List.length_drop, List.length_cons] at hlength
          omega
        have hdrop : (plan n).drop (k + 1) = rest := by rw [← List.tail_drop, hplan, List.tail_cons]
        refine ⟨k + 1, Nat.le_succ k, Nat.succ_pos k, hlt, ?_, hupdate ?_ (.inr rfl)⟩
        · rw [effects_take_succ hplan, heffects.ok request _ reply hserved, if_pos hwrites, h.view]
        · rw [if_pos rfl, hdrop]
          obtain rfl | hanswer := hanswer
          · rw [hserved]
            exact hleft reply
          · exact hstop hanswer
      · exact hquiet rfl (hstop hanswer)
  · rw [if_neg howner] at hplan
    exact hfail (hclaims owner k n request rest system.store h.pos h.le hplan h.view)

theorem System.Free.step (heffects : Service.Effects serve writes view effect) (h : system.Free writes view plan v₀)
    (act : Act) : (system.step serve act).Free writes view plan v₀ ∨
      ∃ owner, (system.step serve act).Held writes view effect plan v₀ owner 1 := by
  obtain hsame | ⟨n, request, next, answer, store, hclient, hstep, hstore⟩ := system.step_cases serve act
  · exact .inl (by rwa [hsame])
  rw [hstep]
  have hquiet (hview : view store = view system.store) (hclient : Left writes (plan n) (next answer)) :
      System.Free writes view plan v₀ { store, clients := system.clients.set n (next answer) } := by
    refine ⟨hview.trans h.view, fun j client hj => ?_⟩
    obtain ⟨rfl, rfl⟩ | ⟨-, hj⟩ := getElem?_set_cases hj
    · exact hclient
    · exact h.clients j client hj
  obtain ⟨hstopped, ⟨hread, hleft⟩ | ⟨hwrites, rest, hplan, hleft⟩⟩ := (h.clients n _ hclient).call
  · exact .inl (hquiet (heffects.view_eq hstore (.inl hread)) (hleft answer))
  have hstop {p : List σ} (hanswer : ∃ e, answer = .error e) : Left writes p (next answer) := by
    obtain ⟨e, rfl⟩ := hanswer
    exact .inr (hstopped e)
  cases hserved : (serve request system.store).1 with
  | error e =>
    refine .inl (hquiet (heffects.view_eq hstore (.inr ⟨e, hserved⟩)) (hstop ?_))
    obtain ⟨-, hanswer | hanswer⟩ | ⟨-, hanswer⟩ := hstore
    · exact ⟨e, hanswer.trans hserved⟩
    · exact hanswer
    · exact hanswer
  | ok reply =>
    obtain ⟨rfl, hanswer⟩ | ⟨rfl, hanswer⟩ := hstore
    · refine .inr ⟨n, Nat.one_pos, by rw [hplan]; exact Nat.succ_pos _, ?_, fun j client hj => ?_⟩
      · have hdrop : (plan n).drop 0 = request :: rest := hplan
        rw [effects_take_succ hdrop, heffects.ok request _ reply hserved, if_pos hwrites, h.view]
        rfl
      · obtain ⟨rfl, rfl⟩ | ⟨hne, hj⟩ := getElem?_set_cases hj
        · rw [if_pos rfl, hplan, List.drop_one, List.tail_cons]
          obtain rfl | hanswer := hanswer
          · rw [hserved]
            exact hleft reply
          · exact hstop hanswer
        · rw [if_neg hne]
          exact h.clients j client hj
    · exact .inl (hquiet rfl (hstop hanswer))

/-- What is seen of the service is what the first writes of one client have made of it,
whatever calls fail and in whatever order the clients go on. -/
theorem System.Free.run (heffects : Service.Effects serve writes view effect)
    (hclaims : Claims serve view effect plan v₀) (h : system.Free writes view plan v₀) (acts : List Act) :
    (machine.run (System.step serve) system acts).Free writes view plan v₀ ∨
      ∃ owner k, (machine.run (System.step serve) system acts).Held writes view effect plan v₀ owner k := by
  refine machine.run_invariant (I := fun system : System S σ β ρ => system.Free writes view plan v₀ ∨
    ∃ owner k, system.Held writes view effect plan v₀ owner k) (.inl h) ?_ acts
  rintro system act (hfree | ⟨owner, k, hheld⟩)
  · obtain hfree | ⟨owner, hheld⟩ := hfree.step heffects act
    · exact .inl hfree
    · exact .inr ⟨owner, 1, hheld⟩
  · obtain ⟨k', -, hheld⟩ := hheld.step heffects hclaims act
    exact .inr ⟨owner, k', hheld⟩

theorem System.Held.run (heffects : Service.Effects serve writes view effect)
    (hclaims : Claims serve view effect plan v₀) (h : system.Held writes view effect plan v₀ owner k)
    (acts : List Act) :
    ∃ k' ≥ k, (machine.run (System.step serve) system acts).Held writes view effect plan v₀ owner k' := by
  refine machine.run_invariant (I := fun system : System S σ β ρ =>
    ∃ k' ≥ k, system.Held writes view effect plan v₀ owner k') ⟨k, Nat.le_refl k, h⟩ ?_ acts
  rintro system act ⟨k', hk', hheld⟩
  obtain ⟨k'', hk'', hheld⟩ := hheld.step heffects hclaims act
  exact ⟨k'', Nat.le_trans hk' hk'', hheld⟩

end Exclusive

/-! Clients that are told by what is left of them. -/

section Stages

variable {P : Type} {client : Nat → P → Client σ β ρ} {request : Nat → P → Option σ}
  {next : Nat → P → Except String β → P}

/-- Where a client is tells what it asks for next, and an answer where it is then. -/
def Stages (client : Nat → P → Client σ β ρ) (request : Nat → P → Option σ)
    (next : Nat → P → Except String β → P) : Prop :=
  ∀ n p, (∃ result, client n p = .done result) ∧ request n p = none ∨
    ∃ r, request n p = some r ∧ client n p = .call r fun answer => client n (next n p answer)

/-- Whether a call comes to the service. -/
def Act.arrives : Act → Bool
  | .answer _ | .lose _ _ => true
  | .refuse _ _ => false

theorem System.step_stages (serve : Service S σ β) (h : Stages client request next) {system : System S σ β ρ}
    {stages : List P} (hclients : system.clients = stages.mapIdx client) (act : Act) :
    system.step serve act = system ∨ ∃ p r answer store, stages[act.client]? = some p ∧
      request act.client p = some r ∧
      system.step serve act = { store, clients := (stages.set act.client (next act.client p answer)).mapIdx client } ∧
      (act.arrives = true ∧ store = (serve r system.store).2 ∧
          (answer = (serve r system.store).1 ∨ ∃ e, answer = .error e) ∨
        store = system.store ∧ ∃ e, answer = .error e) := by
  unfold System.step
  rw [hclients, List.getElem?_mapIdx]
  cases hp : stages[act.client]? with
  | none => exact .inl rfl
  | some p =>
    obtain ⟨⟨result, hdone⟩, -⟩ | ⟨r, hrequest, hcall⟩ := h act.client p
    · rw [Option.map_some, hdone]
      exact .inl rfl
    · rw [Option.map_some, hcall]
      right
      cases act with
      | answer n =>
        refine ⟨p, r, (serve r system.store).1, _, rfl, hrequest, ?_, .inl ⟨rfl, rfl, .inl rfl⟩⟩
        rw [List.mapIdx_set]
        rfl
      | lose n e =>
        refine ⟨p, r, .error e, _, rfl, hrequest, ?_, .inl ⟨rfl, rfl, .inr ⟨e, rfl⟩⟩⟩
        rw [List.mapIdx_set]
        rfl
      | refuse n e =>
        refine ⟨p, r, .error e, _, rfl, hrequest, ?_, .inr ⟨rfl, e, rfl⟩⟩
        rw [List.mapIdx_set]
        rfl

end Stages

end Client
