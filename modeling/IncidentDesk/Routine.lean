import Mathlib.Data.List.Forall2

/-- A program that writes events, sends requests and waits for answers, to one of its
requests or from elsewhere. -/
inductive Routine (ε σ α ρ : Type) where
  | done (result : ρ)
  | write (event : ε) (next : Routine ε σ α ρ)
  | send (request : σ) (next : Routine ε σ α ρ)
  | await (request : Option σ) (next : α → Routine ε σ α ρ)

namespace Routine

variable {ε σ α ρ τ : Type}

/-- One thing that a routine has done, or an answer that it has got. -/
inductive Entry (ε σ α : Type) where
  | written (event : ε)
  | sent (request : σ)
  | heard (request : Option σ) (answer : α)

protected def bind : Routine ε σ α ρ → (ρ → Routine ε σ α τ) → Routine ε σ α τ
  | done result, f => f result
  | write event next, f => write event (next.bind f)
  | send request next, f => send request (next.bind f)
  | await request next, f => await request fun answer => (next answer).bind f

instance : Monad (Routine ε σ α) where
  pure := done
  bind := Routine.bind

/-- The next step of a routine, with an answer in case it waits for one. -/
def advance : Routine ε σ α ρ → α → Routine ε σ α ρ × List (Entry ε σ α)
  | done result, _ => (done result, [])
  | write event next, _ => (next, [.written event])
  | send request next, _ => (next, [.sent request])
  | await request next, answer => (next answer, [.heard request answer])

/-- After whatever a routine goes on to do, `I` is true of what has been done, and `Q`
of its result at the end. -/
def Meets (I : List (Entry ε σ α) → Prop) (Q : ρ → List (Entry ε σ α) → Prop) :
    Routine ε σ α ρ → List (Entry ε σ α) → Prop
  | done result, trace => Q result trace
  | write event next, trace => I (trace ++ [.written event]) ∧ next.Meets I Q (trace ++ [.written event])
  | send request next, trace => I (trace ++ [.sent request]) ∧ next.Meets I Q (trace ++ [.sent request])
  | await request next, trace =>
    ∀ answer, I (trace ++ [.heard request answer]) ∧ (next answer).Meets I Q (trace ++ [.heard request answer])

section Meets

variable {I : List (Entry ε σ α) → Prop} {Q Q' : ρ → List (Entry ε σ α) → Prop} {r : Routine ε σ α ρ}
  {trace : List (Entry ε σ α)}

theorem Meets.advance (h : r.Meets I Q trace) (hI : I trace) (answer : α) :
    I (trace ++ (r.advance answer).2) ∧ (r.advance answer).1.Meets I Q (trace ++ (r.advance answer).2) := by
  cases r with
  | done result => simpa [Routine.advance] using ⟨hI, h⟩
  | write event next => exact h
  | send request next => exact h
  | await request next => exact h answer

theorem Meets.imp (h : r.Meets I Q trace) (hQ : ∀ result trace, Q result trace → Q' result trace) :
    r.Meets I Q' trace := by
  induction r generalizing trace with
  | done result => exact hQ result trace h
  | write event next ih => exact ⟨h.1, ih h.2⟩
  | send request next ih => exact ⟨h.1, ih h.2⟩
  | await request next ih => exact fun answer => ⟨(h answer).1, ih answer (h answer).2⟩

theorem meets_pure {result : ρ} : (pure result : Routine ε σ α ρ).Meets I Q trace ↔ Q result trace := Iff.rfl

theorem meets_bind {f : ρ → Routine ε σ α τ} {Q : τ → List (Entry ε σ α) → Prop} :
    (r >>= f).Meets I Q trace ↔ r.Meets I (fun result trace => (f result).Meets I Q trace) trace := by
  change (r.bind f).Meets I Q trace ↔ _
  induction r generalizing trace with
  | done result => exact Iff.rfl
  | write event next ih => exact and_congr Iff.rfl ih
  | send request next ih => exact and_congr Iff.rfl ih
  | await request next ih => exact forall_congr' fun answer => and_congr Iff.rfl (ih answer)

end Meets

/-! A routine that may fail. -/

section Failing

variable {κ : Type} {I : List (Entry ε σ α) → Prop} {Q : Except κ ρ → List (Entry ε σ α) → Prop}
  {trace : List (Entry ε σ α)}

/-- The two ends of a routine that may fail. -/
def Ends (ok : ρ → List (Entry ε σ α) → Prop) (error : κ → List (Entry ε σ α) → Prop) :
    Except κ ρ → List (Entry ε σ α) → Prop
  | .ok result, trace => ok result trace
  | .error e, trace => error e trace

theorem meets_run_pure {result : ρ} :
    (ExceptT.run (pure result) : Routine ε σ α (Except κ ρ)).Meets I Q trace ↔ Q (.ok result) trace :=
  Iff.rfl

theorem meets_run_throw {e : κ} :
    (ExceptT.run (throw e) : Routine ε σ α (Except κ ρ)).Meets I Q trace ↔ Q (.error e) trace :=
  Iff.rfl

theorem meets_run_lift {r : Routine ε σ α ρ} :
    (ExceptT.run (ExceptT.lift r) : Routine ε σ α (Except κ ρ)).Meets I Q trace ↔
      r.Meets I (fun result trace => Q (.ok result) trace) trace :=
  meets_bind

theorem meets_run_bind {m : ExceptT κ (Routine ε σ α) ρ} {f : ρ → ExceptT κ (Routine ε σ α) τ}
    {Q : Except κ τ → List (Entry ε σ α) → Prop} :
    (m >>= f).run.Meets I Q trace ↔
      m.run.Meets I (Ends (fun result trace => (f result).run.Meets I Q trace) fun e trace => Q (.error e) trace)
        trace := by
  change Meets I Q (m.run >>= ExceptT.bindCont f) trace ↔ _
  rw [meets_bind]
  constructor <;> exact fun h => h.imp fun result _ hend => by cases result <;> exact hend

theorem meets_run_tryCatch {m : ExceptT κ (Routine ε σ α) ρ} {handler : κ → ExceptT κ (Routine ε σ α) ρ} :
    (tryCatch m handler).run.Meets I Q trace ↔
      m.run.Meets I (Ends (fun result trace => Q (.ok result) trace) fun e trace => (handler e).run.Meets I Q trace)
        trace := by
  change Meets I Q (m.run >>= fun result => _) trace ↔ _
  rw [meets_bind]
  constructor <;> exact fun h => h.imp fun result _ hend => by cases result <;> exact hend

end Failing

/-- Some traces, each in its order, put together into one. -/
inductive Interleaving {κ : Type} : List (List κ) → List κ → Prop where
  | nil (parts : List (List κ)) (hparts : ∀ part ∈ parts, part = []) : Interleaving parts []
  | snoc (parts : List (List κ)) (trace part more : List κ) (n : Nat) (h : Interleaving parts trace)
      (hpart : parts[n]? = some part) : Interleaving (parts.set n (part ++ more)) (trace ++ more)

namespace Interleaving

variable {κ : Type} {parts : List (List κ)} {part trace : List κ}

theorem mem (h : Interleaving parts trace) {x : κ} (hx : x ∈ trace) : ∃ part ∈ parts, x ∈ part := by
  induction h with
  | nil => cases hx
  | snoc parts trace part more n h hpart ih =>
    obtain ⟨hn, rfl⟩ := List.getElem?_eq_some_iff.mp hpart
    have hset : parts[n] ++ more ∈ parts.set n (parts[n] ++ more) :=
      List.mem_iff_getElem.mpr ⟨n, by simpa using hn, by simp⟩
    obtain hx | hx := List.mem_append.mp hx
    · obtain ⟨part, hmem, hx⟩ := ih hx
      obtain ⟨k, hk, rfl⟩ := List.mem_iff_getElem.mp hmem
      by_cases hkn : n = k
      · subst hkn
        exact ⟨_, hset, List.mem_append_left _ hx⟩
      · exact ⟨parts[k], List.mem_iff_getElem.mpr ⟨k, by simpa using hk, by simp [hkn]⟩, hx⟩
    · exact ⟨_, hset, List.mem_append_right _ hx⟩

theorem countP (p : κ → Bool) (h : Interleaving parts trace) : trace.countP p = parts.flatten.countP p := by
  induction h with
  | nil parts hparts => rw [List.flatten_eq_nil_iff.mpr hparts]
  | snoc parts trace part more n h hpart ih =>
    obtain ⟨hn, rfl⟩ := List.getElem?_eq_some_iff.mp hpart
    have hsplit : parts = parts.take n ++ parts[n] :: parts.drop (n + 1) := by
      rw [← List.drop_eq_getElem_cons hn, List.take_append_drop]
    have hparts : parts.flatten.countP p = (parts.take n ++ parts[n] :: parts.drop (n + 1)).flatten.countP p := by
      rw [← hsplit]
    rw [List.countP_append, ih, hparts, List.set_eq_take_append_cons_drop, if_pos hn]
    simp only [List.flatten_append, List.flatten_cons, List.countP_append]
    omega

theorem eq_of_single (h : Interleaving parts trace) (hparts : parts = [part]) : trace = part := by
  induction h generalizing part with
  | nil parts hnil =>
    subst hparts
    exact (hnil part (List.mem_singleton_self _)).symm
  | snoc parts trace old more n h hpart ih =>
    obtain ⟨hn, rfl⟩ := List.getElem?_eq_some_iff.mp hpart
    have hlength := congrArg List.length hparts
    rw [List.length_set, List.length_singleton] at hlength
    obtain ⟨only, rfl⟩ := List.length_eq_one_iff.mp hlength
    obtain rfl : n = 0 := by simpa using hn
    rw [ih rfl]
    simpa using hparts

end Interleaving

/-- Labelled routines that go on in any order. -/
abbrev Crew (ν ε σ α ρ : Type) := List (ν × Routine ε σ α ρ)

namespace Crew

variable {ν : Type} {I : ν → List (Entry ε σ α) → Prop} {Q : ν → ρ → List (Entry ε σ α) → Prop}
  {crew : Crew ν ε σ α ρ} {trace : List (Entry ε σ α)}

/-- A member takes its next step. -/
def go (crew : Crew ν ε σ α ρ) (n : Nat) (answer : α) : Crew ν ε σ α ρ × List (Entry ε σ α) :=
  match crew[n]? with
  | none => (crew, [])
  | some (label, r) => (crew.set n (label, (r.advance answer).1), (r.advance answer).2)

theorem map_fst_go (crew : Crew ν ε σ α ρ) (n : Nat) (answer : α) : (crew.go n answer).1.map Prod.fst = crew.map Prod.fst := by
  unfold go
  cases hmember : crew[n]? with
  | none => rfl
  | some member =>
    obtain ⟨hn, rfl⟩ := List.getElem?_eq_some_iff.mp hmember
    have hset := List.set_getElem_self (show n < (crew.map Prod.fst).length by simpa using hn)
    rw [List.map_set]
    rwa [List.getElem_map] at hset

/-- What is true of a member's own trace. -/
def Member (I : ν → List (Entry ε σ α) → Prop) (Q : ν → ρ → List (Entry ε σ α) → Prop)
    (member : ν × Routine ε σ α ρ) (part : List (Entry ε σ α)) : Prop :=
  I member.1 part ∧ member.2.Meets (I member.1) (Q member.1) part

/-- Every member meets the specification of its label, in a trace of all of them. -/
def Sound (I : ν → List (Entry ε σ α) → Prop) (Q : ν → ρ → List (Entry ε σ α) → Prop)
    (crew : Crew ν ε σ α ρ) (trace : List (Entry ε σ α)) : Prop :=
  ∃ parts, List.Forall₂ (Member I Q) crew parts ∧ Interleaving parts trace

theorem sound_start (h : ∀ member ∈ crew, Member I Q member []) : Sound I Q crew [] := by
  refine ⟨crew.map fun _ => [], ?_, .nil _ ?_⟩
  · rw [List.forall₂_map_right_iff, List.forall₂_same]
    exact h
  · intro part hpart
    obtain ⟨_, -, rfl⟩ := List.mem_map.mp hpart
    rfl

theorem Sound.go (h : Sound I Q crew trace) (n : Nat) (answer : α) :
    Sound I Q (crew.go n answer).1 (trace ++ (crew.go n answer).2) := by
  obtain ⟨parts, hparts, htrace⟩ := h
  unfold Crew.go
  cases hmember : crew[n]? with
  | none => exact ⟨parts, hparts, by simpa using htrace⟩
  | some member =>
    obtain ⟨hn, hget⟩ := List.getElem?_eq_some_iff.mp hmember
    have hlength := hparts.length_eq
    have hpart : parts[n]? = some parts[n] := List.getElem?_eq_some_iff.mpr ⟨by omega, rfl⟩
    obtain ⟨hI, hmeets⟩ := hparts.get hn (by omega)
    simp only [List.get_eq_getElem, hget] at hI hmeets
    refine ⟨_, ?_, htrace.snoc _ _ _ (member.2.advance answer).2 n hpart⟩
    rw [List.forall₂_iff_get]
    refine ⟨by simpa using hlength, fun k hk hk' => ?_⟩
    simp only [List.get_eq_getElem, List.getElem_set]
    split
    · exact hmeets.advance hI answer
    · exact hparts.get (by simpa using hk) (by simpa using hk')

theorem Sound.member (h : Sound I Q crew trace) {member : ν × Routine ε σ α ρ} (hmember : member ∈ crew) :
    ∃ part, Member I Q member part := by
  obtain ⟨parts, hparts, -⟩ := h
  obtain ⟨n, hn, rfl⟩ := List.mem_iff_getElem.mp hmember
  exact ⟨_, hparts.get hn (hparts.length_eq ▸ hn)⟩

theorem Sound.mem (h : Sound I Q crew trace) {entry : Entry ε σ α} (hentry : entry ∈ trace) :
    ∃ member ∈ crew, ∃ part, I member.1 part ∧ entry ∈ part := by
  obtain ⟨parts, hparts, htrace⟩ := h
  obtain ⟨part, hpart, hentry⟩ := htrace.mem hentry
  obtain ⟨n, hn, rfl⟩ := List.mem_iff_getElem.mp hpart
  have hlength := hparts.length_eq
  exact ⟨_, List.getElem_mem (by omega : n < crew.length), parts[n], (hparts.get (by omega) hn).1, hentry⟩

theorem Sound.countP_le (h : Sound I Q crew trace) {p : Entry ε σ α → Bool} {bound : Nat}
    (hbound : ∀ label part, I label part → part.countP p ≤ bound) : trace.countP p ≤ bound * crew.length := by
  obtain ⟨parts, hparts, htrace⟩ := h
  rw [htrace.countP]
  clear htrace
  induction hparts with
  | nil => exact Nat.zero_le _
  | cons hmember _ ih =>
    have hcount := hbound _ _ hmember.1
    rw [List.flatten_cons, List.countP_append, List.length_cons, Nat.mul_succ]
    omega

theorem Sound.single {member : ν × Routine ε σ α ρ} (h : Sound I Q [member] trace) : Member I Q member trace := by
  obtain ⟨parts, hparts, htrace⟩ := h
  cases hparts with
  | cons hmember hnil =>
    cases hnil
    rwa [htrace.eq_of_single rfl]

end Crew

end Routine
