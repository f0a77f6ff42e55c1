import IncidentDesk.Machine
import Mathlib.Algebra.Order.Field.Rat
import Mathlib.Logic.Function.Basic
import Mathlib.Tactic.Linarith
import Mathlib.Tactic.NormNum

namespace incidentdesk.worker

open Function (update)

/-- What `fn` does: it returns a response or raises a `TransportError`. -/
inductive Reply where
  | response (status_code : Nat)
  | TransportError

/-- The `status` of what `call` catches, unless there is nothing to catch. -/
def Reply.raised : Reply → Option Nat
  | response status_code => if 200 ≤ status_code ∧ status_code < 300 then none else some status_code
  | TransportError => some 0

/-- An error that is raised at once. -/
def immediate (status : Nat) : Bool := status ≠ 0 && status ≠ 429 && Decidable.decide (status < 500)

/-- Where an invocation of `Circuit.call` stands. -/
inductive Call where
  | idle
  | ready (attempt : Nat)
  | waiting (attempt : Nat)
  | sleeping (attempt : Nat) (wake : ℚ)
  | finished
deriving DecidableEq

/-- A circuit, the clock and the invocations of `call`, each under a number of its own. -/
structure Circuit where
  failures : Nat
  until' : ℚ
  time : ℚ
  calls : Nat → Call

inductive Event where
  | tick (time : ℚ)
  | call (i : Nat)
  | fn (i : Nat)
  | reply (i : Nat) (r : Reply)
  | wake (i : Nat)

namespace Circuit

def init : Circuit := { failures := 0, until' := 0, time := 0, calls := fun _ => .idle }

def isOpen (s : Circuit) : Prop := s.time < s.until'

instance (s : Circuit) : Decidable s.isOpen := inferInstanceAs (Decidable (s.time < s.until'))

def set (s : Circuit) (i : Nat) (c : Call) : Circuit := { s with calls := update s.calls i c }

/-- The end of an attempt: what is done with the lock held. -/
def receive (s : Circuit) (i attempt : Nat) (r : Reply) : Circuit :=
  match r.raised with
  | none => { s with failures := 0, until' := 0 }.set i .finished
  | some status =>
    if immediate status then
      s.set i .finished
    else
      { s with
        failures := s.failures + 1
        until' := if s.failures + 1 ≥ 5 then s.time + 10 else s.until' }.set i
        (if attempt = 2 then .finished else .sleeping attempt (s.time + 2 ^ attempt / 10))

/-- An event that is not possible changes nothing. -/
def step (s : Circuit) : Event → Circuit
  | .tick time => { s with time := max s.time time }
  | .call i =>
    match s.calls i with
    | .idle => s.set i (if s.isOpen then .finished else .ready 0)
    | _ => s
  | .fn i =>
    match s.calls i with
    | .ready attempt => s.set i (.waiting attempt)
    | _ => s
  | .reply i r =>
    match s.calls i with
    | .waiting attempt => s.receive i attempt r
    | _ => s
  | .wake i =>
    match s.calls i with
    | .sleeping attempt wake => if wake ≤ s.time then s.set i (.ready (attempt + 1)) else s
    | _ => s

/-- The event is not an invocation of `fn` while the circuit is open. -/
def Silent (s : Circuit) (e : Event) : Prop :=
  ∀ i attempt, e = .fn i → s.calls i = .ready attempt → ¬ s.isOpen

end Circuit

/-- The invocation has attempts left. -/
def Call.Pending : Call → Prop
  | idle => False
  | ready _ => True
  | waiting attempt => attempt < 2
  | sleeping _ _ => True
  | finished => False

/-- A failure that opens the circuit ends its invocation, and no other one has
attempts left. -/
def Circuit.LastAttempt (s : Circuit) (e : Event) : Prop :=
  ∀ i attempt r status, e = .reply i r → s.calls i = .waiting attempt → r.raised = some status →
    immediate status = false → 4 ≤ s.failures → attempt = 2 ∧ ∀ j, j ≠ i → ¬ (s.calls j).Pending

/-- What holds of every circuit: how far its invocations are, and that it opens
with the fifth failure. -/
structure Circuit.Inv (s : Circuit) : Prop where
  attempts : ∀ i attempt, s.calls i = .ready attempt ∨ s.calls i = .waiting attempt → attempt ≤ 2
  sleeping : ∀ i attempt wake, s.calls i = .sleeping attempt wake → attempt < 2 ∧ wake ≤ s.time + 1
  failures : s.isOpen → 4 ≤ s.failures
  nonneg : 0 ≤ s.time

namespace Circuit

variable {s : Circuit} {e : Event} {i j attempt : Nat} {c : Call} {r : Reply} {wake : ℚ}

@[simp] theorem set_calls_self : (s.set i c).calls i = c := Function.update_self ..

theorem set_calls_ne (h : j ≠ i) : (s.set i c).calls j = s.calls j := Function.update_of_ne h ..

@[simp] theorem set_time : (s.set i c).time = s.time := rfl

@[simp] theorem set_isOpen : (s.set i c).isOpen ↔ s.isOpen := Iff.rfl

theorem step_cases (s : Circuit) (e : Event) :
    s.step e = s ∨
    (∃ time, e = .tick time ∧ s.step e = { s with time := max s.time time }) ∨
    (∃ i, e = .call i ∧ s.step e = s.set i (if s.isOpen then .finished else .ready 0)) ∨
    (∃ i attempt, e = .fn i ∧ s.calls i = .ready attempt ∧ s.step e = s.set i (.waiting attempt)) ∨
    (∃ i attempt wake, e = .wake i ∧ s.calls i = .sleeping attempt wake ∧ s.step e = s.set i (.ready (attempt + 1))) ∨
    (∃ i attempt r, e = .reply i r ∧ s.calls i = .waiting attempt ∧ s.step e = s.receive i attempt r) := by
  cases e with
  | tick time => exact .inr (.inl ⟨time, rfl, rfl⟩)
  | call i =>
    rw [step]
    split
    · exact .inr (.inr (.inl ⟨i, rfl, rfl⟩))
    · exact .inl rfl
  | fn i =>
    rw [step]
    split
    · exact .inr (.inr (.inr (.inl ⟨i, _, rfl, ‹_›, rfl⟩)))
    · exact .inl rfl
  | wake i =>
    rw [step]
    split
    · split
      · exact .inr (.inr (.inr (.inr (.inl ⟨i, _, _, rfl, ‹_›, rfl⟩))))
      · exact .inl rfl
    · exact .inl rfl
  | reply i r =>
    rw [step]
    split
    · exact .inr (.inr (.inr (.inr (.inr ⟨i, _, r, rfl, ‹_›, rfl⟩))))
    · exact .inl rfl

/-- An attempt that counts as a failure. -/
theorem receive_failure {status : Nat} (hraised : r.raised = some status) (himmediate : immediate status = false) :
    s.receive i attempt r = { s with
      failures := s.failures + 1
      until' := if s.failures + 1 ≥ 5 then s.time + 10 else s.until' }.set i
      (if attempt = 2 then .finished else .sleeping attempt (s.time + 2 ^ attempt / 10)) := by
  simp [receive, hraised, himmediate]

/-- An attempt succeeds, ends its invocation at once, or counts as a failure. -/
theorem receive_cases (s : Circuit) (i attempt : Nat) (r : Reply) :
    (r.raised = none ∧ s.receive i attempt r = { s with failures := 0, until' := 0 }.set i .finished) ∨
    s.receive i attempt r = s.set i .finished ∨
    ∃ status, r.raised = some status ∧ immediate status = false ∧
      s.receive i attempt r = { s with
        failures := s.failures + 1
        until' := if s.failures + 1 ≥ 5 then s.time + 10 else s.until' }.set i
        (if attempt = 2 then .finished else .sleeping attempt (s.time + 2 ^ attempt / 10)) := by
  cases hraised : r.raised with
  | none => exact .inl ⟨rfl, by simp [receive, hraised]⟩
  | some status =>
    cases himmediate : immediate status with
    | true => exact .inr (.inl (by simp [receive, hraised, himmediate]))
    | false => exact .inr (.inr ⟨status, rfl, himmediate, receive_failure hraised himmediate⟩)

theorem init_inv : init.Inv where
  attempts := by rintro i attempt (h | h) <;> cases h
  sleeping := by
    intro i attempt wake h
    cases h
  failures := by
    intro h
    exact absurd h (lt_irrefl _)
  nonneg := le_rfl

theorem Inv.set (h : s.Inv) (hattempts : ∀ attempt, c = .ready attempt ∨ c = .waiting attempt → attempt ≤ 2)
    (hsleeping : ∀ attempt wake, c = .sleeping attempt wake → attempt < 2 ∧ wake ≤ s.time + 1) : (s.set i c).Inv where
  attempts := by
    intro j attempt hj
    by_cases hji : j = i
    · subst hji
      rw [set_calls_self] at hj
      exact hattempts attempt hj
    · rw [set_calls_ne hji] at hj
      exact h.attempts j attempt hj
  sleeping := by
    intro j attempt wake hj
    by_cases hji : j = i
    · subst hji
      rw [set_calls_self] at hj
      exact hsleeping attempt wake hj
    · rw [set_calls_ne hji] at hj
      exact h.sleeping j attempt wake hj
  failures := h.failures
  nonneg := h.nonneg

/-- A retry waits for less than a second. -/
theorem delay_le (h : attempt < 2) : (2 : ℚ) ^ attempt / 10 ≤ 1 / 5 := by
  obtain rfl | rfl : attempt = 0 ∨ attempt = 1 := by omega
  · norm_num
  · norm_num

theorem receive_inv (h : s.Inv) (hi : s.calls i = .waiting attempt) : (s.receive i attempt r).Inv := by
  obtain ⟨-, heq⟩ | heq | ⟨status, -, -, heq⟩ := receive_cases s i attempt r
  · rw [heq]
    have hclosed : ({ s with failures := 0, until' := 0 } : Circuit).Inv :=
      ⟨h.attempts, h.sleeping, fun hopen => absurd hopen (not_lt.mpr h.nonneg), h.nonneg⟩
    exact hclosed.set (by simp) (by simp)
  · rw [heq]
    exact h.set (by simp) (by simp)
  · rw [heq]
    have hcounted : ({ s with
        failures := s.failures + 1
        until' := if s.failures + 1 ≥ 5 then s.time + 10 else s.until' } : Circuit).Inv := by
      refine ⟨h.attempts, h.sleeping, fun hopen => ?_, h.nonneg⟩
      by_cases hfifth : s.failures + 1 ≥ 5
      · simp only
        omega
      · simp only [isOpen, hfifth, if_false] at hopen
        have := h.failures hopen
        simp only
        omega
    have hle := h.attempts i attempt (.inr hi)
    refine hcounted.set ?_ ?_
    · intro n hn
      split_ifs at hn <;> simp at hn
    · intro n wake hn
      split_ifs at hn with hlast
      obtain ⟨rfl, rfl⟩ := Call.sleeping.inj hn
      have hdelay : (2 : ℚ) ^ attempt / 10 ≤ 1 / 5 := delay_le (by omega)
      exact ⟨by omega, by linarith⟩

theorem step_inv (h : s.Inv) : (s.step e).Inv := by
  obtain heq | ⟨time, -, heq⟩ | ⟨i, -, heq⟩ | ⟨i, attempt, -, hi, heq⟩ | ⟨i, attempt, wake, -, hi, heq⟩ |
    ⟨i, attempt, r, -, hi, heq⟩ := step_cases s e
  · rwa [heq]
  · rw [heq]
    have hle : s.time ≤ max s.time time := le_max_left _ _
    refine ⟨h.attempts, fun i attempt wake hi => ?_, fun hopen => h.failures ?_, h.nonneg.trans hle⟩
    · obtain ⟨hattempt, hwake⟩ := h.sleeping i attempt wake hi
      exact ⟨hattempt, by simp only; linarith⟩
    · exact lt_of_le_of_lt hle hopen
  · rw [heq]
    refine h.set ?_ ?_
    · intro n hn
      split_ifs at hn <;> simp at hn
      omega
    · intro n wake hn
      split_ifs at hn
  · rw [heq]
    have hle := h.attempts i attempt (.inl hi)
    exact h.set (by simpa using hle) (by simp)
  · rw [heq]
    have hlt := (h.sleeping i attempt wake hi).1
    refine h.set ?_ (by simp)
    intro n hn
    simp at hn
    omega
  · rw [heq]
    exact receive_inv h hi

theorem run_inv (events : List Event) : (machine.run step init events).Inv := by
  induction events using List.reverseRecOn with
  | nil => exact init_inv
  | append_singleton events e ih =>
    rw [machine.run_concat]
    exact step_inv ih

/-- While the circuit is open no invocation has attempts left. -/
def Quiet (s : Circuit) : Prop := s.isOpen → ∀ i, ¬ (s.calls i).Pending

theorem Quiet.set (h : s.Quiet) (hc : s.isOpen → ¬ c.Pending) : (s.set i c).Quiet := by
  intro hopen j
  by_cases hji : j = i
  · subst hji
    rw [set_calls_self]
    exact hc hopen
  · rw [set_calls_ne hji]
    exact h hopen j

theorem receive_quiet (h : s.Quiet) (hinv : s.Inv) (hi : s.calls i = .waiting attempt)
    (hlast : s.LastAttempt (.reply i r)) : (s.receive i attempt r).Quiet := by
  obtain ⟨-, heq⟩ | heq | ⟨status, hraised, himmediate, heq⟩ := receive_cases s i attempt r
  · rw [heq]
    have hclosed : ({ s with failures := 0, until' := 0 } : Circuit).Quiet :=
      fun hopen => absurd hopen (not_lt.mpr hinv.nonneg)
    exact hclosed.set fun _ => id
  · rw [heq]
    exact h.set fun _ => id
  · rw [heq]
    intro hopen j
    have hfourth : 4 ≤ s.failures := by
      by_contra hfew
      have hfifth : ¬ s.failures + 1 ≥ 5 := by omega
      simp only [isOpen, hfifth, if_false] at hopen
      exact hfew (hinv.failures hopen)
    obtain ⟨rfl, hothers⟩ := hlast i attempt r status rfl hi hraised himmediate hfourth
    by_cases hji : j = i
    · subst hji
      simp [Call.Pending]
    · rw [set_calls_ne hji]
      exact hothers j hji

theorem step_quiet (h : s.Quiet) (hinv : s.Inv) (hlast : s.LastAttempt e) : (s.step e).Quiet := by
  obtain heq | ⟨time, -, heq⟩ | ⟨i, -, heq⟩ | ⟨i, attempt, -, hi, heq⟩ | ⟨i, attempt, wake, -, hi, heq⟩ |
    ⟨i, attempt, r, rfl, hi, heq⟩ := step_cases s e
  · rwa [heq]
  · rw [heq]
    exact fun hopen => h (lt_of_le_of_lt (le_max_left _ _) hopen)
  · rw [heq]
    refine h.set fun hopen => ?_
    simp [hopen, Call.Pending]
  · rw [heq]
    refine h.set fun hopen => ?_
    exact absurd (hi ▸ trivial) (h hopen i)
  · rw [heq]
    refine h.set fun hopen => ?_
    exact absurd (hi ▸ trivial) (h hopen i)
  · rw [heq]
    exact receive_quiet h hinv hi hlast

theorem Quiet.silent (h : s.Quiet) : s.Silent e := by
  rintro i attempt rfl hi hopen
  exact h hopen i (hi ▸ trivial)

/-- Every step of a run from here on is silent only if every step of each run from
the next state is. -/
theorem not_silent_cons {events : List Event} (h : ¬ machine.Always step Silent (s.step e) events) :
    ¬ machine.Always step Silent s (e :: events) := fun hall => h (machine.always_cons.mp hall).2

theorem ready_unsilent (hopen : s.isOpen) (hi : s.calls i = .ready attempt) :
    ¬ machine.Always step Silent s [.fn i] := by
  intro hall
  exact (machine.always_cons.mp hall).1 i attempt rfl hi hopen

/-- A retry wakes up long before the circuit closes. -/
theorem sleeping_unsilent (hopen : s.time + 10 ≤ s.until') (hi : s.calls i = .sleeping attempt wake)
    (hwake : wake ≤ s.time + 1) : ¬ machine.Always step Silent s [.tick wake, .wake i, .fn i] := by
  have hawake : ((s.step (.tick wake)).step (.wake i)).calls i = .ready (attempt + 1) := by
    simp [step, hi]
  refine not_silent_cons (not_silent_cons (ready_unsilent ?_ hawake))
  have hsame : ((s.step (.tick wake)).step (.wake i)) = (s.step (.tick wake)).set i (.ready (attempt + 1)) := by
    simp [step, hi]
  rw [hsame, set_isOpen]
  exact lt_of_le_of_lt (max_le (by linarith) hwake) (by linarith : s.time + 1 < s.until')

/-- An invocation with attempts left invokes `fn` while the circuit is open, if its
present attempt fails. -/
theorem Inv.unsilent (h : s.Inv) (hopen : s.time + 10 ≤ s.until') (hi : (s.calls i).Pending) :
    ∃ events, ¬ machine.Always step Silent s events := by
  rcases hcall : s.calls i with _ | attempt | attempt | ⟨attempt, wake⟩ | _ <;> rw [hcall] at hi
  · exact hi.elim
  · exact ⟨_, ready_unsilent (by unfold isOpen; linarith) hcall⟩
  · -- the request does not come through
    have hlast : attempt ≠ 2 := by
      have hlt : attempt < 2 := hi
      omega
    have hdelay : (2 : ℚ) ^ attempt / 10 ≤ 1 / 5 := delay_le hi
    have hnext : s.step (.reply i .TransportError) = { s with
        failures := s.failures + 1
        until' := if s.failures + 1 ≥ 5 then s.time + 10 else s.until' }.set i
        (.sleeping attempt (s.time + 2 ^ attempt / 10)) := by
      rw [step, hcall]
      exact (receive_failure rfl rfl).trans (by rw [if_neg hlast])
    have hstill : (s.step (.reply i .TransportError)).time + 10 ≤ (s.step (.reply i .TransportError)).until' := by
      rw [hnext]
      change s.time + 10 ≤ if s.failures + 1 ≥ 5 then s.time + 10 else s.until'
      split_ifs
      · exact le_rfl
      · exact hopen
    have hsleep : (s.step (.reply i .TransportError)).calls i = .sleeping attempt (s.time + 2 ^ attempt / 10) := by
      rw [hnext, set_calls_self]
    refine ⟨_, not_silent_cons (sleeping_unsilent hstill hsleep ?_)⟩
    rw [hnext]
    change s.time + 2 ^ attempt / 10 ≤ s.time + 1
    linarith
  · exact ⟨_, sleeping_unsilent hopen hcall (h.sleeping i attempt wake hcall).2⟩
  · exact hi.elim

end Circuit

open Circuit in
/-- If whatever opens the circuit ends the last invocation that has attempts left, the
open circuit sends nothing. Otherwise it sends a request in some continuation. -/
theorem circuit_silent_iff (events : List Event) :
    (machine.Always step LastAttempt init events → machine.Always step Silent init events) ∧
    ∀ e, ¬ (machine.run step init events).LastAttempt e →
      ∃ events', ¬ machine.Always step Silent init (events ++ e :: events') := by
  constructor
  · intro hlast
    suffices h : machine.Always step Silent init events ∧ (machine.run step init events).Quiet from h.1
    induction events using List.reverseRecOn with
    | nil => exact ⟨machine.always_nil, fun _ i hpending => hpending⟩
    | append_singleton events e ih =>
      rw [machine.always_concat] at hlast ⊢
      obtain ⟨hsilent, hquiet⟩ := ih hlast.1
      rw [machine.run_concat]
      exact ⟨⟨hsilent, hquiet.silent⟩, step_quiet hquiet (run_inv events) hlast.2⟩
  · intro e hnot
    set s := machine.run step init events with hs
    have hinv : s.Inv := run_inv events
    simp only [LastAttempt, not_forall, exists_prop] at hnot
    obtain ⟨i, attempt, r, status, rfl, hi, hraised, himmediate, hfourth, hpending⟩ := hnot
    have hfifth : s.failures + 1 ≥ 5 := by omega
    have hnext : s.step (.reply i r) = { s with failures := s.failures + 1, until' := s.time + 10 }.set i
        (if attempt = 2 then .finished else .sleeping attempt (s.time + 2 ^ attempt / 10)) := by
      rw [step, hi]
      exact (receive_failure hraised himmediate).trans (by rw [if_pos hfifth])
    have hleft : ∃ j, ((s.step (.reply i r)).calls j).Pending := by
      by_cases hattempt : attempt = 2
      · simp only [hattempt, true_and, not_forall, not_not, exists_prop] at hpending
        obtain ⟨j, hj, hpending⟩ := hpending
        refine ⟨j, ?_⟩
        rw [hnext, set_calls_ne hj]
        exact hpending
      · refine ⟨i, ?_⟩
        rw [hnext, set_calls_self, if_neg hattempt]
        trivial
    obtain ⟨j, hj⟩ := hleft
    obtain ⟨events', hevents'⟩ := (step_inv hinv).unsilent (by rw [hnext]; exact le_rfl) hj
    refine ⟨events', fun hall => hevents' ?_⟩
    exact (machine.always_cons.mp (machine.always_append.mp hall).2).2

/-- A call whose attempts are all answered by 503, from the given time on. -/
def failing (i : Nat) (time : ℚ) : List Event :=
  [.call i, .fn i, .reply i (.response 503), .tick (time + 1), .wake i, .fn i, .reply i (.response 503),
    .tick (time + 2), .wake i]

/-- Two calls, one after the other, to a source that always answers 503: the second
answer of the second call opens the circuit, and its third request is sent. -/
theorem third_attempt_sent : ¬ ∀ events, machine.Always Circuit.step Circuit.Silent Circuit.init events := by
  intro h
  have hready : (machine.run Circuit.step Circuit.init
      (failing 0 0 ++ [.fn 0, .reply 0 (.response 503)] ++ failing 1 2)).calls 1 = .ready 2 := by decide +kernel
  have hclosed := h _ (failing 0 0 ++ [.fn 0, .reply 0 (.response 503)] ++ failing 1 2) (.fn 1) [] rfl 1 2 rfl hready
  exact hclosed (by decide +kernel)

end incidentdesk.worker
