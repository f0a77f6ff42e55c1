import IncidentDesk.Worker.Terms
import IncidentDesk.Worker.Times

namespace incidentdesk.worker

open natural
open datetime (day)
open regex (Pos findall search)

/-- What is among the first of a list's distinct members has too few others before it. -/
theorem mem_take_fromkeys {t : String} {terms : List String} {n : Nat} :
    t ∈ (fromkeys terms).take n ↔ t ∈ terms ∧ (fromkeys (terms.takeWhile (· ≠ t))).length < n := by
  unfold fromkeys
  induction hlength : terms.length using Nat.strong_induction_on generalizing terms n with
  | h length ih =>
    cases terms with
    | nil => simp
    | cons first rest =>
      cases n with
      | zero => simp
      | succ n =>
        rw [List.eraseDups_cons, List.take_succ_cons, List.mem_cons]
        by_cases hfirst : t = first
        · simp [hfirst]
        · have hle := List.length_filter_le (fun b => !b == first) rest
          have hshort : (rest.filter fun b => !b == first).length < length := by
            rw [← hlength, List.length_cons]
            omega
          -- the others before `t` are as many in the rest without the first one, and it
          have hwhile : (rest.filter fun b => !b == first).takeWhile (· ≠ t) =
              (rest.takeWhile (· ≠ t)).filter fun b => !b == first := by
            rw [List.takeWhile_filter]
            congr 2
            funext b
            by_cases hb : b = first <;> simp [hb, Ne.symm hfirst]
          rw [ih _ hshort rfl, hwhile, List.takeWhile_cons_of_pos (by simpa using Ne.symm hfirst), List.eraseDups_cons,
            List.length_cons]
          simp [hfirst, List.mem_filter]

namespace natural

/-- The identifiers that the pattern of the rules recognises in a text: blocks, hashes
and quoted phrases. -/
def recognised (py : Python) (text : String) : List String :=
  (findall (termPattern py) text).map fun found =>
    if groupText found 1 ≠ "" then groupText found 1
    else if groupText found 2 ≠ "" then groupText found 2
    else matchText found

/-- The synonyms that the logs use. -/
def synonyms (text : String) : List String :=
  (if isIn "超时" text then ["timed out", "timeout"] else []) ++ if isIn "连接池" text then ["pool"] else []

/-- The terms of the first plan, which are the model's or those of the rules. -/
def proposed (py : Python) (b : NaturalRequest) : Option (Except Raised ModelOutput) → List String
  | some (.ok m) => m.query.terms
  | some (.error _) => []
  | none => (rules.query py b.text).terms

/-- What the terms of a plan are taken from: the blocks and the phrases that are
quoted on one line, and where there are none the synonyms with the terms of the first plan. -/
def candidates (py : Python) (b : NaturalRequest) (model : Option (Except Raised ModelOutput)) : List String :=
  if identifiers py b.text = [] then synonyms b.text ++ lexical py b (proposed py b model) else identifiers py b.text

end natural

section Identifiers

variable {planner : Planner} {zone : Zone} {b : NaturalRequest} {model : Option (Except Raised ModelOutput)}
  {plan first : Interpretation} {mode : String}

/-- A plan that is ready does not ask back. -/
theorem conclude_asks {last : Interpretation} {mode' : String}
    (h : conclude zone b last mode' = .ok (.ready plan mode)) : last.clarification.filter (· ≠ "") = none := by
  unfold conclude at h
  split at h
  · cases h
  · assumption

theorem timed_clarification (h : timed planner zone b first = .ok (some plan)) :
    plan.clarification = first.clarification := by
  unfold timed at h
  split at h
  · split at h
    · injection h with h
      injection h with h
      subst h
      split <;> rfl
    · cases h
    · cases h
  · injection h with h
    injection h with h
    exact h ▸ rfl

theorem firstPlan_terms (h : firstPlan planner zone b model = .ok first)
    (hasks : first.clarification.filter (· ≠ "") = none) : first.query.terms = proposed planner.py b model := by
  cases model with
  | some output =>
    cases output with
    | error error => cases h
    | ok m =>
      cases h
      rfl
  | none =>
    unfold firstPlan rules at h
    obtain ⟨now, -, h⟩ := ok_of_bind h
    split at h
    · rename_i clarification hquestion
      cases h
      simp [rules.asking, question_ne hquestion] at hasks
    · obtain ⟨window, -, h⟩ := ok_of_bind h
      cases h
      rfl

theorem searchTerms_eq (py : Python) (terms : List String) : searchTerms py b terms =
    (fromkeys (if identifiers py b.text = [] then synonyms b.text ++ lexical py b terms else identifiers py b.text)).take 6 := by
  unfold searchTerms synonyms
  by_cases hexact : identifiers py b.text = [] <;> by_cases htimeout : isIn "超时" b.text = true <;>
    by_cases hpool : isIn "连接池" b.text = true <;> simp [hexact, htimeout, hpool]

/-- The query of a plan that is ready. -/
theorem ready_query (h : interpret planner b model = .ok (.ready plan mode)) :
    plan.query.terms = (fromkeys (candidates planner.py b model)).take 6 ∧
      (plan.query.terms ≠ [] → plan.query.mode = "search") := by
  obtain ⟨zone, first, last, -, -, hfirst, htimed, hlast⟩ := interpret_steps h
  obtain ⟨rfl, -⟩ := conclude_ready hlast
  have hasks := conclude_asks hlast
  rw [timed_clarification htimed] at hasks
  rw [timed_query htimed]
  refine ⟨?_, fun hterms => if_pos hterms⟩
  rw [candidates, ← firstPlan_terms hfirst hasks]
  exact searchTerms_eq planner.py first.query.terms

end Identifiers

namespace natural

/-- All identifiers of a text are terms of the plan, and are searched for. -/
def Searched (py : Python) (text : String) (q : LogQuery) : Prop :=
  (∀ t ∈ recognised py text, t ∈ q.terms) ∧ (recognised py text ≠ [] → q.mode = "search")

/-- A text has at most six identifiers. -/
def Few (py : Python) (text : String) : Prop := (fromkeys (recognised py text)).length ≤ 6

end natural

/-- Forty hexadecimal digits. -/
def commitHash : String := "0123456789abcdef0123456789abcdef01234567"

end incidentdesk.worker
