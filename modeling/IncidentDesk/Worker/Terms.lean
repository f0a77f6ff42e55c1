import Mathlib.Tactic.Tauto
import IncidentDesk.Demo.LogStore
import IncidentDesk.Routing
import IncidentDesk.Worker.Planning

namespace incidentdesk.worker

open natural
open datetime (day)

section Terms

variable {planner : Planner} {zone : Zone} {b : NaturalRequest} {model : Option (Except Raised ModelOutput)}
  {plan first : Interpretation} {mode : String} {q : LogQuery}

/-- A query as the API decodes it. -/
def LogQuery.decoded (q : LogQuery) : incidentdesk.LogQuery :=
  { Mode := q.mode, Terms := some q.terms, Levels := some q.levels }

/-- A term that `LogQuery.validate` lets pass. -/
def Fits (t : String) : Prop := TrimSpace t ≠ "" ∧ t.utf8ByteSize ≤ 100

theorem LogQuery.valid_iff : q.valid = true ↔ q.mode ∈ ["anomalies", "search", "all"] ∧ q.terms.length ≤ 6 ∧
    q.levels.length ≤ 12 ∧ ∀ level ∈ q.levels, level ∈ allowedLevels := by
  simp [valid, and_assoc]

/-- A query that has been typed is only ever refused for one of its terms. -/
theorem validate_decoded (h : q.valid = true) : (∃ q', q.decoded.validate = .ok q') ↔ ∀ t ∈ q.terms, Fits t := by
  obtain ⟨hmode, hterms, hlength, hlevels⟩ := LogQuery.valid_iff.mp h
  have hempty : q.mode ≠ "" := by
    rintro hempty
    simp [hempty] at hmode
  have hknown : ¬ (q.mode ≠ "anomalies" ∧ q.mode ≠ "search" ∧ q.mode ≠ "all") := by
    simp only [List.mem_cons, List.not_mem_nil, or_false] at hmode
    tauto
  have hsize : ¬ (q.terms.length > 6 ∨ q.levels.length > 12) := by omega
  have hallowed : (q.levels.any fun l => l ∉ allowedLevels) = false := by simpa using hlevels
  have hfit : (q.terms.any fun t => TrimSpace t = "" || t.utf8ByteSize > 100) = false ↔ ∀ t ∈ q.terms, Fits t := by
    simp [Fits]
  rw [← hfit]
  simp only [LogQuery.decoded, incidentdesk.LogQuery.validate, hempty, if_false, hknown, Option.getD_some, hsize, hallowed,
    bind, Except.bind, throw, throwThe, MonadExceptOf.throw, pure, Except.pure, Bool.false_eq_true]
  cases q.terms.any fun t => TrimSpace t = "" || t.utf8ByteSize > 100 <;> simp

/-- What the API lets pass is not refused any more. -/
theorem validate_downstream {q q' : incidentdesk.LogQuery} (h : q.validate = .ok q') :
    ∃ spec : LogQuery, q' = spec.decoded ∧ spec.valid = true ∧ log_store.validate spec = .ok () := by
  obtain ⟨mode, terms, levels, rfl, hmode, hterms, hlevels, hfit, hallowed⟩ : ∃ mode terms levels,
      q' = { Mode := mode, Terms := some terms, Levels := some levels } ∧
        (mode = "anomalies" ∨ mode = "search" ∨ mode = "all") ∧ terms.length ≤ 6 ∧ levels.length ≤ 12 ∧
        (∀ t ∈ terms, Fits t) ∧ ∀ l ∈ levels, l ∈ allowedLevels := by
    simp only [incidentdesk.LogQuery.validate, bind, Except.bind, throw, throwThe, MonadExceptOf.throw, pure,
      Except.pure] at h
    grind [Fits]
  have hsize : ∀ t ∈ terms, 1 ≤ t.length ∧ t.length ≤ 100 := fun t ht => by
    obtain ⟨hblank, hbytes⟩ := hfit t ht
    have hle := length_le_utf8ByteSize t
    have hne : t ≠ "" := by
      rintro rfl
      exact hblank (by decide)
    have hpos : t.length ≠ 0 := by simpa using hne
    omega
  have hmodes : mode ∈ ["anomalies", "search", "all"] := by simpa using hmode
  refine ⟨{ mode, terms, levels }, rfl, LogQuery.valid_iff.mpr ⟨hmodes, hterms, hlevels, hallowed⟩, ?_⟩
  have hany : (terms.any fun t => ¬(1 ≤ t.length ∧ t.length ≤ 100)) = false :=
    List.any_eq_false.mpr fun t ht => by simpa only [decide_eq_true_eq, not_not] using hsize t ht
  have hsame : log_store.ERROR_LEVELS ++ ["INFO", "DEBUG", "TRACE", "UNKNOWN"] = allowedLevels := rfl
  have hlisted : (levels.any fun v => v ∉ log_store.ERROR_LEVELS ++ ["INFO", "DEBUG", "TRACE", "UNKNOWN"]) = false :=
    List.any_eq_false.mpr fun v hv => by simpa only [decide_eq_true_eq, not_not, hsame] using hallowed v hv
  simp only [log_store.validate, hmodes, not_true_eq_false, hany, hlisted, bind, Except.bind, throw, throwThe,
    MonadExceptOf.throw, pure, Except.pure, Bool.false_eq_true, or_false, Nat.not_lt.mpr hterms, Nat.not_lt.mpr hlevels,
    if_false]

theorem query_valid (py : Python) (text : String) : (rules.query py text).valid = true := by
  rw [LogQuery.valid_iff, rules.query]
  refine ⟨?_, by simp, ?_, fun level hlevel => ?_⟩
  · dsimp only
    split
    · simp
    · split <;> simp
  · exact (List.length_filter_le _ _).trans (by decide)
  · have hlisted : ∀ l ∈ ["ERROR", "FATAL", "WARN", "WARNING", "INFO", "DEBUG"], l ∈ allowedLevels := by decide
    exact hlisted level (List.mem_filter.mp hlevel).1

theorem rules_valid (h : rules planner zone b = .ok plan) : plan.query.valid = true := by
  unfold rules at h
  obtain ⟨now, hnow, h⟩ := ok_of_bind h
  split at h
  · cases h
    rfl
  · obtain ⟨window, hwindow, h⟩ := ok_of_bind h
    cases h
    exact query_valid planner.py b.text

theorem firstPlan_valid (h : firstPlan planner zone b model = .ok first) : first.query.valid = true := by
  cases model with
  | none => exact rules_valid h
  | some output =>
    cases output with
    | error error => cases h
    | ok m =>
      cases h
      exact m.valid

theorem length_searchTerms (py : Python) (terms : List String) : (searchTerms py b terms).length ≤ 6 := by
  unfold searchTerms
  dsimp only
  split <;> simp

theorem refine_valid (h : q.valid = true) : (refine planner.py b q).valid = true := by
  obtain ⟨hmode, hterms, hlength, hlevels⟩ := LogQuery.valid_iff.mp h
  refine LogQuery.valid_iff.mpr ⟨?_, length_searchTerms planner.py q.terms, hlength, hlevels⟩
  dsimp only [refine]
  split
  · simp
  · exact hmode

theorem timed_query (h : timed planner zone b first = .ok (some plan)) : plan.query = first.query := by
  unfold timed at h
  split at h
  · split at h
    · injection h with h
      injection h with h
      subst h
      split <;> rfl
    · cases h
    · cases h
  · injection h with h
    injection h with h
    exact h ▸ rfl

/-- The terms of a request are of a length that the logs can be searched for: its
own blocks and quoted texts, and without any the ones that are left of its first
plan. -/
def TermsFit (py : Python) (b : NaturalRequest) (terms : List String) : Prop :=
  if identifiers py b.text = [] then ∀ t ∈ lexical py b terms, t ∈ searchTerms py b terms → Fits t
  else ∀ t ∈ (fromkeys (identifiers py b.text)).take 6, Fits t

theorem mem_searchTerms {py : Python} {terms : List String} {t : String} (hexact : identifiers py b.text = [])
    (h : t ∈ searchTerms py b terms) : t ∈ ["timed out", "timeout", "pool"] ∨ t ∈ lexical py b terms := by
  simp only [searchTerms, hexact, ne_eq, not_true_eq_false, if_false] at h
  have hmem := List.mem_eraseDups.mp (List.mem_of_mem_take h)
  grind

theorem termsFit_iff {py : Python} {terms : List String} :
    TermsFit py b terms ↔ ∀ t ∈ searchTerms py b terms, Fits t := by
  unfold TermsFit
  split
  · rename_i hexact
    have hsynonyms : ∀ t ∈ ["timed out", "timeout", "pool"], Fits t := by
      simp only [List.forall_mem_cons, List.not_mem_nil, false_implies, implies_true, and_true, Fits]
      decide
    exact ⟨fun h t ht => (mem_searchTerms hexact ht).elim (hsynonyms t) fun hown => h t hown ht,
      fun h t _ ht => h t ht⟩
  · rename_i hexact
    simp [searchTerms, hexact]

end Terms

/-- A request of the orders service without an expression of time. -/
def aboutOrders (text : String) : NaturalRequest :=
  { text, timezone := "UTC", now := thatDay + day
    services := [{ id := "svc-17", name := "订单服务", aliases := [], available_to := none }] }

/-- The plan for the last day. -/
def lastDay (terms : List String) : Interpretation :=
  { service := some "svc-17", start := some { wall := thatDay, fold := false, tz := .named }
    stop := some { wall := thatDay + day, fold := false, tz := .named }
    query := { mode := "search", terms, levels := [] }
    explanation := "未指定时间，使用最近24小时", clarification := none }

end incidentdesk.worker
