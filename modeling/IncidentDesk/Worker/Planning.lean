import Mathlib.Tactic.Linarith
import Mathlib.Tactic.Ring
import IncidentDesk.Worker.Natural

namespace incidentdesk

/-- What a step of a computation that succeeds has returned. -/
theorem ok_of_bind {ε α β : Type} {x : Except ε α} {f : α → Except ε β} {result : β} (h : x >>= f = .ok result) :
    ∃ value, x = .ok value ∧ f value = .ok result := by
  cases x with
  | error error => cases h
  | ok value => exact ⟨value, rfl, h⟩

namespace DateTime

variable {zone : Zone} {t t' : DateTime} {delta instant : Int}

theorem add_tz (h : t.add delta = .ok t') : t'.tz = t.tz := by
  unfold add at h
  split at h
  · injection h with h
    exact h ▸ rfl
  · cases h

theorem ofInstant_tz (h : ofInstant zone instant = .ok t) : t.tz = .named := by
  unfold ofInstant at h
  dsimp only at h
  split at h
  · injection h with h
    exact h ▸ rfl
  · cases h

theorem construct_tz {y m d hour minute s : Int} (h : datetime.construct y m d hour minute s = .ok t) :
    t.tz = .named := by
  unfold datetime.construct at h
  split at h
  · cases h
  · injection h with h
    exact h ▸ rfl

end DateTime

namespace worker

open natural
open datetime (day second)

section Ready

variable {planner : Planner} {zone : Zone} {b : NaturalRequest} {model : Option (Except Raised ModelOutput)}
  {plan first : Interpretation} {mode mode' : String} {start stop now : DateTime}

theorem conclude_ready (h : conclude zone b first mode' = .ok (.ready plan mode)) :
    plan = first ∧ spanOk zone plan = true := by
  unfold conclude at h
  split at h
  · simp at h
  · split at h
    · simp at h
    · split at h <;> simp_all

/-- The steps that lead to a plan that is ready. -/
theorem interpret_steps (h : interpret planner b model = .ok (.ready plan mode)) :
    ∃ zone first last, planner.ZoneInfo b.timezone = some zone ∧
      (∀ found ∈ regex.findall (serviceName planner.py) b.text,
        planner.py.casefold (matchText found) ∈ (names b).map planner.py.casefold) ∧
      firstPlan planner zone b model = .ok first ∧
      timed planner zone b { first with query := refine planner.py b first.query } = .ok (some last) ∧
      conclude zone b last (if model.isSome then "mistral" else "rules-no-model") = .ok (.ready plan mode) := by
  simp only [interpret, bind, Except.bind, pure, Except.pure, throw, throwThe, MonadExceptOf.throw] at h
  split at h
  · simp at h
  split at h
  · rename_i zone hzone
    split at h
    · simp at h
    rename_i hnames
    cases hfirst : firstPlan planner zone b model with
    | error error => simp [hfirst] at h
    | ok first =>
      simp only [hfirst] at h
      cases htimed : timed planner zone b { first with query := refine planner.py b first.query } with
      | error error => simp [htimed] at h
      | ok timed =>
        cases timed with
        | none => simp [htimed] at h
        | some timed =>
          simp only [htimed] at h
          exact ⟨zone, first, timed, hzone, by simpa using hnames, hfirst, htimed, h⟩
  · simp at h

/-- A plan that is ready is the first one with its query refined, and with the
window of the rules where the text has an expression of time. -/
theorem interpret_ready (h : interpret planner b model = .ok (.ready plan mode)) :
    ∃ zone first, planner.ZoneInfo b.timezone = some zone ∧ firstPlan planner zone b model = .ok first ∧
      timed planner zone b { first with query := refine planner.py b first.query } = .ok (some plan) ∧
      spanOk zone plan = true := by
  obtain ⟨zone, first, last, hzone, -, hfirst, htimed, hlast⟩ := interpret_steps h
  obtain ⟨rfl, hspan⟩ := conclude_ready hlast
  exact ⟨zone, first, hzone, hfirst, htimed, hspan⟩

theorem parse_tz {py : Python} {found : regex.Pos × regex.Pos} (h : parse py found = .ok start) : start.tz = .named := by
  unfold parse at h
  obtain ⟨y, -, h⟩ := ok_of_bind h
  obtain ⟨m, -, h⟩ := ok_of_bind h
  obtain ⟨d, -, h⟩ := ok_of_bind h
  obtain ⟨hour, -, h⟩ := ok_of_bind h
  obtain ⟨minute, -, h⟩ := ok_of_bind h
  obtain ⟨s, -, h⟩ := ok_of_bind h
  exact DateTime.construct_tz h

theorem dated_tz {py : Python} {found : regex.Pos × regex.Pos} {more : List (regex.Pos × regex.Pos)}
    (h : rules.dated py found more = .ok (start, stop)) : start.tz = .named ∧ stop.tz = .named := by
  unfold rules.dated at h
  obtain ⟨first, hfirst, h⟩ := ok_of_bind h
  obtain ⟨last, hlast, h⟩ := ok_of_bind h
  obtain ⟨stop', hstop, h⟩ := ok_of_bind h
  cases h
  have hnamed := parse_tz hfirst
  refine ⟨hnamed, (DateTime.add_tz hstop).trans ?_⟩
  cases more with
  | nil => exact (DateTime.add_tz hlast).trans hnamed
  | cons second more =>
    obtain ⟨end', hend, h⟩ := ok_of_bind hlast
    split at h
    · exact (DateTime.add_tz h).trans (parse_tz hend)
    · cases h
      exact parse_tz hend

theorem newest_tz {service : ServiceOption} {archived : Bool} (hnow : now.tz = .named)
    (h : rules.newest planner zone service now = .ok (stop, archived)) : stop.tz = .named := by
  unfold rules.newest at h
  split at h
  · cases h
    exact hnow
  · split at h
    · cases h
      exact hnow
    · split at h
      · obtain ⟨yesterday, -, h⟩ := ok_of_bind h
        split at h
        · cases h
        · dsimp only at h
          split at h
          · obtain ⟨latest, hlatest, h⟩ := ok_of_bind h
            cases h
            exact DateTime.ofInstant_tz hlatest
          · cases h
            exact hnow
      · cases h

/-- The window of the rules is in the zone of the request. -/
theorem window_tz {service : ServiceOption} {text explanation : String} (hnow : now.tz = .named)
    (h : rules.window planner zone text service now = .ok (start, stop, explanation)) :
    start.tz = .named ∧ stop.tz = .named := by
  unfold rules.window at h
  split at h
  · obtain ⟨⟨start', stop'⟩, hdated, h⟩ := ok_of_bind h
    cases h
    exact dated_tz hdated
  · split at h
    · obtain ⟨start', hstart, h⟩ := ok_of_bind h
      obtain ⟨stop', hstop, h⟩ := ok_of_bind h
      cases h
      exact ⟨(DateTime.add_tz hstart).trans hnow, (DateTime.add_tz hstop).trans hnow⟩
    · split at h
      · cases h
        exact ⟨hnow, hnow⟩
      · split at h
        · obtain ⟨amount, -, h⟩ := ok_of_bind h
          obtain ⟨start', hstart, h⟩ := ok_of_bind h
          cases h
          exact ⟨(DateTime.add_tz hstart).trans hnow, hnow⟩
        · obtain ⟨⟨stop', archived⟩, hnewest, h⟩ := ok_of_bind h
          obtain ⟨start', hstart, h⟩ := ok_of_bind h
          cases h
          have hstop := newest_tz hnow hnewest
          exact ⟨(DateTime.add_tz hstart).trans hstop, hstop⟩

/-- A plan of the rules asks back or has a window in the zone of the request. -/
theorem rules_window (h : rules planner zone b = .ok plan) (hask : plan.clarification = none) :
    ∃ start stop, plan.start = some start ∧ plan.stop = some stop ∧ start.tz = .named ∧ stop.tz = .named := by
  unfold rules at h
  obtain ⟨now, hnow, h⟩ := ok_of_bind h
  split at h
  · cases h
    cases hask
  · obtain ⟨⟨start, stop, explanation⟩, hwindow, h⟩ := ok_of_bind h
    cases h
    exact ⟨start, stop, rfl, rfl, window_tz (DateTime.ofInstant_tz hnow) hwindow⟩

theorem rules_asking (h : rules planner zone b = .ok plan) (hask : plan.clarification ≠ none) : plan.start = none := by
  unfold rules at h
  obtain ⟨now, hnow, h⟩ := ok_of_bind h
  split at h
  · cases h
    rfl
  · obtain ⟨⟨start, stop, explanation⟩, hwindow, h⟩ := ok_of_bind h
    cases h
    exact absurd rfl hask

theorem parsed_tz (t : Int × Option Int) :
    (parsed t).tz = .naive ∨ ∃ minutes, (parsed t).tz = .fixed (minutes * 60) := by
  obtain ⟨wall, minutes⟩ := t
  cases minutes with
  | none => exact .inl rfl
  | some minutes => exact .inr ⟨minutes, rfl⟩

/-- The window that the rules give a request, where its plan has it from them. -/
def ruled (planner : Planner) (zone : Zone) (b : NaturalRequest) (model : Option (Except Raised ModelOutput)) :
    Option (DateTime × DateTime) :=
  if model.isNone || (regex.search (temporal planner.py) b.text).isSome then
    match rules planner zone b with
    | .ok plan => if plan.clarification.isSome then none else plan.start.bind fun start => plan.stop.map (start, ·)
    | .error _ => none
  else none

/-- The window of a plan is that of the rules, or it has been parsed from what
the model returned. -/
theorem plan_window (hfirst : firstPlan planner zone b model = .ok first)
    (htimed : timed planner zone b { first with query := refine planner.py b first.query } = .ok (some plan))
    (hstart : plan.start = some start) (hstop : plan.stop = some stop) :
    (ruled planner zone b model = some (start, stop) ∧ start.tz = .named ∧ stop.tz = .named) ∨
      (ruled planner zone b model = none ∧ ∃ s e, start = parsed s ∧ stop = parsed e) := by
  have hrules {concrete : Interpretation} (hconcrete : rules planner zone b = .ok concrete)
      (hfrom : (model.isNone || (regex.search (temporal planner.py) b.text).isSome) = true)
      (hs : concrete.start = some start) (he : concrete.stop = some stop) :
      ruled planner zone b model = some (start, stop) ∧ start.tz = .named ∧ stop.tz = .named := by
    have hask : concrete.clarification = none := by
      by_contra hask
      rw [rules_asking hconcrete hask] at hs
      cases hs
    obtain ⟨s, e, hs', he', hsz, hez⟩ := rules_window hconcrete hask
    rw [hs] at hs'
    rw [he] at he'
    cases hs'
    cases he'
    simp [ruled, hfrom, hconcrete, hask, hs, he, hsz, hez]
  have hkept (hs : first.start = some start) (he : first.stop = some stop)
      (hruled : model.isNone = false → ruled planner zone b model = none) :
      (ruled planner zone b model = some (start, stop) ∧ start.tz = .named ∧ stop.tz = .named) ∨
        (ruled planner zone b model = none ∧ ∃ s e, start = parsed s ∧ stop = parsed e) := by
    cases model with
    | none => exact .inl (hrules hfirst rfl hs he)
    | some output =>
      cases output with
      | error error => cases hfirst
      | ok m =>
        cases hfirst
        obtain ⟨s, -, hs⟩ := Option.map_eq_some_iff.mp hs
        obtain ⟨e, -, he⟩ := Option.map_eq_some_iff.mp he
        exact .inr ⟨hruled rfl, s, e, hs.symm, he.symm⟩
  unfold timed at htimed
  split at htimed
  · rename_i htemporal
    split at htimed
    · rename_i concrete hconcrete
      injection htimed with htimed
      injection htimed with htimed
      split at htimed
      · rename_i hask
        subst htimed
        exact hkept hstart hstop fun _ => by simp [ruled, htemporal, hconcrete, hask]
      · subst htimed
        exact .inl (hrules hconcrete (by simp [htemporal]) hstart hstop)
    · cases htimed
    · cases htimed
  · rename_i htemporal
    injection htimed with htimed
    injection htimed with htimed
    subst htimed
    exact hkept hstart hstop fun hmodel => by simp [ruled, hmodel, htemporal]

end Ready

/-- The bounds of `createTask` on the window of a task. -/
def inScope (Start End : Time) : Prop := Start ≤ End ∧ End - Start ≤ seconds (7 * 24 * 3600)

theorem createTaskChecks_inScope {a : App} {task : Create} {idem : String} {query : incidentdesk.LogQuery}
    (h : createTaskChecks a task idem = .ok query) : inScope task.Start task.End := by
  simp only [createTaskChecks, bind, Except.bind, throw, throwThe, MonadExceptOf.throw] at h
  split at h
  · cases h
  · split at h
    · cases h
    · rename_i hscope
      simp only [not_or, not_lt, gt_iff_lt] at hscope
      exact ⟨hscope.2.2.2.2.2.1, hscope.2.2.2.2.2.2⟩

/-- Between the ends of a window the clock is not set on by more than the window
is long, and not set back by more than it lacks of seven days. -/
def steady (zone : Zone) (start stop : DateTime) : Prop :=
  let change := DateTime.written (stop.utcoffset zone) - DateTime.written (start.utcoffset zone)
  change ≤ stop.wall - start.wall ∧ stop.wall - start.wall - change ≤ 7 * day

theorem instant_parsed {zone : Zone} {t : Int × Option Int} :
    (parsed t).instant zone = (parsed t).wall - (parsed t).utcoffset zone := by
  obtain ⟨wall, minutes⟩ := t
  cases minutes with
  | none => simp [parsed, DateTime.instant, DateTime.utcoffset, DateTime.written]
  | some minutes =>
    have hwhole : minutes * 60 * second = minutes * (60 * second) := by ring
    simp only [parsed, DateTime.instant, DateTime.utcoffset, DateTime.written, Option.elim_some, hwhole]
    rw [Int.mul_tdiv_cancel _ (by decide)]

/-- Central European time in the spring of 2025, with the one hour that is left
out on the thirtieth of March, from one o'clock UTC on. -/
def centralEurope : Zone :=
  let change := datetime.toordinal 2025 3 30 * day + datetime.hour
  { utcoffset := fun wall fold =>
      if wall < change + (if fold then 3600 else 7200) * second then 3600 else 7200
    fromutc := fun instant => (instant + (if instant < change then 3600 else 7200) * second, false) }

/-- The planner without a language model, in UTC and in Central Europe. -/
def planning : Planner where
  py := Python.ascii
  ZoneInfo name :=
    if name = "UTC" then some { utcoffset := fun _ _ => 0, fromutc := fun instant => (instant, false) }
    else if name = "Europe/Berlin" then some centralEurope
    else none
  fromisoformat _ := none

/-- A request for the last half hour of the orders service, ten minutes after
one o'clock UTC. -/
def lastHalfHour (timezone : String) : NaturalRequest :=
  { text := "svc-17 最近30分钟", timezone
    now := datetime.toordinal 2025 3 30 * day + datetime.hour + 600 * second
    services := [{ id := "svc-17", name := "订单服务", aliases := [], available_to := none }] }

/-- The plan for a window in the zone of the request. -/
def halfHourPlan (start stop : Int) : Interpretation :=
  { service := some "svc-17", start := some { wall := start, fold := false, tz := .named }
    stop := some { wall := stop, fold := false, tz := .named }
    query := { mode := "anomalies", terms := [], levels := [] }
    explanation := "按问题中明确给出的时间与所选时区执行，不按来源最新日期改写范围。", clarification := none }

/-- Midnight before the hour that is left out. -/
def thatDay : Int := datetime.toordinal 2025 3 30 * day

end worker

end incidentdesk
