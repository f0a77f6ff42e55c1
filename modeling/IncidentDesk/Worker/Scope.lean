import Mathlib.Data.List.Infix
import IncidentDesk.Worker.Planning

namespace incidentdesk.worker

open natural
open regex (Pos Regex findall search findall_eq_nil search_isSome)
open datetime (day second)

section Temporal

variable {py : Python} {text : String} {s : Pos}

/-- Where a day can be read, a date is found: the rest of it is optional. -/
theorem run_date_eq_nil : (date py).run s = [] ↔
    (Regex.seq (.times 4 (digit py)) (.seq (.char (· ∈ ['-', '年', '/'])) (.seq (.between 1 1 (digit py))
      (.seq (.char (· ∈ ['-', '月', '/'])) (.between 1 1 (digit py)))))).run s = [] := by
  rw [Regex.run_eq_nil_plain, Regex.run_eq_nil_plain (r := .seq (.times 4 _) _)]
  refine Regex.run_seq_congr fun _ => Regex.run_seq_congr fun _ => Regex.run_seq_congr fun _ =>
    Regex.run_seq_congr fun _ => ?_
  exact ((Regex.total_opt _).seq (Regex.total_opt _)).run_seq_eq_nil

theorem run_relative_eq_nil : (relative py).run s = [] ↔
    (Regex.seq (.anyOf [literal "最近", literal "过去", literal "近"]) (.seq redaction.spaces (.seq (.plus (digit py))
      (.seq redaction.spaces (.anyOf [literal "分钟", literal "小时", literal "天"]))))).run s = [] := by
  rw [Regex.run_eq_nil_plain, Regex.run_eq_nil_plain (r := .seq (.anyOf _) _)]
  exact Iff.rfl

theorem isIn_of_run_literal {word : String} {k : Nat}
    (h : (literal word).run ((Pos.start text.toList).skip k) ≠ []) : isIn word text = true := by
  rw [literal, ne_eq, Regex.run_word_eq_nil, not_not] at h
  rw [isIn, List.any_eq_true]
  exact ⟨text.toList.drop k, (List.mem_tails _ _).mpr (List.drop_suffix k _), List.isPrefixOf_iff_prefix.mpr h⟩

/-- A text with an expression of time has one that the rules read. -/
theorem explicit_of_temporal (h : (search (temporal py) text).isSome = true) :
    findall (date py) text ≠ [] ∨ (isIn "昨天" text || isIn "昨日" text) = true ∨
      (isIn "今天" text || isIn "今日" text) = true ∨ (search (relative py) text).isSome = true := by
  obtain ⟨k, hk, hrun⟩ := search_isSome.mp h
  simp only [temporal, Regex.anyOf, ne_eq, Regex.run_alt_eq_nil, not_and_or] at hrun
  obtain hdate | hword | hword | hword | hword | hrelative := hrun
  · refine .inl fun hnone => hdate ?_
    exact run_date_eq_nil.mp (findall_eq_nil.mp hnone k hk)
  · exact .inr (.inl (by rw [isIn_of_run_literal hword, Bool.true_or]))
  · exact .inr (.inl (by rw [isIn_of_run_literal hword, Bool.or_true]))
  · exact .inr (.inr (.inl (by rw [isIn_of_run_literal hword, Bool.true_or])))
  · exact .inr (.inr (.inl (by rw [isIn_of_run_literal hword, Bool.or_true])))
  · refine .inr (.inr (.inr (search_isSome.mpr ⟨k, hk, fun hnone => hrelative ?_⟩)))
    exact run_relative_eq_nil.mp hnone

/-- The window of an explicit time does not depend on the service. -/
theorem window_of_temporal {planner : Planner} (zone : Zone) (service service' : ServiceOption) (now : DateTime)
    (h : (search (temporal planner.py) text).isSome = true) :
    rules.window planner zone text service now = rules.window planner zone text service' now := by
  unfold rules.window
  split
  · rfl
  · rename_i hdate
    obtain hdate' | hyesterday | htoday | hrelative := explicit_of_temporal h
    · exact absurd hdate hdate'
    · rw [if_pos hyesterday, if_pos hyesterday]
    · rw [if_pos htoday, if_pos htoday]
    · obtain ⟨found, hfound⟩ := Option.isSome_iff_exists.mp hrelative
      rw [hfound]

end Temporal

/-- A plan is for a given window. -/
def Interpretation.Covers (zone : Zone) (plan : Interpretation) (start stop : DateTime) : Prop :=
  ∃ s e, plan.start = some s ∧ plan.stop = some e ∧ s.instant zone = start.instant zone ∧
    e.instant zone = stop.instant zone

section Ready

variable {planner : Planner} {zone : Zone} {b : NaturalRequest} {model : Option (Except Raised ModelOutput)}
  {now start stop : DateTime}

theorem rules_of_service {service service' : ServiceOption} {explanation : String}
    (htemporal : (search (temporal planner.py) b.text).isSome = true)
    (hnow : DateTime.ofInstant zone b.now = .ok now) (hservice : rules.service planner.py b = .ok service)
    (hwindow : rules.window planner zone b.text service' now = .ok (start, stop, explanation)) :
    ∃ plan, rules planner zone b = .ok plan ∧ plan.clarification = none ∧ plan.start = some start ∧
      plan.stop = some stop := by
  rw [window_of_temporal zone service' service now htemporal] at hwindow
  let plan : Interpretation :=
    { service := some service.id, start := some start, stop := some stop, query := rules.query planner.py b.text
      explanation := if explanation = "" then "按描述中的服务和历史时间检索" else explanation, clarification := none }
  refine ⟨plan, ?_, rfl, rfl, rfl⟩
  simp only [rules, hnow, hservice, hwindow, bind, Except.bind, pure, Except.pure]
  rfl

theorem rules_of_no_service {clarification : String} (hnow : DateTime.ofInstant zone b.now = .ok now)
    (hservice : rules.service planner.py b = .error clarification) :
    rules planner zone b = .ok (rules.asking clarification) := by
  simp only [rules, hnow, hservice, bind, Except.bind, pure, Except.pure]

/-- Where the rules find no service, only the model's plan can be ready. -/
theorem firstPlan_eq_ok {first : Interpretation} {clarification : String}
    (hservice : rules.service planner.py b = .error clarification) (hfirst : firstPlan planner zone b model = .ok first) :
    first = rules.asking clarification ∨ ∃ m, model = some (.ok m) ∧ first = m.interpretation := by
  cases model with
  | none =>
    rw [firstPlan, rules] at hfirst
    obtain ⟨now, hnow, -⟩ := ok_of_bind hfirst
    exact .inl (Except.ok.inj ((rules_of_no_service hnow hservice).symm.trans hfirst)).symm
  | some output =>
    cases output with
    | error error => cases hfirst
    | ok m => exact .inr ⟨m, rfl, (Except.ok.inj hfirst).symm⟩

/-- A request whose time is explicit gets the window that the rules read from it
if and only if they find its service, or the model has the same window. -/
theorem explicit_window_iff (planner : Planner) (b : NaturalRequest) (model : Option (Except Raised ModelOutput))
    (plan : Interpretation) (mode : String) (zone : Zone) (service : ServiceOption) (now start stop : DateTime)
    (explanation : String) (hready : interpret planner b model = .ok (.ready plan mode))
    (htemporal : (search (temporal planner.py) b.text).isSome = true)
    (hzone : planner.ZoneInfo b.timezone = some zone) (hnow : DateTime.ofInstant zone b.now = .ok now)
    (hwindow : rules.window planner zone b.text service now = .ok (start, stop, explanation)) :
    plan.Covers zone start stop ↔ (∃ service, rules.service planner.py b = .ok service) ∨
      ∃ m, model = some (.ok m) ∧ m.interpretation.Covers zone start stop := by
  obtain ⟨zone', first, hzone', hfirst, htimed, hspan⟩ := interpret_ready hready
  obtain rfl := Option.some.inj (hzone.symm.trans hzone')
  rw [timed, if_pos htemporal] at htimed
  cases hservice : rules.service planner.py b with
  | ok found =>
    obtain ⟨concrete, hconcrete, hask, hstart, hstop⟩ := rules_of_service htemporal hnow hservice hwindow
    simp only [hconcrete, hask, Option.isSome_none, Bool.false_eq_true, if_false, Except.ok.injEq,
      Option.some.injEq] at htimed
    subst htimed
    exact iff_of_true ⟨start, stop, hstart, hstop, rfl, rfl⟩ (.inl ⟨found, rfl⟩)
  | error clarification =>
    simp only [rules_of_no_service hnow hservice, rules.asking, Option.isSome_some, if_true, Except.ok.injEq,
      Option.some.injEq] at htimed
    subst htimed
    obtain rfl | ⟨m, rfl, rfl⟩ := firstPlan_eq_ok hservice hfirst
    · cases hspan
    · simp only [reduceCtorEq, exists_false, false_or, Option.some.injEq, Except.ok.injEq, exists_eq_left']
      exact Iff.rfl

/-- A text names one of the services that are accessible, in the rules' sense. -/
def Names (py : Python) (b : NaturalRequest) : Prop :=
  ∃ s ∈ b.services, ∃ a ∈ s.id :: s.name :: s.aliases, a ≠ "" ∧ isIn (py.lower a) (py.lower b.text) = true

/-- The plan of the model passes every check of `interpret`, on a text that the
rules find no service in. -/
structure LetThrough (planner : Planner) (b : NaturalRequest) (zone : Zone) (m : ModelOutput) : Prop where
  names : ∀ found ∈ findall (serviceName planner.py) b.text,
    planner.py.casefold (matchText found) ∈ (names b).map planner.py.casefold
  answers : m.clarification.filter (· ≠ "") = none
  service : ∃ id, m.service = some id ∧ id ∈ b.services.map (·.id)
  window : spanOk zone m.interpretation = true
  clock : (search (temporal planner.py) b.text).isSome = true → ∃ now, DateTime.ofInstant zone b.now = .ok now

/-- The rules ask back about a known name that no accessible service has. -/
theorem service_of_known (hunnamed : ¬ Names planner.py b)
    (hknown : (search (knownName planner.py) b.text).isSome = true) :
    ∃ clarification, rules.service planner.py b = .error clarification ∧ clarification ≠ "" := by
  have hnamed : (b.services.filter fun s => (s.id :: s.name :: s.aliases).any fun a =>
      a ≠ "" && isIn (planner.py.lower a) (planner.py.lower b.text)) = [] := by
    rw [List.filter_eq_nil_iff]
    intro s hs hany
    obtain ⟨a, ha, hin⟩ := List.any_eq_true.mp hany
    exact hunnamed ⟨s, hs, a, ha, by simpa using hin⟩
  have hwhich (names : List String) : "请指定一个可访问的服务：" ++ "、".intercalate names ≠ "" := by
    intro h
    have hlength := congrArg String.length h
    simp at hlength
  simp only [rules.service, hnamed]
  split
  · simp at *
  · rw [if_pos hknown]
    exact ⟨_, rfl, hwhich _⟩
  · exact ⟨_, rfl, hwhich _⟩
  · simp at *

theorem conclude_eq_ready {plan last : Interpretation} {mode mode' : String} :
    conclude zone b last mode' = .ok (.ready plan mode) ↔ last.clarification.filter (· ≠ "") = none ∧
      (∃ id, last.service = some id ∧ id ∈ b.services.map (·.id)) ∧ spanOk zone last = true ∧ plan = last ∧
        mode = mode' := by
  unfold conclude
  generalize b.services.map (·.id) = ids
  cases last.clarification.filter (· ≠ "") with
  | some clarification => simp
  | none =>
    cases hservice : last.service with
    | none => simp
    | some id =>
      by_cases hid : id ∈ ids
      · by_cases hspan : spanOk zone last = true
        · simp [hid, hspan, eq_comm]
        · simp [hid, hspan]
      · simp [hid]

/-- Where the rules find no service they leave a plan as it is. -/
theorem timed_eq_some {plan last : Interpretation} {clarification : String}
    (hservice : rules.service planner.py b = .error clarification) :
    timed planner zone b plan = .ok (some last) ↔ last = plan ∧
      ((search (temporal planner.py) b.text).isSome = true → ∃ now, DateTime.ofInstant zone b.now = .ok now) := by
  unfold timed
  by_cases htemporal : (search (temporal planner.py) b.text).isSome = true
  · rw [if_pos htemporal]
    cases hnow : DateTime.ofInstant zone b.now with
    | ok now =>
      simp only [rules_of_no_service hnow hservice, rules.asking, Option.isSome_some, if_true, Except.ok.injEq,
        Option.some.injEq]
      exact ⟨fun h => ⟨h.symm, fun _ => ⟨now, rfl⟩⟩, fun h => h.1.symm⟩
    | error error =>
      have hrules : rules planner zone b = .error error := by
        simp only [rules, hnow, bind, Except.bind]
      rw [hrules]
      refine iff_of_false (fun h => ?_) fun h => ?_
      · cases error <;> cases h
      · obtain ⟨now, hnow⟩ := h.2 htemporal
        cases hnow
  · rw [if_neg htemporal]
    simp only [Except.ok.injEq, Option.some.injEq]
    exact ⟨fun h => ⟨h.symm, fun h => absurd h htemporal⟩, fun h => h.1.symm⟩

/-- What names no accessible service but a known one comes to no plan, unless
there is a plan of the model that passes all the checks. -/
theorem inaccessible_domain_iff (planner : Planner) (b : NaturalRequest) (model : Option (Except Raised ModelOutput))
    (hunnamed : ¬ Names planner.py b) (hknown : (search (knownName planner.py) b.text).isSome = true) :
    (∀ plan mode, interpret planner b model ≠ .ok (.ready plan mode)) ↔
      ¬ ∃ zone m, planner.ZoneInfo b.timezone = some zone ∧ model = some (.ok m) ∧ LetThrough planner b zone m := by
  obtain ⟨clarification, hservice, hclarification⟩ := service_of_known hunnamed hknown
  constructor
  · rintro hnever ⟨zone, m, hzone, rfl, hthrough⟩
    have hservices : b.services ≠ [] := by
      rintro hnone
      obtain ⟨id, -, hid⟩ := hthrough.service
      simp [hnone] at hid
    let last : Interpretation := { m.interpretation with query := refine planner.py b m.interpretation.query }
    have htimed : timed planner zone b last = .ok (some last) := (timed_eq_some hservice).mpr ⟨rfl, hthrough.clock⟩
    have hlast : conclude zone b last "mistral" = .ok (.ready last "mistral") :=
      conclude_eq_ready.mpr ⟨hthrough.answers, hthrough.service, hthrough.window, rfl, rfl⟩
    refine hnever last "mistral" ?_
    have hnames : ((findall (serviceName planner.py) b.text).any fun found =>
        planner.py.casefold (matchText found) ∉ (names b).map planner.py.casefold) = false := by
      simpa using hthrough.names
    simp only [interpret, hservices, hzone, hnames, firstPlan, Except.map, bind, Except.bind, pure, Except.pure,
      Bool.false_eq_true, if_false, Option.isSome_some, if_true]
    rw [htimed]
    exact hlast
  · rintro hnone plan mode h
    obtain ⟨zone, first, last, hzone, hnames, hfirst, htimed, hlast⟩ := interpret_steps h
    obtain ⟨rfl, hclock⟩ := (timed_eq_some hservice).mp htimed
    obtain ⟨hanswers, hid, hspan, -, -⟩ := conclude_eq_ready.mp hlast
    obtain rfl | ⟨m, hm, rfl⟩ := firstPlan_eq_ok hservice hfirst
    · simp [rules.asking, hclarification] at hanswers
    · exact hnone ⟨zone, m, hzone, hm, hnames, hanswers, hid, hspan, hclock⟩

end Ready

/-- The clock in UTC. -/
def utc : Zone := { utcoffset := fun _ _ => 0, fromutc := fun instant => (instant, false) }

/-- Ten minutes after one o'clock. -/
def tenPastOne : Int := thatDay + datetime.hour + 600 * second

/-- A wall clock time of the request's zone. -/
def local_ (wall : Int) : DateTime := { wall, fold := false, tz := .named }

/-- A request of someone who may query the orders service, and the payments
service if it is given. -/
def asks (text : String) (payments : List ServiceOption) : NaturalRequest :=
  { text, timezone := "UTC", now := tenPastOne
    services := { id := "svc-17", name := "订单服务", aliases := [], available_to := none } :: payments }

def payments : ServiceOption := { id := "svc-23", name := "支付服务", aliases := [], available_to := none }

/-- The model chooses the orders service and the last hour. -/
def lastHour : ModelOutput :=
  { service := some "svc-17", start := some (tenPastOne - datetime.hour, some 0), stop := some (tenPastOne, some 0)
    query := { mode := "anomalies", terms := [], levels := [] }, valid := rfl
    explanation := "订单服务的最近一小时", clarification := none }

theorem last_half_hour_covered :
    (halfHourPlan (thatDay + 2400 * second) (thatDay + 4200 * second)).Covers utc (local_ (thatDay + 2400 * second))
      (local_ (thatDay + 4200 * second)) := by
  refine (explicit_window_iff planning (lastHalfHour "UTC") none _ "rules-no-model" utc payments (local_ tenPastOne) _ _ ""
    (by decide +kernel) (by decide +kernel) rfl (by decide +kernel) (by decide +kernel)).mpr (.inl ?_)
  exact ⟨_, rfl⟩

/-- Nothing in the text tells which of the two services is meant, so the window
of the model stays where yesterday is asked for. -/
theorem yesterday_not_covered :
    let plan : Interpretation :=
      { lastHour.interpretation with query := { mode := "anomalies", terms := [], levels := [] } }
    interpret planning (asks "昨天有哪些异常" [payments]) (some (.ok lastHour)) = .ok (.ready plan "mistral") ∧
      (search (temporal planning.py) "昨天有哪些异常").isSome = true ∧
      rules.window planning utc "昨天有哪些异常" payments (local_ tenPastOne) =
        .ok (local_ (thatDay - day), local_ (thatDay - 1), "") ∧
      ¬ plan.Covers utc (local_ (thatDay - day)) (local_ (thatDay - 1)) := by
  refine ⟨by decide +kernel, by decide +kernel, by decide +kernel, ?_⟩
  rintro ⟨s, e, hs, he, hstart, -⟩
  obtain rfl := Option.some.inj hs
  revert hstart
  decide +kernel

theorem svc_23_refused : (search (knownName planning.py) "svc-23 的错误日志").isSome = true ∧
    ∀ plan mode, interpret planning (asks "svc-23 的错误日志" []) (some (.ok lastHour)) ≠ .ok (.ready plan mode) := by
  have hknown : (search (knownName planning.py) "svc-23 的错误日志").isSome = true := by decide +kernel
  refine ⟨hknown, (inaccessible_domain_iff planning (asks "svc-23 的错误日志" []) _ (by unfold Names; decide +kernel)
    hknown).mpr ?_⟩
  rintro ⟨zone, m, -, -, hnames, -⟩
  revert hnames
  decide +kernel

/-- The payments service is not accessible, and the orders service is searched
instead. -/
theorem payments_swapped : ¬ Names planning.py (asks "支付的错误日志" []) ∧
    (search (knownName planning.py) "支付的错误日志").isSome = true ∧
    interpret planning (asks "支付的错误日志" []) (some (.ok lastHour)) =
      .ok (.ready { lastHour.interpretation with query := { mode := "anomalies", terms := [], levels := [] } } "mistral") := by
  refine ⟨?_, by decide +kernel, by decide +kernel⟩
  unfold Names
  decide +kernel

end incidentdesk.worker
