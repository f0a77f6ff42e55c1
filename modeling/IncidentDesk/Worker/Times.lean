import IncidentDesk.Calendar
import IncidentDesk.Worker.Scope

namespace incidentdesk

namespace datetime

/-- A day of the calendar and a time of day, in the years that Python has. -/
structure Exists (y m d h minute s : Int) : Prop where
  year : 1 ≤ y ∧ y ≤ 9999
  month : 1 ≤ m ∧ m ≤ 12
  day : 1 ≤ d ∧ d ≤ daysInMonth y m
  hour : 0 ≤ h ∧ h ≤ 23
  minute : 0 ≤ minute ∧ minute ≤ 59
  second : 0 ≤ s ∧ s ≤ 59

/-- The wall clock time of a day and a time of day. -/
def wall (y m d h minute s : Int) : Int :=
  toordinal y m d * day + h * hour + minute * (60 * second) + s * second

theorem construct_eq_ok {y m d h minute s : Int} {t : DateTime} : construct y m d h minute s = .ok t ↔
    Exists y m d h minute s ∧ t = { wall := wall y m d h minute s, fold := false, tz := .named } := by
  unfold construct
  split
  · rename_i hnone
    constructor
    · rintro ⟨⟩
    · rintro ⟨⟨hyear, hmonth, hday, hhour, hminute, hsecond⟩, -⟩
      omega
  · rename_i hsome
    simp only [not_or, not_lt, gt_iff_lt] at hsome
    obtain ⟨hy, hy', hm, hm', hd, hd', hh, hh', hminute, hminute', hs, hs'⟩ := hsome
    constructor
    · rintro ⟨⟩
      exact ⟨⟨⟨hy, hy'⟩, ⟨hm, hm'⟩, ⟨hd, hd'⟩, ⟨hh, hh'⟩, ⟨hminute, hminute'⟩, hs, hs'⟩, rfl⟩
    · rintro ⟨-, rfl⟩
      rfl

/-- Python has a wall clock time for all that exists. -/
theorem Exists.wall_bounds {y m d h minute s : Int} (ht : Exists y m d h minute s) :
    0 ≤ wall y m d h minute s ∧ wall y m d h minute s < maxWall := by
  obtain ⟨hlow, hhigh⟩ := dayOfYear_bounds ht.month ht.day
  obtain ⟨hy, hy'⟩ := ht.year
  have hleap : isLeap y = true → y % 4 = 0 := by
    intro h
    simp only [isLeap, Bool.and_eq_true, decide_eq_true_eq] at h
    exact h.1
  have hordinal : 0 ≤ toordinal y m d ∧ toordinal y m d < 3652059 := by
    rw [toordinal_eq]
    cases hy4 : isLeap y with
    | true =>
      have := hleap hy4
      rw [hy4, if_pos rfl] at hhigh
      omega
    | false =>
      rw [hy4, if_neg Bool.false_ne_true] at hhigh
      omega
  obtain ⟨hh, hh'⟩ := ht.hour
  obtain ⟨hminute, hminute'⟩ := ht.minute
  obtain ⟨hs, hs'⟩ := ht.second
  simp only [wall, maxWall, datetime.day, datetime.hour, datetime.second]
  omega

end datetime

theorem DateTime.add_eq_ok {t t' : DateTime} {delta : Int} : t.add delta = .ok t' ↔
    (0 ≤ t.wall + delta ∧ t.wall + delta < datetime.maxWall) ∧ t' = { t with wall := t.wall + delta, fold := false } := by
  unfold add
  split
  · rename_i hwithin
    simp [hwithin, eq_comm]
  · rename_i hbeyond
    simp [hbeyond]

namespace worker

open natural
open datetime (day hour second maxWall)
open regex (Pos findall search)

namespace natural

variable (py : Python)

/-- The numbers of a date in a text are a time that exists. -/
def Reads (found : Pos × Pos) (t : Int) : Prop :=
  ∃ y m d h minute s, groupInt py found 1 = .ok y ∧ groupInt py found 2 = .ok m ∧ groupInt py found 3 = .ok d ∧
    groupInt py found 4 = .ok h ∧ groupInt py found 5 = .ok minute ∧ groupInt py found 6 = .ok s ∧
    datetime.Exists y m d h minute s ∧ t = datetime.wall y m d h minute s

/-- The day that follows a date without a time of day, or the hour after one with it,
is not over after the last time that Python has. -/
def Spans (found : Pos × Pos) (t after : Int) : Prop := t + (if groupText found 4 = "" then day else after) < maxWall

/-- The dates of a text exist, with the end that they give: the first two of them count. -/
def DatesExist (first : Pos × Pos) (more : List (Pos × Pos)) : Prop :=
  match more with
  | [] => ∃ t, Reads py first t ∧ Spans first t hour
  | second :: _ => (∃ t, Reads py first t) ∧ ∃ t, Reads py second t ∧ Spans second t 0 ∧
      (groupText second 4 ≠ "" → 0 < t)

/-- So many minutes, hours or days before `now` there were clocks. -/
def SpanExists (now : Int) (found : Pos × Pos) : Prop :=
  ∃ amount, groupInt py found 1 = .ok amount ∧ 0 ≤ now - rules.unitSeconds (groupText found 2) * amount * second ∧
    now - rules.unitSeconds (groupText found 2) * amount * second < maxWall

/-- A text says yesterday or today. -/
def saysDay (text : String) : Bool := isIn "昨天" text || isIn "昨日" text || isIn "今天" text || isIn "今日" text

/-- The times that the numbers of a text stand for exist, with `now` on the clock. -/
def TimesExist (now : Int) (text : String) : Prop :=
  match findall (date py) text with
  | first :: more => DatesExist py first more
  | [] => saysDay text = false → ∀ found, search (relative py) text = some found → SpanExists py now found

/-- The window of a text comes from its numbers. -/
def saysNumbers (text : String) : Bool :=
  !(findall (date py) text).isEmpty || (!saysDay text && (search (relative py) text).isSome)

end natural

section Reading

variable {planner : Planner} {zone : Zone} {now t : DateTime} {text : String} {service : ServiceOption}
  {found first : Pos × Pos} {more : List (Pos × Pos)} {py : Python}

theorem parse_eq_ok : parse py found = .ok t ↔
    ∃ wall, Reads py found wall ∧ t = { wall, fold := false, tz := .named } := by
  constructor
  · intro h
    unfold parse at h
    obtain ⟨y, hy, h⟩ := ok_of_bind h
    obtain ⟨m, hm, h⟩ := ok_of_bind h
    obtain ⟨d, hd, h⟩ := ok_of_bind h
    obtain ⟨h', hh, h⟩ := ok_of_bind h
    obtain ⟨minute, hminute, h⟩ := ok_of_bind h
    obtain ⟨s, hs, h⟩ := ok_of_bind h
    obtain ⟨hexists, rfl⟩ := datetime.construct_eq_ok.mp h
    exact ⟨_, ⟨y, m, d, h', minute, s, hy, hm, hd, hh, hminute, hs, hexists, rfl⟩, rfl⟩
  · rintro ⟨wall, ⟨y, m, d, h, minute, s, hy, hm, hd, hh, hminute, hs, hexists, rfl⟩, rfl⟩
    have hbuilt := datetime.construct_eq_ok.mpr ⟨hexists, rfl⟩
    simpa [parse, hy, hm, hd, hh, hminute, hs, bind, Except.bind] using hbuilt

theorem reads_bounds {wall : Int} (h : Reads py found wall) : 0 ≤ wall ∧ wall < maxWall := by
  obtain ⟨y, m, d, h', minute, s, -, -, -, -, -, -, hexists, rfl⟩ := h
  exact hexists.wall_bounds

/-- Two results that are there for the same inputs. -/
theorem isOk_bind {ε α β : Type} {x : Except ε α} {f : α → Except ε β} :
    (∃ result, x >>= f = .ok result) ↔ ∃ value, x = .ok value ∧ ∃ result, f value = .ok result := by
  constructor
  · rintro ⟨result, h⟩
    obtain ⟨value, hvalue, h⟩ := ok_of_bind h
    exact ⟨value, hvalue, result, h⟩
  · rintro ⟨value, rfl, result, h⟩
    exact ⟨result, h⟩

/-- A time can be moved where Python has one there. -/
theorem add_isOk {wall delta : Int} {fold : Bool} {tz : Tz} :
    (∃ t', ({ wall, fold, tz } : DateTime).add delta = .ok t') ↔ 0 ≤ wall + delta ∧ wall + delta < maxWall := by
  simp only [DateTime.add_eq_ok, exists_and_left, exists_eq, and_true]

/-- The end of a window, and the microsecond that is taken from it. -/
theorem endAt_isOk {wall delta : Int} (hdelta : 0 < delta) (hwall : 0 ≤ wall) :
    (∃ stop, (({ wall, fold := false, tz := .named } : DateTime).add delta) = .ok stop ∧
      ∃ stop', stop.add (-1) = .ok stop') ↔ wall + delta < maxWall := by
  constructor
  · rintro ⟨stop, hstop, -⟩
    exact (DateTime.add_eq_ok.mp hstop).1.2
  · intro hlast
    refine ⟨_, DateTime.add_eq_ok.mpr ⟨⟨by simp only; omega, hlast⟩, rfl⟩, add_isOk.mpr ?_⟩
    simp only
    omega

theorem datedEnd_isOk {start : Int} (hstart : 0 ≤ start) : (∃ stop,
    rules.datedEnd py first { wall := start, fold := false, tz := .named } more = .ok stop ∧
      ∃ stop', stop.add (-1) = .ok stop') ↔
    match more with
    | [] => Spans first start hour
    | second :: _ => ∃ t, Reads py second t ∧ Spans second t 0 ∧ (groupText second 4 ≠ "" → 0 < t) := by
  cases more with
  | nil =>
    simp only [rules.datedEnd, Spans]
    by_cases hclock : groupText first 4 = ""
    · rw [if_pos hclock]
      exact endAt_isOk (by decide) hstart
    · rw [if_neg hclock]
      exact endAt_isOk (by decide) hstart
  | cons second more =>
    simp only [rules.datedEnd, Spans]
    constructor
    · rintro ⟨stop, hstop, stop', hstop'⟩
      obtain ⟨last, hlast, hstop⟩ := ok_of_bind hstop
      obtain ⟨t, ht, rfl⟩ := parse_eq_ok.mp hlast
      refine ⟨t, ht, ?_⟩
      by_cases hclock : groupText second 4 = ""
      · rw [if_pos hclock] at hstop ⊢
        exact ⟨(DateTime.add_eq_ok.mp hstop).1.2, fun h => absurd hclock h⟩
      · rw [if_neg hclock] at hstop ⊢
        cases hstop
        have hbounds := (DateTime.add_eq_ok.mp hstop').1
        simp only at hbounds
        have := reads_bounds ht
        exact ⟨by omega, fun _ => by omega⟩
    · rintro ⟨t, ht, hspan, hpositive⟩
      have hlast := parse_eq_ok.mpr ⟨t, ht, rfl⟩
      have hbounds := reads_bounds ht
      simp only [hlast, bind, Except.bind]
      by_cases hclock : groupText second 4 = ""
      · simp only [if_pos hclock] at hspan ⊢
        exact (endAt_isOk (by decide) hbounds.1).mpr hspan
      · simp only [if_neg hclock, pure, Except.pure]
        have := hpositive hclock
        exact ⟨_, rfl, add_isOk.mpr (by omega)⟩

/-- A computation of which no step raises a `TypeError`. -/
def Typed {α : Type} (x : Except Raised α) : Prop := x ≠ .error .TypeError

theorem typed_bind {α β : Type} {x : Except Raised α} {f : α → Except Raised β} (hx : Typed x)
    (hf : ∀ value, Typed (f value)) : Typed (x >>= f) := by
  cases x with
  | error error =>
    rintro ⟨⟩
    exact hx rfl
  | ok value => exact hf value

theorem typed_ok {α : Type} (value : α) : Typed (.ok value) := nofun

theorem typed_add (t : DateTime) (delta : Int) : Typed (t.add delta) := by
  unfold DateTime.add
  split
  · exact typed_ok _
  · simp [Typed]

theorem typed_groupInt (n : Nat) : Typed (groupInt py found n) := by
  unfold groupInt
  split
  · exact typed_ok 0
  · cases py.int (groupText found n) <;> simp [Typed]

theorem typed_parse : Typed (parse py found) := by
  refine typed_bind (typed_groupInt 1) fun y => typed_bind (typed_groupInt 2) fun m =>
    typed_bind (typed_groupInt 3) fun d => typed_bind (typed_groupInt 4) fun h =>
    typed_bind (typed_groupInt 5) fun minute => typed_bind (typed_groupInt 6) fun s => ?_
  unfold datetime.construct
  split
  · simp [Typed]
  · simp [Typed]

theorem typed_dated : Typed (rules.dated py first more) := by
  refine typed_bind typed_parse fun start => typed_bind ?_ fun stop => typed_bind (typed_add stop (-1)) fun stop' =>
    typed_ok (start, stop')
  cases more with
  | nil => exact typed_add _ _
  | cons second more =>
    refine typed_bind typed_parse fun last => ?_
    split
    · exact typed_add last day
    · exact typed_ok last

/-- The rules read dates where these exist, with the end that they give. -/
theorem dated_isOk : (∃ result, rules.dated py first more = .ok result) ↔ DatesExist py first more := by
  have hsteps : (∃ result, rules.dated py first more = .ok result) ↔ ∃ start, Reads py first start ∧
      ∃ stop, rules.datedEnd py first { wall := start, fold := false, tz := .named } more = .ok stop ∧
        ∃ stop', stop.add (-1) = .ok stop' := by
    unfold rules.dated
    constructor
    · rintro ⟨result, h⟩
      obtain ⟨start, hstart, h⟩ := ok_of_bind h
      obtain ⟨stop, hstop, h⟩ := ok_of_bind h
      obtain ⟨stop', hstop', -⟩ := ok_of_bind h
      obtain ⟨wall, hreads, rfl⟩ := parse_eq_ok.mp hstart
      exact ⟨wall, hreads, stop, hstop, stop', hstop'⟩
    · rintro ⟨wall, hreads, stop, hstop, stop', hstop'⟩
      have hstart := parse_eq_ok.mpr ⟨wall, hreads, rfl⟩
      simp only [hstart, hstop, hstop', bind, Except.bind, pure, Except.pure]
      exact ⟨_, rfl⟩
  rw [hsteps]
  unfold DatesExist
  cases more with
  | nil =>
    exact exists_congr fun start => and_congr_right fun hreads => datedEnd_isOk (reads_bounds hreads).1
  | cons second more =>
    constructor
    · rintro ⟨start, hreads, hend⟩
      exact ⟨⟨start, hreads⟩, (datedEnd_isOk (reads_bounds hreads).1).mp hend⟩
    · rintro ⟨⟨start, hreads⟩, hend⟩
      exact ⟨start, hreads, (datedEnd_isOk (reads_bounds hreads).1).mpr hend⟩

/-- Where the window comes from the numbers of a text, the rules have one if and
only if these numbers stand for times that exist. -/
theorem window_isOk (hsaid : saysNumbers planner.py text = true) :
    (∃ result, rules.window planner zone text service now = .ok result) ↔ TimesExist planner.py now.wall text := by
  unfold rules.window TimesExist
  unfold saysNumbers at hsaid
  cases hdates : findall (date planner.py) text with
  | cons first more =>
    simp only
    rw [← dated_isOk]
    constructor
    · rintro ⟨result, h⟩
      obtain ⟨value, hvalue, -⟩ := ok_of_bind h
      exact ⟨value, hvalue⟩
    · rintro ⟨⟨start, stop⟩, h⟩
      exact ⟨_, by rw [h]; rfl⟩
  | nil =>
    simp only [hdates, List.isEmpty_nil, Bool.not_true, Bool.false_or, Bool.and_eq_true, Bool.not_eq_true'] at hsaid
    obtain ⟨hday, hsome⟩ := hsaid
    obtain ⟨found, hfound⟩ := Option.isSome_iff_exists.mp hsome
    have hwords := hday
    simp only [saysDay, Bool.or_eq_false_iff] at hwords
    obtain ⟨⟨⟨h₁, h₂⟩, h₃⟩, h₄⟩ := hwords
    simp only [h₁, h₂, h₃, h₄, hfound, hday, Option.some.injEq, forall_eq', Bool.or_self, Bool.false_eq_true, if_false,
      true_implies]
    constructor
    · rintro ⟨result, h⟩
      obtain ⟨amount, hamount, h⟩ := ok_of_bind h
      obtain ⟨start, hstart, -⟩ := ok_of_bind h
      have hbounds := (DateTime.add_eq_ok.mp hstart).1
      exact ⟨amount, hamount, by omega, by omega⟩
    · rintro ⟨amount, hamount, hlow, hhigh⟩
      obtain ⟨start, hstart⟩ : ∃ start, now.add (-(rules.unitSeconds (groupText found 2) * amount * second)) = .ok start :=
        ⟨_, DateTime.add_eq_ok.mpr ⟨by omega, rfl⟩⟩
      simp only [hamount, hstart, bind, Except.bind, pure, Except.pure]
      exact ⟨_, rfl⟩

/-- Numbers in a text do not make the rules compare a time without a zone. -/
theorem typed_window (hsaid : saysNumbers planner.py text = true) :
    Typed (rules.window planner zone text service now) := by
  unfold rules.window
  unfold saysNumbers at hsaid
  cases hdates : findall (date planner.py) text with
  | cons first more => exact typed_bind typed_dated fun _ => typed_ok _
  | nil =>
    simp only [hdates, List.isEmpty_nil, Bool.not_true, Bool.false_or, Bool.and_eq_true, Bool.not_eq_true'] at hsaid
    obtain ⟨hday, hsome⟩ := hsaid
    obtain ⟨found, hfound⟩ := Option.isSome_iff_exists.mp hsome
    simp only [saysDay, Bool.or_eq_false_iff] at hday
    obtain ⟨⟨⟨h₁, h₂⟩, h₃⟩, h₄⟩ := hday
    simp only [h₁, h₂, h₃, h₄, hfound, Bool.or_self, Bool.false_eq_true, if_false]
    exact typed_bind (typed_groupInt 1) fun amount => typed_bind (typed_add now _) fun _ => typed_ok _

end Reading

/-- Why a request may fail that has nothing to do with the times that its text
names: the model's answer, the clock, or the last log of a service. -/
inductive Elsewhere (planner : Planner) (zone : Zone) (b : NaturalRequest) :
    Option (Except Raised ModelOutput) → Raised → Prop
  | answer (error : Raised) : Elsewhere planner zone b (some (.error error)) error
  | scope {m : ModelOutput} (hservice : m.service.all (· ∉ b.services.map (·.id)) = true) :
      Elsewhere planner zone b (some (.ok m)) .ValueError
  | clock {model : Option (Except Raised ModelOutput)} {error : Raised}
      (hnow : DateTime.ofInstant zone b.now = .error error) : Elsewhere planner zone b model error
  | source {model : Option (Except Raised ModelOutput)} {error : Raised} {service : ServiceOption} {now : DateTime}
      (hsaid : saysNumbers planner.py b.text = false)
      (hwindow : rules.window planner zone b.text service now = .error error) : Elsewhere planner zone b model error

/-- A request whose times the rules come to read: the services that its text names are
accessible, and it is clear which one is meant. -/
def Timed (planner : Planner) (zone : Zone) (b : NaturalRequest) (now : DateTime) : Prop :=
  (∀ found ∈ findall (serviceName planner.py) b.text,
    planner.py.casefold (matchText found) ∈ (names b).map planner.py.casefold) ∧
    (∃ service, rules.service planner.py b = .ok service) ∧ DateTime.ofInstant zone b.now = .ok now

section Interpret

variable {planner : Planner} {zone : Zone} {b : NaturalRequest} {model : Option (Except Raised ModelOutput)}
  {error : Raised} {plan : Interpretation} {now : DateTime} {service : ServiceOption}

theorem timesExist_of_not_said (h : saysNumbers planner.py b.text = false) (now : Int) :
    TimesExist planner.py now b.text := by
  unfold saysNumbers at h
  unfold TimesExist
  cases hdates : findall (date planner.py) b.text with
  | cons first more => simp [hdates] at h
  | nil =>
    intro hday found hfound
    simp [hdates, hday, hfound] at h

theorem service_mem (h : rules.service planner.py b = .ok service) : service ∈ b.services := by
  unfold rules.service at h
  dsimp only at h
  split at h
  · rename_i hnamed
    cases h
    exact (List.mem_filter.mp (hnamed ▸ List.mem_singleton_self _)).1
  · rename_i hservices
    split at h
    · cases h
    · cases h
      rw [hservices]
      exact List.mem_singleton_self _
  · cases h
  · cases h

theorem which_ne (names : String) : "请指定一个可访问的服务：" ++ names ≠ "" := by
  intro h
  have hlength := congrArg String.length h
  rw [String.length_append] at hlength
  have hsome : 0 < "请指定一个可访问的服务：".length := by decide
  have hnone : ("" : String).length = 0 := rfl
  omega

/-- The rules ask back with a question. -/
theorem question_ne {clarification : String} (h : rules.service planner.py b = .error clarification) :
    clarification ≠ "" := by
  unfold rules.service at h
  dsimp only at h
  split at h
  · cases h
  · split at h
    · cases h
      exact which_ne _
    · cases h
  · cases h
    exact which_ne _
  · cases h
    decide

/-- Where the rules fail. -/
theorem rules_error (h : rules planner zone b = .error error) : DateTime.ofInstant zone b.now = .error error ∨
    ∃ now service, DateTime.ofInstant zone b.now = .ok now ∧ rules.service planner.py b = .ok service ∧
      rules.window planner zone b.text service now = .error error := by
  unfold rules at h
  cases hnow : DateTime.ofInstant zone b.now with
  | error error' =>
    rw [hnow] at h
    cases h
    exact .inl rfl
  | ok now =>
    rw [hnow] at h
    refine .inr ⟨now, ?_⟩
    cases hservice : rules.service planner.py b with
    | error clarification =>
      simp only [hservice, bind, Except.bind] at h
      cases h
    | ok service =>
      simp only [hservice, bind, Except.bind] at h
      refine ⟨service, rfl, rfl, ?_⟩
      cases hwindow : rules.window planner zone b.text service now with
      | error error' =>
        simp only [hwindow] at h
        cases h
        rfl
      | ok window =>
        simp only [hwindow] at h
        cases h

theorem conclude_error {mode : String} (h : conclude zone b plan mode = .error error) :
    error = .ValueError ∧ plan.service.all (· ∉ b.services.map (·.id)) = true ∧
      plan.clarification.filter (· ≠ "") = none := by
  unfold conclude at h
  split at h
  · cases h
  · rename_i hnone
    split at h
    · rename_i hservice
      cases h
      exact ⟨rfl, hservice, hnone⟩
    · split at h <;> cases h

/-- What the rules plan is concluded. -/
theorem rules_concluded {mode : String} {first : Interpretation} (h : rules planner zone b = .ok first)
    (hservice : plan.service = first.service) (hclarification : plan.clarification = first.clarification) :
    conclude zone b plan mode ≠ .error error := by
  intro herror
  obtain ⟨-, hall, hnone⟩ := conclude_error herror
  rw [hservice] at hall
  rw [hclarification] at hnone
  unfold rules at h
  obtain ⟨now, -, h⟩ := ok_of_bind h
  split at h
  · rename_i clarification hasked
    cases h
    simp [rules.asking, question_ne hasked] at hnone
  · rename_i service hfound
    obtain ⟨window, -, h⟩ := ok_of_bind h
    cases h
    have hmem : service.id ∈ b.services.map (·.id) := List.mem_map_of_mem (service_mem hfound)
    simp only [Option.all_some, decide_eq_true_eq] at hall
    exact hall hmem

/-- The steps at which a request fails. -/
theorem interpret_error (hservices : b.services ≠ []) (hzone : planner.ZoneInfo b.timezone = some zone)
    (h : interpret planner b model = .error error) :
    (∀ found ∈ findall (serviceName planner.py) b.text,
      planner.py.casefold (matchText found) ∈ (names b).map planner.py.casefold) ∧
      (firstPlan planner zone b model = .error error ∨ ∃ first, firstPlan planner zone b model = .ok first ∧
        (rules planner zone b = .error .TypeError ∧ error = .TypeError ∨
          ∃ plan mode, conclude zone b plan mode = .error error ∧ plan.service = first.service ∧
            plan.clarification = first.clarification)) := by
  simp only [interpret, hservices, hzone, if_false, bind, Except.bind, pure, Except.pure] at h
  split at h
  · cases h
  rename_i hnames
  refine ⟨by simpa using hnames, ?_⟩
  cases hfirst : firstPlan planner zone b model with
  | error error' =>
    simp only [hfirst] at h
    cases h
    exact .inl rfl
  | ok first =>
    refine .inr ⟨first, rfl, ?_⟩
    simp only [hfirst] at h
    cases htimed : timed planner zone b { first with query := refine planner.py b first.query } with
    | error error' =>
      simp only [htimed] at h
      cases h
      unfold timed at htimed
      split at htimed
      · split at htimed
        · cases htimed
        · rename_i hrules
          cases htimed
          exact .inl ⟨hrules, rfl⟩
        · cases htimed
      · cases htimed
    | ok last =>
      cases last with
      | none => simp [htimed] at h
      | some last =>
        simp only [htimed] at h
        refine .inr ⟨last, _, h, ?_⟩
        unfold timed at htimed
        split at htimed
        · split at htimed
          · injection htimed with htimed
            injection htimed with htimed
            subst htimed
            split <;> exact ⟨rfl, rfl⟩
          · cases htimed
          · cases htimed
        · injection htimed with htimed
          injection htimed with htimed
          subst htimed
          exact ⟨rfl, rfl⟩

/-- A request comes to be planned by the rules. -/
theorem rules_timed (h : Timed planner zone b now) (hservices : b.services ≠ [])
    (hzone : planner.ZoneInfo b.timezone = some zone) (hrules : rules planner zone b = .error error) :
    interpret planner b none = .error error := by
  have hnames : ((findall (serviceName planner.py) b.text).any fun found =>
      planner.py.casefold (matchText found) ∉ (names b).map planner.py.casefold) = false := by
    simpa using h.1
  simp only [interpret, hservices, hzone, hnames, firstPlan, hrules, if_false, bind, Except.bind, Bool.false_eq_true]

/-- Without a model, the rules read the times of a text unguarded: a request fails
for nothing but another reason if and only if there is a model, or the times exist
in every request whose times the rules come to read. -/
theorem interpret_times_iff (planner : Planner) (zone : Zone) (b : NaturalRequest)
    (model : Option (Except Raised ModelOutput)) (hservices : b.services ≠ [])
    (hzone : planner.ZoneInfo b.timezone = some zone) :
    (∀ error, interpret planner b model = .error error → Elsewhere planner zone b model error) ↔
      (model = none → ∀ now, Timed planner zone b now → TimesExist planner.py now.wall b.text) := by
  constructor
  · rintro h rfl now htimed
    by_contra hmissing
    have hsaid : saysNumbers planner.py b.text = true := by
      by_contra hsaid
      exact hmissing (timesExist_of_not_said (by simpa using hsaid) now.wall)
    obtain ⟨-, ⟨service, hservice⟩, hnow⟩ := id htimed
    cases hwindow : rules.window planner zone b.text service now with
    | ok window => exact hmissing ((window_isOk hsaid).mp ⟨window, hwindow⟩)
    | error error =>
      have hrules : rules planner zone b = .error error := by
        simp only [rules, hnow, hservice, hwindow, bind, Except.bind]
      cases h error (rules_timed htimed hservices hzone hrules) with
      | clock hclock => cases hnow.symm.trans hclock
      | source hnone => cases hsaid.symm.trans hnone
  · intro h error herror
    have hother {error : Raised} (hrules : rules planner zone b = .error error)
        (hexist : ∀ now service, DateTime.ofInstant zone b.now = .ok now → rules.service planner.py b = .ok service →
          saysNumbers planner.py b.text = true → rules.window planner zone b.text service now ≠ .error error) :
        Elsewhere planner zone b model error := by
      obtain hclock | ⟨now, service, hnow, hservice, hwindow⟩ := rules_error hrules
      · exact .clock hclock
      · cases hsaid : saysNumbers planner.py b.text with
        | true => exact absurd hwindow (hexist now service hnow hservice hsaid)
        | false => exact .source hsaid hwindow
    obtain ⟨hnames, hfirst | ⟨first, hfirst, ⟨hrules, rfl⟩ | ⟨plan, mode, hconclude, hservice, hclarification⟩⟩⟩ :=
      interpret_error hservices hzone herror
    · cases model with
      | some output =>
        cases output with
        | error error' =>
          cases hfirst
          exact .answer error
        | ok m => cases hfirst
      | none =>
        refine hother hfirst fun now service hnow hservice hsaid hwindow => ?_
        obtain ⟨window, hok⟩ : ∃ window, rules.window planner zone b.text service now = .ok window :=
          (window_isOk hsaid).mpr (h rfl now ⟨hnames, ⟨service, hservice⟩, hnow⟩)
        cases hwindow.symm.trans hok
    · exact hother hrules fun now service _ _ hsaid => typed_window hsaid
    · cases model with
      | none => exact absurd hconclude (rules_concluded hfirst hservice hclarification)
      | some output =>
        cases output with
        | error error' => cases hfirst
        | ok m =>
          cases hfirst
          obtain ⟨rfl, hall, -⟩ := conclude_error hconclude
          rw [hservice] at hall
          exact .scope hall

end Interpret

/-- A model's plan is not lost for the thirteenth month. -/
theorem interpret_times_model : planning.ZoneInfo (asks "svc-17 2025-13-01" []).timezone = some utc ∧
    ∀ error, interpret planning (asks "svc-17 2025-13-01" []) (some (.ok lastHour)) = .error error →
      Elsewhere planning utc (asks "svc-17 2025-13-01" []) (some (.ok lastHour)) error :=
  ⟨rfl, (interpret_times_iff planning utc (asks "svc-17 2025-13-01" []) (some (.ok lastHour)) nofun rfl).mpr nofun⟩

/-- Without a model, a month or a span of time that does not exist makes a request fail. -/
theorem interpret_times_raised :
    interpret planning (asks "svc-17 2025-13-01" []) none = .error .ValueError ∧
      interpret planning (asks "svc-17 最近99999999天" []) none = .error .OverflowError ∧
      ¬ Elsewhere planning utc (asks "svc-17 2025-13-01" []) none .ValueError := by
  refine ⟨by decide +kernel, by decide +kernel, fun h => ?_⟩
  cases h with
  | clock hclock =>
    revert hclock
    decide +kernel
  | source hsaid =>
    revert hsaid
    decide +kernel

end worker

end incidentdesk
