import IncidentDesk.Query.Periods
import Mathlib.Algebra.Order.Ring.Cast
import Mathlib.Algebra.Order.Ring.Rat
import Mathlib.Data.Int.Interval
import Mathlib.Data.Set.Finite.Lemmas

namespace incidentdesk.query

open datetime (daysInMonth isLeap)

section Bounds

variable {ι α β : Type} [LinearOrder β] {ps : List ι} {e : α}

/-- Convex conditions that hold of one point and keep a finite set below it out
together include one that does so alone. -/
theorem exists_lower_bound (key : α → β) (holds : ι → α → Prop) (s : Set α)
    (hconvex : ∀ p ∈ ps, ∀ x y, key x ≤ key y → key y ≤ key e → holds p x → holds p e → holds p y)
    (he : ∀ p ∈ ps, holds p e) (hs : s.Finite) (hbelow : ∀ x ∈ s, key x < key e)
    (hout : ∀ x ∈ s, ∃ p ∈ ps, ¬ holds p x) : (∀ x, x ∉ s) ∨ ∃ p ∈ ps, ∀ x ∈ s, ¬ holds p x := by
  rcases s.eq_empty_or_nonempty with rfl | hne
  · exact Or.inl fun x hx => hx
  obtain ⟨y, hy, hmax⟩ := Set.exists_max_image s key hs hne
  obtain ⟨p, hp, hpy⟩ := hout y hy
  refine Or.inr ⟨p, hp, fun x hx hpx => hpy ?_⟩
  exact hconvex p hp x y (hmax x hx) (hbelow y hy).le hpx (he p hp)

theorem exists_upper_bound (key : α → β) (holds : ι → α → Prop) (s : Set α)
    (hconvex : ∀ p ∈ ps, ∀ x y, key e ≤ key y → key y ≤ key x → holds p e → holds p x → holds p y)
    (he : ∀ p ∈ ps, holds p e) (hs : s.Finite) (habove : ∀ x ∈ s, key e < key x)
    (hout : ∀ x ∈ s, ∃ p ∈ ps, ¬ holds p x) : (∀ x, x ∉ s) ∨ ∃ p ∈ ps, ∀ x ∈ s, ¬ holds p x := by
  rcases s.eq_empty_or_nonempty with rfl | hne
  · exact Or.inl fun x hx => hx
  obtain ⟨y, hy, hmin⟩ := Set.exists_min_image s key hs hne
  obtain ⟨p, hp, hpy⟩ := hout y hy
  refine Or.inr ⟨p, hp, fun x hx hpx => hpy ?_⟩
  exact hconvex p hp x y (habove y hy).le (hmin x hx) (he p hp) hpx

end Bounds

theorem daysInMonth_le (y m : Int) : daysInMonth y m ≤ 31 := by
  unfold daysInMonth
  split_ifs <;> omega

namespace Date

theorem day_le (d : Date) : d.day ≤ 31 := d.day_range.2.trans (daysInMonth_le d.year d.month)

theorem date_id_inj {d e : Date} (h : d.date_id = e.date_id) : d = e := by
  have hd := d.day_le
  have he := e.day_le
  obtain ⟨y, m, n, hy, hm, hn⟩ := d
  obtain ⟨y', m', n', hy', hm', hn'⟩ := e
  simp only [date_id] at h hd he
  obtain ⟨rfl, rfl, rfl⟩ : y = y' ∧ m = m' ∧ n = n' := by omega
  rfl

theorem le_iff {d e : Date} : d.le e = true ↔ d.date_id ≤ e.date_id := by
  have hd := d.day_le
  have he := e.day_le
  have hd' := d.day_range
  have he' := e.day_range
  have hdm := d.month_range
  have hem := e.month_range
  simp only [le, date_id, Bool.or_eq_true, Bool.and_eq_true, decide_eq_true_eq]
  omega

/-- A key between two days of one month is a day of that month. -/
theorem same_month {l d h : Date} (hyear : l.year = h.year) (hmonth : l.month = h.month)
    (hl : l.date_id ≤ d.date_id) (hh : d.date_id ≤ h.date_id) : d.year = l.year ∧ d.month = l.month := by
  have hd := d.day_range
  have hd' := d.day_le
  have hl' := l.day_range
  have hh' := h.day_le
  have hdm := d.month_range
  have hlm := l.month_range
  simp only [date_id] at hl hh
  omega

/-- A key before the first day of the next month is a day of the month. -/
theorem before_following {l d f : Date} (hyear : f.year = l.year + if l.month = 12 then 1 else 0)
    (hmonth : f.month = l.month % 12 + 1) (hday : f.day = 1) (hl : l.date_id ≤ d.date_id)
    (hf : d.date_id < f.date_id) : d.year = l.year ∧ d.month = l.month := by
  have hd := d.day_range
  have hd' := d.day_le
  have hl' := l.day_range
  have hdm := d.month_range
  have hlm := l.month_range
  simp only [date_id] at hl hf
  split_ifs at hyear with h12 <;> omega

/-- There are finitely many days. -/
theorem finite (s : Set Date) : s.Finite := by
  have hinj : Function.Injective date_id := fun _ _ h => date_id_inj h
  refine Set.Finite.of_finite_image (f := date_id) ?_ hinj.injOn
  refine (Set.finite_Icc (0 : Int) 100000000).subset ?_
  rintro _ ⟨d, -, rfl⟩
  have hd := d.day_le
  have hd' := d.day_range
  have hm := d.month_range
  have hy := d.year_range
  simp only [date_id, Set.mem_Icc]
  omega

end Date

theorem date_eq_some {y m d : Int} {value : Date} (h : date y m d = some value) :
    value.year = y ∧ value.month = m ∧ value.day = d := by
  unfold date at h
  split_ifs at h with hvalid
  cases h
  exact ⟨rfl, rfl, rfl⟩

/-- What a column of the warehouse has on a day. -/
def Date.value (d : Date) : Column → Int
  | .month => d.month
  | .date_id => d.date_id

def Op.Holds : Op → ℚ → ℚ → Prop
  | EQ, a, b | NullSafeEQ, a, b => a = b
  | NEQ, a, b => a ≠ b
  | GT, a, b => b < a
  | GTE, a, b => b ≤ a
  | LT, a, b => a < b
  | LTE, a, b => a ≤ b

section Meaning

-- the number as which the server compares a literal with an integer column
variable (number : Literal → ℚ)

/-- The days on which a predicate is true. -/
def Predicate.Admits (d : Date) : Predicate → Prop
  | compare op column v => op.Holds (d.value column) (number v)
  | flipped op v column => op.Holds (number v) (d.value column)
  | between column low high => number low ≤ d.value column ∧ (d.value column : ℚ) ≤ number high
  | In column values => ∃ v ∈ values, (d.value column : ℚ) = number v

/-- The days that the clause lets through. -/
def Where.Admits (w : Where) (d : Date) : Prop := ∀ p ∈ w.predicates, p.Admits number d

/-- The predicates that bound the date: all on `date_id` but `<>` and `IN`. -/
def Predicate.bound : Predicate → Bool
  | compare op .date_id _ | flipped op _ .date_id => op ≠ .NEQ
  | between .date_id _ _ => true
  | _ => false

/-- The days that the other predicates let through. -/
def Where.AdmitsUnbounded (w : Where) (d : Date) : Prop :=
  ∀ p ∈ w.predicates, p.bound = false → p.Admits number d

/-- There are no days of a kind, or one bound keeps all of them out. -/
def Where.OneBound (w : Where) (kind : Date → Prop) : Prop :=
  (∀ d, ¬ kind d) ∨ ∃ p ∈ w.predicates, p.bound = true ∧ ∀ d, kind d → ¬ p.Admits number d

variable (month : Int) (year : Option Int)

/-- Other months, or other years, before and after some day of the month in question
are each kept out by one bound, unless no predicate but a bound lets them through. -/
def Where.Confined (w : Where) : Prop :=
  (∀ d, ¬ w.Admits number d) ∨ ∃ e, Requested month year e ∧
    w.OneBound number (fun d => w.AdmitsUnbounded number d ∧ ¬ Requested month year d ∧ d.date_id < e.date_id) ∧
    w.OneBound number (fun d => w.AdmitsUnbounded number d ∧ ¬ Requested month year d ∧ e.date_id < d.date_id)

variable (py : Python)

/-- The server reads the literals as the check does, the question names a year only if no
month alone can pass for it, and an interval ends in the year in which it starts. -/
structure Where.Faithful (w : Where) : Prop where
  dates : ∀ p ∈ w.predicates, p.column = .date_id → ∀ v ∈ p.literals, ∀ value, date_value py v = some value →
    number v = value.date_id
  months : ∀ p ∈ w.predicates, monthOnly month p = true → year = none ∧ ∀ v ∈ p.literals, number v = month
  spans : ∀ low high, Predicate.between .date_id low high ∈ w.predicates → ∀ d e, date_value py low = some d →
    date_value py high = some e → Requested month year d → Requested month year e → d.year = e.year

end Meaning

variable {number : Literal → ℚ} {py : Python} {month : Int} {year : Option Int}

theorem Op.holds_between {op : Op} {a b c v : ℚ} (hop : op ≠ NEQ) (hab : a ≤ b) (hbc : b ≤ c) (ha : op.Holds a v)
    (hc : op.Holds c v) : op.Holds b v := by
  cases op with
  | EQ | NullSafeEQ => exact le_antisymm (hbc.trans hc.le) (ha.symm.le.trans hab)
  | NEQ => exact absurd rfl hop
  | GT => exact lt_of_lt_of_le ha hab
  | GTE => exact le_trans ha hab
  | LT => exact lt_of_le_of_lt hbc hc
  | LTE => exact le_trans hbc hc

theorem Op.flipped_between {op : Op} {a b c v : ℚ} (hop : op ≠ NEQ) (hab : a ≤ b) (hbc : b ≤ c) (ha : op.Holds v a)
    (hc : op.Holds v c) : op.Holds v b := by
  cases op with
  | EQ | NullSafeEQ => exact le_antisymm (ha.le.trans hab) (hbc.trans hc.symm.le)
  | NEQ => exact absurd rfl hop
  | GT => exact lt_of_le_of_lt hbc hc
  | GTE => exact le_trans hbc hc
  | LT => exact lt_of_lt_of_le ha hab
  | LTE => exact le_trans ha hab

/-- A bound lets an interval of days through. -/
theorem Predicate.admits_between {p : Predicate} {c d e : Date} (hp : p.bound = true) (hcd : c.date_id ≤ d.date_id)
    (hde : d.date_id ≤ e.date_id) (hc : p.Admits number c) (he : p.Admits number e) : p.Admits number d := by
  have hcd' : (c.date_id : ℚ) ≤ d.date_id := Int.cast_le.mpr hcd
  have hde' : (d.date_id : ℚ) ≤ e.date_id := Int.cast_le.mpr hde
  cases p with
  | compare op column v =>
    cases column with
    | month => simp [bound] at hp
    | date_id => exact Op.holds_between (by simpa [bound] using hp) hcd' hde' hc he
  | flipped op v column =>
    cases column with
    | month => simp [bound] at hp
    | date_id => exact Op.flipped_between (by simpa [bound] using hp) hcd' hde' hc he
  | between column low high =>
    cases column with
    | month => simp [bound] at hp
    | date_id => exact ⟨hc.1.trans hcd', hde'.trans he.2⟩
  | In column values => cases column <;> simp [bound] at hp

/-- The days that other predicates let through and the clause does not are kept out by
a bound. -/
theorem Where.exists_bound {w : Where} {d : Date} (hd : w.AdmitsUnbounded number d) (hnot : ¬ w.Admits number d) :
    ∃ p ∈ w.predicates.filter Predicate.bound, ¬ p.Admits number d := by
  by_contra hall
  push Not at hall
  refine hnot fun p hp => ?_
  cases hbound : p.bound with
  | false => exact hd p hp hbound
  | true => exact hall p (List.mem_filter.mpr ⟨hp, hbound⟩)

/-- A clause keeps to the month exactly if one bound on either side of it does. -/
theorem Where.confined_iff {w : Where} :
    w.Confined number month year ↔ ∀ d, w.Admits number d → Requested month year d := by
  constructor
  · rintro (hempty | ⟨e, he, hbefore, hafter⟩) d hd
    · exact absurd hd (hempty d)
    by_contra hnot
    have hloose : w.AdmitsUnbounded number d := fun p hp _ => hd p hp
    rcases lt_trichotomy d.date_id e.date_id with hlt | heq | hgt
    · rcases hbefore with hnone | ⟨p, hp, -, hout⟩
      · exact hnone d ⟨hloose, hnot, hlt⟩
      · exact hout d ⟨hloose, hnot, hlt⟩ (hd p hp)
    · rw [Date.date_id_inj heq] at hnot
      exact hnot he
    · rcases hafter with hnone | ⟨p, hp, -, hout⟩
      · exact hnone d ⟨hloose, hnot, hgt⟩
      · exact hout d ⟨hloose, hnot, hgt⟩ (hd p hp)
  · intro hkept
    by_cases hempty : ∀ d, ¬ w.Admits number d
    · exact Or.inl hempty
    push Not at hempty
    obtain ⟨e, he⟩ := hempty
    have hout : ∀ d, w.AdmitsUnbounded number d → ¬ Requested month year d →
        ∃ p ∈ w.predicates.filter Predicate.bound, ¬ p.Admits number d :=
      fun d hd hnot => exists_bound hd fun hadmits => hnot (hkept d hadmits)
    have hbounds : ∀ p ∈ w.predicates.filter Predicate.bound, p.Admits number e :=
      fun p hp => he p (List.mem_filter.mp hp).1
    refine Or.inr ⟨e, hkept e he, ?_, ?_⟩
    · rcases exists_lower_bound Date.date_id (fun (p : Predicate) d => p.Admits number d)
        {d | w.AdmitsUnbounded number d ∧ ¬ Requested month year d ∧ d.date_id < e.date_id}
        (fun p hp _ _ hxy hye hx hpe => Predicate.admits_between (List.mem_filter.mp hp).2 hxy hye hx hpe) hbounds
        (Date.finite _) (fun _ hd => hd.2.2) (fun d hd => hout d hd.1 hd.2.1) with hnone | ⟨p, hp, hkeeps⟩
      · exact Or.inl hnone
      · obtain ⟨hmem, hbound⟩ := List.mem_filter.mp hp
        exact Or.inr ⟨p, hmem, hbound, hkeeps⟩
    · rcases exists_upper_bound Date.date_id (fun (p : Predicate) d => p.Admits number d)
        {d | w.AdmitsUnbounded number d ∧ ¬ Requested month year d ∧ e.date_id < d.date_id}
        (fun p hp _ _ hey hyx hpe hx => Predicate.admits_between (List.mem_filter.mp hp).2 hey hyx hpe hx) hbounds
        (Date.finite _) (fun _ hd => hd.2.2) (fun d hd => hout d hd.1 hd.2.1) with hnone | ⟨p, hp, hkeeps⟩
      · exact Or.inl hnone
      · obtain ⟨hmem, hbound⟩ := List.mem_filter.mp hp
        exact Or.inr ⟨p, hmem, hbound, hkeeps⟩

theorem requested_eq_true {v : Literal} :
    requested py month year v = true ↔ ∃ value, date_value py v = some value ∧ Requested month year value := by
  unfold requested
  cases date_value py v <;> simp

/-- An upper bound that fits a lower one ends in the month of the lower one, or excludes
the first day of the next month. -/
theorem closes_ok {uppers : List (Date × Bool)} {lowers : List Date} (hmonth : ∀ low ∈ lowers, low.month = month)
    (h : closes month uppers lowers = .ok true) :
    ∃ low ∈ lowers, ∃ high exclusive, (high, exclusive) ∈ uppers ∧
      ((high.year = low.year ∧ high.month = low.month) ∨ exclusive = true ∧
        high.year = low.year + (if low.month = 12 then 1 else 0) ∧ high.month = low.month % 12 + 1 ∧ high.day = 1) := by
  induction lowers with
  | nil => simp [closes] at h
  | cons low lowers ih =>
    unfold closes at h
    have hlow : low.month = month := hmonth low List.mem_cons_self
    cases hlast : date low.year month (daysInMonth low.year month) with
    | none => simp [hlast] at h
    | some last =>
      cases hfollowing : date (low.year + if month = 12 then 1 else 0) (month % 12 + 1) 1 with
      | none => simp [hlast, hfollowing] at h
      | some following =>
        obtain ⟨hlastYear, hlastMonth, -⟩ := date_eq_some hlast
        obtain ⟨hyear, hnext, hday⟩ := date_eq_some hfollowing
        simp only [hlast, hfollowing] at h
        by_cases hany : (uppers.any fun x => low.le x.1 && x.1.le last || x.2 && Decidable.decide (x.1 = following)) = true
        · obtain ⟨⟨high, exclusive⟩, hmem, hfits⟩ := List.any_eq_true.mp hany
          refine ⟨low, List.mem_cons_self, high, exclusive, hmem, ?_⟩
          simp only [Bool.or_eq_true, Bool.and_eq_true, decide_eq_true_eq, Date.le_iff] at hfits
          rcases hfits with ⟨hlo, hhi⟩ | ⟨hexclusive, rfl⟩
          · exact Or.inl (Date.same_month hlastYear.symm (hlow.trans hlastMonth.symm) hlo hhi)
          · refine Or.inr ⟨hexclusive, ?_, ?_, hday⟩
            · rw [hyear, hlow]
            · rw [hnext, hlow]
        · obtain ⟨low', hlow', rest⟩ := ih (fun l hl => hmonth l (List.mem_cons_of_mem _ hl)) (by simpa [hany] using h)
          exact ⟨low', List.mem_cons_of_mem _ hlow', rest⟩

/-- A predicate that is enough by itself, or bounds that fit together. -/
theorem scan_ok {ps : List Predicate} {lowers : List Date} {uppers : List (Date × Bool)}
    (h : scan py month year ps lowers uppers = .ok true) :
    (∃ p ∈ ps, monthOnly month p = true ∨ dateOnly py month year p = true) ∨
      closes month (uppers ++ ps.filterMap (upper? py)) (lowers ++ ps.filterMap (lower? py month year)) = .ok true := by
  induction ps generalizing lowers uppers with
  | nil => exact Or.inr (by simpa [scan] using h)
  | cons p ps ih =>
    unfold scan at h
    split_ifs at h with hmonth hdate
    · exact Or.inl ⟨p, List.mem_cons_self, Or.inl hmonth⟩
    · exact Or.inl ⟨p, List.mem_cons_self, Or.inr hdate⟩
    · rcases ih h with ⟨q, hq, hq'⟩ | hcloses
      · exact Or.inl ⟨q, List.mem_cons_of_mem _ hq, hq'⟩
      · refine Or.inr ?_
        rw [List.append_assoc, List.append_assoc] at hcloses
        cases hl : lower? py month year p <;> cases hu : upper? py p <;> simpa [hl, hu] using hcloses

theorem validate_period_ok {today : Date} {question : String} {w : Where} (hmonth : askedMonth py question = some month)
    (hyear : askedYear py today question = .ok year) (h : validate_period py today question (some w) = .ok ()) :
    scan py month year w.predicates [] [] = .ok true := by
  unfold validate_period at h
  cases hfirst : validateYear py today question (some w) with
  | error e => simp [hfirst, bind, Except.bind] at h
  | ok u =>
    cases hscan : scan py month year w.predicates [] [] with
    | error e => simp [hfirst, hmonth, hyear, hscan, bind, Except.bind] at h
    | ok accepted =>
      cases accepted with
      | true => rfl
      | false => simp [hfirst, hmonth, hyear, hscan, bind, Except.bind] at h

/-- The literals of a predicate on the date compare as the days that they spell. -/
theorem Where.Faithful.number_eq {w : Where} (hw : w.Faithful number month year py) {p : Predicate}
    (hp : p ∈ w.predicates) (hcolumn : p.column = .date_id) {v : Literal} (hv : v ∈ p.literals) {value : Date}
    (hvalue : date_value py v = some value) : number v = value.date_id := hw.dates p hp hcolumn v hv value hvalue

theorem requested_of_same {d e : Date} (he : Requested month year e) (hsame : d.year = e.year ∧ d.month = e.month) :
    Requested month year d := ⟨hsame.2.trans he.1, fun y hy => hsame.1.trans (he.2 y hy)⟩

/-- The month alone, where the question names no year. -/
theorem monthOnly_admits {w : Where} (hw : w.Faithful number month year py) {p : Predicate} (hp : p ∈ w.predicates)
    (honly : monthOnly month p = true) {d : Date} (hd : p.Admits number d) : Requested month year d := by
  obtain ⟨hyear, hnumber⟩ := hw.months p hp honly
  refine ⟨?_, by simp [hyear]⟩
  unfold monthOnly at honly
  split at honly
  · have hv : ((d.month : Int) : ℚ) = number _ := hd
    rw [hnumber _ List.mem_cons_self] at hv
    exact_mod_cast hv
  · obtain ⟨v, hv, heq⟩ := hd
    rw [hnumber v hv] at heq
    exact_mod_cast heq
  · simp at honly

/-- An interval within the month, or one of its days. -/
theorem dateOnly_admits {w : Where} (hw : w.Faithful number month year py) {p : Predicate} (hp : p ∈ w.predicates)
    (honly : dateOnly py month year p = true) {d : Date} (hd : p.Admits number d) : Requested month year d := by
  unfold dateOnly at honly
  split at honly
  · rename_i low high
    obtain ⟨hlow, hhigh⟩ := (Bool.and_eq_true _ _).mp honly
    obtain ⟨l, hl, hlr⟩ := requested_eq_true.mp hlow
    obtain ⟨e, he, her⟩ := requested_eq_true.mp hhigh
    have hnl := hw.number_eq hp rfl (v := low) (by simp [Predicate.literals]) hl
    have hne := hw.number_eq hp rfl (v := high) (by simp [Predicate.literals]) he
    obtain ⟨hle, hge⟩ := hd
    rw [hnl] at hle
    rw [hne] at hge
    have hyear := hw.spans low high hp l e hl he hlr her
    exact requested_of_same hlr
      (Date.same_month hyear (hlr.1.trans her.1.symm) (Int.cast_le.mp hle) (Int.cast_le.mp hge))
  · obtain ⟨value, hvalue, hrequested⟩ := requested_eq_true.mp honly
    have hnumber := hw.number_eq hp rfl List.mem_cons_self hvalue
    have heq : ((d.date_id : Int) : ℚ) = number _ := hd
    rw [hnumber] at heq
    obtain rfl : d = value := Date.date_id_inj (by exact_mod_cast heq)
    exact hrequested
  · simp at honly

theorem lower?_eq_some {p : Predicate} {low : Date} (h : lower? py month year p = some low) :
    ∃ v, p = .compare .GTE .date_id v ∧ date_value py v = some low ∧ Requested month year low := by
  unfold lower? at h
  split at h
  · rename_i v
    obtain ⟨hvalue, hrequested⟩ := Option.filter_eq_some_iff.mp h
    exact ⟨v, rfl, hvalue, of_decide_eq_true hrequested⟩
  · cases h

theorem upper?_eq_some {p : Predicate} {high : Date} {exclusive : Bool} (h : upper? py p = some (high, exclusive)) :
    ∃ v, p = .compare (if exclusive then .LT else .LTE) .date_id v ∧ date_value py v = some high := by
  unfold upper? at h
  split at h
  · obtain ⟨value, hvalue, heq⟩ := Option.map_eq_some_iff.mp h
    cases heq
    exact ⟨_, rfl, hvalue⟩
  · obtain ⟨value, hvalue, heq⟩ := Option.map_eq_some_iff.mp h
    cases heq
    exact ⟨_, rfl, hvalue⟩
  · cases h

/-- Bounds that fit together. -/
theorem closes_admits {w : Where} (hw : w.Faithful number month year py)
    (hcloses : closes month (w.predicates.filterMap (upper? py)) (w.predicates.filterMap (lower? py month year)) = .ok true)
    {d : Date} (hd : w.Admits number d) : Requested month year d := by
  have hmonths : ∀ low ∈ w.predicates.filterMap (lower? py month year), low.month = month := by
    intro low hlow
    obtain ⟨p, -, hp⟩ := List.mem_filterMap.mp hlow
    obtain ⟨-, -, -, hrequested⟩ := lower?_eq_some hp
    exact hrequested.1
  obtain ⟨low, hlow, high, exclusive, hhigh, hfits⟩ := closes_ok hmonths hcloses
  obtain ⟨p, hp, hplow⟩ := List.mem_filterMap.mp hlow
  obtain ⟨q, hq, hqhigh⟩ := List.mem_filterMap.mp hhigh
  obtain ⟨v, rfl, hv, hrequested⟩ := lower?_eq_some hplow
  obtain ⟨u, rfl, hu⟩ := upper?_eq_some hqhigh
  have hnv := hw.number_eq hp rfl List.mem_cons_self hv
  have hnu := hw.number_eq hq rfl List.mem_cons_self hu
  have hle : number v ≤ (d.date_id : ℚ) := hd _ hp
  rw [hnv] at hle
  have hge : d.date_id ≤ high.date_id ∧ (exclusive = true → d.date_id < high.date_id) := by
    have hbound := hd _ hq
    cases exclusive with
    | true =>
      have hlt : (d.date_id : ℚ) < number u := hbound
      rw [hnu] at hlt
      have hlt' := Int.cast_lt.mp hlt
      exact ⟨hlt'.le, fun _ => hlt'⟩
    | false =>
      have hle' : (d.date_id : ℚ) ≤ number u := hbound
      rw [hnu] at hle'
      exact ⟨Int.cast_le.mp hle', fun h => by cases h⟩
  rcases hfits with ⟨hyear, hmonth⟩ | ⟨hexclusive, hyear, hmonth, hday⟩
  · exact requested_of_same hrequested (Date.same_month hyear.symm hmonth.symm (Int.cast_le.mp hle) hge.1)
  · exact requested_of_same hrequested
      (Date.before_following hyear hmonth hday (Int.cast_le.mp hle) (hge.2 hexclusive))

/-- A literal that is an integer compares as that integer. -/
def integer (v : Literal) : ℚ := ((Python.ascii.int v.this).getD 0 : Int)

def newYear : Date where
  year := 2026
  month := 1
  day := 1
  year_range := by decide
  month_range := by decide
  day_range := by decide

def wholeMonth : Where where
  predicates := [.between .date_id ⟨"20250101", false⟩ ⟨"20250131", false⟩]
  sql := "WHERE DATE_ID BETWEEN 20250101 AND 20250131"

theorem wholeMonth_faithful : wholeMonth.Faithful integer 1 (some 2025) Python.ascii where
  dates := by
    have hlow : date_value Python.ascii ⟨"20250101", false⟩ = date 2025 1 1 := by decide +kernel
    have hhigh : date_value Python.ascii ⟨"20250131", false⟩ = date 2025 1 31 := by decide +kernel
    have hlow' : Python.ascii.int "20250101" = some 20250101 := by decide +kernel
    have hhigh' : Python.ascii.int "20250131" = some 20250131 := by decide +kernel
    intro p hp hcolumn v hv value hvalue
    rw [List.mem_singleton.mp hp] at hv
    rcases List.mem_pair.mp hv with rfl | rfl
    · obtain ⟨hy, hm, hd⟩ := date_eq_some (hlow.symm.trans hvalue)
      simp [integer, hlow', Date.date_id, hy, hm, hd]
    · obtain ⟨hy, hm, hd⟩ := date_eq_some (hhigh.symm.trans hvalue)
      simp [integer, hhigh', Date.date_id, hy, hm, hd]
  months := by
    intro p hp honly
    rw [List.mem_singleton.mp hp] at honly
    cases honly
  spans := fun _ _ _ _ _ _ _ hd he => (hd.2 2025 rfl).trans (he.2 2025 rfl).symm

/-- A question for one month of one year, which the month alone answers for every year. -/
def monthSince : Where where
  predicates := [.compare .EQ .month ⟨"1", false⟩, .compare .GTE .date_id ⟨"20250101", false⟩]
  sql := "WHERE MONTH = 1 AND DATE_ID >= 20250101"

end incidentdesk.query
