import IncidentDesk.Calendar
import IncidentDesk.Decimal
import IncidentDesk.Demo.ExactlyOnce

namespace incidentdesk.log_store

open datetime decimal
open pagination (unread unread_congr Issued)

/-- The times of the years from 1 to 9999. -/
def InYears (time : Int) : Prop := 0 ≤ time ∧ time < maxWall

instance (time : Int) : Decidable (InYears time) := inferInstanceAs (Decidable (0 ≤ time ∧ time < maxWall))

/-- A `datetime`: what the wall iso shows, in microseconds from the first of
January of the year one, and its offset from UTC, which a naive one does not have. -/
structure Moment where
  wall : Int
  utcoffset : Option Int
  within : InYears wall

/-- What `canonical` finds around it: the parser of ISO 8601, and the offset of the
system's own zone, which a naive time is taken to be in. -/
structure Iso where
  fromisoformat : String → Except String Moment
  localOffset : Int → Int

/-- The instant that a time stands for, in microseconds of UTC. -/
def Moment.instant (iso : Iso) (t : Moment) : Int := t.wall - t.utcoffset.getD (iso.localOffset t.wall)

/-- `t.astimezone(timezone.utc)`. -/
def Moment.astimezone (iso : Iso) (t : Moment) : Except String Int :=
  if InYears (t.instant iso) then .ok (t.instant iso) else .error "OverflowError"

/-- The end of an ISO time in UTC: the microseconds, unless they are zero, and the offset. -/
def fraction (microsecond : Nat) : List Char :=
  if microsecond = 0 then "+00:00".toList else '.' :: (pad 6 microsecond ++ "+00:00".toList)

/-- The time of day, in microseconds. -/
def formatTime (time : Nat) : List Char :=
  pad 2 (time / 3600000000) ++ ':' :: (pad 2 (time / 60000000 % 60) ++
    ':' :: (pad 2 (time / 1000000 % 60) ++ fraction (time % 1000000)))

def formatDate (year month day : Nat) : List Char :=
  pad 4 year ++ '-' :: (pad 2 month ++ '-' :: pad 2 day)

/-- `isoformat` of a time in UTC. -/
def isoformat (utc : Int) : String :=
  let (y, m, d) := fromordinal (utc / day)
  String.ofList (formatDate y.toNat m.toNat d.toNat ++ 'T' :: formatTime (utc % day).toNat)

/-- `value.replace("Z", "+00:00")`. -/
def replaceZ (value : String) : String :=
  String.ofList (value.toList.flatMap fun c => if c = 'Z' then "+00:00".toList else [c])

def canonical (iso : Iso) (value : String) : Except String String := do
  let t ← iso.fromisoformat (replaceZ value)
  let utc ← t.astimezone iso
  return isoformat utc

section Order

variable {a b : Int} {m n : Nat}

/-- The sign of the offset comes before the decimal point. -/
theorem fraction_lt (hn : n < 1000000) (h : m < n) : fraction m < fraction n := by
  have hdigits : n < 10 ^ 6 := by omega
  rw [fraction, fraction, if_neg (show n ≠ 0 by omega)]
  split
  · show '+' :: "00:00".toList < _
    rw [List.cons_lt_cons_iff]
    exact .inl (by decide)
  · exact cons_lt_cons (pad_append_lt hdigits h)

theorem formatTime_lt (hn : n < 86400000000) (h : m < n) : formatTime m < formatTime n := by
  have hhour : n / 3600000000 < 10 ^ 2 := by omega
  have hminute : n / 60000000 % 60 < 10 ^ 2 := by omega
  have hsecond : n / 1000000 % 60 < 10 ^ 2 := by omega
  obtain hlt | ⟨heq, hlt⟩ :
    m / 3600000000 < n / 3600000000 ∨ m / 3600000000 = n / 3600000000 ∧ m % 3600000000 < n % 3600000000 := by omega
  · exact pad_append_lt hhour hlt
  apply pad_append_lt_of_eq heq
  apply cons_lt_cons
  obtain hlt | ⟨heq, hlt⟩ : m / 60000000 % 60 < n / 60000000 % 60 ∨
    m / 60000000 % 60 = n / 60000000 % 60 ∧ m % 60000000 < n % 60000000 := by omega
  · exact pad_append_lt hminute hlt
  apply pad_append_lt_of_eq heq
  apply cons_lt_cons
  obtain hlt | ⟨heq, hlt⟩ : m / 1000000 % 60 < n / 1000000 % 60 ∨
    m / 1000000 % 60 = n / 1000000 % 60 ∧ m % 1000000 < n % 1000000 := by omega
  · exact pad_append_lt hsecond hlt
  apply pad_append_lt_of_eq heq
  exact fraction_lt (by omega) hlt

theorem formatDate_append_lt {y m d y' m' d' : Nat} {rest rest' : List Char} (hy : y' < 10 ^ 4) (hm : m' < 10 ^ 2)
    (hd : d' < 10 ^ 2) (h : y < y' ∨ y = y' ∧ (m < m' ∨ m = m' ∧ d < d')) :
    formatDate y m d ++ rest < formatDate y' m' d' ++ rest' := by
  simp only [formatDate, List.append_assoc, List.cons_append]
  obtain hlt | ⟨heq, hlt | ⟨heq', hlt⟩⟩ := h
  · exact pad_append_lt hy hlt
  · apply pad_append_lt_of_eq heq
    apply cons_lt_cons
    exact pad_append_lt hm hlt
  · apply pad_append_lt_of_eq heq
    apply cons_lt_cons
    apply pad_append_lt_of_eq heq'
    apply cons_lt_cons
    exact pad_append_lt hd hlt

theorem isoformat_lt (ha : 0 ≤ a) (hb : b < maxWall) (h : a < b) : isoformat a < isoformat b := by
  have hbounds : 0 ≤ a / day ∧ 0 ≤ b / day ∧ b / day < 3652059 ∧ (b % day).toNat < 86400000000 := by
    simp only [maxWall, day, hour, second] at hb ⊢
    omega
  have hdays : a / day < b / day ∨ a / day = b / day ∧ (a % day).toNat < (b % day).toNat := by
    simp only [day, hour, second]
    omega
  obtain ⟨hlow, hlow', hhigh, htime⟩ := hbounds
  rw [String.lt_iff_toList_lt]
  obtain hlt | ⟨heq, hlt⟩ := hdays
  · obtain ⟨y, m, d, hdate, hyear, hisDate, hordinal⟩ := fromordinal_spec hlow
    obtain ⟨y', m', d', hdate', hyear', hisDate', hordinal'⟩ := fromordinal_spec hlow'
    rw [← hordinal, ← hordinal'] at hlt
    rw [← hordinal'] at hhigh
    have hlex := lex_of_toordinal_lt hisDate hisDate' hlt
    have hlast := year_le hisDate' hhigh
    obtain ⟨hmonth, hmonth'⟩ := hisDate'.month
    have hday := hisDate'.day_le
    have hfirst := hisDate.month.1
    have hfirst' := hisDate.day.1
    simp only [isoformat, hdate, hdate', String.toList_ofList]
    apply formatDate_append_lt <;> omega
  · simp only [isoformat, heq, String.toList_ofList]
    apply List.append_left_lt
    apply cons_lt_cons
    exact formatTime_lt htime hlt

/-- In the years that Python has, the order of the texts is that of the times. -/
theorem isoformat_le_iff (ha : InYears a) (hb : InYears b) :
    isoformat a ≤ isoformat b ↔ a ≤ b := by
  have hmono : StrictMonoOn isoformat (Set.Ico 0 maxWall) := fun _ ha _ hb h => isoformat_lt ha.1 hb.2 h
  exact hmono.le_iff_le ha hb

theorem isoformat_lt_iff (ha : InYears a) (hb : InYears b) :
    isoformat a < isoformat b ↔ a < b := by
  rw [← not_le, ← not_le, isoformat_le_iff hb ha]

theorem isoformat_inj (ha : InYears a) (hb : InYears b) : isoformat a = isoformat b ↔ a = b := by
  rw [le_antisymm_iff, le_antisymm_iff, isoformat_le_iff ha hb, isoformat_le_iff hb ha]

end Order

section Search

/-- A text is read as a time whose instant is in the years that Python has. -/
def Reads (iso : Iso) (value : String) (utc : Int) : Prop :=
  ∃ t, iso.fromisoformat (replaceZ value) = .ok t ∧ t.instant iso = utc ∧ InYears utc

/-- The times of some rows are in the form that `canonical` gives them. -/
def Stored (iso : Iso) (time : Row → Int) (rows : List Row) : Prop :=
  ∀ row ∈ rows, ∃ value, Reads iso value (time row) ∧ canonical iso value = .ok row.event_time

/-- The rows of a service in a window of instants that the terms find. -/
def within (time : Row → Int) (store : Store) (service : String) (start stop : Int) (terms : List String) :
    Except String (List Row) := do
  let inWindow (row : Row) : Bool := row.service = service && start ≤ time row && time row ≤ stop
  if terms = [] then return store.rows.filter inWindow
  else
    let found ← store.fts (expression terms)
    return store.rows.filter fun row => inWindow row && row.id ∈ found

/-- The keyset, with the instant in place of its text. -/
def instantKey (time : Row → Int) (row : Row) : Int ×ₗ Int := toLex (time row, row.id)

/-- The levels of some positions are continued from times in the canonical form. -/
def Timed (fields : List (String × Json)) : Prop :=
  ∀ level stamp n, (Json.obj fields).get? level = some (.arr [.str stamp, n]) → ∃ t, InYears t ∧ stamp = isoformat t

variable {iso : Iso} {time : Row → Int} {rows : List Row} {store : Store} {lib : Library} {spec : worker.LogQuery}
  {value : String} {utc : Int} {row : Row}

theorem Reads.canonical (h : Reads iso value utc) : canonical iso value = .ok (isoformat utc) := by
  obtain ⟨t, hread, rfl, hyears⟩ := h
  rw [log_store.canonical, hread]
  show (t.astimezone iso >>= fun utc => .ok (isoformat utc)) = _
  rw [Moment.astimezone, if_pos hyears]
  rfl

theorem Reads.inYears (h : Reads iso value utc) : InYears utc := by
  obtain ⟨t, -, -, hyears⟩ := h
  exact hyears

theorem Stored.event_time (h : Stored iso time rows) (hrow : row ∈ rows) :
    InYears (time row) ∧ row.event_time = isoformat (time row) := by
  obtain ⟨value, hreads, hcanonical⟩ := h row hrow
  rw [hreads.canonical] at hcanonical
  exact ⟨hreads.inYears, (Except.ok.inj hcanonical).symm⟩

/-- The window on texts is the window on instants. -/
theorem matching_eq_within {start stop : Int} (hstored : Stored iso time store.rows) (hstart : InYears start)
    (hstop : InYears stop) (service : String) (terms : List String) :
    matching store service (isoformat start) (isoformat stop) terms = within time store service start stop terms := by
  have hwindow (row : Row) (hrow : row ∈ store.rows) :
      (row.service = service && isoformat start ≤ row.event_time && row.event_time ≤ isoformat stop) =
        (row.service = service && start ≤ time row && time row ≤ stop) := by
    obtain ⟨hyears, htime⟩ := hstored.event_time hrow
    rw [htime, decide_eq_decide.mpr (isoformat_le_iff hstart hyears), decide_eq_decide.mpr (isoformat_le_iff hyears hstop)]
  unfold matching within
  by_cases hterms : terms = []
  · rw [if_pos hterms, if_pos hterms, List.filter_congr hwindow]
  · rw [if_neg hterms, if_neg hterms]
    cases store.fts (expression terms) with
    | error e => rfl
    | ok found =>
      refine congrArg Except.ok (List.filter_congr fun row hrow => ?_)
      dsimp only
      rw [hwindow row hrow]

/-- The rows behind a time in the canonical form are those behind the instant, in
the order of the instants. -/
theorem unreadOf_eq {t n : Int} (hstored : Stored iso time rows) (ht : InYears t) (level : String) :
    unreadOf rows level (toLex (isoformat t, n)) =
      unread (instantKey time) (rows.filter fun row => LEVEL row = level) (toLex (t, n)) := by
  have hform (row : Row) (hrow : row ∈ rows.filter fun row => LEVEL row = level) :
      InYears (time row) ∧ key row = toLex (isoformat (time row), row.id) := by
    obtain ⟨hyears, htime⟩ := hstored.event_time (List.mem_filter.mp hrow).1
    rw [key, htime]
    exact ⟨hyears, rfl⟩
  apply unread_congr
  · intro a ha b hb
    obtain ⟨hyears, hkey⟩ := hform a ha
    obtain ⟨hyears', hkey'⟩ := hform b hb
    rw [hkey, hkey', instantKey, instantKey, Prod.Lex.toLex_le_toLex, Prod.Lex.toLex_le_toLex]
    dsimp only
    rw [isoformat_lt_iff hyears hyears', isoformat_inj hyears hyears']
  · intro a ha
    obtain ⟨hyears, hkey⟩ := hform a ha
    rw [hkey, instantKey, Prod.Lex.toLex_lt_toLex, Prod.Lex.toLex_lt_toLex]
    dsimp only
    rw [isoformat_lt_iff ht hyears, isoformat_inj ht hyears]

theorem Timed.nil : Timed [] := fun _ _ _ h => nomatch h

theorem Timed.put {fields : List (String × Json)} (h : Timed fields) (key : String) {value : Json}
    (hvalue : ∀ stamp n, value = .arr [.str stamp, n] → ∃ t, InYears t ∧ stamp = isoformat t) :
    Timed (Json.put fields (key, value)) := by
  intro level stamp n hget
  by_cases hkey : key = level
  · rw [← hkey, Json.get?_put_self] at hget
    exact hvalue stamp n (Option.some.inj hget)
  · rw [Json.get?_put_of_ne hkey] at hget
    exact h level stamp n hget

theorem Timed.advance {fields : List (String × Json)} (h : Timed fields) (hstored : Stored iso time rows)
    (level : String) {read : List Row} (hread : ∀ row ∈ read, row ∈ rows) : Timed (advance fields level read) := by
  unfold log_store.advance
  cases hlast : read.getLast? with
  | none => exact h
  | some row =>
    apply h.put
    rintro stamp n ⟨⟩
    obtain ⟨hyears, htime⟩ := hstored.event_time (hread row (List.mem_of_getLast? hlast))
    exact ⟨time row, hyears, htime⟩

/-- A page leaves the levels at times of rows. -/
theorem Timed.walk {start : String} {limit : Nat} {cursor : Option String} {found : List (String × Json)} {p : Progress}
    (hstored : Stored iso time rows) (hfound : positions lib cursor = .ok found) (h : Timed found)
    (hwalk : walk lib start spec rows limit cursor = .ok p) : Timed p.next_positions := by
  obtain ⟨found', ids, records, quota, hfound', -, -, -, hloop⟩ := walk_spec hwalk
  obtain rfl := Except.ok.inj (hfound.symm.trans hfound')
  refine foldlM_rule (fun _ p => Timed p.next_positions) hloop ?_ ?_
  · dsimp only
    split
    · apply h.put
      intro stamp n harr
      obtain ⟨id, -, hid⟩ : ∃ id ∈ records.map Row.id, Json.num id = .str stamp := by
        rw [← List.mem_map, Json.arr.inj harr]
        exact List.mem_cons_self
      cases hid
    · exact h
  · rintro before level after p p' - hp hstep
    obtain ⟨pos, read, rest, -, hunread, -, -, hnext, -⟩ := readLevel_spec hstep
    rw [hnext]
    refine hp.advance hstored level fun row hrow => ?_
    have hmem : row ∈ unreadOf (selection spec rows) level pos := by
      rw [hunread]
      exact List.mem_append_left rest hrow
    exact (selection_sublist spec rows).subset (mem_unreadOf.mp hmem).1

theorem Stored.hits (h : Stored iso time store.rows) (scope : Scope) : Stored iso time (hits lib store scope spec) :=
  fun row hrow => h row (List.mem_filter.mp hrow).1

section Run

variable {scope : Scope} {limit : Int} {next : String} {fields : List (String × Json)}

theorem timed_fetch {cursor : Option String} {page : Page} (hstored : Stored iso time store.rows)
    (hcursor : ∀ found, positions lib cursor = .ok found → Timed found)
    (h : fetch lib store scope spec limit cursor = some (page, some next))
    (hfields : positions lib (some next) = .ok fields) : Timed fields := by
  obtain ⟨page', hquery, hnext⟩ : ∃ page', query lib store scope spec limit cursor = .ok page' ∧
      page'.next_cursor = some next := by
    cases hquery : query lib store scope spec limit cursor with
    | error e =>
      rw [fetch, hquery] at h
      cases h
    | ok page' =>
      rw [fetch, hquery] at h
      exact ⟨page', rfl, (Prod.mk.inj (Option.some.inj h)).2⟩
  obtain ⟨start, p, -, hwalk, rfl⟩ := query_spec hquery
  obtain ⟨found, -, -, -, hfound, -⟩ := walk_spec hwalk
  have htimed := Timed.walk (hstored.hits scope) hfound (hcursor found hfound) hwalk
  obtain ⟨-, hdistinct, -⟩ := walk_left (clamp_le limit) hwalk
  simp only [pageOf, Option.ite_none_right_eq_some, Option.some.injEq] at hnext
  obtain ⟨-, rfl⟩ := hnext
  have hsize : textSize p.next_positions ≤ 3072 := by
    have hlength := length_of_positions hfields
    rw [length_encode] at hlength
    omega
  rw [(positions_encode_iff lib hdistinct).mpr hsize] at hfields
  rwa [← Except.ok.inj hfields]

/-- The cursors that a reader meets continue the levels from times in the canonical form. -/
theorem timed_issued (hstored : Stored iso time store.rows) (hissued : Issued (fetch lib store scope spec limit) next)
    (hfields : positions lib (some next) = .ok fields) : Timed fields := by
  induction hissued generalizing fields with
  | first h =>
    refine timed_fetch hstored (fun found hfound => ?_) h hfields
    rw [← Except.ok.inj hfound]
    exact Timed.nil
  | next h before ih => exact timed_fetch hstored (fun found hfound => ih hfound) h hfields

/-- A level is continued from a time in the canonical form, or from the start. -/
theorem position_timed {start : Int} {level : String} {pos : String ×ₗ Int} (hstart : InYears start) (h : Timed fields)
    (hpos : position (isoformat start) fields level = .ok pos) :
    ∃ t n, InYears t ∧ pos = toLex (isoformat t, n) := by
  unfold position at hpos
  split at hpos
  · cases hpos
    exact ⟨start, 0, hstart, rfl⟩
  · rename_i stamp n hget
    obtain ⟨t, ht, rfl⟩ := h level stamp n hget
    split at hpos
    · cases hpos
      exact ⟨t, _, ht, rfl⟩
    · cases hpos
  · cases hpos

theorem positions_timed {cursor : Option String} (hstored : Stored iso time store.rows)
    (hcursor : ∀ next, cursor = some next → Issued (fetch lib store scope spec limit) next)
    (hfields : positions lib cursor = .ok fields) : Timed fields := by
  cases cursor with
  | none =>
    rw [← Except.ok.inj hfields]
    exact Timed.nil
  | some next => exact timed_issued hstored (hcursor next rfl) hfields

end Run

end Search

/-- The order of canonical texts is that of the instants that they stand for. So, if
the stored times are in that form, a search selects the rows of the window of
instants, and a reader who follows its cursors gets those of each level that lie
behind an instant and an id, in the order of the two. -/
theorem canonical_order (iso : Iso) :
    (∀ value value' utc utc', Reads iso value utc → Reads iso value' utc' →
      ∃ text text', canonical iso value = .ok text ∧ canonical iso value' = .ok text' ∧ (text ≤ text' ↔ utc ≤ utc')) ∧
    ∀ (lib : Library) (store : Store) (scope : Scope) (time : Row → Int) (start stop : Int),
      lib.canonical = canonical iso → Reads iso scope.start start → Reads iso scope.stop stop →
      Stored iso time store.rows → ∀ (spec : worker.LogQuery) (limit : Int) (cursor : Option String),
        (query lib store scope spec limit cursor = do
          validate spec
          let rows ← within time store scope.service start stop spec.terms
          let progress ← walk lib (isoformat start) spec rows (clamp limit) cursor
          return pageOf store scope spec rows cursor progress) ∧
        ((∀ next, cursor = some next → Issued (fetch lib store scope spec limit) next) →
          ∀ fields level pos rows, positions lib cursor = .ok fields →
            position (isoformat start) fields level = .ok pos → (∀ row ∈ rows, row ∈ store.rows) →
            ∃ t n, pos = toLex (isoformat t, n) ∧ unreadOf rows level pos =
              unread (instantKey time) (rows.filter fun row => LEVEL row = level) (toLex (t, n))) := by
  constructor
  · intro value value' utc utc' h h'
    exact ⟨_, _, h.canonical, h'.canonical, isoformat_le_iff h.inYears h'.inYears⟩
  · intro lib store scope time start stop hlib hstart hstop hstored spec limit cursor
    constructor
    · have hmatching := matching_eq_within hstored hstart.inYears hstop.inYears scope.service spec.terms
      rw [query, hlib, hstart.canonical, hstop.canonical]
      simp only [bind, Except.bind, hmatching]
    · intro hcursor fields level pos rows hfields hpos hrows
      have htimed := positions_timed hstored hcursor hfields
      obtain ⟨t, n, ht, rfl⟩ := position_timed hstart.inYears htimed hpos
      exact ⟨t, n, rfl, unreadOf_eq (fun row hrow => hstored row (hrows row hrow)) ht level⟩

/-- The first instant of 2025. -/
def newYear : Int := toordinal 2025 1 1 * day

/-- The parser, on the texts of a scope and of a row of the first of January. -/
def january : Iso where
  fromisoformat text :=
    if text = "2025-01-01T00:00:00+00:00" then .ok { wall := newYear, utcoffset := some 0, within := by decide }
    else if text = "2025-01-01T08:00:00+00:00" then
      .ok { wall := newYear + 8 * hour, utcoffset := some 0, within := by decide }
    else if text = "2025-01-01T23:59:59+00:00" then
      .ok { wall := newYear + (day - second), utcoffset := some 0, within := by decide }
    else .error "ValueError"
  localOffset := fun _ => 0

/-- Python on ASCII text, for times that a parser reads. -/
def reading (iso : Iso) : Library := { Library.ascii with canonical := canonical iso }

/-- One error, in the window of its day. -/
theorem oneError_order :
    (∃ text text', canonical january januaryFirst.start = .ok text ∧ canonical january januaryFirst.stop = .ok text' ∧
      (text ≤ text' ↔ newYear ≤ newYear + (day - second))) ∧
    query (reading january) oneError januaryFirst errorTwice 50 none = (do
      validate errorTwice
      let rows ← within (fun _ => newYear + 8 * hour) oneError "svc-17" newYear (newYear + (day - second)) []
      let progress ← walk (reading january) (isoformat newYear) errorTwice rows 50 none
      return pageOf oneError januaryFirst errorTwice rows none progress) := by
  have hstart : Reads january januaryFirst.start newYear := ⟨_, rfl, by decide, by decide⟩
  have hstop : Reads january januaryFirst.stop (newYear + (day - second)) := ⟨_, rfl, by decide, by decide⟩
  have hrow : Reads january "2025-01-01T08:00:00+00:00" (newYear + 8 * hour) := ⟨_, rfl, by decide, by decide⟩
  have hstored : Stored january (fun _ => newYear + 8 * hour) oneError.rows := by
    intro row hmem
    obtain rfl := List.mem_singleton.mp hmem
    exact ⟨_, hrow, hrow.canonical⟩
  obtain ⟨htexts, hsearch⟩ := canonical_order january
  exact ⟨htexts _ _ _ _ hstart hstop,
    (hsearch (reading january) oneError januaryFirst _ _ _ rfl hstart hstop hstored errorTwice 50 none).1⟩

end incidentdesk.log_store
