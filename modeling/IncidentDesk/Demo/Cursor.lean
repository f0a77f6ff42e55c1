import IncidentDesk.Demo.Statistics

namespace incidentdesk.log_store

open pagination (sorted unread)

section Encoding

variable {lib : Library} {fields : List (String × Json)}

/-- The characters of an entry. -/
def entrySize (entry : String × Json) : Nat :=
  (Json.quoted true entry.1).length + 2 + (entry.2.chars .default).length

/-- The characters of some positions: the brackets, the entries, and a comma and a
space between them. -/
def textSize (fields : List (String × Json)) : Nat := 2 + (fields.map entrySize).sum + 2 * (fields.length - 1)

theorem length_memberTexts (fields : List (String × Json)) :
    ([',', ' '].intercalate (Json.chars.memberTexts .default fields)).length =
      (fields.map entrySize).sum + 2 * (fields.length - 1) := by
  induction fields with
  | nil => rfl
  | cons field fields ih =>
    obtain ⟨key, v⟩ := field
    have hentry : (Json.quoted Json.Format.default.ascii key ++ Json.Format.default.colon ++
        v.chars .default).length = entrySize (key, v) := by
      rw [List.length_append, List.length_append]
      rfl
    cases fields with
    | nil =>
      rw [Json.chars.memberTexts, Json.chars.memberTexts, List.intercalate_singleton, hentry]
      simp
    | cons next fields =>
      rw [Json.chars.memberTexts, Json.chars.memberTexts, List.intercalate_cons_cons, ← Json.chars.memberTexts,
        List.length_append, List.length_append, hentry, ih]
      simp only [List.map_cons, List.sum_cons, List.length_cons, List.length_nil]
      omega

theorem length_dumps (fields : List (String × Json)) : (Json.obj fields).dumps.toList.length = textSize fields := by
  rw [Json.dumps, String.toList_ofList, Json.chars, List.length_cons, List.length_append]
  have hmembers := length_memberTexts fields
  change ([',', ' '].intercalate (Json.chars.memberTexts .default fields)).length + _ + 1 = _
  rw [hmembers, textSize, List.length_singleton]
  omega

/-- A cursor is as long as the text of its positions takes in groups of three. -/
theorem length_encode (fields : List (String × Json)) : (encode fields).length = 4 * ((textSize fields + 2) / 3) := by
  rw [encode, ← String.length_toList, String.toList_ofList, base64.length_encode, List.length_map, length_dumps]

theorem two_le_textSize (fields : List (String × Json)) : 2 ≤ textSize fields := by
  unfold textSize
  omega

theorem encode_ne_empty (fields : List (String × Json)) : encode fields ≠ "" := by
  intro h
  have hlength := length_encode fields
  have hsize := two_le_textSize fields
  rw [h] at hlength
  change 0 = _ at hlength
  omega

/-- The text of positions is plain ASCII, and is read back as it was written. -/
theorem loads_encode (h : (Json.obj fields).Distinct) :
    (base64.decode (encode fields).toList).bind lib.loads = some (.obj fields) := by
  have hplain := Json.plain_chars (.obj fields)
  have hdumps : (Json.obj fields).dumps.toList = (Json.obj fields).chars .default := by
    rw [Json.dumps, String.toList_ofList]
  rw [encode, String.toList_ofList, hdumps, base64.decode_encode, Option.bind_some, Library.loads, if_pos]
  · have hback : (((Json.obj fields).chars .default).map Char.toNat).map Char.ofNat = (Json.obj fields).chars .default := by
      rw [List.map_map]
      exact (List.map_congr_left fun c _ => Char.ofNat_toNat c).trans (List.map_id _)
    rw [hback, Option.bind_some, Json.loads_chars Json.default_proper h]
  · rw [List.all_eq_true]
    intro n hn
    obtain ⟨c, hc, rfl⟩ := List.mem_map.mp hn
    simpa using hplain c hc
  · intro n hn
    obtain ⟨c, hc, rfl⟩ := List.mem_map.mp hn
    have := hplain c hc
    omega

/-- A cursor is accepted, as the positions that it stands for, if it is not too
long. -/
theorem positions_encode_iff (lib : Library) (h : (Json.obj fields).Distinct) :
    positions lib (some (encode fields)) = .ok fields ↔ textSize fields ≤ 3072 := by
  have hlength : 4096 < (encode fields).length ↔ 3072 < textSize fields := by
    rw [length_encode]
    omega
  rw [positions, Option.getD_some, if_neg (encode_ne_empty fields)]
  by_cases hlong : 4096 < (encode fields).length
  · rw [if_pos hlong]
    constructor
    · intro hok
      cases hok
    · intro hsize
      have := hlength.mp hlong
      omega
  · rw [if_neg hlong, loads_encode h]
    exact iff_of_true rfl (not_lt.mp (mt hlength.mpr hlong))

end Encoding

section Entries

variable {lib : Library} {start level : String} {cursor : Option String} {rows : List Row}
  {found fields : List (String × Json)} {pair : String × Json} {ids : List Int}

theorem distinct_put (h : (Json.obj fields).Distinct) (hpair : pair.2.Distinct) :
    (Json.obj (Json.put fields pair)).Distinct := by
  refine ⟨Json.nodup_put h.1, Json.membersDistinct_iff.mpr fun field hfield => ?_⟩
  obtain hold | rfl := Json.mem_put hfield
  · exact Json.membersDistinct_iff.mp h.2 field hold
  · exact hpair

theorem positions_distinct (h : positions lib cursor = .ok found) : (Json.obj found).Distinct := by
  unfold positions at h
  split at h
  · cases h
    exact ⟨List.nodup_nil, trivial⟩
  · split at h
    · cases h
    · split at h
      · rename_i fields hfields
        cases h
        obtain ⟨bytes, -, hloads⟩ := Option.bind_eq_some_iff.mp hfields
        obtain ⟨text, -, htext⟩ := Option.bind_eq_some_iff.mp hloads
        exact Json.loads_distinct htext
      · cases h

theorem toUpper_ne_f (c : Char) : c.toUpper ≠ 'f' := by
  unfold Char.toUpper
  split
  · rename_i h
    intro heq
    have hlow : 97 ≤ c.val.toNat := UInt32.le_iff_toNat_le.mp h.1
    have hhigh : c.val.toNat ≤ 122 := UInt32.le_iff_toNat_le.mp h.2
    have hvalue := congrArg (fun c => c.val.toNat) heq
    simp only [UInt32.toNat_add] at hvalue
    change _ = 102 at hvalue
    change (c.val.toNat + 4294967264) % 2 ^ 32 = 102 at hvalue
    omega
  · rename_i h
    rintro rfl
    exact h (by decide)

/-- A level is in capitals, and the key of the featured rows is not. -/
theorem LEVEL_ne_featured (row : Row) : LEVEL row ≠ "_featured" := by
  have hcapital : ∀ text : String, text.toUpper ≠ "_featured" := by
    intro text heq
    have hf : 'f' ∈ text.toUpper.toList := by
      rw [heq]
      decide
    rw [String.toUpper, String.toList_map] at hf
    obtain ⟨c, -, hc⟩ := List.mem_map.mp hf
    exact toUpper_ne_f c hc
  exact hcapital _

theorem featured_nums (ids : List Int) (hids : ids.length ≤ 50)
    (h : (Json.obj fields).get? "_featured" = some (.arr (ids.map .num))) : featured fields = .ok ids := by
  have hmapM : (ids.map Json.num).mapM int? = some ids := by
    have hint : (int? ∘ Json.num) = fun n => pure n := rfl
    rw [List.mapM_map, hint, List.mapM_pure, List.map_id']
    rfl
  rw [featured, h]
  simp only [hmapM, List.length_map]
  rw [if_neg (by omega)]
  rfl

/-- The last row that a page reads of each level, when it holds some records
already. -/
def stops (start : String) (rows : List Row) (found : List (String × Json)) (ids : List Int) (limit quota : Nat) :
    Nat → List String → List (String × Row)
  | _, [] => []
  | n, level :: levels =>
    let pos := (position start found level).toOption.getD (toLex (start, 0))
    let read := (unreadOf rows level pos).take (min quota (limit - n))
    (read.getLast?.map fun row => (level, row)).toList ++
      stops start rows found ids limit quota (n + (read.filter fun row => row.id ∉ ids).length) levels

/-- Positions, with the rows from which some levels are to be continued. -/
def continued (next : List (String × Json)) (stops : List (String × Row)) : List (String × Json) :=
  stops.foldl (fun next stop => Json.put next (stop.1, .arr [.str stop.2.event_time, .num stop.2.id])) next

theorem readLevel_take {limit quota : Nat} {p p' : Progress}
    (h : readLevel start rows found ids limit quota p level = .ok p') :
    ∃ pos, position start found level = .ok pos ∧
      p'.records = p.records ++ ((unreadOf rows level pos).take (min quota (limit - p.records.length))).filter
        (fun row => row.id ∉ ids) ∧
      p'.next_positions = advance p.next_positions level
        ((unreadOf rows level pos).take (min quota (limit - p.records.length))) := by
  obtain ⟨pos, read, rest, hpos, hunread, hlength, hrecords, hnext, -⟩ := readLevel_spec h
  have hread : read = (unreadOf rows level pos).take (min quota (limit - p.records.length)) := by
    rw [List.take_eq_take_min, ← hlength, hunread, List.take_left]
  exact ⟨pos, hpos, hread ▸ hrecords, hread ▸ hnext⟩

/-- The loop leaves the positions at the last rows that it has read. -/
theorem loop_positions {limit quota : Nat} {levels : List String} {p p' : Progress}
    (h : levels.foldlM (readLevel start rows found ids limit quota) p = .ok p') :
    p'.next_positions =
      continued p.next_positions (stops start rows found ids limit quota p.records.length levels) := by
  induction levels generalizing p with
  | nil =>
    cases h
    rfl
  | cons level levels ih =>
    rw [List.foldlM_cons] at h
    cases hstep : readLevel start rows found ids limit quota p level with
    | error e =>
      rw [hstep] at h
      cases h
    | ok mid =>
      rw [hstep] at h
      obtain ⟨pos, hpos, hrecords, hnext⟩ := readLevel_take hstep
      rw [ih h, hnext, hrecords, List.length_append, stops, hpos]
      simp only [Except.toOption, Option.getD_some]
      rw [continued, continued, List.foldl_append]
      congr 1
      unfold advance
      cases ((unreadOf rows level pos).take (min quota (limit - p.records.length))).getLast? <;> rfl

/-- The loop fails only where the cursor does not say where a level is to be
continued. -/
theorem loop_ok_iff {limit quota : Nat} {levels : List String} (p : Progress) :
    (∃ p', levels.foldlM (readLevel start rows found ids limit quota) p = .ok p') ↔
      ∀ level ∈ levels, ∃ pos, position start found level = .ok pos := by
  induction levels generalizing p with
  | nil => exact iff_of_true ⟨p, rfl⟩ (List.forall_mem_nil _)
  | cons level levels ih =>
    rw [List.forall_mem_cons, List.foldlM_cons]
    have hstep : (∃ mid, readLevel start rows found ids limit quota p level = .ok mid) ↔
        ∃ pos, position start found level = .ok pos := by
      constructor
      · rintro ⟨mid, hmid⟩
        obtain ⟨pos, hpos, -⟩ := readLevel_take hmid
        exact ⟨pos, hpos⟩
      · rintro ⟨pos, hpos⟩
        unfold readLevel
        rw [hpos]
        simp only [bind, Except.bind]
        split
        · exact ⟨_, rfl⟩
        · exact ⟨_, rfl⟩
    rw [← hstep]
    cases hmid : readLevel start rows found ids limit quota p level with
    | error e =>
      constructor
      · rintro ⟨p', hp'⟩
        cases hp'
      · rintro ⟨⟨mid, hmid⟩, -⟩
        cases hmid
    | ok mid =>
      constructor
      · exact fun h => ⟨⟨mid, rfl⟩, (ih mid).mp h⟩
      · exact fun h => (ih mid).mpr h.2

end Entries

section Usable

variable {lib : Library} {store : Store} {scope : Scope} {spec : worker.LogQuery} {cursor : Option String}
  {page : Page} {limit : Int} {next : String}

/-- The representatives that a page shows. -/
def shown (lib : Library) (spec : worker.LogQuery) (rows : List Row) (limit : Nat) (cursor : Option String) : List Row :=
  if scans spec rows cursor then (rare lib limit (selection spec rows)).toOption.getD [] else []

/-- The rows that the levels leave out, on this page and on later ones. -/
def leftOut (lib : Library) (spec : worker.LogQuery) (rows : List Row) (limit : Nat) (cursor : Option String) :
    List Int :=
  if scans spec rows cursor then (shown lib spec rows limit cursor).map Row.id
  else (featured ((positions lib cursor).toOption.getD [])).toOption.getD []

/-- Where a page leaves its reader: the positions so far, the featured rows if it
is the page that shows them, and the last row that it reads of each level. -/
def left (lib : Library) (start : String) (spec : worker.LogQuery) (rows : List Row) (limit : Nat)
    (cursor : Option String) : List (String × Json) :=
  let found := (positions lib cursor).toOption.getD []
  let ids := leftOut lib spec rows limit cursor
  let n := (shown lib spec rows limit cursor).length
  let quota := max 1 ((limit - n) / max 1 (eligible spec rows).length)
  continued
    (if scans spec rows cursor then Json.put found ("_featured", .arr (ids.map .num)) else found)
    (stops start (selection spec rows) found ids limit quota n (eligible spec rows))

theorem length_of_positions {fields : List (String × Json)} (h : positions lib (some next) = .ok fields) :
    next.length ≤ 4096 := by
  by_contra hlong
  rw [positions, Option.getD_some] at h
  split at h
  · rename_i hempty
    rw [hempty] at hlong
    exact hlong (by decide)
  · rw [if_pos (not_le.mp hlong)] at h
    cases h

theorem continued_spec {fields : List (String × Json)} (stops : List (String × Row)) (key : String)
    (hfields : (Json.obj fields).Distinct) : (Json.obj (continued fields stops)).Distinct ∧
      ((Json.obj (continued fields stops)).get? key = (Json.obj fields).get? key ∧ key ∉ stops.map Prod.fst ∨
        ∃ row : Row, (Json.obj (continued fields stops)).get? key =
          some (.arr [.str row.event_time, .num row.id]) ∧ key ∈ stops.map Prod.fst) := by
  induction stops generalizing fields with
  | nil => exact ⟨hfields, .inl ⟨rfl, List.not_mem_nil⟩⟩
  | cons stop stops ih =>
    have hput : (Json.obj (Json.put fields (stop.1, .arr [.str stop.2.event_time, .num stop.2.id]))).Distinct :=
      distinct_put hfields ⟨trivial, trivial, trivial⟩
    obtain ⟨hdistinct, hget⟩ := ih hput
    refine ⟨hdistinct, ?_⟩
    obtain ⟨hsame, hnot⟩ | ⟨row, hrow, hmem⟩ := hget
    · by_cases hkey : stop.1 = key
      · refine .inr ⟨stop.2, hsame.trans ?_, by simp [hkey]⟩
        rw [← hkey]
        exact Json.get?_put_self
      · exact .inl ⟨hsame.trans (Json.get?_put_of_ne hkey), by simpa [Ne.symm hkey] using hnot⟩
    · exact .inr ⟨row, hrow, List.mem_cons_of_mem _ hmem⟩

theorem stops_keys {start : String} {rows : List Row} {found : List (String × Json)} {ids : List Int}
    {limit quota : Nat} {levels : List String} {key : String} (n : Nat)
    (h : key ∈ (stops start rows found ids limit quota n levels).map Prod.fst) : key ∈ levels := by
  induction levels generalizing n with
  | nil => cases h
  | cons level levels ih =>
    rw [stops, List.map_append] at h
    obtain hfirst | hrest := List.mem_append.mp h
    · obtain ⟨stop, hstop, rfl⟩ := List.mem_map.mp hfirst
      obtain ⟨row, -, rfl⟩ := Option.map_eq_some_iff.mp (Option.mem_toList.mp hstop)
      exact List.mem_cons_self
    · exact List.mem_cons_of_mem _ (ih _ hrest)

theorem eligible_ne_featured {rows : List Row} {level : String} (h : level ∈ eligible spec rows) :
    level ≠ "_featured" := by
  obtain ⟨-, row, -, rfl⟩ := mem_eligible.mp h
  exact LEVEL_ne_featured row

theorem clamp_le (limit : Int) : clamp limit ≤ 100 := by
  unfold clamp
  omega

theorem walk_shown {rows : List Row} {limit : Nat} {found : List (String × Json)} {ids : List Int}
    {records : List Row} (hpositions : positions lib cursor = .ok found) (hfeatured : featured found = .ok ids)
    (hrecords : (if scans spec rows cursor then rare lib limit (selection spec rows) else .ok []) = .ok records) :
    shown lib spec rows limit cursor = records ∧
      leftOut lib spec rows limit cursor = (if scans spec rows cursor then records.map Row.id else ids) := by
  have hshown : shown lib spec rows limit cursor = records := by
    rw [shown]
    cases hscans : scans spec rows cursor with
    | false =>
      rw [hscans] at hrecords
      cases hrecords
      rfl
    | true =>
      rw [hscans, if_pos rfl] at hrecords
      rw [if_pos rfl, hrecords]
      rfl
  refine ⟨hshown, ?_⟩
  rw [leftOut, hshown, hpositions]
  simp only [Except.toOption, Option.getD_some, hfeatured]

/-- A page leaves positions from which its reader can continue: only their size can
be in the way. -/
theorem walk_left {start : String} {rows : List Row} {limit : Nat} {p : Progress} (hlimit : limit ≤ 100)
    (h : walk lib start spec rows limit cursor = .ok p) :
    p.next_positions = left lib start spec rows limit cursor ∧ (Json.obj p.next_positions).Distinct ∧
      featured p.next_positions = .ok (leftOut lib spec rows limit cursor) ∧
      ∀ level ∈ eligible spec rows, ∃ pos, position start p.next_positions level = .ok pos := by
  obtain ⟨found, ids, records, quota, hpositions, hfeatured, hrecords, hquota, hloop⟩ := walk_spec h
  have hchecked := (loop_ok_iff _).mp ⟨p, hloop⟩
  have hnext := loop_positions hloop
  obtain ⟨hshown, hids⟩ := walk_shown hpositions hfeatured hrecords
  have hleft : p.next_positions = left lib start spec rows limit cursor := by
    rw [hnext, left, hshown, hids, hpositions, hquota]
    simp only [Except.toOption, Option.getD_some]
    cases scans spec rows cursor <;> rfl
  have hfound : (Json.obj found).Distinct := positions_distinct hpositions
  have hbefore : (Json.obj (if scans spec rows cursor then
      Json.put found ("_featured", .arr ((records.map Row.id).map .num)) else found)).Distinct := by
    split
    · refine distinct_put hfound ?_
      induction (records.map Row.id) with
      | nil => trivial
      | cons n ids ih => exact ⟨trivial, ih⟩
    · exact hfound
  refine ⟨hleft, ?_, ?_, ?_⟩
  · rw [hnext]
    exact (continued_spec _ "" hbefore).1
  · obtain ⟨hsame, -⟩ | ⟨row, -, hmem⟩ := (continued_spec (stops start (selection spec rows) found
        (if scans spec rows cursor then records.map Row.id else ids) limit quota records.length (eligible spec rows))
        "_featured" hbefore).2
    · rw [← hnext] at hsame
      cases hscans : scans spec rows cursor with
      | false =>
        rw [hscans] at hsame hids
        rw [hids, featured, hsame]
        exact hfeatured
      | true =>
        rw [hscans] at hsame hrecords hids
        rw [hids]
        refine featured_nums _ ?_ (hsame.trans Json.get?_put_self)
        have hlength := (rare_spec hrecords).2
        change (records.map Row.id).length ≤ 50
        rw [List.length_map]
        omega
    · exact absurd rfl (eligible_ne_featured (stops_keys _ hmem))
  · intro level hlevel
    obtain ⟨hsame, -⟩ | ⟨row, hrow, -⟩ := (continued_spec (stops start (selection spec rows) found
        (if scans spec rows cursor then records.map Row.id else ids) limit quota records.length (eligible spec rows))
        level hbefore).2
    · rw [← hnext] at hsame
      have hget : (Json.obj p.next_positions).get? level = (Json.obj found).get? level := by
        rw [hsame]
        split
        · exact Json.get?_put_of_ne (Ne.symm (eligible_ne_featured hlevel))
        · rfl
      obtain ⟨pos, hpos⟩ := hchecked level hlevel
      refine ⟨pos, ?_⟩
      rw [position, hget]
      exact hpos
    · rw [← hnext] at hrow
      refine ⟨toLex (row.event_time, row.id), ?_⟩
      rw [position, hrow]
      rfl

/-- Positions that pass every check can be continued from. -/
theorem walk_encode {start : String} {rows : List Row} {fields : List (String × Json)} {ids : List Int} (limit : Nat)
    (hok : positions lib (some (encode fields)) = .ok fields) (hfeatured : featured fields = .ok ids)
    (hpositions : ∀ level ∈ eligible spec rows, ∃ pos, position start fields level = .ok pos) :
    ∃ p, walk lib start spec rows limit (some (encode fields)) = .ok p := by
  have hscans : scans spec rows (some (encode fields)) = false := by
    rw [scans, Option.getD_some, decide_eq_false (encode_ne_empty _)]
    rfl
  obtain ⟨p, hp⟩ : ∃ p, (eligible spec rows).foldlM (readLevel start (selection spec rows) fields ids limit
      (max 1 ((limit - 0) / max 1 (eligible spec rows).length)))
      { records := [], next_positions := fields, has_more := false } = .ok p := (loop_ok_iff _).mpr hpositions
  refine ⟨p, ?_⟩
  simp only [walk, hok, hfeatured, hscans, bind, Except.bind, pure, Except.pure, Bool.false_eq_true, if_false]
  exact hp

end Usable

section LongLevel

variable (level : String)

/-- A record of a level. -/
def recordOf (n : Int) : Row where
  id := n
  event_time := "2025-01-01T08:00:00+00:00"
  service := "svc-17"
  payload := [("level", .str level), ("message", .str "pool exhausted")]

/-- Two records of one level at one time. -/
def twoOf : Store where
  rows := [recordOf level 1, recordOf level 2]
  unique := by simp [recordOf]
  fts := fun _ => .ok []

/-- A query for all records. -/
def everything : worker.LogQuery := { mode := "all", terms := [], levels := [] }

theorem LEVEL_recordOf (n : Int) : LEVEL (recordOf level n) = level.toUpper := rfl

theorem twoOf_hits : hits .ascii (twoOf level) januaryFirst everything = [recordOf level 1, recordOf level 2] := by
  have hwindow : januaryFirst.start ≤ (recordOf "" 0).event_time ∧ (recordOf "" 0).event_time ≤ januaryFirst.stop := by
    decide
  have hsatisfies (n : Int) : satisfies .ascii (twoOf level) januaryFirst everything (recordOf level n) = true := by
    simp only [satisfies, everything, decide_true, Bool.true_or, Bool.and_true]
    exact Bool.and_eq_true_iff.mpr
      ⟨Bool.and_eq_true_iff.mpr ⟨rfl, decide_eq_true hwindow.1⟩, decide_eq_true hwindow.2⟩
  change [recordOf level 1, recordOf level 2].filter _ = _
  rw [List.filter_cons_of_pos (hsatisfies 1), List.filter_cons_of_pos (hsatisfies 2), List.filter_nil]

theorem twoOf_eligible : eligible everything [recordOf level 1, recordOf level 2] = [level.toUpper] := by
  simp [eligible, partitions, fallback, everything, selected_levels, histogram, LEVEL_recordOf]

theorem twoOf_unread : unreadOf [recordOf level 1, recordOf level 2] level.toUpper (toLex (januaryFirst.start, 0)) =
    [recordOf level 1, recordOf level 2] := by
  have hkeys : (toLex (januaryFirst.start, (0 : Int)) < key (recordOf "" 1) ∧
      toLex (januaryFirst.start, (0 : Int)) < key (recordOf "" 2)) ∧ key (recordOf "" 1) ≤ key (recordOf "" 2) := by
    decide
  have hkey (n : Int) : key (recordOf level n) = key (recordOf "" n) := rfl
  simp [unreadOf, unread, sorted, LEVEL_recordOf, hkey, hkeys]

/-- The first page ends after the first of the two records. -/
theorem twoOf_walk : walk .ascii januaryFirst.start everything [recordOf level 1, recordOf level 2] 1 none = .ok {
    records := [recordOf level 1]
    next_positions := [(level.toUpper, .arr [.str "2025-01-01T08:00:00+00:00", .num 1])]
    has_more := true } := by
  have hselection : selection everything [recordOf level 1, recordOf level 2] =
      [recordOf level 1, recordOf level 2] := by
    simp [selection, everything, selected_levels]
  have hposition : position januaryFirst.start [] level.toUpper = .ok (toLex (januaryFirst.start, 0)) := rfl
  have hscans : scans everything [recordOf level 1, recordOf level 2] none = false := rfl
  have hfeatured : featured [] = .ok [] := rfl
  simp only [walk, positions, hfeatured, hscans, twoOf_eligible, hselection, List.foldlM_cons, readLevel, hposition,
    twoOf_unread, Option.getD_none, if_true, bind, Except.bind, pure, Except.pure]
  simp
  rfl

theorem twoOf_query (cursor : Option String) : query .ascii (twoOf level) januaryFirst everything 1 cursor =
    (walk .ascii januaryFirst.start everything [recordOf level 1, recordOf level 2] 1 cursor).map
      (pageOf (twoOf level) januaryFirst everything [recordOf level 1, recordOf level 2] cursor) := by
  have hmatching : matching (twoOf level) januaryFirst.service januaryFirst.start januaryFirst.stop everything.terms =
      .ok [recordOf level 1, recordOf level 2] := by
    obtain ⟨rows, hrows⟩ : ∃ rows, matching (twoOf level) januaryFirst.service januaryFirst.start januaryFirst.stop
        everything.terms = .ok rows := by
      rw [matching, if_pos (show everything.terms = [] from rfl)]
      exact ⟨_, rfl⟩
    have hhits : rows = hits .ascii (twoOf level) januaryFirst everything := matching_eq rfl rfl hrows
    rw [hrows, hhits, twoOf_hits]
  have hvalid : validate everything = .ok () := by decide
  have hcanonical (time : String) : Library.ascii.canonical time = .ok time := rfl
  have hclamp : clamp 1 = 1 := by decide
  simp only [query, hvalid, hcanonical, hmatching, hclamp, bind, Except.bind]
  cases walk .ascii januaryFirst.start everything [recordOf level 1, recordOf level 2] 1 cursor <;> rfl

end LongLevel

/-- A level with a name of some length. -/
def longLevel (n : Nat) : String := String.ofList (List.replicate n 'A')

theorem longLevel_toUpper (n : Nat) : (longLevel n).toUpper = longLevel n := by
  apply String.toList_injective
  rw [longLevel, String.toUpper, String.toList_map, String.toList_ofList, List.map_replicate]
  rfl

theorem length_longLevel (n : Nat) : (Json.quoted true (longLevel n)).length = n + 2 := by
  have hescape : ((List.replicate n 'A').flatMap (Json.escape true)).length = n := by
    induction n with
    | zero => rfl
    | succ n ih =>
      rw [List.replicate_succ, List.flatMap_cons, List.length_append, ih, Nat.add_comm]
      rfl
  rw [Json.quoted, longLevel, String.toList_ofList, List.length_cons, List.length_append, hescape,
    List.length_singleton]

/-- After the first of two records of such a level, the reader cannot continue. -/
theorem longLevel_refused {n : Nat} (hn : 3072 ≤ n) : ∃ page next,
    query .ascii (twoOf (longLevel n)) januaryFirst everything 1 none = .ok page ∧ page.next_cursor = some next ∧
      query .ascii (twoOf (longLevel n)) januaryFirst everything 1 (some next) = .error "invalid_cursor" := by
  refine ⟨_, _, by rw [twoOf_query, twoOf_walk]; rfl, rfl, ?_⟩
  have hsize : 3072 < textSize [((longLevel n).toUpper, .arr [.str "2025-01-01T08:00:00+00:00", .num 1])] := by
    rw [longLevel_toUpper, textSize, List.map_cons, List.sum_cons, entrySize, length_longLevel]
    omega
  have hpositions : positions .ascii
      (some (encode [((longLevel n).toUpper, .arr [.str "2025-01-01T08:00:00+00:00", .num 1])])) =
        .error "invalid_cursor" := by
    rw [positions, Option.getD_some, if_neg (encode_ne_empty _), if_pos]
    · rfl
    · rw [length_encode]
      omega
  rw [twoOf_query, walk, hpositions]
  rfl

end incidentdesk.log_store
