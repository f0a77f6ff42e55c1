import Mathlib.Algebra.BigOperators.Group.List.Basic
import Mathlib.Data.List.Induction
import IncidentDesk.Demo.LogStore

namespace incidentdesk.log_store

open pagination (sorted unread sorted_perm mem_unread unread_perm)

section Counting

variable {α β : Type} [DecidableEq β] (f : α → β) (levels : List β) (rows : List α)

/-- Counting the rows of each level counts a row as often as its level is listed. -/
theorem sum_countP : (levels.map fun level => rows.countP fun row => f row = level).sum =
    (rows.map fun row => levels.count (f row)).sum := by
  induction rows with
  | nil => simp
  | cons row rows ih =>
    have hcount : levels.count (f row) = (levels.map fun level => if f row = level then 1 else 0).sum := by
      clear ih
      induction levels with
      | nil => rfl
      | cons level levels ih =>
        rw [List.count_cons, List.map_cons, List.sum_cons, ih, add_comm]
        by_cases heq : f row = level
        · simp [heq]
        · simp [heq, Ne.symm heq]
    rw [List.map_cons, List.sum_cons, ← ih, hcount, ← List.sum_map_add]
    refine congrArg List.sum (List.map_congr_left fun level _ => ?_)
    rw [List.countP_cons, add_comm]
    simp only [decide_eq_true_eq]

theorem countP_mem_le : rows.countP (fun row => f row ∈ levels) ≤ (rows.map fun row => levels.count (f row)).sum := by
  induction rows with
  | nil => exact Nat.le_refl _
  | cons row rows ih =>
    rw [List.countP_cons, List.map_cons, List.sum_cons]
    split
    · rename_i hmem
      have hpos := List.count_pos_iff.mpr (of_decide_eq_true hmem)
      omega
    · omega

/-- The two numbers agree unless a level that is listed twice has a row. -/
theorem countP_mem_eq_iff : (rows.map fun row => levels.count (f row)).sum = rows.countP (fun row => f row ∈ levels) ↔
    ∀ row ∈ rows, levels.count (f row) ≤ 1 := by
  induction rows with
  | nil => simp
  | cons row rows ih =>
    have hle := countP_mem_le f levels rows
    rw [List.countP_cons, List.map_cons, List.sum_cons, List.forall_mem_cons, ← ih]
    by_cases hmem : f row ∈ levels
    · have hpos := List.count_pos_iff.mpr hmem
      simp only [hmem, decide_true, if_true]
      omega
    · simp only [List.count_eq_zero.mpr hmem, hmem, decide_false]
      simp

end Counting

/-- The rule for a loop that may fail: an invariant of the items that it has been
through. -/
theorem foldlM_rule {α β ε : Type} {f : β → α → Except ε β} (I : List α → β → Prop) {l : List α} {b b' : β}
    (h : l.foldlM f b = .ok b') (hinit : I [] b)
    (hstep : ∀ before a after b b', before ++ a :: after = l → I before b → f b a = .ok b' → I (before ++ [a]) b') :
    I l b' := by
  have hrest (before rest : List α) (hsplit : before ++ rest = l) (b : β) (hb : I before b)
      (h : rest.foldlM f b = .ok b') : I l b' := by
    induction rest generalizing before b with
    | nil =>
      cases h
      rwa [← hsplit, List.append_nil]
    | cons a rest ih =>
      rw [List.foldlM_cons] at h
      cases hfirst : f b a with
      | error e =>
        rw [hfirst] at h
        cases h
      | ok mid =>
        rw [hfirst] at h
        exact ih (before ++ [a]) (by simp [← hsplit]) mid (hstep before a rest b mid hsplit hb hfirst) h
  exact hrest [] l rfl b hinit h

section Histogram

variable {spec : worker.LogQuery} {rows : List Row} {level : String} {row : Row}

theorem lookup_histogram (rows : List Row) (level : String) :
    ((histogram rows).lookup level).getD 0 = rows.countP fun row => LEVEL row = level := by
  have hlookup (levels : List String) : (levels.map fun level =>
      (level, rows.countP fun row => LEVEL row = level)).lookup level =
      if level ∈ levels then some (rows.countP fun row => LEVEL row = level) else none := by
    induction levels with
    | nil => rfl
    | cons other levels ih =>
      rw [List.map_cons, List.lookup_cons, ih]
      by_cases heq : level = other
      · simp [heq]
      · simp [heq, beq_false_of_ne heq]
  rw [histogram, hlookup]
  split
  · rfl
  · rename_i hmem
    refine (List.countP_eq_zero.mpr fun row hrow heq => hmem ?_).symm
    rw [List.mem_dedup, ← of_decide_eq_true heq]
    exact List.mem_map_of_mem hrow

theorem levels_histogram (rows : List Row) : (histogram rows).map Prod.fst = (rows.map LEVEL).dedup := by
  rw [histogram, List.map_map]
  exact List.map_id _

/-- The histogram counts every row once. -/
theorem sum_histogram (rows : List Row) : ((histogram rows).map Prod.snd).sum = rows.length := by
  have hcounts : (histogram rows).map Prod.snd =
      (rows.map LEVEL).dedup.map fun level => rows.countP fun row => LEVEL row = level := by
    rw [histogram, List.map_map]
    rfl
  have honce : ∀ row ∈ rows, (rows.map LEVEL).dedup.count (LEVEL row) = 1 := fun row hrow =>
    List.count_eq_one_of_mem (List.nodup_dedup _) (List.mem_dedup.mpr (List.mem_map_of_mem hrow))
  rw [hcounts, sum_countP, List.map_congr_left honce]
  simp

/-- The rows of the levels that a specification selects, or of any when it
selects none. -/
def isSelected (spec : worker.LogQuery) (row : Row) : Bool :=
  selected_levels spec = [] || LEVEL row ∈ selected_levels spec

theorem matched_eq_sum (h : selected_levels spec ≠ []) :
    matched spec rows = (rows.map fun row => (selected_levels spec).count (LEVEL row)).sum := by
  rw [matched, if_pos h, ← sum_countP]
  simp only [lookup_histogram]

theorem matched_eq_length (h : selected_levels spec = []) : matched spec rows = rows.length := by
  rw [matched, if_neg (not_not.mpr h), sum_histogram]

/-- `matched` is the number of the rows that are selected exactly if no row has a
level that is listed twice. -/
theorem matched_eq_iff : matched spec rows = rows.countP (isSelected spec) ↔
    ∀ row ∈ rows, (selected_levels spec).count (LEVEL row) ≤ 1 := by
  by_cases h : selected_levels spec = []
  · have hselected : isSelected spec = fun _ => true := by
      funext row
      simp [isSelected, h]
    simp [matched_eq_length h, hselected, h]
  · have hselected : isSelected spec = fun row => Decidable.decide (LEVEL row ∈ selected_levels spec) := by
      funext row
      simp [isSelected, h]
    rw [matched_eq_sum h, hselected, countP_mem_eq_iff]

theorem matched_eq_zero (h : matched spec rows = 0) : ∀ row ∈ rows, isSelected spec row = false := by
  intro row hrow
  by_cases hempty : selected_levels spec = []
  · rw [matched_eq_length hempty, List.length_eq_zero_iff] at h
    rw [h] at hrow
    cases hrow
  · have hle := countP_mem_le LEVEL (selected_levels spec) rows
    rw [← matched_eq_sum hempty, h] at hle
    have hnot := List.countP_eq_zero.mp (Nat.le_zero.mp hle) row hrow
    simpa [isSelected, hempty] using hnot

end Histogram

section Eligible

variable {spec : worker.LogQuery} {rows : List Row} {level : String} {row : Row}

theorem mem_eligible : level ∈ eligible spec rows ↔
    level ∈ partitions spec rows ∧ ∃ row ∈ rows, LEVEL row = level := by
  rw [eligible, List.mem_filter, lookup_histogram, decide_eq_true_eq, ← Nat.pos_iff_ne_zero, List.countP_pos_iff]
  simp only [decide_eq_true_eq]

theorem mem_selection : row ∈ selection spec rows ↔
    row ∈ rows ∧ (fallback spec rows = true ∨ isSelected spec row = true) := by
  unfold selection isSelected
  by_cases hfallback : fallback spec rows = true
  · simp [hfallback]
  · by_cases hempty : selected_levels spec = []
    · simp [hempty]
    · simp [hfallback, hempty, List.mem_filter]

theorem selection_sublist (spec : worker.LogQuery) (rows : List Row) : (selection spec rows).Sublist rows := by
  unfold selection
  split
  · exact List.Sublist.refl _
  · exact List.filter_sublist

/-- A search walks the level of every row that it selects. -/
theorem selection_eligible (h : row ∈ selection spec rows) : LEVEL row ∈ eligible spec rows := by
  obtain ⟨hrow, hselected⟩ := mem_selection.mp h
  refine mem_eligible.mpr ⟨?_, row, hrow, rfl⟩
  have hlevel : LEVEL row ∈ (histogram rows).map Prod.fst := by
    rw [levels_histogram, List.mem_dedup]
    exact List.mem_map_of_mem hrow
  unfold partitions
  dsimp only
  split
  · exact (List.perm_insertionSort _ _).mem_iff.mpr hlevel
  · rename_i hfallback
    split
    · rename_i hempty
      simpa [isSelected, hempty] using hselected.resolve_left hfallback
    · exact (List.perm_insertionSort _ _).mem_iff.mpr hlevel

theorem ERROR_LEVELS_nodup : ERROR_LEVELS.Nodup := by decide

/-- No level is walked twice, unless one that is listed twice has a row. -/
theorem eligible_nodup (h : ∀ row ∈ rows, (selected_levels spec).count (LEVEL row) ≤ 1) :
    (eligible spec rows).Nodup := by
  have hlevels : ((histogram rows).map Prod.fst).Nodup := by
    rw [levels_histogram]
    exact List.nodup_dedup _
  rw [List.nodup_iff_count_le_one]
  intro level
  by_cases hmem : level ∈ eligible spec rows
  · obtain ⟨-, row, hrow, rfl⟩ := mem_eligible.mp hmem
    refine (List.filter_sublist.count_le _).trans ?_
    unfold partitions
    dsimp only
    split
    · rw [(List.perm_insertionSort _ _).count_eq]
      exact List.nodup_iff_count_le_one.mp hlevels _
    · split
      · exact h row hrow
      · rw [(List.perm_insertionSort _ _).count_eq]
        exact List.nodup_iff_count_le_one.mp hlevels _
  · rw [List.count_eq_zero.mpr hmem]
    exact Nat.zero_le 1

end Eligible

section Pages

variable {lib : Library} {start level : String} {rows : List Row} {positions : List (String × Json)}
  {featured : List Int} {limit quota : Nat} {p p' : Progress}

theorem put_put (fields : List (String × Json)) (key : String) (v w : Json) :
    Json.put (Json.put fields (key, v)) (key, w) = Json.put fields (key, w) := by
  by_cases hmem : key ∈ fields.map Prod.fst
  · have hput : key ∈ (Json.put fields (key, v)).map Prod.fst := by rwa [Json.keys_put_of_mem hmem]
    rw [Json.put_of_mem hput, Json.put_of_mem hmem, Json.put_of_mem hmem, List.map_map]
    refine List.map_congr_left fun field _ => ?_
    simp only [Function.comp_apply]
    by_cases heq : field.1 = key
    · simp [heq]
    · simp [heq]
  · have hput : key ∈ (Json.put fields (key, v)).map Prod.fst := by
      rw [Json.put_of_not_mem hmem]
      simp
    rw [Json.put_of_mem hput, Json.put_of_not_mem hmem, Json.put_of_not_mem hmem, List.map_append]
    congr 1
    · refine (List.map_congr_left fun field hfield => ?_).trans (List.map_id _)
      rw [if_neg fun heq : field.1 = key => hmem (heq ▸ List.mem_map_of_mem hfield)]
      rfl
    · simp

/-- Where a level is continued after some rows. -/
def advance (next : List (String × Json)) (level : String) (read : List Row) : List (String × Json) :=
  match read.getLast? with
  | some row => Json.put next (level, .arr [.str row.event_time, .num row.id])
  | none => next

theorem foldl_put (next : List (String × Json)) (level : String) (read : List Row) :
    read.foldl (fun next row => Json.put next (level, .arr [.str row.event_time, .num row.id])) next =
      advance next level read := by
  induction read using List.reverseRecOn with
  | nil => rfl
  | append_singleton read row ih =>
    have hlast : (read ++ [row]).getLast? = some row := by simp
    rw [List.foldl_append, ih, advance, advance, hlast, List.foldl_cons, List.foldl_nil]
    cases read.getLast? with
    | none => rfl
    | some other => exact put_put _ _ _ _

/-- What one level adds to a page: some of its next rows, as many as there is
room for. -/
theorem readLevel_spec (h : readLevel start rows positions featured limit quota p level = .ok p') :
    ∃ pos read rest, position start positions level = .ok pos ∧ unreadOf rows level pos = read ++ rest ∧
      read.length = min (min quota (limit - p.records.length)) (unreadOf rows level pos).length ∧
      p'.records = p.records ++ read.filter (fun row => row.id ∉ featured) ∧
      p'.next_positions = advance p.next_positions level read ∧
      p'.has_more = (p.has_more || Decidable.decide (min quota (limit - p.records.length) = 0) || !rest.isEmpty) := by
  unfold readLevel at h
  cases hpos : position start positions level with
  | error e =>
    rw [hpos] at h
    cases h
  | ok pos =>
    rw [hpos] at h
    simp only [bind, Except.bind] at h
    refine ⟨pos, (unreadOf rows level pos).take (min quota (limit - p.records.length)),
      (unreadOf rows level pos).drop (min quota (limit - p.records.length)), rfl,
      (List.take_append_drop _ _).symm, List.length_take, ?_⟩
    split at h
    · rename_i hcount
      cases h
      simp [hcount, advance]
    · rename_i hcount
      cases h
      have htake : ((unreadOf rows level pos).take (min quota (limit - p.records.length) + 1)).take
          (min quota (limit - p.records.length)) = (unreadOf rows level pos).take (min quota (limit - p.records.length)) := by
        rw [List.take_take, Nat.min_eq_left (Nat.le_succ _)]
      refine ⟨by rw [htake], by rw [htake, foldl_put], ?_⟩
      simp only [hcount, decide_false, Bool.or_false]
      congr 1
      rw [List.length_take, Bool.eq_iff_iff]
      simp only [decide_eq_true_eq, Bool.not_eq_true', List.isEmpty_eq_false_iff, ← List.length_pos_iff, List.length_drop]
      omega

theorem mem_unreadOf {pos : String ×ₗ Int} {row : Row} :
    row ∈ unreadOf rows level pos ↔ row ∈ rows ∧ LEVEL row = level ∧ pos < key row := by
  rw [unreadOf, mem_unread, List.mem_filter, decide_eq_true_eq, and_assoc]

theorem unreadOf_subperm (rows : List Row) (level : String) (pos : String ×ₗ Int) :
    (unreadOf rows level pos).Subperm rows :=
  (unread_perm _ _).subperm.trans (List.filter_sublist.trans List.filter_sublist).subperm

theorem nodup_of_subperm {read : List Row} (h : read.Subperm rows) (hrows : (rows.map Row.id).Nodup) :
    (read.map Row.id).Nodup := by
  obtain ⟨middle, hperm, hsublist⟩ := h
  exact (hperm.map _).nodup_iff.mp ((hsublist.map _).nodup hrows)

theorem group_rows (groups : List (List Char × Nat × Row)) (signature : List Char) (row : Row) :
    (group groups signature row).map (fun g => g.2.2) = groups.map (fun g => g.2.2) ∨
      (group groups signature row).map (fun g => g.2.2) = groups.map (fun g => g.2.2) ++ [row] := by
  unfold group
  split
  · refine .inl ?_
    rw [List.map_map]
    refine List.map_congr_left fun g _ => ?_
    rw [Function.comp_apply]
    split <;> rfl
  · exact .inr (by simp)

/-- The representatives are some of the rows, each at most once, and take no more
than half of a page. -/
theorem rare_spec {found : List Row} (h : rare lib limit rows = .ok found) :
    found.Subperm rows ∧ found.length ≤ max 1 (limit / 2) := by
  unfold rare at h
  cases hgroups : rows.foldlM (fun groups row => return group groups (← signature lib row.payload) row) [] with
  | error e =>
    rw [hgroups] at h
    cases h
  | ok groups =>
    rw [hgroups] at h
    cases h
    have hsublist : (groups.map fun g => g.2.2).Sublist rows := by
      refine foldlM_rule (fun before (groups : List (List Char × Nat × Row)) =>
        (groups.map fun g => g.2.2).Sublist before) hgroups (List.Sublist.refl _) ?_
      intro before row after groups groups' _ hbefore hstep
      cases hsignature : signature lib row.payload with
      | error e =>
        rw [hsignature] at hstep
        cases hstep
      | ok signature =>
        rw [hsignature] at hstep
        cases hstep
        obtain heq | heq := group_rows groups signature row
        · rw [heq]
          exact hbefore.trans (List.sublist_append_left _ _)
        · rw [heq]
          exact hbefore.append (List.Sublist.refl _)
    refine ⟨?_, by rw [List.length_map, List.length_take]; exact Nat.min_le_left _ _⟩
    refine List.Subperm.trans ?_ hsublist.subperm
    have hrows : groups.map (fun g => g.2.2) = (groups.map Prod.snd).map Prod.snd := by
      rw [List.map_map]
      rfl
    rw [hrows]
    exact ((List.take_sublist _ _).map _).subperm.trans (((sorted_perm _).map _).subperm)

end Pages

section Query

variable {lib : Library} {store : Store} {scope : Scope} {spec : worker.LogQuery} {cursor : Option String}
  {rows : List Row} {p : Progress} {page : Page}

/-- What a page is made of. -/
theorem walk_spec {start : String} {limit : Nat} (h : walk lib start spec rows limit cursor = .ok p) :
    ∃ found ids records quota, positions lib cursor = .ok found ∧ featured found = .ok ids ∧
      (if scans spec rows cursor then rare lib limit (selection spec rows) else .ok []) = .ok records ∧
      quota = max 1 ((limit - records.length) / max 1 (eligible spec rows).length) ∧
      (eligible spec rows).foldlM (readLevel start (selection spec rows) found
        (if scans spec rows cursor then records.map Row.id else ids) limit quota)
        { records
          next_positions := if scans spec rows cursor then
            Json.put found ("_featured", .arr ((records.map Row.id).map .num)) else found
          has_more := false } = .ok p := by
  unfold walk at h
  cases hpositions : positions lib cursor with
  | error e =>
    rw [hpositions] at h
    cases h
  | ok found =>
    rw [hpositions] at h
    simp only [bind, Except.bind] at h
    cases hfeatured : featured found with
    | error e =>
      rw [hfeatured] at h
      cases h
    | ok ids =>
      rw [hfeatured] at h
      cases hscans : scans spec rows cursor with
      | false =>
        rw [hscans] at h
        exact ⟨found, ids, [], _, rfl, hfeatured, rfl, rfl, h⟩
      | true =>
        rw [hscans] at h
        simp only [if_true] at h
        cases hrare : rare lib limit (selection spec rows) with
        | error e =>
          rw [hrare] at h
          cases h
        | ok records =>
          rw [hrare] at h
          exact ⟨found, ids, records, _, rfl, hfeatured, rfl, rfl, h⟩

/-- A row is one that service, window and terms ask for. -/
def satisfies (lib : Library) (store : Store) (scope : Scope) (spec : worker.LogQuery) (row : Row) : Bool :=
  row.service = scope.service &&
    (lib.canonical scope.start).toOption.any (fun start => start ≤ row.event_time) &&
    (lib.canonical scope.stop).toOption.any (fun stop => row.event_time ≤ stop) &&
    (spec.terms = [] || (store.fts (expression spec.terms)).toOption.any fun found => row.id ∈ found)

theorem matching_eq {start stop : String} (hstart : lib.canonical scope.start = .ok start)
    (hstop : lib.canonical scope.stop = .ok stop)
    (h : matching store scope.service start stop spec.terms = .ok rows) :
    rows = store.rows.filter (satisfies lib store scope spec) := by
  unfold matching at h
  by_cases hterms : spec.terms = []
  · rw [if_pos hterms] at h
    cases h
    refine List.filter_congr fun row _ => ?_
    simp [satisfies, hstart, hstop, hterms, Except.toOption]
  · rw [if_neg hterms] at h
    cases hfts : store.fts (expression spec.terms) with
    | error e =>
      rw [hfts] at h
      cases h
    | ok found =>
      rw [hfts] at h
      cases h
      refine List.filter_congr fun row _ => ?_
      simp [satisfies, hstart, hstop, hterms, hfts, Except.toOption]

/-- The rows that a search counts and walks. -/
def hits (lib : Library) (store : Store) (scope : Scope) (spec : worker.LogQuery) : List Row :=
  store.rows.filter (satisfies lib store scope spec)

theorem hits_nodup (lib : Library) (store : Store) (scope : Scope) (spec : worker.LogQuery) :
    ((hits lib store scope spec).map Row.id).Nodup := (List.filter_sublist.map _).nodup store.unique

/-- Once a search has been accepted, only the walk over its levels can fail. -/
theorem query_eq {limit : Int} (h : query lib store scope spec limit cursor = .ok page) :
    ∃ start, lib.canonical scope.start = .ok start ∧ ∀ limit cursor, query lib store scope spec limit cursor =
      (walk lib start spec (hits lib store scope spec) (clamp limit) cursor).map
        (pageOf store scope spec (hits lib store scope spec) cursor) := by
  unfold query at h
  cases hvalid : validate spec with
  | error e =>
    rw [hvalid] at h
    cases h
  | ok _ =>
    rw [hvalid] at h
    cases hstart : lib.canonical scope.start with
    | error e =>
      rw [hstart] at h
      cases h
    | ok start =>
      rw [hstart] at h
      cases hstop : lib.canonical scope.stop with
      | error e =>
        rw [hstop] at h
        cases h
      | ok stop =>
        rw [hstop] at h
        cases hrows : matching store scope.service start stop spec.terms with
        | error e =>
          simp only [bind, Except.bind, hrows] at h
          cases h
        | ok rows =>
          obtain rfl : rows = hits lib store scope spec := matching_eq hstart hstop hrows
          refine ⟨start, rfl, fun limit cursor => ?_⟩
          simp only [query, hvalid, hstart, hstop, hrows, bind, Except.bind]
          cases walk lib start spec (hits lib store scope spec) (clamp limit) cursor <;> rfl

theorem query_spec {limit : Int} (h : query lib store scope spec limit cursor = .ok page) :
    ∃ start p, lib.canonical scope.start = .ok start ∧
      walk lib start spec (hits lib store scope spec) (clamp limit) cursor = .ok p ∧
      page = pageOf store scope spec (hits lib store scope spec) cursor p := by
  obtain ⟨start, hstart, heq⟩ := query_eq h
  rw [heq] at h
  cases hwalk : walk lib start spec (hits lib store scope spec) (clamp limit) cursor with
  | error e =>
    rw [hwalk] at h
    cases h
  | ok p =>
    rw [hwalk] at h
    cases h
    exact ⟨start, p, hstart, hwalk, rfl⟩

end Query

end incidentdesk.log_store
