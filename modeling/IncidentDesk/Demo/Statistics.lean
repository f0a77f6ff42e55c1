import IncidentDesk.Demo.Levels
import IncidentDesk.Worker.Terms

namespace incidentdesk.log_store

variable {lib : Library} {store : Store} {scope : Scope} {spec : worker.LogQuery} {cursor : Option String}
  {rows : List Row} {p : Progress} {page : Page}

theorem digits_injective {m n : Int} (h : Json.digits m = Json.digits n) : m = n := by
  have hread (k : Int) : Json.number (Json.digits k) = some (.num k, []) := by
    have hends : Json.Ends [] := fun _ hc => by cases hc
    simpa using Json.number_digits k hends
  have hm := hread m
  rw [h, hread n] at hm
  cases hm
  rfl

/-- Records are told apart by their ids, as rows are. -/
theorem record_ids_nodup (service : String) (h : (rows.map Row.id).Nodup) :
    ((rows.map (record service)).map Record.id).Nodup := by
  have hids : (rows.map (record service)).map Record.id =
      (rows.map Row.id).map fun n => String.ofList (Json.digits n) := by
    rw [List.map_map, List.map_map]
    rfl
  rw [hids]
  refine h.map fun m n heq => digits_injective ?_
  exact String.ofList_injective heq

/-- If no level is walked twice, then no row is read twice. -/
theorem walk_nodup {start : String} {limit : Nat} (hrows : (rows.map Row.id).Nodup)
    (heligible : (eligible spec rows).Nodup) (h : walk lib start spec rows limit cursor = .ok p) :
    (p.records.map Row.id).Nodup := by
  obtain ⟨found, ids, records, quota, -, -, hrecords, -, hloop⟩ := walk_spec h
  have hselection : ((selection spec rows).map Row.id).Nodup := ((selection_sublist spec rows).map _).nodup hrows
  have hinvariant := foldlM_rule (fun before p => (p.records.map Row.id).Nodup ∧ ∀ row ∈ p.records,
    row ∈ selection spec rows ∧
      (row.id ∈ (if scans spec rows cursor then records.map Row.id else ids) ∨ LEVEL row ∈ before)) hloop ?_ ?_
  · exact hinvariant.1
  · -- the page begins with the representatives, which are all featured
    cases hscans : scans spec rows cursor with
    | false =>
      rw [hscans] at hrecords
      cases hrecords
      exact ⟨List.nodup_nil, List.forall_mem_nil _⟩
    | true =>
      rw [hscans] at hrecords
      obtain ⟨hsubperm, -⟩ := rare_spec hrecords
      exact ⟨nodup_of_subperm hsubperm hselection,
        fun row hrow => ⟨hsubperm.subset hrow, .inl (List.mem_map_of_mem hrow)⟩⟩
  · -- a level adds rows that are not featured, and no other level has
    intro before level after p p' hsplit hbefore hstep
    obtain ⟨pos, read, rest, -, hunread, -, hrecords', -, -⟩ := readLevel_spec hstep
    have hread : read.Sublist (unreadOf (selection spec rows) level pos) := by
      rw [hunread]
      exact List.sublist_append_left _ _
    have hlevel : level ∉ before := by
      rw [← hsplit, List.nodup_append] at heligible
      exact fun hmem => heligible.2.2 level hmem level List.mem_cons_self rfl
    have hnew : ∀ row ∈ read.filter (fun row =>
        row.id ∉ (if scans spec rows cursor then records.map Row.id else ids)),
        row ∈ selection spec rows ∧ LEVEL row = level ∧
          row.id ∉ (if scans spec rows cursor then records.map Row.id else ids) := by
      intro row hrow
      obtain ⟨hrow, hfeatured⟩ := List.mem_filter.mp hrow
      obtain ⟨hmem, hlevel, -⟩ := mem_unreadOf.mp (hread.subset hrow)
      exact ⟨hmem, hlevel, of_decide_eq_true hfeatured⟩
    rw [hrecords']
    refine ⟨?_, ?_⟩
    · rw [List.map_append, List.nodup_append]
      refine ⟨hbefore.1, nodup_of_subperm ?_ hselection, ?_⟩
      · exact (List.filter_sublist.trans hread).subperm.trans (unreadOf_subperm _ _ _)
      · rintro _ hold _ hadded rfl
        obtain ⟨row, hrow, hid⟩ := List.mem_map.mp hold
        obtain ⟨row', hrow', hid'⟩ := List.mem_map.mp hadded
        obtain ⟨hmem, hplace⟩ := hbefore.2 row hrow
        obtain ⟨hmem', hlevel', hfeatured'⟩ := hnew row' hrow'
        obtain rfl := List.inj_on_of_nodup_map hselection hmem hmem' (hid.trans hid'.symm)
        obtain hfeatured | hseen := hplace
        · exact hfeatured' hfeatured
        · exact hlevel (hlevel' ▸ hseen)
    · intro row hrow
      obtain hold | hadded := List.mem_append.mp hrow
      · obtain ⟨hmem, hplace⟩ := hbefore.2 row hold
        exact ⟨hmem, hplace.imp_right fun hseen => List.mem_append_left _ hseen⟩
      · obtain ⟨hmem, hlevel', -⟩ := hnew row hadded
        exact ⟨hmem, .inr (by simp [hlevel'])⟩

/-- A level that is listed twice, unless the levels are the default ones. -/
theorem count_selected_le (h : ∀ level, 1 < spec.levels.count level → ∀ row ∈ rows, LEVEL row ≠ level) :
    ∀ row ∈ rows, (selected_levels spec).count (LEVEL row) ≤ 1 := by
  intro row hrow
  unfold selected_levels
  split
  · by_contra hcount
    exact h _ (not_le.mp hcount) row hrow rfl
  · split
    · exact List.nodup_iff_count_le_one.mp ERROR_LEVELS_nodup _
    · exact Nat.zero_le 1

/-- The statistics and the records of a page are right exactly if no level that is
listed twice has a row in scope: such a row is counted once for each time. -/
theorem page_sound_iff {limit : Int} (h : query lib store scope spec limit cursor = .ok page) :
    ((page.records.map Record.id).Nodup ∧
      page.summary.matched =
        store.rows.countP (fun row => satisfies lib store scope spec row && isSelected spec row) ∧
      page.summary.matched ≤ page.summary.total_in_query) ↔
    ∀ level, 1 < spec.levels.count level →
      ∀ row ∈ store.rows, satisfies lib store scope spec row = true → LEVEL row ≠ level := by
  obtain ⟨start, p, -, hwalk, rfl⟩ := query_spec h
  have hcount : store.rows.countP (fun row => satisfies lib store scope spec row && isSelected spec row) =
      (hits lib store scope spec).countP (isSelected spec) := by
    rw [hits, List.countP_filter]
    simp only [Bool.and_comm]
  rw [hcount]
  simp only [pageOf, sum_histogram]
  constructor
  · rintro ⟨-, hexact, -⟩ level hlevel row hrow hsatisfies rfl
    have hle := matched_eq_iff.mp hexact row (List.mem_filter.mpr ⟨hrow, hsatisfies⟩)
    have hlevels : selected_levels spec = spec.levels := by
      refine if_pos fun hempty => ?_
      rw [hempty] at hlevel
      cases hlevel
    rw [hlevels] at hle
    omega
  · intro hcondition
    have hle : ∀ row ∈ hits lib store scope spec, (selected_levels spec).count (LEVEL row) ≤ 1 :=
      count_selected_le fun level hlevel row hrow =>
        hcondition level hlevel row (List.mem_filter.mp hrow).1 (List.mem_filter.mp hrow).2
    have hexact := matched_eq_iff.mpr hle
    refine ⟨record_ids_nodup _ (walk_nodup (hits_nodup _ _ _ _) (eligible_nodup hle) hwalk), hexact, ?_⟩
    rw [hexact]
    exact List.countP_le_length

/-- A day of one service. -/
def januaryFirst : Scope where
  service := "svc-17"
  start := "2025-01-01T00:00:00+00:00"
  stop := "2025-01-01T23:59:59+00:00"

/-- One error on that day. -/
def oneError : Store where
  rows := [{
    id := 1
    event_time := "2025-01-01T08:00:00+00:00"
    service := "svc-17"
    payload := [("level", .str "ERROR"), ("message", .str "pool exhausted")] }]
  unique := by decide
  fts := fun _ => .ok []

/-- A query that lists a level twice, as every validator lets it. -/
def errorTwice : worker.LogQuery := { mode := "search", terms := [], levels := ["ERROR", "ERROR"] }

theorem errorTwice_page : (query .ascii oneError januaryFirst errorTwice 50 none).toOption.map
    (fun page => (page.summary.matched, page.summary.total_in_query, page.records.map Record.id)) =
      some (2, 1, ["1", "1"]) := by decide +kernel

/-- The one error is then found twice, and counted twice. -/
theorem errorTwice_counted_twice : errorTwice.valid = true ∧
    errorTwice.decoded.validate = .ok errorTwice.decoded ∧
    ∃ page, query .ascii oneError januaryFirst errorTwice 50 none = .ok page ∧
      ¬(page.records.map Record.id).Nodup ∧
      page.summary.matched ≠ oneError.rows.countP (fun row =>
        satisfies .ascii oneError januaryFirst errorTwice row && isSelected errorTwice row) ∧
      ¬page.summary.matched ≤ page.summary.total_in_query := by
  refine ⟨by decide, by rfl, ?_⟩
  have hpage := errorTwice_page
  cases hquery : query .ascii oneError januaryFirst errorTwice 50 none with
  | error e =>
    rw [hquery] at hpage
    cases hpage
  | ok page =>
    rw [hquery] at hpage
    injection hpage with hpage
    injection hpage with hmatched hpage
    injection hpage with htotal hids
    refine ⟨page, rfl, ?_⟩
    rw [hmatched, htotal, hids]
    decide +kernel

/-- Listed once, it is found once. -/
theorem error_counted_once : ∃ page,
    query .ascii oneError januaryFirst { errorTwice with levels := ["ERROR"] } 50 none = .ok page ∧
      (page.records.map Record.id).Nodup := by
  have hpage : (query .ascii oneError januaryFirst { errorTwice with levels := ["ERROR"] } 50 none).toOption.isSome =
      true := by decide +kernel
  cases hquery : query .ascii oneError januaryFirst { errorTwice with levels := ["ERROR"] } 50 none with
  | error e =>
    rw [hquery] at hpage
    cases hpage
  | ok page =>
    refine ⟨page, rfl, ((page_sound_iff hquery).mpr ?_).1⟩
    intro level hlevel
    have hle : (["ERROR"] : List String).count level ≤ 1 := List.nodup_iff_count_le_one.mp (by decide) level
    exact absurd hlevel (not_lt.mpr hle)

end incidentdesk.log_store
