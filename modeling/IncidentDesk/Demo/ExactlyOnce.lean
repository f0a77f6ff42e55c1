import IncidentDesk.Demo.Cursor

namespace incidentdesk.log_store

open pagination (sorted unread unread_perm mem_unread unread_last Issued exists_follows)

section Partition

variable {α β : Type} [DecidableEq β] {f : α → β} {levels : List β}

/-- Rows are those of the first level, those of the second one, and so on. -/
theorem perm_flatMap_levels (hnodup : levels.Nodup) (rows : List α) (h : ∀ row ∈ rows, f row ∈ levels) :
    rows.Perm (levels.flatMap fun level => rows.filter fun row => f row = level) := by
  induction levels generalizing rows with
  | nil =>
    rw [List.eq_nil_iff_forall_not_mem.mpr fun row hrow => List.not_mem_nil (h row hrow)]
    exact List.Perm.refl _
  | cons level levels ih =>
    obtain ⟨hnot, hlevels⟩ := List.nodup_cons.mp hnodup
    have hrest : ∀ row ∈ rows.filter fun row => !Decidable.decide (f row = level), f row ∈ levels := by
      intro row hrow
      obtain ⟨hmem, hne⟩ := List.mem_filter.mp hrow
      exact (List.mem_cons.mp (h row hmem)).resolve_left (by simpa using hne)
    have hfilter (other : β) (hother : other ∈ levels) :
        (rows.filter fun row => !Decidable.decide (f row = level)).filter (fun row => f row = other) =
          rows.filter fun row => f row = other := by
      rw [List.filter_filter]
      refine List.filter_congr fun row _ => ?_
      by_cases heq : f row = other
      · have hne : ¬f row = level := fun hlevel => hnot (hlevel ▸ heq ▸ hother)
        simp [heq, heq ▸ hne]
      · simp [heq]
    rw [List.flatMap_cons]
    refine (List.filter_append_perm (fun row => Decidable.decide (f row = level)) rows).symm.trans ?_
    refine .append (List.Perm.refl _) ((ih hlevels _ hrest).trans (.of_eq ?_))
    exact List.flatMap_congr hfilter

end Partition

section Loop

variable {start : String} {rows : List Row} {found : List (String × Json)} {ids : List Int} {limit quota : Nat}
  {levels : List String} {p p' : Progress}

/-- Where a level is to be continued, in positions that say so. -/
def posOf (start : String) (fields : List (String × Json)) (level : String) : String ×ₗ Int :=
  (position start fields level).toOption.getD (toLex (start, 0))

/-- The rows of some levels that lie behind the positions. -/
def behind (start : String) (rows : List Row) (levels : List String) (fields : List (String × Json)) : List Row :=
  levels.flatMap fun level => unreadOf rows level (posOf start fields level)

/-- Those of them that are still to be shown. -/
def pending (start : String) (rows : List Row) (ids : List Int) (levels : List String)
    (fields : List (String × Json)) : List Row :=
  (behind start rows levels fields).filter fun row => row.id ∉ ids

theorem posOf_congr {fields fields' : List (String × Json)} {level : String}
    (h : (Json.obj fields).get? level = (Json.obj fields').get? level) :
    posOf start fields level = posOf start fields' level := by
  rw [posOf, posOf, position, position, h]

theorem get?_advance (next : List (String × Json)) {level other : String} (h : level ≠ other) (read : List Row) :
    (Json.obj (advance next level read)).get? other = (Json.obj next).get? other := by
  unfold advance
  cases read.getLast? with
  | none => rfl
  | some row => exact Json.get?_put_of_ne h

/-- A level is left where its next rows begin. -/
theorem unreadOf_advance (hkeys : (rows.map key).Nodup) {next : List (String × Json)} {level : String}
    {read rest : List Row} (hunread : unreadOf rows level (posOf start next level) = read ++ rest) :
    unreadOf rows level (posOf start (advance next level read) level) = rest := by
  have hlevel : ((rows.filter fun row => LEVEL row = level).map key).Nodup :=
    (List.filter_sublist.map _).nodup hkeys
  unfold advance
  cases hlast : read.getLast? with
  | none =>
    rw [List.getLast?_eq_none_iff.mp hlast] at hunread
    exact hunread
  | some row =>
    have hpos : posOf start (Json.put next (level, .arr [.str row.event_time, .num row.id])) level = key row := by
      have hget : (Json.obj (Json.put next (level, .arr [.str row.event_time, .num row.id]))).get? level =
          some (.arr [.str row.event_time, .num row.id]) := Json.get?_put_self
      rw [posOf, position, hget]
      rfl
    rw [hpos]
    exact unread_last hlevel hunread hlast

theorem behind_cons (level : String) (levels : List String) (fields : List (String × Json)) :
    behind start rows (level :: levels) fields =
      unreadOf rows level (posOf start fields level) ++ behind start rows levels fields := List.flatMap_cons

theorem behind_congr {fields fields' : List (String × Json)}
    (h : ∀ level ∈ levels, (Json.obj fields).get? level = (Json.obj fields').get? level) :
    behind start rows levels fields = behind start rows levels fields' := by
  refine List.flatMap_congr fun level hlevel => ?_
  rw [posOf_congr (h level hlevel)]

/-- What the loop over some levels does to a page. -/
structure Walked (start : String) (rows : List Row) (ids : List Int) (limit : Nat) (levels : List String)
    (found : List (String × Json)) (p p' : Progress) : Prop where
  /-- The positions of other levels, and what else a cursor carries, stay. -/
  frame : ∀ other ∉ levels, (Json.obj p'.next_positions).get? other = (Json.obj p.next_positions).get? other
  /-- No row is lost, and none is shown again. -/
  kept : (p'.records ++ pending start rows ids levels p'.next_positions).Perm
    (p.records ++ pending start rows ids levels found)
  smaller : (behind start rows levels p'.next_positions).length ≤ (behind start rows levels found).length
  room : p.records.length ≤ limit → p'.records.length ≤ limit
  /-- The last page has read everything. -/
  done : p'.has_more = false → p.has_more = false ∧ behind start rows levels p'.next_positions = []
  /-- Any other page that begins empty reads something. -/
  progress : p.has_more = false → p.records = [] → p'.has_more = true →
    (behind start rows levels p'.next_positions).length < (behind start rows levels found).length

theorem loop_walked (hkeys : (rows.map key).Nodup) (hnodup : levels.Nodup) (hquota : 0 < quota) (hlimit : 0 < limit)
    (hfresh : ∀ level ∈ levels, (Json.obj p.next_positions).get? level = (Json.obj found).get? level)
    (h : levels.foldlM (readLevel start rows found ids limit quota) p = .ok p') :
    Walked start rows ids limit levels found p p' := by
  induction levels generalizing p with
  | nil =>
    cases h
    exact {
      frame := fun _ _ => rfl
      kept := List.Perm.refl _
      smaller := Nat.le_refl _
      room := id
      done := fun hmore => ⟨hmore, rfl⟩
      progress := fun hmore _ hmore' => by
        rw [hmore] at hmore'
        cases hmore' }
  | cons level levels ih =>
    obtain ⟨hnot, hlevels⟩ := List.nodup_cons.mp hnodup
    rw [List.foldlM_cons] at h
    cases hstep : readLevel start rows found ids limit quota p level with
    | error e =>
      rw [hstep] at h
      cases h
    | ok mid =>
      rw [hstep] at h
      obtain ⟨pos, read, rest, hpos, hunread, hlength, hrecords, hnext, hmore⟩ := readLevel_spec hstep
      have hfound : unreadOf rows level (posOf start found level) = read ++ rest := by
        rw [posOf, hpos]
        exact hunread
      have hmid : unreadOf rows level (posOf start mid.next_positions level) = rest := by
        rw [hnext]
        refine unreadOf_advance hkeys ?_
        rw [posOf_congr (hfresh level List.mem_cons_self)]
        exact hfound
      have hne {other : String} (hother : other ∈ levels) : level ≠ other := fun heq => hnot (heq ▸ hother)
      have hwalked := ih hlevels (p := mid) (fun other hother => by
        rw [hnext, get?_advance _ (hne hother), hfresh other (List.mem_cons_of_mem _ hother)]) h
      have hlast : unreadOf rows level (posOf start p'.next_positions level) = rest := by
        rw [posOf_congr (hwalked.frame level hnot), hmid]
      have hsplit : (pending start rows ids (level :: levels) p'.next_positions) =
          rest.filter (fun row => row.id ∉ ids) ++ pending start rows ids levels p'.next_positions := by
        rw [pending, behind_cons, hlast, List.filter_append, pending]
      have hbefore : (pending start rows ids (level :: levels) found) =
          read.filter (fun row => row.id ∉ ids) ++
            (rest.filter (fun row => row.id ∉ ids) ++ pending start rows ids levels found) := by
        rw [pending, behind_cons, hfound, List.filter_append, List.filter_append, pending, List.append_assoc]
      refine ⟨?_, ?_, ?_, ?_, ?_, ?_⟩
      · intro other hother
        obtain ⟨hlevel, hothers⟩ := not_or.mp (mt List.mem_cons.mpr hother)
        rw [hwalked.frame other hothers, hnext, get?_advance _ (Ne.symm hlevel)]
      · have hkept := hwalked.kept
        rw [hrecords] at hkept
        rw [hsplit, hbefore]
        refine (List.perm_append_comm_assoc _ _ _).trans ((hkept.append_left _).trans ?_)
        rw [List.append_assoc]
        refine (List.perm_append_comm_assoc _ _ _).trans (.append_left _ ?_)
        exact List.perm_append_comm_assoc _ _ _
      · have hsmaller := hwalked.smaller
        rw [behind_cons, behind_cons, hlast, hfound]
        simp only [List.length_append]
        omega
      · intro hroom
        refine hwalked.room ?_
        have hfilter := List.length_filter_le (fun row : Row => Decidable.decide (row.id ∉ ids)) read
        rw [hrecords, List.length_append]
        omega
      · intro hdone
        obtain ⟨hmore', hbehind⟩ := hwalked.done hdone
        rw [hmore] at hmore'
        simp only [Bool.or_eq_false_iff, Bool.not_eq_false', List.isEmpty_iff] at hmore'
        refine ⟨hmore'.1.1, ?_⟩
        rw [behind_cons, hlast, hbehind, hmore'.2]
        rfl
      · intro hno hempty hyes
        have hsmaller := hwalked.smaller
        rw [behind_cons, behind_cons, hlast, hfound]
        simp only [List.length_append]
        by_cases hread : read = []
        · -- nothing is left of this level, so that it is for a later one to have more
          subst hread
          have hrest : rest = [] := by
            rw [hempty, List.length_nil, hunread] at hlength
            simp only [List.nil_append] at hlength
            have : rest.length = 0 := by omega
            exact List.length_eq_zero_iff.mp this
          have hcount : ¬min quota (limit - p.records.length) = 0 := by
            rw [hempty, List.length_nil]
            omega
          have hmid' : mid.has_more = false := by
            rw [hmore, hno, hrest, decide_eq_false hcount]
            rfl
          have hprogress := hwalked.progress hmid' (by rw [hrecords, hempty]; rfl) hyes
          omega
        · have := List.length_pos_iff.mpr hread
          omega

end Loop

section Pages

variable {lib : Library} {store : Store} {scope : Scope} {spec : worker.LogQuery} {cursor : Option String}
  {start : String} {rows : List Row} {limit : Nat} {p : Progress}

/-- The ids tell rows apart, so the keys do. -/
theorem keys_nodup (h : (rows.map Row.id).Nodup) : (rows.map key).Nodup := by
  refine List.Nodup.of_map (fun k => (ofLex k).2) ?_
  rwa [List.map_map]

theorem shown_spec (h : walk lib start spec rows limit cursor = .ok p) :
    (shown lib spec rows limit cursor).Subperm (selection spec rows) ∧
      (shown lib spec rows limit cursor).length ≤ max 1 (limit / 2) := by
  obtain ⟨found, ids, records, -, hpositions, hfeatured, hrecords, -, -⟩ := walk_spec h
  rw [(walk_shown hpositions hfeatured hrecords).1]
  cases hscans : scans spec rows cursor with
  | false =>
    rw [hscans] at hrecords
    cases hrecords
    exact ⟨List.nil_subperm, Nat.zero_le _⟩
  | true =>
    rw [hscans] at hrecords
    exact rare_spec hrecords

/-- A page is what the loop makes of the representatives. -/
theorem walk_walked (hrows : (rows.map Row.id).Nodup) (heligible : (eligible spec rows).Nodup) (hlimit : 0 < limit)
    (h : walk lib start spec rows limit cursor = .ok p) :
    ∃ before : Progress, before.records = shown lib spec rows limit cursor ∧ before.has_more = false ∧
      Walked start (selection spec rows) (leftOut lib spec rows limit cursor) limit (eligible spec rows)
        ((positions lib cursor).toOption.getD []) before p := by
  obtain ⟨found, ids, records, quota, hpositions, hfeatured, hrecords, hquota, hloop⟩ := walk_spec h
  obtain ⟨hshown, hids⟩ := walk_shown hpositions hfeatured hrecords
  rw [hshown, hids, hpositions]
  have hkeys : ((selection spec rows).map key).Nodup :=
    keys_nodup (((selection_sublist spec rows).map _).nodup hrows)
  refine ⟨_, rfl, rfl, loop_walked hkeys heligible ?_ hlimit ?_ hloop⟩
  · rw [hquota]
    exact lt_of_lt_of_le Nat.one_pos (Nat.le_max_left _ _)
  · intro level hlevel
    dsimp only [Except.toOption, Option.getD_some]
    split
    · exact Json.get?_put_of_ne (Ne.symm (eligible_ne_featured hlevel))
    · rfl

/-- Rows and some of them that are taken out. -/
theorem append_filter_perm {some all : List Row} (hsubperm : some.Subperm all) (hall : (all.map Row.id).Nodup) :
    (some ++ all.filter fun row => row.id ∉ some.map Row.id).Perm all := by
  have hsome : (some.map Row.id).Nodup := nodup_of_subperm hsubperm hall
  have hids : ((some ++ all.filter fun row => row.id ∉ some.map Row.id).map Row.id).Nodup := by
    rw [List.map_append, List.nodup_append]
    refine ⟨hsome, (List.filter_sublist.map _).nodup hall, ?_⟩
    rintro _ hid _ hid' rfl
    obtain ⟨row, hrow, hrowid⟩ := List.mem_map.mp hid'
    rw [← hrowid] at hid
    simpa [List.mem_filter, hid] using (List.mem_filter.mp hrow).2
  refine (List.perm_ext_iff_of_nodup (List.Nodup.of_map _ hids) (List.Nodup.of_map _ hall)).mpr fun row => ?_
  rw [List.mem_append, List.mem_filter, decide_eq_true_eq]
  constructor
  · rintro (hrow | ⟨hrow, -⟩)
    · exact hsubperm.subset hrow
    · exact hrow
  · intro hrow
    by_cases hid : row.id ∈ some.map Row.id
    · obtain ⟨other, hother, heq⟩ := List.mem_map.mp hid
      obtain rfl := List.inj_on_of_nodup_map hall (hsubperm.subset hother) hrow heq
      exact .inl hother
    · exact .inr ⟨hrow, hid⟩

/-- At the beginning, every row lies behind the positions. -/
theorem behind_nil (hstart : ∀ row ∈ rows, start ≤ row.event_time ∧ 0 < row.id)
    (heligible : (eligible spec rows).Nodup) :
    (behind start (selection spec rows) (eligible spec rows) []).Perm (selection spec rows) := by
  refine .trans ?_ (perm_flatMap_levels heligible (selection spec rows) fun _ => selection_eligible).symm
  refine List.Perm.flatMap_left _ fun level _ => (unread_perm _ _).trans (.of_eq (List.filter_eq_self.mpr ?_))
  intro row hrow
  obtain ⟨htime, hid⟩ := hstart row ((selection_sublist spec rows).subset (List.mem_filter.mp hrow).1)
  refine decide_eq_true ?_
  change toLex (start, (0 : Int)) < toLex (row.event_time, row.id)
  rw [Prod.Lex.toLex_lt_toLex]
  obtain hlt | heq := lt_or_eq_of_le htime
  · exact .inl hlt
  · exact .inr ⟨heq, hid⟩

/-- What a search looks for: the rows that satisfy service, window, terms and the
selected levels, and those of any level if the default search has no other. -/
def wanted (lib : Library) (store : Store) (scope : Scope) (spec : worker.LogQuery) : List Row :=
  if spec.mode = "anomalies" ∧ spec.levels = [] ∧ (hits lib store scope spec).all (fun row => !isSelected spec row) then
    hits lib store scope spec
  else (hits lib store scope spec).filter (isSelected spec)

theorem matched_eq_zero_iff : matched spec rows = 0 ↔ ∀ row ∈ rows, isSelected spec row = false := by
  refine ⟨matched_eq_zero, fun h => ?_⟩
  by_cases hempty : selected_levels spec = []
  · rw [matched_eq_length hempty, List.length_eq_zero_iff, List.eq_nil_iff_forall_not_mem]
    intro row hrow
    have hselected := h row hrow
    rw [isSelected, hempty] at hselected
    cases hselected
  · rw [matched_eq_sum hempty, List.sum_eq_zero_iff_forall_eq_nat]
    intro n hn
    obtain ⟨row, hrow, rfl⟩ := List.mem_map.mp hn
    have hselected := h row hrow
    simp only [isSelected, hempty, decide_false, Bool.false_or, decide_eq_false_iff_not] at hselected
    exact List.count_eq_zero.mpr hselected

theorem selection_hits : selection spec (hits lib store scope spec) = wanted lib store scope spec := by
  have hfallback : fallback spec (hits lib store scope spec) = true ↔ spec.mode = "anomalies" ∧ spec.levels = [] ∧
      (hits lib store scope spec).all (fun row => !isSelected spec row) = true := by
    simp only [fallback, Bool.and_eq_true, decide_eq_true_eq, matched_eq_zero_iff, List.all_eq_true,
      Bool.not_eq_true', and_assoc]
  unfold selection wanted
  rw [← if_congr hfallback rfl rfl]
  by_cases h : fallback spec (hits lib store scope spec) = true
  · rw [if_pos (.inl h), if_pos h]
  · rw [if_neg h]
    by_cases hempty : selected_levels spec = []
    · rw [if_pos (.inr hempty)]
      refine (List.filter_eq_self.mpr fun row _ => ?_).symm
      rw [isSelected, hempty]
      rfl
    · rw [if_neg (not_or.mpr ⟨h, hempty⟩)]
      refine List.filter_congr fun row _ => ?_
      simp [isSelected, hempty]

end Pages

section Run

variable {lib : Library} {store : Store} {scope : Scope} {spec : worker.LogQuery} {limit : Int} {start : String}
  {page : Page}

/-- A page, with the cursor that it gives for the next one. -/
def fetch (lib : Library) (store : Store) (scope : Scope) (spec : worker.LogQuery) (limit : Int)
    (cursor : Option String) : Option (Page × Option String) :=
  (query lib store scope spec limit cursor).toOption.map fun page => (page, page.next_cursor)

/-- A reader stands at the beginning, or where the positions of a cursor say. -/
def Stands (lib : Library) (store : Store) (scope : Scope) (spec : worker.LogQuery) (limit : Int) (start : String) :
    Option String → Option (List (String × Json)) → Prop
  | none, none => True
  | some cursor, some fields =>
    Issued (fetch lib store scope spec limit) cursor ∧ cursor = encode fields ∧
      positions lib (some cursor) = .ok fields ∧ (∃ ids, featured fields = .ok ids) ∧
      ∀ level ∈ eligible spec (hits lib store scope spec), ∃ pos, position start fields level = .ok pos
  | _, _ => False

/-- The rows that a reader is still to see. -/
def unseen (lib : Library) (store : Store) (scope : Scope) (spec : worker.LogQuery) (start : String) :
    Option (List (String × Json)) → List Row
  | none => selection spec (hits lib store scope spec)
  | some fields =>
    pending start (selection spec (hits lib store scope spec)) ((featured fields).toOption.getD [])
      (eligible spec (hits lib store scope spec)) fields

/-- The rows that the loop is still to go through. -/
def ahead (lib : Library) (store : Store) (scope : Scope) (spec : worker.LogQuery) (start : String) :
    Option (List (String × Json)) → Nat
  | none => (selection spec (hits lib store scope spec)).length + 1
  | some fields =>
    (behind start (selection spec (hits lib store scope spec)) (eligible spec (hits lib store scope spec)) fields).length

theorem clamp_pos (limit : Int) : 0 < clamp limit := by
  unfold clamp
  omega

/-- One page: it shows rows that have not been seen, and leaves its reader where
the others are. -/
theorem fetch_step (hstart : lib.canonical scope.start = .ok start)
    (hquery : ∀ limit cursor, query lib store scope spec limit cursor =
      (walk lib start spec (hits lib store scope spec) (clamp limit) cursor).map
        (pageOf store scope spec (hits lib store scope spec) cursor))
    (hids : ∀ row ∈ store.rows, 0 < row.id) (hlevels : spec.levels.Nodup)
    (hshort : ∀ cursor, Issued (fetch lib store scope spec limit) cursor → cursor.length ≤ 4096)
    {cursor : Option String} {s : Option (List (String × Json))} {p : Progress}
    (hstands : Stands lib store scope spec limit start cursor s)
    (hwalk : walk lib start spec (hits lib store scope spec) (clamp limit) cursor = .ok p) :
    p.records.length ≤ clamp limit ∧
      (p.has_more = false ∧ p.records.Perm (unseen lib store scope spec start s) ∨
        p.has_more = true ∧
          Stands lib store scope spec limit start (some (encode p.next_positions)) (some p.next_positions) ∧
          ahead lib store scope spec start (some p.next_positions) < ahead lib store scope spec start s ∧
          (p.records ++ unseen lib store scope spec start (some p.next_positions)).Perm
            (unseen lib store scope spec start s)) := by
  have honce : ∀ row ∈ hits lib store scope spec, (selected_levels spec).count (LEVEL row) ≤ 1 :=
    count_selected_le fun level hlevel =>
      absurd hlevel (not_lt.mpr (List.nodup_iff_count_le_one.mp hlevels level))
  have heligible := eligible_nodup honce
  obtain ⟨-, hdistinct, hfeatured, hpositions⟩ := walk_left (clamp_le limit) hwalk
  obtain ⟨before, hrecords, hmore, hwalked⟩ :=
    walk_walked (hits_nodup lib store scope spec) heligible (clamp_pos limit) hwalk
  obtain ⟨hsubperm, hlength⟩ := shown_spec hwalk
  have hroom : p.records.length ≤ clamp limit := by
    refine hwalked.room ?_
    have := clamp_pos limit
    rw [hrecords]
    omega
  -- what the reader is to see is what the page begins with and what lies behind the positions
  have hunseen : (before.records ++ pending start (selection spec (hits lib store scope spec))
      (leftOut lib spec (hits lib store scope spec) (clamp limit) cursor)
      (eligible spec (hits lib store scope spec)) ((positions lib cursor).toOption.getD [])).Perm
      (unseen lib store scope spec start s) ∧
      (behind start (selection spec (hits lib store scope spec)) (eligible spec (hits lib store scope spec))
        ((positions lib cursor).toOption.getD [])).length ≤ ahead lib store scope spec start s ∧
      (p.has_more = true → (behind start (selection spec (hits lib store scope spec))
        (eligible spec (hits lib store scope spec)) p.next_positions).length < ahead lib store scope spec start s) := by
    match cursor, s, hstands with
    | none, none, _ =>
      have hbehind : (behind start (selection spec (hits lib store scope spec))
          (eligible spec (hits lib store scope spec)) []).Perm (selection spec (hits lib store scope spec)) := by
        refine behind_nil (fun row hrow => ?_) heligible
        obtain ⟨hmem, hsatisfies⟩ := List.mem_filter.mp hrow
        refine ⟨?_, hids row hmem⟩
        simp only [satisfies, hstart, Except.toOption, Option.any_some, Bool.and_eq_true, decide_eq_true_eq] at hsatisfies
        exact hsatisfies.1.1.2
      have hfound : (positions lib none).toOption.getD [] = [] := rfl
      rw [hfound] at hwalked ⊢
      refine ⟨?_, hbehind.length_eq ▸ Nat.le_succ _, fun _ => ?_⟩
      · rw [hrecords]
        refine ((hbehind.filter _).append_left _).trans ?_
        cases hscans : scans spec (hits lib store scope spec) none with
        | false =>
          have hshown : shown lib spec (hits lib store scope spec) (clamp limit) none = [] := by
            rw [shown, hscans]
            rfl
          have hleft : leftOut lib spec (hits lib store scope spec) (clamp limit) none = [] := by
            rw [leftOut, hscans]
            rfl
          rw [hshown, hleft, List.nil_append]
          exact .of_eq (List.filter_eq_self.mpr fun row _ => rfl)
        | true =>
          have hleft : leftOut lib spec (hits lib store scope spec) (clamp limit) none =
              (shown lib spec (hits lib store scope spec) (clamp limit) none).map Row.id := by
            rw [leftOut, hscans, if_pos rfl]
          rw [hleft]
          exact append_filter_perm hsubperm (((selection_sublist spec _).map _).nodup (hits_nodup lib store scope spec))
      · have hsmaller := hwalked.smaller
        rw [hbehind.length_eq] at hsmaller
        exact Nat.lt_succ_of_le hsmaller
    | some cursor, some fields, ⟨_, hcursor, hok, _, _⟩ =>
      have hscans : scans spec (hits lib store scope spec) (some cursor) = false := by
        rw [hcursor, scans, Option.getD_some, decide_eq_false (encode_ne_empty _)]
        rfl
      have hshown : shown lib spec (hits lib store scope spec) (clamp limit) (some cursor) = [] := by
        rw [shown, hscans]
        rfl
      have hleft : leftOut lib spec (hits lib store scope spec) (clamp limit) (some cursor) =
          (featured fields).toOption.getD [] := by
        rw [leftOut, hscans, hok]
        rfl
      have hfound : (positions lib (some cursor)).toOption.getD [] = fields := by
        rw [hok]
        rfl
      rw [hfound, hleft] at hwalked ⊢
      rw [hshown] at hrecords
      refine ⟨?_, Nat.le_refl _, hwalked.progress hmore hrecords⟩
      rw [hrecords]
      exact List.Perm.refl _
  refine ⟨hroom, ?_⟩
  have hkept := hwalked.kept.trans hunseen.1
  cases hpmore : p.has_more with
  | false =>
    refine .inl ⟨rfl, ?_⟩
    rwa [pending, (hwalked.done hpmore).2, List.filter_nil, List.append_nil] at hkept
  | true =>
    have hfetch : fetch lib store scope spec limit cursor =
        some (pageOf store scope spec (hits lib store scope spec) cursor p, some (encode p.next_positions)) := by
      rw [fetch, hquery, hwalk]
      simp only [Except.map, Except.toOption, Option.map_some, pageOf, hpmore, if_true]
    have hissued : Issued (fetch lib store scope spec limit) (encode p.next_positions) := by
      cases cursor with
      | none => exact .first hfetch
      | some cursor =>
        cases s with
        | none => exact hstands.elim
        | some fields => exact .next hfetch hstands.1
    have hok : positions lib (some (encode p.next_positions)) = .ok p.next_positions := by
      refine (positions_encode_iff lib hdistinct).mpr ?_
      have hlength := hshort _ hissued
      rw [length_encode] at hlength
      omega
    refine .inr ⟨rfl, ⟨hissued, rfl, hok, ⟨_, hfeatured⟩, hpositions⟩, hunseen.2.2 hpmore, ?_⟩
    rw [unseen, hfeatured]
    exact hkept

end Run

end incidentdesk.log_store
