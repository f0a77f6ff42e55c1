import IncidentDesk.Query.Merge
import IncidentDesk.Traversal

namespace incidentdesk.query

open traversal

section Specification

variable {V : Type} [DecidableEq V] (repository : MetaMySQLRepository V) (recalls : Recall V)

/-- A column before any value is added to its examples: the last one that was recalled
with the id, or else the one of the metadata. -/
def baseColumn (id : String) : Option (SchemaColumn V) :=
  (recalls.retrieved_column_infos.reverse.find? fun c => c.id = id).or (repository.get_column_info_by_id id)

/-- The ids that the recall leads to. -/
def recalledIds : List String :=
  recalls.retrieved_column_infos.map ColumnInfo.id ++
    (recalls.retrieved_metric_infos.flatMap MetricInfo.relevant_columns ++
      recalls.retrieved_value_infos.map ValueInfo.column_id)

/-- The ids that the recall leads to, and the tables of all columns, are in the metadata. -/
structure Present : Prop where
  columns : ∀ id ∈ recalls.retrieved_metric_infos.flatMap MetricInfo.relevant_columns ++
    recalls.retrieved_value_infos.map ValueInfo.column_id, (repository.get_column_info_by_id id).isSome
  tables : ∀ c ∈ recalls.retrieved_column_infos ++ repository.column_info,
    (repository.get_table_info_by_id c.table_id).isSome

/-- Examples with further values, each of them once. -/
def addExamples (examples values : List V) : List V := values.foldl addExample examples

/-- The values that were found for a column. -/
def valuesOf (values : List (ValueInfo V)) (id : String) : List V :=
  (values.filter fun info => info.column_id = id).map ValueInfo.value

/-- The columns by their ids, after some ids and values have been read. -/
structure Merged (ids : List String) (values : List (ValueInfo V)) (d : List (String × SchemaColumn V)) : Prop where
  nodup : (d.map Prod.fst).Nodup
  mem : ∀ id, id ∈ d.map Prod.fst ↔ id ∈ ids
  recalled : ∀ c ∈ recalls.retrieved_column_infos, c.id ∈ ids
  covered : ∀ info ∈ values, info.column_id ∈ ids
  entry : ∀ id c, d.lookup id = some c → ∃ b, baseColumn repository recalls id = some b ∧
    c = { b with examples := addExamples b.examples (valuesOf values id) }

end Specification

variable {V : Type} [DecidableEq V] {repository : MetaMySQLRepository V} {recalls : Recall V} {ids : List String}
  {values : List (ValueInfo V)} {d : List (String × SchemaColumn V)} {id : String} {value : V}

omit [DecidableEq V] in
theorem get_column_info_id {c : SchemaColumn V} (h : repository.get_column_info_by_id id = some c) :
    c ∈ repository.column_info ∧ c.id = id :=
  ⟨List.mem_of_find?_eq_some h, by simpa using List.find?_some h⟩

omit [DecidableEq V] in
theorem baseColumn_id {c : SchemaColumn V} (h : baseColumn repository recalls id = some c) :
    c ∈ recalls.retrieved_column_infos ++ repository.column_info ∧ c.id = id := by
  unfold baseColumn at h
  rcases Option.or_eq_some_iff.mp h with hfound | ⟨-, hstored⟩
  · exact ⟨List.mem_append_left _ (List.mem_reverse.mp (List.mem_of_find?_eq_some hfound)),
      by simpa using List.find?_some hfound⟩
  · obtain ⟨hmem, hid⟩ := get_column_info_id hstored
    exact ⟨List.mem_append_right _ hmem, hid⟩

omit [DecidableEq V] in
theorem lookup_columnsById (columns : List (SchemaColumn V)) :
    (columnsById columns).lookup id = columns.reverse.find? fun c => c.id = id := by
  induction columns using List.reverseRecOn with
  | nil => rfl
  | append_singleton columns c ih =>
    have hfold : columnsById (columns ++ [c]) = dict.put (columnsById columns) c.id c := by simp [columnsById]
    rw [hfold, dict.lookup_put, List.reverse_append, List.reverse_singleton, List.singleton_append, List.find?_cons, ih]
    by_cases h : id = c.id
    · simp [h]
    · simp [h, Ne.symm h]

omit [DecidableEq V] in
theorem keys_columnsById (columns : List (SchemaColumn V)) :
    ((columnsById columns).map Prod.fst).Nodup ∧
      ∀ id, id ∈ (columnsById columns).map Prod.fst ↔ id ∈ columns.map ColumnInfo.id := by
  induction columns using List.reverseRecOn with
  | nil => simp [columnsById]
  | append_singleton columns c ih =>
    have hfold : columnsById (columns ++ [c]) = dict.put (columnsById columns) c.id c := by simp [columnsById]
    rw [hfold]
    refine ⟨dict.nodup_put ih.1, fun id => ?_⟩
    rw [dict.mem_keys_put, ih.2, List.map_append, List.mem_append]
    simp

theorem merged_start (repository : MetaMySQLRepository V) (recalls : Recall V) :
    Merged repository recalls (recalls.retrieved_column_infos.map ColumnInfo.id) []
      (columnsById recalls.retrieved_column_infos) where
  nodup := (keys_columnsById _).1
  mem := (keys_columnsById _).2
  recalled c hc := List.mem_map.mpr ⟨c, hc, rfl⟩
  covered := by simp
  entry id c h := by
    rw [lookup_columnsById] at h
    exact ⟨c, by simp [baseColumn, h], by simp [addExamples, valuesOf]⟩

theorem valuesOf_eq_nil (h : Merged repository recalls ids values d) (hid : id ∉ ids) : valuesOf values id = [] := by
  have hfilter : (values.filter fun info => info.column_id = id) = [] := by
    rw [List.filter_eq_nil_iff]
    intro info hinfo heq
    exact hid (of_decide_eq_true heq ▸ h.covered info hinfo)
  rw [valuesOf, hfilter, List.map_nil]

/-- One more id. -/
theorem Merged.complete (h : Merged repository recalls ids values d)
    (hid : id ∈ ids ∨ (repository.get_column_info_by_id id).isSome) :
    ∃ d', complete repository d id = .ok d' ∧ Merged repository recalls (ids ++ [id]) values d' := by
  unfold query.complete
  by_cases hmem : id ∈ d.map Prod.fst
  · refine ⟨d, if_pos hmem, { h with mem := fun other => ?_, recalled := ?_, covered := ?_ }⟩
    · rw [h.mem, List.mem_append, List.mem_singleton]
      constructor
      · exact Or.inl
      · rintro (hother | rfl)
        · exact hother
        · exact (h.mem _).mp hmem
    · exact fun c hc => List.mem_append_left _ (h.recalled c hc)
    · exact fun info hinfo => List.mem_append_left _ (h.covered info hinfo)
  · have hnew : id ∉ ids := fun hids => hmem ((h.mem id).mpr hids)
    obtain ⟨c, hc⟩ := Option.isSome_iff_exists.mp (hid.resolve_left hnew)
    refine ⟨dict.put d id c, by simp [hmem, hc], ?_⟩
    refine { nodup := dict.nodup_put h.nodup, mem := fun other => ?_, recalled := ?_, covered := ?_, entry := ?_ }
    · rw [dict.mem_keys_put, h.mem, List.mem_append, List.mem_singleton]
    · exact fun c hc => List.mem_append_left _ (h.recalled c hc)
    · exact fun info hinfo => List.mem_append_left _ (h.covered info hinfo)
    · intro other c' hlookup
      rw [dict.lookup_put] at hlookup
      split_ifs at hlookup with hother
      · subst hother
        obtain rfl := Option.some.inj hlookup
        refine ⟨c, ?_, by simp [valuesOf_eq_nil h hnew, addExamples]⟩
        have hnone : (recalls.retrieved_column_infos.reverse.find? fun c => c.id = other) = none := by
          rw [List.find?_eq_none]
          intro b hb heq
          exact hnew (of_decide_eq_true heq ▸ h.recalled b (List.mem_reverse.mp hb))
        rw [baseColumn, hnone, Option.none_or, hc]
      · exact h.entry other c' hlookup

/-- One more value. -/
theorem Merged.addValue {info : ValueInfo V} (h : Merged repository recalls ids values d)
    (hid : (repository.get_column_info_by_id info.column_id).isSome) :
    ∃ d', addValue repository d info = .ok d' ∧
      Merged repository recalls (ids ++ [info.column_id]) (values ++ [info]) d' := by
  obtain ⟨d₁, hcomplete, h₁⟩ := h.complete (Or.inr hid)
  have hmem : info.column_id ∈ d₁.map Prod.fst := (h₁.mem _).mpr (List.mem_append_right _ (List.mem_singleton.mpr rfl))
  obtain ⟨c, hc⟩ := Option.isSome_iff_exists.mp (dict.lookup_isSome.mpr hmem)
  refine ⟨dict.put d₁ info.column_id { c with examples := addExample c.examples info.value }, ?_, ?_⟩
  · simp [query.addValue, hcomplete, bind, Except.bind, hc]
  refine { nodup := dict.nodup_put h₁.nodup, mem := fun other => ?_, recalled := h₁.recalled, covered := ?_, entry := ?_ }
  · rw [dict.mem_keys_put, h₁.mem]
    constructor
    · rintro (hother | rfl)
      · exact hother
      · exact (h₁.mem _).mp hmem
    · exact Or.inl
  · intro other hother
    rcases List.mem_append.mp hother with hother | hother
    · exact h₁.covered other hother
    · rw [List.mem_singleton.mp hother]
      exact (h₁.mem _).mp hmem
  · intro other c' hlookup
    rw [dict.lookup_put] at hlookup
    split_ifs at hlookup with heq
    · obtain rfl := Option.some.inj hlookup
      subst heq
      obtain ⟨b, hb, rfl⟩ := h₁.entry _ c hc
      refine ⟨b, hb, ?_⟩
      simp [valuesOf, addExamples]
    · obtain ⟨b, hb, rfl⟩ := h₁.entry other c' hlookup
      refine ⟨b, hb, ?_⟩
      simp [valuesOf, Ne.symm heq]

theorem Merged.completeAll (h : Merged repository recalls ids values d) (more : List String)
    (hmore : ∀ id ∈ more, (repository.get_column_info_by_id id).isSome) :
    ∃ d', more.foldlM (query.complete repository) d = .ok d' ∧ Merged repository recalls (ids ++ more) values d' := by
  induction more generalizing ids d with
  | nil => exact ⟨d, rfl, by simpa using h⟩
  | cons id more ih =>
    obtain ⟨d₁, hcomplete, h₁⟩ := h.complete (Or.inr (hmore id List.mem_cons_self))
    obtain ⟨d₂, hrest, h₂⟩ := ih h₁ fun other hother => hmore other (List.mem_cons_of_mem _ hother)
    refine ⟨d₂, ?_, by simpa using h₂⟩
    rw [List.foldlM_cons, hcomplete]
    exact hrest

theorem Merged.addValues (h : Merged repository recalls ids values d) (more : List (ValueInfo V))
    (hmore : ∀ info ∈ more, (repository.get_column_info_by_id info.column_id).isSome) :
    ∃ d', more.foldlM (query.addValue repository) d = .ok d' ∧
      Merged repository recalls (ids ++ more.map ValueInfo.column_id) (values ++ more) d' := by
  induction more generalizing ids values d with
  | nil => exact ⟨d, rfl, by simpa using h⟩
  | cons info more ih =>
    obtain ⟨d₁, hadd, h₁⟩ := h.addValue (hmore info List.mem_cons_self)
    obtain ⟨d₂, hrest, h₂⟩ := ih h₁ fun other hother => hmore other (List.mem_cons_of_mem _ hother)
    refine ⟨d₂, ?_, by simpa using h₂⟩
    rw [List.foldlM_cons, hadd]
    exact hrest

/-- The columns that the recall leads to, each with the values that were found for it. -/
theorem mergedColumns_ok (h : Present repository recalls) :
    ∃ d, mergedColumns repository recalls = .ok d ∧
      Merged repository recalls (recalledIds recalls) recalls.retrieved_value_infos d := by
  obtain ⟨d₁, hmetrics, h₁⟩ := (merged_start repository recalls).completeAll
    (recalls.retrieved_metric_infos.flatMap MetricInfo.relevant_columns)
    fun id hid => h.columns id (List.mem_append_left _ hid)
  obtain ⟨d₂, hvalues, h₂⟩ := h₁.addValues recalls.retrieved_value_infos
    fun info hinfo => h.columns _ (List.mem_append_right _ (List.mem_map.mpr ⟨info, hinfo, rfl⟩))
  refine ⟨d₂, ?_, by simpa [recalledIds, List.append_assoc] using h₂⟩
  simp only [mergedColumns, hmetrics, bind, Except.bind]
  exact hvalues

/-- A value that was found is added once, unless it was there. -/
theorem count_addExamples (examples values : List V) (value : V) : (addExamples examples values).count value =
    if value ∈ examples then examples.count value else if value ∈ values then 1 else 0 := by
  induction values generalizing examples with
  | nil =>
    rw [addExamples, List.foldl_nil]
    by_cases h : value ∈ examples
    · simp [h]
    · simp [h, List.count_eq_zero.mpr h]
  | cons first values ih =>
    have hcons : addExamples examples (first :: values) = addExamples (addExample examples first) values := rfl
    rw [hcons, ih]
    unfold addExample
    by_cases hfirst : first ∈ examples
    · rw [if_pos hfirst]
      by_cases hvalue : value ∈ examples
      · simp [hvalue]
      · have hne : value ≠ first := fun heq => hvalue (heq ▸ hfirst)
        simp [hvalue, hne]
    · rw [if_neg hfirst]
      by_cases heq : value = first
      · subst heq
        simp [hfirst, List.count_eq_zero.mpr hfirst]
      · by_cases hvalue : value ∈ examples
        · simp [hvalue, heq, Ne.symm heq]
        · simp [hvalue, heq]

omit [DecidableEq V] in
theorem mem_key_ids {table_id : String} : id ∈ (repository.get_key_columns_by_table_id table_id).map ColumnInfo.id ↔
    ∃ c ∈ repository.column_info, c.table_id = table_id ∧ (c.role = "primary_key" ∨ c.role = "foreign_key") ∧ c.id = id := by
  simp only [MetaMySQLRepository.get_key_columns_by_table_id, List.map_map, List.mem_map, List.mem_filter,
    Function.comp_apply, Bool.and_eq_true, Bool.or_eq_true, decide_eq_true_eq]
  constructor
  · rintro ⟨c, ⟨hc, htable, hrole⟩, hid⟩
    exact ⟨c, hc, htable, hrole, hid⟩
  · rintro ⟨c, hc, htable, hrole, hid⟩
    exact ⟨c, ⟨hc, htable, hrole⟩, hid⟩

omit [DecidableEq V] in
theorem key_ids_nodup (repository : MetaMySQLRepository V) (table_id : String) :
    ((repository.get_key_columns_by_table_id table_id).map ColumnInfo.id).Nodup := by
  rw [MetaMySQLRepository.get_key_columns_by_table_id, List.map_map]
  exact repository.column_ids.sublist (List.filter_sublist.map _)

omit [DecidableEq V] in
/-- Under a table stand its columns and its keys, each of them once. -/
theorem withKeys_ids {table_id : String} {columns : List (SchemaColumn V)} (h : (columns.map ColumnInfo.id).Nodup) :
    ((withKeys repository table_id columns).map ColumnInfo.id).Nodup ∧
      ∀ id, id ∈ (withKeys repository table_id columns).map ColumnInfo.id ↔
        id ∈ columns.map ColumnInfo.id ∨ id ∈ (repository.get_key_columns_by_table_id table_id).map ColumnInfo.id := by
  have hcolumns : ((columns.map fun c => ({ c with
      examples := .list c.examples, aliases := .list c.aliases } : ColumnInfo (Stored V) (Stored String))).map
        ColumnInfo.id) = columns.map ColumnInfo.id := by
    rw [List.map_map]
    rfl
  have hkeys : ∀ other, other ∈ (((repository.get_key_columns_by_table_id table_id).filter
      fun key => key.id ∉ columns.map ColumnInfo.id).map ColumnInfo.id) ↔
        other ∈ (repository.get_key_columns_by_table_id table_id).map ColumnInfo.id ∧
          other ∉ columns.map ColumnInfo.id := by
    intro other
    simp only [List.mem_map, List.mem_filter, decide_eq_true_eq]
    constructor
    · rintro ⟨c, ⟨hc, hnot⟩, rfl⟩
      exact ⟨⟨c, hc, rfl⟩, hnot⟩
    · rintro ⟨⟨c, hc, rfl⟩, hnot⟩
      exact ⟨c, ⟨hc, hnot⟩, rfl⟩
  unfold withKeys
  rw [List.map_append, hcolumns]
  constructor
  · rw [List.nodup_append]
    refine ⟨h, (key_ids_nodup repository table_id).sublist (List.filter_sublist.map _), fun a ha b hb heq => ?_⟩
    subst heq
    exact ((hkeys a).mp hb).2 ha
  · intro other
    rw [List.mem_append, hkeys]
    by_cases hother : other ∈ columns.map ColumnInfo.id <;> simp [hother]

theorem Merged.column (h : Merged repository recalls ids values d) {c : SchemaColumn V} (hc : c ∈ d.map Prod.snd) :
    d.lookup c.id = some c := by
  obtain ⟨⟨key, c⟩, hentry, rfl⟩ := List.mem_map.mp hc
  have hlookup := (dict.mem_iff_lookup h.nodup).mp hentry
  obtain ⟨b, hb, rfl⟩ := h.entry key c hlookup
  have hid : b.id = key := (baseColumn_id hb).2
  subst hid
  exact hlookup

theorem Merged.column_ids (h : Merged repository recalls ids values d) : (d.map Prod.snd).map ColumnInfo.id = d.map Prod.fst := by
  rw [List.map_map]
  refine List.map_congr_left fun entry hentry => ?_
  obtain ⟨key, c⟩ := entry
  obtain ⟨b, hb, rfl⟩ := h.entry key c ((dict.mem_iff_lookup h.nodup).mp hentry)
  exact (baseColumn_id hb).2

/-- A table with its columns and keys, as the group of its columns becomes it. -/
def TableOf (repository : MetaMySQLRepository V) (group : String × List (SchemaColumn V))
    (table : TableInfo × List (ColumnInfo (Stored V) (Stored String))) : Prop :=
  repository.get_table_info_by_id group.1 = some table.1 ∧ table.2 = withKeys repository group.1 group.2

omit [DecidableEq V] in
theorem TableOf.table_id {group : String × List (SchemaColumn V)} {table : TableInfo × List (ColumnInfo (Stored V) (Stored String))}
    (h : TableOf repository group table) : table.1 ∈ repository.table_info ∧ group.1 = table.1.id :=
  ⟨List.mem_of_find?_eq_some h.1, (by simpa using List.find?_some h.1 : table.1.id = group.1).symm⟩

/-- The columns in the order of the dictionary. -/
theorem Merged.mem_columns (h : Merged repository recalls (recalledIds recalls) recalls.retrieved_value_infos d)
    {c : SchemaColumn V} : c ∈ d.map Prod.snd ↔ c.id ∈ recalledIds recalls ∧ ∃ b, baseColumn repository recalls c.id = some b ∧
      c = { b with examples := addExamples b.examples (valuesOf recalls.retrieved_value_infos c.id) } := by
  constructor
  · intro hc
    refine ⟨?_, h.entry c.id c (h.column hc)⟩
    rw [← h.mem, ← h.column_ids]
    exact List.mem_map.mpr ⟨c, hc, rfl⟩
  · rintro ⟨hid, b, hb, hc⟩
    obtain ⟨c', hc'⟩ := Option.isSome_iff_exists.mp (dict.lookup_isSome.mpr ((h.mem c.id).mpr hid))
    obtain ⟨b', hb', hsame⟩ := h.entry c.id c' hc'
    obtain rfl := Option.some.inj (hb.symm.trans hb')
    obtain rfl : c' = c := hsame.trans hc.symm
    exact List.mem_map.mpr ⟨_, (dict.mem_iff_lookup h.nodup).mpr hc', rfl⟩

theorem Merged.column_mem (h : Merged repository recalls (recalledIds recalls) recalls.retrieved_value_infos d)
    {b : SchemaColumn V} (hid : id ∈ recalledIds recalls) (hb : baseColumn repository recalls id = some b) :
    ({ b with examples := addExamples b.examples (valuesOf recalls.retrieved_value_infos id) } : SchemaColumn V) ∈
      d.map Prod.snd := by
  have hbid : b.id = id := (baseColumn_id hb).2
  subst hbid
  exact h.mem_columns.mpr ⟨hid, b, hb, rfl⟩

theorem Merged.mem_ids_of_table (h : Merged repository recalls (recalledIds recalls) recalls.retrieved_value_infos d)
    {table_id : String} : id ∈ ((d.map Prod.snd).filter fun c => c.table_id = table_id).map ColumnInfo.id ↔
      id ∈ recalledIds recalls ∧ ∃ b, baseColumn repository recalls id = some b ∧ b.table_id = table_id := by
  constructor
  · intro hid
    obtain ⟨c, hc, rfl⟩ := List.mem_map.mp hid
    obtain ⟨hmem, htable⟩ := List.mem_filter.mp hc
    obtain ⟨hrecalled, b, hb, hbc⟩ := h.mem_columns.mp hmem
    refine ⟨hrecalled, b, hb, ?_⟩
    rw [hbc] at htable
    exact of_decide_eq_true htable
  · rintro ⟨hid, b, hb, rfl⟩
    exact List.mem_map.mpr ⟨_, List.mem_filter.mpr ⟨h.column_mem hid hb, by simp⟩, (baseColumn_id hb).2⟩

omit [DecidableEq V] in
/-- A table that the repository has is described by its row and its columns. -/
theorem tableOf_ok {g : String × List (SchemaColumn V)}
    (hpresent : (repository.get_table_info_by_id g.1).isSome) : ∃ t,
      (match repository.get_table_info_by_id g.1 with
        | some table => Except.ok (table, withKeys repository g.1 g.2)
        | none => .error MergeError.AttributeError) = .ok t ∧ TableOf repository g t := by
  obtain ⟨table, htable⟩ := Option.isSome_iff_exists.mp hpresent
  exact ⟨(table, withKeys repository g.1 g.2), by simp [htable], htable, rfl⟩

theorem mergedTables_ok (h : Present repository recalls) :
    ∃ d tables, Merged repository recalls (recalledIds recalls) recalls.retrieved_value_infos d ∧
      mergedTables repository recalls = .ok tables ∧
      List.Forall₂ (TableOf repository) (dict.group ColumnInfo.table_id (d.map Prod.snd)) tables := by
  obtain ⟨d, hmerged, hd⟩ := mergedColumns_ok h
  have htables : ∀ g ∈ dict.group ColumnInfo.table_id (d.map Prod.snd),
      (repository.get_table_info_by_id g.1).isSome := by
    intro g hg
    obtain ⟨c, hc, htable⟩ := (dict.mem_keys_group _ _).mp (List.mem_map.mpr ⟨g, hg, rfl⟩)
    obtain ⟨-, b, hb, hbc⟩ := hd.mem_columns.mp hc
    have hpresent := h.tables b (baseColumn_id hb).1
    have hsame : b.table_id = g.1 := by
      rw [← htable, hbc]
    rwa [hsame] at hpresent
  obtain ⟨tables, hok, hall⟩ := mapM_forall₂ (TableOf repository) fun g hg => tableOf_ok (htables g hg)
  refine ⟨d, tables, hd, ?_, hall⟩
  simp only [mergedTables, hmerged, bind, Except.bind]
  exact hok

/-- The merged context has one entry for each table that the recall leads to, and under
it once each column of the recall and each key of the table; and a value that was found
and was no example before is one once. -/
theorem merge_retrieved_info_complete (h : Present repository recalls) :
    ∃ tables : List (TableInfo × List (ColumnInfo (Stored V) (Stored String))),
      merge_retrieved_info repository recalls =
        .ok (tables.map tableState, recalls.retrieved_metric_infos.map metricState) ∧
      (tables.map fun t => t.1.id).Nodup ∧
      (∀ table_id, table_id ∈ tables.map (fun t => t.1.id) ↔
        ∃ id ∈ recalledIds recalls, ∃ b, baseColumn repository recalls id = some b ∧ b.table_id = table_id) ∧
      ∀ t ∈ tables, t.1 ∈ repository.table_info ∧ (t.2.map ColumnInfo.id).Nodup ∧
        (∀ id, id ∈ t.2.map ColumnInfo.id ↔
          (id ∈ recalledIds recalls ∧ ∃ b, baseColumn repository recalls id = some b ∧ b.table_id = t.1.id) ∨
            ∃ c ∈ repository.column_info, c.table_id = t.1.id ∧ (c.role = "primary_key" ∨ c.role = "foreign_key") ∧
              c.id = id) ∧
        ∀ info ∈ recalls.retrieved_value_infos, ∀ b, baseColumn repository recalls info.column_id = some b →
          b.table_id = t.1.id → info.value ∉ b.examples →
            ∃ c ∈ t.2, c.id = info.column_id ∧ ∃ examples, c.examples = .list examples ∧ examples.count info.value = 1 := by
  obtain ⟨d, tables, hd, htables, hall⟩ := mergedTables_ok h
  have hids : (dict.group ColumnInfo.table_id (d.map Prod.snd)).map Prod.fst = tables.map fun t => t.1.id :=
    forall₂_map_eq hall fun g t hgt => hgt.table_id.2
  refine ⟨tables, by simp [merge_retrieved_info, htables, bind, Except.bind, pure, Except.pure], ?_, ?_, ?_⟩
  · rw [← hids]
    exact dict.nodup_group _ _
  · intro table_id
    rw [← hids, dict.mem_keys_group]
    constructor
    · rintro ⟨c, hc, htable⟩
      obtain ⟨hid, b, hb, hbc⟩ := hd.mem_columns.mp hc
      exact ⟨c.id, hid, b, hb, by rw [← htable, hbc]⟩
    · rintro ⟨id, hid, b, hb, htable⟩
      obtain ⟨c, hc, hcid⟩ := List.mem_map.mp (hd.mem_ids_of_table.mpr ⟨hid, b, hb, htable⟩)
      obtain ⟨hmem, hctable⟩ := List.mem_filter.mp hc
      exact ⟨c, hmem, of_decide_eq_true hctable⟩
  intro t ht
  obtain ⟨g, hg, hgt⟩ := forall₂_mem_right hall ht
  obtain ⟨hmem, hgid⟩ := hgt.table_id
  have hcolumns : g.2 = (d.map Prod.snd).filter fun c => c.table_id = t.1.id := by
    have hlookup := (dict.mem_iff_lookup (dict.nodup_group _ _)).mp hg
    rw [dict.lookup_group] at hlookup
    split_ifs at hlookup
    rw [← hgid]
    exact (Option.some.inj hlookup).symm
  have hnodup : (g.2.map ColumnInfo.id).Nodup := by
    have hall : ((d.map Prod.snd).map ColumnInfo.id).Nodup := hd.column_ids ▸ hd.nodup
    rw [hcolumns]
    exact hall.sublist (List.filter_sublist.map _)
  obtain ⟨hnodup', hmem'⟩ := @withKeys_ids V repository g.1 _ hnodup
  refine ⟨hmem, by rw [hgt.2]; exact hnodup', fun id => ?_, ?_⟩
  · rw [hgt.2, hmem', hcolumns, hd.mem_ids_of_table, mem_key_ids, hgid]
  · intro info hinfo b hb htable hnew
    have hid : info.column_id ∈ recalledIds recalls := by
      refine List.mem_append_right _ (List.mem_append_right _ ?_)
      exact List.mem_map.mpr ⟨info, hinfo, rfl⟩
    have hcolumn : ({ b with examples := addExamples b.examples (valuesOf recalls.retrieved_value_infos info.column_id) } :
        SchemaColumn V) ∈ g.2 := by
      rw [hcolumns]
      exact List.mem_filter.mpr ⟨hd.column_mem hid hb, by simp [htable]⟩
    have hvalues := count_addExamples b.examples (valuesOf recalls.retrieved_value_infos info.column_id) info.value
    have hvalue : info.value ∈ valuesOf recalls.retrieved_value_infos info.column_id :=
      List.mem_map.mpr ⟨info, List.mem_filter.mpr ⟨hinfo, by simp⟩, rfl⟩
    rw [if_neg hnew, if_pos hvalue] at hvalues
    rw [hgt.2]
    exact ⟨_, List.mem_append_left _ (List.mem_map.mpr ⟨_, hcolumn, rfl⟩), (baseColumn_id hb).2, _, rfl, hvalues⟩

/-- A dimension with its key. -/
def regions : MetaMySQLRepository String where
  column_info :=
    [{ id := "dim_region.region_id", name := "region_id", type := "varchar(20)", role := "primary_key"
       examples := ["R001"], description := "", aliases := [], table_id := "dim_region" },
      { id := "dim_region.region_name", name := "region_name", type := "varchar(50)", role := "dimension"
        examples := ["华东"], description := "", aliases := [], table_id := "dim_region" }]
  table_info := [{ id := "dim_region", name := "dim_region", role := "dim", description := "" }]
  column_ids := by decide
  table_ids := by decide
  json _ := "[]"
  jsonAliases _ := "[]"

/-- A value of a column that no other branch finds. -/
def northChina : Recall String where
  retrieved_column_infos := []
  retrieved_metric_infos := []
  retrieved_value_infos :=
    [{ id := "dim_region.region_name.华北", value := "华北", column_id := "dim_region.region_name" }]

theorem northChina_complete :
    ∃ tables : List (TableInfo × List (ColumnInfo (Stored String) (Stored String))),
      merge_retrieved_info regions northChina = .ok (tables.map tableState, []) ∧
      (tables.map fun t => t.1.id).Nodup := by
  have hpresent : Present regions northChina := { columns := by decide, tables := by decide }
  obtain ⟨tables, hok, hnodup, -⟩ := merge_retrieved_info_complete hpresent
  exact ⟨tables, hok, hnodup⟩

end incidentdesk.query
