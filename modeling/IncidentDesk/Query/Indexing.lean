import IncidentDesk.Query.Metadata
import IncidentDesk.Traversal
import Mathlib.Tactic.SplitIfs

namespace incidentdesk.meta

open Client

variable {ν α : Type} {kit : Kit ν}

section Batches

variable {size : Nat} {items : List α}

theorem flatten_slices (items : List α) (size n : Nat) :
    ((List.range n).map fun i => (items.drop (i * size)).take size).flatten = items.take (n * size) := by
  induction n with
  | zero => rw [Nat.zero_mul, List.take_zero, List.range_zero, List.map_nil, List.flatten_nil]
  | succ n ih =>
    rw [List.range_succ, List.map_append, List.flatten_append, ih, Nat.succ_mul, List.take_add]
    simp

/-- The batches are all of the items, in their order. -/
theorem flatten_batches (hsize : 0 < size) (items : List α) : (batches size items).flatten = items := by
  rw [batches, flatten_slices]
  refine List.take_of_length_le ?_
  have hdiv := Nat.div_add_mod (items.length + size - 1) size
  have hmod := Nat.mod_lt (items.length + size - 1) hsize
  rw [Nat.mul_comm] at hdiv
  omega

theorem flatMap_batches {β : Type} (hsize : 0 < size) (f : List α → List β) (g : α → β)
    (hf : ∀ items, f items = items.map g) : (batches size items).flatMap f = items.map g := by
  rw [funext hf, List.flatMap_def, ← List.map_flatten, flatten_batches hsize]

end Batches

/-- What a run writes for the tables of its configuration. -/
def tablesPlan (kit : Kit ν) (tables : List TableConfig) (run : Nat) (infos : List ColumnInfo) : List (Request ν) :=
  if tables = [] then []
  else
    .save_tables (tables.map tableInfo) infos ::
      ((batches 10 (points kit run ColumnInfo.texts infos)).map .upsert_columns ++
        (batches 20 ((valueInfos kit tables infos).toOption.getD [])).map .bulk)

/-- What it writes for the metrics. -/
def metricsPlan (kit : Kit ν) (metrics : List MetricConfig) (run : Nat) : List (Request ν) :=
  if metrics = [] then []
  else
    .save_metrics (metrics.map metricInfo) (columnMetrics metrics) ::
      (batches 10 (points kit run MetricInfo.texts (metrics.map metricInfo))).map .upsert_metrics

/-- What a run writes, if all columns of its configuration are there. -/
def plan (kit : Kit ν) (meta_config : MetaConfig) (run : Nat) : List (Request ν) :=
  match columnInfos kit (meta_config.tables.getD []) with
  | .error _ => []
  | .ok infos =>
    tablesPlan kit (meta_config.tables.getD []) run infos ++ metricsPlan kit (meta_config.metrics.getD []) run ++
      [.insert_version "merged-v1"]

section Plans

variable {meta_config : MetaConfig} {run : Nat}

theorem writes_ensure_collection (collection : Collection) :
    Writes Request.writes (ensure_collection collection : Script ν PUnit) [] := by
  refine (writes_read rfl).read fun reply => ?_
  split
  · exact (writes_read rfl).read fun _ => writes_pure
  · exact writes_pure

theorem writes_ensure_index : Writes Request.writes (ensure_index : Script ν PUnit) [] := by
  refine (writes_read rfl).read fun reply => ?_
  split
  · exact (writes_read rfl).read fun _ => writes_pure
  · exact writes_pure

theorem writes_save_to_qdrant {collection : Collection} {upsert : List (Uuid × Point ν α) → Request ν}
    {texts : α → List String} {infos : List α} (hupsert : ∀ batch, (upsert batch).writes = true) :
    Writes Request.writes (save_to_qdrant kit run collection upsert texts infos)
      ((batches 10 (points kit run texts infos)).map upsert) :=
  (writes_ensure_collection collection).read fun _ =>
    writes_forM fun batch => (writes_ask (hupsert batch)).bind fun _ => writes_pure

theorem writes_save_value_info_to_es {tables : List TableConfig} {infos : List ColumnInfo} :
    Writes Request.writes (save_value_info_to_es kit tables infos)
      ((batches 20 ((valueInfos kit tables infos).toOption.getD [])).map .bulk) := by
  refine writes_ensure_index.read fun _ => writes_liftM fun values hvalues => ?_
  rw [hvalues]
  exact writes_forM fun batch => (writes_ask rfl).bind fun _ => writes_pure

theorem writes_metrics (metrics : List MetricConfig) : Writes Request.writes
    (do
      if metrics ≠ [] then
        let metric_infos ← save_metrics_to_meta_db metrics
        save_metrics_to_qdrant kit run metric_infos : Script ν PUnit)
    (metricsPlan kit metrics run) := by
  unfold metricsPlan
  by_cases hmetrics : metrics = []
  · rw [if_pos hmetrics, if_neg (not_not.mpr hmetrics)]
    exact writes_pure
  · rw [if_neg hmetrics, if_pos hmetrics]
    change Writes Request.writes (ask _ >>= fun _ => save_metrics_to_qdrant kit run (metrics.map metricInfo)) _
    exact (writes_ask rfl).bind fun _ => writes_save_to_qdrant fun _ => rfl

/-- A configuration without tables has all of its columns. -/
theorem build_error {e : String} (hinfos : columnInfos kit (meta_config.tables.getD []) = .error e) :
    build kit run meta_config = throw e := by
  have htables : meta_config.tables.getD [] ≠ [] := by
    intro htables
    rw [htables] at hinfos
    cases hinfos
  unfold build
  dsimp only
  rw [if_pos htables]
  unfold save_tables_to_meta_db
  rw [hinfos]
  rfl

theorem writes_build {infos : List ColumnInfo} (hinfos : columnInfos kit (meta_config.tables.getD []) = .ok infos) :
    Writes Request.writes (build kit run meta_config)
      (tablesPlan kit (meta_config.tables.getD []) run infos ++ metricsPlan kit (meta_config.metrics.getD []) run) := by
  unfold build tablesPlan
  dsimp only
  by_cases htables : meta_config.tables.getD [] = []
  · rw [if_neg (not_not.mpr htables), if_pos htables, List.nil_append]
    exact writes_metrics _
  · rw [if_pos htables, if_neg htables]
    unfold save_tables_to_meta_db
    rw [hinfos, List.cons_append, List.append_assoc]
    change Writes Request.writes (ask _ >>= fun _ => _) _
    refine (writes_ask rfl).bind fun _ => ?_
    exact (writes_save_to_qdrant fun _ => rfl).bind fun _ => writes_save_value_info_to_es.bind fun _ => writes_metrics _

/-- A run writes along its plan. -/
theorem within_main (kit : Kit ν) (run : Nat) (meta_config : MetaConfig) :
    Within Request.writes (main kit run meta_config) (plan kit meta_config run) := by
  refine (writes_read rfl).within_read fun _ => (writes_read rfl).within_read fun reply => ?_
  dsimp only
  split
  · exact within_pure
  · refine (writes_read rfl).within_read fun reply => ?_
    split
    · exact within_throw
    · unfold plan
      cases hinfos : columnInfos kit (meta_config.tables.getD []) with
      | error e =>
        rw [build_error hinfos]
        exact trivial
      | ok infos =>
        refine (writes_build hinfos).within fun _ => ?_
        have hversion : Writes Request.writes (ask (.insert_version "merged-v1") : Script ν Reply)
            [.insert_version "merged-v1"] := writes_ask rfl
        exact hversion.within fun _ => within_pure

end Plans

section Content

variable {γ : Type} {content : Content ν} {requests more : List (Request ν)}

/-- What some requests make of the content. -/
abbrev written (requests : List (Request ν)) (content : Content ν) : Content ν :=
  effects (fun request content => content.write request) requests content

/-- A request fails and changes nothing, or it has its effect. -/
theorem serve_cases (kit : Kit ν) (request : Request ν) (s : Stores ν) :
    (∃ e, serve kit request s = (.error e, s)) ∨ ∃ reply after, serve kit request s = (.ok reply, after) ∧
      after.content = if request.writes then s.content.write request else s.content := by
  cases request with
  | create_knowledge_build | count_tables | collection_exists | index_exists | bulk => exact .inr ⟨_, _, rfl, rfl⟩
  | select_version =>
    unfold serve
    cases s.knowledge_build with
    | true => exact .inr ⟨_, _, rfl, rfl⟩
    | false => exact .inl ⟨_, rfl⟩
  | save_tables | upsert_columns | upsert_metrics | save_metrics | insert_version =>
    simp only [serve, Request.writes, reduceIte]
    split_ifs
    · exact .inr ⟨_, _, rfl, rfl⟩
    · exact .inl ⟨_, rfl⟩
  | create_collection | create_index =>
    simp only [serve, Request.writes, Bool.false_eq_true, reduceIte]
    split_ifs
    · exact .inl ⟨_, rfl⟩
    · exact .inr ⟨_, _, rfl, rfl⟩

theorem serve_effects (kit : Kit ν) : Service.Effects (serve kit) Request.writes Stores.content
    (fun request content => content.write request) where
  ok request s reply h := by
    obtain ⟨e, hserve⟩ | ⟨reply, after, hserve, hcontent⟩ := serve_cases kit request s
    · rw [hserve] at h
      cases h
    · rw [hserve, hcontent]
  error request s e h := by
    obtain ⟨e, hserve⟩ | ⟨reply, after, hserve, hcontent⟩ := serve_cases kit request s
    · rw [hserve]
    · rw [hserve] at h
      cases h

theorem written_append : written (requests ++ more) content = written more (written requests content) :=
  List.foldl_append

/-- What no request changes stays. -/
theorem written_keeps (f : Content ν → γ)
    (h : ∀ request ∈ requests, ∀ content, f (content.write request) = f content) :
    f (written requests content) = f content := by
  induction requests generalizing content with
  | nil => rfl
  | cons request requests ih =>
    obtain ⟨hrequest, hrequests⟩ := List.forall_mem_cons.mp h
    exact (ih hrequests).trans (hrequest content)

end Content

section Whole

variable {meta_config : MetaConfig} {tables : List TableConfig} {metrics : List MetricConfig} {infos : List ColumnInfo}
  {run : Nat} {vector : String → ν}

/-- The index is whole: all tables, columns and metrics of the configuration are there,
each of their texts has its vector once, and the values that are to be found are there,
each under its own key. -/
structure Whole (kit : Kit ν) (vector : String → ν) (meta_config : MetaConfig) (content : Content ν) : Prop where
  tables : content.tables = (meta_config.tables.getD []).map tableInfo
  columns : columnInfos kit (meta_config.tables.getD []) = .ok content.columns
  column_points : content.column_points.map Prod.snd =
    content.columns.flatMap fun info => info.texts.map fun text => (vector text, info)
  values : ∃ values, valueInfos kit (meta_config.tables.getD []) content.columns = .ok values ∧
    (∀ value ∈ values, value.id ∈ content.values.map Prod.fst) ∧
    ∀ entry ∈ content.values, entry.2 ∈ values ∧ entry.1 = entry.2.id
  metrics : content.metrics = (meta_config.metrics.getD []).map metricInfo
  column_metrics : content.column_metrics = columnMetrics (meta_config.metrics.getD [])
  metric_points : content.metric_points.map Prod.snd =
    content.metrics.flatMap fun info => info.texts.map fun text => (vector text, info)

/-- Each text of each record has its vector. -/
theorem map_snd_points (hembed : ∀ texts, kit.embed texts = texts.map vector) (texts : α → List String)
    (infos : List α) : (points kit run texts infos).map Prod.snd =
      infos.flatMap fun info => (texts info).map fun text => (vector text, info) := by
  simp only [points]
  rw [flatMap_batches (by decide) _ vector hembed, List.map_snd_zip]
  · rw [List.map_map, List.zip_map', List.map_flatMap]
    simp only [List.map_map]
    rfl
  · simp only [List.length_zip, List.length_map, List.length_range, Nat.min_self]
    exact Nat.le_refl _

theorem nodup_points (hembed : ∀ texts, kit.embed texts = texts.map vector) (texts : α → List String)
    (infos : List α) : ((points kit run texts infos).map Prod.fst).Nodup := by
  simp only [points]
  rw [flatMap_batches (by decide) _ vector hembed, List.map_fst_zip]
  · exact List.nodup_range.map fun a b heq => (Prod.mk.inj heq).2
  · simp only [List.length_zip, List.length_map, List.length_range, Nat.min_self]
    exact Nat.le_refl _

theorem mem_columnInfos (hinfos : columnInfos kit tables = .ok infos) {info : ColumnInfo} (hinfo : info ∈ infos) :
    ∃ table ∈ tables, ∃ column ∈ table.columns, info.id = columnId table column := by
  obtain ⟨columns, hcolumns, hflatten⟩ := traversal.bind_eq_ok.mp hinfos
  obtain rfl := Except.ok.inj hflatten
  obtain ⟨group, hgroup, hinfo⟩ := List.mem_flatten.mp hinfo
  obtain ⟨table, htable, hgroup⟩ := traversal.forall₂_mem_right (traversal.mapM_eq_ok.mp hcolumns) hgroup
  obtain ⟨column, hcolumn, hinfo⟩ := traversal.forall₂_mem_right (traversal.mapM_eq_ok.mp hgroup) hinfo
  refine ⟨table, htable, column, hcolumn, ?_⟩
  split at hinfo
  · obtain rfl := Except.ok.inj hinfo
    rfl
  · cases hinfo

/-- The columns of the configuration are those whose values are asked for. -/
theorem valueInfos_isOk (hinfos : columnInfos kit tables = .ok infos) :
    ∃ values, valueInfos kit tables infos = .ok values := by
  have hvalues : ∃ values, infos.mapM (columnValues kit tables) = .ok values := by
    refine traversal.mapM_isOk.mpr fun info hinfo => ?_
    obtain ⟨table, htable, column, hcolumn, hid⟩ := mem_columnInfos hinfos hinfo
    have hkey : info.id ∈ (column2sync tables).map Prod.fst := by
      refine dict.mem_keys_foldl_put.mpr (.inr ?_)
      refine List.mem_map.mpr ⟨(columnId table column, column.sync), ?_, hid.symm⟩
      exact List.mem_flatMap.mpr ⟨table, htable, List.mem_map.mpr ⟨column, hcolumn, rfl⟩⟩
    obtain ⟨sync, hsync⟩ := Option.isSome_iff_exists.mp (dict.lookup_isSome.mpr hkey)
    unfold columnValues
    rw [hsync]
    cases sync with
    | true => exact ⟨_, rfl⟩
    | false => exact ⟨_, rfl⟩
  obtain ⟨values, hvalues⟩ := hvalues
  refine ⟨values.flatten, ?_⟩
  unfold valueInfos
  rw [hvalues]
  rfl

/-- What is stored of some values, each under its id. -/
def stored (values : List ValueInfo) : List (String × ValueInfo) :=
  (values.map fun value => (value.id, value)).foldl (fun d entry => dict.put d entry.1 entry.2) []

theorem written_upsert_columns (batches : List (List (Uuid × Point ν ColumnInfo))) (content : Content ν) :
    written (batches.map .upsert_columns) content =
      { content with
        column_points := batches.flatten.foldl (fun d point => dict.put d point.1 point.2) content.column_points } := by
  induction batches generalizing content with
  | nil => rfl
  | cons batch batches ih =>
    rw [List.map_cons, List.flatten_cons, List.foldl_append]
    exact ih _

theorem written_upsert_metrics (batches : List (List (Uuid × Point ν MetricInfo))) (content : Content ν) :
    written (batches.map .upsert_metrics) content =
      { content with
        metric_points := batches.flatten.foldl (fun d point => dict.put d point.1 point.2) content.metric_points } := by
  induction batches generalizing content with
  | nil => rfl
  | cons batch batches ih =>
    rw [List.map_cons, List.flatten_cons, List.foldl_append]
    exact ih _

theorem written_bulk (batches : List (List ValueInfo)) (content : Content ν) :
    written (batches.map .bulk) content =
      { content with values := batches.flatten.foldl (fun d value => dict.put d value.id value) content.values } := by
  induction batches generalizing content with
  | nil => rfl
  | cons batch batches ih =>
    rw [List.map_cons, List.flatten_cons, List.foldl_append]
    exact ih _

theorem foldl_put_points (hembed : ∀ texts, kit.embed texts = texts.map vector) (texts : α → List String)
    (infos : List α) :
    (batches 10 (points kit run texts infos)).flatten.foldl (fun d point => dict.put d point.1 point.2) [] =
      points kit run texts infos := by
  rw [flatten_batches (by decide), dict.foldl_put_of_nodup (nodup_points hembed texts infos), List.nil_append]

/-- What the whole plan for the tables makes of an empty index. -/
theorem written_tablesPlan (run : Nat) (hembed : ∀ texts, kit.embed texts = texts.map vector)
    (hinfos : columnInfos kit tables = .ok infos) :
    ∃ values, valueInfos kit tables infos = .ok values ∧
      written (tablesPlan kit tables run infos) {} =
        { tables := tables.map tableInfo, columns := infos, column_points := points kit run ColumnInfo.texts infos
          values := stored values } := by
  unfold tablesPlan
  by_cases htables : tables = []
  · subst htables
    obtain rfl : [] = infos := Except.ok.inj hinfos
    exact ⟨[], rfl, rfl⟩
  · obtain ⟨values, hvalues⟩ := valueInfos_isOk hinfos
    have hfirst : Content.write ({} : Content ν) (.save_tables (tables.map tableInfo) infos) =
        { tables := tables.map tableInfo, columns := infos } := rfl
    refine ⟨values, hvalues, ?_⟩
    rw [if_neg htables, hvalues]
    change written (_ ++ _) (Content.write {} _) = _
    rw [hfirst, written_append, written_upsert_columns, written_bulk]
    dsimp only
    rw [foldl_put_points hembed, flatten_batches (by decide), stored, List.foldl_map]
    rfl

theorem written_metricsPlan (hembed : ∀ texts, kit.embed texts = texts.map vector) (metrics : List MetricConfig)
    (run : Nat) (tables : List TableInfo) (columns : List ColumnInfo)
    (column_points : List (Uuid × Point ν ColumnInfo)) (values : List (String × ValueInfo)) :
    written (metricsPlan kit metrics run) { tables, columns, column_points, values } =
      { tables, columns, column_points, values, metrics := metrics.map metricInfo
        column_metrics := columnMetrics metrics
        metric_points := points kit run MetricInfo.texts (metrics.map metricInfo) } := by
  unfold metricsPlan
  by_cases hempty : metrics = []
  · subst hempty
    rfl
  · have hfirst : Content.write ({ tables, columns, column_points, values } : Content ν)
        (.save_metrics (metrics.map metricInfo) (columnMetrics metrics)) =
        { tables, columns, column_points, values, metrics := metrics.map metricInfo
          column_metrics := columnMetrics metrics } := rfl
    rw [if_neg hempty]
    change written _ (Content.write _ _) = _
    rw [hfirst, written_upsert_metrics]
    dsimp only
    rw [foldl_put_points hembed]

/-- What a whole plan makes of an empty index. -/
theorem whole_plan (hembed : ∀ texts, kit.embed texts = texts.map vector) (hplan : plan kit meta_config run ≠ []) :
    Whole kit vector meta_config (written (plan kit meta_config run) {}) := by
  unfold plan at hplan ⊢
  cases hinfos : columnInfos kit (meta_config.tables.getD []) with
  | error e =>
    rw [hinfos] at hplan
    exact absurd rfl hplan
  | ok infos =>
    obtain ⟨values, hvalues, htables⟩ := written_tablesPlan run hembed hinfos
    dsimp only
    rw [written_append, written_append, htables, written_metricsPlan hembed]
    refine ⟨rfl, hinfos, map_snd_points hembed _ _, ⟨values, hvalues, ?_, ?_⟩, rfl, rfl,
      map_snd_points hembed _ _⟩
    · intro value hvalue
      exact dict.mem_keys_foldl_put.mpr (.inr (by simpa using ⟨value, hvalue, rfl⟩))
    · intro entry hentry
      obtain hnil | hentry := dict.mem_foldl_put hentry
      · cases hnil
      · obtain ⟨value, hvalue, rfl⟩ := List.mem_map.mp hentry
        exact ⟨hvalue, rfl⟩

end Whole

section Publish

variable {meta_config : MetaConfig} {run runs : Nat} {content : Content ν} {requests : List (Request ν)}

theorem tables_written (h : ∀ request ∈ requests, ∀ tables columns, request ≠ .save_tables tables columns) :
    (written requests content).tables = content.tables := by
  refine written_keeps Content.tables fun request hrequest content => ?_
  cases request with
  | save_tables tables columns => exact absurd rfl (h _ hrequest tables columns)
  | _ => rfl

theorem metrics_written (h : ∀ request ∈ requests, ∀ metrics columns, request ≠ .save_metrics metrics columns) :
    (written requests content).metrics = content.metrics := by
  refine written_keeps Content.metrics fun request hrequest content => ?_
  cases request with
  | save_metrics metrics columns => exact absurd rfl (h _ hrequest metrics columns)
  | _ => rfl

theorem version_written (h : ∀ request ∈ requests, ∀ version, request ≠ .insert_version version) :
    (written requests content).version = content.version := by
  refine written_keeps Content.version fun request hrequest content => ?_
  cases request with
  | insert_version version => exact absurd rfl (h _ hrequest version)
  | _ => rfl

/-- Rows cannot be saved again. -/
theorem distinct_twice (kit : Kit ν) {rows : List String} (h : rows ≠ []) : kit.distinct (rows ++ rows) = false := by
  obtain ⟨row, hrow⟩ := List.exists_mem_of_ne_nil rows h
  refine decide_eq_false fun hnodup => ?_
  rw [List.map_append, List.nodup_append] at hnodup
  exact hnodup.2.2 _ (List.mem_map_of_mem hrow) _ (List.mem_map_of_mem hrow) rfl

/-- What a plan begins with is the same for all runs, and comes once. -/
theorem plan_cases (kit : Kit ν) (meta_config : MetaConfig) :
    (∀ run, plan kit meta_config run = []) ∨
    (∃ tables columns, tables ≠ [] ∧ ∀ run, ∃ rest,
      plan kit meta_config run = .save_tables tables columns :: rest ∧ ∀ request ∈ rest, ∀ tables columns, request ≠ .save_tables tables columns) ∨
    (∃ metrics columns, metrics ≠ [] ∧ ∀ run, ∃ rest,
      plan kit meta_config run = .save_metrics metrics columns :: rest ∧ ∀ request ∈ rest, ∀ metrics columns, request ≠ .save_metrics metrics columns) ∨
    ∀ run, plan kit meta_config run = [.insert_version "merged-v1"] := by
  unfold plan
  cases columnInfos kit (meta_config.tables.getD []) with
  | error e => exact .inl fun _ => rfl
  | ok infos =>
    dsimp only
    right
    by_cases htables : meta_config.tables.getD [] = []
    · right
      by_cases hmetrics : meta_config.metrics.getD [] = []
      · exact .inr fun run => by rw [tablesPlan, if_pos htables, metricsPlan, if_pos hmetrics]; rfl
      · refine .inl ⟨(meta_config.metrics.getD []).map metricInfo, columnMetrics (meta_config.metrics.getD []),
          mt List.map_eq_nil_iff.mp hmetrics, fun run => ?_⟩
        rw [tablesPlan, if_pos htables, metricsPlan, if_neg hmetrics]
        refine ⟨_, rfl, ?_⟩
        rintro request hrequest _ _ rfl
        simp at hrequest
    · refine .inl ⟨(meta_config.tables.getD []).map tableInfo, infos,
        mt List.map_eq_nil_iff.mp htables, fun run => ?_⟩
      rw [tablesPlan, if_neg htables, metricsPlan]
      refine ⟨_, rfl, ?_⟩
      rintro request hrequest _ _ rfl
      split_ifs at hrequest <;> simp at hrequest

/-- No run can begin to write when another one has. -/
theorem claims (kit : Kit ν) (meta_config : MetaConfig) : Claims (serve kit) Stores.content
    (fun request content => content.write request) (plan kit meta_config) {} := by
  intro owner k n request rest s hpos hle hplan hview
  obtain ⟨j, rfl⟩ : ∃ j, k = j + 1 := ⟨k - 1, by omega⟩
  obtain hnone | ⟨tables, columns, hne, hsame⟩ | ⟨metrics, columns, hne, hsame⟩ | hsame :=
    plan_cases kit meta_config
  · rw [hnone] at hplan
    cases hplan
  · obtain ⟨restₙ, hplanₙ, -⟩ := hsame n
    obtain ⟨restₒ, hplanₒ, honce⟩ := hsame owner
    obtain rfl := (List.cons.inj (hplan.symm.trans hplanₙ)).1
    have htables : s.content.tables = tables := by
      rw [hview, hplanₒ]
      exact (tables_written fun request hrequest =>
        honce request (List.mem_of_mem_take hrequest)).trans (List.nil_append _)
    have hdistinct : kit.distinct ((tables ++ tables).map TableInfo.id) = false := by
      rw [List.map_append]
      exact distinct_twice kit (mt List.map_eq_nil_iff.mp hne)
    refine ⟨"IntegrityError", ?_⟩
    unfold serve
    dsimp only
    rw [htables, hdistinct]
    rfl
  · obtain ⟨restₙ, hplanₙ, -⟩ := hsame n
    obtain ⟨restₒ, hplanₒ, honce⟩ := hsame owner
    obtain rfl := (List.cons.inj (hplan.symm.trans hplanₙ)).1
    have hmetrics : s.content.metrics = metrics := by
      rw [hview, hplanₒ]
      exact (metrics_written fun request hrequest =>
        honce request (List.mem_of_mem_take hrequest)).trans (List.nil_append _)
    have hdistinct : kit.distinct ((metrics ++ metrics).map MetricInfo.id) = false := by
      rw [List.map_append]
      exact distinct_twice kit (mt List.map_eq_nil_iff.mp hne)
    refine ⟨"IntegrityError", ?_⟩
    unfold serve
    dsimp only
    rw [hmetrics, hdistinct]
    rfl
  · rw [hsame] at hplan hview
    obtain rfl := (List.cons.inj hplan).1
    have hversion : s.content.version = some "merged-v1" := by
      rw [hview, List.take_of_length_le (Nat.le_add_left 1 j)]
      rfl
    refine ⟨"IntegrityError", ?_⟩
    unfold serve
    dsimp only
    rw [hversion, Option.isNone_some, Bool.and_false]
    rfl

/-- A part of a plan that is not all of it does not publish the index. -/
theorem length_of_published {k : Nat} (hle : k ≤ (plan kit meta_config run).length)
    (hversion : (written ((plan kit meta_config run).take k) {}).version ≠ none) :
    k = (plan kit meta_config run).length := by
  by_contra hne
  refine hversion (version_written fun request hrequest version => ?_)
  unfold plan at hle hne hrequest
  cases hinfos : columnInfos kit (meta_config.tables.getD []) with
  | error e =>
    rw [hinfos] at hrequest
    cases List.mem_of_mem_take hrequest
  | ok infos =>
    rw [hinfos] at hle hne hrequest
    dsimp only at hle hne hrequest
    rw [List.length_append, List.length_singleton] at hle hne
    rw [List.take_append_of_le_length (by omega)] at hrequest
    obtain hrequest | hrequest := List.mem_append.mp (List.mem_of_mem_take hrequest)
    · unfold tablesPlan at hrequest
      split_ifs at hrequest
      · cases hrequest
      · rintro rfl
        simp at hrequest
    · unfold metricsPlan at hrequest
      split_ifs at hrequest
      · cases hrequest
      · rintro rfl
        simp at hrequest

/-- What the stores hold is what the first writes of one run have made of them. -/
theorem after_cases (kit : Kit ν) (meta_config : MetaConfig) (runs : Nat) (acts : List Act) :
    (after kit meta_config runs acts).Free Request.writes Stores.content (plan kit meta_config) {} ∨
      ∃ owner k, (after kit meta_config runs acts).Held Request.writes Stores.content
        (fun request content => content.write request) (plan kit meta_config) {} owner k := by
  refine System.Free.run (serve_effects kit) (claims kit meta_config) ⟨rfl, fun n client hn => ?_⟩ acts
  rw [List.getElem?_map] at hn
  obtain ⟨run, hrun, rfl⟩ := Option.map_eq_some_iff.mp hn
  obtain ⟨hlt, hget⟩ := List.getElem?_eq_some_iff.mp hrun
  rw [List.getElem_range] at hget
  exact .inl (hget ▸ within_main kit n meta_config)

/-- A warehouse of orders. -/
def ordersKit : Kit Nat :=
  { collate := id
    get_column_types := fun _ => [("region", "varchar(20)")]
    get_column_values := fun _ _ limit => [agent.Cell.str "north", agent.Cell.str "south"].take limit
    embed := List.map String.length }

def ordersConfig : MetaConfig :=
  { tables := some [{ name := "orders", role := "fact", description := "sales"
                      columns := [{ name := "region", role := "dimension", description := "place"
                                    aliases := ["area"], sync := true }] }]
    metrics := some [{ name := "count", description := "orders", relevant_columns := ["orders.region"]
                       aliases := [] }] }

/-- Two runs at once: the second comes to its first write too late. -/
def twoRuns : List Act :=
  [.answer 0, .answer 1, .answer 0, .answer 1, .answer 0, .answer 1, .answer 0, .answer 1] ++
    List.replicate 11 (.answer 0)

end Publish

end incidentdesk.meta
