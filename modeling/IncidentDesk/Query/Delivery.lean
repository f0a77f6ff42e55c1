import IncidentDesk.DataStream

namespace incidentdesk

namespace agent

section Encoding

variable {request_id : String} {now : Nat} {step_started : List (String × Nat)} {event : Event}

/-- What an event is stamped with is a time, or the query that it belongs to. -/
theorem stamp_cases (request_id : String) (now : Nat) (step_started : List (String × Nat)) (event : Event) :
    (stamp request_id now step_started event).1 = [("request_id", .str request_id), ("elapsed_ms", .num now)] ∨
      ∃ duration : Nat, (stamp request_id now step_started event).1 =
        [("request_id", .str request_id), ("elapsed_ms", .num now), ("duration_ms", .num duration)] := by
  unfold stamp
  split
  · exact .inl rfl
  · split
    · exact .inl rfl
    · split
      · exact .inl rfl
      · exact .inr ⟨_, rfl⟩

theorem distinct_num (n : Int) : (Json.num n).Distinct := trivial

theorem Record.distinct_toJson (row : Record) : (Record.toJson row).Distinct := by
  refine ⟨Json.nodup_dict _, Json.membersDistinct_iff.mpr fun field hfield => ?_⟩
  obtain ⟨column, -, rfl⟩ := List.mem_map.mp (Json.mem_dict hfield)
  obtain ⟨name, cell⟩ := column
  cases cell <;> trivial

theorem itemsDistinct_of_forall {items : List Json} (h : ∀ item ∈ items, item.Distinct) :
    Json.Distinct.itemsDistinct items := by
  induction items with
  | nil => trivial
  | cons item items ih =>
    obtain ⟨hitem, hitems⟩ := List.forall_mem_cons.mp h
    exact ⟨hitem, ih hitems⟩

/-- An event is an object with a key for each of its fields. -/
theorem distinct_event (request_id : String) (now : Nat) (step_started : List (String × Nat)) (event : Event) :
    (Json.obj (event.fields ++ (stamp request_id now step_started event).1)).Distinct := by
  have hrows (data : List Record) : Json.Distinct (.arr (data.map Record.toJson)) := by
    refine itemsDistinct_of_forall fun item hitem => ?_
    obtain ⟨row, -, rfl⟩ := List.mem_map.mp hitem
    exact Record.distinct_toJson row
  have hfields : ∀ field ∈ event.fields, field.2.Distinct := by
    unfold Event.fields
    split
    all_goals simp [Json.Distinct]
    exact hrows _
  have hkeys : ∃ keys ∈ [["type", "step", "status"], ["type", "data", "sql", "row_limit"], ["type", "message"]],
      event.fields.map Prod.fst = keys := by
    unfold Event.fields
    split
    all_goals simp
  obtain ⟨keys, hmem, hkeys⟩ := hkeys
  have hmore : ∃ more ∈ [["request_id", "elapsed_ms"], ["request_id", "elapsed_ms", "duration_ms"]],
      (stamp request_id now step_started event).1.map Prod.fst = more ∧
        ∀ field ∈ (stamp request_id now step_started event).1, field.2.Distinct := by
    obtain hstamp | ⟨duration, hstamp⟩ := stamp_cases request_id now step_started event
    all_goals
      rw [hstamp]
      simp [Json.Distinct]
  obtain ⟨more, hmore, hmoreKeys, hdistinct⟩ := hmore
  have hnodup : ∀ keys ∈ [["type", "step", "status"], ["type", "data", "sql", "row_limit"], ["type", "message"]],
      ∀ more ∈ [["request_id", "elapsed_ms"], ["request_id", "elapsed_ms", "duration_ms"]], (keys ++ more).Nodup := by
    decide
  refine ⟨?_, Json.membersDistinct_iff.mpr (List.forall_mem_append.mpr ⟨hfields, hdistinct⟩)⟩
  rw [List.map_append, hkeys, hmoreKeys]
  exact hnodup keys hmem more hmore

/-- An event as the reader decodes it. -/
def Event.decoded : Event → StreamEvent
  | .chunk (.progress _ _) => { type := "progress", message := "", data := [], sql := "" }
  | .chunk (.result data sql _) => { type := "result", message := "", data := data.map Record.toJson, sql }
  | .error message => { type := "error", message, data := [], sql := "" }

theorem rowsField_toJson {document : Json} {data : List Record}
    (h : document.get? "data" = some (.arr (data.map Record.toJson))) :
    rowsField document "data" = some (data.map Record.toJson) := by
  unfold rowsField
  rw [h]
  refine if_pos (List.all_eq_true.mpr fun item hitem => ?_)
  obtain ⟨row, -, rfl⟩ := List.mem_map.mp hitem
  rfl

theorem decodeEvent_event (request_id : String) (now : Nat) (step_started : List (String × Nat)) (event : Event) :
    decodeEvent (.obj (event.fields ++ (stamp request_id now step_started event).1)) = some event.decoded := by
  obtain hstamp | ⟨duration, hstamp⟩ := stamp_cases request_id now step_started event
  all_goals
    rw [hstamp]
    rcases event with (⟨step, status⟩ | ⟨data, sql, row_limit⟩) | message
    · rfl
    · simp only [decodeEvent]
      rw [rowsField_toJson rfl]
      rfl
    · rfl

end Encoding

end agent

open agent

section Reader

variable {request_id : String} {clock : Nat → Nat} {step_started : List (String × Nat)} {events : List agent.Event}
  {finish : Option Json → Except String Json} {payloads : List (Option Json)}

/-- The frame of a progress. -/
def isProgressFrame (fields : List (String × Json)) : Bool :=
  match Json.get? (.obj fields) "type" with
  | some (.str type) => type = "progress"
  | _ => false

theorem readEvents_none (result : Option Json) (payloads : List (Option Json)) :
    readEvents finish result (none :: payloads) = { chunks := [], outcome := .error "查询结果格式无效" } := by
  rw [readEvents]
  rfl

theorem readEvents_event (result : Option Json) (now : Nat) (event : agent.Event) (payloads : List (Option Json)) :
    readEvents finish result (some (.obj (event.fields ++ (stamp request_id now step_started event).1)) :: payloads) =
      match event with
      | .chunk (.progress _ _) =>
        { readEvents finish result payloads with
          chunks := .obj (event.fields ++ (stamp request_id now step_started event).1) ::
            (readEvents finish result payloads).chunks }
      | .chunk (.result data sql _) =>
        if data.length > 500 ∨ sql = "" then { chunks := [], outcome := .error "查询结果超过限制或缺少 SQL" }
        else readEvents finish (some (.obj (event.fields ++ (stamp request_id now step_started event).1))) payloads
      | .error message => { chunks := [], outcome := .error message } := by
  rw [readEvents, Option.bind_some, decodeEvent_event, Option.map_some]
  rcases event with (⟨step, status⟩ | ⟨data, sql, row_limit⟩) | message
  · rfl
  · simp only [Event.decoded, List.length_map]
    rfl
  · rfl

theorem isProgressFrame_event (now : Nat) (event : agent.Event) :
    isProgressFrame (event.fields ++ (stamp request_id now step_started event).1) = event.progress?.isSome := by
  rcases event with (⟨step, status⟩ | ⟨data, sql, row_limit⟩) | message <;> rfl

theorem encode_cons (event : agent.Event) (events : List agent.Event) :
    encode request_id clock step_started (event :: events) =
      (event.fields ++ (stamp request_id (clock 0) step_started event).1) ::
        encode request_id (fun n => clock (n + 1)) (stamp request_id (clock 0) step_started event).2 events :=
  rfl

/-- The chunks of a stream are the first progresses of the run. -/
theorem chunks_readEvents (h : Received (encode request_id clock step_started events) payloads) (result : Option Json) :
    (readEvents finish result payloads).chunks <+:
      ((encode request_id clock step_started events).filter isProgressFrame).map .obj := by
  induction events generalizing clock step_started payloads result with
  | nil =>
    cases h with
    | stopped => exact List.nil_prefix
    | torn =>
      rw [readEvents_none]
      exact List.nil_prefix
  | cons event events ih =>
    rw [encode_cons] at h ⊢
    cases h with
    | stopped => exact List.nil_prefix
    | torn =>
      rw [readEvents_none]
      exact List.nil_prefix
    | next _ _ payloads h =>
      have hframe : isProgressFrame (event.fields ++ (stamp request_id (clock 0) step_started event).1) =
          event.progress?.isSome := isProgressFrame_event _ event
      rw [readEvents_event]
      rcases event with (⟨step, status⟩ | ⟨data, sql, row_limit⟩) | message
      · rw [List.filter_cons_of_pos hframe, List.map_cons]
        exact List.prefix_cons_inj _ |>.mpr (ih h result)
      · rw [List.filter_cons_of_neg (by rw [hframe]; exact Bool.false_ne_true)]
        dsimp only
        split
        · exact List.nil_prefix
        · exact ih h _
      · exact List.nil_prefix

/-- The result of a stream is one that the run has written, and within the limits. -/
theorem outcome_readEvents (h : Received (encode request_id clock step_started events) payloads)
    (hfinish : ∀ result document, finish result = .ok document → result = some document) {result : Option Json}
    {document : Json} (hread : (readEvents finish result payloads).outcome = .ok document) :
    result = some document ∨ ∃ data sql row_limit more, .chunk (.result data sql row_limit) ∈ events ∧
      document = .obj ((Event.chunk (.result data sql row_limit)).fields ++ more) ∧ data.length ≤ 500 ∧ sql ≠ "" := by
  induction events generalizing clock step_started payloads result with
  | nil =>
    cases h with
    | stopped => exact .inl (hfinish _ _ hread)
    | torn =>
      rw [readEvents_none] at hread
      cases hread
  | cons event events ih =>
    rw [encode_cons] at h
    cases h with
    | stopped => exact .inl (hfinish _ _ hread)
    | torn =>
      rw [readEvents_none] at hread
      cases hread
    | next _ _ payloads h =>
      have hcons {result : Option Json} (hread : (readEvents finish result payloads).outcome = .ok document) :
          result = some document ∨ ∃ data sql row_limit more, .chunk (.result data sql row_limit) ∈ event :: events ∧
            document = .obj ((Event.chunk (.result data sql row_limit)).fields ++ more) ∧ data.length ≤ 500 ∧
            sql ≠ "" := by
        obtain hresult | ⟨data, sql, row_limit, more, hmem, hrest⟩ := ih h hread
        · exact .inl hresult
        · exact .inr ⟨data, sql, row_limit, more, List.mem_cons_of_mem event hmem, hrest⟩
      rw [readEvents_event] at hread
      rcases event with (⟨step, status⟩ | ⟨data, sql, row_limit⟩) | message
      · exact hcons hread
      · dsimp only at hread
        split at hread
        · cases hread
        · rename_i hlimits
          obtain ⟨hrows, hsql⟩ := not_or.mp hlimits
          obtain hresult | hrest := hcons hread
          · obtain rfl := Option.some.inj hresult
            exact .inr ⟨data, sql, row_limit, _, List.mem_cons_self, rfl, by omega, hsql⟩
          · exact .inr hrest
      · cases hread

theorem length_filter_encode (request_id : String) (clock : Nat → Nat) (step_started : List (String × Nat))
    (events : List agent.Event) : ((encode request_id clock step_started events).filter isProgressFrame).length =
      events.countP fun event => event.progress?.isSome := by
  induction events generalizing clock step_started with
  | nil => rfl
  | cons event events ih =>
    rw [encode_cons, ← List.countP_eq_length_filter, List.countP_cons, List.countP_eq_length_filter, ih,
      List.countP_cons, isProgressFrame_event]

theorem distinct_encode {fields : List (String × Json)} (h : fields ∈ encode request_id clock step_started events) :
    (Json.obj fields).Distinct := by
  induction events generalizing clock step_started with
  | nil => cases h
  | cons event events ih =>
    rw [encode_cons] at h
    obtain rfl | h := List.mem_cons.mp h
    · exact distinct_event _ _ _ event
    · exact ih h

theorem endOfStream_eq_ok {result : Option Json} {document : Json} (h : endOfStream result = .ok document) :
    result = some document := by
  cases result with
  | none => cases h
  | some result => rw [Except.ok.inj h]

/-- What is read of an answer is what is received of its frames, wherever it ends. -/
theorem readQueryStream_frames {frames : List (List (String × Json))}
    (h : ∀ fields ∈ frames, (Json.obj fields).Distinct) (arrived : Nat) (broken : Bool) :
    ∃ payloads finish, Received frames payloads ∧
      (∀ result document, finish result = Except.ok document → result = some document) ∧
      readQueryStream (.body (frames.flatMap sseFrame) arrived broken) = readEvents finish none payloads := by
  obtain ⟨front, back, k, hsplit, hcut, hk⟩ := firstBytes_split (min arrived (8 * 2 ^ 20)) (frames.flatMap sseFrame)
  have hlines := List.takeWhile_prefix (l := scanLines (front ++ stray k)) scannable
  have hreceived := received_cut h hsplit hk hlines
  simp only [readQueryStream, hcut]
  refine ⟨_, _, hreceived, fun result document hfinish => ?_, rfl⟩
  split at hfinish
  · exact endOfStream_eq_ok hfinish
  · cases hfinish

end Reader

section Attempt

variable {j : dataJob} {before after : Except String Unit} {stream : QueryStream}

theorem mem_progressWrites {chunks all : List Json} (h : .progress j chunks ∈ progressWrites j all) : chunks <+: all := by
  obtain ⟨n, -, heq⟩ := List.mem_map.mp h
  rw [← (QueueStatement.progress.inj heq).2]
  exact List.take_prefix _ _

theorem progress_executeDataQuery {chunks : List Json} (h : .progress j chunks ∈ executeDataQuery j before stream after) :
    chunks <+: stream.chunks := by
  have hfinish (outcome : Except String Json) : .progress j chunks ∉ [finishDataQuery j outcome] := by
    cases outcome <;> simp [finishDataQuery]
  unfold executeDataQuery at h
  split at h
  · exact (hfinish _ h).elim
  · split at h
    · have hchunks := (List.mem_append.mp h).resolve_right (hfinish _)
      exact (mem_progressWrites hchunks).trans (List.take_prefix _ _)
    · exact mem_progressWrites ((List.mem_append.mp h).resolve_right (hfinish _))

/-- An attempt completes with the result of its stream, when both checks let it. -/
theorem complete_executeDataQuery {result : Json} (h : .complete j result ∈ executeDataQuery j before stream after) :
    before = .ok () ∧ after = .ok () ∧ stream.outcome = .ok result := by
  have hprogress (all : List Json) : .complete j result ∉ progressWrites j all := fun hmem => by
    obtain ⟨n, -, heq⟩ := List.mem_map.mp hmem
    cases heq
  unfold executeDataQuery at h
  split at h
  · cases List.mem_singleton.mp h
  · split at h
    · have hmem := (List.mem_append.mp h).resolve_left (hprogress _)
      cases List.mem_singleton.mp hmem
    · have hmem := List.mem_singleton.mp ((List.mem_append.mp h).resolve_left (hprogress _))
      cases houtcome : stream.outcome with
      | error e =>
        rw [houtcome] at hmem
        cases hmem
      | ok document =>
        cases hafter : after with
        | error e =>
          rw [houtcome, hafter] at hmem
          cases hmem
        | ok =>
          rw [houtcome, hafter] at hmem
          obtain rfl := (QueueStatement.complete.inj hmem).2
          exact ⟨rfl, rfl, rfl⟩

theorem executeDataQuery_ok {result : Json} (hchunks : stream.chunks.length ≤ 64) (houtcome : stream.outcome = .ok result) :
    executeDataQuery j (.ok ()) stream (.ok ()) = progressWrites j stream.chunks ++ [.complete j result] := by
  unfold executeDataQuery
  rw [houtcome]
  exact if_neg (by omega)

end Attempt

namespace agent

variable {kit : Toolkit} {question : String} {acts : List Act} {graph : Graph}

theorem mem_served {n : Nat} {chunk : Chunk} (h : .chunk chunk ∈ graph.served n) : chunk ∈ graph.written := by
  have hchunk {chunks : List Chunk} (h : .chunk chunk ∈ chunks.map Event.chunk) : chunk ∈ chunks := by
    obtain ⟨other, hother, heq⟩ := List.mem_map.mp h
    exact Event.chunk.inj heq ▸ hother
  unfold Graph.served at h
  split at h
  · exact hchunk h
  · obtain h | h := List.mem_append.mp h
    · exact List.mem_of_mem_take (hchunk h)
    · cases List.mem_singleton.mp h
  · exact List.mem_of_mem_take (hchunk h)

theorem countP_written (graph : Graph) :
    (graph.written.map Event.chunk).countP (fun event => event.progress?.isSome) = graph.trace.countP isProgress := by
  unfold Graph.written
  induction graph.trace with
  | nil => rfl
  | cons entry trace ih =>
    rcases entry with (⟨step, status⟩ | ⟨data, sql, row_limit⟩) | request | ⟨request, answer⟩
    all_goals simpa [List.filterMap_cons, List.countP_cons, Event.progress?, isProgress] using ih

/-- Not more progresses come to the stream than the run tells. -/
theorem countP_served_le (graph : Graph) (n : Nat) :
    (graph.served n).countP (fun event => event.progress?.isSome) ≤ graph.trace.countP isProgress := by
  have htake : ((graph.written.take n).map Event.chunk).countP (fun event => event.progress?.isSome) ≤
      graph.trace.countP isProgress := by
    rw [← countP_written]
    exact List.Sublist.countP_le ((List.take_sublist n _).map _)
  unfold Graph.served
  split
  · exact (countP_written graph).le
  · rw [List.countP_append]
    exact htake
  · exact htake

theorem written_of_quiet {trace : List Entry} (h : ∀ entry ∈ trace, Quiet kit entry) {data : List Record} {sql : String}
    {row_limit : Nat} : .written (.result data sql row_limit) ∉ trace :=
  fun hmem => h _ hmem

/-- A result is written at the end of a run only, and it is the answer to its query. -/
theorem result_written {data : List Record} {sql : String} {row_limit : Nat}
    (h : .result data sql row_limit ∈ (Graph.after kit question acts).written) :
    ∃ before run explained timed answer, (∀ entry ∈ before, Quiet kit entry) ∧ Cleared kit question sql run ∧
      (Graph.after kit question acts).trace = before ++ opening run explained timed ++ closing sql run answer ∧
      data = answer.rows ∧ row_limit = query.MAX_ROWS := by
  have hentry : .written (.result data sql row_limit) ∈ (Graph.after kit question acts).trace := by
    obtain ⟨entry, hentry, heq⟩ := List.mem_filterMap.mp h
    cases entry <;> simp only [reduceCtorEq, Option.some.injEq] at heq
    rwa [heq] at hentry
  obtain hquiet | ⟨before, now, htrace, hquiet, shown, run, explained, timed, ending, hcleared, hending, rfl⟩ :=
    (Graph.sound_after kit question acts).1.entries
  · exact (written_of_quiet hquiet hentry).elim
  · rw [htrace] at hentry
    have hnow := (List.mem_append.mp hentry).resolve_left (written_of_quiet hquiet)
    have hmem : .written (.result data sql row_limit) ∈ ending := by
      refine (List.mem_append.mp hnow).resolve_left fun hopening => ?_
      simp [opening] at hopening
    cases hending with
    | failed e => simp at hmem
    | told e => simp at hmem
    | closing answer k =>
      have hk : 3 ≤ k := by
        by_contra hlt
        have htake := (List.take_sublist_take_left (by omega : k ≤ 2)).subset hmem
        simp [closing] at htake
      rw [List.take_of_length_le hk] at hmem htrace
      obtain ⟨rfl, rfl, rfl⟩ : data = answer.rows ∧ sql = shown ∧ row_limit = query.MAX_ROWS := by
        simpa [closing] using hmem
      exact ⟨before, run, explained, timed, answer, hquiet, hcleared, by rw [htrace, List.append_assoc], rfl, rfl⟩

end agent

section Whole

variable {request_id : String} {clock : Nat → Nat} {step_started : List (String × Nat)} {events : List agent.Event}
  {frames : List (List (String × Json))} {finish : Option Json → Except String Json}

theorem scanLines_frames (frames : List (List (String × Json))) :
    scanLines (frames.flatMap sseFrame) = frames.flatMap fun fields => [eventLine fields, []] := by
  induction frames with
  | nil => exact scanLines_nil
  | cons fields frames ih =>
    rw [List.flatMap_cons, scanLines_sseFrame, ih]
    rfl

theorem payloads_frames (h : ∀ fields ∈ frames, (Json.obj fields).Distinct) :
    (frames.flatMap fun fields => [eventLine fields, []]).filterMap payload? = frames.map fun fields => some (.obj fields) := by
  induction frames with
  | nil => rfl
  | cons fields frames ih =>
    obtain ⟨hfields, hframes⟩ := List.forall_mem_cons.mp h
    rw [List.flatMap_cons, List.cons_append, List.cons_append, List.nil_append,
      List.filterMap_cons_some (payload?_eventLine hfields), List.filterMap_cons_none payload?_nil, ih hframes,
      List.map_cons]

/-- What is read of an answer that has come as a whole. -/
theorem readQueryStream_whole (h : ∀ fields ∈ frames, (Json.obj fields).Distinct) {arrived : Nat}
    (harrived : byteCount (frames.flatMap sseFrame) ≤ arrived) (hlimit : byteCount (frames.flatMap sseFrame) ≤ 8 * 2 ^ 20)
    (hfits : ∀ fields ∈ frames, scannable (eventLine fields) = true) :
    readQueryStream (.body (frames.flatMap sseFrame) arrived false) =
      readEvents endOfStream none (frames.map fun fields => some (.obj fields)) := by
  have hall : ∀ line ∈ frames.flatMap fun fields => [eventLine fields, []], scannable line = true := by
    intro line hline
    obtain ⟨fields, hfields, hline⟩ := List.mem_flatMap.mp hline
    obtain rfl | hline := List.mem_cons.mp hline
    · exact hfits fields hfields
    · rw [List.mem_singleton.mp hline]
      rfl
  have hlines : scanLines (firstBytes (min arrived (8 * 2 ^ 20)) (frames.flatMap sseFrame)) =
      frames.flatMap fun fields => [eventLine fields, []] := by
    rw [firstBytes_of_le (Nat.le_min.mpr ⟨harrived, hlimit⟩), scanLines_frames]
  simp only [readQueryStream, hlines]
  rw [List.takeWhile_eq_self_iff.mpr hall, payloads_frames h, List.all_eq_true.mpr hall]
  rfl

theorem encode_concat (request_id : String) (clock : Nat → Nat) (step_started : List (String × Nat))
    (events : List agent.Event) (last : agent.Event) :
    ∃ now step_started', encode request_id clock step_started (events ++ [last]) =
      encode request_id clock step_started events ++ [last.fields ++ (stamp request_id now step_started' last).1] := by
  induction events generalizing clock step_started with
  | nil => exact ⟨_, _, rfl⟩
  | cons event events ih =>
    obtain ⟨now, step_started', h⟩ := ih (fun n => clock (n + 1)) (stamp request_id (clock 0) step_started event).2
    exact ⟨now, step_started', by rw [List.cons_append, encode_cons, h, encode_cons, List.cons_append]⟩

theorem length_encode (request_id : String) (clock : Nat → Nat) (step_started : List (String × Nat))
    (events : List agent.Event) : (encode request_id clock step_started events).length = events.length := by
  induction events generalizing clock step_started with
  | nil => rfl
  | cons event events ih => rw [encode_cons, List.length_cons, List.length_cons, ih]

theorem isProgressFrame_encode (hevents : ∀ event ∈ events, event.progress?.isSome = true)
    {fields : List (String × Json)} (h : fields ∈ encode request_id clock step_started events) :
    isProgressFrame fields = true := by
  induction events generalizing clock step_started with
  | nil => cases h
  | cons event events ih =>
    obtain ⟨hevent, hrest⟩ := List.forall_mem_cons.mp hevents
    obtain rfl | h := List.mem_cons.mp (encode_cons event events ▸ h)
    · rw [isProgressFrame_event, hevent]
    · exact ih hrest h

theorem readEvents_progresses (hevents : ∀ event ∈ events, event.progress?.isSome = true) (result : Option Json)
    (payloads : List (Option Json)) :
    readEvents finish result
        (((encode request_id clock step_started events).map fun fields => some (.obj fields)) ++ payloads) =
      { chunks := (encode request_id clock step_started events).map .obj ++ (readEvents finish result payloads).chunks
        outcome := (readEvents finish result payloads).outcome } := by
  induction events generalizing clock step_started with
  | nil => rfl
  | cons event events ih =>
    obtain ⟨hevent, hrest⟩ := List.forall_mem_cons.mp hevents
    rw [encode_cons, List.map_cons, List.cons_append, readEvents_event]
    rcases event with (⟨step, status⟩ | ⟨data, sql, row_limit⟩) | message
    · rw [ih hrest]
      rfl
    · cases hevent
    · cases hevent

end Whole

namespace agent

variable {kit : Toolkit} {question : String} {acts : List Act}

/-- A run that ends well writes its result after its progresses. -/
theorem written_of_completed (hdone : (Graph.after kit question acts).outcome = some (.ok ())) :
    ∃ progresses data sql, (Graph.after kit question acts).written = progresses ++ [.result data sql query.MAX_ROWS] ∧
      ∀ event ∈ progresses.map Event.chunk, event.progress?.isSome = true := by
  obtain ⟨before, shown, sql, explained, timed, answer, hquiet, -, htrace⟩ :=
    (Graph.sound_after kit question acts).1.completed hdone
  refine ⟨Graph.written { Graph.after kit question acts with trace := before } ++
    [.progress "执行SQL" "running", .progress "执行SQL" "success"], answer.rows, shown, ?_, ?_⟩
  · rw [Graph.written, htrace, List.filterMap_append, List.filterMap_append, List.append_assoc, List.append_assoc]
    rfl
  · intro event hevent
    obtain ⟨chunk, hchunk, rfl⟩ := List.mem_map.mp hevent
    obtain hchunk | hchunk := List.mem_append.mp hchunk
    · obtain ⟨entry, hentry, heq⟩ := List.mem_filterMap.mp hchunk
      have hentry := hquiet entry hentry
      rcases entry with (⟨step, status⟩ | ⟨data, sql, row_limit⟩) | request | ⟨request, answer⟩
      · cases heq
        rfl
      · exact hentry.elim
      · cases heq
      · cases heq
    · simp only [List.mem_cons, List.not_mem_nil, or_false] at hchunk
      obtain rfl | rfl := hchunk <;> rfl

/-- The tree of `SELECT order_id FROM fact_order`. -/
def ordersTree : query.Tree :=
  .mk .Select false [] [.mk .other false [] [], .mk .other false [] [.mk (.Table "" "" "fact_order") false [] []]]

/-- A toolkit that knows one statement, and the same with a limit. -/
def ordersKit : Toolkit where
  py := .ascii
  parse sql :=
    if sql = "SELECT order_id FROM fact_order" then some [some ordersTree]
    else if sql = "SELECT order_id FROM fact_order LIMIT 500" then some [some (ordersTree.limit 500)]
    else none
  sql _ := "SELECT order_id FROM fact_order LIMIT 500"
  validate_relations _ := .ok ()
  validate_metrics _ _ := .ok ()
  validate_period _ _ := .ok ()

/-- Some nodes take some steps in turn. -/
def turns (nodes steps : Nat) : List Act :=
  (List.replicate steps (List.range nodes)).flatten.map fun n => .go n (.ok { text := "", rows := [] })

/-- The acts of a run without a correction. -/
def ordersActs : List Act :=
  List.flatten
    [turns 1 3, [.advance], turns 3 3, [.advance], turns 1 3, [.advance], turns 2 3, [.advance], turns 1 4, [.advance],
      turns 1 1, [.go 0 (.ok { text := "SELECT order_id FROM fact_order", rows := [] })], turns 1 1, [.advance],
      turns 1 4, [.advance], turns 1 6, [.go 0 (.ok { text := "", rows := [[("order_id", .str "1001")]] })],
      turns 1 2, [.advance]]

end agent

end incidentdesk
