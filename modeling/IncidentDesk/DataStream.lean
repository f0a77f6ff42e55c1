import IncidentDesk.JsonCut
import IncidentDesk.DataQueries
import IncidentDesk.Text
import IncidentDesk.Query.Warehouse

namespace incidentdesk

/-- With the characters beyond ASCII as they are, as `ensure_ascii=False` writes. -/
def Json.Format.unescaped : Json.Format := { ascii := false, comma := [',', ' '], colon := [':', ' '] }

namespace agent

def Cell.toJson : Cell → Json
  | .null => .null
  | .num value => .num value
  | .str value => .str value

/-- `dict(row)`. -/
def Record.toJson (row : Record) : Json := .obj (Json.dict (row.map fun column => (column.1, column.2.toJson)))

/-- What the service streams: the chunks of a run, and the error that ends it. -/
inductive Event where
  | chunk (chunk : Chunk)
  | error (message : String)

/-- `dict(chunk)`. -/
def Event.fields : Event → List (String × Json)
  | .chunk (.progress step status) => [("type", .str "progress"), ("step", .str step), ("status", .str status)]
  | .chunk (.result data sql row_limit) =>
    [("type", .str "result"), ("data", .arr (data.map Record.toJson)), ("sql", .str sql), ("row_limit", .num row_limit)]
  | .error message => [("type", .str "error"), ("message", .str message)]

/-- The step that an event is a progress of, and its status. -/
def Event.progress? : Event → Option (String × String)
  | .chunk (.progress step status) => some (step, status)
  | _ => none

/-- What `encode` adds to an event at a time, and the times of the steps that are under
way after it. Times are in milliseconds since the query began. -/
def stamp (request_id : String) (now : Nat) (step_started : List (String × Nat)) (event : Event) :
    List (String × Json) × List (String × Nat) :=
  let common := [("request_id", .str request_id), ("elapsed_ms", .num now)]
  match event.progress? with
  | none => (common, step_started)
  | some (step, status) =>
    let others := step_started.filter fun entry => entry.1 ≠ step
    if status = "running" then (common, (step, now) :: others)
    else match step_started.lookup step with
      | none => (common, step_started)
      | some began => (common ++ [("duration_ms", .num (now - began : Nat))], others)

/-- The events as they are encoded, the first of them at the first of the times of
`clock`. -/
def encode (request_id : String) (clock : Nat → Nat) : List (String × Nat) → List Event → List (List (String × Json))
  | _, [] => []
  | step_started, event :: events =>
    let stamped := stamp request_id (clock 0) step_started event
    (event.fields ++ stamped.1) :: encode request_id (fun n => clock (n + 1)) stamped.2 events

/-- The events of a run that come to the stream: all chunks of one that ends well, some
of the chunks and the error of one that fails, and some of the chunks of one that is
not at its end. -/
def Graph.served (graph : Graph) (n : Nat) : List Event :=
  match graph.outcome with
  | some (.ok ()) => graph.written.map .chunk
  | some (.error e) => (graph.written.take n).map .chunk ++ [.error e]
  | none => (graph.written.take n).map .chunk

end agent

/-- `data: {json}\n\n`. -/
def sseFrame (fields : List (String × Json)) : List Char :=
  "data: ".toList ++ ((Json.obj fields).chars .unescaped ++ ['\n', '\n'])

/-- The bytes of a character that is cut, as they are decoded. -/
def stray (k : Nat) : List Char := List.replicate k '\ufffd'

/-- The first bytes of a text. -/
def firstBytes : Nat → List Char → List Char
  | _, [] => []
  | n, c :: text => if c.utf8Size ≤ n then c :: firstBytes (n - c.utf8Size) text else stray n

/-- The bytes of a text. -/
def byteCount (text : List Char) : Nat := (text.map Char.utf8Size).sum

def dropCR (line : List Char) : List Char := if line.getLast? = some '\r' then line.dropLast else line

/-- The lines that a scanner finds, where a text after the last newline is a line. -/
def scanLines (text : List Char) : List (List Char) :=
  let pieces := text.splitOn '\n'
  pieces.dropLast ++ pieces.getLast?.toList.filter (· ≠ [])

/-- `scanner.Buffer(make([]byte, 4096), 2<<20)`: a line that does not fit ends the scan. -/
def scannable (line : List Char) : Bool := byteCount line < 2 * 2 ^ 20

/-- An event as it is decoded. -/
structure StreamEvent where
  type : String
  message : String
  data : List Json
  sql : String

/-- A field that is a string, empty where it is absent or null. -/
def stringField (document : Json) (key : String) : Option String :=
  match document.get? key with
  | none | some .null => some ""
  | some (.str value) => some value
  | _ => none

/-- A field that is a list of objects. -/
def rowsField (document : Json) (key : String) : Option (List Json) :=
  match document.get? key with
  | none | some .null => some []
  | some (.arr items) =>
    if items.all fun item => match item with | .obj _ | .null => true | _ => false then some items else none
  | _ => none

/-- `json.Unmarshal(payload, &event)`, on the document that the payload is. -/
def decodeEvent (document : Json) : Option StreamEvent :=
  match document with
  | .obj _ | .null => do
    return { type := ← stringField document "type", message := ← stringField document "message"
             data := ← rowsField document "data", sql := ← stringField document "sql" }
  | _ => none

/-- The loop over the payloads, each of them with the document that it is, if it is
one. It comes to `finish` when there are no more. -/
def readEvents (finish : Option Json → Except String Json) : Option Json → List (Option Json) → QueryStream
  | result, [] => { chunks := [], outcome := finish result }
  | result, payload :: payloads =>
    match payload.bind fun document => (decodeEvent document).map (document, ·) with
    | none => { chunks := [], outcome := .error "查询结果格式无效" }
    | some (document, event) =>
      if event.type = "progress" then
        let rest := readEvents finish result payloads
        { rest with chunks := document :: rest.chunks }
      else if event.type = "error" then { chunks := [], outcome := .error event.message }
      else if event.type = "result" then
        if event.data.length > 500 ∨ event.sql = "" then
          { chunks := [], outcome := .error "查询结果超过限制或缺少 SQL" }
        else readEvents finish (some document) payloads
      else { chunks := [], outcome := .error "未知查询事件" }

/-- The payload of a line that has one. -/
def payload? (line : List Char) : Option (Option Json) :=
  let line := dropCR line
  if "data:".toList.isPrefixOf line then some (Json.loads (TrimSpace (String.ofList (line.drop 5))).toList) else none

/-- The end of a stream that has been read. -/
def endOfStream (result : Option Json) : Except String Json :=
  match result with
  | some result => .ok result
  | none => .error "问数服务未返回结果。"

/-- The end of a stream that could not be read further. -/
def brokenStream (_ : Option Json) : Except String Json := .error "查询流中断，请重新提问。"

/-- What the service answers: nothing, another status, or a text, of which some bytes
arrive before the connection ends, or breaks. -/
inductive QueryReply where
  | unavailable
  | status (code : Nat)
  | body (text : List Char) (arrived : Nat) (broken : Bool)

/-- `readQueryStream`, for all that its answers to `onProgress` have to do with it. -/
def readQueryStream : QueryReply → QueryStream
  | .unavailable => { chunks := [], outcome := .error "问数服务暂时不可用，请稍后重试。" }
  | .status code => { chunks := [], outcome := .error s!"问数服务返回错误 ({code})" }
  | .body text arrived broken =>
    let lines := scanLines (firstBytes (min arrived (8 * 2 ^ 20)) text)
    let finish :=
      if lines.all scannable && !(broken && arrived < 8 * 2 ^ 20) then endOfStream else brokenStream
    readEvents finish none ((lines.takeWhile scannable).filterMap payload?)

section Cut

variable {n k : Nat} {text back more : List Char}

/-- A character that is cut has more than one byte. -/
def Split (k : Nat) (back : List Char) : Prop := k ≠ 0 → ∃ c more, back = c :: more ∧ 1 < c.utf8Size

theorem Split.eq_zero {c : Char} (h : Split k (c :: more)) (hc : c.utf8Size = 1) : k = 0 := by
  by_contra hk
  obtain ⟨d, more', heq, hd⟩ := h hk
  obtain rfl := (List.cons.inj heq).1
  omega

theorem Split.append (h : Split k (back ++ more)) (hback : back ≠ []) : Split k back := by
  obtain ⟨c, back, rfl⟩ := List.exists_cons_of_ne_nil hback
  rintro hk
  obtain ⟨d, more', heq, hd⟩ := h hk
  obtain rfl := (List.cons.inj heq).1
  exact ⟨c, back, rfl, hd⟩

/-- What is left of a text that is cut. -/
theorem firstBytes_split (n : Nat) (text : List Char) :
    ∃ front back k, text = front ++ back ∧ firstBytes n text = front ++ stray k ∧ Split k back := by
  induction text generalizing n with
  | nil => exact ⟨[], [], 0, rfl, by rw [firstBytes]; rfl, fun h => (h rfl).elim⟩
  | cons c text ih =>
    by_cases hfits : c.utf8Size ≤ n
    · obtain ⟨front, back, k, htext, hcut, hk⟩ := ih (n - c.utf8Size)
      exact ⟨c :: front, back, k, by rw [htext]; rfl, by rw [firstBytes, if_pos hfits, hcut]; rfl, hk⟩
    · refine ⟨[], c :: text, n, rfl, by rw [firstBytes, if_neg hfits]; rfl, fun hn => ⟨c, text, rfl, ?_⟩⟩
      omega

theorem firstBytes_of_le (h : byteCount text ≤ n) : firstBytes n text = text := by
  induction text generalizing n with
  | nil => rw [firstBytes]
  | cons c text ih =>
    simp only [byteCount, List.map_cons, List.sum_cons] at h
    rw [firstBytes, if_pos (by omega), ih (by rw [byteCount]; omega)]

end Cut

/-- The line of an event. -/
def eventLine (fields : List (String × Json)) : List Char := "data: ".toList ++ (Json.obj fields).chars .unescaped

theorem sseFrame_eq (fields : List (String × Json)) : sseFrame fields = eventLine fields ++ ['\n', '\n'] :=
  (List.append_assoc _ _ _).symm

theorem unescaped_proper : Json.Format.unescaped.Proper where
  comma := ⟨[' '], rfl, List.forall_mem_singleton.mpr rfl⟩
  colon := ⟨[' '], rfl, List.forall_mem_singleton.mpr rfl⟩

theorem visible_eventLine (fields : List (String × Json)) : Json.Visible (eventLine fields) := by
  refine Json.visible_append.mpr ⟨?_, Json.visible_chars ⟨?_, ?_⟩ _⟩
  · exact (show Json.Plain "data: ".toList by decide).visible
  · exact (show Json.Plain [',', ' '] by decide).visible
  · exact (show Json.Plain [':', ' '] by decide).visible

section Lines

theorem newline_not_mem {line : List Char} (h : Json.Visible line) : '\n' ∉ line := fun hmem => by
  have hbound := h _ hmem
  contradiction

theorem dropCR_of_visible {line : List Char} (h : Json.Visible line) : dropCR line = line := by
  unfold dropCR
  split
  · rename_i hlast
    have hbound := h _ (List.mem_of_getLast? hlast)
    contradiction
  · rfl

/-- The first line of a text, and the others. -/
theorem scanLines_cons {line : List Char} (h : Json.Visible line) (text : List Char) :
    scanLines (line ++ '\n' :: text) = line :: scanLines text := by
  have hne := List.splitOn_ne_nil '\n' text
  simp only [scanLines]
  rw [List.splitOn_append_cons_self_of_not_mem (newline_not_mem h), List.dropLast_cons_of_ne_nil hne,
    List.getLast?_cons_of_ne_nil hne, List.cons_append]

theorem scanLines_last {line : List Char} (h : Json.Visible line) (hne : line ≠ []) : scanLines line = [line] := by
  simp only [scanLines]
  rw [List.splitOn_eq_singleton (newline_not_mem h)]
  simp [hne]

theorem scanLines_nil : scanLines [] = [] := by
  simp [scanLines, List.splitOn_nil]

theorem scanLines_sseFrame (fields : List (String × Json)) (text : List Char) :
    scanLines (sseFrame fields ++ text) = eventLine fields :: [] :: scanLines text := by
  have hline : sseFrame fields ++ text = eventLine fields ++ '\n' :: ([] ++ '\n' :: text) := by
    rw [sseFrame_eq, List.append_assoc]
    rfl
  rw [hline, scanLines_cons (visible_eventLine fields), scanLines_cons (List.forall_mem_nil _)]

end Lines

section Payloads

variable {fields : List (String × Json)}

/-- The beginning of a line of an event. -/
def dataSpace : List Char := ['d', 'a', 't', 'a', ':', ' ']

theorem eventLine_eq (fields : List (String × Json)) :
    eventLine fields = dataSpace ++ (Json.obj fields).chars .unescaped :=
  rfl

theorem payload?_of_data {text : List Char} (h : Json.Visible text) :
    payload? (dataSpace ++ text) = some (Json.loads (text.dropWhile isSpace |>.rdropWhile isSpace)) := by
  have hline : Json.Visible (dataSpace ++ text) := Json.visible_append.mpr ⟨(show Json.Plain dataSpace by decide).visible, h⟩
  have htrim : (TrimSpace (String.ofList (' ' :: text))).toList = (text.dropWhile isSpace).rdropWhile isSpace := by
    rw [trimSpace_toList, String.toList_ofList, List.dropWhile_cons_of_pos rfl]
  unfold payload?
  simp only [dropCR_of_visible hline]
  exact congrArg (fun chars => some (Json.loads chars)) htrim

theorem rdropWhile_of_last {text : List Char} {c : Char} (hc : isSpace c = false) :
    (text ++ [c]).rdropWhile isSpace = text ++ [c] := by
  rw [List.rdropWhile_concat_neg _ _ _ (by rw [hc]; decide)]

theorem visible_obj (fields : List (String × Json)) : Json.Visible ((Json.obj fields).chars .unescaped) :=
  (Json.visible_append.mp (eventLine_eq fields ▸ visible_eventLine fields)).2

/-- An event is read back from its line. -/
theorem payload?_eventLine (h : (Json.obj fields).Distinct) : payload? (eventLine fields) = some (some (.obj fields)) := by
  obtain ⟨body, hbody⟩ : ∃ body, (Json.obj fields).chars .unescaped = '{' :: (body ++ ['}']) := ⟨_, by rw [Json.chars]⟩
  have htrim : ((Json.obj fields).chars .unescaped |>.dropWhile isSpace).rdropWhile isSpace =
      (Json.obj fields).chars .unescaped := by
    rw [hbody, List.dropWhile_cons_of_neg (by decide), ← List.cons_append, rdropWhile_of_last rfl]
  rw [eventLine_eq, payload?_of_data (visible_obj fields), htrim, Json.loads_chars unescaped_proper h]

theorem payload?_data_take : ∀ i < 7, (payload? (dataSpace.take i)).join.isNone = true := by decide

theorem visible_stray (k : Nat) : Json.Visible (stray k) := fun c hc => by
  rw [List.eq_of_mem_replicate hc]
  decide

/-- What is left of an object is no document, with the bytes of a character that is cut
behind it. -/
theorem loads_part (h : (Json.obj fields).Distinct) {rest back : List Char}
    (hrest : (Json.obj fields).chars .unescaped = rest ++ back) (hback : back ≠ []) {k : Nat} (hk : Split k back) :
    Json.loads ((rest ++ stray k).dropWhile isSpace |>.rdropWhile isSpace) = none := by
  obtain ⟨more, hbrace⟩ := Json.chars_obj .unescaped fields
  cases rest with
  | nil =>
    obtain rfl : k = 0 := by
      rw [List.nil_append] at hrest
      rw [← hrest, hbrace] at hk
      exact hk.eq_zero rfl
    rfl
  | cons c rest =>
    obtain rfl : c = '{' := (List.cons.inj (hrest.symm.trans hbrace)).1
    rw [List.cons_append, List.dropWhile_cons_of_neg (by decide), ← List.cons_append]
    cases k with
    | zero =>
      obtain ⟨spaces, hsplit⟩ := List.rdropWhile_prefix isSpace ('{' :: rest)
      have hcut : (Json.obj fields).chars .unescaped = ('{' :: rest).rdropWhile isSpace ++ (spaces ++ back) := by
        rw [← List.append_assoc, hsplit, hrest]
      have hdrop : ('{' :: rest ++ stray 0).rdropWhile isSpace = ('{' :: rest).rdropWhile isSpace ++ [] := by
        rw [stray, List.replicate_zero, List.append_nil, List.append_nil]
      rw [hdrop]
      exact Json.loads_cut unescaped_proper h hcut (List.append_ne_nil_of_right_ne_nil _ hback)
        (List.forall_mem_nil _) fun _ => rfl
    | succ k =>
      have hdrop : ('{' :: rest ++ stray (k + 1)).rdropWhile isSpace = '{' :: rest ++ stray (k + 1) := by
        rw [stray, List.replicate_succ', ← List.append_assoc, rdropWhile_of_last (by decide)]
      rw [hdrop]
      refine Json.loads_cut unescaped_proper h hrest hback (fun c hc => ?_) fun hnil => (List.cons_ne_nil _ _ hnil).elim
      rw [List.eq_of_mem_replicate hc]
      decide

/-- What is left of the line of an event is no event. -/
theorem payload?_part (h : (Json.obj fields).Distinct) {part back : List Char} (hpart : eventLine fields = part ++ back)
    (hback : back ≠ []) {k : Nat} (hk : Split k back) : (payload? (part ++ stray k)).join = none := by
  rw [eventLine_eq] at hpart
  obtain ⟨rest, rfl, hrest⟩ | ⟨rest, hdata, rfl⟩ := List.append_eq_append_iff.mp hpart
  · have hvisible : Json.Visible (rest ++ stray k) := by
      have hobj := visible_obj fields
      rw [hrest] at hobj
      exact Json.visible_append.mpr ⟨(Json.visible_append.mp hobj).1, visible_stray k⟩
    rw [List.append_assoc, payload?_of_data hvisible, loads_part h hrest hback hk]
    rfl
  · obtain ⟨more, hbrace⟩ := Json.chars_obj .unescaped fields
    have htake : part = dataSpace.take part.length := by rw [hdata, List.take_left]
    have hlength : part.length ≤ 6 := by
      have hlength := congrArg List.length hdata
      rw [List.length_append, dataSpace] at hlength
      simp only [List.length_cons, List.length_nil] at hlength
      omega
    obtain rfl : k = 0 := by
      cases rest with
      | nil =>
        rw [hbrace] at hk
        exact hk.eq_zero rfl
      | cons c rest =>
        have hall : dataSpace.all (fun c => c.utf8Size == 1) = true := rfl
        have hc : c ∈ dataSpace := hdata ▸ List.mem_append_right _ List.mem_cons_self
        exact hk.eq_zero (beq_iff_eq.mp (List.all_eq_true.mp hall c hc))
    have hnone := payload?_data_take part.length (by omega)
    rw [← htake] at hnone
    rw [stray, List.replicate_zero, List.append_nil]
    exact Option.isNone_iff_eq_none.mp hnone

end Payloads

/-- What is read of some events that are sent: the first of them, and then nothing or
something that is no event. -/
inductive Received : List (List (String × Json)) → List (Option Json) → Prop where
  | stopped (frames : List (List (String × Json))) : Received frames []
  | torn (frames : List (List (String × Json))) : Received frames [none]
  | next (fields : List (String × Json)) (frames : List (List (String × Json))) (payloads : List (Option Json))
      (h : Received frames payloads) : Received (fields :: frames) (some (.obj fields) :: payloads)

section Received

variable {fields : List (String × Json)} {frames : List (List (String × Json))} {lines : List (List Char)}

theorem payload?_nil : payload? [] = none := rfl

theorem received_line {line : List Char} (h : (payload? line).join = none) (hlines : lines <+: [line]) :
    Received frames (lines.filterMap payload?) := by
  obtain rfl | ⟨lines, rfl, hmore⟩ := List.prefix_cons_iff.mp hlines
  · exact .stopped frames
  · rw [List.prefix_nil.mp hmore]
    cases hpayload : payload? line with
    | none =>
      rw [List.filterMap_cons_none hpayload]
      exact .stopped frames
    | some payload =>
      rw [hpayload, Option.join_some] at h
      rw [List.filterMap_cons_some hpayload, h]
      exact .torn frames

theorem received_event (h : (Json.obj fields).Distinct) (hlines : lines <+: [eventLine fields]) :
    Received (fields :: frames) (lines.filterMap payload?) := by
  obtain rfl | ⟨lines, rfl, hmore⟩ := List.prefix_cons_iff.mp hlines
  · exact .stopped _
  · rw [List.prefix_nil.mp hmore, List.filterMap_cons_some (payload?_eventLine h)]
    exact .next _ _ _ (.stopped frames)

/-- An event that has come as a whole, and what is read after it. -/
theorem received_cons (h : (Json.obj fields).Distinct) {text : List Char}
    (htext : ∀ lines, lines <+: scanLines text → Received frames (lines.filterMap payload?))
    (hlines : lines <+: scanLines (sseFrame fields ++ text)) : Received (fields :: frames) (lines.filterMap payload?) := by
  rw [scanLines_sseFrame] at hlines
  obtain rfl | ⟨lines, rfl, hmore⟩ := List.prefix_cons_iff.mp hlines
  · exact .stopped _
  rw [List.filterMap_cons_some (payload?_eventLine h)]
  refine .next _ _ _ ?_
  obtain rfl | ⟨lines, rfl, hrest⟩ := List.prefix_cons_iff.mp hmore
  · exact .stopped _
  · rw [List.filterMap_cons_none payload?_nil]
    exact htext lines hrest

/-- Where the first of two texts ends, seen from a cut of both. -/
theorem append_split {text more front back : List Char} (h : text ++ more = front ++ back) :
    (∃ rest, front = text ++ rest ∧ more = rest ++ back) ∨ ∃ rest ≠ [], text = front ++ rest ∧ back = rest ++ more := by
  obtain hfront | ⟨rest, htext, hback⟩ := List.append_eq_append_iff.mp h
  · exact .inl hfront
  · by_cases hrest : rest = []
    · subst hrest
      exact .inl ⟨[], by rw [htext, List.append_nil, List.append_nil], hback.symm⟩
    · exact .inr ⟨rest, hrest, htext, hback⟩

/-- A part of an event, whose end is not there. -/
theorem received_part (h : (Json.obj fields).Distinct) {part back : List Char} (hpart : sseFrame fields = part ++ back)
    (hback : back ≠ []) {k : Nat} (hk : Split k back) (hlines : lines <+: scanLines (part ++ stray k)) :
    Received (fields :: frames) (lines.filterMap payload?) := by
  have hvisible := visible_eventLine fields
  rw [sseFrame_eq] at hpart
  obtain ⟨newline, rfl, hnewline⟩ | ⟨rest, hrest, hline, rfl⟩ := append_split hpart
  · obtain ⟨c, back, rfl⟩ := List.exists_cons_of_ne_nil hback
    obtain rfl : c = '\n' := by
      have hc : c ∈ ['\n', '\n'] := hnewline ▸ List.mem_append_right _ List.mem_cons_self
      simpa using hc
    obtain rfl := hk.eq_zero rfl
    have hscan : scanLines (eventLine fields ++ newline ++ stray 0) = [eventLine fields] := by
      rw [stray, List.replicate_zero, List.append_nil]
      cases newline with
      | nil => rw [List.append_nil, scanLines_last hvisible (List.cons_ne_nil _ _)]
      | cons d newline =>
        obtain ⟨rfl, hnewline⟩ := List.cons.inj hnewline
        have hlength := congrArg List.length hnewline
        simp only [List.length_append, List.length_cons, List.length_nil] at hlength
        obtain rfl : newline = [] := List.length_eq_zero_iff.mp (by omega)
        rw [scanLines_cons hvisible, scanLines_nil]
    rw [hscan] at hlines
    exact received_event h hlines
  · have hnone := payload?_part h hline hrest (hk.append hrest)
    have hpart : Json.Visible (part ++ stray k) := by
      rw [hline] at hvisible
      exact Json.visible_append.mpr ⟨(Json.visible_append.mp hvisible).1, visible_stray k⟩
    by_cases hnil : part ++ stray k = []
    · rw [hnil, scanLines_nil, List.prefix_nil] at hlines
      rw [hlines]
      exact .stopped _
    · rw [scanLines_last hpart hnil] at hlines
      exact received_line hnone hlines

/-- What is read of a part of a stream of events. -/
theorem received_cut (h : ∀ fields ∈ frames, (Json.obj fields).Distinct) {front back : List Char}
    (hsplit : frames.flatMap sseFrame = front ++ back) {k : Nat} (hk : Split k back)
    (hlines : lines <+: scanLines (front ++ stray k)) : Received frames (lines.filterMap payload?) := by
  induction frames generalizing front lines with
  | nil =>
    obtain ⟨rfl, rfl⟩ := List.append_eq_nil_iff.mp hsplit.symm
    obtain rfl : k = 0 := by
      by_contra hne
      obtain ⟨c, more, hnil, -⟩ := hk hne
      cases hnil
    rw [stray, List.replicate_zero, List.append_nil, scanLines_nil, List.prefix_nil] at hlines
    rw [hlines]
    exact .stopped _
  | cons fields frames ih =>
    obtain ⟨hfields, hframes⟩ := List.forall_mem_cons.mp h
    rw [List.flatMap_cons] at hsplit
    obtain ⟨front, rfl, hfront⟩ | ⟨rest, hrest, hframe, rfl⟩ := append_split hsplit
    · rw [List.append_assoc] at hlines
      exact received_cons hfields (fun lines hlines => ih hframes hfront hlines) hlines
    · exact received_part hfields hframe hrest (hk.append hrest) hlines

end Received

end incidentdesk
