import IncidentDesk.Seed
import IncidentDesk.Text

namespace incidentdesk

structure naturalInput where
  Text : String
  Timezone : String

/-- What the router returns. A field that its reply leaves out keeps the value
that the decision has. -/
structure RouteReply where
  ResetContext : Option Bool := none
  Kind : Option String := none
  Clarification : Option String := none
  Answer : Option String := none
  Question : Option String := none

/-- Decoding a reply of the router into a decision. -/
def RouteReply.decode (reply : RouteReply) (d : queryDecision) : queryDecision :=
  { ResetContext := reply.ResetContext.getD d.ResetContext, Kind := reply.Kind.getD d.Kind
    Clarification := reply.Clarification.getD d.Clarification, Answer := reply.Answer.getD d.Answer
    Question := reply.Question.getD d.Question }

/-- The text that `executeUnified` hashes; `queryAnchor` is not part of it. -/
def UnifiedInput.marshal (b : UnifiedInput) : Json :=
  let turn (t : ConversationTurn) : Json := .obj [("role", .str t.Role), ("content", .str t.Content)]
  .obj ([("text", .str b.Text), ("timezone", .str b.Timezone), ("mode", .str b.Mode)] ++
    if b.History = [] then [] else [("history", .arr (b.History.map turn))])

/-- The checks of `executeUnified` before its first statement, and the request
with its defaults. -/
def UnifiedInput.normalize (a : App) (b : UnifiedInput) (key : String) : Except Error UnifiedInput := do
  let b := { b with Text := TrimSpace b.Text }
  b.validateConversation
  idemKey key
  let b := { b with Timezone := if b.Timezone = "" then "UTC" else b.Timezone }
  if ¬ a.LoadLocation b.Timezone then
    throw (E 400 "invalid_timezone")
  let b := { b with Mode := if b.Mode = "" then "auto" else b.Mode }
  if b.Mode ≠ "auto" ∧ b.Mode ≠ "warehouse" ∧ b.Mode ≠ "investigation" then
    throw (E 400 "invalid_query_mode")
  return b

/-- The decision before routing. A request of an older version keeps its route,
and a key that has an investigation stays with it. -/
def UnifiedInput.preset (b : UnifiedInput) (reservedKind : Option String) (hasInvestigation : Bool) :
    queryDecision :=
  { ResetContext := false, Kind := if hasInvestigation then "investigation" else reservedKind.getD b.Mode
    Clarification := "", Answer := "", Question := b.Text }

/-- Whether the router is unaided. -/
def UnifiedInput.asks (b : UnifiedInput) (d : queryDecision) : Bool := d.Kind = "auto" || b.History ≠ []

def switchTool : queryDecision :=
  { ResetContext := false, Kind := "clarification"
    Clarification := "这个问题需要另一种查询方式，请切换为自动识别后重新提问。", Answer := "", Question := "" }

def queryDecision.isTool (d : queryDecision) : Bool := d.Kind = "warehouse" || d.Kind = "investigation"

/-- A user who has chosen a tool is not moved to the other one. -/
def UnifiedInput.restrict (b : UnifiedInput) (d : queryDecision) : queryDecision :=
  if b.Mode ≠ "auto" ∧ d.isTool ∧ d.Kind ≠ b.Mode then switchTool else d

/-- The decision that `executeUnified` offers to store. A question that stands
alone is not rewritten. -/
def UnifiedInput.settle (b : UnifiedInput) (d : queryDecision) : Except Error queryDecision :=
  let d := b.restrict d
  if ¬ d.valid then .error (E 502 "invalid_query_route")
  else .ok (if b.History = [] ∧ d.isTool then { d with Question := b.Text } else d)

/-- The decision of a request that has none stored, under the reply that the
router gives if it is unaided. -/
def UnifiedInput.decide (b : UnifiedInput) (reservedKind : Option String) (hasInvestigation : Bool)
    (reply : RouteReply) : Except Error queryDecision :=
  let d := b.preset reservedKind hasInvestigation
  b.settle (if b.asks d then reply.decode d else d)

/-- The checks of `natural` before its first statement. -/
def naturalChecks (a : App) (b : naturalInput) (key : String) : Except Error Unit := do
  if b.Text.utf8ByteSize < 3 ∨ b.Text.utf8ByteSize > 4000 then
    throw (E 400 "invalid_question")
  if ¬ a.LoadLocation b.Timezone then
    throw (E 400 "invalid_timezone")
  idemKey key

/-- The bounds of `NaturalRequest.text`, in characters. -/
def naturalRequestText (text : String) : Bool := 3 ≤ text.length && text.length ≤ 4000

/-- A text has at least a byte for each character. -/
theorem length_le_utf8ByteSize (text : String) : text.length ≤ text.utf8ByteSize := by
  induction text using String.push_induction with
  | empty => simp
  | push text c ih =>
    have hpos := c.utf8Size_pos
    rw [String.length_push, String.utf8ByteSize_push]
    omega

/-- A task that `createTask` takes is taken with another symptom of the right length. -/
theorem createTaskChecks_symptom {a : App} {task : Create} {idem : String} {query : LogQuery}
    (h : createTaskChecks a task idem = .ok query) (symptom : String) :
    createTaskChecks a { task with Symptom := symptom } idem = .ok query ↔
      3 ≤ symptom.utf8ByteSize ∧ symptom.utf8ByteSize ≤ 4000 := by
  unfold createTaskChecks at h ⊢
  cases hquery : task.Query.validate with
  | error error => simp [hquery, bind, Except.bind] at h
  | ok query' =>
    simp only [hquery, bind, Except.bind, throw, throwThe, MonadExceptOf.throw, pure, Except.pure] at h ⊢
    grind

section Settled

variable {a : App} {b b' : UnifiedInput} {key question : String} {d d' : queryDecision}

theorem UnifiedInput.normalize_ok (h : b.normalize a key = .ok b') :
    1 ≤ b'.Text.length ∧ b'.Text.length ≤ 2000 ∧ TrimSpace b'.Text ≠ "" ∧
      a.LoadLocation b'.Timezone = true ∧ idemKey key = .ok () := by
  unfold normalize at h
  cases hvalid : ({ b with Text := TrimSpace b.Text } : UnifiedInput).validateConversation with
  | error error => simp [hvalid, bind, Except.bind] at h
  | ok =>
    cases hkey : idemKey key with
    | error error => simp [hvalid, hkey, bind, Except.bind] at h
    | ok =>
      simp only [hvalid, hkey, bind, Except.bind, throw, throwThe, MonadExceptOf.throw, pure, Except.pure] at h
      obtain ⟨hpos, hle⟩ := validateConversation_ok hvalid
      obtain ⟨htext, hzone⟩ : b'.Text = TrimSpace b.Text ∧ a.LoadLocation b'.Timezone = true := by grind
      refine ⟨htext ▸ hpos, htext ▸ hle, htext ▸ trimSpace_trimSpace_ne ?_, hzone, rfl⟩
      intro hempty
      simp [hempty] at hpos

/-- A decision that is stored passes its own check. -/
theorem UnifiedInput.settle_valid (hb : TrimSpace b.Text ≠ "" ∧ b.Text.length ≤ 2000) (h : b.settle d = .ok d') :
    d'.valid = true := by
  unfold settle at h
  generalize b.restrict d = settled at h
  dsimp only at h
  split at h
  · cases h
  · rename_i hvalid
    injection h with h
    subst h
    split
    · rename_i htool
      have hkind : settled.Kind = "warehouse" ∨ settled.Kind = "investigation" := by
        simpa [queryDecision.isTool] using htool.2
      obtain hkind | hkind := hkind <;> simp [queryDecision.valid, queryDecision.content, hkind, hb]
    · simpa using hvalid

/-- A decision of `executeUnified` is one that passes its own check. -/
theorem UnifiedInput.decide_valid (hb : b.normalize a key = .ok b') {reservedKind : Option String}
    {hasInvestigation : Bool} {reply : RouteReply} (h : b'.decide reservedKind hasInvestigation reply = .ok d) :
    d.valid = true :=
  have hb := normalize_ok hb
  settle_valid ⟨hb.2.2.1, hb.2.1⟩ h

end Settled

/-- The length checks after routing let a question pass: those of `natural`, of
the planner's request and of `createTask`. -/
structure Carried (a : App) (question timezone key : String) : Prop where
  natural : naturalChecks a { Text := question, Timezone := timezone } key = .ok ()
  request : naturalRequestText question = true
  task : ∀ {task idem query}, createTaskChecks a task idem = .ok query →
    createTaskChecks a { task with Symptom := question } idem = .ok query

theorem naturalChecks_iff {a : App} {question timezone key : String} (hzone : a.LoadLocation timezone = true)
    (hkey : idemKey key = .ok ()) :
    naturalChecks a { Text := question, Timezone := timezone } key = .ok () ↔
      3 ≤ question.utf8ByteSize ∧ question.utf8ByteSize ≤ 4000 := by
  simp only [naturalChecks, hzone, hkey, bind, Except.bind, throw, throwThe, MonadExceptOf.throw]
  grind

/-- The question of a decision for an investigation is accepted further on if
and only if it has at least three characters and at most 4000 bytes. -/
theorem routed_question_accepted (a : App) (b b' : UnifiedInput) (key : String) (reservedKind : Option String)
    (hasInvestigation : Bool) (reply : RouteReply) (d : queryDecision) (hb : b.normalize a key = .ok b')
    (hd : b'.decide reservedKind hasInvestigation reply = .ok d) (hkind : d.Kind = "investigation") :
    Carried a d.Question b'.Timezone key ↔ 3 ≤ d.Question.length ∧ d.Question.utf8ByteSize ≤ 4000 := by
  obtain ⟨-, -, -, hzone, hkey⟩ := UnifiedInput.normalize_ok hb
  obtain ⟨content, hcontent, hvalid⟩ := queryDecision.valid_iff.mp (UnifiedInput.decide_valid hb hd)
  obtain rfl : d.Question = content := by simpa [queryDecision.content, hkind] using hcontent
  have hlength := (validContent_iff.mp hvalid).2
  have hbytes := length_le_utf8ByteSize d.Question
  constructor
  · intro h
    have hnatural := (naturalChecks_iff hzone hkey).mp h.natural
    have hrequest := h.request
    simp only [naturalRequestText, Bool.and_eq_true, decide_eq_true_eq] at hrequest
    exact ⟨hrequest.1, hnatural.2⟩
  · rintro ⟨hrequest, hle⟩
    have hsize : 3 ≤ d.Question.utf8ByteSize ∧ d.Question.utf8ByteSize ≤ 4000 := by omega
    refine ⟨(naturalChecks_iff hzone hkey).mpr hsize, ?_, fun htask => (createTaskChecks_symptom htask _).mpr hsize⟩
    simp only [naturalRequestText, Bool.and_eq_true, decide_eq_true_eq]
    omega

/-- A question without history that the router takes for an investigation. -/
def unaided (text : String) : UnifiedInput := { Text := text, Timezone := "UTC", Mode := "auto" }

def investigate (text : String) : queryDecision :=
  { ResetContext := false, Kind := "investigation", Clarification := "", Answer := "", Question := text }

theorem symptom_accepted :
    (Carried deployed "订单超时" "UTC" "k" ↔ 3 ≤ "订单超时".length ∧ "订单超时".utf8ByteSize ≤ 4000) :=
  routed_question_accepted deployed (unaided " 订单超时") (unaided "订单超时") "k" none false { Kind := some "investigation" }
    (investigate "订单超时") rfl rfl rfl

/-- A question of two characters is sent on and then refused. -/
theorem symptom_refused :
    (unaided "日志").normalize deployed "k" = .ok (unaided "日志") ∧
      (unaided "日志").decide none false { Kind := some "investigation" } = .ok (investigate "日志") ∧
      (investigate "日志").Kind = "investigation" ∧ ¬ Carried deployed "日志" "UTC" "k" := by
  refine ⟨rfl, rfl, rfl, fun h => ?_⟩
  have hrequest := h.request
  revert hrequest
  decide

end incidentdesk
