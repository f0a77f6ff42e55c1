import IncidentDesk.Effects.Workbench

namespace incidentdesk

open Workbench (Answer)

/-- What `executeUnified` writes for a decision that needs no tool. -/
def queryDecision.reply (d : queryDecision) : Workbench.Answer :=
  { code := 200, fields := [("status", d.Kind), ("answer", d.Answer), ("clarification", d.Clarification)] }

/-- The reply that names a data query. -/
def warehouseReply (id question : String) : Answer :=
  { code := 202, fields := [("id", id), ("kind", "warehouse"), ("question", question)] }

/-- The reply of `createTask`, and of `natural` for an investigation that is there. -/
def acceptedReply (id : String) : Answer :=
  { code := 202, fields := [("id", id), ("status", "accepted"), ("kind", "investigation")] }

/-- The reply of `natural` to somebody without services. -/
def noServicesReply : Answer :=
  { code := 200, fields := [("status", "clarification"), ("clarification", "当前账号没有可查询的服务。")] }

/-- The reply of `natural` when the planner asks back, in the planner's own words. -/
def plannerReply (clarification mode : String) : Answer :=
  { code := 200, fields := [("status", "clarification"), ("clarification", clarification), ("mode", mode)] }

/-- What `executeUnified` can return under a decision. What it says itself and
the questions it passes on are checked; what the planner says is not. -/
inductive Returned (d : queryDecision) : Answer → Prop
  | reply (hvalid : d.valid = true) (hkind : d.Kind = "answer" ∨ d.Kind = "clarification") : Returned d d.reply
  | warehouse (id question : String) (hvalid : validContent question = true) : Returned d (warehouseReply id question)
  | accepted (id : String) (hvalid : d.valid = true) (hkind : d.Kind = "investigation") :
      Returned d (acceptedReply id)
  | noServices : Returned d noServicesReply
  | planner (clarification mode : String) : Returned d (plannerReply clarification mode)

section Response

variable {d : queryDecision} {id k : String} {t : savedTurn} {fields : List (String × String)} {answer : Answer}

/-- What `postConversationTurn` adds to a reply. -/
abbrev responseKeys : List String := ["revision", "turn_id", "conversation_id", "reset_context", "question"]

theorem str_turnResponse (hk : k ∉ responseKeys) :
    str (turnResponse d id t fields) k = str (.obj (fields.map fun field => (field.1, .str field.2))) k := by
  simp only [responseKeys, List.mem_cons, List.not_mem_nil, or_false, not_or] at hk
  obtain ⟨hrevision, hturn, hconversation, hreset, hquestion⟩ := hk
  rw [turnResponse, str_set_ne (Ne.symm hrevision), str_set_ne (Ne.symm hturn), str_set_ne (Ne.symm hconversation)]
  split <;> split <;> simp only [str_set_ne (Ne.symm hreset), str_set_ne (Ne.symm hquestion)]

theorem question_turnResponse : str (turnResponse d id t fields) "question" =
    let reply := Json.obj (fields.map fun field => (field.1, .str field.2))
    if str reply "kind" = "investigation" then d.Question else str reply "question" := by
  rw [turnResponse, str_set_ne (by simp), str_set_ne (by simp), str_set_ne (by simp)]
  by_cases hkind : str (.obj (fields.map fun field => (field.1, .str field.2))) "kind" = "investigation" <;>
    cases d.ResetContext <;> simp [hkind, str_set_ne, str_set_self]

/-- The decision says whether a turn resets the context. -/
theorem resets_turnResponse : resets (turnResponse d id t fields) = d.ResetContext := by
  have hset (key : String) (hkey : key ≠ "reset_context") (v document : Json) :
      resets (Json.set key v document) = resets document := by
    rw [resets, get?_set_ne hkey, resets]
  have hreply (fields : List (String × String)) :
      resets (.obj (fields.map fun field => (field.1, .str field.2))) = false := by
    rw [resets, Json.get?, List.find?_map]
    cases fields.find? _ <;> rfl
  rw [turnResponse, hset _ (by simp), hset _ (by simp), hset _ (by simp)]
  cases d.ResetContext with
  | false =>
    simp only [Bool.false_eq_true, if_false]
    split
    · rw [hset _ (by simp), hreply]
    · exact hreply fields
  | true =>
    simp only [if_true]
    split <;> simp only [Json.set, resets, Json.get?] <;> rfl

/-- The question of a task that is made has been checked. -/
theorem Returned.question (h : Returned d answer) : isTask (turnResponse d id t answer.fields) = true →
    validContent (str (turnResponse d id t answer.fields) "question") = true := by
  rw [question_turnResponse, isTask, str_turnResponse (by simp)]
  cases h with
  | reply | noServices | planner => simp [queryDecision.reply, noServicesReply, plannerReply, str, Json.get?]
  | warehouse id question hvalid => simpa [warehouseReply, str, Json.get?, Json.string?] using hvalid
  | accepted id hvalid hkind =>
    obtain ⟨content, hcontent, hvalid⟩ := queryDecision.valid_iff.mp hvalid
    obtain rfl : d.Question = content := by simpa [queryDecision.content, hkind] using hcontent
    simpa [acceptedReply, str, Json.get?, Json.string?] using hvalid

end Response

/-- What ends an attempt is something that `executeUnified` can return. -/
def Workbench.Op.Returns : Workbench.Op → Prop
  | .complete _ _ answer decision => Returned decision answer
  | _ => True

/-- A question that is stored with a task has been checked. -/
theorem Workbench.Records.question {w : Workbench} {op : Workbench.Op} {row : Turn} {s : Stored}
    (h : w.Records op row s) (hop : op.Returns) (htask : isTask s.response = true) :
    validContent (str s.response "question") = true := by
  obtain ⟨now, n, answer, decision, t, rfl, -, -, hresponse, -⟩ := h
  rw [hresponse] at htask ⊢
  exact Returned.question hop htask

end incidentdesk
