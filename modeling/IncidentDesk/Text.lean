import Mathlib.Data.List.DropRight
import Mathlib.Data.List.TakeWhile
import IncidentDesk.Conversations

namespace incidentdesk

variable {s : String}

theorem trimSpace_toList (s : String) :
    (TrimSpace s).toList = (s.toList.dropWhile isSpace).rdropWhile isSpace := by
  rw [TrimSpace, String.toList_ofList, List.rdropWhile]

/-- Nothing is left of a text exactly when it is all white space. -/
theorem trimSpace_eq_empty_iff : TrimSpace s = "" ↔ ∀ c ∈ s.toList, isSpace c = true := by
  rw [← String.toList_inj, trimSpace_toList, String.toList_empty, List.rdropWhile_eq_nil_iff]
  constructor
  · intro h
    rw [← List.dropWhile_eq_nil_iff]
    by_contra hne
    have hnot := List.head_dropWhile_not isSpace hne
    rw [h _ (List.head_mem hne)] at hnot
    cases hnot
  · exact fun h c hc => h c ((List.dropWhile_sublist _).subset hc)

/-- A text that is not all white space has a character that is kept. -/
theorem trimSpace_ne_empty_iff : TrimSpace s ≠ "" ↔ ∃ c ∈ s.toList, isSpace c = false := by
  rw [ne_eq, trimSpace_eq_empty_iff]
  simp only [not_forall, Bool.not_eq_true, exists_prop]

/-- What is left is not white space again. -/
theorem trimSpace_trimSpace_ne (h : TrimSpace s ≠ "") : TrimSpace (TrimSpace s) ≠ "" := by
  have hne : (s.toList.dropWhile isSpace).rdropWhile isSpace ≠ [] := by
    rwa [ne_eq, ← String.toList_inj, trimSpace_toList, String.toList_empty] at h
  rw [trimSpace_ne_empty_iff, trimSpace_toList]
  exact ⟨_, List.getLast_mem hne, Bool.eq_false_iff.mpr (List.rdropWhile_last_not _ _ hne)⟩

theorem validContent_iff {content : String} :
    validContent content = true ↔ TrimSpace content ≠ "" ∧ content.length ≤ 2000 := by
  rw [validContent, Bool.and_eq_true, decide_eq_true_eq, decide_eq_true_eq]

theorem validContent_ne {content : String} (h : validContent content = true) : content ≠ "" := by
  rintro rfl
  simp [validContent, TrimSpace] at h

theorem queryDecision.valid_iff {d : queryDecision} :
    d.valid = true ↔ ∃ content, d.content = some content ∧ validContent content = true := by
  unfold valid
  cases d.content with
  | none => simp
  | some content => simp [validContent]

theorem validateConversation_ok {b : UnifiedInput} (h : b.validateConversation = .ok ()) :
    1 ≤ b.Text.length ∧ b.Text.length ≤ 2000 := by
  unfold UnifiedInput.validateConversation at h
  split at h
  · cases h
  · omega

/-- The text of a turn has been checked. -/
theorem normalizeConversationInput_text {a : App} {b b' : ConversationInput}
    (h : normalizeConversationInput a b = .ok b') : validContent b'.Text = true := by
  unfold normalizeConversationInput at h
  cases hvalid : UnifiedInput.validateConversation { Text := TrimSpace b.Text } with
  | error error =>
    simp only [hvalid, bind, Except.bind, throw, throwThe, MonadExceptOf.throw] at h
    grind
  | ok =>
    obtain ⟨hpos, hle⟩ := validateConversation_ok hvalid
    have htext : b'.Text = TrimSpace b.Text := by
      simp only [hvalid, bind, Except.bind, throw, throwThe, MonadExceptOf.throw, pure, Except.pure] at h
      grind
    rw [htext, validContent_iff]
    refine ⟨trimSpace_trimSpace_ne ?_, hle⟩
    intro hempty
    simp [hempty] at hpos

end incidentdesk
