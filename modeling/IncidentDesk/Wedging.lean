import IncidentDesk.ResetContext

namespace incidentdesk

open sql sql.Tx

/-- An entry that `validateConversation` lets pass. -/
def ConversationTurn.Fits (t : ConversationTurn) : Prop :=
  (t.Role = "user" ∨ t.Role = "assistant") ∧ validContent t.Content = true

/-- The text that stands before the question of the last task. -/
def anchorHeader (captured timezone : String) : String :=
  "历史查询上下文（仅理解追问，不是当前结果；新话题优先）。下一条是当时的完整查询问题。创建于" ++ captured ++ "，时区" ++ timezone

/-- The turn shows up in a history as a question and an answer that fit. -/
def Turn.Fits (a : App) (t : Turn) : Prop :=
  ∃ pair, exchange a t = some pair ∧ pair.length = 2 ∧ ∀ entry ∈ pair, entry.Fits

section Entries

variable {a : App} {pairs : List (List ConversationTurn)} {size : Nat}

theorem validContent_append_left {s t : String} (hs : TrimSpace s ≠ "") (hlength : (s ++ t).length ≤ 2000) :
    validContent (s ++ t) = true := by
  rw [validContent_iff, trimSpace_ne_empty_iff]
  obtain ⟨c, hc, hspace⟩ := trimSpace_ne_empty_iff.mp hs
  exact ⟨⟨c, by simp [hc], hspace⟩, hlength⟩

theorem anchorHeader_valid {captured timezone : String} (h : (anchorHeader captured timezone).length ≤ 2000) :
    validContent (anchorHeader captured timezone) = true := by
  unfold anchorHeader at h ⊢
  simp only [String.append_assoc] at h ⊢
  exact validContent_append_left (by decide +kernel) h

theorem runes_cons (entry : ConversationTurn) (entries : List ConversationTurn) :
    runes (entry :: entries) = entry.Content.length + runes entries := by
  simp [runes]

theorem runes_le {entries : List ConversationTurn} (h : ∀ entry ∈ entries, entry.Fits) :
    runes entries ≤ entries.length * 2000 := by
  induction entries with
  | nil => simp [runes]
  | cons entry entries ih =>
    have hentry := (validContent_iff.mp (h entry List.mem_cons_self).2).2
    have hrest := ih fun entry' h' => h entry' (List.mem_cons_of_mem _ h')
    rw [runes_cons, List.length_cons]
    omega

/-- The pairs that are left have room, or only one is left. -/
theorem dropOldest_fits (size : Nat) (pairs : List (List ConversationTurn)) :
    size + runes (dropOldest size pairs).flatten ≤ 16000 ∨ (dropOldest size pairs).length ≤ 1 := by
  fun_induction dropOldest with
  | case1 pair pair' pairs h ih => exact ih
  | case2 pair pair' pairs h => exact .inl (by omega)
  | case3 pairs h =>
    refine .inr ?_
    obtain _ | ⟨pair, _ | ⟨pair', pairs⟩⟩ := pairs
    · exact Nat.zero_le _
    · exact Nat.le_refl _
    · exact absurd rfl (h pair pair' pairs)

theorem length_flatten_pairs (h : ∀ pair ∈ pairs, pair.length = 2) : pairs.flatten.length = pairs.length * 2 := by
  induction pairs with
  | nil => rfl
  | cons pair pairs ih =>
    rw [List.flatten_cons, List.length_append, h pair List.mem_cons_self, List.length_cons,
      ih fun pair' hpair' => h pair' (List.mem_cons_of_mem _ hpair')]
    omega

/-- A history of entries that fit passes, if it is short enough. -/
theorem validateConversation_of_fits {Text : String} {History : List ConversationTurn} (hpos : 1 ≤ Text.length)
    (hle : Text.length ≤ 2000) (hlength : History.length ≤ 12) (hfits : ∀ entry ∈ History, entry.Fits)
    (hruns : runes History ≤ 16000) : UnifiedInput.validateConversation { Text, History } = .ok () := by
  have hany : (History.any fun t =>
      (t.Role ≠ "user" ∧ t.Role ≠ "assistant") ∨ TrimSpace t.Content = "" ∨ t.Content.length > 2000) = false := by
    rw [List.any_eq_false]
    intro entry hentry hbad
    obtain ⟨hrole, hcontent⟩ := hfits entry hentry
    obtain ⟨hne, hle⟩ := validContent_iff.mp hcontent
    rw [decide_eq_true_eq] at hbad
    obtain ⟨huser, hassistant⟩ | hempty | hlong := hbad
    · exact hrole.elim huser hassistant
    · exact hne hempty
    · omega
  unfold UnifiedInput.validateConversation
  rw [if_neg (by dsimp only; omega), hany, if_neg (by simp), if_neg (by dsimp only; omega)]

/-- Turns that fit are shown by pairs that do. -/
theorem exists_pairs {turns : List Turn} (h : ∀ t ∈ turns, t.Fits a) : ∃ pairs, turns.mapM (exchange a) = some pairs ∧
    ∀ pair ∈ pairs, pair.length = 2 ∧ ∀ entry ∈ pair, entry.Fits := by
  induction turns with
  | nil => exact ⟨[], rfl, by simp⟩
  | cons t turns ih =>
    obtain ⟨pair, hpair, hfits⟩ := h t List.mem_cons_self
    obtain ⟨pairs, hpairs, hrest⟩ := ih fun t' ht' => h t' (List.mem_cons_of_mem _ ht')
    refine ⟨pair :: pairs, by rw [List.mapM_cons, hpair, hpairs]; rfl, ?_⟩
    rintro pair' (_ | ⟨_, hmem⟩)
    · exact hfits
    · exact hrest pair' hmem

end Entries

section Answered

variable {a : App} {d : queryDecision} {id : String} {t : savedTurn} {answer : Workbench.Answer}

theorem exists_turnResponse (d : queryDecision) (id : String) (t : savedTurn) (fields : List (String × String)) :
    ∃ fields', turnResponse d id t fields = .obj fields' := by
  unfold turnResponse
  dsimp only
  split <;> split <;> exact ⟨_, rfl⟩

/-- The text that refers to a task is no white space. -/
theorem taskReference_valid {m : Json} {created : Time} {zone : String} (hanswer : str m "status" ≠ "answer")
    (hclarification : str m "status" ≠ "clarification") (hle : (conversationReply a m created zone).length ≤ 2000) :
    validContent (conversationReply a m created zone) = true := by
  rw [conversationReply, if_neg hanswer, if_neg hclarification] at hle ⊢
  simp only [String.append_assoc] at hle ⊢
  exact validContent_append_left (by decide +kernel) hle

/-- A response says something that has been checked. -/
def Readable (m : Json) : Prop :=
  (str m "status" = "answer" ∧ validContent (str m "answer") = true) ∨
    (str m "status" = "clarification" ∧ validContent (str m "clarification") = true) ∨
      (str m "status" ≠ "answer" ∧ str m "status" ≠ "clarification" ∧ validContent (str m "question") = true)

/-- What is shown of a response that says something fits. -/
theorem Readable.shown {m : Json} (h : Readable m) (created : Time) (zone : String) :
    validContent (if (conversationReply a m created zone).length > 2000 then str m "question"
      else conversationReply a m created zone) = true := by
  have hdirect (hvalid : validContent (conversationReply a m created zone) = true) :
      validContent (if (conversationReply a m created zone).length > 2000 then str m "question"
        else conversationReply a m created zone) = true := by
    have hle := (validContent_iff.mp hvalid).2
    rwa [if_neg (by omega)]
  obtain ⟨hstatus, hvalid⟩ | ⟨hstatus, hvalid⟩ | ⟨hanswer, hclarification, hquestion⟩ := h
  · refine hdirect ?_
    rwa [conversationReply, if_pos hstatus]
  · refine hdirect ?_
    rwa [conversationReply, if_neg (by simp [hstatus]), if_pos hstatus]
  · split
    · exact hquestion
    · exact taskReference_valid hanswer hclarification (by omega)

/-- A turn is shown by its text and by what its response says. -/
theorem Turn.fits_of_readable {turn : Turn} {m : Json} (hresponse : turn.response.bind Json.map? = some m)
    (htext : validContent turn.input.Text = true) (h : Readable m) : turn.Fits a := by
  have hshown := h.shown (a := a) turn.created_at turn.input.Timezone
  rw [Turn.Fits, exchange, hresponse, Option.map_some]
  refine ⟨_, rfl, rfl, ?_⟩
  revert hshown
  generalize conversationReply a m turn.created_at turn.input.Timezone = reply
  intro hshown
  rw [List.forall_mem_cons, List.forall_mem_singleton]
  exact ⟨⟨.inl rfl, htext⟩, .inr rfl, hshown⟩

/-- A reply says something that has been checked, if the planner does. -/
theorem Returned.readable (h : Returned d answer)
    (hplanner : ∀ clarification mode, answer = plannerReply clarification mode → validContent clarification = true) :
    Readable (turnResponse d id t answer.fields) := by
  have hquestion : isTask (turnResponse d id t answer.fields) = true →
      validContent (str (turnResponse d id t answer.fields) "question") = true := h.question
  rw [isTask, str_turnResponse (by simp)] at hquestion
  rw [Readable, str_turnResponse (by simp), str_turnResponse (by simp), str_turnResponse (by simp)]
  cases h with
  | reply hvalid hk =>
    obtain ⟨content, hcontent, hvalid⟩ := queryDecision.valid_iff.mp hvalid
    obtain hk | hk := hk
    · have hanswer : d.Answer = content := by simpa [queryDecision.content, hk] using hcontent
      exact .inl ⟨by simp [queryDecision.reply, hk], by simpa [queryDecision.reply, str, Json.get?, Json.string?, hanswer]⟩
    · have hclarification : d.Clarification = content := by simpa [queryDecision.content, hk] using hcontent
      exact .inr (.inl ⟨by simp [queryDecision.reply, hk],
        by simpa [queryDecision.reply, str, Json.get?, Json.string?, hclarification]⟩)
  | warehouse id question hvalid =>
    refine .inr (.inr ⟨by simp [warehouseReply, str, Json.get?], by simp [warehouseReply, str, Json.get?], hquestion ?_⟩)
    simp [warehouseReply, str, Json.get?, Json.string?]
  | accepted id hvalid hk =>
    refine .inr (.inr ⟨?_, ?_, hquestion ?_⟩) <;> simp [acceptedReply, str, Json.get?, Json.string?]
  | noServices => exact .inr (.inl ⟨by simp [noServicesReply], by decide +kernel⟩)
  | planner clarification mode =>
    refine .inr (.inl ⟨by simp [plannerReply], ?_⟩)
    simpa [plannerReply, str, Json.get?, Json.string?] using hplanner clarification mode rfl

end Answered

/-- The answer of a turn can be shown to later ones. -/
structure Stored.Fits (a : App) (row : Turn) (s : Stored) : Prop where
  object : ∃ fields, s.response = .obj fields
  readable : Readable s.response
  question : isTask s.response = true → str s.response "question" ≠ ""
  anchor : isTask s.response = true → ∀ entry ∈ (row.answered s).anchor a, entry.Fits

namespace Thread

variable {a : App} {snap : Store} {P : Turn → Stored → Prop} {th th' : Thread}

/-- All that a history can be made of fits. -/
structure Fitting (a : App) (th : Thread) : Prop where
  shown : ∀ t ∈ th.completed, t.Fits a
  anchor : ∀ entry ∈ queryAnchor th.conversation.summary, entry.Fits
  texts : ∀ e ∈ th.turns, validContent e.2.input.Text = true

theorem length_queryAnchor (summary : Json) : (queryAnchor summary).length ≤ 2 := by
  unfold queryAnchor
  dsimp only
  split <;> simp

/-- The history of the next turn can be made, and passes. -/
theorem Fitting.history (h : th.Fitting a) : ∃ history, th.history a = some history ∧ history.length ≤ 12 ∧
    (∀ entry ∈ history, entry.Fits) ∧ runes history ≤ 16000 := by
  let recent := (th.completed.filter fun t => th.conversation.context_after_seq < t.seq).reverse.take 4
  have hrecent : ∀ t ∈ recent.reverse, t.Fits a := fun t ht =>
    h.shown t (List.mem_of_mem_filter (List.mem_reverse.mp (List.mem_of_mem_take (List.mem_reverse.mp ht))))
  obtain ⟨pairs, hpairs, hfits⟩ := exists_pairs hrecent
  let anchor := queryAnchor th.conversation.summary
  let kept := dropOldest (runes anchor) pairs
  have hkept : ∀ pair ∈ kept, pair.length = 2 ∧ ∀ entry ∈ pair, entry.Fits := fun pair hpair =>
    hfits pair ((dropOldest_suffix _ _).subset hpair)
  have hlength : pairs.length ≤ 4 := by
    have hrecentLength : recent.reverse.length ≤ 4 := by simp [recent]
    rwa [(traversal.mapM_eq_some.mp hpairs).length_eq] at hrecentLength
  have hkeptLength : kept.flatten.length = kept.length * 2 := length_flatten_pairs fun pair hpair => (hkept pair hpair).1
  have hentries : ∀ entry ∈ kept.flatten, entry.Fits := by
    intro entry hentry
    obtain ⟨pair, hpair, hmem⟩ := List.mem_flatten.mp hentry
    exact (hkept pair hpair).2 entry hmem
  have hanchorLength : anchor.length ≤ 2 := length_queryAnchor _
  refine ⟨anchor ++ kept.flatten, by rw [Thread.history, hpairs]; rfl, ?_, fun entry hentry => ?_, ?_⟩
  · have hle : kept.length ≤ pairs.length := (dropOldest_suffix _ _).length_le
    rw [List.length_append, hkeptLength]
    omega
  · obtain hentry | hentry := List.mem_append.mp hentry
    · exact h.anchor entry hentry
    · exact hentries entry hentry
  · rw [runes_append]
    obtain hsize | hone := dropOldest_fits (runes anchor) pairs
    · exact hsize
    · have hanchorRunes : runes anchor ≤ anchor.length * 2000 := runes_le h.anchor
      have hkeptRunes := runes_le hentries
      have hone' : kept.length ≤ 1 := hone
      omega

theorem Fitting.step (h : th.Fitting a) (hth : th.Linear) (hstep : Step a snap P th th')
    (hP : ∀ row s, P row s → s.Fits a row) : th'.Fitting a := by
  have htexts : ∀ e ∈ th'.turns, validContent e.2.input.Text = true := by
    have hmap {g : String → Turn → Turn} (hg : ∀ tid row, (g tid row).input = row.input) :
        ∀ e ∈ (th.mapTurns g).turns, validContent e.2.input.Text = true := by
      intro e he
      obtain ⟨e₀, he₀, rfl⟩ := List.mem_map.mp he
      rw [hg]
      exact h.texts e₀ he₀
    cases hstep with
    | close | retry => exact hmap fun tid row => by split <;> rfl
    | complete tid row s =>
      exact hmap (g := fun tid' row => if tid' = tid then row.answered s else row) fun tid row => by split <;> rfl
    | add tid row hstatus hbase hpending hseq hlast hlength hnew hhistory hanchor htext =>
      intro e he
      obtain he | he := List.mem_append.mp he
      · exact h.texts e he
      · rw [List.mem_singleton.mp he]
        exact htext
  obtain ⟨hcompleted, hconversation⟩ | ⟨tid, row, s, hanswers⟩ := hth.completed_step hstep
  · exact ⟨by rw [hcompleted]; exact h.shown, by rw [hconversation]; exact h.anchor, htexts⟩
  · have hs := hP row s hanswers.allowed
    refine ⟨fun t ht => ?_, ?_, htexts⟩
    · rw [hanswers.completed, List.mem_append, List.mem_singleton] at ht
      obtain ht | rfl := ht
      · exact h.shown t ht
      · obtain ⟨fields, hfields⟩ := hs.object
        have hresponse : (row.answered s).response.bind Json.map? = some s.response := by
          rw [Turn.answered, Option.bind_some, hfields]
          rfl
        exact Turn.fits_of_readable hresponse (h.texts (tid, row) hanswers.mem) hs.readable
    · have hsummary : th'.conversation.summary =
          (newSummary a (row.saved tid) s.response s.dataset s.version).getD th.conversation.summary := by
        rw [hanswers.conversation]
        rfl
      rw [hsummary, (queryAnchor_answered _ _ _ _ hs.question).1]
      split
      · exact hs.anchor ‹_›
      · split
        · simp
        · exact h.anchor

end Thread

namespace Workbench

variable {a : App} {σ : Store} {w : Workbench} {ops : List Op} {id : String}

/-- What ends an attempt is a reply in which the planner, where it asks back,
says something of at most 2000 characters, and where a task is made the header
under which later turns find its question has room. -/
def Op.Fitting (a : App) (w : Workbench) : Op → Prop
  | .complete _ n answer decision =>
    Returned decision answer ∧
      (∀ clarification mode, answer = plannerReply clarification mode → validContent clarification = true) ∧
        ∀ t, w.attempts[n]? = some t → answer.code = 202 →
          (anchorHeader (a.RFC3339 t.turn.CreatedAt) t.turn.Input.Timezone).length ≤ 2000
  | _ => True

theorem Op.Fitting.returns {op : Op} (h : op.Fitting a w) : op.Returns := by
  cases op with
  | complete => exact h.1
  | _ => trivial

/-- Only a reply that makes a task says that it has been accepted. -/
theorem code_of_isTask {d : queryDecision} {answer : Answer} {t : savedTurn} (h : Returned d answer)
    (htask : isTask (turnResponse d id t answer.fields) = true) : answer.code = 202 := by
  rw [isTask, str_turnResponse (by simp)] at htask
  cases h with
  | reply | noServices | planner =>
    simp [queryDecision.reply, noServicesReply, plannerReply, str, Json.get?] at htask
  | warehouse | accepted => rfl

theorem Records.fits {op : Op} {row : Turn} {s : Stored} (h : w.Records op row s) (hop : op.Fitting a w) :
    s.Fits a row := by
  have hquestion := h.question hop.returns
  obtain ⟨now, n, answer, decision, t, rfl, ht, hmatches, hresponse, -⟩ := h
  obtain ⟨hreturned, hplanner, hheader⟩ := hop
  refine ⟨hresponse ▸ exists_turnResponse _ _ _ _, ?_, fun htask => validContent_ne (hquestion htask),
    fun htask entry hentry => ?_⟩
  · rw [hresponse]
    exact hreturned.readable hplanner
  · have hlength := hheader t ht (code_of_isTask hreturned (hresponse ▸ htask))
    rw [hmatches.created_at, hmatches.input] at hlength
    rw [Turn.anchor, List.mem_cons, List.mem_singleton] at hentry
    obtain rfl | rfl := hentry
    · exact ⟨.inr rfl, anchorHeader_valid hlength⟩
    · exact ⟨.inr rfl, hquestion htask⟩

theorem fitting_after (hσ : Initial σ)
    (hops : machine.Always (step a) (fun w op => op.Fitting a w) { store := σ, seq := 0, attempts := [] } ops)
    {th : Thread} (hth : threadOf (after a σ ops).store id = some th) : th.Fitting a := by
  refine (thread_invariant (I := fun _ th => th.Linear ∧ th.Fitting a) hσ (fun _ now u => ?_)
    (fun w op th th' _ hop hth hstep => ?_) (fun _ _ _ _ hth => hth) hops id th hth).2
  · refine ⟨?_, ?_⟩ <;> constructor <;> simp [newConversation, Thread.completed, queryAnchor]
  · exact ⟨hth.1.step hstep, hth.2.step hth.1 hstep fun row s hrecords => hrecords.fits hop⟩

theorem run_conversationHistory (hσ : Threaded σ) {th : Thread} (hth : threadOf σ id = some th)
    {history : List ConversationTurn} (hhistory : th.history a = some history) :
    (conversationHistory a id th.conversation.summary).run unlocked σ = .ok (history, σ) := by
  have hsucceeds : Succeeds unlocked (conversationHistory a id th.conversation.summary) σ fun history' σ' =>
      history' = history ∧ σ' = σ := by
    rw [Thread.history, Option.map_eq_some_iff] at hhistory
    obtain ⟨pairs, hpairs, rfl⟩ := hhistory
    unfold conversationHistory
    simp only [succeeds_bind, succeeds_snapshot, succeeds_require, Tx.pure_eq_ret, succeeds_ret,
      (threadOf_eq_some.mp hth).1, Option.map_some, Option.getD_some, recentTurns_eq hσ hth]
    exact ⟨pairs, hpairs, rfl, trivial⟩
  obtain ⟨history', σ', hrun, rfl, rfl⟩ := hsucceeds
  exact hrun

/-- While the planner asks back with something to read and the headers have room,
every history that is made passes, and so does every turn that is handed out. -/
theorem conversation_not_wedged (hσ : Initial σ)
    (hops : machine.Always (step a) (fun w op => op.Fitting a w) { store := σ, seq := 0, attempts := [] } ops) :
    (∀ id c, (after a σ ops).store.lookup (Key.conversations id) = some c → ∃ history,
      (conversationHistory a id c.summary).run unlocked (after a σ ops).store = .ok (history, (after a σ ops).store) ∧
        ∀ Text, 1 ≤ Text.length → Text.length ≤ 2000 →
          UnifiedInput.validateConversation { Text, History := history } = .ok ()) ∧
    ∀ t ∈ (after a σ ops).attempts, t.Live (after a σ ops).store →
      UnifiedInput.validateConversation { Text := t.turn.Input.Text, History := t.turn.History } = .ok () := by
  have hw := sound_after (a := a) hσ ops
  have hreturns : machine.Always (step a) (fun _ op => op.Returns) { store := σ, seq := 0, attempts := [] } ops :=
    fun pre op post h => (hops pre op post h).returns
  refine ⟨fun id c hc => ?_, fun t ht hlive => ?_⟩
  · have hth : threadOf (after a σ ops).store id = some ⟨c, thread (after a σ ops).store id⟩ := by
      rw [threadOf, hc, Option.map_some]
    obtain ⟨history, hhistory, hlength, hfits, hruns⟩ := (fitting_after hσ hops hth).history
    exact ⟨history, run_conversationHistory hw.threaded hth hhistory, fun Text hpos hle =>
      validateConversation_of_fits hpos hle hlength hfits hruns⟩
  · obtain ⟨row, hrow, hpending, -⟩ := hlive
    obtain ⟨row', hrow', hid, hmatches⟩ := hw.issued t ht
    obtain rfl := Option.some.inj (hrow.symm.trans hrow')
    obtain ⟨th, hth, hmem⟩ := hw.threaded.exists_thread hrow
    have hlinear := linear_after hσ ops hth
    have hcurrent := (anchored_after hσ hreturns hth).2 _ hmem (hlinear.current _ hmem hpending)
    have hfitting := fitting_after hσ hops hth
    obtain ⟨history, hhistory, hlength, hfits, hruns⟩ := hfitting.history
    obtain rfl := Option.some.inj (hhistory.symm.trans hcurrent.1)
    obtain ⟨hne, hle⟩ := validContent_iff.mp (hfitting.texts _ hmem)
    rw [hmatches.history, hmatches.input]
    refine validateConversation_of_fits ?_ hle hlength hfits hruns
    rw [Nat.one_le_iff_ne_zero]
    intro hzero
    exact hne (by rw [String.length_eq_zero_iff.mp hzero]; decide)

/-- The model chats, and `alice` goes on. -/
def chatting : List Op :=
  asking ++
    [.complete (seconds 2) 0 chat.reply chat,
      .post (seconds 3) "alice" "c1" "k4" { asked with Text := "按天呢", Revision := 1 } "t2" "f2"]

theorem conversation_not_wedged_chatting : ∃ c,
    (after deployed seed chatting).store.lookup (Key.conversations "c1") = some c ∧ c.revision = 1 ∧ ∃ history,
      (conversationHistory deployed "c1" c.summary).run unlocked (after deployed seed chatting).store =
        .ok (history, (after deployed seed chatting).store) ∧
      ∀ Text, 1 ≤ Text.length → Text.length ≤ 2000 →
        UnifiedInput.validateConversation { Text, History := history } = .ok () := by
  have hops : machine.Always (step deployed) (fun w op => op.Fitting deployed w)
      { store := seed, seq := 0, attempts := [] } chatting := by
    rintro pre op post h
    have hop : op ∈ chatting := by simp [h]
    simp only [chatting, asking, List.cons_append, List.nil_append, List.mem_cons, List.not_mem_nil, or_false] at hop
    obtain rfl | rfl | rfl | rfl := hop
    · trivial
    · trivial
    · exact ⟨.reply (by decide) (.inl rfl), by simp [queryDecision.reply, plannerReply, chat], by simp [queryDecision.reply]⟩
    · trivial
  have hanswered : ((after deployed seed chatting).store.lookup (Key.conversations "c1")).map (·.revision) = some 1 := by
    decide +kernel
  obtain ⟨c, hc, hrevision⟩ := Option.map_eq_some_iff.mp hanswered
  exact ⟨c, hc, hrevision, (conversation_not_wedged (a := deployed) seed_initial hops).1 "c1" c hc⟩

/-- The planner asks back without saying what, and `alice` asks again. -/
def clarifying : List Op :=
  asking ++
    [.complete (seconds 2) 0 (plannerReply "" "model")
        { chat with Kind := "investigation", Answer := "", Question := "支付失败" },
      .post (seconds 3) "alice" "c1" "k4" { asked with Text := "按天呢", Revision := 1 } "t2" "f2"]

theorem conversation_wedged_clarifying : (∀ op ∈ clarifying, op.Returns) ∧
    ∃ t ∈ (after deployed seed clarifying).attempts, t.Live (after deployed seed clarifying).store ∧
      UnifiedInput.validateConversation { Text := t.turn.Input.Text, History := t.turn.History } =
        .error (E 400 "invalid_conversation") := by
  constructor
  · intro op hop
    simp only [clarifying, asking, List.cons_append, List.nil_append, List.mem_cons, List.not_mem_nil,
      or_false] at hop
    obtain rfl | rfl | rfl | rfl := hop
    · trivial
    · trivial
    · exact .planner "" "model"
    · trivial
  · have hattempt : ((after deployed seed clarifying).attempts[1]?).map (fun t => (t.turn.ID, t.turn.Fence,
        UnifiedInput.validateConversation { Text := t.turn.Input.Text, History := t.turn.History })) =
          some ("t2", "f2", .error (E 400 "invalid_conversation")) := by decide +kernel
    have hturn : ((after deployed seed clarifying).store.lookup (Key.conversation_turns "t2")).map
        (fun row => (row.status, row.fence)) = some (.pending, "f2") := by decide +kernel
    obtain ⟨t, ht, heq⟩ := Option.map_eq_some_iff.mp hattempt
    simp only [Prod.mk.injEq] at heq
    obtain ⟨hid, hfence, hinvalid⟩ := heq
    obtain ⟨row, hrow, heq⟩ := Option.map_eq_some_iff.mp hturn
    obtain ⟨hstatus, hrowFence⟩ := Prod.mk.inj heq
    exact ⟨t, List.mem_of_getElem? ht, ⟨row, hid ▸ hrow, hstatus, hrowFence.trans hfence.symm⟩, hinvalid⟩

end Workbench

end incidentdesk
