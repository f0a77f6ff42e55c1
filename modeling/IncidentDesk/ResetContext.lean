import Mathlib.Data.List.DropRight
import IncidentDesk.LinearHistory
import IncidentDesk.Traversal
import IncidentDesk.Unified

namespace incidentdesk

open sql sql.Tx
open traversal (mapM_eq_some forall₂_mem_right)

def Turn.isReset (t : Turn) : Bool := t.response.any resets

/-- The question of a task, under the header that later turns find it under. -/
def Turn.anchor (a : App) (t : Turn) : List ConversationTurn :=
  [{ Role := "assistant"
     Content := "历史查询上下文（仅理解追问，不是当前结果；新话题优先）。下一条是当时的完整查询问题。创建于" ++
       a.RFC3339 t.created_at ++ "，时区" ++ t.input.Timezone },
    { Role := "assistant", Content := str (t.response.getD .null) "question" }]

namespace Thread

/-- The answered turns after every reset. -/
def afterResets (th : Thread) : List Turn :=
  th.completed.filter fun t => th.completed.all fun r => !r.isReset || r.seq < t.seq

/-- The last task that was made at or after every reset. -/
def anchorTurn (th : Thread) : Option Turn :=
  (th.completed.filter fun t => t.madeTask && th.completed.all fun r => !r.isReset || r.seq ≤ t.seq).getLast?

/-- What the next turn is told of the last task. -/
def anchor (a : App) (th : Thread) : List ConversationTurn := (th.anchorTurn.map (Turn.anchor a)).getD []

/-- The history of a turn leaves nothing of a context that has been reset, and
nothing else out: it has the last task since, and the newest turns since, whole
and in their order, as many as there is room for. -/
structure Context (a : App) (th : Thread) (history : List ConversationTurn) (hasAnchor : Bool) : Prop where
  anchored : hasAnchor = true ↔ ∃ t ∈ th.completed, t.madeTask = true ∧
    ∀ r ∈ th.completed, r.isReset = true → r.seq ≤ t.seq
  fresh : ∀ entry ∈ history, (∃ t, th.anchorTurn = some t ∧ entry ∈ t.anchor a) ∨
    ∃ t ∈ th.completed, (∀ r ∈ th.completed, r.isReset = true → r.seq < t.seq) ∧
      ∃ pair, exchange a t = some pair ∧ entry ∈ pair
  newest : ∃ shown pairs, shown <:+ th.afterResets ∧ List.Forall₂ (fun t pair => exchange a t = some pair) shown pairs ∧
    history = th.anchor a ++ pairs.flatten ∧ shown.length ≤ 4 ∧ (th.afterResets ≠ [] → shown ≠ []) ∧
    ∀ older, older :: shown <:+ th.afterResets → shown.length = 4 ∨
      ∃ pair, exchange a older = some pair ∧ 16000 < runes (th.anchor a ++ (pair :: pairs).flatten)

end Thread

section Budget

variable {α : Type} {R : α → List ConversationTurn → Prop} {size : Nat}

theorem runes_append (turns turns' : List ConversationTurn) : runes (turns ++ turns') = runes turns + runes turns' := by
  simp [runes]

theorem dropOldest_suffix (size : Nat) (pairs : List (List ConversationTurn)) : dropOldest size pairs <:+ pairs := by
  fun_induction dropOldest with
  | case1 pair pair' pairs h ih => exact ih.trans (List.suffix_cons _ _)
  | case2 => exact List.suffix_refl _
  | case3 => exact List.suffix_refl _

/-- Only as many of the oldest pairs are dropped as there is no room for, and
never the newest one. -/
theorem dropOldest_shown (size : Nat) {turns : List α} {pairs : List (List ConversationTurn)}
    (h : List.Forall₂ R turns pairs) :
    ∃ shown, shown <:+ turns ∧ List.Forall₂ R shown (dropOldest size pairs) ∧ (turns ≠ [] → shown ≠ []) ∧
      ∀ older, older :: shown <:+ turns →
        ∃ pair, R older pair ∧ 16000 < size + runes (pair :: dropOldest size pairs).flatten := by
  have hself {turns : List α} {pairs : List (List ConversationTurn)} (h : List.Forall₂ R turns pairs) :
      ∃ shown, shown <:+ turns ∧ List.Forall₂ R shown pairs ∧ (turns ≠ [] → shown ≠ []) ∧
        ∀ older, older :: shown <:+ turns → ∃ pair, R older pair ∧ 16000 < size + runes (pair :: pairs).flatten := by
    refine ⟨turns, List.suffix_refl _, h, id, fun older holder => ?_⟩
    have hlength := holder.length_le
    rw [List.length_cons] at hlength
    omega
  induction h with
  | nil => exact hself .nil
  | @cons t pair turns pairs hpair htail ih =>
    cases htail with
    | nil => exact hself (.cons hpair .nil)
    | @cons t' pair' turns pairs hpair' htail =>
      by_cases hsize : size + runes (pair :: pair' :: pairs).flatten > 16000
      · rw [dropOldest, if_pos hsize]
        obtain ⟨shown, hshown, hpairs, hne, hmaximal⟩ := ih
        refine ⟨shown, hshown.trans (List.suffix_cons _ _), hpairs, fun _ => hne (by simp), fun older holder => ?_⟩
        obtain heq | holder := List.suffix_cons_iff.mp holder
        · -- nothing more was dropped, so the pair before is the one that did not fit
          obtain ⟨rfl, rfl⟩ := List.cons.inj heq
          have hkept : dropOldest size (pair' :: pairs) = pair' :: pairs :=
            (dropOldest_suffix size _).eq_of_length (by rw [← hpairs.length_eq, (htail.cons hpair').length_eq])
          exact ⟨pair, hpair, by rwa [hkept]⟩
        · exact hmaximal older holder
      · rw [dropOldest, if_neg hsize]
        exact hself (.cons hpair (.cons hpair' htail))

end Budget

namespace Thread

variable {a : App} {snap : Store} {P : Turn → Stored → Prop} {th th' : Thread} {x : Turn}

theorem Linear.completed_numbered (hth : th.Linear) : th.completed.Pairwise fun t t' => t.seq < t'.seq := by
  have hnumbered : (th.turns.map Prod.snd).Pairwise fun t t' => t.seq < t'.seq := List.pairwise_map.mpr hth.numbered
  exact hnumbered.filter _

/-- An answer becomes the last task, or ends it, or leaves it. -/
theorem anchorTurn_concat (hcompleted : th'.completed = th.completed ++ [x])
    (hlast : ∀ t ∈ th.completed, t.seq < x.seq) :
    th'.anchorTurn = if x.madeTask then some x else if x.isReset then none else th.anchorTurn := by
  have hx : (th.completed ++ [x]).all (fun r => !r.isReset || r.seq ≤ x.seq) = true := by
    rw [List.all_eq_true]
    intro r hr
    obtain hr | hr := List.mem_append.mp hr
    · simp [(hlast r hr).le]
    · simp [List.mem_singleton.mp hr]
  rw [anchorTurn, hcompleted, List.filter_append, List.getLast?_append, List.filter_cons, hx, List.filter_nil, Bool.and_true]
  cases x.madeTask with
  | true => rfl
  | false =>
    cases hreset : x.isReset with
    | true =>
      have hnone : th.completed.filter (fun t => t.madeTask &&
          (th.completed ++ [x]).all fun r => !r.isReset || r.seq ≤ t.seq) = [] := by
        rw [List.filter_eq_nil_iff]
        intro t ht hall
        rw [Bool.and_eq_true, List.all_eq_true] at hall
        have hle := hall.2 x (by simp)
        have hlt := hlast t ht
        simp only [hreset, Bool.not_true, Bool.false_or, decide_eq_true_eq] at hle
        omega
      rw [hnone]
      rfl
    | false => simp [anchorTurn, hreset]

/-- What is kept of the last reset and the last task says what they are. -/
structure Anchored (a : App) (th : Thread) : Prop where
  reset_le : ∀ r ∈ th.completed, r.isReset = true → r.seq ≤ th.conversation.context_after_seq
  reset_mem : th.conversation.context_after_seq = 0 ∨
    ∃ r ∈ th.completed, r.isReset = true ∧ r.seq = th.conversation.context_after_seq
  anchor : queryAnchor th.conversation.summary = th.anchor a
  hasAnchor : th.hasAnchor = th.anchorTurn.isSome

/-- What later turns are told of a task is its anchor. -/
theorem queryAnchor_answered (tid : String) (row : Turn) (s : Stored) (summary : Json)
    (hquestion : isTask s.response = true → str s.response "question" ≠ "") :
    let summary' := (newSummary a (row.saved tid) s.response s.dataset s.version).getD summary
    (queryAnchor summary' = if isTask s.response then (row.answered s).anchor a
      else if resets s.response then [] else queryAnchor summary) ∧
    str summary' "resolved_question" = if isTask s.response then str s.response "question"
      else if resets s.response then "" else str summary "resolved_question" := by
  rw [newSummary]
  cases htask : isTask s.response with
  | true => simp [queryAnchor, Turn.anchor, str_obj_cons_ne, hquestion htask, Turn.answered, Turn.saved]
  | false =>
    cases resets s.response with
    | true => simp [queryAnchor]
    | false => simp

theorem Anchored.answers {tid : String} {row : Turn} {s : Stored} (h : th.Anchored a) (hth' : th'.Linear)
    (hanswers : Answers a snap P th th' tid row s)
    (hquestion : isTask s.response = true → str s.response "question" ≠ "") : th'.Anchored a := by
  have hcompleted := hanswers.completed
  have hlast : ∀ t ∈ th.completed, t.seq < (row.answered s).seq := by
    have hnumbered := hth'.completed_numbered
    rw [hcompleted, List.pairwise_append] at hnumbered
    exact fun t ht => hnumbered.2.2 t ht _ List.mem_cons_self
  obtain ⟨hanchor, hresolved⟩ := queryAnchor_answered (a := a) tid row s th.conversation.summary
    hquestion
  have hturn := anchorTurn_concat hcompleted hlast
  have hmade : (row.answered s).madeTask = isTask s.response := rfl
  have hreset : (row.answered s).isReset = resets s.response := rfl
  rw [hmade, hreset] at hturn
  have hafter : th'.conversation.context_after_seq =
      if resets s.response then (row.answered s).seq else th.conversation.context_after_seq := by
    rw [hanswers.conversation]
    rfl
  have hsummary : th'.conversation.summary =
      (newSummary a (row.saved tid) s.response s.dataset s.version).getD th.conversation.summary := by
    rw [hanswers.conversation]
    rfl
  constructor
  · intro r hr hrreset
    rw [hafter]
    rw [hcompleted, List.mem_append, List.mem_singleton] at hr
    obtain hr | rfl := hr
    · have hle := h.reset_le r hr hrreset
      have hlt := hlast r hr
      split <;> omega
    · rw [if_pos (hreset.symm.trans hrreset)]
  · rw [hafter, hcompleted]
    by_cases hresets : resets s.response = true
    · rw [if_pos hresets]
      exact .inr ⟨row.answered s, by simp, hreset.trans hresets, rfl⟩
    · rw [if_neg hresets]
      obtain hzero | ⟨r, hr, hr'⟩ := h.reset_mem
      · exact .inl hzero
      · exact .inr ⟨r, List.mem_append_left _ hr, hr'⟩
  · rw [hsummary, hanchor, Thread.anchor, hturn, h.anchor, Thread.anchor]
    split
    · rfl
    · split <;> rfl
  · rw [Thread.hasAnchor, hsummary, hresolved, hturn]
    split
    · simp [hquestion ‹_›]
    · split
      · simp
      · exact h.hasAnchor

/-- A turn that is still to be answered has the history of the conversation as
it is now. -/
def Current (a : App) (th : Thread) : Prop :=
  ∀ e ∈ th.turns, e.2.base_revision = th.conversation.revision →
    th.history a = some e.2.history ∧ e.2.has_query_anchor = th.hasAnchor

theorem history_congr (hcompleted : th'.completed = th.completed) (hconversation : th'.conversation = th.conversation) :
    th'.history a = th.history a ∧ th'.hasAnchor = th.hasAnchor := by
  simp only [history, Thread.hasAnchor, hcompleted, hconversation, and_self]

theorem Current.mapTurns {g : String → Turn → Turn} (h : th.Current a)
    (hg : ∀ tid row, (g tid row).frozen = row.frozen) (hcompleted : (th.mapTurns g).completed = th.completed) :
    (th.mapTurns g).Current a := by
  rintro e he hbase
  obtain ⟨e₀, he₀, rfl⟩ := List.mem_map.mp he
  have hfrozen := hg e₀.1 e₀.2
  obtain ⟨hhistory, hanchor⟩ := h e₀ he₀ ((congrArg Turn.base_revision hfrozen).symm.trans hbase)
  obtain ⟨hsame, hsame'⟩ := history_congr (a := a) hcompleted rfl
  exact ⟨hsame.trans (hhistory.trans (congrArg (some ·.history) hfrozen).symm),
    (congrArg Turn.has_query_anchor hfrozen).trans (hanchor.trans hsame'.symm)⟩

theorem Current.step (h : th.Current a) (hth : th.Linear) (hstep : Step a snap P th th') : th'.Current a := by
  cases hstep with
  | close p error hp => exact h.mapTurns (fun tid row => by split <;> rfl) (completed_close hp)
  | retry tid fence row lease hmem hstatus =>
    exact h.mapTurns (fun tid row => by split <;> rfl) (hth.completed_retry hmem hstatus)
  | add tid row hstatus hbase hpending hseq hlast hlength hnew hhistory hanchor =>
    have hcompleted : (th.add tid row).completed = th.completed := by
      simp [Thread.completed, Thread.add, hstatus]
    obtain ⟨hsame, hsame'⟩ := history_congr (a := a) hcompleted (Eq.refl (th.add tid row).conversation)
    rw [Current, hsame, hsame']
    intro e he hbase
    obtain he | he := List.mem_append.mp he
    · exact h e he hbase
    · rw [List.mem_singleton.mp he]
      exact ⟨hhistory, hanchor⟩
  | complete tid row s =>
    -- every turn was made at an earlier revision
    intro e he hbase
    obtain ⟨e₀, he₀, rfl⟩ := List.mem_map.mp he
    have hle := hth.le e₀ he₀
    have hkept : (if e₀.1 = tid then e₀.2.answered s else e₀.2).base_revision = e₀.2.base_revision := by
      split <;> rfl
    have hrevision : (th.conversation.answered a s tid row).revision = th.conversation.revision + 1 := rfl
    have hbase' := hkept.symm.trans (hbase.trans hrevision)
    omega

/-- The turns that are shown are those after every reset. -/
theorem Anchored.afterResets (h : th.Anchored a) (hth : th.Linear) :
    (th.completed.filter fun t => th.conversation.context_after_seq < t.seq) = th.afterResets := by
  refine List.filter_congr fun t ht => ?_
  obtain ⟨tid, hmem, -⟩ := mem_completed.mp ht
  have hpositive := hth.positive _ hmem
  rw [Bool.eq_iff_iff, decide_eq_true_eq, List.all_eq_true]
  constructor
  · intro hlt r hr
    cases hreset : r.isReset with
    | false => rfl
    | true =>
      have hle := h.reset_le r hr hreset
      simp only [Bool.not_true, Bool.false_or, decide_eq_true_eq]
      omega
  · intro hall
    obtain hzero | ⟨r, hr, hreset, hseq⟩ := h.reset_mem
    · rw [hzero]
      exact hpositive
    · have hlt := hall r hr
      simp only [hreset, Bool.not_true, Bool.false_or, decide_eq_true_eq] at hlt
      omega

theorem mem_afterResets {t : Turn} :
    t ∈ th.afterResets ↔ t ∈ th.completed ∧ ∀ r ∈ th.completed, r.isReset = true → r.seq < t.seq := by
  rw [Thread.afterResets, List.mem_filter, List.all_eq_true]
  refine and_congr_right fun _ => forall₂_congr fun r _ => ?_
  cases r.isReset <;> simp

/-- There is a last task exactly where a task was made at or after every reset. -/
theorem isSome_anchorTurn : th.anchorTurn.isSome = true ↔
    ∃ t ∈ th.completed, t.madeTask = true ∧ ∀ r ∈ th.completed, r.isReset = true → r.seq ≤ t.seq := by
  rw [anchorTurn, List.getLast?_isSome, ne_eq, List.filter_eq_nil_iff]
  simp only [not_forall, not_not, exists_prop]
  refine exists_congr fun t => and_congr_right fun _ => ?_
  rw [Bool.and_eq_true, List.all_eq_true]
  refine and_congr_right fun _ => forall₂_congr fun r _ => ?_
  cases r.isReset <;> simp

/-- What the next turn is answered with is the context it should be. -/
theorem Anchored.context (h : th.Anchored a) (hth : th.Linear) {history : List ConversationTurn}
    (hhistory : th.history a = some history) : th.Context a history th.hasAnchor := by
  rw [Thread.history, h.afterResets hth, ← List.rtake_eq_reverse_take_reverse, Option.map_eq_some_iff] at hhistory
  obtain ⟨pairs, hpairs, rfl⟩ := hhistory
  rw [mapM_eq_some] at hpairs
  rw [h.anchor]
  have hsuffix : th.afterResets.rtake 4 <:+ th.afterResets := List.drop_suffix _ _
  have hlength : (th.afterResets.rtake 4).length = min 4 th.afterResets.length := by
    rw [List.rtake, List.length_drop]
    omega
  obtain ⟨shown, hshown, hshownPairs, hne, hmaximal⟩ := dropOldest_shown (runes (th.anchor a)) hpairs
  have hshown' := hshown.trans hsuffix
  have hshownLength := hshown.length_le
  refine ⟨by rw [h.hasAnchor, isSome_anchorTurn], fun entry hentry => ?_, shown, _, hshown', hshownPairs, rfl, by omega, ?_,
    fun older holder => ?_⟩
  · obtain hentry | hentry := List.mem_append.mp hentry
    · rw [Thread.anchor] at hentry
      cases hturn : th.anchorTurn with
      | none =>
        rw [hturn] at hentry
        cases hentry
      | some t =>
        rw [hturn] at hentry
        exact .inl ⟨t, rfl, hentry⟩
    · obtain ⟨pair, hpair, hentry⟩ := List.mem_flatten.mp hentry
      obtain ⟨t, ht, hexchange⟩ := forall₂_mem_right hshownPairs hpair
      obtain ⟨hcompleted, hafter⟩ := mem_afterResets.mp (hshown'.subset ht)
      exact .inr ⟨t, hcompleted, hafter, pair, hexchange, hentry⟩
  · intro hafter
    refine hne fun hnil => hafter ?_
    rw [hnil] at hlength
    exact List.eq_nil_of_length_eq_zero (by simp at hlength; omega)
  · by_cases hfour : shown.length = 4
    · exact .inl hfour
    · have hle : (older :: shown).length ≤ (th.afterResets.rtake 4).length := by
        have hall := holder.length_le
        rw [List.length_cons] at hall ⊢
        omega
      obtain ⟨pair, hpair, hsize⟩ := hmaximal older (List.suffix_of_suffix_length_le holder hsuffix hle)
      exact .inr ⟨pair, hpair, by rwa [runes_append]⟩

theorem Anchored.step (h : th.Anchored a) (hth : th.Linear) (hstep : Step a snap P th th')
    (hP : ∀ row s, P row s → isTask s.response = true → str s.response "question" ≠ "") : th'.Anchored a := by
  obtain ⟨hcompleted, hconversation⟩ | ⟨tid, row, s, hanswers⟩ := hth.completed_step hstep
  · have hturn : th'.anchorTurn = th.anchorTurn := by rw [anchorTurn, hcompleted, anchorTurn]
    constructor
    · rw [hcompleted, hconversation]
      exact h.reset_le
    · rw [hcompleted, hconversation]
      exact h.reset_mem
    · rw [hconversation, Thread.anchor, hturn]
      exact h.anchor
    · rw [Thread.hasAnchor, hconversation, hturn]
      exact h.hasAnchor
  · exact h.answers (hth.step hstep) hanswers (hP row s hanswers.allowed)

end Thread

namespace Workbench

variable {a : App} {σ : Store} {w : Workbench} {ops : List Op}

theorem anchored_after (hσ : Initial σ)
    (hops : machine.Always (step a) (fun _ op => op.Returns) { store := σ, seq := 0, attempts := [] } ops) {id : String}
    {th : Thread} (hth : threadOf (after a σ ops).store id = some th) : th.Anchored a ∧ th.Current a := by
  refine (thread_invariant (I := fun _ th => th.Linear ∧ th.Anchored a ∧ th.Current a) hσ (fun _ now u => ?_)
    (fun w op th th' _ hop hth hstep => ?_) (fun _ _ _ _ hth => hth) hops id th hth).2
  · refine ⟨?_, ?_, fun e he => by cases he⟩ <;> constructor <;>
      simp [newConversation, Thread.completed, queryAnchor, Thread.anchor, Thread.anchorTurn, Thread.hasAnchor]
  · obtain ⟨hlinear, hanchored, hcurrent⟩ := hth
    refine ⟨hlinear.step hstep, hanchored.step hlinear hstep fun row s hrecords htask => ?_, hcurrent.step hlinear hstep⟩
    exact validContent_ne (hrecords.question hop htask)

/-- A turn that is handed out to be answered is the attempt's own. -/
theorem live_post (hw : w.Sound) (now : Time) (u id key : String) (b : ConversationInput) (newID fence : String)
    {t : Attempt} (ht : t ∈ (w.post a now u id key b newID fence).attempts) :
    t ∈ w.attempts ∨ t.Live (w.post a now u id key b newID fence).store := by
  unfold Workbench.post at ht ⊢
  cases hrun : (reserve a now u id key b newID fence (w.seq + 1)).run unlocked w.store with
  | error =>
    rw [hrun] at ht
    exact .inl ht
  | ok outcome =>
    obtain ⟨t', σ'⟩ := outcome
    rw [hrun] at ht
    obtain ⟨-, hhands⟩ := reserve_moves w.store (fun _ _ => True) hw.threaded (Nat.succ_pos _)
      (fun tid row hrow => Nat.lt_succ_of_le (hw.numbers tid row hrow)) now u id key b newID fence t' σ' hrun
    by_cases hstatus : t'.Status = .pending
    · simp only [hstatus, if_true, List.mem_append, List.mem_singleton] at ht
      obtain ht | rfl := ht
      · exact .inl ht
      · exact .inr (hhands.live hstatus)
    · simp only [hstatus, if_false] at ht
      exact .inl ht

/-- Only an attempt that nobody has taken its turn from can answer it. -/
theorem live_of_complete {t : Attempt} {now : Time} {answer : Answer} {decision : queryDecision} {σ' : Store}
    (hrun : (t.complete a now answer decision).run unlocked σ = .ok ((), σ')) : t.Live σ := by
  have hensures : Ensures unlocked (t.complete a now answer decision) σ fun _ _ => t.Live σ := by
    unfold Attempt.complete completeConversationTurn
    simp only [ensures_bind, ensures_selectForUpdate, ensures_snapshot, ensures_require, ensures_refuse,
      ensures_updateOne, Tx.pure_eq_ret, ensures_ret]
    intro _ _ _ _ _ hupdated
    obtain ⟨updated, hupdated⟩ := Option.ne_none_iff_exists'.mp hupdated
    obtain ⟨row, hrow, -⟩ := Option.map_eq_some_iff.mp hupdated
    obtain ⟨hrow, hguard⟩ := Option.filter_eq_some_iff.mp hrow
    rw [Bool.and_eq_true, decide_eq_true_eq, decide_eq_true_eq] at hguard
    exact ⟨row, hrow, hguard.2, hguard.1⟩
  exact hensures () σ' hrun

/-- Whoever may still answer a turn has been given the context as it now is; an
attempt may when it is handed out, and none that may not can answer. -/
theorem context_reset_lasting (hσ : Initial σ)
    (hops : machine.Always (step a) (fun _ op => op.Returns) { store := σ, seq := 0, attempts := [] } ops) :
    (∀ t ∈ (after a σ ops).attempts, t.Live (after a σ ops).store →
      ∃ th, threadOf (after a σ ops).store t.id = some th ∧ th.Context a t.turn.History t.turn.HasQueryAnchor) ∧
    (∀ now u id key b newID fence, ∀ t ∈ ((after a σ ops).post a now u id key b newID fence).attempts,
      t ∈ (after a σ ops).attempts ∨ t.Live ((after a σ ops).post a now u id key b newID fence).store) ∧
    ∀ (t : Attempt) now answer decision σ',
      (t.complete a now answer decision).run unlocked (after a σ ops).store = .ok ((), σ') →
        t.Live (after a σ ops).store := by
  have hw := sound_after (a := a) hσ ops
  refine ⟨fun t ht hlive => ?_, fun now u id key b newID fence t ht => live_post hw now u id key b newID fence ht,
    fun t now answer decision σ' hrun => live_of_complete hrun⟩
  obtain ⟨row, hrow, hpending, -⟩ := hlive
  obtain ⟨row', hrow', hid, hmatches⟩ := hw.issued t ht
  obtain rfl := Option.some.inj (hrow.symm.trans hrow')
  obtain ⟨th, hth, hmem⟩ := hw.threaded.exists_thread hrow
  have hlinear := linear_after hσ ops hth
  obtain ⟨hanchored, hcurrent⟩ := anchored_after hσ hops hth
  obtain ⟨hhistory, hanchor⟩ := hcurrent _ hmem (hlinear.current _ hmem hpending)
  rw [hid] at hth
  refine ⟨th, hth, ?_⟩
  rw [hmatches.history, hmatches.has_query_anchor, hanchor]
  exact hanchored.context hlinear hhistory

/-- `alice` asks a second question about the data that the first has read. -/
def following : List Op :=
  querying ++ [.post (seconds 3) "alice" "c1" "k4" { asked with Text := "按天呢", Revision := 1 } "t2" "f2"]

theorem following_returns : ∀ op ∈ following, op.Returns := by
  intro op hop
  simp only [following, querying, asking, List.cons_append, List.nil_append, List.mem_cons, List.not_mem_nil,
    or_false] at hop
  obtain rfl | rfl | rfl | rfl | rfl | rfl := hop
  · trivial
  · trivial
  · trivial
  · trivial
  · exact .warehouse "q1" "最近一周的订单量" (by decide)
  · trivial

theorem context_reset_lasting_following : ∃ t ∈ (after deployed seed following).attempts,
    t.turn.HasQueryAnchor = true ∧ ∃ th, threadOf (after deployed seed following).store t.id = some th ∧
      th.Context deployed t.turn.History true := by
  have hattempt : ((after deployed seed following).attempts[1]?).map
      (fun t => (t.turn.ID, t.turn.Fence, t.turn.HasQueryAnchor)) = some ("t2", "f2", true) := by decide +kernel
  have hturn : ((after deployed seed following).store.lookup (Key.conversation_turns "t2")).map
      (fun row => (row.status, row.fence)) = some (.pending, "f2") := by decide +kernel
  obtain ⟨t, ht, heq⟩ := Option.map_eq_some_iff.mp hattempt
  simp only [Prod.mk.injEq] at heq
  obtain ⟨hid, hfence, hanchor⟩ := heq
  obtain ⟨row, hrow, heq⟩ := Option.map_eq_some_iff.mp hturn
  obtain ⟨hstatus, hrowFence⟩ := Prod.mk.inj heq
  have hlive : t.Live (after deployed seed following).store := ⟨row, hid ▸ hrow, hstatus, hrowFence.trans hfence.symm⟩
  obtain ⟨th, hth, hcontext⟩ := (context_reset_lasting (a := deployed) seed_initial
    (machine.always_of_forall following_returns)).1 t (List.mem_of_getElem? ht) hlive
  exact ⟨t, List.mem_of_getElem? ht, hanchor, th, hth, hanchor ▸ hcontext⟩

end Workbench

end incidentdesk
