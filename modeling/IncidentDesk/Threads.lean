import Mathlib.Logic.Relation
import IncidentDesk.Workbench

namespace incidentdesk

open sql sql.Tx

/-- The turns of a conversation in the order of their numbers. -/
def thread (σ : Store) (id : String) : List (String × Turn) :=
  (turnsOf σ id).insertionSort fun e e' => e.2.seq ≤ e'.2.seq

section Order

variable {α : Type} {f : α → Nat} {l l' : List α}

/-- In a list by increasing numbers a number belongs to one element. -/
theorem eq_of_pairwise_lt (h : l.Pairwise fun x y => f x < f y) {x y : α} (hx : x ∈ l) (hy : y ∈ l)
    (heq : f x = f y) : x = y := by
  have hne {x y : α} (hlt : f x < f y) : f x ≠ f y := hlt.ne
  exact List.Pairwise.forall_of_forall_of_flip (R := fun x y => f x = f y → x = y) (fun _ _ _ => rfl)
    (h.imp fun hlt heq => absurd heq (hne hlt)) (h.imp fun hlt heq => absurd heq.symm (hne hlt)) hx hy heq

/-- Sorting by numbers that are all different has one result. -/
theorem insertionSort_eq (hl : l.Pairwise fun x y => f x < f y) (hperm : l'.Perm l) :
    l'.insertionSort (fun x y => f x ≤ f y) = l := by
  have hperm' := (List.perm_insertionSort (fun x y => f x ≤ f y) l').trans hperm
  refine List.Perm.eq_of_pairwise (fun x y hx hy hle hle' => ?_) (List.pairwise_insertionSort _ _)
    (hl.imp fun h => h.le) hperm'
  exact eq_of_pairwise_lt hl (hperm'.subset hx) hy (by omega)

theorem insertionSort_eq_reverse (hl : l.Pairwise fun x y => f x < f y) (hperm : l'.Perm l) :
    l'.insertionSort (fun x y => f y ≤ f x) = l.reverse := by
  have hperm' := (List.perm_insertionSort (fun x y => f y ≤ f x) l').trans hperm
  refine List.Perm.eq_of_pairwise (fun x y hx hy hle hle' => ?_) (List.pairwise_insertionSort _ _)
    (List.pairwise_reverse.mpr (hl.imp fun h => h.le)) (hperm'.trans (List.reverse_perm l).symm)
  exact eq_of_pairwise_lt hl (hperm'.subset hx) (List.mem_reverse.mp hy) (by omega)

end Order

/-- The turns have increasing numbers. -/
abbrev Ascending (turns : List (String × Turn)) : Prop := turns.Pairwise fun e e' => e.2.seq < e'.2.seq

section Thread

variable {σ σ' : Store} {id : String} {turns : List (String × Turn)}

theorem mem_turnsOf {tid : String} {row : Turn} :
    (tid, row) ∈ turnsOf σ id ↔ σ.lookup (Key.conversation_turns tid) = some row ∧ row.conversation = id := by
  rw [turnsOf, List.mem_filterMap]
  constructor
  · rintro ⟨⟨key, row'⟩, hmem, hkey⟩
    cases key with
    | conversation_turns tid' =>
      by_cases hid : (row' : Turn).conversation = id
      · simp only [hid, if_true, Option.some.injEq, Prod.mk.injEq] at hkey
        obtain ⟨rfl, rfl⟩ := hkey
        exact ⟨AList.mem_lookup_iff.mpr hmem, hid⟩
      · simp [hid] at hkey
    | _ => cases hkey
  · rintro ⟨hrow, hid⟩
    exact ⟨_, AList.mem_lookup_iff.mp hrow, by simp [hid]⟩

theorem turnsOf_nodup (σ : Store) (id : String) : (turnsOf σ id).Nodup := by
  refine List.Nodup.filterMap (fun ⟨key, row⟩ ⟨key', row'⟩ turn h h' => ?_) σ.nodupKeys.nodup
  cases key with
  | conversation_turns tid =>
    cases key' with
    | conversation_turns tid' => grind
    | _ => cases h'
  | _ => cases h

theorem mem_thread {e : String × Turn} : e ∈ thread σ id ↔ e ∈ turnsOf σ id := List.mem_insertionSort _

theorem thread_perm (σ : Store) (id : String) : (thread σ id).Perm (turnsOf σ id) := List.perm_insertionSort _ _

/-- The thread is the one list of the turns with increasing numbers. -/
theorem thread_eq (hturns : Ascending turns) (hmem : ∀ e, e ∈ turns ↔ e ∈ turnsOf σ id) : thread σ id = turns := by
  have hnodup : turns.Nodup := hturns.imp fun h => by rintro rfl; exact lt_irrefl _ h
  exact insertionSort_eq (f := fun e : String × Turn => e.2.seq) hturns
    ((List.perm_ext_iff_of_nodup (turnsOf_nodup σ id) hnodup).mpr fun e => (hmem e).symm)

/-- A thread is read from the rows of the turns. -/
theorem thread_congr (hσ : Ascending (thread σ id))
    (h : ∀ tid, σ'.lookup (Key.conversation_turns tid) = σ.lookup (Key.conversation_turns tid)) :
    thread σ' id = thread σ id :=
  thread_eq hσ fun ⟨tid, row⟩ => by rw [mem_thread, mem_turnsOf, mem_turnsOf, h]

/-- Turns are updated without moving them. -/
theorem thread_map {g : String → Turn → Turn} (hσ : Ascending (thread σ id))
    (hlookup : ∀ tid, σ'.lookup (Key.conversation_turns tid) = (σ.lookup (Key.conversation_turns tid)).map (g tid))
    (hconversation : ∀ tid row, (g tid row).conversation = row.conversation)
    (hseq : ∀ tid row, (g tid row).seq = row.seq) :
    thread σ' id = (thread σ id).map fun e => (e.1, g e.1 e.2) := by
  refine thread_eq ?_ fun ⟨tid, row⟩ => ?_
  · rw [Ascending, List.pairwise_map]
    simpa only [hseq] using hσ
  · rw [List.mem_map, mem_turnsOf, hlookup, Option.map_eq_some_iff]
    constructor
    · rintro ⟨⟨tid', old⟩, hmem, heq⟩
      obtain ⟨rfl, rfl⟩ := Prod.mk.inj heq
      obtain ⟨hold, hid⟩ := mem_turnsOf.mp (mem_thread.mp hmem)
      exact ⟨⟨old, hold, rfl⟩, (hconversation _ _).trans hid⟩
    · rintro ⟨⟨old, hold, rfl⟩, hid⟩
      exact ⟨(tid, old), mem_thread.mpr (mem_turnsOf.mpr ⟨hold, (hconversation _ _).symm.trans hid⟩), rfl⟩

/-- A new turn with a new number comes last. -/
theorem thread_insert {tid : String} {row : Turn} (hσ : Ascending (thread σ id))
    (hnew : σ.lookup (Key.conversation_turns tid) = none) (hlast : ∀ e ∈ thread σ id, e.2.seq < row.seq) :
    thread (σ.insert (Key.conversation_turns tid) row) id =
      thread σ id ++ if row.conversation = id then [(tid, row)] else [] := by
  refine thread_eq ?_ fun ⟨tid', row'⟩ => ?_
  · refine List.pairwise_append.mpr ⟨hσ, by split <;> simp, fun e he e' he' => ?_⟩
    split at he'
    · rw [List.mem_singleton] at he'
      exact he' ▸ hlast e he
    · cases he'
  · rw [List.mem_append, mem_thread, mem_turnsOf, mem_turnsOf]
    by_cases htid : tid' = tid
    · subst htid
      rw [AList.lookup_insert, hnew]
      by_cases hid : row.conversation = id
      · simp only [Option.some.injEq, reduceCtorEq, false_and, false_or, hid, if_true, List.mem_singleton,
          Prod.mk.injEq, true_and]
        exact ⟨fun h => ⟨h.symm, h ▸ hid⟩, fun h => h.1.symm⟩
      · simp only [Option.some.injEq, reduceCtorEq, false_and, false_or, hid, if_false, List.not_mem_nil, false_iff]
        exact fun h => hid (h.1 ▸ h.2)
    · rw [AList.lookup_insert_ne (by simpa using htid)]
      by_cases hid : row.conversation = id <;> simp [hid, htid]

end Thread

/-- The turn has made a task. -/
def Turn.madeTask (t : Turn) : Bool := t.response.any isTask

/-- A conversation with its turns. -/
structure Thread where
  conversation : Conversation
  turns : List (String × Turn)

def threadOf (σ : Store) (id : String) : Option Thread :=
  (σ.lookup (Key.conversations id)).map fun conversation => { conversation, turns := thread σ id }

namespace Thread

/-- Some turns are updated. -/
def mapTurns (g : String → Turn → Turn) (th : Thread) : Thread :=
  { th with turns := th.turns.map fun e => (e.1, g e.1 e.2) }

/-- A turn is added at the end. -/
def add (tid : String) (row : Turn) (th : Thread) : Thread := { th with turns := th.turns ++ [(tid, row)] }

def pending (th : Thread) : Bool := th.turns.any fun e => e.2.status = .pending

/-- The turns that have been answered. -/
def completed (th : Thread) : List Turn := (th.turns.map Prod.snd).filter (·.status = .completed)

/-- What the next turn is answered with. -/
def history (a : App) (th : Thread) : Option (List ConversationTurn) :=
  let recent := (th.completed.filter fun t => th.conversation.context_after_seq < t.seq).reverse.take 4
  let anchor := queryAnchor th.conversation.summary
  (recent.reverse.mapM (exchange a)).map fun pairs => anchor ++ (dropOldest (runes anchor) pairs).flatten

def hasAnchor (th : Thread) : Bool := str th.conversation.summary "resolved_question" ≠ ""

end Thread

/-- The answer of a turn, as it is stored. -/
structure Stored where
  response : Json
  status : Nat
  team : String
  dataset : String
  version : String
  now : Time

def Turn.answered (s : Stored) (row : Turn) : Turn :=
  { row with status := .completed, response := some s.response, response_status := some s.status, error := none }

/-- The conversation after a turn has been answered. -/
def Conversation.answered (a : App) (s : Stored) (tid : String) (row : Turn) (c : Conversation) : Conversation :=
  { c with
    revision := c.revision + 1
    updated_at := s.now
    title := if c.revision = 0 then shortText row.input.Text 60 else c.title
    required_teams := requireSource c.required_teams s.team
    required_datasets := requireSource c.required_datasets s.dataset
    summary := (newSummary a (row.saved tid) s.response s.dataset s.version).getD c.summary
    context_after_seq := if resets s.response then row.seq else c.context_after_seq }

/-- What can happen to a conversation: turns that were pending fail, a failed one
is tried again, a new one is added, or the pending one is answered. The answer
is one that `P` allows, and rests on sources that `snap` shows to the owner. -/
inductive Thread.Step (a : App) (snap : Store) (P : Turn → Stored → Prop) : Thread → Thread → Prop
  | close (th : Thread) (p : String → Turn → Bool) (error : Option String)
      (hp : ∀ tid row, p tid row = true → row.status = .pending) :
      Step a snap P th (th.mapTurns fun tid row => if p tid row then { row with status := .failed, error } else row)
  | retry (th : Thread) (tid fence : String) (row : Turn) (lease_until : Option Time)
      (hmem : (tid, row) ∈ th.turns) (hstatus : row.status = .failed)
      (hbase : row.base_revision = th.conversation.revision) (hpending : th.pending = false) :
      Step a snap P th (th.mapTurns fun tid' row =>
        if tid' = tid then { row with status := .pending, error := none, fence, lease_until } else row)
  | add (th : Thread) (tid : String) (row : Turn) (hstatus : row.status = .pending)
      (hbase : row.base_revision = th.conversation.revision) (hpending : th.pending = false)
      (hseq : 0 < row.seq) (hlast : ∀ e ∈ th.turns, e.2.seq < row.seq) (hlength : th.turns.length < 500)
      (hnew : ∀ e ∈ th.turns, e.1 ≠ tid) (hhistory : th.history a = some row.history)
      (hanchor : row.has_query_anchor = th.hasAnchor) (htext : validContent row.input.Text = true) :
      Step a snap P th (th.add tid row)
  | complete (th : Thread) (tid : String) (row : Turn) (s : Stored) (hmem : (tid, row) ∈ th.turns)
      (hstatus : row.status = .pending) (hbase : row.base_revision = th.conversation.revision)
      (hscope : conversationScope snap th.conversation.subject th.conversation = true)
      (hsources : turnSources snap th.conversation.subject s.response = some (s.team, s.dataset, s.version))
      (hP : P row s) :
      Step a snap P th
        { th.mapTurns (fun tid' row => if tid' = tid then row.answered s else row) with
          conversation := th.conversation.answered a s tid row }

/-- Every conversation goes on from where it was. -/
def Shifts (a : App) (snap : Store) (P : Turn → Stored → Prop) (σ σ' : Store) : Prop :=
  ∀ id th, threadOf σ id = some th →
    ∃ th', threadOf σ' id = some th' ∧ Relation.ReflTransGen (Thread.Step a snap P) th th'

/-- What ties the rows of the conversations to each other. -/
structure Threaded (σ : Store) : Prop where
  ascending : ∀ id, Ascending (thread σ id)
  conversation : ∀ tid row, σ.lookup (Key.conversation_turns tid) = some row →
    (σ.lookup (Key.conversations row.conversation)).isSome = true
  indexed : ∀ id key tid, σ.lookup (Key.conversation_turns_idem id key) = some tid →
    ∃ row, σ.lookup (Key.conversation_turns tid) = some row ∧ row.conversation = id

/-- What a transaction does to the conversations, and to nothing else. A turn that
it adds has the number `n`. -/
structure Moves (a : App) (snap : Store) (P : Turn → Stored → Prop) (n : Nat) (σ σ' : Store) : Prop where
  threaded : Threaded σ'
  shifts : Shifts a snap P σ σ'
  conversations : ∀ id, (σ'.lookup (Key.conversations id)).isSome = (σ.lookup (Key.conversations id)).isSome
  numbers : ∀ tid row', σ'.lookup (Key.conversation_turns tid) = some row' →
    row'.seq = n ∨ ∃ row, σ.lookup (Key.conversation_turns tid) = some row ∧ row.seq = row'.seq
  elsewhere : ∀ key : Key, key.conversing = false → σ'.lookup key = σ.lookup key

/-- What the handlers pass on of a turn is what its row says. -/
structure savedTurn.Matches (t : savedTurn) (row : Turn) : Prop where
  seq : t.Seq = row.seq
  base_revision : t.BaseRevision = row.base_revision
  input : t.Input = row.input
  created_at : t.CreatedAt = row.created_at
  history : t.History = row.history
  has_query_anchor : t.HasQueryAnchor = row.has_query_anchor

/-- The attempt works on a turn of its conversation. -/
def Workbench.Attempt.Issued (σ : Store) (t : Workbench.Attempt) : Prop :=
  ∃ row, σ.lookup (Key.conversation_turns t.turn.ID) = some row ∧ row.conversation = t.id ∧ t.turn.Matches row

/-- Nobody has taken the turn over. -/
def Workbench.Attempt.Live (σ : Store) (t : Workbench.Attempt) : Prop :=
  ∃ row, σ.lookup (Key.conversation_turns t.turn.ID) = some row ∧ row.status = .pending ∧ row.fence = t.turn.Fence

end incidentdesk
