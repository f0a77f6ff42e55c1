import IncidentDesk.Conversations
import IncidentDesk.Seed

namespace incidentdesk

/-- The tables of the conversations. -/
def Key.conversing : Key → Bool
  | .conversations _ | .conversations_idem _ _ | .conversation_turns _ | .conversation_turns_idem _ _ => true
  | _ => false

/-- What the rest of the system keeps of a row that it changes: whose a task is,
and what it reads. -/
def Key.settled : (key : Key) → Row key → Row key → Bool
  | .investigations _, i, i' => i'.subject = i.subject && i'.team = i.team
  | .query_datasets _, d, d' => d'.team = d.team
  | .data_queries _ _, q, q' => q'.id = q.id && q'.dataset = q.dataset
  | .data_queries_id _, key, key' => key' = key
  | _, _, _ => true

/-- Teams and datasets have names: `setMember` knows two teams, and the datasets
come with the migrations. -/
def Key.named : Key → Bool
  | .members _ team => team ≠ ""
  | .query_datasets id => id ≠ ""
  | _ => true

/-- No team and no dataset of the database is without a name. -/
def Named (σ : Store) : Prop := ∀ key, key.named = false → σ.lookup key = none

namespace Workbench

/-- A turn that some request of `u` works on. -/
structure Attempt where
  u : String
  id : String
  turn : savedTurn

/-- What `executeUnified` has written to a turn's response. -/
structure Answer where
  code : Nat
  fields : List (String × String)

end Workbench

/-- The database, the last number given to a turn, and the attempts at turns
that have been handed out. An attempt may go on after others have taken its turn
over. -/
structure Workbench where
  store : Store
  seq : Nat
  attempts : List Workbench.Attempt

namespace Workbench

/-- What can happen next, each transaction with the time at which it begins: the
rest of the system changes a row, an insert that is rolled back draws a number, a
conversation is made, a turn is posted, or one of the attempts at a turn ends
with an answer or an error. -/
inductive Op where
  | elsewhere (key : Key) (row : Row key)
  | draw
  | create (now : Time) (u key newID : String)
  | post (now : Time) (u id key : String) (b : ConversationInput) (newID fence : String)
  | complete (now : Time) (n : Nat) (answer : Answer) (decision : queryDecision)
  | fail (n : Nat) (err : Error)

def elsewhere (w : Workbench) (key : Key) (row : Row key) : Workbench :=
  if !key.conversing && key.named && (w.store.lookup key).all fun old => key.settled old row then
    { w with store := w.store.insert key row }
  else w

/-- `postConversationTurn` up to the query. -/
def reserve (a : App) (now : Time) (u id key : String) (b : ConversationInput) (newID fence : String) (seq : Nat) :
    Tx savedTurn := do
  sql.Tx.ofExcept (idemKey key)
  let b ← sql.Tx.ofExcept (normalizeConversationInput a b)
  reserveConversationTurn a now u id key b newID fence seq

def post (a : App) (w : Workbench) (now : Time) (u id key : String) (b : ConversationInput)
    (newID fence : String) : Workbench :=
  match (reserve a now u id key b newID fence (w.seq + 1)).run unlocked w.store with
  | .ok (turn, store) =>
    { store, seq := max w.seq turn.Seq
      attempts := if turn.Status = .pending then w.attempts ++ [{ u, id, turn }] else w.attempts }
  | .error _ => w

/-- `postConversationTurn` after the query. -/
def Attempt.complete (a : App) (now : Time) (t : Attempt) (answer : Answer) (decision : queryDecision) : Tx Unit :=
  completeConversationTurn a now t.u t.id t.turn (turnResponse decision t.id t.turn answer.fields) answer.code

def step (a : App) (w : Workbench) : Op → Workbench
  | .elsewhere key row => w.elsewhere key row
  | .draw => { w with seq := w.seq + 1 }
  | .create now u key newID => { w with store := commit unlocked (discard (createConversation now u key newID)) w.store }
  | .post now u id key b newID fence => w.post a now u id key b newID fence
  | .complete now n answer decision =>
    match w.attempts[n]? with
    | some t => { w with store := commit unlocked (t.complete a now answer decision) w.store }
    | none => w
  | .fail n err =>
    match w.attempts[n]? with
    | some t => { w with store := commit unlocked (failConversationTurn t.turn err) w.store }
    | none => w

/-- The workbench after a run from an initial database. -/
abbrev after (a : App) (σ : Store) (ops : List Op) : Workbench :=
  machine.run (step a) { store := σ, seq := 0, attempts := [] } ops

/-- What `alice` asks a new conversation. -/
def asked : ConversationInput := { Text := "最近一周的订单量", Timezone := "UTC", Mode := "auto", Revision := 0 }

/-- The conversation is made, and the question taken up. -/
def asking : List Op :=
  [.create 0 "alice" "k1" "c1", .post (seconds 1) "alice" "c1" "k2" asked "t1" "f1"]

/-- The model chats. -/
def chat : queryDecision :=
  { ResetContext := false, Kind := "answer", Clarification := "", Answer := "你好", Question := "" }

/-- The question is answered by what the model says. -/
def answering : List Op :=
  asking ++ [.complete (seconds 2) 0 { code := 200, fields := [("status", "answer"), ("answer", "你好")] } chat]

/-- A query of `commerce` that `alice` has made. -/
def orders : DataQuery :=
  { id := "q1", dataset := "commerce", question := "最近一周的订单量", status := .queued, request_hash := "", result := none
    progress := [], error := none, attempts := 0, lease_until := none, fence := none, created_at := seconds 1 }

/-- The question becomes that query. -/
def querying : List Op :=
  asking ++
    [.elsewhere (.data_queries_id "q1") ("alice", "k3"), .elsewhere (.data_queries "alice" "k3") orders,
      .complete (seconds 2) 0
        { code := 202, fields := [("id", "q1"), ("kind", "warehouse"), ("question", "最近一周的订单量")] }
        { chat with Kind := "warehouse", Question := "最近一周的订单量" }]

end Workbench

theorem seed_named : Named seed := by
  intro key hkey
  have hne : ∀ key', key'.named = true → key ≠ key' := by
    rintro key' hkey' rfl
    rw [hkey] at hkey'
    cases hkey'
  simp only [seed]
  repeat rw [AList.lookup_insert_ne (hne _ (by simp [Key.named]))]
  exact AList.lookup_empty key

end incidentdesk
