import IncidentDesk.Seed
import IncidentDesk.Streams

namespace incidentdesk

open sql

/-- `select seq,kind,payload from events where investigation=... and seq>n order
by seq limit 200`. -/
def eventBatch (snap : Store) (id : String) (n : Nat) : List (Nat × Event) :=
  (((eventsOf snap id).filter fun e => n < e.1).insertionSort fun e e' => e.1 ≤ e'.1).take 200

/-- The newest and the oldest number of a stream, as `events` reads them before
it sends anything; nothing is read of an investigation that is not there. -/
def eventBounds (snap : Store) (id : String) : Nat × Nat :=
  match snap.lookup (Key.investigations id) with
  | none => (0, 0)
  | some i => (i.seq, (((eventsOf snap id).map Prod.fst).min?).getD i.seq)

/-- What the server writes to a stream: an event, or the request to load the
workbench again. -/
inductive Frame where
  | event (seq : Nat) (row : Event)
  | snapshot (latest : Nat)

/-- The `id:` line of a frame. -/
def Frame.id : Frame → Nat
  | event seq _ => seq
  | snapshot latest => latest

/-- An event as it is sent. -/
def sentEvent (e : Nat × Event) : Frame := .event e.1 e.2

/-- Where a stream begins: after the cursor, or behind a snapshot if the cursor
is none of the stream's. -/
def openStream (snap : Store) (id : String) (n : Nat) : List Frame × Nat :=
  let (latest, earliest) := eventBounds snap id
  if n > latest ∨ (n > 0 ∧ n + 1 < earliest) then ([.snapshot latest], latest) else ([], n)

/-- A reader of one stream: the frames it has got, and the place of the stream
that the server has opened for it. -/
structure Reader where
  delivered : List Frame
  stream : Option Nat

/-- The `Last-Event-ID` that a reader sends. -/
def Reader.lastEventID (r : Reader) : Nat := (r.delivered.getLast?.map Frame.id).getD 0

/-- What a reader can do: open a stream, get the first `received` frames of its
next batch before the connection breaks, be refused by the access check that
precedes each batch or lose the stream otherwise, or ask for a batch as JSON. -/
inductive Reading where
  | connect
  | batch (received : Nat)
  | poll
  | close

def Reader.step (id : String) (snap : Store) (r : Reader) : Reading → Reader
  | .connect =>
    match r.stream with
    | some _ => r
    | none =>
      let (frames, n) := openStream snap id r.lastEventID
      { delivered := r.delivered ++ frames, stream := some n }
  | .batch received =>
    match r.stream with
    | none => r
    | some n =>
      let frames := (eventBatch snap id n).map sentEvent
      { delivered := r.delivered ++ frames.take received
        stream := if received < frames.length then none else some ((frames.getLast?.map Frame.id).getD n) }
  | .poll =>
    match r.stream with
    | some _ => r
    | none =>
      { r with
        delivered := r.delivered ++ (eventBatch snap id r.lastEventID).map sentEvent }
  | .close => { r with stream := none }

/-- The database with a reader of one of its streams. -/
structure Feed where
  db : Database Row Error Session
  reader : Reader

/-- The writers and the reader take turns at the boundaries of statements. -/
def Feed.step (a : App) (id : String) (f : Feed) : Move Session ⊕ Reading → Feed
  | .inl move => { f with db := f.db.step (Session.body a) move }
  | .inr reading => { f with reader := f.reader.step id f.db.store reading }

def Feed.init (σ : Store) : Feed := { db := .idle σ, reader := { delivered := [], stream := none } }

/-- The feed after a run from an initial database. -/
abbrev Feed.after (a : App) (id : String) (σ : Store) (ops : List (Move Session ⊕ Reading)) : Feed :=
  machine.run (Feed.step a id) (Feed.init σ) ops

private theorem take_range' (k s m : Nat) : (List.range' s m).take k = List.range' s (min k m) := by
  by_cases hle : m ≤ k
  · rw [List.take_range'_of_length_le hle, min_eq_right hle]
  · rw [List.take_range'_of_length_ge (by omega), min_eq_left (by omega)]

private theorem getLast_range' (n m : Nat) : ((List.range' (n + 1) m).getLast?).getD n = n + m := by
  cases m with
  | zero => rfl
  | succ m =>
    rw [List.range'_concat, List.getLast?_concat, Option.getD_some]
    omega

section Batch

variable {snap : Store} {id : String}

theorem mem_eventsOf {n : Nat} {row : Event} :
    (n, row) ∈ eventsOf snap id ↔ snap.lookup (Key.events id n) = some row := by
  rw [eventsOf, List.mem_filterMap]
  constructor
  · rintro ⟨⟨key, row'⟩, hmem, hkey⟩
    cases key with
    | events id' n' =>
      by_cases hid : id' = id
      · subst hid
        simp only [if_true, Option.some.injEq, Prod.mk.injEq] at hkey
        obtain ⟨rfl, rfl⟩ := hkey
        exact AList.mem_lookup_iff.mpr hmem
      · simp [hid] at hkey
    | _ => cases hkey
  · intro hrow
    exact ⟨_, AList.mem_lookup_iff.mp hrow, by simp⟩

/-- The number of an event of the stream. -/
def Key.seqOf (id : String) : Key → Option Nat
  | .events id' n => if id' = id then some n else none
  | _ => none

theorem map_fst_eventsOf (snap : Store) (id : String) :
    (eventsOf snap id).map Prod.fst = snap.keys.filterMap (Key.seqOf id) := by
  rw [eventsOf, List.map_filterMap, AList.keys, List.keys, List.filterMap_map]
  congr 1
  funext ⟨key, row⟩
  cases key with
  | events id' n => by_cases hid : id' = id <;> simp [Key.seqOf, hid]
  | _ => rfl

theorem eventsOf_nodup (snap : Store) (id : String) : ((eventsOf snap id).map Prod.fst).Nodup := by
  rw [map_fst_eventsOf]
  refine snap.keys_nodup.filterMap fun key key' n hn hn' => ?_
  cases key with
  | events id' n' =>
    cases key' with
    | events id'' n'' => grind [Key.seqOf]
    | _ => cases hn'
  | _ => cases hn

theorem mem_map_fst_eventsOf {n : Nat} :
    n ∈ (eventsOf snap id).map Prod.fst ↔ (snap.lookup (Key.events id n)).isSome = true := by
  rw [List.mem_map, Option.isSome_iff_exists]
  constructor
  · rintro ⟨⟨n, row⟩, hmem, rfl⟩
    exact ⟨row, mem_eventsOf.mp hmem⟩
  · rintro ⟨row, hrow⟩
    exact ⟨(n, row), mem_eventsOf.mpr hrow, rfl⟩

/-- The numbers behind a cursor, in order. -/
theorem sorted_events (h : Numbered snap.lookup) (n : Nat) :
    (((eventsOf snap id).filter fun e => n < e.1).insertionSort fun e e' => e.1 ≤ e'.1).map Prod.fst =
      List.range' (n + 1) (lastSeq snap.lookup id - n) := by
  have hperm := (List.perm_insertionSort (fun e e' : Nat × Event => e.1 ≤ e'.1)
    ((eventsOf snap id).filter fun e => n < e.1)).map Prod.fst
  have hsorted : ((((eventsOf snap id).filter fun e => n < e.1).insertionSort fun e e' => e.1 ≤ e'.1).map
      Prod.fst).Pairwise (· ≤ ·) := by
    rw [List.pairwise_map]
    exact List.pairwise_insertionSort _ _
  have hfilter : ((eventsOf snap id).filter fun e => n < e.1).map Prod.fst =
      ((eventsOf snap id).map Prod.fst).filter (n < ·) := by
    rw [List.filter_map]
    rfl
  rw [hfilter] at hperm
  refine List.Perm.eq_of_pairwise' hsorted List.pairwise_le_range' (hperm.trans ?_)
  refine (List.perm_ext_iff_of_nodup ((eventsOf_nodup snap id).filter _) List.nodup_range').mpr fun m => ?_
  rw [List.mem_filter, mem_map_fst_eventsOf, h id m, List.mem_range'_1, decide_eq_true_iff]
  omega

/-- A batch is what comes next in the stream. -/
theorem map_fst_eventBatch (h : Numbered snap.lookup) (n : Nat) :
    (eventBatch snap id n).map Prod.fst = List.range' (n + 1) (min 200 (lastSeq snap.lookup id - n)) := by
  rw [eventBatch, List.map_take, sorted_events h, take_range']

theorem mem_eventBatch {n : Nat} {e : Nat × Event} (he : e ∈ eventBatch snap id n) :
    snap.lookup (Key.events id e.1) = some e.2 := by
  have hmem := List.mem_of_mem_take he
  rw [List.mem_insertionSort] at hmem
  exact mem_eventsOf.mp (List.mem_of_mem_filter hmem)

/-- A cursor of the stream's own opens it without a snapshot. -/
theorem openStream_eq (h : Numbered snap.lookup) {n : Nat} (hn : n ≤ lastSeq snap.lookup id) :
    openStream snap id n = ([], n) := by
  unfold openStream eventBounds
  cases hi : snap.lookup (Key.investigations id) with
  | none =>
    have hlast : lastSeq snap.lookup id = 0 := by simp [lastSeq, hi]
    simp only [hlast, Nat.le_zero] at hn
    simp [hn]
  | some i =>
    have hlast : lastSeq snap.lookup id = i.seq := by simp [lastSeq, hi]
    rw [hlast] at hn
    have hearliest : ¬ (n > 0 ∧ n + 1 < (((eventsOf snap id).map Prod.fst).min?).getD i.seq) := by
      rintro ⟨hpos, hlt⟩
      have hone : 1 ∈ (eventsOf snap id).map Prod.fst := by
        rw [mem_map_fst_eventsOf, h id 1, hlast]
        omega
      cases hmin : ((eventsOf snap id).map Prod.fst).min? with
      | none =>
        rw [List.min?_eq_none_iff] at hmin
        rw [hmin] at hone
        cases hone
      | some least =>
        have hle := (List.min?_eq_some_iff.mp hmin).2 1 hone
        rw [hmin, Option.getD_some] at hlt
        omega
    simp [hearliest, hn]

end Batch

/-- A reader has got the first events of a stream of `last`, one after the
other, and the server continues its stream behind them. -/
structure Reader.Exact (last : Nat) (r : Reader) : Prop where
  ids : r.delivered.map Frame.id = List.range' 1 r.delivered.length
  le : r.delivered.length ≤ last
  stream : ∀ n, r.stream = some n → n = r.delivered.length

namespace Reader.Exact

variable {last : Nat} {r : Reader} {snap : Store} {id : String}

theorem lastEventID (h : r.Exact last) : r.lastEventID = r.delivered.length := by
  have hlast := getLast_range' 0 r.delivered.length
  rwa [← h.ids, List.getLast?_map, Nat.zero_add] at hlast

theorem mono {last' : Nat} (h : r.Exact last) (hle : last ≤ last') : r.Exact last' :=
  ⟨h.ids, h.le.trans hle, h.stream⟩

/-- The numbers of the frames of the next batch. -/
theorem ids_frames (hsnap : Numbered snap.lookup) (id : String) (n : Nat) :
    ((eventBatch snap id n).map sentEvent).map Frame.id =
      List.range' (n + 1) (min 200 (lastSeq snap.lookup id - n)) := by
  have hid : Frame.id ∘ sentEvent = Prod.fst := rfl
  rw [List.map_map, hid, map_fst_eventBatch hsnap]

/-- The reader gets some frames of the next batch. -/
theorem deliver (hsnap : Numbered snap.lookup) (h : r.Exact (lastSeq snap.lookup id)) (received : Nat)
    {stream : Option Nat} (hstream : ∀ n, stream = some n → n = r.delivered.length +
      min received (min 200 (lastSeq snap.lookup id - r.delivered.length))) :
    Reader.Exact (lastSeq snap.lookup id)
      { delivered := r.delivered ++ ((eventBatch snap id r.delivered.length).map sentEvent).take received
        stream } := by
  have hframes := congrArg (List.take received) (ids_frames hsnap id r.delivered.length)
  rw [← List.map_take, take_range'] at hframes
  have hlength := congrArg List.length hframes
  rw [List.length_map, List.length_range'] at hlength
  have hle := h.le
  constructor
  · rw [List.map_append, hframes, h.ids, List.length_append, hlength, Nat.add_comm r.delivered.length 1,
      List.range'_append_1]
  · rw [List.length_append, hlength]
    omega
  · intro n hn
    rw [List.length_append, hlength]
    exact hstream n hn

/-- Whatever a reader does leaves it with the first events of the stream. -/
theorem step (hsnap : Numbered snap.lookup) (h : r.Exact (lastSeq snap.lookup id)) (reading : Reading) :
    (r.step id snap reading).Exact (lastSeq snap.lookup id) := by
  obtain ⟨delivered, stream⟩ := r
  cases reading with
  | connect =>
    cases stream with
    | some n => exact h
    | none =>
      simp only [Reader.step, h.lastEventID, openStream_eq hsnap h.le, List.append_nil]
      exact ⟨h.ids, h.le, by rintro _ ⟨⟩; rfl⟩
  | batch received =>
    cases stream with
    | none => exact h
    | some n =>
      obtain rfl : n = delivered.length := h.stream n rfl
      simp only [Reader.step]
      refine h.deliver hsnap received fun n hn => ?_
      have hframes := ids_frames hsnap id delivered.length
      have hlength := congrArg List.length hframes
      rw [List.length_map, List.length_range'] at hlength
      by_cases hlost : received < ((eventBatch snap id delivered.length).map sentEvent).length
      · rw [if_pos hlost] at hn
        cases hn
      · rw [if_neg hlost, ← List.getLast?_map, hframes, getLast_range', Option.some.injEq] at hn
        simp only
        omega
  | poll =>
    cases stream with
    | some n => exact h
    | none =>
      have hdeliver := h.deliver hsnap 200 fun n (hn : none = some n) => by cases hn
      rw [List.take_of_length_le] at hdeliver
      · simp only [Reader.step, h.lastEventID]
        exact hdeliver
      · simp [eventBatch]
  | close => exact ⟨h.ids, h.le, by rintro _ ⟨⟩⟩

end Reader.Exact

/-- The frames are events of the stream as they were at some time of the run. -/
def Feed.Sent (a : App) (id : String) (σ : Store) (ops : List (Move Session ⊕ Reading)) (frame : Frame) : Prop :=
  ∃ n row pre post, frame = .event n row ∧ ops = pre ++ post ∧
    (Feed.after a id σ pre).db.store.lookup (Key.events id n) = some row

/-- What a reader gets at a time is there at that time. -/
theorem Reader.mem_delivered_step {id : String} {snap : Store} {r : Reader} (hsnap : Numbered snap.lookup)
    (h : r.Exact (lastSeq snap.lookup id)) {reading : Reading} {frame : Frame}
    (hframe : frame ∈ (r.step id snap reading).delivered) :
    frame ∈ r.delivered ∨ ∃ n row, frame = .event n row ∧ snap.lookup (Key.events id n) = some row := by
  have hbatch {n received : Nat} {frames : List Frame} (hframes : frames = ((eventBatch snap id n).map sentEvent).take received)
      (hmem : frame ∈ frames) : ∃ n row, frame = .event n row ∧ snap.lookup (Key.events id n) = some row := by
    rw [hframes] at hmem
    obtain ⟨e, he, rfl⟩ := List.mem_map.mp (List.mem_of_mem_take hmem)
    exact ⟨e.1, e.2, rfl, mem_eventBatch he⟩
  obtain ⟨delivered, stream⟩ := r
  cases reading with
  | close => exact .inl hframe
  | connect =>
    cases stream with
    | some n => exact .inl hframe
    | none =>
      simp only [Reader.step, h.lastEventID, openStream_eq hsnap h.le, List.append_nil] at hframe
      exact .inl hframe
  | batch received =>
    cases stream with
    | none => exact .inl hframe
    | some n => exact (List.mem_append.mp hframe).imp_right (hbatch rfl)
  | poll =>
    cases stream with
    | some n => exact .inl hframe
    | none => exact (List.mem_append.mp hframe).imp_right (hbatch (List.take_length).symm)

/-- The streams are complete, and the reader has got the first events of its own. -/
theorem Feed.sound_after (a : App) (id : String) {σ : Store} (hσ : Initial σ) (ops : List (Move Session ⊕ Reading)) :
    (Feed.after a id σ ops).db.Sound streams (fun _ _ _ _ => True) (fun _ => Complete) ∧
      (Feed.after a id σ ops).reader.Exact (lastSeq (Feed.after a id σ ops).db.store.lookup id) ∧
      ∀ frame ∈ (Feed.after a id σ ops).reader.delivered, Feed.Sent a id σ ops frame := by
  refine machine.run_induction (P := fun ops (f : Feed) => f.db.Sound streams (fun _ _ _ _ => True) (fun _ => Complete) ∧
    f.reader.Exact (lastSeq f.db.store.lookup id) ∧ ∀ frame ∈ f.reader.delivered, Feed.Sent a id σ ops frame)
    ?_ ?_ ops
  · have hnone (id : String) : lastSeq σ.lookup id = 0 := by simp [lastSeq, hσ (Key.investigations id) rfl]
    refine ⟨.idle fun id n => ?_, ⟨rfl, Nat.zero_le _, by rintro _ ⟨⟩⟩, by simp [Feed.init]⟩
    rw [hnone]
    simp only [hσ (Key.events id n) rfl, Option.isSome_none, Bool.false_eq_true, false_iff]
    omega
  · rintro ops op ⟨hsound, hexact, hsent⟩
    have hsent' {frame : Frame} (h : Feed.Sent a id σ ops frame) : Feed.Sent a id σ (ops ++ [op]) frame := by
      obtain ⟨n, row, pre, post, hframe, rfl, hrow⟩ := h
      exact ⟨n, row, pre, post ++ [op], hframe, List.append_assoc _ _ _, hrow⟩
    cases op with
    | inl move =>
      have hwrites : Feed.after a id σ ops |>.db.Writes (fun _ _ _ _ => True) move := fun _ _ _ _ _ _ _ _ _ => trivial
      obtain ⟨hsound', hstep⟩ := hsound.step (streams_proved a) hwrites
      exact ⟨hsound', hexact.mono (hstep id), fun frame hframe => hsent' (hsent frame hframe)⟩
    | inr reading =>
      refine ⟨hsound, hexact.step hsound.inv reading, fun frame hframe => ?_⟩
      obtain hframe | ⟨n, row, rfl, hrow⟩ := Reader.mem_delivered_step hsound.inv hexact hframe
      · exact hsent' (hsent frame hframe)
      · exact ⟨n, row, ops, [.inr reading], rfl, rfl, hrow⟩

/-- The reader asks for its next batch, and nothing of the answer is lost. -/
def Reader.Asks (r : Reader) : Reading → Prop
  | .poll => r.stream = none
  | .batch received => r.stream ≠ none ∧ 200 ≤ received
  | _ => False

/-- A reader that asks gets the next events, up to the last one. -/
theorem Reader.length_of_asks {id : String} {snap : Store} {r : Reader} (hsnap : Numbered snap.lookup)
    (h : r.Exact (lastSeq snap.lookup id)) {reading : Reading} (hasks : r.Asks reading) :
    (r.step id snap reading).delivered.length = min (r.delivered.length + 200) (lastSeq snap.lookup id) := by
  have hlength := congrArg List.length (Reader.Exact.ids_frames hsnap id r.delivered.length)
  rw [List.length_map, List.length_range'] at hlength
  have hle := h.le
  obtain ⟨delivered, stream⟩ := r
  cases reading with
  | connect | close => cases hasks
  | batch received =>
    obtain ⟨hstream, hreceived⟩ := hasks
    obtain ⟨n, rfl⟩ := Option.ne_none_iff_exists'.mp hstream
    obtain rfl : n = delivered.length := h.stream n rfl
    simp only [Reader.step, List.length_append, List.length_take] at hlength hle ⊢
    omega
  | poll =>
    obtain rfl : stream = none := hasks
    simp only [Reader.step, h.lastEventID, List.length_append] at hlength hle ⊢
    omega

/-- However transactions and the reader interleave, the events of every
investigation are numbered without a gap, and the reader has got the first ones
of its stream once each and in order; the next batch goes on from there. -/
theorem event_streams_exact (a : App) (id : String) {σ : Store} (hσ : Initial σ)
    (ops : List (Move Session ⊕ Reading)) :
    let f := Feed.after a id σ ops
    (∀ id n, (f.db.store.lookup (Key.events id n)).isSome = true ↔
        ∃ i, f.db.store.lookup (Key.investigations id) = some i ∧ 1 ≤ n ∧ n ≤ i.seq) ∧
      f.reader.delivered.map Frame.id = List.range' 1 f.reader.delivered.length ∧
      f.reader.delivered.length ≤ lastSeq f.db.store.lookup id ∧
      (∀ frame ∈ f.reader.delivered, Feed.Sent a id σ ops frame) ∧
      ∀ reading, f.reader.Asks reading → (f.step a id (.inr reading)).reader.delivered.length =
        min (f.reader.delivered.length + 200) (lastSeq f.db.store.lookup id) := by
  obtain ⟨hsound, hexact, hsent⟩ := Feed.sound_after a id hσ ops
  refine ⟨fun id' n => ?_, hexact.ids, hexact.le, hsent,
    fun reading hasks => Reader.length_of_asks hsound.inv hexact hasks⟩
  rw [hsound.inv id' n, lastSeq]
  cases hi : (Feed.after a id σ ops).db.store.lookup (Key.investigations id') with
  | none =>
    simp only [Option.map_none, Option.getD_none, reduceCtorEq, false_and, exists_false, iff_false]
    omega
  | some i => simp

/-- An investigation is made, request by request, and its stream is read. -/
def following : List (Move Session ⊕ Reading) :=
  .inl (.start 0 (0, .request (.createTask "alice" symptom "h1" "k1" "i1" "r1"))) ::
    List.replicate 17 (.inl (.exec 0)) ++ [.inr .connect, .inr (.batch 200)]

theorem event_streams_exact_following :
    (Feed.after deployed "i1" seed following).reader.delivered.length = 1 ∧
      (Feed.after deployed "i1" seed following).reader.delivered.map Frame.id = List.range' 1
        (Feed.after deployed "i1" seed following).reader.delivered.length :=
  ⟨by decide, (event_streams_exact deployed "i1" seed_initial following).2.1⟩

end incidentdesk
