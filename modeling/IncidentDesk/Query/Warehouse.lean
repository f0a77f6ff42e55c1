import IncidentDesk.Query.Agent
import IncidentDesk.Traversal

namespace incidentdesk.agent

open Routine
open query (Tree MAX_ROWS)

variable {kit : Toolkit} {question : String} {state : DataAgentState} {α β : Type}

/-- What the guard has let through, or what the program itself says. -/
inductive Statement.Guarded (kit : Toolkit) : Statement → Prop where
  | version : Guarded kit .version
  | set_timeout : Guarded kit .set_timeout
  | explain (text sql : String) (h : kit.safe_sql text = .ok sql) : Guarded kit (.explain sql)
  | query (text sql : String) (h : kit.safe_sql text = .ok sql) : Guarded kit (.query sql)

/-- An entry of a run that has not come to its query. -/
def Quiet (kit : Toolkit) : Entry → Prop
  | .written (.progress _ _) => True
  | .written (.result _ _ _) => False
  | .sent (.query _) => False
  | .sent statement => statement.Guarded kit
  | .heard _ _ => True

def isProgress : Entry → Bool
  | .written (.progress _ _) => true
  | _ => false

/-- The statement that is shown has passed the guard and all checks, and the one that is
run is what the guard makes of it. -/
structure Cleared (kit : Toolkit) (question shown sql : String) : Prop where
  guarded : ∃ text, kit.safe_sql text = .ok shown
  contracts : kit.contracts question shown = .ok ()
  run : kit.safe_sql shown = .ok sql

/-- What the last node does up to its query. -/
def opening (sql : String) (explained timed : Answer) : List Entry :=
  [.written (.progress "执行SQL" "running"), .sent (.explain sql), .heard (some (.explain sql)) (.ok explained),
    .sent .set_timeout, .heard (some .set_timeout) (.ok timed), .sent (.query sql)]

/-- What it does after its query has been answered. -/
def closing (shown sql : String) (answer : Answer) : List Entry :=
  [.heard (some (.query sql)) (.ok answer), .written (.progress "执行SQL" "success"),
    .written (.result answer.rows shown MAX_ROWS)]

/-- What can stand after the query. -/
inductive Ending (shown sql : String) : List Entry → Prop where
  | closing (answer : Answer) (n : Nat) : Ending shown sql ((closing shown sql answer).take n)
  | failed (e : String) : Ending shown sql [.heard (some (.query sql)) (.error e)]
  | told (e : String) : Ending shown sql [.heard (some (.query sql)) (.error e), .written (.progress "执行SQL" "error")]

/-- A trace with the one query of a run at its end. -/
def Queried (kit : Toolkit) (question : String) (trace : List Entry) : Prop :=
  ∃ shown sql explained timed ending, Cleared kit question shown sql ∧ Ending shown sql ending ∧
    trace = opening sql explained timed ++ ending

/-- What is true of the entries of one node. -/
structure Invariant (kit : Toolkit) (question : String) (name : Name) (trace : List Entry) : Prop where
  progress : trace.countP isProgress ≤ 2
  entries : (∀ entry ∈ trace, Quiet kit entry) ∨ name = .run_sql ∧ Queried kit question trace

/-- What is true when it has returned. -/
def Returned (kit : Toolkit) (question : String) (name : Name)
    (result : Except String (DataAgentState → DataAgentState)) (trace : List Entry) : Prop :=
  (∀ update, result = .ok update → ∀ state : DataAgentState, (update state).query = state.query) ∧
    (name = .run_sql → result.isOk → ∃ shown sql explained timed answer, Cleared kit question shown sql ∧
      trace = opening sql explained timed ++ closing shown sql answer)

section Rules

variable {I : List Entry → Prop} {Q : Except String α → List Entry → Prop} {trace : List Entry}

theorem meets_writer {chunk : Chunk} {Q : Except String Unit → List Entry → Prop} :
    (Coroutine.writer chunk).run.Meets I Q trace ↔
      I (trace ++ [.written chunk]) ∧ Q (.ok ()) (trace ++ [.written chunk]) :=
  Iff.rfl

theorem meets_call {Q : Except String Answer → List Entry → Prop} :
    Coroutine.call.run.Meets I Q trace ↔
      ∀ answer, I (trace ++ [.heard none answer]) ∧ Q answer (trace ++ [.heard none answer]) :=
  Iff.rfl

theorem meets_execute {statement : Statement} {Q : Except String Answer → List Entry → Prop} :
    (Coroutine.execute statement).run.Meets I Q trace ↔
      I (trace ++ [.sent statement]) ∧ ∀ answer,
        I (trace ++ [.sent statement] ++ [.heard (some statement) answer]) ∧
          Q answer (trace ++ [.sent statement] ++ [.heard (some statement) answer]) :=
  Iff.rfl

theorem meets_liftM {result : Except String α} :
    (liftM result : Coroutine α).run.Meets I Q trace ↔ Q result trace := by
  cases result <;> exact Iff.rfl

theorem meets_attempt {step : String} {body : Coroutine α} :
    (attempt step body).run.Meets I Q trace ↔
      I (trace ++ [.written (.progress step "running")]) ∧
        body.run.Meets I (Ends (fun result trace => Q (.ok result) trace) fun e trace =>
          I (trace ++ [.written (.progress step "error")]) ∧
            Q (.error e) (trace ++ [.written (.progress step "error")]))
          (trace ++ [.written (.progress step "running")]) := by
  unfold attempt
  rw [meets_run_bind, meets_writer]
  refine and_congr Iff.rfl ?_
  change Meets I Q (tryCatch body _).run _ ↔ _
  rw [meets_run_tryCatch]
  exact Iff.rfl

end Rules

/-- A quiet trace with no more than some progress. -/
structure Calm (kit : Toolkit) (n : Nat) (trace : List Entry) : Prop where
  quiet : ∀ entry ∈ trace, Quiet kit entry
  progress : trace.countP isProgress ≤ n

namespace Calm

variable {n : Nat} {trace : List Entry} {name : Name}

theorem nil : Calm kit 0 [] := ⟨fun _ h => (List.not_mem_nil h).elim, Nat.le_refl _⟩

theorem snoc {entry : Entry} (h : Calm kit n trace) (hquiet : Quiet kit entry)
    (hentry : isProgress entry = false) : Calm kit n (trace ++ [entry]) where
  quiet := List.forall_mem_append.mpr ⟨h.quiet, List.forall_mem_singleton.mpr hquiet⟩
  progress := by
    rw [List.countP_append, List.countP_singleton, hentry]
    exact h.progress

theorem write (h : Calm kit n trace) (step status : String) :
    Calm kit (n + 1) (trace ++ [.written (.progress step status)]) where
  quiet := List.forall_mem_append.mpr ⟨h.quiet, List.forall_mem_singleton.mpr trivial⟩
  progress := by
    rw [List.countP_append, List.countP_singleton]
    exact Nat.succ_le_succ h.progress

theorem mono {m : Nat} (h : Calm kit n trace) (hle : n ≤ m) : Calm kit m trace := ⟨h.quiet, Nat.le_trans h.progress hle⟩

theorem invariant (h : Calm kit 2 trace) : Invariant kit question name trace := ⟨h.progress, .inl h.quiet⟩

end Calm

section Nodes

variable {name : Name}

/-- A node other than the last one, which stays quiet, has one progress to tell between
its beginning and its failure. -/
theorem meets_node {step : String} {body : Coroutine (DataAgentState → DataAgentState)} (hname : name ≠ .run_sql)
    (hbody : ∀ trace, Calm kit 1 trace → body.run.Meets (Invariant kit question name)
      (Ends (fun update trace => Calm kit 2 trace ∧ ∀ state, (update state).query = state.query)
        fun _ trace => Calm kit 1 trace) trace) :
    (attempt step body).run.Meets (Invariant kit question name) (Returned kit question name) [] := by
  have hbegun := (Calm.nil : Calm kit 0 []).write step "running"
  refine meets_attempt.mpr ⟨(hbegun.mono (by omega)).invariant, (hbody _ hbegun).imp ?_⟩
  rintro (e | update) trace hend
  · refine ⟨(hend.write _ _).invariant, ?_, fun h => (hname h).elim⟩
    rintro update ⟨⟩
  · refine ⟨?_, fun h => (hname h).elim⟩
    rintro update ⟨⟩
    exact hend.2

variable {trace : List Entry}

/-- A quiet answer to a call. -/
theorem Calm.meets_call {n : Nat} {Q : Except String Answer → List Entry → Prop} (h : Calm kit n trace) (hn : n ≤ 2)
    (hQ : ∀ answer trace, Calm kit n trace → Q answer trace) :
    Coroutine.call.run.Meets (Invariant kit question name) Q trace := by
  intro answer
  have hheard : Calm kit n (trace ++ [.heard none answer]) := h.snoc trivial rfl
  exact ⟨(hheard.mono hn).invariant, hQ answer _ hheard⟩

theorem Calm.meets_execute {statement : Statement} {n : Nat} {Q : Except String Answer → List Entry → Prop}
    (h : Calm kit n trace) (hn : n ≤ 2) (hstatement : Quiet kit (.sent statement))
    (hQ : ∀ answer, Calm kit n (trace ++ [.sent statement] ++ [.heard (some statement) answer]) →
      Q answer (trace ++ [.sent statement] ++ [.heard (some statement) answer])) :
    (Coroutine.execute statement).run.Meets (Invariant kit question name) Q trace := by
  have hsent := h.snoc hstatement rfl
  refine ⟨(hsent.mono hn).invariant, fun answer => ?_⟩
  have hheard : Calm kit n (trace ++ [.sent statement] ++ [.heard (some statement) answer]) := hsent.snoc trivial rfl
  exact ⟨(hheard.mono hn).invariant, hQ answer hheard⟩

theorem meets_gather {step : String} {body : Coroutine Answer} (hname : name ≠ .run_sql)
    (hbody : ∀ trace Q, Calm kit 1 trace → (∀ answer trace, Calm kit 1 trace → Q answer trace) →
      body.run.Meets (Invariant kit question name) Q trace) :
    (gather step body).run.Meets (Invariant kit question name) (Returned kit question name) [] := by
  refine meets_node hname fun trace htrace => meets_run_bind.mpr (hbody _ _ htrace ?_)
  rintro (e | answer) trace htrace
  · exact htrace
  · have hwritten := htrace.write step "success"
    exact meets_run_bind.mpr (meets_writer.mpr ⟨hwritten.invariant, hwritten, fun _ => rfl⟩)

theorem meets_generate_sql :
    generate_sql.run.Meets (Invariant kit question .generate_sql) (Returned kit question .generate_sql) [] := by
  refine meets_node (by decide) fun trace htrace => meets_run_bind.mpr (htrace.meets_call (by omega) ?_)
  rintro (e | answer) trace htrace
  · exact htrace
  · simp only [Ends]
    cases unsupported? (strip answer.text) with
    | some reason => exact meets_run_bind.mpr (meets_run_throw.mpr htrace)
    | none =>
      have hwritten := htrace.write "生成SQL" "success"
      exact meets_run_bind.mpr (meets_writer.mpr ⟨hwritten.invariant, hwritten, fun _ => rfl⟩)

theorem meets_getSql {Q : Except String String → List Entry → Prop}
    (hQ : ∀ result, Q result trace) : state.getSql.run.Meets (Invariant kit question name) Q trace := by
  unfold DataAgentState.getSql
  split
  · exact meets_run_pure.mpr (hQ _)
  · exact meets_run_throw.mpr (hQ _)

theorem meets_correct_sql :
    (correct_sql state).run.Meets (Invariant kit question .correct_sql) (Returned kit question .correct_sql) [] := by
  refine meets_node (by decide) fun trace htrace => meets_run_bind.mpr (meets_getSql ?_)
  rintro (e | sql)
  · exact htrace
  · refine meets_run_bind.mpr (htrace.meets_call (by omega) ?_)
    rintro (e | answer) trace htrace
    · exact htrace
    · have hwritten := htrace.write "校正SQL" "success"
      exact meets_run_bind.mpr (meets_writer.mpr ⟨hwritten.invariant, hwritten, fun _ => rfl⟩)

/-- The check by the warehouse, which gets no more than a guarded statement to explain. -/
theorem Calm.meets_validate {sql : String} {n : Nat} {Q : Except String Unit → List Entry → Prop}
    (h : Calm kit n trace) (hn : n ≤ 2) (hQ : ∀ result trace, Calm kit n trace → Q result trace) :
    (validate kit sql).run.Meets (Invariant kit question name) Q trace := by
  refine meets_run_bind.mpr (meets_liftM.mpr ?_)
  cases hsafe : kit.safe_sql sql with
  | error e => exact hQ _ _ h
  | ok out =>
    refine meets_run_bind.mpr (h.meets_execute hn (.explain sql out hsafe) ?_)
    rintro (e | answer) htrace
    · exact hQ _ _ htrace
    · exact hQ _ _ htrace

theorem meets_validate_sql :
    (validate_sql kit state).run.Meets (Invariant kit question .validate_sql) (Returned kit question .validate_sql)
      [] := by
  refine meets_node (by decide) fun trace htrace => meets_run_bind.mpr (meets_getSql ?_)
  rintro (e | sql)
  · exact htrace
  · have hend (trace : List Entry) (update : DataAgentState → DataAgentState)
        (hupdate : ∀ state, (update state).query = state.query) (htrace : Calm kit 1 trace) :
        (do Coroutine.writer (.progress "校验SQL" "success"); pure update : Coroutine _).run.Meets
          (Invariant kit question .validate_sql)
          (Ends (fun update trace => Calm kit 2 trace ∧ ∀ state : DataAgentState, (update state).query = state.query)
            fun _ trace => Calm kit 1 trace) trace := by
      have hwritten := htrace.write "校验SQL" "success"
      exact meets_run_bind.mpr (meets_writer.mpr ⟨hwritten.invariant, hwritten, hupdate⟩)
    refine meets_run_tryCatch.mpr (meets_run_bind.mpr (meets_liftM.mpr ?_))
    cases kit.contracts state.query sql with
    | error e => exact hend _ _ (fun _ => rfl) htrace
    | ok =>
      refine meets_run_bind.mpr (htrace.meets_validate (by omega) ?_)
      rintro (e | _) trace htrace
      · exact hend _ _ (fun _ => rfl) htrace
      · have hwritten := htrace.write "校验SQL" "success"
        exact meets_run_bind.mpr (meets_writer.mpr ⟨hwritten.invariant, hwritten, fun _ => rfl⟩)

/-- A run that fails before its query. -/
theorem Calm.returned_error (h : Calm kit 1 trace) (e : String) :
    Invariant kit question name (trace ++ [.written (.progress "执行SQL" "error")]) ∧
      Returned kit question name (.error e) (trace ++ [.written (.progress "执行SQL" "error")]) := by
  refine ⟨(h.write _ _).invariant, ?_, ?_⟩
  · rintro update ⟨⟩
  · rintro - ⟨⟩

theorem Cleared.invariant {shown sql : String} (h : Cleared kit question shown sql) {explained timed : Answer}
    {ending trace : List Entry} (hending : Ending shown sql ending) (htrace : trace = opening sql explained timed ++ ending)
    (hcount : trace.countP isProgress ≤ 2) : Invariant kit question .run_sql trace :=
  ⟨hcount, .inr ⟨rfl, shown, sql, explained, timed, ending, h, hending, htrace⟩⟩

theorem Cleared.meets_query {shown sql : String} (h : Cleared kit question shown sql) {explained timed : Answer}
    {Q : Except String Answer → List Entry → Prop}
    (herror : ∀ e, Q (.error e) (opening sql explained timed ++ [.heard (some (.query sql)) (.error e)]))
    (hok : ∀ answer, Q (.ok answer) (opening sql explained timed ++ [.heard (some (.query sql)) (.ok answer)])) :
    (Coroutine.execute (.query sql)).run.Meets (Invariant kit question .run_sql) Q
      ((opening sql explained timed).take 5) := by
  refine ⟨h.invariant (.closing ⟨"", []⟩ 0) rfl (Nat.le_of_ble_eq_true rfl), ?_⟩
  rintro (e | answer)
  · exact ⟨h.invariant (.failed e) rfl (Nat.le_of_ble_eq_true rfl), herror e⟩
  · exact ⟨h.invariant (.closing answer 1) rfl (Nat.le_of_ble_eq_true rfl), hok answer⟩

theorem meets_run_sql (hstate : state.query = question) :
    (run_sql kit state).run.Meets (Invariant kit question .run_sql) (Returned kit question .run_sql) [] := by
  have hbegun := (Calm.nil : Calm kit 0 []).write "执行SQL" "running"
  refine meets_attempt.mpr ⟨(hbegun.mono (by omega)).invariant, meets_run_bind.mpr (meets_getSql ?_)⟩
  rintro (e | text)
  · exact hbegun.returned_error e
  refine meets_run_bind.mpr (meets_liftM.mpr ?_)
  cases hshown : kit.safe_sql text with
  | error e => exact hbegun.returned_error e
  | ok shown =>
    refine meets_run_bind.mpr (meets_liftM.mpr ?_)
    rw [hstate]
    cases hcontracts : kit.contracts question shown with
    | error e => exact hbegun.returned_error e
    | ok =>
      refine meets_run_bind.mpr (meets_run_bind.mpr (meets_liftM.mpr ?_))
      cases hsql : kit.safe_sql shown with
      | error e => exact hbegun.returned_error e
      | ok sql =>
        have hcleared : Cleared kit question shown sql := ⟨⟨text, hshown⟩, hcontracts, hsql⟩
        refine meets_run_bind.mpr (hbegun.meets_execute (by omega) (.explain shown sql hsql) ?_)
        rintro (e | explained) hexplained
        · exact hexplained.returned_error e
        refine meets_run_bind.mpr (meets_run_bind.mpr (meets_liftM.mpr ?_))
        rw [hsql]
        refine meets_run_bind.mpr (hexplained.meets_execute (by omega) .set_timeout ?_)
        rintro (e | timed) htimed
        · exact htimed.returned_error e
        have hinvariant {ending : List Entry} (hending : Ending shown sql ending)
            (hcount : (opening sql explained timed ++ ending).countP isProgress ≤ 2) :=
          hcleared.invariant hending rfl hcount
        refine meets_run_bind.mpr (hcleared.meets_query (fun e => ?_) fun answer => ?_)
        · refine ⟨hinvariant (.told e) (Nat.le_of_ble_eq_true rfl), ?_, ?_⟩
          · rintro update ⟨⟩
          · rintro - ⟨⟩
        · have hsuccess := hinvariant (.closing answer 2) (Nat.le_of_ble_eq_true rfl)
          have hresult := hinvariant (.closing answer 3) (Nat.le_of_ble_eq_true rfl)
          refine meets_run_bind.mpr (meets_writer.mpr ⟨hsuccess, meets_run_bind.mpr (meets_writer.mpr ⟨hresult, ?_, ?_⟩)⟩)
          · rintro update ⟨⟩ state
            rfl
          · exact fun _ _ => ⟨shown, sql, explained, timed, answer, hcleared, rfl⟩

theorem node_sound (hstate : state.query = question) (name : Name) :
    Crew.Member (Invariant kit question) (Returned kit question) (name, (node kit state name).run) [] := by
  refine ⟨(Calm.nil.mono (by omega)).invariant, ?_⟩
  have hcall {name : Name} {step : String} (hname : name ≠ .run_sql) :
      (gather step Coroutine.call).run.Meets (Invariant kit question name) (Returned kit question name) [] :=
    meets_gather hname fun _ _ htrace hQ => htrace.meets_call (by omega) hQ
  cases name with
  | run_sql => exact meets_run_sql hstate
  | correct_sql => exact meets_correct_sql
  | validate_sql => exact meets_validate_sql
  | generate_sql => exact meets_generate_sql
  | add_extra_context =>
    refine meets_gather Name.noConfusion fun _ _ htrace hQ => ?_
    exact htrace.meets_execute (by omega) .version fun answer hheard => hQ answer _ hheard
  | _ => exact hcall Name.noConfusion

end Nodes

/-- The supersteps that a run can come to, and how many progresses can follow them. -/
def waves : List (List Name × Nat) :=
  [([.extract_keywords], 22), ([.recall_column, .recall_value, .recall_metric], 16), ([.merge_retrieved_info], 14),
    ([.filter_table, .filter_metric], 10), ([.add_extra_context], 8), ([.generate_sql], 6), ([.validate_sql], 4),
    ([.correct_sql], 2), ([.run_sql], 0)]

/-- What follows a superstep. -/
theorem waves_next (state : DataAgentState) {names : List Name} {left : Nat} (h : (names, left) ∈ waves) :
    names = [.run_sql] ∧ successors state names = [] ∨
      ∃ left', (successors state names, left') ∈ waves ∧ 2 * (successors state names).length + left' ≤ left := by
  have hnext (left' : Nat) (hmem : waves.elem (successors state names, left') = true)
      (hle : (2 * (successors state names).length + left').ble left = true) :
      ∃ left', (successors state names, left') ∈ waves ∧ 2 * (successors state names).length + left' ≤ left :=
    ⟨left', List.mem_of_elem_eq_true hmem, Nat.le_of_ble_eq_true hle⟩
  simp only [waves, List.mem_cons, List.not_mem_nil, or_false, Prod.mk.injEq] at h
  rcases h with ⟨rfl, rfl⟩ | ⟨rfl, rfl⟩ | ⟨rfl, rfl⟩ | ⟨rfl, rfl⟩ | ⟨rfl, rfl⟩ | ⟨rfl, rfl⟩ | ⟨rfl, rfl⟩ |
    ⟨rfl, rfl⟩ | ⟨rfl, rfl⟩
  · exact .inr (hnext 16 rfl rfl)
  · exact .inr (hnext 14 rfl rfl)
  · exact .inr (hnext 10 rfl rfl)
  · exact .inr (hnext 8 rfl rfl)
  · exact .inr (hnext 6 rfl rfl)
  · exact .inr (hnext 4 rfl rfl)
  · right
    by_cases herror : state.error = none
    · have hrun : successors state [.validate_sql] = [.run_sql] := by
        rw [successors, List.flatMap_singleton, edges, if_pos herror]
        rfl
      refine ⟨0, ?_, ?_⟩
      all_goals rw [hrun]
      · decide
      · decide
    · have hcorrect : successors state [.validate_sql] = [.correct_sql] := by
        rw [successors, List.flatMap_singleton, edges, if_neg herror]
        rfl
      refine ⟨2, ?_, ?_⟩
      all_goals rw [hcorrect]
      · decide
      · decide
  · exact .inr (hnext 0 rfl rfl)
  · exact .inl ⟨rfl, rfl⟩

theorem waves_nonempty : ∀ wave ∈ waves, wave.1 ≠ [] := by decide

theorem waves_run : ∀ wave ∈ waves, Name.run_sql ∈ wave.1 → wave.1 = [.run_sql] := by decide

namespace Graph

variable {graph : Graph}

/-- A run that is under way: what its earlier supersteps have done is quiet, and the
nodes of this one are as they should be. -/
structure Gathered (kit : Toolkit) (question : String) (graph : Graph) (before now : List Entry) : Prop where
  query : graph.state.query = question
  trace : graph.trace = before ++ now
  quiet : ∀ entry ∈ before, Quiet kit entry
  tasks : graph.tasks.Sound (Invariant kit question) (Returned kit question) now
  progress : ∃ left, (graph.tasks.map Prod.fst, left) ∈ waves ∧
    before.countP isProgress + 2 * graph.tasks.length + left ≤ 24

/-- What is true of a run at every time. -/
structure Proper (kit : Toolkit) (question : String) (graph : Graph) : Prop where
  progress : graph.trace.countP isProgress ≤ 24
  entries : (∀ entry ∈ graph.trace, Quiet kit entry) ∨ ∃ before now, graph.trace = before ++ now ∧
    (∀ entry ∈ before, Quiet kit entry) ∧ Queried kit question now
  completed : graph.outcome = some (.ok ()) → ∃ before shown sql explained timed answer,
    (∀ entry ∈ before, Quiet kit entry) ∧ Cleared kit question shown sql ∧
      graph.trace = before ++ opening sql explained timed ++ closing shown sql answer

theorem Gathered.countP_le {before now : List Entry} (h : graph.Gathered kit question before now) :
    now.countP isProgress ≤ 2 * graph.tasks.length :=
  h.tasks.countP_le fun _ _ hI => hI.progress

/-- Only the last node does what is not quiet. -/
theorem Gathered.quiet_trace {before now : List Entry} (h : graph.Gathered kit question before now)
    (hlast : graph.tasks.map Prod.fst ≠ [.run_sql]) : ∀ entry ∈ graph.trace, Quiet kit entry := by
  obtain ⟨left, hwave, -⟩ := h.progress
  rw [h.trace]
  refine List.forall_mem_append.mpr ⟨h.quiet, fun entry hentry => ?_⟩
  obtain ⟨member, hmember, part, hI, hpart⟩ := h.tasks.mem hentry
  obtain hquiet | ⟨hname, -⟩ := hI.entries
  · exact hquiet entry hpart
  · have hmem : Name.run_sql ∈ graph.tasks.map Prod.fst := hname ▸ List.mem_map_of_mem hmember
    exact (hlast (waves_run _ hwave hmem)).elim

theorem Gathered.proper {before now : List Entry} (h : graph.Gathered kit question before now)
    (houtcome : graph.outcome = none) : graph.Proper kit question where
  progress := by
    obtain ⟨left, -, hleft⟩ := h.progress
    have hnow := h.countP_le
    rw [h.trace, List.countP_append]
    omega
  entries := by
    by_cases hlast : graph.tasks.map Prod.fst = [.run_sql]
    · obtain ⟨⟨name, routine⟩, htasks, rfl⟩ := List.map_eq_singleton_iff.mp hlast
      have hsingle := h.tasks
      rw [htasks] at hsingle
      obtain hquiet | ⟨-, hqueried⟩ := hsingle.single.1.entries
      · left
        rw [h.trace]
        exact List.forall_mem_append.mpr ⟨h.quiet, hquiet⟩
      · exact .inr ⟨before, now, h.trace, h.quiet, hqueried⟩
    · exact .inl (h.quiet_trace hlast)
  completed h := by cases houtcome.symm.trans h

theorem sound_begin (kit : Toolkit) (hstate : state.query = question) (names : List Name) :
    (begin kit state names).Sound (Invariant kit question) (Returned kit question) [] := by
  apply Crew.sound_start
  intro member hmember
  obtain ⟨name, -, rfl⟩ := List.mem_map.mp hmember
  exact node_sound hstate name

theorem map_fst_begin (kit : Toolkit) (state : DataAgentState) (names : List Name) :
    (begin kit state names).map Prod.fst = names := by
  rw [begin, List.map_map]
  exact List.map_id names

theorem gathered_start (kit : Toolkit) (question : String) : (start kit question).Gathered kit question [] [] where
  query := rfl
  trace := rfl
  quiet _ h := (List.not_mem_nil h).elim
  tasks := by
    apply sound_begin
    rfl
  progress := ⟨22, List.mem_of_elem_eq_true rfl, Nat.le_of_ble_eq_true rfl⟩

theorem Gathered.go {before now : List Entry} (h : graph.Gathered kit question before now) (n : Nat)
    (answer : Except String Answer) :
    (graph.go n answer).Gathered kit question before (now ++ (graph.tasks.go n answer).2) where
  query := h.query
  trace := by
    change graph.trace ++ (graph.tasks.go n answer).2 = _
    rw [h.trace, List.append_assoc]
  quiet := h.quiet
  tasks := h.tasks.go n answer
  progress := by
    obtain ⟨left, hwave, hleft⟩ := h.progress
    have hnames := graph.tasks.map_fst_go n answer
    have hlength := congrArg List.length hnames
    rw [List.length_map, List.length_map] at hlength
    refine ⟨left, ?_, ?_⟩
    · change ((graph.tasks.go n answer).1.map Prod.fst, left) ∈ waves
      rwa [hnames]
    · change _ + 2 * (graph.tasks.go n answer).1.length + _ ≤ _
      rwa [hlength]

/-- The nodes that have returned, with their updates. -/
theorem updates?_eq_some {tasks : Superstep} {updates : List (DataAgentState → DataAgentState)}
    (h : updates? tasks = some updates) :
    List.Forall₂ (fun task update => task.2 = .done (.ok update)) tasks updates := by
  refine (traversal.mapM_eq_some.mp h).imp fun task update hupdate => ?_
  split at hupdate
  · rename_i hroutine
    rw [hroutine, Option.some.inj hupdate]
  · cases hupdate

theorem Gathered.query_update {before now : List Entry} (h : graph.Gathered kit question before now)
    {updates : List (DataAgentState → DataAgentState)} (hupdates : updates? graph.tasks = some updates) :
    (updates.foldl (fun state update => update state) graph.state).query = question := by
  have hkeep : ∀ update ∈ updates, ∀ state : DataAgentState, (update state).query = state.query := by
    intro update hupdate
    obtain ⟨member, hmember, hroutine⟩ := traversal.forall₂_mem_right (updates?_eq_some hupdates) hupdate
    obtain ⟨part, -, hmeets⟩ := h.tasks.member hmember
    rw [hroutine] at hmeets
    exact hmeets.1 update rfl
  rw [← h.query]
  generalize graph.state = state
  clear hupdates
  induction updates generalizing state with
  | nil => rfl
  | cons update updates ih =>
    have hrest := ih (fun _ hmem => hkeep _ (List.mem_cons_of_mem _ hmem)) (update state)
    rw [List.foldl_cons, hrest]
    exact hkeep update List.mem_cons_self state

/-- The last node has returned: its query has been answered, and the answer is told. -/
theorem Gathered.completed {before now : List Entry} (h : graph.Gathered kit question before now)
    {updates : List (DataAgentState → DataAgentState)} (hupdates : updates? graph.tasks = some updates)
    (hlast : graph.tasks.map Prod.fst = [.run_sql]) : ∃ shown sql explained timed answer,
      Cleared kit question shown sql ∧ now = opening sql explained timed ++ closing shown sql answer := by
  obtain ⟨⟨name, routine⟩, htasks, rfl⟩ := List.map_eq_singleton_iff.mp hlast
  have hreturned := updates?_eq_some hupdates
  have hsingle := h.tasks
  rw [htasks] at hreturned hsingle
  cases hreturned with
  | cons hdone _ =>
    obtain ⟨-, hmeets⟩ := hsingle.single
    rw [show routine = _ from hdone] at hmeets
    exact hmeets.2 rfl rfl

/-- Under way, or at an end that it has come to properly. -/
def Sound (kit : Toolkit) (question : String) (graph : Graph) : Prop :=
  graph.Proper kit question ∧
    (graph.outcome = none → ∃ before now, graph.Gathered kit question before now)

theorem Gathered.advance {before now : List Entry} (h : graph.Gathered kit question before now)
    (houtcome : graph.outcome = none) : (graph.advance kit).Sound kit question := by
  have hproper := h.proper houtcome
  unfold Graph.advance
  cases hupdates : updates? graph.tasks with
  | none => exact ⟨hproper, fun _ => ⟨before, now, h⟩⟩
  | some updates =>
    have hquery := h.query_update hupdates
    obtain ⟨left, hwave, hleft⟩ := h.progress
    have hnow := h.countP_le
    simp only
    generalize updates.foldl (fun state update => update state) graph.state = state at hquery
    obtain ⟨hlast, hend⟩ | ⟨left', hwave', hleft'⟩ := waves_next state hwave
    · rw [hend]
      refine ⟨⟨hproper.progress, hproper.entries, fun _ => ?_⟩, fun hnone => by cases hnone⟩
      obtain ⟨shown, sql, explained, timed, answer, hcleared, rfl⟩ := h.completed hupdates hlast
      exact ⟨before, shown, sql, explained, timed, answer, h.quiet, hcleared, by rw [List.append_assoc]; exact h.trace⟩
    · cases hnext : successors state (graph.tasks.map Prod.fst) with
      | nil => exact (waves_nonempty _ hwave' hnext).elim
      | cons name names =>
        have hquiet : ∀ entry ∈ graph.trace, Quiet kit entry := by
          refine h.quiet_trace fun hlast => ?_
          rw [hlast] at hnext
          cases hnext
        rw [hnext] at hwave' hleft'
        have hcount : graph.trace.countP isProgress + 2 * (name :: names).length + left' ≤ 24 := by
          rw [h.trace, List.countP_append]
          omega
        refine ⟨⟨hproper.progress, hproper.entries, fun hsome => by cases houtcome.symm.trans hsome⟩, fun _ =>
          ⟨graph.trace, [], hquery, (List.append_nil _).symm, hquiet, sound_begin kit hquery _, left', ?_, ?_⟩⟩
        · rwa [map_fst_begin]
        · change _ + 2 * ((name :: names).map _).length + _ ≤ _
          rwa [List.length_map]

theorem Gathered.fail {before now : List Entry} (h : graph.Gathered kit question before now)
    (houtcome : graph.outcome = none) (n : Nat) : (graph.fail n).Sound kit question := by
  have hproper := h.proper houtcome
  unfold Graph.fail
  split
  · exact ⟨⟨hproper.progress, hproper.entries, fun hok => by cases hok⟩, fun hnone => by cases hnone⟩
  · exact ⟨hproper, fun _ => ⟨before, now, h⟩⟩

theorem Sound.step (h : graph.Sound kit question) (act : Act) : (step kit graph act).Sound kit question := by
  unfold Graph.step
  by_cases hsome : graph.outcome.isSome = true
  · rwa [if_pos hsome]
  · have hnone : graph.outcome = none := by simpa using hsome
    obtain ⟨before, now, hgathered⟩ := h.2 hnone
    rw [if_neg hsome]
    cases act with
    | go n answer =>
      have hgo := hgathered.go n answer
      exact ⟨hgo.proper hnone, fun _ => ⟨_, _, hgo⟩⟩
    | fail n => exact hgathered.fail hnone n
    | advance => exact hgathered.advance hnone

theorem sound_after (kit : Toolkit) (question : String) (acts : List Act) :
    (after kit question acts).Sound kit question := by
  have hstart := gathered_start kit question
  exact machine.run_invariant ⟨hstart.proper rfl, fun _ => ⟨_, _, hstart⟩⟩ (fun _ act h => h.step act) acts

end Graph

/-- The parser reads back what the printer writes of a statement that is let through. -/
def Toolkit.ReadsBack (kit : Toolkit) : Prop :=
  ∀ text tree out, kit.parse text = some [some tree] → query.safe_sql kit.py (some [some tree]) = .ok out →
    kit.parse (kit.sql out) = some [some out]

theorem Toolkit.safe_sql_eq_ok {text sql : String} (h : kit.safe_sql text = .ok sql) :
    ∃ tree out, kit.parse text = some [some tree] ∧ query.safe_sql kit.py (some [some tree]) = .ok out ∧
      kit.sql out = sql := by
  unfold Toolkit.safe_sql at h
  cases hsafe : query.safe_sql kit.py (kit.parse text) with
  | error e =>
    rw [hsafe] at h
    cases h
  | ok out =>
    rw [hsafe] at h
    obtain ⟨tree, htree⟩ := query.safe_sql_single hsafe
    exact ⟨tree, out, htree, htree ▸ hsafe, Except.ok.inj h⟩

/-- What is shown is what is run. -/
theorem Cleared.shown_eq {shown sql : String} (h : Cleared kit question shown sql) (hkit : kit.ReadsBack) :
    sql = shown := by
  obtain ⟨text, htext⟩ := h.guarded
  obtain ⟨tree, out, hparse, hsafe, rfl⟩ := Toolkit.safe_sql_eq_ok htext
  obtain ⟨tree', out', hparse', hsafe', rfl⟩ := Toolkit.safe_sql_eq_ok h.run
  rw [hkit text tree out hparse hsafe] at hparse'
  obtain rfl : out = tree' := by simpa using hparse'
  rw [query.safe_sql_again hsafe hsafe']

theorem Quiet.guarded {statement : Statement} (h : Quiet kit (.sent statement)) : statement.Guarded kit := by
  cases statement with
  | query => exact h.elim
  | _ => exact h

theorem Queried.guarded {trace : List Entry} (h : Queried kit question trace) {statement : Statement}
    (hstatement : .sent statement ∈ trace) : statement.Guarded kit := by
  obtain ⟨shown, sql, explained, timed, ending, hcleared, hending, rfl⟩ := h
  have hnone : .sent statement ∉ ending := by
    cases hending with
    | closing answer n =>
      intro hmem
      have hclosing := List.mem_of_mem_take hmem
      simp [closing] at hclosing
    | failed e => simp
    | told e => simp
  have hopening : .sent statement ∈ opening sql explained timed :=
    (List.mem_append.mp hstatement).resolve_right hnone
  simp only [opening, List.mem_cons, List.not_mem_nil, reduceCtorEq, Routine.Entry.sent.injEq, false_or, or_false]
    at hopening
  obtain rfl | rfl | rfl := hopening
  · exact .explain shown sql hcleared.run
  · exact .set_timeout
  · exact .query shown sql hcleared.run

/-- Whatever the models, the retrieval and the warehouse answer, and in whatever order
the nodes go on: the warehouse gets nothing that the guard has not let through, and
no more than one query, which is the last that it gets, and which has passed all
checks and has been explained; a run that ends well ends with the rows of that query
and with its text; and no run tells more than 24 progresses. -/
theorem warehouse_guarded (kit : Toolkit) (question : String) (acts : List Act) :
    (∀ statement ∈ (Graph.after kit question acts).sent, statement.Guarded kit) ∧
      (Graph.after kit question acts).trace.countP isProgress ≤ 24 ∧
      ((∀ entry ∈ (Graph.after kit question acts).trace, Quiet kit entry) ∨
        ∃ before now, (Graph.after kit question acts).trace = before ++ now ∧
          (∀ entry ∈ before, Quiet kit entry) ∧ Queried kit question now) ∧
      ((Graph.after kit question acts).outcome = some (.ok ()) → ∃ before shown sql explained timed answer,
        (∀ entry ∈ before, Quiet kit entry) ∧ Cleared kit question shown sql ∧
          (Graph.after kit question acts).trace =
            before ++ opening sql explained timed ++ closing shown sql answer) ∧
      (kit.ReadsBack → ∀ shown sql, Cleared kit question shown sql → sql = shown) := by
  have hproper := (Graph.sound_after kit question acts).1
  refine ⟨fun statement hstatement => ?_, hproper.progress, hproper.entries, hproper.completed,
    fun hkit shown sql h => h.shown_eq hkit⟩
  have hentry : .sent statement ∈ (Graph.after kit question acts).trace := by
    obtain ⟨entry, hentry, heq⟩ := List.mem_filterMap.mp hstatement
    cases entry <;> simp only [reduceCtorEq, Option.some.injEq] at heq
    rwa [heq] at hentry
  obtain hquiet | ⟨before, now, htrace, hquiet, hqueried⟩ := hproper.entries
  · exact (hquiet _ hentry).guarded
  · rw [htrace] at hentry
    obtain hentry | hentry := List.mem_append.mp hentry
    · exact (hquiet _ hentry).guarded
    · exact hqueried.guarded hentry

end incidentdesk.agent
