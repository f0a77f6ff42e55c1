import IncidentDesk.Tasks
import IncidentDesk.Dict
import IncidentDesk.JsonText
import IncidentDesk.Demo.Canonical

namespace incidentdesk.process

open datetime
open log_store (InYears formatDate formatTime isoformat isoformat_inj)

/-- `str` of a time in UTC. -/
def utcText (utc : Int) : String :=
  let (y, m, d) := fromordinal (utc / day)
  String.ofList (formatDate y.toNat m.toNat d.toNat ++ ' ' :: formatTime (utc % day).toNat)

theorem utcText_inj {s t : Int} (hs : InYears s) (ht : InYears t) : utcText s = utcText t ↔ s = t := by
  refine ⟨fun h => ?_, fun h => by rw [h]⟩
  rw [← isoformat_inj hs ht]
  have hlength (y m d : Nat) : (formatDate y m d).length = 10 := by simp [formatDate]
  simp only [utcText, String.ofList_inj] at h
  obtain ⟨hdate, htime⟩ := List.append_inj h (by rw [hlength, hlength])
  simp only [isoformat, hdate, (List.cons.inj htime).2]

/-- What an authorization says about a task. -/
structure Scope where
  subject : String
  team : String
  service : String
  query : LogQuery
  start : Time
  end_ : Time
  watermark : Nat

/-- The scope that an answer tells, if it is one. -/
def scopeOf : Reply → Option Scope
  | .scope subject team service query start end_ watermark _ =>
    some { subject, team, service, query, start, end_, watermark }
  | _ => none

/-- `response.get("memories", [])`. -/
def memoriesOf : Reply → List (String × Memory)
  | .memories rows => rows
  | _ => []

namespace ContextCache

/-- A query as the database writes it. -/
def queryJson (q : LogQuery) : Json :=
  .obj [("mode", .str q.Mode), ("terms", texts q.Terms), ("levels", texts q.Levels)]
where
  texts : Option (List String) → Json
    | none => .null
    | some items => .arr (items.map .str)

/-- The text that `key` takes the digest of. -/
def keyText (run : Task) (scope : Scope) : String :=
  Json.dumps <| .arr
    [.str scope.subject, .str scope.team, .str scope.service, .str (utcText run.start), .str (utcText run.end_),
      .num scope.watermark, queryJson scope.query, .str "retrieval:2", .str "ontology:1", .str "mapping:2"]

def key (sha256 : String → String) (run : Task) (scope : Scope) : String := sha256 (keyText run scope)

/-- A row of `context_cache`. -/
structure Row (β : Type) where
  service : String
  watermark : Nat
  bundle : β
  created_at : Time

/-- The rows of `context_cache`, by their key. -/
abbrev Table (β : Type) := List (String × Row β)

variable {β : Type}

/-- `delete from context_cache where service=%s and watermark<>%s`. -/
def evict (table : Table β) (scope : Scope) : Table β :=
  table.filter fun e => !(e.2.service = scope.service && e.2.watermark ≠ scope.watermark)

/-- `select bundle from context_cache where key=%s and created_at>now()-interval '30 seconds'`. -/
def select (now : Time) (table : Table β) (key : String) : Option β :=
  (table.lookup key).bind fun row => if now - seconds 30 < row.created_at then some row.bundle else none

/-- `insert into context_cache … on conflict(key) do update set bundle, created_at`. -/
def upsert (now : Time) (table : Table β) (key : String) (scope : Scope) (bundle : β) : Table β :=
  dict.put table key <|
    match table.lookup key with
    | some row => { row with bundle, created_at := now }
    | none => { service := scope.service, watermark := scope.watermark, bundle, created_at := now }

section Key

/-- Two texts have the same digest. -/
def Collision (sha256 : String → String) (text text' : String) : Prop := text ≠ text' ∧ sha256 text = sha256 text'

theorem queryJson_inj {q q' : LogQuery} (h : queryJson q = queryJson q') : q = q' := by
  have htexts {items items' : Option (List String)} (h : queryJson.texts items = queryJson.texts items') :
      items = items' := by
    cases items <;> cases items' <;> simp only [queryJson.texts, reduceCtorEq, Json.arr.injEq] at h
    · rfl
    · exact congrArg some (List.map_injective_iff.mpr (fun _ _ h => Json.str.inj h) h)
  obtain ⟨mode, terms, levels⟩ := q
  obtain ⟨mode', terms', levels'⟩ := q'
  simp only [queryJson, Json.obj.injEq, List.cons.injEq, Prod.mk.injEq, Json.str.injEq, true_and, and_true] at h
  rw [h.1, htexts h.2.1, htexts h.2.2]

theorem keyText_distinct (run : Task) (scope : Scope) : Json.Distinct (.arr
    [.str scope.subject, .str scope.team, .str scope.service, .str (utcText run.start), .str (utcText run.end_),
      .num scope.watermark, queryJson scope.query, .str "retrieval:2", .str "ontology:1", .str "mapping:2"]) := by
  have htexts (items : Option (List String)) : (queryJson.texts items).Distinct := by
    cases items with
    | none => trivial
    | some items =>
      change Json.Distinct.itemsDistinct _
      induction items with
      | nil => trivial
      | cons item items ih => exact ⟨trivial, ih⟩
  have hquery : (queryJson scope.query).Distinct := ⟨by simp, trivial, htexts _, htexts _, trivial⟩
  exact ⟨trivial, trivial, trivial, trivial, trivial, trivial, hquery, trivial, trivial, trivial, trivial⟩

/-- A text is the one of no other parts. -/
theorem keyText_inj {run run' : Task} {scope scope' : Scope} (hstart : InYears run.start) (hend : InYears run.end_)
    (hstart' : InYears run'.start) (hend' : InYears run'.end_) (h : keyText run scope = keyText run' scope') :
    scope.subject = scope'.subject ∧ scope.team = scope'.team ∧ scope.service = scope'.service ∧
      run.start = run'.start ∧ run.end_ = run'.end_ ∧ scope.watermark = scope'.watermark ∧
      scope.query = scope'.query := by
  have hloads := Json.loads_dumps (keyText_distinct run scope)
  rw [← keyText, h, keyText, Json.loads_dumps (keyText_distinct run' scope')] at hloads
  simp only [Option.some.injEq, Json.arr.injEq, List.cons.injEq, Json.str.injEq, Json.num.injEq, Nat.cast_inj,
    and_true] at hloads
  obtain ⟨hsubject, hteam, hservice, hs, he, hwatermark, hquery⟩ := hloads
  exact ⟨hsubject.symm, hteam.symm, hservice.symm, ((utcText_inj hstart' hstart).mp hs).symm,
    ((utcText_inj hend' hend).mp he).symm, hwatermark.symm, (queryJson_inj hquery).symm⟩

end Key

end ContextCache

end incidentdesk.process
