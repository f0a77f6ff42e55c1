import IncidentDesk.Worker.Connectors

namespace incidentdesk.worker

open pagination (sorted sorted_pairwise sorted_perm sorted_filter Follows not_follows pageAfter GrowsAtPages
  follows_marks follows_marks_all grows_of_follows)
open log_store (Record)
open server (Clock Content Deployment Scope inScope)

variable {lib : log_store.Library} {clock : Clock} {content : Content} {now : String} {scope : Scope}
  {step : PlanStep} {answer : server.Response}

/-- An answer of a connector, with the cursor that it gives for the next one. -/
def fetch (lib : log_store.Library) (clock : Clock) (content : Content) (now : String) (scope : Scope)
    (step : PlanStep) (cursor : Option String) : Option (server.Response × Option String) :=
  (REGISTRY_query lib clock content now scope step cursor).toOption.map fun answer => (answer, answer.next_cursor)

/-- The records of a source that a scope asks for. -/
def recordsInScope (clock : Clock) (content : Content) (scope : Scope) (source : String) : List Record :=
  if source = "deployments" then (inScope clock content.deployments scope).map (deploymentRecord clock)
  else if source = "git" then
    if server.hasFixtures content scope then
      (server.shas clock content scope).filterMap (server.commitRecord clock content scope)
    else []
  else if source = "runbook" then server.related_records clock content source scope
  else server.cluster_records content

/-- The deployments of a scope, as they are read. -/
def inOrder (clock : Clock) (content : Content) (scope : Scope) : List Deployment :=
  sorted (fun r : Deployment => toLex (r.watermark, r.id)) (inScope clock content.deployments scope)

/-- What the pages of a source cover. For deployments, every watermark is positive
and grows wherever a page ends; for the others, all records fit on one page, and no
commit is beyond those that are looked at. -/
def Covered (clock : Clock) (content : Content) (scope : Scope) (step : PlanStep) : Prop :=
  if step.source = "deployments" then
    (∀ r ∈ inScope clock content.deployments scope, 0 < r.watermark) ∧
      GrowsAtPages Deployment.watermark (inOrder clock content scope) step.limit
  else
    (recordsInScope clock content scope step.source).length ≤ step.limit ∧
      (step.source = "git" → server.hasFixtures content scope = true →
        ((server.shas clock content scope).drop 50).filterMap (server.commitRecord clock content scope) = [])

section Deployments

theorem int_digits (n : Int) : int (String.ofList (Json.digits n)) = some n := by
  have hends : Json.Ends [] := fun _ hc => by cases hc
  have hread := Json.number_digits n hends
  rw [List.append_nil] at hread
  rw [int, String.toList_ofList, hread]

theorem digits_ne_empty (n : Int) : String.ofList (Json.digits n) ≠ "" := by
  intro h
  have hint := int_digits n
  rw [h] at hint
  cases hint

/-- A page of the connector is the one of the library, with its last watermark
written out. -/
theorem deployments_fetch (hsource : step.source = "deployments") (c : Option Int) :
    ∃ answer, fetch lib clock content now scope step (c.map fun n => String.ofList (Json.digits n)) =
        some (answer, (pageAfter Deployment.watermark (inOrder clock content scope) step.limit (c.getD 0)).2.map
          fun n => String.ofList (Json.digits n)) ∧
      answer.records = (pageAfter Deployment.watermark (inOrder clock content scope) step.limit (c.getD 0)).1.map
        (deploymentRecord clock) := by
  have hcursor : (if (c.map fun n => String.ofList (Json.digits n)).getD "" = "" then some 0
      else int ((c.map fun n => String.ofList (Json.digits n)).getD "")) = some (c.getD 0) := by
    cases c with
    | none => rfl
    | some n => rw [Option.map_some, Option.getD_some, if_neg (digits_ne_empty n), int_digits, Option.getD_some]
  have hkeys : ((inScope clock content.deployments scope).map
      fun r : Deployment => toLex (r.watermark, r.id)).Nodup := by
    refine List.Nodup.of_map (fun k => (ofLex k).2) ?_
    rw [List.map_map]
    exact (List.filter_sublist.map _).nodup content.unique
  have hrows (n : Nat) : DeploymentSource.rows clock content.deployments scope (c.getD 0) n =
      ((inOrder clock content scope).filter fun r => c.getD 0 < r.watermark).take n := by
    rw [DeploymentSource.rows, sorted_filter hkeys, inOrder]
  rw [fetch, REGISTRY_query, if_pos hsource, DeploymentSource.query, hcursor]
  simp only [hrows, pageAfter]
  generalize (inOrder clock content scope).filter (fun r => Decidable.decide (c.getD 0 < r.watermark)) = rest
  refine ⟨_, congrArg some (Prod.ext rfl ?_), ?_⟩
  · have hmore : step.limit < (rest.take (step.limit + 1)).length ↔ step.limit < rest.length := by
      rw [List.length_take]
      omega
    have hlast : (rest.take (step.limit + 1))[step.limit - 1]? = rest[step.limit - 1]? := by
      rw [List.getElem?_take, if_pos (by omega)]
    simp only [hmore, hlast]
    split
    · rw [Option.map_map]
      rfl
    · rfl
  · simp only [List.map_take, List.take_take, Nat.min_eq_left (Nat.le_succ _)]

/-- The records of pages that stand for pages of deployments. -/
theorem flatMap_records {pages : List (List Deployment)} {answers : List server.Response}
    (h : List.Forall₂ (fun (rows : List Deployment) (answer : server.Response) =>
      answer.records = rows.map (deploymentRecord clock)) pages answers) :
    answers.flatMap server.Response.records = pages.flatten.map (deploymentRecord clock) := by
  induction h with
  | nil => rfl
  | cons hfirst _ ih => rw [List.flatMap_cons, ih, hfirst, List.flatten_cons, List.map_append]

theorem inOrder_sorted : (inOrder clock content scope).Pairwise fun a b => a.watermark ≤ b.watermark := by
  refine (sorted_pairwise _).imp fun {a b} hle => ?_
  obtain hlt | ⟨heq, -⟩ := Prod.Lex.toLex_le_toLex.mp hle
  · exact hlt.le
  · exact heq.le

theorem inOrder_perm : (inOrder clock content scope).Perm (inScope clock content.deployments scope) := sorted_perm _

/-- A reader of the connector sees the pages of the library. -/
theorem deployments_follow (hsource : step.source = "deployments") {pages : List (List Deployment)}
    (h : Follows (fun c => some (pageAfter Deployment.watermark (inOrder clock content scope) step.limit (c.getD 0)))
      none pages) :
    ∃ answers, Follows (fetch lib clock content now scope step) none answers ∧
      answers.flatMap server.Response.records = pages.flatten.map (deploymentRecord clock) := by
  have hpage (c : Option Int) (rows : List Deployment) (next : Option Int)
      (hrows : some (pageAfter Deployment.watermark (inOrder clock content scope) step.limit (c.getD 0)) =
        some (rows, next)) :
      ∃ answer, fetch lib clock content now scope step (c.map fun n => String.ofList (Json.digits n)) =
          some (answer, next.map fun n => String.ofList (Json.digits n)) ∧
        answer.records = rows.map (deploymentRecord clock) := by
    obtain ⟨answer, hanswer, hrecords⟩ := deployments_fetch hsource c
    rw [Option.some.inj hrows] at hanswer hrecords
    exact ⟨answer, hanswer, hrecords⟩
  obtain ⟨answers, hfollows, hrecords⟩ := h.simulates hpage
  exact ⟨answers, hfollows, flatMap_records hrecords⟩

theorem covered_deployments (hsource : step.source = "deployments") : Covered clock content scope step ↔
    (∀ r ∈ inScope clock content.deployments scope, 0 < r.watermark) ∧
      GrowsAtPages Deployment.watermark (inOrder clock content scope) step.limit := by
  rw [Covered, if_pos hsource]

theorem deployments_covered_iff (hsource : step.source = "deployments") :
    (∃ answers, Follows (fetch lib clock content now scope step) none answers ∧
      (answers.flatMap server.Response.records).Perm (recordsInScope clock content scope step.source)) ↔
    Covered clock content scope step := by
  have hmarks : (∀ r ∈ inOrder clock content scope, 0 < r.watermark) ↔
      ∀ r ∈ inScope clock content.deployments scope, 0 < r.watermark := by
    simp only [inOrder_perm.mem_iff]
  rw [covered_deployments hsource, recordsInScope, if_pos hsource, ← hmarks]
  constructor
  · rintro ⟨answers, hanswers, hperm⟩
    obtain ⟨pages, hpages, -⟩ := follows_marks inOrder_sorted step.bounds.1 (0 : Int) none
    obtain ⟨answers', hanswers', hrecords⟩ := deployments_follow hsource hpages
    rw [hanswers.unique hanswers', hrecords] at hperm
    have hlength := hperm.length_eq
    rw [List.length_map, List.length_map, ← inOrder_perm.length_eq] at hlength
    exact grows_of_follows inOrder_sorted step.bounds.1 hpages hlength.ge
  · rintro ⟨hpositive, hgrows⟩
    obtain ⟨pages, hpages, hall⟩ := follows_marks_all inOrder_sorted step.bounds.1 hpositive hgrows
    obtain ⟨answers, hanswers, hrecords⟩ := deployments_follow hsource hpages
    exact ⟨answers, hanswers, by rw [hrecords, hall]; exact inOrder_perm.map _⟩

end Deployments

section Rescans

/-- A source that answers with the same records to every cursor covers them exactly
if they fit on one page. -/
theorem rescan_covered_iff {records : List Record} {provenance : Option String}
    (h : ∀ cursor, REGISTRY_query lib clock content now scope step cursor =
      .ok (server.rescan records provenance scope.watermark now step.limit)) (all : List Record) :
    (∃ pages, Follows (fetch lib clock content now scope step) none pages ∧
      (pages.flatMap server.Response.records).Perm all) ↔ records.length ≤ step.limit ∧ records.Perm all := by
  have hfetch (cursor : Option String) : fetch lib clock content now scope step cursor =
      some (server.rescan records provenance scope.watermark now step.limit,
        (server.rescan records provenance scope.watermark now step.limit).next_cursor) := by
    rw [fetch, h]
    rfl
  rcases Nat.lt_or_ge step.limit records.length with hmore | hfit
  · refine iff_of_false ?_ fun hle => absurd hle.1 (not_le.mpr hmore)
    rintro ⟨pages, hfollows, -⟩
    refine not_follows (fun cursor answer next hanswer => ?_) _ _ hfollows
    rw [hfetch] at hanswer
    cases hanswer
    have hlast : step.limit - 1 < records.length := by omega
    rw [server.rescan, if_pos hmore, List.getElem?_eq_getElem hlast]
    exact fun hnone => by cases hnone
  · have hlast : (server.rescan records provenance scope.watermark now step.limit).next_cursor = none :=
      if_neg (not_lt.mpr hfit)
    have hpage : Follows (fetch lib clock content now scope step) none
        [server.rescan records provenance scope.watermark now step.limit] := by
      refine .last ?_
      rw [hfetch, hlast]
    have hrecords : [server.rescan records provenance scope.watermark now step.limit].flatMap server.Response.records =
        records := by
      simp [server.rescan, List.take_of_length_le hfit]
    constructor
    · rintro ⟨pages, hfollows, hperm⟩
      rw [← hpage.unique hfollows, hrecords] at hperm
      exact ⟨hfit, hperm⟩
    · rintro ⟨-, hperm⟩
      exact ⟨_, hpage, by rwa [hrecords]⟩

end Rescans

section Connectors

/-- The endpoint's answer does not depend on the cursor. -/
theorem http_query (hsource : step.source ∈ ["git", "runbook", "cluster"]) (cursor : Option String) :
    REGISTRY_query lib clock content now scope step cursor =
      if content.unavailable = step.source then .error "HTTPStatusError"
      else if step.source = "cluster" then
        if content.namespace_ = "" ∨ scope.service ≠ "svc-17" then .error "HTTPStatusError"
        else .ok (server.rescan (server.cluster_records content) none scope.watermark now step.limit)
      else .ok (server.rescan (server.related_records clock content step.source scope) (some "local-demo")
        scope.watermark now step.limit) := by
  have hdeployments : step.source ≠ "deployments" ∧ step.source ≠ "logs" := by
    constructor <;> (intro heq; rw [heq] at hsource; revert hsource; decide)
  have hkind : step.source = "git" ∨ step.source = "runbook" ↔ step.source ≠ "cluster" := by
    simp only [List.mem_cons, List.not_mem_nil, or_false] at hsource
    obtain heq | heq | heq := hsource <;> rw [heq] <;> decide
  obtain ⟨hlow, hhigh⟩ := step.bounds
  have hmin : min (100 : Int) step.limit = step.limit := by omega
  have hpositive : ¬(step.limit : Int) < 1 := by omega
  rw [REGISTRY_query, if_neg hdeployments.1, server.sources]
  simp only [hmin, hpositive, hdeployments.2, hkind, if_false, Int.toNat_natCast, bind, Except.bind, pure,
    Except.pure, throw, throwThe, MonadExceptOf.throw]
  by_cases hdown : content.unavailable = step.source
  · simp [hdown]
  · by_cases hcluster : step.source = "cluster"
    · rw [hcluster] at hdown ⊢
      by_cases hnamespace : content.namespace_ = ""
      · simp [hdown, hnamespace]
      · by_cases hservice : scope.service = "svc-17"
        · simp [hdown, hnamespace, hservice]
        · simp [hdown, hnamespace, hservice]
    · simp [hdown, hcluster]

theorem http_answers (hsource : step.source ∈ ["git", "runbook", "cluster"])
    (h : REGISTRY_query lib clock content now scope step none = .ok answer) :
    ∃ provenance, ∀ cursor, REGISTRY_query lib clock content now scope step cursor =
      .ok (server.rescan
        (if step.source = "cluster" then server.cluster_records content
          else server.related_records clock content step.source scope)
        provenance scope.watermark now step.limit) := by
  rw [http_query hsource] at h
  split at h
  · cases h
  · rename_i hup
    split at h
    · rename_i hcluster
      split at h
      · cases h
      · rename_i hserves
        exact ⟨none, fun cursor => by rw [http_query hsource, if_neg hup, if_pos hcluster, if_neg hserves, if_pos hcluster]⟩
    · rename_i hcluster
      exact ⟨some "local-demo", fun cursor => by
        rw [http_query hsource, if_neg hup, if_neg hcluster, if_neg hcluster]⟩

/-- The commits that `git` answers with are those in scope exactly if none is beyond
the first fifty. -/
theorem git_perm_iff : (server.related_records clock content "git" scope).Perm
      (recordsInScope clock content scope "git") ↔
    (server.hasFixtures content scope = true →
      ((server.shas clock content scope).drop 50).filterMap (server.commitRecord clock content scope) = []) := by
  rw [recordsInScope, if_neg (by decide), if_pos rfl, server.related_records]
  cases hfixtures : server.hasFixtures content scope with
  | false => simp
  | true =>
    have hsplit : (server.shas clock content scope).filterMap (server.commitRecord clock content scope) =
        ((server.shas clock content scope).take 50).filterMap (server.commitRecord clock content scope) ++
          ((server.shas clock content scope).drop 50).filterMap (server.commitRecord clock content scope) := by
      rw [← List.filterMap_append, List.take_append_drop]
    have hgit : ¬("git" = "runbook") := by decide
    simp only [Bool.not_true, Bool.false_eq_true, if_false, hgit, if_true, forall_const]
    rw [hsplit]
    constructor
    · intro hperm
      have hlength := hperm.length_eq
      rw [List.length_append] at hlength
      exact List.length_eq_zero_iff.mp (by omega)
    · intro hnone
      rw [hnone, List.append_nil]

end Connectors

section Examples

/-- Times that are written as their instants. -/
def plainClock : Clock where
  instant text := (int text).getD 0
  isoformat n := String.ofList (Json.digits n)

/-- A release of one service. -/
def release (id version : String) (watermark : Int) : Deployment where
  id := id
  service := "svc-17"
  app_id := "svc-17"
  version := version
  commit_sha := "0123456789012345678901234567890123456789"
  event_time := 150
  watermark := watermark
  deleted := some false

/-- A pod of the observed namespace. -/
def pod (uid : String) : server.Item where
  uid := uid
  creationTimestamp := "150"
  name := uid
  resourceVersion := "1"
  release := some "v1"
  fields := []

/-- Two releases with the given watermarks, and two pods. -/
def twoReleases (first second : Int) : Content where
  logs := { rows := [], unique := List.nodup_nil, fts := fun _ => .ok [] }
  deployments := [release "d1" "v1" first, release "d2" "v2" second]
  unique := by simp [release]
  commit _ := none
  runbook _ := none
  pods := [pod "p1", pod "p2"]
  events := []
  namespace_ := "incident-demo"
  unavailable := ""
  delete_runbook := ""

def window : Scope where
  service := "svc-17"
  start := "100"
  stop := "200"
  query := { mode := "anomalies", terms := [], levels := [] }
  watermark := 7

/-- A step that reads one record at a time. -/
def oneByOne (source : String) : PlanStep where
  source := source
  object := "Deployment"
  path := ["Service", "deployments"]
  limit := 1
  bounds := by decide

end Examples

end incidentdesk.worker
