import IncidentDesk.Json

namespace incidentdesk

/-- An answer of the GitHub API that arrived in time; `body` is `none` when it
is not JSON. -/
structure Response where
  StatusCode : Nat
  body : Option Json

/-- What `github` makes of an answer, or of the lack of one. -/
def github (resp : Option Response) : Except String Json :=
  match resp with
  | none => .error "request_failed"
  | some resp =>
    if resp.StatusCode < 200 ∨ resp.StatusCode ≥ 300 then .error "github_status"
    else
      match resp.body with
      | none => .error "invalid_json"
      | some (.arr items) => .ok (.obj [("items", .arr items)])
      | some (.obj fields) => .ok (.obj fields)
      | some _ => .error "invalid_response"

/-- A computation that calls the GitHub API: its outcome, or the next request
and what it does with the answer. -/
inductive Remote where
  | done (result : Except String Json)
  | call (method path : String) (body : Option Json) (next : Option Response → Remote)

/-- Continue with the decoded answer to a request. -/
def Remote.github (method path : String) (body : Option Json) (next : Json → Remote) : Remote :=
  .call method path body fun resp =>
    match incidentdesk.github resp with
    | .error e => .done (.error e)
    | .ok v => next v

/-- `strings.Contains`. -/
def contains (s sub : String) : Bool := s.toList.tails.any fun tail => sub.toList.isPrefixOf tail

structure actionRun where
  ID : String
  Investigation : String
  Target : String
  Title : String
  Body : String
  Marker : String
  Reconcile : Bool
deriving DecidableEq

def actionRun.comment (r : actionRun) : String := "<!-- " ++ r.Marker ++ " -->"

/-- The path of one issue of the target repository. -/
def actionRun.issuePath (r : actionRun) (n : Int) : String :=
  "/repos/" ++ r.Target ++ "/issues/" ++ toString n

/-- Create the issue and read it back. -/
def issue (r : actionRun) : Remote :=
  let body := .obj [("title", .str r.Title), ("body", .str (r.Body ++ "\n\n" ++ r.comment))]
  .github "POST" ("/repos/" ++ r.Target ++ "/issues") (some body) fun out =>
    match (out.get? "number").bind Json.number? with
    | none => .done (.error "missing_number")
    | some n =>
      .github "GET" (r.issuePath n) none fun verified =>
        if contains (str verified "body") r.Marker then .done (.ok verified)
        else .done (.error "readback_mismatch")

/-- The issue among `items` that carries the marker, given the one found so far;
`none` when there is a second one. -/
def matchMarker (r : actionRun) : List Json → Option Json → Option (Option Json)
  | [], found => some found
  | item :: items, found =>
    match item with
    | .obj fields =>
      if contains (str (.obj fields) "body") r.comment then
        if found.isSome then none else matchMarker r items (some item)
      else matchMarker r items found
    | _ => matchMarker r items found

/-- Read the issue that was found, if there is exactly one. -/
def readMatch (r : actionRun) (found : Option Json) : Remote :=
  match found with
  | none => .done (.error "not_found_keep_unknown")
  | some found =>
    match (found.get? "number").bind Json.number? with
    | none => .done (.error "invalid_number")
    | some n => .github "GET" (r.issuePath n) none fun v => .done (.ok v)

/-- Search the remaining pages of the target's issues. -/
def reconcilePages (r : actionRun) : Nat → Nat → Option Json → Remote
  | 0, _, found => readMatch r found
  | pages + 1, page, found =>
    let path := "/repos/" ++ r.Target ++ "/issues?state=all&per_page=100&page=" ++ toString page
    .github "GET" path none fun v =>
      let items := ((v.get? "items").map Json.items).getD []
      match matchMarker r items found with
      | none => .done (.error "ambiguous_marker")
      | some found =>
        if items.length < 100 then readMatch r found else reconcilePages r pages (page + 1) found

/-- Look for the issue by its marker on the first five pages. -/
def reconcile (r : actionRun) : Remote := reconcilePages r 5 1 none

end incidentdesk
