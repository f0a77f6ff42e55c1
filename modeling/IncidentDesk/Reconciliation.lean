import IncidentDesk.GitHub
import Mathlib

namespace incidentdesk

/-- An issue as the API lists it and reads it. -/
structure Issue where
  number : Int
  fields : List (String × Json)
  numbered : Json.get? (.obj fields) "number" = some (.num number)

namespace Issue

def json (i : Issue) : Json := .obj i.fields

/-- The issue carries the comment with the marker of the action. -/
def marked (r : actionRun) (i : Issue) : Bool := contains (str i.json "body") r.comment

end Issue

def actionRun.listPath (r : actionRun) (page : Nat) : String :=
  "/repos/" ++ r.Target ++ "/issues?state=all&per_page=100&page=" ++ toString page

/-- What `github` reads of an answer: at most two MiB. -/
def maxBytes : Nat := 2 <<< 20

/-- The target repository at each request of a scan, the newest issue first. Issues
are only created meanwhile. -/
structure Repository (r : actionRun) where
  issues : Nat → List Issue
  bytes : Json → Nat
  answer : Nat → String → String → Option Response
  created : ∀ k, ∃ new, issues (k + 1) = new ++ issues k
  numbers : ∀ k, ((issues k).map Issue.number).Nodup
  listed : ∀ k, ∀ page < 5, answer k "GET" (r.listPath (page + 1)) =
    let items := Json.arr ((((issues k).drop (100 * page)).take 100).map Issue.json)
    some { StatusCode := 200, body := if bytes items ≤ maxBytes then some items else none }
  read : ∀ k, ∀ i ∈ issues k, answer k "GET" (r.issuePath i.number) =
    some { StatusCode := 200, body := if bytes i.json ≤ maxBytes then some i.json else none }

/-- The outcome of a computation whose requests, from the `k`-th one on, are answered. -/
def Remote.run (answer : Nat → String → String → Option Response) : Remote → Nat → Except String Json
  | .done result, _ => result
  | .call method path _ next, k => (next (answer k method path)).run answer (k + 1)

namespace Repository

variable {r : actionRun} (s : Repository r)

/-- What the request for a page lists; the pages are read in their order. -/
def page (k : Nat) : List Issue := ((s.issues k).drop (100 * k)).take 100

/-- The pages that a scan reads from the `k`-th request on. -/
def pages : Nat → Nat → List (List Issue)
  | 0, _ => []
  | n + 1, k => s.page k :: if (s.page k).length < 100 then [] else pages n (k + 1)

/-- The issues that the scan sees, in its order. -/
def seen : List Issue := (s.pages 5 0).flatten

def fits (v : Json) : Prop := s.bytes v ≤ maxBytes

def result : Except String Json := (reconcile r).run s.answer 0

end Repository

section Scan

variable {r : actionRun} {s : Repository r} {i j : Issue} {k n : Nat} {items : List Issue} {found : Option Issue}

theorem Remote.run_github {method path : String} {body : Option Json} {next : Json → Remote}
    {answer : Nat → String → String → Option Response} :
    (Remote.github method path body next).run answer k =
      match incidentdesk.github (answer k method path) with
      | .error e => .error e
      | .ok v => (next v).run answer (k + 1) := by
  rw [Remote.github, Remote.run]
  cases incidentdesk.github (answer k method path) <;> rfl

/-- The items that carry the marker, together with what was found before: none, one, or
too many. -/
theorem matchMarker_eq (items : List Issue) (found : Option Issue) :
    matchMarker r (items.map Issue.json) (found.map Issue.json) =
      match found.toList ++ items.filter (Issue.marked r) with
      | [] => some none
      | [i] => some (some i.json)
      | _ => none := by
  induction items generalizing found with
  | nil => cases found <;> rfl
  | cons item items ih =>
    rw [List.map_cons, Issue.json, matchMarker, List.filter_cons]
    by_cases hmarked : item.marked r = true
    · have hcontains : contains (str (.obj item.fields) "body") r.comment = true := hmarked
      rw [if_pos hcontains, if_pos hmarked]
      cases found with
      | none => exact ih (some item)
      | some first => rfl
    · have hcontains : ¬ contains (str (.obj item.fields) "body") r.comment = true := hmarked
      rw [if_neg hcontains, if_neg hmarked]
      exact ih found

theorem Repository.mem_later (s : Repository r) (h : i ∈ s.issues k) (m : Nat) : i ∈ s.issues (k + m) := by
  induction m with
  | zero => exact h
  | succ m ih =>
    obtain ⟨new, hnew⟩ := s.created (k + m)
    rw [← Nat.add_assoc, hnew]
    exact List.mem_append_right _ ih

theorem Repository.page_subset (s : Repository r) (h : i ∈ s.page k) : i ∈ s.issues k :=
  List.mem_of_mem_drop (List.mem_of_mem_take h)

theorem Repository.github_listed (s : Repository r) (h : k < 5) :
    github (s.answer k "GET" (r.listPath (k + 1))) =
    if s.bytes (.arr ((s.page k).map Issue.json)) ≤ maxBytes then
      .ok (.obj [("items", .arr ((s.page k).map Issue.json))])
    else .error "invalid_json" := by
  rw [s.listed k k h]
  unfold github Repository.page
  simp only
  split_ifs <;> simp_all

theorem Repository.github_read (s : Repository r) (h : i ∈ s.issues k) : github (s.answer k "GET" (r.issuePath i.number)) =
    if s.bytes i.json ≤ maxBytes then .ok i.json else .error "invalid_json" := by
  rw [s.read k i h]
  unfold github
  simp only
  split_ifs <;> simp_all [Issue.json]

/-- What was found is read again. -/
theorem run_readMatch {v : Json} (hfound : ∀ i ∈ found, i ∈ s.issues k) :
    (readMatch r (found.map Issue.json)).run s.answer k = .ok v ↔ ∃ i, found = some i ∧ s.fits i.json ∧ v = i.json := by
  cases found with
  | none => simp [readMatch, Remote.run]
  | some i =>
    have hnumber : (i.json.get? "number").bind Json.number? = some i.number := by
      rw [Issue.json, i.numbered]
      rfl
    simp only [Option.map_some, readMatch, hnumber, Remote.run_github, s.github_read (hfound i rfl)]
    by_cases hfits : s.bytes i.json ≤ maxBytes
    · simp [hfits, Repository.fits, Remote.run, eq_comm]
    · simp [hfits, Repository.fits]

/-- A scan returns an issue if all of its pages can be read and exactly one item on them,
or what was found before, carries the marker. -/
theorem run_reconcilePages {v : Json} (n k : Nat) (hn : k + n ≤ 5) (found : Option Issue)
    (hfound : ∀ i ∈ found, i ∈ s.issues k) :
    (reconcilePages r n (k + 1) (found.map Issue.json)).run s.answer k = .ok v ↔
      (∀ p ∈ s.pages n k, s.fits (.arr (p.map Issue.json))) ∧
        ∃ i, found.toList ++ (s.pages n k).flatten.filter (Issue.marked r) = [i] ∧ s.fits i.json ∧ v = i.json := by
  induction n generalizing k found with
  | zero =>
    rw [reconcilePages, run_readMatch hfound]
    cases found <;> simp [Repository.pages]
  | succ n ih =>
    have hpath : "/repos/" ++ r.Target ++ "/issues?state=all&per_page=100&page=" ++ toString (k + 1) =
        r.listPath (k + 1) := rfl
    rw [reconcilePages]
    simp only [hpath, Remote.run_github, s.github_listed (show k < 5 by omega)]
    by_cases hfits : s.bytes (.arr ((s.page k).map Issue.json)) ≤ maxBytes
    swap
    · simp [hfits, Repository.pages, Repository.fits]
    have hitems : ((Json.get? (.obj [("items", .arr ((s.page k).map Issue.json))]) "items").map Json.items).getD [] =
        (s.page k).map Issue.json := rfl
    simp only [hfits, if_true, hitems, matchMarker_eq, List.length_map]
    have hlater : ∀ i ∈ found.toList ++ (s.page k).filter (Issue.marked r), i ∈ s.issues (k + 1) := by
      intro i hi
      refine s.mem_later ?_ 1
      rcases List.mem_append.mp hi with hi | hi
      · exact hfound i (Option.mem_toList.mp hi)
      · exact s.page_subset (List.mem_filter.mp hi).1
    -- the rest of the scan, with at most one match so far
    have hrest : ∀ found' : Option Issue, found.toList ++ (s.page k).filter (Issue.marked r) = found'.toList →
        ((if (s.page k).length < 100 then readMatch r (found'.map Issue.json)
          else reconcilePages r n (k + 1 + 1) (found'.map Issue.json)).run s.answer (k + 1) = .ok v ↔
          (∀ p ∈ s.pages (n + 1) k, s.fits (.arr (p.map Issue.json))) ∧
            ∃ i, found.toList ++ (s.pages (n + 1) k).flatten.filter (Issue.marked r) = [i] ∧ s.fits i.json ∧
              v = i.json) := by
      intro found' hfound'
      have hmem : ∀ i ∈ found', i ∈ s.issues (k + 1) := by
        intro i hi
        refine hlater i ?_
        rw [hfound']
        exact Option.mem_toList.mpr hi
      rw [Repository.pages, List.flatten_cons, List.filter_append, ← List.append_assoc, hfound']
      split_ifs with hlast
      · rw [run_readMatch hmem]
        cases found' <;> simp [hfits, Repository.fits]
      · rw [ih (k + 1) (by omega) found' hmem]
        simp [hfits, Repository.fits]
    rcases hmatches : found.toList ++ (s.page k).filter (Issue.marked r) with _ | ⟨i, _ | ⟨j, more⟩⟩
    · exact hrest none hmatches
    · exact hrest (some i) hmatches
    · have hmany : ∀ i, found.toList ++ (s.pages (n + 1) k).flatten.filter (Issue.marked r) ≠ [i] := by
        intro i' heq
        rw [Repository.pages, List.flatten_cons, List.filter_append, ← List.append_assoc, hmatches] at heq
        cases heq
      constructor
      · intro h
        cases h
      · rintro ⟨-, i', heq, -⟩
        exact absurd heq (hmany i')

theorem Repository.pages_subset (s : Repository r) (n k : Nat) : ∀ p ∈ s.pages n k, ∃ m < n, p = s.page (k + m) := by
  induction n generalizing k with
  | zero => simp [Repository.pages]
  | succ n ih =>
    intro p hp
    rw [Repository.pages] at hp
    rcases List.mem_cons.mp hp with rfl | hp
    · exact ⟨0, by omega, rfl⟩
    · split_ifs at hp
      · cases hp
      · obtain ⟨m, hm, rfl⟩ := ih (k + 1) p hp
        exact ⟨m + 1, by omega, by congr 1; omega⟩

/-- What the scan sees is in the repository at its end. -/
theorem Repository.seen_subset (s : Repository r) (h : i ∈ s.seen) : i ∈ s.issues 5 := by
  obtain ⟨p, hp, hi⟩ := List.mem_flatten.mp h
  obtain ⟨m, hm, rfl⟩ := s.pages_subset 5 0 p hp
  have hpage := s.mem_later (s.page_subset hi) (5 - m)
  have heq : 0 + m + (5 - m) = 5 := by omega
  rwa [heq] at hpage

/-- Issues with one number are one issue. -/
theorem Repository.eq_of_number (s : Repository r) (hi : i ∈ s.seen) (hj : j ∈ s.seen) (h : i.number = j.number) :
    i = j := List.inj_on_of_nodup_map (s.numbers 5) (s.seen_subset hi) (s.seen_subset hj) h

theorem Repository.page_nodup (s : Repository r) {p : List Issue} (hp : p ∈ s.pages n k) : p.Nodup := by
  obtain ⟨m, -, rfl⟩ := s.pages_subset n k p hp
  exact (List.Nodup.of_map _ (s.numbers (k + m))).sublist ((List.take_sublist _ _).trans (List.drop_sublist _ _))

/-- Of the only issue with a property there is one copy if no two of some lists have it. -/
theorem filter_flatten_eq_singleton {pages : List (List Issue)} {p : Issue → Bool} (hmem : i ∈ pages.flatten)
    (hp : p i = true) (honly : ∀ j ∈ pages.flatten, p j = true → j = i) (hnodup : ∀ q ∈ pages, q.Nodup) :
    pages.flatten.filter p = [i] ↔ pages.Pairwise fun q q' => ¬ (i ∈ q ∧ i ∈ q') := by
  induction pages with
  | nil => cases hmem
  | cons q pages ih =>
    have hrest : ∀ j ∈ pages.flatten, p j = true → j = i :=
      fun j hj => honly j (List.mem_append_right _ hj)
    rw [List.flatten_cons, List.filter_append, List.pairwise_cons]
    by_cases hq : i ∈ q
    · have hfilter : q.filter p = [i] := by
        refine List.perm_singleton.mp ((List.perm_ext_iff_of_nodup ?_ (List.nodup_singleton i)).mpr fun j => ?_)
        · exact (hnodup q List.mem_cons_self).filter _
        · rw [List.mem_filter, List.mem_singleton]
          constructor
          · exact fun hj => honly j (List.mem_append_left _ hj.1) hj.2
          · rintro rfl
            exact ⟨hq, hp⟩
      have hothers : pages.flatten.filter p = [] ↔ ∀ q' ∈ pages, ¬ (i ∈ q ∧ i ∈ q') := by
        rw [List.filter_eq_nil_iff]
        constructor
        · exact fun hnone q' hq' hboth => hnone i (List.mem_flatten.mpr ⟨q', hq', hboth.2⟩) hp
        · intro hnone j hj hpj
          obtain ⟨q', hq', hjq'⟩ := List.mem_flatten.mp hj
          rw [hrest j hj hpj] at hjq'
          exact hnone q' hq' ⟨hq, hjq'⟩
      have hpairwise : (∀ q' ∈ pages, ¬ (i ∈ q ∧ i ∈ q')) → pages.Pairwise fun q q' => ¬ (i ∈ q ∧ i ∈ q') := by
        intro hnone
        refine List.pairwise_iff_forall_sublist.mpr fun {q₁ q₂} hsub hboth => ?_
        exact hnone q₁ (hsub.subset List.mem_cons_self) ⟨hq, hboth.1⟩
      rw [hfilter, List.singleton_append, List.cons.injEq, hothers]
      exact ⟨fun h => ⟨h.2, hpairwise h.2⟩, fun h => ⟨rfl, h.1⟩⟩
    · have hfilter : q.filter p = [] := by
        rw [List.filter_eq_nil_iff]
        intro j hj hpj
        exact hq (honly j (List.mem_append_left _ hj) hpj ▸ hj)
      have hmem' : i ∈ pages.flatten := (List.mem_append.mp hmem).resolve_left hq
      rw [hfilter, List.nil_append, ih hmem' hrest fun q' hq' => hnodup q' (List.mem_cons_of_mem _ hq')]
      exact ⟨fun h => ⟨fun q' _ hboth => hq hboth.1, h⟩, fun h => h.2⟩

/-- A scan returns the issue only if it saw no other one with the marker. The only one
with the marker, if the scan sees it, is returned exactly if no later page shows it
again, and every answer can be read. -/
theorem reconcile_iff (s : Repository r) :
    (∀ v, s.result = .ok v → ∃ i ∈ s.seen, i.marked r = true ∧ v = i.json ∧
      ∀ j ∈ s.seen, j.marked r = true → j.number = i.number) ∧
    ∀ i ∈ s.seen, i.marked r = true → (∀ k, ∀ j ∈ s.issues k, j.marked r = true → j.number = i.number) →
      (s.result = .ok i.json ↔ (s.pages 5 0).Pairwise (fun p q => ¬ (i ∈ p ∧ i ∈ q)) ∧
        (∀ p ∈ s.pages 5 0, s.fits (.arr (p.map Issue.json))) ∧ s.fits i.json) := by
  have hresult : ∀ v, s.result = .ok v ↔ (∀ p ∈ s.pages 5 0, s.fits (.arr (p.map Issue.json))) ∧
      ∃ i, s.seen.filter (Issue.marked r) = [i] ∧ s.fits i.json ∧ v = i.json :=
    fun v => run_reconcilePages 5 0 le_rfl none (by simp)
  constructor
  · intro v hv
    obtain ⟨-, i, hfilter, -, rfl⟩ := (hresult v).mp hv
    have hi : i ∈ s.seen.filter (Issue.marked r) := hfilter ▸ List.mem_singleton.mpr rfl
    obtain ⟨hseen, hmarked⟩ := List.mem_filter.mp hi
    refine ⟨i, hseen, hmarked, rfl, fun j hj hjmarked => ?_⟩
    have hj' : j ∈ s.seen.filter (Issue.marked r) := List.mem_filter.mpr ⟨hj, hjmarked⟩
    rw [hfilter] at hj'
    rw [List.mem_singleton.mp hj']
  · intro i hi hmarked hunique
    have honly : ∀ j ∈ s.seen, j.marked r = true → j = i :=
      fun j hj hjmarked => s.eq_of_number hj hi (hunique 5 j (s.seen_subset hj) hjmarked)
    have hcopies := filter_flatten_eq_singleton hi hmarked honly fun q hq => s.page_nodup hq
    rw [hresult, ← hcopies]
    constructor
    · rintro ⟨hpages, j, hfilter, hfits, -⟩
      have hj : i ∈ s.seen.filter (Issue.marked r) := List.mem_filter.mpr ⟨hi, hmarked⟩
      rw [hfilter] at hj
      obtain rfl := List.mem_singleton.mp hj
      exact ⟨hfilter, hpages, hfits⟩
    · rintro ⟨hfilter, hpages, hfits⟩
      exact ⟨hpages, i, hfilter, hfits, rfl⟩

end Scan

/-- An issue with a body. -/
def plainIssue (number : Int) (body : String) : Issue where
  number := number
  fields := [("number", .num number), ("body", .str body)]
  numbered := by simp [Json.get?]

def createTicket (reconcile : Bool) : actionRun where
  ID := "a1"
  Investigation := "i1"
  Target := "acme/shop"
  Title := "Outage"
  Body := ""
  Marker := "incidentdesk:a1"
  Reconcile := reconcile

/-- The issue that was created as the `n`-th one. The first of them is the action's. -/
def nthIssue (n : Nat) : Issue := plainIssue (n + 1) (if n = 0 then "<!-- incidentdesk:a1 -->" else "")

/-- A hundred issues, the newest one first. Another one is created while the first page is read. -/
def growing (k : Nat) : List Issue := ((List.range (if k = 0 then 100 else 101)).map nthIssue).reverse

def growingAnswer (k : Nat) (_method path : String) : Option Response :=
  match (List.range 5).find? fun page => path = (createTicket true).listPath (page + 1) with
  | some page =>
    some { StatusCode := 200, body := some (.arr ((((growing k).drop (100 * page)).take 100).map Issue.json)) }
  | none => ((growing k).find? fun i => path = (createTicket true).issuePath i.number).map fun i =>
      { StatusCode := 200, body := some i.json }

theorem growing_numbers (k : Nat) : ((growing k).map Issue.number).Nodup := by
  rw [growing, List.map_reverse, List.nodup_reverse, List.map_map]
  refine List.nodup_range.map fun n m h => ?_
  have hsucc : (n : Int) + 1 = m + 1 := h
  omega

theorem listPath_injective (r : actionRun) {n m : Nat} (h : r.listPath n = r.listPath m) : n = m :=
  Nat.repr_injective ((String.append_right_inj _).mp h)

theorem issuePath_injective (r : actionRun) {n m : Int} (h : r.issuePath n = r.issuePath m) : n = m :=
  Int.repr_injective ((String.append_right_inj _).mp h)

/-- A page is not an issue. -/
theorem issuePath_ne_listPath (r : actionRun) (n : Int) (page : Nat) : r.issuePath n ≠ r.listPath page := by
  intro h
  have hlists := congrArg String.toList h
  simp [actionRun.issuePath, actionRun.listPath] at hlists

theorem growingAnswer_listed (k page : Nat) (hpage : page < 5) :
    growingAnswer k "GET" ((createTicket true).listPath (page + 1)) =
    some { StatusCode := 200, body := some (.arr ((((growing k).drop (100 * page)).take 100).map Issue.json)) } := by
  have hfind : (List.range 5).find? (fun other =>
      (createTicket true).listPath (page + 1) = (createTicket true).listPath (other + 1)) = some page := by
    rw [List.find?_range_eq_some]
    refine ⟨by simp, List.mem_range.mpr hpage, fun other hother => ?_⟩
    simp only [Bool.not_eq_true', decide_eq_false_iff_not]
    intro h
    have := listPath_injective _ h
    omega
  rw [growingAnswer, hfind]

theorem growingAnswer_read (k : Nat) (i : Issue) (hi : i ∈ growing k) :
    growingAnswer k "GET" ((createTicket true).issuePath i.number) =
    some { StatusCode := 200, body := some i.json } := by
  have hnone : (List.range 5).find? (fun page =>
      (createTicket true).issuePath i.number = (createTicket true).listPath (page + 1)) = none := by
    refine List.find?_eq_none.mpr fun page _ => ?_
    simp [issuePath_ne_listPath]
  rcases hfind : (growing k).find? (fun j =>
      (createTicket true).issuePath i.number = (createTicket true).issuePath j.number) with _ | j
  · exact absurd (List.find?_eq_none.mp hfind i hi) (by simp)
  · have hpath : (createTicket true).issuePath i.number = (createTicket true).issuePath j.number := by
      simpa using List.find?_some hfind
    have hij : i = j := List.inj_on_of_nodup_map (growing_numbers k) hi (List.mem_of_find?_eq_some hfind)
      (issuePath_injective _ hpath)
    rw [growingAnswer, hnone]
    simp only
    rw [hfind, hij]
    rfl

def growingRepository : Repository (createTicket true) where
  issues := growing
  bytes := fun _ => 0
  answer := growingAnswer
  created := by
    rintro (_ | k)
    · exact ⟨[nthIssue 100], rfl⟩
    · exact ⟨[], rfl⟩
  numbers := growing_numbers
  listed := fun k page hpage => growingAnswer_listed k page hpage
  read := fun k i hi => growingAnswer_read k i hi

/-- The only issue with the marker moves from the first page to the second one while the
first one is read. It is met twice. -/
theorem growingRepository_ambiguous :
    (nthIssue 0 ∈ growingRepository.seen ∧ (nthIssue 0).marked (createTicket true) = true ∧
      ∀ k, ∀ j ∈ growingRepository.issues k, j.marked (createTicket true) = true → j.number = (nthIssue 0).number) ∧
    growingRepository.result = .error "ambiguous_marker" := by
  have hrange : ∀ k, ∀ j ∈ growingRepository.issues k, ∃ n, j = nthIssue n := by
    intro k j hj
    obtain ⟨n, -, hn⟩ := List.mem_map.mp (List.mem_reverse.mp hj)
    exact ⟨n, hn.symm⟩
  refine ⟨⟨?_, by decide +kernel, fun k j hj hmarked => ?_⟩, ?_⟩
  · -- it is the last one of the first page
    rw [Repository.seen, Repository.pages, List.flatten_cons]
    refine List.mem_append_left _ (List.mem_of_getElem? (i := 99) ?_)
    rfl
  · obtain ⟨n, rfl⟩ := hrange k j hj
    by_cases hn : n = 0
    · rw [hn]
    · have hplain : nthIssue n = plainIssue (n + 1) "" := by rw [nthIssue, if_neg hn]
      have hunmarked : (plainIssue (n + 1) "").marked (createTicket true) = false := rfl
      rw [hplain, hunmarked] at hmarked
      cases hmarked
  · rfl

end incidentdesk
