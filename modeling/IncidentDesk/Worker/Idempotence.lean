import IncidentDesk.Masking
import IncidentDesk.Worker.Redaction

namespace incidentdesk.worker

open regex regex.Regex
open masking (Rule Masks Clean)

namespace redaction

/-- The characters that stand between a name and its value. -/
def separator (c : Char) : Bool := c = ':' || c = '='

/-- The characters of which a name may consist. -/
def plain (c : Char) : Bool := !isspace c && !separator c

/-- Some word is written here, in letters of any case. -/
def Named (words : List String) (n : List Char) : Prop :=
  ∃ w ∈ words, List.Forall₂ (fun c d => ignoreCase c d = true) w.toList n

instance (words : List String) (n : List Char) : Decidable (Named words n) :=
  inferInstanceAs (Decidable (∃ w ∈ words, _))

/-- What follows `name\s*[:=]\s*`, where the text begins with it. -/
def after (words : List String) (text : List Char) : Option (List Char) :=
  if Named words (text.takeWhile plain) then
    match (text.dropWhile plain).dropWhile isspace with
    | c :: rest => if separator c then some (rest.dropWhile isspace) else none
    | [] => none
  else none

/-- What follows a value, where the text begins with one. -/
def value (text : List Char) : Option (List Char) :=
  if text.head?.any delimiterFree then some (text.dropWhile delimiterFree) else none

/-- What `Bearer` is put before, if a value follows it. -/
def unbearer (text : List Char) : List Char :=
  let rest := text.dropWhile plain
  if Named ["bearer"] (text.takeWhile plain) ∧ rest.head?.any isspace ∧ (rest.dropWhile isspace).head?.any delimiterFree then
    rest.dropWhile isspace
  else text

/-- The rule of a pattern: a name and what follows it up to the value is kept, and the
value is hidden. -/
def rule (words : List String) (val : List Char → Option (List Char)) : Rule Char := fun text =>
  (after words text).bind fun rest => (val rest).map fun beyond => (text.take (text.length - rest.length), beyond)

/-- The names of `credential`. -/
def credentials : List String := ["api_key", "api-key", "apikey", "password", "secret", "token"]

/-- The characters of the names. -/
def letters : List Char := "abcdefghijklmnopqrstuvwxyz_-".toList

/-- The letter that a character stands for. -/
def fold (d : Char) : Char :=
  if d = '\u0130' ∨ d = '\u0131' then 'i' else if d = '\u017f' then 's' else if d = '\u212a' then 'k' else d.toLower

theorem letter_of_ignoreCase {c d : Char} (hc : c ∈ letters) (h : ignoreCase c d = true) :
    plain d = true ∧ fold d = c := by
  have hall : letters.all (fun c => plain c && fold c = c && plain c.toUpper && fold c.toUpper = c) = true := by
    decide +kernel
  have hcase := List.all_eq_true.mp hall c hc
  simp only [Bool.and_eq_true, decide_eq_true_eq] at hcase
  obtain ⟨⟨⟨hplain, hfold⟩, hplain'⟩, hfold'⟩ := hcase
  simp only [ignoreCase, Bool.or_eq_true, Bool.and_eq_true, decide_eq_true_eq] at h
  obtain (((rfl | rfl) | ⟨rfl, rfl | rfl⟩) | ⟨rfl, rfl⟩) | ⟨rfl, rfl⟩ := h
  · exact ⟨hplain, hfold⟩
  · exact ⟨hplain', hfold'⟩
  all_goals decide

section Patterns

variable {k : Pos → List Pos} {s : Pos} {words words' : List String}

/-- A pattern matches one of the words, as far as what follows a name shows. -/
def Names (r : Regex) (words : List String) : Prop :=
  ∀ (s : Pos) (k : Pos → List Pos), (∀ t : Pos, t.rest.head?.all plain = true → k t = []) →
    ((r.run s).flatMap k).head? = if Named words (s.rest.takeWhile plain) then (k (s.past plain)).head? else none

theorem names_word {text : String} (h : text.toList.all (· ∈ letters) = true) : Names (word ignoreCase text) [text] := by
  intro s k hk
  have hplain : ∀ c ∈ text.toList, ∀ d, ignoreCase c d = true → plain d = true := fun c hc d hd =>
    (letter_of_ignoreCase (of_decide_eq_true (List.all_eq_true.mp h c hc)) hd).1
  rw [flatMap_run_word hplain hk]
  simp only [Named, List.mem_singleton, exists_eq_left]
  split <;> rfl

theorem names_alt {r q : Regex} (hr : Names r words) (hq : Names q words') : Names (alt r q) (words ++ words') := by
  intro s k hk
  have hnamed (n : List Char) : Named (words ++ words') n ↔ Named words n ∨ Named words' n := by
    simp only [Named, List.mem_append, or_and_right, exists_or]
  rw [run, List.flatMap_append, List.head?_append, hr s k hk, hq s k hk]
  simp only [hnamed]
  by_cases hword : Named words (s.rest.takeWhile plain) <;> by_cases hword' : Named words' (s.rest.takeWhile plain) <;>
    simp [hword, hword']

theorem run_apiKey : apiKey.run s = (alt (word ignoreCase "api_key") (alt (word ignoreCase "api-key")
    (word ignoreCase "apikey"))).run s := by
  have hsplit (mark : String) : (word ignoreCase ("api" ++ (mark ++ "key"))).run s =
      ((word ignoreCase "api").run s).flatMap fun t => ((word ignoreCase mark).run t).flatMap (word ignoreCase "key").run := by
    rw [run_word_append]
    exact congrArg (List.flatMap · _) (funext fun t => run_word_append)
  have hplain : (word ignoreCase ("api" ++ "key")).run s =
      ((word ignoreCase "api").run s).flatMap (word ignoreCase "key").run := run_word_append
  have hunderscore := hsplit "_"
  have hhyphen := hsplit "-"
  simp only [apiKey, run]
  change _ = (word ignoreCase ("api" ++ ("_" ++ "key"))).run s ++ ((word ignoreCase ("api" ++ ("-" ++ "key"))).run s ++
    (word ignoreCase ("api" ++ "key")).run s)
  rw [hunderscore, hhyphen, hplain]
  have hcases : (word ignoreCase "api").run s = [] ∨ ∃ t, (word ignoreCase "api").run s = [t] := run_word_cases s
  obtain hnone | ⟨t, ht⟩ := hcases
  · simp [hnone]
  · obtain ⟨before, rest, groups⟩ := t
    rw [ht]
    cases rest with
    | nil => simp [opt, run, word]
    | cons c rest =>
      have hone (d : Char) (hd : ∀ c, ignoreCase d c = Decidable.decide (c = d)) :
          (word ignoreCase (String.ofList [d])).run { before, rest := c :: rest, groups } =
            if c = d then [{ before := c :: before, rest, groups }] else [] := by
        by_cases hc : c = d <;> simp [word, run, hd, hc]
      have hunderscore := hone '_' fun c => by simp [ignoreCase]
      have hhyphen := hone '-' fun c => by simp [ignoreCase]
      have hkey : c = '_' ∨ c = '-' → (word ignoreCase "key").run { before, rest := c :: rest, groups } = [] := by
        rintro (rfl | rfl) <;> rfl
      simp only [List.flatMap_cons, List.flatMap_nil, List.append_nil, opt, run, List.flatMap_append]
      change _ = ((word ignoreCase (String.ofList ['_'])).run _).flatMap _ ++
        (((word ignoreCase (String.ofList ['-'])).run _).flatMap _ ++ _)
      rw [hunderscore, hhyphen]
      by_cases hc : c = '_'
      · simp [hc, hc ▸ hkey (.inl hc)]
      · by_cases hc' : c = '-'
        · simp [hc', hc' ▸ hkey (.inr hc')]
        · simp [hc, hc']

theorem names_authorization : Names (word ignoreCase "authorization") ["authorization"] := names_word (by decide +kernel)

theorem names_apiKey : Names apiKey ["api_key", "api-key", "apikey"] := by
  intro s k hk
  rw [run_apiKey]
  exact names_alt (names_word (by decide +kernel)) (names_alt (names_word (by decide +kernel))
    (names_word (by decide +kernel))) s k hk

theorem names_credential : Names (anyOf [apiKey, word ignoreCase "password", word ignoreCase "secret",
    word ignoreCase "token"]) credentials :=
  names_alt names_apiKey (names_alt (names_word (by decide +kernel)) (names_alt (names_word (by decide +kernel))
    (names_word (by decide +kernel))))

theorem not_separator {c : Char} (h : isspace c = true ∨ plain c = true) : separator c = false := by
  by_contra hc
  simp only [separator, Bool.or_eq_true, decide_eq_true_eq, Bool.not_eq_false] at hc
  revert h
  obtain rfl | rfl := hc <;> decide

theorem not_isspace {c : Char} (h : plain c = true) : isspace c = false := by
  simp only [plain, Bool.and_eq_true, Bool.not_eq_true'] at h
  exact h.1

/-- A pattern of a name and a value is the rule of its words. -/
theorem run_assignment {name q : Regex} (hname : Names name words) {val : List Char → Option (List Char)}
    (hval : ∀ t : Pos, ((q.run t).head?).map Pos.rest = val t.rest)
    (hgroups : ∀ t u : Pos, u ∈ q.run t → u.groups = t.groups)
    (hq : ∀ t : Pos, t.rest.head?.any isspace = true → q.run t = []) (s : Pos) :
    (((seq (assignment name) q).run s).head?).map (fun t => (t.group 1, t.rest)) = rule words val s.rest := by
  let capture (t : Pos) : Pos := { t with groups := (1, s.upTo t) :: t.groups }
  let goOn (t : Pos) : List Pos := ((char separator).run t).flatMap fun t => (spaces.run t).flatMap (q.run ∘ capture)
  have hrun : (seq (assignment name) q).run s = (name.run s).flatMap fun t => (spaces.run t).flatMap goOn := by
    rw [run, assignment, run, List.flatMap_map]
    change ((seq name (seq spaces (seq (char separator) spaces))).run s).flatMap (q.run ∘ capture) = _
    simp only [flatMap_run_seq]
    rfl
  have hgoOn : ∀ t : Pos, t.rest.head?.any isspace = true ∨ t.rest.head?.all plain = true → goOn t = [] := by
    rintro ⟨before, rest, groups⟩ h
    cases rest with
    | nil => rfl
    | cons c rest =>
      have hc : separator c = false := not_separator h
      simp only [goOn, flatMap_run_char, hc]
      rfl
  have hspaces (t : Pos) : (spaces.run t).flatMap goOn = goOn (t.past isspace) :=
    flatMap_run_star fun t ht => hgoOn t (.inl ht)
  have hvalue (t : Pos) : (((spaces.run t).flatMap (q.run ∘ capture)).head?).map (fun t => (t.group 1, t.rest)) =
      (val (t.rest.dropWhile isspace)).map fun beyond => (s.upTo (t.past isspace), beyond) := by
    have hcaptured : (spaces.run t).flatMap (q.run ∘ capture) = q.run (capture (t.past isspace)) :=
      flatMap_run_star fun t ht => hq (capture t) ht
    have hover : t.rest.dropWhile isspace = (capture (t.past isspace)).rest := rfl
    rw [hcaptured, hover, ← hval, Option.map_map]
    refine Option.map_congr fun u hu => ?_
    simp only [Function.comp_apply, Pos.group, Pos.group?, hgroups _ u (List.mem_of_mem_head? hu), capture]
    rfl
  rw [hrun, hname s _ fun t ht => ?_]
  · rw [hspaces, rule, after]
    by_cases hnamed : Named words (s.rest.takeWhile plain)
    · rw [if_pos hnamed, if_pos hnamed]
      have hrest : ((s.past plain).past isspace).rest = (s.rest.dropWhile plain).dropWhile isspace := rfl
      generalize (s.past plain).past isspace = t at hrest
      obtain ⟨before, rest, groups⟩ := t
      rw [← hrest]
      cases rest with
      | nil => rfl
      | cons c rest =>
        simp only [goOn, flatMap_run_char]
        by_cases hc : separator c = true
        · rw [if_pos hc, if_pos hc, hvalue]
          rfl
        · rw [if_neg hc, if_neg hc]
          rfl
    · rw [if_neg hnamed, if_neg hnamed]
      rfl
  · have hstop : t.rest.head?.any isspace = false := by
      cases hhead : t.rest.head? with
      | none => rfl
      | some c =>
        rw [hhead] at ht
        exact not_isspace ht
    rw [hspaces, past_stop hstop, hgoOn t (.inr ht)]

theorem head?_run_value (t : Pos) : (((plus (char delimiterFree)).run t).head?).map Pos.rest = value t.rest := by
  rw [head?_run_plus_past, value]
  split <;> rfl

theorem not_delimiterFree {c : Char} (h : isspace c = true) : delimiterFree c = false := by
  simp [delimiterFree, h]

theorem run_value_nil {t : Pos} (h : t.rest.head?.any isspace = true) : (plus (char delimiterFree)).run t = [] := by
  obtain ⟨before, rest, groups⟩ := t
  cases rest with
  | nil => cases h
  | cons c rest =>
    have hc : delimiterFree c = false := not_delimiterFree h
    simp [plus, run, hc]

/-- `(?:Bearer\s+)?` in front of a value. -/
def bearer : Regex := opt (seq (word ignoreCase "bearer") (plus (char isspace)))

theorem names_bearer : Names (word ignoreCase "bearer") ["bearer"] := names_word (by decide +kernel)

theorem head?_run_bearer (t : Pos) :
    (((seq bearer (plus (char delimiterFree))).run t).head?).map Pos.rest = value (unbearer t.rest) := by
  let goOn (t : Pos) : List Pos := ((plus (char isspace)).run t).flatMap (plus (char delimiterFree)).run
  have hgoOn (t : Pos) : goOn t =
      if t.rest.head?.any isspace = true then (plus (char delimiterFree)).run (t.past isspace) else [] := by
    have hplus : plus (char isspace) = seq (char isspace) (star (char isspace)) := rfl
    obtain ⟨before, rest, groups⟩ := t
    cases rest with
    | nil => rfl
    | cons c rest =>
      simp only [goOn]
      rw [hplus, flatMap_run_seq, flatMap_run_char, flatMap_run_star fun t ht => run_value_nil ht]
      by_cases hc : isspace c = true
      · simp [hc, past_cons]
      · simp [hc]
  have hstop (t : Pos) (ht : t.rest.head?.all plain = true) : goOn t = [] := by
    rw [hgoOn, if_neg]
    cases hhead : t.rest.head? with
    | none => simp
    | some c =>
      rw [hhead] at ht
      simp [not_isspace ht]
  have hrun : (seq bearer (plus (char delimiterFree))).run t =
      ((word ignoreCase "bearer").run t).flatMap goOn ++ (plus (char delimiterFree)).run t := by
    rw [run, bearer, opt, run, List.flatMap_append, flatMap_run_seq, run, List.flatMap_singleton]
  have hover : (t.past plain).rest = t.rest.dropWhile plain := rfl
  rw [hrun, List.head?_append, names_bearer t goOn hstop, hgoOn, unbearer, hover]
  by_cases hbearer : Named ["bearer"] (t.rest.takeWhile plain) ∧ (t.rest.dropWhile plain).head?.any isspace = true ∧
      ((t.rest.dropWhile plain).dropWhile isspace).head?.any delimiterFree = true
  · obtain ⟨hnamed, hspace, hfree⟩ := hbearer
    have hrest : ((t.past plain).past isspace).rest = (t.rest.dropWhile plain).dropWhile isspace := rfl
    rw [if_pos hnamed, if_pos hspace, if_pos ⟨hnamed, hspace, hfree⟩, ← hrest, ← head?_run_value, head?_run_plus_past,
      if_pos (hrest ▸ hfree)]
    rfl
  · have hnone : (if Named ["bearer"] (t.rest.takeWhile plain) then (if (t.rest.dropWhile plain).head?.any isspace = true then
        (plus (char delimiterFree)).run ((t.past plain).past isspace) else []).head? else none) = none := by
      split
      · split
        · have hfree : ¬ ((t.past plain).past isspace).rest.head?.any delimiterFree = true := fun h =>
            hbearer ⟨‹_›, ‹_›, h⟩
          rw [head?_run_plus_past, if_neg hfree]
        · rfl
      · rfl
    rw [if_neg hbearer, hnone, ← head?_run_value]
    rfl

/-- What is hidden of an authorization. -/
def bearing (text : List Char) : Option (List Char) := value (unbearer text)

theorem head?_run_authorization (s : Pos) :
    ((authorization.run s).head?).map (fun t => (t.group 1, t.rest)) = rule ["authorization"] bearing s.rest := by
  refine run_assignment (q := seq bearer (plus (char delimiterFree))) names_authorization head?_run_bearer ?_ ?_ s
  · exact fun t u hu => run_plain_groups (r := seq bearer (plus (char delimiterFree))) hu
  · intro t ht
    have hplain : t.rest.takeWhile plain = [] := by
      obtain ⟨before, rest, groups⟩ := t
      cases rest with
      | nil => rfl
      | cons c rest => simp [plain, show isspace c = true from ht]
    have hnone := head?_run_bearer t
    have hnamed : ¬ Named ["bearer"] [] := by decide
    have hfree : ¬ t.rest.head?.any delimiterFree = true := by
      cases hhead : t.rest.head? with
      | none => simp
      | some c =>
        rw [hhead] at ht
        simp [not_delimiterFree ht]
    rw [unbearer, hplain, if_neg (fun h => hnamed h.1), value, if_neg hfree, Option.map_eq_none_iff] at hnone
    exact List.head?_eq_none_iff.mp hnone

theorem head?_run_credential (s : Pos) :
    ((credential.run s).head?).map (fun t => (t.group 1, t.rest)) = rule credentials value s.rest :=
  run_assignment (q := plus (char delimiterFree)) names_credential head?_run_value
    (fun _ _ hu => run_plain_groups (r := plus (char delimiterFree)) hu) (fun _ ht => run_value_nil ht) s

end Patterns

/-- What a pattern keeps: a name, and what stands between the name and its value. -/
def Opens (words : List String) (g : List Char) : Prop :=
  ∃ n s c s', Named words n ∧ (∀ d ∈ s, isspace d = true) ∧ separator c = true ∧ (∀ d ∈ s', isspace d = true) ∧
    g = n ++ (s ++ c :: s')

/-- Words that consist of letters. -/
def Spelled (words : List String) : Prop := ∀ w ∈ words, w.toList ≠ [] ∧ w.toList.all (· ∈ letters) = true

instance (words : List String) : Decidable (Spelled words) := inferInstanceAs (Decidable (∀ w ∈ words, _))

/-- A word of the one list is not the end of another word in the other. -/
def Apart (words words' : List String) : Prop := ∀ w ∈ words, ∀ w' ∈ words', w.toList <:+ w'.toList → w = w'

instance (words words' : List String) : Decidable (Apart words words') :=
  inferInstanceAs (Decidable (∀ w ∈ words, ∀ w' ∈ words', _))

/-- A value is hidden up to the first delimiter, and a mark is a value. -/
structure Hides (mark : List Char) (val : List Char → Option (List Char)) : Prop where
  suffix : ∀ {t rest}, val t = some rest → rest <:+ t
  stops : ∀ {t rest}, val t = some rest → rest.head?.any delimiterFree = false
  isSome : ∀ t, (val t).isSome = t.head?.any delimiterFree
  mark : ∀ {rest : List Char}, rest.head?.any delimiterFree = false → val (mark ++ rest) = some rest

section Openings

variable {words words' : List String} {val val' : List Char → Option (List Char)}
  {w g g' t t' n rest x y z mark : List Char} {p : Char → Bool}

theorem takeWhile_stop {u v : List Char} (hu : ∀ d ∈ u, p d = true) (hv : v.head?.any p = false) :
    (u ++ v).takeWhile p = u ∧ (u ++ v).dropWhile p = v := by
  rw [List.takeWhile_append_of_pos hu, List.dropWhile_append_of_pos hu]
  cases v with
  | nil => simp
  | cons c v =>
    have hc : p c = false := hv
    simp [hc]

theorem head?_dropWhile_any (u : List Char) : (u.dropWhile p).head?.any p = false := by
  induction u with
  | nil => rfl
  | cons c u ih =>
    by_cases hc : p c = true
    · rwa [List.dropWhile_cons_of_pos hc]
    · simp [hc]

theorem Named.spells (hwords : Spelled words) (h : Named words n) :
    ∃ w ∈ words, n.map fold = w.toList ∧ ∀ d ∈ n, plain d = true := by
  obtain ⟨w, hw, hn⟩ := h
  have hletters := List.all_eq_true.mp (hwords w hw).2
  refine ⟨w, hw, ?_⟩
  generalize w.toList = text at hn hletters
  induction hn with
  | nil => simp
  | @cons c d text n hcd hn ih =>
    obtain ⟨hc, htext⟩ := List.forall_mem_cons.mp hletters
    obtain ⟨hplain, hfold⟩ := letter_of_ignoreCase (of_decide_eq_true hc) hcd
    obtain ⟨hmap, hall⟩ := ih htext
    exact ⟨by rw [List.map_cons, hfold, hmap], List.forall_mem_cons.mpr ⟨hplain, hall⟩⟩

theorem Named.ne_nil (hwords : Spelled words) (h : Named words n) : n ≠ [] := by
  obtain ⟨w, hw, hfold, -⟩ := h.spells hwords
  rintro rfl
  exact (hwords w hw).1 hfold.symm

theorem not_plain {c : Char} (h : isspace c = true ∨ separator c = true) : plain c = false := by
  obtain h | h := h <;> simp [plain, h]

theorem head?_gap {s s' : List Char} {c : Char} (hs : ∀ d ∈ s, isspace d = true) (hc : separator c = true) :
    ((s ++ c :: s') ++ t).head?.any plain = false := by
  cases s with
  | nil => exact not_plain (.inr hc)
  | cons d s => exact not_plain (.inl (hs d List.mem_cons_self))

/-- Behind an opening comes what follows it. -/
theorem after_eq_some (hwords : Spelled words) :
    after words w = some t ↔ ∃ g, Opens words g ∧ w = g ++ t ∧ t.head?.any isspace = false := by
  constructor
  · intro h
    rw [after] at h
    split at h
    · rename_i hnamed
      split at h
      · rename_i c rest hrest
        split at h
        · rename_i hc
          cases h
          refine ⟨_, ⟨_, (w.dropWhile plain).takeWhile isspace, c, rest.takeWhile isspace, hnamed, fun d hd => List.mem_takeWhile_imp hd, hc,
            fun d hd => List.mem_takeWhile_imp hd, rfl⟩, ?_, head?_dropWhile_any rest⟩
          have hsplit : rest.takeWhile isspace ++ rest.dropWhile isspace = rest := List.takeWhile_append_dropWhile
          rw [List.append_assoc, List.append_assoc, List.cons_append, hsplit, ← hrest, List.takeWhile_append_dropWhile,
            List.takeWhile_append_dropWhile]
        · cases h
      · cases h
    · cases h
  · rintro ⟨g, ⟨n, s, c, s', hnamed, hs, hc, hs', rfl⟩, rfl, ht⟩
    have hstart : ((s ++ c :: s') ++ t).head?.any plain = false := head?_gap hs hc
    obtain ⟨hn, hgap⟩ := takeWhile_stop (hnamed.spells hwords).choose_spec.2.2 hstart
    have hstop : (c :: (s' ++ t)).head?.any isspace = false := by
      by_contra hspace
      rw [Bool.not_eq_false] at hspace
      exact Bool.false_ne_true ((not_separator (.inl hspace)).symm.trans hc)
    rw [after, List.append_assoc, hn, hgap, if_pos hnamed, List.append_assoc, List.cons_append, (takeWhile_stop hs hstop).2]
    simp only [hc, if_true, (takeWhile_stop hs' ht).2]

theorem rule_eq_some (hwords : Spelled words) :
    rule words val w = some (g, rest) ↔
      ∃ t, Opens words g ∧ w = g ++ t ∧ t.head?.any isspace = false ∧ val t = some rest := by
  rw [rule, Option.bind_eq_some_iff]
  constructor
  · rintro ⟨t, hafter, hval⟩
    obtain ⟨g', hopens, rfl, ht⟩ := (after_eq_some hwords).mp hafter
    obtain ⟨beyond, hover, heq⟩ := Option.map_eq_some_iff.mp hval
    simp only [List.length_append, Nat.add_sub_cancel, List.take_left, Prod.mk.injEq] at heq
    obtain ⟨rfl, rfl⟩ := heq
    exact ⟨t, hopens, rfl, ht, hover⟩
  · rintro ⟨t, hopens, rfl, ht, hover⟩
    refine ⟨t, (after_eq_some hwords).mpr ⟨g, hopens, rfl, ht⟩, ?_⟩
    rw [hover]
    simp

theorem Opens.ne_nil (h : Opens words g) : g ≠ [] := by
  obtain ⟨n, s, c, s', -, -, -, -, rfl⟩ := h
  simp

theorem rule_sound (hwords : Spelled words) (hval : Hides mark val) : (rule words val).Sound where
  keeps h := by
    obtain ⟨t, hopens, rfl, -⟩ := (rule_eq_some hwords).mp h
    exact ⟨List.prefix_append _ _, hopens.ne_nil⟩
  ends h := by
    obtain ⟨t, -, rfl, -, hover⟩ := (rule_eq_some hwords).mp h
    exact (hval.suffix hover).trans (List.suffix_append _ _)
  reads h := by
    obtain ⟨t, hopens, rfl, -, hover⟩ := (rule_eq_some hwords).mp h
    have hlength := (hval.suffix hover).length_le
    have hne := List.length_pos_iff.mpr hopens.ne_nil
    rw [List.length_append]
    omega

/-- An opening that begins inside an opening is that opening. -/
theorem Opens.inside (hwords : Spelled words) (hwords' : Spelled words') (hapart : Apart words words')
    (h' : Opens words' g') {u : List Char} (hu : u <:+ g') (hne : u ≠ []) (h : Opens words g)
    (heq : u ++ t' = g ++ t) : u = g' ∧ ∃ w ∈ words, w ∈ words' := by
  obtain ⟨n', s', c', r', hnamed', hs', hc', hr', rfl⟩ := h'
  obtain ⟨n, s, c, r, hnamed, hs, hc, hr, rfl⟩ := h
  obtain ⟨w, hw, hfold, hplain⟩ := hnamed.spells hwords
  obtain ⟨w', hw', hfold', hplain'⟩ := hnamed'.spells hwords'
  have htake : (u ++ t').takeWhile plain = n := by
    rw [heq, List.append_assoc]
    exact (takeWhile_stop hplain (head?_gap hs hc)).1
  obtain hu | ⟨v, hv, -, rfl⟩ := masking.suffix_append_cases hu
  · -- it would begin behind the name, where there is none
    obtain ⟨d, u, rfl⟩ := List.exists_cons_of_ne_nil hne
    have hd : isspace d = true ∨ separator d = true := by
      have hmem : d ∈ s' ++ c' :: r' := hu.subset List.mem_cons_self
      rw [List.mem_append, List.mem_cons] at hmem
      obtain hmem | rfl | hmem := hmem
      · exact .inl (hs' d hmem)
      · exact .inr hc'
      · exact .inl (hr' d hmem)
    simp only [List.cons_append, List.takeWhile_cons, not_plain hd] at htake
    exact absurd htake.symm (hnamed.ne_nil hwords)
  · rw [List.append_assoc, (takeWhile_stop (fun d hd => hplain' d (hv.subset hd)) (head?_gap hs' hc')).1] at htake
    subst htake
    have hends : w.toList <:+ w'.toList := by
      rw [← hfold, ← hfold']
      exact hv.map fold
    obtain rfl := hapart w hw w' hw' hends
    have hlength : v.length = n'.length := by
      rw [← List.length_map (f := fold), hfold, ← hfold', List.length_map]
    exact ⟨by rw [hv.eq_of_length hlength], w, hw, hw'⟩

/-- `[REDACTED]`. -/
def redacted : List Char := "[REDACTED]".toList

theorem redacted_plain : ∀ d ∈ redacted, plain d = true := by
  have hall : redacted.all plain = true := by decide
  exact List.all_eq_true.mp hall

/-- A name has none of the brackets. -/
theorem Named.brackets (hwords : Spelled words) (h : Named words n) : '[' ∉ n ∧ ']' ∉ n := by
  obtain ⟨w, hw, hfold, -⟩ := h.spells hwords
  have hletters := List.all_eq_true.mp (hwords w hw).2
  have hfolded (d : Char) (hd : d ∈ n) : fold d ∈ letters :=
    of_decide_eq_true (hletters _ (hfold ▸ List.mem_map_of_mem hd))
  exact ⟨fun hd => absurd (hfolded _ hd) (by decide), fun hd => absurd (hfolded _ hd) (by decide)⟩

theorem Opens.bracket (hwords : Spelled words) (h : Opens words g) : '[' ∉ g := by
  obtain ⟨n, s, c, s', hnamed, hs, hc, hs', rfl⟩ := h
  have hspace : isspace '[' = false := by decide
  have hcolon : separator '[' = false := by decide
  rw [List.mem_append, List.mem_append, List.mem_cons]
  rintro (hn | hn | rfl | hn)
  · exact (hnamed.brackets hwords).1 hn
  · cases hspace.symm.trans (hs _ hn)
  · cases hcolon.symm.trans hc
  · cases hspace.symm.trans (hs' _ hn)

/-- Nothing opens inside a mark. -/
theorem Opens.outside (hwords : Spelled words) (h : Opens words g) {tail : List Char} (htail : tail <:+ redacted)
    (hne : tail ≠ []) : tail ++ t' ≠ g ++ t := by
  intro heq
  obtain ⟨n, s, c, s', hnamed, hs, hc, hs', rfl⟩ := h
  have htake : (tail ++ t').takeWhile plain = n := by
    rw [heq, List.append_assoc]
    exact (takeWhile_stop (hnamed.spells hwords).choose_spec.2.2 (head?_gap hs hc)).1
  rw [List.takeWhile_append_of_pos fun d hd => redacted_plain d (htail.subset hd)] at htake
  have hlast : ']' ∈ tail := by
    have hgetLast : tail.getLast hne = redacted.getLast (by decide) := htail.getLast hne
    exact (show redacted.getLast (by decide) = ']' by decide) ▸ hgetLast ▸ List.getLast_mem hne
  exact (hnamed.brackets hwords).2 (htake ▸ List.mem_append_left _ hlast)

/-- Nothing is found in an opening, where another pattern's names stand apart. -/
theorem rule_none_inside (hwords : Spelled words) (hwords' : Spelled words') (hapart : Apart words words')
    (h' : Opens words' g') {u : List Char} (hu : u <:+ g') (hne : u ≠ []) (hother : u = g' → rule words val (u ++ t) = none) :
    rule words val (u ++ t) = none := by
  cases hfound : rule words val (u ++ t) with
  | none => rfl
  | some found =>
    obtain ⟨g, rest⟩ := found
    obtain ⟨t₀, hopens, heq, -⟩ := (rule_eq_some hwords).mp hfound
    obtain ⟨rfl, -⟩ := Opens.inside hwords hwords' hapart h' hu hne hopens heq
    cases (hother rfl).symm.trans hfound

/-- What follows an opening is what the opening is followed by. -/
theorem Opens.follows (hwords : Spelled words) (h : Opens words g) (h' : Opens words g')
    (ht : t.head?.any isspace = false) (ht' : t'.head?.any isspace = false) (heq : g ++ t = g' ++ t') : t = t' := by
  have hafter := (after_eq_some hwords).mpr ⟨g, h, rfl, ht⟩
  have hafter' := (after_eq_some hwords).mpr ⟨g', h', rfl, ht'⟩
  rw [heq, hafter'] at hafter
  exact (Option.some.inj hafter).symm

/-- What has been masked is clean. -/
theorem Masks.clean (hwords : Spelled words) (hapart : Apart words words) (hval : Hides redacted val)
    (h : Masks redacted (rule words val) x y) : Clean redacted (rule words val) y := by
  have hm := rule_sound hwords hval
  intro w g rest hw hfound
  obtain ⟨t, hopens, rfl, ht, hover⟩ := (rule_eq_some hwords).mp hfound
  rw [List.append_assoc]
  congr 1
  obtain ⟨x', -, hmasks⟩ | ⟨x', g', u, rest', t', hfound', hu, hne, hinner, heq⟩ | ⟨tail, t', htail, hne, heq⟩ :=
    h.suffix_cases hm hw
  · obtain ⟨t', rfl⟩ := hmasks.begins hm rfl (hopens.bracket hwords)
    cases hbegins : rule words val (g ++ t') with
    | some found =>
      obtain ⟨g₁, rest₁⟩ := found
      obtain ⟨t₁, hopens₁, -, -, hover₁⟩ := (rule_eq_some hwords).mp hbegins
      obtain ⟨y₁, hmasks₁, heq⟩ := hmasks.of_some hm hbegins
      rw [List.append_assoc] at heq
      obtain rfl := hopens.follows hwords hopens₁ ht rfl heq
      have hstops : y₁.head?.any delimiterFree = false := by
        rw [hmasks₁.head?_eq hm]
        exact hval.stops hover₁
      rw [Option.some.inj (hover.symm.trans (hval.mark hstops))]
    | none =>
      obtain ⟨t₁, heq, hmasks₁⟩ := hmasks.passes fun u hu hne =>
        rule_none_inside hwords hwords hapart hopens hu hne fun h => h ▸ hbegins
      obtain rfl := List.append_cancel_left heq
      have hhead := hmasks₁.head?_eq hm
      have hsome : (val t').isSome = true := by
        rw [hval.isSome, ← hhead, ← hval.isSome, hover]
        rfl
      obtain ⟨rest', hrest'⟩ := Option.isSome_iff_exists.mp hsome
      have hfound' := (rule_eq_some hwords).mpr ⟨t', hopens, rfl, hhead ▸ ht, hrest'⟩
      cases hbegins.symm.trans hfound'
  · obtain ⟨t₁, hopens', -, -⟩ := (rule_eq_some hwords).mp hfound'
    exact absurd (Opens.inside hwords hwords hapart hopens' hu hne hopens heq.symm).1 hinner
  · exact absurd heq.symm (hopens.outside hwords htail hne)

/-- What is clean stays clean, where what another pattern finds is masked. -/
theorem Clean.masked (hwords : Spelled words) (hwords' : Spelled words') (hapart : Apart words words')
    (hapart' : Apart words' words) (hdisjoint : ∀ w ∈ words, w ∉ words') (hval : Hides redacted val)
    (hval' : Hides redacted val') (hclean : Clean redacted (rule words val) y)
    (h : Masks redacted (rule words' val') y z) : Clean redacted (rule words val) z := by
  have hm := rule_sound hwords' hval'
  intro w g rest hw hfound
  obtain ⟨t, hopens, rfl, ht, hover⟩ := (rule_eq_some hwords).mp hfound
  rw [List.append_assoc]
  congr 1
  obtain ⟨y', hy', hmasks⟩ | ⟨x', g', u, rest', t', hfound', hu, hne, hinner, heq⟩ | ⟨tail, t', htail, hne, heq⟩ :=
    h.suffix_cases hm hw
  · obtain ⟨t', rfl⟩ := hmasks.begins hm rfl (hopens.bracket hwords)
    have hopening : ∀ u, u <:+ g → u ≠ [] → rule words' val' (u ++ t') = none := fun u hu hne => by
      cases hother : rule words' val' (u ++ t') with
      | none => rfl
      | some found =>
        obtain ⟨t₁, hopens', heq, -⟩ := (rule_eq_some hwords').mp hother
        obtain ⟨-, w, hw, hw'⟩ := Opens.inside hwords' hwords hapart' hopens hu hne hopens' heq
        exact absurd hw (hdisjoint w hw')
    obtain ⟨t₁, heq, hmasks₁⟩ := hmasks.passes hopening
    obtain rfl := List.append_cancel_left heq
    have hhead := hmasks₁.head?_eq hm
    have hsome : (val t').isSome = true := by
      rw [hval.isSome, ← hhead, ← hval.isSome, hover]
      rfl
    obtain ⟨rest', hrest'⟩ := Option.isSome_iff_exists.mp hsome
    have hmasked := hclean _ _ _ hy' ((rule_eq_some hwords).mpr ⟨t', hopens, rfl, hhead ▸ ht, hrest'⟩)
    rw [List.append_assoc] at hmasked
    obtain rfl := List.append_cancel_left hmasked
    -- the mark stays, and so does what follows it
    have hmark : ∀ u, u <:+ redacted → u ≠ [] → rule words' val' (u ++ rest') = none := fun u hu hne => by
      cases hother : rule words' val' (u ++ rest') with
      | none => rfl
      | some found =>
        obtain ⟨t₁, hopens', heq, -⟩ := (rule_eq_some hwords').mp hother
        exact absurd heq (hopens'.outside hwords' hu hne)
    obtain ⟨y₁, rfl, hmasks₂⟩ := hmasks₁.passes hmark
    have hstops : y₁.head?.any delimiterFree = false := by
      rw [hmasks₂.head?_eq hm]
      exact hval.stops hrest'
    rw [Option.some.inj (hover.symm.trans (hval.mark hstops))]
  · obtain ⟨t₁, hopens', -, -⟩ := (rule_eq_some hwords').mp hfound'
    exact absurd (Opens.inside hwords hwords' hapart hopens' hu hne hopens heq.symm).1 hinner
  · exact absurd heq.symm (hopens.outside hwords htail hne)

end Openings

section Texts

variable {x y : List Char}

theorem value_hides : Hides redacted value where
  suffix := by
    intro t rest h
    rw [value] at h
    split at h
    · cases h
      exact List.dropWhile_suffix _
    · cases h
  stops := by
    intro t rest h
    rw [value] at h
    split at h
    · cases h
      exact head?_dropWhile_any t
    · cases h
  isSome := by
    intro t
    rw [value]
    split
    · rename_i h
      rw [h, Option.isSome_some]
    · rename_i h
      rw [Bool.eq_false_iff.mpr h, Option.isSome_none]
  mark := by
    intro rest h
    have hfree : ∀ d ∈ redacted, delimiterFree d = true := by
      have hall : redacted.all delimiterFree = true := by decide
      exact List.all_eq_true.mp hall
    rw [value, (takeWhile_stop hfree h).2]
    rfl

theorem unbearer_cases (t : List Char) : unbearer t = t ∨
    unbearer t <:+ t ∧ t.head?.any delimiterFree = true ∧ (unbearer t).head?.any delimiterFree = true := by
  rw [unbearer]
  split
  · rename_i hbearer
    obtain ⟨hnamed, -, hfree⟩ := hbearer
    refine .inr ⟨(List.dropWhile_suffix _).trans (List.dropWhile_suffix _), ?_, hfree⟩
    obtain ⟨w, hw, hn⟩ := hnamed
    obtain rfl := List.mem_singleton.mp hw
    cases t with
    | nil => cases hn
    | cons c t =>
      have hletters : "bearer".toList = ['b', 'e', 'a', 'r', 'e', 'r'] := rfl
      rw [hletters] at hn
      by_cases hplain : plain c = true
      · rw [List.takeWhile_cons_of_pos hplain, List.forall₂_cons] at hn
        have hc : c = 'b' ∨ c = 'B' := by simpa [ignoreCase] using hn.1
        obtain rfl | rfl := hc <;> rfl
      · rw [List.takeWhile_cons_of_neg hplain] at hn
        cases hn
  · exact .inl rfl

theorem bearing_hides : Hides redacted bearing where
  suffix := by
    intro t rest h
    have hsuffix := value_hides.suffix h
    obtain heq | ⟨hunbearer, -⟩ := unbearer_cases t
    · rwa [heq] at hsuffix
    · exact hsuffix.trans hunbearer
  stops h := value_hides.stops h
  isSome := by
    intro t
    rw [bearing, value_hides.isSome]
    obtain heq | ⟨-, hfree, hfree'⟩ := unbearer_cases t
    · rw [heq]
    · rw [hfree, hfree']
  mark := by
    intro rest h
    have hnamed : ¬ Named ["bearer"] ((redacted ++ rest).takeWhile plain) := fun hnamed => by
      have hspelled : Spelled ["bearer"] := by decide +kernel
      refine (hnamed.brackets hspelled).1 ?_
      rw [List.takeWhile_append_of_pos redacted_plain]
      exact List.mem_append_left _ (by decide)
    rw [bearing, unbearer, if_neg fun h => hnamed h.1]
    exact value_hides.mark h

theorem authorization_spelled : Spelled ["authorization"] := by decide +kernel

theorem credentials_spelled : Spelled credentials := by decide +kernel

theorem redactChars_masks (x : List Char) : ∃ y, Masks redacted (rule ["authorization"] bearing) x y ∧
    Masks redacted (rule credentials value) y (redactChars x) := by
  have hauthorization (x : List Char) :
      Masks redacted (rule ["authorization"] bearing) x (regex.sub authorization replacement x) :=
    masking.masks_sub (by decide) (fun before rest => head?_run_authorization { before, rest, groups := [] }) x
  have hcredential (x : List Char) : Masks redacted (rule credentials value) x (regex.sub credential replacement x) :=
    masking.masks_sub (by decide) (fun before rest => head?_run_credential { before, rest, groups := [] }) x
  have hchars : redactChars x = regex.sub credential replacement (regex.sub authorization replacement x) := by
    rw [redactChars, PATTERNS, List.foldl_cons, List.foldl_cons, List.foldl_nil]
  rw [hchars]
  exact ⟨_, hauthorization x, hcredential _⟩

theorem redactChars_idem (x : List Char) : redactChars (redactChars x) = redactChars x := by
  obtain ⟨y, hauthorization, hcredential⟩ := redactChars_masks x
  obtain ⟨z, hauthorization', hcredential'⟩ := redactChars_masks (redactChars x)
  have hclean := Masks.clean authorization_spelled (by decide +kernel) bearing_hides hauthorization
  have hclean' := Clean.masked authorization_spelled credentials_spelled (by decide +kernel) (by decide +kernel)
    (by decide) bearing_hides value_hides hclean hcredential
  have hclean'' := Masks.clean credentials_spelled (by decide +kernel) value_hides hcredential
  have hsame : z = redactChars x := hauthorization'.unique (rule_sound authorization_spelled bearing_hides)
    (hclean'.masks (rule_sound authorization_spelled bearing_hides))
  rw [hsame] at hcredential'
  exact hcredential'.unique (rule_sound credentials_spelled value_hides)
    (hclean''.masks (rule_sound credentials_spelled value_hides))

end Texts

end redaction

/-- What has been redacted is not changed by redacting it again. -/
theorem redact_redact {ν : Type} : ∀ v : Value ν, redact (redact v) = redact v
  | .str text => by rw [redact, redact, String.toList_ofList, redaction.redactChars_idem]
  | .list items => by rw [redact, redact, items_idem items]
  | .dict entries => by rw [redact, redact, entries_idem entries]
  | .other value => rfl
where
  items_idem : ∀ items : List (Value ν), redact.items' (redact.items' items) = redact.items' items
    | [] => rfl
    | item :: items => by rw [redact.items', redact.items', redact_redact item, items_idem items]
  entries_idem : ∀ entries : List (String × Value ν), redact.entries' (redact.entries' entries) = redact.entries' entries
    | [] => rfl
    | (k, v) :: entries => by
      rw [redact.entries', redact.entries', entries_idem entries]
      split
      · rfl
      · rw [redact_redact v]

section Recordings

variable {ν : Type}

/-- The id of a piece of evidence. -/
def eid (source id digest : String) : String := source ++ ":" ++ id ++ ":" ++ String.ofList (digest.toList.take 12)

/-- The digest and the id of each piece of evidence that `assemble` makes of what
a source has returned, or a recording of it has kept. -/
def evidence (sha256 : String → String) (dumps str : Value ν → String) (truthy : Value ν → Bool) (source : String)
    (out : Value ν) : Option (List (String × String)) :=
  match (redact out).get? "records" with
  | some (.list rows) =>
    (rows.filter fun row => !(row.get? "deleted").any truthy).mapM fun row => do
      let content ← row.get? "content"
      let id ← row.get? "id"
      let digest := sha256 (dumps content)
      return (digest, eid source (str id) digest)
  | _ => none

/-- Redaction changes nothing the second time, and the evidence that a recording
gives is the evidence that was recorded. -/
theorem redaction_idempotent (v : Value ν) :
    redact (redact v) = redact v ∧
      ∀ (sha256 : String → String) (dumps str : Value ν → String) (truthy : Value ν → Bool) (source : String),
        evidence sha256 dumps str truthy source (redact v) = evidence sha256 dumps str truthy source v := by
  refine ⟨redact_redact v, fun sha256 dumps str truthy source => ?_⟩
  rw [evidence, redact_redact, ← evidence]

end Recordings

end incidentdesk.worker
