import IncidentDesk.Python
import IncidentDesk.Regex

namespace incidentdesk.worker

open regex (Pos Regex sub)

/-- The characters that a small letter stands for under `re.IGNORECASE`. -/
def ignoreCase (c : Char) (d : Char) : Bool :=
  d = c || d = c.toUpper ||
    (c = 'i' && (d = '\u0130' || d = '\u0131')) || (c = 's' && d = '\u017f') || (c = 'k' && d = '\u212a')

/-- `[^\s,"]`. -/
def delimiterFree (c : Char) : Bool := !isspace c && c ≠ ',' && c ≠ '"'

namespace redaction

open regex.Regex

def spaces : Regex := star (char isspace)

def apiKey : Regex :=
  seq (word ignoreCase "api") (seq (opt (char fun c => c = '_' || c = '-')) (word ignoreCase "key"))

/-- `name\s*[:=]\s*`, as the group that a replacement keeps. -/
def assignment (name : Regex) : Regex :=
  group 1 (seq name (seq spaces (seq (char fun c => c = ':' || c = '=') spaces)))

def authorization : Regex :=
  seq (assignment (word ignoreCase "authorization"))
    (seq (opt (seq (word ignoreCase "bearer") (plus (char isspace)))) (plus (char delimiterFree)))

def credential : Regex :=
  seq (assignment (anyOf [apiKey, word ignoreCase "password", word ignoreCase "secret", word ignoreCase "token"]))
    (plus (char delimiterFree))

def PATTERNS : List Regex := [authorization, credential]

/-- The keys whose values are replaced as a whole. -/
def secretKey : Regex :=
  group 1 (anyOf [word ignoreCase "authorization", apiKey, word ignoreCase "password", word ignoreCase "secret",
    word ignoreCase "token"])

/-- `\1[REDACTED]`. -/
def replacement (_ t : Pos) : List Char := t.group 1 ++ "[REDACTED]".toList

def redactChars (text : List Char) : List Char := PATTERNS.foldl (fun text r => sub r replacement text) text

end redaction

/-- A decoded JSON value, with its numbers, booleans and nulls as they are. -/
inductive Value (ν : Type) where
  | str (text : String)
  | list (items : List (Value ν))
  | dict (entries : List (String × Value ν))
  | other (value : ν)

variable {ν : Type}

def Value.get? : Value ν → String → Option (Value ν)
  | .dict entries, k => entries.lookup k
  | _, _ => none

def redact : Value ν → Value ν
  | .str text => .str (String.ofList (redaction.redactChars text.toList))
  | .list items => .list (items' items)
  | .dict entries => .dict (entries' entries)
  | .other value => .other value
where
  items' : List (Value ν) → List (Value ν)
    | [] => []
    | item :: items => redact item :: items' items
  entries' : List (String × Value ν) → List (String × Value ν)
    | [] => []
    | (k, v) :: entries =>
      (k, if redaction.secretKey.fullmatch k then .str "[REDACTED]" else redact v) :: entries' entries

/-- A place inside a value, below the items and entries that lead to it. -/
inductive Context (ν : Type) where
  | here
  | item (before : List (Value ν)) (c : Context ν) (after : List (Value ν))
  | entry (before : List (String × Value ν)) (k : String) (c : Context ν) (after : List (String × Value ν))

namespace Context

def fill : Context ν → Value ν → Value ν
  | here, v => v
  | item before c after, v => .list (before ++ c.fill v :: after)
  | entry before k c after, v => .dict (before ++ (k, c.fill v) :: after)

/-- A place below an entry whose value is replaced as a whole. -/
def hidden : Context ν → Bool
  | here => false
  | item _ c _ => c.hidden
  | entry _ k c _ => redaction.secretKey.fullmatch k || c.hidden

end Context

/-- An entry as JSON text has it. -/
def jsonEntry (k v : String) : String := "\"" ++ k ++ "\": \"" ++ v ++ "\""

/-- `redact` takes a key for one that names a secret. -/
def Sensitive (k : String) : Prop :=
  ∀ v : String, v ≠ "" → (∀ c ∈ v.toList, delimiterFree c = true) →
    redact (.str (k ++ "=" ++ v) : Value ν) = .str (k ++ "=[REDACTED]")

section Places

variable {c : Context ν} {v w : Value ν} {k : String} {u t t' : List Char}

@[simp] theorem redact_items_append (items more : List (Value ν)) :
    redact.items' (items ++ more) = redact.items' items ++ redact.items' more := by
  induction items with
  | nil => rfl
  | cons item items ih => simp [redact.items', ih]

@[simp] theorem redact_entries_append (entries more : List (String × Value ν)) :
    redact.entries' (entries ++ more) = redact.entries' entries ++ redact.entries' more := by
  induction entries with
  | nil => rfl
  | cons e entries ih => simp [redact.entries', ih]

/-- What an entry shows of its value. -/
theorem redact_entry (before after : List (String × Value ν)) :
    redact (.dict (before ++ (k, v) :: after)) = redact (.dict (before ++ (k, w) :: after)) ↔
      redaction.secretKey.fullmatch k = true ∨ redact v = redact w := by
  simp only [redact, redact_entries_append, redact.entries', Value.dict.injEq, List.append_cancel_left_eq,
    List.cons.injEq, Prod.mk.injEq, true_and, and_true]
  cases redaction.secretKey.fullmatch k <;> simp

/-- What a value shows of a place inside it. -/
theorem redact_fill : redact (c.fill v) = redact (c.fill w) ↔ c.hidden = true ∨ redact v = redact w := by
  induction c with
  | here => simp [Context.fill, Context.hidden]
  | item before c after ih => simp [Context.fill, Context.hidden, redact, redact.items', ih]
  | entry before k c after ih => simp [Context.fill, Context.hidden, redact_entry, ih, or_assoc]

namespace redaction

/-- No pattern reads a quotation mark, so the parts of a text between them are
redacted on their own. -/
theorem redactChars_append : redactChars (u ++ '"' :: t) = redactChars u ++ '"' :: redactChars t := by
  have hf (s t : Pos) (older newer : List Char) :
      replacement (s.within older newer) (t.within older newer) = replacement s t := rfl
  simp only [redactChars, PATTERNS, List.foldl_cons, List.foldl_nil]
  rw [regex.sub_append (by decide) (by decide) hf, regex.sub_append (by decide) (by decide) hf]

theorem redactChars_jsonEntry {key value value' : List Char} :
    redactChars (u ++ '"' :: (key ++ '"' :: (':' :: ' ' :: '"' :: (value ++ '"' :: t)))) =
        redactChars (u ++ '"' :: (key ++ '"' :: (':' :: ' ' :: '"' :: (value' ++ '"' :: t)))) ↔
      redactChars value = redactChars value' := by
  have hentry (value : List Char) :
      redactChars (u ++ '"' :: (key ++ '"' :: (':' :: ' ' :: '"' :: (value ++ '"' :: t)))) =
        redactChars u ++ '"' :: (redactChars key ++ '"' :: (redactChars [':', ' '] ++ '"' ::
          (redactChars value ++ '"' :: redactChars t))) := by
    rw [redactChars_append, redactChars_append,
      show ':' :: ' ' :: '"' :: (value ++ '"' :: t) = [':', ' '] ++ '"' :: (value ++ '"' :: t) from rfl,
      redactChars_append, redactChars_append]
  rw [hentry, hentry]
  simp

end redaction

end Places

/-- What a value shows of an entry depends on the value of the entry unless its
key, or one above it, is a secret key as a whole, and what it shows of an entry
in JSON text does unless a key above is one. -/
theorem redaction_consistent_iff (c : Context ν) (k : String) (before after : List (String × Value ν))
    (pre post : String) :
    ((∀ v w, redact (c.fill (.dict (before ++ (k, v) :: after))) = redact (c.fill (.dict (before ++ (k, w) :: after)))) ↔
      c.hidden = true ∨ redaction.secretKey.fullmatch k = true) ∧
    ((∀ v w, redact (c.fill (.str (pre ++ jsonEntry k v ++ post))) = redact (c.fill (.str (pre ++ jsonEntry k w ++ post)))) ↔
      c.hidden = true) := by
  have hlist (v : String) : (pre ++ jsonEntry k v ++ post).toList =
      pre.toList ++ '"' :: (k.toList ++ '"' :: (':' :: ' ' :: '"' :: (v.toList ++ '"' :: post.toList))) := by
    simp [jsonEntry]
  have htext (v w : String) :
      redact (.str (pre ++ jsonEntry k v ++ post) : Value ν) = redact (.str (pre ++ jsonEntry k w ++ post)) ↔
        redaction.redactChars v.toList = redaction.redactChars w.toList := by
    rw [redact, redact, hlist v, hlist w, Value.str.injEq, String.ofList_inj]
    exact redaction.redactChars_jsonEntry
  simp only [redact_fill, redact_entry, htext]
  constructor
  · constructor
    · intro h
      obtain h | h | h := h (.list []) (.dict [])
      · exact .inl h
      · exact .inr h
      · simp [redact] at h
    · rintro (h | h) v w
      · exact .inl h
      · exact .inr (.inl h)
  · constructor
    · intro h
      obtain h | h := h "1" "2"
      · exact h
      · exact absurd h (by decide)
    · exact fun h v w => .inl h

namespace redaction

open regex regex.Regex

/-- What follows `authorization=` without a delimiter is one match. -/
theorem run_authorization {before cs : List Char} (hne : cs ≠ []) (hcs : ∀ c ∈ cs, delimiterFree c = true) :
    (authorization.run { before, rest := "Authorization=".toList ++ cs, groups := [] }).head? =
      some { before := cs.reverse ++ "=noitazirohtuA".toList ++ before, rest := []
             groups := [(1, "Authorization=".toList)] } := by
  obtain ⟨c, cs, rfl⟩ := List.exists_cons_of_ne_nil hne
  have hc : isspace c = false := by
    have hfree := hcs c List.mem_cons_self
    simp_all [delimiterFree]
  have hspace (before groups) :
      spaces.run { before, rest := c :: cs, groups } = [{ before, rest := c :: cs, groups }] :=
    run_star_nil (by simp [run, hc])
  have hspace' (before groups) :
      spaces.run { before, rest := '=' :: c :: cs, groups } = [{ before, rest := '=' :: c :: cs, groups }] :=
    run_star_nil (by simp [run, isspace])
  have hword : (word ignoreCase "authorization").run
      { before, rest := "Authorization".toList ++ '=' :: c :: cs, groups := [] } =
      [{ before := "Authorization".toList.reverse ++ before, rest := '=' :: c :: cs, groups := [] }] :=
    run_word (by decide)
  have hassign : (assignment (word ignoreCase "authorization")).run
      { before, rest := "Authorization=".toList ++ c :: cs, groups := [] } =
      [{ before := "=noitazirohtuA".toList ++ before, rest := c :: cs, groups := [(1, "Authorization=".toList)] }] := by
    rw [assignment, run, run, show "Authorization=".toList ++ c :: cs = "Authorization".toList ++ '=' :: c :: cs from rfl,
      hword]
    simp [run, hspace, hspace', Pos.upTo]
  have hbearer (before groups) :
      (seq (word ignoreCase "bearer") (plus (char isspace))).run { before, rest := c :: cs, groups } = [] := by
    refine List.flatMap_eq_nil_iff.mpr fun t ht => ?_
    have hrest : ∀ d ∈ t.rest, isspace d = false := fun d hd => by
      have hfree := hcs d ((run_suffix ht).subset hd)
      simp_all [delimiterFree]
    obtain ⟨before, rest, groups⟩ := t
    cases rest with
    | nil => rfl
    | cons d rest => simp [plus, run, hrest d List.mem_cons_self]
  rw [authorization, run, hassign]
  simp only [List.flatMap_cons, List.flatMap_nil, List.append_nil]
  rw [run, opt, run, hbearer, List.nil_append, run, List.flatMap_singleton]
  rw [head?_run_plus hcs (by simp)]
  simp

theorem run_authorization_nil {c : Char} {before rest : List Char} (hc : ignoreCase 'a' c = false) :
    authorization.run { before, rest := c :: rest, groups := [] } = [] := by
  simp [authorization, assignment, word, run, hc]

theorem redactChars_authorization {cs : List Char} (hne : cs ≠ []) (hcs : ∀ c ∈ cs, delimiterFree c = true) :
    redactChars ("Proxy-Authorization=".toList ++ cs) = "Proxy-Authorization=[REDACTED]".toList := by
  have hsplit : "Proxy-Authorization=".toList ++ cs = "Proxy-".toList ++ ("Authorization=".toList ++ cs) := by simp
  have hfuel : sub authorization replacement ("Proxy-Authorization=".toList ++ cs) =
      subFrom authorization replacement ("Proxy-".toList.length + (cs.length + 15))
        (Pos.start ("Proxy-".toList ++ ("Authorization=".toList ++ cs))) := by
    rw [hsplit]
    refine subFrom_fuel (by decide) (Nat.le_succ _) ?_
    simp
    omega
  have hletters : ∀ c ∈ "Proxy-".toList, ignoreCase 'a' c = false := by
    have hall : "Proxy-".toList.all (fun c => !ignoreCase 'a' c) = true := by decide
    simpa only [List.all_eq_true, Bool.not_eq_true'] using hall
  have hfirst : sub authorization replacement ("Proxy-Authorization=".toList ++ cs) =
      "Proxy-Authorization=[REDACTED]".toList := by
    rw [hfuel, Pos.start, subFrom_skip fun c hc before rest => run_authorization_nil (hletters c hc), subFrom,
      run_authorization hne hcs]
    simp [replacement, Pos.group, Pos.group?, subFrom_nil (r := authorization) (by decide)]
  rw [redactChars, PATTERNS, List.foldl_cons, hfirst]
  decide

end redaction

/-- A header that a proxy is sent is a secret in text, and neither as a key nor
in JSON text. -/
theorem proxy_authorization_kept :
    Sensitive (ν := Unit) "Proxy-Authorization" ∧
      redact (.dict [("Proxy-Authorization", .str "1")] : Value Unit) ≠
        redact (.dict [("Proxy-Authorization", .str "2")]) ∧
      redact (.str (jsonEntry "Proxy-Authorization" "1") : Value Unit) ≠
        redact (.str (jsonEntry "Proxy-Authorization" "2")) := by
  refine ⟨fun v hne hv => ?_, ?_, ?_⟩
  · have hcs : v.toList ≠ [] := by simpa using hne
    have htext : ("Proxy-Authorization" ++ "=" ++ v).toList = "Proxy-Authorization=".toList ++ v.toList := by simp
    rw [redact, htext, redaction.redactChars_authorization hcs hv]
    rfl
  · rw [← List.nil_append [("Proxy-Authorization", Value.str "1")],
      ← List.nil_append [("Proxy-Authorization", Value.str "2")], ne_eq, redact_entry]
    simp only [redact, Value.str.injEq, String.ofList_inj]
    decide
  · simp only [redact, Value.str.injEq, String.ofList_inj, ne_eq]
    decide

end incidentdesk.worker
