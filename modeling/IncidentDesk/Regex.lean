import Mathlib.Data.List.Forall2
import Mathlib.Data.List.TakeWhile

namespace regex

/-- A place in a text, with what lies before it in reverse, what is still to be
read, and what the groups have captured so far. -/
structure Pos where
  before : List Char
  rest : List Char
  groups : List (Nat × List Char)
deriving DecidableEq

namespace Pos

/-- The beginning of a text. -/
def start (text : List Char) : Pos := { before := [], rest := text, groups := [] }

/-- The text between two places. -/
def upTo (s t : Pos) : List Char := s.rest.take (s.rest.length - t.rest.length)

/-- What a group has captured last. -/
def group? (s : Pos) (n : Nat) : Option (List Char) := (s.groups.find? fun g => g.1 = n).map Prod.snd

/-- What a group has captured, empty when it took no part. -/
def group (s : Pos) (n : Nat) : List Char := (s.group? n).getD []

/-- The same place in a longer text. -/
def within (s : Pos) (older newer : List Char) : Pos :=
  { s with before := s.before ++ older, rest := s.rest ++ newer }

/-- The same place, whatever the groups have captured. -/
def Same (s t : Pos) : Prop := s.before = t.before ∧ s.rest = t.rest

/-- The place that lies some characters further on. -/
def skip (s : Pos) (k : Nat) : Pos :=
  { before := (s.rest.take k).reverse ++ s.before, rest := s.rest.drop k, groups := [] }

/-- The place after all the characters that come here and satisfy `p`. -/
def past (p : Char → Bool) (s : Pos) : Pos :=
  { s with before := (s.rest.takeWhile p).reverse ++ s.before, rest := s.rest.dropWhile p }

end Pos

/-- Patterns over characters. Repetition is greedy. -/
inductive Regex where
  | empty
  | char (p : Char → Bool)
  | seq (r q : Regex)
  | alt (r q : Regex)
  | star (r : Regex)
  | group (n : Nat) (r : Regex)
  | notBehind (p : Char → Bool)
  | notAhead (p : Char → Bool)
  | boundary (word : Char → Bool)

/-- The ends of a repetition, the longest first. A round that reads nothing is
not repeated. -/
def starLoop (m : Pos → List Pos) : Nat → Pos → List Pos
  | 0, s => [s]
  | fuel + 1, s => (m s).flatMap (fun t => if t.rest.length < s.rest.length then starLoop m fuel t else []) ++ [s]

namespace Regex

/-- The places where a match that begins here can end, in the order in which a
backtracking matcher tries them. -/
def run : Regex → Pos → List Pos
  | empty, s => [s]
  | char p, s =>
    match s.rest with
    | c :: rest => if p c then [{ s with before := c :: s.before, rest }] else []
    | [] => []
  | seq r q, s => (r.run s).flatMap q.run
  | alt r q, s => r.run s ++ q.run s
  | star r, s => starLoop r.run s.rest.length s
  | group n r, s => (r.run s).map fun t => { t with groups := (n, s.upTo t) :: t.groups }
  | notBehind p, s => if s.before.head?.any p then [] else [s]
  | notAhead p, s => if s.rest.head?.any p then [] else [s]
  | boundary word, s => if s.before.head?.any word = s.rest.head?.any word then [] else [s]

def opt (r : Regex) : Regex := alt r empty

def plus (r : Regex) : Regex := seq r (star r)

def times : Nat → Regex → Regex
  | 0, _ => empty
  | n + 1, r => seq r (times n r)

/-- At least `m` and at most `m + n` times. -/
def between (m n : Nat) (r : Regex) : Regex :=
  seq (times m r) (n.rec empty fun _ more => opt (seq r more))

/-- A word, with the characters that each of its characters stands for. -/
def word (equal : Char → Char → Bool) (text : String) : Regex :=
  text.toList.foldr (fun c => seq (char (equal c))) empty

/-- One of several patterns, the first ones first. -/
def anyOf : List Regex → Regex
  | [] => char fun _ => false
  | [r] => r
  | r :: more => alt r (anyOf more)

/-- `re.fullmatch`. -/
def fullmatch (r : Regex) (text : String) : Bool := (r.run (Pos.start text.toList)).any fun t => t.rest = []

end Regex

/-- The matches of a text that do not overlap, from the left, with the places
where they begin and end. -/
def findallFrom (r : Regex) : Nat → Pos → List (Pos × Pos)
  | 0, _ => []
  | fuel + 1, s =>
    let next :=
      match s.rest with
      | c :: rest => findallFrom r fuel { before := c :: s.before, rest, groups := [] }
      | [] => []
    match (r.run s).head? with
    | some t => (s, t) :: if t.rest.length < s.rest.length then findallFrom r fuel { t with groups := [] } else next
    | none => next

/-- `re.findall`. -/
def findall (r : Regex) (text : String) : List (Pos × Pos) :=
  findallFrom r (text.length + 1) (Pos.start text.toList)

/-- `re.search`. -/
def search (r : Regex) (text : String) : Option (Pos × Pos) := (findall r text).head?

/-- The rest of a text in which every match has been replaced. -/
def subFrom (r : Regex) (f : Pos → Pos → List Char) : Nat → Pos → List Char
  | 0, s => s.rest
  | fuel + 1, s =>
    let next :=
      match s.rest with
      | c :: rest => c :: subFrom r f fuel { before := c :: s.before, rest, groups := [] }
      | [] => []
    match (r.run s).head? with
    | some t => f s t ++ if t.rest.length < s.rest.length then subFrom r f fuel { t with groups := [] } else next
    | none => next

/-- `re.sub`. -/
def sub (r : Regex) (f : Pos → Pos → List Char) (text : List Char) : List Char :=
  subFrom r f (text.length + 1) (Pos.start text)

section Rules

variable {r q : Regex} {s t : Pos} {c : Char} {u v : List Char} {fuel fuel' : Nat} {m : Pos → List Pos}
  {older newer : List Char}

@[simp] theorem Pos.start_rest : (Pos.start u).rest = u := rfl

@[simp] theorem Pos.within_rest : (s.within older newer).rest = s.rest ++ newer := rfl

@[simp] theorem Pos.within_group (n : Nat) : (s.within older newer).group n = s.group n := rfl

/-- More rounds than there are characters to read make no difference. -/
theorem starLoop_fuel (h : s.rest.length ≤ fuel) (h' : s.rest.length ≤ fuel') :
    starLoop m fuel s = starLoop m fuel' s := by
  have hzero {s : Pos} (n : Nat) (hs : s.rest.length = 0) : starLoop m n s = [s] := by
    cases n with
    | zero => rfl
    | succ n => simp [starLoop, hs]
  induction fuel generalizing s fuel' with
  | zero => rw [hzero 0 (by omega), hzero fuel' (by omega)]
  | succ fuel ih =>
    cases fuel' with
    | zero => rw [hzero _ (by omega), hzero 0 (by omega)]
    | succ fuel' =>
      rw [starLoop, starLoop]
      congr 2
      funext t
      split
      · exact ih (by omega) (by omega)
      · rfl

theorem mem_starLoop (hm : ∀ s t, t ∈ m s → t.rest <:+ s.rest) (h : t ∈ starLoop m fuel s) : t.rest <:+ s.rest := by
  induction fuel generalizing s with
  | zero => simp_all [starLoop]
  | succ fuel ih =>
    rw [starLoop, List.mem_append, List.mem_flatMap, List.mem_singleton] at h
    obtain ⟨next, hnext, h⟩ | rfl := h
    · split at h
      · exact (ih h).trans (hm _ _ hnext)
      · simp at h
    · exact List.suffix_refl _

/-- Matching only moves forward. -/
theorem Regex.run_suffix (h : t ∈ r.run s) : t.rest <:+ s.rest := by
  induction r generalizing s t with
  | empty => simp_all [run]
  | char p =>
    rw [run] at h
    split at h
    · split at h <;> simp_all
    · simp at h
  | seq r q ihr ihq =>
    obtain ⟨next, hnext, h⟩ := List.mem_flatMap.mp h
    exact (ihq h).trans (ihr hnext)
  | alt r q ihr ihq => exact (List.mem_append.mp h).elim ihr ihq
  | star r ih => exact mem_starLoop (fun s t h => ih h) h
  | group n r ih =>
    obtain ⟨next, hnext, rfl⟩ := List.mem_map.mp h
    exact ih (t := next) hnext
  | notBehind p | notAhead p | boundary p =>
    rw [run] at h
    split at h <;> simp_all

theorem Regex.run_rest (h : t ∈ r.run s) : t.rest.length ≤ s.rest.length := (run_suffix h).length_le

namespace Regex

/-- A pattern reads at least one character. -/
def reads : Regex → Bool
  | char _ => true
  | seq r q => r.reads || q.reads
  | alt r q => r.reads && q.reads
  | group _ r => r.reads
  | empty | star _ | notBehind _ | notAhead _ | boundary _ => false

/-- A pattern does not read a character and does not look around. -/
def avoids (c : Char) : Regex → Bool
  | empty => true
  | char p => !p c
  | seq r q | alt r q => r.avoids c && q.avoids c
  | star r | group _ r => r.avoids c
  | notBehind _ | notAhead _ | boundary _ => false

theorem run_reads (hr : r.reads = true) (h : t ∈ r.run s) : t.rest.length < s.rest.length := by
  induction r generalizing s t with
  | empty | star | notBehind | notAhead | boundary => simp [reads] at hr
  | char p =>
    rw [run] at h
    split at h
    · split at h <;> simp_all
    · simp at h
  | seq r q ihr ihq =>
    obtain ⟨next, hnext, h⟩ := List.mem_flatMap.mp h
    rw [reads, Bool.or_eq_true] at hr
    obtain hr | hr := hr
    · exact Nat.lt_of_le_of_lt (run_rest h) (ihr hr hnext)
    · exact Nat.lt_of_lt_of_le (ihq hr h) (run_rest hnext)
  | alt r q ihr ihq =>
    rw [reads, Bool.and_eq_true] at hr
    exact (List.mem_append.mp h).elim (ihr hr.1) (ihq hr.2)
  | group n r ih =>
    obtain ⟨next, hnext, rfl⟩ := List.mem_map.mp h
    exact ih (t := next) hr hnext

theorem starLoop_within (hm : ∀ s, m (s.within older newer) = (m s).map (Pos.within · older newer)) :
    starLoop m fuel (s.within older newer) = (starLoop m fuel s).map (Pos.within · older newer) := by
  induction fuel generalizing s with
  | zero => rfl
  | succ fuel ih =>
    rw [starLoop, starLoop, hm, List.map_append, List.flatMap_map, List.map_flatMap]
    congr 2
    funext t
    simp only [Pos.within_rest, List.length_append, Nat.add_lt_add_iff_right]
    split
    · exact ih
    · rfl

theorem upTo_within (h : t.rest.length ≤ s.rest.length) :
    (s.within older newer).upTo (t.within older newer) = s.upTo t := by
  simp only [Pos.upTo, Pos.within_rest, List.length_append]
  rw [List.take_append_of_le_length (by omega)]
  congr 1
  omega

/-- What a pattern that avoids a character matches does not depend on what
comes after that character, nor on what came before. -/
theorem run_within (h : ∀ c ∈ newer.head?, r.avoids c = true) (hr : ∃ c, r.avoids c = true) :
    r.run (s.within older newer) = (r.run s).map (Pos.within · older newer) := by
  induction r generalizing s with
  | empty => rfl
  | char p =>
    obtain ⟨before, rest, groups⟩ := s
    cases rest with
    | cons c rest =>
      simp only [run, Pos.within, List.cons_append]
      split <;> rfl
    | nil =>
      cases newer with
      | nil => rfl
      | cons c newer =>
        have hc : p c = false := by simpa [avoids] using h c rfl
        simp [run, Pos.within, hc]
  | seq r q ihr ihq =>
    simp only [avoids, Bool.and_eq_true] at h hr
    obtain ⟨c, hr, hq⟩ := hr
    rw [run, run, ihr (fun c hc => (h c hc).1) ⟨c, hr⟩, List.flatMap_map, List.map_flatMap]
    simp only [ihq (fun c hc => (h c hc).2) ⟨c, hq⟩]
  | alt r q ihr ihq =>
    simp only [avoids, Bool.and_eq_true] at h hr
    obtain ⟨c, hr, hq⟩ := hr
    rw [run, run, ihr (fun c hc => (h c hc).1) ⟨c, hr⟩, ihq (fun c hc => (h c hc).2) ⟨c, hq⟩, List.map_append]
  | star r ih =>
    have hfuel : starLoop r.run s.rest.length s = starLoop r.run (s.within older newer).rest.length s :=
      starLoop_fuel (Nat.le_refl _) (by simp)
    rw [run, run, hfuel]
    exact starLoop_within fun s => ih h hr
  | group n r ih =>
    rw [run, run, ih h hr, List.map_map, List.map_map]
    refine List.map_congr_left fun t ht => ?_
    simp only [Function.comp_apply, upTo_within (run_rest ht)]
    rfl
  | notBehind | notAhead | boundary => simp [avoids] at hr

/-- A word matches in one way only. -/
theorem run_word {equal : Char → Char → Bool} {text : String} {before : List Char} {groups : List (Nat × List Char)}
    (h : List.Forall₂ (fun c d => equal c d = true) text.toList u) :
    (word equal text).run { before, rest := u ++ v, groups } = [{ before := u.reverse ++ before, rest := v, groups }] := by
  rw [word]
  generalize text.toList = letters at h
  induction h generalizing before with
  | nil => rfl
  | cons hc h ih => simp [run, hc, ih]

/-- A pattern that does not match here is not repeated. -/
theorem run_star_nil (h : r.run s = []) : (star r).run s = [s] := by
  rw [run]
  cases s.rest.length with
  | zero => rfl
  | succ fuel => simp [starLoop, h]

theorem past_cons {p : Char → Bool} {before rest : List Char} {groups : List (Nat × List Char)} (hc : p c = true) :
    Pos.past p { before, rest := c :: rest, groups } = Pos.past p { before := c :: before, rest, groups } := by
  simp [Pos.past, hc]

theorem past_stop {p : Char → Bool} (h : s.rest.head?.any p = false) : s.past p = s := by
  obtain ⟨before, rest, groups⟩ := s
  cases rest with
  | nil => rfl
  | cons c rest =>
    have hc : p c = false := h
    simp [Pos.past, hc]

section Continuations

variable {k : Pos → List Pos} {p : Char → Bool}

theorem flatMap_run_seq : ((seq r q).run s).flatMap k = (r.run s).flatMap fun t => (q.run t).flatMap k :=
  List.flatMap_assoc

theorem flatMap_run_char {before rest : List Char} {groups : List (Nat × List Char)} :
    ((char p).run { before, rest := c :: rest, groups }).flatMap k =
      if p c then k { before := c :: before, rest, groups } else [] := by
  by_cases hc : p c = true <;> simp [run, hc]

/-- What goes on only where a repetition of characters has to end goes on after all of them. -/
theorem flatMap_run_star (hk : ∀ t : Pos, t.rest.head?.any p = true → k t = []) :
    ((star (char p)).run s).flatMap k = k (s.past p) := by
  obtain ⟨before, rest, groups⟩ := s
  rw [run]
  induction rest generalizing before with
  | nil => simp [starLoop, Pos.past]
  | cons c rest ih =>
    rw [List.length_cons, starLoop, List.flatMap_append, List.flatMap_singleton]
    by_cases hc : p c = true
    · rw [hk { before, rest := c :: rest, groups } hc, past_cons hc, List.append_nil, ← ih (c :: before)]
      simp [run, hc]
    · rw [past_stop (by simpa using hc)]
      simp [run, hc]

/-- Where `k` goes on only behind a character that is none of `p`, a word of such
characters has to be all that comes before it. -/
theorem flatMap_run_word {equal : Char → Char → Bool} {text : String}
    (hequal : ∀ c ∈ text.toList, ∀ d, equal c d = true → p d = true)
    (hk : ∀ t : Pos, t.rest.head?.all p = true → k t = []) :
    ((word equal text).run s).flatMap k =
      if List.Forall₂ (fun c d => equal c d = true) text.toList (s.rest.takeWhile p) then k (s.past p) else [] := by
  rw [word]
  generalize text.toList = letters at hequal
  obtain ⟨before, rest, groups⟩ := s
  induction letters generalizing before rest with
  | nil =>
    rw [List.foldr_nil, run, List.flatMap_singleton]
    cases rest with
    | nil => simp [Pos.past]
    | cons d rest =>
      by_cases hd : p d = true
      · simp [hk { before, rest := d :: rest, groups } hd, hd]
      · simp [Pos.past, hd]
  | cons c letters ih =>
    obtain ⟨hc, hletters⟩ := List.forall_mem_cons.mp hequal
    rw [List.foldr_cons, flatMap_run_seq]
    cases rest with
    | nil => simp [run]
    | cons d rest =>
      rw [flatMap_run_char]
      by_cases hd : equal c d = true
      · rw [if_pos hd, ih hletters, past_cons (hc d hd)]
        simp [hc d hd, hd]
      · by_cases hpd : p d = true <;> simp [hd, hpd]

/-- A word matches in one way at most. -/
theorem run_word_cases {equal : Char → Char → Bool} {text : String} (s : Pos) :
    (word equal text).run s = [] ∨ ∃ t, (word equal text).run s = [t] := by
  rw [word]
  generalize text.toList = letters
  obtain ⟨before, rest, groups⟩ := s
  induction letters generalizing before rest with
  | nil => exact .inr ⟨_, rfl⟩
  | cons c letters ih =>
    rw [List.foldr_cons, run]
    cases rest with
    | nil => exact .inl rfl
    | cons d rest =>
      by_cases hd : equal c d = true
      · simpa [run, hd] using ih (d :: before) rest
      · simp [run, hd]

theorem run_word_append {equal : Char → Char → Bool} {text more : String} :
    (word equal (text ++ more)).run s = ((word equal text).run s).flatMap (word equal more).run := by
  simp only [word, String.toList_append, List.foldr_append]
  generalize text.toList = letters
  obtain ⟨before, rest, groups⟩ := s
  induction letters generalizing before rest with
  | nil => simp [run]
  | cons c letters ih =>
    rw [List.foldr_cons, List.foldr_cons, run, run]
    cases rest with
    | nil => simp [run]
    | cons d rest =>
      by_cases hd : equal c d = true
      · simpa [run, hd] using ih (d :: before) rest
      · simp [run, hd]

/-- The longest repetition is tried first. -/
theorem head?_run_star_past : ((star (char p)).run s).head? = some (s.past p) := by
  obtain ⟨before, rest, groups⟩ := s
  rw [run]
  induction rest generalizing before with
  | nil => rfl
  | cons c rest ih =>
    rw [List.length_cons, starLoop, List.head?_append]
    by_cases hc : p c = true
    · have hchar : (char p).run { before, rest := c :: rest, groups } = [{ before := c :: before, rest, groups }] := by
        simp [run, hc]
      rw [hchar, past_cons hc]
      simp only [List.flatMap_cons, List.flatMap_nil, List.append_nil, List.length_cons, Nat.lt_succ_self, if_true]
      rw [ih (c :: before)]
      rfl
    · rw [past_stop (by simpa using hc)]
      simp [run, hc]

theorem head?_run_plus_past : ((plus (char p)).run s).head? =
    if s.rest.head?.any p = true then some (s.past p) else none := by
  obtain ⟨before, rest, groups⟩ := s
  rw [plus, run]
  cases rest with
  | nil => rfl
  | cons c rest =>
    rw [flatMap_run_char]
    by_cases hc : p c = true
    · simp [hc, head?_run_star_past, past_cons hc]
    · simp [hc]

end Continuations

theorem head?_run_plus {p : Char → Bool} (h : ∀ c ∈ s.rest, p c = true) (hne : s.rest ≠ []) :
    ((plus (char p)).run s).head? = some { s with before := s.rest.reverse ++ s.before, rest := [] } := by
  have hfirst : s.rest.head?.any p = true := by
    obtain ⟨c, rest, hrest⟩ := List.exists_cons_of_ne_nil hne
    rw [hrest] at h ⊢
    exact h c List.mem_cons_self
  rw [head?_run_plus_past, if_pos hfirst, Pos.past, List.takeWhile_eq_self_iff.mpr h, List.dropWhile_eq_nil_iff.mpr h]

end Regex

section Places

variable {m' : Pos → List Pos}

theorem Pos.Same.refl (s : Pos) : s.Same s := ⟨rfl, rfl⟩

namespace Regex

/-- A pattern that captures nothing. -/
def plain : Regex → Regex
  | group _ r => r.plain
  | seq r q => seq r.plain q.plain
  | alt r q => alt r.plain q.plain
  | star r => star r.plain
  | empty => empty
  | char p => char p
  | notBehind p => notBehind p
  | notAhead p => notAhead p
  | boundary word => boundary word

theorem starLoop_same (hm : ∀ s t, s.Same t → List.Forall₂ Pos.Same (m s) (m' t)) (h : s.Same t) :
    List.Forall₂ Pos.Same (starLoop m fuel s) (starLoop m' fuel t) := by
  induction fuel generalizing s t with
  | zero => exact .cons h .nil
  | succ fuel ih =>
    rw [starLoop, starLoop]
    refine List.rel_append ?_ (.cons h .nil)
    refine List.rel_flatMap (hm s t h) fun u v huv => ?_
    rw [huv.2, h.2]
    split
    · exact ih huv
    · exact .nil

/-- Where a match can end does not depend on what is captured. -/
theorem run_plain (h : s.Same t) : List.Forall₂ Pos.Same (r.run s) (r.plain.run t) := by
  induction r generalizing s t with
  | empty => exact .cons h .nil
  | char p =>
    obtain ⟨before, rest, groups⟩ := s
    obtain ⟨before', rest', groups'⟩ := t
    obtain ⟨rfl, rfl⟩ := h
    simp only [run, plain]
    cases rest with
    | nil => exact .nil
    | cons c rest =>
      by_cases hc : p c = true
      · simp only [hc, if_true]
        exact .cons ⟨rfl, rfl⟩ .nil
      · simp only [hc]
        exact .nil
  | seq r q ihr ihq => exact List.rel_flatMap (ihr h) fun u v huv => ihq huv
  | alt r q ihr ihq => exact List.rel_append (ihr h) (ihq h)
  | star r ih =>
    rw [run, plain, run, h.2]
    exact starLoop_same (fun s t hst => ih hst) h
  | group n r ih =>
    rw [run, plain, List.forall₂_map_left_iff]
    exact (ih h).imp fun u v huv => huv
  | notBehind p | notAhead p | boundary p =>
    simp only [run, plain, h.1, h.2]
    split
    · exact .nil
    · exact .cons h .nil

/-- A pattern that captures nothing leaves the groups as they are. -/
theorem run_plain_groups (h : t ∈ r.plain.run s) : t.groups = s.groups := by
  induction r generalizing s t with
  | empty => exact List.mem_singleton.mp h ▸ rfl
  | char p =>
    simp only [plain, run] at h
    split at h
    · split at h
      · exact List.mem_singleton.mp h ▸ rfl
      · cases h
    · cases h
  | seq r q ihr ihq =>
    obtain ⟨u, hu, ht⟩ := List.mem_flatMap.mp h
    exact (ihq ht).trans (ihr hu)
  | alt r q ihr ihq => exact (List.mem_append.mp h).elim ihr ihq
  | star r ih =>
    simp only [plain, run] at h
    generalize s.rest.length = fuel at h
    induction fuel generalizing s with
    | zero => exact List.mem_singleton.mp h ▸ rfl
    | succ fuel ih' =>
      rw [starLoop, List.mem_append, List.mem_flatMap, List.mem_singleton] at h
      obtain ⟨u, hu, h⟩ | rfl := h
      · split at h
        · exact (ih' h).trans (ih hu)
        · cases h
      · rfl
  | group n r ih => exact ih h
  | notBehind p | notAhead p | boundary p =>
    simp only [plain, run] at h
    split at h
    · cases h
    · exact List.mem_singleton.mp h ▸ rfl

theorem run_eq_nil_plain : r.run s = [] ↔ r.plain.run s = [] := by
  have hlength := (run_plain (r := r) (Pos.Same.refl s)).length_eq
  rw [← List.length_eq_zero_iff, ← List.length_eq_zero_iff, hlength]

theorem run_seq_eq_nil : (seq r q).run s = [] ↔ ∀ t ∈ r.run s, q.run t = [] := List.flatMap_eq_nil_iff

theorem run_seq_congr {q' : Regex} (h : ∀ t, q.run t = [] ↔ q'.run t = []) :
    (seq r q).run s = [] ↔ (seq r q').run s = [] := by
  rw [run_seq_eq_nil, run_seq_eq_nil]
  exact forall₂_congr fun t _ => h t

theorem run_alt_eq_nil : (alt r q).run s = [] ↔ r.run s = [] ∧ q.run s = [] := List.append_eq_nil_iff

theorem run_group_eq_nil {n : Nat} : (group n r).run s = [] ↔ r.run s = [] := List.map_eq_nil_iff

/-- A pattern that matches anywhere. -/
def Total (r : Regex) : Prop := ∀ s, r.run s ≠ []

theorem total_opt (r : Regex) : (opt r).Total := by
  intro s
  simp [opt, run]

theorem Total.seq (hr : r.Total) (hq : q.Total) : (seq r q).Total := by
  intro s h
  obtain ⟨t, ht⟩ := List.exists_mem_of_ne_nil _ (hr s)
  exact hq t (run_seq_eq_nil.mp h t ht)

/-- What matches anywhere can be left out at the end. -/
theorem Total.run_seq_eq_nil (hq : q.Total) : (Regex.seq r q).run s = [] ↔ r.run s = [] := by
  rw [Regex.run_seq_eq_nil]
  constructor
  · intro h
    rw [List.eq_nil_iff_forall_not_mem]
    exact fun t ht => hq t (h t ht)
  · intro h
    simp [h]

/-- A literal word matches where the text goes on with it. -/
theorem run_word_eq_nil {text : String} :
    (word (fun c d => c = d) text).run s = [] ↔ ¬ text.toList <+: s.rest := by
  rw [word]
  generalize text.toList = letters
  induction letters generalizing s with
  | nil => simp [run]
  | cons c letters ih =>
    rw [List.foldr_cons, run_seq_eq_nil]
    obtain ⟨before, rest, groups⟩ := s
    cases rest with
    | nil => simp [run]
    | cons d rest =>
      by_cases hd : c = d
      · subst hd
        simp [run, ih]
      · simp [run, hd]

end Regex

/-- A scan that finds nothing has tried to match at every place. -/
theorem findallFrom_eq_nil (hs : s.groups = []) (hfuel : s.rest.length < fuel) :
    findallFrom r fuel s = [] ↔ ∀ k ≤ s.rest.length, r.run (s.skip k) = [] := by
  induction fuel generalizing s with
  | zero => omega
  | succ fuel ih =>
    obtain ⟨before, rest, groups⟩ := s
    obtain rfl : groups = [] := hs
    have hhere : Pos.skip { before, rest, groups := [] } 0 = { before, rest, groups := [] } := rfl
    rw [findallFrom]
    cases hrun : (r.run { before, rest, groups := [] }).head? with
    | some t =>
      refine ⟨fun h => by simp at h, fun h => ?_⟩
      rw [← hhere, h 0 (Nat.zero_le _)] at hrun
      cases hrun
    | none =>
      rw [List.head?_eq_none_iff] at hrun
      cases rest with
      | nil =>
        simp only [List.length_nil, Nat.le_zero_eq, true_iff]
        rintro k rfl
        exact hrun
      | cons c rest =>
        have hnext (k : Nat) : Pos.skip { before, rest := c :: rest, groups := [] } (k + 1) =
            Pos.skip { before := c :: before, rest, groups := [] } k := by
          simp [Pos.skip]
        simp only [List.length_cons] at hfuel ⊢
        rw [ih rfl (by simp only; omega)]
        constructor
        · intro h k hk
          cases k with
          | zero => exact hrun
          | succ k => exact (congrArg r.run (hnext k)).trans (h k (by simp only; omega))
        · intro h k hk
          exact (congrArg r.run (hnext k)).symm.trans (h (k + 1) (by simp only at hk; omega))

theorem findall_eq_nil {text : String} :
    findall r text = [] ↔ ∀ k ≤ text.length, r.run ((Pos.start text.toList).skip k) = [] := by
  have hlength : (Pos.start text.toList).rest.length = text.length := String.length_toList
  rw [findall, findallFrom_eq_nil rfl (by omega), hlength]

theorem search_isSome {text : String} :
    (search r text).isSome = true ↔ ∃ k ≤ text.length, r.run ((Pos.start text.toList).skip k) ≠ [] := by
  rw [search, List.isSome_head?, ne_eq, findall_eq_nil]
  push Not
  rfl

end Places

section Sub

variable {f : Pos → Pos → List Char}

theorem subFrom_nil (hr : r.reads = true) (hs : s.rest = []) : subFrom r f fuel s = [] := by
  cases fuel with
  | zero => exact hs
  | succ fuel =>
    have hrun : r.run s = [] := List.eq_nil_iff_forall_not_mem.mpr fun t ht => by
      have hlt := Regex.run_reads hr ht
      simp [hs] at hlt
    simp [subFrom, hrun, hs]

/-- Characters that no match begins with are kept. -/
theorem subFrom_skip {before : List Char}
    (h : ∀ c ∈ u, ∀ before rest, r.run { before, rest := c :: rest, groups := [] } = []) :
    subFrom r f (u.length + fuel) { before, rest := u ++ v, groups := [] } =
      u ++ subFrom r f fuel { before := u.reverse ++ before, rest := v, groups := [] } := by
  induction u generalizing before with
  | nil => simp
  | cons c u ih =>
    obtain ⟨hc, hu⟩ := List.forall_mem_cons.mp h
    rw [List.length_cons, Nat.add_right_comm, List.cons_append, subFrom, hc]
    simp [ih hu]

theorem subFrom_fuel (hr : r.reads = true) (h : s.rest.length ≤ fuel) (h' : s.rest.length ≤ fuel') :
    subFrom r f fuel s = subFrom r f fuel' s := by
  induction fuel generalizing s fuel' with
  | zero =>
    have hs : s.rest = [] := List.length_eq_zero_iff.mp (by omega)
    rw [subFrom_nil hr hs, subFrom_nil hr hs]
  | succ fuel ih =>
    cases fuel' with
    | zero =>
      have hs : s.rest = [] := List.length_eq_zero_iff.mp (by omega)
      rw [subFrom_nil hr hs, subFrom_nil hr hs]
    | succ fuel' =>
      obtain ⟨before, rest, groups⟩ := s
      rw [subFrom, subFrom]
      cases hrun : (r.run { before, rest, groups }).head? with
      | none =>
        cases rest with
        | nil => rfl
        | cons c rest => exact congrArg _ (ih (by simpa using h) (by simpa using h'))
      | some t =>
        have hlt := Regex.run_reads hr (List.mem_of_mem_head? hrun)
        simp only [hlt, if_true]
        exact congrArg _ (ih (by simp only at hlt h ⊢; omega) (by simp only at hlt h' ⊢; omega))

/-- Replacing goes over a text as it does when the text stands in a longer one,
and on from its end. -/
theorem subFrom_within {out : List Char} (hr : r.reads = true)
    (hrun : ∀ s, r.run (s.within older newer) = (r.run s).map (Pos.within · older newer))
    (hf : ∀ s t, f (s.within older newer) (t.within older newer) = f s t)
    (hout : ∀ n before, newer.length ≤ n → subFrom r f n { before, rest := newer, groups := [] } = out)
    (hs : s.groups = []) (h : s.rest.length ≤ fuel) :
    subFrom r f (fuel + newer.length) (s.within older newer) = subFrom r f fuel s ++ out := by
  induction fuel generalizing s with
  | zero =>
    have hrest : s.rest = [] := List.length_eq_zero_iff.mp (by omega)
    simp only [subFrom_nil hr hrest, List.nil_append, Pos.within, hrest, hs]
    exact hout _ _ (by omega)
  | succ fuel ih =>
    obtain ⟨before, rest, groups⟩ := s
    obtain rfl : groups = [] := hs
    cases rest with
    | nil =>
      rw [subFrom_nil (s := { before, rest := [], groups := [] }) hr rfl]
      exact hout _ _ (by omega)
    | cons c rest =>
      rw [Nat.add_right_comm, subFrom, subFrom, hrun, List.head?_map]
      cases hhead : (r.run { before, rest := c :: rest, groups := [] }).head? with
      | none =>
        have hih := ih (s := { before := c :: before, rest, groups := [] }) rfl (by simpa using h)
        simpa [Pos.within] using hih
      | some t =>
        have hlt := Regex.run_reads hr (List.mem_of_mem_head? hhead)
        have hih := ih (s := { t with groups := [] }) rfl (by simp only [List.length_cons] at hlt h ⊢; omega)
        simp only [Option.map_some, Pos.within_rest, List.length_append, Nat.add_lt_add_iff_right, hlt, if_true, hf,
          List.append_assoc]
        exact congrArg _ hih

/-- Replacing what a pattern matches is done on each side of a character that
the pattern avoids. -/
theorem sub_append (hr : r.reads = true) (hc : r.avoids c = true)
    (hf : ∀ s t older newer, f (s.within older newer) (t.within older newer) = f s t) :
    sub r f (u ++ c :: v) = sub r f u ++ c :: sub r f v := by
  have hmoved (n : Nat) (before : List Char) (hn : v.length ≤ n) :
      subFrom r f n { before, rest := v, groups := [] } = sub r f v := by
    have hwithin : subFrom r f (n + 0) ((Pos.start v).within before []) = subFrom r f n (Pos.start v) ++ [] :=
      subFrom_within hr (fun s => Regex.run_within (by simp) ⟨c, hc⟩) (fun s t => hf s t _ _)
        (fun n before _ => subFrom_nil hr rfl) rfl hn
    have hfuel : sub r f v = subFrom r f n (Pos.start v) := subFrom_fuel hr (Nat.le_succ _) hn
    rw [hfuel]
    simpa [Pos.within, Pos.start] using hwithin
  have hrun (s : Pos) (older : List Char) :
      r.run (s.within older (c :: v)) = (r.run s).map (Pos.within · older (c :: v)) :=
    Regex.run_within (by simpa using hc) ⟨c, hc⟩
  have hout (n : Nat) (before : List Char) (hn : (c :: v).length ≤ n) :
      subFrom r f n { before, rest := c :: v, groups := [] } = c :: sub r f v := by
    obtain ⟨n, rfl⟩ : ∃ k, n = k + 1 := ⟨n - 1, by simp only [List.length_cons] at hn; omega⟩
    have hnone : r.run { before, rest := [], groups := [] } = [] := List.eq_nil_iff_forall_not_mem.mpr fun t ht => by
      simpa using Regex.run_reads hr ht
    have hstop := hrun { before, rest := [], groups := [] } []
    simp only [Pos.within, List.append_nil, List.nil_append, hnone, List.map_nil] at hstop
    simp only [subFrom, hstop, List.head?_nil]
    rw [hmoved n _ (by simpa using hn)]
  have hwithin : subFrom r f (u.length + 1 + (c :: v).length) ((Pos.start u).within [] (c :: v)) =
      subFrom r f (u.length + 1) (Pos.start u) ++ c :: sub r f v :=
    subFrom_within hr (fun s => hrun s []) (fun s t => hf s t _ _) hout rfl (by simp)
  have hfuel : sub r f (u ++ c :: v) =
      subFrom r f (u.length + 1 + (c :: v).length) (Pos.start (u ++ c :: v)) :=
    subFrom_fuel hr (Nat.le_succ _) (by simp)
  rw [hfuel, sub, ← hwithin]
  simp [Pos.within, Pos.start]

end Sub

end Rules

end regex
