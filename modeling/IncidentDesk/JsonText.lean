import Mathlib.Data.List.Forall2
import IncidentDesk.Json

namespace incidentdesk.Json

/-- How a document is written: whether the characters beyond ASCII are escaped,
and what stands between items and after keys. -/
structure Format where
  ascii : Bool
  comma : List Char
  colon : List Char

/-- The default of `json.dumps`. -/
def Format.default : Format := { ascii := true, comma := [',', ' '], colon := [':', ' '] }

/-- Without spaces, as `model_dump_json` and the HTTP client write. -/
def Format.compact : Format := { ascii := false, comma := [','], colon := [':'] }

/-- An escaped code unit. -/
def unicodeEscape (n : Nat) : List Char :=
  '\\' :: 'u' :: [n / 4096 % 16, n / 256 % 16, n / 16 % 16, n % 16].map Nat.digitChar

/-- The letters that stand for control characters after a backslash. -/
def shortEscapes : List (Char × Char) :=
  [('"', '"'), ('\\', '\\'), ('\n', 'n'), ('\r', 'r'), ('\t', 't'), ('\x0c', 'f'), ('\x08', 'b')]

def escape (ascii : Bool) (c : Char) : List Char :=
  match shortEscapes.lookup c with
  | some letter => ['\\', letter]
  | none =>
    if c.toNat < 32 || (ascii && 126 < c.toNat) then
      if c.toNat < 0x10000 then unicodeEscape c.toNat
      else unicodeEscape (0xd800 + (c.toNat - 0x10000) / 1024) ++ unicodeEscape (0xdc00 + (c.toNat - 0x10000) % 1024)
    else [c]

def quoted (ascii : Bool) (text : String) : List Char := '"' :: (text.toList.flatMap (escape ascii) ++ ['"'])

def digits (n : Int) : List Char := if n < 0 then '-' :: Nat.toDigits 10 n.natAbs else Nat.toDigits 10 n.natAbs

/-- The text of a document. -/
def chars (fmt : Format) : Json → List Char
  | .null => ['n', 'u', 'l', 'l']
  | .bool true => ['t', 'r', 'u', 'e']
  | .bool false => ['f', 'a', 'l', 's', 'e']
  | .num value => digits value
  | .str value => quoted fmt.ascii value
  | .arr items => '[' :: (fmt.comma.intercalate (itemTexts items) ++ [']'])
  | .obj fields => '{' :: (fmt.comma.intercalate (memberTexts fields) ++ ['}'])
where
  itemTexts : List Json → List (List Char)
    | [] => []
    | item :: items => chars fmt item :: itemTexts items
  memberTexts : List (String × Json) → List (List Char)
    | [] => []
    | (key, value) :: fields => (quoted fmt.ascii key ++ fmt.colon ++ chars fmt value) :: memberTexts fields

/-- `json.dumps`. -/
def dumps (document : Json) : String := String.ofList (document.chars .default)

def isSpace (c : Char) : Bool := c = ' ' || c = '\t' || c = '\n' || c = '\r'

def hexValue (c : Char) : Option Nat :=
  if c.isDigit then some (c.toNat - 48)
  else if 'a' ≤ c && c ≤ 'f' then some (c.toNat - 87)
  else if 'A' ≤ c && c ≤ 'F' then some (c.toNat - 55)
  else none

/-- A code unit of four hexadecimal digits. -/
def codeUnit (a b c d : Char) : Option Nat := do
  return ((← hexValue a) * 16 + (← hexValue b)) * 256 + ((← hexValue c) * 16 + (← hexValue d))

/-- The letter after a backslash, read back. -/
def shortUnescape (c : Char) : Option Char :=
  if c = '/' then some '/' else (shortEscapes.find? fun e => e.2 = c).map Prod.fst

/-- The code units up to the closing quotation mark, and what follows it. -/
def unquote : List Char → Option (List Nat × List Char)
  | '"' :: rest => some ([], rest)
  | '\\' :: 'u' :: a :: b :: c :: d :: rest => do
    let n ← codeUnit a b c d
    let (units, rest) ← unquote rest
    return (n :: units, rest)
  | '\\' :: c :: rest => do
    let c ← shortUnescape c
    let (units, rest) ← unquote rest
    return (c.toNat :: units, rest)
  | c :: rest =>
    if c.toNat < 32 ∨ c = '\\' then none
    else do
      let (units, rest) ← unquote rest
      return (c.toNat :: units, rest)
  | [] => none

/-- The characters of some code units: two surrogates that belong together are
one, and one that stands alone is none. -/
def fromUnits : List Nat → List Char
  | [] => []
  | [n] => [if 0xd800 ≤ n ∧ n < 0xe000 then '\ufffd' else Char.ofNat n]
  | n :: m :: rest =>
    if 0xd800 ≤ n ∧ n < 0xdc00 ∧ 0xdc00 ≤ m ∧ m < 0xe000 then
      Char.ofNat (0x10000 + (n - 0xd800) * 1024 + (m - 0xdc00)) :: fromUnits rest
    else (if 0xd800 ≤ n ∧ n < 0xe000 then '\ufffd' else Char.ofNat n) :: fromUnits (m :: rest)

def fromText (units : List Nat) : String := String.ofList (fromUnits units)

def skipSpaces (text : List Char) : List Char := text.dropWhile isSpace

/-- `d[key] = value`: a key keeps its place. -/
def put (fields : List (String × Json)) (pair : String × Json) : List (String × Json) :=
  if fields.any fun field => field.1 = pair.1 then
    fields.map fun field => if field.1 = pair.1 then (field.1, pair.2) else field
  else fields ++ [pair]

/-- An object of decoded pairs: a key has its first place and its last value. -/
def dict (pairs : List (String × Json)) : List (String × Json) := pairs.foldl put []

/-- The digits before the decimal point. -/
def whole : List Char → List Char
  | '0' :: _ => ['0']
  | text => text.takeWhile Char.isDigit

/-- The digits after it, if there are any, and what follows them. -/
def fraction : List Char → List Char × List Char
  | '.' :: rest =>
    if rest.takeWhile Char.isDigit = [] then ([], '.' :: rest)
    else (rest.takeWhile Char.isDigit, rest.dropWhile Char.isDigit)
  | text => ([], text)

/-- The digits of the exponent, if there is one, and what follows them. -/
def exponent : List Char → List Char × List Char
  | [] => ([], [])
  | e :: rest =>
    let unsigned := match rest with
      | '+' :: more | '-' :: more => more
      | _ => rest
    if (e ≠ 'e' ∧ e ≠ 'E') ∨ unsigned.takeWhile Char.isDigit = [] then ([], e :: rest)
    else (unsigned.takeWhile Char.isDigit, unsigned.dropWhile Char.isDigit)

/-- A number without its sign, and what follows it. One that is no integer reads
as `null`. -/
def unsigned (sign : Int) (text : List Char) : Option (Json × List Char) :=
  if whole text = [] then none
  else
    let (tenths, rest) := fraction (text.drop (whole text).length)
    let (power, rest) := exponent rest
    some (if tenths = [] ∧ power = [] then .num (sign * Nat.ofDigitChars 10 (whole text) 0) else .null, rest)

def number : List Char → Option (Json × List Char)
  | '-' :: rest => unsigned (-1) rest
  | text => unsigned 1 text

/-- A value at the beginning of a text, and what follows it. -/
def value : Nat → List Char → Option (Json × List Char)
  | 0, _ => none
  | fuel + 1, text =>
    match text with
    | '"' :: rest => (unquote rest).map fun found => (.str (fromText found.1), found.2)
    | '{' :: rest =>
      match skipSpaces rest with
      | '}' :: rest => some (.obj [], rest)
      | '"' :: rest => (members fuel rest).map fun found => (.obj (dict found.1), found.2)
      | _ => none
    | '[' :: rest =>
      match skipSpaces rest with
      | ']' :: rest => some (.arr [], rest)
      | rest => (elements fuel rest).map fun found => (.arr found.1, found.2)
    | 'n' :: 'u' :: 'l' :: 'l' :: rest => some (.null, rest)
    | 't' :: 'r' :: 'u' :: 'e' :: rest => some (.bool true, rest)
    | 'f' :: 'a' :: 'l' :: 's' :: 'e' :: rest => some (.bool false, rest)
    | 'N' :: 'a' :: 'N' :: rest => some (.null, rest)
    | 'I' :: 'n' :: 'f' :: 'i' :: 'n' :: 'i' :: 't' :: 'y' :: rest => some (.null, rest)
    | '-' :: 'I' :: 'n' :: 'f' :: 'i' :: 'n' :: 'i' :: 't' :: 'y' :: rest => some (.null, rest)
    | text => number text
where
  elements : Nat → List Char → Option (List Json × List Char)
    | 0, _ => none
    | fuel + 1, text => do
      let (item, rest) ← value fuel text
      match skipSpaces rest with
      | ']' :: rest => some ([item], rest)
      | ',' :: rest => (elements fuel (skipSpaces rest)).map fun found => (item :: found.1, found.2)
      | _ => none
  /-- The pairs of an object, from within the quotation marks of the first key. -/
  members : Nat → List Char → Option (List (String × Json) × List Char)
    | 0, _ => none
    | fuel + 1, text => do
      let (key, rest) ← unquote text
      let ':' :: rest := skipSpaces rest | none
      let (item, rest) ← value fuel (skipSpaces rest)
      let pair := (fromText key, item)
      match skipSpaces rest with
      | '}' :: rest => some ([pair], rest)
      | ',' :: rest =>
        match skipSpaces rest with
        | '"' :: rest => (members fuel rest).map fun found => (pair :: found.1, found.2)
        | _ => none
      | _ => none

/-- `json.loads`, and nothing where it raises an error. -/
def loads (text : List Char) : Option Json := do
  let (document, rest) ← value (text.length + 1) (skipSpaces text)
  if skipSpaces rest = [] then some document else none

section Units

variable {text : List Char} {c : Char} {n : Nat} {rest : List Char}

/-- The code units that a character is written as. -/
def units (ascii : Bool) (c : Char) : List Nat :=
  if ascii && 0x10000 ≤ c.toNat then
    [0xd800 + (c.toNat - 0x10000) / 1024, 0xdc00 + (c.toNat - 0x10000) % 1024]
  else [c.toNat]

theorem toNat_not_surrogate (c : Char) : ¬ (0xd800 ≤ c.toNat ∧ c.toNat < 0xe000) := by
  have hvalid := c.valid
  simp only [UInt32.isValidChar, Nat.isValidChar] at hvalid
  have hnat : c.val.toNat = c.toNat := rfl
  omega

theorem toNat_lt (c : Char) : c.toNat < 0x110000 := by
  have hvalid := c.valid
  simp only [UInt32.isValidChar, Nat.isValidChar] at hvalid
  have hnat : c.val.toNat = c.toNat := rfl
  omega

theorem fromUnits_units (ascii : Bool) (c : Char) (more : List Nat) :
    fromUnits (units ascii c ++ more) = c :: fromUnits more := by
  have hchar := toNat_not_surrogate c
  unfold units
  split
  · rename_i hc
    simp only [Bool.and_eq_true, decide_eq_true_eq] at hc
    have hlt := toNat_lt c
    have hmod : (c.toNat - 0x10000) % 1024 < 1024 := Nat.mod_lt _ (by decide)
    rw [List.cons_append, List.singleton_append, fromUnits, if_pos (by omega)]
    refine congrArg (· :: fromUnits more) ?_
    have hback : 0x10000 + (0xd800 + (c.toNat - 0x10000) / 1024 - 0xd800) * 1024 +
        (0xdc00 + (c.toNat - 0x10000) % 1024 - 0xdc00) = c.toNat := by omega
    rw [hback, Char.ofNat_toNat]
  · rw [List.singleton_append]
    have hsingle : (if 0xd800 ≤ c.toNat ∧ c.toNat < 0xe000 then '\ufffd' else Char.ofNat c.toNat) = c := by
      rw [if_neg hchar, Char.ofNat_toNat]
    cases more with
    | nil => exact congrArg (· :: []) hsingle
    | cons m more => rw [fromUnits, if_neg (by omega), hsingle]

theorem fromUnits_flatMap (ascii : Bool) (text : List Char) : fromUnits (text.flatMap (units ascii)) = text := by
  induction text with
  | nil => rfl
  | cons c text ih => rw [List.flatMap_cons, fromUnits_units, ih]

theorem hexValue_digitChar {n : Nat} (h : n < 16) : hexValue n.digitChar = some n := by
  revert n
  decide

theorem codeUnit_digits (h : n < 0x10000) : codeUnit (n / 4096 % 16).digitChar (n / 256 % 16).digitChar
    (n / 16 % 16).digitChar (n % 16).digitChar = some n := by
  have hmod (m : Nat) : m % 16 < 16 := Nat.mod_lt m (by decide)
  simp only [codeUnit, hexValue_digitChar (hmod _), bind, Option.bind, pure]
  congr 1
  omega

theorem unquote_unicodeEscape (h : n < 0x10000) :
    unquote (unicodeEscape n ++ rest) = (unquote rest).map fun found => (n :: found.1, found.2) := by
  simp only [unicodeEscape, List.map_cons, List.map_nil, List.cons_append, List.nil_append]
  rw [unquote, codeUnit_digits h]
  cases unquote rest <;> rfl

theorem units_of_lt (ascii : Bool) (h : c.toNat < 0x10000) : units ascii c = [c.toNat] := by
  rw [units, if_neg]
  simp only [Bool.and_eq_true, decide_eq_true_eq]
  omega

/-- A character is read back as it was written. -/
theorem unquote_escape (ascii : Bool) (c : Char) (rest : List Char) :
    unquote (escape ascii c ++ rest) = (unquote rest).map fun found => (units ascii c ++ found.1, found.2) := by
  unfold escape
  cases hletter : shortEscapes.lookup c with
  | some letter =>
    obtain ⟨before, after, hmem, -⟩ := List.lookup_eq_some_iff.mp hletter
    have hshort : ∀ e ∈ shortEscapes, e.2 ≠ 'u' ∧ shortUnescape e.2 = some e.1 ∧ e.1.toNat < 0x10000 := by decide
    obtain ⟨hu, hback, hlt⟩ := hshort (c, letter) (by simp [hmem])
    rw [units_of_lt ascii hlt]
    change unquote ('\\' :: letter :: rest) = _
    rw [unquote, hback]
    · cases unquote rest <;> rfl
    · intro _ _ _ _ _ hletter'
      exact absurd hletter' hu
  | none =>
    have hquote : c ≠ '"' := by
      rintro rfl
      cases hletter
    have hbackslash : c ≠ '\\' := by
      rintro rfl
      cases hletter
    dsimp only
    split
    · rename_i hescaped
      simp only [Bool.or_eq_true, Bool.and_eq_true, decide_eq_true_eq] at hescaped
      split
      · rw [unquote_unicodeEscape ‹_›, units_of_lt ascii ‹_›]
        rfl
      · rename_i hc
        have hlt := toNat_lt c
        have hmod : (c.toNat - 0x10000) % 1024 < 1024 := Nat.mod_lt _ (by decide)
        have hascii : ascii = true := (hescaped.resolve_left (by omega)).1
        rw [List.append_assoc, unquote_unicodeEscape (by omega), unquote_unicodeEscape (by omega), Option.map_map,
          units, hascii, Bool.true_and, if_pos (by simpa using hc)]
        rfl
    · rename_i hplain
      simp only [Bool.or_eq_true, Bool.and_eq_true, decide_eq_true_eq, not_or, not_lt, not_and] at hplain
      have hunits : units ascii c = [c.toNat] := by
        rw [units, if_neg]
        simp only [Bool.and_eq_true, decide_eq_true_eq, not_and]
        intro hascii
        have := hplain.2 hascii
        omega
      change unquote (c :: rest) = _
      rw [unquote, if_neg (not_or.mpr ⟨by omega, hbackslash⟩), hunits]
      · cases unquote rest <;> rfl
      · exact hquote
      · exact fun _ _ _ _ _ h => absurd h hbackslash
      · exact fun _ _ h => absurd h hbackslash

/-- So is a text. -/
theorem unquote_text (ascii : Bool) (text : String) (rest : List Char) :
    unquote (text.toList.flatMap (escape ascii) ++ '"' :: rest) = some (text.toList.flatMap (units ascii), rest) := by
  induction text.toList with
  | nil => rfl
  | cons c letters ih =>
    rw [List.flatMap_cons, List.append_assoc, unquote_escape, ih]
    rfl

theorem fromText_units (ascii : Bool) (text : String) : fromText (text.toList.flatMap (units ascii)) = text := by
  rw [fromText, fromUnits_flatMap, String.ofList_toList]

end Units

section Number

variable {n : Nat} {rest : List Char}

/-- What may follow a number: nothing that would be read as a part of it. -/
def Ends (rest : List Char) : Prop := ∀ c ∈ rest.head?, c.isDigit = false ∧ c ≠ '.' ∧ c ≠ 'e' ∧ c ≠ 'E'

theorem toDigits_ne_zero_cons (h : 0 < n) (more : List Char) : Nat.toDigits 10 n ≠ '0' :: more := by
  induction n using Nat.strong_induction_on generalizing more with
  | _ n ih =>
    by_cases hn : n < 10
    · rw [Nat.toDigits_of_lt_base hn]
      have hdigit : ∀ n < 10, 0 < n → n.digitChar ≠ '0' := by decide
      intro heq
      exact hdigit n hn h (List.cons.inj heq).1
    · rw [Nat.toDigits_of_base_le (by decide) (by omega)]
      intro heq
      cases hdigits : Nat.toDigits 10 (n / 10) with
      | nil => exact Nat.toDigits_ne_nil hdigits
      | cons c more' =>
        rw [hdigits, List.cons_append] at heq
        obtain rfl := (List.cons.inj heq).1
        exact ih (n / 10) (by omega) (by omega) more' hdigits

theorem takeWhile_toDigits (hrest : Ends rest) : (Nat.toDigits 10 n ++ rest).takeWhile Char.isDigit = Nat.toDigits 10 n := by
  rw [List.takeWhile_append_of_pos fun c hc => Nat.isDigit_of_mem_toDigits (by decide) (by decide) hc]
  cases rest with
  | nil => simp
  | cons c rest => simp [(hrest c rfl).1]

/-- A natural number is read up to its end. -/
theorem whole_toDigits (hrest : Ends rest) : whole (Nat.toDigits 10 n ++ rest) = Nat.toDigits 10 n := by
  unfold whole
  split
  · rename_i more heq
    by_cases hn : n = 0
    · rw [hn]
      rfl
    · cases hdigits : Nat.toDigits 10 n with
      | nil => exact absurd hdigits Nat.toDigits_ne_nil
      | cons c digits =>
        rw [hdigits, List.cons_append] at heq
        obtain rfl := (List.cons.inj heq).1
        exact absurd hdigits (toDigits_ne_zero_cons (Nat.pos_of_ne_zero hn) digits)
  · exact takeWhile_toDigits hrest

theorem fraction_of_ends (hrest : Ends rest) : fraction rest = ([], rest) := by
  unfold fraction
  split
  · exact absurd rfl (hrest '.' rfl).2.1
  · rfl

theorem exponent_of_ends (hrest : Ends rest) : exponent rest = ([], rest) := by
  cases rest with
  | nil => rfl
  | cons e rest => exact if_pos (.inl (hrest e rfl).2.2)

theorem unsigned_toDigits (sign : Int) (hrest : Ends rest) :
    unsigned sign (Nat.toDigits 10 n ++ rest) = some (.num (sign * n), rest) := by
  have hnonempty : Nat.toDigits 10 n ≠ [] := Nat.toDigits_ne_nil
  simp only [unsigned, whole_toDigits hrest, hnonempty, if_false, List.drop_left, fraction_of_ends hrest,
    exponent_of_ends hrest, and_self, if_true, Nat.ofDigitChars_ten_toDigits]

theorem number_digits (n : Int) (hrest : Ends rest) : number (digits n ++ rest) = some (.num n, rest) := by
  unfold digits
  split
  · rw [List.cons_append, number, unsigned_toDigits _ hrest]
    congr
    omega
  · rw [number, unsigned_toDigits _ hrest]
    · congr
      omega
    · intro more heq
      cases hdigits : Nat.toDigits 10 n.natAbs with
      | nil => exact Nat.toDigits_ne_nil hdigits
      | cons c digits =>
        rw [hdigits, List.cons_append] at heq
        obtain rfl := (List.cons.inj heq).1
        have hdigit : Char.isDigit '-' = true :=
          Nat.isDigit_of_mem_toDigits (by decide) (by decide) (hdigits ▸ List.mem_cons_self)
        cases hdigit

end Number

/-- No object has a key twice. -/
def Distinct : Json → Prop
  | .arr items => itemsDistinct items
  | .obj fields => (fields.map Prod.fst).Nodup ∧ membersDistinct fields
  | _ => True
where
  itemsDistinct : List Json → Prop
    | [] => True
    | item :: items => Distinct item ∧ itemsDistinct items
  membersDistinct : List (String × Json) → Prop
    | [] => True
    | (_, value) :: fields => Distinct value ∧ membersDistinct fields

section Put

variable {fields : List (String × Json)} {pair : String × Json} {key : String}

theorem put_of_not_mem (h : pair.1 ∉ fields.map Prod.fst) : put fields pair = fields ++ [pair] := by
  rw [put, if_neg]
  simp only [List.any_eq_true, decide_eq_true_eq, not_exists, not_and]
  exact fun field hfield heq => h (heq ▸ List.mem_map_of_mem hfield)

theorem put_of_mem (h : pair.1 ∈ fields.map Prod.fst) :
    put fields pair = fields.map fun field => if field.1 = pair.1 then (field.1, pair.2) else field := by
  obtain ⟨field, hfield, heq⟩ := List.mem_map.mp h
  rw [put, if_pos]
  exact List.any_eq_true.mpr ⟨field, hfield, by simpa using heq⟩

theorem keys_put_of_mem (h : pair.1 ∈ fields.map Prod.fst) : (put fields pair).map Prod.fst = fields.map Prod.fst := by
  rw [put_of_mem h, List.map_map]
  apply List.map_congr_left
  intro field _
  rw [Function.comp_apply]
  split <;> rfl

theorem nodup_put (h : (fields.map Prod.fst).Nodup) : ((put fields pair).map Prod.fst).Nodup := by
  by_cases hmem : pair.1 ∈ fields.map Prod.fst
  · rwa [keys_put_of_mem hmem]
  · rw [put_of_not_mem hmem, List.map_append, List.nodup_append]
    refine ⟨h, List.nodup_singleton _, ?_⟩
    rintro key hkey key' hkey' rfl
    exact hmem (List.mem_singleton.mp hkey' ▸ hkey)

theorem mem_put {field : String × Json} (h : field ∈ put fields pair) :
    field ∈ fields ∨ field = pair := by
  by_cases hmem : pair.1 ∈ fields.map Prod.fst
  · rw [put_of_mem hmem] at h
    obtain ⟨other, hother, rfl⟩ := List.mem_map.mp h
    split
    · rename_i heq
      exact .inr (Prod.ext heq rfl)
    · exact .inl hother
  · rw [put_of_not_mem hmem] at h
    exact (List.mem_append.mp h).imp_right List.mem_singleton.mp

theorem get?_put_self : get? (.obj (put fields pair)) pair.1 = some pair.2 := by
  by_cases hmem : pair.1 ∈ fields.map Prod.fst
  · rw [put_of_mem hmem, get?]
    induction fields with
    | nil => cases hmem
    | cons field fields ih =>
      by_cases heq : field.1 = pair.1
      · simp [heq]
      · have htail : pair.1 ∈ fields.map Prod.fst :=
          (List.mem_cons.mp hmem).resolve_left (Ne.symm heq)
        simpa [heq] using ih htail
  · rw [put_of_not_mem hmem, get?, List.find?_append, List.find?_eq_none.mpr]
    · simp
    · intro field hfield heq
      exact hmem (of_decide_eq_true heq ▸ List.mem_map_of_mem hfield)

theorem get?_put_of_ne (h : pair.1 ≠ key) : get? (.obj (put fields pair)) key = get? (.obj fields) key := by
  by_cases hmem : pair.1 ∈ fields.map Prod.fst
  · rw [put_of_mem hmem, get?, get?]
    clear hmem
    induction fields with
    | nil => rfl
    | cons field fields ih =>
      rw [List.map_cons, List.find?_cons, List.find?_cons]
      by_cases heq : field.1 = pair.1
      · simpa [heq, h] using ih
      · rw [if_neg heq]
        cases hkey : Decidable.decide (field.1 = key) with
        | true => rfl
        | false => exact ih
  · rw [put_of_not_mem hmem, get?, get?, List.find?_append, List.find?_singleton, if_neg (by simpa using h),
      Option.or_none]

theorem dict_of_nodup (h : (fields.map Prod.fst).Nodup) : dict fields = fields := by
  have hfold (done : List (String × Json)) (hdone : ((done ++ fields).map Prod.fst).Nodup) :
      fields.foldl put done = done ++ fields := by
    induction fields generalizing done with
    | nil => rw [List.foldl_nil, List.append_nil]
    | cons field fields ih =>
      have hnew : field.1 ∉ done.map Prod.fst := by
        intro hmem
        rw [List.map_append, List.nodup_append] at hdone
        exact hdone.2.2 field.1 hmem field.1 (by simp) rfl
      have happend : done ++ [field] ++ fields = done ++ field :: fields := by simp
      rw [List.foldl_cons, put_of_not_mem hnew, ih (List.nodup_cons.mp h).2 _ (by rwa [happend]), happend]
  exact (hfold [] (by simpa using h)).trans (List.nil_append _)

theorem nodup_dict (pairs : List (String × Json)) : ((dict pairs).map Prod.fst).Nodup := by
  have hfold (done : List (String × Json)) (hdone : (done.map Prod.fst).Nodup) :
      ((pairs.foldl put done).map Prod.fst).Nodup := by
    induction pairs generalizing done with
    | nil => exact hdone
    | cons pair pairs ih => exact ih _ (nodup_put hdone)
  exact hfold [] List.nodup_nil

theorem mem_dict {pairs : List (String × Json)} {field : String × Json} (h : field ∈ dict pairs) : field ∈ pairs := by
  have hfold (pairs done : List (String × Json)) (h : field ∈ pairs.foldl put done) :
      field ∈ done ∨ field ∈ pairs := by
    induction pairs generalizing done with
    | nil => exact .inl h
    | cons pair pairs ih =>
      obtain hput | hrest := ih (put done pair) h
      · obtain hdone | rfl := mem_put hput
        · exact .inl hdone
        · exact .inr List.mem_cons_self
      · exact .inr (List.mem_cons_of_mem _ hrest)
  exact (hfold pairs [] h).resolve_left List.not_mem_nil

theorem membersDistinct_iff : Distinct.membersDistinct fields ↔ ∀ field ∈ fields, field.2.Distinct := by
  induction fields with
  | nil => simp [Distinct.membersDistinct]
  | cons field fields ih =>
    rw [Distinct.membersDistinct, ih, List.forall_mem_cons]

end Put

section Value

variable {fmt : Format} {rest : List Char}

/-- Between items and after keys stand a comma and a colon, with spaces only. -/
structure Format.Proper (fmt : Format) : Prop where
  comma : ∃ spaces, fmt.comma = ',' :: spaces ∧ ∀ c ∈ spaces, isSpace c = true
  colon : ∃ spaces, fmt.colon = ':' :: spaces ∧ ∀ c ∈ spaces, isSpace c = true

theorem skipSpaces_append {spaces : List Char} (h : ∀ c ∈ spaces, isSpace c = true) (rest : List Char) :
    skipSpaces (spaces ++ rest) = skipSpaces rest := List.dropWhile_append_of_pos h

theorem skipSpaces_cons {c : Char} (h : isSpace c = false) (rest : List Char) : skipSpaces (c :: rest) = c :: rest := by
  simp [skipSpaces, h]

theorem isSpace_of_isDigit {c : Char} (h : c.isDigit = true) : isSpace c = false := by
  have hne : ∀ d, d.isDigit = false → c ≠ d := by
    rintro d hd rfl
    rw [h] at hd
    cases hd
  simp [isSpace, hne ' ' rfl, hne '\t' rfl, hne '\n' rfl, hne '\r' rfl]

/-- A document begins with a character that no space, comma or bracket is. -/
theorem chars_cons (fmt : Format) (v : Json) :
    ∃ c more, v.chars fmt = c :: more ∧ isSpace c = false ∧ c ≠ ']' := by
  cases v with
  | null => exact ⟨_, _, rfl, rfl, by decide⟩
  | bool value => cases value <;> exact ⟨_, _, rfl, rfl, by decide⟩
  | str value => exact ⟨_, _, rfl, rfl, by decide⟩
  | arr items => exact ⟨_, _, rfl, rfl, by decide⟩
  | obj fields => exact ⟨_, _, rfl, rfl, by decide⟩
  | num n =>
    rw [chars, digits]
    split
    · exact ⟨_, _, rfl, rfl, by decide⟩
    · cases hdigits : Nat.toDigits 10 n.natAbs with
      | nil => exact absurd hdigits Nat.toDigits_ne_nil
      | cons c more =>
        have hdigit : c.isDigit = true :=
          Nat.isDigit_of_mem_toDigits (by decide) (by decide) (hdigits ▸ List.mem_cons_self)
        refine ⟨c, more, rfl, isSpace_of_isDigit hdigit, ?_⟩
        rintro rfl
        cases hdigit

theorem skipSpaces_chars (fmt : Format) (v : Json) (rest : List Char) :
    skipSpaces (v.chars fmt ++ rest) = v.chars fmt ++ rest := by
  obtain ⟨c, more, hchars, hc, -⟩ := chars_cons fmt v
  rw [hchars, List.cons_append, skipSpaces_cons hc]

theorem ends_cons {c : Char} (h : c.isDigit = false ∧ c ≠ '.' ∧ c ≠ 'e' ∧ c ≠ 'E') : Ends (c :: rest) := by
  rintro d ⟨⟩
  exact h

theorem digits_cons {n : Int} {c : Char} {more : List Char} (h : digits n ++ rest = c :: more) :
    c.isDigit = true ∨ c = '-' ∧ ∃ d more', more = d :: more' ∧ d.isDigit = true := by
  have hhead (m : Nat) : ∃ d digits, Nat.toDigits 10 m = d :: digits ∧ d.isDigit = true := by
    cases hdigits : Nat.toDigits 10 m with
    | nil => exact absurd hdigits Nat.toDigits_ne_nil
    | cons d digits =>
      exact ⟨d, digits, rfl, Nat.isDigit_of_mem_toDigits (by decide) (by decide) (hdigits ▸ List.mem_cons_self)⟩
  obtain ⟨d, ds, hds, hd⟩ := hhead n.natAbs
  unfold digits at h
  split at h
  · rw [hds] at h
    obtain ⟨rfl, rfl⟩ := List.cons.inj h
    exact .inr ⟨rfl, d, ds ++ rest, rfl, hd⟩
  · rw [hds] at h
    obtain ⟨rfl, rfl⟩ := List.cons.inj h
    exact .inl hd

/-- A number is not taken for anything else. -/
theorem value_digits (n : Int) (fuel : Nat) (hrest : Ends rest) :
    value (fuel + 1) (digits n ++ rest) = some (.num n, rest) := by
  have hne {c : Char} {more : List Char} (h : digits n ++ rest = c :: more) (hc : c.isDigit = false)
      (hminus : c ≠ '-') : False := by
    obtain hdigit | ⟨rfl, -⟩ := digits_cons h
    · rw [hc] at hdigit
      cases hdigit
    · exact hminus rfl
  rw [value]
  · exact number_digits n hrest
  · exact fun _ h => hne h rfl (by decide)
  · exact fun _ h => hne h rfl (by decide)
  · exact fun _ h => hne h rfl (by decide)
  · exact fun _ h => hne h rfl (by decide)
  · exact fun _ h => hne h rfl (by decide)
  · exact fun _ h => hne h rfl (by decide)
  · exact fun _ h => hne h rfl (by decide)
  · exact fun _ h => hne h rfl (by decide)
  · intro _ h
    obtain hdigit | ⟨-, d, more, hmore, hd⟩ := digits_cons h
    · cases hdigit
    · obtain ⟨rfl, -⟩ := List.cons.inj hmore
      cases hd

theorem length_chars_pos (fmt : Format) (v : Json) : 0 < (v.chars fmt).length := by
  obtain ⟨c, more, hchars, -⟩ := chars_cons fmt v
  rw [hchars]
  exact Nat.succ_pos _

theorem ends_comma : Ends (',' :: rest) := ends_cons (by decide)

theorem ends_bracket : Ends (']' :: rest) := ends_cons (by decide)

theorem ends_brace : Ends ('}' :: rest) := ends_cons (by decide)

/-- A list of documents begins as its first one does. -/
theorem itemTexts_head (fmt : Format) (item : Json) (items : List Json) :
    ∃ c more, fmt.comma.intercalate (chars.itemTexts fmt (item :: items)) = c :: more ∧
      isSpace c = false ∧ c ≠ ']' := by
  obtain ⟨c, more, hchars, hc, hbracket⟩ := chars_cons fmt item
  cases items with
  | nil => exact ⟨c, more, by rw [chars.itemTexts, chars.itemTexts, List.intercalate_singleton, hchars], hc, hbracket⟩
  | cons next items =>
    refine ⟨c, more ++ (fmt.comma ++ fmt.comma.intercalate (chars.itemTexts fmt (next :: items))), ?_, hc, hbracket⟩
    simp only [chars.itemTexts, List.intercalate_cons_cons, hchars, List.cons_append, List.append_assoc]

theorem memberTexts_head (fmt : Format) (key : String) (v : Json) (fields : List (String × Json)) :
    ∃ text, fmt.comma.intercalate (chars.memberTexts fmt ((key, v) :: fields)) = '"' :: text := by
  cases fields with
  | nil =>
    rw [chars.memberTexts, chars.memberTexts, List.intercalate_singleton, quoted]
    exact ⟨_, rfl⟩
  | cons next fields =>
    obtain ⟨next, w⟩ := next
    rw [chars.memberTexts, chars.memberTexts, List.intercalate_cons_cons, quoted]
    exact ⟨_, rfl⟩

mutual

/-- A document is read back as it was written. -/
theorem value_chars (hfmt : fmt.Proper) (v : Json) (hv : v.Distinct) (fuel : Nat) (rest : List Char)
    (hfuel : (v.chars fmt).length < fuel) (hrest : Ends rest) :
    value fuel (v.chars fmt ++ rest) = some (v, rest) := by
  cases fuel with
  | zero => omega
  | succ fuel =>
    match v with
    | .null => rfl
    | .bool true => rfl
    | .bool false => rfl
    | .num n => exact value_digits n fuel hrest
    | .str text =>
      have htext : (Json.str text).chars fmt ++ rest =
          '"' :: (text.toList.flatMap (escape fmt.ascii) ++ '"' :: rest) := by
        simp [chars, quoted]
      rw [htext, value, unquote_text, Option.map_some, fromText_units]
    | .arr [] => rfl
    | .arr (item :: items) =>
      obtain ⟨c, more, hitem, hc, hbracket⟩ := itemTexts_head fmt item items
      rw [chars, List.length_cons, List.length_append, List.length_singleton] at hfuel
      have helements := elements_chars hfmt item items hv fuel rest (by omega)
      rw [chars, List.cons_append, List.append_assoc, List.singleton_append, hitem, List.cons_append, value,
        skipSpaces_cons hc]
      split
      · rename_i heq
        exact absurd (List.cons.inj heq).1 hbracket
      · rw [hitem, List.cons_append] at helements
        rw [helements]
        rfl
    | .obj [] => rfl
    | .obj ((key, v) :: fields) =>
      obtain ⟨text, htext⟩ := memberTexts_head fmt key v fields
      rw [chars, htext, List.length_cons, List.length_append, List.length_cons, List.length_singleton] at hfuel
      have hmembers := members_chars hfmt key v fields hv.2 fuel text rest htext (by omega)
      rw [chars, htext, List.cons_append, List.cons_append, List.cons_append, List.append_assoc, List.singleton_append,
        value, skipSpaces_cons (by rfl)]
      refine (congrArg (Option.map fun found => (Json.obj (dict found.1), found.2)) hmembers).trans ?_
      rw [Option.map_some, dict_of_nodup hv.1]
termination_by fuel

theorem elements_chars (hfmt : fmt.Proper) (item : Json) (items : List Json)
    (hdistinct : Distinct.itemsDistinct (item :: items)) (fuel : Nat) (rest : List Char)
    (hfuel : (fmt.comma.intercalate (chars.itemTexts fmt (item :: items))).length + 1 < fuel) :
    value.elements fuel (fmt.comma.intercalate (chars.itemTexts fmt (item :: items)) ++ ']' :: rest) =
      some (item :: items, rest) := by
  cases fuel with
  | zero => omega
  | succ fuel =>
    match items with
    | [] =>
      have hitem := value_chars hfmt item hdistinct.1 fuel (']' :: rest)
        (by simpa [chars.itemTexts, List.intercalate_singleton] using Nat.lt_of_succ_lt_succ hfuel) ends_bracket
      rw [chars.itemTexts, chars.itemTexts, List.intercalate_singleton, value.elements, hitem]
      rfl
    | next :: more =>
      rw [chars.itemTexts, chars.itemTexts, List.intercalate_cons_cons, List.length_append, List.length_append,
        ← chars.itemTexts] at hfuel
      obtain ⟨spaces, hcomma, hspaces⟩ := hfmt.comma
      obtain ⟨c, tail, hnext, hc, -⟩ := itemTexts_head fmt next more
      have hlength : 0 < fmt.comma.length := by rw [hcomma]; exact Nat.succ_pos _
      have hpos := length_chars_pos fmt item
      have hitem := value_chars hfmt item hdistinct.1 fuel
        (',' :: (spaces ++ (fmt.comma.intercalate (chars.itemTexts fmt (next :: more)) ++ ']' :: rest)))
        (by omega) ends_comma
      have hmore := elements_chars hfmt next more hdistinct.2 fuel rest (by omega)
      have hsplit : fmt.comma.intercalate (chars.itemTexts fmt (item :: next :: more)) ++ ']' :: rest = item.chars fmt ++
          ',' :: (spaces ++ (fmt.comma.intercalate (chars.itemTexts fmt (next :: more)) ++ ']' :: rest)) := by
        simp only [chars.itemTexts, List.intercalate_cons_cons, hcomma, List.append_assoc, List.cons_append]
      rw [hsplit, value.elements, hitem]
      simp only [bind, Option.bind, skipSpaces_cons (show isSpace ',' = false from rfl)]
      rw [skipSpaces_append hspaces, hnext, List.cons_append, skipSpaces_cons hc, ← List.cons_append, ← hnext, hmore]
      rfl
termination_by fuel

theorem members_chars (hfmt : fmt.Proper) (key : String) (v : Json) (fields : List (String × Json))
    (hdistinct : Distinct.membersDistinct ((key, v) :: fields)) (fuel : Nat) (text rest : List Char)
    (htext : fmt.comma.intercalate (chars.memberTexts fmt ((key, v) :: fields)) = '"' :: text)
    (hfuel : text.length + 1 < fuel) :
    value.members fuel (text ++ '}' :: rest) = some ((key, v) :: fields, rest) := by
  cases fuel with
  | zero => omega
  | succ fuel =>
    obtain ⟨spaces, hcolon, hspaces⟩ := hfmt.colon
    match fields with
    | [] =>
      rw [chars.memberTexts, chars.memberTexts, List.intercalate_singleton, quoted, hcolon] at htext
      simp only [List.cons_append, List.nil_append, List.append_assoc, List.cons.injEq, true_and] at htext
      subst text
      simp only [List.length_append, List.length_cons] at hfuel
      have hvalue := value_chars hfmt v hdistinct.1 fuel ('}' :: rest) (by omega) ends_brace
      simp only [List.append_assoc, List.cons_append]
      rw [value.members, unquote_text]
      simp only [bind, Option.bind, skipSpaces_cons (show isSpace ':' = false from rfl),
        skipSpaces_append hspaces, skipSpaces_chars, hvalue, skipSpaces_cons (show isSpace '}' = false from rfl),
        fromText_units]
    | (next, w) :: more =>
      obtain ⟨tail, htail⟩ := memberTexts_head fmt next w more
      obtain ⟨spaces', hcomma, hspaces'⟩ := hfmt.comma
      rw [chars.memberTexts, chars.memberTexts, List.intercalate_cons_cons, ← chars.memberTexts, htail, quoted,
        hcolon, hcomma] at htext
      simp only [List.cons_append, List.nil_append, List.append_assoc, List.cons.injEq, true_and] at htext
      subst text
      simp only [List.length_append, List.length_cons] at hfuel
      have hvalue := value_chars hfmt v hdistinct.1 fuel (',' :: (spaces' ++ '"' :: (tail ++ '}' :: rest)))
        (by omega) ends_comma
      have hmore := members_chars hfmt next w more hdistinct.2 fuel tail rest htail (by omega)
      simp only [List.append_assoc, List.cons_append]
      rw [value.members, unquote_text]
      simp only [bind, Option.bind, skipSpaces_cons (show isSpace ':' = false from rfl),
        skipSpaces_append hspaces, skipSpaces_append hspaces', skipSpaces_chars, hvalue,
        skipSpaces_cons (show isSpace ',' = false from rfl), skipSpaces_cons (show isSpace '"' = false from rfl),
        hmore, Option.map_some, fromText_units]
termination_by fuel

end

/-- A document is the one that is read from its text. -/
theorem loads_chars (hfmt : fmt.Proper) {v : Json} (hv : v.Distinct) : loads (v.chars fmt) = some v := by
  have hvalue := value_chars hfmt v hv ((v.chars fmt).length + 1) [] (Nat.lt_succ_self _) (fun _ h => by cases h)
  have hskip := skipSpaces_chars fmt v []
  rw [List.append_nil] at hvalue hskip
  simp only [loads, hskip, hvalue, bind, Option.bind]
  rfl

theorem default_proper : Format.default.Proper where
  comma := ⟨[' '], rfl, List.forall_mem_singleton.mpr rfl⟩
  colon := ⟨[' '], rfl, List.forall_mem_singleton.mpr rfl⟩

theorem compact_proper : Format.compact.Proper where
  comma := ⟨[], rfl, List.forall_mem_nil _⟩
  colon := ⟨[], rfl, List.forall_mem_nil _⟩

theorem unsigned_distinct {sign : Int} {text : List Char} {found : Json × List Char}
    (h : unsigned sign text = some found) : found.1.Distinct := by
  have hnumber (p : Prop) [Decidable p] (n : Int) : (if p then num n else null).Distinct := by
    split <;> trivial
  unfold unsigned at h
  split at h
  · cases h
  · cases h
    exact hnumber _ _

theorem number_distinct {text : List Char} {found : Json × List Char} (h : number text = some found) :
    found.1.Distinct := by
  unfold number at h
  split at h
  · exact unsigned_distinct h
  · exact unsigned_distinct h

/-- What is read from a text names every key of an object once. -/
theorem value_distinct (fuel : Nat) : (∀ text found, value fuel text = some found → found.1.Distinct) ∧
    (∀ text found, value.elements fuel text = some found → Distinct.itemsDistinct found.1) ∧
    (∀ text found, value.members fuel text = some found → ∀ field ∈ found.1, field.2.Distinct) := by
  induction fuel with
  | zero => exact ⟨fun _ _ h => (by cases h), fun _ _ h => (by cases h), fun _ _ h => (by cases h)⟩
  | succ fuel ih =>
    obtain ⟨hvalue, helements, hmembers⟩ := ih
    have hfields {rest found} (h : value.members fuel rest = some found) : (Json.obj (dict found.1)).Distinct :=
      ⟨nodup_dict _, membersDistinct_iff.mpr fun field hfield => hmembers rest found h field (mem_dict hfield)⟩
    refine ⟨fun text found h => ?_, fun text found h => ?_, fun text found h => ?_⟩
    · unfold value at h
      split at h
      · obtain ⟨units, -, rfl⟩ := Option.map_eq_some_iff.mp h
        trivial
      · split at h
        · cases h
          exact ⟨List.nodup_nil, trivial⟩
        · obtain ⟨pairs, hpairs, rfl⟩ := Option.map_eq_some_iff.mp h
          exact hfields hpairs
        · cases h
      · split at h
        · cases h
          trivial
        · obtain ⟨items, hitems, rfl⟩ := Option.map_eq_some_iff.mp h
          exact helements _ _ hitems
      · cases h
        trivial
      · cases h
        trivial
      · cases h
        trivial
      · cases h
        trivial
      · cases h
        trivial
      · cases h
        trivial
      · exact number_distinct h
    · simp only [value.elements, bind, Option.bind_eq_some_iff] at h
      obtain ⟨⟨item, rest⟩, hitem, h⟩ := h
      split at h
      · cases h
        exact ⟨hvalue _ _ hitem, trivial⟩
      · obtain ⟨items, hitems, rfl⟩ := Option.map_eq_some_iff.mp h
        exact ⟨hvalue _ _ hitem, helements _ _ hitems⟩
      · cases h
    · simp only [value.members, bind, Option.bind_eq_some_iff] at h
      obtain ⟨⟨key, rest⟩, -, h⟩ := h
      split at h
      · obtain ⟨⟨item, rest⟩, hitem, h⟩ := Option.bind_eq_some_iff.mp h
        split at h
        · cases h
          simpa using hvalue _ _ hitem
        · split at h
          · obtain ⟨pairs, hpairs, rfl⟩ := Option.map_eq_some_iff.mp h
            exact List.forall_mem_cons.mpr ⟨hvalue _ _ hitem, hmembers _ _ hpairs⟩
          · cases h
        · cases h
      · cases h

theorem loads_distinct {text : List Char} {v : Json} (h : loads text = some v) : v.Distinct := by
  simp only [loads, bind, Option.bind_eq_some_iff] at h
  obtain ⟨⟨document, rest⟩, hvalue, h⟩ := h
  split at h
  · cases h
    exact (value_distinct _).1 _ _ hvalue
  · cases h

theorem loads_dumps {v : Json} (hv : v.Distinct) : loads v.dumps.toList = some v := by
  rw [dumps, String.toList_ofList]
  exact loads_chars default_proper hv

end Value

section Ascii

/-- Characters that are one byte each, and no control characters. -/
def Plain (text : List Char) : Prop := ∀ c ∈ text, 31 < c.toNat ∧ c.toNat < 127

instance (text : List Char) : Decidable (Plain text) := List.decidableBAll _ text

theorem plain_append {text more : List Char} : Plain (text ++ more) ↔ Plain text ∧ Plain more :=
  List.forall_mem_append

theorem plain_cons {c : Char} {text : List Char} : Plain (c :: text) ↔ (31 < c.toNat ∧ c.toNat < 127) ∧ Plain text :=
  List.forall_mem_cons

theorem plain_intercalate {comma : List Char} (hcomma : Plain comma) {texts : List (List Char)}
    (h : ∀ text ∈ texts, Plain text) : Plain (comma.intercalate texts) := by
  induction texts with
  | nil => exact List.forall_mem_nil _
  | cons text texts ih =>
    obtain ⟨htext, htexts⟩ := List.forall_mem_cons.mp h
    cases texts with
    | nil => rwa [List.intercalate_singleton]
    | cons next texts =>
      rw [List.intercalate_cons_cons, plain_append, plain_append]
      exact ⟨⟨htext, hcomma⟩, ih htexts⟩

theorem plain_unicodeEscape (n : Nat) : Plain (unicodeEscape n) := by
  have hdigit : ∀ m < 16, 31 < m.digitChar.toNat ∧ m.digitChar.toNat < 127 := by decide
  have hmod (m : Nat) : m % 16 < 16 := Nat.mod_lt m (by decide)
  simp only [unicodeEscape, List.map_cons, List.map_nil, plain_cons]
  exact ⟨by decide, by decide, hdigit _ (hmod _), hdigit _ (hmod _), hdigit _ (hmod _), hdigit _ (hmod _),
    List.forall_mem_nil _⟩

theorem plain_escape (c : Char) : Plain (escape true c) := by
  unfold escape
  cases hletter : shortEscapes.lookup c with
  | some letter =>
    obtain ⟨before, after, hmem, -⟩ := List.lookup_eq_some_iff.mp hletter
    have hshort : ∀ e ∈ shortEscapes, 31 < e.2.toNat ∧ e.2.toNat < 127 := by decide
    exact plain_cons.mpr ⟨by decide, plain_cons.mpr ⟨hshort (c, letter) (by simp [hmem]), List.forall_mem_nil _⟩⟩
  | none =>
    dsimp only
    split
    · split
      · exact plain_unicodeEscape _
      · exact plain_append.mpr ⟨plain_unicodeEscape _, plain_unicodeEscape _⟩
    · rename_i hplain
      simp only [Bool.true_and, Bool.or_eq_true, decide_eq_true_eq, not_or, not_lt] at hplain
      exact plain_cons.mpr ⟨by omega, List.forall_mem_nil _⟩

theorem plain_quoted (text : String) : Plain (quoted true text) := by
  rw [quoted, plain_cons, plain_append, plain_cons]
  refine ⟨by decide, ?_, by decide, List.forall_mem_nil _⟩
  intro c hc
  obtain ⟨d, -, hd⟩ := List.mem_flatMap.mp hc
  exact plain_escape d c hd

theorem plain_digits (n : Int) : Plain (digits n) := by
  have hdigits (m : Nat) : Plain (Nat.toDigits 10 m) := by
    intro c hc
    have hdigit := Nat.isDigit_of_mem_toDigits (by decide) (by decide) hc
    have hbounds : 48 ≤ c.toNat ∧ c.toNat ≤ 57 := Char.isDigit_iff_toNat.mp hdigit
    omega
  unfold digits
  split
  · exact plain_cons.mpr ⟨by decide, hdigits _⟩
  · exact hdigits _

mutual

/-- A document is written in ASCII. -/
theorem plain_chars : (v : Json) → Plain (v.chars .default)
  | .null => by decide
  | .bool true => by decide
  | .bool false => by decide
  | .num n => plain_digits n
  | .str text => plain_quoted text
  | .arr items => by
    rw [chars, plain_cons, plain_append, plain_cons]
    exact ⟨by decide, plain_intercalate (by decide) (plain_items items), by decide, List.forall_mem_nil _⟩
  | .obj fields => by
    rw [chars, plain_cons, plain_append, plain_cons]
    exact ⟨by decide, plain_intercalate (by decide) (plain_members fields), by decide, List.forall_mem_nil _⟩

theorem plain_items : (items : List Json) → ∀ text ∈ chars.itemTexts .default items, Plain text
  | [] => List.forall_mem_nil _
  | item :: items => List.forall_mem_cons.mpr ⟨plain_chars item, plain_items items⟩

theorem plain_members : (fields : List (String × Json)) → ∀ text ∈ chars.memberTexts .default fields, Plain text
  | [] => List.forall_mem_nil _
  | (key, v) :: fields => by
    refine List.forall_mem_cons.mpr ⟨?_, plain_members fields⟩
    rw [plain_append, plain_append]
    exact ⟨⟨plain_quoted key, by decide⟩, plain_chars v⟩

end

end Ascii

end incidentdesk.Json
