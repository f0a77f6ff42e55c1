namespace base64

/-- The letters that stand for six bits each, safe in a URL. -/
def letter (n : Nat) : Char :=
  if n < 26 then Char.ofNat (65 + n)
  else if n < 52 then Char.ofNat (97 + (n - 26))
  else if n < 62 then Char.ofNat (48 + (n - 52))
  else if n = 62 then '-'
  else '_'

/-- The six bits of a letter, in either of the two alphabets. -/
def sextet (c : Char) : Option Nat :=
  if 'A' ≤ c ∧ c ≤ 'Z' then some (c.toNat - 65)
  else if 'a' ≤ c ∧ c ≤ 'z' then some (c.toNat - 97 + 26)
  else if '0' ≤ c ∧ c ≤ '9' then some (c.toNat - 48 + 52)
  else if c = '-' ∨ c = '+' then some 62
  else if c = '_' ∨ c = '/' then some 63
  else none

/-- `base64.urlsafe_b64encode`. -/
def encode : List Nat → List Char
  | a :: b :: c :: rest =>
    letter (a / 4) :: letter (a % 4 * 16 + b / 16) :: letter (b % 16 * 4 + c / 64) :: letter (c % 64) :: encode rest
  | [a, b] => [letter (a / 4), letter (a % 4 * 16 + b / 16), letter (b % 16 * 4), '=']
  | [a] => [letter (a / 4), letter (a % 4 * 16), '=', '=']
  | [] => []

/-- Where a decoder stands: the letters of the current group that it has read, the
bits of the last one that are still to be used, and the padding since then. -/
structure State where
  position : Nat
  left : Nat
  pads : Nat

def State.initial : State := { position := 0, left := 0, pads := 0 }

/-- The next letter: the byte that it completes, if there is one. -/
def State.next (s : State) (n : Nat) : Option Nat × State :=
  match s.position with
  | 0 => (none, { position := 1, left := n, pads := 0 })
  | 1 => (some (s.left * 4 + n / 16), { position := 2, left := n % 16, pads := 0 })
  | 2 => (some (s.left * 16 + n / 4), { position := 3, left := n % 4, pads := 0 })
  | _ => (some (s.left * 64 + n), { position := 0, left := 0, pads := 0 })

/-- What is left of a text. Characters of no alphabet are passed over. -/
def decodeFrom (s : State) : List Char → Option (List Nat)
  | [] => if s.position = 0 then some [] else none
  | c :: rest =>
    if c = '=' then
      if 2 ≤ s.position ∧ 4 ≤ s.position + s.pads + 1 then some []
      else decodeFrom { s with pads := if 2 ≤ s.position then s.pads + 1 else s.pads } rest
    else
      match sextet c with
      | none => decodeFrom s rest
      | some n =>
        let (byte, s) := s.next n
        (decodeFrom s rest).map fun bytes => byte.toList ++ bytes

/-- `base64.urlsafe_b64decode`, and nothing where it raises an error. -/
def decode (text : List Char) : Option (List Nat) := decodeFrom .initial text

section Rules

variable {n a b c : Nat} {bytes : List Nat} {s : State}

theorem sextet_letter (h : n < 64) : sextet (letter n) = some n ∧ letter n ≠ '=' := by
  revert n
  decide

theorem decodeFrom_letter (h : n < 64) (rest : List Char) :
    decodeFrom s (letter n :: rest) =
      (decodeFrom (s.next n).2 rest).map fun bytes => (s.next n).1.toList ++ bytes := by
  obtain ⟨hsextet, hpad⟩ := sextet_letter h
  rw [decodeFrom, if_neg hpad, hsextet]

theorem decodeFrom_triple (ha : a < 256) (hb : b < 256) (hc : c < 256) (rest : List Char) :
    decodeFrom .initial (letter (a / 4) :: letter (a % 4 * 16 + b / 16) :: letter (b % 16 * 4 + c / 64) ::
      letter (c % 64) :: rest) = (decodeFrom .initial rest).map fun bytes => a :: b :: c :: bytes := by
  rw [decodeFrom_letter (by omega), decodeFrom_letter (by omega), decodeFrom_letter (by omega),
    decodeFrom_letter (by omega)]
  simp only [State.initial, State.next, Option.map_map, Function.comp_def, Option.toList_none, Option.toList_some,
    List.nil_append, List.singleton_append]
  have hfirst : a / 4 * 4 + (a % 4 * 16 + b / 16) / 16 = a := by omega
  have hsecond : (a % 4 * 16 + b / 16) % 16 * 16 + (b % 16 * 4 + c / 64) / 4 = b := by omega
  have hthird : (b % 16 * 4 + c / 64) % 4 * 64 + c % 64 = c := by omega
  rw [hfirst, hsecond, hthird]

theorem decodeFrom_pair (ha : a < 256) (hb : b < 256) :
    decodeFrom .initial [letter (a / 4), letter (a % 4 * 16 + b / 16), letter (b % 16 * 4), '='] = some [a, b] := by
  rw [decodeFrom_letter (by omega), decodeFrom_letter (by omega), decodeFrom_letter (by omega)]
  simp only [State.initial, State.next, decodeFrom]
  have hfirst : a / 4 * 4 + (a % 4 * 16 + b / 16) / 16 = a := by omega
  have hsecond : (a % 4 * 16 + b / 16) % 16 * 16 + b % 16 * 4 / 4 = b := by omega
  rw [hfirst, hsecond]
  rfl

theorem decodeFrom_single (ha : a < 256) :
    decodeFrom .initial [letter (a / 4), letter (a % 4 * 16), '=', '='] = some [a] := by
  rw [decodeFrom_letter (by omega), decodeFrom_letter (by omega)]
  simp only [State.initial, State.next, decodeFrom]
  have hfirst : a / 4 * 4 + a % 4 * 16 / 16 = a := by omega
  rw [hfirst]
  rfl

/-- Bytes are read back as they were written. -/
theorem decode_encode (h : ∀ b ∈ bytes, b < 256) : decode (encode bytes) = some bytes := by
  fun_induction encode bytes with
  | case1 a b c rest ih =>
    obtain ⟨ha, hb, hc, hrest⟩ : a < 256 ∧ b < 256 ∧ c < 256 ∧ ∀ b ∈ rest, b < 256 := by
      simpa only [List.forall_mem_cons] using h
    rw [decode, decodeFrom_triple ha hb hc, ← decode, ih hrest]
    rfl
  | case2 a b => exact decodeFrom_pair (h a (by simp)) (h b (by simp))
  | case3 a => exact decodeFrom_single (h a (by simp))
  | case4 => rfl

/-- Three bytes take four letters. -/
theorem length_encode (bytes : List Nat) : (encode bytes).length = 4 * ((bytes.length + 2) / 3) := by
  fun_induction encode bytes with
  | case1 a b c rest ih =>
    simp only [List.length_cons, ih]
    omega
  | case2 a b => simp
  | case3 a => simp
  | case4 => rfl

end Rules

end base64
