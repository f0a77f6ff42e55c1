namespace incidentdesk

/-- `str.isspace` of one character, which is also what `\s` matches. -/
def isspace (c : Char) : Bool :=
  ('\t' ≤ c && c ≤ '\r') || ('\x1c' ≤ c && c ≤ ' ') || ('\u2000' ≤ c && c ≤ '\u200a') ||
    c ∈ ['\u0085', '\u00a0', '\u1680', '\u2028', '\u2029', '\u202f', '\u205f', '\u3000']

/-- `str.strip`. -/
def strip (text : String) : String :=
  String.ofList ((text.toList.dropWhile isspace).reverse.dropWhile isspace).reverse

/-- The functions of the Python services that rest on the tables of Unicode. -/
structure Python where
  lower : String → String
  casefold : String → String
  decimal : Char → Option Nat
  alnum : Char → Bool

namespace Python

/-- `\d`. -/
def isDecimal (py : Python) (c : Char) : Bool := (py.decimal c).isSome

/-- `\w`. -/
def isWord (py : Python) (c : Char) : Bool := py.alnum c || c = '_'

/-- The number that digits stand for. -/
def digits (py : Python) (cs : List Char) : Option Nat :=
  cs.foldlM (fun n c => (py.decimal c).map (n * 10 + ·)) 0

/-- `int(text)`, and nothing where it raises a `ValueError`. Single underscores
may stand between digits. -/
def int (py : Python) (text : String) : Option Int :=
  let signed : Int × List Char :=
    match (strip text).toList with
    | '-' :: cs => (-1, cs)
    | '+' :: cs => (1, cs)
    | cs => (1, cs)
  let groups := signed.2.splitOn '_'
  if groups.any (·.isEmpty) || groups.flatten.length > 4300 then none
  else (py.digits groups.flatten).map (signed.1 * ·)

/-- Python on ASCII text. -/
def ascii : Python where
  lower text := String.ofList (text.toList.map Char.toLower)
  casefold text := String.ofList (text.toList.map Char.toLower)
  decimal c := if c.isDigit then some (c.toNat - '0'.toNat) else none
  alnum := Char.isAlphanum

end Python

end incidentdesk
