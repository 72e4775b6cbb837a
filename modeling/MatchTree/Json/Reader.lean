import MatchTree.Json.Number

/-!
# Reading JSON

* `Json.string?` — the rest of a string after its opening quote.
* `Json.value?` — one value and the text after it, with at most the given number of nested arrays
  and objects.
* `Json.document?` — a whole text: one value between blanks.

Every reader takes characters and returns what it read with what is left. `separated?` reads the
items of an array or an object. A reader that repeats a step takes the text a second time as its
fuel: every step takes at least one character off both.
-/

namespace MatchTree.Json

/-- The four blanks of the format. -/
def isBlank (c : Char) : Bool := c == ' ' || c == '\t' || c == '\n' || c == '\r'

def skipBlanks (cs : List Char) : List Char := cs.dropWhile isBlank

/-- The value of a hexadecimal digit of either case. -/
def hexDigit? (c : Char) : Option Nat :=
  if c.isDigit then some (c.toNat - '0'.toNat)
  else if 'a' ≤ c ∧ c ≤ 'f' then some (c.toNat - 'a'.toNat + 10)
  else if 'A' ≤ c ∧ c ≤ 'F' then some (c.toNat - 'A'.toNat + 10)
  else none

/-- The value of four hexadecimal digits. -/
def hexUnit? (a b c d : Char) : Option Nat := do
  return (← hexDigit? a) * 4096 + (← hexDigit? b) * 256 + (← hexDigit? c) * 16 + (← hexDigit? d)

/-- The character of a single 16-bit unit that is no surrogate. -/
def plainUnit? (n : Nat) : Option Char :=
  if 0xd800 ≤ n ∧ n ≤ 0xdfff then none else some (Char.ofNat n)

/-- The character of a pair of surrogates. -/
def surrogatePair? (high low : Nat) : Option Char :=
  if 0xd800 ≤ high ∧ high ≤ 0xdbff ∧ 0xdc00 ≤ low ∧ low ≤ 0xdfff then
    some (Char.ofNat (0x10000 + (high - 0xd800) * 1024 + (low - 0xdc00)))
  else none

/-- The character written by a backslash and a single letter. -/
def simpleEscape? : Char → Option Char
  | '"' => some '"'
  | '\\' => some '\\'
  | '/' => some '/'
  | 'b' => some '\x08'
  | 'f' => some '\x0c'
  | 'n' => some '\n'
  | 'r' => some '\r'
  | 't' => some '\t'
  | _ => none

/-- The first character of a string's body, decoded, and what follows it. -/
def stringChar? : List Char → Option (Char × List Char)
  | '\\' :: 'u' :: a :: b :: c :: d :: rest => do
    let n ← hexUnit? a b c d
    match plainUnit? n with
    | some ch => some (ch, rest)
    | none =>
      match rest with
      | '\\' :: 'u' :: e :: f :: g :: h :: rest => do
        let ch ← surrogatePair? n (← hexUnit? e f g h)
        some (ch, rest)
      | _ => none
  | '\\' :: c :: rest => (simpleEscape? c).map fun ch => (ch, rest)
  | '\\' :: [] => none
  | c :: rest => if c.toNat < 0x20 then none else some (c, rest)
  | [] => none

/-- The body of a string up to its closing quote; the first text is the fuel. -/
def stringBody? : List Char → List Char → Option (List Char × List Char)
  | [], _ => none
  | _ :: _, '"' :: rest => some ([], rest)
  | _ :: fuel, cs => do
    let (c, rest) ← stringChar? cs
    let (s, rest) ← stringBody? fuel rest
    return (c :: s, rest)

/-- A string after its opening quote. -/
def string? (cs : List Char) : Option (String × List Char) :=
  (stringBody? cs cs).map fun (s, rest) => (String.ofList s, rest)

/-- One or more items with commas between them, up to the closing character; the first text is the
fuel. -/
def separated? (item : List Char → Option (α × List Char)) (close : Char) :
    List Char → List Char → Option (List α × List Char)
  | [], _ => none
  | _ :: fuel, cs => do
    let (a, rest) ← item (skipBlanks cs)
    match skipBlanks rest with
    | c :: rest =>
      if c = ',' then
        let (as, rest) ← separated? item close fuel rest
        return (a :: as, rest)
      else if c = close then return ([a], rest)
      else none
    | [] => none

/-- The items after an opening bracket: none at all, or some with commas between them. -/
def group? (item : List Char → Option (α × List Char)) (close : Char) (cs : List Char) :
    Option (List α × List Char) :=
  match skipBlanks cs with
  | c :: rest => if c = close then some ([], rest) else separated? item close cs cs
  | [] => none

/-- A key, a colon and a value. -/
def member? (value : List Char → Option (Datum × List Char)) :
    List Char → Option ((String × Datum) × List Char)
  | '"' :: cs => do
    let (key, rest) ← string? cs
    match skipBlanks rest with
    | ':' :: rest =>
      let (d, rest) ← value (skipBlanks rest)
      return ((key, d), rest)
    | _ => none
  | _ => none

/-- The value at the start of a text, with at most `depth` nested arrays and objects. -/
def value? (depth : Nat) (cs : List Char) : Option (Datum × List Char) :=
  match cs with
  | '"' :: rest => (string? rest).map fun (s, rest) => (.text s, rest)
  | 'n' :: 'u' :: 'l' :: 'l' :: rest => some (.null, rest)
  | 't' :: 'r' :: 'u' :: 'e' :: rest => some (.bool true, rest)
  | 'f' :: 'a' :: 'l' :: 's' :: 'e' :: rest => some (.bool false, rest)
  | '[' :: rest =>
    match depth with
    | 0 => none
    | depth + 1 => (group? (value? depth) ']' rest).map fun (ds, rest) => (.list ds, rest)
  | '{' :: rest =>
    match depth with
    | 0 => none
    | depth + 1 =>
      (group? (member? (value? depth)) '}' rest).map fun (es, rest) => (.record es, rest)
  | cs => number? cs
termination_by structural depth

/-- The value that a whole text denotes. -/
def document? (depth : Nat) (s : String) : Option Datum := do
  let (d, rest) ← value? depth (skipBlanks s.toList)
  if (skipBlanks rest).isEmpty then some d else none

end MatchTree.Json
