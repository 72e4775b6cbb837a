import MatchTree.Datum

/-!
# Numbers and dates of TOML

* `Toml.number?` — integers in four bases, within 64 signed bits, and floats; underscores stand
  between digits only.
* `Toml.dateTime?` — dates, times and both, checked against the calendar.
* `Toml.scalar?` — either of them, or a boolean.

A reader takes characters and returns what it read with what is left.
-/

namespace MatchTree.Toml

/-- The value of a digit in a base up to sixteen. -/
def digitIn? (base : Nat) (c : Char) : Option Nat :=
  let n :=
    if c.isDigit then c.toNat - '0'.toNat
    else if 'a' ≤ c ∧ c ≤ 'f' then c.toNat - 'a'.toNat + 10
    else if 'A' ≤ c ∧ c ≤ 'F' then c.toNat - 'A'.toNat + 10
    else base
  if n < base then some n else none

/-- The digits after the first of a run; an underscore needs a digit after it. -/
def digitsAfter? (base : Nat) : List Char → Option (List Nat × List Char)
  | '_' :: c :: cs => do
    let d ← digitIn? base c
    let (ds, rest) ← digitsAfter? base cs
    return (d :: ds, rest)
  | ['_'] => none
  | c :: cs =>
    match digitIn? base c with
    | some d => (digitsAfter? base cs).map fun (ds, rest) => (d :: ds, rest)
    | none => some ([], c :: cs)
  | [] => some ([], [])

/-- A run of digits with single underscores between them. -/
def digitRun? (base : Nat) : List Char → Option (List Nat × List Char)
  | [] => none
  | c :: cs => do
    let d ← digitIn? base c
    let (ds, rest) ← digitsAfter? base cs
    return (d :: ds, rest)

/-- The number that digits denote. -/
def valueOf (base : Nat) (ds : List Nat) : Nat := ds.foldl (fun n d => n * base + d) 0

/-- An integer within 64 signed bits. -/
def integer? (negative : Bool) (n : Nat) : Option Datum :=
  if negative then
    if n ≤ 1 <<< 63 then some (.int (-(n : Int))) else none
  else if n < 1 <<< 63 then some (.int n)
  else none

/-- The digits before a point: none but the first is zero in front. -/
def wholeDigits? (cs : List Char) : Option (List Nat × List Char) :=
  match cs with
  | '0' :: rest => some ([0], rest)
  | cs => digitRun? 10 cs

/-- The double nearest to `digits · 10 ^ exponent`; exponents far out of range are cut short. -/
def decimal (negative : Bool) (digits : Nat) (exponent : Int) : Binary64 :=
  if digits = 0 then Binary64.ofRatio negative 0 1
  else
    let magnitude : Int := (Nat.toDigits 10 digits).length + exponent
    if 400 < magnitude then .infinite negative
    else if magnitude < -400 then Binary64.ofRatio negative 0 1
    else if 0 ≤ exponent then Binary64.ofRatio negative (digits * Nat.pow 10 exponent.toNat) 1
    else Binary64.ofRatio negative digits (Nat.pow 10 (-exponent).toNat)

/-- Takes a sign, if there is one; true for minus. -/
def sign : List Char → Option Bool × List Char
  | '+' :: cs => (some false, cs)
  | '-' :: cs => (some true, cs)
  | cs => (none, cs)

/-- The exponent of a float after its letter. -/
def exponent? (cs : List Char) : Option (Int × List Char) := do
  let (minus, cs) := sign cs
  let (ds, rest) ← digitRun? 10 cs
  let n : Int := valueOf 10 ds
  return (if minus = some true then -n else n, rest)

/-- An exponent, or none where there is no letter for it. -/
def optionalExponent? : List Char → Option (Int × List Char)
  | 'e' :: cs | 'E' :: cs => exponent? cs
  | cs => some (0, cs)

/-- A float of the given parts; one above the range is refused. -/
def float? (negative : Bool) (whole fraction : List Nat) (exponent : Int) : Option Datum :=
  let x := decimal negative (valueOf 10 (whole ++ fraction)) (exponent - fraction.length)
  if x = .infinite false then none else some (.real x)

/-- A decimal number after its sign: a float if a point or an exponent follows the digits. -/
def decimalNumber? (negative : Bool) (cs : List Char) : Option (Datum × List Char) := do
  let (whole, rest) ← wholeDigits? cs
  match rest with
  | '.' :: rest =>
    let (fraction, rest) ← digitRun? 10 rest
    let (exponent, rest) ← optionalExponent? rest
    return (← float? negative whole fraction exponent, rest)
  | 'e' :: rest | 'E' :: rest =>
    let (exponent, rest) ← exponent? rest
    return (← float? negative whole [] exponent, rest)
  | rest => return (← integer? negative (valueOf 10 whole), rest)

/-- An integer in another base, after its mark. -/
def basedInteger? (base : Nat) (cs : List Char) : Option (Datum × List Char) := do
  let (ds, rest) ← digitRun? base cs
  return (← integer? false (valueOf base ds), rest)

/-- A number. A base is marked without a sign. -/
def number? (cs : List Char) : Option (Datum × List Char) :=
  match cs with
  | '0' :: 'x' :: rest => basedInteger? 16 rest
  | '0' :: 'o' :: rest => basedInteger? 8 rest
  | '0' :: 'b' :: rest => basedInteger? 2 rest
  | cs =>
    let (minus, rest) := sign cs
    let negative := minus = some true
    match rest with
    | 'i' :: 'n' :: 'f' :: rest => some (.real (.infinite negative), rest)
    | 'n' :: 'a' :: 'n' :: rest => some (.real .nan, rest)
    | rest => decimalNumber? negative rest

/-- Exactly `count` decimal digits with a value between two bounds. -/
def fixedDigits? (count low high : Nat) (cs : List Char) : Option (Nat × List Char) :=
  let ds := cs.take count
  if ds.length = count ∧ ds.all Char.isDigit then
    let n := Nat.ofDigitChars 10 ds 0
    if low ≤ n ∧ n ≤ high then some (n, cs.drop count) else none
  else none

/-- Takes a given character. -/
def expect? (c : Char) : List Char → Option (List Char)
  | d :: cs => if c = d then some cs else none
  | [] => none

/-- How many days a month has. -/
def daysIn (year month : Nat) : Nat :=
  if month = 2 then
    if year % 4 = 0 ∧ (year % 100 ≠ 0 ∨ year % 400 = 0) then 29 else 28
  else if month = 4 ∨ month = 6 ∨ month = 9 ∨ month = 11 then 30
  else 31

/-- A date; returns what is left. -/
def date? (cs : List Char) : Option (List Char) := do
  let (year, cs) ← fixedDigits? 4 0 9999 cs
  let (month, cs) ← fixedDigits? 2 1 12 (← expect? '-' cs)
  let (_, cs) ← fixedDigits? 2 1 (daysIn year month) (← expect? '-' cs)
  return cs

/-- The fraction of a second, if there is one. -/
def secondFraction? : List Char → Option (List Char)
  | '.' :: cs =>
    if (cs.takeWhile Char.isDigit).isEmpty then none else some (cs.dropWhile Char.isDigit)
  | cs => some cs

/-- A time of day, leap seconds included. -/
def time? (cs : List Char) : Option (List Char) := do
  let (_, cs) ← fixedDigits? 2 0 23 cs
  let (_, cs) ← fixedDigits? 2 0 59 (← expect? ':' cs)
  let (_, cs) ← fixedDigits? 2 0 60 (← expect? ':' cs)
  secondFraction? cs

/-- The offset of a time from universal time, if there is one. -/
def offset? (cs : List Char) : Option (List Char) :=
  match cs with
  | 'Z' :: cs | 'z' :: cs => some cs
  | '+' :: cs | '-' :: cs => do
    let (_, cs) ← fixedDigits? 2 0 23 cs
    let (_, cs) ← fixedDigits? 2 0 59 (← expect? ':' cs)
    return cs
  | cs => some cs

/-- A date, a time or both with a letter or a blank between; returns what is left. -/
def dateTimeRest? (cs : List Char) : Option (List Char) :=
  match date? cs with
  | some rest =>
    match rest with
    | c :: after =>
      if c = 'T' ∨ c = 't' ∨ c = ' ' then
        match time? after with
        | some after => offset? after
        | none => some rest
      else some rest
    | [] => some []
  | none => time? cs

/-- The key under which the text of a date stands. -/
def dateKey : String := "$datetime"

/-- A date or a time, as an object that holds its text. -/
def dateTime? (cs : List Char) : Option (Datum × List Char) := do
  let rest ← dateTimeRest? cs
  let text := cs.take (cs.length - rest.length)
  return (.record [(dateKey, .text (String.ofList text))], rest)

/-- A boolean, a date or a number. -/
def scalar? (cs : List Char) : Option (Datum × List Char) :=
  match cs with
  | 't' :: 'r' :: 'u' :: 'e' :: rest => some (.bool true, rest)
  | 'f' :: 'a' :: 'l' :: 's' :: 'e' :: rest => some (.bool false, rest)
  | cs => dateTime? cs <|> number? cs

end MatchTree.Toml
