import MatchTree.Datum

/-!
# Numbers of a JSON text

* `Json.number?` — reads a number: a whole number that fits 64 bits is exact, any other number a
  double.
* `Json.Scan` — the leading digits that fit 64 bits, with the power of ten that they are short of.
* `Json.Scan.scale?` — the double for a significand and a power of ten: the significand is rounded
  to a double and then multiplied or divided by a rounded power of ten, at most `10 ^ 308` at a
  time.

So a long numeral may differ from the nearest double in its last bit; what counts is this rule.
-/

namespace MatchTree.Json

/-- Splits off the leading digits. -/
def spanDigits (cs : List Char) : List Char × List Char :=
  (cs.takeWhile Char.isDigit, cs.dropWhile Char.isDigit)

/-- A significand below `2 ^ 64` and a power of ten. -/
structure Scan where
  significand : Nat
  exponent : Int

/-- Appends a digit, if the significand stays below `2 ^ 64`. -/
def Scan.push? (s : Scan) (c : Char) : Option Nat :=
  let n := s.significand * 10 + (c.toNat - '0'.toNat)
  if n < UInt64.size then some n else none

/-- Reads the digits before the point; from the first that no longer fits, each only raises the
power of ten. -/
def Scan.whole (s : Scan) : List Char → Scan
  | [] => s
  | c :: cs =>
    match s.push? c with
    | some n => Scan.whole ⟨n, s.exponent⟩ cs
    | none => ⟨s.significand, s.exponent + (cs.length + 1 : Nat)⟩

/-- Reads the digits after the point; from the first that no longer fits, they are ignored. -/
def Scan.fraction (s : Scan) : List Char → Scan
  | [] => s
  | c :: cs =>
    match s.push? c with
    | some n => Scan.fraction ⟨n, s.exponent - 1⟩ cs
    | none => s

/-- The double for `f · 10 ^ exponent`, in steps of at most `10 ^ 308`; `none` past the range.
Three steps bring any significand to zero, so four are enough. -/
def scaleBy : Nat → Binary64 → Int → Option Binary64
  | 0, f, _ => some f
  | steps + 1, f, exponent =>
    if exponent.natAbs ≤ 308 then
      if 0 ≤ exponent then
        let product := f.mul (Binary64.powTen exponent.toNat)
        if product.isFinite then some product else none
      else some (f.div (Binary64.powTen exponent.natAbs))
    else if f.isZero then some f
    else if 0 ≤ exponent then none
    else scaleBy steps (f.div (Binary64.powTen 308)) (exponent + 308)

/-- The double for a significand and a power of ten. -/
def Scan.scale? (s : Scan) : Option Binary64 := scaleBy 4 (Binary64.ofNat s.significand) s.exponent

/-- A numeral without point or exponent: exact where 64 bits hold it (with a sign, if it is
negative), else a double. Minus zero is a double. -/
def wholeNumber? (negative : Bool) (digits : List Char) : Option Datum :=
  let n := Nat.ofDigitChars 10 digits 0
  if negative then
    if n = 0 ∨ 1 <<< 63 < n then
      (Scan.whole ⟨0, 0⟩ digits).scale?.map fun x => .real x.neg
    else some (.int (-(n : Int)))
  else if n < UInt64.size then some (.int n)
  else (Scan.whole ⟨0, 0⟩ digits).scale?.map .real

/-- The digits of an exponent with its sign, after the letter. -/
def exponent? (cs : List Char) : Option (Int × List Char) :=
  let (negative, cs) := match cs with
    | '-' :: r => (true, r)
    | '+' :: r => (false, r)
    | r => (false, r)
  let (digits, rest) := spanDigits cs
  if digits.isEmpty then none
  else
    let n : Int := Nat.ofDigitChars 10 digits 0
    some (if negative then -n else n, rest)

/-- A number with a point or an exponent, after the digits before them. -/
def realNumber? (negative : Bool) (whole : Scan) (fraction : List Char) (cs : List Char) :
    Option (Datum × List Char) := do
  let scanned := whole.fraction fraction
  let (power, rest) ← match cs with
    | 'e' :: r | 'E' :: r => exponent? r
    | r => some (0, r)
  let x ← Scan.scale? ⟨scanned.significand, scanned.exponent + power⟩
  return (.real (if negative then x.neg else x), rest)

/-- A number after its sign: no superfluous leading zero, a digit after a point, a digit in an
exponent, and a value within the range of doubles. -/
def unsigned? (negative : Bool) (cs : List Char) : Option (Datum × List Char) :=
  let (digits, rest) := spanDigits cs
  match digits with
  | [] => none
  | '0' :: _ :: _ => none
  | _ =>
    match rest with
    | '.' :: r =>
      let (fraction, r) := spanDigits r
      if fraction.isEmpty then none
      else realNumber? negative (Scan.whole ⟨0, 0⟩ digits) fraction r
    | 'e' :: _ | 'E' :: _ => realNumber? negative (Scan.whole ⟨0, 0⟩ digits) [] rest
    | _ => (wholeNumber? negative digits).map fun d => (d, rest)

/-- Reads a number. -/
def number? : List Char → Option (Datum × List Char)
  | '-' :: cs => unsigned? true cs
  | cs => unsigned? false cs

end MatchTree.Json
