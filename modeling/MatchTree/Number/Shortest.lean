import MatchTree.Number.Binary64

/-!
# The fewest digits that read back

* `Decimal` — `digits · 10 ^ exponent`.
* `Binary64.shortest` — of the decimals that round to a given positive double, one with the fewest
  digits, and of those the nearest to it. Where two are equally near, a `Tie` decides.
* `Binary64.plain` — the digits written out, never with an exponent; a tie goes up.
* `Binary64.scientific` — the digits with an exponent outside `10⁻⁵ … 10¹⁶` and a fraction always
  shown inside; a tie goes to the even digit.

The interval of reals that round to a double has the midpoints to its neighbours as ends, and
holds them exactly if the mantissa is even. If a grid of decimals has a point in the interval,
then so does one of the two grid points next to the double itself; so only these two are tried.
-/

namespace MatchTree

/-- A positive decimal `digits · 10 ^ exponent`. -/
structure Decimal where
  digits : Nat
  exponent : Int
  deriving DecidableEq

namespace Decimal

/-- Drops the zeros at the end of the digits; at most `fuel` of them. -/
def trimZeros : Nat → Decimal → Decimal
  | 0, d => d
  | fuel + 1, d =>
    if d.digits ≠ 0 ∧ d.digits % 10 = 0 then trimZeros fuel ⟨d.digits / 10, d.exponent + 1⟩ else d

end Decimal

/-- Which of two equally near decimals is taken. -/
inductive Tie where
  /-- The one with the even last digit. -/
  | even
  /-- The greater one. -/
  | up
  deriving DecidableEq

/-- Whether the smaller of two equally near decimals is taken. -/
def Tie.takesBelow (tie : Tie) (below : Nat) : Bool :=
  match tie with
  | even => below % 2 == 0
  | up => false

namespace Binary64

/-- A power of ten as a quotient of naturals. -/
private def tenRatio (k : Int) : Nat × Nat :=
  if 0 ≤ k then (Nat.pow 10 k.toNat, 1) else (1, Nat.pow 10 (-k).toNat)

/-- How many decimal digits a natural has. -/
private def digitCount (n : Nat) : Nat := (Nat.toDigits 10 n).length

/-- The `k` with `10 ^ (k - 1) ≤ num / den < 10 ^ k`, for a positive quotient. -/
private def decimalMagnitude (num den : Nat) : Int :=
  if den ≤ num then digitCount (num / den)
  else
    let inverse := (den + num - 1) / num
    1 - (if inverse ≤ 1 then 0 else digitCount (inverse - 1) : Nat)

/-- The nearest decimal with `count` digits that rounds to `mantissa · 2 ^ exponent`, if one of
the two next to it does. -/
private def candidate (tie : Tie) (mantissa : Nat) (exponent : Int) (magnitude : Int)
    (count : Nat) : Option Decimal :=
  let quarter := ratio 1 (exponent - 2)
  let low := 4 * mantissa - (if mantissa = 1 <<< 52 ∧ leastExponent < exponent then 1 else 2)
  let high := 4 * mantissa + 2
  let grid := magnitude - count
  let ten := tenRatio grid
  -- Both sides below are multiplied by the same denominators.
  let point := fun (d : Nat) => d * ten.1 * quarter.2
  let mark := fun (x : Nat) => x * quarter.1 * ten.2
  let inside := fun (d : Nat) =>
    if mantissa % 2 = 0 then mark low ≤ point d ∧ point d ≤ mark high
    else mark low < point d ∧ point d < mark high
  let below := mark (4 * mantissa) / (ten.1 * quarter.2)
  let above := below + 1
  let lowGap := mark (4 * mantissa) - point below
  let highGap := point above - mark (4 * mantissa)
  let okBelow := decide (inside below)
  let okAbove := decide (inside above)
  if okBelow && okAbove then
    let takeBelow := lowGap < highGap || (lowGap == highGap && tie.takesBelow below)
    some ⟨if takeBelow then below else above, grid⟩
  else if okBelow then some ⟨below, grid⟩
  else if okAbove then some ⟨above, grid⟩
  else none

/-- The decimal with the fewest digits that rounds to a positive `mantissa · 2 ^ exponent`;
seventeen digits always suffice. -/
def shortest (tie : Tie) (mantissa : Nat) (exponent : Int) : Decimal :=
  let r := ratio mantissa exponent
  let magnitude := decimalMagnitude r.1 r.2
  let found := (List.range 17).findSome? fun i =>
    candidate tie mantissa exponent magnitude (i + 1)
  (found.getD ⟨mantissa, exponent⟩).trimZeros 17

private def zeros (n : Nat) : String := String.ofList (List.replicate n '0')

/-- Puts the point `places` digits from the end, with zeros in front where there are fewer. -/
private def withPoint (digits : List Char) (places : Nat) : String :=
  if places < digits.length then
    String.ofList (digits.take (digits.length - places)) ++ "." ++
      String.ofList (digits.drop (digits.length - places))
  else "0." ++ zeros (places - digits.length) ++ String.ofList digits

private def signed (negative : Bool) (s : String) : String := if negative then "-" ++ s else s

/-- The shortest digits written out in full: no exponent, and no point in a whole number. -/
def plain : Binary64 → String
  | .nan => "NaN"
  | .infinite s => signed s "inf"
  | .finite s m e =>
    signed s <|
      if m = 0 then "0"
      else
        let d := shortest .up m e
        let digits := Nat.toDigits 10 d.digits
        if 0 ≤ d.exponent then String.ofList digits ++ zeros d.exponent.toNat
        else withPoint digits (-d.exponent).toNat

/-- The shortest digits of a finite number, positional from `10⁻⁵` up to `10¹⁶` and with an
exponent outside; a whole number shows `.0`. -/
def scientific : Binary64 → String
  | .nan | .infinite _ => "null"
  | .finite s m e =>
    signed s <|
      if m = 0 then "0.0"
      else
        let d := shortest .even m e
        let digits := Nat.toDigits 10 d.digits
        let point : Int := (digits.length : Int) + d.exponent
        if 0 ≤ d.exponent ∧ point ≤ 16 then
          String.ofList digits ++ zeros d.exponent.toNat ++ ".0"
        else if -5 < point ∧ point ≤ 16 then withPoint digits (-d.exponent).toNat
        else
          let lead := String.ofList (digits.take 1)
          let tail := digits.drop 1
          let fraction := if tail.isEmpty then "" else "." ++ String.ofList tail
          lead ++ fraction ++ "e" ++ toString (point - 1)

end Binary64

end MatchTree
