/-!
# Double-precision numbers as exact dyadics

* `Binary64` — a signed dyadic `± mantissa · 2 ^ exponent`, an infinity, or not a number.
* `Binary64.ofRatio` — the double nearest to a quotient of naturals, ties to even.
* `mul`, `div`, `lt`, `floor?`, `exceeds` — arithmetic and order, each exact and then rounded once.
* `bits` — the interchange encoding.

Every finite value built here is canonical: its mantissa has 53 bits, or its exponent is the
least one (`-1074`) and the mantissa fewer.
-/

namespace MatchTree

/-- A double-precision number. -/
inductive Binary64 where
  /-- The dyadic `± mantissa · 2 ^ exponent`. -/
  | finite (negative : Bool) (mantissa : Nat) (exponent : Int)
  | infinite (negative : Bool)
  | nan
  deriving DecidableEq, Inhabited

namespace Binary64

/-- The least exponent, that of the subnormal numbers. -/
def leastExponent : Int := -1074

/-- The greatest exponent of a finite number with a 53-bit mantissa. -/
def greatestExponent : Int := 971

/-- The quotient rounded to the nearest natural, a tie to the even one. -/
def roundDiv (num den : Nat) : Nat :=
  let q := num / den
  let r := num % den
  if 2 * r < den then q else if den < 2 * r then q + 1 else q + q % 2

/-- The quotient `num / (den · 2 ^ e)` as numerator and denominator. -/
def rescale (num den : Nat) (e : Int) : Nat × Nat :=
  if 0 ≤ e then (num, den <<< e.toNat) else (num <<< (-e).toNat, den)

/-- The exponent at which the quotient of two positive naturals has 53 bits before the point, or
the least exponent where that one is greater. -/
def unitExponent (num den : Nat) : Int :=
  let guess : Int := (num.log2 : Int) - (den.log2 : Int) - 52
  let scaled := rescale num den guess
  max leastExponent (if scaled.1 < scaled.2 <<< 52 then guess - 1 else guess)

/-- The number nearest to `± num / den`, ties to even; a quotient past the range is infinite. -/
def ofRatio (negative : Bool) (num den : Nat) : Binary64 :=
  if num = 0 then .finite negative 0 leastExponent
  else
    let e := unitExponent num den
    let scaled := rescale num den e
    let q := roundDiv scaled.1 scaled.2
    let carried := q = 1 <<< 53
    let e := if carried then e + 1 else e
    if greatestExponent < e then .infinite negative
    else .finite negative (if carried then 1 <<< 52 else q) e

/-- The number nearest to a natural. -/
def ofNat (n : Nat) : Binary64 := ofRatio false n 1

/-- The number nearest to an integer. -/
def ofInt (i : Int) : Binary64 := ofRatio (decide (i < 0)) i.natAbs 1

/-- The number nearest to a power of ten. -/
def powTen (k : Nat) : Binary64 := ofNat (Nat.pow 10 k)

/-- The same magnitude with the other sign. -/
def neg : Binary64 → Binary64
  | .finite s m e => .finite (!s) m e
  | .infinite s => .infinite (!s)
  | .nan => .nan

/-- Whether the number is neither infinite nor `nan`. -/
def isFinite : Binary64 → Bool
  | .finite .. => true
  | _ => false

/-- Whether the number is a zero of either sign. -/
def isZero : Binary64 → Bool
  | .finite _ m _ => m == 0
  | _ => false

/-- The dyadic `mantissa · 2 ^ exponent` as a quotient of naturals. -/
def ratio (mantissa : Nat) (exponent : Int) : Nat × Nat :=
  if 0 ≤ exponent then (mantissa <<< exponent.toNat, 1) else (mantissa, 1 <<< (-exponent).toNat)

/-- The product, rounded once. -/
def mul : Binary64 → Binary64 → Binary64
  | .nan, _ | _, .nan => .nan
  | .infinite s, .infinite t => .infinite (s != t)
  | .infinite s, .finite t m _ | .finite t m _, .infinite s =>
    if m = 0 then .nan else .infinite (s != t)
  | .finite s m e, .finite t n f =>
    let r := ratio (m * n) (e + f)
    ofRatio (s != t) r.1 r.2

/-- The quotient, rounded once. -/
def div : Binary64 → Binary64 → Binary64
  | .nan, _ | _, .nan | .infinite _, .infinite _ => .nan
  | .infinite s, .finite t _ _ => .infinite (s != t)
  | .finite s _ _, .infinite t => .finite (s != t) 0 leastExponent
  | .finite s m e, .finite t n f =>
    if n = 0 then (if m = 0 then .nan else .infinite (s != t))
    else
      let r := ratio m (e - f)
      ofRatio (s != t) r.1 (r.2 * n)

/-- The signed numerator of a finite number over a power of two. -/
def signedRatio (negative : Bool) (mantissa : Nat) (exponent : Int) : Int × Nat :=
  let r := ratio mantissa exponent
  (if negative then -(r.1 : Int) else r.1, r.2)

/-- Strictly smaller; never true of `nan`, and the two zeros are equal. -/
def lt : Binary64 → Binary64 → Bool
  | .nan, _ | _, .nan => false
  | .infinite s, .infinite t => s && !t
  | .infinite s, .finite .. => s
  | .finite .., .infinite t => !t
  | .finite s m e, .finite t n f =>
    let a := signedRatio s m e
    let b := signedRatio t n f
    decide (a.1 * b.2 < b.1 * a.2)

/-- The greatest integer that is not greater, for a finite number. -/
def floor? : Binary64 → Option Int
  | .finite s m e =>
    let r := signedRatio s m e
    some (r.1 / (r.2 : Int))
  | _ => none

/-- Whether the magnitude is greater than a natural; `nan` exceeds nothing. -/
def exceeds (x : Binary64) (bound : Nat) : Bool :=
  match x with
  | .finite _ m e =>
    let r := ratio m e
    decide (bound * r.2 < r.1)
  | .infinite _ => true
  | .nan => false

/-- The interchange encoding: sign, biased exponent, fraction. -/
def bits : Binary64 → UInt64
  | .finite s m e =>
    let magnitude := if m < 1 <<< 52 then m else ((e + 1075).toNat <<< 52) + (m - 1 <<< 52)
    UInt64.ofNat ((if s then 1 <<< 63 else 0) + magnitude)
  | .infinite s => UInt64.ofNat ((if s then 1 <<< 63 else 0) + 2047 <<< 52)
  | .nan => UInt64.ofNat (2047 <<< 52 + 1 <<< 51)

end Binary64

end MatchTree
