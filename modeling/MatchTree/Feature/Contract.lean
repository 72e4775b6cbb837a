import MatchTree.Feature.Schema

/-!
# Does a slice yield its feature's domain?

Tables are filled for the values of a domain, while a switch matches what its slices yield. The two
agree if the slice lies in its field, is as wide as the key, and yields the values of the domain and
no others.

* `Breach` — the ways in which a slice and a description disagree.
* `Feature.breaches` — those of one feature; `Schema.check` — those of all.
-/

namespace MatchTree

/-- A disagreement between a feature and its slice. -/
inductive Breach where
  /-- No slice is declared. -/
  | missing
  /-- The slice reads past the end of the field. -/
  | outsideField (shift bits fieldWidth : UInt8)
  /-- The slice is not as wide as the match key. -/
  | widthMismatch (bits bitWidth : UInt8)
  /-- The domain names values that the slice never yields. -/
  | unreachable (greatest : UInt32) (sliceMax : Nat)
  /-- The slice yields values outside the domain. -/
  | narrower (least greatest : UInt32) (sliceMax : Nat)
  deriving DecidableEq

def Breach.message : Breach → String
  | missing => "no extraction rule"
  | outsideField shift bits fieldWidth =>
    s!"slice >> {shift.toNat} of {bits.toNat} bits leaves the {fieldWidth.toNat}-bit field"
  | widthMismatch bits bitWidth =>
    s!"extracts {bits.toNat} bits into a {bitWidth.toNat}-bit match key"
  | unreachable greatest sliceMax =>
    s!"domain reaches {greatest.toNat} but the slice tops out at {sliceMax}"
  | narrower least greatest sliceMax =>
    s!"slice yields 0..={sliceMax} but the domain is {least.toNat}..={greatest.toNat}"

/-- The largest value that a slice yields from a raw value of its field. -/
def Slice.greatest (s : Slice) : Nat :=
  1 <<< min (min s.bits.toNat (s.field.width.toNat - s.shift.toNat)) 32 - 1

/-- The breaches of one feature. -/
def Feature.breaches (f : Feature) : List Breach :=
  match f.slice? with
  | none => [.missing]
  | some s =>
    let outside := s.field.width.toNat < s.shift.toNat + s.bits.toNat
    let mismatch := s.bits ≠ f.bitWidth
    let beyond := s.greatest < f.greatest.toNat
    let within := 0 < f.least ∨ f.greatest.toNat < s.greatest
    (if outside then [.outsideField s.shift s.bits s.field.width] else []) ++
      (if mismatch then [.widthMismatch s.bits f.bitWidth] else []) ++
      (if beyond then [.unreachable f.greatest s.greatest] else []) ++
      (if within then [.narrower f.least f.greatest s.greatest] else [])

/-- A breach and the feature that it concerns. -/
structure Finding where
  feature : FeatureId
  label : String
  breach : Breach
  deriving DecidableEq

/-- Every breach of every feature, in order. -/
def Schema.check (s : Schema) : List Finding :=
  s.features.flatMap fun f => f.breaches.map fun b => ⟨f.id, f.label, b⟩

end MatchTree
