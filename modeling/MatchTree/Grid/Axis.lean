import MatchTree.Grid.Bisect
import MatchTree.Tree.Basic

/-!
# Domains cut at thresholds

* `Band` — an inclusive run of values with the code that stands for it.
* `Axis` — the bands of one feature; `Axis.ofEdges` cuts the domain after each of the ascending
  edges and numbers the bands from zero.
* `bandAt?` — the band of a value, found by halving.
* `Axis.cover` — the run of codes whose bands make up an interval exactly.
* `Axis.ofSplits` — the axis of a feature for the splits that a tree makes on it.

Codes have 16 bits, and the code of a band past the 65536th starts over.
-/

namespace MatchTree

abbrev Code := UInt16

/-- An inclusive interval of integers; empty if its ends are crossed. -/
structure Interval where
  lower : Int64
  upper : Int64
  deriving DecidableEq, Inhabited

namespace Interval

def isEmpty (i : Interval) : Bool := decide (i.upper.toInt < i.lower.toInt)

/-- Whether a value lies in the interval. -/
def contains (i : Interval) (v : UInt32) : Bool :=
  decide (i.lower.toInt ≤ v.toNat) && decide ((v.toNat : Int) ≤ i.upper.toInt)

end Interval

/-- The values of a domain as an interval. -/
def Feature.domain (f : Feature) : Interval :=
  ⟨Int64.ofNat f.least.toNat, Int64.ofNat f.greatest.toNat⟩

/-- The inclusive run of values that a code stands for. -/
structure Band where
  lower : UInt32
  upper : UInt32
  code : Code
  deriving DecidableEq, Inhabited

/-- Whether a value lies in the band. -/
def Band.contains (b : Band) (v : UInt32) : Bool := decide (b.lower ≤ v) && decide (v ≤ b.upper)

/-- The band that holds a value, among ascending disjoint ones. -/
def bandAt? (bands : Array Band) (v : UInt32) : Option Band :=
  bands[partitionPoint (fun b => decide (b.upper < v)) bands]?.filter fun b => b.contains v

/-- A run of codes, both ends included. -/
structure CodeRun where
  first : Code
  last : Code
  deriving DecidableEq, Inhabited

/-- The bands of a feature, ascending. -/
structure Axis where
  feature : FeatureId
  bands : Array Band
  deriving DecidableEq, Inhabited

namespace Axis

/-- How many bands there are. -/
def size (a : Axis) : Nat := a.bands.size

/-- The bands from `lower` up to `greatest`, one ending at each edge, numbered from `index`. An edge
at `greatest` adds no band after it. -/
def cut (greatest : UInt32) (lower : UInt32) (index : Nat) : List UInt32 → List Band
  | [] => [⟨lower, greatest, UInt16.ofNat index⟩]
  | edge :: edges =>
    ⟨lower, edge, UInt16.ofNat index⟩ ::
      if edge = greatest then [] else cut greatest (edge + 1) (index + 1) edges

/-- The domain of a feature cut after each of the ascending edges. -/
def ofEdges (f : Feature) (edges : List UInt32) : Axis :=
  ⟨f.id, (cut f.greatest f.least 0 edges).toArray⟩

/-- The code of a value of the domain. -/
def codeOf? (a : Axis) (v : UInt32) : Option Code := (bandAt? a.bands v).map (·.code)

/-- The run of all codes. -/
def allCodes (a : Axis) : CodeRun := ⟨0, UInt16.ofNat (a.size - 1)⟩

/-- The code of an integer that is a value of the domain. -/
def codeOfInt? (a : Axis) (i : Int64) : Option Code :=
  if 0 ≤ i.toInt ∧ i.toInt < UInt32.size then a.codeOf? (UInt32.ofNat i.toInt.toNat) else none

/-- The codes whose bands make up an interval: none if it is empty, and a flaw if one of its ends
is no edge. -/
def cover (a : Axis) (i : Interval) : Except CutFlaw (Option CodeRun) :=
  if i.isEmpty then .ok none
  else
    let run? : Option CodeRun := do
      let first ← a.codeOfInt? i.lower
      let last ← a.codeOfInt? i.upper
      let low ← a.bands[first.toNat]?
      let high ← a.bands[last.toNat]?
      if (low.lower.toNat : Int) = i.lower.toInt ∧ (high.upper.toNat : Int) = i.upper.toInt then
        some ⟨first, last⟩
      else none
    match run? with
    | some run => .ok (some run)
    | none => .error (.misaligned i.lower i.upper)

/-- Puts an edge into ascending edges, unless it is there. -/
def insertEdge (e : UInt32) : List UInt32 → List UInt32
  | [] => [e]
  | f :: fs => if e < f then e :: f :: fs else if e = f then f :: fs else f :: insertEdge e fs

/-- The distinct thresholds of some splits, ascending; thresholds of a domain fit 32 bits. -/
def edgesOf (splits : List Tree.Split) : List UInt32 :=
  splits.foldr (fun s edges => insertEdge (UInt32.ofNat s.threshold.toInt.toNat) edges) []

/-- The axis of a feature for the splits on it. The first threshold outside the domain is a fault,
and so are more bands than allowed. -/
def ofSplits (f : Feature) (splits : List Tree.Split) (maxBands : UInt64) : Except Fault Axis :=
  match splits.find? fun s => !f.contains s.threshold with
  | some s => .error (.cut f.id (.outsideDomain s.node s.threshold f.least f.greatest))
  | none =>
    let axis := ofEdges f (edgesOf splits)
    if maxBands.toNat < axis.size then .error (.cut f.id (.tooManyBands axis.size maxBands))
    else .ok axis

end Axis

end MatchTree
