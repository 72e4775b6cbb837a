import MatchTree.Grid.Basic
import MatchTree.Route

/-!
# Boxes of codes

* `CodeBox` — a run of codes on each axis; it holds the tuples with a code from each run.
* `CodeBox.tuples` — those tuples in lexicographic order, the last axis fastest.
* `CodeBox.meet?` — what two boxes share.
* `Route.box` — the box of a route: all codes of an axis that it does not test, and the codes that
  cover its interval on one that it does; a route with an empty interval has none.
-/

namespace MatchTree

namespace CodeRun

/-- How many codes there are. -/
def size (r : CodeRun) : Nat := r.last.toNat + 1 - r.first.toNat

/-- The codes, ascending. -/
def codes (r : CodeRun) : List Code :=
  (List.range r.size).map fun i => UInt16.ofNat (r.first.toNat + i)

/-- Whether a code lies in the run. -/
def contains (r : CodeRun) (c : Code) : Bool := decide (r.first ≤ c) && decide (c ≤ r.last)

end CodeRun

/-- A run of codes on each axis. -/
abbrev CodeBox := List CodeRun

namespace CodeBox

/-- How many tuples there are, capped at 64 bits. -/
def size (b : CodeBox) : Nat := (b.map CodeRun.size).foldl cappedMul 1

/-- The tuples in lexicographic order. -/
def tuples : CodeBox → List (List Code)
  | [] => [[]]
  | run :: box =>
    let rest := tuples box
    run.codes.flatMap fun c => rest.map (c :: ·)

/-- Whether a tuple lies in the box. -/
def contains : CodeBox → List Code → Bool
  | [], [] => true
  | run :: box, c :: cs => run.contains c && contains box cs
  | _, _ => false

/-- The box of the tuples in both boxes, if there are any. -/
def meet? : CodeBox → CodeBox → Option CodeBox
  | [], [] => some []
  | r :: b, s :: c =>
    let first := if r.first < s.first then s.first else r.first
    let last := if r.last < s.last then r.last else s.last
    if first ≤ last then (meet? b c).map (⟨first, last⟩ :: ·) else none
  | _, _ => none

/-- The first tuple in lexicographic order. -/
def least (b : CodeBox) : List Code := b.map (·.first)

end CodeBox

namespace Route

/-- The run of codes for an interval on an axis. -/
def runOn (axis : Axis) (interval : Interval) (tested : Bool) : Except Fault (Option CodeRun) :=
  if tested then (axis.cover interval).mapError (.cut axis.feature)
  else .ok (some axis.allCodes)

/-- The runs of codes for the axes from position `index` on. -/
def runsFrom (r : Route) (index : Nat) : List Axis → List Interval → Except Fault (Option CodeBox)
  | axis :: axes, interval :: intervals => do
    match ← runOn axis interval (r.tests index) with
    | none => return none
    | some run => return (← r.runsFrom (index + 1) axes intervals).map (run :: ·)
  | _, _ => .ok (some [])

/-- The box of codes that a route takes on a grid. -/
def box (r : Route) (grid : Grid) : Except Fault (Option CodeBox) :=
  r.runsFrom 0 grid.axes r.intervals

end Route

end MatchTree
