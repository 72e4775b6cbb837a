import MatchTree.Grid.Box

/-!
# The table of all code tuples

* `Placement` — a route with its box; `placements` finds them all and stops as soon as there are
  more rows than allowed.
* `firstClash?` — the first route whose box meets an earlier one, with the first tuple, in
  lexicographic order, that they share.
* `CodeTable` — a row for each tuple of each box, in the order of the routes.
-/

namespace MatchTree

/-- A route with the box that it takes. -/
structure Placement where
  route : Nat
  verdict : Verdict
  box : CodeBox
  deriving DecidableEq, Inhabited

/-- The placements of the routes from position `index` on, after `total` rows. Both the rows of a
route and their sum are capped at 64 bits. -/
def placements (grid : Grid) (limit : UInt64) (index total : Nat) :
    List Route → Except Fault (List Placement)
  | [] => .ok []
  | r :: rs => do
    match ← r.box grid with
    | none => placements grid limit (index + 1) total rs
    | some box =>
      let total := cappedAdd total box.size
      if limit.toNat < total then .error (.tableOverflow index total limit)
      else return ⟨index, r.verdict, box⟩ :: (← placements grid limit (index + 1) total rs)

/-- A tuple that two placements share. -/
structure Clash where
  codes : List Code
  first : Placement
  second : Placement
  deriving DecidableEq

/-- The better of the clash so far and that with an earlier placement: the one with the lesser
tuple. -/
def betterClash (p : Placement) (best : Option Clash) (q : Placement) : Option Clash :=
  match p.box.meet? q.box, best with
  | none, _ => best
  | some shared, none => some ⟨shared.least, q, p⟩
  | some shared, some clash =>
    if shared.least < clash.codes then some ⟨shared.least, q, p⟩ else some clash

/-- The first tuple of a placement that an earlier one has as well. -/
def clashWith? (earlier : List Placement) (p : Placement) : Option Clash :=
  earlier.foldl (betterClash p) none

/-- The first clash among placements after the `earlier` ones. -/
def firstClash? (earlier : List Placement) : List Placement → Option Clash
  | [] => none
  | p :: ps =>
    match clashWith? earlier p with
    | some clash => some clash
    | none => firstClash? (earlier ++ [p]) ps

/-- A row of the table. -/
structure Row where
  codes : List Code
  verdict : Verdict
  /-- The position of the route that the row comes from. -/
  route : Nat
  deriving DecidableEq, Inhabited

/-- The rows of a placement. -/
def Placement.rows (p : Placement) : List Row :=
  p.box.tuples.map fun codes => ⟨codes, p.verdict, p.route⟩

/-- Verdicts by code tuple. -/
structure CodeTable where
  rows : List Row
  deriving DecidableEq, Inhabited

namespace CodeTable

/-- The verdict of a tuple. -/
def verdict? (t : CodeTable) (codes : List Code) : Option Verdict :=
  (t.rows.find? fun r => r.codes == codes).map (·.verdict)

/-- The table of some routes; too many rows are a fault, and so is a tuple with two routes. -/
def ofRoutes (routes : List Route) (grid : Grid) (maxRows : UInt64) : Except Fault CodeTable := do
  let ps ← placements grid maxRows 0 0 routes
  match firstClash? [] ps with
  | some c =>
    .error (.ambiguous c.codes c.first.route c.first.verdict c.second.route c.second.verdict)
  | none => .ok ⟨ps.flatMap Placement.rows⟩

end CodeTable

end MatchTree
