import MatchTree.Tree.Basic

/-!
# Is an arena a tree?

* `Tree.shape` — accepts an arena in which every child id names a node other than the root, no
  node is reached twice and every node is reached; returns its depth and its numbers of leaves and
  splits.
* `Tree.explore` — the search behind it: depth first, left child first. It keeps the ids not yet
  seen, and each step takes one of them away, so it ends on any arena.
-/

namespace MatchTree

/-- The measures of a tree. -/
structure Shape where
  /-- The number of splits on the longest way from the root to a leaf. -/
  depth : Nat
  leaves : Nat
  splits : Nat
  deriving DecidableEq, Inhabited

namespace Tree

/-- What is wrong with a child id, if anything. -/
def childFlaw? (t : Tree) (child : NodeId) : Option TreeFlaw :=
  if t.size ≤ child.toNat then some (.noSuchChild child.toNat t.size)
  else if child = root then some .rootAsChild
  else none

/-- Visits the nodes on the stack, each with its depth, and all below them; returns the measures
and the ids left unseen. Of two faulty children the right one is reported. -/
def explore (t : Tree) (stack : List (NodeId × Nat)) (unseen : List NodeId) (shape : Shape) :
    Except Fault (Shape × List NodeId) :=
  match stack with
  | [] => .ok (shape, unseen)
  | (id, depth) :: rest =>
    if _h : id ∈ unseen then
      match t.node? id with
      | none => .error (.malformedTree id .dangling)
      | some (.leaf _) =>
        t.explore rest (unseen.erase id)
          { shape with leaves := shape.leaves + 1, depth := max shape.depth depth }
      | some (.split _ _ left right) =>
        match t.childFlaw? right <|> t.childFlaw? left with
        | some flaw => .error (.malformedTree id flaw)
        | none =>
          t.explore ((left, depth + 1) :: (right, depth + 1) :: rest) (unseen.erase id)
            { shape with splits := shape.splits + 1 }
    else .error (.malformedTree id .reachedTwice)
termination_by unseen.length
decreasing_by
  all_goals
    rw [List.length_erase_of_mem _h]
    have := List.length_pos_of_mem _h
    omega

/-- The measures of an arena that is a tree, or the first reason why it is none. -/
def shape (t : Tree) : Except Fault Shape :=
  if t.size = 0 then .error (.malformedTree root .noNodes)
  else
    match t.explore [(root, 0)] t.ids ⟨0, 0, 0⟩ with
    | .error fault => .error fault
    | .ok (shape, []) => .ok shape
    | .ok (_, orphan :: _) => .error (.malformedTree orphan .unreachable)

end Tree

end MatchTree
