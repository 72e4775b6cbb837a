import MatchTree.Tree.Basic

/-!
# Building a tree from the leaves up

* `Draft` — nodes in the order of their creation, children before parents.
* `Draft.tree` — the nodes reachable from a chosen root, renumbered in preorder with the left child
  first. An id that names no node becomes `Draft.nowhere`, and a node reached again keeps its one
  number, so that `Tree.shape` still sees what is wrong.
-/

namespace MatchTree

/-- Nodes under construction. -/
structure Draft where
  nodes : Array Node
  deriving Inhabited

namespace Draft

def empty : Draft := ⟨#[]⟩

/-- Adds a node and returns its id. -/
def add (d : Draft) (node : Node) : Draft × NodeId :=
  (⟨d.nodes.push node⟩, UInt32.ofNat d.nodes.size)

/-- Adds a leaf. -/
def leaf (d : Draft) (v : Verdict) : Draft × NodeId := d.add (.leaf v)

/-- Adds a split over two nodes. -/
def split (d : Draft) (feature : FeatureId) (threshold : Int64) (left right : NodeId) :
    Draft × NodeId :=
  d.add (.split feature threshold left right)

/-- The node with the given id. -/
def node? (d : Draft) (id : NodeId) : Option Node := d.nodes[id.toNat]?

/-- The ids of the nodes, ascending. -/
def ids (d : Draft) : List NodeId := (List.range d.nodes.size).map UInt32.ofNat

/-- The ids reached from those on the stack without passing a seen one, in preorder. -/
def preorder (d : Draft) (stack unseen : List NodeId) : List NodeId :=
  match stack with
  | [] => []
  | id :: rest =>
    if _h : id ∈ unseen then
      match d.node? id with
      | some (.split _ _ left right) =>
        id :: d.preorder (left :: right :: rest) (unseen.erase id)
      | _ => id :: d.preorder rest (unseen.erase id)
    else d.preorder rest unseen
termination_by (unseen.length, stack.length)
decreasing_by
  all_goals simp_wf
  · have := List.length_pos_of_mem _h
    have := List.length_erase_of_mem _h
    apply Prod.Lex.left
    omega
  · have := List.length_pos_of_mem _h
    have := List.length_erase_of_mem _h
    apply Prod.Lex.left
    omega
  · apply Prod.Lex.right
    omega

/-- The id that stands for a node that is not there. -/
def nowhere : NodeId := 4294967295

/-- The position of an id in an order. -/
def renumber (order : List NodeId) (id : NodeId) : NodeId :=
  match order.idxOf? id with
  | some i => UInt32.ofNat i
  | none => nowhere

/-- A node with its children renumbered. -/
def renumberNode (order : List NodeId) : Node → Node
  | .split feature threshold left right =>
    .split feature threshold (renumber order left) (renumber order right)
  | .leaf v => .leaf v

/-- The arena of the nodes reachable from `root`, which becomes node 0. -/
def tree (d : Draft) (root : NodeId) : Tree :=
  let order := d.preorder [root] d.ids
  ⟨((order.filterMap d.node?).map (renumberNode order)).toArray⟩

end Draft

end MatchTree
