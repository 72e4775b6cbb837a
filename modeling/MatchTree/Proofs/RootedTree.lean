import Mathlib.Order.Bounds.Basic
import MatchTree.Proofs.Enumeration
import MatchTree.Proofs.Rounds

/-!
# Which arenas pass the check

* `Tree.child?` — the child of a node on one side.
* `Tree.Descends` — going from child to child, one comes from a node to another.
* `Tree.IsRooted` — the arena is a binary tree with its root at id 0, said of its ids alone.
* `Branch.edges` — the steps of a branch from its nodes to their children.
* `Tree.Fresh` — where the check of an arena stands as long as no node has been reached twice.

Principal results: `Branch.Spans.isRooted` — an arena that a branch spans is a rooted tree, since
the steps of the branch are the children of the arena; `exists_searchRound` — on a rooted tree every
round of the check goes on; `exists_shape` — so the check succeeds; `shape_ok_iff_isRooted` — an
arena passes the check exactly if it is a rooted tree, and its measures are those of the tree.
-/

namespace MatchTree

/-- The child on a side. -/
def Node.child? : Node → Side → Option NodeId
  | .split _ _ left _, .atMost => some left
  | .split _ _ _ right, .above => some right
  | .leaf _, _ => none

namespace Tree

/-- The child of a node on a side; none of a leaf, and of an id that is no node. -/
def child? (t : Tree) (id : NodeId) (side : Side) : Option NodeId :=
  (t.node? id).bind fun n => n.child? side

/-- Going from child to child one comes from a node to another in that many steps. -/
inductive Descends (t : Tree) : NodeId → Nat → NodeId → Prop
  | here (id : NodeId) : t.Descends id 0 id
  | down {id child last : NodeId} {side : Side} {n : Nat} (hchild : t.child? id side = some child)
      (hrest : t.Descends child n last) : t.Descends id (n + 1) last

/-- The nodes form a binary tree with its root at id 0. -/
structure IsRooted (t : Tree) : Prop where
  nonempty : 0 < t.size
  named : ∀ id side child, t.child? id side = some child → child.toNat < t.size
  root_free : ∀ id side, t.child? id side ≠ some root
  one_parent : ∀ id : NodeId, id.toNat < t.size → id ≠ root →
    ∃! e : NodeId × Side, t.child? e.1 e.2 = some id
  reachable : ∀ id : NodeId, id.toNat < t.size → ∃ n, t.Descends root n id

variable {t : Tree}

theorem child?_split {id left right : NodeId} {feature : FeatureId} {threshold : Int64}
    (h : t.node? id = some (.split feature threshold left right)) :
    t.child? id .atMost = some left ∧ t.child? id .above = some right := by
  simp [child?, h, Node.child?]

theorem child?_leaf {id : NodeId} {v : Verdict} (h : t.node? id = some (.leaf v)) (side : Side) :
    t.child? id side = none := by
  simp [child?, h, Node.child?]

theorem mem_ids_iff {id : NodeId} : id ∈ t.ids ↔ id.toNat < t.size := by
  constructor
  · intro h
    obtain ⟨n, hn⟩ := exists_node_of_mem_ids h
    exact (Array.getElem?_eq_some_iff.1 hn).1
  · intro h
    exact mem_ids_of_node? (Array.getElem?_eq_getElem h)

theorem mem_ids_of_child? {id child : NodeId} {side : Side} (h : t.child? id side = some child) :
    id ∈ t.ids := by
  obtain ⟨n, hn, -⟩ := Option.bind_eq_some_iff.1 h
  exact mem_ids_of_node? hn

end Tree

/-! ## The steps of a branch -/

namespace Branch

variable {t : Tree}

/-- The steps from a node to its child on a side, with the children in preorder. -/
def edges : Branch → List ((NodeId × Side) × NodeId)
  | leaf .. => []
  | split id _ _ l r => ((id, .atMost), l.root) :: l.edges ++ ((id, .above), r.root) :: r.edges

theorem map_snd_edges (b : Branch) : b.edges.map Prod.snd = b.innerIds := by
  induction b with
  | leaf => rfl
  | split id feature threshold l r ihl ihr => simp [edges, innerIds, ihl, ihr]

/-- **The steps of a branch are the children that its nodes have in the arena.** -/
theorem mem_edges_iff {b : Branch} (hb : b.LiesIn t) {id child : NodeId} {side : Side} :
    ((id, side), child) ∈ b.edges ↔ id ∈ b.ids ∧ t.child? id side = some child := by
  induction b with
  | leaf root v =>
    have hroot : id = root → t.child? id side = none := fun h => h ▸ Tree.child?_leaf hb side
    simp only [edges, ids, innerIds, Branch.root, List.not_mem_nil, List.mem_singleton, false_iff]
    rintro ⟨heq, hchild⟩
    rw [hroot heq] at hchild
    cases hchild
  | split root feature threshold l r ihl ihr =>
    obtain ⟨hnode, hl, hr⟩ := hb
    obtain ⟨hleft, hright⟩ := Tree.child?_split hnode
    simp only [edges, List.cons_append, List.mem_cons, List.mem_append, Prod.mk.injEq, ihl hl,
      ihr hr, mem_ids_split]
    constructor
    · rintro (⟨⟨rfl, rfl⟩, rfl⟩ | ⟨hid, hchild⟩ | ⟨⟨rfl, rfl⟩, rfl⟩ | ⟨hid, hchild⟩)
      · exact ⟨Or.inl rfl, hleft⟩
      · exact ⟨Or.inr (Or.inl hid), hchild⟩
      · exact ⟨Or.inl rfl, hright⟩
      · exact ⟨Or.inr (Or.inr hid), hchild⟩
    · rintro ⟨rfl | hid | hid, hchild⟩
      · cases side with
        | atMost => exact Or.inl ⟨⟨rfl, rfl⟩, Option.some.inj (hchild.symm.trans hleft)⟩
        | above =>
          exact Or.inr (Or.inr (Or.inl ⟨⟨rfl, rfl⟩, Option.some.inj (hchild.symm.trans hright)⟩))
      · exact Or.inr (Or.inl ⟨hid, hchild⟩)
      · exact Or.inr (Or.inr (Or.inr ⟨hid, hchild⟩))

theorem mem_innerIds_of_child? {b : Branch} (hb : b.LiesIn t) {id child : NodeId} {side : Side}
    (hid : id ∈ b.ids) (h : t.child? id side = some child) : child ∈ b.innerIds := by
  rw [← map_snd_edges]
  exact List.mem_map_of_mem ((mem_edges_iff hb).2 ⟨hid, h⟩)

/-- Nobody leaves a branch by going down. -/
theorem mem_ids_of_descends {b : Branch} (hb : b.LiesIn t) {id last : NodeId} {n : Nat}
    (h : t.Descends id n last) (hid : id ∈ b.ids) : last ∈ b.ids := by
  induction h with
  | here id => exact hid
  | down hchild _ ih => exact ih (List.mem_cons_of_mem _ (mem_innerIds_of_child? hb hid hchild))

/-- Every node of a branch is reached from its root. -/
theorem exists_descends {b : Branch} (hb : b.LiesIn t) {id : NodeId} (hid : id ∈ b.ids) :
    ∃ n, t.Descends b.root n id := by
  induction b with
  | leaf root v =>
    rw [ids, innerIds, List.mem_singleton] at hid
    exact ⟨0, hid ▸ .here _⟩
  | split root feature threshold l r ihl ihr =>
    obtain ⟨hnode, hl, hr⟩ := hb
    obtain ⟨hleft, hright⟩ := Tree.child?_split hnode
    rcases mem_ids_split.1 hid with rfl | hid | hid
    · exact ⟨0, .here _⟩
    · obtain ⟨n, hn⟩ := ihl hl hid
      exact ⟨n + 1, .down hleft hn⟩
    · obtain ⟨n, hn⟩ := ihr hr hid
      exact ⟨n + 1, .down hright hn⟩

/-! ## Measures of a branch -/

theorem le_depth_of_descends {b : Branch} (hb : b.LiesIn t) {last : NodeId} {n : Nat}
    (h : t.Descends b.root n last) : n ≤ b.depth := by
  induction b generalizing n with
  | leaf root v =>
    cases h with
    | here => exact Nat.le_refl 0
    | down hchild =>
      rw [Branch.root, Tree.child?_leaf hb] at hchild
      cases hchild
  | split root feature threshold l r ihl ihr =>
    obtain ⟨hnode, hl, hr⟩ := hb
    obtain ⟨hleft, hright⟩ := Tree.child?_split hnode
    cases h with
    | here => exact Nat.zero_le _
    | @down _ child _ side n hchild hrest =>
      rw [Branch.root] at hchild
      rw [depth]
      cases side with
      | atMost =>
        obtain rfl := Option.some.inj (hleft.symm.trans hchild)
        have := ihl hl hrest
        omega
      | above =>
        obtain rfl := Option.some.inj (hright.symm.trans hchild)
        have := ihr hr hrest
        omega

/-- The longest way down ends at a leaf. -/
theorem exists_descends_depth {b : Branch} (hb : b.LiesIn t) :
    ∃ leaf v, t.Descends b.root b.depth leaf ∧ t.node? leaf = some (.leaf v) := by
  induction b with
  | leaf root v => exact ⟨root, v, .here _, hb⟩
  | split root feature threshold l r ihl ihr =>
    obtain ⟨hnode, hl, hr⟩ := hb
    obtain ⟨hleft, hright⟩ := Tree.child?_split hnode
    rw [depth]
    rcases Nat.le_total r.depth l.depth with hle | hle
    · obtain ⟨leaf, v, hdown, hleaf⟩ := ihl hl
      rw [Nat.max_eq_left hle]
      exact ⟨leaf, v, .down hleft hdown, hleaf⟩
    · obtain ⟨leaf, v, hdown, hleaf⟩ := ihr hr
      rw [Nat.max_eq_right hle]
      exact ⟨leaf, v, .down hright hdown, hleaf⟩

/-- The leaves of the arena on a branch are its leaves, and the splits its splits. -/
theorem countP_isLeaf? {b : Branch} (hb : b.LiesIn t) :
    b.ids.countP (fun id => t.isLeaf? id = some true) = b.leafCount ∧
      b.ids.countP (fun id => t.isLeaf? id = some false) = b.splitCount := by
  induction b with
  | leaf id v =>
    have hleaf : t.node? id = some (.leaf v) := hb
    simp [ids, innerIds, root, leafCount, splitCount, Tree.isLeaf?, hleaf]
  | split id feature threshold l r ihl ihr =>
    obtain ⟨hnode, hl, hr⟩ := hb
    obtain ⟨hleavesLeft, hsplitsLeft⟩ := ihl hl
    obtain ⟨hleavesRight, hsplitsRight⟩ := ihr hr
    have hroot : t.isLeaf? id = some false := by rw [Tree.isLeaf?, hnode]; rfl
    rw [ids_split, List.countP_cons, List.countP_append, hleavesLeft, hleavesRight,
      List.countP_cons, List.countP_append, hsplitsLeft, hsplitsRight, hroot]
    exact ⟨rfl, rfl⟩

/-! ## Arenas that a branch spans -/

namespace Spans

variable {b : Branch}

theorem root_not_mem (h : b.Spans t) : Tree.root ∉ b.innerIds := by
  rw [← h.root_eq]
  exact (List.nodup_cons.1 h.nodup).1

theorem child_mem_innerIds (h : b.Spans t) {id child : NodeId} {side : Side}
    (hchild : t.child? id side = some child) : child ∈ b.innerIds :=
  mem_innerIds_of_child? h.lies (h.all.mem_iff.2 (Tree.mem_ids_of_child? hchild)) hchild

/-- **An arena that a branch spans is a rooted tree.** -/
theorem isRooted (h : b.Spans t) : t.IsRooted where
  nonempty := Nat.zero_lt_of_lt h.depth_lt_size
  named _ _ _ hchild :=
    Tree.mem_ids_iff.1 (h.all.mem_iff.1 (List.mem_cons_of_mem _ (h.child_mem_innerIds hchild)))
  root_free _ _ hchild := h.root_not_mem (h.child_mem_innerIds hchild)
  one_parent := by
    intro id hid hne
    have hmem : id ∈ b.innerIds := by
      rcases List.mem_cons.1 (h.all.mem_iff.2 (Tree.mem_ids_iff.2 hid)) with heq | hmem
      · exact absurd (heq.trans h.root_eq) hne
      · exact hmem
    -- No child stands twice among the steps, so two parents of one child are one.
    have hnodup : (b.edges.map Prod.snd).Nodup := by
      rw [map_snd_edges]
      exact (List.nodup_cons.1 h.nodup).2
    rw [← map_snd_edges] at hmem
    obtain ⟨⟨⟨parent, side⟩, id⟩, hedge, rfl⟩ := List.mem_map.1 hmem
    refine ⟨(parent, side), ((mem_edges_iff h.lies).1 hedge).2, ?_⟩
    rintro ⟨other, otherSide⟩ hother
    have hotherEdge : ((other, otherSide), id) ∈ b.edges :=
      (mem_edges_iff h.lies).2 ⟨h.all.mem_iff.2 (Tree.mem_ids_of_child? hother), hother⟩
    exact congrArg Prod.fst (List.inj_on_of_nodup_map hnodup hotherEdge hedge rfl)
  reachable id hid := by
    rw [← h.root_eq]
    exact exists_descends h.lies (h.all.mem_iff.2 (Tree.mem_ids_iff.2 hid))

end Spans

end Branch

/-! ## The check of a rooted tree -/

namespace Tree

variable {t : Tree}

namespace IsRooted

variable {id left right child : NodeId} {side : Side}

theorem ne_root (ht : t.IsRooted) (h : t.child? id side = some child) : child ≠ root :=
  fun heq => ht.root_free id side (heq ▸ h)

theorem childFlaw?_eq_none (ht : t.IsRooted) (h : t.child? id side = some child) :
    t.childFlaw? child = none := by
  have hlt := ht.named id side child h
  rw [childFlaw?, if_neg (by omega), if_neg (ht.ne_root h)]

/-- The two children of a split are different nodes: a shared one would be a child on both sides. -/
theorem children_ne (ht : t.IsRooted) (hleft : t.child? id .atMost = some left)
    (hright : t.child? id .above = some right) : left ≠ right := by
  rintro rfl
  have hparent := ht.one_parent left (ht.named _ _ _ hleft) (ht.ne_root hleft)
  have heq : (id, Side.atMost) = (id, Side.above) := hparent.unique hleft hright
  cases heq

end IsRooted

/-- The nodes on the stack are different ones, and none of them is seen yet. Whatever is on the stack
or seen, the root apart, has a parent that is seen. -/
structure Fresh (t : Tree) (q : Search) : Prop where
  nodup_unseen : q.unseen.Nodup
  nodes : ∀ id ∈ q.unseen, id ∈ t.ids
  nodup_stack : (q.stack.map Prod.fst).Nodup
  unseen : ∀ id ∈ q.stack.map Prod.fst, id ∈ q.unseen
  found : ∀ id ∈ t.ids, id ∈ q.stack.map Prod.fst ∨ id ∉ q.unseen →
    id = root ∨ ∃ e : NodeId × Side, t.child? e.1 e.2 = some id ∧ e.1 ∉ q.unseen

theorem fresh_start (h : 0 < t.size) (hsize : t.size ≤ 4294967296) : t.Fresh (.start t) where
  nodup_unseen := nodup_ids hsize
  nodes _ hid := hid
  nodup_stack := List.nodup_singleton _
  unseen id hid := by
    rw [List.mem_singleton.1 hid]
    exact mem_ids_iff.2 h
  found id hid hor := by
    rcases hor with hstack | hunseen
    · exact Or.inl (List.mem_singleton.1 hstack)
    · exact absurd hid hunseen

section Round

variable {id : NodeId} {depth : Nat} {rest : List (NodeId × Nat)} {unseen : List NodeId}
  {shape : Shape}

/-- Taking the node on top of the stack as seen keeps the rest of the stack fresh. -/
theorem Fresh.pop (h : t.Fresh ⟨(id, depth) :: rest, unseen, shape⟩) (s : Shape) :
    t.Fresh ⟨rest, unseen.erase id, s⟩ where
  nodup_unseen := h.nodup_unseen.erase id
  nodes x hx := h.nodes x (List.mem_of_mem_erase hx)
  nodup_stack := (List.nodup_cons.1 h.nodup_stack).2
  unseen x hx := by
    have hne : x ≠ id := fun heq => (List.nodup_cons.1 h.nodup_stack).1 (heq ▸ hx)
    exact (h.nodup_unseen.mem_erase_iff).2 ⟨hne, h.unseen x (List.mem_cons_of_mem _ hx)⟩
  found x hx hor := by
    have hbefore : x ∈ ((id, depth) :: rest).map Prod.fst ∨ x ∉ unseen := by
      rcases hor with hrest | hseen
      · exact Or.inl (List.mem_cons_of_mem _ hrest)
      · by_cases heq : x = id
        · exact Or.inl (heq ▸ List.mem_cons_self)
        · exact Or.inr fun hmem => hseen ((h.nodup_unseen.mem_erase_iff).2 ⟨heq, hmem⟩)
    rcases h.found x hx hbefore with hroot | ⟨e, he, hparent⟩
    · exact Or.inl hroot
    · exact Or.inr ⟨e, he, fun hmem => hparent (List.mem_of_mem_erase hmem)⟩

/-- A child of the node on top of the stack is neither on the stack nor seen: its one parent is the
node, which is not seen yet. -/
theorem Fresh.child (h : t.Fresh ⟨(id, depth) :: rest, unseen, shape⟩) (ht : t.IsRooted)
    {child : NodeId} {side : Side} (hchild : t.child? id side = some child) :
    child ∉ rest.map Prod.fst ∧ child ∈ unseen.erase id := by
  have hlt := ht.named id side child hchild
  have hne := ht.ne_root hchild
  have hid : id ∈ unseen := h.unseen id List.mem_cons_self
  have hnew : ¬ (child ∈ ((id, depth) :: rest).map Prod.fst ∨ child ∉ unseen) := by
    intro hor
    rcases h.found child (mem_ids_iff.2 hlt) hor with hroot | ⟨e, he, hparent⟩
    · exact hne hroot
    · have heq : e = (id, side) := (ht.one_parent child hlt hne).unique he hchild
      rw [heq] at hparent
      exact hparent hid
  rw [not_or, not_not] at hnew
  obtain ⟨hstack, hunseen⟩ := hnew
  have hneId : child ≠ id := fun heq => hstack (heq ▸ List.mem_cons_self)
  exact ⟨fun hrest => hstack (List.mem_cons_of_mem _ hrest),
    (h.nodup_unseen.mem_erase_iff).2 ⟨hneId, hunseen⟩⟩

/-- The two children of a node that is seen may go onto the stack. -/
theorem Fresh.push (h : t.Fresh ⟨rest, unseen, shape⟩) {left right : NodeId} {d : Nat}
    (hleft : t.child? id .atMost = some left) (hright : t.child? id .above = some right)
    (hid : id ∉ unseen) (hne : left ≠ right)
    (hl : left ∉ rest.map Prod.fst ∧ left ∈ unseen)
    (hr : right ∉ rest.map Prod.fst ∧ right ∈ unseen) :
    t.Fresh ⟨(left, d) :: (right, d) :: rest, unseen, shape⟩ where
  nodup_unseen := h.nodup_unseen
  nodes := h.nodes
  nodup_stack := by
    simp only [List.map_cons, List.nodup_cons, List.mem_cons, not_or]
    exact ⟨⟨hne, hl.1⟩, hr.1, h.nodup_stack⟩
  unseen x hx := by
    simp only [List.map_cons, List.mem_cons] at hx
    rcases hx with rfl | rfl | hx
    · exact hl.2
    · exact hr.2
    · exact h.unseen x hx
  found x hx hor := by
    simp only [List.map_cons, List.mem_cons] at hor
    rcases hor with (rfl | rfl | hrest) | hseen
    · exact Or.inr ⟨(id, .atMost), hleft, hid⟩
    · exact Or.inr ⟨(id, .above), hright, hid⟩
    · exact h.found x hx (Or.inl hrest)
    · exact h.found x hx (Or.inr hseen)

end Round

/-- **On a rooted tree every round of the check goes on.** -/
theorem exists_searchRound (ht : t.IsRooted) (q : Search) (hq : t.Fresh q) :
    ∃ q', t.searchRound q = .ok q' ∧ t.Fresh q' := by
  obtain ⟨stack, unseen, shape⟩ := q
  cases stack with
  | nil => exact ⟨_, rfl, hq⟩
  | cons top rest =>
    obtain ⟨id, depth⟩ := top
    have hmem : id ∈ unseen := hq.unseen id List.mem_cons_self
    have hpop := hq.pop
    obtain ⟨n, hnode⟩ := exists_node_of_mem_ids (hq.nodes id hmem)
    cases n with
    | leaf v => exact ⟨_, by simp only [searchRound, if_pos hmem, hnode]; rfl, hpop _⟩
    | split feature threshold left right =>
      obtain ⟨hleft, hright⟩ := child?_split hnode
      refine ⟨_, by simp only [searchRound, if_pos hmem, hnode, ht.childFlaw?_eq_none hleft,
        ht.childFlaw?_eq_none hright]; rfl, ?_⟩
      exact (hpop _).push hleft hright hq.nodup_unseen.not_mem_erase
        (ht.children_ne hleft hright) (hq.child ht hleft) (hq.child ht hright)

/-- **The check of a rooted tree succeeds**: no round ends with a fault, and what is never seen could
not be reached from the root. -/
theorem exists_shape (hsize : t.size ≤ 4294967296) (ht : t.IsRooted) : ∃ s, t.shape = .ok s := by
  -- One round more than there are nodes, and the search is over.
  obtain ⟨q, hrounds, -⟩ := exists_rounds (exists_searchRound ht) (t.size + 1)
    (fresh_start ht.nonempty hsize)
  rw [Search.start, rounds_searchRound t _ _ _ (by rw [length_ids]; omega)] at hrounds
  obtain ⟨⟨measured, left⟩, hexplore⟩ :
      ∃ found, t.explore [(root, 0)] t.ids ⟨0, 0, 0⟩ = .ok found := by
    cases hexplore : t.explore [(root, 0)] t.ids ⟨0, 0, 0⟩ with
    | ok found => exact ⟨found, rfl⟩
    | error fault =>
      rw [hexplore] at hrounds
      cases hrounds
  obtain ⟨b, hroot, hlies, -, hall, -⟩ := explore_root_ok hexplore
  have hleft : left = [] := by
    refine List.eq_nil_iff_forall_not_mem.2 fun orphan horphan => ?_
    have hmem : orphan ∈ t.ids := hall.mem_iff.2 (List.mem_append_right _ horphan)
    obtain ⟨n, hdown⟩ := ht.reachable orphan (mem_ids_iff.1 hmem)
    have hrootMem : root ∈ b.ids := by
      rw [Branch.ids, hroot]
      exact List.mem_cons_self
    have hb := Branch.mem_ids_of_descends hlies hdown hrootMem
    exact (List.nodup_append.1 (hall.nodup_iff.1 (nodup_ids hsize))).2.2 _ hb _ horphan rfl
  have hpos := ht.nonempty
  refine ⟨measured, ?_⟩
  rw [shape, if_neg (by omega), hexplore, hleft]

/-- **An arena passes the check exactly if it is a rooted tree.** Its measures are then those of the
tree: how many of its nodes are leaves and how many are splits, of which there is one less, and how
long the longest way from the root to a leaf is. -/
theorem shape_ok_iff_isRooted (hsize : t.size < 4294967296) :
    ((∃ s, t.shape = .ok s) ↔ t.IsRooted) ∧
    ∀ s, t.shape = .ok s →
      s.leaves = t.ids.countP (fun id => t.isLeaf? id = some true) ∧
      s.splits = t.ids.countP (fun id => t.isLeaf? id = some false) ∧
      s.leaves = s.splits + 1 ∧
      IsGreatest {n | ∃ leaf v, t.Descends root n leaf ∧ t.node? leaf = some (.leaf v)} s.depth := by
  refine ⟨⟨fun ⟨s, hs⟩ => ?_, exists_shape hsize.le⟩, fun s hs => ?_⟩
  · obtain ⟨b, hb, -⟩ := exists_spans hs
    exact hb.isRooted
  · obtain ⟨b, hb, rfl⟩ := exists_spans hs
    have hlongest := Branch.exists_descends_depth hb.lies
    rw [hb.root_eq] at hlongest
    obtain ⟨hleaves, hsplits⟩ := Branch.countP_isLeaf? hb.lies
    refine ⟨?_, ?_, b.leafCount_eq_succ, hlongest, ?_⟩
    · rw [← hb.all.countP_eq, hleaves]
    · rw [← hb.all.countP_eq, hsplits]
    · rintro n ⟨leaf, v, hdown, -⟩
      rw [← hb.root_eq] at hdown
      exact Branch.le_depth_of_descends hb.lies hdown

/-- A split with one leaf on both sides. -/
def shared : Tree := ⟨#[.split 3 20 1 1, .leaf .normal]⟩

theorem lopsided_and_shared_shape_ok_iff_isRooted :
    lopsided.size < 4294967296 ∧ lopsided.shape = .ok ⟨2, 3, 2⟩ ∧ lopsided.IsRooted ∧
      lopsided.ids.countP (fun id => lopsided.isLeaf? id = some true) = 3 ∧
      IsGreatest {n | ∃ leaf v, lopsided.Descends root n leaf ∧
        lopsided.node? leaf = some (.leaf v)} 2 ∧
      shared.size < 4294967296 ∧ ¬ shared.IsRooted := by
  have hshape : lopsided.shape = .ok ⟨2, 3, 2⟩ := by decide +kernel
  have hsize : lopsided.size < 4294967296 := by decide
  have hsharedSize : shared.size < 4294967296 := by decide
  obtain ⟨hiff, hmeasures⟩ := shape_ok_iff_isRooted hsize
  obtain ⟨hleaves, -, -, hdepth⟩ := hmeasures _ hshape
  refine ⟨hsize, hshape, hiff.1 ⟨_, hshape⟩, hleaves.symm, hdepth, hsharedSize, fun hrooted => ?_⟩
  obtain ⟨s, hs⟩ := (shape_ok_iff_isRooted hsharedSize).1.2 hrooted
  have hfault : shared.shape.toBool = false := by decide +kernel
  rw [hs] at hfault
  cases hfault

end Tree

end MatchTree
