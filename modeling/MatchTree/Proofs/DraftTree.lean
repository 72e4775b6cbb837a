import MatchTree.Proofs.Preorder

/-!
# The arena of a draft

* `Draft.order` — the ids of a draft in the order in which they are numbered from a root.
* `Draft.Refers`, `Draft.Copies` — an arena refers to a node by its position in that order, and has
  a node like one of the draft; what the order does not list is referred to by `Draft.nowhere`.
* `Draft.IsTree` — what is reached from a root is a binary tree, said of the draft's own ids.

Principal results: `getElem?_renumber` — a reference leads back to the id that it stands for, and
nowhere if that names no node; `child?_tree` — so the children in the arena are those in the draft;
`isRooted_iff_isTree` — the arena is a rooted tree exactly if the draft is a tree from its root;
`walk_tree` — a walk goes the same way in both; `tree_of_draft` — all of this for any draft with
fewer nodes than ids.
-/

namespace MatchTree

namespace Draft

/-- The ids in the order in which they are numbered. -/
def order (d : Draft) (root : NodeId) : List NodeId := d.preorder [root] d.ids

/-- The order of a draft, by going through the rounds of the numbering. -/
theorem order_eq_of_rounds {d : Draft} {root : NodeId} {order left : List NodeId} {n : Nat}
    (hn : 2 * d.ids.length + 1 ≤ n)
    (h : rounds d.numberRound n ⟨[root], d.ids, []⟩ = .ok ⟨[], left, order⟩) :
    d.order root = order := by
  obtain ⟨last, hlast⟩ := rounds_numberRound d [root] d.ids [] hn
  rw [h] at hlast
  cases hlast
  rfl

/-- An arena refers to an id by its position, or by `nowhere` if it is not listed. -/
def Refers (order : List NodeId) (old new : NodeId) : Prop :=
  order[new.toNat]? = some old ∨ old ∉ order ∧ new = nowhere

/-- The node is the same but for the ids of its children. -/
inductive Copies (order : List NodeId) : Node → Node → Prop
  | leaf (v : Verdict) : Copies order (.leaf v) (.leaf v)
  | split {feature : FeatureId} {threshold : Int64} {left right newLeft newRight : NodeId}
      (hleft : Refers order left newLeft) (hright : Refers order right newRight) :
      Copies order (.split feature threshold left right)
        (.split feature threshold newLeft newRight)

/-- The nodes reached from the root form a binary tree. -/
structure IsTree (d : Draft) (root : NodeId) : Prop where
  root_names : d.Names root
  names : ∀ id side child, d.Reachable root id → d.arena.child? id side = some child →
    d.Names child
  one_edge : ∀ id side id' side' child, d.Reachable root id → d.Reachable root id' →
    d.arena.child? id side = some child → d.arena.child? id' side' = some child →
    id = id' ∧ side = side'
  root_free : ∀ id side, d.Reachable root id → d.arena.child? id side ≠ some root

/-! ## References -/

section References

variable {order : List NodeId}

/-- **A reference leads back to the id that it stands for**, and nowhere if that is not listed. -/
theorem getElem?_renumber (hlength : order.length ≤ 4294967295) (old : NodeId) :
    order[(renumber order old).toNat]? = if old ∈ order then some old else none := by
  unfold renumber
  cases hindex : order.idxOf? old with
  | none =>
    rw [if_neg (List.idxOf?_eq_none_iff.1 hindex)]
    exact List.getElem?_eq_none hlength
  | some i =>
    obtain ⟨hi, heq, -⟩ := List.idxOf?_eq_some_iff.1 hindex
    have hposition : (UInt32.ofNat i).toNat = i := by
      rw [UInt32.toNat_ofNat', Nat.mod_eq_of_lt (by omega)]
    rw [if_pos (heq ▸ List.getElem_mem hi)]
    dsimp only
    rw [hposition, List.getElem?_eq_getElem hi, heq]

theorem renumber_of_getElem? (hlength : order.length ≤ 4294967295) (hnodup : order.Nodup)
    {old new : NodeId} (h : order[new.toNat]? = some old) : renumber order old = new := by
  have hback := getElem?_renumber hlength old
  rw [if_pos (List.mem_of_getElem? h), ← h] at hback
  refine UInt32.toNat_inj.1 ((List.getElem?_inj ?_ hnodup).1 hback)
  rw [h] at hback
  exact (List.getElem?_eq_some_iff.1 hback).1

theorem renumber_inj (hlength : order.length ≤ 4294967295) {old old' : NodeId} (hold : old ∈ order)
    (hold' : old' ∈ order) (h : renumber order old = renumber order old') : old = old' := by
  have hback := getElem?_renumber hlength old
  rw [h, getElem?_renumber hlength, if_pos hold, if_pos hold'] at hback
  exact (Option.some.inj hback).symm

theorem refers_renumber (hlength : order.length ≤ 4294967295) (old : NodeId) :
    Refers order old (renumber order old) := by
  by_cases hold : old ∈ order
  · left
    rw [getElem?_renumber hlength, if_pos hold]
  · right
    refine ⟨hold, ?_⟩
    rw [renumber, List.idxOf?_eq_none_iff.2 hold]

theorem copies_renumberNode (hlength : order.length ≤ 4294967295) (n : Node) :
    Copies order n (renumberNode order n) := by
  cases n with
  | leaf v => exact .leaf v
  | split => exact .split (refers_renumber hlength _) (refers_renumber hlength _)

theorem child?_renumberNode (n : Node) (side : Side) :
    (renumberNode order n).child? side = (n.child? side).map (renumber order) := by
  cases n with
  | leaf => rfl
  | split =>
    cases side with
    | atMost => rfl
    | above => rfl

end References

/-! ## The arena -/

section Arena

variable {d : Draft} {root : NodeId} (hsize : d.nodes.size < 4294967295)
include hsize

theorem visits_order : d.Visits [] root (d.order root) :=
  visits_preorder (by omega) root

theorem mem_order_iff {id : NodeId} : id ∈ d.order root ↔ d.Reachable root id :=
  (visits_order hsize).mem_iff

theorem nodup_order : (d.order root).Nodup := (visits_order hsize).nodup

theorem length_order_le : (d.order root).length ≤ 4294967295 := by
  have hsub : d.order root ⊆ d.ids :=
    fun id hid => names_iff_mem_ids.1 ((mem_order_iff hsize).1 hid).names
  have hle := (List.subperm_of_subset (nodup_order hsize) hsub).length_le
  have hids : d.ids.length = d.nodes.size := Tree.length_ids d.arena
  omega

/-- The arena has a copy of each listed node, in order. -/
theorem nodes_tree : List.Forall₂
    (fun id n => ∃ m, d.node? id = some m ∧ n = renumberNode (d.order root) m)
    (d.order root) (d.tree root).nodes.toList := by
  have hnames : ∀ id ∈ d.order root, d.Names id :=
    fun id hid => ((mem_order_iff hsize).1 hid).names
  show List.Forall₂ _ _ (((d.order root).filterMap d.node?).map (renumberNode (d.order root)))
  generalize renumberNode (d.order root) = copy
  generalize d.order root = order at hnames
  induction order with
  | nil => exact .nil
  | cons id rest ih =>
    obtain ⟨⟨n, hn⟩, hrest⟩ := List.forall_mem_cons.1 hnames
    rw [List.filterMap_cons_some hn, List.map_cons]
    exact .cons ⟨n, hn, rfl⟩ (ih hrest)

theorem size_tree : (d.tree root).size = (d.order root).length :=
  (nodes_tree hsize).length_eq.symm

/-- The node with an id of the arena is a copy of the one that stands at that position. -/
theorem node?_tree (new : NodeId) :
    (d.tree root).node? new =
      (d.order root)[new.toNat]?.bind fun old =>
        (d.node? old).map (renumberNode (d.order root)) := by
  have hnodes := @nodes_tree d root hsize
  have hget : (d.tree root).node? new = (d.tree root).nodes.toList[new.toNat]? :=
    Array.getElem?_toList.symm
  rw [hget]
  by_cases hnew : new.toNat < (d.order root).length
  · have hnew' : new.toNat < (d.tree root).nodes.toList.length := by
      rw [← hnodes.length_eq]
      exact hnew
    obtain ⟨m, hm, heq⟩ := hnodes.get hnew hnew'
    rw [List.get_eq_getElem] at hm heq
    rw [List.getElem?_eq_getElem hnew, List.getElem?_eq_getElem hnew', heq, Option.bind_some, hm]
    rfl
  · have hnew' : (d.tree root).nodes.toList.length ≤ new.toNat := by
      rw [← hnodes.length_eq]
      omega
    rw [List.getElem?_eq_none hnew', List.getElem?_eq_none (by omega)]
    rfl

/-- **The children in the arena are those in the draft.** -/
theorem child?_tree (new : NodeId) (side : Side) :
    (d.tree root).child? new side =
      (d.order root)[new.toNat]?.bind fun old =>
        (d.arena.child? old side).map (renumber (d.order root)) := by
  rw [Tree.child?, node?_tree hsize]
  cases (d.order root)[new.toNat]? with
  | none => rfl
  | some old =>
    show ((d.node? old).map _).bind _ = ((d.node? old).bind _).map _
    cases d.node? old with
    | none => rfl
    | some n => exact child?_renumberNode n side

theorem getElem?_order {old : NodeId} (hold : d.Reachable root old) :
    (d.order root)[(renumber (d.order root) old).toNat]? = some old := by
  rw [getElem?_renumber (length_order_le hsize), if_pos ((mem_order_iff hsize).2 hold)]

theorem child?_renumber {old child : NodeId} {side : Side} (hold : d.Reachable root old)
    (hchild : d.arena.child? old side = some child) :
    (d.tree root).child? (renumber (d.order root) old) side =
      some (renumber (d.order root) child) := by
  rw [child?_tree hsize, getElem?_order hsize hold, Option.bind_some, hchild]
  rfl

/-- Whoever goes down in the arena goes down in the draft. -/
theorem exists_of_child?_tree {new newChild : NodeId} {side : Side}
    (h : (d.tree root).child? new side = some newChild) :
    ∃ old child, d.Reachable root old ∧ renumber (d.order root) old = new ∧
      d.arena.child? old side = some child ∧ renumber (d.order root) child = newChild := by
  rw [child?_tree hsize, Option.bind_eq_some_iff] at h
  obtain ⟨old, hold, h⟩ := h
  obtain ⟨child, hchild, hnew⟩ := Option.map_eq_some_iff.1 h
  exact ⟨old, child, (mem_order_iff hsize).1 (List.mem_of_getElem? hold),
    renumber_of_getElem? (length_order_le hsize) (nodup_order hsize) hold, hchild, hnew⟩

theorem reachable_child {old child : NodeId} {side : Side} (hold : d.Reachable root old)
    (hchild : d.arena.child? old side = some child) (hnames : d.Names child) :
    d.Reachable root child := by
  rw [← mem_order_iff hsize] at hold ⊢
  exact (visits_order hsize).closed hold hchild hnames List.not_mem_nil

/-- The root of the arena is the root of the draft, if that names a node. -/
theorem renumber_root (hroot : d.Names root) : renumber (d.order root) root = Tree.root :=
  renumber_of_getElem? (length_order_le hsize) (nodup_order hsize)
    ((visits_order hsize).head?_eq hroot)

theorem renumber_lt_size {old : NodeId} (hold : d.Reachable root old) :
    (renumber (d.order root) old).toNat < (d.tree root).size := by
  rw [size_tree hsize]
  exact (List.getElem?_eq_some_iff.1 (getElem?_order hsize hold)).1

/-- Only a node that is reached has a number. -/
theorem reachable_of_lt {old : NodeId}
    (h : (renumber (d.order root) old).toNat < (d.tree root).size) : d.Reachable root old := by
  rw [size_tree hsize] at h
  by_contra hold
  have hnone := @getElem?_renumber (d.order root) (length_order_le hsize) old
  rw [if_neg (fun hmem => hold ((mem_order_iff hsize).1 hmem)), List.getElem?_eq_getElem h] at hnone
  cases hnone

/-! ## Trees -/

theorem names_root_of_size_pos (h : 0 < (d.tree root).size) : d.Names root := by
  rw [size_tree hsize] at h
  obtain ⟨hnames, steps, hdown⟩ := (mem_order_iff hsize).1 (List.getElem_mem h)
  exact names_of_descends hdown hnames

theorem isTree_of_isRooted (h : (d.tree root).IsRooted) : d.IsTree root := by
  have hroot := names_root_of_size_pos hsize h.nonempty
  have hreachable : ∀ {id side child}, d.Reachable root id → d.arena.child? id side = some child →
      d.Reachable root child := fun hid hchild =>
    reachable_of_lt hsize (h.named _ _ _ (child?_renumber hsize hid hchild))
  have hnotRoot : ∀ id side, d.Reachable root id → d.arena.child? id side ≠ some root := by
    intro id side hid hchild
    refine h.root_free (renumber (d.order root) id) side ?_
    rw [child?_renumber hsize hid hchild, renumber_root hsize hroot]
  refine ⟨hroot, fun id side child hid hchild => (hreachable hid hchild).names, ?_, hnotRoot⟩
  intro id side id' side' child hid hid' hchild hchild'
  -- The arena has one edge into a node, and it is the image of both.
  have himage := child?_renumber hsize hid hchild
  have hparent := h.one_parent _ (h.named _ _ _ himage) (h.ne_root himage)
  have heq : (renumber (d.order root) id, side) = (renumber (d.order root) id', side') :=
    hparent.unique himage (child?_renumber hsize hid' hchild')
  rw [Prod.mk.injEq] at heq
  exact ⟨renumber_inj (length_order_le hsize) ((mem_order_iff hsize).2 hid)
    ((mem_order_iff hsize).2 hid') heq.1, heq.2⟩

/-- Whatever is reached, the root apart, is the child of something reached. -/
theorem exists_parent {id last : NodeId} {steps : Nat} (h : d.arena.Descends id steps last)
    (hid : d.Reachable root id) (hlast : d.Names last) :
    last = id ∨
      ∃ parent side, d.Reachable root parent ∧ d.arena.child? parent side = some last := by
  induction h with
  | here => exact Or.inl rfl
  | @down id child last side n hchild hrest ih =>
    have hreached := reachable_child hsize hid hchild (names_of_descends hrest hlast)
    rcases ih hreached hlast with rfl | hparent
    · exact Or.inr ⟨id, side, hid, hchild⟩
    · exact Or.inr hparent

/-- The way down to a node leads to its copy in the arena. -/
theorem descends_tree {id last : NodeId} {steps : Nat} (h : d.arena.Descends id steps last)
    (hid : d.Reachable root id) (hlast : d.Names last) :
    (d.tree root).Descends (renumber (d.order root) id) steps (renumber (d.order root) last) := by
  induction h with
  | here => exact .here _
  | down hchild hrest ih =>
    have hreached := reachable_child hsize hid hchild (names_of_descends hrest hlast)
    exact .down (child?_renumber hsize hid hchild) (ih hreached hlast)

theorem isRooted_of_isTree (h : d.IsTree root) : (d.tree root).IsRooted := by
  have hroot : d.Reachable root root := ⟨h.root_names, 0, .here _⟩
  have hstart := renumber_root hsize h.root_names
  -- Every id of the arena is the number of a node that is reached.
  have hnumber : ∀ new : NodeId, new.toNat < (d.tree root).size →
      ∃ old, d.Reachable root old ∧ renumber (d.order root) old = new := by
    intro new hnew
    rw [size_tree hsize] at hnew
    have hget := List.getElem?_eq_getElem hnew
    exact ⟨_, (mem_order_iff hsize).1 (List.mem_of_getElem? hget),
      renumber_of_getElem? (length_order_le hsize) (nodup_order hsize) hget⟩
  refine ⟨?_, ?_, ?_, ?_, ?_⟩
  · exact Nat.zero_lt_of_lt (renumber_lt_size hsize hroot)
  · intro new side newChild hnew
    obtain ⟨old, child, hold, -, hchild, rfl⟩ := exists_of_child?_tree hsize hnew
    exact renumber_lt_size hsize (reachable_child hsize hold hchild (h.names _ _ _ hold hchild))
  · intro new side hnew
    obtain ⟨old, child, hold, -, hchild, hback⟩ := exists_of_child?_tree hsize hnew
    have hreached := reachable_child hsize hold hchild (h.names _ _ _ hold hchild)
    have heq : child = root := renumber_inj (length_order_le hsize)
      ((mem_order_iff hsize).2 hreached) ((mem_order_iff hsize).2 hroot) (hback.trans hstart.symm)
    exact h.root_free old side hold (heq ▸ hchild)
  · intro new hnew hne
    obtain ⟨old, hold, rfl⟩ := hnumber new hnew
    obtain ⟨hnames, steps, hdown⟩ := hold
    rcases exists_parent hsize hdown hroot hnames with rfl | ⟨parent, side, hparent, hchild⟩
    · exact absurd hstart hne
    refine ⟨(renumber (d.order root) parent, side), child?_renumber hsize hparent hchild, ?_⟩
    rintro ⟨new, newSide⟩ hother
    obtain ⟨other, child, hreached, hback, hchild', hsame⟩ := exists_of_child?_tree hsize hother
    have hnamed := reachable_child hsize hreached hchild' (h.names _ _ _ hreached hchild')
    obtain rfl : child = old := renumber_inj (length_order_le hsize)
      ((mem_order_iff hsize).2 hnamed) ((mem_order_iff hsize).2 ⟨hnames, steps, hdown⟩) hsame
    obtain ⟨rfl, rfl⟩ := h.one_edge _ _ _ _ _ hparent hreached hchild hchild'
    exact Prod.ext hback.symm rfl
  · intro new hnew
    obtain ⟨old, ⟨hnames, steps, hdown⟩, rfl⟩ := hnumber new hnew
    refine ⟨steps, ?_⟩
    rw [← hstart]
    exact descends_tree hsize hdown hroot hnames

/-- **The arena is a rooted tree exactly if the draft is a tree from its root.** -/
theorem isRooted_iff_isTree : (d.tree root).IsRooted ↔ d.IsTree root :=
  ⟨isTree_of_isRooted hsize, isRooted_of_isTree hsize⟩

/-! ## Walks -/

/-- A walk from the number of an id goes as one from the id itself, if that is reached or names no
node. -/
theorem walk_renumber (valueOf : FeatureId → UInt32) (fuel : Nat) {id : NodeId}
    (hid : d.Names id → d.Reachable root id) :
    (d.tree root).walk valueOf fuel (renumber (d.order root) id) =
      d.arena.walk valueOf fuel id := by
  induction fuel generalizing id with
  | zero => rfl
  | succ fuel ih =>
    have hnode : d.arena.node? id = d.node? id := rfl
    rw [Tree.walk, Tree.walk, node?_tree hsize, getElem?_renumber (length_order_le hsize), hnode]
    cases hn : d.node? id with
    | none =>
      have hmissing : id ∉ d.order root := by
        intro hmem
        obtain ⟨n, hn'⟩ := ((mem_order_iff hsize).1 hmem).names
        rw [hn] at hn'
        cases hn'
      rw [if_neg hmissing]
      rfl
    | some n =>
      have hreached := hid ⟨n, hn⟩
      rw [if_pos ((mem_order_iff hsize).2 hreached), Option.bind_some, hn]
      cases n with
      | leaf v => rfl
      | split feature threshold left right =>
        obtain ⟨hleft, hright⟩ := Tree.child?_split (t := d.arena) hn
        simp only [Option.map_some, renumberNode]
        by_cases hside : goesLeft (valueOf feature) threshold
        · simp only [hside, if_true]
          exact ih (reachable_child hsize hreached hleft)
        · simp only [hside, Bool.false_eq_true, if_false]
          exact ih (reachable_child hsize hreached hright)

/-- **A walk goes the same way in the arena as in the draft.** -/
theorem walk_tree (valueOf : FeatureId → UInt32) (fuel : Nat) (hroot : d.Names root) :
    (d.tree root).walk valueOf fuel Tree.root = d.arena.walk valueOf fuel root := by
  rw [← renumber_root hsize hroot]
  exact walk_renumber hsize valueOf fuel fun _ => ⟨hroot, 0, .here _⟩

end Arena

/-! ## Main result -/

/-- **An arena keeps the graph of its draft**, whatever that is: ids may name no node, nodes may be
shared, and children may lead back. The search for the nodes ends, and finds those that are reached
from the root, each once and in preorder; the arena has a copy of each, in this order. It passes the
check exactly if the draft is a tree from its root. Then every input gets the verdict of the leaf to
which it comes in the draft. -/
theorem tree_of_draft (d : Draft) (root : NodeId) (hsize : d.nodes.size < 4294967295) :
    (∃ order,
      (∀ n, 2 * d.nodes.size + 1 ≤ n →
        ∃ left, rounds d.numberRound n ⟨[root], d.ids, []⟩ = .ok ⟨[], left, order⟩) ∧
      (∀ other, d.Visits [] root other ↔ other = order) ∧ order.Nodup ∧
      (∀ id, id ∈ order ↔ d.Reachable root id) ∧
      List.Forall₂ (fun id n => ∃ m, d.node? id = some m ∧ Copies order m n) order
        (d.tree root).nodes.toList) ∧
    ((∃ s, (d.tree root).shape = .ok s) ↔ d.IsTree root) ∧
    (d.IsTree root → ∀ valueOf, ∃ leaf v, d.arena.Reaches valueOf root leaf ∧
      d.node? leaf = some (.leaf v) ∧ (d.tree root).verdict? valueOf = some v) := by
  have hvisits := @visits_order d root hsize
  have hlength := @length_order_le d root hsize
  have hids : d.ids.length = d.nodes.size := Tree.length_ids d.arena
  have htree : (d.tree root).size ≤ 4294967295 := by rwa [size_tree hsize]
  have hshape : (∃ s, (d.tree root).shape = .ok s) ↔ d.IsTree root :=
    (Tree.shape_ok_iff_isRooted (by omega)).1.trans (isRooted_iff_isTree hsize)
  refine ⟨⟨d.order root, fun n hn => ?_, fun other => ?_, hvisits.nodup, fun id => hvisits.mem_iff,
    ?_⟩, hshape, fun h valueOf => ?_⟩
  · exact rounds_numberRound d [root] d.ids [] (by rw [hids]; exact hn)
  · exact ⟨fun hother => hother.unique hvisits, fun heq => heq ▸ hvisits⟩
  · refine (nodes_tree hsize).imp ?_
    rintro id n ⟨m, hm, rfl⟩
    exact ⟨m, hm, copies_renumberNode hlength m⟩
  · obtain ⟨s, hs⟩ := hshape.2 h
    obtain ⟨b, hb, -⟩ := Tree.exists_spans hs
    have hverdict := hb.verdict?_eq valueOf
    have hwalk := hverdict
    rw [Tree.verdict?, walk_tree hsize valueOf _ h.root_names] at hwalk
    obtain ⟨leaf, hreaches, hleaf⟩ := Tree.exists_reaches_of_walk hwalk
    exact ⟨leaf, _, hreaches, hleaf, hverdict⟩

/-- Node 2 is a tree of its own, and node 0 shares one of its leaves; node 4 has a child that is not
there. -/
def tangled : Draft :=
  ⟨#[.split 0 10 2 1, .leaf .attack, .split 1 5 3 1, .leaf .normal, .split 0 7 3 42]⟩

theorem tangled_tree_of_draft :
    tangled.nodes.size < 4294967295 ∧ (∃ s, (tangled.tree 2).shape = .ok s) ∧ tangled.IsTree 2 ∧
      (∃ leaf v, tangled.arena.Reaches (fun _ => 5) 2 leaf ∧ tangled.node? leaf = some (.leaf v) ∧
        (tangled.tree 2).verdict? (fun _ => 5) = some v) ∧
      ¬ tangled.IsTree 0 ∧ ¬ tangled.IsTree 4 ∧ ¬ tangled.IsTree 9 := by
  have hsize : tangled.nodes.size < 4294967295 := by decide
  have htree : ∀ {root order left}, rounds tangled.numberRound 11 ⟨[root], tangled.ids, []⟩ =
      .ok ⟨[], left, order⟩ → tangled.tree root =
        ⟨((order.filterMap tangled.node?).map (renumberNode order)).toArray⟩ := by
    intro root order left hrounds
    obtain rfl := order_eq_of_rounds (by decide) hrounds
    rfl
  have hfails : ∀ root, (tangled.tree root).shape.toBool = false → ¬ tangled.IsTree root := by
    intro root hfault hrooted
    obtain ⟨s, hs⟩ := (tree_of_draft tangled root hsize).2.1.2 hrooted
    rw [hs] at hfault
    cases hfault
  obtain ⟨-, hiff, hverdicts⟩ := tree_of_draft tangled 2 hsize
  have hshape : ∃ s, (tangled.tree 2).shape = .ok s :=
    exists_ok_of_toBool (by rw [@htree 2 [2, 3, 1] [0, 4] rfl]; decide +kernel)
  have hrooted := hiff.1 hshape
  refine ⟨hsize, hshape, hrooted, hverdicts hrooted _, hfails 0 ?_, hfails 4 ?_, hfails 9 ?_⟩
  · rw [@htree 0 [0, 2, 3, 1] [4] rfl]
    decide +kernel
  · rw [@htree 4 [4, 3] [0, 1, 2] rfl]
    decide +kernel
  · rw [@htree 9 [] [0, 1, 2, 3, 4] rfl]
    decide +kernel

end Draft

end MatchTree
