import MatchTree.Proofs.RootedTree
import MatchTree.Tree.Draft

/-!
# The order in which a draft is numbered

The nodes of a draft may be any graph: an id may name no node, and a node may be shared, or lead
back to where one came from.

* `Draft.arena` — the nodes of a draft as an arena.
* `Draft.Reachable` — the nodes to which one comes from a root by going from child to child.
* `Draft.Visits` — preorder on such a graph: the node, then what its left child leads to, then what
  its right child leads to; whatever has been seen is left out.
* `Numbering`, `Draft.numberRound` — the search for this order with a stack, round by round.

Principal results: `Visits.unique` — a root has one preorder; `visits_preorder` — it is the one that
the search with a stack finds; `Visits.mem_iff` — it lists the reachable nodes, by `Visits.nodup`
each once; `rounds_numberRound` — the search is over after at most two rounds for each node and one
more.
-/

namespace MatchTree

namespace Draft

/-- The nodes of a draft as an arena, with no root among them. -/
def arena (d : Draft) : Tree := ⟨d.nodes⟩

/-- There is a node of that id. -/
def Names (d : Draft) (id : NodeId) : Prop := ∃ n, d.node? id = some n

/-- Going from child to child one comes from the root to the node. -/
structure Reachable (d : Draft) (root id : NodeId) : Prop where
  names : d.Names id
  descends : ∃ steps, d.arena.Descends root steps id

/-- What there is to visit from an id, besides what has been seen: the node itself, then all that
its left child leads to, then the rest of what its right child leads to. -/
inductive Visits (d : Draft) : (seen : List NodeId) → (id : NodeId) → (order : List NodeId) → Prop
  | seen {seen : List NodeId} {id : NodeId} (hseen : id ∈ seen) : d.Visits seen id []
  | missing {seen : List NodeId} {id : NodeId} (hnode : d.node? id = none) : d.Visits seen id []
  | leaf {seen : List NodeId} {id : NodeId} {v : Verdict} (hnew : id ∉ seen)
      (hnode : d.node? id = some (.leaf v)) : d.Visits seen id [id]
  | split {seen onLeft onRight : List NodeId} {id left right : NodeId} {feature : FeatureId}
      {threshold : Int64} (hnew : id ∉ seen)
      (hnode : d.node? id = some (.split feature threshold left right))
      (hleft : d.Visits (id :: seen) left onLeft)
      (hright : d.Visits (id :: (onLeft ++ seen)) right onRight) :
      d.Visits seen id (id :: (onLeft ++ onRight))

variable {d : Draft} {seen order : List NodeId} {root id : NodeId}

theorem names_iff_mem_ids : d.Names id ↔ id ∈ d.ids :=
  ⟨fun ⟨_, hn⟩ => Tree.mem_ids_of_node? (t := d.arena) hn,
    fun h => Tree.exists_node_of_mem_ids (t := d.arena) h⟩

/-- A child that leads to a node is a node itself. -/
theorem names_of_descends {steps : Nat} {last : NodeId} (h : d.arena.Descends id steps last)
    (hlast : d.Names last) : d.Names id := by
  cases h with
  | here => exact hlast
  | down hchild => exact names_iff_mem_ids.2 (Tree.mem_ids_of_child? hchild)

/-! ## What a preorder lists -/

namespace Visits

theorem not_mem_seen (h : d.Visits seen id order) {x : NodeId} (hx : x ∈ order) : x ∉ seen := by
  induction h with
  | seen => cases hx
  | missing => cases hx
  | leaf hnew => exact List.mem_singleton.1 hx ▸ hnew
  | split hnew _ _ _ ihl ihr =>
    rcases List.mem_cons.1 hx with rfl | hx
    · exact hnew
    rcases List.mem_append.1 hx with hx | hx
    · exact fun hseen => ihl hx (List.mem_cons_of_mem _ hseen)
    · exact fun hseen => ihr hx (List.mem_cons_of_mem _ (List.mem_append_right _ hseen))

/-- **No node is listed twice.** -/
theorem nodup (h : d.Visits seen id order) : order.Nodup := by
  induction h with
  | seen => exact List.nodup_nil
  | missing => exact List.nodup_nil
  | leaf => exact List.nodup_singleton _
  | split _ _ hleft hright ihl ihr =>
    rw [List.nodup_cons, List.mem_append, List.nodup_append]
    refine ⟨?_, ihl, ihr, ?_⟩
    · rintro (hid | hid)
      · exact hleft.not_mem_seen hid List.mem_cons_self
      · exact hright.not_mem_seen hid List.mem_cons_self
    · rintro x hx y hy rfl
      exact hright.not_mem_seen hy (List.mem_cons_of_mem _ (List.mem_append_left _ hx))

/-- A node that is not seen before is listed. -/
theorem mem_of_not_mem (h : d.Visits seen id order) (hid : d.Names id) (hnew : id ∉ seen) :
    id ∈ order := by
  cases h with
  | seen hseen => exact absurd hseen hnew
  | missing hnode =>
    obtain ⟨n, hn⟩ := hid
    rw [hnode] at hn
    cases hn
  | leaf => exact List.mem_cons_self
  | split => exact List.mem_cons_self

/-- What is listed is reached. -/
theorem reachable (h : d.Visits seen id order) {x : NodeId} (hx : x ∈ order) :
    d.Reachable id x := by
  induction h with
  | seen => cases hx
  | missing => cases hx
  | leaf _ hnode =>
    obtain rfl := List.mem_singleton.1 hx
    exact ⟨⟨_, hnode⟩, 0, .here _⟩
  | split _ hnode _ _ ihl ihr =>
    obtain ⟨hleft, hright⟩ := Tree.child?_split (t := d.arena) hnode
    rcases List.mem_cons.1 hx with rfl | hx
    · exact ⟨⟨_, hnode⟩, 0, .here _⟩
    rcases List.mem_append.1 hx with hx | hx
    · obtain ⟨hnames, steps, hdown⟩ := ihl hx
      exact ⟨hnames, steps + 1, .down hleft hdown⟩
    · obtain ⟨hnames, steps, hdown⟩ := ihr hx
      exact ⟨hnames, steps + 1, .down hright hdown⟩

/-- The children of what is listed are listed too, or seen before. -/
theorem closed (h : d.Visits seen id order) {x child : NodeId} {side : Side} (hx : x ∈ order)
    (hchild : d.arena.child? x side = some child) (hnames : d.Names child) (hnew : child ∉ seen) :
    child ∈ order := by
  induction h with
  | seen => cases hx
  | missing => cases hx
  | leaf _ hnode =>
    obtain rfl := List.mem_singleton.1 hx
    rw [Tree.child?_leaf (t := d.arena) hnode] at hchild
    cases hchild
  | @split seen onLeft onRight id left right feature threshold _ hnode hleft hright ihl ihr =>
    by_cases hid : child = id
    · exact hid ▸ List.mem_cons_self
    refine List.mem_cons_of_mem _ (List.mem_append.2 ?_)
    by_cases hmem : child ∈ onLeft
    · exact Or.inl hmem
    -- The child is seen by neither of the two visits, unless it is listed by the second one.
    have hnewLeft : child ∉ id :: seen := by
      rw [List.mem_cons, not_or]
      exact ⟨hid, hnew⟩
    have hnewRight : child ∉ id :: (onLeft ++ seen) := by
      rw [List.mem_cons, List.mem_append, not_or, not_or]
      exact ⟨hid, hmem, hnew⟩
    rcases List.mem_cons.1 hx with rfl | hx
    · obtain ⟨hl, hr⟩ := Tree.child?_split (t := d.arena) hnode
      cases side with
      | atMost =>
        obtain rfl := Option.some.inj (hl.symm.trans hchild)
        exact Or.inl (hleft.mem_of_not_mem hnames hnewLeft)
      | above =>
        obtain rfl := Option.some.inj (hr.symm.trans hchild)
        exact Or.inr (hright.mem_of_not_mem hnames hnewRight)
    · rcases List.mem_append.1 hx with hx | hx
      · exact Or.inl (ihl hx hnewLeft)
      · exact Or.inr (ihr hx hnewRight)

/-- **A preorder that has seen nothing before lists the reachable nodes.** -/
theorem mem_iff (h : d.Visits [] root order) : id ∈ order ↔ d.Reachable root id := by
  refine ⟨h.reachable, fun ⟨hnames, steps, hdown⟩ => ?_⟩
  have hfollow : ∀ {x last : NodeId} {steps : Nat}, d.arena.Descends x steps last → d.Names last →
      x ∈ order → last ∈ order := by
    intro x last steps hdown hlast hx
    induction hdown with
    | here => exact hx
    | down hchild hrest ih =>
      exact ih hlast (h.closed hx hchild (names_of_descends hrest hlast) List.not_mem_nil)
  exact hfollow hdown hnames (h.mem_of_not_mem (names_of_descends hdown hnames) List.not_mem_nil)

/-- The root comes first. -/
theorem head?_eq (h : d.Visits [] root order) (hroot : d.Names root) : order[0]? = some root := by
  cases h with
  | seen hseen => cases hseen
  | missing hnode =>
    obtain ⟨n, hn⟩ := hroot
    rw [hnode] at hn
    cases hn
  | leaf => rfl
  | split => rfl

/-- **A root has one preorder.** -/
theorem unique {other : List NodeId} (h : d.Visits seen id order) (h' : d.Visits seen id other) :
    order = other := by
  induction h generalizing other with
  | seen hseen =>
    cases h' with
    | seen => rfl
    | missing => rfl
    | leaf hnew => exact absurd hseen hnew
    | split hnew => exact absurd hseen hnew
  | missing hnode =>
    cases h' with
    | seen => rfl
    | missing => rfl
    | leaf _ hnode' => cases hnode.symm.trans hnode'
    | split _ hnode' => cases hnode.symm.trans hnode'
  | leaf hnew hnode =>
    cases h' with
    | seen hseen => exact absurd hseen hnew
    | missing hnode' => cases hnode.symm.trans hnode'
    | leaf => rfl
    | split _ hnode' => cases hnode.symm.trans hnode'
  | split hnew hnode _ _ ihl ihr =>
    cases h' with
    | seen hseen => exact absurd hseen hnew
    | missing hnode' => cases hnode.symm.trans hnode'
    | leaf _ hnode' => cases hnode.symm.trans hnode'
    | split _ hnode' hleft hright =>
      cases hnode.symm.trans hnode'
      obtain rfl := ihl hleft
      rw [ihr hright]

end Visits

/-! ## The search with a stack -/

/-- The ids that are left are those of the nodes that have not been seen. -/
structure Left (d : Draft) (seen unseen : List NodeId) : Prop where
  nodup : unseen.Nodup
  mem_iff : ∀ x, x ∈ unseen ↔ d.Names x ∧ x ∉ seen

theorem Left.erase {unseen : List NodeId} (h : d.Left seen unseen) (id : NodeId) :
    d.Left (id :: seen) (unseen.erase id) where
  nodup := h.nodup.erase id
  mem_iff x := by
    rw [h.nodup.mem_erase_iff, h.mem_iff, List.mem_cons, not_or]
    exact and_left_comm

/-- **The search visits what is on top of its stack before it goes on with the rest.** -/
theorem exists_visits {unseen : List NodeId} (h : d.Left seen unseen) (id : NodeId)
    (rest : List NodeId) :
    ∃ order left, d.preorder (id :: rest) unseen = order ++ d.preorder rest left ∧
      d.Visits seen id order ∧ d.Left (order ++ seen) left ∧ left.length ≤ unseen.length := by
  induction hlength : unseen.length using Nat.strongRecOn generalizing seen unseen id rest with
  | _ n ih =>
    subst hlength
    rw [preorder]
    split
    · rename_i hmem
      obtain ⟨⟨node, hnode⟩, hnew⟩ := (h.mem_iff id).1 hmem
      have hfewer : (unseen.erase id).length < unseen.length := by
        rw [List.length_erase_of_mem hmem]
        have := List.length_pos_of_mem hmem
        omega
      have hleft := h.erase id
      rw [hnode]
      cases node with
      | leaf v => exact ⟨[id], unseen.erase id, rfl, .leaf hnew hnode, hleft, hfewer.le⟩
      | split feature threshold left right =>
        -- The left child with all below it comes first, and leaves fewer ids to the right one.
        obtain ⟨onLeft, unseenLeft, heqLeft, hvisitsLeft, hl, hlengthLeft⟩ :=
          ih _ hfewer hleft left (right :: rest) rfl
        have hseen : onLeft ++ id :: seen = onLeft ++ [id] ++ seen := by simp
        have hl' : d.Left (id :: (onLeft ++ seen)) unseenLeft :=
          ⟨hl.nodup, fun x => (hl.mem_iff x).trans (by simp [or_left_comm, not_or])⟩
        obtain ⟨onRight, unseenRight, heqRight, hvisitsRight, hr, hlengthRight⟩ :=
          ih _ (Nat.lt_of_le_of_lt hlengthLeft hfewer) hl' right rest rfl
        refine ⟨id :: (onLeft ++ onRight), unseenRight, ?_,
          .split hnew hnode hvisitsLeft hvisitsRight,
          ⟨hr.nodup, fun x => (hr.mem_iff x).trans ?_⟩, by omega⟩
        · dsimp only
          rw [heqLeft, heqRight, List.cons_append, List.append_assoc]
        · simp only [List.mem_append, List.mem_cons, List.cons_append, not_or]
          tauto
    · rename_i hmem
      have hvisits : d.Visits seen id [] := by
        by_cases hseen : id ∈ seen
        · exact .seen hseen
        · refine .missing (Option.eq_none_iff_forall_ne_some.2 fun n hn => ?_)
          exact hmem ((h.mem_iff id).2 ⟨⟨n, hn⟩, hseen⟩)
      exact ⟨[], unseen, rfl, hvisits, h, Nat.le_refl _⟩

/-- **The search with a stack finds the preorder.** -/
theorem visits_preorder (hsize : d.nodes.size ≤ 4294967296) (root : NodeId) :
    d.Visits [] root (d.preorder [root] d.ids) := by
  have hall : d.Left [] d.ids :=
    ⟨Tree.nodup_ids (t := d.arena) hsize, fun x => by simp [names_iff_mem_ids]⟩
  obtain ⟨order, left, heq, hvisits, -⟩ := exists_visits hall root []
  rw [preorder, List.append_nil] at heq
  rw [heq]
  exact hvisits

end Draft

/-- Where the numbering of a draft stands: the ids to be visited, those that have no number yet, and
those that have one. -/
structure Numbering where
  stack : List NodeId
  unseen : List NodeId
  order : List NodeId

namespace Draft

variable {d : Draft}

/-- One round: the top of the stack gets the next number, unless it has one or names no node. -/
def numberRound (d : Draft) : Numbering → Except Fault Numbering
  | ⟨[], unseen, order⟩ => .ok ⟨[], unseen, order⟩
  | ⟨id :: rest, unseen, order⟩ =>
    if id ∈ unseen then
      match d.node? id with
      | some (.split _ _ left right) =>
        .ok ⟨left :: right :: rest, unseen.erase id, order ++ [id]⟩
      | _ => .ok ⟨rest, unseen.erase id, order ++ [id]⟩
    else .ok ⟨rest, unseen, order⟩

/-- **The numbering of any draft ends**: a round that puts two ids onto the stack takes one away
that has no number. -/
theorem rounds_numberRound (d : Draft) (stack unseen order : List NodeId) {n : Nat}
    (hn : 2 * unseen.length + stack.length ≤ n) :
    ∃ left, rounds d.numberRound n ⟨stack, unseen, order⟩ =
      .ok ⟨[], left, order ++ d.preorder stack unseen⟩ := by
  induction stack, unseen using preorder.induct d generalizing order n with
  | case1 unseen =>
    have hdone : d.numberRound ⟨[], unseen, order⟩ = .ok ⟨[], unseen, order⟩ := rfl
    rw [preorder, List.append_nil]
    exact ⟨unseen, rounds_fixed hdone n⟩
  | case2 unseen id rest hmem feature threshold left right hnode ih =>
    have hlength := List.length_erase_of_mem hmem
    have hpos := List.length_pos_of_mem hmem
    simp only [List.length_cons] at hn ih
    obtain ⟨n, rfl⟩ : ∃ k, n = k + 1 := ⟨n - 1, by omega⟩
    obtain ⟨last, hlast⟩ := ih (order ++ [id]) (n := n) (by omega)
    have hround : d.numberRound ⟨id :: rest, unseen, order⟩ =
        .ok ⟨left :: right :: rest, unseen.erase id, order ++ [id]⟩ := by
      rw [numberRound, if_pos hmem, hnode]
    refine ⟨last, ?_⟩
    rw [preorder, dif_pos hmem, hnode, rounds_succ hround, hlast, List.append_assoc]
    rfl
  | case3 unseen id rest hmem hnode ih =>
    have hlength := List.length_erase_of_mem hmem
    have hpos := List.length_pos_of_mem hmem
    simp only [List.length_cons] at hn
    obtain ⟨n, rfl⟩ : ∃ k, n = k + 1 := ⟨n - 1, by omega⟩
    obtain ⟨last, hlast⟩ := ih (order ++ [id]) (n := n) (by omega)
    have hround : d.numberRound ⟨id :: rest, unseen, order⟩ =
        .ok ⟨rest, unseen.erase id, order ++ [id]⟩ := by
      rw [numberRound, if_pos hmem]
      split
      · exact absurd ‹_› (hnode _ _ _ _)
      · rfl
    have hpreorder : d.preorder (id :: rest) unseen = id :: d.preorder rest (unseen.erase id) := by
      rw [preorder, dif_pos hmem]
      split
      · exact absurd ‹_› (hnode _ _ _ _)
      · rfl
    refine ⟨last, ?_⟩
    rw [hpreorder, rounds_succ hround, hlast, List.append_assoc]
    rfl
  | case4 unseen id rest hmem ih =>
    simp only [List.length_cons] at hn
    obtain ⟨n, rfl⟩ : ∃ k, n = k + 1 := ⟨n - 1, by omega⟩
    obtain ⟨last, hlast⟩ := ih order (n := n) (by omega)
    refine ⟨last, ?_⟩
    rw [preorder, dif_neg hmem, rounds_succ (by simp only [numberRound, if_neg hmem]; rfl), hlast]

end Draft

end MatchTree
