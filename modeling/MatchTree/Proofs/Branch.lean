import Mathlib.Data.List.Forall2
import Mathlib.Data.List.Nodup
import MatchTree.Proofs.Outcome
import MatchTree.Route

/-!
# Branches

An arena gives a meaning to an id only through its other nodes. `Branch` is that meaning as data.

* `Branch.LiesIn` — the arena spells out the branch from the branch's root.
* `Branch.reached`, `Branch.verdictOn` — the leaf that an input comes to and its verdict.
* `Branch.ways` — the ways to the leaves, from left to right, each with its constraints.
* `Tree.Reaches` — an input comes to a leaf by following the splits, one after another.

Principal results: `walk_eq_verdictOn` — a walk with enough fuel ends with the branch's verdict;
`reaches_iff` — the walk comes to `Branch.reached` and to no other leaf; `ways_holding` — of all
ways, an input meets the constraints of exactly one, which is the one to the leaf that it reaches.
-/

namespace MatchTree

/-- A tree as data; every node keeps the id that it has in the arena. -/
inductive Branch where
  | leaf (id : NodeId) (verdict : Verdict)
  | split (id : NodeId) (feature : FeatureId) (threshold : Int64) (onLeft onRight : Branch)

/-- A way to a leaf with the constraints on it, from the top down. -/
structure Way where
  leaf : NodeId
  verdict : Verdict
  constraints : List Constraint

/-- An input meets every constraint on the way. -/
def Way.Holds (valueOf : FeatureId → UInt32) (w : Way) : Prop :=
  ∀ c ∈ w.constraints, c.holds (valueOf c.feature) = true

instance (valueOf : FeatureId → UInt32) : DecidablePred (Way.Holds valueOf) :=
  fun w => inferInstanceAs (Decidable (∀ c ∈ w.constraints, c.holds (valueOf c.feature) = true))

/-- The way with one more constraint in front. -/
def Way.behind (c : Constraint) (w : Way) : Way := { w with constraints := c :: w.constraints }

@[simp] theorem Way.leaf_behind (c : Constraint) (w : Way) : (w.behind c).leaf = w.leaf := rfl

@[simp] theorem Way.verdict_behind (c : Constraint) (w : Way) :
    (w.behind c).verdict = w.verdict := rfl

theorem Way.holds_behind {valueOf : FeatureId → UInt32} {c : Constraint} {w : Way} :
    (w.behind c).Holds valueOf ↔ c.holds (valueOf c.feature) = true ∧ w.Holds valueOf := by
  simp [Way.Holds, Way.behind]

namespace Branch

def root : Branch → NodeId
  | leaf id _ => id
  | split id .. => id

/-- The ids below the root, in preorder. -/
def innerIds : Branch → List NodeId
  | leaf .. => []
  | split _ _ _ l r => l.root :: l.innerIds ++ r.root :: r.innerIds

/-- All ids, in preorder. -/
def ids (b : Branch) : List NodeId := b.root :: b.innerIds

/-- The number of splits on the longest way down. -/
def depth : Branch → Nat
  | leaf .. => 0
  | split _ _ _ l r => max l.depth r.depth + 1

def leafCount : Branch → Nat
  | leaf .. => 1
  | split _ _ _ l r => l.leafCount + r.leafCount

def splitCount : Branch → Nat
  | leaf .. => 0
  | split _ _ _ l r => l.splitCount + r.splitCount + 1

/-- The arena spells out the branch from its root. -/
def LiesIn (t : Tree) : Branch → Prop
  | leaf id v => t.node? id = some (.leaf v)
  | split id feature threshold l r =>
    t.node? id = some (.split feature threshold l.root r.root) ∧ l.LiesIn t ∧ r.LiesIn t

/-- The leaf that an input comes to. -/
def reached (valueOf : FeatureId → UInt32) : Branch → NodeId
  | leaf id _ => id
  | split _ feature threshold l r =>
    if goesLeft (valueOf feature) threshold then l.reached valueOf else r.reached valueOf

/-- The verdict of the leaf that an input comes to. -/
def verdictOn (valueOf : FeatureId → UInt32) : Branch → Verdict
  | leaf _ v => v
  | split _ feature threshold l r =>
    if goesLeft (valueOf feature) threshold then l.verdictOn valueOf else r.verdictOn valueOf

/-- The ways to the leaves, the left ones first. -/
def ways : Branch → List Way
  | leaf id v => [⟨id, v, []⟩]
  | split _ feature threshold l r =>
    l.ways.map (Way.behind ⟨feature, .atMost, threshold⟩) ++
      r.ways.map (Way.behind ⟨feature, .above, threshold⟩)

theorem ids_split (id : NodeId) (feature : FeatureId) (threshold : Int64) (l r : Branch) :
    (split id feature threshold l r).ids = id :: (l.ids ++ r.ids) := rfl

theorem mem_ids_split {id : NodeId} {feature : FeatureId} {threshold : Int64} {l r : Branch}
    {x : NodeId} :
    x ∈ (split id feature threshold l r).ids ↔ x = id ∨ x ∈ l.ids ∨ x ∈ r.ids := by
  rw [ids_split, List.mem_cons, List.mem_append]

theorem leafCount_eq_succ (b : Branch) : b.leafCount = b.splitCount + 1 := by
  induction b with
  | leaf => rfl
  | split id feature threshold l r ihl ihr =>
    simp only [leafCount, splitCount]
    omega

theorem depth_lt_length_ids (b : Branch) : b.depth < b.ids.length := by
  induction b with
  | leaf => simp [depth, ids]
  | split id feature threshold l r ihl ihr =>
    simp only [ids, List.length_cons] at ihl ihr
    simp only [depth, ids, innerIds, List.length_cons, List.length_append]
    omega

/-! ## Walks -/

/-- **A walk with enough fuel ends with the branch's verdict.** -/
theorem walk_eq_verdictOn {t : Tree} {valueOf : FeatureId → UInt32} {b : Branch}
    (hb : b.LiesIn t) {fuel : Nat} (hfuel : b.depth < fuel) :
    t.walk valueOf fuel b.root = some (b.verdictOn valueOf) := by
  induction b generalizing fuel with
  | leaf id v =>
    obtain ⟨fuel, rfl⟩ : ∃ n, fuel = n + 1 := ⟨fuel - 1, by omega⟩
    have hnode : t.node? id = some (.leaf v) := hb
    simp only [Tree.walk, root, hnode, verdictOn]
  | split id feature threshold l r ihl ihr =>
    simp only [depth] at hfuel
    obtain ⟨fuel, rfl⟩ : ∃ n, fuel = n + 1 := ⟨fuel - 1, by omega⟩
    obtain ⟨hnode, hl, hr⟩ := hb
    simp only [Tree.walk, root, hnode, verdictOn]
    by_cases hside : goesLeft (valueOf feature) threshold
    · simp only [hside, if_true]
      exact ihl hl (by omega)
    · simp only [hside, Bool.false_eq_true, if_false]
      exact ihr hr (by omega)

end Branch

/-- An input that follows the splits from a node comes to a leaf. -/
inductive Tree.Reaches (t : Tree) (valueOf : FeatureId → UInt32) : NodeId → NodeId → Prop
  | here {id : NodeId} {v : Verdict} (hnode : t.node? id = some (.leaf v)) :
      t.Reaches valueOf id id
  | turn {id leaf left right : NodeId} {feature : FeatureId} {threshold : Int64}
      (hnode : t.node? id = some (.split feature threshold left right))
      (hrest : t.Reaches valueOf (if goesLeft (valueOf feature) threshold then left else right) leaf) :
      t.Reaches valueOf id leaf

theorem Tree.Reaches.unique {t : Tree} {valueOf : FeatureId → UInt32} {id a b : NodeId}
    (ha : t.Reaches valueOf id a) (hb : t.Reaches valueOf id b) : a = b := by
  induction ha with
  | here hnode =>
    cases hb with
    | here => rfl
    | turn hnode' => rw [hnode] at hnode'; cases hnode'
  | turn hnode _ ih =>
    cases hb with
    | here hnode' => rw [hnode] at hnode'; cases hnode'
    | turn hnode' hrest =>
      rw [hnode] at hnode'
      cases hnode'
      exact ih hrest

/-- A walk that gives a verdict has come to a leaf. -/
theorem Tree.exists_reaches_of_walk {t : Tree} {valueOf : FeatureId → UInt32} {fuel : Nat}
    {id : NodeId} {v : Verdict} (h : t.walk valueOf fuel id = some v) :
    ∃ leaf, t.Reaches valueOf id leaf ∧ t.node? leaf = some (.leaf v) := by
  induction fuel generalizing id with
  | zero => cases h
  | succ fuel ih =>
    rw [Tree.walk] at h
    split at h
    · cases h
    · rename_i hnode
      cases h
      exact ⟨id, .here hnode, hnode⟩
    · rename_i hnode
      obtain ⟨leaf, hreaches, hleaf⟩ := ih h
      exact ⟨leaf, .turn hnode hreaches, hleaf⟩

namespace Branch

/-- **An input comes from the root to the leaf that the branch tells, and to no other.** -/
theorem reaches_iff {t : Tree} {valueOf : FeatureId → UInt32} {b : Branch} (hb : b.LiesIn t)
    {leaf : NodeId} : t.Reaches valueOf b.root leaf ↔ leaf = b.reached valueOf := by
  have hreach : t.Reaches valueOf b.root (b.reached valueOf) := by
    induction b with
    | leaf id v => exact .here hb
    | split id feature threshold l r ihl ihr =>
      obtain ⟨hnode, hl, hr⟩ := hb
      refine .turn hnode ?_
      by_cases hside : goesLeft (valueOf feature) threshold
      · simpa only [reached, hside, if_true] using ihl hl
      · simpa only [reached, hside, Bool.false_eq_true, if_false] using ihr hr
  exact ⟨fun h => h.unique hreach, fun h => h ▸ hreach⟩

/-! ## Ways -/

theorem leaf_mem_ids {b : Branch} {w : Way} (hw : w ∈ b.ways) : w.leaf ∈ b.ids := by
  induction b generalizing w with
  | leaf id v =>
    simp only [ways, List.mem_singleton] at hw
    subst hw
    simp [ids, root]
  | split id feature threshold l r ihl ihr =>
    simp only [ways, List.mem_append, List.mem_map] at hw
    rw [mem_ids_split]
    rcases hw with ⟨u, hu, rfl⟩ | ⟨u, hu, rfl⟩
    · rw [Way.leaf_behind]
      exact Or.inr (Or.inl (ihl hu))
    · rw [Way.leaf_behind]
      exact Or.inr (Or.inr (ihr hu))

theorem nodup_leaves {b : Branch} (hb : b.ids.Nodup) : (b.ways.map (·.leaf)).Nodup := by
  induction b with
  | leaf id v => simp [ways]
  | split id feature threshold l r ihl ihr =>
    have hbelow : (l.ids ++ r.ids).Nodup := (List.nodup_cons.1 hb).2
    obtain ⟨hl, hr, hdisjoint⟩ := List.nodup_append.1 hbelow
    simp only [ways, List.map_append, List.map_map, Function.comp_def, Way.leaf_behind]
    refine List.nodup_append.2 ⟨ihl hl, ihr hr, ?_⟩
    intro x hx y hy
    obtain ⟨u, hu, rfl⟩ := List.mem_map.1 hx
    obtain ⟨w, hw, rfl⟩ := List.mem_map.1 hy
    exact hdisjoint _ (leaf_mem_ids hu) _ (leaf_mem_ids hw)

theorem node?_leaf {t : Tree} {b : Branch} (hb : b.LiesIn t) {w : Way} (hw : w ∈ b.ways) :
    t.node? w.leaf = some (.leaf w.verdict) := by
  induction b generalizing w with
  | leaf id v =>
    simp only [ways, List.mem_singleton] at hw
    subst hw
    exact hb
  | split id feature threshold l r ihl ihr =>
    obtain ⟨-, hl, hr⟩ := hb
    simp only [ways, List.mem_append, List.mem_map] at hw
    rcases hw with ⟨u, hu, rfl⟩ | ⟨u, hu, rfl⟩
    · simpa using ihl hl hu
    · simpa using ihr hr hu

/-- Putting a constraint in front keeps the ways that an input takes if it meets the constraint,
and leaves none otherwise. -/
theorem filter_map_behind {valueOf : FeatureId → UInt32} {c : Constraint} (ws : List Way) :
    (ws.map (Way.behind c)).filter (fun w => decide (w.Holds valueOf)) =
      if c.holds (valueOf c.feature) then
        (ws.filter fun w => decide (w.Holds valueOf)).map (Way.behind c)
      else [] := by
  rw [List.filter_map]
  by_cases hc : c.holds (valueOf c.feature) = true
  · rw [if_pos hc]
    congr 1
    refine List.filter_congr fun w _ => ?_
    simp only [Function.comp_apply, Way.holds_behind, hc, true_and]
  · rw [if_neg hc, List.map_eq_nil_iff, List.filter_eq_nil_iff]
    intro w _ hw
    exact hc (Way.holds_behind.1 (of_decide_eq_true hw)).1

/-- **An input takes exactly one way, the one to the leaf that it reaches.** -/
theorem ways_holding (b : Branch) (valueOf : FeatureId → UInt32) :
    ∃ w, b.ways.filter (fun w => decide (w.Holds valueOf)) = [w] ∧
      w.leaf = b.reached valueOf ∧ w.verdict = b.verdictOn valueOf := by
  induction b with
  | leaf id v => exact ⟨⟨id, v, []⟩, by simp [ways, Way.Holds], rfl, rfl⟩
  | split id feature threshold l r ihl ihr =>
    obtain ⟨u, hu, hul, huv⟩ := ihl
    obtain ⟨w, hw, hwl, hwv⟩ := ihr
    simp only [ways, List.filter_append, filter_map_behind, hu, hw, Constraint.holds, reached,
      verdictOn]
    by_cases hside : goesLeft (valueOf feature) threshold
    · simp only [hside, if_true, Bool.not_true]
      exact ⟨u.behind _, rfl, hul, huv⟩
    · simp only [hside, Bool.false_eq_true, if_false, Bool.not_false, if_true]
      exact ⟨w.behind _, rfl, hwl, hwv⟩

end Branch

/-! ## Routes of a branch -/

/-- **The routes below the root of a branch are those of its ways**, each with the constraints
under which the root is reached in front of its own. -/
theorem Tree.routesBelow_ok {t : Tree} {schema : Schema} {b : Branch} (hb : b.LiesIn t)
    {fuel : Nat} {constraints : List Constraint} {routes : List Route}
    (h : t.routesBelow schema fuel b.root constraints = .ok routes) :
    List.Forall₂
      (fun w r => Route.ofLeaf schema w.leaf w.verdict (constraints ++ w.constraints) = .ok r)
      b.ways routes := by
  induction b generalizing fuel constraints routes with
  | leaf id v =>
    have hnode : t.node? id = some (.leaf v) := hb
    cases fuel with
    | zero => simp [Tree.routesBelow] at h
    | succ fuel =>
      simp only [Tree.routesBelow, Branch.root, hnode] at h
      obtain ⟨r, hr, hok⟩ := bind_eq_ok.1 h
      cases hok
      simpa [Branch.ways] using hr
  | split id feature threshold l r ihl ihr =>
    obtain ⟨hnode, hl, hr⟩ := hb
    cases fuel with
    | zero => simp [Tree.routesBelow] at h
    | succ fuel =>
      simp only [Tree.routesBelow, Branch.root, hnode] at h
      obtain ⟨onLeft, hleft, h⟩ := bind_eq_ok.1 h
      obtain ⟨onRight, hright, hok⟩ := bind_eq_ok.1 h
      cases hok
      refine List.rel_append ?_ ?_
      · exact List.forall₂_map_left_iff.2 (by simpa [Way.behind] using ihl hl hleft)
      · exact List.forall₂_map_left_iff.2 (by simpa [Way.behind] using ihr hr hright)

end MatchTree
