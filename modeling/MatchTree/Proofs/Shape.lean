import Mathlib.Data.List.Nodup
import Mathlib.Data.List.Perm.Basic
import MatchTree.Proofs.Branch
import MatchTree.Tree.Shape

/-!
# Arenas that pass the check

* `Branch.Spans` — the arena spells out the branch from node 0, and every node of the arena occurs
  in it exactly once.
* `Shape.addBranch` — a shape after one more branch has been visited.

Principal results: `explore_ok` — what a successful search visits are branches, one for each node on
its stack; `shape_error` — an arena fails the check by a flaw of one of its nodes, never by a
missing one; `exists_spans` — an arena that passes the check is spanned by a branch, and its shape
holds the measures of that branch; `verdict?_eq` and `reaches_root_iff` — on such an arena every
input gets a verdict, the one of the leaf that it reaches.
-/

namespace MatchTree

/-- The shape with the measures of a branch whose root lies at the given depth. -/
def Shape.addBranch (s : Shape) (depth : Nat) (b : Branch) : Shape :=
  ⟨max s.depth (depth + b.depth), s.leaves + b.leafCount, s.splits + b.splitCount⟩

theorem Shape.addBranch_leaf (s : Shape) (depth : Nat) (id : NodeId) (v : Verdict) :
    s.addBranch depth (.leaf id v) =
      { s with leaves := s.leaves + 1, depth := max s.depth depth } := rfl

/-- The measures of a split are those of its two children, one level down, and one split more. -/
theorem Shape.addBranch_split (s : Shape) (depth : Nat) (id : NodeId) (feature : FeatureId)
    (threshold : Int64) (l r : Branch) :
    s.addBranch depth (.split id feature threshold l r) =
      (({ s with splits := s.splits + 1 }).addBranch (depth + 1) l).addBranch (depth + 1) r := by
  simp only [Shape.addBranch, Branch.depth, Branch.leafCount, Branch.splitCount, Shape.mk.injEq]
  omega

namespace Tree

theorem childFlaw?_eq_none {t : Tree} {child : NodeId} (h : t.childFlaw? child = none) :
    child.toNat < t.size ∧ child ≠ root := by
  unfold childFlaw? at h
  split at h
  · cases h
  · split at h
    · cases h
    · exact ⟨by omega, by assumption⟩

theorem childFlaw?_ne {t : Tree} {child : NodeId} {flaw : TreeFlaw}
    (h : t.childFlaw? child = some flaw) : flaw ≠ .dangling ∧ flaw ≠ .endless := by
  unfold childFlaw? at h
  split at h
  · cases h
    simp
  · split at h
    · cases h
      simp
    · cases h

/-- **A successful search visits one branch for each node on its stack.** Below the roots of the
branches there is no node 0; together with what is left, they use up the unseen ids. -/
theorem explore_ok {t : Tree} {stack : List (NodeId × Nat)} {unseen left : List NodeId}
    {shape measured : Shape} (h : t.explore stack unseen shape = .ok (measured, left)) :
    ∃ bs : List Branch,
      List.Forall₂ (fun p b => b.root = p.1 ∧ b.LiesIn t ∧ root ∉ b.innerIds) stack bs ∧
      unseen.Perm (bs.flatMap Branch.ids ++ left) ∧
      measured = (stack.zip bs).foldl (fun s x => s.addBranch x.1.2 x.2) shape := by
  induction stack, unseen, shape using Tree.explore.induct t with
  | case1 unseen shape =>
    rw [explore] at h
    cases h
    exact ⟨[], .nil, by simp, rfl⟩
  | case2 unseen shape id depth rest hmem hnode =>
    rw [explore, dif_pos hmem, hnode] at h
    cases h
  | case3 unseen shape id depth rest hmem v hnode ih =>
    rw [explore, dif_pos hmem, hnode] at h
    obtain ⟨bs, hbs, hperm, hshape⟩ := ih h
    refine ⟨.leaf id v :: bs, .cons ⟨rfl, hnode, by simp [Branch.innerIds]⟩ hbs, ?_, ?_⟩
    · exact (List.perm_cons_erase hmem).trans (hperm.cons id)
    · rw [List.zip_cons_cons, List.foldl_cons, Shape.addBranch_leaf]
      exact hshape
  | case4 unseen shape id depth rest hmem feature threshold l r hnode flaw hflaw =>
    rw [explore, dif_pos hmem, hnode] at h
    simp only [hflaw] at h
    cases h
  | case5 unseen shape id depth rest hmem feature threshold l r hnode hflaw ih =>
    rw [explore, dif_pos hmem, hnode] at h
    simp only [hflaw] at h
    obtain ⟨bs, hbs, hperm, hshape⟩ := ih h
    obtain ⟨bl, ds, ⟨rfl, hl, hlroot⟩, hds, rfl⟩ := List.forall₂_cons_left_iff.1 hbs
    obtain ⟨br, es, ⟨rfl, hr, hrroot⟩, hes, rfl⟩ := List.forall₂_cons_left_iff.1 hds
    rw [Option.orElse_eq_orElse, Option.orElse_eq_or, Option.or_eq_none_iff] at hflaw
    obtain ⟨hrflaw, hlflaw⟩ := hflaw
    refine ⟨.split id feature threshold bl br :: es, .cons ⟨rfl, ⟨hnode, hl, hr⟩, ?_⟩ hes, ?_, ?_⟩
    · have hlne := (childFlaw?_eq_none hlflaw).2
      have hrne := (childFlaw?_eq_none hrflaw).2
      simp only [Branch.innerIds, List.cons_append, List.mem_cons, List.mem_append, not_or]
      exact ⟨hlne.symm, hlroot, hrne.symm, hrroot⟩
    · refine (List.perm_cons_erase hmem).trans ((hperm.cons id).trans (List.Perm.of_eq ?_))
      simp [Branch.ids, Branch.root, Branch.innerIds]
    · rw [List.zip_cons_cons, List.foldl_cons, Shape.addBranch_split]
      exact hshape
  | case6 unseen shape id depth rest hmem =>
    rw [explore, dif_neg hmem] at h
    cases h

/-- A successful search from the root visits one branch; what it leaves unseen is not on it. -/
theorem explore_root_ok {t : Tree} {left : List NodeId} {measured : Shape}
    (h : t.explore [(root, 0)] t.ids ⟨0, 0, 0⟩ = .ok (measured, left)) :
    ∃ b : Branch, b.root = root ∧ b.LiesIn t ∧ root ∉ b.innerIds ∧ t.ids.Perm (b.ids ++ left) ∧
      measured = ⟨b.depth, b.leafCount, b.splitCount⟩ := by
  obtain ⟨bs, hbs, hperm, hmeasured⟩ := explore_ok h
  obtain ⟨b, ds, ⟨hroot, hlies, hinner⟩, hds, rfl⟩ := List.forall₂_cons_left_iff.1 hbs
  cases List.forall₂_nil_left_iff.1 hds
  exact ⟨b, hroot, hlies, hinner, by simpa using hperm, by simpa [Shape.addBranch] using hmeasured⟩

theorem exists_node_of_mem_ids {t : Tree} {id : NodeId} (h : id ∈ t.ids) :
    ∃ n, t.node? id = some n := by
  obtain ⟨i, hi, rfl⟩ := List.mem_map.1 h
  have hlt : (UInt32.ofNat i).toNat < t.nodes.size := by
    rw [UInt32.toNat_ofNat']
    exact Nat.lt_of_le_of_lt (Nat.mod_le _ _) (List.mem_range.1 hi)
  exact ⟨_, Array.getElem?_eq_getElem hlt⟩

/-- A search ends with a flaw of the arena, never with an id that is missing: whatever is unseen is
a node. -/
theorem explore_error {t : Tree} {stack : List (NodeId × Nat)} {unseen : List NodeId}
    {shape : Shape} {fault : Fault} (hunseen : ∀ id ∈ unseen, id ∈ t.ids)
    (h : t.explore stack unseen shape = .error fault) :
    ∃ id flaw, fault = .malformedTree id flaw ∧ flaw ≠ .dangling ∧ flaw ≠ .endless := by
  induction stack, unseen, shape using Tree.explore.induct t with
  | case1 unseen shape =>
    rw [explore] at h
    cases h
  | case2 unseen shape id depth rest hmem hnode =>
    obtain ⟨n, hn⟩ := exists_node_of_mem_ids (hunseen id hmem)
    rw [hnode] at hn
    cases hn
  | case3 unseen shape id depth rest hmem v hnode ih =>
    rw [explore, dif_pos hmem, hnode] at h
    exact ih (fun id hid => hunseen id (List.mem_of_mem_erase hid)) h
  | case4 unseen shape id depth rest hmem feature threshold l r hnode flaw hflaw =>
    rw [explore, dif_pos hmem, hnode] at h
    simp only [hflaw] at h
    cases h
    refine ⟨id, flaw, rfl, ?_⟩
    rw [Option.orElse_eq_orElse, Option.orElse_eq_or, Option.or_eq_some_iff] at hflaw
    rcases hflaw with hflaw | ⟨-, hflaw⟩
    · exact childFlaw?_ne hflaw
    · exact childFlaw?_ne hflaw
  | case5 unseen shape id depth rest hmem feature threshold l r hnode hflaw ih =>
    rw [explore, dif_pos hmem, hnode] at h
    simp only [hflaw] at h
    exact ih (fun id hid => hunseen id (List.mem_of_mem_erase hid)) h
  | case6 unseen shape id depth rest hmem =>
    rw [explore, dif_neg hmem] at h
    cases h
    exact ⟨id, _, rfl, by simp, by simp⟩

/-- An arena that is no tree has a node with a flaw. -/
theorem shape_error {t : Tree} {fault : Fault} (h : t.shape = .error fault) :
    ∃ id flaw, fault = .malformedTree id flaw ∧ flaw ≠ .dangling ∧ flaw ≠ .endless := by
  unfold shape at h
  split at h
  · cases h
    exact ⟨root, _, rfl, by simp, by simp⟩
  · split at h
    · rename_i hexplore
      cases h
      exact explore_error (fun _ hid => hid) hexplore
    · cases h
    · cases h
      exact ⟨_, _, rfl, by simp, by simp⟩

theorem length_ids (t : Tree) : t.ids.length = t.size := by simp [ids]

theorem nodup_ids {t : Tree} (h : t.size ≤ 4294967296) : t.ids.Nodup := by
  refine List.Nodup.map_on ?_ List.nodup_range
  intro i hi j hj hij
  have hi := List.mem_range.1 hi
  have hj := List.mem_range.1 hj
  have := congrArg UInt32.toNat hij
  rw [UInt32.toNat_ofNat', UInt32.toNat_ofNat', Nat.mod_eq_of_lt (by omega),
    Nat.mod_eq_of_lt (by omega)] at this
  exact this

/-- Past the 32-bit ids the root's own id turns up again. -/
theorem size_le_of_perm {t : Tree} {inner : List NodeId} (hinner : root ∉ inner)
    (h : (root :: inner).Perm t.ids) : t.size ≤ 4294967296 := by
  by_contra hsize
  have hlast : t.ids = root :: (List.range (t.size - 1)).map fun i => UInt32.ofNat (i + 1) := by
    obtain ⟨n, hn⟩ : ∃ n, t.size = n + 1 := ⟨t.size - 1, by omega⟩
    rw [ids, hn, List.range_succ_eq_map]
    simp [root, Function.comp_def]
  rw [hlast] at h
  refine hinner ((h.cons_inv.mem_iff).2 (List.mem_map.2 ⟨4294967295, ?_, by decide⟩))
  rw [List.mem_range]
  omega

end Tree

/-- The arena spells out the branch from node 0, and each of its nodes occurs in it once. -/
structure Branch.Spans (b : Branch) (t : Tree) : Prop where
  root_eq : b.root = Tree.root
  lies : b.LiesIn t
  nodup : b.ids.Nodup
  all : b.ids.Perm t.ids

namespace Tree

/-- **An arena that passes the check is spanned by a branch**, whose measures are its shape. -/
theorem exists_spans {t : Tree} {s : Shape} (h : t.shape = .ok s) :
    ∃ b : Branch, b.Spans t ∧ s = ⟨b.depth, b.leafCount, b.splitCount⟩ := by
  unfold shape at h
  split at h
  · cases h
  · split at h
    · cases h
    · rename_i hexplore
      cases h
      obtain ⟨b, hroot, hlies, hinner, hperm, hs⟩ := explore_root_ok hexplore
      have hall : b.ids.Perm t.ids := by simpa using hperm.symm
      have hsize : t.size ≤ 4294967296 := by
        rw [Branch.ids, hroot] at hall
        exact size_le_of_perm hinner hall
      exact ⟨b, ⟨hroot, hlies, hall.nodup_iff.2 (nodup_ids hsize), hall⟩, hs⟩
    · cases h

end Tree

namespace Branch.Spans

variable {b : Branch} {t : Tree}

theorem depth_lt_size (h : b.Spans t) : b.depth < t.size := by
  have hlength := h.all.length_eq
  rw [Tree.length_ids] at hlength
  have := b.depth_lt_length_ids
  omega

/-- Every node of an arena that passes the check has an id of its own. -/
theorem size_le (h : b.Spans t) : t.size ≤ 4294967296 := by
  have hinner := (List.nodup_cons.1 h.nodup).1
  have hall := h.all
  rw [ids, h.root_eq] at hall
  rw [h.root_eq] at hinner
  exact Tree.size_le_of_perm hinner hall

/-- **Every input gets the verdict that the branch tells**; the walk never runs out of nodes. -/
theorem verdict?_eq (h : b.Spans t) (valueOf : FeatureId → UInt32) :
    t.verdict? valueOf = some (b.verdictOn valueOf) := by
  rw [Tree.verdict?, ← h.root_eq]
  exact Branch.walk_eq_verdictOn h.lies h.depth_lt_size

theorem reaches_root_iff (h : b.Spans t) {valueOf : FeatureId → UInt32} {leaf : NodeId} :
    t.Reaches valueOf Tree.root leaf ↔ leaf = b.reached valueOf := by
  rw [← h.root_eq]
  exact Branch.reaches_iff h.lies

end Branch.Spans

end MatchTree
