import MatchTree.Proofs.Boxes
import MatchTree.Proofs.Traps

/-!
# Cutting domains and listing routes, each operation checked

* `distribute` — items are added to what their features have so far, each at the position of its
  feature.
* `Axis.guardedCut`, `Axis.guardedOfSplits`, `Grid.guardedOfTree` — the thresholds are collected per
  feature and cast to 32 bits, and a band starts one past the end of the band before it.
* `Route.guardedOfLeaf`, `Tree.guardedRoutes` — the constraints narrow the intervals at the
  positions of their features.

Principal results: `distribute_eq` — every position is there, and each feature has its own items in
their order; `guardedCut_eq` — no edge but the greatest value of the domain lacks a successor;
`guardedOfTree_eq`, `guardedRoutes_eq` — checking the operations changes nothing.
-/

namespace MatchTree

open Guarded

/-! ## Items at the positions of their features -/

section Distribution

variable {ι σ : Type} {schema : Schema} {featureOf : ι → FeatureId} {faultOf : ι → Fault}
  {step : σ → ι → σ}

/-- Adds each item to what its feature has so far. The first item of an undeclared feature is a
fault. -/
def distribute (schema : Schema) (featureOf : ι → FeatureId) (faultOf : ι → Fault)
    (step : σ → ι → σ) (shares : List σ) (items : List ι) : Guarded (List σ) :=
  items.foldlM (fun shares item =>
    match schema.indexOf? (featureOf item) with
    | none => .error (.fault (faultOf item))
    | some index => update shares index fun share => step share item) shares

/-- **The position of a feature is there**, and only the share of that feature changes. -/
theorem update_shares {id : FeatureId} {index : Nat} (h : schema.indexOf? id = some index)
    (shares : Feature → σ) (g : σ → σ) :
    update (schema.features.map shares) index g =
      .ok (schema.features.map fun f => if id == f.id then g (shares f) else shares f) := by
  obtain ⟨hindex, hid, -⟩ := List.findIdx?_eq_some_iff_getElem.1 h
  rw [update_eq_ok (by rw [List.length_map]; exact hindex)]
  congr 1
  refine List.ext_getElem (by simp) fun i hi _ => ?_
  have hi : i < schema.features.length := by simpa using hi
  rw [List.getElem_modify, List.getElem_map, List.getElem_map]
  by_cases heq : index = i
  · subst heq
    rw [if_pos rfl, if_pos (by rw [BEq.comm]; exact hid)]
  · have hne : id ≠ schema.features[i].id := by
      rintro rfl
      rw [schema.indexOf?_getElem hi] at h
      exact heq (Option.some.inj h).symm
    rw [if_neg heq, if_neg (by rwa [beq_iff_eq])]

/-- **Each feature ends with its own items in their order.** -/
theorem distribute_eq (shares : Feature → σ) (items : List ι) :
    distribute schema featureOf faultOf step (schema.features.map shares) items =
      match items.find? fun item => (schema.indexOf? (featureOf item)).isNone with
      | some item => .error (.fault (faultOf item))
      | none => .ok (schema.features.map fun f =>
          (items.filter fun item => featureOf item == f.id).foldl step (shares f)) := by
  induction items generalizing shares with
  | nil => rfl
  | cons item items ih =>
    rw [distribute, List.foldlM_cons, List.find?_cons]
    cases hindex : schema.indexOf? (featureOf item) with
    | none => rfl
    | some index =>
      dsimp only [Option.isNone_some]
      rw [update_shares hindex]
      refine (ih _).trans ?_
      cases items.find? fun item => (schema.indexOf? (featureOf item)).isNone with
      | some item => rfl
      | none =>
        dsimp only
        congr 2
        funext f
        rw [List.filter_cons]
        split
        · rfl
        · rfl

end Distribution

/-! ## Domains -/

namespace Axis

/-- The bands from `lower` up to `greatest`. -/
def guardedCut (greatest lower : UInt32) (index : Nat) : List UInt32 → Guarded (List Band)
  | [] => .ok [⟨lower, greatest, UInt16.ofNat index⟩]
  | edge :: edges =>
    if edge = greatest then .ok [⟨lower, edge, UInt16.ofNat index⟩]
    else do
      let next ← wordAfter edge
      let bands ← guardedCut greatest next (index + 1) edges
      return ⟨lower, edge, UInt16.ofNat index⟩ :: bands

/-- **No edge but the greatest value of the domain lacks a successor.** -/
theorem guardedCut_eq {greatest lower : UInt32} {edges : List UInt32}
    (h : Edges lower greatest edges) (index : Nat) :
    guardedCut greatest lower index edges = .ok (cut greatest lower index edges) := by
  induction edges generalizing lower index with
  | nil => rfl
  | cons edge edges ih =>
    rw [guardedCut, cut]
    by_cases heq : edge = greatest
    · rw [if_pos heq, if_pos heq]
    · obtain ⟨hlt, -, htail⟩ := h.tail heq
      rw [if_neg heq, if_neg heq, wordAfter_eq_ok (UInt32.lt_iff_toNat_lt.2 hlt)]
      show (guardedCut greatest (edge + 1) (index + 1) edges >>= fun bands => _) = _
      rw [ih htail]
      rfl

/-- Past the domain an edge may lack one. -/
example : guardedCut 7 0 0 [4294967295] = .error (.trap .overflow) := by rfl

/-- The axis of a feature for the splits on it. -/
def guardedOfSplits (f : Feature) (splits : List Tree.Split) (maxBands : UInt64) : Guarded Axis :=
  match splits.find? fun s => !f.contains s.threshold with
  | some s => .error (.fault (.cut f.id (.outsideDomain s.node s.threshold f.least f.greatest)))
  | none => do
    let thresholds ← splits.mapM fun s => word s.threshold
    let bands ← guardedCut f.greatest f.least 0 (thresholds.foldr insertEdge [])
    if maxBands.toNat < bands.length then
      .error (.fault (.cut f.id (.tooManyBands bands.length maxBands)))
    else return ⟨f.id, bands.toArray⟩

/-- **A threshold of the domain fits 32 bits.** -/
theorem word_threshold {f : Feature} {threshold : Int64} (h : f.contains threshold = true) :
    word threshold = .ok (UInt32.ofNat threshold.toInt.toNat) := by
  obtain ⟨hleast, hgreatest⟩ := Feature.contains_threshold_iff.1 h
  have hbound := f.greatest.toNat_lt
  apply word_eq_ok
  · omega
  · show threshold.toInt < (2 ^ 32 : Nat)
    omega

theorem guardedOfSplits_eq (f : Feature) (splits : List Tree.Split) (maxBands : UInt64) :
    guardedOfSplits f splits maxBands = (ofSplits f splits maxBands).mapError .fault := by
  unfold guardedOfSplits ofSplits
  cases hfind : splits.find? fun s => !f.contains s.threshold with
  | some s => rfl
  | none =>
    have hinside : ∀ s ∈ splits, f.contains s.threshold = true := by
      simpa using List.find?_eq_none.1 hfind
    have hwords := mapM_eq_ok_map fun s hs => word_threshold (hinside s hs)
    have hedges : (splits.map fun s => UInt32.ofNat s.threshold.toInt.toNat).foldr insertEdge [] =
        edgesOf splits := by
      rw [edgesOf, List.foldr_map]
    rw [hwords]
    show (guardedCut _ _ 0 (List.foldr insertEdge [] _) >>= fun bands => _) = _
    rw [hedges, guardedCut_eq (edges_edgesOf hinside)]
    show (if maxBands.toNat < (cut f.greatest f.least 0 (edgesOf splits)).length then _ else _) = _
    have hsize : (ofEdges f (edgesOf splits)).size =
        (cut f.greatest f.least 0 (edgesOf splits)).length := List.size_toArray
    dsimp only
    rw [hsize]
    split
    · rfl
    · rfl

end Axis

namespace Grid

/-- The grid of a tree. -/
def guardedOfTree (t : Tree) (schema : Schema) (maxBands : UInt64) : Guarded Grid := do
  let used ← distribute schema (fun s : Tree.Split => s.feature)
    (fun s => .undeclaredFeature s.feature s.node) (fun used s => used ++ [s])
    (schema.features.map fun _ => []) t.splits
  let axes ← (schema.features.zip used).mapM fun x => Axis.guardedOfSplits x.1 x.2 maxBands
  return ⟨axes⟩

/-- **Cutting the domains, no cast loses anything and no successor overflows.** -/
theorem guardedOfTree_eq (t : Tree) (schema : Schema) (maxBands : UInt64) :
    guardedOfTree t schema maxBands = (ofTree t schema maxBands).mapError .fault := by
  unfold guardedOfTree ofTree
  rw [distribute_eq]
  dsimp only
  cases t.splits.find? fun s => (schema.indexOf? s.feature).isNone with
  | some s => rfl
  | none =>
    have hown : ∀ splits : List Tree.Split,
        splits.foldl (fun used s => used ++ [s]) [] = splits := by
      intro splits
      rw [List.foldl_append_eq_append, List.nil_append, ← List.flatMap_def, List.flatMap_singleton']
    have haxes : (schema.features.zip
          (schema.features.map fun f => t.splits.filter fun s => s.feature == f.id)).mapM
          (fun x => Axis.guardedOfSplits x.1 x.2 maxBands) =
        (schema.features.mapM fun f =>
          Axis.ofSplits f (t.splits.filter fun s => s.feature == f.id) maxBands).mapError
          .fault := by
      rw [← List.map_prod_left_eq_zip, List.mapM_map]
      exact mapM_mapError fun f _ => Axis.guardedOfSplits_eq _ _ _
    simp only [hown]
    exact bind_mapError haxes fun axes _ => rfl

end Grid

/-! ## Routes -/

namespace Route

/-- The route to a leaf. -/
def guardedOfLeaf (schema : Schema) (leaf : NodeId) (v : Verdict) (constraints : List Constraint) :
    Guarded Route := do
  let intervals ← distribute schema (fun c : Constraint => c.feature)
    (fun c => .undeclaredFeature c.feature leaf) (fun i c => i.narrow c.side c.threshold)
    (schema.features.map Feature.domain) constraints
  return {
    leaf := leaf
    verdict := v
    constraints := constraints
    intervals := intervals
    tested := (schema.features.zipIdx.filter fun (f, _) =>
      constraints.any fun c => c.feature == f.id).map (·.2) }

theorem guardedOfLeaf_eq (schema : Schema) (leaf : NodeId) (v : Verdict)
    (constraints : List Constraint) :
    guardedOfLeaf schema leaf v constraints =
      (ofLeaf schema leaf v constraints).mapError .fault := by
  unfold guardedOfLeaf ofLeaf
  rw [distribute_eq]
  cases constraints.find? fun c => (schema.indexOf? c.feature).isNone with
  | some c => rfl
  | none => rfl

end Route

namespace Tree

/-- The routes below a node that is reached under the given constraints. -/
def guardedRoutesBelow (t : Tree) (schema : Schema) :
    Nat → NodeId → List Constraint → Guarded (List Route)
  | 0, id, _ => .error (.fault (.malformedTree id .endless))
  | fuel + 1, id, constraints =>
    match t.node? id with
    | none => .error (.fault (.malformedTree id .dangling))
    | some (.leaf v) => do return [← Route.guardedOfLeaf schema id v constraints]
    | some (.split feature threshold left right) => do
      let onLeft ←
        t.guardedRoutesBelow schema fuel left (constraints ++ [⟨feature, .atMost, threshold⟩])
      let onRight ←
        t.guardedRoutesBelow schema fuel right (constraints ++ [⟨feature, .above, threshold⟩])
      return onLeft ++ onRight

/-- The routes to all leaves, from left to right. -/
def guardedRoutes (t : Tree) (schema : Schema) : Guarded (List Route) :=
  t.guardedRoutesBelow schema (t.size + 1) root []

theorem guardedRoutesBelow_eq (t : Tree) (schema : Schema) (fuel : Nat) (id : NodeId)
    (constraints : List Constraint) :
    t.guardedRoutesBelow schema fuel id constraints =
      (t.routesBelow schema fuel id constraints).mapError .fault := by
  induction fuel generalizing id constraints with
  | zero => rfl
  | succ fuel ih =>
    rw [guardedRoutesBelow, routesBelow]
    cases t.node? id with
    | none => rfl
    | some node =>
      cases node with
      | leaf v => exact bind_mapError (Route.guardedOfLeaf_eq _ _ _ _) fun r _ => rfl
      | split feature threshold left right =>
        exact bind_mapError (ih _ _) fun _ _ => bind_mapError (ih _ _) fun _ _ => rfl

/-- **Listing the routes, every position is in bounds.** -/
theorem guardedRoutes_eq (t : Tree) (schema : Schema) :
    t.guardedRoutes schema = (t.routes schema).mapError .fault :=
  guardedRoutesBelow_eq t schema _ _ _

end Tree

end MatchTree
