import MatchTree.Proofs.Route
import MatchTree.Proofs.Shape

/-!
# The routes of an arena that passes the check

* `Tree.LeavesFrom` — the leaves below a node, from left to right.

Principal results: `exists_routes` — an arena that passes the check has routes, if the features that
it tests are declared; `taken_route` — an input of the domains takes exactly one of them, the one to
the leaf that it reaches; `isFeasible_iff` — a route is feasible exactly if some input takes it;
`routes_partition_domain` — all of this in one statement, with the order of the routes and the
length of the longest one.

Thresholds may lie anywhere: outside the domains, and at both ends of the 64-bit integers.
-/

namespace MatchTree

/-- The leaves below a node of the arena, from left to right. -/
inductive Tree.LeavesFrom (t : Tree) : NodeId → List NodeId → Prop
  | leaf {id : NodeId} {v : Verdict} (hnode : t.node? id = some (.leaf v)) :
      t.LeavesFrom id [id]
  | split {id left right : NodeId} {feature : FeatureId} {threshold : Int64}
      {onLeft onRight : List NodeId}
      (hnode : t.node? id = some (.split feature threshold left right))
      (hleft : t.LeavesFrom left onLeft) (hright : t.LeavesFrom right onRight) :
      t.LeavesFrom id (onLeft ++ onRight)

/-! ## Ways of a branch -/

theorem Tree.mem_splits_of_node? {t : Tree} {id left right : NodeId} {feature : FeatureId}
    {threshold : Int64} (h : t.node? id = some (.split feature threshold left right)) :
    ⟨id, feature, threshold⟩ ∈ t.splits := by
  rw [splits, List.mem_filterMap]
  refine ⟨(.split feature threshold left right, id.toNat), ?_, ?_⟩
  · rw [List.mem_zipIdx_iff_getElem?, Array.getElem?_toList]
    exact h
  · simp only [UInt32.ofNat_toNat]

/-- The splits of an arena are its nodes of that kind. -/
theorem Tree.mem_splits_iff {t : Tree} (hsize : t.size ≤ 4294967296) {s : Tree.Split} :
    s ∈ t.splits ↔
      ∃ left right, t.node? s.node = some (.split s.feature s.threshold left right) := by
  constructor
  · intro hs
    obtain ⟨⟨n, i⟩, hmem, heq⟩ := List.mem_filterMap.1 hs
    rw [List.mem_zipIdx_iff_getElem?, Array.getElem?_toList] at hmem
    obtain ⟨hi, -⟩ := Array.getElem?_eq_some_iff.1 hmem
    cases n with
    | leaf v => cases heq
    | split feature threshold left right =>
      cases heq
      refine ⟨left, right, ?_⟩
      have hid : (UInt32.ofNat i).toNat = i := by
        rw [UInt32.toNat_ofNat', Nat.mod_eq_of_lt (Nat.lt_of_lt_of_le hi hsize)]
      rw [node?, hid]
      exact hmem
  · rintro ⟨left, right, hnode⟩
    exact mem_splits_of_node? hnode

theorem Tree.mem_ids_of_node? {t : Tree} {id : NodeId} {n : Node} (h : t.node? id = some n) :
    id ∈ t.ids := by
  obtain ⟨hlt, -⟩ := Array.getElem?_eq_some_iff.1 h
  exact List.mem_map.2 ⟨id.toNat, List.mem_range.2 hlt, UInt32.ofNat_toNat⟩

namespace Branch

variable {t : Tree}

theorem leavesFrom {b : Branch} (hb : b.LiesIn t) : t.LeavesFrom b.root (b.ways.map (·.leaf)) := by
  induction b with
  | leaf id v => exact .leaf hb
  | split id feature threshold l r ihl ihr =>
    obtain ⟨hnode, hl, hr⟩ := hb
    simp only [ways, List.map_append, List.map_map, Function.comp_def, Way.leaf_behind]
    exact .split hnode (ihl hl) (ihr hr)

/-- Every leaf of the branch has a way. -/
theorem mem_leaves {b : Branch} (hb : b.LiesIn t) {id : NodeId} {v : Verdict} (hid : id ∈ b.ids)
    (hnode : t.node? id = some (.leaf v)) : id ∈ b.ways.map (·.leaf) := by
  induction b with
  | leaf _ _ => simpa [ids, innerIds, root, ways] using hid
  | split root feature threshold l r ihl ihr =>
    obtain ⟨hroot, hl, hr⟩ := hb
    simp only [ways, List.map_append, List.map_map, Function.comp_def, Way.leaf_behind,
      List.mem_append]
    rcases mem_ids_split.1 hid with rfl | hid | hid
    · rw [hroot] at hnode
      cases hnode
    · exact Or.inl (ihl hl hid)
    · exact Or.inr (ihr hr hid)

theorem length_ways (b : Branch) : b.ways.length = b.leafCount := by
  induction b with
  | leaf => rfl
  | split id feature threshold l r ihl ihr => simp [ways, leafCount, ihl, ihr]

/-- The longest way has as many constraints as the branch is deep. -/
theorem length_constraints_le {b : Branch} {w : Way} (hw : w ∈ b.ways) :
    w.constraints.length ≤ b.depth := by
  induction b generalizing w with
  | leaf id v =>
    obtain rfl := List.mem_singleton.1 hw
    exact Nat.le_refl _
  | split id feature threshold l r ihl ihr =>
    simp only [ways, List.mem_append, List.mem_map] at hw
    simp only [depth]
    rcases hw with ⟨u, hu, rfl⟩ | ⟨u, hu, rfl⟩
    · have := ihl hu
      simp only [Way.behind, List.length_cons]
      omega
    · have := ihr hu
      simp only [Way.behind, List.length_cons]
      omega

theorem exists_length_constraints (b : Branch) : ∃ w ∈ b.ways, w.constraints.length = b.depth := by
  induction b with
  | leaf id v => exact ⟨_, List.mem_singleton_self _, rfl⟩
  | split id feature threshold l r ihl ihr =>
    obtain ⟨u, hu, hul⟩ := ihl
    obtain ⟨w, hw, hwl⟩ := ihr
    simp only [ways, List.mem_append, List.mem_map, depth]
    rcases Nat.le_total r.depth l.depth with hle | hle
    · refine ⟨_, Or.inl ⟨u, hu, rfl⟩, ?_⟩
      simp only [Way.behind, List.length_cons]
      omega
    · refine ⟨_, Or.inr ⟨w, hw, rfl⟩, ?_⟩
      simp only [Way.behind, List.length_cons]
      omega

/-- A constraint on a way is the side taken at a split of the arena. -/
theorem exists_split {b : Branch} (hb : b.LiesIn t) {w : Way} (hw : w ∈ b.ways) {c : Constraint}
    (hc : c ∈ w.constraints) :
    ∃ x ∈ t.splits, x.feature = c.feature ∧ x.threshold = c.threshold := by
  induction b generalizing w with
  | leaf id v =>
    obtain rfl := List.mem_singleton.1 hw
    cases hc
  | split id feature threshold l r ihl ihr =>
    obtain ⟨hnode, hl, hr⟩ := hb
    have hsplit := Tree.mem_splits_of_node? hnode
    simp only [ways, List.mem_append, List.mem_map] at hw
    rcases hw with ⟨u, hu, rfl⟩ | ⟨u, hu, rfl⟩
    · rcases List.mem_cons.1 hc with rfl | hc
      · exact ⟨_, hsplit, rfl, rfl⟩
      · exact ihl hl hu hc
    · rcases List.mem_cons.1 hc with rfl | hc
      · exact ⟨_, hsplit, rfl, rfl⟩
      · exact ihr hr hu hc

end Branch

/-! ## Routes of an arena -/

theorem Route.exists_ofLeaf {schema : Schema} {constraints : List Constraint}
    (h : ∀ c ∈ constraints, (schema.indexOf? c.feature).isSome) (leaf : NodeId) (v : Verdict) :
    ∃ r, ofLeaf schema leaf v constraints = .ok r := by
  have hnone : constraints.find? (fun c => (schema.indexOf? c.feature).isNone) = none := by
    rw [List.find?_eq_none]
    intro c hc
    rw [Bool.not_eq_true, Option.isNone_eq_false_iff]
    exact h c hc
  unfold ofLeaf
  rw [hnone]
  exact ⟨_, rfl⟩

/-- **A branch has routes** if the fuel outlasts it and every feature on its ways is declared. -/
theorem Tree.exists_routesBelow {t : Tree} {schema : Schema} {b : Branch} (hb : b.LiesIn t)
    {fuel : Nat} (hfuel : b.depth < fuel) {constraints : List Constraint}
    (hdeclared : ∀ w ∈ b.ways, ∀ c ∈ constraints ++ w.constraints,
      (schema.indexOf? c.feature).isSome) :
    ∃ routes, t.routesBelow schema fuel b.root constraints = .ok routes := by
  induction b generalizing fuel constraints with
  | leaf id v =>
    obtain ⟨fuel, rfl⟩ : ∃ n, fuel = n + 1 := ⟨fuel - 1, by omega⟩
    have hnode : t.node? id = some (.leaf v) := hb
    simp only [Branch.ways, List.forall_mem_singleton, List.append_nil] at hdeclared
    obtain ⟨r, hr⟩ := Route.exists_ofLeaf hdeclared id v
    simp only [routesBelow, Branch.root, hnode]
    exact ⟨[r], bind_eq_ok.2 ⟨r, hr, rfl⟩⟩
  | split id feature threshold l r ihl ihr =>
    simp only [Branch.depth] at hfuel
    obtain ⟨fuel, rfl⟩ : ∃ n, fuel = n + 1 := ⟨fuel - 1, by omega⟩
    obtain ⟨hnode, hl, hr⟩ := hb
    have hpush : ∀ (c : Constraint) (w : Way),
        (constraints ++ [c]) ++ w.constraints = constraints ++ (w.behind c).constraints :=
      fun c w => List.append_assoc _ _ _
    obtain ⟨onLeft, hleft⟩ : ∃ onLeft, t.routesBelow schema fuel l.root
        (constraints ++ [⟨feature, .atMost, threshold⟩]) = .ok onLeft := by
      refine ihl hl (by omega) fun w hw c hc => ?_
      rw [hpush] at hc
      exact hdeclared _ (List.mem_append_left _ (List.mem_map_of_mem hw)) c hc
    obtain ⟨onRight, hright⟩ : ∃ onRight, t.routesBelow schema fuel r.root
        (constraints ++ [⟨feature, .above, threshold⟩]) = .ok onRight := by
      refine ihr hr (by omega) fun w hw c hc => ?_
      rw [hpush] at hc
      exact hdeclared _ (List.mem_append_right _ (List.mem_map_of_mem hw)) c hc
    simp only [routesBelow, Branch.root, hnode]
    exact ⟨onLeft ++ onRight, bind_eq_ok.2 ⟨onLeft, hleft, bind_eq_ok.2 ⟨onRight, hright, rfl⟩⟩⟩

namespace Branch.Spans

variable {b : Branch} {t : Tree} {schema : Schema} {routes : List Route}

/-- **An arena that passes the check has routes** if the features of its splits are declared. -/
theorem exists_routes (hb : b.Spans t)
    (hdeclared : ∀ x ∈ t.splits, (schema.indexOf? x.feature).isSome) :
    ∃ routes, t.routes schema = .ok routes := by
  rw [Tree.routes, ← hb.root_eq]
  refine Tree.exists_routesBelow hb.lies (Nat.lt_succ_of_lt hb.depth_lt_size) fun w hw c hc => ?_
  obtain ⟨x, hx, hfeature, -⟩ := Branch.exists_split hb.lies hw hc
  rw [← hfeature]
  exact hdeclared x hx

/-- Every route is one to a leaf, under its own constraints. -/
theorem leadsBy_of_routes (hb : b.Spans t) (h : t.routes schema = .ok routes) :
    List.Forall₂ (fun w r => r.LeadsBy schema w.leaf w.verdict w.constraints) b.ways routes := by
  unfold Tree.routes at h
  rw [← hb.root_eq] at h
  exact (Tree.routesBelow_ok hb.lies h).imp fun w r hr => Route.ofLeaf_ok hr

theorem exists_leadsBy (hb : b.Spans t) (h : t.routes schema = .ok routes) {r : Route}
    (hr : r ∈ routes) : ∃ w ∈ b.ways, r.LeadsBy schema w.leaf w.verdict w.constraints := by
  have hleads := hb.leadsBy_of_routes h
  obtain ⟨k, hk, rfl⟩ := List.getElem_of_mem hr
  have hw : k < b.ways.length := by rw [hleads.length_eq]; exact hk
  exact ⟨_, List.getElem_mem hw, hleads.get hw hk⟩

theorem map_routes {α : Type} (hb : b.Spans t) (h : t.routes schema = .ok routes)
    {f : Way → α} {g : Route → α}
    (heq : ∀ w r, Route.LeadsBy r schema w.leaf w.verdict w.constraints → f w = g r) :
    b.ways.map f = routes.map g := by
  rw [← List.forall₂_eq_eq_eq, List.forall₂_map_left_iff, List.forall₂_map_right_iff]
  exact (hb.leadsBy_of_routes h).imp heq

theorem map_leaf_routes (hb : b.Spans t) (h : t.routes schema = .ok routes) :
    routes.map (·.leaf) = b.ways.map (·.leaf) :=
  (hb.map_routes h fun _ _ hr => hr.leaf_eq.symm).symm

theorem map_constraints_routes (hb : b.Spans t) (h : t.routes schema = .ok routes) :
    routes.map (·.constraints) = b.ways.map (·.constraints) :=
  (hb.map_routes h fun _ _ hr => hr.constraints_eq.symm).symm

theorem nodup_leaves_routes (hb : b.Spans t) (h : t.routes schema = .ok routes) :
    (routes.map (·.leaf)).Nodup := by
  rw [hb.map_leaf_routes h]
  exact Branch.nodup_leaves hb.nodup

/-- The route to a leaf has the leaf's verdict. -/
theorem node?_leaf_route (hb : b.Spans t) (h : t.routes schema = .ok routes) {r : Route}
    (hr : r ∈ routes) : t.node? r.leaf = some (.leaf r.verdict) := by
  obtain ⟨w, hw, hlead⟩ := hb.exists_leadsBy h hr
  rw [hlead.leaf_eq, hlead.verdict_eq]
  exact Branch.node?_leaf hb.lies hw

/-- **An input of the domains takes exactly one route**, the one to the leaf that it reaches. -/
theorem taken_route (hb : b.Spans t) (h : t.routes schema = .ok routes) {values : List UInt32}
    (hvalues : schema.Admits values) :
    ∃ r, routes.filter (fun r => decide (r.Takes values)) = [r] ∧
      t.Reaches (schema.valueOf values) Tree.root r.leaf ∧
      t.verdict? (schema.valueOf values) = some r.verdict := by
  obtain ⟨w, hw, hleaf, hverdict⟩ := b.ways_holding (schema.valueOf values)
  have hfilter := List.rel_filter
    (p := fun w => decide (Way.Holds (schema.valueOf values) w))
    (q := fun r => decide (Route.Takes r values))
    (fun w r hr => by
      show decide (Way.Holds _ w) = true ↔ decide (r.Takes values) = true
      rw [decide_eq_true_iff, decide_eq_true_iff]
      exact (hr.takes_iff hvalues).symm)
    (hb.leadsBy_of_routes h)
  rw [hw] at hfilter
  obtain ⟨r, rest, hr, hrest, heq⟩ := List.forall₂_cons_left_iff.1 hfilter
  cases List.forall₂_nil_left_iff.1 hrest
  refine ⟨r, heq, hb.reaches_root_iff.2 (hr.leaf_eq.trans hleaf), ?_⟩
  rw [hb.verdict?_eq, hr.verdict_eq.trans hverdict]

theorem exists_taken (hb : b.Spans t) (h : t.routes schema = .ok routes) {values : List UInt32}
    (hvalues : schema.Admits values) :
    ∃ s ∈ routes, (∀ r ∈ routes, r.Takes values ↔ r = s) ∧
      t.Reaches (schema.valueOf values) Tree.root s.leaf ∧
      t.verdict? (schema.valueOf values) = some s.verdict := by
  obtain ⟨s, hs, hreaches, hverdict⟩ := hb.taken_route h hvalues
  have htaken : ∀ r, r ∈ routes ∧ r.Takes values ↔ r = s := by
    intro r
    have hmem : r ∈ routes.filter (fun r => decide (r.Takes values)) ↔
        r ∈ routes ∧ decide (r.Takes values) = true := List.mem_filter
    rw [hs, List.mem_singleton, decide_eq_true_iff] at hmem
    exact hmem.symm
  refine ⟨s, ((htaken s).2 rfl).1, fun r hr => ?_, hreaches, hverdict⟩
  rw [← htaken, and_iff_right hr]

/-- **An input takes the route to a leaf exactly if the tree leads it there.** -/
theorem takes_iff_reaches (hb : b.Spans t) (h : t.routes schema = .ok routes) {r : Route}
    (hr : r ∈ routes) {values : List UInt32} (hvalues : schema.Admits values) :
    r.Takes values ↔ t.Reaches (schema.valueOf values) Tree.root r.leaf := by
  obtain ⟨s, hs, htaken, hreaches, -⟩ := hb.exists_taken h hvalues
  rw [htaken r hr]
  constructor
  · rintro rfl
    exact hreaches
  · intro hleaf
    exact List.inj_on_of_nodup_map (hb.nodup_leaves_routes h) hr hs (hleaf.unique hreaches)

end Branch.Spans

/-! ## Feasible routes -/

theorem Interval.narrow_inside (i : Interval) (side : Side) (threshold : Int64) :
    i.lower.toInt ≤ (i.narrow side threshold).lower.toInt ∧
      (i.narrow side threshold).upper.toInt ≤ i.upper.toInt := by
  cases side with
  | atMost =>
    simp only [narrow, Int64.lt_iff_toInt_lt]
    split <;> omega
  | above =>
    simp only [narrow, Int64.lt_iff_toInt_lt]
    split <;> omega

namespace Route

/-- What constraints leave of a domain lies in the domain, also where nothing is left. -/
theorem intervalOf_inside (f : Feature) (constraints : List Constraint) :
    (f.least.toNat : Int) ≤ (intervalOf f constraints).lower.toInt ∧
      (intervalOf f constraints).upper.toInt ≤ f.greatest.toNat := by
  have hleast := f.least.toNat_lt
  have hgreatest := f.greatest.toNat_lt
  have hdomain : f.domain.lower.toInt = f.least.toNat ∧ f.domain.upper.toInt = f.greatest.toNat :=
    ⟨Int64.toInt_ofNat_of_lt (by omega), Int64.toInt_ofNat_of_lt (by omega)⟩
  have hfold : ∀ (cs : List Constraint) (i : Interval),
      i.lower.toInt ≤ (cs.foldl (fun i c => i.narrow c.side c.threshold) i).lower.toInt ∧
        (cs.foldl (fun i c => i.narrow c.side c.threshold) i).upper.toInt ≤ i.upper.toInt := by
    intro cs
    induction cs with
    | nil => exact fun i => ⟨Int.le_refl _, Int.le_refl _⟩
    | cons c cs ih =>
      intro i
      have hstep := i.narrow_inside c.side c.threshold
      have hrest := ih (i.narrow c.side c.threshold)
      rw [List.foldl_cons]
      omega
  have := hfold (constraints.filter fun c => c.feature == f.id) f.domain
  unfold intervalOf
  omega

/-- An interval that is not empty holds its lower end. -/
theorem contains_lower_intervalOf {f : Feature} {constraints : List Constraint}
    (h : (intervalOf f constraints).isEmpty = false) :
    (intervalOf f constraints).contains
      (UInt32.ofNat (intervalOf f constraints).lower.toInt.toNat) = true := by
  have hinside := intervalOf_inside f constraints
  have hgreatest := f.greatest.toNat_lt
  have hnonempty := Interval.isEmpty_eq_false_iff.1 h
  rw [Interval.contains_iff, UInt32.toNat_ofNat', Nat.mod_eq_of_lt (by omega)]
  omega

/-- **A route is feasible exactly if some input of the domains takes it.** -/
theorem LeadsBy.isFeasible_iff {r : Route} {schema : Schema} {leaf : NodeId} {v : Verdict}
    {constraints : List Constraint} (h : r.LeadsBy schema leaf v constraints) :
    r.isFeasible = true ↔ ∃ values, schema.Admits values ∧ r.Takes values := by
  rw [isFeasible, List.all_eq_true]
  constructor
  · intro hnonempty
    have hcontains : ∀ f ∈ schema.features, (intervalOf f constraints).contains
        (UInt32.ofNat (intervalOf f constraints).lower.toInt.toNat) = true := by
      intro f hf
      refine contains_lower_intervalOf ?_
      have := hnonempty (intervalOf f constraints)
        (by rw [h.intervals_eq]; exact List.mem_map_of_mem hf)
      simpa using this
    refine ⟨schema.features.map fun f =>
      UInt32.ofNat (intervalOf f constraints).lower.toInt.toNat, ?_, ?_⟩
    · rw [Schema.Admits, List.forall₂_map_right_iff, List.forall₂_same]
      exact fun f hf => (contains_intervalOf.1 (hcontains f hf)).1
    · rw [Takes, h.intervals_eq, List.forall₂_map_left_iff, List.forall₂_map_right_iff,
        List.forall₂_same]
      exact hcontains
  · rintro ⟨values, -, htakes⟩ i hi
    obtain ⟨k, hk, rfl⟩ := List.getElem_of_mem hi
    have hcontains := List.Forall₂.get htakes hk
      (by rw [← List.Forall₂.length_eq htakes]; exact hk)
    rw [Bool.not_eq_true', Bool.eq_false_iff]
    intro hempty
    rw [List.get_eq_getElem, Interval.not_contains_of_isEmpty hempty] at hcontains
    cases hcontains

end Route

/-! ## Main result -/

/-- **The routes of a checked arena partition the inputs by leaf.** There is one route for each leaf,
from left to right; every input of the domains lies in the intervals of exactly one route, which
leads to the leaf that the input reaches; a route is feasible exactly if its leaf is reached; and the
longest route has as many constraints as the tree is deep. -/
theorem Tree.routes_partition_domain {t : Tree} {schema : Schema} {s : Shape}
    (hshape : t.shape = .ok s)
    (hdeclared : ∀ x ∈ t.splits, (schema.indexOf? x.feature).isSome) :
    ∃ routes, t.routes schema = .ok routes ∧
      t.LeavesFrom Tree.root (routes.map (·.leaf)) ∧
      (routes.map (·.leaf)).Nodup ∧
      (∀ id, id ∈ routes.map (·.leaf) ↔ ∃ v, t.node? id = some (.leaf v)) ∧
      routes.length = s.leaves ∧
      (∀ values, schema.Admits values →
        ∃ r, routes.filter (fun r => decide (r.Takes values)) = [r] ∧
          t.Reaches (schema.valueOf values) Tree.root r.leaf ∧
          t.verdict? (schema.valueOf values) = some r.verdict) ∧
      (∀ r ∈ routes, r.isFeasible = true ↔
        ∃ values, schema.Admits values ∧ t.Reaches (schema.valueOf values) Tree.root r.leaf) ∧
      (∀ r ∈ routes, r.constraints.length ≤ s.depth) ∧
      ∃ r ∈ routes, r.constraints.length = s.depth := by
  obtain ⟨b, hb, rfl⟩ := Tree.exists_spans hshape
  obtain ⟨routes, hroutes⟩ := hb.exists_routes hdeclared
  have hleaves := hb.map_leaf_routes hroutes
  have hconstraints := hb.map_constraints_routes hroutes
  refine ⟨routes, hroutes, ?_, hb.nodup_leaves_routes hroutes, fun id => ?_, ?_,
    fun values hvalues => hb.taken_route hroutes hvalues, fun r hr => ?_, fun r hr => ?_, ?_⟩
  · rw [hleaves, ← hb.root_eq]
    exact Branch.leavesFrom hb.lies
  · constructor
    · intro hid
      obtain ⟨r, hr, rfl⟩ := List.mem_map.1 hid
      exact ⟨r.verdict, hb.node?_leaf_route hroutes hr⟩
    · rintro ⟨v, hnode⟩
      rw [hleaves]
      exact Branch.mem_leaves hb.lies (hb.all.mem_iff.2 (Tree.mem_ids_of_node? hnode)) hnode
  · have hlength := congrArg List.length hleaves
    rwa [List.length_map, List.length_map, b.length_ways] at hlength
  · obtain ⟨w, -, hlead⟩ := hb.exists_leadsBy hroutes hr
    rw [hlead.isFeasible_iff]
    exact exists_congr fun values =>
      and_congr_right fun hvalues => hb.takes_iff_reaches hroutes hr hvalues
  · obtain ⟨w, hw, hlead⟩ := hb.exists_leadsBy hroutes hr
    rw [hlead.constraints_eq]
    exact Branch.length_constraints_le hw
  · obtain ⟨w, hw, hdepth⟩ := b.exists_length_constraints
    have hmem := List.mem_map_of_mem (f := fun w : Way => w.constraints) hw
    rw [← hconstraints, List.mem_map] at hmem
    obtain ⟨r, hr, heq⟩ := hmem
    exact ⟨r, hr, by rw [heq, hdepth]⟩

/-- A tree with splits at both ends of the 64-bit integers and one inside the domain; two of its
four leaves are reached by no input. -/
def Tree.outlying : Tree :=
  ⟨#[.split 9 Int64.maxValue 1 2, .split 9 Int64.minValue 3 4, .leaf .attack, .leaf .attack,
    .split 9 20 5 6, .leaf .normal, .leaf .attack]⟩

/-- One feature with a domain that starts above zero. -/
def Schema.outlying : Schema where
  features := [⟨9, "ttl", 6, 5, 60, none⟩]
  sound := by decide
  distinct := by decide

theorem Tree.outlying_routes_partition_domain :
    ∃ routes s, Tree.outlying.shape = .ok s ∧
      (∀ x ∈ Tree.outlying.splits, (Schema.outlying.indexOf? x.feature).isSome) ∧
      Tree.outlying.routes .outlying = .ok routes ∧
      Tree.outlying.LeavesFrom Tree.root (routes.map (·.leaf)) ∧ routes.length = s.leaves ∧
      (∃ r, routes.filter (fun r => decide (r.Takes [31])) = [r] ∧
        Tree.outlying.verdict? (Schema.outlying.valueOf [31]) = some r.verdict) ∧
      (∀ r ∈ routes, r.isFeasible = true ↔ ∃ values, Schema.outlying.Admits values ∧
        Tree.outlying.Reaches (Schema.outlying.valueOf values) Tree.root r.leaf) ∧
      ∃ r ∈ routes, r.constraints.length = s.depth := by
  obtain ⟨s, hs⟩ : ∃ s, Tree.outlying.shape = .ok s := exists_ok_of_toBool (by decide +kernel)
  obtain ⟨routes, hroutes, horder, -, -, hlength, htaken, hfeasible, -, hdepth⟩ :=
    Tree.routes_partition_domain hs (by decide : ∀ x ∈ Tree.outlying.splits,
      (Schema.outlying.indexOf? x.feature).isSome)
  obtain ⟨r, hr, -, hverdict⟩ := htaken [31] (by decide)
  exact ⟨routes, s, hs, by decide, hroutes, horder, hlength, ⟨r, hr, hverdict⟩, hfeasible, hdepth⟩

end MatchTree
