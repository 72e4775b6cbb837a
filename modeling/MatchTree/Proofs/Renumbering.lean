import Mathlib.Data.Set.Function
import MatchTree.Command
import MatchTree.Proofs.Agreement

/-!
# Arenas that differ in the numbers of their nodes

* `Node.rename`, `Branch.rename`, `Route.relabel` — the same with other node ids.
* `Tree.Renumbers` — a bijection of ids turns the nodes of one arena into those of another and keeps
  the root.
* `SameCuts` — two lists of splits have the same thresholds on the same features.
* `Alike` — two outcomes are successes with related results or faults of one kind.

Cutting the domains goes through the arena in the order of the ids, and listing the routes follows
its structure. The first sees a set of thresholds, the second a branch, and neither depends on the
ids; only the node that a fault names may be another one.

Principal results: `Branch.rename_spans` — a renumbered arena is spanned by the renamed branch;
`Renumbers.sameCuts`, `alike_ofTree` — the same thresholds, hence the same grid;
`routes_renumber` — the same routes but for the ids of the leaves; `ofRoutes_relabel` — hence the
same table; `compile_renumbered` — both arenas compile to one text, or both fail with one kind of
fault.
-/

namespace MatchTree

/-! ## New ids -/

/-- A node with other children ids. -/
def Node.rename (σ : NodeId → NodeId) : Node → Node
  | .split feature threshold left right => .split feature threshold (σ left) (σ right)
  | .leaf v => .leaf v

/-- The nodes of one arena are those of the other under new ids, and the root keeps its id. -/
structure Tree.Renumbers (σ : NodeId → NodeId) (t u : Tree) : Prop where
  root_eq : σ Tree.root = Tree.root
  bijOn : Set.BijOn σ {id | id ∈ t.ids} {id | id ∈ u.ids}
  node?_eq : ∀ id ∈ t.ids, u.node? (σ id) = (t.node? id).map (Node.rename σ)

/-- New ids that are the ids of the other arena in some order, each with the renamed node. -/
theorem Tree.Renumbers.of_perm {σ : NodeId → NodeId} {t u : Tree} (hroot : σ Tree.root = Tree.root)
    (hperm : (t.ids.map σ).Perm u.ids) (hnodup : u.ids.Nodup)
    (hnodes : (t.ids.map fun id => u.node? (σ id)) =
      t.ids.map fun id => (t.node? id).map (Node.rename σ)) : Renumbers σ t u := by
  refine ⟨hroot, ⟨fun id hid => ?_, ?_, fun id hid => ?_⟩, List.map_inj_left.1 hnodes⟩
  · exact hperm.mem_iff.1 (List.mem_map_of_mem hid)
  · exact List.inj_on_of_nodup_map (hperm.nodup_iff.2 hnodup)
  · exact List.mem_map.1 (hperm.mem_iff.2 hid)

namespace Branch

/-- The branch with other ids. -/
def rename (σ : NodeId → NodeId) : Branch → Branch
  | leaf id v => leaf (σ id) v
  | split id feature threshold l r =>
    split (σ id) feature threshold (l.rename σ) (r.rename σ)

variable {σ : NodeId → NodeId} {t u : Tree}

@[simp] theorem root_rename (b : Branch) : (b.rename σ).root = σ b.root := by
  cases b <;> rfl

theorem depth_rename (b : Branch) : (b.rename σ).depth = b.depth := by
  induction b with
  | leaf => rfl
  | split id feature threshold l r ihl ihr => rw [rename, depth, ihl, ihr, depth]

/-- The ways of a renamed branch lead to the renamed leaves under the same constraints. -/
theorem ways_rename (b : Branch) :
    (b.rename σ).ways = b.ways.map fun w => { w with leaf := σ w.leaf } := by
  induction b with
  | leaf => rfl
  | split id feature threshold l r ihl ihr =>
    rw [rename, ways, ihl, ihr, ways, List.map_append, List.map_map, List.map_map, List.map_map,
      List.map_map]
    rfl

theorem rename_liesIn (hσ : Tree.Renumbers σ t u) {b : Branch} (hb : b.LiesIn t) :
    (b.rename σ).LiesIn u := by
  induction b with
  | leaf id v =>
    have hnode : t.node? id = some (.leaf v) := hb
    show u.node? (σ id) = some (.leaf v)
    rw [hσ.node?_eq id (Tree.mem_ids_of_node? hnode), hnode]
    rfl
  | split id feature threshold l r ihl ihr =>
    obtain ⟨hnode, hl, hr⟩ := hb
    refine ⟨?_, ihl hl, ihr hr⟩
    rw [hσ.node?_eq id (Tree.mem_ids_of_node? hnode), hnode, root_rename, root_rename]
    rfl

/-- **An arena spells out one branch from a node.** -/
theorem eq_of_liesIn {b c : Branch} (hb : b.LiesIn t) (hc : c.LiesIn t) (h : b.root = c.root) :
    b = c := by
  induction b generalizing c with
  | leaf id v =>
    have hnode : t.node? id = some (.leaf v) := hb
    cases c with
    | leaf id' v' =>
      obtain rfl : id = id' := h
      rw [LiesIn, hnode] at hc
      cases hc
      rfl
    | split id' feature threshold l r =>
      obtain rfl : id = id' := h
      rw [LiesIn, hnode] at hc
      cases hc.1
  | split id feature threshold l r ihl ihr =>
    obtain ⟨hnode, hl, hr⟩ := hb
    cases c with
    | leaf id' v =>
      obtain rfl : id = id' := h
      rw [LiesIn, hnode] at hc
      cases hc
    | split id' feature' threshold' l' r' =>
      obtain rfl : id = id' := h
      obtain ⟨hnode', hl', hr'⟩ := hc
      rw [hnode, Option.some.injEq, Node.split.injEq] at hnode'
      obtain ⟨rfl, rfl, hleft, hright⟩ := hnode'
      rw [ihl hl hl' hleft, ihr hr hr' hright]

/-- **A renumbered arena that passes the check is spanned by the renamed branch.** -/
theorem rename_spans {b : Branch} {s : Shape} (hσ : Tree.Renumbers σ t u) (hb : b.Spans t)
    (hu : u.shape = .ok s) : (b.rename σ).Spans u ∧ s.depth = b.depth := by
  obtain ⟨c, hc, rfl⟩ := Tree.exists_spans hu
  have hroot : (b.rename σ).root = c.root := by
    rw [root_rename, hb.root_eq, hσ.root_eq, hc.root_eq]
  obtain rfl := eq_of_liesIn (rename_liesIn hσ hb.lies) hc.lies hroot
  exact ⟨hc, depth_rename b⟩

end Branch

/-! ## Thresholds -/

/-- The splits of both lists have the same thresholds on the same features. -/
def SameCuts (xs ys : List Tree.Split) : Prop :=
  ∀ feature threshold, (∃ s ∈ xs, s.feature = feature ∧ s.threshold = threshold) ↔
    ∃ s ∈ ys, s.feature = feature ∧ s.threshold = threshold

namespace SameCuts

variable {xs ys : List Tree.Split}

/-- What is asked of features and thresholds only, one list has exactly if the other has it. -/
theorem exists_iff (h : SameCuts xs ys) {p : FeatureId → Int64 → Prop} :
    (∃ s ∈ xs, p s.feature s.threshold) ↔ ∃ s ∈ ys, p s.feature s.threshold := by
  constructor
  · rintro ⟨s, hs, hp⟩
    obtain ⟨s', hs', hfeature, hthreshold⟩ := (h _ _).1 ⟨s, hs, rfl, rfl⟩
    exact ⟨s', hs', by rwa [hfeature, hthreshold]⟩
  · rintro ⟨s, hs, hp⟩
    obtain ⟨s', hs', hfeature, hthreshold⟩ := (h _ _).2 ⟨s, hs, rfl, rfl⟩
    exact ⟨s', hs', by rwa [hfeature, hthreshold]⟩

theorem find?_isSome (h : SameCuts xs ys) (p : FeatureId → Int64 → Bool) :
    (xs.find? fun s => p s.feature s.threshold).isSome =
      (ys.find? fun s => p s.feature s.threshold).isSome := by
  rw [← Bool.coe_iff_coe, List.find?_isSome, List.find?_isSome]
  exact h.exists_iff (p := fun feature threshold => p feature threshold = true)

theorem filter (h : SameCuts xs ys) (id : FeatureId) :
    SameCuts (xs.filter fun s => s.feature == id) (ys.filter fun s => s.feature == id) := by
  intro feature threshold
  simp only [List.mem_filter, beq_iff_eq, and_assoc]
  exact h.exists_iff (p := fun f i => f = id ∧ f = feature ∧ i = threshold)

/-- **The edges are a set of thresholds**, in ascending order. -/
theorem edgesOf_eq (h : SameCuts xs ys) : Axis.edgesOf xs = Axis.edgesOf ys := by
  have hx := Axis.pairwise_edgesOf xs
  have hy := Axis.pairwise_edgesOf ys
  have hperm : (Axis.edgesOf xs).Perm (Axis.edgesOf ys) := by
    refine (List.perm_ext_iff_of_nodup (hx.imp UInt32.ne_of_lt) (hy.imp UInt32.ne_of_lt)).2 ?_
    intro e
    rw [Axis.mem_edgesOf, Axis.mem_edgesOf]
    exact h.exists_iff (p := fun _ threshold => e = UInt32.ofNat threshold.toInt.toNat)
  exact hperm.eq_of_pairwise (fun a b _ _ hab hba => absurd hab (UInt32.lt_asymm hba)) hx hy

end SameCuts

/-- **Renumbering keeps the thresholds.** -/
theorem Tree.Renumbers.sameCuts {σ : NodeId → NodeId} {t u : Tree} (h : Renumbers σ t u)
    (ht : t.size ≤ 4294967296) (hu : u.size ≤ 4294967296) : SameCuts t.splits u.splits := by
  intro feature threshold
  constructor
  · rintro ⟨s, hs, rfl, rfl⟩
    obtain ⟨left, right, hnode⟩ := (mem_splits_iff ht).1 hs
    refine ⟨⟨σ s.node, s.feature, s.threshold⟩, (mem_splits_iff hu).2 ⟨σ left, σ right, ?_⟩, rfl, rfl⟩
    rw [h.node?_eq _ (mem_ids_of_node? hnode), hnode]
    rfl
  · rintro ⟨s, hs, rfl, rfl⟩
    obtain ⟨left, right, hnode⟩ := (mem_splits_iff hu).1 hs
    obtain ⟨id, hid, heq⟩ := h.bijOn.surjOn (mem_ids_of_node? hnode)
    rw [← heq, h.node?_eq id hid] at hnode
    obtain ⟨n, hn, hrename⟩ := Option.map_eq_some_iff.1 hnode
    cases n with
    | leaf v => cases hrename
    | split feature threshold l r =>
      cases hrename
      exact ⟨⟨id, s.feature, s.threshold⟩, mem_splits_of_node? hn, rfl, rfl⟩

/-! ## Outcomes -/

/-- Two successes with related results or two faults of one kind. -/
def Alike {α β : Type} (R : α → β → Prop) : Except Fault α → Except Fault β → Prop
  | .ok a, .ok b => R a b
  | .error e, .error f => e.kind = f.kind
  | _, _ => False

section Alike

variable {α β γ δ : Type} {R : α → β → Prop} {S : γ → δ → Prop}

theorem alike_self (x : Except Fault α) : Alike (· = ·) x x := by
  cases x <;> rfl

/-- **Alike outcomes in sequence are alike.** -/
theorem Alike.bind {x : Except Fault α} {y : Except Fault β} {f : α → Except Fault γ}
    {g : β → Except Fault δ} (h : Alike R x y)
    (hfg : ∀ a b, x = .ok a → y = .ok b → R a b → Alike S (f a) (g b)) :
    Alike S (x >>= f) (y >>= g) := by
  cases x with
  | error e =>
    cases y with
    | error e' => exact h
    | ok b => exact h.elim
  | ok a =>
    cases y with
    | error e' => exact h.elim
    | ok b => exact hfg a b rfl rfl h

theorem alike_mapM {ι : Type} {items : List ι} {f g : ι → Except Fault α}
    (h : ∀ i ∈ items, Alike (· = ·) (f i) (g i)) :
    Alike (· = ·) (items.mapM f) (items.mapM g) := by
  induction items with
  | nil => exact alike_self _
  | cons i items ih =>
    obtain ⟨hi, hitems⟩ := List.forall_mem_cons.1 h
    rw [List.mapM_cons, List.mapM_cons]
    refine hi.bind fun a _ _ _ hab => (ih hitems).bind fun as _ _ _ habs => ?_
    rw [hab, habs]
    exact alike_self _

/-- Alike outcomes, told apart by success. -/
theorem Alike.cases {x : Except Fault α} {y : Except Fault β} (h : Alike R x y) :
    (∃ a b, x = .ok a ∧ y = .ok b ∧ R a b) ∨
      ∃ e f, x = .error e ∧ y = .error f ∧ e.kind = f.kind := by
  cases x with
  | ok a =>
    cases y with
    | ok b => exact .inl ⟨a, b, rfl, rfl, h⟩
    | error f => exact h.elim
  | error e =>
    cases y with
    | ok b => exact h.elim
    | error f => exact .inr ⟨e, f, rfl, rfl, h⟩

end Alike

/-! ## Grids -/

theorem SameCuts.alike_ofSplits {xs ys : List Tree.Split} (h : SameCuts xs ys) (f : Feature)
    (maxBands : UInt64) :
    Alike (· = ·) (Axis.ofSplits f xs maxBands) (Axis.ofSplits f ys maxBands) := by
  have hfind := h.find?_isSome fun _ threshold => !f.contains threshold
  unfold Axis.ofSplits
  split
  · rename_i s hs
    rw [hs, Option.isSome_some] at hfind
    obtain ⟨s', hs'⟩ := Option.isSome_iff_exists.1 hfind.symm
    rw [hs']
    rfl
  · rename_i hnone
    rw [hnone, Option.isSome_none, eq_comm, Option.isSome_eq_false_iff,
      Option.isNone_iff_eq_none] at hfind
    rw [hfind, h.edgesOf_eq]
    exact alike_self _

/-- **Grids depend on the thresholds only.** -/
theorem SameCuts.alike_ofTree {t u : Tree} (h : SameCuts t.splits u.splits) (schema : Schema)
    (maxBands : UInt64) :
    Alike (· = ·) (Grid.ofTree t schema maxBands) (Grid.ofTree u schema maxBands) := by
  have hfind := h.find?_isSome fun feature _ => (schema.indexOf? feature).isNone
  unfold Grid.ofTree
  dsimp only
  split
  · rename_i s hs
    rw [hs, Option.isSome_some] at hfind
    obtain ⟨s', hs'⟩ := Option.isSome_iff_exists.1 hfind.symm
    rw [hs']
    rfl
  · rename_i hnone
    rw [hnone, Option.isSome_none, eq_comm, Option.isSome_eq_false_iff,
      Option.isNone_iff_eq_none] at hfind
    rw [hfind]
    refine (alike_mapM fun f _ => (h.filter f.id).alike_ofSplits f maxBands).bind ?_
    rintro axes _ - - rfl
    exact alike_self _

/-! ## Routes and tables -/

/-- The route with another id for its leaf. -/
def Route.relabel (σ : NodeId → NodeId) (r : Route) : Route := { r with leaf := σ r.leaf }

theorem Route.ofLeaf_relabel {σ : NodeId → NodeId} {schema : Schema} {leaf : NodeId} {v : Verdict}
    {constraints : List Constraint} {r : Route} (h : ofLeaf schema leaf v constraints = .ok r) :
    ofLeaf schema (σ leaf) v constraints = .ok (r.relabel σ) := by
  unfold ofLeaf at h ⊢
  split at h
  · cases h
  · cases h
    rfl

/-- **A renumbered arena has the same routes**, but for the ids of their leaves. -/
theorem Branch.Spans.routes_renumber {σ : NodeId → NodeId} {t u : Tree} {b : Branch}
    {schema : Schema} {routes routes' : List Route} (hb : b.Spans t) (hc : (b.rename σ).Spans u)
    (h : t.routes schema = .ok routes) (h' : u.routes schema = .ok routes') :
    routes' = routes.map (Route.relabel σ) := by
  unfold Tree.routes at h h'
  rw [← hb.root_eq] at h
  rw [← hc.root_eq] at h'
  have hways := Tree.routesBelow_ok hb.lies h
  have hways' := Tree.routesBelow_ok hc.lies h'
  rw [ways_rename, List.forall₂_map_left_iff] at hways'
  have hrelabel : List.Forall₂ (fun (w : Way) r =>
      Route.ofLeaf schema (σ w.leaf) w.verdict ([] ++ w.constraints) = .ok r) b.ways
      (routes.map (Route.relabel σ)) :=
    List.forall₂_map_right_iff.2 (hways.imp fun w r hr => Route.ofLeaf_relabel hr)
  exact Except.ok.inj ((mapM_eq_ok.2 hways').symm.trans (mapM_eq_ok.2 hrelabel))

theorem Route.box_relabel (σ : NodeId → NodeId) (r : Route) (g : Grid) :
    (r.relabel σ).box g = r.box g := by
  have hruns : ∀ (axes : List Axis) (intervals : List Interval) (index : Nat),
      (r.relabel σ).runsFrom index axes intervals = r.runsFrom index axes intervals := by
    intro axes
    induction axes with
    | nil => exact fun _ _ => rfl
    | cons axis axes ih =>
      intro intervals index
      cases intervals with
      | nil => rfl
      | cons interval intervals =>
        rw [runsFrom, runsFrom, ih]
        rfl
  exact hruns g.axes r.intervals 0

theorem placements_relabel (σ : NodeId → NodeId) (g : Grid) (limit : UInt64) (index total : Nat)
    (routes : List Route) :
    placements g limit index total (routes.map (Route.relabel σ)) =
      placements g limit index total routes := by
  induction routes generalizing index total with
  | nil => rfl
  | cons r rs ih =>
    rw [List.map_cons, placements, placements, Route.box_relabel]
    simp only [ih]
    rfl

/-- **Tables do not depend on the ids of leaves.** -/
theorem CodeTable.ofRoutes_relabel (σ : NodeId → NodeId) (routes : List Route) (g : Grid)
    (maxRows : UInt64) :
    ofRoutes (routes.map (Route.relabel σ)) g maxRows = ofRoutes routes g maxRows := by
  rw [ofRoutes, placements_relabel, ofRoutes]

/-! ## Main result -/

/-- Arenas that differ in the numbers of their nodes compile alike. -/
theorem Tree.Renumbers.alike_compile {σ : NodeId → NodeId} {t u : Tree} {s s' : Shape}
    (h : Renumbers σ t u) (ht : t.shape = .ok s) (hu : u.shape = .ok s') (schema : Schema)
    (budget : Budget) (naming : Naming) :
    Alike (fun c d => c.program = d.program) (t.compile schema budget naming)
      (u.compile schema budget naming) := by
  obtain ⟨b, hb, rfl⟩ := exists_spans ht
  obtain ⟨hc, hdepth⟩ := Branch.rename_spans h hb hu
  unfold compile
  rw [ht, hu]
  show Alike _ (ite _ _ _) (ite _ _ _)
  rw [hdepth]
  split
  · rfl
  refine ((h.sameCuts hb.size_le hc.size_le).alike_ofTree schema budget.maxBands).bind ?_
  rintro g _ hgrid hgrid' rfl
  obtain ⟨routes, hroutes⟩ := hb.exists_routes (Grid.ofTree_eq_ok_iff.1 hgrid).1
  obtain ⟨routes', hroutes'⟩ := hc.exists_routes (Grid.ofTree_eq_ok_iff.1 hgrid').1
  obtain rfl := hb.routes_renumber hc hroutes hroutes'
  rw [hroutes, hroutes']
  show Alike _ (CodeTable.ofRoutes _ _ _ >>= _) (CodeTable.ofRoutes _ _ _ >>= _)
  rw [CodeTable.ofRoutes_relabel]
  refine (alike_self _).bind ?_
  rintro table _ - - rfl
  refine (alike_self _).bind ?_
  rintro program _ - - rfl
  rfl

/-- **Two arenas of one tree compile to the same text, or both fail with one kind of fault.** -/
theorem Tree.compile_renumbered {σ : NodeId → NodeId} {t u : Tree} {s s' : Shape}
    (h : Renumbers σ t u) (ht : t.shape = .ok s) (hu : u.shape = .ok s') (schema : Schema)
    (budget : Budget) (naming : Naming) :
    (∃ c d, t.compile schema budget naming = .ok c ∧ u.compile schema budget naming = .ok d ∧
      c.program.text = d.program.text) ∨
    ∃ e f, t.compile schema budget naming = .error e ∧ u.compile schema budget naming = .error f ∧
      e.kind = f.kind := by
  obtain ⟨c, d, hc, hd, hprogram⟩ | hfaults := (h.alike_compile ht hu schema budget naming).cases
  · exact .inl ⟨c, d, hc, hd, by rw [hprogram]⟩
  · exact .inr hfaults

/-- The sample tree with its nodes numbered level by level from the right. -/
def Tree.shuffled : Tree :=
  ⟨#[.split 9 20 2 1, .split 4 255 4 3, .split 9 30 6 5, .leaf .normal, .leaf .attack,
    .leaf .attack, .leaf .normal]⟩

/-- Where the nodes of the sample tree stand in the shuffled one. -/
def Tree.shuffle (id : NodeId) : NodeId :=
  ([0, 2, 1, 6, 5, 4, 3] : List NodeId)[id.toNat]?.getD id

theorem Tree.renumbers_shuffled : Renumbers shuffle sample shuffled :=
  .of_perm rfl (by decide) (by decide) (by decide)

theorem Tree.compile_shuffled :
    ∃ c d, sample.compile .sample .default .default = .ok c ∧
      shuffled.compile .sample .default .default = .ok d ∧ c.program.text = d.program.text := by
  obtain ⟨s, hs⟩ : ∃ s, sample.shape = .ok s := exists_ok_of_toBool (by decide +kernel)
  obtain ⟨s', hs'⟩ : ∃ s, shuffled.shape = .ok s := exists_ok_of_toBool (by decide +kernel)
  obtain ⟨c, hc⟩ := exists_compile_sample
  obtain hboth | ⟨e, -, he, -⟩ :=
    compile_renumbered renumbers_shuffled hs hs' .sample .default .default
  · exact hboth
  · rw [hc] at he
    cases he

end MatchTree
