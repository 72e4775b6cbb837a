import MatchTree.Proofs.Shape

/-!
# The loops over an arena, round by round

Checking an arena, following its splits and listing its routes are loops that go by the ids of
children, which nothing bounds. Here each of them is a state and one round.

* `rounds` — a loop that goes through a number of rounds; a fault ends it.
* `Search`, `Tree.searchRound` — the check: one node is taken from a stack and marked as seen.
* `Tree.walkRound` — an input goes one split further; at a leaf it stays.
* `Listing`, `Tree.listRound` — the routes: one node is taken from a stack and noted as visited.

Principal results: `rounds_searchRound` — the check of any arena is over after at most one round
more than there are nodes; `rounds_searchRound_inBounds` — it never looks at an id that is no node;
`walk_eq_some_iff` — a walk is that many rounds; `rounds_listRound` — listing the routes below a
branch takes one round for each node of the branch, and visits it then; `loops_end` — all of this
for an arena that passes the check.
-/

namespace MatchTree

variable {σ : Type} {next : σ → Except Fault σ}

/-- A loop that goes through `n` rounds; a fault ends it. -/
def rounds (next : σ → Except Fault σ) : Nat → σ → Except Fault σ
  | 0, s => .ok s
  | n + 1, s => next s >>= rounds next n

theorem rounds_succ {n : Nat} {s s' : σ} (h : next s = .ok s') :
    rounds next (n + 1) s = rounds next n s' := by
  rw [rounds, h]
  rfl

theorem rounds_succ_error {n : Nat} {s : σ} {fault : Fault} (h : next s = .error fault) :
    rounds next (n + 1) s = .error fault := by
  rw [rounds, h]
  rfl

theorem rounds_add (m n : Nat) (s : σ) :
    rounds next (m + n) s = rounds next m s >>= rounds next n := by
  induction m generalizing s with
  | zero =>
    rw [Nat.zero_add]
    rfl
  | succ m ih =>
    rw [Nat.add_right_comm]
    cases h : next s with
    | error fault =>
      rw [rounds_succ_error h, rounds_succ_error h]
      rfl
    | ok s' => rw [rounds_succ h, rounds_succ h, ih]

/-- A state that a round leaves as it is stays for good. -/
theorem rounds_fixed {s : σ} (h : next s = .ok s) (n : Nat) : rounds next n s = .ok s := by
  induction n with
  | zero => rfl
  | succ n ih => rw [rounds_succ h, ih]

/-- What a round preserves, all rounds preserve. -/
theorem rounds_preserve {P : σ → Prop} (hnext : ∀ s s', P s → next s = .ok s' → P s') {n : Nat}
    {s s' : σ} (hs : P s) (h : rounds next n s = .ok s') : P s' := by
  induction n generalizing s with
  | zero =>
    cases h
    exact hs
  | succ n ih =>
    obtain ⟨m, hm, h⟩ := bind_eq_ok.1 h
    exact ih (hnext s m hs hm) h

/-- If every round goes on and preserves a property, so do all rounds. -/
theorem exists_rounds {P : σ → Prop} (hnext : ∀ s, P s → ∃ s', next s = .ok s' ∧ P s') (n : Nat)
    {s : σ} (hs : P s) : ∃ s', rounds next n s = .ok s' ∧ P s' := by
  induction n generalizing s with
  | zero => exact ⟨s, rfl, hs⟩
  | succ n ih =>
    obtain ⟨m, hm, hPm⟩ := hnext s hs
    rw [rounds_succ hm]
    exact ih hPm

/-! ## The check -/

/-- Where the check of an arena stands: the nodes to be visited with their depths, the ids that are
not yet seen, and the measures so far. -/
structure Search where
  stack : List (NodeId × Nat)
  unseen : List NodeId
  shape : Shape

/-- The check begins at the root. -/
def Search.start (t : Tree) : Search := ⟨[(Tree.root, 0)], t.ids, ⟨0, 0, 0⟩⟩

namespace Tree

/-- One round of the check: the node on top of the stack is visited. -/
def searchRound (t : Tree) : Search → Except Fault Search
  | ⟨[], unseen, shape⟩ => .ok ⟨[], unseen, shape⟩
  | ⟨(id, depth) :: rest, unseen, shape⟩ =>
    if id ∈ unseen then
      match t.node? id with
      | none => .error (.malformedTree id .dangling)
      | some (.leaf _) =>
        .ok ⟨rest, unseen.erase id,
          { shape with leaves := shape.leaves + 1, depth := max shape.depth depth }⟩
      | some (.split _ _ left right) =>
        match t.childFlaw? right <|> t.childFlaw? left with
        | some flaw => .error (.malformedTree id flaw)
        | none =>
          .ok ⟨(left, depth + 1) :: (right, depth + 1) :: rest, unseen.erase id,
            { shape with splits := shape.splits + 1 }⟩
    else .error (.malformedTree id .reachedTwice)

/-- **The check of an arena, however malformed, is over after one round for each unseen id and one
more**: its stack is empty, or a fault has ended it. Every round that goes on takes an id away. -/
theorem rounds_searchRound (t : Tree) (stack : List (NodeId × Nat)) (unseen : List NodeId)
    (shape : Shape) {n : Nat} (hn : unseen.length < n) :
    rounds t.searchRound n ⟨stack, unseen, shape⟩ =
      (t.explore stack unseen shape).map fun (shape, unseen) => ⟨[], unseen, shape⟩ := by
  induction stack, unseen, shape using Tree.explore.induct t generalizing n with
  | case1 unseen shape =>
    rw [explore]
    have hdone : t.searchRound ⟨[], unseen, shape⟩ = .ok ⟨[], unseen, shape⟩ := rfl
    exact rounds_fixed hdone n
  | case2 unseen shape id depth rest hmem hnode =>
    obtain ⟨n, rfl⟩ : ∃ k, n = k + 1 := ⟨n - 1, by omega⟩
    rw [explore, dif_pos hmem, hnode]
    exact rounds_succ_error (by simp only [searchRound, if_pos hmem, hnode])
  | case3 unseen shape id depth rest hmem v hnode ih =>
    obtain ⟨n, rfl⟩ : ∃ k, n = k + 1 := ⟨n - 1, by omega⟩
    have hlength := List.length_erase_of_mem hmem
    have hpos := List.length_pos_of_mem hmem
    rw [explore, dif_pos hmem, hnode]
    rw [rounds_succ (by simp only [searchRound, if_pos hmem, hnode]; rfl)]
    exact ih (by omega)
  | case4 unseen shape id depth rest hmem feature threshold l r hnode flaw hflaw =>
    obtain ⟨n, rfl⟩ : ∃ k, n = k + 1 := ⟨n - 1, by omega⟩
    rw [explore, dif_pos hmem, hnode]
    simp only [hflaw]
    exact rounds_succ_error (by simp only [searchRound, if_pos hmem, hnode, hflaw])
  | case5 unseen shape id depth rest hmem feature threshold l r hnode hflaw ih =>
    obtain ⟨n, rfl⟩ : ∃ k, n = k + 1 := ⟨n - 1, by omega⟩
    have hlength := List.length_erase_of_mem hmem
    have hpos := List.length_pos_of_mem hmem
    rw [explore, dif_pos hmem, hnode]
    simp only [hflaw]
    rw [rounds_succ (by simp only [searchRound, if_pos hmem, hnode, hflaw]; rfl)]
    exact ih (by omega)
  | case6 unseen shape id depth rest hmem =>
    obtain ⟨n, rfl⟩ : ∃ k, n = k + 1 := ⟨n - 1, by omega⟩
    rw [explore, dif_neg hmem]
    exact rounds_succ_error (by simp only [searchRound, if_neg hmem])

/-- Every id on the stack names a node. -/
def InBounds (t : Tree) (q : Search) : Prop := ∀ p ∈ q.stack, p.1.toNat < t.size

/-- Children go onto the stack only after their ids are compared with the size of the arena. -/
theorem inBounds_of_searchRound {t : Tree} {q q' : Search} (hq : t.InBounds q)
    (h : t.searchRound q = .ok q') : t.InBounds q' := by
  unfold searchRound at h
  split at h
  · cases h
    exact hq
  · rename_i id depth rest unseen shape
    have hrest : ∀ p ∈ rest, p.1.toNat < t.size := fun p hp => hq p (List.mem_cons_of_mem _ hp)
    split at h
    · split at h
      · cases h
      · cases h
        exact hrest
      · split at h
        · cases h
        · rename_i left right hnode hflaw
          cases h
          rw [Option.orElse_eq_orElse, Option.orElse_eq_or, Option.or_eq_none_iff] at hflaw
          have hleft := (childFlaw?_eq_none hflaw.2).1
          have hright := (childFlaw?_eq_none hflaw.1).1
          intro p hp
          simp only [List.mem_cons] at hp
          rcases hp with rfl | rfl | hp
          · exact hleft
          · exact hright
          · exact hrest p hp
    · cases h

/-- **The check never looks at an id that is no node.** -/
theorem rounds_searchRound_inBounds {t : Tree} (hsize : 0 < t.size) {n : Nat} {q : Search}
    (h : rounds t.searchRound n (.start t) = .ok q) : t.InBounds q := by
  refine rounds_preserve (fun _ _ => inBounds_of_searchRound) ?_ h
  intro p hp
  obtain rfl := List.mem_singleton.1 hp
  exact hsize

/-! ## Walks -/

/-- One round of a walk: the input goes one split further; at a leaf it stays. -/
def walkRound (t : Tree) (valueOf : FeatureId → UInt32) (id : NodeId) : Except Fault NodeId :=
  match t.node? id with
  | none => .error (.malformedTree id .dangling)
  | some (.leaf _) => .ok id
  | some (.split feature threshold left right) =>
    .ok (if goesLeft (valueOf feature) threshold then left else right)

/-- **A walk through at most `n` splits is `n` rounds** that never leave the arena and end at a
leaf. -/
theorem walk_eq_some_iff {t : Tree} {valueOf : FeatureId → UInt32} {n : Nat} {id : NodeId}
    {v : Verdict} : t.walk valueOf (n + 1) id = some v ↔
      ∃ leaf, rounds (t.walkRound valueOf) n id = .ok leaf ∧ t.node? leaf = some (.leaf v) := by
  induction n generalizing id with
  | zero =>
    cases hnode : t.node? id with
    | none => simp [walk, rounds, hnode]
    | some m => cases m <;> simp [walk, rounds, hnode]
  | succ n ih =>
    cases hnode : t.node? id with
    | none =>
      rw [walk, rounds_succ_error (by rw [walkRound, hnode]), hnode]
      simp
    | some m =>
      cases m with
      | leaf w =>
        have hround : t.walkRound valueOf id = .ok id := by rw [walkRound, hnode]
        rw [walk, rounds_fixed hround, hnode]
        simp [hnode]
      | split feature threshold left right =>
        rw [walk, rounds_succ (by rw [walkRound, hnode]), hnode]
        exact ih

end Tree

/-! ## Routes -/

/-- Where the listing of routes stands: the nodes to be visited, each with the constraints under
which it is reached, the ids visited so far, and the routes found. -/
structure Listing where
  stack : List (NodeId × List Constraint)
  visited : List NodeId
  routes : List Route

/-- The listing begins at the root. -/
def Listing.start : Listing := ⟨[(Tree.root, [])], [], []⟩

namespace Tree

variable {t : Tree} {schema : Schema}

/-- One round of the listing: the node on top of the stack is visited. -/
def listRound (t : Tree) (schema : Schema) : Listing → Except Fault Listing
  | ⟨[], visited, routes⟩ => .ok ⟨[], visited, routes⟩
  | ⟨(id, constraints) :: rest, visited, routes⟩ =>
    match t.node? id with
    | none => .error (.malformedTree id .dangling)
    | some (.leaf v) =>
      (Route.ofLeaf schema id v constraints).map fun r => ⟨rest, visited ++ [id], routes ++ [r]⟩
    | some (.split feature threshold left right) =>
      .ok ⟨(left, constraints ++ [⟨feature, .atMost, threshold⟩]) ::
        (right, constraints ++ [⟨feature, .above, threshold⟩]) :: rest, visited ++ [id], routes⟩

/-- **Listing the routes below a branch takes one round for each of its nodes**, which are visited
in preorder; it finds the routes of the branch, or ends with their fault. -/
theorem rounds_listRound {b : Branch} (hb : b.LiesIn t) {fuel : Nat} (hfuel : b.depth < fuel)
    (constraints : List Constraint) (rest : List (NodeId × List Constraint))
    (visited : List NodeId) (routes : List Route) :
    rounds (t.listRound schema) b.ids.length ⟨(b.root, constraints) :: rest, visited, routes⟩ =
      (t.routesBelow schema fuel b.root constraints).map fun rs =>
        ⟨rest, visited ++ b.ids, routes ++ rs⟩ := by
  induction b generalizing fuel constraints rest visited routes with
  | leaf id v =>
    obtain ⟨fuel, rfl⟩ : ∃ n, fuel = n + 1 := ⟨fuel - 1, by omega⟩
    have hnode : t.node? id = some (.leaf v) := hb
    simp only [routesBelow, Branch.root, hnode]
    cases hleaf : Route.ofLeaf schema id v constraints with
    | error fault =>
      exact rounds_succ_error (by simp only [listRound, hnode, hleaf]; rfl)
    | ok r =>
      exact rounds_succ (by simp only [listRound, hnode, hleaf]; rfl)
  | split id feature threshold l r ihl ihr =>
    simp only [Branch.depth] at hfuel
    obtain ⟨fuel, rfl⟩ : ∃ n, fuel = n + 1 := ⟨fuel - 1, by omega⟩
    obtain ⟨hnode, hl, hr⟩ := hb
    have hround : t.listRound schema ⟨(id, constraints) :: rest, visited, routes⟩ =
        .ok ⟨(l.root, constraints ++ [⟨feature, .atMost, threshold⟩]) ::
          (r.root, constraints ++ [⟨feature, .above, threshold⟩]) :: rest, visited ++ [id],
          routes⟩ := by
      simp only [listRound, hnode]
    show rounds (t.listRound schema) _ ⟨(id, constraints) :: rest, visited, routes⟩ =
      (t.routesBelow schema (fuel + 1) id constraints).map _
    rw [Branch.ids_split, List.length_cons, List.length_append, rounds_succ hround, rounds_add,
      ihl hl (show l.depth < fuel by omega)]
    simp only [routesBelow, hnode]
    cases t.routesBelow schema fuel l.root (constraints ++ [⟨feature, .atMost, threshold⟩]) with
    | error fault => rfl
    | ok onLeft =>
      refine (ihr hr (show r.depth < fuel by omega) _ _ _ _).trans ?_
      cases t.routesBelow schema fuel r.root (constraints ++ [⟨feature, .above, threshold⟩]) with
      | error fault => rfl
      | ok onRight =>
        simp [Except.map, bind, Except.bind, pure, Except.pure]

/-- The listing of a checked arena ends with a fault only at a constraint on a feature that is not
declared. -/
theorem routesBelow_error {b : Branch} (hb : b.LiesIn t) {fuel : Nat} (hfuel : b.depth < fuel)
    {constraints : List Constraint} {fault : Fault}
    (h : t.routesBelow schema fuel b.root constraints = .error fault) :
    ∃ feature leaf, fault = .undeclaredFeature feature leaf := by
  induction b generalizing fuel constraints with
  | leaf id v =>
    obtain ⟨fuel, rfl⟩ : ∃ n, fuel = n + 1 := ⟨fuel - 1, by omega⟩
    have hnode : t.node? id = some (.leaf v) := hb
    simp only [routesBelow, Branch.root, hnode] at h
    unfold Route.ofLeaf at h
    split at h
    · cases h
      exact ⟨_, _, rfl⟩
    · cases h
  | split id feature threshold l r ihl ihr =>
    simp only [Branch.depth] at hfuel
    obtain ⟨fuel, rfl⟩ : ∃ n, fuel = n + 1 := ⟨fuel - 1, by omega⟩
    obtain ⟨hnode, hl, hr⟩ := hb
    change t.routesBelow schema (fuel + 1) id constraints = .error fault at h
    simp only [routesBelow, hnode] at h
    cases hleft : t.routesBelow schema fuel l.root
        (constraints ++ [⟨feature, .atMost, threshold⟩]) with
    | error fault' =>
      rw [hleft] at h
      cases h
      exact ihl hl (by omega) hleft
    | ok onLeft =>
      rw [hleft] at h
      cases hright : t.routesBelow schema fuel r.root
          (constraints ++ [⟨feature, .above, threshold⟩]) with
      | error fault' =>
        change t.routesBelow schema fuel r.root _ >>= _ = _ at h
        rw [hright] at h
        cases h
        exact ihr hr (by omega) hright
      | ok onRight =>
        change t.routesBelow schema fuel r.root _ >>= _ = _ at h
        rw [hright] at h
        cases h

end Tree

/-! ## Main result -/

/-- **The loops over an arena end.** The check of any arena is over after at most one round more
than there are nodes, never looks at an id that is no node and never reports one as missing. If it
succeeds, then every input stands at a leaf after as many rounds as the tree is deep, which gives
the input its verdict; and listing the routes takes one round for each node, visits each node once,
and can only be ended by a feature that is not declared. -/
theorem Tree.loops_end (t : Tree) :
    (∀ n, t.size < n → rounds t.searchRound n (.start t) =
      (t.explore [(root, 0)] t.ids ⟨0, 0, 0⟩).map fun (shape, unseen) => ⟨[], unseen, shape⟩) ∧
    (0 < t.size → ∀ n q, rounds t.searchRound n (.start t) = .ok q → t.InBounds q) ∧
    (∀ id, t.shape ≠ .error (.malformedTree id .dangling)) ∧
    ∀ s, t.shape = .ok s →
      (∀ valueOf, ∃ leaf v, rounds (t.walkRound valueOf) s.depth root = .ok leaf ∧
        t.node? leaf = some (.leaf v) ∧ t.verdict? valueOf = some v) ∧
      ∀ schema, ∃ visited : List NodeId, visited.Nodup ∧ visited.Perm t.ids ∧
        rounds (t.listRound schema) t.size .start =
          (t.routes schema).map (fun routes => ⟨[], visited, routes⟩) ∧
        ∀ fault, t.routes schema = .error fault →
          ∃ feature leaf, fault = .undeclaredFeature feature leaf := by
  refine ⟨fun n hn => rounds_searchRound t _ _ _ (by rwa [t.length_ids]),
    fun hsize n q hq => rounds_searchRound_inBounds hsize hq, fun id hid => ?_, fun s hs => ?_⟩
  · obtain ⟨_, flaw, hfault, hdangling, -⟩ := shape_error hid
    cases hfault
    exact hdangling rfl
  · obtain ⟨b, hb, rfl⟩ := exists_spans hs
    refine ⟨fun valueOf => ?_, fun schema => ⟨b.ids, hb.nodup, hb.all, ?_, fun fault hfault => ?_⟩⟩
    · have hwalk : t.walk valueOf (b.depth + 1) b.root = some (b.verdictOn valueOf) :=
        Branch.walk_eq_verdictOn hb.lies (Nat.lt_succ_self b.depth)
      rw [hb.root_eq] at hwalk
      obtain ⟨leaf, hrounds, hleaf⟩ := walk_eq_some_iff.1 hwalk
      exact ⟨leaf, _, hrounds, hleaf, hb.verdict?_eq valueOf⟩
    · have hlist : rounds (t.listRound schema) b.ids.length ⟨[(b.root, [])], [], []⟩ =
          (t.routesBelow schema (t.size + 1) b.root []).map fun rs => ⟨[], [] ++ b.ids, [] ++ rs⟩ :=
        rounds_listRound hb.lies (Nat.lt_succ_of_lt hb.depth_lt_size) [] [] [] []
      rw [hb.root_eq, hb.all.length_eq, t.length_ids] at hlist
      exact hlist
    · rw [routes, ← hb.root_eq] at hfault
      exact routesBelow_error hb.lies (Nat.lt_succ_of_lt hb.depth_lt_size) hfault

/-- A tree that is deeper on its right side. -/
def Tree.lopsided : Tree :=
  ⟨#[.split 3 20 4 1, .split 5 7 3 2, .leaf .attack, .leaf .normal, .leaf .normal]⟩

/-- The two features that it tests. -/
def Schema.lopsided : Schema where
  features := [⟨3, "ttl", 8, 0, 255, none⟩, ⟨5, "port", 16, 0, 65535, none⟩]
  sound := by decide
  distinct := by decide

theorem Tree.lopsided_loops_end :
    0 < Tree.lopsided.size ∧ Tree.lopsided.shape = .ok ⟨2, 3, 2⟩ ∧
      (∀ n q, rounds Tree.lopsided.searchRound n (.start .lopsided) = .ok q →
        Tree.lopsided.InBounds q) ∧
      (∃ leaf v, rounds (Tree.lopsided.walkRound fun _ => 8) 2 Tree.root = .ok leaf ∧
        Tree.lopsided.node? leaf = some (.leaf v) ∧
        Tree.lopsided.verdict? (fun _ => 8) = some v) ∧
      ∃ visited routes, visited.Perm Tree.lopsided.ids ∧
        Tree.lopsided.routes .lopsided = .ok routes ∧
        rounds (Tree.lopsided.listRound .lopsided) 5 .start = .ok ⟨[], visited, routes⟩ := by
  have hshape : Tree.lopsided.shape = .ok ⟨2, 3, 2⟩ := by decide +kernel
  obtain ⟨routes, hroutes⟩ : ∃ routes, Tree.lopsided.routes .lopsided = .ok routes :=
    exists_ok_of_toBool (by decide +kernel)
  obtain ⟨-, hbounds, -, hchecked⟩ := Tree.loops_end .lopsided
  obtain ⟨hwalks, hlists⟩ := hchecked _ hshape
  obtain ⟨visited, -, hall, hlist, -⟩ := hlists .lopsided
  rw [hroutes] at hlist
  exact ⟨by decide, hshape, hbounds (by decide), hwalks _, visited, routes, hall, hroutes, hlist⟩

end MatchTree
