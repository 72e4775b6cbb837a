import MatchTree.Proofs.RealValue
import MatchTree.Proofs.Shape
import MatchTree.Tree.ArrayExport

/-!
# What parallel arrays say

* `ArrayExport.entryAt?` — what the arrays hold for a node.
* `ArrayExport.Says` — the walk that the arrays themselves describe, over the reals: a leaf has two
  missing children and the verdict of its counts, and any other node sends the values up to its
  threshold to the left.
* `ArrayExport.WellFormed` — the arrays have one length, and what they hold for a split can be used.
* `Entry.Gives` — the node that is made from an entry.

Principal results: `goesLeft_iff` — a value is up to the floor of a threshold exactly if it is up to
the threshold; `node_ok` — an entry gives its node, or the export is refused; `says_of_walk` — a
walk over the tree follows the arrays; `tree_follows_arrays` — an export that is accepted is well
formed, its nodes keep their ids, and where they form a tree its verdicts are those that the arrays
say.
-/

namespace MatchTree

theorem Verdict.eq_of_attack_iff {v w : Verdict} (h : v = .attack ↔ w = .attack) : v = w := by
  cases v <;> cases w <;> simp_all

namespace ArrayExport

/-- What the arrays hold for a node. -/
def entryAt? (x : ArrayExport) (i : Nat) : Option Entry := do
  return ⟨← x.left[i]?, ← x.right[i]?, ← x.feature[i]?, ← x.threshold[i]?, ← x.counts[i]?⟩

/-- Both children are missing. -/
def Entry.IsLeaf (e : Entry) : Prop := e.left = noChild ∧ e.right = noChild

/-- Of the two counts of the first output, the second one is greater. -/
def Entry.Attacks (e : Entry) : Prop :=
  ∃ normal attack x y, e.counts.deciding = [normal, attack] ∧ normal.value? = some x ∧
    attack.value? = some y ∧ x < y

/-- The verdict that the arrays come to from a node. -/
inductive Says (x : ArrayExport) (valueOf : FeatureId → UInt32) : Nat → Verdict → Prop
  | leaf {i : Nat} {e : Entry} {v : Verdict} (hentry : x.entryAt? i = some e) (hleaf : e.IsLeaf)
      (hverdict : v = .attack ↔ e.Attacks) : x.Says valueOf i v
  | turn {i child : Nat} {e : Entry} {v : Verdict} {feature : FeatureId} {r : ℝ}
      (hentry : x.entryAt? i = some e) (hsplit : ¬ e.IsLeaf)
      (hfeature : e.feature.toInt = feature.toNat)
      (hthreshold : e.threshold.value? = some (r : EReal))
      (hchild : (if ((valueOf feature).toNat : ℝ) ≤ r then e.left else e.right).toInt = child)
      (hrest : x.Says valueOf child v) : x.Says valueOf i v

/-- A split of an arena with `count` nodes can be used: it has a 32-bit feature, a finite threshold
and two children among the nodes. -/
structure Entry.Usable (e : Entry) (count : Nat) : Prop where
  feature : ∃ f : FeatureId, e.feature.toInt = f.toNat
  threshold : ∃ r : ℝ, e.threshold.value? = some (r : EReal)
  left : 0 ≤ e.left.toInt ∧ e.left.toInt < count
  right : 0 ≤ e.right.toInt ∧ e.right.toInt < count

/-- The arrays have one length, and every split can be used. -/
structure WellFormed (x : ArrayExport) : Prop where
  right_length : x.right.length = x.left.length
  feature_length : x.feature.length = x.left.length
  threshold_length : x.threshold.length = x.left.length
  counts_length : x.counts.length = x.left.length
  splits : ∀ i e, x.entryAt? i = some e → ¬ e.IsLeaf → e.Usable x.left.length

/-- The node says what the entry says; ids and features are the same, and thresholds are rounded
down. -/
def Entry.Gives (e : Entry) : Node → Prop
  | .leaf v => e.IsLeaf ∧ (v = .attack ↔ e.Attacks)
  | .split feature threshold left right =>
    ¬ e.IsLeaf ∧ e.feature.toInt = feature.toNat ∧
      (∃ r : ℝ, e.threshold.value? = some (r : EReal) ∧ threshold.toInt = ⌊r⌋) ∧
      e.left.toInt = left.toNat ∧ e.right.toInt = right.toNat

/-! ## Entries -/

theorem Entry.isLeaf_iff {e : Entry} : e.isLeaf = true ↔ e.IsLeaf := by
  rw [isLeaf, Bool.and_eq_true, beq_iff_eq, beq_iff_eq, IsLeaf]

theorem entryAt?_eq_some {x : ArrayExport} {i : Nat} {e : Entry} :
    x.entryAt? i = some e ↔ x.left[i]? = some e.left ∧ x.right[i]? = some e.right ∧
      x.feature[i]? = some e.feature ∧ x.threshold[i]? = some e.threshold ∧
      x.counts[i]? = some e.counts := by
  obtain ⟨l, r, f, t, c⟩ := e
  simp [entryAt?, Option.bind_eq_some_iff]

/-- The entries of arrays of one length are those of the nodes. -/
theorem entries?_eq_some {x : ArrayExport} {es : List Entry} (h : x.entries? = some es) :
    (x.right.length = x.left.length ∧ x.feature.length = x.left.length ∧
      x.threshold.length = x.left.length ∧ x.counts.length = x.left.length) ∧
      es.length = x.left.length ∧ ∀ i, es[i]? = x.entryAt? i := by
  unfold entries? at h
  rw [Option.ite_none_right_eq_some, Option.some.injEq] at h
  obtain ⟨⟨hright, hfeature, hthreshold, hcounts⟩, rfl⟩ := h
  refine ⟨⟨hright, hfeature, hthreshold, hcounts⟩, by simp; omega, fun i => ?_⟩
  ext e
  rw [entryAt?_eq_some, List.getElem?_map, Option.map_eq_some_iff]
  simp only [List.getElem?_zip_eq_some, Prod.exists]
  constructor
  · rintro ⟨l, r, f, t, c, ⟨hl, hr, hf, ht, hc⟩, rfl⟩
    exact ⟨hl, hr, hf, ht, hc⟩
  · rintro ⟨hl, hr, hf, ht, hc⟩
    exact ⟨_, _, _, _, _, ⟨hl, hr, hf, ht, hc⟩, rfl⟩

/-! ## Checks of one entry -/

theorem verdict_ok {node : Nat} {e : Entry} {v : Verdict}
    (h : verdict node e.counts.deciding = .ok v) : v = .attack ↔ e.Attacks := by
  unfold verdict at h
  split at h
  · rename_i normal attack hcounts
    cases h
    have hattacks : e.Attacks ↔ normal.lt attack = true := by
      rw [Binary64.lt_iff, Entry.Attacks, hcounts]
      simp
    rw [hattacks]
    split <;> simp_all
  · cases h

theorem featureId_ok {node : Nat} {index : Int64} {f : FeatureId}
    (h : featureId node index = .ok f) : index.toInt = f.toNat := by
  unfold featureId at h
  split at h
  · rename_i hrange
    cases h
    have hsize : UInt32.size = 4294967296 := rfl
    rw [UInt32.toNat_ofNat', Nat.mod_eq_of_lt (by omega)]
    omega
  · cases h

/-- A threshold that is usable is finite, and becomes its floor. -/
theorem integerThreshold_ok {node : Nat} {t : Binary64} {i : Int64}
    (h : integerThreshold node t = .ok i) :
    ∃ r : ℝ, t.value? = some (r : EReal) ∧ i.toInt = ⌊r⌋ := by
  unfold integerThreshold at h
  split at h
  · rename_i floor hfloor
    split at h
    · cases h
    · rename_i hbound
      cases h
      obtain ⟨r, hr, rfl⟩ := Binary64.floor?_eq_some_iff.1 hfloor
      refine ⟨r, hr, ?_⟩
      rw [Binary64.exceeds_iff hr, not_lt, abs_le] at hbound
      have hcast : ((thresholdBound : Nat) : ℝ) = ((10 ^ 15 : Int) : ℝ) := by
        norm_num [thresholdBound]
      rw [hcast] at hbound
      have hlow : -10 ^ 15 ≤ ⌊r⌋ := Int.le_floor.2 (by exact_mod_cast hbound.1)
      have hhigh : ⌊r⌋ ≤ 10 ^ 15 := Int.floor_le_iff.2 (by push_cast at hbound ⊢; linarith)
      exact Int64.toInt_ofInt_of_le (by omega) (by omega)
  · cases h

theorem childId_ok {node count : Nat} {child : Int64} {id : NodeId}
    (h : childId node count child = .ok id) :
    (0 ≤ child.toInt ∧ child.toInt < count) ∧ id = UInt32.ofNat child.toInt.toNat := by
  unfold childId at h
  split at h
  · cases h
  · cases h
    exact ⟨by omega, rfl⟩

/-- **An entry that is accepted gives its node**, and can be used if it is a split. -/
theorem node_ok {e : Entry} {node count : Nat} {n : Node} (h : e.node node count = .ok n) :
    (¬ e.IsLeaf → e.Usable count) ∧ (count ≤ 4294967296 → e.Gives n) := by
  unfold Entry.node at h
  split at h
  · rename_i hleaf
    have hleaf := Entry.isLeaf_iff.1 hleaf
    obtain ⟨v, hv, hn⟩ := bind_eq_ok.1 h
    cases hn
    exact ⟨fun hsplit => absurd hleaf hsplit, fun _ => ⟨hleaf, verdict_ok hv⟩⟩
  · rename_i hsplit
    rw [Entry.isLeaf_iff] at hsplit
    obtain ⟨feature, hfeature, h⟩ := bind_eq_ok.1 h
    obtain ⟨threshold, hthreshold, h⟩ := bind_eq_ok.1 h
    obtain ⟨left, hleft, h⟩ := bind_eq_ok.1 h
    obtain ⟨right, hright, hn⟩ := bind_eq_ok.1 h
    cases hn
    have hfeature := featureId_ok hfeature
    obtain ⟨r, hr, hfloor⟩ := integerThreshold_ok hthreshold
    obtain ⟨hleftRange, rfl⟩ := childId_ok hleft
    obtain ⟨hrightRange, rfl⟩ := childId_ok hright
    refine ⟨fun _ => ⟨⟨feature, hfeature⟩, ⟨r, hr⟩, hleftRange, hrightRange⟩, fun hcount => ?_⟩
    refine ⟨hsplit, hfeature, ⟨r, hr, hfloor⟩, ?_, ?_⟩
    · rw [UInt32.toNat_ofNat', Nat.mod_eq_of_lt (by omega)]
      omega
    · rw [UInt32.toNat_ofNat', Nat.mod_eq_of_lt (by omega)]
      omega

/-! ## Trees -/

/-- **An export that is accepted** has arrays of one length, and its tree has a node for each
entry, in their order. -/
theorem tree_ok {x : ArrayExport} {t : Tree} (h : x.tree = .ok t) :
    (x.right.length = x.left.length ∧ x.feature.length = x.left.length ∧
      x.threshold.length = x.left.length ∧ x.counts.length = x.left.length) ∧
      t.size = x.left.length ∧
      ∀ i e, x.entryAt? i = some e →
        ∃ n, t.nodes[i]? = some n ∧ e.node i x.left.length = .ok n := by
  unfold tree at h
  split at h
  · cases h
  · rename_i es hes
    obtain ⟨hlengths, hlength, hentry⟩ := entries?_eq_some hes
    obtain ⟨nodes, hnodes, hok⟩ := bind_eq_ok.1 h
    cases hok
    rw [mapM_eq_ok] at hnodes
    have hsize : nodes.length = x.left.length := by
      rw [← hnodes.length_eq, List.length_zipIdx, hlength]
    refine ⟨hlengths, by simpa [Tree.size] using hsize, fun i e he => ?_⟩
    rw [← hentry, List.getElem?_eq_some_iff] at he
    obtain ⟨hi, he⟩ := he
    have hi' : i < nodes.length := by omega
    have hnode := hnodes.get (by simpa using hi) hi'
    refine ⟨nodes[i], by simp [hi'], ?_⟩
    simpa [he, hlength] using hnode

theorem wellFormed_of_tree {x : ArrayExport} {t : Tree} (h : x.tree = .ok t) : x.WellFormed := by
  obtain ⟨⟨hright, hfeature, hthreshold, hcounts⟩, -, hnodes⟩ := tree_ok h
  refine ⟨hright, hfeature, hthreshold, hcounts, fun i e he hsplit => ?_⟩
  obtain ⟨n, -, hn⟩ := hnodes i e he
  exact (node_ok hn).1 hsplit

theorem WellFormed.exists_entry {x : ArrayExport} (hx : x.WellFormed) {i : Nat}
    (hi : i < x.left.length) : ∃ e, x.entryAt? i = some e := by
  have hright : i < x.right.length := hx.right_length ▸ hi
  have hfeature : i < x.feature.length := hx.feature_length ▸ hi
  have hthreshold : i < x.threshold.length := hx.threshold_length ▸ hi
  have hcounts : i < x.counts.length := hx.counts_length ▸ hi
  refine ⟨⟨x.left[i], x.right[i], x.feature[i], x.threshold[i], x.counts[i]⟩, ?_⟩
  rw [entryAt?_eq_some]
  simp

/-- The node with an id is given by the entry at its place. -/
theorem exists_gives {x : ArrayExport} {t : Tree} (h : x.tree = .ok t) (hsize : t.size ≤ 4294967296)
    {id : NodeId} {n : Node} (hn : t.node? id = some n) :
    ∃ e, x.entryAt? id.toNat = some e ∧ e.Gives n := by
  obtain ⟨-, hlength, hnodes⟩ := tree_ok h
  obtain ⟨hid, -⟩ := Array.getElem?_eq_some_iff.1 hn
  obtain ⟨e, he⟩ := (wellFormed_of_tree h).exists_entry (Nat.lt_of_lt_of_eq hid hlength)
  obtain ⟨m, hm, hgives⟩ := hnodes _ e he
  obtain rfl : m = n := Option.some.inj (hm.symm.trans hn)
  exact ⟨e, he, (node_ok hgives).2 (hlength ▸ hsize)⟩

/-! ## Walks -/

/-- **A value is up to the floor of a threshold exactly if it is up to the threshold.** -/
theorem goesLeft_iff {threshold : Int64} {r : ℝ} (h : threshold.toInt = ⌊r⌋) (value : UInt32) :
    goesLeft value threshold = true ↔ (value.toNat : ℝ) ≤ r := by
  rw [goesLeft, decide_eq_true_iff, h, Int.le_floor]
  simp

/-- **A walk over the tree follows the arrays.** -/
theorem says_of_walk {x : ArrayExport} {t : Tree} (h : x.tree = .ok t) (hsize : t.size ≤ 4294967296)
    {valueOf : FeatureId → UInt32} {fuel : Nat} {id : NodeId} {v : Verdict}
    (hwalk : t.walk valueOf fuel id = some v) : x.Says valueOf id.toNat v := by
  induction fuel generalizing id with
  | zero => cases hwalk
  | succ fuel ih =>
    rw [Tree.walk] at hwalk
    split at hwalk
    · cases hwalk
    · rename_i hnode
      cases hwalk
      obtain ⟨e, he, hleaf, hverdict⟩ := exists_gives h hsize hnode
      exact .leaf he hleaf hverdict
    · rename_i feature threshold left right hnode
      obtain ⟨e, he, hsplit, hfeature, ⟨r, hr, hfloor⟩, hleft, hright⟩ := exists_gives h hsize hnode
      have hsides := goesLeft_iff hfloor (valueOf feature)
      refine .turn he hsplit hfeature hr ?_ (ih hwalk)
      by_cases hside : goesLeft (valueOf feature) threshold = true
      · rw [if_pos hside, if_pos (hsides.1 hside), hleft]
      · rw [if_neg hside, if_neg (mt hsides.2 hside), hright]

/-- The arrays say one verdict at most. -/
theorem Says.unique {x : ArrayExport} {valueOf : FeatureId → UInt32} {i : Nat} {v w : Verdict}
    (hv : x.Says valueOf i v) (hw : x.Says valueOf i w) : v = w := by
  induction hv with
  | leaf he hleaf hv =>
    cases hw with
    | leaf he' _ hw =>
      obtain rfl := Option.some.inj (he.symm.trans he')
      exact Verdict.eq_of_attack_iff (hv.trans hw.symm)
    | turn he' hsplit =>
      obtain rfl := Option.some.inj (he.symm.trans he')
      exact absurd hleaf hsplit
  | turn he hsplit hfeature hr hchild _ ih =>
    cases hw with
    | leaf he' hleaf =>
      obtain rfl := Option.some.inj (he.symm.trans he')
      exact absurd hleaf hsplit
    | turn he' _ hfeature' hr' hchild' hrest =>
      obtain rfl := Option.some.inj (he.symm.trans he')
      obtain rfl := UInt32.toNat_inj.1 (Int.ofNat_inj.1 (hfeature.symm.trans hfeature'))
      obtain rfl := EReal.coe_injective (Option.some.inj (hr.symm.trans hr'))
      obtain rfl := Int.ofNat_inj.1 (hchild.symm.trans hchild')
      exact ih hrest

end ArrayExport

/-! ## Main result -/

/-- **An export that is accepted is well formed, and its tree follows the arrays.** Where the nodes
form a tree, each is given by the entry with its id, and every input gets the verdict that the
arrays say and no other. -/
theorem ArrayExport.tree_follows_arrays {x : ArrayExport} {t : Tree} (h : x.tree = .ok t) :
    x.WellFormed ∧ t.size = x.left.length ∧ ∀ s, t.shape = .ok s →
      (∀ id n, t.node? id = some n → ∃ e, x.entryAt? id.toNat = some e ∧ e.Gives n) ∧
      ∀ valueOf, ∃ v, t.verdict? valueOf = some v ∧ ∀ w, x.Says valueOf 0 w ↔ w = v := by
  refine ⟨wellFormed_of_tree h, (tree_ok h).2.1, fun s hs => ?_⟩
  obtain ⟨b, hb, -⟩ := Tree.exists_spans hs
  refine ⟨fun id n hn => exists_gives h hb.size_le hn, fun valueOf => ?_⟩
  have hverdict := hb.verdict?_eq valueOf
  have htold : x.Says valueOf 0 (b.verdictOn valueOf) := says_of_walk h hb.size_le hverdict
  refine ⟨_, hverdict, fun w => ⟨fun hw => hw.unique htold, ?_⟩⟩
  rintro rfl
  exact htold

/-- An export with a fractional threshold, one below zero and one with an integer, with counts of
both shapes, and with a tie. -/
def ArrayExport.mixed : ArrayExport where
  left := [1, 3, 5, -1, -1, -1, -1]
  right := [2, 4, 6, -1, -1, -1, -1]
  feature := [0, 2, 0, -2, -2, -2, -2]
  threshold := [.ofRatio false 129 2, .ofRatio true 1 2, .ofNat 200, .ofInt (-2), .ofInt (-2), .nan,
    .infinite true]
  counts := [.outputs [], .single [], .outputs [], .single [.ofNat 5, .ofNat 6],
    .outputs [[.ofNat 9, .ofNat 9]], .outputs [[.ofNat 1, .infinite false], [.ofNat 3]],
    .single [.nan, .ofNat 1]]

/-- The tree that it becomes. -/
def Tree.mixed : Tree :=
  ⟨#[.split 0 64 1 2, .split 2 (-1) 3 4, .split 0 200 5 6, .leaf .attack, .leaf .normal,
    .leaf .attack, .leaf .normal]⟩

theorem ArrayExport.mixed_tree_follows_arrays :
    ArrayExport.mixed.tree = .ok Tree.mixed ∧ Tree.mixed.shape = .ok ⟨2, 4, 3⟩ ∧
      ArrayExport.mixed.WellFormed ∧
      (Tree.mixed.verdict? (fun _ => 65) = some .attack ∧
        ArrayExport.mixed.Says (fun _ => 65) 0 .attack) ∧
      (Tree.mixed.verdict? (fun _ => 64) = some .normal ∧
        ArrayExport.mixed.Says (fun _ => 64) 0 .normal) := by
  have htree : ArrayExport.mixed.tree = .ok Tree.mixed := by decide +kernel
  have hshape : Tree.mixed.shape = .ok ⟨2, 4, 3⟩ := by decide +kernel
  obtain ⟨hwell, -, hwalks⟩ := ArrayExport.tree_follows_arrays htree
  have htold : ∀ value v, Tree.mixed.verdict? (fun _ => value) = some v →
      ArrayExport.mixed.Says (fun _ => value) 0 v := by
    intro value v hv
    obtain ⟨w, hw, htold⟩ := (hwalks _ hshape).2 fun _ => value
    exact (htold v).2 (Option.some.inj (hv.symm.trans hw))
  have hattack : Tree.mixed.verdict? (fun _ => 65) = some .attack := by decide
  have hnormal : Tree.mixed.verdict? (fun _ => 64) = some .normal := by decide
  exact ⟨htree, hshape, hwell, ⟨hattack, htold _ _ hattack⟩, hnormal, htold _ _ hnormal⟩

end MatchTree
