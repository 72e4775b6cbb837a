import MatchTree.Proofs.Alignment

/-!
# Codes of 16 bits and positions of bands

* `Axis.Numbered` — the code of each band is its position.
* `Axis.TellsApart` — no two bands have one code.
* `Tree.heap` — a complete binary tree with a threshold at each integer below a bound, on the one
  feature of `Schema.wide`, which takes all 32-bit values.

A band gets its position for a code. Codes have 16 bits, and the only limit on the number of bands
is the budget, which has 64.

Principal results: `toNat_code` — a code is the position modulo 65536; `numbered_iff`,
`tellsApart_iff`, `size_allCodes_iff` — codes are positions, no two bands share one, and the run of
all codes has one for each band, exactly up to 65536 bands; `codes_are_positions_iff` — the same of
the grid of a tree, by the number of its thresholds; `exists_code_repeated` — with 65536 thresholds
the last band has the code of the first.
-/

namespace MatchTree

namespace Axis

variable {a : Axis} {f : Feature}

/-- Every band has its position for a code. -/
def Numbered (a : Axis) : Prop := ∀ (k : Nat) (b : Band), a.bands[k]? = some b → b.code.toNat = k

/-- Bands at different positions have different codes. -/
def TellsApart (a : Axis) : Prop :=
  ∀ (i j : Nat) (b c : Band), a.bands[i]? = some b → a.bands[j]? = some c → b.code = c.code → i = j

theorem exists_band (h : k < a.size) : ∃ b, a.bands[k]? = some b :=
  ⟨_, Array.getElem?_eq_getElem h⟩

theorem lt_size {b : Band} (h : a.bands[k]? = some b) : k < a.size :=
  (Array.getElem?_eq_some_iff.1 h).1

namespace Tiles

/-- **A code is a position modulo 65536.** -/
theorem toNat_code (h : a.Tiles f) {k : Nat} {b : Band} (hb : a.bands[k]? = some b) :
    b.code.toNat = k % 65536 := by
  rw [h.coded k b hb, UInt16.toNat_ofNat']

/-- The 65537th band has the code of the first. -/
theorem code_repeated (h : a.Tiles f) (hsize : 65536 < a.size) :
    ∃ b c, a.bands[0]? = some b ∧ a.bands[65536]? = some c ∧ b.code = c.code := by
  obtain ⟨b, hb⟩ := exists_band (Nat.zero_lt_of_lt hsize)
  obtain ⟨c, hc⟩ := exists_band hsize
  refine ⟨b, c, hb, hc, UInt16.toNat_inj.1 ?_⟩
  rw [h.toNat_code hb, h.toNat_code hc]

theorem tellsApart_iff (h : a.Tiles f) : a.TellsApart ↔ a.size ≤ 65536 := by
  constructor
  · intro happart
    by_contra hsize
    obtain ⟨b, c, hb, hc, heq⟩ := h.code_repeated (Nat.lt_of_not_le hsize)
    have := happart _ _ b c hb hc heq
    omega
  · intro hsize i j b c hb hc heq
    have hi := lt_size hb
    have hj := lt_size hc
    have hmod : i % 65536 = j % 65536 := by rw [← h.toNat_code hb, ← h.toNat_code hc, heq]
    omega

theorem numbered_iff (h : a.Tiles f) : a.Numbered ↔ a.size ≤ 65536 := by
  constructor
  · intro hnumbered
    refine h.tellsApart_iff.1 fun i j b c hb hc heq => ?_
    rw [← hnumbered i b hb, ← hnumbered j c hc, heq]
  · intro hsize k b hb
    have hk := lt_size hb
    rw [h.toNat_code hb, Nat.mod_eq_of_lt (by omega)]

/-- The run of all codes is as long as there are bands exactly up to 65536 of them. -/
theorem size_allCodes_iff (h : a.Tiles f) (hf : f.flaw? = none) :
    a.allCodes.size = a.size ↔ a.size ≤ 65536 := by
  have hpos := h.size_pos hf
  have hfirst : a.allCodes.first.toNat = 0 := rfl
  have hlast : a.allCodes.last.toNat = (a.size - 1) % 65536 := UInt16.toNat_ofNat'
  rw [CodeRun.size, hfirst, hlast]
  omega

end Tiles

end Axis

/-! ## Grids -/

/-- **Codes are positions exactly up to 65536 bands.** On the grid of a tree, a code is its band's
position modulo 65536. All codes are the positions themselves, no two bands share one, and the run
of all codes has one for each band, each exactly if the tree cuts the feature into 65536 bands at
most. -/
theorem Grid.codes_are_positions_iff {t : Tree} {schema : Schema} {maxBands : UInt64} {g : Grid}
    (h : Grid.ofTree t schema maxBands = .ok g) :
    List.Forall₂ (fun f a =>
      a.size = t.bandCount f ∧ t.bandCount f ≤ maxBands.toNat ∧
        (∀ (k : Nat) (b : Band), a.bands[k]? = some b → b.code.toNat = k % 65536) ∧
        (a.Numbered ↔ t.bandCount f ≤ 65536) ∧ (a.TellsApart ↔ t.bandCount f ≤ 65536) ∧
        (a.allCodes.size = a.size ↔ t.bandCount f ≤ 65536)) schema.features g.axes := by
  have haxes := (Grid.ofTree_eq_ok_iff.1 h).2
  refine ((List.forall₂_and_left _ _).2 ⟨schema.sound, haxes⟩).imp fun f a hfa => ?_
  obtain ⟨hf, ha⟩ := hfa
  obtain ⟨htiles, hmax⟩ := Axis.ofSplits_ok hf ha
  have hsize : a.size = t.bandCount f := by
    obtain ⟨hinside, rfl, -⟩ := Axis.ofSplits_eq_ok_iff.1 ha
    exact Axis.size_eq_bandCount hinside
  rw [← hsize]
  exact ⟨rfl, hmax, fun k b hb => htiles.toNat_code hb, htiles.numbered_iff, htiles.tellsApart_iff,
    htiles.size_allCodes_iff hf⟩

/-! ## Many thresholds -/

/-- The feature that takes all 32-bit values. -/
def Feature.wide : Feature := ⟨0, "", 32, 0, 4294967295, none⟩

/-- The feature by itself. -/
def Schema.wide : Schema where
  features := [.wide]
  sound := by decide
  distinct := by decide

namespace Tree

/-- A complete binary tree with its nodes numbered level by level. The splits come first and are all
on one feature, each at its own id. -/
def heap (splitCount : Nat) : Tree :=
  ⟨(Array.range (2 * splitCount + 1)).map fun i =>
    if i < splitCount then
      .split 0 (Int64.ofNat i) (UInt32.ofNat (2 * i + 1)) (UInt32.ofNat (2 * i + 2))
    else .leaf .normal⟩

variable {n : Nat}

theorem size_heap : (heap n).size = 2 * n + 1 := by simp [heap, size]

theorem node?_heap (id : NodeId) :
    (heap n).node? id =
      if id.toNat < 2 * n + 1 then
        some (if id.toNat < n then
          .split 0 (Int64.ofNat id.toNat) (UInt32.ofNat (2 * id.toNat + 1))
            (UInt32.ofNat (2 * id.toNat + 2))
        else .leaf .normal)
      else none := by
  rw [node?, heap, Array.getElem?_map, Array.getElem?_range]
  split <;> rfl

/-- A heap has one split at each integer below their number. -/
theorem mem_splits_heap (hn : n < 2147483648) {s : Split} :
    s ∈ (heap n).splits ↔
      s.node.toNat < n ∧ s.feature = 0 ∧ s.threshold = Int64.ofNat s.node.toNat := by
  rw [mem_splits_iff (by rw [size_heap]; omega), node?_heap]
  by_cases hs : s.node.toNat < n
  · rw [if_pos (by omega), if_pos hs]
    simp [hs, eq_comm]
  · rw [if_neg hs]
    constructor
    · rintro ⟨left, right, hnode⟩
      split at hnode <;> cases hnode
    · rintro ⟨hlt, -⟩
      exact absurd hlt hs

/-- The thresholds of a heap are the integers below the number of its splits. -/
theorem exists_split_heap_iff (hn : n < 2147483648) {i : Int} :
    (∃ s ∈ (heap n).splitsOn .wide, s.threshold.toInt = i) ↔ ∃ k < n, (k : Int) = i := by
  have htoInt : ∀ k < n, (Int64.ofNat k).toInt = k := fun k hk =>
    Int64.toInt_ofNat_of_lt (by omega)
  constructor
  · rintro ⟨s, hs, rfl⟩
    obtain ⟨hlt, -, hthreshold⟩ := (mem_splits_heap hn).1 (mem_splitsOn.1 hs).1
    exact ⟨s.node.toNat, hlt, by rw [hthreshold, htoInt _ hlt]⟩
  · rintro ⟨k, hk, rfl⟩
    have hid : (UInt32.ofNat k).toNat = k := by
      rw [UInt32.toNat_ofNat', Nat.mod_eq_of_lt (by omega)]
    refine ⟨⟨UInt32.ofNat k, 0, Int64.ofNat k⟩, mem_splitsOn.2 ⟨?_, rfl⟩, htoInt k hk⟩
    exact (mem_splits_heap hn).2 ⟨by rwa [hid], rfl, by rw [hid]⟩

theorem bandCount_heap (hn : n < 2147483648) : (heap n).bandCount .wide = n + 1 := by
  have hperm : ((((heap n).splitsOn .wide).map fun s => s.threshold.toInt).filter fun i =>
      i < (Feature.wide.greatest.toNat : Int)).dedup.Perm
        ((List.range n).map fun k : Nat => (k : Int)) := by
    refine (List.perm_ext_iff_of_nodup (List.nodup_dedup _)
      (List.nodup_range.map fun _ _ => Int.ofNat_inj.1)).2 fun i => ?_
    rw [List.mem_dedup, List.mem_filter, List.mem_map, exists_split_heap_iff hn, List.mem_map]
    simp only [List.mem_range, decide_eq_true_eq, and_iff_left_iff_imp]
    rintro ⟨k, hk, rfl⟩
    show (k : Int) < (4294967295 : Nat)
    omega
  rw [bandCount, hperm.length_eq, List.length_map, List.length_range]

end Tree

/-- A heap has a grid if the budget allows for one band more than it has splits. -/
theorem Grid.exists_ofTree_heap {n : Nat} {maxBands : UInt64} (hn : n < 2147483648)
    (hmax : n + 1 ≤ maxBands.toNat) :
    ∃ a, Grid.ofTree (.heap n) .wide maxBands = .ok ⟨[a]⟩ ∧ a.Tiles .wide ∧ a.size = n + 1 := by
  have hinside : ∀ s ∈ (Tree.heap n).splitsOn .wide, Feature.wide.contains s.threshold = true := by
    intro s hs
    obtain ⟨k, hk, hthreshold⟩ := (Tree.exists_split_heap_iff hn).1 ⟨s, hs, rfl⟩
    rw [Feature.contains_threshold_iff, ← hthreshold]
    show ((0 : Nat) : Int) ≤ k ∧ (k : Int) ≤ (4294967295 : Nat)
    omega
  have hsize := (Axis.size_eq_bandCount hinside).trans (Tree.bandCount_heap hn)
  have haxis := Axis.ofSplits_eq_ok_iff.2 ⟨hinside, rfl, Nat.le_trans (Nat.le_of_eq hsize) hmax⟩
  have hdeclared : ∀ s ∈ (Tree.heap n).splits, (Schema.wide.indexOf? s.feature).isSome := by
    intro s hs
    rw [((Tree.mem_splits_heap hn).1 hs).2.1]
    rfl
  exact ⟨_, Grid.ofTree_eq_ok_iff.2 ⟨hdeclared, .cons haxis .nil⟩,
    (Axis.ofSplits_ok (Schema.wide.sound _ List.mem_cons_self) haxis).1, hsize⟩

/-- Codes are positions in a heap with as many bands as there are codes. -/
theorem Grid.heap_codes_are_positions :
    ∃ a, Grid.ofTree (.heap 65535) .wide 65537 = .ok ⟨[a]⟩ ∧ a.size = 65536 ∧ a.Numbered ∧
      a.TellsApart := by
  obtain ⟨a, ha, -, hsize⟩ := @Grid.exists_ofTree_heap 65535 65537 (by decide) (by decide)
  have hcodes := Grid.codes_are_positions_iff ha
  obtain ⟨hcount, -, -, hnumbered, happart, -⟩ := (List.forall₂_cons.1 hcodes).1
  have hle : (Tree.heap 65535).bandCount .wide ≤ 65536 :=
    Nat.le_of_eq (hcount.symm.trans hsize)
  exact ⟨a, ha, hsize, hnumbered.2 hle, happart.2 hle⟩

/-- **With one threshold more, the last band has the code of the first.** -/
theorem Grid.exists_code_repeated :
    ∃ a b c, Grid.ofTree (.heap 65536) .wide 65537 = .ok ⟨[a]⟩ ∧ a.bands[0]? = some b ∧
      a.bands[65536]? = some c ∧ b.code = c.code ∧ ¬ a.Numbered ∧ ¬ a.TellsApart := by
  obtain ⟨a, ha, htiles, hsize⟩ := @Grid.exists_ofTree_heap 65536 65537 (by decide) (by decide)
  obtain ⟨b, c, hb, hc, hcode⟩ := htiles.code_repeated (by omega)
  refine ⟨a, b, c, ha, hb, hc, hcode, ?_, ?_⟩
  · rw [htiles.numbered_iff]
    omega
  · rw [htiles.tellsApart_iff]
    omega

end MatchTree
