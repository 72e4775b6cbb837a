import MatchTree.Proofs.Alignment

/-!
# Bands between thresholds

* `Axis.Consecutive` — the bands go from the least value of a domain to the greatest one, each
  starting right after the one before it.
* `Tree.thresholdsBelow` — how many distinct thresholds a tree has on a feature below a value.

Principal results: `consecutive_ofEdges` — bands that are cut after ascending edges are consecutive;
`thresholdsBelow_eq` — where bands end at the thresholds and at the end of the domain only, the
position of the band that holds a value is the number of thresholds below the value;
`bands_between_thresholds` — both of these on the grid of a tree, with the codes of values inside
and outside the domains.
-/

namespace MatchTree

namespace Axis

/-! ## Consecutive bands -/

/-- The bands make up the domain, each starting right after the one before it. -/
structure Consecutive (a : Axis) (f : Feature) : Prop where
  size_pos : 0 < a.size
  ascending : Ascending a.bands
  starts : ∀ b, a.bands[0]? = some b → b.lower = f.least
  ends : ∀ b, a.bands[a.size - 1]? = some b → b.upper = f.greatest
  next : ∀ (k : Nat) (b c : Band), a.bands[k]? = some b → a.bands[k + 1]? = some c →
    c.lower.toNat = b.upper.toNat + 1

/-- **Bands that are cut after ascending edges are consecutive.** -/
theorem consecutive_ofEdges {f : Feature} {edges : List UInt32} (hf : f.least ≤ f.greatest)
    (h : Edges f.least f.greatest edges) : (ofEdges f edges).Consecutive f := by
  have hsize := size_ofEdges h
  have hlower : (ofEdges f edges).bands.toList.map (·.lower) =
      f.least :: (edges.filter (· ≠ f.greatest)).map (· + 1) := map_lower_cut h 0
  have hupper : (ofEdges f edges).bands.toList.map (·.upper) =
      edges.filter (· ≠ f.greatest) ++ [f.greatest] := map_upper_cut h 0
  -- What the two lists say of the band at a position.
  have hlowerAt : ∀ (k : Nat) (b : Band), (ofEdges f edges).bands[k]? = some b →
      (f.least :: (edges.filter (· ≠ f.greatest)).map (· + 1))[k]? = some b.lower := by
    intro k b hb
    rw [← hlower, List.getElem?_map, Array.getElem?_toList, hb]
    rfl
  have hupperAt : ∀ (k : Nat) (b : Band), (ofEdges f edges).bands[k]? = some b →
      (edges.filter (· ≠ f.greatest) ++ [f.greatest])[k]? = some b.upper := by
    intro k b hb
    rw [← hupper, List.getElem?_map, Array.getElem?_toList, hb]
    rfl
  refine ⟨by omega, (tiles_ofEdges hf h).ascending, fun b hb => ?_, fun b hb => ?_,
    fun k b c hb hc => ?_⟩
  · exact (Option.some.inj (hlowerAt 0 b hb)).symm
  · have hlast := hupperAt _ b hb
    rw [hsize, Nat.add_sub_cancel, List.getElem?_concat_length] at hlast
    exact (Option.some.inj hlast).symm
  · have hstart := hlowerAt _ c hc
    rw [List.getElem?_cons_succ, List.getElem?_map, Option.map_eq_some_iff] at hstart
    obtain ⟨e, he, heq⟩ := hstart
    have hend := hupperAt k b hb
    rw [List.getElem?_append_left (List.getElem?_eq_some_iff.1 he).1, he, Option.some.injEq] at hend
    obtain ⟨hmem, hne⟩ := List.mem_filter.1 (List.mem_of_getElem? he)
    rw [← heq, ← hend]
    exact h.toNat_succ hmem (by simpa using hne)

end Axis

/-! ## Positions of bands -/

/-- How many distinct thresholds there are on a feature below a value. -/
def Tree.thresholdsBelow (t : Tree) (f : Feature) (v : UInt32) : Nat :=
  (((t.splitsOn f).map fun s => s.threshold.toInt).filter fun i => i < (v.toNat : Int)).dedup.length

/-- **The band that holds a value comes after as many bands as there are thresholds below the
value.** -/
theorem Axis.Tiles.thresholdsBelow_eq {a : Axis} {f : Feature} {t : Tree} (h : a.Tiles f)
    (hends : ∀ i : Int, a.Ends i ↔
      i = f.greatest.toNat ∨ ∃ s ∈ t.splitsOn f, s.threshold.toInt = i)
    {k : Nat} {b : Band} (hb : a.bands[k]? = some b) {v : UInt32} (hv : b.contains v = true) :
    t.thresholdsBelow f v = k := by
  obtain ⟨hk, rfl⟩ := Array.getElem?_eq_some_iff.1 hb
  have hle := h.le_greatest_of_ends ⟨_, Array.getElem_mem hk, rfl⟩
  have hasc := h.ascending
  rw [Band.contains_iff] at hv
  have huppers : ((a.bands.toList.take k).map fun b => (b.upper.toNat : Int)).Nodup := by
    refine List.pairwise_map.2 ((hasc.apart.sublist (List.take_sublist k _)).imp_of_mem ?_)
    intro b c _ hc hlt heq
    have := hasc.ordered c (Array.mem_toList_iff.1 (List.mem_of_mem_take hc))
    omega
  have hlength : ((a.bands.toList.take k).map fun b => (b.upper.toNat : Int)).length = k := by
    rw [List.length_map, List.length_take, Array.length_toList]
    omega
  rw [Tree.thresholdsBelow, ← hlength]
  refine ((List.perm_ext_iff_of_nodup (List.nodup_dedup _) huppers).2 fun i => ?_).length_eq
  rw [List.mem_dedup, List.mem_filter, List.mem_map, decide_eq_true_iff, List.mem_map]
  constructor
  · rintro ⟨hthreshold, hlt⟩
    obtain ⟨c, hc, rfl⟩ := (hends i).2 (Or.inr hthreshold)
    obtain ⟨j, hj, rfl⟩ := Array.getElem_of_mem hc
    have hjk : j < k := by
      by_contra hkj
      have := hasc.upper_mono (Nat.le_of_not_lt hkj) hj
      omega
    exact ⟨a.bands[j], List.mem_take_iff_getElem.2 ⟨j, by simp; omega, rfl⟩, rfl⟩
  · rintro ⟨c, hc, rfl⟩
    obtain ⟨j, hj, rfl⟩ := List.mem_take_iff_getElem.1 hc
    rw [Array.getElem_toList]
    have hjk : j < k := by omega
    have hlt := hasc.upper_lt_lower hjk hk
    refine ⟨?_, by omega⟩
    rcases (hends _).1 ⟨_, Array.getElem_mem (Nat.lt_trans hjk hk), rfl⟩ with heq | hthreshold
    · omega
    · exact hthreshold

/-! ## Main result -/

/-- **The bands of a feature lie between the thresholds on it.** On the grid of a tree they are
consecutive from one end of the domain to the other, and end at the thresholds of the tree and at the
end of the domain, where a threshold makes no difference. A value of the domain has the number of
thresholds below it for its code, as far as codes go; a value outside has none. -/
theorem Grid.bands_between_thresholds {t : Tree} {schema : Schema} {maxBands : UInt64} {g : Grid}
    (h : Grid.ofTree t schema maxBands = .ok g) :
    List.Forall₂ (fun f a =>
      a.feature = f.id ∧ a.Consecutive f ∧
        (∀ i : Int, a.Ends i ↔
          i = f.greatest.toNat ∨ ∃ s ∈ t.splitsOn f, s.threshold.toInt = i) ∧
        (a.size ≤ 65536 → ∀ v, f.Admits v →
          ∃ c, a.codeOf? v = some c ∧ c.toNat = t.thresholdsBelow f v) ∧
        ∀ v, ¬ f.Admits v → a.codeOf? v = none) schema.features g.axes := by
  have haxes := (Grid.ofTree_eq_ok_iff.1 h).2
  refine ((List.forall₂_and_left _ _).2 ⟨schema.sound, haxes⟩).imp fun f a hfa => ?_
  obtain ⟨hf, ha⟩ := hfa
  have htiles := (Axis.ofSplits_ok hf ha).1
  obtain ⟨hinside, rfl, -⟩ := Axis.ofSplits_eq_ok_iff.1 ha
  have hordered := (Feature.flaw?_eq_none hf).1
  refine ⟨rfl, Axis.consecutive_ofEdges hordered (Axis.edges_edgesOf hinside),
    fun i => Axis.ends_iff hinside, fun hsmall v hv => ?_, fun v hv => ?_⟩
  · obtain ⟨c, hc⟩ := htiles.exists_codeOf? hv
    obtain ⟨b, hb, hcontains⟩ := (htiles.codeOf?_eq_some_iff hsmall).1 hc
    exact ⟨c, hc, (htiles.thresholdsBelow_eq (fun i => Axis.ends_iff hinside) hb hcontains).symm⟩
  · rw [Axis.codeOf?, htiles.bandAt?_eq_none_iff.2 hv]
    rfl

/-- A tree that has one threshold twice, and one at the end of the domain. -/
def Tree.steep : Tree :=
  ⟨#[.split 0 4294967294 1 2, .split 0 7 3 4, .split 0 4294967295 5 6, .leaf .normal,
    .split 0 7 7 8, .leaf .attack, .leaf .normal, .leaf .normal, .leaf .attack]⟩

/-- Its one feature, whose domain ends with the greatest 32-bit value. -/
def Schema.steep : Schema where
  features := [⟨0, "", 32, 5, 4294967295, none⟩]
  sound := by decide
  distinct := by decide

theorem Grid.steep_bands_between_thresholds :
    ∃ a, Grid.ofTree .steep .steep 3 = .ok ⟨[a]⟩ ∧ a.Ends 4294967294 ∧
      (∃ c, a.codeOf? 4294967295 = some c ∧ c.toNat = 2) ∧ a.codeOf? 4 = none := by
  obtain ⟨⟨axes⟩, hgrid⟩ : ∃ g, Grid.ofTree .steep .steep 3 = .ok g :=
    exists_ok_of_toBool (by decide +kernel)
  obtain ⟨a, rest, hbands, hrest, rfl⟩ :=
    List.forall₂_cons_left_iff.1 (Grid.bands_between_thresholds hgrid)
  cases List.forall₂_nil_left_iff.1 hrest
  have hsize : a.size ≤ 3 := (List.forall₂_cons.1 (Grid.ofTree_ok hgrid)).1.2
  obtain ⟨-, -, hends, hcode, hnone⟩ := hbands
  have hcount : Tree.steep.thresholdsBelow ⟨0, "", 32, 5, 4294967295, none⟩ 4294967295 = 2 := by
    decide
  refine ⟨a, hgrid, (hends _).2 (Or.inr ⟨⟨0, 0, 4294967294⟩, by decide, by decide⟩), ?_,
    hnone 4 (by decide)⟩
  rw [← hcount]
  exact hcode (by omega) 4294967295 (by decide)

end MatchTree
