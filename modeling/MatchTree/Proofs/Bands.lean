import Mathlib.Data.List.Pairwise
import MatchTree.Grid.Axis
import MatchTree.Proofs.Domain

/-!
# Bands that tile a domain

* `Ascending` — bands with ordered ends, each above the one before it; gaps are allowed.
* `Axis.Tiles` — the bands of an axis are ascending, make up the domain of a feature, and are
  numbered by their positions, as far as 16 bits go.

Principal results: `bandAt?_eq_some_iff` — halving finds the band that holds a value;
`ofSplits_ok` — cutting a domain at the thresholds of a tree tiles it; `codeOf?_eq_some_iff` — with
at most 65536 bands the code of a value is the position of its band; `codeOf?_least` — the code zero
is that of the least value of the domain.
-/

namespace MatchTree

/-! ## Halving -/

/-- **Halving finds the boundary** between the items that satisfy `p` and those that do not. -/
theorem bisect_spec {α : Type} {p : α → Bool} {xs : Array α}
    (hmono : ∀ i j (hj : j < xs.size) (hij : i ≤ j), p xs[j] = true → p xs[i] = true)
    {low high : Nat} (inside : high ≤ xs.size) (horder : low ≤ high)
    (hlow : ∀ i (hi : i < xs.size), i < low → p xs[i] = true)
    (hhigh : ∀ i (hi : i < xs.size), high ≤ i → p xs[i] = false) :
    ∀ i (hi : i < xs.size), p xs[i] = true ↔ i < bisect p xs low high inside := by
  induction low, high, inside using bisect.induct p xs with
  | case1 low high inside hlt hmid hp ih =>
    rw [bisect, dif_pos hlt, if_pos hp]
    refine ih (by omega) (fun i hi hi' => ?_) hhigh
    exact hmono i _ hmid (by omega) hp
  | case2 low high inside hlt hmid hp ih =>
    rw [bisect, dif_pos hlt, if_neg hp]
    refine ih (by omega) hlow (fun i hi hi' => ?_)
    rw [Bool.eq_false_iff]
    exact fun hpi => hp (hmono _ i hi hi' hpi)
  | case3 low high inside hlt =>
    intro i hi
    rw [bisect, dif_neg hlt]
    constructor
    · intro hp
      by_contra hge
      rw [hhigh i hi (by omega)] at hp
      cases hp
    · exact hlow i hi

theorem partitionPoint_spec {α : Type} {p : α → Bool} {xs : Array α}
    (hmono : ∀ i j (hj : j < xs.size) (hij : i ≤ j), p xs[j] = true → p xs[i] = true)
    {i : Nat} (hi : i < xs.size) : p xs[i] = true ↔ i < partitionPoint p xs := by
  refine bisect_spec hmono (Nat.le_refl _) (Nat.zero_le _) ?_ ?_ i hi
  · intro i _ hi
    omega
  · intro i _ hi
    omega

/-! ## Ascending bands -/

theorem Band.contains_iff {b : Band} {v : UInt32} :
    b.contains v = true ↔ b.lower.toNat ≤ v.toNat ∧ v.toNat ≤ b.upper.toNat := by
  simp [Band.contains, UInt32.le_iff_toNat_le]

/-- Bands with ordered ends, each above the one before it. -/
structure Ascending (bands : Array Band) : Prop where
  ordered : ∀ b ∈ bands, b.lower.toNat ≤ b.upper.toNat
  apart : bands.toList.Pairwise fun a b => a.upper.toNat < b.lower.toNat

namespace Ascending

variable {bands : Array Band}

theorem upper_lt_lower (h : Ascending bands) {i j : Nat} (hij : i < j) (hj : j < bands.size) :
    bands[i].upper.toNat < bands[j].lower.toNat :=
  List.pairwise_iff_getElem.1 h.apart i j (by simp; omega) (by simpa using hj) hij

theorem lower_le_upper (h : Ascending bands) {i : Nat} (hi : i < bands.size) :
    bands[i].lower.toNat ≤ bands[i].upper.toNat :=
  h.ordered _ (Array.getElem_mem hi)

theorem lower_mono (h : Ascending bands) {i j : Nat} (hij : i ≤ j) (hj : j < bands.size) :
    bands[i].lower.toNat ≤ bands[j].lower.toNat := by
  rcases Nat.lt_or_eq_of_le hij with hlt | rfl
  · have := h.upper_lt_lower hlt hj
    have := h.lower_le_upper (Nat.lt_trans hlt hj)
    omega
  · exact Nat.le_refl _

theorem upper_mono (h : Ascending bands) {i j : Nat} (hij : i ≤ j) (hj : j < bands.size) :
    bands[i].upper.toNat ≤ bands[j].upper.toNat := by
  rcases Nat.lt_or_eq_of_le hij with hlt | rfl
  · have := h.upper_lt_lower hlt hj
    have := h.lower_le_upper hj
    omega
  · exact Nat.le_refl _

/-- The position of the band that holds a value. -/
theorem position_eq (h : Ascending bands) {i : Nat} (hi : i < bands.size) {v : UInt32}
    (hv : bands[i].contains v = true) :
    partitionPoint (fun b => decide (b.upper < v)) bands = i := by
  rw [Band.contains_iff] at hv
  have hspec : ∀ j (hj : j < bands.size), bands[j].upper.toNat < v.toNat ↔
      j < partitionPoint (fun b => decide (b.upper < v)) bands := by
    intro j hj
    rw [← partitionPoint_spec ?_ hj]
    · simp [UInt32.lt_iff_toNat_lt]
    · intro a b hb hab
      simp only [decide_eq_true_eq, UInt32.lt_iff_toNat_lt]
      exact Nat.lt_of_le_of_lt (h.upper_mono hab hb)
  refine Nat.le_antisymm (Nat.le_of_not_lt fun hlt => ?_) (Nat.le_of_not_lt fun hlt => ?_)
  · have := (hspec i hi).2 hlt
    omega
  · -- the band at the boundary does not end below `v`, and it lies below band `i`
    have hat := mt (hspec _ (Nat.lt_trans hlt hi)).1 (Nat.lt_irrefl _)
    have := h.upper_lt_lower hlt hi
    omega

/-- **Halving finds the band that holds a value**, if there is one. -/
theorem bandAt?_eq_some_iff (h : Ascending bands) {v : UInt32} {b : Band} :
    bandAt? bands v = some b ↔ b ∈ bands ∧ b.contains v = true := by
  rw [bandAt?, Option.filter_eq_some_iff]
  constructor
  · rintro ⟨hget, hv⟩
    exact ⟨Array.mem_of_getElem? hget, hv⟩
  · rintro ⟨hmem, hv⟩
    obtain ⟨i, hi, rfl⟩ := Array.getElem_of_mem hmem
    rw [h.position_eq hi hv]
    exact ⟨Array.getElem?_eq_getElem hi, hv⟩

end Ascending

/-! ## Cutting a domain -/

namespace Axis

/-- The edges are ascending and lie between the two ends. -/
structure Edges (lower greatest : UInt32) (edges : List UInt32) : Prop where
  ascending : edges.Pairwise (· < ·)
  inside : ∀ e ∈ edges, lower ≤ e ∧ e ≤ greatest

/-- An edge inside the domain has a successor. -/
theorem Edges.toNat_succ {lower greatest e : UInt32} {edges : List UInt32}
    (h : Edges lower greatest edges) (he : e ∈ edges) (hne : e ≠ greatest) :
    (e + 1).toNat = e.toNat + 1 := by
  have hle := UInt32.le_iff_toNat_le.1 (h.inside e he).2
  have hne : e.toNat ≠ greatest.toNat := fun heq => hne (UInt32.toNat_inj.1 heq)
  have hlt := greatest.toNat_lt
  rw [UInt32.toNat_add, UInt32.toNat_one, Nat.mod_eq_of_lt (by omega)]

theorem Edges.tail {lower greatest edge : UInt32} {edges : List UInt32}
    (h : Edges lower greatest (edge :: edges)) (hne : edge ≠ greatest) :
    edge.toNat < greatest.toNat ∧ (edge + 1).toNat = edge.toNat + 1 ∧
      Edges (edge + 1) greatest edges := by
  obtain ⟨hfirst, hrest⟩ := List.pairwise_cons.1 h.ascending
  have hle := UInt32.le_iff_toNat_le.1 (h.inside edge List.mem_cons_self).2
  have hlt : edge.toNat < greatest.toNat := by
    have : edge.toNat ≠ greatest.toNat := fun heq => hne (UInt32.toNat_inj.1 heq)
    omega
  have hsucc := h.toNat_succ List.mem_cons_self hne
  refine ⟨hlt, hsucc, hrest, fun e he => ⟨?_, (h.inside e (List.mem_cons_of_mem _ he)).2⟩⟩
  have := UInt32.lt_iff_toNat_lt.1 (hfirst e he)
  rw [UInt32.le_iff_toNat_le]
  omega

theorem mem_cut {greatest lower : UInt32} {index : Nat} {edges : List UInt32}
    (h : Edges lower greatest edges) (hle : lower ≤ greatest) {b : Band}
    (hb : b ∈ cut greatest lower index edges) :
    lower.toNat ≤ b.lower.toNat ∧ b.lower.toNat ≤ b.upper.toNat ∧
      b.upper.toNat ≤ greatest.toNat := by
  induction edges generalizing lower index with
  | nil =>
    simp only [cut, List.mem_singleton] at hb
    subst hb
    exact ⟨Nat.le_refl _, UInt32.le_iff_toNat_le.1 hle, Nat.le_refl _⟩
  | cons edge edges ih =>
    obtain ⟨hl, hg⟩ := h.inside edge List.mem_cons_self
    rw [UInt32.le_iff_toNat_le] at hl hg
    rw [cut, List.mem_cons] at hb
    rcases hb with rfl | hb
    · exact ⟨Nat.le_refl _, hl, hg⟩
    · split at hb
      · cases hb
      · rename_i hne
        obtain ⟨hlt, hsucc, htail⟩ := h.tail hne
        have := ih htail (by rw [UInt32.le_iff_toNat_le]; omega) hb
        omega

theorem pairwise_cut {greatest lower : UInt32} {index : Nat} {edges : List UInt32}
    (h : Edges lower greatest edges) :
    (cut greatest lower index edges).Pairwise fun a b => a.upper.toNat < b.lower.toNat := by
  induction edges generalizing lower index with
  | nil => exact List.pairwise_singleton _ _
  | cons edge edges ih =>
    rw [cut, List.pairwise_cons]
    split
    · exact ⟨by simp, List.Pairwise.nil⟩
    · rename_i hne
      obtain ⟨hlt, hsucc, htail⟩ := h.tail hne
      refine ⟨fun b hb => ?_, ih htail⟩
      have := (mem_cut htail (by rw [UInt32.le_iff_toNat_le]; omega) hb).1
      show edge.toNat < b.lower.toNat
      omega

/-- Every value between the ends lies in a band. -/
theorem exists_mem_cut {greatest lower : UInt32} {edges : List UInt32}
    (h : Edges lower greatest edges) (index : Nat) {v : UInt32} (hl : lower.toNat ≤ v.toNat)
    (hg : v.toNat ≤ greatest.toNat) :
    ∃ b ∈ cut greatest lower index edges, b.contains v = true := by
  induction edges generalizing lower index with
  | nil => exact ⟨_, List.mem_singleton_self _, Band.contains_iff.2 ⟨hl, hg⟩⟩
  | cons edge edges ih =>
    rw [cut]
    by_cases hedge : v.toNat ≤ edge.toNat
    · exact ⟨_, List.mem_cons_self, Band.contains_iff.2 ⟨hl, hedge⟩⟩
    · have hne : edge ≠ greatest := by
        rintro rfl
        omega
      obtain ⟨-, hsucc, htail⟩ := h.tail hne
      obtain ⟨b, hb, hv⟩ := ih htail (index + 1) (by omega)
      rw [if_neg hne]
      exact ⟨b, List.mem_cons_of_mem _ hb, hv⟩

theorem code_of_getElem?_cut {greatest lower : UInt32} {index : Nat} {edges : List UInt32}
    {k : Nat} {b : Band} (hb : (cut greatest lower index edges)[k]? = some b) :
    b.code = UInt16.ofNat (index + k) := by
  induction edges generalizing lower index k with
  | nil =>
    cases k with
    | zero => cases hb; rfl
    | succ k => simp [cut] at hb
  | cons edge edges ih =>
    rw [cut] at hb
    cases k with
    | zero => cases hb; rfl
    | succ k =>
      rw [List.getElem?_cons_succ] at hb
      split at hb
      · simp at hb
      · rw [ih hb, Nat.add_right_comm, Nat.add_assoc]

/-! ## The thresholds of a feature -/

theorem mem_insertEdge {e x : UInt32} {edges : List UInt32} :
    x ∈ insertEdge e edges ↔ x = e ∨ x ∈ edges := by
  induction edges with
  | nil => simp [insertEdge]
  | cons f fs ih =>
    rw [insertEdge]
    split
    · rw [List.mem_cons]
    · split
      · rename_i heq
        subst heq
        simp
      · rw [List.mem_cons, ih, List.mem_cons]
        exact or_left_comm

theorem pairwise_insertEdge {e : UInt32} {edges : List UInt32} (h : edges.Pairwise (· < ·)) :
    (insertEdge e edges).Pairwise (· < ·) := by
  induction edges with
  | nil => exact List.pairwise_singleton _ _
  | cons f fs ih =>
    obtain ⟨hfirst, hrest⟩ := List.pairwise_cons.1 h
    rw [insertEdge]
    split
    · rename_i hlt
      refine List.pairwise_cons.2 ⟨fun x hx => ?_, h⟩
      rcases List.mem_cons.1 hx with rfl | hx
      · exact hlt
      · exact UInt32.lt_trans hlt (hfirst x hx)
    · rename_i hnlt
      split
      · exact h
      · rename_i hne
        refine List.pairwise_cons.2 ⟨fun x hx => ?_, ih hrest⟩
        rcases mem_insertEdge.1 hx with rfl | hx
        · rw [UInt32.lt_iff_toNat_lt] at hnlt ⊢
          have : x.toNat ≠ f.toNat := fun heq => hne (UInt32.toNat_inj.1 heq)
          omega
        · exact hfirst x hx

theorem pairwise_edgesOf (splits : List Tree.Split) : (edgesOf splits).Pairwise (· < ·) := by
  induction splits with
  | nil => exact List.Pairwise.nil
  | cons s ss ih => exact pairwise_insertEdge ih

theorem mem_edgesOf {splits : List Tree.Split} {e : UInt32} :
    e ∈ edgesOf splits ↔ ∃ s ∈ splits, e = UInt32.ofNat s.threshold.toInt.toNat := by
  induction splits with
  | nil => simp [edgesOf]
  | cons s ss ih =>
    have hstep : edgesOf (s :: ss) =
        insertEdge (UInt32.ofNat s.threshold.toInt.toNat) (edgesOf ss) := rfl
    rw [hstep, mem_insertEdge, ih, List.exists_mem_cons_iff]

/-- Thresholds of a domain are edges as they stand. -/
theorem mem_edgesOf_of_inside {f : Feature} {splits : List Tree.Split}
    (h : ∀ s ∈ splits, f.contains s.threshold = true) {e : UInt32} :
    e ∈ edgesOf splits ↔ ∃ s ∈ splits, s.threshold.toInt = e.toNat := by
  have hgreatest := f.greatest.toNat_lt
  rw [mem_edgesOf]
  refine exists_congr fun s => and_congr_right fun hs => ?_
  have hin := Feature.contains_threshold_iff.1 (h s hs)
  rw [← UInt32.toNat_inj, UInt32.toNat_ofNat', Nat.mod_eq_of_lt (by omega)]
  omega

/-- Every threshold of a domain is an edge, and there are no others. -/
theorem exists_edge_iff {f : Feature} {splits : List Tree.Split}
    (hinside : ∀ s ∈ splits, f.contains s.threshold = true) {i : Int} :
    (∃ e ∈ edgesOf splits, (e.toNat : Int) = i) ↔ ∃ s ∈ splits, s.threshold.toInt = i := by
  constructor
  · rintro ⟨e, he, rfl⟩
    exact (mem_edgesOf_of_inside hinside).1 he
  · rintro ⟨s, hs, rfl⟩
    have hin := Feature.contains_threshold_iff.1 (hinside s hs)
    have hgreatest := f.greatest.toNat_lt
    refine ⟨_, mem_edgesOf.2 ⟨s, hs, rfl⟩, ?_⟩
    rw [UInt32.toNat_ofNat', Nat.mod_eq_of_lt (by omega)]
    omega

/-! ## Tilings -/

/-- The bands make up the domain, in ascending order, and are numbered by their positions. -/
structure Tiles (a : Axis) (f : Feature) : Prop where
  ascending : Ascending a.bands
  covering : ∀ v, f.Admits v ↔ ∃ b ∈ a.bands, b.contains v = true
  coded : ∀ (k : Nat) (b : Band), a.bands[k]? = some b → b.code = UInt16.ofNat k

theorem tiles_ofEdges {f : Feature} {edges : List UInt32} (hf : f.least ≤ f.greatest)
    (h : Edges f.least f.greatest edges) : (ofEdges f edges).Tiles f := by
  refine ⟨⟨fun b hb => ?_, pairwise_cut h⟩, fun v => ?_, fun k b hb => ?_⟩
  · exact (mem_cut h hf (List.mem_toArray.1 hb)).2.1
  · rw [Feature.Admits, UInt32.le_iff_toNat_le, UInt32.le_iff_toNat_le]
    constructor
    · rintro ⟨hl, hg⟩
      obtain ⟨b, hb, hv⟩ := exists_mem_cut h 0 hl hg
      exact ⟨b, List.mem_toArray.2 hb, hv⟩
    · rintro ⟨b, hb, hv⟩
      obtain ⟨hl, -, hg⟩ := mem_cut h hf (List.mem_toArray.1 hb)
      have := Band.contains_iff.1 hv
      omega
  · rw [ofEdges, List.getElem?_toArray] at hb
    simpa using code_of_getElem?_cut hb

/-- An axis comes out exactly if the thresholds lie in the domain and the bands are few enough. -/
theorem ofSplits_eq_ok_iff {f : Feature} {splits : List Tree.Split} {maxBands : UInt64} {a : Axis} :
    ofSplits f splits maxBands = .ok a ↔
      (∀ s ∈ splits, f.contains s.threshold = true) ∧ a = ofEdges f (edgesOf splits) ∧
        a.size ≤ maxBands.toNat := by
  unfold ofSplits
  split
  · rename_i s hs
    have hmem := List.mem_of_find?_eq_some hs
    have hout : f.contains s.threshold = false := by simpa using List.find?_some hs
    constructor
    · intro h
      cases h
    · rintro ⟨hinside, -⟩
      rw [hinside s hmem] at hout
      cases hout
  · rename_i hnone
    have hinside : ∀ s ∈ splits, f.contains s.threshold = true := by
      simpa using List.find?_eq_none.1 hnone
    dsimp only
    split
    · rename_i hsize
      constructor
      · intro h
        cases h
      · rintro ⟨-, rfl, hle⟩
        omega
    · rename_i hsize
      constructor
      · intro h
        cases h
        exact ⟨hinside, rfl, Nat.le_of_not_lt hsize⟩
      · rintro ⟨-, rfl, -⟩
        rfl

theorem edges_edgesOf {f : Feature} {splits : List Tree.Split}
    (h : ∀ s ∈ splits, f.contains s.threshold = true) :
    Edges f.least f.greatest (edgesOf splits) := by
  refine ⟨pairwise_edgesOf splits, fun e he => ?_⟩
  obtain ⟨s, hs, heq⟩ := (mem_edgesOf_of_inside h).1 he
  have hin := Feature.contains_threshold_iff.1 (h s hs)
  rw [UInt32.le_iff_toNat_le, UInt32.le_iff_toNat_le]
  omega

/-- **Cutting a domain at the thresholds of a feature tiles it** with no more bands than allowed. -/
theorem ofSplits_ok {f : Feature} {splits : List Tree.Split} {maxBands : UInt64} {a : Axis}
    (hf : f.flaw? = none) (h : ofSplits f splits maxBands = .ok a) :
    a.Tiles f ∧ a.size ≤ maxBands.toNat := by
  obtain ⟨hinside, rfl, hsize⟩ := ofSplits_eq_ok_iff.1 h
  exact ⟨tiles_ofEdges (Feature.flaw?_eq_none hf).1 (edges_edgesOf hinside), hsize⟩

namespace Tiles

variable {a : Axis} {f : Feature}

theorem size_pos (h : a.Tiles f) (hf : f.flaw? = none) : 0 < a.size := by
  obtain ⟨b, hb, -⟩ := (h.covering _).1 (Feature.admits_least hf)
  exact Array.size_pos_of_mem hb

/-- **The code of a value is the position of its band.** -/
theorem codeOf?_eq_some_iff (h : a.Tiles f) (hsmall : a.size ≤ 65536) {v : UInt32} {c : Code} :
    a.codeOf? v = some c ↔ ∃ b, a.bands[c.toNat]? = some b ∧ b.contains v = true := by
  have hcode : ∀ k (hk : k < a.bands.size), (UInt16.ofNat k).toNat = k := fun k hk => by
    have : a.bands.size ≤ 65536 := hsmall
    rw [UInt16.toNat_ofNat', Nat.mod_eq_of_lt (by omega)]
  rw [codeOf?, Option.map_eq_some_iff]
  constructor
  · rintro ⟨b, hb, rfl⟩
    obtain ⟨hmem, hv⟩ := h.ascending.bandAt?_eq_some_iff.1 hb
    obtain ⟨k, hk, rfl⟩ := Array.getElem_of_mem hmem
    have hget := Array.getElem?_eq_getElem hk
    rw [h.coded k _ hget, hcode k hk]
    exact ⟨_, hget, hv⟩
  · rintro ⟨b, hget, hv⟩
    refine ⟨b, h.ascending.bandAt?_eq_some_iff.2 ⟨Array.mem_of_getElem? hget, hv⟩, ?_⟩
    rw [h.coded _ b hget, UInt16.ofNat_toNat]

theorem exists_codeOf? (h : a.Tiles f) {v : UInt32} (hv : f.Admits v) :
    ∃ c, a.codeOf? v = some c := by
  obtain ⟨b, hb, hcontains⟩ := (h.covering v).1 hv
  exact ⟨b.code, by rw [codeOf?, h.ascending.bandAt?_eq_some_iff.2 ⟨hb, hcontains⟩]; rfl⟩

/-- No band holds a value outside the domain. -/
theorem bandAt?_eq_none_iff (h : a.Tiles f) {v : UInt32} :
    bandAt? a.bands v = none ↔ ¬ f.Admits v := by
  rw [Option.eq_none_iff_forall_ne_some, h.covering v]
  constructor
  · rintro hnone ⟨b, hb⟩
    exact hnone b (h.ascending.bandAt?_eq_some_iff.2 hb)
  · intro hnone b hb
    exact hnone ⟨b, h.ascending.bandAt?_eq_some_iff.1 hb⟩

/-- **The domain starts with the band of code zero.** -/
theorem codeOf?_least (h : a.Tiles f) (hf : f.flaw? = none) : a.codeOf? f.least = some 0 := by
  obtain ⟨b, hb, hleast⟩ := (h.covering f.least).1 (Feature.admits_least hf)
  obtain ⟨k, hk, rfl⟩ := Array.getElem_of_mem hb
  -- A band before the one with the least value would lie below the domain.
  have hfirst : k = 0 := by
    by_contra hne
    have hlower : f.Admits a.bands[0].lower := (h.covering _).2
      ⟨_, Array.getElem_mem _, Band.contains_iff.2 ⟨Nat.le_refl _, h.ascending.lower_le_upper _⟩⟩
    have hle := UInt32.le_iff_toNat_le.1 hlower.1
    have hbefore := h.ascending.upper_lt_lower (Nat.pos_of_ne_zero hne) hk
    have hordered := h.ascending.lower_le_upper (i := 0) (by omega)
    have hcontains := Band.contains_iff.1 hleast
    omega
  subst hfirst
  rw [codeOf?, h.ascending.bandAt?_eq_some_iff.2 ⟨hb, hleast⟩, Option.map_some,
    h.coded 0 _ (Array.getElem?_eq_getElem hk)]
  rfl

/-- A value keeps its code when it is pulled into the domain; the code zero stands in for none. -/
theorem codeOf?_pull (h : a.Tiles f) (hf : f.flaw? = none) (v : UInt32) :
    (a.codeOf? (f.pull v)).getD 0 = (a.codeOf? v).getD 0 := by
  unfold Feature.pull
  split
  · rfl
  · rename_i hv
    rw [h.codeOf?_least hf, codeOf?, h.bandAt?_eq_none_iff.2 hv]
    rfl

/-- Every code below the number of bands is that of a value of the domain. -/
theorem exists_value (h : a.Tiles f) (hsmall : a.size ≤ 65536) {c : Code}
    (hc : c.toNat < a.size) : ∃ v, f.Admits v ∧ a.codeOf? v = some c := by
  have hget := Array.getElem?_eq_getElem hc
  have hordered := h.ascending.lower_le_upper hc
  have hv : (a.bands[c.toNat]).contains (a.bands[c.toNat]).lower = true :=
    Band.contains_iff.2 ⟨Nat.le_refl _, hordered⟩
  exact ⟨_, (h.covering _).2 ⟨_, Array.getElem_mem hc, hv⟩,
    (h.codeOf?_eq_some_iff hsmall).2 ⟨_, hget, hv⟩⟩

end Tiles

end Axis

end MatchTree
