import Mathlib.Data.List.Dedup
import MatchTree.Proofs.Boxes
import MatchTree.Proofs.Enumeration

/-!
# Intervals between the edges of bands

* `Axis.Starts`, `Axis.Ends` — some band starts, or ends, at an integer.
* `Axis.CutsAt` — a threshold falls between two bands or at the end of the domain.
* `Axis.Delimits` — an interval is not empty, and starts and ends with bands; `Axis.Aligned` — it is
  delimited or empty; `Route.AlignedOn` — so are the intervals that a route tests.
* `Tree.bandCount` — how many bands the thresholds of a tree make of a domain.

Principal results: `map_upper_cut`, `map_lower_cut` — where the bands of a cut domain end and start;
`ends_iff` — they end at the thresholds and at the end of the domain; `cover_eq_some_iff`,
`exists_run_iff` — an interval is covered exactly if it starts and ends with bands;
`aligned_intervalOf` — what constraints leave of a domain is aligned to bands that are cut at their
thresholds; `aligned_intervals`, `alignedOn`, `exists_box` — so on the grid of a tree no route is
misaligned; `size_eq_bandCount` — a feature has one band more than the tree has thresholds on it
below the end of its domain.
-/

namespace MatchTree

namespace Axis

/-! ## Ends of bands -/

/-- No edge lies above the end of the domain. -/
theorem Edges.eq_nil {lower greatest : UInt32} {edges : List UInt32}
    (h : Edges lower greatest (greatest :: edges)) : edges = [] := by
  cases edges with
  | nil => rfl
  | cons e edges =>
    have hlt := (List.pairwise_cons.1 h.ascending).1 e List.mem_cons_self
    have hle := (h.inside e (List.mem_cons_of_mem _ List.mem_cons_self)).2
    exact absurd hle (UInt32.not_le.2 hlt)

/-- **The bands end at the edges and at the end of the domain.** -/
theorem map_upper_cut {greatest lower : UInt32} {edges : List UInt32}
    (h : Edges lower greatest edges) (index : Nat) :
    (cut greatest lower index edges).map (·.upper) =
      edges.filter (· ≠ greatest) ++ [greatest] := by
  induction edges generalizing lower index with
  | nil => rfl
  | cons edge edges ih =>
    by_cases hedge : edge = greatest
    · subst hedge
      obtain rfl := h.eq_nil
      simp [cut]
    · obtain ⟨-, -, htail⟩ := h.tail hedge
      rw [cut, if_neg hedge, List.map_cons, ih htail, List.filter_cons_of_pos (by simpa using hedge),
        List.cons_append]

/-- **The bands start at the start of the domain and after the edges.** -/
theorem map_lower_cut {greatest lower : UInt32} {edges : List UInt32}
    (h : Edges lower greatest edges) (index : Nat) :
    (cut greatest lower index edges).map (·.lower) =
      lower :: (edges.filter (· ≠ greatest)).map (· + 1) := by
  induction edges generalizing lower index with
  | nil => rfl
  | cons edge edges ih =>
    by_cases hedge : edge = greatest
    · subst hedge
      obtain rfl := h.eq_nil
      simp [cut]
    · obtain ⟨-, -, htail⟩ := h.tail hedge
      rw [cut, if_neg hedge, List.map_cons, ih htail, List.filter_cons_of_pos (by simpa using hedge),
        List.map_cons]

theorem size_ofEdges {f : Feature} {edges : List UInt32} (h : Edges f.least f.greatest edges) :
    (ofEdges f edges).size = (edges.filter (· ≠ f.greatest)).length + 1 := by
  have hlength := congrArg List.length (map_upper_cut h 0)
  simpa [ofEdges, size] using hlength

/-- Some band starts at the integer. -/
def Starts (a : Axis) (i : Int) : Prop := ∃ b ∈ a.bands, (b.lower.toNat : Int) = i

/-- Some band ends at the integer. -/
def Ends (a : Axis) (i : Int) : Prop := ∃ b ∈ a.bands, (b.upper.toNat : Int) = i

instance (a : Axis) (i : Int) : Decidable (a.Starts i) :=
  inferInstanceAs (Decidable (∃ b ∈ a.bands, (b.lower.toNat : Int) = i))

instance (a : Axis) (i : Int) : Decidable (a.Ends i) :=
  inferInstanceAs (Decidable (∃ b ∈ a.bands, (b.upper.toNat : Int) = i))

/-- The bands end at the edges and at the end of the domain. -/
theorem ends_ofEdges_iff {f : Feature} {edges : List UInt32}
    (h : Edges f.least f.greatest edges) {i : Int} :
    (ofEdges f edges).Ends i ↔ i = f.greatest.toNat ∨ ∃ e ∈ edges, (e.toNat : Int) = i := by
  have hupper : (ofEdges f edges).bands.toList.map (·.upper) =
      edges.filter (· ≠ f.greatest) ++ [f.greatest] := map_upper_cut h 0
  have hends : (ofEdges f edges).Ends i ↔
      ∃ e ∈ (ofEdges f edges).bands.toList.map (·.upper), (e.toNat : Int) = i := by
    simp only [Ends, List.mem_map, Array.mem_toList_iff, exists_exists_and_eq_and]
  rw [hends, hupper]
  constructor
  · rintro ⟨e, he, rfl⟩
    rcases List.mem_append.1 he with he | he
    · exact Or.inr ⟨e, (List.mem_filter.1 he).1, rfl⟩
    · exact Or.inl (by rw [List.mem_singleton.1 he])
  · rintro (rfl | ⟨e, he, rfl⟩)
    · exact ⟨f.greatest, by simp, rfl⟩
    · refine ⟨e, ?_, rfl⟩
      by_cases hedge : e = f.greatest
      · simp [hedge]
      · simp [hedge, he]

/-- **The bands end at the thresholds and at the end of the domain.** -/
theorem ends_iff {f : Feature} {splits : List Tree.Split}
    (hinside : ∀ s ∈ splits, f.contains s.threshold = true) {i : Int} :
    (ofEdges f (edgesOf splits)).Ends i ↔
      i = f.greatest.toNat ∨ ∃ s ∈ splits, s.threshold.toInt = i := by
  rw [ends_ofEdges_iff (edges_edgesOf hinside), exists_edge_iff hinside]

/-- The threshold falls between two bands or at the end of the domain. -/
def CutsAt (a : Axis) (f : Feature) (threshold : Int) : Prop :=
  a.Ends threshold ∧ (threshold = f.greatest.toNat ∨ a.Starts (threshold + 1))

theorem cutsAt_ofEdges {f : Feature} {edges : List UInt32} (h : Edges f.least f.greatest edges)
    {e : UInt32} (he : e ∈ edges) : (ofEdges f edges).CutsAt f e.toNat := by
  refine ⟨(ends_ofEdges_iff h).2 (Or.inr ⟨e, he, rfl⟩), ?_⟩
  by_cases hedge : e = f.greatest
  · exact Or.inl (by rw [hedge])
  · have hlower : e + 1 ∈ (cut f.greatest f.least 0 edges).map (·.lower) := by
      rw [map_lower_cut h]
      simp [hedge, he]
    obtain ⟨b, hb, heq⟩ := List.mem_map.1 hlower
    exact Or.inr ⟨b, List.mem_toArray.2 hb, by rw [heq, h.toNat_succ he hedge]; rfl⟩

/-- **The axis of some splits is cut at each of their thresholds.** -/
theorem cutsAt_of_ofSplits {f : Feature} {splits : List Tree.Split} {maxBands : UInt64} {a : Axis}
    (h : ofSplits f splits maxBands = .ok a) {s : Tree.Split} (hs : s ∈ splits) :
    a.CutsAt f s.threshold.toInt := by
  obtain ⟨hinside, rfl, -⟩ := ofSplits_eq_ok_iff.1 h
  obtain ⟨e, he, heq⟩ := (exists_edge_iff hinside).2 ⟨s, hs, rfl⟩
  rw [← heq]
  exact cutsAt_ofEdges (edges_edgesOf hinside) he

/-! ## Aligned intervals -/

/-- The interval is empty, or it starts and ends with bands. -/
def Aligned (a : Axis) (i : Interval) : Prop :=
  i.isEmpty = false → a.Starts i.lower.toInt ∧ a.Ends i.upper.toInt

instance (a : Axis) (i : Interval) : Decidable (a.Aligned i) :=
  inferInstanceAs (Decidable (i.isEmpty = false → a.Starts i.lower.toInt ∧ a.Ends i.upper.toInt))

/-- The interval is not empty, some band starts with it, and some band ends with it. -/
def Delimits (a : Axis) (i : Interval) : Prop :=
  i.lower.toInt ≤ i.upper.toInt ∧ a.Starts i.lower.toInt ∧ a.Ends i.upper.toInt

instance (a : Axis) (i : Interval) : Decidable (a.Delimits i) :=
  inferInstanceAs (Decidable (_ ∧ _ ∧ _))

/-- An aligned interval is empty or delimited. -/
theorem aligned_iff {a : Axis} {i : Interval} :
    a.Aligned i ↔ i.upper.toInt < i.lower.toInt ∨ a.Delimits i := by
  rw [Aligned, Delimits, Interval.isEmpty_eq_false_iff]
  by_cases hle : i.lower.toInt ≤ i.upper.toInt
  · simp [hle, Int.not_lt.2 hle]
  · simp [hle, Int.not_le.1 hle]

/-- Every band has a code. -/
theorem exists_code {a : Axis} (hsmall : a.size ≤ 65536) {b : Band} (hb : b ∈ a.bands) :
    ∃ c : Code, a.bands[c.toNat]? = some b := by
  obtain ⟨k, hk, rfl⟩ := Array.getElem_of_mem hb
  have hsize : k < a.size := hk
  refine ⟨UInt16.ofNat k, ?_⟩
  rw [UInt16.toNat_ofNat', Nat.mod_eq_of_lt (by omega)]
  exact Array.getElem?_eq_getElem hk

namespace Tiles

variable {a : Axis} {f : Feature}

theorem least_le_of_starts (h : a.Tiles f) {i : Int} (hi : a.Starts i) : f.least.toNat ≤ i := by
  obtain ⟨b, hb, rfl⟩ := hi
  have hadmits : f.Admits b.lower :=
    (h.covering _).2 ⟨b, hb, Band.contains_iff.2 ⟨Nat.le_refl _, h.ascending.ordered b hb⟩⟩
  have hle := UInt32.le_iff_toNat_le.1 hadmits.1
  omega

theorem starts_least (h : a.Tiles f) (hf : f.flaw? = none) : a.Starts f.least.toNat := by
  obtain ⟨b, hb, hv⟩ := (h.covering _).1 (Feature.admits_least hf)
  rw [Band.contains_iff] at hv
  have hle := h.least_le_of_starts ⟨b, hb, rfl⟩
  exact ⟨b, hb, by omega⟩

theorem le_greatest_of_ends (h : a.Tiles f) {i : Int} (hi : a.Ends i) : i ≤ f.greatest.toNat := by
  obtain ⟨b, hb, rfl⟩ := hi
  have hadmits : f.Admits b.upper :=
    (h.covering _).2 ⟨b, hb, Band.contains_iff.2 ⟨h.ascending.ordered b hb, Nat.le_refl _⟩⟩
  have hle := UInt32.le_iff_toNat_le.1 hadmits.2
  omega

theorem ends_greatest (h : a.Tiles f) (hf : f.flaw? = none) : a.Ends f.greatest.toNat := by
  have hadmits : f.Admits f.greatest := ⟨(Feature.flaw?_eq_none hf).1, UInt32.le_refl _⟩
  obtain ⟨b, hb, hv⟩ := (h.covering _).1 hadmits
  rw [Band.contains_iff] at hv
  have hle := h.le_greatest_of_ends ⟨b, hb, rfl⟩
  exact ⟨b, hb, by omega⟩

/-- The code of an integer that a band holds. -/
theorem codeOfInt?_eq (h : a.Tiles f) (hsmall : a.size ≤ 65536) {i : Int64} {v : UInt32}
    (hi : i.toInt = v.toNat) {c : Code} {b : Band} (hb : a.bands[c.toNat]? = some b)
    (hv : b.contains v = true) : a.codeOfInt? i = some c := by
  have hlt := v.toNat_lt
  have hbounds : 0 ≤ i.toInt ∧ i.toInt < UInt32.size := by
    have hsize : UInt32.size = 4294967296 := rfl
    omega
  rw [codeOfInt?, if_pos hbounds, hi, Int.toNat_natCast, UInt32.ofNat_toNat]
  exact (h.codeOf?_eq_some_iff hsmall).2 ⟨b, hb, hv⟩

/-- **A run covers an interval exactly if its first band starts the interval and its last band ends
it.** -/
theorem cover_eq_some_iff (h : a.Tiles f) (hsmall : a.size ≤ 65536) {i : Interval}
    {run : CodeRun} :
    a.cover i = .ok (some run) ↔ i.lower.toInt ≤ i.upper.toInt ∧ ∃ low high,
      a.bands[run.first.toNat]? = some low ∧ a.bands[run.last.toNat]? = some high ∧
      (low.lower.toNat : Int) = i.lower.toInt ∧ (high.upper.toNat : Int) = i.upper.toInt := by
  refine ⟨cover_ok, ?_⟩
  rintro ⟨hle, low, high, hlow, hhigh, hlower, hupper⟩
  have hordered := h.ascending.ordered
  have hfirst : a.codeOfInt? i.lower = some run.first :=
    h.codeOfInt?_eq hsmall hlower.symm hlow
      (Band.contains_iff.2 ⟨Nat.le_refl _, hordered low (Array.mem_of_getElem? hlow)⟩)
  have hlast : a.codeOfInt? i.upper = some run.last :=
    h.codeOfInt?_eq hsmall hupper.symm hhigh
      (Band.contains_iff.2 ⟨hordered high (Array.mem_of_getElem? hhigh), Nat.le_refl _⟩)
  have hempty : ¬ i.isEmpty = true := by
    rw [Bool.not_eq_true, Interval.isEmpty_eq_false_iff]
    exact hle
  simp [cover, hempty, hfirst, hlast, hlow, hhigh, hlower, hupper]

/-- **An interval has a run of codes exactly if bands delimit it.** -/
theorem exists_run_iff (ha : a.Tiles f) (hsmall : a.size ≤ 65536) {i : Interval} :
    (∃ run, a.cover i = .ok (some run)) ↔ a.Delimits i := by
  constructor
  · rintro ⟨run, h⟩
    obtain ⟨hle, low, high, hlow, hhigh, hlower, hupper⟩ := cover_ok h
    exact ⟨hle, ⟨low, Array.mem_of_getElem? hlow, hlower⟩,
      ⟨high, Array.mem_of_getElem? hhigh, hupper⟩⟩
  · rintro ⟨hle, ⟨low, hlow, hlower⟩, ⟨high, hhigh, hupper⟩⟩
    obtain ⟨first, hfirst⟩ := exists_code hsmall hlow
    obtain ⟨last, hlast⟩ := exists_code hsmall hhigh
    exact ⟨⟨first, last⟩, (ha.cover_eq_some_iff hsmall).2
      ⟨hle, low, high, hfirst, hlast, hlower, hupper⟩⟩

/-- **An aligned interval is covered or empty.** -/
theorem exists_cover (h : a.Tiles f) (hsmall : a.size ≤ 65536) {i : Interval}
    (hi : a.Aligned i) : ∃ run?, a.cover i = .ok run? := by
  rcases aligned_iff.1 hi with hempty | hdelimits
  · exact ⟨none, cover_eq_none_iff.2 (Interval.isEmpty_iff.2 hempty)⟩
  · obtain ⟨run, hrun⟩ := (h.exists_run_iff hsmall).2 hdelimits
    exact ⟨some run, hrun⟩

/-! ## What constraints leave -/

/-- The interval ends with a band; it starts with one, or past the domain. -/
structure Fitted (a : Axis) (f : Feature) (i : Interval) : Prop where
  lower : a.Starts i.lower.toInt ∨ (f.greatest.toNat : Int) < i.lower.toInt
  upper : a.Ends i.upper.toInt

theorem fitted_domain (h : a.Tiles f) (hf : f.flaw? = none) : Fitted a f f.domain := by
  have hleast := f.least.toNat_lt
  have hgreatest := f.greatest.toNat_lt
  constructor
  · rw [Feature.domain, Int64.toInt_ofNat_of_lt (by omega)]
    exact Or.inl (h.starts_least hf)
  · rw [Feature.domain, Int64.toInt_ofNat_of_lt (by omega)]
    exact h.ends_greatest hf

/-- **Narrowing at a cut keeps an interval fitted.** -/
theorem Fitted.narrow (ha : a.Tiles f) {i : Interval} (h : Fitted a f i) {side : Side}
    {threshold : Int64} (hcut : a.CutsAt f threshold.toInt) :
    Fitted a f (i.narrow side threshold) := by
  obtain ⟨hends, hstarts⟩ := hcut
  have hle := ha.le_greatest_of_ends hends
  cases side with
  | atMost =>
    refine ⟨h.lower, ?_⟩
    simp only [Interval.narrow]
    split
    · exact hends
    · exact h.upper
  | above =>
    refine ⟨?_, h.upper⟩
    simp only [Interval.narrow]
    split
    · have hgreatest := f.greatest.toNat_lt
      have hnext : (nextUp threshold).toInt = threshold.toInt + 1 := by
        rw [toInt_nextUp]
        omega
      rw [hnext]
      rcases hstarts with heq | hstarts
      · exact Or.inr (by omega)
      · exact Or.inl hstarts
    · exact h.lower

/-- **What constraints leave of a domain is aligned** if the axis is cut at their thresholds. -/
theorem aligned_intervalOf (h : a.Tiles f) (hf : f.flaw? = none) {constraints : List Constraint}
    (hcuts : ∀ c ∈ constraints, c.feature = f.id → a.CutsAt f c.threshold.toInt) :
    a.Aligned (Route.intervalOf f constraints) := by
  have hfold : ∀ (cs : List Constraint) (i : Interval), Fitted a f i →
      (∀ c ∈ cs, a.CutsAt f c.threshold.toInt) →
      Fitted a f (cs.foldl (fun i c => i.narrow c.side c.threshold) i) := by
    intro cs
    induction cs with
    | nil => exact fun i hi _ => hi
    | cons c cs ih =>
      intro i hi hcs
      obtain ⟨hc, hcs⟩ := List.forall_mem_cons.1 hcs
      exact ih _ (hi.narrow h hc) hcs
  have hfitted : Fitted a f (Route.intervalOf f constraints) := by
    refine hfold _ _ (h.fitted_domain hf) fun c hc => ?_
    obtain ⟨hmem, hid⟩ := List.mem_filter.1 hc
    exact hcuts c hmem (by simpa using hid)
  intro hnonempty
  refine ⟨?_, hfitted.upper⟩
  rcases hfitted.lower with hstarts | hpast
  · exact hstarts
  · have hle := h.le_greatest_of_ends hfitted.upper
    rw [Interval.isEmpty_eq_false_iff] at hnonempty
    omega

end Tiles

end Axis

/-! ## The boxes of routes -/

/-- A route has no more intervals than there are axes, and those that it tests are aligned. -/
structure Route.AlignedOn (r : Route) (g : Grid) : Prop where
  length_le : r.intervals.length ≤ g.axes.length
  aligned : ∀ x ∈ Route.stations 0 g.axes r.intervals, r.tests x.2 = true → x.1.1.Aligned x.1.2

instance (r : Route) (g : Grid) : Decidable (r.AlignedOn g) :=
  decidable_of_iff (r.intervals.length ≤ g.axes.length ∧
      ∀ x ∈ Route.stations 0 g.axes r.intervals, r.tests x.2 = true → x.1.1.Aligned x.1.2)
    ⟨fun h => ⟨h.1, h.2⟩, fun h => ⟨h.length_le, h.aligned⟩⟩

theorem Grid.Fits.exists_feature {g : Grid} {schema : Schema} (hg : g.Fits schema) {a : Axis}
    (ha : a ∈ g.axes) : ∃ f : Feature, f.flaw? = none ∧ a.Tiles f ∧ a.size ≤ 65536 := by
  obtain ⟨k, hk, rfl⟩ := List.getElem_of_mem ha
  have hkf : k < schema.features.length := by rw [List.Forall₂.length_eq hg]; exact hk
  exact ⟨_, schema.sound _ (List.getElem_mem hkf), List.Forall₂.get hg hkf hk⟩

/-- **An aligned route has a box or none.** -/
theorem Route.AlignedOn.exists_box {r : Route} {schema : Schema} {g : Grid} (hr : r.AlignedOn g)
    (hg : g.Fits schema) : ∃ box?, r.box g = .ok box? := by
  refine exists_runsFrom fun x hx => ?_
  obtain ⟨k, ha, -⟩ := mem_stations.1 hx
  obtain ⟨f, -, htiles, hsmall⟩ := hg.exists_feature (List.mem_of_getElem? ha)
  rw [runAt, runOn]
  split
  · rename_i htested
    obtain ⟨run?, hrun⟩ := htiles.exists_cover hsmall (hr.aligned x hx htested)
    exact ⟨run?, mapError_eq_ok.2 hrun⟩
  · exact ⟨_, rfl⟩

/-- A route is aligned if all of its intervals are. -/
theorem Route.alignedOn_of_forall₂ {r : Route} {g : Grid}
    (h : List.Forall₂ Axis.Aligned g.axes r.intervals) : r.AlignedOn g := by
  refine ⟨Nat.le_of_eq h.length_eq.symm, fun x hx _ => ?_⟩
  obtain ⟨k, ha, hi, -⟩ := mem_stations.1 hx
  obtain ⟨hka, hgeta⟩ := List.getElem?_eq_some_iff.1 ha
  obtain ⟨hki, hgeti⟩ := List.getElem?_eq_some_iff.1 hi
  have haligned := h.get hka hki
  rwa [List.get_eq_getElem, List.get_eq_getElem, hgeta, hgeti] at haligned

namespace Route.LeadsBy

variable {r : Route} {schema : Schema} {leaf : NodeId} {v : Verdict}
  {constraints : List Constraint} {g : Grid}

/-- **All that a route leaves of the domains is aligned** to axes that are cut at its thresholds,
however many bands they have. -/
theorem aligned_intervals (hr : r.LeadsBy schema leaf v constraints)
    (htiles : List.Forall₂ (fun f (a : Axis) => a.Tiles f) schema.features g.axes)
    (hcuts : List.Forall₂ (fun f (a : Axis) => ∀ c ∈ constraints, c.feature = f.id →
      a.CutsAt f c.threshold.toInt) schema.features g.axes) :
    List.Forall₂ Axis.Aligned g.axes r.intervals := by
  have hsound := (List.forall₂_and_left _ _).2 ⟨schema.sound, htiles⟩
  rw [hr.intervals_eq, List.forall₂_map_right_iff]
  refine List.Forall₂.flip (hsound.mp (fun f a hfa hcut => ?_) hcuts)
  exact hfa.2.aligned_intervalOf hfa.1 hcut

/-- **A route is aligned** on a grid whose axes are cut at the thresholds of the route. -/
theorem alignedOn (hr : r.LeadsBy schema leaf v constraints) (hg : g.Fits schema)
    (hcuts : List.Forall₂ (fun f (a : Axis) => ∀ c ∈ constraints, c.feature = f.id →
      a.CutsAt f c.threshold.toInt) schema.features g.axes) :
    r.AlignedOn g :=
  alignedOn_of_forall₂ (hr.aligned_intervals (hg.imp fun _ _ hfa => hfa.1) hcuts)

end Route.LeadsBy

/-! ## The grid of a tree -/

/-- A grid whose axes have at most 65536 bands fits the schema, whatever limit they were cut under. -/
theorem Grid.fits_of_size {t : Tree} {schema : Schema} {maxBands : UInt64} {g : Grid}
    (h : Grid.ofTree t schema maxBands = .ok g) (hsmall : ∀ a ∈ g.axes, a.size ≤ 65536) :
    g.Fits schema := by
  have haxes := Grid.ofTree_ok h
  refine List.forall₂_iff_zip.2 ⟨haxes.length_eq, fun {f a} hmem => ?_⟩
  exact ⟨(List.forall₂_zip haxes hmem).1, hsmall a (List.of_mem_zip hmem).2⟩

/-- The axes of a grid are cut at the thresholds of constraints that come from the tree. -/
theorem Grid.cutsAt_of_ofTree {t : Tree} {schema : Schema} {maxBands : UInt64} {g : Grid}
    (hgrid : Grid.ofTree t schema maxBands = .ok g) {constraints : List Constraint}
    (hsplits : ∀ c ∈ constraints,
      ∃ s ∈ t.splits, s.feature = c.feature ∧ s.threshold = c.threshold) :
    List.Forall₂ (fun f (a : Axis) => ∀ c ∈ constraints, c.feature = f.id →
      a.CutsAt f c.threshold.toInt) schema.features g.axes := by
  refine (Grid.ofTree_eq_ok_iff.1 hgrid).2.imp fun f a ha c hc hid => ?_
  obtain ⟨s, hs, hfeature, hthreshold⟩ := hsplits c hc
  rw [← hthreshold]
  exact Axis.cutsAt_of_ofSplits ha (Tree.mem_splitsOn.2 ⟨hs, hfeature.trans hid⟩)

/-- **On the grid of a tree no route is misaligned.** -/
theorem Branch.Spans.exists_box {b : Branch} {t : Tree} {schema : Schema} {maxBands : UInt64}
    {g : Grid} {routes : List Route} (hb : b.Spans t) (hsmall : maxBands.toNat ≤ 65536)
    (hgrid : Grid.ofTree t schema maxBands = .ok g) (hroutes : t.routes schema = .ok routes)
    {r : Route} (hr : r ∈ routes) : ∃ box?, r.box g = .ok box? := by
  obtain ⟨w, hw, hlead⟩ := hb.exists_leadsBy hroutes hr
  have hfits := Grid.fits_ofTree hsmall hgrid
  have hcuts := Grid.cutsAt_of_ofTree hgrid fun c hc => Branch.exists_split hb.lies hw hc
  exact (hlead.alignedOn hfits hcuts).exists_box hfits

/-! ## Numbers of bands -/

/-- One more than the number of distinct thresholds on a feature below the end of its domain. -/
def Tree.bandCount (t : Tree) (f : Feature) : Nat :=
  (((t.splitsOn f).map fun s => s.threshold.toInt).filter fun i =>
    i < (f.greatest.toNat : Int)).dedup.length + 1

/-- **The thresholds cut the domain into as many bands.** -/
theorem Axis.size_eq_bandCount {t : Tree} {f : Feature}
    (hinside : ∀ s ∈ t.splitsOn f, f.contains s.threshold = true) :
    (ofEdges f (edgesOf (t.splitsOn f))).size = t.bandCount f := by
  have hedges := edges_edgesOf hinside
  rw [size_ofEdges hedges, Tree.bandCount, Nat.add_right_cancel_iff, ← List.length_map
    (f := fun e : UInt32 => (e.toNat : Int))]
  refine List.Perm.length_eq ((List.perm_ext_iff_of_nodup ?_ (List.nodup_dedup _)).2 fun i => ?_)
  · refine List.Nodup.map (fun e e' heq => UInt32.toNat_inj.1 (Int.ofNat_inj.1 heq)) ?_
    exact (hedges.ascending.imp UInt32.ne_of_lt).filter _
  · rw [List.mem_dedup, List.mem_filter, List.mem_map (l := t.splitsOn f), ← exists_edge_iff hinside]
    simp only [List.mem_map, List.mem_filter, decide_eq_true_eq]
    constructor
    · rintro ⟨e, ⟨he, hne⟩, rfl⟩
      have hle := UInt32.le_iff_toNat_le.1 (hedges.inside e he).2
      have hne : e.toNat ≠ f.greatest.toNat := fun heq => hne (UInt32.toNat_inj.1 heq)
      exact ⟨⟨e, he, rfl⟩, by omega⟩
    · rintro ⟨⟨e, he, rfl⟩, hlt⟩
      refine ⟨e, ⟨he, fun heq => ?_⟩, rfl⟩
      rw [heq] at hlt
      omega

theorem Grid.bandCounts_ofTree {t : Tree} {schema : Schema} {maxBands : UInt64} {g : Grid}
    (h : Grid.ofTree t schema maxBands = .ok g) :
    g.bandCounts = schema.features.map t.bandCount := by
  have haxes := (Grid.ofTree_eq_ok_iff.1 h).2
  rw [bandCounts, ← List.forall₂_eq_eq_eq, List.forall₂_map_left_iff, List.forall₂_map_right_iff]
  refine haxes.flip.imp fun a f ha => ?_
  obtain ⟨hinside, rfl, -⟩ := Axis.ofSplits_eq_ok_iff.1 ha
  exact Axis.size_eq_bandCount hinside

end MatchTree
