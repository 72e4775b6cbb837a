import MatchTree.Proofs.Bands
import MatchTree.Proofs.Outcome
import MatchTree.Proofs.Route
import MatchTree.Proofs.Tuples

/-!
# Boxes of codes and boxes of values

* `Grid.Fits` — each axis tiles the domain of its feature with codes that fit 16 bits.
* `Grid.encode` — the codes of an input.
* `CodeRun.Covers`, `CodeBox.Covers` — the codes of a run are those of the values in an interval,
  and a box has such a run on each axis.

Principal results: `runsFrom_eq_some_iff` — a box has the run of each axis; `covers_of_box` — the
box of a route covers its intervals, and by `not_takes_of_box` no input takes a route without a box;
`contains_encode_iff` — a box holds the codes of an input exactly if the intervals that it covers
hold the values; `fits_ofTree` — the axes of a tree have codes that fit 16 bits if no feature may
have more bands.
-/

namespace MatchTree

/-! ## Runs that cover an interval -/

/-- The run is not empty, keeps to the axis, and its codes are those of the interval's values. -/
structure CodeRun.Covers (run : CodeRun) (a : Axis) (i : Interval) : Prop where
  first_le : run.first.toNat ≤ run.last.toNat
  last_lt : run.last.toNat < a.size
  contains_iff : ∀ v c, a.codeOf? v = some c → (run.contains c = true ↔ i.contains v = true)

namespace Axis

/-- What the ends of a covering run look like. -/
theorem cover_ok {a : Axis} {i : Interval} {run : CodeRun} (h : a.cover i = .ok (some run)) :
    i.lower.toInt ≤ i.upper.toInt ∧ ∃ low high,
      a.bands[run.first.toNat]? = some low ∧ a.bands[run.last.toNat]? = some high ∧
      (low.lower.toNat : Int) = i.lower.toInt ∧ (high.upper.toNat : Int) = i.upper.toInt := by
  unfold cover at h
  split at h
  · cases h
  rename_i hempty
  refine ⟨Interval.isEmpty_eq_false_iff.1 (by simpa using hempty), ?_⟩
  dsimp only at h
  split at h
  · rename_i found hfound
    cases h
    simp only [Option.bind_eq_bind, Option.bind_eq_some_iff] at hfound
    obtain ⟨first, -, last, -, low, hlow, high, hhigh, hends⟩ := hfound
    split at hends
    · rename_i heq
      cases hends
      exact ⟨low, high, hlow, hhigh, heq⟩
    · cases hends
  · cases h

/-- **An interval has no codes exactly if it is empty.** -/
theorem cover_eq_none_iff {a : Axis} {i : Interval} :
    a.cover i = .ok none ↔ i.isEmpty = true := by
  unfold cover
  constructor
  · intro h
    split at h
    · assumption
    · dsimp only at h
      split at h <;> cases h
  · intro h
    rw [if_pos h]

theorem first_le_last_of_cover {a : Axis} {i : Interval} {run : CodeRun}
    (ha : Ascending a.bands) (h : a.cover i = .ok (some run)) :
    run.first.toNat ≤ run.last.toNat := by
  obtain ⟨hnonempty, low, high, hlow, hhigh, hlower, hupper⟩ := cover_ok h
  obtain ⟨hfirst, rfl⟩ := Array.getElem?_eq_some_iff.1 hlow
  obtain ⟨hlast, rfl⟩ := Array.getElem?_eq_some_iff.1 hhigh
  refine Nat.le_of_not_lt fun hlt => ?_
  have := ha.upper_lt_lower hlt hfirst
  omega

/-- **A run that makes up an interval covers it.** -/
theorem Tiles.covers_of_cover {a : Axis} {f : Feature} {i : Interval} {run : CodeRun}
    (ha : a.Tiles f) (hsmall : a.size ≤ 65536) (h : a.cover i = .ok (some run)) :
    run.Covers a i := by
  obtain ⟨-, low, high, hlow, hhigh, hlower, hupper⟩ := cover_ok h
  obtain ⟨hfirst, rfl⟩ := Array.getElem?_eq_some_iff.1 hlow
  obtain ⟨hlast, rfl⟩ := Array.getElem?_eq_some_iff.1 hhigh
  have hasc := ha.ascending
  refine ⟨first_le_last_of_cover hasc h, hlast, fun v c hc => ?_⟩
  obtain ⟨b, hb, hv⟩ := (ha.codeOf?_eq_some_iff hsmall).1 hc
  obtain ⟨hcode, rfl⟩ := Array.getElem?_eq_some_iff.1 hb
  rw [Band.contains_iff] at hv
  rw [CodeRun.contains_iff, Interval.contains_iff]
  constructor
  · rintro ⟨hf, hl⟩
    have := hasc.lower_mono hf hcode
    have := hasc.upper_mono hl hlast
    omega
  · rintro ⟨hge, hle⟩
    -- a band off the run lies wholly below the interval or wholly above it
    constructor
    · refine Nat.le_of_not_lt fun hlt => ?_
      have := hasc.upper_lt_lower hlt hfirst
      omega
    · refine Nat.le_of_not_lt fun hlt => ?_
      have := hasc.upper_lt_lower hlt hcode
      omega

theorem toNat_last_allCodes {a : Axis} (hpos : 0 < a.size) (hsmall : a.size ≤ 65536) :
    a.allCodes.last.toNat = a.size - 1 := by
  rw [allCodes, UInt16.toNat_ofNat', Nat.mod_eq_of_lt (by omega)]

/-- **The run of all codes covers the whole domain.** -/
theorem Tiles.covers_allCodes {a : Axis} {f : Feature} (ha : a.Tiles f) (hf : f.flaw? = none)
    (hsmall : a.size ≤ 65536) : a.allCodes.Covers a f.domain := by
  have hpos := ha.size_pos hf
  have hlast := toNat_last_allCodes hpos hsmall
  refine ⟨Nat.zero_le _, by omega, fun v c hc => ?_⟩
  obtain ⟨b, hb, hv⟩ := (ha.codeOf?_eq_some_iff hsmall).1 hc
  obtain ⟨hcode, -⟩ := Array.getElem?_eq_some_iff.1 hb
  have hcode : c.toNat < a.size := hcode
  rw [CodeRun.contains_iff, hlast, Feature.contains_domain, ha.covering]
  refine ⟨fun _ => ⟨b, Array.mem_of_getElem? hb, hv⟩, fun _ => ⟨Nat.zero_le _, by omega⟩⟩

end Axis

/-! ## The box of a route -/

/-- Each axis tiles the domain of its feature, and its codes fit 16 bits. -/
def Grid.Fits (g : Grid) (schema : Schema) : Prop :=
  List.Forall₂ (fun f a => a.Tiles f ∧ a.size ≤ 65536) schema.features g.axes

/-- The codes of an input; zero for a value in no band. -/
def Grid.encode (g : Grid) (values : List UInt32) : List Code :=
  (g.axes.zip values).map fun x => (x.1.codeOf? x.2).getD 0

/-- The box has a covering run on each axis. -/
def CodeBox.Covers (box : CodeBox) (axes : List Axis) (intervals : List Interval) : Prop :=
  List.Forall₂ (fun x run => CodeRun.Covers run x.1 x.2) (axes.zip intervals) box

namespace Route

variable {r : Route} {index : Nat} {axes : List Axis} {intervals : List Interval}

/-- The axes with their intervals and positions, from position `index` on. -/
def stations (index : Nat) (axes : List Axis) (intervals : List Interval) :
    List ((Axis × Interval) × Nat) :=
  (axes.zip intervals).zipIdx index

/-- The run of a route at a station. -/
def runAt (r : Route) (x : (Axis × Interval) × Nat) : Except Fault (Option CodeRun) :=
  runOn x.1.1 x.1.2 (r.tests x.2)

/-- **A box has the run of each station.** -/
theorem runsFrom_eq_some_iff {box : CodeBox} :
    r.runsFrom index axes intervals = .ok (some box) ↔
      List.Forall₂ (fun x run => r.runAt x = .ok (some run)) (stations index axes intervals) box := by
  unfold stations
  induction axes generalizing index intervals box with
  | nil => simp [runsFrom, eq_comm]
  | cons a axes ih =>
    cases intervals with
    | nil => simp [runsFrom, eq_comm]
    | cons i intervals =>
      rw [runsFrom, List.zip_cons_cons, List.zipIdx_cons, List.forall₂_cons_left_iff, bind_eq_ok]
      constructor
      · rintro ⟨run?, hrun, h⟩
        cases run? with
        | none => cases h
        | some run =>
          obtain ⟨rest?, hrest, h⟩ := bind_eq_ok.1 h
          cases rest? with
          | none => cases h
          | some rest =>
            cases h
            exact ⟨run, rest, hrun, ih.1 hrest, rfl⟩
      · rintro ⟨run, rest, hrun, hrest, rfl⟩
        exact ⟨some run, hrun, bind_eq_ok.2 ⟨some rest, ih.2 hrest, rfl⟩⟩

/-- A route without a box has a station without a run. -/
theorem exists_runAt_of_runsFrom (h : r.runsFrom index axes intervals = .ok none) :
    ∃ x ∈ stations index axes intervals, r.runAt x = .ok none := by
  unfold stations
  induction axes generalizing index intervals with
  | nil => simp [runsFrom] at h
  | cons a axes ih =>
    cases intervals with
    | nil => simp [runsFrom] at h
    | cons i intervals =>
      rw [runsFrom] at h
      rw [List.zip_cons_cons, List.zipIdx_cons]
      obtain ⟨run?, hrun, h⟩ := bind_eq_ok.1 h
      cases run? with
      | none => exact ⟨_, List.mem_cons_self, hrun⟩
      | some run =>
        obtain ⟨rest?, hrest, h⟩ := bind_eq_ok.1 h
        cases rest? with
        | none =>
          obtain ⟨x, hx, hnone⟩ := ih hrest
          exact ⟨x, List.mem_cons_of_mem _ hx, hnone⟩
        | some rest => cases h

/-- A route whose stations all answer has a box or none. -/
theorem exists_runsFrom (h : ∀ x ∈ stations index axes intervals, ∃ run?, r.runAt x = .ok run?) :
    ∃ box?, r.runsFrom index axes intervals = .ok box? := by
  unfold stations at h
  induction axes generalizing index intervals with
  | nil => exact ⟨some [], by simp [runsFrom]⟩
  | cons a axes ih =>
    cases intervals with
    | nil => exact ⟨some [], by simp [runsFrom]⟩
    | cons i intervals =>
      rw [List.zip_cons_cons, List.zipIdx_cons, List.forall_mem_cons] at h
      obtain ⟨⟨run?, hrun⟩, hrest⟩ := h
      obtain ⟨rest?, hrest⟩ := ih hrest
      rw [runsFrom]
      cases run? with
      | none => exact ⟨none, bind_eq_ok.2 ⟨none, hrun, rfl⟩⟩
      | some run =>
        exact ⟨rest?.map (run :: ·), bind_eq_ok.2 ⟨some run, hrun, bind_eq_ok.2 ⟨rest?, hrest, rfl⟩⟩⟩

theorem isEmpty_of_runOn {a : Axis} {i : Interval} {tested : Bool}
    (h : runOn a i tested = .ok none) : i.isEmpty = true := by
  unfold runOn at h
  split at h
  · exact Axis.cover_eq_none_iff.1 (mapError_eq_ok.1 h)
  · cases h

theorem mem_stations {x : (Axis × Interval) × Nat} :
    x ∈ stations index axes intervals ↔
      ∃ k, axes[k]? = some x.1.1 ∧ intervals[k]? = some x.1.2 ∧ x.2 = index + k := by
  obtain ⟨⟨a, i⟩, n⟩ := x
  rw [stations, List.mem_zipIdx_iff_le_and_getElem?_sub]
  constructor
  · rintro ⟨hle, hget⟩
    obtain ⟨ha, hi⟩ := List.getElem?_zip_eq_some.1 hget
    exact ⟨n - index, ha, hi, by simp only at hle ⊢; omega⟩
  · rintro ⟨k, ha, hi, hn⟩
    simp only at ha hi hn
    subst hn
    exact ⟨Nat.le_add_right _ _, by
      rw [Nat.add_sub_cancel_left]
      exact List.getElem?_zip_eq_some.2 ⟨ha, hi⟩⟩

/-- A route without a box is taken by no input. -/
theorem not_takes_of_box {g : Grid} (h : r.box g = .ok none) (values : List UInt32) :
    ¬ r.Takes values := by
  intro htakes
  obtain ⟨x, hx, hnone⟩ := exists_runAt_of_runsFrom h
  obtain ⟨k, -, hi, -⟩ := mem_stations.1 hx
  obtain ⟨hk, hget⟩ := List.getElem?_eq_some_iff.1 hi
  have hcontains := List.Forall₂.get htakes hk (by rw [← List.Forall₂.length_eq htakes]; exact hk)
  rw [List.get_eq_getElem, hget, Interval.not_contains_of_isEmpty (isEmpty_of_runOn hnone)]
    at hcontains
  cases hcontains

/-- Every run of a box has a code, whether or not the codes of the axes start over. -/
theorem first_le_last_of_box {g : Grid} (hg : ∀ a ∈ g.axes, Ascending a.bands) {box : CodeBox}
    (h : r.box g = .ok (some box)) : ∀ run ∈ box, run.first.toNat ≤ run.last.toNat := by
  intro run hrun
  obtain ⟨k, hk, hget⟩ := List.getElem_of_mem hrun
  have hrel := runsFrom_eq_some_iff.1 h
  have hk' : k < (stations 0 g.axes r.intervals).length := by rw [hrel.length_eq]; exact hk
  have hat := hrel.get hk' hk
  obtain ⟨j, ha, -⟩ := mem_stations.1 (List.getElem_mem hk')
  rw [List.get_eq_getElem, List.get_eq_getElem, hget, runAt, runOn] at hat
  split at hat
  · exact Axis.first_le_last_of_cover (hg _ (List.mem_of_getElem? ha)) (mapError_eq_ok.1 hat)
  · cases hat
    exact Nat.zero_le _

theorem length_of_box {g : Grid} {box : CodeBox} (hlength : r.intervals.length = g.axes.length)
    (h : r.box g = .ok (some box)) : box.length = g.axes.length := by
  rw [← (runsFrom_eq_some_iff.1 h).length_eq, stations, List.length_zipIdx, List.length_zip,
    hlength, Nat.min_self]

/-- **The box of a route covers its intervals.** -/
theorem LeadsBy.covers_of_box {schema : Schema} {leaf : NodeId} {v : Verdict}
    {constraints : List Constraint} {g : Grid} {box : CodeBox}
    (hr : r.LeadsBy schema leaf v constraints) (hg : g.Fits schema)
    (h : r.box g = .ok (some box)) : box.Covers g.axes r.intervals := by
  have hstations : ∀ x ∈ stations 0 g.axes r.intervals, ∃ f : Feature, f.flaw? = none ∧
      (x.1.1.Tiles f ∧ x.1.1.size ≤ 65536) ∧ (r.tests x.2 = false → x.1.2 = f.domain) := by
    intro x hx
    obtain ⟨k, ha, hi, hk⟩ := mem_stations.1 hx
    obtain ⟨hka, hget⟩ := List.getElem?_eq_some_iff.1 ha
    have hkf : k < schema.features.length := by rw [List.Forall₂.length_eq hg]; exact hka
    have htiles := List.Forall₂.get hg hkf hka
    rw [List.get_eq_getElem, List.get_eq_getElem, hget] at htiles
    refine ⟨_, schema.sound _ (List.getElem_mem hkf), htiles, fun htests => ?_⟩
    rw [hk, Nat.zero_add] at htests
    exact hr.untested (List.getElem?_eq_getElem hkf) hi htests
  have hfst : (stations 0 g.axes r.intervals).map Prod.fst = g.axes.zip r.intervals :=
    List.zipIdx_map_fst _ _
  rw [CodeBox.Covers, ← hfst, List.forall₂_map_left_iff]
  refine ((List.forall₂_and_left _ _).2 ⟨hstations, runsFrom_eq_some_iff.1 h⟩).imp ?_
  rintro x run ⟨⟨f, hf, ⟨htiles, hsmall⟩, huntested⟩, hrun⟩
  rw [runAt, runOn] at hrun
  split at hrun
  · exact htiles.covers_of_cover hsmall (mapError_eq_ok.1 hrun)
  · rename_i htested
    cases hrun
    rw [huntested (by simpa using htested)]
    exact htiles.covers_allCodes hf hsmall

end Route

namespace CodeBox

/-- **A box holds the codes of an input exactly if its intervals hold the values.** -/
theorem contains_encode_iff {schema : Schema} {g : Grid} {intervals : List Interval}
    {values : List UInt32} {box : CodeBox} (hg : g.Fits schema) (hvalues : schema.Admits values)
    (hlength : intervals.length = g.axes.length) (h : box.Covers g.axes intervals) :
    box.contains (g.encode values) = true ↔
      List.Forall₂ (fun i v => i.contains v = true) intervals values := by
  unfold Grid.Fits at hg
  unfold Schema.Admits at hvalues
  unfold Grid.encode
  generalize schema.features = fs at hg hvalues
  generalize g.axes = axes at hg hlength h
  induction hg generalizing intervals values box with
  | nil =>
    cases List.forall₂_nil_left_iff.1 hvalues
    cases List.length_eq_zero_iff.1 hlength
    cases List.forall₂_nil_left_iff.1 h
    simp [contains]
  | @cons f a fs axes ha haxes ih =>
    obtain ⟨v, values, hv, hvs, rfl⟩ := List.forall₂_cons_left_iff.1 hvalues
    obtain ⟨i, intervals, rfl⟩ := List.exists_cons_of_length_eq_add_one hlength
    rw [Covers, List.zip_cons_cons] at h
    obtain ⟨run, box, hrun, hbox, rfl⟩ := List.forall₂_cons_left_iff.1 h
    obtain ⟨c, hc⟩ := ha.1.exists_codeOf? hv
    rw [List.zip_cons_cons, List.map_cons, contains, Bool.and_eq_true, List.forall₂_cons,
      hc, Option.getD_some, hrun.contains_iff v c hc, ih hvs (by simpa using hlength) hbox]

end CodeBox

/-! ## Inputs and code tuples -/

namespace Grid.Fits

variable {g : Grid} {schema : Schema}

/-- Every tuple with a code of each axis is that of some input of the domains. -/
theorem exists_values (hg : g.Fits schema) {codes : List Code}
    (hcodes : List.Forall₂ (fun a c => c.toNat < a.size) g.axes codes) :
    ∃ values, schema.Admits values ∧ g.encode values = codes := by
  unfold Grid.Fits at hg
  unfold Schema.Admits Grid.encode
  generalize schema.features = fs at hg
  generalize g.axes = axes at hg hcodes
  induction hg generalizing codes with
  | nil =>
    cases List.forall₂_nil_left_iff.1 hcodes
    exact ⟨[], .nil, rfl⟩
  | @cons f a fs axes ha haxes ih =>
    obtain ⟨c, codes, hc, hcs, rfl⟩ := List.forall₂_cons_left_iff.1 hcodes
    obtain ⟨v, hv, hcode⟩ := ha.1.exists_value ha.2 hc
    obtain ⟨values, hvalues, hencode⟩ := ih hcs
    refine ⟨v :: values, .cons hv hvalues, ?_⟩
    rw [List.zip_cons_cons, List.map_cons, hencode, hcode, Option.getD_some]

/-- The codes of an input of the domains are codes of the axes. -/
theorem encode_lt (hg : g.Fits schema) {values : List UInt32} (hvalues : schema.Admits values) :
    List.Forall₂ (fun a c => c.toNat < a.size) g.axes (g.encode values) := by
  unfold Grid.Fits at hg
  unfold Schema.Admits at hvalues
  unfold Grid.encode
  generalize schema.features = fs at hg hvalues
  generalize g.axes = axes at hg
  induction hg generalizing values with
  | nil => simp
  | @cons f a fs axes ha haxes ih =>
    obtain ⟨v, values, hv, hvs, rfl⟩ := List.forall₂_cons_left_iff.1 hvalues
    obtain ⟨c, hc⟩ := ha.1.exists_codeOf? hv
    obtain ⟨b, hb, -⟩ := (ha.1.codeOf?_eq_some_iff ha.2).1 hc
    refine .cons ?_ (ih hvs)
    show ((a.codeOf? v).getD 0).toNat < a.size
    rw [hc, Option.getD_some]
    exact (Array.getElem?_eq_some_iff.1 hb).1

/-- The box of all codes of each axis holds the tuples with a code of each axis. -/
theorem contains_allCodes_iff {g : Grid} {schema : Schema} (hg : g.Fits schema)
    {codes : List Code} :
    CodeBox.contains (g.axes.map Axis.allCodes) codes = true ↔
      List.Forall₂ (fun a c => c.toNat < a.size) g.axes codes := by
  unfold Grid.Fits at hg
  have hflaws := schema.sound
  generalize schema.features = fs at hg hflaws
  generalize g.axes = axes at hg
  induction hg generalizing codes with
  | nil => cases codes <;> simp [CodeBox.contains]
  | @cons f a fs axes ha haxes ih =>
    have hpos := ha.1.size_pos (hflaws f (List.mem_cons_self ..))
    have hlast := Axis.toNat_last_allCodes hpos ha.2
    have hfirst : a.allCodes.first.toNat = 0 := rfl
    cases codes with
    | nil => simp [CodeBox.contains]
    | cons c cs =>
      have htail : CodeBox.contains (axes.map Axis.allCodes) cs = true ↔
          List.Forall₂ (fun a c => c.toNat < a.size) axes cs :=
        ih fun g hg => hflaws g (List.mem_cons_of_mem _ hg)
      rw [List.map_cons, CodeBox.contains, Bool.and_eq_true, CodeRun.contains_iff, hlast, hfirst,
        List.forall₂_cons, htail]
      exact and_congr_left fun _ => by omega

theorem map_size_allCodes {g : Grid} {schema : Schema} (hg : g.Fits schema) :
    (g.axes.map Axis.allCodes).map CodeRun.size = g.bandCounts := by
  unfold Grid.Fits at hg
  have hflaws := schema.sound
  unfold Grid.bandCounts
  generalize schema.features = fs at hg hflaws
  generalize g.axes = axes at hg
  induction hg with
  | nil => rfl
  | @cons f a fs axes ha haxes ih =>
    have hpos := ha.1.size_pos (hflaws f (List.mem_cons_self ..))
    have hlast := Axis.toNat_last_allCodes hpos ha.2
    have hsize : a.allCodes.size = a.size := by
      rw [CodeRun.size, hlast]
      show a.size - 1 + 1 - 0 = a.size
      omega
    rw [List.map_cons, List.map_cons, List.map_cons, hsize,
      ih fun g hg => hflaws g (List.mem_cons_of_mem _ hg)]

end Grid.Fits

/-- The tuples of a covering box are made of codes of the axes. -/
theorem CodeBox.Covers.contains_lt {box : CodeBox} {axes : List Axis} {intervals : List Interval}
    (h : box.Covers axes intervals) (hlength : intervals.length = axes.length)
    {codes : List Code} (hcodes : box.contains codes = true) :
    List.Forall₂ (fun a c => c.toNat < a.size) axes codes := by
  unfold Covers at h
  induction axes generalizing box intervals codes with
  | nil =>
    cases List.length_eq_zero_iff.1 hlength
    cases List.forall₂_nil_left_iff.1 h
    cases codes with
    | nil => exact .nil
    | cons c cs => simp [contains] at hcodes
  | cons a axes ih =>
    obtain ⟨i, intervals, rfl⟩ := List.exists_cons_of_length_eq_add_one hlength
    rw [List.zip_cons_cons] at h
    obtain ⟨run, box, hrun, hbox, rfl⟩ := List.forall₂_cons_left_iff.1 h
    cases codes with
    | nil => simp [contains] at hcodes
    | cons c cs =>
      rw [contains, Bool.and_eq_true, CodeRun.contains_iff] at hcodes
      have hlast : run.last.toNat < a.size := hrun.last_lt
      exact .cons (by omega) (ih hbox (by simpa using hlength) hcodes.2)

namespace Route.LeadsBy

variable {r : Route} {schema : Schema} {leaf : NodeId} {v : Verdict}
  {constraints : List Constraint} {g : Grid} {box : CodeBox}

theorem length_intervals (hr : r.LeadsBy schema leaf v constraints) (hg : g.Fits schema) :
    r.intervals.length = g.axes.length := by
  rw [hr.intervals_eq, List.length_map, List.Forall₂.length_eq hg]

/-- **The box of a route holds the codes of exactly those inputs that take the route.** -/
theorem contains_box_iff (hr : r.LeadsBy schema leaf v constraints) (hg : g.Fits schema)
    (h : r.box g = .ok (some box)) {values : List UInt32} (hvalues : schema.Admits values) :
    box.contains (g.encode values) = true ↔ r.Takes values :=
  CodeBox.contains_encode_iff hg hvalues (hr.length_intervals hg) (hr.covers_of_box hg h)

/-- The tuples of the box of a route are those of inputs. -/
theorem exists_values_of_box (hr : r.LeadsBy schema leaf v constraints) (hg : g.Fits schema)
    (h : r.box g = .ok (some box)) {codes : List Code} (hcodes : box.contains codes = true) :
    ∃ values, schema.Admits values ∧ g.encode values = codes :=
  hg.exists_values ((hr.covers_of_box hg h).contains_lt (hr.length_intervals hg) hcodes)

end Route.LeadsBy

/-! ## The grid of a tree -/

/-- The splits on a feature. -/
def Tree.splitsOn (t : Tree) (f : Feature) : List Tree.Split :=
  t.splits.filter fun s => s.feature == f.id

theorem Tree.mem_splitsOn {t : Tree} {f : Feature} {s : Tree.Split} :
    s ∈ t.splitsOn f ↔ s ∈ t.splits ∧ s.feature = f.id := by
  simp [splitsOn]

/-- **A grid comes out exactly if all features are declared and every axis comes out.** -/
theorem Grid.ofTree_eq_ok_iff {t : Tree} {schema : Schema} {maxBands : UInt64} {g : Grid} :
    Grid.ofTree t schema maxBands = .ok g ↔
      (∀ s ∈ t.splits, (schema.indexOf? s.feature).isSome) ∧
        List.Forall₂ (fun f a => Axis.ofSplits f (t.splitsOn f) maxBands = .ok a)
          schema.features g.axes := by
  unfold Grid.ofTree
  dsimp only
  split
  · rename_i s hs
    have hmem := List.mem_of_find?_eq_some hs
    have hnone : schema.indexOf? s.feature = none := by simpa using List.find?_some hs
    constructor
    · intro h
      cases h
    · rintro ⟨hdeclared, -⟩
      have hsome := hdeclared s hmem
      rw [hnone] at hsome
      cases hsome
  · rename_i hnone
    have hdeclared : ∀ s ∈ t.splits, (schema.indexOf? s.feature).isSome := by
      simpa [Option.isSome_iff_ne_none] using List.find?_eq_none.1 hnone
    rw [bind_eq_ok, and_iff_right hdeclared]
    constructor
    · rintro ⟨axes, haxes, h⟩
      cases h
      exact mapM_eq_ok.1 haxes
    · intro haxes
      exact ⟨g.axes, mapM_eq_ok.2 haxes, rfl⟩

theorem Grid.ofTree_ok {t : Tree} {schema : Schema} {maxBands : UInt64} {g : Grid}
    (h : Grid.ofTree t schema maxBands = .ok g) :
    List.Forall₂ (fun f a => a.Tiles f ∧ a.size ≤ maxBands.toNat) schema.features g.axes := by
  have haxes := (Grid.ofTree_eq_ok_iff.1 h).2
  exact ((List.forall₂_and_left _ _).2 ⟨schema.sound, haxes⟩).imp fun f a hfa =>
    Axis.ofSplits_ok hfa.1 hfa.2

/-- **The grid of a tree fits the schema** if no feature may have more than 65536 bands. -/
theorem Grid.fits_ofTree {t : Tree} {schema : Schema} {maxBands : UInt64} {g : Grid}
    (hsmall : maxBands.toNat ≤ 65536) (h : Grid.ofTree t schema maxBands = .ok g) :
    g.Fits schema :=
  (Grid.ofTree_ok h).imp fun _ _ hfa => ⟨hfa.1, Nat.le_trans hfa.2 hsmall⟩

end MatchTree
