import Mathlib.Algebra.Ring.Nat
import Mathlib.Order.Bounds.Basic
import MatchTree.Proofs.Codes
import MatchTree.Proofs.Rounds
import MatchTree.Proofs.RowCount

/-!
# The limit on rows, for any list of routes

* `Axis.bandsWithin` — how many bands of an axis lie in an interval.
* `Route.isBarred` — an interval that the route tests is empty.
* `Route.rowCount` — the product of the numbers of bands that a route takes, without a cap.
* `rowTotal` — the sum over the routes that are not barred, without a cap.

Routes need not come from a tree: they may repeat each other, and end before the last axis.

Principal results: `size_eq_bandsWithin` — a run that makes up an interval has a code for each band
in it; `length_tuples` — an aligned route takes as many tuples as it counts rows;
`alignedOn_of_routes` — the routes of an arena are aligned on its grid, whether or not the arena is
a tree; `placements_rowTotal` — the rows are too many exactly if the sum exceeds the limit, and the
first route with which it does is reported; `ofRoutes_rowTotal` — all of this for the grid of an
arena.
-/

namespace MatchTree

/-! ## Bands in an interval -/

/-- Items are counted that stand in a window of positions. -/
theorem countP_window {α : Type} {p : α → Bool} {xs : List α} {first last : Nat}
    (hle : first ≤ last) (hlast : last < xs.length)
    (h : ∀ k (hk : k < xs.length), p xs[k] = true ↔ first ≤ k ∧ k ≤ last) :
    xs.countP p = last + 1 - first := by
  have hsplit : xs = xs.take first ++
      ((xs.drop first).take (last + 1 - first) ++ (xs.drop first).drop (last + 1 - first)) := by
    rw [List.take_append_drop, List.take_append_drop]
  have hbefore : (xs.take first).countP p = 0 := by
    rw [List.countP_eq_zero]
    intro x hx hp
    obtain ⟨k, hk, rfl⟩ := List.mem_take_iff_getElem.1 hx
    have := (h k (by omega)).1 hp
    omega
  have hinside : ((xs.drop first).take (last + 1 - first)).countP p = last + 1 - first := by
    have hlength : ((xs.drop first).take (last + 1 - first)).length = last + 1 - first := by
      rw [List.length_take, List.length_drop]
      omega
    refine (List.countP_eq_length.2 fun x hx => ?_).trans hlength
    obtain ⟨k, hk, rfl⟩ := List.mem_take_iff_getElem.1 hx
    rw [List.getElem_drop]
    exact (h _ _).2 (by omega)
  have hafter : ((xs.drop first).drop (last + 1 - first)).countP p = 0 := by
    rw [List.countP_eq_zero]
    intro x hx hp
    rw [List.drop_drop] at hx
    obtain ⟨k, hk, rfl⟩ := List.mem_drop_iff_getElem.1 hx
    have := (h _ (by omega)).1 hp
    omega
  rw [hsplit, List.countP_append, List.countP_append, hbefore, hinside, hafter]
  omega

namespace Axis

variable {a : Axis} {f : Feature}

/-- How many bands lie in an interval. -/
def bandsWithin (a : Axis) (i : Interval) : Nat :=
  a.bands.toList.countP fun b => i.contains b.lower && i.contains b.upper

/-- **A run that makes up an interval has a code for each band in it.** -/
theorem size_eq_bandsWithin (ha : Ascending a.bands) {i : Interval} {run : CodeRun}
    (h : a.cover i = .ok (some run)) : run.size = a.bandsWithin i := by
  obtain ⟨-, low, high, hlow, hhigh, hlower, hupper⟩ := cover_ok h
  obtain ⟨hfirst, rfl⟩ := Array.getElem?_eq_some_iff.1 hlow
  obtain ⟨hlast, rfl⟩ := Array.getElem?_eq_some_iff.1 hhigh
  refine (countP_window (first_le_last_of_cover ha h) hlast fun k hk => ?_).symm
  have hk : k < a.bands.size := hk
  rw [Array.getElem_toList, Bool.and_eq_true, Interval.contains_iff, Interval.contains_iff]
  constructor
  · rintro ⟨⟨hge, -⟩, -, hle⟩
    have hordered := ha.lower_le_upper hk
    constructor
    · refine Nat.le_of_not_lt fun hlt => ?_
      have := ha.upper_lt_lower hlt hfirst
      omega
    · refine Nat.le_of_not_lt fun hlt => ?_
      have := ha.upper_lt_lower hlt hk
      omega
  · rintro ⟨hf, hl⟩
    have := ha.lower_mono hf hk
    have := ha.upper_mono hl hlast
    have := ha.lower_le_upper hk
    omega

end Axis

/-! ## Rows of a route -/

namespace Route

variable {g : Grid} {schema : Schema} {r : Route}

/-- Whether an interval that the route tests is empty. -/
def isBarred (r : Route) (g : Grid) : Bool :=
  (stations 0 g.axes r.intervals).any fun x => r.tests x.2 && x.1.2.isEmpty

/-- How many bands the route takes at a station: those in its interval, or all if it does not test
them. -/
def runLength (r : Route) (x : (Axis × Interval) × Nat) : Nat :=
  if r.tests x.2 then x.1.1.bandsWithin x.1.2 else x.1.1.size

/-- The product of the numbers of bands. -/
def rowCount (r : Route) (g : Grid) : Nat := ((stations 0 g.axes r.intervals).map r.runLength).prod

/-- The run at a station is as long as there are bands to take. -/
theorem size_eq_runLength (hg : g.Fits schema) {x : (Axis × Interval) × Nat}
    (hx : x ∈ stations 0 g.axes r.intervals) {run : CodeRun} (h : r.runAt x = .ok (some run)) :
    run.size = r.runLength x ∧ (r.tests x.2 && x.1.2.isEmpty) = false := by
  obtain ⟨k, ha, -⟩ := mem_stations.1 hx
  obtain ⟨f, hf, htiles, hsmall⟩ := hg.exists_feature (List.mem_of_getElem? ha)
  rw [runAt, runOn] at h
  cases htests : r.tests x.2 with
  | true =>
    rw [htests, if_pos rfl, mapError_eq_ok] at h
    rw [runLength, htests, if_pos rfl, Bool.true_and, Interval.isEmpty_eq_false_iff]
    exact ⟨Axis.size_eq_bandsWithin htiles.ascending h, (Axis.cover_ok h).1⟩
  | false =>
    rw [htests, if_neg Bool.false_ne_true] at h
    cases h
    rw [runLength, htests, if_neg Bool.false_ne_true]
    exact ⟨(htiles.size_allCodes_iff hf).2 hsmall, rfl⟩

/-- A box has as many tuples as the route counts rows, and its route is not barred. -/
theorem length_tuples_of_box (hg : g.Fits schema) {box : CodeBox}
    (h : r.box g = .ok (some box)) :
    box.tuples.length = r.rowCount g ∧ r.isBarred g = false := by
  have hruns := runsFrom_eq_some_iff.1 h
  have hstations : ∀ x ∈ stations 0 g.axes r.intervals, ∀ run, r.runAt x = .ok (some run) →
      run.size = r.runLength x ∧ (r.tests x.2 && x.1.2.isEmpty) = false :=
    fun x hx run hrun => size_eq_runLength hg hx hrun
  rw [CodeBox.length_tuples, rowCount, isBarred]
  generalize stations 0 g.axes r.intervals = xs at hruns hstations
  clear h
  induction hruns with
  | nil => exact ⟨rfl, rfl⟩
  | @cons x run xs box hrun hbox ih =>
    obtain ⟨hx, hstations⟩ := List.forall_mem_cons.1 hstations
    obtain ⟨hprod, hany⟩ := ih hstations
    obtain ⟨hsize, hopen⟩ := hx run hrun
    rw [List.map_cons, List.map_cons, List.prod_cons, List.prod_cons, List.any_cons, hsize, hprod,
      hopen, hany]
    exact ⟨rfl, rfl⟩

/-- An aligned route without a box is barred. -/
theorem isBarred_of_box (h : r.box g = .ok none) : r.isBarred g = true := by
  obtain ⟨x, hx, hrun⟩ := exists_runAt_of_runsFrom h
  have hempty := isEmpty_of_runOn hrun
  rw [runAt, runOn] at hrun
  split at hrun
  · rename_i htested
    exact List.any_eq_true.2 ⟨x, hx, by rw [htested, hempty]; rfl⟩
  · cases hrun

/-- **An aligned route takes as many tuples as it counts rows**, and none if it is barred. -/
theorem length_tuples (hr : r.AlignedOn g) (hg : g.Fits schema) :
    (r.tuples g).length = if r.isBarred g then 0 else r.rowCount g := by
  obtain ⟨box?, hbox⟩ := hr.exists_box hg
  cases box? with
  | none => rw [tuples_of_none hbox, isBarred_of_box hbox, if_pos rfl, List.length_nil]
  | some box =>
    obtain ⟨hlength, hopen⟩ := length_tuples_of_box hg hbox
    rw [tuples_of_some hbox, hlength, hopen, if_neg Bool.false_ne_true]

end Route

/-! ## Rows of a list of routes -/

section Total

variable {g : Grid} {schema : Schema} {routes : List Route}

/-- The sum of the rows of the routes that are not barred. -/
def rowTotal (g : Grid) (routes : List Route) : Nat :=
  ((routes.filter fun r => !r.isBarred g).map fun r => r.rowCount g).sum

theorem rowTotal_append (before after : List Route) :
    rowTotal g (before ++ after) = rowTotal g before + rowTotal g after := by
  simp [rowTotal]

/-- Fewer routes have fewer rows. -/
theorem rowTotal_take_le (n : Nat) (routes : List Route) :
    rowTotal g (routes.take n) ≤ rowTotal g routes := by
  conv_rhs => rw [← List.take_append_drop n routes, rowTotal_append]
  exact Nat.le_add_right _ _

/-- **Aligned routes take as many tuples as they count rows.** -/
theorem length_flatMap_tuples (hg : g.Fits schema) (h : ∀ r ∈ routes, r.AlignedOn g) :
    (routes.flatMap (Route.tuples g)).length = rowTotal g routes := by
  induction routes with
  | nil => rfl
  | cons r rs ih =>
    obtain ⟨hr, hrs⟩ := List.forall_mem_cons.1 h
    rw [List.flatMap_cons, List.length_append, Route.length_tuples hr hg, ih hrs]
    cases hbarred : r.isBarred g with
    | true => simp [rowTotal, hbarred]
    | false => simp [rowTotal, hbarred]

end Total

/-! ## The routes of an arena -/

namespace Tree

variable {t : Tree} {schema : Schema}

/-- The routes below a node add sides taken at splits of the arena to the constraints above it. -/
theorem exists_leadsBy_of_routesBelow {fuel : Nat} {id : NodeId} {above : List Constraint}
    {routes : List Route} (h : t.routesBelow schema fuel id above = .ok routes) {r : Route}
    (hr : r ∈ routes) :
    ∃ leaf v below, r.LeadsBy schema leaf v (above ++ below) ∧
      ∀ c ∈ below, ∃ s ∈ t.splits, s.feature = c.feature ∧ s.threshold = c.threshold := by
  induction fuel generalizing id above routes with
  | zero => cases h
  | succ fuel ih =>
    rw [routesBelow] at h
    split at h
    · cases h
    · rename_i v hnode
      obtain ⟨s, hs, h⟩ := bind_eq_ok.1 h
      cases h
      obtain rfl := List.mem_singleton.1 hr
      refine ⟨id, v, [], ?_, by simp⟩
      rw [List.append_nil]
      exact Route.ofLeaf_ok hs
    · rename_i feature threshold left right hnode
      have hsplit := mem_splits_of_node? hnode
      -- What a child's routes add comes after the side taken here.
      have hpush : ∀ {side : Side} {leaf : NodeId} {v : Verdict} {below : List Constraint},
          r.LeadsBy schema leaf v ((above ++ [⟨feature, side, threshold⟩]) ++ below) →
          (∀ c ∈ below, ∃ s ∈ t.splits, s.feature = c.feature ∧ s.threshold = c.threshold) →
          ∃ leaf v below, r.LeadsBy schema leaf v (above ++ below) ∧
            ∀ c ∈ below, ∃ s ∈ t.splits, s.feature = c.feature ∧ s.threshold = c.threshold := by
        intro side leaf v below hlead hbelow
        refine ⟨leaf, v, ⟨feature, side, threshold⟩ :: below, ?_, ?_⟩
        · rwa [List.append_assoc] at hlead
        · exact List.forall_mem_cons.2 ⟨⟨_, hsplit, rfl, rfl⟩, hbelow⟩
      obtain ⟨onLeft, hleft, h⟩ := bind_eq_ok.1 h
      obtain ⟨onRight, hright, h⟩ := bind_eq_ok.1 h
      cases h
      rcases List.mem_append.1 hr with hr | hr
      · obtain ⟨leaf, v, below, hlead, hbelow⟩ := ih hleft hr
        exact hpush hlead hbelow
      · obtain ⟨leaf, v, below, hlead, hbelow⟩ := ih hright hr
        exact hpush hlead hbelow

/-- **The routes of an arena are aligned on its grid**, whether or not the arena is a tree. -/
theorem alignedOn_of_routes {maxBands : UInt64} {g : Grid} {routes : List Route}
    (hgrid : Grid.ofTree t schema maxBands = .ok g) (hg : g.Fits schema)
    (hroutes : t.routes schema = .ok routes) {r : Route} (hr : r ∈ routes) : r.AlignedOn g := by
  obtain ⟨leaf, v, below, hlead, hbelow⟩ := exists_leadsBy_of_routesBelow hroutes hr
  exact hlead.alignedOn hg (Grid.cutsAt_of_ofTree hgrid hbelow)

end Tree

/-! ## Which rows are too many -/

namespace CodeTable

variable {g : Grid} {schema : Schema} {routes : List Route} {maxRows : UInt64}

/-- Rows are too many for a table exactly if its routes cannot be placed for that reason: a clash is
another fault. -/
theorem ofRoutes_overflow_iff {route rows : Nat} {limit : UInt64} :
    ofRoutes routes g maxRows = .error (.tableOverflow route rows limit) ↔
      placements g maxRows 0 0 routes = .error (.tableOverflow route rows limit) := by
  rw [ofRoutes]
  cases placements g maxRows 0 0 routes with
  | error fault => simp [bind, Except.bind]
  | ok ps =>
    dsimp only [bind, Except.bind]
    split <;> simp

/-- **Aligned routes have too many rows exactly if their sum exceeds the limit**, and then the first
route with which it does is reported, with the sum up to there. -/
theorem placements_rowTotal (hg : g.Fits schema) (hlimit : maxRows.toNat < wordMax)
    (haligned : ∀ r ∈ routes, r.AlignedOn g) :
    (rowTotal g routes ≤ maxRows.toNat ∧ ∃ ps, placements g maxRows 0 0 routes = .ok ps) ∨
    ∃ k < routes.length, maxRows.toNat < rowTotal g (routes.take (k + 1)) ∧
      rowTotal g (routes.take k) ≤ maxRows.toNat ∧
      placements g maxRows 0 0 routes =
        .error (.tableOverflow k (min (rowTotal g (routes.take (k + 1))) wordMax) maxRows) := by
  have hboxes : ∀ r ∈ routes, ∃ box?, r.box g = .ok box? :=
    fun r hr => (haligned r hr).exists_box hg
  rcases @placements_outcome g maxRows 0 0 routes hlimit hboxes (Nat.zero_le _) with
    ⟨ps, hps, hfit⟩ | ⟨before, r, after, rfl, hbefore, hover, herror⟩
  · rw [Nat.zero_add, length_flatMap_tuples hg haligned] at hfit
    exact Or.inl ⟨hfit, ps, hps⟩
  · have htake : (before ++ r :: after).take (before.length + 1) = before ++ [r] := by
      simp [List.take_append]
    have hupTo : ∀ s ∈ before ++ [r], s.AlignedOn g := by
      intro s hs
      rw [← htake] at hs
      exact haligned s (List.mem_of_mem_take hs)
    have hshorter : ∀ s ∈ before, s.AlignedOn g :=
      fun s hs => haligned s (List.mem_append_left _ hs)
    rw [Nat.zero_add, length_flatMap_tuples hg hshorter] at hbefore
    rw [Nat.zero_add, length_flatMap_tuples hg hupTo] at hover herror
    refine Or.inr ⟨before.length, by simp, ?_, ?_, ?_⟩
    · rwa [htake]
    · rwa [List.take_left]
    · rw [herror, htake, Nat.zero_add]

/-- No earlier route than the reported one has the sum exceed the limit. -/
theorem isLeast_rowTotal {k : Nat} (hover : maxRows.toNat < rowTotal g (routes.take (k + 1)))
    (hbefore : rowTotal g (routes.take k) ≤ maxRows.toNat) :
    IsLeast {j | maxRows.toNat < rowTotal g (routes.take (j + 1))} k := by
  refine ⟨hover, fun j hj => Nat.le_of_not_lt fun hlt => ?_⟩
  have hle := rowTotal_take_le (g := g) (j + 1) (routes.take k)
  rw [List.take_take, Nat.min_eq_left hlt] at hle
  exact absurd hj (Nat.not_lt_of_le (Nat.le_trans hle hbefore))

/-! ## Main result -/

/-- **The limit on rows is exact.** On the grid of an arena whose axes have at most 65536 bands,
aligned routes have too many rows for a table exactly if the sum of their rows, without a cap,
exceeds the limit. Then the first route with which it does is reported, and the sum up to there,
capped at 64 bits. A table that comes out has as many rows as the sum says. The routes of the arena
itself are aligned. -/
theorem ofRoutes_rowTotal {t : Tree} {maxBands : UInt64}
    (hgrid : Grid.ofTree t schema maxBands = .ok g) (hsmall : ∀ a ∈ g.axes, a.size ≤ 65536)
    (hlimit : maxRows.toNat < wordMax) :
    (∀ routes : List Route, (∀ r ∈ routes, r.AlignedOn g) →
      ((∃ route rows limit,
          ofRoutes routes g maxRows = .error (.tableOverflow route rows limit)) ↔
        maxRows.toNat < rowTotal g routes) ∧
      (∀ route rows limit,
        ofRoutes routes g maxRows = .error (.tableOverflow route rows limit) →
          route < routes.length ∧
          IsLeast {k | maxRows.toNat < rowTotal g (routes.take (k + 1))} route ∧
          rows = min (rowTotal g (routes.take (route + 1))) wordMax ∧ limit = maxRows) ∧
      ∀ table, ofRoutes routes g maxRows = .ok table →
        table.rows.length = rowTotal g routes) ∧
    ∀ routes, t.routes schema = .ok routes → ∀ r ∈ routes, r.AlignedOn g := by
  have hg := Grid.fits_of_size hgrid hsmall
  refine ⟨fun routes haligned => ⟨⟨?_, fun hover => ?_⟩, fun route rows limit h => ?_,
    fun table h => ?_⟩, fun routes hroutes r hr => Tree.alignedOn_of_routes hgrid hg hroutes hr⟩
  · rintro ⟨route, rows, limit, h⟩
    rw [ofRoutes_overflow_iff] at h
    rcases placements_rowTotal hg hlimit haligned with ⟨-, ps, hps⟩ | ⟨k, -, hover, -⟩
    · rw [hps] at h
      cases h
    · exact Nat.lt_of_lt_of_le hover (rowTotal_take_le _ _)
  · rcases placements_rowTotal hg hlimit haligned with ⟨hfit, -⟩ | ⟨k, -, -, -, herror⟩
    · exact absurd hover (Nat.not_lt_of_le hfit)
    · exact ⟨_, _, _, ofRoutes_overflow_iff.2 herror⟩
  · rw [ofRoutes_overflow_iff] at h
    rcases placements_rowTotal hg hlimit haligned with
      ⟨-, ps, hps⟩ | ⟨k, hk, hover, hbefore, herror⟩
    · rw [hps] at h
      cases h
    · rw [herror] at h
      cases h
      exact ⟨hk, isLeast_rowTotal hover hbefore, rfl, rfl⟩
  · rw [← length_flatMap_tuples hg haligned, ← map_codes_of_ofRoutes h, List.length_map]

end CodeTable

/-- The grid of the lopsided tree. -/
def Grid.lopsided : Grid :=
  ⟨[⟨3, #[⟨0, 20, 0⟩, ⟨21, 255, 1⟩]⟩, ⟨5, #[⟨0, 7, 0⟩, ⟨8, 65535, 1⟩]⟩]⟩

/-- A route that tests nothing, one that is barred, and one that ends before the last axis. -/
def Route.loose : List Route :=
  [⟨0, .normal, [], [⟨0, 255⟩, ⟨0, 65535⟩], []⟩, ⟨0, .attack, [], [⟨21, 20⟩, ⟨0, 65535⟩], [0]⟩,
    ⟨0, .attack, [], [⟨0, 20⟩], [0]⟩]

theorem CodeTable.loose_ofRoutes_rowTotal :
    Grid.ofTree .lopsided .lopsided 2 = .ok Grid.lopsided ∧
      (∀ r ∈ Route.loose, r.AlignedOn Grid.lopsided) ∧ rowTotal .lopsided Route.loose = 5 ∧
      ofRoutes Route.loose Grid.lopsided 4 = .error (.tableOverflow 2 5 4) ∧
      IsLeast {k | 4 < rowTotal .lopsided (Route.loose.take (k + 1))} 2 ∧
      ∃ table, ofRoutes Route.loose Grid.lopsided 5 = .ok table ∧ table.rows.length = 5 := by
  have hgrid : Grid.ofTree .lopsided .lopsided 2 = .ok Grid.lopsided :=
    eq_ok_of_toOption (by decide +kernel)
  have hsmall : ∀ a ∈ Grid.lopsided.axes, a.size ≤ 65536 := by decide
  have haligned : ∀ r ∈ Route.loose, r.AlignedOn Grid.lopsided := by decide +kernel
  have htotal : rowTotal .lopsided Route.loose = 5 := by decide +kernel
  have hfour : (4 : UInt64).toNat < wordMax := by decide
  have hfive : (5 : UInt64).toNat < wordMax := by decide
  obtain ⟨hover, hreported, -⟩ :=
    (ofRoutes_rowTotal hgrid hsmall hfour).1 Route.loose haligned
  obtain ⟨route, rows, limit, h⟩ := hover.2 (by rw [htotal]; decide)
  obtain ⟨-, hleast, hrows, rfl⟩ := hreported route rows limit h
  obtain rfl : route = 2 :=
    hleast.unique (isLeast_rowTotal (by decide +kernel) (by decide +kernel))
  obtain rfl : rows = 5 := hrows.trans (by decide +kernel)
  obtain ⟨table, htable⟩ : ∃ table, ofRoutes Route.loose Grid.lopsided 5 = .ok table :=
    exists_ok_of_toBool (by decide +kernel)
  have hlength := ((ofRoutes_rowTotal hgrid hsmall hfive).1 Route.loose haligned).2.2 table htable
  exact ⟨hgrid, haligned, htotal, h, hleast, table, htable, hlength.trans htotal⟩

end MatchTree
