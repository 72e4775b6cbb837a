import Mathlib.Order.Bounds.Basic
import MatchTree.Proofs.GuardedTable
import MatchTree.Proofs.RowLimit

/-!
# Routes that share a tuple

* `Route.Holds` — a tuple lies in the box of a route; `HoldsAt` — in that of the route at a
  position.
* `Share` — the routes at two positions hold a tuple in common.
* `IsClash` — two routes and a tuple that both hold, where the later one is the first that shares a
  tuple with an earlier one, and the tuple is the first that it shares.

Any routes can be put into a table, also such that come from no tree: they may repeat each other,
hold the same tuples with other verdicts, and end before the last axis.

Principal results: `exists_of_firstClash?` — the first clash stands after placements that have none;
`firstClash?_eq_none_iff_not_share`, `isClash_of_firstClash?` — there is a clash exactly if two
routes share a tuple, and it is the first one; `placements_error` — only misaligned intervals and
too many rows keep routes from being placed; `ofRoutes_clashes` — so the table of routes that are
placed is all of their rows, or there is a clash.
-/

namespace MatchTree

open Guarded

/-! ## Tuples of routes -/

namespace Route

/-- The route has a box, and the tuple lies in it. -/
def Holds (g : Grid) (r : Route) (codes : List Code) : Prop :=
  ∃ box : CodeBox, r.box g = .ok (some box) ∧ box.contains codes = true

theorem mem_tuples_iff {g : Grid} {r : Route} {codes : List Code} :
    codes ∈ r.tuples g ↔ r.Holds g codes := by
  unfold tuples Holds
  split
  · rename_i box hbox
    simp [hbox, CodeBox.mem_tuples]
  · rename_i hnone
    simp only [List.not_mem_nil, false_iff]
    rintro ⟨box, hbox, -⟩
    exact hnone box hbox

end Route

/-- The route at a position holds the tuple. -/
def HoldsAt (g : Grid) (routes : List Route) (k : Nat) (codes : List Code) : Prop :=
  ∃ r, routes[k]? = some r ∧ r.Holds g codes

/-- The routes at two positions hold a tuple in common. -/
def Share (g : Grid) (routes : List Route) (i j : Nat) : Prop :=
  ∃ codes, HoldsAt g routes i codes ∧ HoldsAt g routes j codes

theorem Share.symm {g : Grid} {routes : List Route} {i j : Nat} (h : Share g routes i j) :
    Share g routes j i := by
  obtain ⟨codes, hi, hj⟩ := h
  exact ⟨codes, hj, hi⟩

/-- The route at position `j`, with verdict `w`, is the first that holds a tuple of an earlier one;
`codes` is the first such tuple, and the route at position `i`, with verdict `v`, has it as well. -/
structure IsClash (g : Grid) (routes : List Route) (codes : List Code) (i : Nat) (v : Verdict)
    (j : Nat) (w : Verdict) : Prop where
  lt : i < j
  first : ∃ r, routes[i]? = some r ∧ r.Holds g codes ∧ r.verdict = v
  second : ∃ r, routes[j]? = some r ∧ r.Holds g codes ∧ r.verdict = w
  least : IsLeast {k | ∃ h < k, Share g routes h k} j
  codes_least : ∀ h < j, ∀ codes', HoldsAt g routes h codes' → HoldsAt g routes j codes' →
    ¬ codes' < codes

theorem IsClash.share {g : Grid} {routes : List Route} {codes : List Code} {i j : Nat}
    {v w : Verdict} (h : IsClash g routes codes i v j w) : Share g routes i j := by
  obtain ⟨r, hr, hrcodes, -⟩ := h.first
  obtain ⟨s, hs, hscodes, -⟩ := h.second
  exact ⟨codes, ⟨r, hr, hrcodes⟩, s, hs, hscodes⟩

/-! ## The first clash among placements -/

/-- **The first clash stands after placements that have none.** -/
theorem exists_of_firstClash? {earlier ps : List Placement} {clash : Clash}
    (h : firstClash? earlier ps = some clash) :
    ∃ before after, ps = before ++ clash.second :: after ∧
      clash.IsFirst (earlier ++ before) clash.second ∧ firstClash? earlier before = none := by
  induction ps generalizing earlier with
  | nil => cases h
  | cons p ps ih =>
    rw [firstClash?] at h
    split at h
    · rename_i clash' hclash
      cases h
      have hfirst := isFirst_clashWith? hclash
      obtain rfl := hfirst.second_eq
      exact ⟨[], ps, rfl, by rwa [List.append_nil], rfl⟩
    · rename_i hnone
      obtain ⟨before, after, hps, hfirst, hbefore⟩ := ih h
      refine ⟨p :: before, after, by rw [hps]; rfl, ?_, ?_⟩
      · rwa [List.append_assoc, List.singleton_append] at hfirst
      · rw [firstClash?, hnone]
        exact hbefore

/-- Among placements in the order of their routes there is no clash exactly if none meets one of an
earlier route. -/
theorem firstClash?_eq_none_iff_of_pairwise {ps : List Placement}
    (hps : ps.Pairwise fun q p => q.route < p.route) :
    firstClash? [] ps = none ↔
      ∀ q ∈ ps, ∀ p ∈ ps, q.route < p.route → p.box.meet? q.box = none := by
  rw [firstClash?_eq_none_iff, and_iff_right (by simp)]
  constructor
  · intro hmeet q hq p hp
    -- the order of two placements in the list is that of their routes
    refine List.Pairwise.forall_of_forall_of_flip
      (R := fun q p => q.route < p.route → p.box.meet? q.box = none) ?_ ?_ ?_ hq hp
    · exact fun p _ hlt => absurd hlt (Nat.lt_irrefl _)
    · exact hmeet.imp fun {q p} hnone (_ : q.route < p.route) => hnone
    · exact hps.imp fun hlt hgt => absurd hgt (Nat.lt_asymm hlt)
  · exact fun hmeet => hps.imp_of_mem fun hq hp hlt => hmeet _ hq _ hp hlt

section Placements

variable {g : Grid} {limit : UInt64} {routes : List Route} {ps : List Placement} {clash : Clash}

/-- What a placement holds is held by its route. -/
theorem exists_route (hps : placements g limit 0 0 routes = .ok ps) {p : Placement} (hp : p ∈ ps)
    {codes : List Code} (hcodes : p.box.contains codes = true) :
    ∃ r, routes[p.route]? = some r ∧ r.Holds g codes ∧ r.verdict = p.verdict := by
  obtain ⟨k, r, hr, hbox, hverdict, hroute⟩ := ((placements_ok hps).2 p).1 hp
  rw [Nat.zero_add] at hroute
  exact ⟨r, by rw [hroute, hr], ⟨p.box, hbox, hcodes⟩, hverdict.symm⟩

/-- A route that holds a tuple has a placement that does. -/
theorem exists_placement (hps : placements g limit 0 0 routes = .ok ps) {k : Nat}
    {codes : List Code} (h : HoldsAt g routes k codes) :
    ∃ p ∈ ps, p.route = k ∧ p.box.contains codes = true := by
  obtain ⟨r, hr, box, hbox, hcodes⟩ := h
  refine ⟨⟨k, r.verdict, box⟩, ?_, rfl, hcodes⟩
  exact ((placements_ok hps).2 _).2 ⟨k, r, hr, hbox, rfl, (Nat.zero_add k).symm⟩

/-- **There is no clash exactly if no two routes share a tuple.** -/
theorem firstClash?_eq_none_iff_not_share (hps : placements g limit 0 0 routes = .ok ps) :
    firstClash? [] ps = none ↔ ¬ ∃ i j, i ≠ j ∧ Share g routes i j := by
  rw [firstClash?_eq_none_iff_of_pairwise (pairwise_placements hps)]
  constructor
  · intro hmeet
    have hordered : ∀ i j, i < j → ¬ Share g routes i j := by
      rintro i j hlt ⟨codes, hi, hj⟩
      obtain ⟨q, hq, rfl, hqcodes⟩ := exists_placement hps hi
      obtain ⟨p, hp, rfl, hpcodes⟩ := exists_placement hps hj
      rw [CodeBox.disjoint_of_meet? (hmeet q hq p hp hlt) hpcodes] at hqcodes
      cases hqcodes
    rintro ⟨i, j, hne, hshare⟩
    rcases Nat.lt_or_gt_of_ne hne with hlt | hgt
    · exact hordered i j hlt hshare
    · exact hordered j i hgt hshare.symm
  · intro hnone q hq p hp hlt
    rw [CodeBox.meet?_eq_none_iff]
    intro codes hpcodes
    rw [Bool.eq_false_iff]
    intro hqcodes
    obtain ⟨r, hr, hrcodes, -⟩ := exists_route hps hq hqcodes
    obtain ⟨s, hs, hscodes, -⟩ := exists_route hps hp hpcodes
    exact hnone ⟨_, _, Nat.ne_of_lt hlt, codes, ⟨r, hr, hrcodes⟩, s, hs, hscodes⟩

/-- A placement stands before another one, is that one, or has a later route. -/
theorem before_or_eq_or_lt {before after : List Placement} {s p : Placement}
    (h : (before ++ s :: after).Pairwise fun q p => q.route < p.route)
    (hp : p ∈ before ++ s :: after) : p ∈ before ∨ p = s ∨ s.route < p.route := by
  obtain ⟨-, hafter, -⟩ := List.pairwise_append.1 h
  rcases List.mem_append.1 hp with hp | hp
  · exact Or.inl hp
  · rcases List.mem_cons.1 hp with rfl | hp
    · exact Or.inr (Or.inl rfl)
    · exact Or.inr (Or.inr ((List.pairwise_cons.1 hafter).1 p hp))

/-- **The first clash is that of the first route which shares a tuple with an earlier one.** -/
theorem isClash_of_firstClash? (hps : placements g limit 0 0 routes = .ok ps)
    (h : firstClash? [] ps = some clash) :
    IsClash g routes clash.codes clash.first.route clash.first.verdict clash.second.route
      clash.second.verdict := by
  obtain ⟨before, after, rfl, hfirst, hnone⟩ := exists_of_firstClash? h
  rw [List.nil_append] at hfirst
  have hordered := pairwise_placements hps
  obtain ⟨hbefore, -, hacross⟩ := List.pairwise_append.1 hordered
  have hmem : clash.first ∈ before := List.mem_of_find?_eq_some hfirst.first
  have hcodes : clash.first.box.contains clash.codes = true := by
    simpa using List.find?_some hfirst.first
  have hlt : clash.first.route < clash.second.route := hacross _ hmem _ List.mem_cons_self
  -- only placements before that of the clash have earlier routes
  have hearlier : ∀ p ∈ before ++ clash.second :: after, p.route < clash.second.route →
      p ∈ before := by
    intro p hp hroute
    rcases before_or_eq_or_lt hordered hp with hp | rfl | hgt
    · exact hp
    · exact absurd hroute (Nat.lt_irrefl _)
    · exact absurd hgt (Nat.lt_asymm hroute)
  obtain ⟨r, hr, hrcodes, hrverdict⟩ := exists_route hps (List.mem_append_left _ hmem) hcodes
  obtain ⟨s, hs, hscodes, hsverdict⟩ :=
    exists_route hps (List.mem_append_right _ List.mem_cons_self) hfirst.mem
  refine ⟨hlt, ⟨r, hr, hrcodes, hrverdict⟩, ⟨s, hs, hscodes, hsverdict⟩, ⟨?_, ?_⟩, ?_⟩
  · exact ⟨_, hlt, clash.codes, ⟨r, hr, hrcodes⟩, s, hs, hscodes⟩
  · rintro k ⟨h, hhk, codes, hh, hk⟩
    refine Nat.le_of_not_lt fun hkj => ?_
    obtain ⟨q, hq, rfl, hqcodes⟩ := exists_placement hps hh
    obtain ⟨p, hp, rfl, hpcodes⟩ := exists_placement hps hk
    have hmeet := (firstClash?_eq_none_iff_of_pairwise hbefore).1 hnone q
      (hearlier q hq (Nat.lt_trans hhk hkj)) p (hearlier p hp hkj) hhk
    rw [CodeBox.disjoint_of_meet? hmeet hpcodes] at hqcodes
    cases hqcodes
  · intro h hhj codes hh hj
    obtain ⟨q, hq, rfl, hqcodes⟩ := exists_placement hps hh
    obtain ⟨p, hp, hroute, hpcodes⟩ := exists_placement hps hj
    obtain rfl : p = clash.second := by
      rcases before_or_eq_or_lt hordered hp with hp | heq | hgt
      · exact absurd hroute (Nat.ne_of_lt (hacross p hp _ List.mem_cons_self))
      · exact heq
      · exact absurd hroute (Nat.ne_of_gt hgt)
    exact hfirst.least q (hearlier q hq hhj) codes hpcodes hqcodes

end Placements

/-! ## What keeps routes from being placed -/

theorem Axis.cover_error {a : Axis} {i : Interval} {flaw : CutFlaw} (h : a.cover i = .error flaw) :
    flaw = .misaligned i.lower i.upper := by
  unfold cover at h
  split at h
  · cases h
  · dsimp only at h
    split at h
    · cases h
    · cases h
      rfl

theorem Route.runOn_error {a : Axis} {i : Interval} {tested : Bool} {fault : Fault}
    (h : runOn a i tested = .error fault) :
    fault = .cut a.feature (.misaligned i.lower i.upper) := by
  unfold runOn at h
  split at h
  · obtain ⟨flaw, hflaw, rfl⟩ := mapError_eq_error.1 h
    rw [Axis.cover_error hflaw]
  · cases h

/-- A box fails to be found only for a misaligned interval. -/
theorem Route.runsFrom_error {r : Route} {index : Nat} {axes : List Axis}
    {intervals : List Interval} {fault : Fault}
    (h : r.runsFrom index axes intervals = .error fault) :
    ∃ feature lower upper, fault = .cut feature (.misaligned lower upper) := by
  induction axes generalizing index intervals with
  | nil => simp [runsFrom] at h
  | cons a axes ih =>
    cases intervals with
    | nil => simp [runsFrom] at h
    | cons i intervals =>
      rw [runsFrom] at h
      rcases bind_eq_error.1 h with h | ⟨run?, -, h⟩
      · exact ⟨_, _, _, runOn_error h⟩
      · cases run? with
        | none => cases h
        | some run =>
          rcases bind_eq_error.1 h with h | ⟨rest?, -, h⟩
          · exact ih h
          · cases h

/-- **Only misaligned intervals and too many rows keep routes from being placed.** -/
theorem placements_error {g : Grid} {limit : UInt64} {index total : Nat} {routes : List Route}
    {fault : Fault} (h : placements g limit index total routes = .error fault) :
    (∃ route rows, fault = .tableOverflow route rows limit) ∨
      ∃ feature lower upper, fault = .cut feature (.misaligned lower upper) := by
  induction routes generalizing index total with
  | nil => cases h
  | cons r rs ih =>
    rw [placements] at h
    rcases bind_eq_error.1 h with h | ⟨box?, -, h⟩
    · exact Or.inr (Route.runsFrom_error h)
    · cases box? with
      | none => exact ih h
      | some box =>
        dsimp only at h
        split at h
        · cases h
          exact Or.inl ⟨_, _, rfl⟩
        · rcases bind_eq_error.1 h with h | ⟨rest, -, h⟩
          · exact ih h
          · cases h

/-! ## Tables -/

namespace CodeTable

variable {g : Grid} {maxRows : UInt64} {routes : List Route}

/-- **The table of routes that are placed is all their rows, or there is a clash.** -/
theorem ofRoutes_of_placements {ps : List Placement}
    (hps : placements g maxRows 0 0 routes = .ok ps) :
    (∃ codes i v j w, ofRoutes routes g maxRows = .error (.ambiguous codes i v j w) ∧
      IsClash g routes codes i v j w) ∨
    (¬ ∃ i j, i ≠ j ∧ Share g routes i j) ∧ ofRoutes routes g maxRows =
      .ok ⟨routes.zipIdx.flatMap fun x => x.1.rowsAt g x.2⟩ := by
  cases hclash : firstClash? [] ps with
  | some c =>
    have herror : ofRoutes routes g maxRows = .error
        (.ambiguous c.codes c.first.route c.first.verdict c.second.route c.second.verdict) := by
      simp only [ofRoutes, hps, hclash, bind, Except.bind]
    exact Or.inl ⟨_, _, _, _, _, herror, isClash_of_firstClash? hps hclash⟩
  | none =>
    have hok : ofRoutes routes g maxRows = .ok ⟨ps.flatMap Placement.rows⟩ := by
      simp only [ofRoutes, hps, hclash, bind, Except.bind]
    rw [rows_placements hps] at hok
    exact Or.inr ⟨(firstClash?_eq_none_iff_not_share hps).1 hclash, hok⟩

namespace Places

variable {table : CodeTable}

/-- A tuple has the verdict of the route that holds it. -/
theorem verdict?_of_holds (h : table.Places routes g) {r : Route} (hr : r ∈ routes)
    {codes : List Code} (hcodes : r.Holds g codes) : table.verdict? codes = some r.verdict := by
  obtain ⟨k, hk⟩ := List.getElem?_of_mem hr
  obtain ⟨box, hbox, hcodes⟩ := hcodes
  rw [verdict?_eq_some_iff h.nodup]
  exact ⟨⟨codes, r.verdict, k⟩, (h.mem_rows _).2 ⟨r, box, hk, hbox, rfl, hcodes⟩, rfl, rfl⟩

/-- A tuple that no route holds has no verdict. -/
theorem verdict?_of_not_holds (h : table.Places routes g) {codes : List Code}
    (hcodes : ∀ r ∈ routes, ¬ r.Holds g codes) : table.verdict? codes = none := by
  rw [verdict?_eq_none_iff]
  rintro row hrow rfl
  obtain ⟨r, box, hr, hbox, -, hcontains⟩ := (h.mem_rows row).1 hrow
  exact hcodes r (List.mem_of_getElem? hr) ⟨box, hbox, hcontains⟩

end Places

/-- **A table is ambiguous exactly if two of its routes share a tuple.** On the grid of an arena,
let some routes with at most as many intervals as there are axes have neither too many rows nor a
misaligned interval. Then a clash is reported exactly if two routes hold a tuple in common, and it
is the first one. Otherwise the table has the rows of all routes in their order; a tuple has the
verdict of the route that holds it, and none if there is no such route. Adding the rows one by one,
with an index that tells where the row of each tuple stands, comes to the same end, and looking up a
tuple in the index gives the same verdict. -/
theorem ofRoutes_clashes {t : Tree} {schema : Schema} {maxBands : UInt64}
    (hgrid : Grid.ofTree t schema maxBands = .ok g)
    (hlength : ∀ r ∈ routes, r.intervals.length ≤ g.axes.length)
    (hfit : ∀ route rows limit,
      ofRoutes routes g maxRows ≠ .error (.tableOverflow route rows limit))
    (haligned : ∀ feature lower upper,
      ofRoutes routes g maxRows ≠ .error (.cut feature (.misaligned lower upper))) :
    ((∃ codes i v j w, ofRoutes routes g maxRows = .error (.ambiguous codes i v j w)) ↔
      ∃ i j, i ≠ j ∧ Share g routes i j) ∧
    (∀ codes i v j w, ofRoutes routes g maxRows = .error (.ambiguous codes i v j w) →
      IsClash g routes codes i v j w) ∧
    ((¬ ∃ i j, i ≠ j ∧ Share g routes i j) → ∃ table, ofRoutes routes g maxRows = .ok table ∧
      table.rows = (routes.zipIdx.flatMap fun x => x.1.rowsAt g x.2) ∧
      ∀ codes, (∀ r ∈ routes, r.Holds g codes → table.verdict? codes = some r.verdict) ∧
        ((∀ r ∈ routes, ¬ r.Holds g codes) → table.verdict? codes = none)) ∧
    Shelf.guardedFill routes g maxRows =
      ((ofRoutes routes g maxRows).map fun table => Shelf.holding table.rows).mapError .fault ∧
    ∀ (table : CodeTable) codes,
      (Shelf.holding table.rows).guardedVerdict? codes = .ok (table.verdict? codes) := by
  have hplaced : ∃ ps, placements g maxRows 0 0 routes = .ok ps := by
    cases hps : placements g maxRows 0 0 routes with
    | ok ps => exact ⟨ps, rfl⟩
    | error fault =>
      have herror : ofRoutes routes g maxRows = .error fault := bind_eq_error.2 (Or.inl hps)
      rcases placements_error hps with ⟨route, rows, rfl⟩ | ⟨feature, lower, upper, rfl⟩
      · exact absurd herror (hfit _ _ _)
      · exact absurd herror (haligned _ _ _)
  obtain ⟨ps, hps⟩ := hplaced
  have hfill := Shelf.guardedFill_eq (Grid.tiled_ofTree hgrid) hlength maxRows
  have hverdict : ∀ (table : CodeTable) codes,
      (Shelf.holding table.rows).guardedVerdict? codes = .ok (table.verdict? codes) :=
    fun table codes => Shelf.guardedVerdict?_holding table.rows codes
  rcases ofRoutes_of_placements hps with ⟨codes, i, v, j, w, herror, hclash⟩ | ⟨hnone, hok⟩
  · have hshare : ∃ i j, i ≠ j ∧ Share g routes i j :=
      ⟨i, j, Nat.ne_of_lt hclash.lt, hclash.share⟩
    refine ⟨iff_of_true ⟨codes, i, v, j, w, herror⟩ hshare, ?_, fun hnone => absurd hshare hnone,
      hfill, hverdict⟩
    intro codes' i' v' j' w' herror'
    rw [herror] at herror'
    cases herror'
    exact hclash
  · refine ⟨iff_of_false ?_ hnone, ?_, fun _ => ⟨_, hok, rfl, fun codes => ?_⟩, hfill, hverdict⟩
    · rintro ⟨codes, i, v, j, w, herror⟩
      rw [hok] at herror
      cases herror
    · intro codes i v j w herror
      rw [hok] at herror
      cases herror
    · have hplaces := ofRoutes_ok hok
      exact ⟨fun r hr => hplaces.verdict?_of_holds hr, hplaces.verdict?_of_not_holds⟩

end CodeTable

/-- A route that takes all tuples with the least second code, one that is barred, one that ends
before the last axis, and one that takes all tuples with the greatest first code. -/
def Route.crossing : List Route :=
  [⟨0, .normal, [], [⟨0, 255⟩, ⟨0, 7⟩], [1]⟩, ⟨0, .attack, [], [⟨21, 20⟩, ⟨0, 65535⟩], [0]⟩,
    ⟨0, .attack, [], [⟨21, 255⟩], [0]⟩, ⟨0, .attack, [], [⟨21, 255⟩, ⟨0, 65535⟩], [0]⟩]

theorem CodeTable.crossing_ofRoutes_clashes :
    Grid.ofTree .lopsided .lopsided 2 = .ok Grid.lopsided ∧
      ofRoutes Route.crossing Grid.lopsided 7 = .error (.ambiguous [1, 0] 0 .normal 3 .attack) ∧
      IsClash Grid.lopsided Route.crossing [1, 0] 0 .normal 3 .attack ∧
      ∃ table, ofRoutes Route.loose Grid.lopsided 5 = .ok table ∧
        table.verdict? [1, 1] = some .normal ∧ table.verdict? [0] = some .attack ∧
        table.verdict? [1] = none := by
  have hgrid : Grid.ofTree .lopsided .lopsided 2 = .ok Grid.lopsided :=
    eq_ok_of_toOption (by decide +kernel)
  have hcrossing : ofRoutes Route.crossing Grid.lopsided 7 =
      .error (.ambiguous [1, 0] 0 .normal 3 .attack) := by decide +kernel
  have hlength : ∀ r ∈ Route.crossing, r.intervals.length ≤ Grid.lopsided.axes.length := by decide
  have hfit : ∀ route rows limit, ofRoutes Route.crossing Grid.lopsided 7 ≠
      .error (.tableOverflow route rows limit) := by simp [hcrossing]
  obtain ⟨-, hclash, -⟩ := ofRoutes_clashes hgrid hlength hfit (by simp [hcrossing])
  obtain ⟨loose, hloose⟩ : ∃ table, ofRoutes Route.loose Grid.lopsided 5 = .ok table :=
    exists_ok_of_toBool (by decide +kernel)
  have hlength : ∀ r ∈ Route.loose, r.intervals.length ≤ Grid.lopsided.axes.length := by decide
  have hfit : ∀ route rows limit, ofRoutes Route.loose Grid.lopsided 5 ≠
      .error (.tableOverflow route rows limit) := by simp [hloose]
  obtain ⟨hiff, -, htable, -⟩ := ofRoutes_clashes hgrid hlength hfit (by simp [hloose])
  obtain ⟨table, hok, -, hverdict⟩ := htable (hiff.not.1 (by simp [hloose]))
  refine ⟨hgrid, hcrossing, hclash _ _ _ _ _ hcrossing, table, hok, ?_, ?_, ?_⟩
  · exact (hverdict _).1 Route.loose[0] (List.getElem_mem _)
      (Route.mem_tuples_iff.1 (by decide +kernel))
  · exact (hverdict _).1 Route.loose[2] (List.getElem_mem _)
      (Route.mem_tuples_iff.1 (by decide +kernel))
  · refine (hverdict _).2 fun r hr hholds => ?_
    have hnone : ∀ r ∈ Route.loose, [1] ∉ r.tuples Grid.lopsided := by decide +kernel
    exact hnone r hr (Route.mem_tuples_iff.2 hholds)

end MatchTree
