import MatchTree.Proofs.CodeTable
import MatchTree.Proofs.Enumeration

/-!
# How many rows a table gets

* `Route.tuples` — the tuples of the box of a route; `Route.rowsAt` — its rows.

Rows are counted route by route with sums and products that are capped at 64 bits, before any row is
written.

Principal results: `placements_outcome` — as long as the limit itself is not the cap, the capped sum
exceeds it exactly where the true sum does, and then the route and the sum up to there are reported;
`nodup_tuples`, `mem_tuples_iff` — the boxes of all routes of a tree hold each code tuple exactly
once; `length_tuples` — so the true sum is the product of the numbers of bands.
-/

namespace MatchTree

/-! ## Capped sums and products -/

theorem cappedMul_min (a b : Nat) : cappedMul (min a wordMax) b = min (a * b) wordMax := by
  unfold cappedMul
  rcases Nat.le_total a wordMax with hle | hge
  · rw [Nat.min_eq_left hle]
  · rw [Nat.min_eq_right hge]
    cases b with
    | zero => rfl
    | succ b =>
      have hcap : wordMax ≤ wordMax * (b + 1) := Nat.le_mul_of_pos_right _ (Nat.succ_pos b)
      have hover : wordMax ≤ a * (b + 1) := Nat.le_trans hge (Nat.le_mul_of_pos_right _ b.succ_pos)
      rw [Nat.min_eq_right hcap, Nat.min_eq_right hover]

/-- **A product that is capped at each step is the capped product.** -/
theorem foldl_cappedMul (xs : List Nat) (a : Nat) :
    xs.foldl cappedMul (min a wordMax) = min (a * xs.prod) wordMax := by
  induction xs generalizing a with
  | nil => simp
  | cons x xs ih => rw [List.foldl_cons, cappedMul_min, ih, List.prod_cons, Nat.mul_assoc]

theorem CodeBox.size_eq (b : CodeBox) : b.size = min b.tuples.length wordMax := by
  have hone : (1 : Nat) = min 1 wordMax := rfl
  rw [size, length_tuples, hone, foldl_cappedMul, Nat.one_mul]

/-! ## Placements -/

/-- The tuples of the box of a route; none if it has no box. -/
def Route.tuples (g : Grid) (r : Route) : List (List Code) :=
  match r.box g with
  | .ok (some box) => box.tuples
  | _ => []

/-- The rows of a route at a position. -/
def Route.rowsAt (g : Grid) (r : Route) (k : Nat) : List Row :=
  (r.tuples g).map fun codes => ⟨codes, r.verdict, k⟩

theorem Route.map_codes_rowsAt (g : Grid) (r : Route) (k : Nat) :
    (r.rowsAt g k).map (·.codes) = r.tuples g := by
  simp [rowsAt, Function.comp_def]

theorem Route.tuples_of_none {g : Grid} {r : Route} (h : r.box g = .ok none) : r.tuples g = [] := by
  rw [tuples, h]

theorem Route.tuples_of_some {g : Grid} {r : Route} {box : CodeBox}
    (h : r.box g = .ok (some box)) : r.tuples g = box.tuples := by
  rw [tuples, h]

section Placements

variable {g : Grid} {limit : UInt64} {index total : Nat} {r : Route} {routes : List Route}
  {box : CodeBox}

theorem placements_cons_none (h : r.box g = .ok none) :
    placements g limit index total (r :: routes) = placements g limit (index + 1) total routes := by
  rw [placements, h]
  rfl

theorem cappedAdd_size (total : Nat) (box : CodeBox) :
    cappedAdd total box.size = min (total + box.tuples.length) wordMax := by
  rw [cappedAdd, CodeBox.size_eq]
  omega

/-- A sum past the limit is reported, capped, but not so that it would be within the limit again. -/
theorem placements_cons_over (hlimit : limit.toNat < wordMax) (h : r.box g = .ok (some box))
    (hover : limit.toNat < total + box.tuples.length) :
    placements g limit index total (r :: routes) =
      .error (.tableOverflow index (min (total + box.tuples.length) wordMax) limit) := by
  have hcapped : limit.toNat < min (total + box.tuples.length) wordMax := by omega
  simp only [placements, h, cappedAdd_size, bind, Except.bind, if_pos hcapped]

/-- Up to the limit no sum is capped. -/
theorem placements_cons_fit (hlimit : limit.toNat < wordMax) (h : r.box g = .ok (some box))
    (hfit : total + box.tuples.length ≤ limit.toNat) :
    placements g limit index total (r :: routes) =
      (placements g limit (index + 1) (total + box.tuples.length) routes).bind fun ps =>
        .ok (⟨index, r.verdict, box⟩ :: ps) := by
  have hexact : cappedAdd total box.size = total + box.tuples.length := by
    rw [cappedAdd_size]
    omega
  simp only [placements, h, hexact, bind, Except.bind, if_neg (Nat.not_lt_of_le hfit)]
  rfl

/-- **The rows of placements are those of the routes**, in their order. -/
theorem rows_placements {ps : List Placement} (h : placements g limit index total routes = .ok ps) :
    ps.flatMap Placement.rows = (routes.zipIdx index).flatMap fun x => x.1.rowsAt g x.2 := by
  obtain ⟨-, rfl⟩ := placements_eq_filterMap h
  rw [List.filterMap_eq_flatMap_toList, List.flatMap_assoc]
  refine List.flatMap_congr fun x _ => ?_
  rw [Route.rowsAt, Route.placement?, Route.tuples]
  rcases x.1.box g with fault | box?
  · rfl
  cases box? with
  | none => rfl
  | some box => exact List.append_nil _

/-- The boxes that are placed are those of the routes. -/
theorem tuples_placements {ps : List Placement} (h : placements g limit index total routes = .ok ps) :
    ps.flatMap (·.box.tuples) = routes.flatMap (Route.tuples g) := by
  have hcodes := congrArg (List.map Row.codes) (rows_placements h)
  simp only [List.map_flatMap, Placement.map_codes_rows, Route.map_codes_rowsAt] at hcodes
  rw [hcodes, ← List.flatMap_map, List.zipIdx_map_fst]

/-- **All routes are placed, or the rows up to some route are too many**, and then that route and
the sum up to it are reported. -/
theorem placements_outcome (hlimit : limit.toNat < wordMax)
    (hboxes : ∀ r ∈ routes, ∃ box?, r.box g = .ok box?) (htotal : total ≤ limit.toNat) :
    (∃ ps, placements g limit index total routes = .ok ps ∧
      total + (routes.flatMap (Route.tuples g)).length ≤ limit.toNat) ∨
    ∃ before r after, routes = before ++ r :: after ∧
      total + (before.flatMap (Route.tuples g)).length ≤ limit.toNat ∧
      limit.toNat < total + ((before ++ [r]).flatMap (Route.tuples g)).length ∧
      placements g limit index total routes = .error (.tableOverflow (index + before.length)
        (min (total + ((before ++ [r]).flatMap (Route.tuples g)).length) wordMax) limit) := by
  induction routes generalizing index total with
  | nil => exact Or.inl ⟨[], rfl, by simpa using htotal⟩
  | cons r rs ih =>
    obtain ⟨⟨box?, hbox⟩, hboxes⟩ := List.forall_mem_cons.1 hboxes
    have hindex : ∀ before : List Route,
        index + 1 + before.length = index + (r :: before).length := by
      intro before
      rw [List.length_cons, Nat.add_assoc, Nat.add_comm 1]
    -- What `r` adds to the total, so that the induction hypothesis counts on from there.
    have hcount : ∀ rest : List Route, total + ((r :: rest).flatMap (Route.tuples g)).length =
        total + (r.tuples g).length + (rest.flatMap (Route.tuples g)).length := by
      intro rest
      rw [List.flatMap_cons, List.length_append, Nat.add_assoc]
    cases box? with
    | none =>
      rw [Route.tuples_of_none hbox, List.length_nil, Nat.add_zero] at hcount
      rcases @ih (index + 1) total hboxes htotal with
        ⟨ps, hps, hle⟩ | ⟨before, s, after, rfl, hle, hlt, herror⟩
      · exact Or.inl ⟨ps, (placements_cons_none hbox).trans hps, by rwa [hcount]⟩
      · refine Or.inr ⟨r :: before, s, after, rfl, by rwa [hcount], ?_, ?_⟩
        · rwa [List.cons_append, hcount]
        · rw [placements_cons_none hbox, herror, List.cons_append, hcount, hindex]
    | some box =>
      rw [Route.tuples_of_some hbox] at hcount
      by_cases hover : limit.toNat < total + box.tuples.length
      · have hfirst : total + (([] ++ [r]).flatMap (Route.tuples g)).length =
            total + box.tuples.length := hcount []
        refine Or.inr ⟨[], r, rs, rfl, htotal, ?_, ?_⟩
        · rwa [hfirst]
        · rw [hfirst]
          exact placements_cons_over hlimit hbox hover
      · have hfit := Nat.le_of_not_lt hover
        rcases @ih (index + 1) _ hboxes hfit with
          ⟨ps, hps, hle⟩ | ⟨before, s, after, rfl, hle, hlt, herror⟩
        · refine Or.inl ⟨⟨index, r.verdict, box⟩ :: ps, ?_, by rwa [hcount]⟩
          rw [placements_cons_fit hlimit hbox hfit, hps]
          rfl
        · refine Or.inr ⟨r :: before, s, after, rfl, by rwa [hcount], ?_, ?_⟩
          · rwa [List.cons_append, hcount]
          · rw [placements_cons_fit hlimit hbox hfit, herror, List.cons_append, hcount, hindex]
            rfl

end Placements

/-- **The rows of a table are the tuples of its routes**, in the order of the routes. -/
theorem CodeTable.map_codes_of_ofRoutes {g : Grid} {routes : List Route} {maxRows : UInt64}
    {table : CodeTable} (h : ofRoutes routes g maxRows = .ok table) :
    table.rows.map (·.codes) = routes.flatMap (Route.tuples g) := by
  obtain ⟨ps, hps, h⟩ := bind_eq_ok.1 h
  split at h
  · cases h
  cases h
  simp only [List.map_flatMap, Placement.map_codes_rows]
  exact tuples_placements hps

/-- Placements without a tuple in common do not clash. -/
theorem firstClash?_eq_none_of_nodup {ps : List Placement}
    (h : (ps.flatMap (·.box.tuples)).Nodup) : firstClash? [] ps = none := by
  refine firstClash?_eq_none_iff.2 ⟨by simp, ?_⟩
  refine (List.nodup_flatMap.1 h).2.imp fun {q p} hdisjoint => ?_
  rw [CodeBox.meet?_eq_none_iff]
  intro codes hp
  rw [Bool.eq_false_iff]
  intro hq
  exact hdisjoint (CodeBox.mem_tuples.2 hq) (CodeBox.mem_tuples.2 hp)

/-- Placements without a tuple in common make a table. -/
theorem CodeTable.ofRoutes_of_nodup {g : Grid} {routes : List Route} {maxRows : UInt64}
    {ps : List Placement} (hps : placements g maxRows 0 0 routes = .ok ps)
    (hnodup : (routes.flatMap (Route.tuples g)).Nodup) :
    ofRoutes routes g maxRows = .ok ⟨ps.flatMap Placement.rows⟩ := by
  rw [← tuples_placements hps] at hnodup
  rw [ofRoutes, bind_eq_ok]
  refine ⟨ps, hps, ?_⟩
  rw [firstClash?_eq_none_of_nodup hnodup]

/-! ## The routes of a tree -/

namespace Branch.Spans

variable {b : Branch} {t : Tree} {schema : Schema} {routes : List Route} {g : Grid}

theorem mem_tuples (hb : b.Spans t) (hroutes : t.routes schema = .ok routes) (hg : g.Fits schema)
    (hboxes : ∀ r ∈ routes, ∃ box?, r.box g = .ok box?) {r : Route} (hr : r ∈ routes)
    {values : List UInt32} (hvalues : schema.Admits values) :
    g.encode values ∈ r.tuples g ↔ r.Takes values := by
  obtain ⟨w, -, hlead⟩ := hb.exists_leadsBy hroutes hr
  obtain ⟨box?, hbox⟩ := hboxes r hr
  cases box? with
  | none =>
    rw [Route.tuples_of_none hbox]
    simpa using Route.not_takes_of_box hbox values
  | some box =>
    rw [Route.tuples_of_some hbox]
    exact CodeBox.mem_tuples.trans (hlead.contains_box_iff hg hbox hvalues)

theorem exists_values_of_tuples (hb : b.Spans t) (hroutes : t.routes schema = .ok routes)
    (hg : g.Fits schema) {r : Route} (hr : r ∈ routes) {codes : List Code}
    (hcodes : codes ∈ r.tuples g) :
    ∃ values, schema.Admits values ∧ g.encode values = codes := by
  obtain ⟨w, -, hlead⟩ := hb.exists_leadsBy hroutes hr
  rw [Route.tuples] at hcodes
  split at hcodes
  · rename_i box hbox
    exact hlead.exists_values_of_box hg hbox (CodeBox.mem_tuples.1 hcodes)
  · cases hcodes

/-- **No two routes of a tree have a tuple in common.** -/
theorem nodup_tuples (hb : b.Spans t) (hroutes : t.routes schema = .ok routes) (hg : g.Fits schema)
    (hboxes : ∀ r ∈ routes, ∃ box?, r.box g = .ok box?) :
    (routes.flatMap (Route.tuples g)).Nodup := by
  rw [List.nodup_flatMap]
  refine ⟨fun r _ => ?_, ?_⟩
  · rw [Route.tuples]
    split
    · exact CodeBox.nodup_tuples _
    · exact List.nodup_nil
  · have hleaves := List.pairwise_map.1 (hb.nodup_leaves_routes hroutes)
    refine hleaves.imp_of_mem fun {r s} hr hs hne codes hcr hcs => ?_
    obtain ⟨values, hvalues, rfl⟩ := hb.exists_values_of_tuples hroutes hg hr hcr
    -- An input with these codes takes both routes, and so they are one.
    obtain ⟨taken, -, htaken, -⟩ := hb.exists_taken hroutes hvalues
    have hrt := (htaken r hr).1 ((hb.mem_tuples hroutes hg hboxes hr hvalues).1 hcr)
    have hst := (htaken s hs).1 ((hb.mem_tuples hroutes hg hboxes hs hvalues).1 hcs)
    exact hne (by rw [hrt, hst])

/-- **The routes of a tree have all tuples with a code of each axis.** -/
theorem mem_tuples_iff (hb : b.Spans t) (hroutes : t.routes schema = .ok routes)
    (hg : g.Fits schema) (hboxes : ∀ r ∈ routes, ∃ box?, r.box g = .ok box?) {codes : List Code} :
    codes ∈ routes.flatMap (Route.tuples g) ↔
      List.Forall₂ (fun a c => c.toNat < a.size) g.axes codes := by
  rw [List.mem_flatMap]
  constructor
  · rintro ⟨r, hr, hcodes⟩
    obtain ⟨values, hvalues, rfl⟩ := hb.exists_values_of_tuples hroutes hg hr hcodes
    exact hg.encode_lt hvalues
  · intro hcodes
    obtain ⟨values, hvalues, rfl⟩ := hg.exists_values hcodes
    obtain ⟨r, hr, htaken, -⟩ := hb.exists_taken hroutes hvalues
    exact ⟨r, hr, (hb.mem_tuples hroutes hg hboxes hr hvalues).2 ((htaken r hr).2 rfl)⟩

/-- **There are as many tuples as the numbers of bands multiply to.** -/
theorem length_tuples (hb : b.Spans t) (hroutes : t.routes schema = .ok routes)
    (hg : g.Fits schema) (hboxes : ∀ r ∈ routes, ∃ box?, r.box g = .ok box?) :
    (routes.flatMap (Route.tuples g)).length = g.bandCounts.prod := by
  have hperm : (routes.flatMap (Route.tuples g)).Perm
      (CodeBox.tuples (g.axes.map Axis.allCodes)) := by
    refine (List.perm_ext_iff_of_nodup (hb.nodup_tuples hroutes hg hboxes)
      (CodeBox.nodup_tuples _)).2 fun codes => ?_
    rw [CodeBox.mem_tuples, hg.contains_allCodes_iff, hb.mem_tuples_iff hroutes hg hboxes]
  rw [hperm.length_eq, CodeBox.length_tuples, hg.map_size_allCodes]

end Branch.Spans

end MatchTree
