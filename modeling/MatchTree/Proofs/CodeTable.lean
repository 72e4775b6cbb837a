import Mathlib.Data.List.Pairwise
import MatchTree.Grid.Table
import MatchTree.Proofs.Boxes

/-!
# The rows of a code table

* `Route.placement?` — the placement of a route at a position.
* `CodeTable.Places` — the rows are the tuples of the routes' boxes, each with the verdict and the
  position of its route, and no tuple has two rows.

Principal results: `placements_eq_filterMap` — the routes that have boxes are placed in their order;
`ofRoutes_ok` — a table that comes out places its routes; `verdict?_eq_some_iff` and
`verdict?_eq_none_iff` — looking up a tuple gives the verdict of its row, if it has one.
-/

namespace MatchTree

/-! ## Keys -/

/-- Where keys identify items, looking up a key finds the item that has it. -/
theorem map_find?_eq_some_iff {α β κ : Type} [BEq κ] [LawfulBEq κ] {f : α → κ} {g : α → β}
    {xs : List α} (h : (xs.map f).Nodup) {k : κ} {b : β} :
    (xs.find? fun x => f x == k).map g = some b ↔ ∃ x ∈ xs, f x = k ∧ g x = b := by
  rw [Option.map_eq_some_iff]
  constructor
  · rintro ⟨x, hfind, rfl⟩
    exact ⟨x, List.mem_of_find?_eq_some hfind, by simpa using List.find?_some hfind, rfl⟩
  · rintro ⟨x, hmem, rfl, rfl⟩
    have hsome : (xs.find? fun y => f y == f x).isSome := List.find?_isSome.2 ⟨x, hmem, by simp⟩
    obtain ⟨y, hfound⟩ := Option.isSome_iff_exists.1 hsome
    have hkey : f y = f x := by simpa using List.find?_some hfound
    have hsame := List.inj_on_of_nodup_map h (List.mem_of_find?_eq_some hfound) hmem hkey
    exact ⟨y, hfound, by rw [hsame]⟩

/-! ## Placements -/

/-- The placement of a route, if it has a box. -/
def Route.placement? (g : Grid) (r : Route) (k : Nat) : Option Placement :=
  match r.box g with
  | .ok (some box) => some ⟨k, r.verdict, box⟩
  | _ => none

theorem Route.placement?_eq_some_iff {g : Grid} {r : Route} {k : Nat} {p : Placement} :
    r.placement? g k = some p ↔
      r.box g = .ok (some p.box) ∧ p.verdict = r.verdict ∧ p.route = k := by
  unfold placement?
  constructor
  · intro h
    split at h
    · rename_i box hbox
      cases h
      exact ⟨hbox, rfl, rfl⟩
    · cases h
  · rintro ⟨hbox, hverdict, rfl⟩
    rw [hbox, ← hverdict]

/-- **The placements of the routes from a position on**: one for each route that has a box, in their
order. -/
theorem placements_eq_filterMap {grid : Grid} {limit : UInt64} {index total : Nat}
    {routes : List Route} {ps : List Placement}
    (h : placements grid limit index total routes = .ok ps) :
    (∀ r ∈ routes, ∃ box?, r.box grid = .ok box?) ∧
      ps = (routes.zipIdx index).filterMap fun x => x.1.placement? grid x.2 := by
  induction routes generalizing index total ps with
  | nil =>
    cases h
    simp
  | cons r rs ih =>
    rw [placements] at h
    obtain ⟨box?, hbox, h⟩ := bind_eq_ok.1 h
    have hhead : ∃ box?, r.box grid = .ok box? := ⟨box?, hbox⟩
    rw [List.zipIdx_cons, List.filterMap_cons, Route.placement?, hbox]
    cases box? with
    | none =>
      obtain ⟨hboxes, hps⟩ := ih h
      exact ⟨List.forall_mem_cons.2 ⟨hhead, hboxes⟩, hps⟩
    | some box =>
      dsimp only at h
      split at h
      · cases h
      obtain ⟨rest, hrest, h⟩ := bind_eq_ok.1 h
      cases h
      obtain ⟨hboxes, rfl⟩ := ih hrest
      exact ⟨List.forall_mem_cons.2 ⟨hhead, hboxes⟩, rfl⟩

/-- A placement is that of a route which has its box. -/
theorem placements_ok {grid : Grid} {limit : UInt64} {index total : Nat} {routes : List Route}
    {ps : List Placement} (h : placements grid limit index total routes = .ok ps) :
    (∀ r ∈ routes, ∃ box?, r.box grid = .ok box?) ∧
      ∀ p, p ∈ ps ↔ ∃ k r, routes[k]? = some r ∧ r.box grid = .ok (some p.box) ∧
        p.verdict = r.verdict ∧ p.route = index + k := by
  obtain ⟨hboxes, rfl⟩ := placements_eq_filterMap h
  refine ⟨hboxes, fun p => ?_⟩
  simp only [List.mem_filterMap, Route.placement?_eq_some_iff,
    List.mem_zipIdx_iff_le_and_getElem?_sub]
  constructor
  · rintro ⟨⟨r, j⟩, ⟨hle, hr⟩, hbox, hverdict, hroute⟩
    exact ⟨j - index, r, hr, hbox, hverdict, by omega⟩
  · rintro ⟨k, r, hr, hbox, hverdict, hroute⟩
    refine ⟨(r, index + k), ⟨Nat.le_add_right _ _, ?_⟩, hbox, hverdict, hroute⟩
    rwa [Nat.add_sub_cancel_left]

/-- Placements stand in the order of their routes. -/
theorem pairwise_placements {grid : Grid} {limit : UInt64} {index total : Nat} {routes : List Route}
    {ps : List Placement} (h : placements grid limit index total routes = .ok ps) :
    ps.Pairwise fun q p => q.route < p.route := by
  obtain ⟨-, rfl⟩ := placements_eq_filterMap h
  have hpositions : (routes.zipIdx index).Pairwise fun x y => x.2 < y.2 := by
    rw [← List.pairwise_map (f := Prod.snd), List.zipIdx_map_snd]
    exact List.pairwise_lt_range'
  refine hpositions.filterMap _ fun x y hlt q hq p hp => ?_
  obtain ⟨-, -, hqroute⟩ := Route.placement?_eq_some_iff.1 hq
  obtain ⟨-, -, hproute⟩ := Route.placement?_eq_some_iff.1 hp
  rwa [hqroute, hproute]

/-! ## Clashes -/

/-- A step that finds a clash, or has one already, leaves one behind. -/
theorem betterClash_eq_none_iff {p q : Placement} {best : Option Clash} :
    betterClash p best q = none ↔ best = none ∧ p.box.meet? q.box = none := by
  unfold betterClash
  cases hmeet : p.box.meet? q.box with
  | none => simp
  | some shared =>
    cases best with
    | none => simp
    | some clash =>
      dsimp only
      split <;> simp

theorem clashWith?_eq_none_iff {earlier : List Placement} {p : Placement} :
    clashWith? earlier p = none ↔ ∀ q ∈ earlier, p.box.meet? q.box = none := by
  have hfold : ∀ (qs : List Placement) (best : Option Clash),
      qs.foldl (betterClash p) best = none ↔
        best = none ∧ ∀ q ∈ qs, p.box.meet? q.box = none := by
    intro qs
    induction qs with
    | nil => simp
    | cons q qs ih =>
      intro best
      rw [List.foldl_cons, ih, betterClash_eq_none_iff, List.forall_mem_cons, and_assoc]
  rw [clashWith?, hfold, and_iff_right rfl]

/-- **There is no clash exactly if no box meets an earlier one.** -/
theorem firstClash?_eq_none_iff {earlier ps : List Placement} :
    firstClash? earlier ps = none ↔
      (∀ q ∈ earlier, ∀ p ∈ ps, p.box.meet? q.box = none) ∧
        ps.Pairwise fun q p => p.box.meet? q.box = none := by
  induction ps generalizing earlier with
  | nil => simp [firstClash?]
  | cons p ps ih =>
    rw [firstClash?]
    split
    · rename_i clash hclash
      constructor
      · intro h
        cases h
      · rintro ⟨hbefore, -⟩
        rw [clashWith?_eq_none_iff.2 fun q hq => hbefore q hq p List.mem_cons_self] at hclash
        cases hclash
    · rename_i hclash
      have hp := clashWith?_eq_none_iff.1 hclash
      simp only [ih, List.mem_append, List.mem_singleton, List.forall_mem_cons, List.pairwise_cons]
      constructor
      · rintro ⟨hbefore, hpairwise⟩
        exact ⟨fun q hq => ⟨hp q hq, hbefore q (Or.inl hq)⟩, hbefore p (Or.inr rfl), hpairwise⟩
      · rintro ⟨hbefore, hfirst, hpairwise⟩
        refine ⟨fun q hq => ?_, hpairwise⟩
        rcases hq with hq | rfl
        · exact (hbefore q hq).2
        · exact hfirst

/-! ## Tables -/

theorem Placement.mem_rows {p : Placement} {row : Row} :
    row ∈ p.rows ↔
      p.box.contains row.codes = true ∧ row.verdict = p.verdict ∧ row.route = p.route := by
  rw [rows, List.mem_map]
  constructor
  · rintro ⟨codes, hcodes, rfl⟩
    exact ⟨CodeBox.mem_tuples.1 hcodes, rfl, rfl⟩
  · rintro ⟨hcodes, hverdict, hroute⟩
    refine ⟨row.codes, CodeBox.mem_tuples.2 hcodes, ?_⟩
    rw [← hverdict, ← hroute]

theorem Placement.map_codes_rows (p : Placement) : p.rows.map (·.codes) = p.box.tuples := by
  simp [rows, Function.comp_def]

namespace CodeTable

/-- The rows are the tuples of the routes' boxes, and no tuple has two rows. -/
structure Places (table : CodeTable) (routes : List Route) (grid : Grid) : Prop where
  boxes : ∀ r ∈ routes, ∃ box?, r.box grid = .ok box?
  mem_rows : ∀ row, row ∈ table.rows ↔ ∃ r box, routes[row.route]? = some r ∧
    r.box grid = .ok (some box) ∧ row.verdict = r.verdict ∧ box.contains row.codes = true
  nodup : (table.rows.map (·.codes)).Nodup

/-- **A table that comes out places its routes.** -/
theorem ofRoutes_ok {routes : List Route} {grid : Grid} {maxRows : UInt64} {table : CodeTable}
    (h : ofRoutes routes grid maxRows = .ok table) : table.Places routes grid := by
  unfold ofRoutes at h
  obtain ⟨ps, hps, h⟩ := bind_eq_ok.1 h
  split at h
  · cases h
  rename_i hclash
  cases h
  obtain ⟨hboxes, hmem⟩ := placements_ok hps
  refine ⟨hboxes, fun row => ?_, ?_⟩
  · rw [List.mem_flatMap]
    constructor
    · rintro ⟨p, hp, hrow⟩
      obtain ⟨hcodes, hverdict, hroute⟩ := Placement.mem_rows.1 hrow
      obtain ⟨k, r, hk, hbox, hv, hindex⟩ := (hmem p).1 hp
      rw [Nat.zero_add] at hindex
      exact ⟨r, p.box, by rw [hroute, hindex, hk], hbox, hverdict.trans hv, hcodes⟩
    · rintro ⟨r, box, hr, hbox, hv, hcodes⟩
      refine ⟨⟨row.route, row.verdict, box⟩, (hmem _).2 ⟨row.route, r, hr, hbox, hv, ?_⟩, ?_⟩
      · exact (Nat.zero_add _).symm
      · exact Placement.mem_rows.2 ⟨hcodes, rfl, rfl⟩
  · have htuples : (ps.flatMap Placement.rows).map (·.codes) = ps.flatMap (·.box.tuples) := by
      simp only [List.map_flatMap, Placement.map_codes_rows]
    rw [htuples, List.nodup_flatMap]
    refine ⟨fun p _ => p.box.nodup_tuples, ?_⟩
    refine (firstClash?_eq_none_iff.1 hclash).2.imp fun {q p} hmeet codes hq hp => ?_
    rw [CodeBox.mem_tuples] at hq hp
    rw [CodeBox.disjoint_of_meet? hmeet hp] at hq
    cases hq

/-- **Looking up a tuple gives the verdict of its row.** -/
theorem verdict?_eq_some_iff {table : CodeTable} (h : (table.rows.map (·.codes)).Nodup)
    {codes : List Code} {v : Verdict} :
    table.verdict? codes = some v ↔ ∃ row ∈ table.rows, row.codes = codes ∧ row.verdict = v :=
  map_find?_eq_some_iff h

theorem verdict?_eq_none_iff {table : CodeTable} {codes : List Code} :
    table.verdict? codes = none ↔ ∀ row ∈ table.rows, row.codes ≠ codes := by
  simp [verdict?]

end CodeTable

end MatchTree
