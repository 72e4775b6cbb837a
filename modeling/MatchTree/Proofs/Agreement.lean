import MatchTree.Proofs.Compilation

/-!
# A program and the tree it was compiled from

* `Program.IsCell` — a tuple with one code of each band table.

Principal results: `verdict_eq_classify` — on every input of the domains the program and the tree
give the same verdict; `rows_partition_cells` — every cell has exactly one row, the row of the leaf
that all inputs with these codes reach, and a route has a row exactly if its leaf is reached at all.

Codes have 16 bits, so both are about budgets with at most 65536 bands to a feature. Past that the
codes start over, and two bands of one feature may share a code.
-/

namespace MatchTree

/-- The tuple has one code of each band table. -/
def Program.IsCell (p : Program) (codes : List Code) : Prop :=
  List.Forall₂ (fun (t : BandTable) c => ∃ b ∈ t.bands, b.code = c) p.bandTables codes

theorem Axis.Tiles.exists_code_iff {a : Axis} {f : Feature} (ha : a.Tiles f)
    (hsmall : a.size ≤ 65536) {c : Code} : (∃ b ∈ a.bands, b.code = c) ↔ c.toNat < a.size := by
  constructor
  · rintro ⟨b, hb, rfl⟩
    obtain ⟨k, hk, rfl⟩ := Array.getElem_of_mem hb
    have hsize : k < a.size := hk
    rw [ha.coded k _ (Array.getElem?_eq_getElem hk), UInt16.toNat_ofNat',
      Nat.mod_eq_of_lt (by omega)]
    exact hsize
  · intro hc
    refine ⟨a.bands[c.toNat], Array.getElem_mem hc, ?_⟩
    rw [ha.coded _ _ (Array.getElem?_eq_getElem hc), UInt16.ofNat_toNat]

namespace Compilation.ComesFrom

variable {c : Compilation} {t : Tree} {schema : Schema} {budget : Budget} {naming : Naming}

/-! ## Inputs and routes -/

/-- **An input takes exactly one route**: the one to the leaf that it reaches, with its verdict. -/
theorem exists_taken (h : c.ComesFrom t schema budget naming) {values : List UInt32}
    (hvalues : schema.Admits values) :
    ∃ s ∈ c.routes, (∀ r ∈ c.routes, r.Takes values ↔ r = s) ∧
      t.Reaches (schema.valueOf values) Tree.root s.leaf ∧
      t.verdict? (schema.valueOf values) = some s.verdict := by
  obtain ⟨b, hb, -⟩ := Tree.exists_spans h.shape_ok
  exact hb.exists_taken h.routes_ok hvalues

theorem takes_iff_reaches (h : c.ComesFrom t schema budget naming) {r : Route}
    (hr : r ∈ c.routes) {values : List UInt32} (hvalues : schema.Admits values) :
    r.Takes values ↔ t.Reaches (schema.valueOf values) Tree.root r.leaf := by
  obtain ⟨b, hb, -⟩ := Tree.exists_spans h.shape_ok
  exact hb.takes_iff_reaches h.routes_ok hr hvalues

theorem nodup_leaves (h : c.ComesFrom t schema budget naming) :
    (c.routes.map (·.leaf)).Nodup := by
  obtain ⟨b, hb, -⟩ := Tree.exists_spans h.shape_ok
  exact hb.nodup_leaves_routes h.routes_ok

theorem node?_leaf (h : c.ComesFrom t schema budget naming) {r : Route} (hr : r ∈ c.routes) :
    t.node? r.leaf = some (.leaf r.verdict) := by
  obtain ⟨b, hb, -⟩ := Tree.exists_spans h.shape_ok
  exact hb.node?_leaf_route h.routes_ok hr

/-- The verdict on an input is that of the route which it takes. -/
theorem verdict?_of_takes (h : c.ComesFrom t schema budget naming) {r : Route}
    (hr : r ∈ c.routes) {values : List UInt32} (hvalues : schema.Admits values)
    (htakes : r.Takes values) : t.verdict? (schema.valueOf values) = some r.verdict := by
  obtain ⟨s, -, htaken, -, hverdict⟩ := h.exists_taken hvalues
  rw [(htaken r hr).1 htakes, hverdict]

/-- Every input has a row, that of the route which it takes. -/
theorem exists_row (h : c.ComesFrom t schema budget naming)
    (hsmall : budget.maxBands.toNat ≤ 65536) {values : List UInt32}
    (hvalues : schema.Admits values) :
    ∃ row ∈ c.rows, row.codes = c.program.encode values ∧
      t.verdict? (schema.valueOf values) = some row.verdict := by
  obtain ⟨r, hr, htaken, -, hverdict⟩ := h.exists_taken hvalues
  obtain ⟨k, hk⟩ := List.mem_iff_getElem?.1 hr
  refine ⟨⟨c.program.encode values, r.verdict, k⟩, ?_, rfl, hverdict⟩
  exact (h.mem_rows_iff_takes hsmall hvalues rfl).2 ⟨r, hk, (htaken r hr).2 rfl, rfl⟩

/-- The tree gives the verdict of the row with the codes of the input. -/
theorem verdict?_eq_classify (h : c.ComesFrom t schema budget naming)
    (hsmall : budget.maxBands.toNat ≤ 65536) {values : List UInt32}
    (hvalues : schema.Admits values) :
    t.verdict? (schema.valueOf values) = some (c.program.classify values) := by
  obtain ⟨row, hrow, hcodes, hverdict⟩ := h.exists_row hsmall hvalues
  have hlookup : c.program.verdictTable.table.verdict? (c.program.encode values) =
      some row.verdict := (CodeTable.verdict?_eq_some_iff h.places.nodup).2 ⟨row, hrow, hcodes, rfl⟩
  rw [hverdict, Program.classify, VerdictTable.apply, hlookup, Option.getD_some]

/-! ## Cells and rows -/

theorem isCell_iff (h : c.ComesFrom t schema budget naming)
    (hsmall : budget.maxBands.toNat ≤ 65536) {codes : List Code} :
    c.program.IsCell codes ↔ List.Forall₂ (fun a c => c.toNat < a.size) c.grid.axes codes := by
  have hbands := Program.map_bands_layOut h.program_ok h.length_axes
  have hfits := h.fits hsmall
  unfold Grid.Fits at hfits
  unfold Program.IsCell
  generalize c.program.bandTables = tables at hbands
  generalize schema.features = fs at hfits
  generalize c.grid.axes = axes at hbands hfits
  induction hfits generalizing tables codes with
  | nil =>
    rw [List.map_nil, List.map_eq_nil_iff] at hbands
    rw [hbands, List.forall₂_nil_left_iff, List.forall₂_nil_left_iff]
  | @cons f a fs axes ha haxes ih =>
    obtain ⟨table, tables, rfl, htable, htables⟩ := List.map_eq_cons_iff.1 hbands
    rw [Prod.mk.injEq] at htable
    cases codes with
    | nil => simp
    | cons c cs =>
      have htail : List.Forall₂ (fun (t : BandTable) c => ∃ b ∈ t.bands, b.code = c) tables cs ↔
          List.Forall₂ (fun a c => c.toNat < a.size) axes cs := ih tables htables
      rw [List.forall₂_cons, List.forall₂_cons, htail, htable.1, ha.1.exists_code_iff ha.2]

/-- A tuple has a row exactly if it is a cell. -/
theorem exists_row_iff_isCell (h : c.ComesFrom t schema budget naming)
    (hsmall : budget.maxBands.toNat ≤ 65536) {codes : List Code} :
    (∃ row ∈ c.rows, row.codes = codes) ↔ c.program.IsCell codes := by
  obtain ⟨b, hb, -⟩ := Tree.exists_spans h.shape_ok
  rw [h.isCell_iff hsmall, ← hb.mem_tuples_iff h.routes_ok (h.fits hsmall) h.places.boxes,
    ← h.map_codes_rows, List.mem_map]

/-- There are as many rows as cells. -/
theorem length_rows (h : c.ComesFrom t schema budget naming)
    (hsmall : budget.maxBands.toNat ≤ 65536) :
    c.rows.length = (c.program.bandTables.map (·.bands.size)).prod := by
  obtain ⟨b, hb, -⟩ := Tree.exists_spans h.shape_ok
  have hsizes : c.program.bandTables.map (·.bands.size) = c.grid.bandCounts := by
    have hbands := congrArg (List.map fun x => x.1.size)
      (Program.map_bands_layOut h.program_ok h.length_axes)
    rw [List.map_map, List.map_map] at hbands
    exact hbands
  have hlength := congrArg List.length h.map_codes_rows
  rw [List.length_map, hb.length_tuples h.routes_ok (h.fits hsmall) h.places.boxes] at hlength
  rw [hlength, hsizes]

/-- A row stands for the leaf that the inputs with its codes reach. -/
theorem route_of_row (h : c.ComesFrom t schema budget naming)
    (hsmall : budget.maxBands.toNat ≤ 65536) {row : Row} (hrow : row ∈ c.rows) :
    ∃ r, c.routes[row.route]? = some r ∧ row.verdict = r.verdict ∧
      t.node? r.leaf = some (.leaf r.verdict) ∧
      ∀ values, schema.Admits values → c.program.encode values = row.codes →
        (∀ leaf, t.Reaches (schema.valueOf values) Tree.root leaf ↔ leaf = r.leaf) ∧
          t.verdict? (schema.valueOf values) = some row.verdict := by
  obtain ⟨r, -, hr, -, hverdict, -⟩ := (h.places.mem_rows row).1 hrow
  have hmem := List.mem_of_getElem? hr
  refine ⟨r, hr, hverdict, h.node?_leaf hmem, fun values hvalues hcodes => ?_⟩
  obtain ⟨s, hs, htakes, -⟩ := (h.mem_rows_iff_takes hsmall hvalues hcodes.symm).1 hrow
  cases hr.symm.trans hs
  have hreaches := (h.takes_iff_reaches hmem hvalues).1 htakes
  refine ⟨fun leaf => ⟨fun hleaf => hleaf.unique hreaches, fun heq => heq ▸ hreaches⟩, ?_⟩
  rw [hverdict]
  exact h.verdict?_of_takes hmem hvalues htakes

/-- A route has a row exactly if some input reaches its leaf. -/
theorem exists_row_of_route_iff (h : c.ComesFrom t schema budget naming)
    (hsmall : budget.maxBands.toNat ≤ 65536) {k : Nat} {r : Route}
    (hr : c.routes[k]? = some r) :
    (∃ row ∈ c.rows, row.route = k) ↔
      ∃ values, schema.Admits values ∧ t.Reaches (schema.valueOf values) Tree.root r.leaf := by
  have hmem := List.mem_of_getElem? hr
  constructor
  · rintro ⟨row, hrow, rfl⟩
    obtain ⟨values, hvalues, hcodes⟩ := h.exists_values_of_row hsmall hrow
    obtain ⟨s, hs, -, -, hreach⟩ := h.route_of_row hsmall hrow
    cases hr.symm.trans hs
    exact ⟨values, hvalues, ((hreach values hvalues hcodes).1 r.leaf).2 rfl⟩
  · rintro ⟨values, hvalues, hreaches⟩
    have htakes := (h.takes_iff_reaches hmem hvalues).2 hreaches
    exact ⟨⟨c.program.encode values, r.verdict, k⟩,
      (h.mem_rows_iff_takes hsmall hvalues rfl).2 ⟨r, hr, htakes, rfl⟩, rfl⟩

end Compilation.ComesFrom

/-! ## Main results -/

/-- A tree that tests one feature twice on a way, is split at the end of a domain, and has a leaf
that no input reaches. -/
def Tree.sample : Tree :=
  ⟨#[.split 9 20 1 2, .split 9 30 3 4, .split 4 255 5 6, .leaf .normal, .leaf .attack,
    .leaf .attack, .leaf .normal]⟩

/-- Two features, one with a domain that starts above zero. -/
def Schema.sample : Schema where
  features := [⟨9, "ttl", 6, 5, 60, none⟩, ⟨4, "proto", 8, 0, 255, none⟩]
  sound := by decide
  distinct := by decide

theorem Tree.exists_compile_sample :
    ∃ c, Tree.sample.compile .sample .default .default = .ok c :=
  exists_ok_of_toBool (by decide +kernel)

/-- **The program of a tree gives every input of the domains the verdict of the tree.** -/
theorem Tree.verdict_eq_classify {t : Tree} {schema : Schema} {budget : Budget} {naming : Naming}
    {c : Compilation} (hsmall : budget.maxBands.toNat ≤ 65536)
    (h : t.compile schema budget naming = .ok c) {values : List UInt32}
    (hvalues : schema.Admits values) :
    t.verdict? (schema.valueOf values) = some (c.program.classify values) :=
  (Tree.compile_ok_iff.1 h).verdict?_eq_classify hsmall hvalues

theorem Tree.sample_verdict_eq_classify :
    ∃ c, Tree.sample.compile .sample .default .default = .ok c ∧
      Tree.sample.verdict? (Schema.sample.valueOf [31, 255]) =
        some (c.program.classify [31, 255]) := by
  obtain ⟨c, hc⟩ := Tree.exists_compile_sample
  exact ⟨c, hc, Tree.verdict_eq_classify (by decide) hc (by decide)⟩

/-- **The rows partition the cells by the leaves of the tree.** Every cell has exactly one row, and
there are no other rows; the route of a row is the one to the leaf that all inputs with its codes
reach; a route has a row exactly if some input reaches its leaf. -/
theorem Tree.rows_partition_cells {t : Tree} {schema : Schema} {budget : Budget} {naming : Naming}
    {c : Compilation} (hsmall : budget.maxBands.toNat ≤ 65536)
    (h : t.compile schema budget naming = .ok c) :
    (c.rows.map (·.codes)).Nodup ∧
      (∀ codes, (∃ row ∈ c.rows, row.codes = codes) ↔ c.program.IsCell codes) ∧
      c.rows.length = (c.program.bandTables.map (·.bands.size)).prod ∧
      (c.routes.map (·.leaf)).Nodup ∧
      (∀ row ∈ c.rows,
        (∃ values, schema.Admits values ∧ c.program.encode values = row.codes) ∧
        ∃ r, c.routes[row.route]? = some r ∧ row.verdict = r.verdict ∧
          t.node? r.leaf = some (.leaf r.verdict) ∧
          ∀ values, schema.Admits values → c.program.encode values = row.codes →
            (∀ leaf, t.Reaches (schema.valueOf values) Tree.root leaf ↔ leaf = r.leaf) ∧
              t.verdict? (schema.valueOf values) = some row.verdict) ∧
      ∀ (k : Nat) (r : Route), c.routes[k]? = some r →
        ((∃ row ∈ c.rows, row.route = k) ↔
          ∃ values, schema.Admits values ∧
            t.Reaches (schema.valueOf values) Tree.root r.leaf) := by
  have hc := Tree.compile_ok_iff.1 h
  refine ⟨hc.places.nodup, fun codes => hc.exists_row_iff_isCell hsmall, hc.length_rows hsmall,
    hc.nodup_leaves, fun row hrow => ?_, fun k r hr => hc.exists_row_of_route_iff hsmall hr⟩
  exact ⟨hc.exists_values_of_row hsmall hrow, hc.route_of_row hsmall hrow⟩

theorem Tree.sample_rows_partition_cells :
    ∃ c, Tree.sample.compile .sample .default .default = .ok c ∧
      (c.rows.map (·.codes)).Nodup ∧
      c.rows.length = (c.program.bandTables.map (·.bands.size)).prod := by
  obtain ⟨c, hc⟩ := Tree.exists_compile_sample
  obtain ⟨hnodup, -, hlength, -⟩ := Tree.rows_partition_cells (by decide) hc
  exact ⟨c, hc, hnodup, hlength⟩

end MatchTree
