import MatchTree.Proofs.Agreement

/-!
# Budgets decide acceptance only

* `Budget.Within` — each limit of one budget is at most that of another.
* `Budget.greatest` — the limits that 64 bits can hold.
* `Compilation.KeepsTo` — what came out of a compilation is within the limits.

Each stage looks at one limit, and returns nothing that depends on it. So a stage that succeeds
under a limit returns the same under a greater one, and conversely if that result keeps to the
limit.

Principal results: `ofTree_ok_iff_le`, `placements_ok_iff_le`, `ofRoutes_ok_iff_le`,
`layOut_ok_iff_le` — this for single stages; `compile_ok_iff_keepsTo` — and for a compilation;
`compile_of_within` — a greater budget accepts the same tree with the same program, and no budget
makes another one of it.
-/

namespace MatchTree

/-! ## Limits -/

/-- Each limit is at most the other one. -/
structure Budget.Within (b b' : Budget) : Prop where
  stages : b.maxStages.toNat ≤ b'.maxStages.toNat
  bands : b.maxBands.toNat ≤ b'.maxBands.toNat
  rows : b.maxRows.toNat ≤ b'.maxRows.toNat

/-- The greatest limits there are. -/
def Budget.greatest : Budget :=
  ⟨.ofNat wordMax, .ofNat wordMax, .ofNat wordMax⟩

theorem Budget.within_greatest (b : Budget) : b.Within greatest where
  stages := Nat.le_sub_one_of_lt b.maxStages.toNat_lt
  bands := Nat.le_sub_one_of_lt b.maxBands.toNat_lt
  rows := Nat.le_sub_one_of_lt b.maxRows.toNat_lt

/-- What came out is within the limits. -/
structure Compilation.KeepsTo (c : Compilation) (budget : Budget) : Prop where
  depth : c.shape.depth ≤ budget.maxStages.toNat
  bands : ∀ a ∈ c.grid.axes, a.size ≤ budget.maxBands.toNat
  /-- Rows are counted up to what 64 bits can hold. -/
  rows : min c.rows.length wordMax ≤ budget.maxRows.toNat
  tables : c.program.bandTables.length ≤ budget.maxStages.toNat

/-! ## Stages -/

section Stages

variable {limit limit' : UInt64} {t : Tree} {schema : Schema} {g : Grid}

theorem Axis.ofSplits_ok_iff_le (hle : limit.toNat ≤ limit'.toNat) {f : Feature}
    {splits : List Tree.Split} {a : Axis} :
    ofSplits f splits limit = .ok a ↔ ofSplits f splits limit' = .ok a ∧ a.size ≤ limit.toNat := by
  rw [ofSplits_eq_ok_iff, ofSplits_eq_ok_iff]
  constructor
  · rintro ⟨hinside, ha, hsize⟩
    exact ⟨⟨hinside, ha, Nat.le_trans hsize hle⟩, hsize⟩
  · rintro ⟨⟨hinside, ha, -⟩, hsize⟩
    exact ⟨hinside, ha, hsize⟩

/-- **A grid does not depend on the limit for bands.** -/
theorem Grid.ofTree_ok_iff_le (hle : limit.toNat ≤ limit'.toNat) :
    Grid.ofTree t schema limit = .ok g ↔
      Grid.ofTree t schema limit' = .ok g ∧ ∀ a ∈ g.axes, a.size ≤ limit.toNat := by
  rw [ofTree_eq_ok_iff, ofTree_eq_ok_iff]
  simp only [Axis.ofSplits_ok_iff_le hle]
  constructor
  · rintro ⟨hdeclared, haxes⟩
    obtain ⟨hsizes, haxes⟩ :=
      (List.forall₂_and_left _ _).1 (haxes.flip.imp fun _ _ ha => And.symm ha)
    exact ⟨⟨hdeclared, haxes.flip⟩, hsizes⟩
  · rintro ⟨⟨hdeclared, haxes⟩, hsizes⟩
    have haxes := (List.forall₂_and_left _ _).2 ⟨hsizes, haxes.flip⟩
    exact ⟨hdeclared, haxes.flip.imp fun _ _ ha => And.symm ha⟩

/-- **Placements do not depend on the limit for rows**, since the sum is all that is compared with
it. -/
theorem placements_ok_iff_le (hle : limit.toNat ≤ limit'.toNat) {index total : Nat}
    (htotal : min total wordMax ≤ limit.toNat) {routes : List Route} {ps : List Placement} :
    placements g limit index total routes = .ok ps ↔
      placements g limit' index total routes = .ok ps ∧
        min (total + (ps.flatMap (·.box.tuples)).length) wordMax ≤ limit.toNat := by
  induction routes generalizing index total ps with
  | nil =>
    show Except.ok [] = .ok ps ↔ Except.ok [] = .ok ps ∧ _
    rw [Except.ok.injEq]
    constructor
    · rintro rfl
      exact ⟨rfl, htotal⟩
    · exact fun h => h.1
  | cons r rs ih =>
    rw [placements, placements, bind_eq_ok, bind_eq_ok]
    cases hbox : r.box g with
    | error fault => simp
    | ok box? =>
      cases box? with
      | none => simpa using ih htotal
      | some box =>
        simp only [Except.ok.injEq, exists_eq_left', cappedAdd_size]
        -- what the sum up to this route and the rest amount to
        have hcount : ∀ rest : List Placement,
            min (min (total + box.tuples.length) wordMax +
              (rest.flatMap (·.box.tuples)).length) wordMax =
            min (total + ((⟨index, r.verdict, box⟩ :: rest : List Placement).flatMap
              (·.box.tuples)).length) wordMax := by
          intro rest
          rw [List.flatMap_cons, List.length_append]
          dsimp only
          omega
        constructor
        · intro h
          split at h
          · cases h
          rename_i hfit
          obtain ⟨rest, hrest, h⟩ := bind_eq_ok.1 h
          cases h
          obtain ⟨hrest', hsum⟩ := (ih (by omega)).1 hrest
          rw [if_neg (by omega), bind_eq_ok]
          exact ⟨⟨rest, hrest', rfl⟩, by rwa [← hcount]⟩
        · rintro ⟨h, hsum⟩
          split at h
          · cases h
          obtain ⟨rest, hrest, h⟩ := bind_eq_ok.1 h
          cases h
          rw [← hcount] at hsum
          rw [if_neg (by omega), bind_eq_ok]
          exact ⟨rest, (ih (by omega)).2 ⟨hrest, hsum⟩, rfl⟩

/-- **The rows of a table do not depend on their limit.** -/
theorem CodeTable.ofRoutes_ok_iff_le (hle : limit.toNat ≤ limit'.toNat) {routes : List Route}
    {table : CodeTable} :
    ofRoutes routes g limit = .ok table ↔
      ofRoutes routes g limit' = .ok table ∧ min table.rows.length wordMax ≤ limit.toNat := by
  have hlength : ∀ ps : List Placement, (ps.flatMap Placement.rows).length =
      0 + (ps.flatMap (·.box.tuples)).length := by
    intro ps
    rw [List.length_flatMap, List.length_flatMap, Nat.zero_add]
    simp only [Placement.rows, List.length_map]
  have hzero : min 0 wordMax ≤ limit.toNat := by
    rw [Nat.zero_min]
    exact Nat.zero_le _
  rw [ofRoutes, ofRoutes, bind_eq_ok, bind_eq_ok]
  simp only [placements_ok_iff_le hle hzero]
  constructor
  · rintro ⟨ps, ⟨hps, hsum⟩, h⟩
    refine ⟨⟨ps, hps, h⟩, ?_⟩
    split at h
    · cases h
    cases h
    rwa [hlength]
  · rintro ⟨⟨ps, hps, h⟩, hsum⟩
    refine ⟨ps, ⟨hps, ?_⟩, h⟩
    split at h
    · cases h
    cases h
    rwa [← hlength]

/-- **A program does not depend on the limit for stages.** -/
theorem Program.layOut_ok_iff_le {b b' : Budget} (hle : b.Within b') {table : CodeTable}
    {naming : Naming} {p : Program} :
    layOut schema g table b naming = .ok p ↔
      layOut schema g table b' naming = .ok p ∧ schema.size ≤ b.maxStages.toNat := by
  have hstages := hle.stages
  unfold layOut
  constructor
  · intro h
    split at h
    · cases h
    rw [if_neg (by omega)]
    exact ⟨h, by omega⟩
  · rintro ⟨h, hsize⟩
    rw [if_neg (by omega)] at h
    rwa [if_neg (by omega)]

end Stages

/-! ## Compilations -/

section Compile

variable {t : Tree} {schema : Schema} {naming : Naming} {b b' : Budget} {c c' : Compilation}

/-- **A budget accepts exactly what a greater one accepts and what is within its own limits.** -/
theorem Tree.compile_ok_iff_keepsTo (hle : b.Within b') :
    t.compile schema b naming = .ok c ↔ t.compile schema b' naming = .ok c ∧ c.KeepsTo b := by
  rw [compile_ok_iff, compile_ok_iff]
  constructor
  · intro h
    have htables : c.program.bandTables.length = schema.size :=
      h.length_bandTables.trans h.length_axes.symm
    obtain ⟨htree, hshape, hdepth, hgrid, hroutes, htable, hprogram⟩ := h
    obtain ⟨hgrid, hbands⟩ := (Grid.ofTree_ok_iff_le hle.bands).1 hgrid
    obtain ⟨htable, hrows⟩ := (CodeTable.ofRoutes_ok_iff_le hle.rows).1 htable
    obtain ⟨hprogram, hsize⟩ := (Program.layOut_ok_iff_le hle).1 hprogram
    exact ⟨⟨htree, hshape, Nat.le_trans hdepth hle.stages, hgrid, hroutes, htable, hprogram⟩,
      hdepth, hbands, hrows, htables ▸ hsize⟩
  · rintro ⟨h, hdepth, hbands, hrows, htables⟩
    rw [h.length_bandTables, ← h.length_axes] at htables
    obtain ⟨htree, hshape, -, hgrid, hroutes, htable, hprogram⟩ := h
    exact ⟨htree, hshape, hdepth, (Grid.ofTree_ok_iff_le hle.bands).2 ⟨hgrid, hbands⟩, hroutes,
      (CodeTable.ofRoutes_ok_iff_le hle.rows).2 ⟨htable, hrows⟩,
      (Program.layOut_ok_iff_le hle).2 ⟨hprogram, htables⟩⟩

/-- All budgets that accept a tree make the same of it: what the greatest one does. -/
theorem Tree.compilation_unique (h : t.compile schema b naming = .ok c)
    (h' : t.compile schema b' naming = .ok c') : c = c' := by
  have hgreatest := ((compile_ok_iff_keepsTo b.within_greatest).1 h).1
  rw [((compile_ok_iff_keepsTo b'.within_greatest).1 h').1] at hgreatest
  exact (Except.ok.inj hgreatest).symm

/-- **Budgets decide acceptance and nothing else**: what compiles under a budget compiles under each
greater one to the same grid, routes and program, and so to the same rows and the same text; and
there is no budget under which anything else comes out. -/
theorem Tree.compile_of_within (hle : b.Within b') (h : t.compile schema b naming = .ok c) :
    t.compile schema b' naming = .ok c ∧
      ∀ b'' c'', t.compile schema b'' naming = .ok c'' → c'' = c := by
  refine ⟨((compile_ok_iff_keepsTo hle).1 h).1, ?_⟩
  intro b'' c'' h''
  exact compilation_unique h'' h

/-- The sample tree has three rows: a budget for three accepts it, and one for two does not. -/
theorem Tree.sample_compile_of_within :
    Budget.Within ⟨8, 256, 3⟩ .default ∧
      (Tree.sample.compile .sample ⟨8, 256, 2⟩ .default).toBool = false ∧
      ∃ c, Tree.sample.compile .sample ⟨8, 256, 3⟩ .default = .ok c ∧
        Tree.sample.compile .sample .default .default = .ok c := by
  have hle : Budget.Within ⟨8, 256, 3⟩ .default := ⟨by decide, by decide, by decide⟩
  obtain ⟨c, hc⟩ : ∃ c, Tree.sample.compile .sample ⟨8, 256, 3⟩ .default = .ok c :=
    exists_ok_of_toBool (by decide +kernel)
  exact ⟨hle, by decide +kernel, c, hc, (Tree.compile_of_within hle hc).1⟩

end Compile

end MatchTree
