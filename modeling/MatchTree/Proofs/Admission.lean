import MatchTree.Proofs.Agreement
import MatchTree.Proofs.Alignment
import MatchTree.Proofs.RowCount

/-!
# Which trees compile

* `Check` — the checks of a compilation; `Check.all` lists them in their order.
* `Check.Passes`, `Check.Raises` — what a check asks for, and the faults that tell of its failure.
* `Check.FirstFailing` — the check fails, and all checks before it are passed.
* `Check.Settles` — the checks decide an outcome: it is a success if all are passed, and otherwise a
  fault of the first one that fails.

Principal results: `settles_bind`, `settles_mapM` — outcomes that are settled one after another are
settled by the checks one after another; `settles_compile` — the checks settle a compilation;
`compile_decided_by_checks` — a tree compiles exactly if it passes all checks, and no fault comes
from anything but a check.

Each stage makes its own checks on the way. That the later ones find nothing new, no misaligned
interval, no ambiguous tuple and no missing node, follows from what the earlier ones let through.
-/

namespace MatchTree

/-- What a compilation checks. -/
inductive Check where
  /-- The arena is a tree. -/
  | shape
  /-- It is not too deep. -/
  | depth
  /-- Every feature that it tests is declared. -/
  | declared
  /-- Every threshold on a feature lies in its domain. -/
  | domain (f : Feature)
  /-- A feature does not get too many bands. -/
  | bands (f : Feature)
  /-- The bands of all features do not make too many rows. -/
  | rows
  /-- There are not too many features. -/
  | stages

namespace Check

/-- The checks in their order; those of a feature stand together. -/
def all (schema : Schema) : List Check :=
  [shape, depth, declared] ++ schema.features.flatMap (fun f => [domain f, bands f]) ++
    [rows, stages]

variable (t : Tree) (schema : Schema) (budget : Budget)

/-- The tree passes the check. -/
def Passes : Check → Prop
  | shape => ∃ s, t.shape = .ok s
  | depth => ∀ s, t.shape = .ok s → s.depth ≤ budget.maxStages.toNat
  | declared => ∀ x ∈ t.splits, (schema.indexOf? x.feature).isSome
  | domain f => ∀ x ∈ t.splitsOn f, f.contains x.threshold = true
  | bands f => t.bandCount f ≤ budget.maxBands.toNat
  | rows => (schema.features.map t.bandCount).prod ≤ budget.maxRows.toNat
  | stages => schema.size ≤ budget.maxStages.toNat

/-- The fault tells that the check failed. -/
def Raises : Check → Fault → Prop
  | shape, fault => t.shape = .error fault
  | depth, fault => ∃ s, t.shape = .ok s ∧ fault = .tooDeep s.depth budget.maxStages
  | declared, fault => ∃ x, t.splits.find? (fun x => (schema.indexOf? x.feature).isNone) = some x ∧
      fault = .undeclaredFeature x.feature x.node
  | domain f, fault => ∃ x, (t.splitsOn f).find? (fun x => !f.contains x.threshold) = some x ∧
      fault = .cut f.id (.outsideDomain x.node x.threshold f.least f.greatest)
  | bands f, fault => fault = .cut f.id (.tooManyBands (t.bandCount f) budget.maxBands)
  | rows, fault => ∃ route count, budget.maxRows.toNat < count ∧
      fault = .tableOverflow route count budget.maxRows
  | stages, fault => fault = .tooManyTables schema.size budget.maxStages

/-- The check fails, and all checks before it are passed. -/
def FirstFailing (checks : List Check) (k : Check) : Prop :=
  ∃ before after, checks = before ++ k :: after ∧
    (∀ j ∈ before, j.Passes t schema budget) ∧ ¬ k.Passes t schema budget

/-- The checks decide the outcome. -/
def Settles {α : Type} (checks : List Check) : Except Fault α → Prop
  | .ok _ => ∀ k ∈ checks, k.Passes t schema budget
  | .error fault => ∃ k, FirstFailing t schema budget checks k ∧ k.Raises t schema budget fault

/-! ## Outcomes one after another -/

section Settles

variable {t : Tree} {schema : Schema} {budget : Budget} {α β : Type} {k : Check}
  {checks : List Check}

theorem settles_ok (a : α) : Settles t schema budget [] (.ok a : Except Fault α) :=
  fun _ hk => absurd hk List.not_mem_nil

/-- A check that fails at once settles a fault of its own. -/
theorem settles_error {fault : Fault} (hk : ¬ k.Passes t schema budget)
    (hfault : k.Raises t schema budget fault) :
    Settles t schema budget (k :: checks) (.error fault : Except Fault α) :=
  ⟨k, ⟨[], checks, rfl, by simp, hk⟩, hfault⟩

theorem FirstFailing.append_left {before : List Check}
    (hbefore : ∀ j ∈ before, j.Passes t schema budget)
    (h : FirstFailing t schema budget checks k) :
    FirstFailing t schema budget (before ++ checks) k := by
  obtain ⟨first, after, rfl, hfirst, hk⟩ := h
  refine ⟨before ++ first, after, by simp, fun j hj => ?_, hk⟩
  rcases List.mem_append.1 hj with hj | hj
  · exact hbefore j hj
  · exact hfirst j hj

theorem FirstFailing.append_right (h : FirstFailing t schema budget checks k)
    (after : List Check) : FirstFailing t schema budget (checks ++ after) k := by
  obtain ⟨before, rest, rfl, hbefore, hk⟩ := h
  exact ⟨before, rest ++ after, by simp, hbefore, hk⟩

/-- **Outcomes in sequence are settled by the checks in sequence.** -/
theorem settles_bind {later : List Check} {x : Except Fault α} {f : α → Except Fault β}
    (hx : Settles t schema budget checks x)
    (hf : ∀ a, x = .ok a → Settles t schema budget later (f a)) :
    Settles t schema budget (checks ++ later) (x >>= f) := by
  cases x with
  | error fault =>
    obtain ⟨k, hk, hfault⟩ := hx
    exact ⟨k, hk.append_right later, hfault⟩
  | ok a =>
    have hlater := hf a rfl
    show Settles t schema budget (checks ++ later) (f a)
    cases hfa : f a with
    | error fault =>
      rw [hfa] at hlater
      obtain ⟨k, hk, hfault⟩ := hlater
      exact ⟨k, hk.append_left hx, hfault⟩
    | ok b =>
      rw [hfa] at hlater
      exact List.forall_mem_append.2 ⟨hx, hlater⟩

/-- A check that is passed leaves the outcome to the checks after it. -/
theorem settles_cons {x : Except Fault α} (hk : k.Passes t schema budget)
    (hx : Settles t schema budget checks x) : Settles t schema budget (k :: checks) x := by
  have hpassed : Settles t schema budget [k] (.ok () : Except Fault Unit) :=
    List.forall_mem_singleton.2 hk
  exact settles_bind hpassed fun _ _ => hx

theorem settles_mapM {ι : Type} {items : List ι} {checksOf : ι → List Check}
    {f : ι → Except Fault β} (h : ∀ i ∈ items, Settles t schema budget (checksOf i) (f i)) :
    Settles t schema budget (items.flatMap checksOf) (items.mapM f) := by
  induction items with
  | nil => exact settles_ok []
  | cons i items ih =>
    obtain ⟨hi, hitems⟩ := List.forall_mem_cons.1 h
    rw [List.mapM_cons, List.flatMap_cons]
    refine settles_bind hi fun b _ => ?_
    rw [← List.append_nil (items.flatMap checksOf)]
    exact settles_bind (ih hitems) fun bs _ => settles_ok _

/-- **A settled outcome is a success exactly if all checks are passed.** -/
theorem Settles.exists_ok_iff {x : Except Fault α} (h : Settles t schema budget checks x) :
    (∃ a, x = .ok a) ↔ ∀ k ∈ checks, k.Passes t schema budget := by
  cases x with
  | ok a => exact ⟨fun _ => h, fun _ => ⟨a, rfl⟩⟩
  | error fault =>
    obtain ⟨k, ⟨before, after, rfl, -, hk⟩, -⟩ := h
    constructor
    · rintro ⟨a, ha⟩
      cases ha
    · intro hall
      exact absurd (hall k (by simp)) hk

end Settles

end Check

open Check

variable {t : Tree} {schema : Schema} {budget : Budget}

/-! ## The stages of a compilation -/

theorem settles_shape : Settles t schema budget [.shape] t.shape := by
  cases hshape : t.shape with
  | ok s => exact List.forall_mem_singleton.2 ⟨s, hshape⟩
  | error fault =>
    refine settles_error ?_ hshape
    rintro ⟨s, hs⟩
    rw [hshape] at hs
    cases hs

theorem settles_ofSplits (f : Feature) : Settles t schema budget [.domain f, .bands f]
    (Axis.ofSplits f (t.splitsOn f) budget.maxBands) := by
  unfold Axis.ofSplits
  split
  · rename_i x hx
    refine settles_error (fun hpasses => ?_) ⟨x, hx, rfl⟩
    have hout : f.contains x.threshold = false := by simpa using List.find?_some hx
    rw [hpasses x (List.mem_of_find?_eq_some hx)] at hout
    cases hout
  · rename_i hnone
    have hinside : ∀ x ∈ t.splitsOn f, f.contains x.threshold = true := by
      simpa using List.find?_eq_none.1 hnone
    refine settles_cons hinside ?_
    dsimp only
    rw [Axis.size_eq_bandCount hinside]
    split
    · rename_i hover
      exact settles_error (Nat.not_le_of_lt hover) rfl
    · rename_i hfits
      exact settles_cons (Nat.le_of_not_lt hfits) (settles_ok _)

theorem settles_ofTree : Settles t schema budget
    (.declared :: schema.features.flatMap fun f => [.domain f, .bands f])
    (Grid.ofTree t schema budget.maxBands) := by
  unfold Grid.ofTree
  dsimp only
  split
  · rename_i x hx
    refine settles_error (fun hpasses => ?_) ⟨x, hx, rfl⟩
    have hnone : schema.indexOf? x.feature = none := by simpa using List.find?_some hx
    have hsome := hpasses x (List.mem_of_find?_eq_some hx)
    rw [hnone] at hsome
    cases hsome
  · rename_i hnone
    have hdeclared : ∀ x ∈ t.splits, (schema.indexOf? x.feature).isSome := by
      simpa [Option.isSome_iff_ne_none] using List.find?_eq_none.1 hnone
    refine settles_cons hdeclared ?_
    rw [← List.append_nil (schema.features.flatMap _)]
    exact settles_bind (settles_mapM fun f _ => settles_ofSplits f) fun axes _ => settles_ok _

/-- **The tables of a tree are only ever too long**: their routes have boxes, and no two of them
share a tuple. -/
theorem settles_ofRoutes {b : Branch} {g : Grid} {routes : List Route} (hb : b.Spans t)
    (hbands : budget.maxBands.toNat ≤ 65536) (hrows : budget.maxRows.toNat < 2 ^ 64 - 1)
    (hgrid : Grid.ofTree t schema budget.maxBands = .ok g)
    (hroutes : t.routes schema = .ok routes) :
    Settles t schema budget [.rows] (CodeTable.ofRoutes routes g budget.maxRows) := by
  have hfits := Grid.fits_ofTree hbands hgrid
  have hboxes : ∀ r ∈ routes, ∃ box?, r.box g = .ok box? :=
    fun r hr => hb.exists_box hbands hgrid hroutes hr
  have hcount : (routes.flatMap (Route.tuples g)).length =
      (schema.features.map t.bandCount).prod := by
    rw [hb.length_tuples hroutes hfits hboxes, Grid.bandCounts_ofTree hgrid]
  rcases @placements_outcome g budget.maxRows 0 0 routes hrows hboxes (Nat.zero_le _) with
    ⟨ps, hps, hle⟩ | ⟨before, r, after, rfl, -, hlt, herror⟩
  · rw [Nat.zero_add, hcount] at hle
    rw [CodeTable.ofRoutes_of_nodup hps (hb.nodup_tuples hroutes hfits hboxes)]
    exact settles_cons hle (settles_ok _)
  · rw [CodeTable.ofRoutes, herror]
    refine settles_error (fun hpasses => ?_) ⟨_, _, ?_, rfl⟩
    · -- The sum up to one route is part of the whole sum, which is the product.
      have hwhole : (before ++ r :: after).flatMap (Route.tuples g) =
          (before ++ [r]).flatMap (Route.tuples g) ++ after.flatMap (Route.tuples g) := by
        simp
      rw [hwhole, List.length_append] at hcount
      have hpasses : (schema.features.map t.bandCount).prod ≤ budget.maxRows.toNat := hpasses
      omega
    · have hcap : budget.maxRows.toNat < wordMax := hrows
      omega

theorem settles_layOut (g : Grid) (table : CodeTable) (naming : Naming) :
    Settles t schema budget [.stages] (Program.layOut schema g table budget naming) := by
  unfold Program.layOut
  split
  · rename_i hover
    exact settles_error (Nat.not_le_of_lt hover) rfl
  · rename_i hfits
    exact settles_cons (Nat.le_of_not_lt hfits) (settles_ok _)

/-- **The checks settle a compilation.** -/
theorem settles_compile (naming : Naming) (hbands : budget.maxBands.toNat ≤ 65536)
    (hrows : budget.maxRows.toNat < 2 ^ 64 - 1) :
    Settles t schema budget (Check.all schema) (t.compile schema budget naming) := by
  have hall : Check.all schema = [.shape] ++ .depth ::
      ((.declared :: schema.features.flatMap fun f => [.domain f, .bands f]) ++
        ([] ++ ([.rows] ++ ([.stages] ++ [])))) := by
    simp [Check.all]
  rw [hall, Tree.compile]
  refine settles_bind settles_shape fun s hs => ?_
  obtain ⟨b, hb, -⟩ := Tree.exists_spans hs
  split
  · rename_i hdeep
    exact settles_error (fun hpasses => absurd (hpasses s hs) (Nat.not_le_of_lt hdeep))
      ⟨s, hs, rfl⟩
  · rename_i hdepth
    have hpasses : Check.depth.Passes t schema budget := by
      intro s' hs'
      rw [hs] at hs'
      cases hs'
      exact Nat.le_of_not_lt hdepth
    refine settles_cons hpasses (settles_bind settles_ofTree fun g hgrid => ?_)
    obtain ⟨routes, hroutes⟩ := hb.exists_routes (Grid.ofTree_eq_ok_iff.1 hgrid).1
    rw [hroutes]
    refine settles_bind (settles_ok routes) fun _ heq => ?_
    cases heq
    refine settles_bind (settles_ofRoutes hb hbands hrows hgrid hroutes) fun table _ => ?_
    exact settles_bind (settles_layOut g table naming) fun program _ => settles_ok _

/-! ## Main result -/

/-- No check raises a fault of the later stages' own: a clash, a misaligned interval, a missing node
or a walk without end. -/
theorem Check.Raises.fault_ne {k : Check} {fault : Fault} (h : k.Raises t schema budget fault) :
    (∀ codes i v j w, fault ≠ .ambiguous codes i v j w) ∧
      (∀ id lower upper, fault ≠ .cut id (.misaligned lower upper)) ∧
      ∀ id, fault ≠ .malformedTree id .dangling ∧ fault ≠ .malformedTree id .endless := by
  cases k with
  | shape =>
    obtain ⟨id, flaw, rfl, hdangling, hendless⟩ := Tree.shape_error h
    simp [hdangling, hendless]
  | depth =>
    obtain ⟨s, -, rfl⟩ := h
    simp
  | declared =>
    obtain ⟨x, -, rfl⟩ := h
    simp
  | domain f =>
    obtain ⟨x, -, rfl⟩ := h
    simp
  | bands f =>
    cases h
    simp
  | rows =>
    obtain ⟨route, count, -, rfl⟩ := h
    simp
  | stages =>
    cases h
    simp

/-- **A compilation is decided by its checks.** It succeeds exactly if the tree passes all of them,
and otherwise its fault is that of the first one that fails. -/
theorem Tree.compile_decided_by_checks {naming : Naming} (hbands : budget.maxBands.toNat ≤ 65536)
    (hrows : budget.maxRows.toNat < 2 ^ 64 - 1) :
    ((∃ c, t.compile schema budget naming = .ok c) ↔
        ∀ k ∈ Check.all schema, k.Passes t schema budget) ∧
      ∀ fault, t.compile schema budget naming = .error fault →
        (∃ k, FirstFailing t schema budget (Check.all schema) k ∧
          k.Raises t schema budget fault) ∧
        (∀ codes i v j w, fault ≠ .ambiguous codes i v j w) ∧
        (∀ id lower upper, fault ≠ .cut id (.misaligned lower upper)) ∧
        ∀ id, fault ≠ .malformedTree id .dangling ∧ fault ≠ .malformedTree id .endless := by
  have hsettles : Settles t schema budget (Check.all schema) (t.compile schema budget naming) :=
    settles_compile naming hbands hrows
  refine ⟨hsettles.exists_ok_iff, fun fault hfault => ?_⟩
  rw [hfault] at hsettles
  obtain ⟨k, hk, hraises⟩ := hsettles
  exact ⟨⟨k, hk, hraises⟩, hraises.fault_ne⟩

/-- The sample tree has three rows. -/
theorem Tree.sample_compile_decided_by_checks :
    (∀ k ∈ Check.all .sample, k.Passes Tree.sample .sample ⟨8, 256, 3⟩) ∧
      ∃ fault, Tree.sample.compile .sample ⟨8, 256, 2⟩ .default = .error fault ∧
        ∃ k, FirstFailing Tree.sample .sample ⟨8, 256, 2⟩ (Check.all .sample) k ∧
          k.Raises Tree.sample .sample ⟨8, 256, 2⟩ fault := by
  obtain ⟨hiff, -⟩ := @Tree.compile_decided_by_checks Tree.sample .sample ⟨8, 256, 3⟩ .default
    (by decide) (by decide)
  refine ⟨hiff.1 (exists_ok_of_toBool (by decide +kernel)), ?_⟩
  obtain ⟨fault, hfault⟩ : ∃ fault,
      Tree.sample.compile .sample ⟨8, 256, 2⟩ .default = .error fault :=
    exists_error_of_toBool (by decide +kernel)
  obtain ⟨-, hfaults⟩ := @Tree.compile_decided_by_checks Tree.sample .sample ⟨8, 256, 2⟩ .default
    (by decide) (by decide)
  exact ⟨fault, hfault, (hfaults fault hfault).1⟩

end MatchTree
