import MatchTree.Proofs.Clashes
import MatchTree.Proofs.Thresholds

/-!
# Intervals that codes make up

An interval has no codes if it is empty, and a run of codes if bands delimit it.

Principal results: `cover_eq_misaligned_iff` — any other interval is misaligned;
`exists_codeOf?_iff` — the values with a code of the run are those of the interval;
`aligned_of_routes` — what a route leaves of a domain is empty or delimited, however many bands the
grid of its arena has; `cover_decided_by_edges` — all of this for the grid of an arena.
-/

namespace MatchTree

namespace Axis

variable {a : Axis} {f : Feature} {i : Interval}

namespace Tiles

/-- **Any other interval is misaligned.** -/
theorem cover_eq_misaligned_iff (ha : a.Tiles f) (hsmall : a.size ≤ 65536) :
    a.cover i = .error (.misaligned i.lower i.upper) ↔
      i.lower.toInt ≤ i.upper.toInt ∧ ¬ a.Delimits i := by
  rw [← Interval.isEmpty_eq_false_iff, ← Bool.not_eq_true, ← @cover_eq_none_iff a i,
    ← ha.exists_run_iff hsmall]
  cases hcover : a.cover i with
  | error flaw => simp [cover_error hcover]
  | ok run? =>
    cases run? with
    | none => simp
    | some run => simp

/-- **The values with a code of the run are those of the interval.** -/
theorem exists_codeOf?_iff (ha : a.Tiles f) (hsmall : a.size ≤ 65536) {run : CodeRun}
    (h : a.cover i = .ok (some run)) {v : UInt32} :
    (∃ c, a.codeOf? v = some c ∧ run.contains c = true) ↔ i.contains v = true := by
  have hcovers := ha.covers_of_cover hsmall h
  constructor
  · rintro ⟨c, hc, hrun⟩
    exact (hcovers.contains_iff v c hc).1 hrun
  · intro hv
    -- The interval lies between two bands, so that its values have codes.
    obtain ⟨-, hstarts, hends⟩ := (ha.exists_run_iff hsmall).1 ⟨run, h⟩
    have hleast := ha.least_le_of_starts hstarts
    have hgreatest := ha.le_greatest_of_ends hends
    have hbounds := Interval.contains_iff.1 hv
    have hadmits : f.Admits v := by
      rw [Feature.Admits, UInt32.le_iff_toNat_le, UInt32.le_iff_toNat_le]
      omega
    obtain ⟨c, hc⟩ := ha.exists_codeOf? hadmits
    exact ⟨c, hc, (hcovers.contains_iff v c hc).2 hv⟩

end Tiles

end Axis

/-! ## The grid of an arena -/

section Arena

variable {t : Tree} {schema : Schema} {maxBands : UInt64} {g : Grid}

/-- **What a route leaves of the domains is aligned on the grid of its arena**, however many bands
there are. -/
theorem Tree.aligned_of_routes (hgrid : Grid.ofTree t schema maxBands = .ok g)
    {routes : List Route} (hroutes : t.routes schema = .ok routes) {r : Route} (hr : r ∈ routes) :
    List.Forall₂ Axis.Aligned g.axes r.intervals := by
  obtain ⟨leaf, v, below, hlead, hbelow⟩ := exists_leadsBy_of_routesBelow hroutes hr
  exact hlead.aligned_intervals ((Grid.ofTree_ok hgrid).imp fun _ _ hfa => hfa.1)
    (Grid.cutsAt_of_ofTree hgrid hbelow)

/-- **The edges of the bands decide whether an interval can be covered.** On the grid of an arena,
let an axis have at most 65536 bands. Then an interval has no codes exactly if it is empty, and a
run of codes exactly if bands delimit it; the values with a code of the run are then those of the
interval. In every other case it is misaligned. Finding this out, no band is looked up that is not
there. What a route leaves of a domain is empty or delimited, and so it is never misaligned. -/
theorem Grid.cover_decided_by_edges (hgrid : Grid.ofTree t schema maxBands = .ok g) :
    (∀ a ∈ g.axes, a.size ≤ 65536 → ∀ i : Interval,
      (a.cover i = .ok none ↔ i.upper.toInt < i.lower.toInt) ∧
      ((∃ run, a.cover i = .ok (some run)) ↔ a.Delimits i) ∧
      (∀ run, a.cover i = .ok (some run) → ∀ v : UInt32,
        (∃ c, a.codeOf? v = some c ∧ run.contains c = true) ↔
          i.lower.toInt ≤ v.toNat ∧ v.toNat ≤ i.upper.toInt) ∧
      (a.cover i = .error (.misaligned i.lower i.upper) ↔
        i.lower.toInt ≤ i.upper.toInt ∧ ¬ a.Delimits i) ∧
      a.guardedCover i = ((a.cover i).mapError (.cut a.feature)).mapError .fault) ∧
    ∀ routes, t.routes schema = .ok routes → ∀ r ∈ routes,
      List.Forall₂ (fun a i =>
        (i.upper.toInt < i.lower.toInt ∨ a.Delimits i) ∧
          (a.size ≤ 65536 → ∃ run?, a.cover i = .ok run?)) g.axes r.intervals := by
  have htiles : ∀ a ∈ g.axes, ∃ f : Feature, a.Tiles f := by
    intro a ha
    obtain ⟨f, -, hf⟩ := Grid.tiled_ofTree hgrid a ha
    exact ⟨f, hf⟩
  refine ⟨fun a ha hsmall i => ?_, fun routes hroutes r hr => ?_⟩
  · obtain ⟨f, hf⟩ := htiles a ha
    refine ⟨?_, hf.exists_run_iff hsmall, fun run hrun v => ?_, hf.cover_eq_misaligned_iff hsmall,
      Axis.guardedCover_eq hf i⟩
    · rw [Axis.cover_eq_none_iff, Interval.isEmpty_iff]
    · rw [hf.exists_codeOf?_iff hsmall hrun, Interval.contains_iff]
  · have haligned := Tree.aligned_of_routes hgrid hroutes hr
    refine ((List.forall₂_and_left _ _).2 ⟨htiles, haligned⟩).imp ?_
    rintro a i ⟨⟨f, hf⟩, hi⟩
    exact ⟨Axis.aligned_iff.1 hi, fun hsmall => hf.exists_cover hsmall hi⟩

end Arena

/-- The axis of the steep tree. -/
def Axis.steep : Axis :=
  ⟨0, #[⟨5, 7, 0⟩, ⟨8, 4294967294, 1⟩, ⟨4294967295, 4294967295, 2⟩]⟩

theorem Grid.steep_cover_decided_by_edges :
    Grid.ofTree .steep .steep 3 = .ok ⟨[.steep]⟩ ∧
      Axis.steep.cover ⟨8, 7⟩ = .ok none ∧
      (∃ run, Axis.steep.cover ⟨8, 4294967295⟩ = .ok (some run) ∧
        ∃ c, Axis.steep.codeOf? 4294967295 = some c ∧ run.contains c = true) ∧
      Axis.steep.cover ⟨-1, 7⟩ = .error (.misaligned (-1) 7) ∧
      ∃ routes, Tree.steep.routes .steep = .ok routes ∧ routes.length = 5 ∧
        ∀ r ∈ routes, ∃ i run?, r.intervals = [i] ∧ Axis.steep.cover i = .ok run? := by
  have hgrid : Grid.ofTree .steep .steep 3 = .ok ⟨[.steep]⟩ := eq_ok_of_toOption (by decide +kernel)
  obtain ⟨hcover, haligned⟩ := Grid.cover_decided_by_edges hgrid
  have hsteep : Axis.steep ∈ [Axis.steep] := List.mem_singleton_self _
  have hsmall : Axis.steep.size ≤ 65536 := by decide
  obtain ⟨hnone, -⟩ := hcover _ hsteep hsmall ⟨8, 7⟩
  obtain ⟨-, hrun, hvalues, -⟩ := hcover _ hsteep hsmall ⟨8, 4294967295⟩
  obtain ⟨-, -, -, herror, -⟩ := hcover _ hsteep hsmall ⟨-1, 7⟩
  obtain ⟨run, hrun⟩ := hrun.2 (by decide)
  obtain ⟨routes, hroutes, hlength⟩ : ∃ routes, Tree.steep.routes .steep = .ok routes ∧
      (routes.length == 5) = true := exists_ok_of_any (by decide +kernel)
  refine ⟨hgrid, hnone.2 (by decide), ⟨run, hrun, (hvalues run hrun 4294967295).2 (by decide)⟩,
    herror.2 (by decide), routes, hroutes, beq_iff_eq.1 hlength, fun r hr => ?_⟩
  obtain ⟨i, rest, ⟨-, hi⟩, hrest, heq⟩ :=
    List.forall₂_cons_left_iff.1 (haligned routes hroutes r hr)
  cases hrest
  obtain ⟨run?, hcovers⟩ := hi hsmall
  exact ⟨i, run?, heq, hcovers⟩

end MatchTree
