import MatchTree.Proofs.Branch
import MatchTree.Proofs.Domain

/-!
# What a route leaves of the domains

* `Interval.narrow` takes away exactly the values on the wrong side of a split, also where a
  threshold is the greatest integer and has no successor.
* `Route.Takes` — every value of an input lies in the route's interval for its feature.

Principal results: `contains_intervalOf` — the values that constraints leave of a domain are those
that meet them; `takes_iff` — for values of the domains, lying in a route's intervals and meeting
its constraints are the same; `untested` — an interval that the route does not test is a whole
domain.
-/

namespace MatchTree

/-! ## Intervals -/

theorem toInt_nextUp (i : Int64) : (nextUp i).toInt = min (i.toInt + 1) 9223372036854775807 := by
  have hlt := i.toInt_lt
  have hge := i.le_toInt
  unfold nextUp
  split
  · rename_i heq
    subst heq
    decide
  · rename_i hne
    have hmax : i.toInt ≠ 9223372036854775807 := by
      intro heq
      exact hne (Int64.toInt_inj.1 (heq.trans (by decide)))
    rw [Int64.toInt_add, show (1 : Int64).toInt = 1 from rfl, Int.bmod_eq_of_le (by omega) (by omega)]
    omega

namespace Interval

theorem contains_iff {i : Interval} {v : UInt32} :
    i.contains v = true ↔ i.lower.toInt ≤ v.toNat ∧ (v.toNat : Int) ≤ i.upper.toInt := by
  simp [contains]

theorem isEmpty_iff {i : Interval} : i.isEmpty = true ↔ i.upper.toInt < i.lower.toInt := by
  simp [isEmpty]

theorem not_contains_of_isEmpty {i : Interval} (h : i.isEmpty = true) (v : UInt32) :
    i.contains v = false := by
  rw [isEmpty_iff] at h
  rw [Bool.eq_false_iff, Ne, contains_iff]
  omega

theorem isEmpty_eq_false_iff {i : Interval} :
    i.isEmpty = false ↔ i.lower.toInt ≤ i.upper.toInt := by
  simp [isEmpty]

/-- **Narrowing keeps the values that meet the constraint.** -/
theorem contains_narrow (i : Interval) (c : Constraint) (v : UInt32) :
    (i.narrow c.side c.threshold).contains v = true ↔
      i.contains v = true ∧ c.holds v = true := by
  have hv : v.toNat < 2 ^ 32 := v.toNat_lt
  obtain ⟨feature, side, threshold⟩ := c
  cases side with
  | atMost =>
    simp only [narrow, Constraint.holds, goesLeft, contains_iff, decide_eq_true_eq,
      Int64.lt_iff_toInt_lt]
    split <;> omega
  | above =>
    have hnext := toInt_nextUp threshold
    simp only [narrow, Constraint.holds, goesLeft, contains_iff, Int64.lt_iff_toInt_lt,
      Bool.not_eq_true', decide_eq_false_iff_not]
    split <;> omega

end Interval

theorem Feature.contains_domain {f : Feature} {v : UInt32} :
    f.domain.contains v = true ↔ f.Admits v := by
  have hleast : f.least.toNat < 2 ^ 32 := f.least.toNat_lt
  have hgreatest : f.greatest.toNat < 2 ^ 32 := f.greatest.toNat_lt
  rw [Interval.contains_iff, domain, Int64.toInt_ofNat_of_lt (by omega),
    Int64.toInt_ofNat_of_lt (by omega), Admits, UInt32.le_iff_toNat_le, UInt32.le_iff_toNat_le]
  omega

namespace Route

/-- **Constraints leave those values of a domain that meet them.** -/
theorem contains_intervalOf {f : Feature} {constraints : List Constraint} {v : UInt32} :
    (intervalOf f constraints).contains v = true ↔
      f.Admits v ∧ ∀ c ∈ constraints, c.feature = f.id → c.holds v = true := by
  have hfold : ∀ (cs : List Constraint) (i : Interval),
      (cs.foldl (fun i c => i.narrow c.side c.threshold) i).contains v = true ↔
        i.contains v = true ∧ ∀ c ∈ cs, c.holds v = true := by
    intro cs
    induction cs with
    | nil => simp
    | cons c cs ih =>
      intro i
      rw [List.foldl_cons, ih, Interval.contains_narrow, List.forall_mem_cons, and_assoc]
  rw [intervalOf, hfold, Feature.contains_domain]
  simp only [List.mem_filter, beq_iff_eq, and_imp]

theorem intervalOf_eq_domain {f : Feature} {constraints : List Constraint}
    (h : ∀ c ∈ constraints, c.feature ≠ f.id) : intervalOf f constraints = f.domain := by
  have hnone : (constraints.filter fun c => c.feature == f.id) = [] := by
    rw [List.filter_eq_nil_iff]
    intro c hc heq
    exact h c hc (by simpa using heq)
  rw [intervalOf, hnone, List.foldl_nil]

/-! ## Routes to a leaf -/

/-- What is known of a route to a leaf. -/
structure LeadsBy (r : Route) (schema : Schema) (leaf : NodeId) (v : Verdict)
    (constraints : List Constraint) : Prop where
  leaf_eq : r.leaf = leaf
  verdict_eq : r.verdict = v
  constraints_eq : r.constraints = constraints
  intervals_eq : r.intervals = schema.features.map fun f => intervalOf f constraints
  declared : ∀ c ∈ constraints, (schema.indexOf? c.feature).isSome
  tested_iff : ∀ k f, schema.features[k]? = some f →
    (r.tests k = true ↔ ∃ c ∈ constraints, c.feature = f.id)

theorem ofLeaf_ok {schema : Schema} {leaf : NodeId} {v : Verdict} {constraints : List Constraint}
    {r : Route} (h : ofLeaf schema leaf v constraints = .ok r) :
    r.LeadsBy schema leaf v constraints := by
  unfold ofLeaf at h
  split at h
  · cases h
  rename_i hnone
  cases h
  refine ⟨rfl, rfl, rfl, rfl, ?_, ?_⟩
  · intro c hc
    have := List.find?_eq_none.1 hnone c hc
    rwa [Bool.not_eq_true, Option.isNone_eq_false_iff] at this
  · intro k f hf
    simp only [tests, List.contains_iff_mem, List.mem_map, List.mem_filter, List.any_eq_true,
      beq_iff_eq]
    constructor
    · rintro ⟨⟨g, i⟩, ⟨hmem, hany⟩, rfl⟩
      rw [List.mem_zipIdx_iff_getElem?] at hmem
      cases hmem.symm.trans hf
      exact hany
    · intro hany
      exact ⟨(f, k), ⟨List.mem_zipIdx_iff_getElem?.2 hf, hany⟩, rfl⟩

/-- Each value of an input lies in the route's interval for its feature. -/
def Takes (r : Route) (values : List UInt32) : Prop :=
  List.Forall₂ (fun i v => i.contains v = true) r.intervals values

instance (r : Route) (values : List UInt32) : Decidable (r.Takes values) :=
  inferInstanceAs (Decidable (List.Forall₂ _ _ _))

namespace LeadsBy

variable {r : Route} {schema : Schema} {leaf : NodeId} {v : Verdict}
  {constraints : List Constraint}

/-- **For values of the domains, a route's intervals say the same as its constraints.** -/
theorem takes_iff (h : r.LeadsBy schema leaf v constraints) {values : List UInt32}
    (hvalues : schema.Admits values) :
    r.Takes values ↔
      ∀ c ∈ constraints, c.holds (schema.valueOf values c.feature) = true := by
  have hlength := hvalues.length_eq
  rw [Takes, h.intervals_eq, List.forall₂_map_left_iff, List.forall₂_iff_zip]
  constructor
  · rintro ⟨-, hzip⟩ c hc
    obtain ⟨f, v, hmem, hid⟩ := Schema.exists_mem_zip hlength (h.declared c hc)
    rw [← hid, Schema.valueOf_of_mem_zip hmem]
    exact (contains_intervalOf.1 (hzip hmem)).2 c hc hid.symm
  · intro hholds
    refine ⟨hlength.symm, fun {f v} hmem => ?_⟩
    refine contains_intervalOf.2 ⟨List.forall₂_zip hvalues hmem, fun c hc hid => ?_⟩
    have := hholds c hc
    rwa [hid, Schema.valueOf_of_mem_zip hmem] at this

/-- The interval of a feature that is not tested is the feature's domain. -/
theorem untested (h : r.LeadsBy schema leaf v constraints) {k : Nat} {f : Feature} {i : Interval}
    (hf : schema.features[k]? = some f) (hi : r.intervals[k]? = some i)
    (htests : r.tests k = false) : i = f.domain := by
  rw [h.intervals_eq, List.getElem?_map, hf, Option.map_some, Option.some.injEq] at hi
  rw [← hi]
  refine intervalOf_eq_domain fun c hc hid => ?_
  rw [(h.tested_iff k f hf).2 ⟨c, hc, hid⟩] at htests
  cases htests

end LeadsBy

end Route

end MatchTree
