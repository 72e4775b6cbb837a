import Mathlib.Data.List.Forall2
import Mathlib.Data.List.Nodup
import MatchTree.Feature.Schema

/-!
# Values in the domains of a schema

* `Feature.Admits`, `Schema.Admits` — a value lies in a feature's domain; a list holds one value
  for each feature, each in its domain.
* `Feature.pull`, `Schema.pull` — values outside the domains become the least ones of the domains.
* `Schema.outsideCount` — how many values of a list lie outside the domains.

Principal results: `flaw?_eq_none` — what a feature without flaws promises; `valueOf_of_mem_zip` and
`exists_mem_zip` — a feature's value is the one at the feature's position, and every declared
feature has one; `admits_pull` — pulled values lie in the domains.
-/

namespace MatchTree

namespace Feature

/-- The value lies in the domain. -/
def Admits (f : Feature) (v : UInt32) : Prop := f.least ≤ v ∧ v ≤ f.greatest

instance (f : Feature) (v : UInt32) : Decidable (f.Admits v) :=
  inferInstanceAs (Decidable (_ ∧ _))

/-- A feature without flaws has a domain with values, which fit its match key. -/
theorem flaw?_eq_none {f : Feature} (h : f.flaw? = none) :
    f.least ≤ f.greatest ∧ f.greatest.toNat ≤ f.widthMax ∧ 0 < f.bitWidth ∧ f.bitWidth ≤ 32 := by
  unfold flaw? at h
  split at h
  · cases h
  rename_i hwidth
  split at h
  · cases h
  rename_i hdomain
  split at h
  · cases h
  rename_i hfits
  rw [not_or] at hwidth
  have hpos : f.bitWidth.toNat ≠ 0 := fun heq => hwidth.1 (UInt8.toNat_inj.1 heq)
  exact ⟨UInt32.not_lt.1 hdomain, Nat.not_lt.1 hfits,
    UInt8.lt_iff_toNat_lt.2 (Nat.pos_of_ne_zero hpos), UInt8.not_lt.1 hwidth.2⟩

theorem admits_least {f : Feature} (h : f.flaw? = none) : f.Admits f.least :=
  ⟨UInt32.le_refl _, (flaw?_eq_none h).1⟩

/-- The value itself where it lies in the domain, else the least one of the domain. -/
def pull (f : Feature) (v : UInt32) : UInt32 := if f.Admits v then v else f.least

theorem admits_pull {f : Feature} (h : f.flaw? = none) (v : UInt32) : f.Admits (f.pull v) := by
  unfold pull
  split
  · assumption
  · exact f.admits_least h

theorem contains_threshold_iff {f : Feature} {threshold : Int64} :
    f.contains threshold = true ↔
      (f.least.toNat : Int) ≤ threshold.toInt ∧ threshold.toInt ≤ f.greatest.toNat := by
  simp [contains]

end Feature

namespace Schema

/-- One value for each feature, in the schema's order and in the feature's domain. -/
def Admits (s : Schema) (values : List UInt32) : Prop :=
  List.Forall₂ Feature.Admits s.features values

instance (s : Schema) (values : List UInt32) : Decidable (s.Admits values) :=
  inferInstanceAs (Decidable (List.Forall₂ _ _ _))

theorem Admits.length_eq {s : Schema} {values : List UInt32} (h : s.Admits values) :
    values.length = s.features.length :=
  (List.Forall₂.length_eq h).symm

/-- The least values of all domains are values of the domains. -/
theorem admits_least (s : Schema) : s.Admits (s.features.map (·.least)) := by
  rw [Admits, List.forall₂_map_right_iff, List.forall₂_same]
  exact fun f hf => f.admits_least (s.sound f hf)

theorem indexOf?_getElem (s : Schema) {i : Nat} (hi : i < s.features.length) :
    s.indexOf? s.features[i].id = some i := by
  rw [indexOf?, List.findIdx?_eq_some_iff_getElem]
  refine ⟨hi, by simp, ?_⟩
  intro j hj heq
  have hids := List.pairwise_map.1 s.distinct
  exact List.pairwise_iff_getElem.1 hids j i (Nat.lt_trans hj hi) hi hj (by simpa using heq)

/-- **The value of a feature is the one at its position.** -/
theorem valueOf_of_mem_zip {s : Schema} {values : List UInt32} {f : Feature} {v : UInt32}
    (h : (f, v) ∈ s.features.zip values) : s.valueOf values f.id = v := by
  obtain ⟨i, hi, hget⟩ := List.getElem_of_mem h
  rw [List.getElem_zip, Prod.mk.injEq] at hget
  obtain ⟨rfl, rfl⟩ := hget
  rw [List.length_zip] at hi
  rw [valueOf, indexOf?_getElem s (by omega)]
  simp [List.getElem?_eq_getElem (show i < values.length by omega)]

/-- Every declared feature has a value. -/
theorem exists_mem_zip {s : Schema} {values : List UInt32}
    (hlength : values.length = s.features.length) {id : FeatureId}
    (h : (s.indexOf? id).isSome) : ∃ f v, (f, v) ∈ s.features.zip values ∧ f.id = id := by
  obtain ⟨i, hi⟩ := Option.isSome_iff_exists.1 h
  obtain ⟨hlt, hid, -⟩ := List.findIdx?_eq_some_iff_getElem.1 hi
  refine ⟨s.features[i], values[i], ?_, by simpa using hid⟩
  rw [List.mem_iff_getElem]
  exact ⟨i, by rw [List.length_zip]; omega, by rw [List.getElem_zip]⟩

/-! ## Values outside the domains -/

/-- The values, each pulled into the domain of its feature. -/
def pull (s : Schema) (values : List UInt32) : List UInt32 :=
  s.features.zipWith Feature.pull values

/-- How many values lie outside the domains of their features. -/
def outsideCount (s : Schema) (values : List UInt32) : Nat :=
  (s.features.zip values).countP fun x => ¬ x.1.Admits x.2

theorem admits_pull (s : Schema) {values : List UInt32} (h : values.length = s.size) :
    s.Admits (s.pull values) := by
  have hsound := s.sound
  unfold size at h
  unfold Admits pull
  generalize s.features = fs at h hsound
  induction fs generalizing values with
  | nil => simp
  | cons f fs ih =>
    obtain ⟨v, values, rfl⟩ := List.exists_cons_of_length_eq_add_one h
    obtain ⟨hf, hfs⟩ := List.forall_mem_cons.1 hsound
    exact .cons (f.admits_pull hf v) (ih (by simpa using h) hfs)

/-- Values of the domains stay as they are. -/
theorem Admits.pull_eq {s : Schema} {values : List UInt32} (h : s.Admits values) :
    s.pull values = values := by
  unfold Admits at h
  unfold pull
  generalize s.features = fs at h
  induction h with
  | nil => rfl
  | @cons f v fs values hv _ ih => rw [List.zipWith_cons_cons, ih, Feature.pull, if_pos hv]

theorem Admits.outsideCount_eq_zero {s : Schema} {values : List UInt32} (h : s.Admits values) :
    s.outsideCount values = 0 := by
  rw [outsideCount, List.countP_eq_zero]
  rintro ⟨f, v⟩ hmem hout
  exact of_decide_eq_true hout (List.forall₂_zip h hmem)

end Schema

end MatchTree
