import MatchTree.Proofs.Slices

/-!
# What the check of a slice finds

* `Slice.Yields` — a value is the slice of some raw value of the field.

The check computes one number, the greatest value of the slice, and compares the ends of the domain
with it. Shifts may go past the field and past the 32 bits of a word, and a slice may have no bits.

Principal results: `yields_iff` — a slice yields all values up to its greatest one and no others;
`mem_breaches` — the breaches of a feature and when each of them is found; `check_tells` — the check
of a schema finds what the values of the slices and the values of the domains differ in.
-/

namespace MatchTree

namespace Slice

/-- The value is the slice of some raw value that fits the field. -/
def Yields (s : Slice) (v : UInt32) : Prop :=
  ∃ raw : UInt32, raw.toNat < 2 ^ s.field.width.toNat ∧ s.apply raw = v

theorem width_le (field : Field) : field.width.toNat ≤ 32 := by
  cases field <;> decide

/-- The greatest value fills the bits that the shift leaves of the field, as far as the slice takes
them. -/
theorem lt_pow_iff (s : Slice) {n : Nat} :
    n < 2 ^ min s.bits.toNat (s.field.width.toNat - s.shift.toNat) ↔ n ≤ s.greatest := by
  have hwidth := width_le s.field
  have hmin : min (min s.bits.toNat (s.field.width.toNat - s.shift.toNat)) 32 =
      min s.bits.toNat (s.field.width.toNat - s.shift.toNat) := by
    omega
  have hpos := Nat.two_pow_pos (min s.bits.toNat (s.field.width.toNat - s.shift.toNat))
  rw [greatest, hmin, Nat.one_shiftLeft]
  omega

/-- What is left of a raw value after a shift fits the bits that are left of the field. -/
theorem div_lt_of_lt {raw width shift : Nat} (h : raw < 2 ^ width) :
    raw / 2 ^ shift < 2 ^ (width - shift) := by
  apply Nat.div_lt_of_lt_mul
  rw [← Nat.pow_add]
  exact Nat.lt_of_lt_of_le h (Nat.pow_le_pow_right (by decide) (by omega))

/-- **A slice yields all values up to its greatest one and no others.** -/
theorem yields_iff (s : Slice) {v : UInt32} : s.Yields v ↔ v.toNat ≤ s.greatest := by
  rw [← lt_pow_iff]
  constructor
  · rintro ⟨raw, hraw, rfl⟩
    have hcut := Nat.mod_lt (raw.toNat / 2 ^ s.shift.toNat) (Nat.two_pow_pos s.bits.toNat)
    have hshifted : raw.toNat / 2 ^ s.shift.toNat < 2 ^ (s.field.width.toNat - s.shift.toNat) :=
      div_lt_of_lt hraw
    have hle := Nat.mod_le (raw.toNat / 2 ^ s.shift.toNat) (2 ^ s.bits.toNat)
    rw [s.toNat_apply raw]
    rcases Nat.le_total s.bits.toNat (s.field.width.toNat - s.shift.toNat) with h | h
    · rwa [Nat.min_eq_left h]
    · rw [Nat.min_eq_right h]
      exact Nat.lt_of_le_of_lt hle hshifted
  · intro hv
    have hbits : v.toNat < 2 ^ s.bits.toNat :=
      Nat.lt_of_lt_of_le hv (Nat.pow_le_pow_right (by decide) (Nat.min_le_left _ _))
    have hleft : v.toNat < 2 ^ (s.field.width.toNat - s.shift.toNat) :=
      Nat.lt_of_lt_of_le hv (Nat.pow_le_pow_right (by decide) (Nat.min_le_right _ _))
    -- Shifting the value back up gives a raw value, also zero where the shift leaves the field.
    have hraw : v.toNat * 2 ^ s.shift.toNat < 2 ^ s.field.width.toNat := by
      rcases Nat.le_total s.shift.toNat s.field.width.toNat with h | h
      · calc v.toNat * 2 ^ s.shift.toNat
            < 2 ^ (s.field.width.toNat - s.shift.toNat) * 2 ^ s.shift.toNat :=
              Nat.mul_lt_mul_of_pos_right hleft (Nat.two_pow_pos _)
          _ = 2 ^ s.field.width.toNat := by rw [← Nat.pow_add, Nat.sub_add_cancel h]
      · rw [Nat.sub_eq_zero_of_le h, Nat.pow_zero, Nat.lt_one_iff] at hleft
        rw [hleft, Nat.zero_mul]
        exact Nat.two_pow_pos _
    have hword : 2 ^ s.field.width.toNat ≤ 2 ^ 32 :=
      Nat.pow_le_pow_right (by decide) (width_le s.field)
    have hnat : (UInt32.ofNat (v.toNat * 2 ^ s.shift.toNat)).toNat =
        v.toNat * 2 ^ s.shift.toNat := by
      rw [UInt32.toNat_ofNat', Nat.mod_eq_of_lt (Nat.lt_of_lt_of_le hraw hword)]
    refine ⟨UInt32.ofNat (v.toNat * 2 ^ s.shift.toNat), by rwa [hnat], UInt32.toNat_inj.1 ?_⟩
    rw [s.toNat_apply, hnat, Nat.mul_div_cancel _ (Nat.two_pow_pos _), Nat.mod_eq_of_lt hbits]

end Slice

namespace Feature

variable {f : Feature} {s : Slice}

/-! ## One feature -/

/-- **The breaches of a feature with a slice**, and when each of them is found. -/
theorem mem_breaches (hs : f.slice? = some s) {b : Breach} :
    b ∈ f.breaches ↔
      (s.field.width.toNat < s.shift.toNat + s.bits.toNat ∧
        b = .outsideField s.shift s.bits s.field.width) ∨
      (s.bits ≠ f.bitWidth ∧ b = .widthMismatch s.bits f.bitWidth) ∨
      (s.greatest < f.greatest.toNat ∧ b = .unreachable f.greatest s.greatest) ∨
      ((0 < f.least ∨ f.greatest.toNat < s.greatest) ∧
        b = .narrower f.least f.greatest s.greatest) := by
  simp only [breaches, hs, List.mem_append, List.mem_ite_nil_right, List.mem_singleton, or_assoc]

/-- The domain reaches past the slice exactly if the slice misses a value of the domain. -/
theorem exists_not_yields_iff (hf : f.flaw? = none) :
    (∃ v, f.Admits v ∧ ¬ s.Yields v) ↔ s.greatest < f.greatest.toNat := by
  constructor
  · rintro ⟨v, hv, hyields⟩
    rw [s.yields_iff] at hyields
    have := UInt32.le_iff_toNat_le.1 hv.2
    omega
  · intro h
    refine ⟨f.greatest, ⟨(flaw?_eq_none hf).1, UInt32.le_refl _⟩, ?_⟩
    rw [s.yields_iff]
    omega

/-- The domain starts above zero or ends below the slice exactly if the slice yields a value outside
the domain. -/
theorem exists_not_admits_iff :
    (∃ v, s.Yields v ∧ ¬ f.Admits v) ↔ 0 < f.least ∨ f.greatest.toNat < s.greatest := by
  have hgreatest := f.greatest.toNat_lt
  constructor
  · rintro ⟨v, hv, hadmits⟩
    rw [s.yields_iff] at hv
    rw [Admits, UInt32.le_iff_toNat_le, UInt32.le_iff_toNat_le] at hadmits
    rw [UInt32.lt_iff_toNat_lt, UInt32.toNat_zero]
    omega
  · rintro (hleast | hnarrow)
    · refine ⟨0, s.yields_iff.2 (Nat.zero_le _), fun hadmits => ?_⟩
      exact absurd hadmits.1 (UInt32.not_le.2 hleast)
    · by_cases hlast : f.greatest.toNat + 1 < 2 ^ 32
      · have hnext : (UInt32.ofNat (f.greatest.toNat + 1)).toNat = f.greatest.toNat + 1 := by
          rw [UInt32.toNat_ofNat', Nat.mod_eq_of_lt hlast]
        refine ⟨UInt32.ofNat (f.greatest.toNat + 1), s.yields_iff.2 (by omega), fun hadmits => ?_⟩
        have := UInt32.le_iff_toNat_le.1 hadmits.2
        omega
      · -- No field is wider than a word.
        have hwidth := Slice.width_le s.field
        have hle : 2 ^ min s.bits.toNat (s.field.width.toNat - s.shift.toNat) ≤ 2 ^ 32 :=
          Nat.pow_le_pow_right (by decide) (by omega)
        have := s.lt_pow_iff.2 (Nat.le_refl s.greatest)
        omega

/-- **A feature has no breach exactly if its slice lies in the field, has the width of the key and
yields the domain.** -/
theorem breaches_eq_nil_iff (hf : f.flaw? = none) (hs : f.slice? = some s) :
    f.breaches = [] ↔ s.shift.toNat + s.bits.toNat ≤ s.field.width.toNat ∧ s.bits = f.bitWidth ∧
      ∀ v, s.Yields v ↔ f.Admits v := by
  have hvalues : (∀ v, s.Yields v ↔ f.Admits v) ↔
      ¬ (∃ v, f.Admits v ∧ ¬ s.Yields v) ∧ ¬ ∃ v, s.Yields v ∧ ¬ f.Admits v := by
    constructor
    · intro h
      exact ⟨fun ⟨v, hv, hnot⟩ => hnot ((h v).2 hv), fun ⟨v, hv, hnot⟩ => hnot ((h v).1 hv)⟩
    · rintro ⟨hreached, hinside⟩ v
      exact ⟨fun hv => not_not.1 fun hnot => hinside ⟨v, hv, hnot⟩,
        fun hv => not_not.1 fun hnot => hreached ⟨v, hv, hnot⟩⟩
  rw [hvalues, exists_not_yields_iff hf, exists_not_admits_iff, List.eq_nil_iff_forall_not_mem]
  simp only [mem_breaches hs]
  constructor
  · intro h
    refine ⟨Nat.le_of_not_lt fun hout => h _ (Or.inl ⟨hout, rfl⟩),
      not_not.1 fun hne => h _ (Or.inr (Or.inl ⟨hne, rfl⟩)),
      fun hbeyond => h _ (Or.inr (Or.inr (Or.inl ⟨hbeyond, rfl⟩))),
      fun hwithin => h _ (Or.inr (Or.inr (Or.inr ⟨hwithin, rfl⟩)))⟩
  · rintro ⟨hinside, hbits, hbeyond, hwithin⟩ b
      (⟨hout, -⟩ | ⟨hne, -⟩ | ⟨hover, -⟩ | ⟨hover, -⟩)
    · omega
    · exact hne hbits
    · exact hbeyond hover
    · exact hwithin hover

end Feature

/-! ## A schema -/

/-- What the check finds under the id of a feature are the breaches of the feature. -/
theorem Schema.mem_check {schema : Schema} {f : Feature} (hf : f ∈ schema.features) {x : Finding} :
    x ∈ schema.check ∧ x.feature = f.id ↔ ∃ b ∈ f.breaches, x = ⟨f.id, f.label, b⟩ := by
  rw [check, List.mem_flatMap]
  constructor
  · rintro ⟨⟨g, hg, hx⟩, hid⟩
    obtain ⟨b, hb, rfl⟩ := List.mem_map.1 hx
    obtain rfl := List.inj_on_of_nodup_map schema.distinct hg hf hid
    exact ⟨b, hb, rfl⟩
  · rintro ⟨b, hb, rfl⟩
    exact ⟨⟨f, hf, List.mem_map.2 ⟨b, hb, rfl⟩⟩, rfl⟩

/-- The check finds something under the id of a feature exactly if the feature has such a breach. -/
theorem Schema.exists_mem_check {schema : Schema} {f : Feature} (hf : f ∈ schema.features)
    {p : Breach → Prop} :
    (∃ x ∈ schema.check, x.feature = f.id ∧ p x.breach) ↔ ∃ b ∈ f.breaches, p b := by
  constructor
  · rintro ⟨x, hx, hid, hp⟩
    obtain ⟨b, hb, rfl⟩ := (mem_check hf).1 ⟨hx, hid⟩
    exact ⟨b, hb, hp⟩
  · rintro ⟨b, hb, hp⟩
    obtain ⟨hx, hid⟩ := (mem_check hf).2 ⟨b, hb, rfl⟩
    exact ⟨_, hx, hid, hp⟩

/-- **The check finds what slices and domains differ in.** It reports a domain that is not reached
exactly if the slice misses one of its values, and one that is too narrow exactly if the slice
leaves it; it reports nothing exactly if the slice lies in its field, is as wide as the key and
yields the domain. What a slice yields is the raw value, shifted and cut. -/
theorem Schema.check_tells {schema : Schema} {f : Feature} (hf : f ∈ schema.features) {s : Slice}
    (hs : f.slice? = some s) :
    ((∃ x ∈ schema.check, x.feature = f.id ∧
        ∃ greatest sliceMax, x.breach = .unreachable greatest sliceMax) ↔
      ∃ v, f.Admits v ∧ ¬ s.Yields v) ∧
    ((∃ x ∈ schema.check, x.feature = f.id ∧
        ∃ least greatest sliceMax, x.breach = .narrower least greatest sliceMax) ↔
      ∃ v, s.Yields v ∧ ¬ f.Admits v) ∧
    ((∀ x ∈ schema.check, x.feature ≠ f.id) ↔
      s.shift.toNat + s.bits.toNat ≤ s.field.width.toNat ∧ s.bits = f.bitWidth ∧
        ∀ v, s.Yields v ↔ f.Admits v) ∧
    ∀ raw : UInt32, (s.apply raw).toNat = raw.toNat / 2 ^ s.shift.toNat % 2 ^ s.bits.toNat := by
  have hflaw := schema.sound f hf
  refine ⟨?_, ?_, ?_, s.toNat_apply⟩
  · rw [Schema.exists_mem_check hf (p := fun b => ∃ greatest sliceMax,
      b = .unreachable greatest sliceMax), Feature.exists_not_yields_iff hflaw]
    simp [Feature.mem_breaches hs]
  · rw [Schema.exists_mem_check hf (p := fun b => ∃ least greatest sliceMax,
      b = .narrower least greatest sliceMax), Feature.exists_not_admits_iff]
    simp [Feature.mem_breaches hs]
  · rw [← Feature.breaches_eq_nil_iff hflaw hs, List.eq_nil_iff_forall_not_mem]
    constructor
    · intro h b hb
      obtain ⟨hx, hid⟩ := (Schema.mem_check hf).2 ⟨b, hb, rfl⟩
      exact h _ hx hid
    · intro h x hx hid
      obtain ⟨b, hb, -⟩ := (Schema.mem_check hf).1 ⟨hx, hid⟩
      exact h b hb

/-- Eight bits from the middle of an eight-bit field, over a domain that starts above zero. -/
def Feature.askew : Feature := ⟨7, "hops", 8, 1, 31, some ⟨.ipTtl, 4, 8⟩⟩

/-- The feature by itself. -/
def Schema.askew : Schema where
  features := [.askew]
  sound := by decide
  distinct := by decide

theorem Schema.askew_check_tells :
    Schema.askew.check = [⟨7, "hops", .outsideField 4 8 8⟩, ⟨7, "hops", .unreachable 31 15⟩,
        ⟨7, "hops", .narrower 1 31 15⟩] ∧
      (∃ v, Feature.askew.Admits v ∧ ¬ Slice.Yields ⟨.ipTtl, 4, 8⟩ v) ∧
      (∃ v, Slice.Yields ⟨.ipTtl, 4, 8⟩ v ∧ ¬ Feature.askew.Admits v) := by
  obtain ⟨hunreachable, hnarrower, -, -⟩ :=
    @Schema.check_tells .askew .askew (by decide) ⟨.ipTtl, 4, 8⟩ rfl
  refine ⟨by decide, hunreachable.1 ?_, hnarrower.1 ?_⟩
  · exact ⟨⟨7, "hops", .unreachable 31 15⟩, by decide, rfl, 31, 15, rfl⟩
  · exact ⟨⟨7, "hops", .narrower 1 31 15⟩, by decide, rfl, 1, 31, 15, rfl⟩

end MatchTree
