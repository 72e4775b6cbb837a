import Mathlib.Algebra.Ring.Nat
import MatchTree.Feature.Contract
import MatchTree.Packet.Extractor
import MatchTree.Proofs.Domain
import MatchTree.Proofs.Outcome

/-!
# What slices yield

Principal results: `toNat_apply` — a slice of a raw value in numbers; `exists_slice_of_breaches` — a
feature without breaches has a slice, and all that the slice yields lies in the domain;
`exists_extractor` — the features of a schema that passes the check have slices, and the values of
every packet are values of the domains.
-/

namespace MatchTree

namespace Slice

theorem toNat_mask {bits : UInt8} (h : bits < 32) :
    (((1 : UInt32) <<< bits.toUInt32) - 1).toNat = 2 ^ bits.toNat - 1 := by
  have hbits : bits.toNat < 32 := UInt8.lt_iff_toNat_lt.1 h
  have hlt : 2 ^ bits.toNat < 2 ^ 32 := Nat.pow_lt_pow_right (by decide) hbits
  have hshift : ((1 : UInt32) <<< bits.toUInt32).toNat = 2 ^ bits.toNat := by
    rw [UInt32.toNat_shiftLeft, UInt8.toNat_toUInt32, Nat.mod_eq_of_lt hbits]
    show 1 <<< bits.toNat % 2 ^ 32 = 2 ^ bits.toNat
    rw [Nat.one_shiftLeft, Nat.mod_eq_of_lt hlt]
  have hone : (1 : UInt32) ≤ (1 : UInt32) <<< bits.toUInt32 := by
    rw [UInt32.le_iff_toNat_le, hshift]
    exact Nat.one_le_two_pow
  rw [UInt32.toNat_sub_of_le _ _ hone, hshift]
  rfl

/-- **A slice shifts and cuts**, for every shift and every number of bits. -/
theorem toNat_apply (s : Slice) (raw : UInt32) :
    (s.apply raw).toNat = raw.toNat / 2 ^ s.shift.toNat % 2 ^ s.bits.toNat := by
  have hraw := raw.toNat_lt
  have hshifted : (if s.shift < 32 then raw >>> s.shift.toUInt32 else 0).toNat =
      raw.toNat / 2 ^ s.shift.toNat := by
    by_cases hshift : s.shift < 32
    · have hlt : s.shift.toNat < 32 := UInt8.lt_iff_toNat_lt.1 hshift
      rw [if_pos hshift, UInt32.toNat_shiftRight, UInt8.toNat_toUInt32, Nat.mod_eq_of_lt hlt,
        Nat.shiftRight_eq_div_pow]
    · have hle : 32 ≤ s.shift.toNat := UInt8.le_iff_toNat_le.1 (UInt8.not_lt.1 hshift)
      have hpow : 2 ^ 32 ≤ 2 ^ s.shift.toNat := Nat.pow_le_pow_right (by decide) hle
      rw [if_neg hshift, Nat.div_eq_of_lt (by omega)]
      rfl
  unfold apply
  by_cases hbits : 32 ≤ s.bits
  · have hle : 32 ≤ s.bits.toNat := UInt8.le_iff_toNat_le.1 hbits
    have hpow : 2 ^ 32 ≤ 2 ^ s.bits.toNat := Nat.pow_le_pow_right (by decide) hle
    have hdiv := Nat.div_le_self raw.toNat (2 ^ s.shift.toNat)
    simp only [if_pos hbits, hshifted]
    rw [Nat.mod_eq_of_lt (by omega)]
  · simp only [if_neg hbits]
    rw [UInt32.toNat_and, hshifted, toNat_mask (UInt8.not_le.1 hbits),
      Nat.and_two_pow_sub_one_eq_mod]

end Slice

/-- **A feature without breaches has a slice that yields values of its domain only.** -/
theorem Feature.exists_slice_of_breaches {f : Feature} (h : f.breaches = []) :
    ∃ s, f.slice? = some s ∧ ∀ raw, f.Admits (s.apply raw) := by
  unfold breaches at h
  split at h
  · cases h
  rename_i s hs
  refine ⟨s, hs, fun raw => ?_⟩
  simp only [List.append_eq_nil_iff, ite_eq_right_iff, reduceCtorEq, imp_false, not_or,
    not_not, Nat.not_lt] at h
  obtain ⟨⟨⟨hinside, hbits⟩, -⟩, hleast, hgreatest⟩ := h
  have hfield : s.field.width.toNat ≤ 32 := by cases s.field <;> decide
  have hmin : min (min s.bits.toNat (s.field.width.toNat - s.shift.toNat)) 32 = s.bits.toNat := by
    omega
  rw [Slice.greatest, hmin, Nat.one_shiftLeft] at hgreatest
  have hpow : 0 < 2 ^ s.bits.toNat := Nat.two_pow_pos _
  have hvalue : (s.apply raw).toNat < 2 ^ s.bits.toNat := by
    rw [s.toNat_apply raw]
    exact Nat.mod_lt _ hpow
  refine ⟨?_, UInt32.le_iff_toNat_le.2 (by omega)⟩
  rw [UInt32.le_iff_toNat_le]
  have hzero : f.least.toNat = 0 := by
    have hleast := UInt32.le_iff_toNat_le.1 (UInt32.not_lt.1 hleast)
    exact Nat.le_zero.1 hleast
  omega

namespace Schema

/-- **A schema that passes the check has an extractor**, all of whose values lie in the domains. -/
theorem exists_extractor {schema : Schema} (h : schema.check = []) :
    ∃ x, Extractor.ofSchema schema = .ok x ∧
      ∀ (headers : Headers) (counters : FlowCounters), schema.Admits (x.values headers counters) := by
  have hslices : ∀ f ∈ schema.features, ∃ s, f.slice? = some s ∧ ∀ raw, f.Admits (s.apply raw) := by
    intro f hf
    refine Feature.exists_slice_of_breaches ?_
    exact List.map_eq_nil_iff.1 (List.flatMap_eq_nil_iff.1 h f hf)
  have hsliceOf : List.Forall₂ (fun f s => Extractor.sliceOf f = .ok s) schema.features
      (schema.features.map fun f => f.slice?.getD default) := by
    rw [List.forall₂_map_right_iff, List.forall₂_same]
    intro f hf
    obtain ⟨s, hs, -⟩ := hslices f hf
    rw [Extractor.sliceOf, hs, Option.getD_some]
  refine ⟨⟨schema.features.map fun f => f.slice?.getD default⟩,
    bind_eq_ok.2 ⟨_, mapM_eq_ok.2 hsliceOf, rfl⟩, fun headers counters => ?_⟩
  rw [Extractor.values, List.map_map, Admits, List.forall₂_map_right_iff, List.forall₂_same]
  intro f hf
  obtain ⟨s, hs, hadmits⟩ := hslices f hf
  rw [Function.comp_apply, hs, Option.getD_some]
  exact hadmits _

end Schema

end MatchTree
