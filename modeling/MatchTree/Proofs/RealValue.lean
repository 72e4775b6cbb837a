import Mathlib.Algebra.Order.Archimedean.Real.Basic
import Mathlib.Algebra.Order.Floor.Ring
import Mathlib.Data.EReal.Basic
import MatchTree.Number.Binary64

/-!
# The real numbers that doubles stand for

* `Binary64.dyadic` — the real number `± mantissa · 2 ^ exponent`.
* `Binary64.value?` — the extended real number that a double stands for; `nan` stands for none.

Principal results: `lt_iff` — the order of doubles is that of the numbers they stand for;
`floor?_eq_some_iff` — the greatest integer of a double is the floor of its number;
`exceeds_iff` — a double exceeds a bound if its number does. None of them asks for a canonical
mantissa.
-/

namespace MatchTree.Binary64

/-- The signed dyadic `± mantissa · 2 ^ exponent`. -/
noncomputable def dyadic (negative : Bool) (mantissa : Nat) (exponent : Int) : ℝ :=
  (if negative then -1 else 1) * (mantissa * 2 ^ exponent)

/-- The number that a double stands for. -/
noncomputable def value? : Binary64 → Option EReal
  | .finite s m e => some (dyadic s m e : ℝ)
  | .infinite s => some (if s then ⊥ else ⊤)
  | .nan => none

/-! ## Quotients -/

theorem ratio_den_pos (m : Nat) (e : Int) : 0 < (ratio m e).2 := by
  unfold ratio
  split
  · exact Nat.one_pos
  · rw [Nat.one_shiftLeft]
    exact Nat.two_pow_pos _

/-- The quotient of naturals is the magnitude of the dyadic. -/
theorem magnitude_eq (m : Nat) (e : Int) :
    (m * 2 ^ e : ℝ) = (ratio m e).1 / (ratio m e).2 := by
  unfold ratio
  split
  · rename_i he
    obtain ⟨k, rfl⟩ := Int.eq_ofNat_of_zero_le he
    simp [Nat.shiftLeft_eq]
  · rename_i he
    obtain ⟨k, rfl⟩ : ∃ k : Nat, e = -(k : Int) := ⟨(-e).toNat, by omega⟩
    simp [Nat.one_shiftLeft, div_eq_mul_inv]

theorem signedRatio_den_pos (s : Bool) (m : Nat) (e : Int) : 0 < (signedRatio s m e).2 :=
  ratio_den_pos m e

theorem dyadic_eq (s : Bool) (m : Nat) (e : Int) :
    dyadic s m e = (signedRatio s m e).1 / (signedRatio s m e).2 := by
  unfold dyadic signedRatio
  rw [magnitude_eq]
  cases s with
  | false => simp
  | true => simp [neg_div]

/-! ## Order, floor and bounds -/

/-- **The order of doubles is that of the numbers they stand for.** -/
theorem lt_iff {a b : Binary64} :
    a.lt b = true ↔ ∃ x y, a.value? = some x ∧ b.value? = some y ∧ x < y := by
  cases a with
  | nan => simp [lt, value?]
  | infinite s =>
    cases b with
    | nan => simp [lt, value?]
    | infinite t => cases s <;> cases t <;> simp [lt, value?]
    | finite t n f => cases s <;> simp [lt, value?]
  | finite s m e =>
    cases b with
    | nan => simp [lt, value?]
    | infinite t => cases t <;> simp [lt, value?]
    | finite t n f =>
      have ha : (0 : ℝ) < (signedRatio s m e).2 := Nat.cast_pos.2 (signedRatio_den_pos s m e)
      have hb : (0 : ℝ) < (signedRatio t n f).2 := Nat.cast_pos.2 (signedRatio_den_pos t n f)
      have hcross : (signedRatio s m e).1 * ((signedRatio t n f).2 : Int) <
          (signedRatio t n f).1 * ((signedRatio s m e).2 : Int) ↔ dyadic s m e < dyadic t n f := by
        rw [dyadic_eq, dyadic_eq, div_lt_div_iff₀ ha hb]
        exact_mod_cast Iff.rfl
      simp only [lt, value?, decide_eq_true_eq, hcross, Option.some.injEq]
      constructor
      · intro h
        exact ⟨_, _, rfl, rfl, EReal.coe_lt_coe_iff.2 h⟩
      · rintro ⟨_, _, rfl, rfl, h⟩
        exact EReal.coe_lt_coe_iff.1 h

/-- **The greatest integer up to a double** is the floor of its number; only finite doubles have
one. -/
theorem floor?_eq_some_iff {a : Binary64} {k : Int} :
    a.floor? = some k ↔ ∃ r : ℝ, a.value? = some (r : EReal) ∧ ⌊r⌋ = k := by
  cases a with
  | nan => simp [floor?, value?]
  | infinite s => cases s <;> simp [floor?, value?]
  | finite s m e =>
    have hfloor : ⌊dyadic s m e⌋ = (signedRatio s m e).1 / ((signedRatio s m e).2 : Int) := by
      rw [dyadic_eq, Int.floor_div_natCast, Int.floor_intCast]
    simp only [floor?, value?, Option.some.injEq, EReal.coe_eq_coe_iff, ← hfloor]
    simp

/-- **A double exceeds a bound** if the magnitude of its number does. -/
theorem exceeds_iff {a : Binary64} {r : ℝ} (h : a.value? = some (r : EReal)) {bound : Nat} :
    a.exceeds bound = true ↔ (bound : ℝ) < |r| := by
  cases a with
  | nan => simp [value?] at h
  | infinite s => cases s <;> simp [value?] at h
  | finite s m e =>
    simp only [value?, Option.some.injEq, EReal.coe_eq_coe_iff] at h
    subst h
    have hden : (0 : ℝ) < (ratio m e).2 := Nat.cast_pos.2 (ratio_den_pos m e)
    have habs : |dyadic s m e| = (ratio m e).1 / (ratio m e).2 := by
      unfold dyadic
      have hnonneg : (0 : ℝ) ≤ m * 2 ^ e :=
        mul_nonneg (Nat.cast_nonneg m) (zpow_nonneg zero_le_two e)
      rw [abs_mul, ← magnitude_eq, abs_of_nonneg hnonneg]
      cases s <;> simp
    simp only [exceeds, decide_eq_true_eq]
    rw [habs, lt_div_iff₀ hden]
    exact_mod_cast Iff.rfl

end MatchTree.Binary64
