import Mathlib.Algebra.BigOperators.Group.List.Basic
import Mathlib.Data.List.Nodup
import MatchTree.Grid.Box

/-!
# The tuples of a box

Principal results: `mem_tuples`, `nodup_tuples`, `length_tuples` — a box lists each of its tuples
once, as many as the sizes of its runs multiply to; `meet?_eq_none_iff` — boxes meet exactly if they
share a tuple.
-/

namespace MatchTree

/-! ## Runs -/

namespace CodeRun

theorem contains_iff {r : CodeRun} {c : Code} :
    r.contains c = true ↔ r.first.toNat ≤ c.toNat ∧ c.toNat ≤ r.last.toNat := by
  simp [contains, UInt16.le_iff_toNat_le]

theorem toNat_code {r : CodeRun} {i : Nat} (hi : i < r.size) :
    (UInt16.ofNat (r.first.toNat + i)).toNat = r.first.toNat + i := by
  have hlast := r.last.toNat_lt
  unfold size at hi
  rw [UInt16.toNat_ofNat', Nat.mod_eq_of_lt (by omega)]

theorem mem_codes {r : CodeRun} {c : Code} : c ∈ r.codes ↔ r.contains c = true := by
  rw [contains_iff, codes, List.mem_map]
  constructor
  · rintro ⟨i, hi, rfl⟩
    have hi := List.mem_range.1 hi
    rw [toNat_code hi]
    unfold size at hi
    omega
  · rintro ⟨hfirst, hlast⟩
    have hi : c.toNat - r.first.toNat < r.size := by
      unfold size
      omega
    refine ⟨_, List.mem_range.2 hi, UInt16.toNat_inj.1 ?_⟩
    rw [toNat_code hi]
    omega

theorem nodup_codes (r : CodeRun) : r.codes.Nodup := by
  refine List.Nodup.map_on (fun i hi j hj hij => ?_) List.nodup_range
  have := congrArg UInt16.toNat hij
  rw [toNat_code (List.mem_range.1 hi), toNat_code (List.mem_range.1 hj)] at this
  omega

theorem length_codes (r : CodeRun) : r.codes.length = r.size := by simp [codes]

end CodeRun

/-! ## Boxes -/

namespace CodeBox

/-- **The tuples of a box are those with a code from each run.** -/
theorem mem_tuples {b : CodeBox} {codes : List Code} :
    codes ∈ b.tuples ↔ b.contains codes = true := by
  induction b generalizing codes with
  | nil => cases codes <;> simp [tuples, contains]
  | cons run b ih =>
    simp only [tuples, List.mem_flatMap, List.mem_map, CodeRun.mem_codes]
    cases codes with
    | nil => simp [contains]
    | cons c cs =>
      rw [contains, Bool.and_eq_true, ← ih]
      constructor
      · rintro ⟨d, hd, ds, hds, heq⟩
        cases heq
        exact ⟨hd, hds⟩
      · rintro ⟨hc, hcs⟩
        exact ⟨c, hc, cs, hcs, rfl⟩

/-- **No tuple is listed twice.** -/
theorem nodup_tuples (b : CodeBox) : b.tuples.Nodup := by
  induction b with
  | nil => exact List.nodup_singleton _
  | cons run b ih =>
    rw [tuples, List.nodup_flatMap]
    refine ⟨fun c _ => ih.map fun _ _ heq => (List.cons.inj heq).2, ?_⟩
    refine (run.nodup_codes).imp fun {c d} hne => ?_
    intro codes hc hd
    obtain ⟨cs, -, rfl⟩ := List.mem_map.1 hc
    obtain ⟨ds, -, heq⟩ := List.mem_map.1 hd
    exact hne (List.cons.inj heq).1.symm

/-- There are as many tuples as the product of the runs' sizes tells. -/
theorem length_tuples (b : CodeBox) : b.tuples.length = (b.map CodeRun.size).prod := by
  induction b with
  | nil => rfl
  | cons run b ih => simp [tuples, List.length_flatMap, ih, CodeRun.length_codes]

theorem length_eq_of_contains {b : CodeBox} {codes : List Code} (h : b.contains codes = true) :
    codes.length = b.length := by
  induction b generalizing codes with
  | nil =>
    cases codes with
    | nil => rfl
    | cons c cs => simp [contains] at h
  | cons run b ih =>
    cases codes with
    | nil => simp [contains] at h
    | cons c cs =>
      rw [contains, Bool.and_eq_true] at h
      rw [List.length_cons, List.length_cons, ih h.2]

/-- **Boxes that do not meet share no tuple.** -/
theorem disjoint_of_meet? {b c : CodeBox} (h : b.meet? c = none) {codes : List Code}
    (hb : b.contains codes = true) : c.contains codes = false := by
  induction b generalizing c codes with
  | nil =>
    cases codes with
    | cons _ _ => simp [contains] at hb
    | nil =>
      cases c with
      | nil => simp [meet?] at h
      | cons _ _ => rfl
  | cons r b ih =>
    cases codes with
    | nil => simp [contains] at hb
    | cons code codes =>
      cases c with
      | nil => rfl
      | cons s c =>
        rw [contains, Bool.and_eq_true, CodeRun.contains_iff] at hb
        obtain ⟨hcode, hcodes⟩ := hb
        rw [contains, Bool.and_eq_false_iff]
        by_cases hs : s.contains code = true
        · rw [CodeRun.contains_iff] at hs
          have hle : (if r.first < s.first then s.first else r.first) ≤
              (if r.last < s.last then r.last else s.last) := by
            rw [UInt16.le_iff_toNat_le]
            split <;> split <;> omega
          simp only [meet?, if_pos hle, Option.map_eq_none_iff] at h
          exact Or.inr (ih h hcodes)
        · exact Or.inl (by simpa using hs)

/-- The first tuple that two boxes share lies in both. -/
theorem contains_least_of_meet? {b c d : CodeBox} (h : b.meet? c = some d) :
    b.contains d.least = true ∧ c.contains d.least = true := by
  induction b generalizing c d with
  | nil =>
    cases c with
    | nil => cases h; exact ⟨rfl, rfl⟩
    | cons s c => cases h
  | cons r b ih =>
    cases c with
    | nil => cases h
    | cons s c =>
      by_cases hle : (if r.first < s.first then s.first else r.first) ≤
          (if r.last < s.last then r.last else s.last)
      · simp only [meet?, if_pos hle, Option.map_eq_some_iff] at h
        obtain ⟨d, hd, rfl⟩ := h
        obtain ⟨hb, hc⟩ := ih hd
        have hleast : ∀ run : CodeRun, least (run :: d) = run.first :: least d := fun _ => rfl
        rw [hleast, contains, contains, hb, hc, Bool.and_true, Bool.and_true,
          CodeRun.contains_iff, CodeRun.contains_iff]
        have hmax : r.first.toNat ≤ (if r.first < s.first then s.first else r.first).toNat ∧
            s.first.toNat ≤ (if r.first < s.first then s.first else r.first).toNat := by
          simp only [UInt16.lt_iff_toNat_lt]
          split <;> omega
        have hmin : (if r.last < s.last then r.last else s.last).toNat ≤ r.last.toNat ∧
            (if r.last < s.last then r.last else s.last).toNat ≤ s.last.toNat := by
          simp only [UInt16.lt_iff_toNat_lt]
          split <;> omega
        rw [UInt16.le_iff_toNat_le] at hle
        dsimp only
        omega
      · simp only [meet?, if_neg hle] at h
        cases h

/-- **Boxes meet exactly if they share a tuple.** -/
theorem meet?_eq_none_iff {b c : CodeBox} :
    b.meet? c = none ↔ ∀ codes, b.contains codes = true → c.contains codes = false := by
  refine ⟨fun h codes => disjoint_of_meet? h, fun h => ?_⟩
  cases hmeet : b.meet? c with
  | none => rfl
  | some d =>
    obtain ⟨hb, hc⟩ := contains_least_of_meet? hmeet
    rw [h _ hb] at hc
    cases hc

/-- A box whose runs all have codes holds its first tuple. -/
theorem contains_least {b : CodeBox} (h : ∀ run ∈ b, run.first.toNat ≤ run.last.toNat) :
    b.contains b.least = true := by
  induction b with
  | nil => rfl
  | cons run b ih =>
    obtain ⟨hrun, hrest⟩ := List.forall_mem_cons.1 h
    have hleast : least (run :: b) = run.first :: least b := rfl
    rw [hleast, contains, Bool.and_eq_true, CodeRun.contains_iff]
    exact ⟨⟨Nat.le_refl _, hrun⟩, ih hrest⟩

end CodeBox

end MatchTree
