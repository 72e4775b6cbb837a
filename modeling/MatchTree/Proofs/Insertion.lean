import MatchTree.Proofs.CodeTable
import MatchTree.Proofs.Odometer

/-!
# Filling a table row by row

* `Clash.IsFirst` — the first tuple of a placement that an earlier one has as well, with the first
  of the placements that have it.
* `Shelf` — the rows so far, and where the row of each tuple stands.
* `Shelf.insert` — a row is added, unless there is one with its tuple.
* `Shelf.fill` — the rows of placements are added one by one.

Principal results: `isFirst_clashWith?` — comparing whole boxes finds the first tuple that is there
already; `insert_holding` — a row that is looked up is there; `foldlM_insert_rows`, `fill_eq` —
going row by row ends with all rows, or with the clash that the comparison of boxes finds.
-/

namespace MatchTree

open Guarded

/-! ## The first tuple that two boxes share -/

namespace CodeBox

/-- No tuple that two boxes share comes before the least one. -/
theorem not_lt_least_of_meet? {b c d : CodeBox} (h : b.meet? c = some d) {codes : List Code}
    (hb : b.contains codes = true) (hc : c.contains codes = true) : ¬ codes < d.least := by
  induction b generalizing c d codes with
  | nil =>
    cases c with
    | nil =>
      cases h
      exact List.not_lt_nil codes
    | cons s c => cases h
  | cons r b ih =>
    cases c with
    | nil => cases h
    | cons s c =>
      cases codes with
      | nil => cases hb
      | cons code codes =>
        rw [contains, Bool.and_eq_true, CodeRun.contains_iff] at hb hc
        by_cases hle : (if r.first < s.first then s.first else r.first) ≤
            (if r.last < s.last then r.last else s.last)
        · simp only [meet?, if_pos hle, Option.map_eq_some_iff] at h
          obtain ⟨d, hd, rfl⟩ := h
          have hrest := ih hd hb.2 hc.2
          rw [least_cons, List.cons_lt_cons_iff]
          rintro (hlt | ⟨-, hlt⟩)
          · have hmax : (if r.first < s.first then s.first else r.first).toNat ≤ code.toNat := by
              split <;> omega
            rw [UInt16.lt_iff_toNat_lt] at hlt
            exact absurd hlt (Nat.not_lt_of_le hmax)
          · exact hrest hlt
        · simp only [meet?, if_neg hle] at h
          cases h

end CodeBox

/-- The clash is at the first tuple of the placement that an earlier one has as well, and with the
first of the placements that have it. -/
structure Clash.IsFirst (clash : Clash) (earlier : List Placement) (p : Placement) : Prop where
  second_eq : clash.second = p
  first : earlier.find? (fun q => q.box.contains clash.codes) = some clash.first
  mem : p.box.contains clash.codes = true
  least : ∀ q ∈ earlier, ∀ codes, p.box.contains codes = true → q.box.contains codes = true →
    ¬ codes < clash.codes

theorem clashWith?_append (earlier : List Placement) (p q : Placement) :
    clashWith? (earlier ++ [q]) p = betterClash p (clashWith? earlier p) q := by
  rw [clashWith?, List.foldl_append]
  rfl

/-- A placement that shares nothing lesser changes nothing. -/
theorem Clash.IsFirst.append {clash : Clash} {earlier : List Placement} {p q : Placement}
    (h : clash.IsFirst earlier p)
    (hq : ∀ codes, p.box.contains codes = true → q.box.contains codes = true →
      ¬ codes < clash.codes) : clash.IsFirst (earlier ++ [q]) p := by
  refine ⟨h.second_eq, ?_, h.mem, ?_⟩
  · rw [List.find?_append, h.first, Option.some_or]
  · intro q' hq' codes hp hq''
    rcases List.mem_append.1 hq' with hq' | hq'
    · exact h.least q' hq' codes hp hq''
    · obtain rfl := List.mem_singleton.1 hq'
      exact hq codes hp hq''

/-- What the last placement shares is the first clash if the others have nothing up to it. -/
theorem Clash.isFirst_last {earlier : List Placement} {p q : Placement} {shared : CodeBox}
    (hmeet : p.box.meet? q.box = some shared)
    (hnone : ∀ q' ∈ earlier, q'.box.contains shared.least = false)
    (hleast : ∀ q' ∈ earlier, ∀ codes, p.box.contains codes = true →
      q'.box.contains codes = true → ¬ codes < shared.least) :
    Clash.IsFirst ⟨shared.least, q, p⟩ (earlier ++ [q]) p := by
  obtain ⟨hp, hq⟩ := CodeBox.contains_least_of_meet? hmeet
  have hfind : earlier.find? (fun q' => q'.box.contains shared.least) = none := by
    rw [List.find?_eq_none]
    intro q' hq'
    rw [hnone q' hq']
    exact Bool.false_ne_true
  refine ⟨rfl, ?_, hp, ?_⟩
  · show (earlier ++ [q]).find? (fun q' => q'.box.contains shared.least) = some q
    rw [List.find?_append, hfind, Option.none_or, List.find?_singleton, if_pos hq]
  · intro q' hq' codes hp' hq''
    rcases List.mem_append.1 hq' with hq' | hq'
    · exact hleast q' hq' codes hp' hq''
    · obtain rfl := List.mem_singleton.1 hq'
      exact CodeBox.not_lt_least_of_meet? hmeet hp' hq''

/-- **Comparing whole boxes finds the first tuple that is there already.** -/
theorem isFirst_clashWith? {earlier : List Placement} {p : Placement} {clash : Clash}
    (h : clashWith? earlier p = some clash) : clash.IsFirst earlier p := by
  induction earlier using List.reverseRecOn generalizing clash with
  | nil => cases h
  | append_singleton earlier q ih =>
    rw [clashWith?_append] at h
    unfold betterClash at h
    cases hmeet : p.box.meet? q.box with
    | none =>
      rw [hmeet] at h
      apply (ih h).append
      intro codes hp hq
      rw [CodeBox.disjoint_of_meet? hmeet hp] at hq
      cases hq
    | some shared =>
      rw [hmeet] at h
      have hp := (CodeBox.contains_least_of_meet? hmeet).1
      cases hbest : clashWith? earlier p with
      | none =>
        rw [hbest] at h
        cases h
        have hdisjoint : ∀ q' ∈ earlier, ∀ codes, p.box.contains codes = true →
            q'.box.contains codes = false := by
          intro q' hq' codes
          exact CodeBox.disjoint_of_meet? (clashWith?_eq_none_iff.1 hbest q' hq')
        apply Clash.isFirst_last hmeet
        · exact fun q' hq' => hdisjoint q' hq' _ hp
        · intro q' hq' codes hp' hq''
          rw [hdisjoint q' hq' codes hp'] at hq''
          cases hq''
      | some best =>
        rw [hbest] at h
        have hfirst := ih hbest
        dsimp only at h
        split at h
        · -- what `q` shares comes before all that the others share
          rename_i hlt
          cases h
          apply Clash.isFirst_last hmeet
          · intro q' hq'
            rw [Bool.eq_false_iff]
            exact fun hq'' => hfirst.least q' hq' _ hp hq'' hlt
          · intro q' hq' codes hp' hq'' hcodes
            exact hfirst.least q' hq' codes hp' hq'' (List.lt_trans hcodes hlt)
        · rename_i hnlt
          cases h
          apply hfirst.append
          intro codes hp' hq
          have hnot := CodeBox.not_lt_least_of_meet? hmeet hp' hq
          rw [List.not_lt] at hnot hnlt ⊢
          exact List.le_trans hnlt hnot

/-! ## Rows one by one -/

/-- The rows so far, and where the row of each tuple stands. -/
structure Shelf where
  rows : List Row
  index : List (List Code × Nat)

namespace Shelf

/-- The fault of a row whose tuple has a row already. -/
def ambiguous (first second : Row) : Fault :=
  .ambiguous second.codes first.route first.verdict second.route second.verdict

/-- Adds a row, unless there is one with its tuple. -/
def insert (s : Shelf) (row : Row) : Guarded Shelf :=
  match s.index.lookup row.codes with
  | some k => do
    let first ← item s.rows k
    .error (.fault (ambiguous first row))
  | none => .ok ⟨s.rows ++ [row], s.index ++ [(row.codes, s.rows.length)]⟩

/-- The shelf with the given rows. -/
def holding (rows : List Row) : Shelf := ⟨rows, rows.zipIdx.map fun (row, k) => (row.codes, k)⟩

theorem lookup_zipIdx (rows : List Row) (start : Nat) (codes : List Code) :
    match rows.find? fun row => codes == row.codes with
    | some first => ∃ k, ((rows.zipIdx start).map fun x => (x.1.codes, x.2)).lookup codes =
        some (start + k) ∧ rows[k]? = some first
    | none => ((rows.zipIdx start).map fun x => (x.1.codes, x.2)).lookup codes = none := by
  induction rows generalizing start with
  | nil => rfl
  | cons row rows ih =>
    rw [List.zipIdx_cons, List.map_cons, List.lookup_cons, List.find?_cons]
    cases hcodes : codes == row.codes with
    | true => exact ⟨0, rfl, rfl⟩
    | false =>
      have hrest := ih (start + 1)
      cases hfind : rows.find? fun row => codes == row.codes with
      | none =>
        rw [hfind] at hrest
        exact hrest
      | some first =>
        rw [hfind] at hrest
        obtain ⟨k, hk, hget⟩ := hrest
        exact ⟨k + 1, by rw [← Nat.add_assoc, Nat.add_right_comm]; exact hk, hget⟩

/-- **A row that is looked up is there**: it is the first one with the tuple. -/
theorem insert_holding (rows : List Row) (row : Row) :
    (holding rows).insert row =
      match rows.find? fun first => row.codes == first.codes with
      | some first => .error (.fault (ambiguous first row))
      | none => .ok (holding (rows ++ [row])) := by
  have hlookup := lookup_zipIdx rows 0 row.codes
  cases hfind : rows.find? fun first => row.codes == first.codes with
  | none =>
    rw [hfind] at hlookup
    unfold insert holding
    dsimp only at hlookup ⊢
    rw [hlookup, List.zipIdx_append, List.map_append, Nat.zero_add]
    rfl
  | some first =>
    rw [hfind] at hlookup
    obtain ⟨k, hk, hget⟩ := hlookup
    rw [Nat.zero_add] at hk
    unfold insert holding
    dsimp only
    rw [hk]
    dsimp only
    rw [item_eq_ok hget]
    rfl

/-- Rows with new tuples, no two of them the same, are all added. -/
theorem foldlM_insert_eq_ok {rows new : List Row}
    (hnew : ∀ row ∈ new, row.codes ∉ rows.map (·.codes)) (hnodup : (new.map (·.codes)).Nodup) :
    new.foldlM insert (holding rows) = .ok (holding (rows ++ new)) := by
  induction new generalizing rows with
  | nil =>
    rw [List.append_nil]
    rfl
  | cons row new ih =>
    obtain ⟨hrow, hnew⟩ := List.forall_mem_cons.1 hnew
    rw [List.map_cons, List.nodup_cons] at hnodup
    have hfind : rows.find? (fun first => row.codes == first.codes) = none := by
      rw [List.find?_eq_none]
      intro first hfirst heq
      exact hrow (List.mem_map.2 ⟨first, hfirst, (beq_iff_eq.1 heq).symm⟩)
    have hinsert := insert_holding rows row
    rw [hfind] at hinsert
    rw [List.foldlM_cons, hinsert]
    refine (ih (fun later hlater => ?_) hnodup.2).trans (by rw [List.append_assoc]; rfl)
    rw [List.map_append, List.mem_append, not_or]
    refine ⟨hnew later hlater, fun hmem => ?_⟩
    have hsame : later.codes = row.codes := by simpa using hmem
    exact hnodup.1 (List.mem_map.2 ⟨later, hlater, hsame⟩)

theorem find?_rows (p : Placement) (codes : List Code) :
    p.rows.find? (fun row => codes == row.codes) =
      if p.box.contains codes then some ⟨codes, p.verdict, p.route⟩ else none := by
  rw [Placement.rows, List.find?_map]
  have hcomp : ((fun row : Row => codes == row.codes) ∘ fun cs => ⟨cs, p.verdict, p.route⟩) =
      (codes == ·) := rfl
  rw [hcomp]
  split
  · rename_i hmem
    cases hfind : p.box.tuples.find? (codes == ·) with
    | none =>
      have hnot := List.find?_eq_none.1 hfind codes (CodeBox.mem_tuples.2 hmem)
      exact absurd (beq_self_eq_true codes) hnot
    | some found =>
      rw [← beq_iff_eq.1 (List.find?_some hfind)]
      rfl
  · rename_i hnot
    rw [Option.map_eq_none_iff, List.find?_eq_none]
    intro found hfound heq
    rw [beq_iff_eq.1 heq] at hnot
    exact hnot (CodeBox.mem_tuples.1 hfound)

/-- The first row with a tuple is that of the first placement that has the tuple. -/
theorem find?_flatMap_rows (ps : List Placement) (codes : List Code) :
    (ps.flatMap Placement.rows).find? (fun row => codes == row.codes) =
      (ps.find? fun q => q.box.contains codes).map fun q => ⟨codes, q.verdict, q.route⟩ := by
  induction ps with
  | nil => rfl
  | cons p ps ih =>
    rw [List.flatMap_cons, List.find?_append, find?_rows, ih, List.find?_cons]
    cases p.box.contains codes with
    | true => rfl
    | false => rfl

/-- The fault of a clash. -/
def faultOf (clash : Clash) : Fault :=
  .ambiguous clash.codes clash.first.route clash.first.verdict clash.second.route
    clash.second.verdict

/-- **Row by row, a placement is added, or ends with the clash that its box has with earlier
ones.** -/
theorem foldlM_insert_rows (earlier : List Placement) (p : Placement) :
    p.rows.foldlM insert (holding (earlier.flatMap Placement.rows)) =
      match clashWith? earlier p with
      | some clash => .error (.fault (faultOf clash))
      | none => .ok (holding ((earlier ++ [p]).flatMap Placement.rows)) := by
  have hcodes : (earlier.flatMap Placement.rows).map (·.codes) =
      earlier.flatMap fun q => q.box.tuples := by
    simp only [List.map_flatMap, Placement.map_codes_rows]
  cases hclash : clashWith? earlier p with
  | none =>
    have hmeet := clashWith?_eq_none_iff.1 hclash
    dsimp only
    rw [List.flatMap_append, List.flatMap_singleton]
    refine foldlM_insert_eq_ok (fun row hrow hmem => ?_) ?_
    · obtain ⟨codes, hp, rfl⟩ := List.mem_map.1 hrow
      rw [hcodes, List.mem_flatMap] at hmem
      obtain ⟨q, hq, hqcodes⟩ := hmem
      have hnot := CodeBox.disjoint_of_meet? (hmeet q hq) (CodeBox.mem_tuples.1 hp)
      rw [CodeBox.mem_tuples.1 hqcodes] at hnot
      cases hnot
    · rw [Placement.map_codes_rows]
      exact CodeBox.nodup_tuples _
  | some clash =>
    obtain ⟨rfl, hfirst, hmem, hleast⟩ := isFirst_clashWith? hclash
    obtain ⟨before, after, htuples⟩ := List.append_of_mem (CodeBox.mem_tuples.2 hmem)
    have hsorted := CodeBox.pairwise_tuples clash.second.box
    have hnodup := CodeBox.nodup_tuples clash.second.box
    rw [htuples] at hsorted hnodup
    -- the tuples before that of the clash are new
    have hnew : ∀ codes ∈ before, codes ∉ earlier.flatMap fun q => q.box.tuples := by
      intro codes hbefore hearlier
      obtain ⟨q, hq, hqcodes⟩ := List.mem_flatMap.1 hearlier
      have hlt := (List.pairwise_append.1 hsorted).2.2 codes hbefore _ List.mem_cons_self
      refine hleast q hq codes (CodeBox.mem_tuples.1 ?_) (CodeBox.mem_tuples.1 hqcodes) hlt
      rw [htuples]
      exact List.mem_append_left _ hbefore
    rw [Placement.rows, htuples, List.map_append, List.map_cons, List.foldlM_append,
      foldlM_insert_eq_ok]
    · show (insert _ _ >>= fun s => _) = _
      rw [insert_holding, List.find?_append, find?_flatMap_rows, hfirst]
      rfl
    · rw [List.forall_mem_map, hcodes]
      exact hnew
    · rw [List.map_map]
      have hid : ((fun row : Row => row.codes) ∘ fun codes =>
          ⟨codes, clash.second.verdict, clash.second.route⟩) = id := rfl
      rw [hid, List.map_id]
      exact (List.nodup_append.1 hnodup).1

/-- Adds the rows of placements, tuple by tuple. -/
def fill (s : Shelf) (ps : List Placement) : Guarded Shelf :=
  ps.foldlM (fun s p => p.rows.foldlM insert s) s

/-- **The rows of all placements are added, or there is the first clash.** -/
theorem fill_eq (earlier ps : List Placement) :
    (holding (earlier.flatMap Placement.rows)).fill ps =
      match firstClash? earlier ps with
      | some clash => .error (.fault (faultOf clash))
      | none => .ok (holding ((earlier ++ ps).flatMap Placement.rows)) := by
  induction ps generalizing earlier with
  | nil =>
    rw [List.append_nil]
    rfl
  | cons p ps ih =>
    rw [fill, List.foldlM_cons, foldlM_insert_rows, firstClash?]
    cases clashWith? earlier p with
    | some clash => rfl
    | none =>
      have hrest := ih (earlier ++ [p])
      rw [List.append_assoc, List.singleton_append] at hrest
      exact hrest

end Shelf

end MatchTree
