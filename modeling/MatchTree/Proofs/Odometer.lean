import Mathlib.Data.List.Induction
import MatchTree.Proofs.Traps
import MatchTree.Proofs.Tuples

/-!
# Stepping through a box

* `CodeBox.tuplesFrom` — the tuples of a box from a given one on.
* `CodeBox.tupleAfter?` — the next tuple: the last code that can go up does, and the codes after it
  start over.
* `CodeBox.advance` — the same by positions, from the last to the first, each look-up checked.
* `CodeBox.visit` — a loop that does something with a tuple and steps to the next, until there is
  none; `CodeBox.trail` — the tuples that it visits.

Principal results: `tuplesFrom_eq_cons` — a tuple, and then those from the next one on;
`advance_eq` — stepping by positions finds the next tuple and is never out of bounds;
`visit_eq`, `visit_least` — the loop is over after as many rounds as there are tuples, each visited
in turn; `pairwise_tuples` — the tuples are in lexicographic order; `visits_in_order` — so the loop
visits all tuples of a box, each once, in lexicographic order.
-/

namespace MatchTree

open Guarded

/-! ## Codes of a run -/

namespace CodeRun

/-- The codes of a run after a given one. -/
def after (run : CodeRun) (c : Code) : List Code :=
  (List.range (run.last.toNat - c.toNat)).map fun i => UInt16.ofNat (c.toNat + 1 + i)

variable {run : CodeRun} {c : Code}

theorem toNat_succ (h : c < run.last) : (c + 1).toNat = c.toNat + 1 := by
  have hlast := run.last.toNat_lt
  rw [UInt16.lt_iff_toNat_lt] at h
  rw [UInt16.toNat_add, UInt16.toNat_one, Nat.mod_eq_of_lt (by omega)]

theorem after_of_lt (h : c < run.last) : run.after c = (c + 1) :: run.after (c + 1) := by
  have hsucc := toNat_succ h
  rw [UInt16.lt_iff_toNat_lt] at h
  have hcount : run.last.toNat - c.toNat = run.last.toNat - (c + 1).toNat + 1 := by omega
  rw [after, hcount, List.range_succ_eq_map, List.map_cons, List.map_map, after]
  congr 1
  refine List.map_congr_left fun i _ => ?_
  show UInt16.ofNat (c.toNat + 1 + (i + 1)) = UInt16.ofNat ((c + 1).toNat + 1 + i)
  rw [hsucc]
  congr 1
  omega

theorem after_of_not_lt (h : ¬ c < run.last) : run.after c = [] := by
  rw [UInt16.lt_iff_toNat_lt] at h
  have hcount : run.last.toNat - c.toNat = 0 := by omega
  rw [after, hcount]
  rfl

/-- The codes of a run are the first one and those after it. -/
theorem codes_eq_cons (h : run.first.toNat ≤ run.last.toNat) :
    run.codes = run.first :: run.after run.first := by
  have hcount : run.size = run.last.toNat - run.first.toNat + 1 := by
    unfold size
    omega
  rw [codes, hcount, List.range_succ_eq_map, List.map_cons, List.map_map, after, Nat.add_zero,
    UInt16.ofNat_toNat]
  congr 1
  refine List.map_congr_left fun i _ => ?_
  show UInt16.ofNat (run.first.toNat + (i + 1)) = UInt16.ofNat (run.first.toNat + 1 + i)
  congr 1
  omega

theorem pairwise_codes (run : CodeRun) : run.codes.Pairwise (· < ·) := by
  rw [codes, List.pairwise_map]
  refine List.pairwise_lt_range.imp_of_mem fun {i j} hi hj hij => ?_
  rw [UInt16.lt_iff_toNat_lt, toNat_code (List.mem_range.1 hi), toNat_code (List.mem_range.1 hj)]
  omega

end CodeRun

namespace CodeBox

variable {box : CodeBox} {codes : List Code}

/-! ## Tuples in their order -/

theorem least_cons (run : CodeRun) (box : CodeBox) : least (run :: box) = run.first :: least box :=
  rfl

theorem length_least (box : CodeBox) : box.least.length = box.length :=
  List.length_map _

/-- **The tuples of a box are in lexicographic order.** -/
theorem pairwise_tuples (box : CodeBox) : box.tuples.Pairwise (· < ·) := by
  induction box with
  | nil => exact List.pairwise_singleton _ _
  | cons run box ih =>
    rw [tuples, List.pairwise_flatMap]
    constructor
    · intro c _
      rw [List.pairwise_map]
      exact ih.imp fun h => List.cons_lt_cons_iff.2 (Or.inr ⟨rfl, h⟩)
    · refine run.pairwise_codes.imp fun {c d} hlt codes hc codes' hd => ?_
      obtain ⟨cs, -, rfl⟩ := List.mem_map.1 hc
      obtain ⟨ds, -, rfl⟩ := List.mem_map.1 hd
      exact List.cons_lt_cons_iff.2 (Or.inl hlt)

/-- The tuples from a given one on: those with the same first code, and those with a later one. -/
def tuplesFrom : CodeBox → List Code → List (List Code)
  | run :: box, c :: cs =>
    (tuplesFrom box cs).map (c :: ·) ++ (run.after c).flatMap fun d => (tuples box).map (d :: ·)
  | _, _ => [[]]

theorem tuplesFrom_least (h : ∀ run ∈ box, run.first.toNat ≤ run.last.toNat) :
    box.tuplesFrom box.least = box.tuples := by
  induction box with
  | nil => rfl
  | cons run box ih =>
    obtain ⟨hrun, hbox⟩ := List.forall_mem_cons.1 h
    rw [least_cons, tuplesFrom, ih hbox, tuples, CodeRun.codes_eq_cons hrun, List.flatMap_cons]

/-- The next tuple, if there is one: the last code that can go up does, and the codes after it start
over. -/
def tupleAfter? : CodeBox → List Code → Option (List Code)
  | run :: box, c :: cs =>
    match tupleAfter? box cs with
    | some ds => some (c :: ds)
    | none => if c < run.last then some ((c + 1) :: least box) else none
  | _, _ => none

theorem length_of_tupleAfter? {next : List Code} (hlength : codes.length = box.length)
    (h : box.tupleAfter? codes = some next) : next.length = box.length := by
  induction box generalizing codes next with
  | nil => cases codes <;> cases h
  | cons run box ih =>
    cases codes with
    | nil => cases hlength
    | cons c cs =>
      rw [tupleAfter?] at h
      split at h
      · rename_i ds hds
        cases h
        rw [List.length_cons, List.length_cons, ih (Nat.succ.inj hlength) hds]
      · split at h
        · cases h
          rw [List.length_cons, List.length_cons, length_least]
        · cases h

/-- **The tuples from a given one on are that tuple and those from the next one on.** -/
theorem tuplesFrom_eq_cons (h : ∀ run ∈ box, run.first.toNat ≤ run.last.toNat)
    (hlength : codes.length = box.length) :
    box.tuplesFrom codes = codes :: (box.tupleAfter? codes).elim [] box.tuplesFrom := by
  induction box generalizing codes with
  | nil =>
    obtain rfl := List.length_eq_zero_iff.1 hlength
    rfl
  | cons run box ih =>
    cases codes with
    | nil => cases hlength
    | cons c cs =>
      obtain ⟨-, hbox⟩ := List.forall_mem_cons.1 h
      have hcs := ih hbox (Nat.succ.inj hlength)
      rw [tuplesFrom, hcs, tupleAfter?]
      cases hnext : tupleAfter? box cs with
      | some ds => rfl
      | none =>
        by_cases hlt : c < run.last
        · rw [if_pos hlt, CodeRun.after_of_lt hlt, List.flatMap_cons]
          show (c :: cs) :: _ = (c :: cs) :: tuplesFrom (run :: box) ((c + 1) :: least box)
          rw [tuplesFrom, tuplesFrom_least hbox]
          rfl
        · rw [if_neg hlt, CodeRun.after_of_not_lt hlt]
          rfl

theorem tuplesFrom_ne_nil (box : CodeBox) (codes : List Code) : box.tuplesFrom codes ≠ [] := by
  induction box generalizing codes with
  | nil => simp [tuplesFrom]
  | cons run box ih =>
    cases codes with
    | nil => simp [tuplesFrom]
    | cons c cs => simp [tuplesFrom, ih]

/-! ## Stepping by positions -/

/-- A step from the given position down: a code that can go up does, and one that cannot starts over
and leaves the step to the position before it. -/
def advance (box : CodeBox) : Nat → List Code → Guarded (Option (List Code))
  | 0, _ => .ok none
  | position + 1, current => do
    let c ← item current position
    let run ← item box position
    if c < run.last then do
      let d ← codeAfter c
      return some (← update current position fun _ => d)
    else advance box position (← update current position fun _ => run.first)

theorem tupleAfter?_append_singleton {run : CodeRun} {c : Code}
    (hlength : codes.length = box.length) :
    tupleAfter? (box ++ [run]) (codes ++ [c]) =
      if c < run.last then some (codes ++ [c + 1])
      else (tupleAfter? box codes).map (· ++ [run.first]) := by
  induction box generalizing codes with
  | nil =>
    obtain rfl := List.length_eq_zero_iff.1 hlength
    rfl
  | cons first box ih =>
    cases codes with
    | nil => cases hlength
    | cons d ds =>
      rw [List.cons_append, List.cons_append, tupleAfter?, ih (Nat.succ.inj hlength), tupleAfter?]
      by_cases hlt : c < run.last
      · rw [if_pos hlt, if_pos hlt]
        rfl
      · rw [if_neg hlt, if_neg hlt]
        cases tupleAfter? box ds with
        | some es => rfl
        | none =>
          by_cases hd : d < first.last
          · simp [hd, least]
          · simp [hd]

/-- **Stepping by positions finds the next tuple** and stays in bounds. The codes from the position
on have started over. -/
theorem advance_append {later : CodeBox} (hlength : codes.length = box.length) :
    advance (box ++ later) box.length (codes ++ least later) =
      .ok ((tupleAfter? box codes).map (· ++ least later)) := by
  induction box using List.reverseRecOn generalizing codes later with
  | nil =>
    obtain rfl := List.length_eq_zero_iff.1 hlength
    rfl
  | append_singleton box run ih =>
    obtain rfl | ⟨cs, c, rfl⟩ := List.eq_nil_or_concat codes
    · simp at hlength
    rw [List.concat_eq_append] at hlength ⊢
    have hlength : cs.length = box.length := by simpa using hlength
    have hrun := item_append box run later
    have hcode := item_append cs c (least later)
    have hupdate : ∀ d, update (cs ++ c :: least later) cs.length (fun _ => d) =
        .ok (cs ++ d :: least later) := fun d => update_append cs c (least later) fun _ => d
    rw [hlength] at hcode hupdate
    rw [List.append_assoc, List.append_assoc, List.singleton_append, List.singleton_append,
      List.length_append, List.length_singleton, advance, tupleAfter?_append_singleton hlength]
    by_cases hlt : c < run.last
    · simp only [hcode, hrun, bind, Except.bind, if_pos hlt, codeAfter_eq_ok hlt, hupdate]
      simp [pure, Except.pure]
    · simp only [hcode, hrun, bind, Except.bind, if_neg hlt, hupdate]
      have hrest := @ih cs (run :: later) hlength
      rw [least_cons] at hrest
      rw [hrest]
      cases tupleAfter? box cs <;> simp

/-- A step from the end. -/
theorem advance_eq (hlength : codes.length = box.length) :
    advance box codes.length codes = .ok (tupleAfter? box codes) := by
  have hstep := @advance_append box codes [] hlength
  have hleast : least [] = [] := rfl
  rw [hleast, List.append_nil, List.append_nil] at hstep
  rw [hlength, hstep]
  simp

/-! ## The loop -/

variable {σ : Type} {f : σ → List Code → Guarded σ} {s : σ}

/-- Does something with a tuple and steps to the next, until there is none. -/
def visit (f : σ → List Code → Guarded σ) (box : CodeBox) : Nat → σ → List Code → Guarded σ
  | 0, _, _ => .error (.trap .endless)
  | rounds + 1, s, current => do
    let s ← f s current
    match ← advance box current.length current with
    | none => return s
    | some next => visit f box rounds s next

/-- **The loop takes a round for each tuple from the given one on**, and does something with each
of them in turn. With fewer rounds it gets as many tuples far and is not over. -/
theorem visit_eq (h : ∀ run ∈ box, run.first.toNat ≤ run.last.toNat)
    (hlength : codes.length = box.length) (rounds : Nat) :
    visit f box rounds s codes = (do
      let s ← ((box.tuplesFrom codes).take rounds).foldlM f s
      if (box.tuplesFrom codes).length ≤ rounds then .ok s else .error (.trap .endless)) := by
  induction rounds generalizing s codes with
  | zero =>
    have hpos := List.length_pos_of_ne_nil (tuplesFrom_ne_nil box codes)
    rw [List.take_zero, List.foldlM_nil, pure_bind, if_neg (Nat.not_le.2 hpos)]
    rfl
  | succ rounds ih =>
    rw [visit, tuplesFrom_eq_cons h hlength, List.take_succ_cons, List.foldlM_cons]
    cases f s codes with
    | error halt => rfl
    | ok s' =>
      simp only [bind, Except.bind, advance_eq hlength]
      cases hnext : tupleAfter? box codes with
      | none => simp [pure, Except.pure]
      | some next =>
        simp only [ih (length_of_tupleAfter? hlength hnext), Option.elim_some, List.length_cons,
          Nat.add_le_add_iff_right]
        rfl

/-- **The loop is over after as many rounds as there are tuples**, and does something with each of
them in turn. -/
theorem visit_least (h : ∀ run ∈ box, run.first.toNat ≤ run.last.toNat) {rounds : Nat}
    (hrounds : box.tuples.length ≤ rounds) :
    visit f box rounds s box.least = box.tuples.foldlM f s := by
  rw [visit_eq h (length_least box), tuplesFrom_least h, List.take_of_length_le hrounds]
  simp only [if_pos hrounds]
  exact bind_pure _

/-! ## The tuples that the loop visits -/

/-- The tuples that the loop visits one after another, if it is over within the given rounds. -/
def trail (box : CodeBox) (rounds : Nat) : Guarded (List (List Code)) :=
  visit (fun seen codes => .ok (seen ++ [codes])) box rounds [] box.least

/-- **The loop visits the tuples in their order**, and is over after a round for each of them. -/
theorem trail_eq (h : ∀ run ∈ box, run.first.toNat ≤ run.last.toNat) (rounds : Nat) :
    box.trail rounds =
      if box.tuples.length ≤ rounds then .ok box.tuples else .error (.trap .endless) := by
  have hseen : ∀ tuples : List (List Code), tuples.foldlM (m := Guarded)
      (fun seen codes => .ok (seen ++ [codes])) [] = .ok tuples := by
    intro tuples
    show tuples.foldlM (fun seen codes => pure (seen ++ [codes])) [] = _
    rw [List.foldlM_pure, List.foldl_append_eq_append, List.nil_append, ← List.flatMap_def,
      List.flatMap_singleton']
    rfl
  rw [trail, visit_eq h (length_least box), tuplesFrom_least h, hseen]
  show (if box.tuples.length ≤ rounds then Except.ok (box.tuples.take rounds) else _) = _
  split
  · rename_i hrounds
    rw [List.take_of_length_le hrounds]
  · rfl

theorem contains_iff : box.contains codes = true ↔
    List.Forall₂ (fun run c => run.first ≤ c ∧ c ≤ run.last) box codes := by
  induction box generalizing codes with
  | nil => cases codes <;> simp [contains]
  | cons run box ih =>
    cases codes with
    | nil => simp [contains]
    | cons c cs => simp [contains, CodeRun.contains, ih]

/-- **The loop visits the tuples of a box in lexicographic order, each of them once**, if no run
ends before it starts. It is over after one round for each tuple, and there are as many as the sizes
of the runs multiply to; no step on the way is without a result. Whatever is done with a tuple, even
if that ends the loop, is done in this order. -/
theorem visits_in_order (h : ∀ run ∈ box, run.first ≤ run.last) :
    (∀ rounds, box.trail rounds =
      if box.tuples.length ≤ rounds then .ok box.tuples else .error (.trap .endless)) ∧
    box.tuples.Pairwise (· < ·) ∧ box.tuples.Nodup ∧
    (∀ codes, codes ∈ box.tuples ↔
      List.Forall₂ (fun run c => run.first ≤ c ∧ c ≤ run.last) box codes) ∧
    box.tuples.length = (box.map fun run => run.last.toNat - run.first.toNat + 1).prod ∧
    ∀ {σ : Type} (f : σ → List Code → Guarded σ) (s : σ) (rounds : Nat),
      box.tuples.length ≤ rounds →
        visit f box rounds s box.least = box.tuples.foldlM f s := by
  have h : ∀ run ∈ box, run.first.toNat ≤ run.last.toNat :=
    fun run hrun => UInt16.le_iff_toNat_le.1 (h run hrun)
  refine ⟨trail_eq h, pairwise_tuples box, nodup_tuples box,
    fun codes => mem_tuples.trans contains_iff, ?_, fun f s rounds => visit_least h⟩
  have hsizes : box.map (fun run => run.last.toNat - run.first.toNat + 1) =
      box.map CodeRun.size := by
    refine List.map_congr_left fun run hrun => ?_
    have hle := h run hrun
    rw [CodeRun.size]
    omega
  rw [hsizes, length_tuples]

/-- A box with a run up to the greatest code and a run of one code. -/
def brink : CodeBox := [⟨65534, 65535⟩, ⟨7, 7⟩, ⟨0, 2⟩]

theorem brink_visits_in_order :
    brink.trail 6 = .ok [[65534, 7, 0], [65534, 7, 1], [65534, 7, 2], [65535, 7, 0], [65535, 7, 1],
      [65535, 7, 2]] ∧ brink.trail 5 = .error (.trap .endless) ∧ [65535, 7, 1] ∈ brink.tuples := by
  obtain ⟨htrail, -, -, hmem, -⟩ := @visits_in_order brink (by decide)
  refine ⟨?_, ?_, (hmem _).2 (by decide)⟩
  · rw [htrail, if_pos (by decide)]
    exact congrArg Except.ok (by decide)
  · rw [htrail, if_neg (by decide)]

end CodeBox

end MatchTree
