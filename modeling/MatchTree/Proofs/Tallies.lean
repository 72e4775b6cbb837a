import Mathlib.Algebra.Order.BigOperators.Group.List
import Mathlib.Algebra.Order.Group.Nat
import Mathlib.Data.List.Forall2
import MatchTree.Proofs.Passage

/-!
# What the tallies of a pipeline count

Tallies are added kind by kind, and the order of the summands does not matter.

* `Passage.tallies` — what one packet adds to the tallies.
* `Installed.outcome` — what comes of a packet, whatever has been counted before.
* `Pipeline.processAll` — packets go through one after another; what comes of each, and the pipeline
  after the last one.
* `returned` — the passages among some outcomes.
* `Installed.Answers` — the outcome that a packet has to have.

Principal results: `process_eq_outcome` — a packet adds the tallies of its outcome, which are none
if it is refused; `processAll_eq` — so the tallies after a run are the sum over all outcomes;
`sum_tallies` — which counts the misses and the verdicts that were returned;
`processAll_tallies` — all of this in one statement, for any tables and any packets, with what is
left of it when the packets come in another order.
-/

namespace MatchTree

/-! ## Sums of tallies -/

namespace Tallies

instance : Zero Tallies := ⟨zero⟩

instance : Add Tallies where
  add m n := ⟨m.packets + n.packets, m.bandMisses + n.bandMisses,
    m.verdictMisses + n.verdictMisses, m.attacks + n.attacks⟩

theorem add_eq (m n : Tallies) :
    m + n = ⟨m.packets + n.packets, m.bandMisses + n.bandMisses,
      m.verdictMisses + n.verdictMisses, m.attacks + n.attacks⟩ := rfl

theorem zero_eq : (0 : Tallies) = ⟨0, 0, 0, 0⟩ := rfl

instance : AddCommMonoid Tallies where
  add_assoc k m n := by simp [add_eq, Nat.add_assoc]
  zero_add n := by simp [add_eq, zero_eq]
  add_zero n := by simp [add_eq, zero_eq]
  add_comm m n := by simp [add_eq, Nat.add_comm]
  nsmul := nsmulRec

end Tallies

/-- What a packet adds to the tallies. -/
def Passage.tallies (p : Passage) : Tallies where
  packets := 1
  bandMisses := p.misses.count .band
  verdictMisses := p.misses.count .verdict
  attacks := if p.verdict = .attack then 1 else 0

/-- **The tallies of passages count them, their misses of each kind, and the attacks.** -/
theorem Passage.sum_tallies (passages : List Passage) :
    (passages.map Passage.tallies).sum =
      ⟨passages.length, (passages.flatMap (·.misses)).count .band,
        (passages.flatMap (·.misses)).count .verdict,
        passages.countP fun p => p.verdict = .attack⟩ := by
  induction passages with
  | nil => rfl
  | cons p passages ih =>
    rw [List.map_cons, List.sum_cons, ih, Tallies.add_eq, List.flatMap_cons, List.count_append,
      List.count_append, List.countP_cons]
    simp only [Passage.tallies, List.length_cons, decide_eq_true_eq, Tallies.mk.injEq, true_and]
    omega

/-! ## One packet -/

namespace Installed

variable {x : Installed} {values : List UInt32}

/-- **A run adds the tallies of its passage**, which does not depend on what was counted before. -/
theorem run_eq_add (x : Installed) (values : List UInt32) (n : Tallies) :
    x.run values n = ((x.run values 0).1, n + (x.run values 0).1.tallies) := by
  rw [run_eq, run_eq, Tallies.add_eq]
  simp only [Passage.tallies, List.count_append, List.count_replicate, Prod.mk.injEq, true_and,
    Tallies.mk.injEq]
  refine ⟨by simp, by simp, ?_⟩
  split <;> rfl

/-- What comes of a packet in a pipeline that has seen none. -/
def outcome (x : Installed) (values : List UInt32) : Except SwitchFault Passage :=
  ((Pipeline.new x).process values).1

theorem outcome_of_length (h : values.length = x.width) :
    x.outcome values = .ok (x.run values 0).1 := by
  rw [outcome, Pipeline.process]
  exact congrArg Prod.fst (if_neg (not_not.2 h))

theorem outcome_of_length_ne (h : values.length ≠ x.width) :
    x.outcome values = .error (.arity x.width values.length) := by
  rw [outcome, Pipeline.process]
  exact congrArg Prod.fst (if_pos h)

end Installed

/-- The passages among some outcomes. -/
def returned (outcomes : List (Except SwitchFault Passage)) : List Passage :=
  outcomes.filterMap Except.toOption

/-- What an outcome adds to the tallies: nothing, if the packet was refused. -/
def outcomeTallies : Except SwitchFault Passage → Tallies
  | .ok p => p.tallies
  | .error _ => 0

theorem sum_outcomeTallies (outcomes : List (Except SwitchFault Passage)) :
    (outcomes.map outcomeTallies).sum = ((returned outcomes).map Passage.tallies).sum := by
  induction outcomes with
  | nil => rfl
  | cons outcome outcomes ih =>
    rw [List.map_cons, List.sum_cons, ih]
    cases outcome with
    | ok p => rfl
    | error fault => exact zero_add _

namespace Pipeline

/-- **A packet adds the tallies of its outcome**, and leaves the tables as they are. -/
theorem process_eq_outcome (p : Pipeline) (values : List UInt32) :
    p.process values =
      (p.tables.outcome values,
        { p with tallies := p.tallies + outcomeTallies (p.tables.outcome values) }) := by
  by_cases h : values.length = p.tables.width
  · rw [Installed.outcome_of_length h, process, if_neg (not_not.2 h), Installed.run_eq_add]
    rfl
  · rw [Installed.outcome_of_length_ne h, process, if_pos h, outcomeTallies, add_zero]

/-! ## Many packets -/

/-- Runs packets one after another. -/
def processAll (p : Pipeline) :
    List (List UInt32) → List (Except SwitchFault Passage) × Pipeline
  | [] => ([], p)
  | values :: packets =>
    let (outcome, p) := p.process values
    let (outcomes, p) := p.processAll packets
    (outcome :: outcomes, p)

/-- **A run over many packets adds up the tallies of their outcomes.** -/
theorem processAll_eq (p : Pipeline) (packets : List (List UInt32)) :
    p.processAll packets =
      (packets.map p.tables.outcome,
        { p with
          tallies := p.tallies + ((packets.map p.tables.outcome).map outcomeTallies).sum }) := by
  induction packets generalizing p with
  | nil =>
    rw [List.map_nil, List.map_nil, List.sum_nil, add_zero]
    rfl
  | cons values packets ih =>
    rw [processAll, process_eq_outcome, List.map_cons, List.map_cons, List.sum_cons, ← add_assoc]
    simp only [ih]

end Pipeline

namespace Installed

variable {x : Installed}

/-- A packet with a value for each band table gets a code from each of them and misses one row at
most; any other packet is refused for its length. -/
def Answers (x : Installed) (values : List UInt32) (outcome : Except SwitchFault Passage) : Prop :=
  if values.length = x.width then
    ∃ passage, outcome = .ok passage ∧ passage.values = values ∧
      passage.codes.length = x.bandTables.length ∧ passage.misses.count .verdict ≤ 1
  else outcome = .error (.arity x.width values.length)

/-- A stage writes one code and misses once at most. -/
theorem run_sound (x : Installed) {values : List UInt32} (h : values.length = x.width) :
    (x.run values 0).1.values = values ∧ (x.run values 0).1.codes.length = x.bandTables.length ∧
      (x.run values 0).1.misses.count .verdict ≤ 1 ∧
      (x.run values 0).1.misses.count .band ≤ x.width := by
  have hzip : (x.bandTables.zip values).length = x.width := by
    rw [List.length_zip, h, width, Nat.min_self]
  have hbands : bandMissCount (x.bandTables.zip values) ≤ x.width :=
    hzip ▸ List.countP_le_length
  have hrow : x.verdictTable.missCount (x.codes values) ≤ 1 := by
    unfold InstalledVerdictTable.missCount
    split <;> omega
  rw [run_eq]
  refine ⟨rfl, ?_, ?_, ?_⟩
  · rw [codes, List.length_map, hzip, width]
  · simpa [List.count_append, List.count_replicate] using hrow
  · simpa [List.count_append, List.count_replicate] using hbands

theorem answers_outcome (x : Installed) (values : List UInt32) :
    x.Answers values (x.outcome values) := by
  unfold Answers
  split
  · rename_i h
    obtain ⟨hvalues, hcodes, hrow, -⟩ := x.run_sound h
    exact ⟨_, outcome_of_length h, hvalues, hcodes, hrow⟩
  · rename_i h
    exact outcome_of_length_ne h

/-- There is a passage for each packet of the right length. -/
theorem length_returned (x : Installed) (packets : List (List UInt32)) :
    (returned (packets.map x.outcome)).length =
      packets.countP fun values => values.length = x.width := by
  induction packets with
  | nil => rfl
  | cons values packets ih =>
    rw [List.countP_cons, ← ih, List.map_cons]
    by_cases h : values.length = x.width
    · rw [outcome_of_length h, if_pos (decide_eq_true h)]
      rfl
    · rw [outcome_of_length_ne h, if_neg (by simpa using h)]
      rfl

/-- Every passage that comes out of the tables is one of a packet of the right length. -/
theorem exists_of_mem_returned {packets : List (List UInt32)} {p : Passage}
    (h : p ∈ returned (packets.map x.outcome)) :
    ∃ values, values.length = x.width ∧ p = (x.run values 0).1 := by
  obtain ⟨outcome, hmem, hp⟩ := List.mem_filterMap.1 h
  obtain ⟨values, -, rfl⟩ := List.mem_map.1 hmem
  by_cases hlength : values.length = x.width
  · rw [outcome_of_length hlength] at hp
    cases hp
    exact ⟨values, hlength, rfl⟩
  · rw [outcome_of_length_ne hlength] at hp
    cases hp

end Installed

/-- Passages that each miss a kind of table a limited number of times miss it so often in all. -/
theorem count_misses_le {passages : List Passage} {miss : Miss} {most : Nat}
    (h : ∀ p ∈ passages, p.misses.count miss ≤ most) :
    (passages.flatMap (·.misses)).count miss ≤ passages.length * most := by
  have hsum := List.sum_le_card_nsmul (passages.map fun p => p.misses.count miss) most (by simpa)
  rw [List.length_map] at hsum
  rw [List.count_flatMap]
  exact hsum

/-! ## Main result -/

/-- **The tallies count what came of the packets.** Packets of any length go through any tables, one
after another. Each of the right length counts as one; the misses and the attacks are those of the
passages that came out, at most one miss for each value and at most one missed row and one attack for
each packet. A packet of a wrong length is refused, whatever has been counted, and counts for nothing.
The order of the packets does not matter to the tallies. -/
theorem Pipeline.processAll_tallies (tables : Installed) (packets : List (List UInt32)) :
    ∃ outcomes n, (Pipeline.new tables).processAll packets = (outcomes, ⟨tables, n⟩) ∧
      List.Forall₂ tables.Answers packets outcomes ∧
      n.packets = packets.countP (fun values => values.length = tables.width) ∧
      n.bandMisses = ((returned outcomes).flatMap (·.misses)).count .band ∧
      n.verdictMisses = ((returned outcomes).flatMap (·.misses)).count .verdict ∧
      n.attacks = (returned outcomes).countP (fun passage => passage.verdict = .attack) ∧
      (n.bandMisses ≤ n.packets * tables.width ∧ n.verdictMisses ≤ n.packets ∧
        n.attacks ≤ n.packets) ∧
      (∀ values m, values.length ≠ tables.width →
        process ⟨tables, m⟩ values =
          (.error (.arity tables.width values.length), ⟨tables, m⟩)) ∧
      ∀ others, packets.Perm others →
        ((Pipeline.new tables).processAll others).2 = ⟨tables, n⟩ := by
  have hrun : ∀ ps, (Pipeline.new tables).processAll ps = (ps.map tables.outcome,
      ⟨tables, ((ps.map tables.outcome).map outcomeTallies).sum⟩) := by
    intro ps
    have hsum := (Pipeline.new tables).processAll_eq ps
    have hzero : (Pipeline.new tables).tallies = 0 := rfl
    rwa [hzero, zero_add] at hsum
  have hcount : ((packets.map tables.outcome).map outcomeTallies).sum = _ :=
    (sum_outcomeTallies _).trans (Passage.sum_tallies _)
  have hpackets := tables.length_returned packets
  have hmisses : ∀ p ∈ returned (packets.map tables.outcome),
      p.misses.count .band ≤ tables.width ∧ p.misses.count .verdict ≤ 1 := by
    intro p hp
    obtain ⟨values, hlength, rfl⟩ := Installed.exists_of_mem_returned hp
    obtain ⟨-, -, hrow, hbands⟩ := tables.run_sound hlength
    exact ⟨hbands, hrow⟩
  have hrows := count_misses_le fun p hp => (hmisses p hp).2
  rw [Nat.mul_one] at hrows
  refine ⟨_, _, hrun packets, ?_, ?_, ?_, ?_, ?_, ?_, ?_, ?_⟩
  · rw [List.forall₂_map_right_iff, List.forall₂_same]
    exact fun values _ => tables.answers_outcome values
  · rw [hcount, hpackets]
  · rw [hcount]
  · rw [hcount]
  · rw [hcount]
  · rw [hcount]
    exact ⟨count_misses_le fun p hp => (hmisses p hp).1, hrows, List.countP_le_length⟩
  · intro values m h
    rw [process_eq_outcome, Installed.outcome_of_length_ne h, outcomeTallies, add_zero]
  · intro others hothers
    rw [hrun others, ((hothers.map tables.outcome).map outcomeTallies).sum_eq]

/-- Tables with one band and one row. -/
def Installed.narrow : Installed where
  bandTables := [⟨"ml_feature_0", "set_code_0", 0, [⟨10, 20, 1, 2⟩]⟩]
  verdictTable := ⟨"ml_classify", "set_class", .normal, [([1], .attack)]⟩

/-- Of three packets one is too long, and another one misses both tables. -/
theorem Pipeline.narrow_processAll_tallies :
    ∃ outcomes, (Pipeline.new .narrow).processAll [[15], [15, 16], [25]] =
        (outcomes, ⟨.narrow, ⟨2, 1, 1, 1⟩⟩) ∧
      process ⟨.narrow, ⟨1, 0, 0, 1⟩⟩ [15, 16] = (.error (.arity 1 2), ⟨.narrow, ⟨1, 0, 0, 1⟩⟩) ∧
      ((Pipeline.new .narrow).processAll [[25], [15], [15, 16]]).2 =
        ⟨.narrow, ⟨2, 1, 1, 1⟩⟩ := by
  obtain ⟨outcomes, n, hrun, -, -, -, -, -, -, hrefused, hperm⟩ :=
    Pipeline.processAll_tallies .narrow [[15], [15, 16], [25]]
  have hn : n = ⟨2, 1, 1, 1⟩ :=
    congrArg (fun r => r.2.tallies) hrun.symm
  subst hn
  exact ⟨outcomes, hrun, hrefused _ _ (by decide), hperm _ (by decide)⟩

end MatchTree
