import MatchTree.Proofs.Installation
import MatchTree.Proofs.Writing

/-!
# How wide the keys of installed rows are

* `Installed.KeysFit` — every key has a code for each band table.
* `Installation.isBandDefault`, `Installation.isRowEntry` — a line declares a band table, or adds a
  row.
* `Installation.rowWidths` — for each row of a text, how many band tables are declared before it.

A row is compared with the band tables that are declared when its line is taken. It is not looked at
again when a later line declares one more, and then its key is too short for good.

Principal results: `step_widths` — what one line does to the number of band tables and to the keys;
`steps_widths` — the same of a whole text; `keys_fit_iff` — the keys of a text that loads fit
exactly if no band table is declared after a row; `exists_keys_not_fit` — there is a text that loads
with a key that does not fit.
-/

namespace MatchTree

/-- Every key has a code for each band table. -/
def Installed.KeysFit (x : Installed) : Prop :=
  ∀ e ∈ x.verdictTable.entries, e.1.length = x.bandTables.length

namespace Installation

variable {n : Naming} {line k : Nat} {s s' : Installation}

/-! ## Lines -/

/-- The line is a command for a table of some kind. -/
def isCommand (keyword : String) (kind : String → Bool) : List String → Bool
  | command :: table :: _ => command == keyword && kind table
  | _ => false

/-- The line declares a band table. -/
def isBandDefault (n : Naming) : List String → Bool :=
  isCommand Command.setDefault (· != n.verdictTable)

/-- The line adds a row. -/
def isRowEntry (n : Naming) : List String → Bool :=
  isCommand Command.addEntry (· == n.verdictTable)

/-- The widths of the keys so far. -/
def keyWidths (s : Installation) : List Nat :=
  (s.verdictTable?.toList.flatMap (·.entries)).map (·.1.length)

variable {keyword command table : String} {kind : String → Bool} {words args : List String}

theorem isCommand_self : isCommand keyword kind (keyword :: table :: args) = kind table := by
  simp [isCommand]

theorem isCommand_of_ne (h : command ≠ keyword) :
    isCommand keyword kind (command :: args) = false := by
  cases args with
  | nil => rfl
  | cons table args => simp [isCommand, h]

theorem isCommand_of_skipped (hkeyword : keyword.toList.head? ≠ some '#') (h : Skipped words) :
    isCommand keyword kind words = false := by
  cases words with
  | nil => rfl
  | cons command args =>
    refine isCommand_of_ne ?_
    rintro rfl
    exact hkeyword (h command rfl)

theorem setDefault_ne_addEntry : Command.setDefault ≠ Command.addEntry := by decide

/-- No line both declares a band table and adds a row. -/
theorem isBandDefault_of_isRowEntry (h : isRowEntry n words = true) :
    isBandDefault n words = false := by
  cases words with
  | nil => rfl
  | cons command args =>
    refine isCommand_of_ne ?_
    rintro rfl
    rw [isRowEntry, isCommand_of_ne setDefault_ne_addEntry] at h
    cases h

/-! ## Steps -/

/-- **One line adds a band table if it declares one, and a key if it adds a row**, which is as wide
as there are band tables then. -/
theorem step_widths (h : s.step n line words = .ok s') :
    s'.bandTables.length = s.bandTables.length + (if isBandDefault n words then 1 else 0) ∧
      s'.keyWidths = s.keyWidths ++ (if isRowEntry n words then [s.bandTables.length] else []) := by
  unfold isBandDefault isRowEntry
  rcases step_cases h with ⟨hskipped, rfl⟩ | ⟨table, action, param, rfl, hdeclares⟩ |
    ⟨table, action, rest, keys, params, rfl, -, hadds⟩
  · rw [isCommand_of_skipped (by decide) hskipped, isCommand_of_skipped (by decide) hskipped]
    simp
  · rw [isCommand_self, isCommand_of_ne setDefault_ne_addEntry]
    rcases hdeclares with ⟨hverdict, hnone, v, -, rfl⟩ | ⟨hverdict, -, -, code, -, rfl⟩
    · simp [hverdict, keyWidths, hnone]
    · simp [hverdict, keyWidths]
  · rw [isCommand_self, isCommand_of_ne setDefault_ne_addEntry.symm]
    rcases hadds with ⟨hverdict, t, ht, -, hlength, param, codes, v, -, hcodes, -, -, rfl⟩ |
      ⟨hverdict, t, -, -, b, -, rfl⟩
    · rw [hcodes.length_eq] at hlength
      simp [hverdict, keyWidths, ht, hlength]
    · simp [hverdict, keyWidths]

/-- For each row, how many band tables are declared before it, after some that are already. -/
def rowWidths (n : Naming) (declared : Nat) : List (List String) → List Nat
  | [] => []
  | words :: rest =>
    (if isRowEntry n words then [declared] else []) ++
      rowWidths n (declared + if isBandDefault n words then 1 else 0) rest

/-- **Each key of a text is as wide as there are band tables declared before its row.** -/
theorem steps_widths {lines : List (List String)} (h : s.steps n (lines.zipIdx k) = .ok s') :
    s'.bandTables.length = s.bandTables.length + lines.countP (isBandDefault n) ∧
      s'.keyWidths = s.keyWidths ++ rowWidths n s.bandTables.length lines := by
  induction lines generalizing s k with
  | nil =>
    rw [List.zipIdx_nil, steps_nil] at h
    subst h
    simp [rowWidths]
  | cons words rest ih =>
    rw [List.zipIdx_cons, steps_cons] at h
    obtain ⟨m, hstep, hrest⟩ := h
    obtain ⟨htables, hkeys⟩ := step_widths hstep
    obtain ⟨htables', hkeys'⟩ := ih hrest
    refine ⟨?_, ?_⟩
    · rw [htables', htables, List.countP_cons, Nat.add_assoc, Nat.add_comm (List.countP _ _)]
    · rw [hkeys', hkeys, htables, rowWidths, List.append_assoc]

/-- All rows are as wide as there are band tables in the end exactly if none is declared after one
of them. -/
theorem rowWidths_eq_iff {declared : Nat} {lines : List (List String)} :
    (∀ w ∈ rowWidths n declared lines, w = declared + lines.countP (isBandDefault n)) ↔
      lines.Pairwise fun first later => isRowEntry n first = true →
        isBandDefault n later = false := by
  induction lines generalizing declared with
  | nil => simp [rowWidths]
  | cons words rest ih =>
    have hcount : declared + (words :: rest).countP (isBandDefault n) =
        declared + (if isBandDefault n words then 1 else 0) + rest.countP (isBandDefault n) := by
      rw [List.countP_cons, Nat.add_assoc, Nat.add_comm (List.countP _ _)]
    rw [rowWidths, List.forall_mem_append, hcount, ih, List.pairwise_cons]
    refine and_congr_left fun _ => ?_
    cases hrow : isRowEntry n words with
    | false => simp
    | true =>
      have hnone : rest.countP (isBandDefault n) = 0 ↔
          ∀ later ∈ rest, isBandDefault n later = false := by
        simp [List.countP_eq_zero]
      simp only [isBandDefault_of_isRowEntry hrow, Bool.false_eq_true, if_false, if_true,
        Nat.add_zero, List.mem_singleton, forall_eq, forall_const, ← hnone]
      omega

end Installation

/-! ## Main results -/

open Installation in
/-- **The keys of a text that loads fit exactly if no band table is declared after a row.** Each key
has a code for each band table that is declared before its row. -/
theorem Installed.keys_fit_iff {n : Naming} {text : String} {x : Installed}
    (h : Installed.ofText n text = .ok x) :
    x.bandTables.length = (Text.linesOfWords text.toList).countP (isBandDefault n) ∧
      x.verdictTable.entries.map (·.1.length) = rowWidths n 0 (Text.linesOfWords text.toList) ∧
      (x.KeysFit ↔ (Text.linesOfWords text.toList).Pairwise fun first later =>
        isRowEntry n first = true → isBandDefault n later = false) := by
  obtain ⟨s, hs, hfinish⟩ := bind_eq_ok.1 h
  obtain rfl := finish_ok.1 hfinish
  have hlines : numberedWords text = (Text.linesOfWords text.toList).zipIdx 1 := rfl
  rw [hlines] at hs
  obtain ⟨htables, hkeys⟩ := steps_widths hs
  have htables : x.bandTables.length =
      (Text.linesOfWords text.toList).countP (isBandDefault n) := by
    simpa [empty] using htables
  have hkeys : x.verdictTable.entries.map (·.1.length) =
      rowWidths n 0 (Text.linesOfWords text.toList) := by
    simpa [keyWidths, empty] using hkeys
  refine ⟨htables, hkeys, ?_⟩
  rw [← @rowWidths_eq_iff n 0, ← hkeys, List.forall_mem_map, KeysFit, htables, Nat.zero_add]

/-- A text that declares a second band table after a row. -/
def Installed.lateText : String :=
  "table_set_default ml_feature_0 set_code_0 0\n" ++
    "table_set_default ml_classify set_class 0\n" ++
    "table_add ml_classify set_class 0 => 1\n" ++
    "table_set_default ml_feature_1 set_code_1 0\n"

/-- The tables that it sets up; a packet gets two codes, and the only key has one. -/
def Installed.late : Installed where
  bandTables := [⟨"ml_feature_0", "set_code_0", 0, []⟩, ⟨"ml_feature_1", "set_code_1", 0, []⟩]
  verdictTable := ⟨"ml_classify", "set_class", .normal, [([0], .attack)]⟩

theorem Installed.ofText_lateText : Installed.ofText .default lateText = .ok late := by
  have hcommands : lateText = String.join (([.defaultCode "ml_feature_0" "set_code_0" 0,
      .defaultVerdict "ml_classify" "set_class" .normal,
      .row "ml_classify" "set_class" [0] .attack,
      .defaultCode "ml_feature_1" "set_code_1" 0] : List Command).map fun c => c.text ++ "\n") :=
    rfl
  have hfirst : Spells "ml_feature_0" "set_code_0" "ml_feature_0" "set_code_0" :=
    .of_isWord (by decide) (by decide)
  have hverdict : Spells "ml_classify" "set_class" "ml_classify" "set_class" :=
    .of_isWord (by decide) (by decide)
  have hsecond : Spells "ml_feature_1" "set_code_1" "ml_feature_1" "set_code_1" :=
    .of_isWord (by decide) (by decide)
  have hlines : Text.linesOfWords lateText.toList =
      [["table_set_default", "ml_feature_0", "set_code_0", "0"],
        ["table_set_default", "ml_classify", "set_class", "0"],
        ["table_add", "ml_classify", "set_class", "0", "=>", "1"],
        ["table_set_default", "ml_feature_1", "set_code_1", "0"], []] := by
    rw [hcommands, Command.linesOfWords_join, Command.linesOf, List.flatMap_cons,
      List.flatMap_cons, List.flatMap_cons, List.flatMap_cons, List.flatMap_nil,
      Command.linesOfWords_text (c := .defaultCode "ml_feature_0" "set_code_0" 0) hfirst,
      Command.linesOfWords_text (c := .defaultVerdict "ml_classify" "set_class" .normal) hverdict,
      Command.linesOfWords_text (c := .row "ml_classify" "set_class" [0] .attack) hverdict,
      Command.linesOfWords_text (c := .defaultCode "ml_feature_1" "set_code_1" 0) hsecond]
    rfl
  have hnumbered : numberedWords lateText = (Text.linesOfWords lateText.toList).zipIdx 1 := rfl
  rw [ofText, hnumbered, hlines]
  decide +kernel

theorem Installed.late_keys_fit_iff :
    Installed.ofText .default lateText = .ok late ∧
      (late.KeysFit ↔ (Text.linesOfWords lateText.toList).Pairwise fun first later =>
        Installation.isRowEntry .default first = true →
          Installation.isBandDefault .default later = false) :=
  ⟨ofText_lateText, (Installed.keys_fit_iff ofText_lateText).2.2⟩

/-- **A text may load with a key that does not fit.** -/
theorem Installed.exists_keys_not_fit :
    ¬ ∀ (n : Naming) (text : String) (x : Installed), Installed.ofText n text = .ok x →
      x.KeysFit := by
  intro hall
  exact absurd (hall _ _ _ ofText_lateText ([0], .attack) List.mem_cons_self) (by decide)

end MatchTree
