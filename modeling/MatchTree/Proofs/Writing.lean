import Mathlib.Data.List.Basic
import MatchTree.Command
import MatchTree.Proofs.Words

/-!
# Commands as lines of words

* `Text.linesOfWords` — a text as the words of its lines.
* `Command.keyword`, `Command.operands` — the words of a command in front of the names of its table
  and action, and those behind them.
* `Command.linesOf` — the words of the lines of some commands.
* `Spells` — two names that are read as one word each.

Principal results: `linesOfWords_text` — the lines of a command whose names are read as two words;
`first_line` — a line feed in a name cuts every command with this name at the same word.
-/

namespace MatchTree

/-- The words of each line. -/
def Text.linesOfWords (cs : List Char) : List (List String) := (lines cs).map wordsOf

namespace Command

def keyword : Command → String
  | defaultCode .. | defaultVerdict .. => setDefault
  | band .. | row .. => addEntry

def table : Command → String
  | defaultCode table .. | defaultVerdict table .. | band table .. | row table .. => table

def action : Command → String
  | defaultCode _ action _ | defaultVerdict _ action _ => action
  | band _ action .. | row _ action .. => action

/-- The bounds of a band as one word. -/
def rangeText (b : Band) : String :=
  toString b.lower.toNat ++ rangeSign ++ toString b.upper.toNat

/-- The words behind the names. -/
def operands : Command → List String
  | defaultCode _ _ code => [toString code.toNat]
  | defaultVerdict _ _ v => [toString v.code.toNat]
  | band _ _ b priority => [rangeText b, arrow, toString b.code.toNat, toString priority]
  | row _ _ codes v => (codes.map fun c => toString c.toNat) ++ [arrow, toString v.code.toNat]

/-- The parts behind the names; the codes of a row are one part, but several words or none. -/
def tail : Command → List String
  | row _ _ codes v => [codesText codes, arrow, toString v.code.toNat]
  | c => c.operands

theorem parts_eq (c : Command) : c.parts = c.keyword :: c.table :: c.action :: c.tail := by
  cases c <;> rfl

theorem tail_ne_nil (c : Command) : c.tail ≠ [] := by cases c <;> simp [tail, operands]

theorem isWord_keyword (c : Command) : Text.IsWord c.keyword := by
  have hdefault : Text.IsWord setDefault := by decide
  have hentry : Text.IsWord addEntry := by decide
  cases c with
  | defaultCode | defaultVerdict => exact hdefault
  | band | row => exact hentry

theorem isWord_arrow : Text.IsWord arrow := by decide

theorem isWord_rangeText (b : Band) : Text.IsWord (rangeText b) := by
  have hsign : Text.BlankFree rangeSign := by decide
  have hlower : Text.BlankFree (toString b.lower.toNat ++ rangeSign) := by
    intro c hc
    rw [String.toList_append, List.mem_append] at hc
    rcases hc with hc | hc
    · exact (Text.isWord_toString _).2 c hc
    · exact hsign c hc
  exact Text.isWord_append_toString hlower _

/-- Every operand is a word. -/
theorem isWord_operands {c : Command} {w : String} (h : w ∈ c.operands) : Text.IsWord w := by
  cases c with
  | defaultCode | defaultVerdict =>
    obtain rfl := List.mem_singleton.1 h
    exact Text.isWord_toString _
  | band _ _ b priority =>
    simp only [operands, List.mem_cons, List.not_mem_nil, or_false] at h
    rcases h with rfl | rfl | rfl | rfl
    · exact isWord_rangeText b
    · exact isWord_arrow
    · exact Text.isWord_toString _
    · exact Text.isWord_toString _
  | row _ _ codes v =>
    simp only [operands, List.mem_append, List.mem_map, List.mem_cons, List.not_mem_nil,
      or_false] at h
    rcases h with ⟨c, -, rfl⟩ | rfl | rfl
    · exact Text.isWord_toString _
    · exact isWord_arrow
    · exact Text.isWord_toString _

theorem wordsOf_codesText (codes : List Code) :
    Text.wordsOf (codesText codes).toList = codes.map fun c => toString c.toNat := by
  rw [codesText, Text.wordsOf_intercalate]
  refine Text.wordsOf_of_isWords fun w hw => ?_
  obtain ⟨c, -, rfl⟩ := List.mem_map.1 hw
  exact Text.isWord_toString _

theorem flatMap_tail (c : Command) :
    (c.tail.flatMap fun s => Text.wordsOf s.toList) = c.operands := by
  cases c with
  | defaultCode | defaultVerdict | band =>
    simp only [tail]
    exact Text.wordsOf_of_isWords fun w hw => isWord_operands hw
  | row table action codes v =>
    rw [tail, List.flatMap_cons, wordsOf_codesText]
    congr 1
    refine Text.wordsOf_of_isWords fun w hw => ?_
    exact isWord_operands (c := row table action codes v) (List.mem_append_right _ hw)

theorem newline_not_mem_tail {c : Command} : ∀ s ∈ c.tail, '\n' ∉ s.toList := by
  intro s hs
  cases c with
  | defaultCode | defaultVerdict | band =>
    simp only [tail] at hs
    exact (isWord_operands hs).newline_not_mem
  | row table action codes v =>
    rcases List.mem_cons.1 hs with rfl | hs
    · refine Text.newline_not_mem_intercalate fun w hw => ?_
      obtain ⟨c, -, rfl⟩ := List.mem_map.1 hw
      exact (Text.isWord_toString _).newline_not_mem
    · exact (isWord_operands (c := row table action codes v)
        (List.mem_append_right _ hs)).newline_not_mem

/-! ## Names -/

/-- **Without a line feed in its names, a command is one line.** -/
theorem linesOfWords_of_no_newline {c : Command} (htable : '\n' ∉ c.table.toList)
    (haction : '\n' ∉ c.action.toList) :
    Text.linesOfWords c.text.toList =
      [c.keyword :: (Text.wordsOf c.table.toList ++ Text.wordsOf c.action.toList ++ c.operands)] := by
  have hline : '\n' ∉ c.text.toList := by
    refine Text.newline_not_mem_intercalate fun s hs => ?_
    rw [parts_eq, List.mem_cons, List.mem_cons, List.mem_cons] at hs
    rcases hs with rfl | rfl | rfl | hs
    · exact c.isWord_keyword.newline_not_mem
    · exact htable
    · exact haction
    · exact newline_not_mem_tail s hs
  rw [Text.linesOfWords, Text.lines_eq_singleton hline, List.map_singleton, text,
    Text.wordsOf_intercalate, parts_eq, List.flatMap_cons, List.flatMap_cons, List.flatMap_cons,
    flatMap_tail, Text.wordsOf_of_isWord c.isWord_keyword, List.append_assoc]
  rfl

/-- **A line feed in a name cuts the first line of every command with these names at the same
word.** -/
theorem first_line {table action : String}
    (h : '\n' ∈ table.toList ∨ '\n' ∈ action.toList) :
    ∃ ws, ∀ c : Command, c.table = table → c.action = action →
      ∃ more, Text.linesOfWords c.text.toList = (c.keyword :: ws) :: more := by
  have hmem : '\n' ∈ table.toList ++ ' ' :: action.toList := by
    rw [List.mem_append, List.mem_cons]
    exact h.imp_right Or.inr
  obtain ⟨before, after, heq, hbefore⟩ := List.eq_append_cons_of_mem hmem
  refine ⟨Text.wordsOf before, fun c htable haction => ?_⟩
  have hcut : c.text.toList = (c.keyword.toList ++ ' ' :: before) ++
      '\n' :: (after ++ ' ' :: (String.intercalate " " c.tail).toList) := by
    have hblank : " ".toList = [' '] := rfl
    have hnames := congrArg (fun cs => cs ++ ' ' :: (String.intercalate " " c.tail).toList) heq
    simp only [List.append_assoc, List.cons_append] at hnames
    rw [text, parts_eq, htable, haction, String.intercalate_cons_cons,
      String.intercalate_cons_cons, String.intercalate_cons_of_ne_nil c.tail_ne_nil]
    simp only [String.toList_append, hblank, List.append_assoc, List.cons_append, List.nil_append]
    rw [hnames]
  have hfirst : '\n' ∉ c.keyword.toList ++ ' ' :: before := by
    rw [List.mem_append, List.mem_cons]
    rintro (hmem | hmem | hmem)
    · exact c.isWord_keyword.newline_not_mem hmem
    · exact absurd hmem (by decide)
    · exact hbefore hmem
  refine ⟨Text.linesOfWords (after ++ ' ' :: (String.intercalate " " c.tail).toList), ?_⟩
  rw [hcut, Text.linesOfWords, Text.lines_append, Text.lines_eq_singleton hfirst, List.map_append,
    List.map_singleton, Text.wordsOf_append_blank (by decide),
    Text.wordsOf_of_isWord c.isWord_keyword]
  rfl

end Command

/-- The names of a table and its action are read as one word each. -/
structure Spells (table action t a : String) : Prop where
  table_line : '\n' ∉ table.toList
  action_line : '\n' ∉ action.toList
  words_eq : Text.wordsOf table.toList ++ Text.wordsOf action.toList = [t, a]

theorem Spells.of_isWord {table action : String} (htable : Text.IsWord table)
    (haction : Text.IsWord action) : Spells table action table action where
  table_line := htable.newline_not_mem
  action_line := haction.newline_not_mem
  words_eq := by rw [Text.wordsOf_of_isWord htable, Text.wordsOf_of_isWord haction]; rfl

/-- **The one line of a command whose names are read as two words.** -/
theorem Command.linesOfWords_text {c : Command} {t a : String}
    (h : Spells c.table c.action t a) :
    Text.linesOfWords c.text.toList = [c.keyword :: t :: a :: c.operands] := by
  rw [linesOfWords_of_no_newline h.table_line h.action_line, h.words_eq]
  rfl

/-! ## Programs -/

/-- The words of the lines of some commands. -/
def Command.linesOf (commands : List Command) : List (List String) :=
  commands.flatMap fun c => Text.linesOfWords c.text.toList

/-- Commands for one table are a line each. -/
theorem Command.linesOf_eq_map {commands : List Command} {table action t a : String}
    (h : Spells table action t a) (hnames : ∀ c ∈ commands, c.table = table ∧ c.action = action) :
    linesOf commands = commands.map fun c => c.keyword :: t :: a :: c.operands := by
  have hlines : ∀ c ∈ commands,
      Text.linesOfWords c.text.toList = [c.keyword :: t :: a :: c.operands] := by
    intro c hc
    obtain ⟨htable, haction⟩ := hnames c hc
    exact linesOfWords_text (by rwa [htable, haction])
  rw [linesOf, List.flatMap_congr hlines, ← List.map_eq_flatMap]

/-- **The lines of a text are those of its commands**, and an empty one at the end. -/
theorem Command.linesOfWords_join (commands : List Command) :
    Text.linesOfWords (String.join (commands.map fun c => c.text ++ "\n")).toList =
      linesOf commands ++ [[]] := by
  have hchars : (String.join (commands.map fun c => c.text ++ "\n")).toList =
      (commands.map fun c => c.text.toList).flatMap fun cs => cs ++ ['\n'] := by
    rw [String.toList_join, List.flatMap_map, List.flatMap_map]
    simp only [String.toList_append]
    rfl
  rw [Text.linesOfWords, hchars, Text.lines_flatMap, List.map_append, List.flatMap_map,
    List.map_flatMap]
  rfl

theorem Program.linesOfWords_text (p : Program) :
    Text.linesOfWords p.text.toList = Command.linesOf p.commands ++ [[]] :=
  Command.linesOfWords_join p.commands

end MatchTree
