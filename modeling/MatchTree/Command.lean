import MatchTree.Compile

/-!
# Programs as switch commands

* `Command` — sets the default of a table or adds an entry to it.
* `Command.text` — its words with a blank between each two.
* `Program.commands` — the tables in stage order, each default before its entries; a band's priority
  is one more than its code.
* `Program.text` — the commands, one a line.
-/

namespace MatchTree

/-- A command that installs a part of a program. -/
inductive Command where
  | defaultCode (table action : String) (code : Code)
  | defaultVerdict (table action : String) (verdict : Verdict)
  | band (table action : String) (band : Band) (priority : Nat)
  | row (table action : String) (codes : List Code) (verdict : Verdict)
  deriving DecidableEq

namespace Command

/-- The word that sets a default. -/
def setDefault : String := "table_set_default"

/-- The word that adds an entry. -/
def addEntry : String := "table_add"

/-- The sign between the key of an entry and its parameters. -/
def arrow : String := "=>"

/-- The sign between the bounds of a band. -/
def rangeSign : String := "->"

/-- The parts of a command; the key of a row without codes is empty. -/
def parts : Command → List String
  | defaultCode table action code => [setDefault, table, action, toString code.toNat]
  | defaultVerdict table action v => [setDefault, table, action, toString v.code.toNat]
  | band table action b priority =>
    [addEntry, table, action, toString b.lower.toNat ++ rangeSign ++ toString b.upper.toNat, arrow,
      toString b.code.toNat, toString priority]
  | row table action codes v =>
    [addEntry, table, action, codesText codes, arrow, toString v.code.toNat]

/-- A command on one line. -/
def text (c : Command) : String := String.intercalate " " c.parts

end Command

/-- The priority of a band: any order would do, since bands are disjoint. -/
def Band.priority (b : Band) : Nat := b.code.toNat + 1

/-- The commands of a band table. -/
def BandTable.commands (t : BandTable) : List Command :=
  .defaultCode t.name t.action t.defaultCode ::
    t.bands.toList.map fun b => .band t.name t.action b b.priority

/-- The commands of a verdict table. -/
def VerdictTable.commands (t : VerdictTable) : List Command :=
  .defaultVerdict t.name t.action t.defaultVerdict ::
    t.table.rows.map fun r => .row t.name t.action r.codes r.verdict

namespace Program

/-- The commands of a program. -/
def commands (p : Program) : List Command :=
  p.bandTables.flatMap BandTable.commands ++ p.verdictTable.commands

/-- The text of a program. -/
def text (p : Program) : String := String.join (p.commands.map fun c => c.text ++ "\n")

end Program

end MatchTree
