import MatchTree.Fault

/-!
# What can go wrong on the switch

* `CommandFlaw` — why a line of commands has no meaning.
* `SwitchFault` — the causes for which commands are refused or a packet gets no verdict.
* `SwitchFault.kind`, `SwitchFault.message` — the stable name and the wording.
-/

namespace MatchTree

/-- What a numeral in a command stands for. -/
inductive Operand where
  | verdict
  | code
  | bound
  | priority
  deriving DecidableEq

def Operand.name : Operand → String
  | verdict => "class"
  | code => "code"
  | bound => "range bound"
  | priority => "priority"

/-- Why a line of commands has no meaning. -/
inductive CommandFlaw where
  | unknownCommand (word : String)
  | defaultShape
  | entryShape
  | bandShape
  | verdictShape
  | noArrow
  | noRangeSign (key : String)
  | emptyRange (key : String)
  | badNumeral (operand : Operand) (word : String)
  | unknownVerdict (value : UInt8)
  | defaultTwice (table : String)
  | unboundAction (action table : String)
  | keyCount (found expected : Nat)
  deriving DecidableEq

def CommandFlaw.message : CommandFlaw → String
  | unknownCommand word => s!"unknown command {word}"
  | defaultShape => "expected <table> <action> <param>"
  | entryShape => "expected <table> <action> <keys> => <params>"
  | bandShape => "expected <lo>-><hi> => <code> <priority>"
  | verdictShape => "expected one class parameter"
  | noArrow => "missing '=>'"
  | noRangeSign key => s!"range key '{key}' missing '->'"
  | emptyRange key => s!"empty range {key}"
  | badNumeral operand word => s!"invalid {operand.name} '{word}'"
  | unknownVerdict value => s!"unknown class {value.toNat}"
  | defaultTwice table => s!"default for {table} set twice"
  | unboundAction action table => s!"action {action} not bound to {table}"
  | keyCount found expected => s!"{found} keys for {expected} range tables"

/-- The causes for which commands are refused or a packet gets no verdict. -/
inductive SwitchFault where
  | syntaxError (line : Nat) (flaw : CommandFlaw)
  | unknownTable (line : Nat) (table : String)
  /-- An entry comes before the default of its table. -/
  | missingDefault (line : Nat) (table : String)
  | duplicateKey (line : Nat) (table key : String)
  | missingVerdictTable (table : String)
  | noSlice (feature : UInt32)
  /-- The frame is cut short or of another protocol. -/
  | badFrame (bytes : Nat)
  | arity (expected actual : Nat)
  /-- There is no such file, or it holds no text. -/
  | unreadable
  deriving DecidableEq

namespace SwitchFault

/-- The stable name of a fault's kind. -/
def kind : SwitchFault → String
  | syntaxError .. => "Syntax"
  | unknownTable .. => "UnknownTable"
  | missingDefault .. => "MissingDefault"
  | duplicateKey .. => "DuplicateKey"
  | missingVerdictTable _ => "MissingClassifyTable"
  | noSlice _ => "NoExtraction"
  | badFrame _ => "Frame"
  | arity .. => "Arity"
  | unreadable => "Io"

/-- The wording of a fault. -/
def message : SwitchFault → String
  | syntaxError line flaw => s!"line {line}: {flaw.message}"
  | unknownTable line table => s!"line {line}: unknown table {table}"
  | missingDefault line table => s!"line {line}: entry for {table} precedes its default action"
  | duplicateKey line table key => s!"line {line}: duplicate key ({key}) in {table}"
  | missingVerdictTable table => s!"artifact has no classification table {table}"
  | noSlice feature => s!"feature {feature.toNat} declares no extraction rule"
  | badFrame bytes => s!"unsupported or truncated frame ({bytes} bytes)"
  | arity expected actual => s!"expected {expected} feature values, got {actual}"
  | unreadable => "the file holds no readable text"

end SwitchFault

end MatchTree
