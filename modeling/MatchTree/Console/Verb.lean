/-!
# Commands and their options

* `Verb` — the commands; `Parameter` — the options that take a value.
* `Verb.parameters` — the options of each command.
* `Misuse` — why arguments are no request.
-/

namespace MatchTree

/-- The commands. -/
inductive Verb where
  | compile
  | batch
  | inspect
  | classify
  | checkContract
  deriving DecidableEq, Inhabited

def Verb.ofName? : String → Option Verb
  | "compile" => some .compile
  | "batch" => some .batch
  | "inspect" => some .inspect
  | "classify" => some .classify
  | "check-contract" => some .checkContract
  | _ => none

/-- The options that take a value. -/
inductive Parameter where
  | tree
  | features
  | output
  | outDir
  | format
  | values
  | artifact
  deriving DecidableEq, Inhabited

namespace Parameter

/-- The name of an option, as it follows two dashes. -/
def name : Parameter → String
  | tree => "tree"
  | features => "features"
  | output => "output"
  | outDir => "out-dir"
  | format => "format"
  | values => "values"
  | artifact => "artifact"

/-- The letter of an option, as it follows one dash. -/
def letter? : Parameter → Option Char
  | output => some 'o'
  | format => some 'f'
  | _ => none

/-- Whether an option may be given several times. -/
def repeats (p : Parameter) : Bool := p == values

end Parameter

/-- The options of a command. -/
def Verb.parameters : Verb → List Parameter
  | compile => [.tree, .features, .output]
  | batch => [.features, .outDir]
  | inspect => [.tree, .features, .format]
  | classify => [.tree, .features, .values, .artifact]
  | checkContract => [.features, .format]

/-- Why arguments are no request. -/
inductive Misuse where
  | noCommand
  | unexpected (argument : String)
  | noValue (parameter : Parameter)
  | badValue (parameter : Parameter) (value : String)
  | givenTwice (parameter : Parameter)
  | missing (parameter : Parameter)
  | noTrees
  | emptyTree
  deriving DecidableEq

def Misuse.message : Misuse → String
  | noCommand => "error: a subcommand is required"
  | unexpected argument => s!"error: unexpected argument '{argument}' found"
  | noValue parameter =>
    s!"error: a value is required for '--{parameter.name}' but none was supplied"
  | badValue parameter value => s!"error: invalid value '{value}' for '--{parameter.name}'"
  | givenTwice parameter =>
    s!"error: the argument '--{parameter.name}' cannot be used multiple times"
  | missing parameter => s!"error: the required argument '--{parameter.name}' was not provided"
  | noTrees => "error: the required argument '<TREES>...' was not provided"
  | emptyTree => "error: a value is required for '<TREES>...' but none was supplied"

/-- The exit code for arguments that are no request. -/
def misuseCode : UInt8 := 2

end MatchTree
