import MatchTree.Console.Request
import MatchTree.Console.Verb
import MatchTree.Text.Numeral
import MatchTree.Text.Words

/-!
# Reading arguments

* `Arguments` — what has been read of a command's arguments. Options and trees come in any order; a
  value follows its option as the next argument, after an equals sign, or right after its letter.
  After `--` every argument is a tree.
* `Request.ofArguments` — the request of a list of arguments, or why it is none.
-/

namespace MatchTree

/-- What has been read of a command's arguments. -/
structure Arguments where
  values : List (Parameter × String)
  trees : List String
  /-- The option whose value comes next. -/
  pending? : Option Parameter
  /-- Whether every argument from here on is a tree. -/
  onlyTrees : Bool
  /-- Whether help is asked for; what follows is not read. -/
  help : Bool
  deriving DecidableEq, Inhabited

namespace Arguments

def empty : Arguments := ⟨[], [], none, false, false⟩

/-- The values of an option, in order. -/
def valuesOf (a : Arguments) (p : Parameter) : List String :=
  (a.values.filter fun v => v.1 == p).map (·.2)

/-- Takes the value of an option. -/
def give (a : Arguments) (p : Parameter) (value : String) : Except Misuse Arguments :=
  if !p.repeats ∧ a.valuesOf p ≠ [] then .error (.givenTwice p)
  else .ok { a with values := a.values ++ [(p, value)], pending? := none }

/-- Reads the letters that follow one dash. -/
def readLetters (verb : Verb) (a : Arguments) : List Char → Except Misuse Arguments
  | [] => .ok a
  | 'v' :: cs => a.readLetters verb cs
  | 'h' :: _ => .ok { a with help := true }
  | c :: cs =>
    match verb.parameters.find? fun p => p.letter? == some c with
    | none => .error (.unexpected (String.ofList ['-', c]))
    | some p =>
      match cs with
      | [] => .ok { a with pending? := some p }
      | '=' :: value | value => a.give p (String.ofList value)

/-- Reads what follows two dashes: a name, and perhaps a value after an equals sign. -/
def readLong (verb : Verb) (a : Arguments) (cs : List Char) : Except Misuse Arguments :=
  let name := String.ofList (cs.takeWhile (· != '='))
  let unexpected : Misuse := .unexpected (String.ofList ('-' :: '-' :: cs))
  match cs.dropWhile (· != '='), verb.parameters.find? fun p => p.name == name with
  | _ :: value, some p => a.give p (String.ofList value)
  | [], some p => .ok { a with pending? := some p }
  | _ :: _, none => .error unexpected
  | [], none =>
    if name = "verbose" then .ok a
    else if name = "help" then .ok { a with help := true }
    else .error unexpected

/-- Takes a tree; only a batch has trees without an option. -/
def addTree (verb : Verb) (a : Arguments) (tree : String) : Except Misuse Arguments :=
  if verb = .batch then .ok { a with trees := a.trees ++ [tree] } else .error (.unexpected tree)

/-- Reads one argument. A value of its own cannot start with a dash unless it is one. -/
def read (verb : Verb) (a : Arguments) (argument : String) : Except Misuse Arguments :=
  if a.help then .ok a
  else
    match a.pending?, argument.toList with
    | some p, '-' :: _ :: _ => .error (.noValue p)
    | some p, _ => a.give p argument
    | none, cs =>
      if a.onlyTrees then a.addTree verb argument
      else
        match cs with
        | ['-', '-'] => .ok { a with onlyTrees := true }
        | '-' :: '-' :: name => a.readLong verb name
        | '-' :: c :: letters => a.readLetters verb (c :: letters)
        | _ => a.addTree verb argument

/-- Reads the arguments of a command. -/
def ofList (verb : Verb) (arguments : List String) : Except Misuse Arguments := do
  let a ← arguments.foldlM (read verb) empty
  match a.pending? with
  | some p => if a.help then return a else .error (.noValue p)
  | none => return a

/-- The path that an option gives, if it is given. -/
def path? (a : Arguments) (p : Parameter) : Except Misuse (Option String) :=
  match a.valuesOf p with
  | [] => .ok none
  | path :: _ => if path.isEmpty then .error (.badValue p path) else .ok (some path)

/-- The path that an option gives. -/
def path (a : Arguments) (p : Parameter) : Except Misuse String := do
  match ← a.path? p with
  | some path => return path
  | none => .error (.missing p)

/-- The layout that is asked for: a table if none is. -/
def layout (a : Arguments) : Except Misuse Layout :=
  match a.valuesOf .format with
  | [] => .ok .table
  | name :: _ =>
    match Layout.ofName? name with
    | some layout => .ok layout
    | none => .error (.badValue .format name)

/-- A number among the values: signs are allowed as long as it lies in 32 bits. -/
def number? : List Char → Option UInt32
  | '-' :: cs => if cs.all Char.isDigit then (Text.uint32? cs).filter (· == 0) else none
  | cs => Text.uint32? cs

/-- The numbers that are given, with commas between them. -/
def numbers (a : Arguments) : Except Misuse (List UInt32) :=
  match a.valuesOf .values with
  | [] => .error (.missing .values)
  | texts => (texts.flatMap fun t => Text.pieces (· == ',') t.toList).mapM fun cs =>
    match number? cs with
    | some n => .ok n
    | none => .error (.badValue .values (String.ofList cs))

/-- The trees that are given without an option. -/
def treeList (a : Arguments) : Except Misuse (List String) :=
  if a.trees.isEmpty then .error .noTrees
  else if a.trees.contains "" then .error .emptyTree
  else .ok a.trees

/-- The request of a command's arguments; `default?` stands for missing features. -/
def request (verb : Verb) (default? : Option String) (a : Arguments) : Except Misuse Request := do
  if a.help then return .help
  let a := if a.valuesOf .features = [] then
    { a with values := a.values ++ default?.toList.map fun path => (.features, path) } else a
  match verb with
  | .compile => return .compile (← a.path .tree) (← a.path .features) (← a.path .output)
  | .batch => return .batch (← a.treeList) (← a.path .features) (← a.path .outDir)
  | .inspect => return .inspect (← a.path .tree) (← a.path .features) (← a.layout)
  | .classify =>
    return .classify (← a.path .tree) (← a.path .features) (← a.numbers) (← a.path? .artifact)
  | .checkContract => return .checkContract (← a.path .features) (← a.layout)

end Arguments

namespace Request

/-- Reads letters before the command: a request if they ask for one. -/
def ofLetters? (argument : String) : List Char → Except Misuse (Option Request)
  | [] => .ok none
  | 'v' :: cs => ofLetters? argument cs
  | 'V' :: _ => .ok (some .version)
  | 'h' :: _ => .ok (some .help)
  | _ => .error (.unexpected argument)

/-- The request of a list of arguments; `default?` stands for missing features. -/
def ofArguments (default? : Option String) : List String → Except Misuse Request
  | [] => .error .noCommand
  | argument :: rest =>
    match Verb.ofName? argument, argument with
    | some verb, _ => do (← Arguments.ofList verb rest).request verb default?
    | none, "--verbose" => ofArguments default? rest
    | none, "--version" => .ok .version
    | none, "--help" | none, "help" => .ok .help
    | none, _ =>
      match argument.toList with
      | '-' :: c :: letters => do
        match ← ofLetters? argument (c :: letters) with
        | some request => return request
        | none => ofArguments default? rest
      | _ => .error (.unexpected argument)

end Request

end MatchTree
