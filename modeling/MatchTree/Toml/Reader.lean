import MatchTree.Toml.Quoted
import MatchTree.Toml.Section

/-!
# Reading TOML

* `Toml.key?` — a key: bare or quoted parts with dots between them.
* `Toml.value?` — a value, with at most the given number of nested arrays and inline tables.
* `Toml.Statement` — a line that does something: a definition or one of the two headings.
* `Toml.Document` — the tables so far and the one that is open; `Document.run?` does what a
  statement says.
* `Toml.document?` — a whole text.
-/

namespace MatchTree.Toml

/-- The number of nested values, and of parts of a key, from which on a text is refused. -/
def nestingLimit : Nat := 80

/-- Whether a character may stand in a bare key. -/
def isBare (c : Char) : Bool :=
  c.isDigit || ('a' ≤ c && c ≤ 'z') || ('A' ≤ c && c ≤ 'Z') || c == '-' || c == '_'

/-- One part of a key. -/
def keyPart? (cs : List Char) : Option (String × List Char) :=
  let bare := cs.takeWhile isBare
  if bare.isEmpty then lineString? cs
  else some (String.ofList bare, cs.drop bare.length)

/-- The parts of a key, blanks around each; the first text is the fuel. -/
def keyParts? : List Char → List Char → Option (List String × List Char)
  | [], _ => none
  | _ :: fuel, cs => do
    let (part, rest) ← keyPart? (skipBlanks cs)
    match skipBlanks rest with
    | '.' :: rest =>
      let (parts, rest) ← keyParts? fuel rest
      return (part :: parts, rest)
    | rest => return ([part], rest)

/-- A key: the path before the last dot, and the last part. -/
def key? (cs : List Char) : Option ((List String × String) × List Char) := do
  let (parts, rest) ← keyParts? cs cs
  if parts.length < nestingLimit then
    return ((parts.dropLast, ← parts.getLast?), rest)
  else none

/-- Drops a comment. -/
def skipComment : List Char → List Char
  | '#' :: cs => cs.dropWhile isPlain
  | cs => cs

/-- Drops what is left of a comment, if one has begun, and then blanks, line breaks and comments. -/
def skipFillerFrom (inComment : Bool) : List Char → List Char
  | [] => []
  | c :: cs =>
    if c == '#' || (inComment && isPlain c) then skipFillerFrom true cs
    else if isSpace c cs then skipFillerFrom false cs
    else c :: cs

/-- Drops blanks, line breaks and comments. -/
def skipFiller : List Char → List Char := skipFillerFrom false

/-- The items of an array after its opening bracket; a comma may follow the last. The first text is
the fuel. -/
def items? (value : List Char → Option (Datum × List Char)) :
    List Char → List Char → Option (List Datum × List Char)
  | [], _ => none
  | _ :: fuel, cs =>
    match skipFiller cs with
    | ']' :: rest => some ([], rest)
    | cs => do
      let (d, rest) ← value cs
      match skipFiller rest with
      | ',' :: rest =>
        let (ds, rest) ← items? value fuel rest
        return (d :: ds, rest)
      | ']' :: rest => return ([d], rest)
      | _ => none

/-- A key, an equals sign and a value. -/
def definition? (value : List Char → Option (Datum × List Char)) (cs : List Char) :
    Option ((List String × String × Datum) × List Char) := do
  let ((path, key), rest) ← key? cs
  let rest ← expect? '=' rest
  let (d, rest) ← value (skipBlanks rest)
  return ((path, key, d), rest)

/-- The definitions of an inline table, with commas between them; the first text is the fuel. -/
def definitions? (value : List Char → Option (Datum × List Char)) :
    List Char → Section → List Char → Option (Section × List Char)
  | [], _, _ => none
  | _ :: fuel, s, cs => do
    let ((path, key, d), rest) ← definition? value cs
    let s ← s.define? path key d
    match skipBlanks rest with
    | ',' :: rest => definitions? value fuel s rest
    | '\x7d' :: rest => return (s, rest)
    | _ => none

/-- An inline table after its opening brace; all on one line. -/
def inlineTable? (value : List Char → Option (Datum × List Char)) (cs : List Char) :
    Option (Datum × List Char) :=
  match skipBlanks cs with
  | '\x7d' :: rest => some (.record [], rest)
  | cs => (definitions? value cs .fresh cs).map fun (s, rest) => (s.toDatum, rest)

/-- The value at the start of a text, with at most `depth` nested arrays and inline tables. -/
def value? (depth : Nat) (cs : List Char) : Option (Datum × List Char) :=
  match cs with
  | '[' :: rest =>
    match depth with
    | 0 => none
    | depth + 1 =>
      (items? (value? depth) rest rest).map fun (ds, rest) => (.list ds, rest)
  | '\x7b' :: rest =>
    match depth with
    | 0 => none
    | depth + 1 => inlineTable? (value? depth) rest
  | cs => ((string? cs).map fun (s, rest) => (.text s, rest)) <|> scalar? cs
termination_by structural depth

/-- A line that does something. -/
inductive Statement where
  | define (path : List String) (key : String) (d : Datum)
  /-- Opens a table. -/
  | table (path : List String) (key : String)
  /-- Opens one more table of a list. -/
  | element (path : List String) (key : String)

/-- What follows a statement on its line: nothing but a comment. -/
def lineEnd? (cs : List Char) : Option (List Char) :=
  match skipComment (skipBlanks cs) with
  | [] => some []
  | rest => lineBreak? rest

/-- A statement with its line. -/
def statement? (cs : List Char) : Option (Statement × List Char) := do
  let (s, rest) ← match cs with
    | '[' :: '[' :: cs => do
      let ((path, key), rest) ← key? cs
      pure (Statement.element path key, ← expect? ']' (← expect? ']' rest))
    | '[' :: cs => do
      let ((path, key), rest) ← key? cs
      pure (Statement.table path key, ← expect? ']' rest)
    | cs => do
      let ((path, key, d), rest) ← definition? (value? (nestingLimit - 1)) cs
      pure (Statement.define path key d, rest)
  return (s, ← lineEnd? rest)

/-- The statements of a text. A line may be blank or hold only a comment. The first text is the
fuel. -/
def statements? (fuel cs : List Char) : Option (List Statement) :=
  match skipFiller cs with
  | [] => some []
  | cs =>
    match fuel with
    | [] => none
    | _ :: fuel => do
      let (s, rest) ← statement? cs
      return s :: (← statements? fuel rest)
termination_by structural fuel

/-- The tables so far, and the table that the last heading opened. -/
structure Document where
  root : Section
  opened : Section
  path : List String
  key : Option String
  isElement : Bool

namespace Document

/-- Before the first heading the root itself is open. -/
def empty : Document := ⟨.fresh, .fresh, [], none, false⟩

/-- Puts a table at its place, which is free or was made on the way to another table. -/
def place? (key : String) (opened : Section) (parent : Section) : Option (Unit × Section) :=
  match parent.find? key with
  | none => some ((), parent.put key opened.toItem)
  | some (.table true _ _) => some ((), parent.put key opened.toItem)
  | _ => none

/-- Adds a table to the list under a key. -/
def append? (key : String) (opened : Section) (parent : Section) : Option (Unit × Section) :=
  match parent.find? key with
  | none => some ((), parent.put key (.tables [opened.entries]))
  | some (.tables elements) => some ((), parent.put key (.tables (elements ++ [opened.entries])))
  | _ => none

/-- Puts the open table at its place. -/
def close? (d : Document) : Option Section :=
  match d.key with
  | none => some d.opened
  | some key =>
    let put := if d.isElement then append? key d.opened else place? key d.opened
    (d.root.descend? false put d.path).map (·.2)

/-- Takes a table out that was made on the way to another one, to open it now; a free key opens an
empty table. -/
def take? (key : String) (parent : Section) : Option (Section × Section) :=
  match parent.find? key with
  | none => some (.fresh, parent)
  | some (.table true false entries) => some (⟨false, false, entries⟩, parent.erase key)
  | _ => none

/-- Whether a list of tables may go on under a key. -/
def admits? (key : String) (parent : Section) : Option (Unit × Section) :=
  match parent.find? key with
  | none | some (.tables _) => some ((), parent)
  | _ => none

/-- Does what a statement says. -/
def run? (d : Document) : Statement → Option Document
  | .define path key value => do
    return { d with opened := ← d.opened.define? path key value }
  | .table path key => do
    let (opened, root) ← (← d.close?).descend? false (take? key) path
    return ⟨root, opened, path, some key, false⟩
  | .element path key => do
    let (_, root) ← (← d.close?).descend? false (admits? key) path
    return ⟨root, .fresh, path, some key, true⟩

end Document

/-- Drops a mark of byte order at the start. -/
def dropByteOrderMark : List Char → List Char
  | '\ufeff' :: cs => cs
  | cs => cs

/-- The value that a whole text denotes. -/
def document? (s : String) : Option Datum := do
  let cs := dropByteOrderMark s.toList
  let statements ← statements? cs cs
  let d ← statements.foldlM Document.run? Document.empty
  return (← d.close?).toDatum

end MatchTree.Toml
