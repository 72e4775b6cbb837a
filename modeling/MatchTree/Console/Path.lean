import MatchTree.Text.Words

/-!
# Paths

A path is a text with slashes between its pieces. Empty pieces count for nothing, and neither does a
single dot, except at the start.

* `Path.parts`, `Path.stem?`, `Path.join` — taking paths apart and putting them together.
* `Path.start`, `Path.step` — the places that a path leads through. A place is a list of names from
  the working directory, or from the root of all files.
-/

namespace MatchTree.Path

/-- The texts between slashes. -/
def pieces (path : String) : List String :=
  (Text.pieces (· == '/') path.toList).map String.ofList

/-- The pieces that count. -/
def parts (path : String) : List String :=
  (pieces path).zipIdx.filterMap fun (p, i) =>
    if p.isEmpty ∨ (p = "." ∧ i ≠ 0) then none else some p

/-- The name of the file at the end of a path. -/
def fileName? (path : String) : Option String :=
  (parts path).getLast?.filter fun p => p ≠ "." ∧ p ≠ ".."

/-- The characters before the last dot, if there is a dot. -/
def beforeLastDot? (name : List Char) : Option (List Char) :=
  let front := (name.reverse.dropWhile (· != '.')).drop 1
  if name.contains '.' then some front.reverse else none

/-- The name of a file without its last dot and what follows; a dot at the start is part of the
name. -/
def stem? (path : String) : Option String :=
  (fileName? path).map fun name =>
    match beforeLastDot? name.toList with
    | some (c :: cs) => String.ofList (c :: cs)
    | _ => name

/-- A path below a directory. -/
def join (directory path : String) : String :=
  if directory.isEmpty ∨ directory.toList.getLast? = some '/' then directory ++ path
  else directory ++ "/" ++ path

/-- The most bytes of a name. -/
def nameLimit : Nat := 255

/-- The most bytes of a path. -/
def pathLimit : Nat := 4095

/-- Whether a path has more bytes than it may. -/
def isTooLong (path : String) : Bool := pathLimit < path.utf8ByteSize

/-- Whether a path ends in a name with a slash after it. -/
def endsInSlash (path : String) : Bool :=
  (pieces path).getLast? == some "" &&
    ((pieces path).filter fun p => !p.isEmpty).getLast?.any fun p => p ≠ "." ∧ p ≠ ".."

/-- The root of all files. -/
def root : List String := ["/"]

/-- The device that reads as empty and keeps nothing. -/
def nullDevice : List String := ["/", "dev", "null"]

/-- The place where a path starts. -/
def start (path : String) : List String :=
  if path.toList.head? = some '/' then root else []

/-- Whether a place is the working directory or one of those around it. -/
def isAround (place : List String) : Bool := place == root || place.all (· == "..")

/-- The directory that holds a place. -/
def above (place : List String) : List String :=
  if place = root then place else if isAround place then place ++ [".."] else place.dropLast

/-- The place that a piece of a path leads to. -/
def step (place : List String) (piece : String) : List String :=
  if piece.isEmpty ∨ piece = "." then place
  else if piece = ".." then above place
  else place ++ [piece]

end MatchTree.Path
