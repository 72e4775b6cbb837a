import MatchTree.Console.Path
import MatchTree.Fault

/-!
# A store of files

* `FileStore` — files by place, and the directories made besides; every directory on the way to a
  file exists, and so do the working directory and those around it.
* `FileStore.read`, `FileStore.write` — whole files by path. Every piece of a path but the last has
  to lead through a directory; writing makes the directories that are missing.
-/

namespace MatchTree

/-- Files and directories by place. -/
structure FileStore where
  files : List (List String × String)
  directories : List (List String)
  deriving Inhabited

namespace FileStore

/-- What stands at a place. -/
inductive Item where
  | file (content : String)
  | directory

/-- What stands at a place. -/
def at? (s : FileStore) (place : List String) : Option Item :=
  if place = Path.nullDevice then some (.file "")
  else
    match s.files.find? fun f => f.1 == place with
    | some (_, content) => some (.file content)
    | none =>
      if Path.isAround place ∨ place ∈ s.directories ∨ place.isPrefixOf Path.nullDevice ∨
          s.files.any (fun f => place.isPrefixOf f.1)
      then some .directory
      else none

/-- Follows the pieces of a path; each has to start from a directory. -/
def follow (s : FileStore) (place : List String) : List String → Except FileFlaw (List String)
  | [] => .ok place
  | piece :: pieces =>
    match s.at? place with
    | some .directory =>
      if Path.nameLimit < piece.utf8ByteSize then .error .nameTooLong
      else s.follow (Path.step place piece) pieces
    | some (.file _) => .error .notDirectory
    | none => .error .notFound

/-- The place of a path. -/
def place (s : FileStore) (path : String) : Except FileFlaw (List String) :=
  if Path.isTooLong path then .error .nameTooLong
  else s.follow (Path.start path) (Path.pieces path)

/-- The content of a file. -/
def read (s : FileStore) (path : String) : Except FileFlaw String := do
  match s.at? (← s.place path) with
  | some (.file content) => return content
  | some .directory => .error .isDirectory
  | none => .error .notFound

/-- Makes one directory, where nothing stands yet. -/
def makeDirectory (s : FileStore) (start parts : List String) : Except FileFlaw FileStore := do
  let place ← s.follow start parts
  match s.at? place with
  | some _ => .error .alreadyExists
  | none => return { s with directories := s.directories ++ [place] }

/-- Whether the parts of a path lead to a directory. -/
def isDirectory (s : FileStore) (start parts : List String) : Bool :=
  match (s.follow start parts).map s.at? with
  | .ok (some .directory) => true
  | _ => false

/-- Makes a directory, unless it is there. -/
def ensureDirectory (s : FileStore) (start parts : List String) : Except FileFlaw FileStore :=
  match s.makeDirectory start parts with
  | .ok s => .ok s
  | .error flaw => if s.isDirectory start parts then .ok s else .error flaw

/-- Makes the directory at the end of a path, its parts given last first. Those above it are made
only if it cannot be made without them. -/
def makeDirectories (s : FileStore) (start : List String) :
    List String → Except FileFlaw FileStore
  | [] => .ok s
  | part :: front => do
    let parts := (part :: front).reverse
    match s.makeDirectory start parts with
    | .error .notFound => (← s.makeDirectories start front).ensureDirectory start parts
    | _ => s.ensureDirectory start parts

/-- Puts a file at a place. -/
def put (s : FileStore) (place : List String) (content : String) : FileStore :=
  if place = Path.nullDevice then s
  else { s with files := s.files.filter (fun f => f.1 != place) ++ [(place, content)] }

/-- Writes a file, in place of one that is there. -/
def write (s : FileStore) (path content : String) : Except FileFlaw FileStore := do
  let s ← s.makeDirectories (Path.start path) (Path.parts path).dropLast.reverse
  if Path.endsInSlash path ∧ !Path.isTooLong path then .error .isDirectory
  else
    let place ← s.place path
    match s.at? place with
    | some .directory => .error .isDirectory
    | _ => return s.put place content

/-- The store with the given files, each by a path below the working directory. -/
def ofList (files : List (String × String)) : FileStore where
  files := files.map fun (path, content) => (Path.parts path, content)
  directories := []

/-- The files below the working directory, by path. -/
def toList (s : FileStore) : List (String × String) :=
  (s.files.filter fun (place, _) => place.head? ≠ some ".." ∧ place.head? ≠ some "/").map
    fun (place, content) => (String.intercalate "/" place, content)

end FileStore

end MatchTree
