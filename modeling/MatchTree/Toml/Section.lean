import MatchTree.Datum

/-!
# Tables under construction

* `Item` — what a key stands for: a finished value, a table, or a list of tables.
* `Section` — a table with the marks that say how it came about: on the way to another one
  (`implicit`), or by a key with dots (`dotted`).
* `Section.define?` — gives a key a value; nothing is defined twice.
* `Section.descend?` — goes down a path of keys, making the tables that are missing.
-/

namespace MatchTree.Toml

/-- What a key of a table stands for. -/
inductive Item where
  | value (d : Datum)
  | table (implicit dotted : Bool) (entries : List (String × Item))
  /-- Tables that were opened one after another under the same name. -/
  | tables (elements : List (List (String × Item)))
  deriving Inhabited

/-- A table with the marks of how it came about. -/
structure Section where
  implicit : Bool
  dotted : Bool
  entries : List (String × Item)
  deriving Inhabited

namespace Section

/-- A table that a heading opens. -/
def fresh : Section := ⟨false, false, []⟩

/-- What a key stands for. -/
def find? (s : Section) (key : String) : Option Item :=
  (s.entries.find? fun e => e.1 == key).map (·.2)

/-- Replaces what a key stands for, or adds it at the end. -/
def put (s : Section) (key : String) (item : Item) : Section :=
  if (s.find? key).isSome then
    { s with entries := s.entries.map fun e => if e.1 == key then (key, item) else e }
  else { s with entries := s.entries ++ [(key, item)] }

/-- Takes a key out. -/
def erase (s : Section) (key : String) : Section :=
  { s with entries := s.entries.filter fun e => e.1 != key }

/-- A table as an item. -/
def toItem (s : Section) : Item := .table s.implicit s.dotted s.entries

/-- Applies `f` to the table at the end of a path. A missing table is made, with the mark `dotted`;
of several tables under one name the last is meant. With dots, a table that has its own heading
cannot be entered. -/
def descend? (dotted : Bool) (f : Section → Option (α × Section)) :
    List String → Section → Option (α × Section)
  | [], s => f s
  | key :: path, s =>
    match s.find? key with
    | none => do
      let (a, child) ← descend? dotted f path ⟨true, dotted, []⟩
      return (a, s.put key child.toItem)
    | some (.value _) => none
    | some (.table implicit isDotted entries) =>
      if dotted && !implicit then none
      else do
        let (a, child) ← descend? dotted f path ⟨implicit, isDotted, entries⟩
        return (a, s.put key child.toItem)
    | some (.tables elements) => do
      let (a, child) ← descend? dotted f path ⟨false, false, ← elements.getLast?⟩
      return (a, s.put key (.tables (elements.dropLast ++ [child.entries])))

/-- Gives the last key of a dotted key a value. The table that holds it has to be made by dotted
keys itself, if there are dots. -/
def define? (path : List String) (key : String) (d : Datum) (s : Section) : Option Section :=
  (descend? true
    (fun t =>
      if t.dotted = path.isEmpty ∨ (t.find? key).isSome then none
      else some ((), t.put key (.value d)))
    path s).map (·.2)

end Section

mutual

/-- An item as a value. -/
def Item.toDatum : Item → Datum
  | .value d => d
  | .table _ _ entries => .record (entriesData entries)
  | .tables elements => .list (elementsData elements)

/-- The entries of a table as values. -/
def entriesData : List (String × Item) → List (String × Datum)
  | [] => []
  | (key, item) :: rest => (key, item.toDatum) :: entriesData rest

/-- The tables of a list as values. -/
def elementsData : List (List (String × Item)) → List Datum
  | [] => []
  | entries :: rest => .record (entriesData entries) :: elementsData rest

end

/-- A table as a value. -/
def Section.toDatum (s : Section) : Datum := .record (entriesData s.entries)

end MatchTree.Toml
