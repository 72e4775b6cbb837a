import MatchTree.Number.Binary64

/-!
# Structured data

* `Datum` — the values that a JSON or a TOML text denotes.
* `Datum.Conventions` — where the two formats differ once they are read: whether items past the
  last field of a structure are ignored, and what may stand beside the name of a unit value.
* `fields?` — a structure from an object (unknown keys ignored, a known key at most once) or from
  a list of its fields in order.
* `unitName?` — the name of a unit value: a text, or an object with that one key.
-/

namespace MatchTree

/-- A value of a structured text. -/
inductive Datum where
  | null
  | bool (b : Bool)
  | int (i : Int)
  | real (x : Binary64)
  | text (s : String)
  | list (items : List Datum)
  /-- Keys and values in the order written. -/
  | record (entries : List (String × Datum))
  deriving Inhabited

namespace Datum

/-- Rules of a format for values that are read as structures and names. -/
structure Conventions where
  /-- Items past the last field of a structure written as a list are ignored. -/
  ignoresExtraItems : Bool
  /-- What may stand beside the name of a unit value written as an object. -/
  isUnit : Datum → Bool

/-- The conventions of JSON values: nothing may follow the last field, and a unit is `null`. -/
def Conventions.json : Conventions where
  ignoresExtraItems := false
  isUnit
    | .null => true
    | _ => false

/-- The conventions of JSON values read twice over, where an empty object is a unit as well. -/
def Conventions.retriedJson : Conventions where
  ignoresExtraItems := false
  isUnit
    | .null | .record [] => true
    | _ => false

/-- The conventions of TOML values: extra items are ignored, and a unit is anything empty. -/
def Conventions.toml : Conventions where
  ignoresExtraItems := true
  isUnit
    | .list [] | .record [] => true
    | _ => false

/-- A whole number from `0` up to a bound. -/
def natBelow? (bound : Nat) : Datum → Option Nat
  | .int i => if 0 ≤ i ∧ i < bound then some i.toNat else none
  | _ => none

def uint8? (d : Datum) : Option UInt8 := (d.natBelow? UInt8.size).map UInt8.ofNat

def uint16? (d : Datum) : Option UInt16 := (d.natBelow? UInt16.size).map UInt16.ofNat

def uint32? (d : Datum) : Option UInt32 := (d.natBelow? UInt32.size).map UInt32.ofNat

def uint64? (d : Datum) : Option UInt64 := (d.natBelow? UInt64.size).map UInt64.ofNat

def int64? : Datum → Option Int64
  | .int i => if Int64.minValue.toInt ≤ i ∧ i ≤ Int64.maxValue.toInt then some (Int64.ofInt i) else none
  | _ => none

/-- A number of either kind, as a double. -/
def real? : Datum → Option Binary64
  | .int i => some (Binary64.ofInt i)
  | .real x => some x
  | _ => none

def text? : Datum → Option String
  | .text s => some s
  | _ => none

def list? : Datum → Option (List Datum)
  | .list ds => some ds
  | _ => none

/-- The items of a list, each read by `f`. -/
def listOf? (f : Datum → Option α) (d : Datum) : Option (List α) := do
  (← d.list?).mapM f

/-- The values given to a key. -/
def valuesOf (key : String) (entries : List (String × Datum)) : List Datum :=
  (entries.filter fun e => e.1 == key).map (·.2)

/-- The one value given to a key, if any; a second one is refused. -/
def atMostOne? : List Datum → Option (Option Datum)
  | [] => some none
  | [d] => some (some d)
  | _ => none

/-- The fields of a structure, in the order of `names`; a field that is not given is `none`. -/
def fields? (c : Conventions) (names : List String) : Datum → Option (List (Option Datum))
  | .record entries => names.mapM fun key => atMostOne? (valuesOf key entries)
  | .list items =>
    if items.length ≤ names.length ∨ c.ignoresExtraItems then
      some ((List.range names.length).map fun i => items[i]?)
    else none
  | _ => none

/-- The name of a unit value: a text, or the only key of an object. -/
def unitName? (c : Conventions) : Datum → Option String
  | .text s => some s
  | .record [(key, payload)] => if c.isUnit payload then some key else none
  | _ => none

/-- A required field. -/
def required? (f : Datum → Option α) (field : Option Datum) : Option α := field.bind f

/-- A field with a default. -/
def defaulted? (default : α) (f : Datum → Option α) : Option Datum → Option α
  | none => some default
  | some d => f d

/-- A field that may be missing or null. -/
def optional? (f : Datum → Option α) : Option Datum → Option (Option α)
  | none | some .null => some none
  | some d => (f d).map some

end Datum

end MatchTree
