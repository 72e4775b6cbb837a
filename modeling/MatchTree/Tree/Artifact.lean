import MatchTree.Json.Printer
import MatchTree.Json.Reader
import MatchTree.Tree.ArrayExport

/-!
# Trees as JSON texts

* `Tree.toJson` — a tree as an object with its array of nodes.
* `Tree.ofJson` — reads that form or the form with parallel arrays, in this order. Structures may be
  objects or lists of their fields.
* `Node.ofDatum?`, `Tree.ofDatum?`, `ArrayExport.ofDatum?` — the decoders of the forms.

A text is refused as malformed if its value is cut short or followed by anything, and as another
shape if its value is in neither form; the shape is judged before what follows the value.
-/

namespace MatchTree

/-- The most arrays and objects that a text may nest. -/
def Json.depthLimit : Nat := 127

def Verdict.toDatum (v : Verdict) : Datum := .text v.name

/-- A verdict by its name. -/
def Verdict.ofDatum? (d : Datum) : Option Verdict :=
  (d.unitName? .retriedJson).bind Verdict.ofName?

namespace Node

def toDatum : Node → Datum
  | .split feature threshold left right =>
    .record [("kind", .text "split"), ("feature", .int feature.toNat),
      ("threshold", .int threshold.toInt), ("left", .int left.toNat), ("right", .int right.toNat)]
  | .leaf v => .record [("kind", .text "leaf"), ("class", v.toDatum)]

/-- The kinds of nodes. -/
inductive Kind where
  | split
  | leaf

/-- A kind by its name or its number. -/
def Kind.ofDatum? : Datum → Option Kind
  | .text s => if s = "split" then some split else if s = "leaf" then some leaf else none
  | .int i => if i = 0 then some split else if i = 1 then some leaf else none
  | _ => none

/-- The fields of a node of a known kind. -/
def ofFields? (kind : Kind) (d : Datum) : Option Node :=
  match kind with
  | .split => do
    match ← d.fields? .retriedJson ["feature", "threshold", "left", "right"] with
    | [feature, threshold, left, right] =>
      return .split (← Datum.required? Datum.uint32? feature)
        (← Datum.required? Datum.int64? threshold) (← Datum.required? Datum.uint32? left)
        (← Datum.required? Datum.uint32? right)
    | _ => none
  | .leaf => do
    match ← d.fields? .retriedJson ["class"] with
    | [verdict] => return .leaf (← Datum.required? Verdict.ofDatum? verdict)
    | _ => none

/-- A node from an object with a kind among its keys, or from a list that starts with its kind. -/
def ofDatum? : Datum → Option Node
  | .record entries => do
    match Datum.valuesOf "kind" entries with
    | [kind] => ofFields? (← Kind.ofDatum? kind) (.record entries)
    | _ => none
  | .list (kind :: fields) => do ofFields? (← Kind.ofDatum? kind) (.list fields)
  | _ => none

end Node

namespace Tree

def toDatum (t : Tree) : Datum :=
  .record [("nodes", .list (t.nodes.toList.map Node.toDatum))]

/-- The text of a tree. -/
def toJson (t : Tree) : String := Json.compactText t.toDatum

/-- A tree from an object with an array of nodes. -/
def ofDatum? (d : Datum) : Option Tree := do
  match ← d.fields? .retriedJson ["nodes"] with
  | [nodes] => return ⟨(← Datum.required? (Datum.listOf? Node.ofDatum?) nodes).toArray⟩
  | _ => none

end Tree

/-- Counts from lists of numbers, or else from numbers. -/
def Counts.ofDatum? (d : Datum) : Option Counts :=
  ((d.listOf? (Datum.listOf? Datum.real?)).map outputs) <|>
    ((d.listOf? Datum.real?).map single)

/-- Parallel arrays from an object. -/
def ArrayExport.ofDatum? (d : Datum) : Option ArrayExport := do
  match ← d.fields? .retriedJson
      ["children_left", "children_right", "feature", "threshold", "value"] with
  | [left, right, feature, threshold, counts] =>
    return {
      left := ← Datum.required? (Datum.listOf? Datum.int64?) left
      right := ← Datum.required? (Datum.listOf? Datum.int64?) right
      feature := ← Datum.required? (Datum.listOf? Datum.int64?) feature
      threshold := ← Datum.required? (Datum.listOf? Datum.real?) threshold
      counts := ← Datum.required? (Datum.listOf? Counts.ofDatum?) counts }
  | _ => none

/-- The tree that a value denotes in either form; `none` if it is in neither. -/
def Tree.ofEitherForm? (d : Datum) : Option (Except Fault Tree) :=
  match Tree.ofDatum? d with
  | some t => some (.ok t)
  | none => (ArrayExport.ofDatum? d).map ArrayExport.tree

/-- The tree of a text. -/
def Tree.ofJson (s : String) : Except Fault Tree :=
  match Json.value? Json.depthLimit (Json.skipBlanks s.toList) with
  | none => .error (.artifact .malformedText)
  | some (d, rest) =>
    match Tree.ofEitherForm? d with
    | none => .error (.artifact .otherShape)
    | some tree =>
      if (Json.skipBlanks rest).isEmpty then tree else .error (.artifact .malformedText)

end MatchTree
