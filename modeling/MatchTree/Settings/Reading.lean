import MatchTree.Datum
import MatchTree.Settings

/-!
# Settings as structured data

* `Slice.ofDatum?`, `Feature.ofDatum?`, `Budget.ofDatum?`, `Naming.ofDatum?`, `Manifest.ofDatum?` —
  read under the conventions of the format at hand. A structure is an object or a list of its
  fields; every field of a budget or a naming has a default, of the others only some.
* `Slice.toDatum`, `Feature.toDatum` — the same structures written as objects.
-/

namespace MatchTree

open Datum (Conventions required? defaulted? optional?)

/-- A field by its name. -/
def Field.ofDatum? (c : Conventions) (d : Datum) : Option Field :=
  (d.unitName? c).bind Field.ofName?

/-- A slice: `source`, `shift` (by default none) and `bits`. -/
def Slice.ofDatum? (c : Conventions) (d : Datum) : Option Slice := do
  match ← d.fields? c ["source", "shift", "bits"] with
  | [field, shift, bits] =>
    return {
      field := ← required? (Field.ofDatum? c) field
      shift := ← defaulted? 0 Datum.uint8? shift
      bits := ← required? Datum.uint8? bits }
  | _ => none

/-- A feature: `id`, `name` (by default empty), `bit_width`, `min`, `max` and perhaps
`extraction`. -/
def Feature.ofDatum? (c : Conventions) (d : Datum) : Option Feature := do
  match ← d.fields? c ["id", "name", "bit_width", "min", "max", "extraction"] with
  | [id, name, bitWidth, least, greatest, slice] =>
    return {
      id := ← required? Datum.uint32? id
      name := ← defaulted? "" Datum.text? name
      bitWidth := ← required? Datum.uint8? bitWidth
      least := ← required? Datum.uint32? least
      greatest := ← required? Datum.uint32? greatest
      slice? := ← optional? (Slice.ofDatum? c) slice }
  | _ => none

/-- A list of features. -/
def Feature.listOfDatum? (c : Conventions) (d : Datum) : Option (List Feature) :=
  d.listOf? (Feature.ofDatum? c)

/-- A budget; what is not given keeps its default. -/
def Budget.ofDatum? (c : Conventions) (d : Datum) : Option Budget := do
  let default := Budget.default
  match ← d.fields? c ["max_stages", "max_ranges_per_feature", "max_table_entries"] with
  | [stages, bands, rows] =>
    return {
      maxStages := ← defaulted? default.maxStages Datum.uint64? stages
      maxBands := ← defaulted? default.maxBands Datum.uint64? bands
      maxRows := ← defaulted? default.maxRows Datum.uint64? rows }
  | _ => none

/-- A naming; what is not given keeps its default. -/
def Naming.ofDatum? (c : Conventions) (d : Datum) : Option Naming := do
  let default := Naming.default
  match ← d.fields? c
      ["feature_table_prefix", "feature_action_prefix", "classify_table", "classify_action"] with
  | [featureTable, featureAction, verdictTable, verdictAction] =>
    return {
      featureTable := ← defaulted? default.featureTable Datum.text? featureTable
      featureAction := ← defaulted? default.featureAction Datum.text? featureAction
      verdictTable := ← defaulted? default.verdictTable Datum.text? verdictTable
      verdictAction := ← defaulted? default.verdictAction Datum.text? verdictAction }
  | _ => none

/-- A manifest: `budget` and `naming`, both by default all defaults, and `features`. -/
def Manifest.ofDatum? (c : Conventions) (d : Datum) : Option Manifest := do
  match ← d.fields? c ["budget", "naming", "features"] with
  | [budget, naming, features] =>
    return {
      budget := ← defaulted? Budget.default (Budget.ofDatum? c) budget
      naming := ← defaulted? Naming.default (Naming.ofDatum? c) naming
      features := ← required? (Feature.listOfDatum? c) features }
  | _ => none

def Slice.toDatum (s : Slice) : Datum :=
  .record
    [("source", .text s.field.name), ("shift", .int s.shift.toNat), ("bits", .int s.bits.toNat)]

/-- A feature as an object; a slice is written only if there is one. -/
def Feature.toDatum (f : Feature) : Datum :=
  .record <|
    [("id", .int f.id.toNat), ("name", .text f.name), ("bit_width", .int f.bitWidth.toNat),
      ("min", .int f.least.toNat), ("max", .int f.greatest.toNat)] ++
      (f.slice?.map fun s => ("extraction", s.toDatum)).toList

end MatchTree
