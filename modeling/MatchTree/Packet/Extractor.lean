import MatchTree.Feature.Schema
import MatchTree.Packet.Headers
import MatchTree.Switch.Fault

/-!
# From frames to feature values

* `Extractor` — the slices of a schema, in its order.
* `Extractor.ofSchema` — every feature needs a slice; the first without one is a fault.
* `Extractor.valuesOf` — the feature values of a frame.
-/

namespace MatchTree

/-- The slices of a schema. -/
structure Extractor where
  slices : List Slice
  deriving DecidableEq, Inhabited

namespace Extractor

/-- The slice of a feature. -/
def sliceOf (f : Feature) : Except SwitchFault Slice :=
  match f.slice? with
  | some s => .ok s
  | none => .error (.noSlice f.id)

/-- The slices of all features. -/
def ofSchema (schema : Schema) : Except SwitchFault Extractor := do
  return ⟨← schema.features.mapM sliceOf⟩

/-- The feature values for the fields of a packet. -/
def values (x : Extractor) (h : Headers) (counters : FlowCounters) : List UInt32 :=
  x.slices.map fun s => s.apply (h.raw counters s.field)

/-- The feature values of a frame. -/
def valuesOf (x : Extractor) (frame : List UInt8) (counters : FlowCounters) :
    Except SwitchFault (List UInt32) :=
  match Headers.ofFrame? frame with
  | some h => .ok (x.values h counters)
  | none => .error (.badFrame frame.length)

end Extractor

end MatchTree
