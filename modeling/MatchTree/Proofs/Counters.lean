import Mathlib.Algebra.BigOperators.Group.List.Basic
import Mathlib.Algebra.Ring.Nat
import MatchTree.Packet.Headers

/-!
# What the counters of a flow hold

* `Sighting` — a packet of a flow as it is counted: its length, and whether it comes from the
  source.
* `Sighting.total` — the bytes of one direction, added up without a cap.
* `FlowCounters.bytes` — the counter of a direction.
* `FlowCounters.recordAll` — packets are counted one after another.

Principal results: `toNat_bytes_record` — a packet adds its length to the counter of its direction,
up to the cap, and nothing to the other one; `toNat_bytes_recordAll` — a run adds the exact sum, and
one cap at the end is as good as a cap after each packet; `recordAll_saturates` — so the counters
never decrease, go by their own direction alone, and do not depend on the order of the packets.
-/

namespace MatchTree

/-- A packet as it is counted. -/
structure Sighting where
  length : UInt16
  fromSource : Bool
  deriving DecidableEq

/-- The bytes that come from the source, or those that do not. -/
def Sighting.total (fromSource : Bool) (packets : List Sighting) : Nat :=
  ((packets.filter fun p => p.fromSource == fromSource).map fun p => p.length.toNat).sum

namespace Sighting

theorem total_cons (fromSource : Bool) (p : Sighting) (packets : List Sighting) :
    total fromSource (p :: packets) =
      (if p.fromSource = fromSource then p.length.toNat else 0) + total fromSource packets := by
  unfold total
  by_cases h : p.fromSource = fromSource
  · rw [List.filter_cons_of_pos (by simpa using h), List.map_cons, List.sum_cons, if_pos h]
  · rw [List.filter_cons_of_neg (by simpa using h), if_neg h, Nat.zero_add]

theorem total_append (fromSource : Bool) (before after : List Sighting) :
    total fromSource (before ++ after) = total fromSource before + total fromSource after := by
  simp [total]

theorem total_perm {packets others : List Sighting} (h : packets.Perm others) (fromSource : Bool) :
    total fromSource packets = total fromSource others :=
  ((h.filter _).map _).sum_eq

end Sighting

theorem toNat_saturatingAdd (a b : UInt32) :
    (saturatingAdd a b).toNat = min (a.toNat + b.toNat) (2 ^ 32 - 1) := by
  have hcap : min (a.toNat + b.toNat) (2 ^ 32 - 1) < 2 ^ 32 := by omega
  rw [saturatingAdd, UInt32.toNat_ofNat']
  exact Nat.mod_eq_of_lt hcap

namespace FlowCounters

/-- The counter of a direction. -/
def bytes (c : FlowCounters) (fromSource : Bool) : UInt32 :=
  if fromSource then c.srcBytes else c.dstBytes

/-- Counts packets one after another. -/
def recordAll (c : FlowCounters) (packets : List Sighting) : FlowCounters :=
  packets.foldl (fun c p => c.record p.length p.fromSource) c

theorem eq_of_bytes {c d : FlowCounters}
    (h : ∀ fromSource, c.bytes fromSource = d.bytes fromSource) :
    c = d := by
  obtain ⟨cs, cd⟩ := c
  obtain ⟨ds, dd⟩ := d
  have hsource : cs = ds := h true
  have hother : cd = dd := h false
  rw [hsource, hother]

/-- **A packet adds its length to the counter of its direction**, up to the cap. -/
theorem toNat_bytes_record (c : FlowCounters) (p : Sighting) (fromSource : Bool) :
    ((c.record p.length p.fromSource).bytes fromSource).toNat =
      min (2 ^ 32 - 1) ((c.bytes fromSource).toNat +
        if p.fromSource = fromSource then p.length.toNat else 0) := by
  have hbound := (c.bytes fromSource).toNat_lt
  obtain ⟨length, origin⟩ := p
  unfold record bytes at *
  cases origin with
  | true =>
    cases fromSource with
    | true => simpa [toNat_saturatingAdd] using Nat.min_comm _ _
    | false => simp at hbound ⊢; omega
  | false =>
    cases fromSource with
    | true => simp at hbound ⊢; omega
    | false => simpa [toNat_saturatingAdd] using Nat.min_comm _ _

/-- **A run adds the exact sum of its packets**, capped once: a sum past the cap stays past it,
whatever is added. -/
theorem toNat_bytes_recordAll (c : FlowCounters) (packets : List Sighting) (fromSource : Bool) :
    ((c.recordAll packets).bytes fromSource).toNat =
      min (2 ^ 32 - 1) ((c.bytes fromSource).toNat + Sighting.total fromSource packets) := by
  induction packets generalizing c with
  | nil =>
    have hbound := (c.bytes fromSource).toNat_lt
    show (c.bytes fromSource).toNat = min _ ((c.bytes fromSource).toNat + 0)
    omega
  | cons p packets ih =>
    have hrest := ih (c.record p.length p.fromSource)
    rw [toNat_bytes_record] at hrest
    rw [Sighting.total_cons]
    refine hrest.trans ?_
    omega

/-- **The counters of a flow are capped sums.** After any packets, from any start, each counter
holds what it held at first and the lengths of all packets of its direction, or the greatest 32-bit
number if that is less. No counter ever decreases; each is the same for any other flow that starts
with the same counter and has the same packets in that direction; and the packets may come in any
order. -/
theorem recordAll_saturates (c : FlowCounters) (packets : List Sighting) :
    (c.recordAll packets).srcBytes.toNat =
        min (2 ^ 32 - 1) (c.srcBytes.toNat + Sighting.total true packets) ∧
      (c.recordAll packets).dstBytes.toNat =
        min (2 ^ 32 - 1) (c.dstBytes.toNat + Sighting.total false packets) ∧
      (∀ fromSource before after, packets = before ++ after →
        c.bytes fromSource ≤ (c.recordAll before).bytes fromSource ∧
        (c.recordAll before).bytes fromSource ≤ (c.recordAll packets).bytes fromSource) ∧
      (∀ fromSource (d : FlowCounters) others, d.bytes fromSource = c.bytes fromSource →
        (others.filter fun p => p.fromSource == fromSource) =
          (packets.filter fun p => p.fromSource == fromSource) →
        (d.recordAll others).bytes fromSource = (c.recordAll packets).bytes fromSource) ∧
      ∀ others, packets.Perm others → c.recordAll others = c.recordAll packets := by
  refine ⟨toNat_bytes_recordAll c packets true, toNat_bytes_recordAll c packets false, ?_, ?_, ?_⟩
  · rintro fromSource before after rfl
    have hbound := (c.bytes fromSource).toNat_lt
    simp only [UInt32.le_iff_toNat_le, toNat_bytes_recordAll, Sighting.total_append]
    omega
  · intro fromSource d others hstart hpackets
    have htotal : Sighting.total fromSource others = Sighting.total fromSource packets := by
      rw [Sighting.total, hpackets, Sighting.total]
    refine UInt32.toNat_inj.1 ?_
    rw [toNat_bytes_recordAll, toNat_bytes_recordAll, hstart, htotal]
  · intro others hperm
    refine eq_of_bytes fun fromSource => UInt32.toNat_inj.1 ?_
    rw [toNat_bytes_recordAll, toNat_bytes_recordAll, Sighting.total_perm hperm]

/-- The source is six bytes below the cap, which the second packet reaches. -/
theorem brimming_recordAll_saturates :
    let c : FlowCounters := ⟨4294967289, 7⟩
    let packets : List Sighting := [⟨4, true⟩, ⟨1500, true⟩, ⟨40, false⟩, ⟨9, true⟩]
    c.recordAll packets = ⟨4294967295, 47⟩ ∧
      (c.recordAll [⟨4, true⟩]).bytes true ≤ (c.recordAll packets).bytes true ∧
      (recordAll ⟨0, 7⟩ [⟨40, false⟩]).bytes false = (c.recordAll packets).bytes false ∧
      c.recordAll [⟨9, true⟩, ⟨40, false⟩, ⟨1500, true⟩, ⟨4, true⟩] = c.recordAll packets := by
  obtain ⟨hsource, hother, hgrows, hapart, hperm⟩ := recordAll_saturates ⟨4294967289, 7⟩
    [⟨4, true⟩, ⟨1500, true⟩, ⟨40, false⟩, ⟨9, true⟩]
  refine ⟨?_, (hgrows true [⟨4, true⟩] _ rfl).2, hapart false ⟨0, 7⟩ [⟨40, false⟩] rfl rfl,
    hperm _ ?_⟩
  · refine eq_of_bytes fun fromSource => UInt32.toNat_inj.1 ?_
    cases fromSource with
    | true => exact hsource
    | false => exact hother
  · decide

end FlowCounters

end MatchTree
