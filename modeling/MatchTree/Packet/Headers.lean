import MatchTree.Feature.Slice

/-!
# Header fields of a frame

* `Headers.ofFrame?` — reads an Ethernet frame with an IPv4 or IPv6 header. IPv4 options are
  skipped; an IPv6 next header is taken as it is.
* `FlowCounters` — the bytes of a flow in each direction, which stop at the greatest 32-bit number.
* `Headers.raw` — the value of a field before slicing.

A frame is read by positions that need not exist, so nothing is read outside it.
-/

namespace MatchTree

/-- The fields of one packet; ports are zero unless it is TCP or UDP. -/
structure Headers where
  ttl : UInt8
  length : UInt16
  protocol : UInt8
  srcPort : UInt16
  dstPort : UInt16
  deriving DecidableEq, Inhabited

/-- Two bytes as a number, the first one more significant. -/
def joinBytes (high low : UInt8) : UInt16 := UInt16.ofNat (high.toNat * 256 + low.toNat)

/-- The two-byte number at a position. -/
def word? (bytes : List UInt8) (i : Nat) : Option UInt16 := do
  return joinBytes (← bytes[i]?) (← bytes[i + 1]?)

namespace Headers

/-- The source and destination ports at the start of a segment, if the protocol has them and all
four bytes are there. -/
def ports (protocol : UInt8) (segment : List UInt8) : UInt16 × UInt16 :=
  if protocol = 6 ∨ protocol = 17 then
    match segment with
    | a :: b :: c :: d :: _ => (joinBytes a b, joinBytes c d)
    | _ => (0, 0)
  else (0, 0)

/-- Reads an IPv4 packet: at least twenty bytes, and as many as its header length says. -/
def ofIpv4? (packet : List UInt8) : Option Headers := do
  let headerLength := 4 * ((← packet[0]?) &&& 0x0f).toNat
  if 20 ≤ headerLength ∧ headerLength ≤ packet.length then
    let protocol ← packet[9]?
    let (srcPort, dstPort) := ports protocol (packet.drop headerLength)
    return {
      ttl := ← packet[8]?
      length := ← word? packet 2
      protocol := protocol
      srcPort := srcPort
      dstPort := dstPort }
  else none

/-- Reads an IPv6 packet: at least forty bytes. -/
def ofIpv6? (packet : List UInt8) : Option Headers := do
  if 40 ≤ packet.length then
    let protocol ← packet[6]?
    let (srcPort, dstPort) := ports protocol (packet.drop 40)
    return {
      ttl := ← packet[7]?
      length := ← word? packet 4
      protocol := protocol
      srcPort := srcPort
      dstPort := dstPort }
  else none

/-- Reads an Ethernet frame. -/
def ofFrame? (frame : List UInt8) : Option Headers := do
  let etherType ← word? frame 12
  if etherType = 0x0800 then ofIpv4? (frame.drop 14)
  else if etherType = 0x86dd then ofIpv6? (frame.drop 14)
  else none

end Headers

/-- The bytes of a flow from its source and from its destination. -/
structure FlowCounters where
  srcBytes : UInt32
  dstBytes : UInt32
  deriving DecidableEq, Inhabited

/-- The sum, or the greatest 32-bit number where the sum is greater. -/
def saturatingAdd (a b : UInt32) : UInt32 :=
  UInt32.ofNat (min (a.toNat + b.toNat) (UInt32.size - 1))

namespace FlowCounters

def zero : FlowCounters := ⟨0, 0⟩

/-- Accounts for a packet. -/
def record (c : FlowCounters) (length : UInt16) (fromSource : Bool) : FlowCounters :=
  if fromSource then { c with srcBytes := saturatingAdd c.srcBytes length.toUInt32 }
  else { c with dstBytes := saturatingAdd c.dstBytes length.toUInt32 }

end FlowCounters

/-- The value of a field before slicing. -/
def Headers.raw (h : Headers) (counters : FlowCounters) : Field → UInt32
  | .ipTtl => h.ttl.toUInt32
  | .ipLength => h.length.toUInt32
  | .ipProtocol => h.protocol.toUInt32
  | .srcPort => h.srcPort.toUInt32
  | .dstPort => h.dstPort.toUInt32
  | .srcBytes => counters.srcBytes
  | .dstBytes => counters.dstBytes

end MatchTree
