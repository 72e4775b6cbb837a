/-!
# Packet fields and bit slices

* `Field` — where a feature is read from, with its width in bits.
* `Slice` — some of the bits of a field: shifted right, then cut to a number of bits.
-/

namespace MatchTree

/-- A packet field or flow counter. -/
inductive Field where
  | ipTtl
  | ipLength
  | ipProtocol
  | srcPort
  | dstPort
  | srcBytes
  | dstBytes
  deriving DecidableEq, Inhabited

namespace Field

/-- The width of the field in bits. -/
def width : Field → UInt8
  | ipTtl | ipProtocol => 8
  | ipLength | srcPort | dstPort => 16
  | srcBytes | dstBytes => 32

def name : Field → String
  | ipTtl => "ip_ttl"
  | ipLength => "ip_length"
  | ipProtocol => "ip_protocol"
  | srcPort => "src_port"
  | dstPort => "dst_port"
  | srcBytes => "src_bytes"
  | dstBytes => "dst_bytes"

/-- Every field, in the order of the packet's headers. -/
def all : List Field := [ipTtl, ipLength, ipProtocol, srcPort, dstPort, srcBytes, dstBytes]

/-- The field with the given name. -/
def ofName? (s : String) : Option Field := all.find? fun f => f.name == s

theorem mem_all (f : Field) : f ∈ all := by cases f <;> decide

end Field

/-- The bits of a field from `shift` on, `bits` of them. -/
structure Slice where
  field : Field
  shift : UInt8
  bits : UInt8
  deriving DecidableEq, Inhabited

namespace Slice

/-- The low bits of a field. -/
def lowBits (field : Field) (bits : UInt8) : Slice := ⟨field, 0, bits⟩

/-- A whole field. -/
def whole (field : Field) : Slice := lowBits field field.width

/-- The slice of a raw value. A shift past the word leaves nothing, and 32 bits or more are all. -/
def apply (s : Slice) (raw : UInt32) : UInt32 :=
  let shifted := if s.shift < 32 then raw >>> s.shift.toUInt32 else 0
  if 32 ≤ s.bits then shifted else shifted &&& ((1 <<< s.bits.toUInt32) - 1)

end Slice

end MatchTree
