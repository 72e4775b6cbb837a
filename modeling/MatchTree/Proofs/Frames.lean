import MatchTree.Packet.Headers
import MatchTree.Proofs.Traps

/-!
# What a frame tells

* `Guarded.suffix`, `Guarded.wordAt` — the bytes from a position on, and a two-byte number, where
  the positions have to exist; `Headers.guardedOfFrame` reads a frame with these.
* `IpVersion` — the two versions of the internet protocol, each with the positions of its fields.
* `IpVersion.Framed` — a frame carries a packet of a version whose header ends at a position.
* `IpVersion.Tells` — the bytes at the positions of a version are those of some header fields.
* `SameFields` — two frames have the same bytes at these positions.

Principal results: `guardedOfFrame_eq` — no byte outside a frame is read; `ofFrame?_eq_some_iff` —
the fields of a frame are read if and only if it is framed, and they are what its bytes tell;
`exists_ofFrame?_iff` — so a frame is accepted by its type, its header length and its length alone;
`ofFrame?_append` — bytes at the end change nothing but ports that were cut off;
`ofFrame?_determined` — all of this in one statement, with what a frame is read for.
-/

namespace MatchTree

/-! ## Reading with every position checked -/

namespace Guarded

/-- The items from a position on; the position may be the end. -/
def suffix {α : Type} (xs : List α) (i : Nat) : Guarded (List α) :=
  if i ≤ xs.length then .ok (xs.drop i) else .error (.trap .outOfBounds)

/-- The two-byte number at a position. -/
def wordAt (bytes : List UInt8) (i : Nat) : Guarded UInt16 := do
  let high ← item bytes i
  let low ← item bytes (i + 1)
  return joinBytes high low

theorem suffix_eq_ok {α : Type} {xs : List α} {i : Nat} (h : i ≤ xs.length) :
    suffix xs i = .ok (xs.drop i) :=
  if_pos h

theorem wordAt_eq_ok {bytes : List UInt8} {i : Nat} {w : UInt16} (h : word? bytes i = some w) :
    wordAt bytes i = .ok w := by
  simp only [word?, Option.bind_eq_bind, Option.bind_eq_some_iff] at h
  obtain ⟨high, hhigh, low, hlow, hw⟩ := h
  cases hw
  rw [wordAt, item_eq_ok hhigh, item_eq_ok hlow]
  rfl

end Guarded

theorem exists_word? {bytes : List UInt8} {i : Nat} (h : i + 1 < bytes.length) :
    ∃ w, word? bytes i = some w := by
  have hi : i < bytes.length := by omega
  refine ⟨joinBytes bytes[i] bytes[i + 1], ?_⟩
  rw [word?, List.getElem?_eq_getElem hi, List.getElem?_eq_getElem h]
  rfl

theorem word?_eq_none {bytes : List UInt8} {i : Nat} (h : bytes.length ≤ i + 1) :
    word? bytes i = none := by
  rw [word?, List.getElem?_eq_none h]
  cases bytes[i]? <;> rfl

theorem word?_drop (bytes : List UInt8) (n i : Nat) :
    word? (bytes.drop n) i = word? bytes (n + i) := by
  rw [word?, word?, List.getElem?_drop, List.getElem?_drop, Nat.add_assoc]

theorem word?_append {bytes suffix : List UInt8} {i : Nat} {w : UInt16}
    (h : word? bytes i = some w) :
    word? (bytes ++ suffix) i = some w := by
  have hlength : i + 1 < bytes.length := by
    by_contra hshort
    rw [word?_eq_none (by omega)] at h
    cases h
  rw [← h, word?, word?, List.getElem?_append_left hlength, List.getElem?_append_left (by omega)]

theorem getElem?_append_of_some {bytes suffix : List UInt8} {i : Nat} {b : UInt8}
    (h : bytes[i]? = some b) : (bytes ++ suffix)[i]? = some b := by
  rw [List.getElem?_append_left (List.getElem?_eq_some_iff.1 h).1, h]

namespace Headers

open Guarded

/-- The ports at the start of a segment. -/
def guardedPorts (protocol : UInt8) (segment : List UInt8) : Guarded (UInt16 × UInt16) :=
  if (protocol = 6 ∨ protocol = 17) ∧ 4 ≤ segment.length then do
    let source ← wordAt segment 0
    let destination ← wordAt segment 2
    return (source, destination)
  else return (0, 0)

/-- The fields of an IPv4 packet, in order of their checks. -/
def guardedOfIpv4 (packet : List UInt8) : Guarded (Option Headers) :=
  if packet.length < 20 then return none
  else do
    let headerLength := 4 * ((← item packet 0) &&& 0x0f).toNat
    if headerLength < 20 ∨ packet.length < headerLength then return none
    else
      let protocol ← item packet 9
      let (source, destination) ← guardedPorts protocol (← suffix packet headerLength)
      let ttl ← item packet 8
      let length ← wordAt packet 2
      return some ⟨ttl, length, protocol, source, destination⟩

/-- The fields of an IPv6 packet. -/
def guardedOfIpv6 (packet : List UInt8) : Guarded (Option Headers) :=
  if packet.length < 40 then return none
  else do
    let protocol ← item packet 6
    let (source, destination) ← guardedPorts protocol (← suffix packet 40)
    let ttl ← item packet 7
    let length ← wordAt packet 4
    return some ⟨ttl, length, protocol, source, destination⟩

/-- The fields of a frame. -/
def guardedOfFrame (frame : List UInt8) : Guarded (Option Headers) :=
  if frame.length < 14 then return none
  else do
    let etherType ← wordAt frame 12
    if etherType = 0x0800 then guardedOfIpv4 (← suffix frame 14)
    else if etherType = 0x86dd then guardedOfIpv6 (← suffix frame 14)
    else return none

/-- The ports are two numbers if all their bytes are there. -/
theorem ports_eq {protocol : UInt8} (hprotocol : protocol = 6 ∨ protocol = 17)
    {segment : List UInt8} {source destination : UInt16} (hsource : word? segment 0 = some source)
    (hdestination : word? segment 2 = some destination) :
    ports protocol segment = (source, destination) := by
  match segment with
  | a :: b :: c :: d :: rest =>
    cases hsource
    cases hdestination
    exact if_pos hprotocol
  | [] => cases hsource
  | [a] => cases hsource
  | [a, b] => cases hdestination
  | [a, b, c] => cases hdestination

/-- The ports are looked for in the first four bytes. -/
theorem ports_take (protocol : UInt8) (segment : List UInt8) :
    ports protocol (segment.take 4) = ports protocol segment := by
  match segment with
  | a :: b :: c :: d :: rest => rfl
  | [] => rfl
  | [a] => rfl
  | [a, b] => rfl
  | [a, b, c] => rfl

theorem ports_eq_zero {protocol : UInt8} {segment : List UInt8}
    (h : ¬ ((protocol = 6 ∨ protocol = 17) ∧ 4 ≤ segment.length)) :
    ports protocol segment = (0, 0) := by
  unfold ports
  split
  · rename_i hprotocol
    split
    · exact absurd ⟨hprotocol, by simp⟩ h
    · rfl
  · rfl

theorem guardedPorts_eq (protocol : UInt8) (segment : List UInt8) :
    guardedPorts protocol segment = .ok (ports protocol segment) := by
  unfold guardedPorts
  split
  · rename_i h
    obtain ⟨source, hsource⟩ := @exists_word? segment 0 (by omega)
    obtain ⟨destination, hdestination⟩ := @exists_word? segment 2 (by omega)
    rw [wordAt_eq_ok hsource, wordAt_eq_ok hdestination, ports_eq h.1 hsource hdestination]
    rfl
  · rename_i h
    rw [ports_eq_zero h]
    rfl

/-- An IPv4 packet that has all bytes of its fields is read if its header length is that of a header
and no longer than the packet. -/
theorem ofIpv4?_eq {packet : List UInt8} {first ttl protocol : UInt8} {length : UInt16}
    (hfirst : packet[0]? = some first) (httl : packet[8]? = some ttl)
    (hprotocol : packet[9]? = some protocol) (hlength : word? packet 2 = some length) :
    ofIpv4? packet =
      if 20 ≤ 4 * (first &&& 0x0f).toNat ∧ 4 * (first &&& 0x0f).toNat ≤ packet.length then
        some ⟨ttl, length, protocol,
          (ports protocol (packet.drop (4 * (first &&& 0x0f).toNat))).1,
          (ports protocol (packet.drop (4 * (first &&& 0x0f).toNat))).2⟩
      else none := by
  simp only [ofIpv4?, hfirst, httl, hprotocol, hlength, bind, Option.bind]
  rfl

theorem ofIpv6?_eq {packet : List UInt8} {ttl protocol : UInt8} {length : UInt16}
    (httl : packet[7]? = some ttl) (hprotocol : packet[6]? = some protocol)
    (hlength : word? packet 4 = some length) :
    ofIpv6? packet =
      if 40 ≤ packet.length then
        some ⟨ttl, length, protocol, (ports protocol (packet.drop 40)).1,
          (ports protocol (packet.drop 40)).2⟩
      else none := by
  simp only [ofIpv6?, httl, hprotocol, hlength, bind, Option.bind]
  rfl

theorem ofIpv4?_eq_none {packet : List UInt8} (h : packet.length < 20) : ofIpv4? packet = none := by
  unfold ofIpv4?
  cases packet[0]? with
  | none => rfl
  | some first => exact if_neg (by omega)

theorem guardedOfIpv4_eq (packet : List UInt8) :
    guardedOfIpv4 packet = .ok (ofIpv4? packet) := by
  unfold guardedOfIpv4
  split
  · rename_i hshort
    rw [ofIpv4?_eq_none hshort]
    rfl
  · rename_i hlong
    have hfirst := List.getElem?_eq_getElem (l := packet) (i := 0) (by omega)
    have httl := List.getElem?_eq_getElem (l := packet) (i := 8) (by omega)
    have hprotocol := List.getElem?_eq_getElem (l := packet) (i := 9) (by omega)
    obtain ⟨length, hlength⟩ := @exists_word? packet 2 (by omega)
    rw [ofIpv4?_eq hfirst httl hprotocol hlength, item_eq_ok hfirst, item_eq_ok hprotocol,
      item_eq_ok httl, wordAt_eq_ok hlength]
    show (if _ then _ else _) = _
    split
    · rw [if_neg (by omega)]
      rfl
    · rw [if_pos (by omega), suffix_eq_ok (by omega)]
      show (guardedPorts _ _ >>= fun ports => _) = _
      rw [guardedPorts_eq]
      rfl

theorem guardedOfIpv6_eq (packet : List UInt8) :
    guardedOfIpv6 packet = .ok (ofIpv6? packet) := by
  unfold guardedOfIpv6
  split
  · rename_i hshort
    have hnone : ofIpv6? packet = none := if_neg (by omega)
    rw [hnone]
    rfl
  · rename_i hlong
    have httl := List.getElem?_eq_getElem (l := packet) (i := 7) (by omega)
    have hprotocol := List.getElem?_eq_getElem (l := packet) (i := 6) (by omega)
    obtain ⟨length, hlength⟩ := @exists_word? packet 4 (by omega)
    rw [ofIpv6?_eq httl hprotocol hlength, item_eq_ok hprotocol, item_eq_ok httl,
      wordAt_eq_ok hlength, suffix_eq_ok (by omega), if_pos (by omega)]
    show (guardedPorts _ _ >>= fun ports => _) = _
    rw [guardedPorts_eq]
    rfl

/-- **No byte outside a frame is read**, however short the frame is. -/
theorem guardedOfFrame_eq (frame : List UInt8) :
    guardedOfFrame frame = .ok (ofFrame? frame) := by
  unfold guardedOfFrame ofFrame?
  split
  · rw [word?_eq_none (by omega)]
    rfl
  · obtain ⟨etherType, htype⟩ := @exists_word? frame 12 (by omega)
    rw [wordAt_eq_ok htype, htype, suffix_eq_ok (by omega)]
    show (if _ then _ else _) = _
    simp only [bind, Option.bind]
    split
    · exact guardedOfIpv4_eq _
    · split
      · exact guardedOfIpv6_eq _
      · rfl

end Headers

/-! ## Where the fields stand -/

/-- The versions of the internet protocol. -/
inductive IpVersion where
  | v4
  | v6

/-- The nibble that counts the words of an IPv4 header. -/
def headerNibble? (frame : List UInt8) : Option Nat :=
  (frame[14]?).map fun first => (first &&& 0x0f).toNat

namespace IpVersion

/-- The type of a frame with a packet of the version. -/
def etherType : IpVersion → UInt16
  | v4 => 0x0800
  | v6 => 0x86dd

/-- The position after the header of the packet. -/
def headerEnd? : IpVersion → List UInt8 → Option Nat
  | v4, frame => (headerNibble? frame).map fun words => 14 + 4 * words
  | v6, _ => some 54

/-- The position after the shortest header. -/
def leastEnd : IpVersion → Nat
  | v4 => 34
  | v6 => 54

def lengthAt : IpVersion → Nat
  | v4 => 16
  | v6 => 18

def ttlAt : IpVersion → Nat
  | v4 => 22
  | v6 => 21

def protocolAt : IpVersion → Nat
  | v4 => 23
  | v6 => 20

/-- The frame carries a packet of the version, whose header ends at a position of the frame. -/
structure Framed (v : IpVersion) (frame : List UInt8) (headerEnd : Nat) : Prop where
  typed : word? frame 12 = some v.etherType
  ends : v.headerEnd? frame = some headerEnd
  least : v.leastEnd ≤ headerEnd
  inside : headerEnd ≤ frame.length

/-- The bytes at the positions of the version are those of the fields. -/
structure Tells (v : IpVersion) (frame : List UInt8) (headerEnd : Nat) (h : Headers) : Prop where
  ttl : frame[v.ttlAt]? = some h.ttl
  length : word? frame v.lengthAt = some h.length
  protocol : frame[v.protocolAt]? = some h.protocol
  ports : Headers.ports h.protocol (frame.drop headerEnd) = (h.srcPort, h.dstPort)

/-- Two frames have the same bytes where a packet of the version has its fields: the length of its
header, its own length, time to live, protocol, and the first four bytes after its header. -/
structure Alike (v : IpVersion) (frame other : List UInt8) : Prop where
  nibble : v = .v4 → headerNibble? frame = headerNibble? other
  length : word? frame v.lengthAt = word? other v.lengthAt
  ttl : frame[v.ttlAt]? = other[v.ttlAt]?
  protocol : frame[v.protocolAt]? = other[v.protocolAt]?
  segment : ∀ headerEnd, v.headerEnd? frame = some headerEnd →
    (frame.drop headerEnd).take 4 = (other.drop headerEnd).take 4

variable {v : IpVersion} {frame : List UInt8}

/-- The shortest header has all fields. -/
theorem exists_fields (h : v.leastEnd ≤ frame.length) :
    ∃ headerEnd ttl length protocol, v.headerEnd? frame = some headerEnd ∧
      frame[v.ttlAt]? = some ttl ∧ word? frame v.lengthAt = some length ∧
      frame[v.protocolAt]? = some protocol := by
  have hbyte : ∀ i, i < v.leastEnd → ∃ b, frame[i]? = some b := fun i hi =>
    ⟨_, List.getElem?_eq_getElem (Nat.lt_of_lt_of_le hi h)⟩
  have hends : ∃ headerEnd, v.headerEnd? frame = some headerEnd := by
    cases v with
    | v4 =>
      obtain ⟨first, hfirst⟩ := hbyte 14 (by decide)
      exact ⟨_, by rw [headerEnd?, headerNibble?, hfirst]; rfl⟩
    | v6 => exact ⟨54, rfl⟩
  obtain ⟨headerEnd, hends⟩ := hends
  obtain ⟨ttl, httl⟩ := hbyte v.ttlAt (by cases v <;> decide)
  obtain ⟨protocol, hprotocol⟩ := hbyte v.protocolAt (by cases v <;> decide)
  have hfits : v.lengthAt + 1 < v.leastEnd := by cases v <;> decide
  obtain ⟨length, hlength⟩ := @exists_word? frame _ (Nat.lt_of_lt_of_le hfits h)
  exact ⟨headerEnd, ttl, length, protocol, hends, httl, hlength, hprotocol⟩

theorem headerEnd?_append {headerEnd : Nat} (h : v.headerEnd? frame = some headerEnd)
    (suffix : List UInt8) : v.headerEnd? (frame ++ suffix) = some headerEnd := by
  cases v with
  | v4 =>
    obtain ⟨words, hwords, rfl⟩ := Option.map_eq_some_iff.1 h
    obtain ⟨first, hfirst, rfl⟩ := Option.map_eq_some_iff.1 hwords
    rw [headerEnd?, headerNibble?, getElem?_append_of_some hfirst]
    rfl
  | v6 => exact h

theorem Framed.append {headerEnd : Nat} (h : Framed v frame headerEnd) (suffix : List UInt8) :
    Framed v (frame ++ suffix) headerEnd where
  typed := word?_append h.typed
  ends := headerEnd?_append h.ends suffix
  least := h.least
  inside := by
    rw [List.length_append]
    exact Nat.le_add_right_of_le h.inside

namespace Alike

variable {other : List UInt8}

theorem ends (h : v.Alike frame other) : v.headerEnd? frame = v.headerEnd? other := by
  cases v with
  | v4 => rw [headerEnd?, headerEnd?, h.nibble rfl]
  | v6 => rfl

theorem symm (h : v.Alike frame other) : v.Alike other frame where
  nibble hv := (h.nibble hv).symm
  length := h.length.symm
  ttl := h.ttl.symm
  protocol := h.protocol.symm
  segment headerEnd hends := (h.segment headerEnd (h.ends.trans hends)).symm

end Alike

end IpVersion

/-- Two frames of one length and one type have the same bytes where packets of their version have
their fields. -/
structure SameFields (frame other : List UInt8) : Prop where
  size : frame.length = other.length
  etherType : word? frame 12 = word? other 12
  fields : ∀ v : IpVersion, word? frame 12 = some v.etherType → v.Alike frame other

theorem SameFields.symm {frame other : List UInt8} (h : SameFields frame other) :
    SameFields other frame where
  size := h.size.symm
  etherType := h.etherType.symm
  fields v hv := (h.fields v (h.etherType.trans hv)).symm

namespace Headers

open IpVersion

variable {v : IpVersion} {frame : List UInt8}

/-- **A frame with all bytes of its fields is read if its header ends inside the frame**, and no
earlier than the shortest one. -/
theorem ofFrame?_eq {headerEnd : Nat} {ttl protocol : UInt8} {length : UInt16}
    (htype : word? frame 12 = some v.etherType) (hends : v.headerEnd? frame = some headerEnd)
    (httl : frame[v.ttlAt]? = some ttl) (hlength : word? frame v.lengthAt = some length)
    (hprotocol : frame[v.protocolAt]? = some protocol) :
    ofFrame? frame =
      if v.leastEnd ≤ headerEnd ∧ headerEnd ≤ frame.length then
        some ⟨ttl, length, protocol, (ports protocol (frame.drop headerEnd)).1,
          (ports protocol (frame.drop headerEnd)).2⟩
      else none := by
  have hlong : 14 ≤ frame.length := by
    by_contra hshort
    rw [word?_eq_none (by omega)] at htype
    cases htype
  simp only [ofFrame?, htype, bind, Option.bind]
  cases v with
  | v4 =>
    obtain ⟨words, hwords, rfl⟩ := Option.map_eq_some_iff.1 hends
    obtain ⟨first, hfirst, rfl⟩ := Option.map_eq_some_iff.1 hwords
    have hpacket := @ofIpv4?_eq (frame.drop 14) first ttl protocol length
      (by rwa [List.getElem?_drop]) (by rwa [List.getElem?_drop]) (by rwa [List.getElem?_drop])
      (by rwa [word?_drop])
    rw [List.length_drop, List.drop_drop] at hpacket
    refine (if_pos rfl).trans (hpacket.trans (if_congr ?_ rfl rfl))
    show _ ↔ 34 ≤ _ ∧ _
    omega
  | v6 =>
    cases hends
    have hpacket := @ofIpv6?_eq (frame.drop 14) ttl protocol length
      (by rwa [List.getElem?_drop]) (by rwa [List.getElem?_drop]) (by rwa [word?_drop])
    rw [List.length_drop, List.drop_drop] at hpacket
    refine (if_neg (by decide)).trans ((if_pos rfl).trans (hpacket.trans (if_congr ?_ rfl rfl)))
    show _ ↔ 54 ≤ 54 ∧ _
    omega

/-- A frame that is read is of one of the two types, and as long as the shortest header asks. -/
theorem exists_version {h : Headers} (hread : ofFrame? frame = some h) :
    ∃ v : IpVersion, word? frame 12 = some v.etherType ∧ v.leastEnd ≤ frame.length := by
  unfold ofFrame? at hread
  obtain ⟨etherType, htype, hread⟩ := Option.bind_eq_some_iff.1 hread
  split at hread
  · rename_i h4
    refine ⟨.v4, htype.trans (congrArg some h4), ?_⟩
    by_contra hshort
    rw [leastEnd] at hshort
    rw [ofIpv4?_eq_none (by rw [List.length_drop]; omega)] at hread
    cases hread
  · split at hread
    · rename_i h6
      refine ⟨.v6, htype.trans (congrArg some h6), ?_⟩
      by_contra hshort
      rw [leastEnd] at hshort
      rw [ofIpv6?, if_neg (by rw [List.length_drop]; omega)] at hread
      cases hread
    · cases hread

/-- **The fields of a frame are read if and only if it is framed, and they are what its bytes
tell.** -/
theorem ofFrame?_eq_some_iff {h : Headers} :
    ofFrame? frame = some h ↔
      ∃ v headerEnd, Framed v frame headerEnd ∧ Tells v frame headerEnd h := by
  constructor
  · intro hread
    obtain ⟨v, htype, hlong⟩ := exists_version hread
    obtain ⟨headerEnd, ttl, length, protocol, hends, httl, hlength, hprotocol⟩ :=
      exists_fields hlong
    rw [ofFrame?_eq htype hends httl hlength hprotocol] at hread
    split at hread
    · rename_i hfits
      cases hread
      exact ⟨v, headerEnd, ⟨htype, hends, hfits.1, hfits.2⟩, ⟨httl, hlength, hprotocol, rfl⟩⟩
    · cases hread
  · rintro ⟨v, headerEnd, hframed, htells⟩
    rw [ofFrame?_eq hframed.typed hframed.ends htells.ttl htells.length htells.protocol,
      if_pos ⟨hframed.least, hframed.inside⟩, htells.ports]

/-- A framed frame is read. -/
theorem exists_ofFrame? {headerEnd : Nat} (hframed : Framed v frame headerEnd) :
    ∃ h, ofFrame? frame = some h := by
  obtain ⟨headerEnd', ttl, length, protocol, hends, httl, hlength, hprotocol⟩ :=
    exists_fields (Nat.le_trans hframed.least hframed.inside)
  cases hframed.ends.symm.trans hends
  exact ⟨_, (ofFrame?_eq hframed.typed hends httl hlength hprotocol).trans
    (if_pos ⟨hframed.least, hframed.inside⟩)⟩

/-- **A frame is accepted by its type, its header length and its length alone.** -/
theorem exists_ofFrame?_iff :
    (∃ h, ofFrame? frame = some h) ↔
      (word? frame 12 = some 0x0800 ∧ ∃ words, headerNibble? frame = some words ∧ 5 ≤ words ∧
        14 + 4 * words ≤ frame.length) ∨
      (word? frame 12 = some 0x86dd ∧ 54 ≤ frame.length) := by
  constructor
  · rintro ⟨h, hread⟩
    obtain ⟨v, headerEnd, ⟨htype, hends, hleast, hinside⟩, -⟩ := ofFrame?_eq_some_iff.1 hread
    cases v with
    | v4 =>
      obtain ⟨words, hwords, rfl⟩ := Option.map_eq_some_iff.1 hends
      rw [leastEnd] at hleast
      exact Or.inl ⟨htype, words, hwords, by omega, hinside⟩
    | v6 =>
      cases hends
      exact Or.inr ⟨htype, hinside⟩
  · rintro (⟨htype, words, hwords, hleast, hinside⟩ | ⟨htype, hinside⟩)
    · refine @exists_ofFrame? .v4 frame (14 + 4 * words)
        ⟨htype, by rw [headerEnd?, hwords]; rfl, ?_, hinside⟩
      rw [leastEnd]
      omega
    · exact exists_ofFrame? (v := .v6) ⟨htype, rfl, Nat.le_refl _, hinside⟩

/-! ## Bytes that do not matter -/

/-- **Bytes at the end of a frame change nothing but ports that were cut off.** -/
theorem ofFrame?_append {headerEnd : Nat} {h : Headers} (hframed : Framed v frame headerEnd)
    (htells : Tells v frame headerEnd h) (suffix : List UInt8) :
    ∃ h', ofFrame? (frame ++ suffix) = some h' ∧
      h'.ttl = h.ttl ∧ h'.length = h.length ∧ h'.protocol = h.protocol ∧
      ((h.protocol = 6 ∨ h.protocol = 17) ∧ frame.length < headerEnd + 4 ∨
        h'.srcPort = h.srcPort ∧ h'.dstPort = h.dstPort) := by
  have hlonger := hframed.append suffix
  have hread := (ofFrame?_eq hlonger.typed hlonger.ends (getElem?_append_of_some htells.ttl)
    (word?_append htells.length) (getElem?_append_of_some htells.protocol)).trans
      (if_pos ⟨hlonger.least, hlonger.inside⟩)
  refine ⟨_, hread, rfl, rfl, rfl, ?_⟩
  rw [List.drop_append_of_le_length hframed.inside]
  have hports := htells.ports
  by_cases hcut : (h.protocol = 6 ∨ h.protocol = 17) ∧ frame.length < headerEnd + 4
  · exact Or.inl hcut
  right
  by_cases hprotocol : h.protocol = 6 ∨ h.protocol = 17
  · -- All four bytes of the ports are in the frame already.
    have hwhole : 4 ≤ (frame.drop headerEnd).length := by
      rw [List.length_drop]
      have hlong := not_and.1 hcut hprotocol
      omega
    rw [← ports_take, List.take_append_of_le_length hwhole, ports_take, hports]
    exact ⟨rfl, rfl⟩
  · rw [ports_eq_zero fun hnone => hprotocol hnone.1] at hports ⊢
    exact Prod.mk.inj hports

/-- A frame is read as any other with the same bytes in its fields. -/
theorem ofFrame?_of_sameFields {other : List UInt8} {h : Headers} (hsame : SameFields frame other)
    (hread : ofFrame? frame = some h) : ofFrame? other = some h := by
  obtain ⟨v, headerEnd, hframed, htells⟩ := ofFrame?_eq_some_iff.1 hread
  have halike := hsame.fields v hframed.typed
  refine ofFrame?_eq_some_iff.2 ⟨v, headerEnd, ⟨?_, ?_, hframed.least, ?_⟩, ?_, ?_, ?_, ?_⟩
  · rw [← hsame.etherType, hframed.typed]
  · rw [← halike.ends, hframed.ends]
  · rw [← hsame.size]
    exact hframed.inside
  · rw [← halike.ttl, htells.ttl]
  · rw [← halike.length, htells.length]
  · rw [← halike.protocol, htells.protocol]
  · rw [← ports_take, ← halike.segment headerEnd hframed.ends, ports_take, htells.ports]

/-- **A frame is read within its bounds and for its fields alone.** No position outside it is looked
at. It is accepted exactly if it is of type `0x0800`, its header has at least five words and ends
inside the frame, or if it is of type `0x86dd` and has at least 54 bytes. Bytes put after an
accepted frame change nothing, unless its ports were cut off. Frames of one length that agree on the
type, the header length of version 4, the length, the time to live, the protocol and the first four
bytes after the header yield the same. -/
theorem ofFrame?_determined (frame : List UInt8) :
    guardedOfFrame frame = .ok (ofFrame? frame) ∧
      ((∃ h, ofFrame? frame = some h) ↔
        (word? frame 12 = some 0x0800 ∧ ∃ words, headerNibble? frame = some words ∧ 5 ≤ words ∧
          14 + 4 * words ≤ frame.length) ∨
        (word? frame 12 = some 0x86dd ∧ 54 ≤ frame.length)) ∧
      (∀ h, ofFrame? frame = some h →
        ∃ v headerEnd, Framed v frame headerEnd ∧ Tells v frame headerEnd h ∧
          ∀ suffix, ∃ h', ofFrame? (frame ++ suffix) = some h' ∧
            h'.ttl = h.ttl ∧ h'.length = h.length ∧ h'.protocol = h.protocol ∧
            ((h.protocol = 6 ∨ h.protocol = 17) ∧ frame.length < headerEnd + 4 ∨
              h'.srcPort = h.srcPort ∧ h'.dstPort = h.dstPort)) ∧
      ∀ other, SameFields frame other → ofFrame? other = ofFrame? frame := by
  refine ⟨guardedOfFrame_eq frame, exists_ofFrame?_iff, fun h hread => ?_, fun other hsame => ?_⟩
  · obtain ⟨v, headerEnd, hframed, htells⟩ := ofFrame?_eq_some_iff.1 hread
    exact ⟨v, headerEnd, hframed, htells, ofFrame?_append hframed htells⟩
  · cases hread : ofFrame? frame with
    | some h => exact ofFrame?_of_sameFields hsame hread
    | none =>
      cases hother : ofFrame? other with
      | none => rfl
      | some h =>
        rw [ofFrame?_of_sameFields hsame.symm hother] at hread
        cases hread

/-- An IPv4 frame with options that ends in the middle of its ports. -/
def clippedFrame : List UInt8 :=
  [0, 1, 2, 3, 4, 5, 6, 7, 8, 9, 10, 11, 0x08, 0x00, 0x46, 0, 0, 60, 0, 0, 0, 0, 64, 17, 0, 0,
    10, 0, 0, 1, 10, 0, 0, 2, 1, 1, 1, 0, 0x00, 0x35, 0xff]

/-- Another one with the same fields, from elsewhere. -/
def clippedTwin : List UInt8 :=
  [9, 9, 9, 9, 9, 9, 9, 9, 9, 9, 9, 9, 0x08, 0x00, 0x66, 3, 0, 60, 8, 8, 8, 8, 64, 17, 7, 7,
    10, 0, 3, 3, 10, 0, 4, 4, 5, 5, 5, 5, 0x00, 0x35, 0xff]

theorem clipped_ofFrame?_determined :
    ofFrame? clippedFrame = some ⟨64, 60, 17, 0, 0⟩ ∧
      (∃ h', ofFrame? (clippedFrame ++ [1]) = some h' ∧ h'.ttl = 64 ∧ h'.length = 60 ∧
        h'.protocol = 17) ∧
      SameFields clippedFrame clippedTwin ∧ ofFrame? clippedTwin = ofFrame? clippedFrame := by
  obtain ⟨-, -, happend, hfields⟩ := ofFrame?_determined clippedFrame
  have hread : ofFrame? clippedFrame = some ⟨64, 60, 17, 0, 0⟩ := by decide
  have hsame : SameFields clippedFrame clippedTwin := by
    refine ⟨rfl, by decide, fun v hv => ?_⟩
    cases v with
    | v4 =>
      refine ⟨fun _ => by decide, by decide, by decide, by decide, fun headerEnd hends => ?_⟩
      cases hends
      decide
    | v6 => exact absurd hv (by decide)
  obtain ⟨v, headerEnd, -, -, hsuffix⟩ := happend _ hread
  obtain ⟨h', hread', httl, hlength, hprotocol, -⟩ := hsuffix [1]
  exact ⟨hread, ⟨h', hread', httl, hlength, hprotocol⟩, hsame, hfields _ hsame⟩

end Headers

end MatchTree
