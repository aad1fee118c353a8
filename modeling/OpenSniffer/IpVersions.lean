import OpenSniffer.Encapsulation

/-!
# The two versions of IP

The dissector takes headers of both versions and reads both as version 4: the length of the
header in the low bits of its first byte, the protocol in its tenth byte. In version 6 these
are the upper bits of the traffic class and the second byte of the source address.
-/
namespace OpenSniffer.IpVersions
open Packets OsiStack MainStack Encapsulation FixedHeaderDissectors VariableHeaderDissectors TracedReads

structure Version4 where
  tos : UInt8
  totalLength : UInt16
  id : UInt16
  fragOff : UInt16
  ttl : UInt8
  check : UInt16
  saddr : Octets 4
  daddr : Octets 4
  options : Options

structure Version6 where
  trafficClass : UInt8
  flowLabel : Fin (2 ^ 20)
  payloadLength : UInt16
  hopLimit : UInt8
  saddr : Octets 16
  daddr : Octets 16

inductive Header where
  | version4 (header : Version4)
  | version6 (header : Version6)

def Version4.wire (h : Version4) (protocol : UInt8) : Bytes :=
  [UInt8.ofNat (4 * 16 + h.options.headerWords), h.tos] ++ word h.totalLength.toNat ++
    word h.id.toNat ++ word h.fragOff.toNat ++ [h.ttl, protocol] ++ word h.check.toNat ++
    h.saddr.1 ++ h.daddr.1 ++ h.options.bytes

/-- The traffic class and the flow label stand across the first four bytes. -/
def Version6.wire (h : Version6) (nextHeader : UInt8) : Bytes :=
  [UInt8.ofNat (6 * 16 + h.trafficClass.toNat / 16),
    UInt8.ofNat (h.trafficClass.toNat % 16 * 16 + h.flowLabel / 65536)] ++
    word (h.flowLabel % 65536) ++ word h.payloadLength.toNat ++ [nextHeader, h.hopLimit] ++
    h.saddr.1 ++ h.daddr.1

namespace Header

def wire : Header → UInt8 → Bytes
  | .version4 h, protocol => h.wire protocol
  | .version6 h, nextHeader => h.wire nextHeader

/-- A header whose version 4 reading is right: one of version 4, or one of version 6 whose
traffic class begins like a length of ten words, with the protocol in its source address. -/
def ReadsAsVersion4 (protocol : UInt8) : Header → Prop
  | .version4 _ => True
  | .version6 h => h.trafficClass.toNat / 16 = 10 ∧ h.saddr.1.getD 1 0 = protocol

end Header

@[simp] theorem Version4.length_wire (h : Version4) (protocol : UInt8) :
    (h.wire protocol).length = h.options.headerWords * 4 := by
  rw [Options.headerWords_mul]
  simp only [Version4.wire, List.length_append, length_word, List.length_cons, List.length_nil,
    h.saddr.2, h.daddr.2]

@[simp] theorem Version6.length_wire (h : Version6) (nextHeader : UInt8) :
    (h.wire nextHeader).length = 40 := by
  simp only [Version6.wire, List.length_append, length_word, List.length_cons, List.length_nil,
    h.saddr.2, h.daddr.2]

section Decapsulation
variable [Memory]

/-- The packet behind a header: its data, and the protocol as its hint. -/
def Unwraps (packet : Packet) (protocol : UInt8) (payload : Bytes) : Prop :=
  ∃ p, ip.decapsulate packet = some p ∧ p.data = some payload ∧ p.protocol = protocol.toNat

/-- A packet of a header and a payload, with the hint of IP. Every one of version 4 is taken;
of those of version 6 one that is taken is meant. -/
structure Offered (packet : Packet) (header : Header) (protocol : UInt8) (payload : Bytes) :
    Prop where
  data : packet.data = some (header.wire protocol ++ payload)
  hint : packet.protocol = etherTypeIp
  accepted : ∀ h, header = .version6 h → ip.handles packet = true

variable {packet : Packet} {protocol : UInt8} {payload : Bytes}

/-- What is unwrapped is right exactly if the length and the protocol that are read are. -/
theorem unwraps_iff_fields {header : Bytes} (hd : packet.data = some (header ++ payload))
    (hh : ip.handles packet = true) : Unwraps packet protocol payload ↔
      ipHeaderSize packet = header.length ∧ packet.byte 9 = protocol := by
  have hlen : (header ++ payload).length = packet.size := packet.sized _ hd
  have hsize := ((ipDissectorHandles_iff packet).mp hh).2.2.2.1
  rw [List.length_append] at hlen
  rw [Unwraps, ip_decapsulate hh]
  constructor
  · intro h
    obtain ⟨p, hp, hdata, hprotocol⟩ := h
    cases hp
    rw [Packet.behind_data hd hsize, Option.some.injEq] at hdata
    have hrest := congrArg List.length hdata
    rw [List.length_drop, List.length_append] at hrest
    exact ⟨by omega, UInt8.toNat_inj.mp hprotocol⟩
  · intro h
    obtain ⟨hheader, hbyte⟩ := h
    refine ⟨_, rfl, ?_, congrArg UInt8.toNat hbyte⟩
    rw [Packet.behind_data hd hsize, hheader, List.drop_left]

private theorem version4_fields {h : Version4} (hd : packet.data = some (h.wire protocol ++ payload))
    (hp : packet.protocol = etherTypeIp) :
    ip.handles packet = true ∧ ipHeaderSize packet = h.options.headerWords * 4 ∧
      packet.byte 9 = protocol := by
  have hlen : (h.wire protocol ++ payload).length = h.options.headerWords * 4 + payload.length := by
    rw [List.length_append, h.length_wire]
  obtain ⟨hlow, hhigh⟩ := h.options.headerWords_lt
  have hbyte0 : packet.byte 0 = UInt8.ofNat (4 * 16 + h.options.headerWords) :=
    Packet.byte_eq hd (by omega)
  have hbyte9 : packet.byte 9 = protocol := Packet.byte_eq hd (by omega)
  obtain ⟨hhandles, hsize⟩ := ip_handles_words hlow hhigh hd (by omega) hbyte0 hp
  exact ⟨hhandles, hsize, hbyte9⟩

private theorem version6_fields {h : Version6} (hd : packet.data = some (h.wire protocol ++ payload)) :
    ipHeaderSize packet = h.trafficClass.toNat / 16 * 4 ∧ packet.byte 9 = h.saddr.1.getD 1 0 := by
  have hclass := h.trafficClass.toNat_lt
  have h6 : 6 < 16 := by omega
  have hclass' : h.trafficClass.toNat / 16 < 16 := by omega
  have hholds := Packet.holds_data hd
  simp only [Version6.wire, holds_append, holds_cons, List.length_append, length_word,
    List.length_cons, List.length_nil, Nat.reduceAdd, and_assoc] at hholds
  obtain ⟨hfirst, -, -, -, -, -, -, -, hsaddr, -⟩ := hholds
  constructor
  · rw [ipHeaderSize, hfirst, (toNat_nibbles h6 hclass').1]
  · rw [holds_iff_map, h.saddr.2] at hsaddr
    rw [← hsaddr]
    rfl

/-- A packet of either version is unwrapped exactly if its header reads as one of version 4. -/
theorem unwraps_iff {header : Header} (h : Offered packet header protocol payload) :
    Unwraps packet protocol payload ↔ header.ReadsAsVersion4 protocol := by
  obtain ⟨hd, hp, haccepted⟩ := h
  cases header with
  | version4 h =>
    obtain ⟨hh, hsize, hbyte⟩ := version4_fields hd hp
    apply iff_of_true ?_ trivial
    rw [unwraps_iff_fields hd hh, Header.wire, h.length_wire]
    exact ⟨hsize, hbyte⟩
  | version6 h =>
    obtain ⟨hsize, hbyte⟩ := version6_fields hd
    rw [unwraps_iff_fields hd (haccepted h rfl), Header.wire, h.length_wire, hsize, hbyte]
    apply and_congr_left'
    omega

end Decapsulation

def localhost : Octets 16 := ⟨[0, 0, 0, 0, 0, 0, 0, 0, 0, 0, 0, 0, 0, 0, 0, 1], rfl⟩

def plainVersion6 : Version6 where
  trafficClass := 0
  flowLabel := 0
  payloadLength := 1
  hopLimit := 64
  saddr := localhost
  daddr := localhost

/-- A header that is read right by chance: the length of ten words and the number of TCP
stand where version 4 has them. -/
def readableVersion6 : Version6 where
  trafficClass := 0xa0
  flowLabel := 0
  payloadLength := 1
  hopLimit := 64
  saddr := ⟨[0xfd, 6, 0, 0, 0, 0, 0, 0, 0, 0, 0, 0, 0, 0, 0, 1], rfl⟩
  daddr := localhost

def segmentOf (header : Version6) : Packet where
  data := some (header.wire 6 ++ [7])
  size := (header.wire 6 ++ [7]).length
  protocol := etherTypeIp
  session := none
  sized := by simp

theorem offered_plainSegment : let _ := zeroMemory
    Offered (segmentOf plainVersion6) (.version6 plainVersion6) 6 [7] := by
  intro _
  exact ⟨rfl, rfl, fun _ _ => by decide +kernel⟩

private theorem offered_readableSegment : let _ := zeroMemory
    Offered (segmentOf readableVersion6) (.version6 readableVersion6) 6 [7] := by
  intro _
  exact ⟨rfl, rfl, fun _ _ => by decide +kernel⟩

theorem unwraps_iff_segments : let _ := zeroMemory
    Unwraps (segmentOf readableVersion6) 6 [7] ∧ ¬ Unwraps (segmentOf plainVersion6) 6 [7] := by
  intro _
  have hreads : (Header.version6 readableVersion6).ReadsAsVersion4 6 := ⟨by decide, by decide⟩
  refine ⟨(unwraps_iff offered_readableSegment).mpr hreads, ?_⟩
  intro hunwraps
  exact absurd ((unwraps_iff offered_plainSegment).mp hunwraps).1 (by decide)

/-- A traffic class of zero is a header of no bytes: the whole packet is the payload. -/
theorem plainSegment_not_unwrapped : ¬ ∀ (_ : Memory) (packet : Packet) (header : Header)
    (protocol : UInt8) (payload : Bytes), Offered packet header protocol payload →
      Unwraps packet protocol payload := by
  intro h
  let _ := zeroMemory
  have hunwraps := h zeroMemory (segmentOf plainVersion6) (.version6 plainVersion6) 6 [7] offered_plainSegment
  rw [unwraps_iff_fields rfl (offered_plainSegment.accepted _ rfl)] at hunwraps
  exact absurd hunwraps.1 (by decide +kernel)

end OpenSniffer.IpVersions
