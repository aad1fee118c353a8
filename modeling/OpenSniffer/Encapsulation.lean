import OpenSniffer.FrameAnatomy

/-!
# Frames as a sender builds them

A payload behind the headers of UDP, ICMP or TCP, IPv4 and Ethernet, with nothing behind
it. What the lengths and checksums in the headers say is left open, for the dissectors do
not read them; the two fields that count a header's words say how long it is.
-/
namespace OpenSniffer.Encapsulation
open Packets OsiStack OsiWalk MainStack LayerOrder FrameAnatomy FixedHeaderDissectors
  VariableHeaderDissectors TracedReads

structure EthernetHeader where
  destination : Octets 6
  source : Octets 6

def EthernetHeader.wire (e : EthernetHeader) (type : ℕ) : Bytes :=
  e.destination.1 ++ e.source.1 ++ word type

/-- The options of a header: up to ten words. -/
structure Options where
  bytes : Bytes
  words : bytes.length % 4 = 0
  fits : bytes.length ≤ 40

def Options.headerWords (o : Options) : ℕ := 5 + o.bytes.length / 4

/-- The header of a packet that is not a fragment. -/
structure Ipv4Header where
  tos : UInt8
  totalLength : UInt16
  id : UInt16
  dontFragment : Bool
  ttl : UInt8
  check : UInt16
  saddr : Octets 4
  daddr : Octets 4
  options : Options

def Ipv4Header.wire (i : Ipv4Header) (protocol : ℕ) : Bytes :=
  [UInt8.ofNat (4 * 16 + i.options.headerWords), i.tos] ++ word i.totalLength.toNat ++
    word i.id.toNat ++ word (if i.dontFragment then 0x4000 else 0) ++ [i.ttl, UInt8.ofNat protocol] ++
    word i.check.toNat ++ i.saddr.1 ++ i.daddr.1 ++ i.options.bytes

structure UdpHeader where
  source : UInt16
  dest : UInt16
  len : UInt16
  check : UInt16

def UdpHeader.wire (u : UdpHeader) : Bytes :=
  word u.source.toNat ++ word u.dest.toNat ++ word u.len.toNat ++ word u.check.toNat

structure IcmpHeader where
  type : UInt8
  code : UInt8
  checksum : UInt16
  rest : Octets 4

def IcmpHeader.wire (i : IcmpHeader) : Bytes :=
  [i.type, i.code] ++ word i.checksum.toNat ++ i.rest.1

structure TcpHeader where
  source : UInt16
  dest : UInt16
  seq : Octets 4
  ackSeq : Octets 4
  reserved : Fin 16
  flags : UInt8
  window : UInt16
  check : UInt16
  urgPtr : UInt16
  options : Options

def TcpHeader.wire (t : TcpHeader) : Bytes :=
  word t.source.toNat ++ word t.dest.toNat ++ t.seq.1 ++ t.ackSeq.1 ++
    [UInt8.ofNat (t.options.headerWords * 16 + t.reserved), t.flags] ++ word t.window.toNat ++
    word t.check.toNat ++ word t.urgPtr.toNat ++ t.options.bytes

inductive Transport where
  | udp (header : UdpHeader)
  | icmp (header : IcmpHeader)
  | tcp (header : TcpHeader)

namespace Transport

def number : Transport → ℕ
  | .udp _ => ipProtoUdp
  | .icmp _ => ipProtoIcmp
  | .tcp _ => ipProtoTcp

def wire : Transport → Bytes
  | .udp header => header.wire
  | .icmp header => header.wire
  | .tcp header => header.wire

def isTcp : Transport → Bool
  | .tcp _ => true
  | _ => false

def isIcmp : Transport → Bool
  | .icmp _ => true
  | _ => false

def dissector [Memory] : Transport → Dissector
  | .udp _ => FixedHeaderDissectors.udp
  | .icmp _ => FixedHeaderDissectors.icmp
  | .tcp _ => VariableHeaderDissectors.tcp

end Transport

def encapsulate (e : EthernetHeader) (i : Ipv4Header) (t : Transport) (payload : Bytes) : Bytes :=
  e.wire etherTypeIp ++ (i.wire t.number ++ (t.wire ++ payload))

theorem Options.headerWords_mul (o : Options) : o.headerWords * 4 = 20 + o.bytes.length := by
  have hwords := o.words
  rw [Options.headerWords]
  omega

theorem Options.headerWords_lt (o : Options) : 5 ≤ o.headerWords ∧ o.headerWords < 16 := by
  have hfits := o.fits
  rw [Options.headerWords]
  omega

@[simp] theorem EthernetHeader.length_wire (e : EthernetHeader) (type : ℕ) :
    (e.wire type).length = 14 := by
  simp [EthernetHeader.wire, e.destination.2, e.source.2]

@[simp] theorem Ipv4Header.length_wire (i : Ipv4Header) (protocol : ℕ) :
    (i.wire protocol).length = i.options.headerWords * 4 := by
  rw [Options.headerWords_mul]
  simp only [Ipv4Header.wire, List.length_append, length_word, List.length_cons, List.length_nil,
    i.saddr.2, i.daddr.2]

@[simp] theorem UdpHeader.length_wire (u : UdpHeader) : u.wire.length = 8 := rfl

@[simp] theorem IcmpHeader.length_wire (i : IcmpHeader) : i.wire.length = 8 := by
  simp [IcmpHeader.wire, i.rest.2]

@[simp] theorem TcpHeader.length_wire (t : TcpHeader) : t.wire.length = t.options.headerWords * 4 := by
  rw [Options.headerWords_mul]
  simp only [TcpHeader.wire, List.length_append, length_word, List.length_cons, List.length_nil,
    t.seq.2, t.ackSeq.2]

section Packets
variable [Memory] {packet : Packet} {rest : Bytes}

private theorem ethernet_handles_wire {e : EthernetHeader}
    (hd : packet.data = some (e.wire etherTypeIp ++ rest)) :
    ethernet.handles packet = true ∧ packet.be16 12 = etherTypeIp := by
  have hlen := packet.sized _ hd
  have hholds := Packet.holds_data hd
  simp only [EthernetHeader.wire, holds_append, List.length_append, e.destination.2, e.source.2,
    Nat.reduceAdd] at hholds
  have htype : packet.be16 12 = etherTypeIp := Packet.be16_of_holds hholds.1.2 (by decide)
  refine ⟨(ethernetDissectorHandles_iff packet).mpr ⟨by simp [hd], ?_, ?_, ?_⟩, htype⟩
  · rw [← hlen, List.length_append, EthernetHeader.length_wire, sizeofEtherHeader]
    omega
  · rw [htype]
    decide
  · rw [htype]
    decide

omit [Memory] in
theorem toNat_nibbles {high low : ℕ} (hh : high < 16) (hl : low < 16) :
    (UInt8.ofNat (high * 16 + low)).toNat % 16 = low ∧
      (UInt8.ofNat (high * 16 + low)).toNat / 16 = high := by
  rw [UInt8.toNat_ofNat']
  omega

/-- A packet that begins like a header of version 4, and is as long as it says, is taken. -/
theorem ip_handles_words {bytes : Bytes} {words : ℕ} (hlow : 5 ≤ words) (hhigh : words < 16)
    (hd : packet.data = some bytes) (hfits : words * 4 ≤ bytes.length)
    (hbyte : packet.byte 0 = UInt8.ofNat (4 * 16 + words)) (hp : packet.protocol = etherTypeIp) :
    ip.handles packet = true ∧ ipHeaderSize packet = words * 4 := by
  have hlen : bytes.length = packet.size := packet.sized _ hd
  have h4 : 4 < 16 := by omega
  obtain ⟨hihl, hversion⟩ := toNat_nibbles h4 hhigh
  rw [← hbyte] at hihl hversion
  have hsize : ipHeaderSize packet = words * 4 := by rw [ipHeaderSize, hihl]
  refine ⟨(ipDissectorHandles_iff packet).mpr ⟨by simp [hd], ?_, hp, ?_, Or.inl hversion⟩, hsize⟩
  · rw [sizeofPointer]
    omega
  · omega

private theorem ip_handles_wire {i : Ipv4Header} {n : ℕ} (hn : n < 256)
    (hd : packet.data = some (i.wire n ++ rest)) (hp : packet.protocol = etherTypeIp) :
    ip.handles packet = true ∧ ipHeaderSize packet = i.options.headerWords * 4 ∧
      (packet.byte 9).toNat = n := by
  have hlen : (i.wire n ++ rest).length = i.options.headerWords * 4 + rest.length := by
    rw [List.length_append, Ipv4Header.length_wire]
  obtain ⟨hlow, hhigh⟩ := i.options.headerWords_lt
  have hbyte0 : packet.byte 0 = UInt8.ofNat (4 * 16 + i.options.headerWords) :=
    Packet.byte_eq hd (by omega)
  have hbyte9 : packet.byte 9 = UInt8.ofNat n := Packet.byte_eq hd (by omega)
  obtain ⟨hhandles, hsize⟩ := ip_handles_words hlow hhigh hd (by omega) hbyte0 hp
  refine ⟨hhandles, hsize, ?_⟩
  rw [hbyte9, UInt8.toNat_ofNat']
  omega

omit [Memory] in
/-- UDP and ICMP ask for their hint and eight bytes. -/
theorem hint_handles {protocol : ℕ} {header : Bytes} (hheader : header.length = 8)
    (hd : packet.data = some (header ++ rest)) (hp : packet.protocol = protocol) :
    (handlesHint protocol 8 packet).value = true := by
  have hlen := packet.sized _ hd
  rw [List.length_append, hheader] at hlen
  exact (handlesHint_iff protocol 8 packet).mpr ⟨by simp [hd], hp, by omega⟩

/-- TCP asks for its hint and for a payload. -/
theorem tcp_handles_wire {t : TcpHeader} (hd : packet.data = some (t.wire ++ rest))
    (hp : packet.protocol = ipProtoTcp) :
    tcpHeaderSize packet = t.options.headerWords * 4 ∧
      (tcp.handles packet = true ↔ rest ≠ []) := by
  have hlen : (t.wire ++ rest).length = packet.size := packet.sized _ hd
  have hwords := t.options.headerWords_lt
  have hbyte12 : packet.byte 12 = UInt8.ofNat (t.options.headerWords * 16 + t.reserved) := by
    have hholds := Packet.holds_data hd
    simp only [TcpHeader.wire, holds_append, holds_cons, List.length_append, length_word,
      t.seq.2, t.ackSeq.2, Nat.reduceAdd, and_assoc] at hholds
    obtain ⟨-, -, -, -, hdoff, -⟩ := hholds
    exact hdoff
  have hsize : tcpHeaderSize packet = t.options.headerWords * 4 := by
    rw [tcpHeaderSize, hbyte12, (toNat_nibbles hwords.2 t.reserved.isLt).2]
  refine ⟨hsize, ?_⟩
  rw [List.length_append, TcpHeader.length_wire] at hlen
  have hpayload : rest ≠ [] ↔ 0 < rest.length := List.length_pos_iff.symm
  rw [hpayload]
  constructor
  · intro htcp
    have hlt := ((tcpDissectorHandles_iff packet).mp htcp).2.2.2
    omega
  · intro hpos
    exact (tcpDissectorHandles_iff packet).mpr
      ⟨by simp [hd], by rw [sizeofPointer]; omega, hp, by omega⟩

end Packets

section Anatomy
variable [Memory] (e : EthernetHeader) (i : Ipv4Header) (t : Transport) (payload : Bytes)

/-- UDP and ICMP take every packet that is theirs, TCP only one with a payload. -/
theorem transport_handles {packet : Packet} (hd : packet.data = some (t.wire ++ payload))
    (hp : packet.protocol = t.number) :
    t.dissector.handles packet = true ↔ t.isTcp = false ∨ payload ≠ [] := by
  cases t with
  | udp header => exact iff_of_true (hint_handles header.length_wire hd hp) (Or.inl rfl)
  | icmp header => exact iff_of_true (hint_handles header.length_wire hd hp) (Or.inl rfl)
  | tcp header =>
    have htcp : tcp.handles packet = true ↔ payload ≠ [] := (tcp_handles_wire hd hp).2
    apply htcp.trans
    simp [Transport.isTcp]

theorem transport_decapsulate {packet : Packet} (hd : packet.data = some (t.wire ++ payload))
    (hp : packet.protocol = t.number) (hh : t.dissector.handles packet = true) :
    ∃ session, t.dissector.decapsulate packet =
        some (packet.behind t.wire.length 0 session).value ∧
      (t.isIcmp = false → session ≠ none) := by
  cases t with
  | udp header => exact ⟨_, udp_decapsulate hh, fun _ => Option.some_ne_none _⟩
  | icmp header =>
    have hlen : (Transport.icmp header).wire.length = sizeofIcmphdr := header.length_wire
    rw [hlen]
    exact ⟨none, icmp_decapsulate hh, fun hicmp => absurd hicmp (by simp [Transport.isIcmp])⟩
  | tcp header =>
    have hlen : (Transport.tcp header).wire.length = tcpHeaderSize packet := by
      rw [(tcp_handles_wire hd hp).1]
      exact header.length_wire
    rw [hlen]
    exact ⟨_, tcp_decapsulate hh, fun _ => Option.some_ne_none _⟩

omit [Memory] in
theorem Transport.number_lt : t.number < 256 := by
  cases t <;> simp only [Transport.number, ipProtoUdp, ipProtoIcmp, ipProtoTcp] <;> omega

theorem Transport.dissector_mem : t.dissector ∈ atLayer osiLayer3 := by
  cases t <;> simp [Transport.dissector]

theorem ethernet_encapsulate :
    ethernet.handles (Packet.ofFrame (encapsulate e i t payload)) = true ∧
      etherType (encapsulate e i t payload) = etherTypeIp := by
  have hdata : (Packet.ofFrame (encapsulate e i t payload)).data =
      some (e.wire etherTypeIp ++ (i.wire t.number ++ (t.wire ++ payload))) := rfl
  obtain ⟨ha, htype⟩ := ethernet_handles_wire hdata
  rw [be16_ofFrame ((ethernet_handles_iff _).mp ha).1] at htype
  exact ⟨ha, htype⟩

omit [Memory] in
theorem networkPacket_data : (networkPacket (encapsulate e i t payload)).data =
    some (i.wire t.number ++ (t.wire ++ payload)) :=
  congrArg some (List.drop_left' (e.length_wire etherTypeIp))

theorem ip_encapsulate : ip.handles (networkPacket (encapsulate e i t payload)) = true ∧
    networkHeader (encapsulate e i t payload) = i.options.headerWords * 4 ∧
    networkHint (encapsulate e i t payload) = t.number := by
  have hp : (networkPacket (encapsulate e i t payload)).protocol = etherTypeIp :=
    (ethernet_encapsulate e i t payload).2
  obtain ⟨hip, hsize, hhint⟩ := ip_handles_wire t.number_lt (networkPacket_data e i t payload) hp
  rw [networkHeader, networkHint, if_pos hip, if_pos hip]
  exact ⟨hip, hsize, hhint⟩

theorem transportPacket_data : (transportPacket (encapsulate e i t payload)).data =
    some (t.wire ++ payload) := by
  have hdrop : (encapsulate e i t payload).drop sizeofEtherHeader =
      i.wire t.number ++ (t.wire ++ payload) := List.drop_left' (e.length_wire etherTypeIp)
  rw [transportPacket, suffix_data, (ip_encapsulate e i t payload).2.1, ← List.drop_drop, hdrop,
    List.drop_left' (i.length_wire t.number)]

theorem transportPacket_protocol : (transportPacket (encapsulate e i t payload)).protocol = t.number :=
  (ip_encapsulate e i t payload).2.2

end Anatomy

/-- What undoing the encapsulation comes to: the three dissectors are dumped, and layer 7
gets the payload, with a session for UDP and TCP. -/
structure Undone [Memory] (t : Transport) (payload : Bytes) (trace : List Event) : Prop where
  dumped : ∃ above, (dumps trace).map Prod.fst = ethernet :: ip :: t.dissector :: above
  offered : ∃ p taker, (osiLayer7, p, taker) ∈ finds trace ∧ p.packet.data = some payload ∧
    p.packet.size = payload.length ∧ (t.isIcmp = false → p.packet.session ≠ none)

section Walk
variable [Memory] [CircularLinkedList] (e : EthernetHeader) (i : Ipv4Header) (t : Transport)
  (payload : Bytes)

private theorem undone_of_handles
    (ht : t.dissector.handles (transportPacket (encapsulate e i t payload)) = true) :
    Undone t payload (osiDumpPacketTrace mainStack (Packet.ofFrame (encapsulate e i t payload))) := by
  have h := List.Perm.refl mainOrder
  have ha := (ethernet_encapsulate e i t payload).1
  have hsecond := (secondVisit_taker_iff h ha List.mem_cons_self).mpr (ip_encapsulate e i t payload).1
  have hthird := (thirdVisit_taker_iff h ha t.dissector_mem).mpr ht
  obtain ⟨session, hdec, hsession⟩ := transport_decapsulate t payload
    (transportPacket_data e i t payload) (transportPacket_protocol e i t payload) ht
  refine ⟨⟨((seventhVisit mainOrder (Packet.ofFrame (encapsulate e i t payload))).dumped.toList).map
    Prod.fst, ?_⟩, ?_⟩
  · rw [mainStack, dumps_of_accepted h ha]
    simp [Visit.dumped, hsecond, hthird]
  · have hpacket := transportPacket_data e i t payload
    have hlen : t.wire.length ≤ (transportPacket (encapsulate e i t payload)).size := by
      rw [← (transportPacket (encapsulate e i t payload)).sized _ hpacket, List.length_append]
      exact Nat.le_add_right _ _
    have hafter : (seventhVisit mainOrder (Packet.ofFrame (encapsulate e i t payload))).packet.packet =
        ((transportPacket (encapsulate e i t payload)).behind t.wire.length 0 session).value := by
      rw [← thirdVisit_anatomy h ha] at ht hdec ⊢
      exact after_of_handles h osiLayer3 _ (by decide) t.dissector_mem ht hdec
    have hdata : (seventhVisit mainOrder
        (Packet.ofFrame (encapsulate e i t payload))).packet.packet.data = some payload := by
      rw [hafter, Packet.behind_data hpacket hlen, List.drop_left]
    refine ⟨_, _, seventhVisit_mem_finds h ha, hdata, (Packet.sized _ _ hdata).symm, ?_⟩
    rw [hafter]
    exact hsession

private theorem transport_dumped_iff : (∃ p, (t.dissector, p) ∈
      dumps (osiDumpPacketTrace mainStack (Packet.ofFrame (encapsulate e i t payload)))) ↔
    t.isTcp = false ∨ payload ≠ [] := by
  have h := List.Perm.refl mainOrder
  have ha := (ethernet_encapsulate e i t payload).1
  have hlayer : t.dissector.layer = osiLayer3 := (mem_atLayer.mp t.dissector_mem).2
  rw [← transport_handles t payload (transportPacket_data e i t payload)
    (transportPacket_protocol e i t payload), ← thirdVisit_taker_iff h ha t.dissector_mem]
  simp only [mainStack, mem_dumps_layer3 h ha hlayer, Visit.dumped_eq_some, exists_and_left,
    exists_eq', and_true]

theorem not_undone_of_empty (ht : t.isTcp = true) : ¬ Undone t []
    (osiDumpPacketTrace mainStack (Packet.ofFrame (encapsulate e i t []))) := by
  intro hundone
  obtain ⟨above, habove⟩ := hundone.dumped
  have hmem : t.dissector ∈ (dumps (osiDumpPacketTrace mainStack
      (Packet.ofFrame (encapsulate e i t [])))).map Prod.fst := by
    rw [habove]
    simp
  obtain ⟨⟨d, p⟩, hdump, rfl⟩ := List.mem_map.mp hmem
  rcases (transport_dumped_iff e i t []).mp ⟨p, hdump⟩ with hother | hnonempty
  · rw [ht] at hother
    contradiction
  · exact hnonempty rfl

/-- An encapsulated payload is unwrapped unless it is an empty one in a TCP segment. -/
theorem undone_iff : Undone t payload
      (osiDumpPacketTrace mainStack (Packet.ofFrame (encapsulate e i t payload))) ↔
    t.isTcp = false ∨ payload ≠ [] := by
  constructor
  · intro hundone
    by_cases hempty : payload = []
    · subst hempty
      cases ht : t.isTcp with
      | false => exact Or.inl rfl
      | true => exact absurd hundone (not_undone_of_empty e i t ht)
    · exact Or.inr hempty
  · intro hpayload
    apply undone_of_handles
    exact (transport_handles t payload (transportPacket_data e i t payload)
      (transportPacket_protocol e i t payload)).mpr hpayload

end Walk

def noOptions : Options := ⟨[], rfl, by decide⟩

def loopbackEthernet : EthernetHeader := ⟨⟨[0, 0, 0, 0, 0, 0], rfl⟩, ⟨[0, 0, 0, 0, 0, 0], rfl⟩⟩

def loopbackIp (totalLength : UInt16) : Ipv4Header where
  tos := 0
  totalLength := totalLength
  id := 1
  dontFragment := true
  ttl := 64
  check := 0
  saddr := ⟨[127, 0, 0, 1], rfl⟩
  daddr := ⟨[127, 0, 0, 1], rfl⟩
  options := noOptions

def acknowledgement : TcpHeader where
  source := 1024
  dest := 80
  seq := ⟨[0, 0, 0, 1], rfl⟩
  ackSeq := ⟨[0, 0, 0, 1], rfl⟩
  reserved := 0
  flags := 0x10
  window := 1024
  check := 0
  urgPtr := 0
  options := noOptions

theorem acknowledgement_not_undone :
    ¬ ∀ (_ : Memory) (_ : CircularLinkedList) (e : EthernetHeader) (i : Ipv4Header) (t : Transport)
      (payload : Bytes), Undone t payload
        (osiDumpPacketTrace mainStack (Packet.ofFrame (encapsulate e i t payload))) := by
  intro h
  let _ := zeroMemory
  let _ := plainList
  exact not_undone_of_empty loopbackEthernet (loopbackIp 40) (.tcp acknowledgement) rfl
    (h zeroMemory plainList loopbackEthernet (loopbackIp 40) (.tcp acknowledgement) [])

end OpenSniffer.Encapsulation
