import OpenSniffer.AddressTexts
import OpenSniffer.TcpDisplay

/-!
# What the dumps show of headers

For each dissector below layer 7, the lines that are printed for a header as it was sent.
The lines of Ethernet, IP and UDP are those of no header with other addresses or ports.
-/
namespace OpenSniffer.HeaderDisplays
open Packets OsiStack TextFormats AddressTexts FixedHeaderDissectors VariableHeaderDissectors Encapsulation
  Colours TcpDisplay TracedReads TracedReads.Traced

/-- A request or a reply for a protocol address. -/
structure ArpHeader where
  hardware : UInt16
  protocol : UInt16
  hardwareLength : UInt8
  protocolLength : UInt8
  operation : UInt16
  senderHardware : Octets 6
  senderProtocol : Octets 4
  targetHardware : Octets 6
  targetProtocol : Octets 4

def ArpHeader.wire (a : ArpHeader) : Bytes :=
  word a.hardware.toNat ++ word a.protocol.toNat ++ [a.hardwareLength, a.protocolLength] ++
    word a.operation.toNat ++ a.senderHardware.1 ++ a.senderProtocol.1 ++ a.targetHardware.1 ++ a.targetProtocol.1

@[simp] theorem ArpHeader.length_wire (a : ArpHeader) : a.wire.length = 28 := by
  simp only [ArpHeader.wire, List.length_append, length_word, List.length_cons, List.length_nil,
    a.senderHardware.2, a.senderProtocol.2, a.targetHardware.2, a.targetProtocol.2]

def ethernetLines (e : EthernetHeader) : List Line :=
  (outputHeader blue 17 "Ethernet Header" "  " 19).outputs ++ [
    .printf "Ethernet source address : %s\n" [.text (hardwareText e.source)],
    .printf "Ethernet destination address : %s\n" [.text (hardwareText e.destination)]] ++ outputFooter.outputs

def arpLines (a : ArpHeader) : List Line :=
  (outputHeader yellow 19 "ARP Header" "  " 22).outputs ++ [
    .printf "ARP Sender Hardware address : %s\n" [.text (hardwareText a.senderHardware)],
    .printf "ARP Target Hardware address : %s\n" [.text (hardwareText a.targetHardware)]] ++ outputFooter.outputs

def ipLines (i : Ipv4Header) : List Line :=
  (outputHeader green 20 "IP Header" "  " 22).outputs ++ [
    .printf "Source address : %s\n" [.text (inetNtoa i.saddr.1)],
    .printf "Destination address : %s\n" [.text (inetNtoa i.daddr.1)],
    .printf "Checksum : 0x%x\n" [.int i.check.toNat]] ++ outputFooter.outputs

def udpLines (u : UdpHeader) : List Line :=
  (outputHeader red 21 "UDP Header" "  " 20).outputs ++ [
    .printf "UDP source port : %d\n" [.int u.source.toNat],
    .printf "UDP destination port : %d\n" [.int u.dest.toNat]] ++ outputFooter.outputs

/-- Of a type that is not in the table, the lines show what lies behind the table. -/
def icmpLines [Memory] (i : IcmpHeader) : List Line :=
  (outputHeader magenta 20 "ICMP Header" "  " 21).outputs ++ [
    .printf "Packet type : %s\n" [(icmpDissectorPacketTypeStringified i.type.toNat).value],
    .printf "Packet code : %d\n" [.int i.code.toNat],
    .printf "Checksum : 0x%x\n" [.int i.checksum.toNat]] ++ outputFooter.outputs

def tcpLines (t : TcpHeader) : List Line :=
  shown (names (tested.find? (sets t)).toList) t.source.toNat t.dest.toNat (bigEndian t.seq.1 / 65536)
    (bigEndian t.ackSeq.1 / 65536) (t.options.headerWords * 4 * 256)

def transportLines [Memory] : Transport → List Line
  | .udp header => udpLines header
  | .icmp header => icmpLines header
  | .tcp header => tcpLines header

section Dumps
variable [Memory] {packet : Packet} {rest : Bytes}

theorem stringifyHwAddr_of_holds {i : ℕ} {a : Octets 6} (h : Holds packet.byte i a.1) :
    (stringifyHwAddr packet i).value = hardwareText a := by
  rw [holds_iff_map, a.2] at h
  rw [hardwareText, ← h]
  rfl

theorem ipToString_of_holds {i : ℕ} {a : Octets 4} (h : Holds packet.byte i a.1) :
    (ipToString packet i).value = inetNtoa a.1 := by
  rw [holds_iff_map, a.2] at h
  rw [← h]
  rfl

theorem ethernet_dump_sent {e : EthernetHeader} {type : ℕ} (hd : packet.data = some (e.wire type ++ rest))
    (h : ethernet.handles packet = true) : ethernet.dump packet = ethernetLines e := by
  have hholds := Packet.holds_data hd
  simp only [EthernetHeader.wire, holds_append, List.length_append, e.destination.2, e.source.2, Nat.reduceAdd,
    and_assoc] at hholds
  obtain ⟨hdestination, hsource, -⟩ := hholds
  have hdump : ethernet.dump packet = _ := outputs_guarded h outputs_ethernetDissectorHandles _
  rw [hdump, ethernetLines, ← stringifyHwAddr_of_holds hsource, ← stringifyHwAddr_of_holds hdestination]
  rfl

/-- Ethernet takes a frame of every type that it admits. -/
theorem ethernet_handles_sent {e : EthernetHeader} {type : ℕ} (hlow : 0x0200 ≤ type) (hhigh : type ≤ 0x9000)
    (hd : packet.data = some (e.wire type ++ rest)) :
    ethernet.handles packet = true ∧ packet.be16 12 = type := by
  have hlen := packet.sized _ hd
  rw [List.length_append, e.length_wire] at hlen
  have hholds := Packet.holds_data hd
  simp only [EthernetHeader.wire, holds_append, List.length_append, e.destination.2, e.source.2,
    Nat.reduceAdd] at hholds
  have htype : packet.be16 12 = type := Packet.be16_of_holds hholds.1.2 (by omega)
  refine ⟨(ethernetDissectorHandles_iff packet).mpr ⟨by simp [hd], ?_, ?_, ?_⟩, htype⟩
  · rw [sizeofEtherHeader]
    omega
  · rwa [htype]
  · rwa [htype]

theorem arp_dump_sent {a : ArpHeader} (hd : packet.data = some (a.wire ++ rest)) (hp : packet.protocol = etherTypeArp) :
    arp.handles packet = true ∧ arp.dump packet = arpLines a := by
  have hlen := packet.sized _ hd
  rw [List.length_append, a.length_wire] at hlen
  have h : arp.handles packet = true :=
    (handlesHint_iff _ _ _).mpr ⟨by simp [hd], hp, by rw [sizeofEtherArp]; omega⟩
  have hholds := Packet.holds_data hd
  simp only [ArpHeader.wire, holds_append, List.length_append, length_word, List.length_cons, List.length_nil,
    a.senderHardware.2, a.senderProtocol.2, a.targetHardware.2, Nat.reduceAdd, and_assoc] at hholds
  obtain ⟨-, -, -, -, hsender, -, htarget, -⟩ := hholds
  have hdump : arp.dump packet = _ := outputs_guarded h (outputs_handlesHint _ _) _
  rw [hdump, arpLines, ← stringifyHwAddr_of_holds hsender, ← stringifyHwAddr_of_holds htarget]
  exact ⟨h, rfl⟩

theorem ip_dump_sent {i : Ipv4Header} {n : ℕ} (hd : packet.data = some (i.wire n ++ rest))
    (h : ip.handles packet = true) : ip.dump packet = ipLines i := by
  have hholds := Packet.holds_data hd
  simp only [Ipv4Header.wire, holds_append, List.length_append, length_word, List.length_cons, List.length_nil,
    i.saddr.2, i.daddr.2, Nat.reduceAdd, and_assoc] at hholds
  obtain ⟨-, -, -, -, -, hcheck, hsource, hdestination, -⟩ := hholds
  have hchecksum := Packet.be16_of_holds hcheck i.check.toNat_lt
  have hdump : ip.dump packet = _ := outputs_guarded h outputs_ipDissectorHandles _
  rw [hdump, ipLines, ← ipToString_of_holds hsource, ← ipToString_of_holds hdestination, ← hchecksum,
    ← Packet.ntohs_le16]
  rfl

private theorem udp_dump_sent {u : UdpHeader} (hd : packet.data = some (u.wire ++ rest)) (h : udp.handles packet = true) :
    udp.dump packet = udpLines u := by
  have hholds := Packet.holds_data hd
  simp only [UdpHeader.wire, holds_append, List.length_append, length_word, Nat.reduceAdd, and_assoc] at hholds
  obtain ⟨hsource, hdest, -⟩ := hholds
  have hsource := Packet.be16_of_holds hsource u.source.toNat_lt
  have hdest := Packet.be16_of_holds hdest u.dest.toNat_lt
  have hdump : udp.dump packet = _ := outputs_guarded h (outputs_handlesHint _ _) _
  rw [hdump, udpLines, ← hsource, ← hdest, ← Packet.ntohs_le16, ← Packet.ntohs_le16]
  rfl

private theorem icmp_dump_sent {i : IcmpHeader} (hd : packet.data = some (i.wire ++ rest)) (h : icmp.handles packet = true) :
    icmp.dump packet = icmpLines i := by
  have hholds := Packet.holds_data hd
  simp only [IcmpHeader.wire, holds_append, holds_cons, List.length_append, length_word, List.length_cons,
    List.length_nil, Nat.reduceAdd, and_assoc] at hholds
  obtain ⟨htype, hcode, -, hchecksum, -⟩ := hholds
  have hchecksum := Packet.be16_of_holds hchecksum i.checksum.toNat_lt
  have hdump : icmp.dump packet = _ := outputs_guarded h (outputs_handlesHint _ _) _
  rw [hdump, icmpLines, ← htype, ← hcode, ← hchecksum, ← Packet.ntohs_le16]
  rfl

theorem transport_dump_sent {t : Transport} (hd : packet.data = some (t.wire ++ rest))
    (hp : packet.protocol = t.number) (h : t.dissector.handles packet = true) :
    t.dissector.dump packet = transportLines t := by
  cases t with
  | udp header => exact udp_dump_sent hd h
  | icmp header => exact icmp_dump_sent hd h
  | tcp header => exact dump_sent hd hp ((tcp_handles_wire hd hp).2.mp h)

end Dumps

theorem ethernetLines_inj {e e' : EthernetHeader} (h : ethernetLines e = ethernetLines e') : e = e' := by
  have htexts : hardwareText e.source = hardwareText e'.source ∧
      hardwareText e.destination = hardwareText e'.destination := by
    simpa [ethernetLines] using h
  cases e
  cases e'
  obtain ⟨hsource, hdestination⟩ := htexts
  rw [EthernetHeader.mk.injEq]
  exact ⟨hardwareText_injective hdestination, hardwareText_injective hsource⟩

theorem ipLines_inj {i i' : Ipv4Header} (h : ipLines i = ipLines i') :
    i.saddr = i'.saddr ∧ i.daddr = i'.daddr ∧ i.check = i'.check := by
  have htexts : inetNtoa i.saddr.1 = inetNtoa i'.saddr.1 ∧ inetNtoa i.daddr.1 = inetNtoa i'.daddr.1 ∧
      i.check.toNat = i'.check.toNat := by
    simpa [ipLines] using h
  obtain ⟨hsource, hdestination, hcheck⟩ := htexts
  exact ⟨inetNtoa_injective hsource, inetNtoa_injective hdestination, UInt16.toNat_inj.mp hcheck⟩

def ports : Transport → Option (UInt16 × UInt16)
  | .udp header => some (header.source, header.dest)
  | .icmp _ => none
  | .tcp header => some (header.source, header.dest)

private theorem udpLines_inj {u u' : UdpHeader} (h : udpLines u = udpLines u') : u.source = u'.source ∧ u.dest = u'.dest := by
  have hports : u.source.toNat = u'.source.toNat ∧ u.dest.toNat = u'.dest.toNat := by
    simpa [udpLines] using h
  exact ⟨UInt16.toNat_inj.mp hports.1, UInt16.toNat_inj.mp hports.2⟩

private theorem tcpLines_inj {t t' : TcpHeader} (h : tcpLines t = tcpLines t') : t.source = t'.source ∧ t.dest = t'.dest := by
  obtain ⟨-, hsource, hdest, -⟩ := shown_inj.mp h
  exact ⟨UInt16.toNat_inj.mp hsource, UInt16.toNat_inj.mp hdest⟩

def lineCount : Transport → ℕ
  | .udp _ => 4
  | .icmp _ => 5
  | .tcp _ => 8

theorem length_transportLines [Memory] (t : Transport) : (transportLines t).length = lineCount t := by
  cases t <;> rfl

/-- The lines tell the protocol and the ports. -/
theorem transportLines_inj [Memory] {t t' : Transport} (h : transportLines t = transportLines t') :
    t.number = t'.number ∧ ports t = ports t' := by
  have hlength := congrArg List.length h
  rw [length_transportLines, length_transportLines] at hlength
  cases t <;> cases t' <;> simp only [lineCount, Nat.reduceEqDiff] at hlength
  case udp.udp u u' =>
    obtain ⟨hsource, hdest⟩ := udpLines_inj h
    rw [ports, ports, hsource, hdest]
    exact ⟨rfl, rfl⟩
  case icmp.icmp => exact ⟨rfl, rfl⟩
  case tcp.tcp t t' =>
    obtain ⟨hsource, hdest⟩ := tcpLines_inj h
    rw [ports, ports, hsource, hdest]
    exact ⟨rfl, rfl⟩

end OpenSniffer.HeaderDisplays
