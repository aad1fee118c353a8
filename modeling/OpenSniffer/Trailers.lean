import OpenSniffer.Encapsulation

/-!
# Bytes behind an IP packet

No dissector reads the total length of an IP packet: its end is the end of the frame. So
what is appended to a frame is appended to every payload.
-/
namespace OpenSniffer.Trailers
open Packets OsiStack OsiWalk MainStack LayerOrder FrameAnatomy FixedHeaderDissectors
  VariableHeaderDissectors DhcpDissector DnsDissector HttpDissector Encapsulation TracedReads

def totalLength (frame : Bytes) : ℕ := (frame.getD 16 0).toNat * 256 + (frame.getD 17 0).toNat

/-- An IPv4 packet whose declared length covers its header and is present. -/
structure CarriesIpv4 (frame : Bytes) : Prop where
  type : etherType frame = etherTypeIp
  version : (frame.getD 14 0).toNat / 16 = 4
  ihl : 5 ≤ (frame.getD 14 0).toNat % 16
  header : (frame.getD 14 0).toNat % 16 * 4 ≤ totalLength frame
  present : totalLength frame ≤ frame.length - sizeofEtherHeader

/-- The same packet with bytes behind it. -/
structure Extends (trailer : Bytes) (p p' : Packet) : Prop where
  data : p'.data = p.data.map (· ++ trailer)
  size : p'.size = p.size + trailer.length
  protocol : p'.protocol = p.protocol
  session : p'.session = p.session

theorem suffix_extends {frame : Bytes} {removed : ℕ} (h : removed ≤ frame.length) (trailer : Bytes)
    (hint : ℕ) (session : Option Session) :
    Extends trailer (suffix frame removed hint session) (suffix (frame ++ trailer) removed hint session) := by
  refine ⟨?_, ?_, rfl, rfl⟩
  · rw [suffix_data, suffix_data, Option.map_some, List.drop_append_of_le_length h]
  · rw [suffix_size, suffix_size, List.length_append]
    omega

private theorem getD_append {frame : Bytes} {i : ℕ} (h : i < frame.length) (trailer : Bytes) :
    (frame ++ trailer).getD i 0 = frame.getD i 0 := by
  rw [List.getD_eq_getElem?_getD, List.getElem?_append_left h, List.getD_eq_getElem?_getD]

namespace CarriesIpv4
variable {frame : Bytes} (hf : CarriesIpv4 frame)
include hf

theorem length_le : sizeofEtherHeader + 20 ≤ frame.length := by
  have hihl := hf.ihl
  have hheader := hf.header
  have hpresent := hf.present
  rw [sizeofEtherHeader] at hpresent ⊢
  omega

theorem header_le : (frame.getD 14 0).toNat % 16 * 4 ≤ frame.length - sizeofEtherHeader :=
  Nat.le_trans hf.header hf.present

theorem append (trailer : Bytes) : CarriesIpv4 (frame ++ trailer) := by
  have hlen := hf.length_le
  rw [sizeofEtherHeader] at hlen
  have hbyte : ∀ i, i < 34 → (frame ++ trailer).getD i 0 = frame.getD i 0 := by
    intro i hi
    exact getD_append (by omega) trailer
  have htotal : totalLength (frame ++ trailer) = totalLength frame := by
    rw [totalLength, hbyte 16 (by omega), hbyte 17 (by omega), totalLength]
  refine ⟨?_, ?_, ?_, ?_, ?_⟩
  · rw [etherType, hbyte 12 (by omega), hbyte 13 (by omega)]
    exact hf.type
  · rw [hbyte 14 (by omega)]
    exact hf.version
  · rw [hbyte 14 (by omega)]
    exact hf.ihl
  · rw [hbyte 14 (by omega), htotal]
    exact hf.header
  · have hpresent := hf.present
    rw [htotal, List.length_append]
    omega

end CarriesIpv4

section Dissectors
variable [Memory] {trailer : Bytes} {p p' : Packet}

theorem Extends.byte (h : Extends trailer p p') (hd : p.data ≠ none) {i : ℕ} (hi : i < p.size) :
    p'.byte i = p.byte i := by
  obtain ⟨bytes, hbytes⟩ := Option.ne_none_iff_exists'.mp hd
  have hlen : bytes.length = p.size := p.sized bytes hbytes
  have hbytes' : p'.data = some (bytes ++ trailer) := by rw [h.data, hbytes, Option.map_some]
  have hi' : i < bytes.length := by omega
  have hi'' : i < (bytes ++ trailer).length := by rw [List.length_append]; omega
  rw [Packet.byte_eq hbytes hi', Packet.byte_eq hbytes' hi'', List.getElem_append_left hi']

/-- IP accepts the packet of such a frame, and its header is what the frame says. -/
theorem CarriesIpv4.ip_handles {frame : Bytes} (hf : CarriesIpv4 frame) :
    ip.handles (networkPacket frame) = true ∧
      ipHeaderSize (networkPacket frame) = (frame.getD 14 0).toNat % 16 * 4 := by
  have hlen := hf.length_le
  rw [sizeofEtherHeader] at hlen
  have hbyte : (networkPacket frame).byte 0 = frame.getD 14 0 := by
    rw [networkPacket, suffix_byte (by rw [sizeofEtherHeader]; omega)]
    rfl
  have hsize : ipHeaderSize (networkPacket frame) = (frame.getD 14 0).toNat % 16 * 4 := by
    rw [ipHeaderSize, hbyte]
  refine ⟨(ipDissectorHandles_iff _).mpr ⟨Option.some_ne_none _, ?_, hf.type, ?_, Or.inl ?_⟩, hsize⟩
  · rw [networkPacket, suffix_size, sizeofEtherHeader, sizeofPointer]
    omega
  · rw [hsize]
    exact hf.header_le
  · rw [hbyte]
    exact hf.version

omit [Memory] in
theorem Extends.data_ne_none (h : Extends trailer p p') (hd : p.data ≠ none) : p'.data ≠ none := by
  rw [h.data]
  simpa using hd

theorem Extends.le16 (h : Extends trailer p p') (hd : p.data ≠ none) {i : ℕ} (hi : i + 1 < p.size) :
    p'.le16 i = p.le16 i := by
  rw [Packet.le16, h.byte hd (by omega), h.byte hd hi, Packet.le16]

theorem Extends.tcpHeaderSize (h : Extends trailer p p') (hd : p.data ≠ none) (hsize : 13 ≤ p.size) :
    tcpHeaderSize p' = VariableHeaderDissectors.tcpHeaderSize p := by
  rw [VariableHeaderDissectors.tcpHeaderSize, h.byte hd (by omega),
    VariableHeaderDissectors.tcpHeaderSize]

/-- The fields that make a session stand in the first eight bytes. -/
theorem Extends.sessions (h : Extends trailer p p') (hd : p.data ≠ none) (hsize : 8 ≤ p.size) :
    udpSession p' = udpSession p ∧ tcpSession p' = tcpSession p := by
  have hle16 : ∀ i, i < 7 → p'.le16 i = p.le16 i := by
    intro i hi
    apply h.le16 hd
    omega
  rw [udpSession, tcpSession, hle16 0 (by omega), hle16 2 (by omega), hle16 4 (by omega),
    hle16 6 (by omega)]
  exact ⟨rfl, rfl⟩

/-- What UDP, ICMP or TCP accepts is accepted with bytes behind it, provided TCP's length
byte was there. -/
theorem Extends.handles (h : Extends trailer p p') {d : Dissector} (hd : d ∈ atLayer osiLayer3)
    (hp : d.handles p = true) (htcp : d = tcp → 13 ≤ p.size) : d.handles p' = true := by
  have hsize := h.size
  have hhint : ∀ protocol header, (handlesHint protocol header p).value = true →
      (handlesHint protocol header p').value = true := by
    intro protocol header hp
    obtain ⟨hdata, hprotocol, hle⟩ := (handlesHint_iff _ _ _).mp hp
    exact (handlesHint_iff _ _ _).mpr
      ⟨h.data_ne_none hdata, h.protocol.trans hprotocol, by omega⟩
  rw [atLayer_3, List.mem_cons, List.mem_pair] at hd
  rcases hd with rfl | rfl | rfl
  · exact hhint _ _ hp
  · exact hhint _ _ hp
  · obtain ⟨hdata, hpointer, hprotocol, hlt⟩ := (tcpDissectorHandles_iff p).mp hp
    refine (tcpDissectorHandles_iff p').mpr
      ⟨h.data_ne_none hdata, by omega, h.protocol.trans hprotocol, ?_⟩
    rw [h.tcpHeaderSize hdata (htcp rfl)]
    omega

/-- Layer 3 knows from these bytes alone who takes the packet: no transport has its hint,
or a transport accepts it and can see how long its header is. -/
def Settled (packet : Packet) : Prop :=
  packet.protocol ∉ [ipProtoUdp, ipProtoIcmp, ipProtoTcp] ∨
    ∃ d ∈ atLayer osiLayer3, d.handles packet = true ∧ (d = tcp → 13 ≤ packet.size)

theorem protocol_mem {d : Dissector} (hd : d ∈ atLayer osiLayer3) {packet : Packet}
    (hp : d.handles packet = true) : packet.protocol ∈ [ipProtoUdp, ipProtoIcmp, ipProtoTcp] := by
  rcases protocol_of_layer3 hd hp with ⟨-, h⟩ | ⟨-, h⟩ | ⟨-, h⟩ <;> simp [h]

theorem Settled.tcp_size {packet : Packet} (hs : Settled packet) (hp : tcp.handles packet = true) :
    13 ≤ packet.size := by
  have hmem : tcp ∈ atLayer osiLayer3 := by simp
  rcases hs with hnone | ⟨d, hd, hpd, hsize⟩
  · exact absurd (protocol_mem hmem hp) hnone
  · exact hsize (eq_of_handles (by decide) hd hmem hpd hp)

theorem Extends.handles_eq (h : Extends trailer p p') (hs : Settled p) {d : Dissector}
    (hd : d ∈ atLayer osiLayer3) : d.handles p' = d.handles p := by
  have h7 : osiLayer3 ≠ osiLayer7 := by decide
  rw [Bool.eq_iff_iff]
  rcases hs with hnone | ⟨d', hd', hp', hsize⟩
  · refine iff_of_false (fun hp => hnone ?_) (fun hp => hnone (protocol_mem hd hp))
    rw [← h.protocol]
    exact protocol_mem hd hp
  · have hext := h.handles hd' hp' hsize
    constructor
    · intro hp
      rw [eq_of_handles h7 hd hd' hp hext]
      exact hp'
    · intro hp
      rw [eq_of_handles h7 hd hd' hp hp']
      exact hext

theorem Extends.be16 (h : Extends trailer p p') (hd : p.data ≠ none) {i : ℕ} (hi : i + 1 < p.size) :
    p'.be16 i = p.be16 i := by
  rw [Packet.be16, h.byte hd (by omega), h.byte hd hi, Packet.be16]

/-- What DHCP finds in a packet that holds its two bytes it finds with bytes behind it. -/
theorem Extends.dhcp_handles (h : Extends trailer p p') (hd : p.data ≠ none)
    (hsize : sizeofPointer ≤ p.size) : dhcp.handles p' = dhcp.handles p := by
  have hsize' := h.size
  rw [Bool.eq_iff_iff]
  refine Iff.trans (dhcpDissectorHandles_iff p') (Iff.trans ?_ (dhcpDissectorHandles_iff p).symm)
  rw [sizeofPointer] at hsize ⊢
  rw [h.byte hd (show 0 < p.size by omega), h.byte hd (show 1 < p.size by omega)]
  refine and_congr (iff_of_true (h.data_ne_none hd) hd) (and_congr ?_ Iff.rfl)
  exact iff_of_true (by omega) hsize

/-- DNS accepts what it accepts with bytes behind it. -/
theorem Extends.dns_handles (h : Extends trailer p p') (hp : dns.handles p = true) :
    dns.handles p' = true := by
  obtain ⟨hd, hadmitted⟩ := (dnsDissectorHandles_iff p).mp hp
  have hheader := hadmitted.header
  have hsize := h.size
  rw [sizeofDnshdr] at hheader
  have hroom := hadmitted.room
  refine (dnsDissectorHandles_iff p').mpr ⟨h.data_ne_none hd, ?_, ?_, ?_, ?_, ?_, ?_, ?_⟩
  · rw [sizeofDnshdr]
    omega
  · rw [h.session]
    exact hadmitted.session
  · rw [h.byte hd (by omega)]
    exact hadmitted.reserved
  · rw [h.byte hd (by omega)]
    exact hadmitted.code
  · rw [h.be16 hd (by omega)]
    exact hadmitted.questions
  · rw [h.be16 hd (by omega)]
    exact hadmitted.answers
  · rw [h.be16 hd (by omega), h.be16 hd (by omega), h.byte hd (by omega)]
    omega

end Dissectors

section Frames
variable [Memory] {frame : Bytes} (hf : CarriesIpv4 frame) (trailer : Bytes)
include hf

omit [Memory] in
private theorem networkPacket_extends : Extends trailer (networkPacket frame) (networkPacket (frame ++ trailer)) := by
  have hlen := hf.length_le
  have htype : etherType (frame ++ trailer) = etherType frame :=
    (hf.append trailer).type.trans hf.type.symm
  rw [networkPacket, networkPacket, htype]
  exact suffix_extends (by omega) trailer _ _

theorem network_append : networkHeader (frame ++ trailer) = networkHeader frame ∧
    networkHint (frame ++ trailer) = networkHint frame := by
  have hlen := hf.length_le
  have hext := networkPacket_extends hf trailer
  have hbyte : ∀ i, i < 20 → (networkPacket (frame ++ trailer)).byte i = (networkPacket frame).byte i := by
    intro i hi
    refine hext.byte (Option.some_ne_none _) ?_
    rw [networkPacket, suffix_size]
    omega
  obtain ⟨hip, -⟩ := hf.ip_handles
  obtain ⟨hip', -⟩ := (hf.append trailer).ip_handles
  rw [networkHeader, networkHint, if_pos hip', if_pos hip', networkHeader, networkHint, if_pos hip,
    if_pos hip, ipHeaderSize, hbyte 0 (by omega), hbyte 9 (by omega), ipHeaderSize]
  exact ⟨rfl, rfl⟩

theorem transportPacket_extends :
    Extends trailer (transportPacket frame) (transportPacket (frame ++ trailer)) := by
  have hlen := hf.length_le
  have hle := networkHeader_le frame
  obtain ⟨hheader, hhint⟩ := network_append hf trailer
  rw [networkPacket, suffix_size] at hle
  rw [transportPacket, transportPacket, hheader, hhint]
  exact suffix_extends (by omega) trailer _ _

private theorem transport_append (hs : Settled (transportPacket frame)) :
    transportHeader (frame ++ trailer) = transportHeader frame ∧
      transportHint (frame ++ trailer) = transportHint frame ∧
      transportSession (frame ++ trailer) = transportSession frame := by
  have hext := transportPacket_extends hf trailer
  have hdata : (transportPacket frame).data ≠ none := Option.some_ne_none _
  have heq : ∀ d ∈ atLayer osiLayer3,
      d.handles (transportPacket (frame ++ trailer)) = d.handles (transportPacket frame) := by
    intro d hd
    exact hext.handles_eq hs hd
  have hudp := heq udp (by simp)
  have hicmp := heq icmp (by simp)
  have htcp := heq tcp (by simp)
  refine ⟨?_, ?_, ?_⟩
  · rw [transportHeader, hudp, hicmp, htcp, transportHeader]
    split
    · rfl
    · split
      · rfl
      · split
        · rename_i ht
          exact hext.tcpHeaderSize hdata (hs.tcp_size ht)
        · rfl
  · rw [transportHint, hudp, hicmp, htcp, (network_append hf trailer).2, transportHint]
  · rw [transportSession, hudp, hicmp, htcp, transportSession]
    split
    · rename_i hu
      rw [(hext.sessions hdata ((handlesHint_iff _ _ _).mp hu).2.2).1]
    · split
      · rfl
      · split
        · rename_i ht
          rw [(hext.sessions hdata ((tcpDissectorHandles_iff _).mp ht).2.1).2]
        · rfl

/-- Where the taker is settled, layer 7 gets the trailer with the payload. -/
theorem applicationPacket_extends (hs : Settled (transportPacket frame)) :
    Extends trailer (applicationPacket frame) (applicationPacket (frame ++ trailer)) := by
  have hlen := hf.length_le
  have hnetwork := networkHeader_le frame
  have htransport := transportHeader_le frame
  obtain ⟨hheader, hhint, hsession⟩ := transport_append hf trailer hs
  rw [networkPacket, suffix_size] at hnetwork
  rw [transportPacket, suffix_size] at htransport
  have hheaders : headers (frame ++ trailer) = headers frame := by
    rw [headers, (network_append hf trailer).1, hheader, headers]
  rw [applicationPacket, applicationPacket, hheaders, hhint, hsession]
  refine suffix_extends ?_ trailer _ _
  rw [headers]
  omega

end Frames

/-- How a trailer shows in the walk over a frame with an IPv4 packet. Where layer 3 is settled
it is taken as before, layer 7 gets the trailer with the payload, and what DHCP or DNS takes
there stays with it. -/
structure TrailerTaken [Memory] (trailer : Bytes) (trace trace' : List Event) : Prop where
  network : ∃ above above', (dumps trace).map Prod.fst = ethernet :: ip :: above ∧
    (dumps trace').map Prod.fst = ethernet :: ip :: above'
  transport : ∃ p p' t t', (osiLayer3, p, t) ∈ finds trace ∧ (osiLayer3, p', t') ∈ finds trace' ∧
    Extends trailer p.packet p'.packet ∧ (Settled p.packet → t' = t ∧
      ∃ q q' u u', (osiLayer7, q, u) ∈ finds trace ∧ (osiLayer7, q', u') ∈ finds trace' ∧
        Extends trailer q.packet q'.packet ∧ (u = some dhcp ∨ u = some dns → u' = u))

section Walk
variable [Memory] [CircularLinkedList]

omit [CircularLinkedList] in
theorem ethernet_of_carriesIpv4 {frame : Bytes} (hf : CarriesIpv4 frame) :
    ethernet.handles (Packet.ofFrame frame) = true := by
  have hlen := hf.length_le
  refine (ethernet_handles_iff frame).mpr ⟨by omega, ?_, ?_⟩ <;> rw [hf.type] <;> decide

theorem dumps_of_carriesIpv4 {frame : Bytes} (hf : CarriesIpv4 frame) : ∃ above,
    (dumps (osiDumpPacketTrace mainStack (Packet.ofFrame frame))).map Prod.fst =
      ethernet :: ip :: above := by
  have h := List.Perm.refl mainOrder
  have ha := ethernet_of_carriesIpv4 hf
  have hsecond := (secondVisit_taker_iff h ha List.mem_cons_self).mpr hf.ip_handles.1
  refine ⟨((thirdVisit mainOrder (Packet.ofFrame frame)).dumped.toList ++
    (seventhVisit mainOrder (Packet.ofFrame frame)).dumped.toList).map Prod.fst, ?_⟩
  rw [mainStack, dumps_of_accepted h ha]
  simp [Visit.dumped, hsecond]

private theorem thirdVisit_append {frame : Bytes} (hf : CarriesIpv4 frame) (trailer : Bytes)
    (hs : Settled (transportPacket frame)) :
    (thirdVisit mainOrder (Packet.ofFrame (frame ++ trailer))).taker =
      (thirdVisit mainOrder (Packet.ofFrame frame)).taker := by
  have htaker : ∀ {frame}, ethernet.handles (Packet.ofFrame frame) = true → ∀ d,
      (thirdVisit mainOrder (Packet.ofFrame frame)).taker = some d ↔
        d ∈ atLayer osiLayer3 ∧ d.handles (transportPacket frame) = true := by
    intro frame ha d
    rw [← thirdVisit_anatomy (List.Perm.refl mainOrder) ha]
    exact taker_eq_some_iff (List.Perm.refl mainOrder) osiLayer3 _ (by decide)
  apply Option.ext
  intro d
  rw [htaker (ethernet_of_carriesIpv4 (hf.append trailer)), htaker (ethernet_of_carriesIpv4 hf)]
  apply and_congr_right
  intro hd
  rw [(transportPacket_extends hf trailer).handles_eq hs hd]

theorem seventhVisit_append {frame : Bytes} (hf : CarriesIpv4 frame) (trailer : Bytes)
    (hs : Settled (transportPacket frame))
    (ht : (seventhVisit mainOrder (Packet.ofFrame frame)).taker = some dhcp ∨
      (seventhVisit mainOrder (Packet.ofFrame frame)).taker = some dns) :
    (seventhVisit mainOrder (Packet.ofFrame (frame ++ trailer))).taker =
      (seventhVisit mainOrder (Packet.ofFrame frame)).taker := by
  have hext := applicationPacket_extends hf trailer hs
  have hd : (applicationPacket frame).data ≠ none := Option.some_ne_none _
  have hmem : ∀ d, (seventhVisit mainOrder (Packet.ofFrame frame)).taker = some d →
      d.handles (applicationPacket frame) = true := by
    intro d htaker
    rw [← seventhVisit_anatomy (List.Perm.refl mainOrder) (ethernet_of_carriesIpv4 hf)]
    exact (taker_mem (List.Perm.refl mainOrder) osiLayer7 _ htaker).2
  have hsize : sizeofPointer ≤ (applicationPacket frame).size := by
    rcases ht with htaker | htaker
    · exact ((dhcpDissectorHandles_iff _).mp (hmem dhcp htaker)).2.1
    · have hheader := ((dnsDissectorHandles_iff _).mp (hmem dns htaker)).2.header
      rw [sizeofDnshdr] at hheader
      rw [sizeofPointer]
      omega
  have hdhcp := hext.dhcp_handles hd hsize
  rw [seventhVisit_find (ethernet_of_carriesIpv4 (hf.append trailer)),
    seventhVisit_find (ethernet_of_carriesIpv4 hf)]
  simp only [atLayer_7, List.find?_cons, hdhcp]
  cases hp : dhcp.handles (applicationPacket frame) with
  | true => rfl
  | false =>
    rcases ht with htaker | htaker
    · rw [hmem dhcp htaker] at hp
      cases hp
    · rw [hmem dns htaker, hext.dns_handles (hmem dns htaker)]

/-- What is appended to a frame with an IPv4 packet is part of every payload above IP. -/
theorem trailer_taken {frame : Bytes} (hf : CarriesIpv4 frame) (trailer : Bytes) :
    TrailerTaken trailer (osiDumpPacketTrace mainStack (Packet.ofFrame frame))
      (osiDumpPacketTrace mainStack (Packet.ofFrame (frame ++ trailer))) := by
  have h := List.Perm.refl mainOrder
  have ha := ethernet_of_carriesIpv4 hf
  have ha' := ethernet_of_carriesIpv4 (hf.append trailer)
  obtain ⟨above, habove⟩ := dumps_of_carriesIpv4 hf
  obtain ⟨above', habove'⟩ := dumps_of_carriesIpv4 (hf.append trailer)
  refine ⟨⟨above, above', habove, habove'⟩, _, _, _, _, thirdVisit_mem_finds h ha,
    thirdVisit_mem_finds h ha', ?_, ?_⟩
  · rw [thirdVisit_anatomy h ha, thirdVisit_anatomy h ha']
    exact transportPacket_extends hf trailer
  · intro hs
    rw [thirdVisit_anatomy h ha] at hs
    refine ⟨thirdVisit_append hf trailer hs, _, _, _, _, seventhVisit_mem_finds h ha,
      seventhVisit_mem_finds h ha', ?_, seventhVisit_append hf trailer hs⟩
    rw [seventhVisit_anatomy h ha, seventhVisit_anatomy h ha']
    exact applicationPacket_extends hf trailer hs

end Walk
/-- A query without questions, in a frame six bytes short of the smallest one. -/
def shortFrame : Bytes :=
  encapsulate loopbackEthernet (loopbackIp 40) (.udp ⟨1024, 53, 20, 0⟩) (List.replicate 12 0)

def padding : Bytes := List.replicate 6 0

theorem carriesIpv4_shortFrame : CarriesIpv4 shortFrame :=
  ⟨by decide, by decide, by decide, by decide, by decide⟩

private theorem settled_shortFrame : let _ := zeroMemory
    Settled (transportPacket shortFrame) := by
  intro _
  exact Or.inr ⟨udp, List.mem_cons_self, by decide +kernel, fun h => absurd (congrArg Dissector.name h) (by decide)⟩

theorem trailer_taken_shortFrame : let _ := zeroMemory; let _ := plainList
    CarriesIpv4 shortFrame ∧ Settled (transportPacket shortFrame) ∧
      (seventhVisit mainOrder (Packet.ofFrame shortFrame)).taker = some dns ∧
        TrailerTaken padding (osiDumpPacketTrace mainStack (Packet.ofFrame shortFrame))
          (osiDumpPacketTrace mainStack (Packet.ofFrame (shortFrame ++ padding))) := by
  intro _ _
  have hdns : (seventhVisit mainOrder (Packet.ofFrame shortFrame)).taker = some dns := by
    have hdhcp : dhcp.handles (applicationPacket shortFrame) = false := by decide +kernel
    have hdns : dns.handles (applicationPacket shortFrame) = true := by decide +kernel
    rw [seventhVisit_find (ethernet_of_carriesIpv4 carriesIpv4_shortFrame), atLayer_7,
      List.find?_cons_of_neg (by simp [hdhcp])]
    exact List.find?_cons_of_pos hdns
  exact ⟨carriesIpv4_shortFrame, settled_shortFrame, hdns, trailer_taken carriesIpv4_shortFrame padding⟩

/-- What is dumped above IP, and on which bytes. -/
def aboveIp (trace : List Event) : List (Dissector × Option Bytes × ℕ) :=
  ((dumps trace).filter fun x => osiLayer3 ≤ x.1.layer).map fun x =>
    (x.1, x.2.packet.data, x.2.packet.size)

/-- The padding is part of the datagram and of the query in it. -/
theorem aboveIp_shortFrame_padding : ¬ ∀ (_ : Memory) (_ : CircularLinkedList) (frame trailer : Bytes),
    CarriesIpv4 frame →
      aboveIp (osiDumpPacketTrace mainStack (Packet.ofFrame (frame ++ trailer))) =
        aboveIp (osiDumpPacketTrace mainStack (Packet.ofFrame frame)) := by
  intro h
  let _ := zeroMemory
  let _ := plainList
  have hsizes := congrArg (List.map fun x => x.2.2)
    (h zeroMemory plainList shortFrame padding carriesIpv4_shortFrame)
  exact absurd hsizes (by decide +kernel)

end OpenSniffer.Trailers
