import OpenSniffer.MainStack

/-!
# Which dissectors a walk may dump, and after which

A packet's hint is one number for EtherTypes and protocol numbers alike. Ethernet admits
no type below 0x0200, so a packet that layer 2 passes on never has a transport's hint,
and every other packet without IP's hint has the hint 0. Sessions come from UDP and TCP.
-/
namespace OpenSniffer.LayerOrder
open Packets OsiStack OsiWalk MainStack FixedHeaderDissectors VariableHeaderDissectors DhcpDissector
  DnsDissector HttpDissector TracedReads

variable [Memory]

section Invariants
variable [CircularLinkedList] {order : List Dissector} (h : order.Perm mainOrder) {packet : Packet}
  (ha : ethernet.handles packet = true)
include h ha

theorem secondVisit_packet : (secondVisit order packet).packet =
    ⟨1, (packet.behind sizeofEtherHeader (packet.be16 12) none).value⟩ :=
  (firstVisit_of_accepted h ha).after

/-- Ethernet leaves its type as the hint, which is no protocol number. -/
theorem secondVisit_hint : (secondVisit order packet).packet.packet.protocol = packet.be16 12 ∧
    0x0200 ≤ (secondVisit order packet).packet.packet.protocol ∧
    (secondVisit order packet).packet.packet.session = none := by
  obtain ⟨-, -, hlow, -⟩ := (ethernetDissectorHandles_iff packet).mp ha
  rw [secondVisit_packet h ha]
  exact ⟨rfl, hlow, rfl⟩

theorem secondVisit_taker {d : Dissector} (hd : (secondVisit order packet).taker = some d) :
    (d = ip ∧ packet.be16 12 = etherTypeIp) ∨ (d = arp ∧ packet.be16 12 = etherTypeArp) := by
  have hmem : d ∈ atLayer osiLayer2 ∧ d.handles (secondVisit order packet).packet.packet = true :=
    taker_mem h osiLayer2 _ hd
  have hprotocol := protocol_of_layer2 hmem.1 hmem.2
  rwa [(secondVisit_hint h ha).1] at hprotocol

/-- What reaches layer 3 has no session, and a hint below 256 only if IP took the packet
before or the hint is 0. -/
theorem thirdVisit_packet : (thirdVisit order packet).packet.packet.session = none ∧
    ((thirdVisit order packet).packet.packet.protocol = 0 ∨
      0x0200 ≤ (thirdVisit order packet).packet.packet.protocol ∨
      ((secondVisit order packet).taker = some ip ∧
        (secondVisit order packet).result = some (thirdVisit order packet).packet)) := by
  have hpacket : (thirdVisit order packet).packet = (secondVisit order packet).after := rfl
  obtain ⟨-, hlow, hsession⟩ := secondVisit_hint h ha
  rcases secondVisit_cases h packet with hnone | hip | harp
  · rw [hpacket, after_of_no_taker hnone]
    exact ⟨hsession, Or.inr (Or.inl hlow)⟩
  · rw [hpacket, hip.after]
    exact ⟨rfl, Or.inr (Or.inr ⟨hip.taker, hip.result⟩)⟩
  · rw [hpacket, harp.after]
    exact ⟨rfl, Or.inl rfl⟩

def transports : List (Dissector × ℕ) := [(udp, ipProtoUdp), (icmp, ipProtoIcmp), (tcp, ipProtoTcp)]

/-- Layer 3 takes a packet that IP decapsulated, for the hint IP gave it. -/
theorem thirdVisit_taker {d : Dissector} (hd : (thirdVisit order packet).taker = some d) :
    (d, (thirdVisit order packet).packet.packet.protocol) ∈ transports ∧
      (secondVisit order packet).taker = some ip ∧
      (secondVisit order packet).result = some (thirdVisit order packet).packet := by
  have hmem : d ∈ atLayer osiLayer3 ∧ d.handles (thirdVisit order packet).packet.packet = true :=
    taker_mem h osiLayer3 _ hd
  have hprotocol := protocol_of_layer3 hmem.1 hmem.2
  obtain ⟨-, hzero | hlow | hip⟩ := thirdVisit_packet h ha
  · simp [hzero, ipProtoUdp, ipProtoIcmp, ipProtoTcp] at hprotocol
  · simp only [ipProtoUdp, ipProtoIcmp, ipProtoTcp] at hprotocol
    omega
  · refine ⟨?_, hip⟩
    rcases hprotocol with ⟨rfl, hp⟩ | ⟨rfl, hp⟩ | ⟨rfl, hp⟩ <;> simp [transports, hp]

/-- A session at layer 7 is UDP's or TCP's. -/
theorem seventhVisit_session (hs : (seventhVisit order packet).packet.packet.session ≠ none) :
    (thirdVisit order packet).taker = some udp ∨ (thirdVisit order packet).taker = some tcp := by
  have hpacket : (seventhVisit order packet).packet = (thirdVisit order packet).after := rfl
  rcases thirdVisit_cases h packet with hnone | hudp | hicmp | htcp
  · rw [hpacket, after_of_no_taker hnone] at hs
    exact absurd (thirdVisit_packet h ha).1 hs
  · exact Or.inl hudp.taker
  · rw [hpacket, hicmp.after] at hs
    exact absurd rfl hs
  · exact Or.inr htcp.taker

theorem seventhVisit_taker {d : Dissector} (hd : (seventhVisit order packet).taker = some d) :
    d = dhcp ∨ ((d = dns ∨ d = http) ∧
      ((thirdVisit order packet).taker = some udp ∨ (thirdVisit order packet).taker = some tcp)) := by
  obtain ⟨hmem, hp⟩ : d ∈ atLayer osiLayer7 ∧
      d.handles (seventhVisit order packet).packet.packet = true := taker_mem h osiLayer7 _ hd
  rw [atLayer_7, List.mem_cons, List.mem_pair] at hmem
  rcases hmem with rfl | rfl | rfl
  · exact Or.inl rfl
  · have hs := ((dnsDissectorHandles_iff _).mp hp).2.session
    exact Or.inr ⟨Or.inl rfl, seventhVisit_session h ha hs⟩
  · have hs := ((httpDissectorHandles_iff _).mp hp).2.1
    exact Or.inr ⟨Or.inr rfl, seventhVisit_session h ha hs⟩

end Invariants

def etherType (frame : Bytes) : ℕ := (frame.getD 12 0).toNat * 256 + (frame.getD 13 0).toNat

theorem be16_ofFrame {frame : Bytes} (hlen : sizeofEtherHeader ≤ frame.length) :
    (Packet.ofFrame frame).be16 12 = etherType frame := by
  have hdata : (Packet.ofFrame frame).data = some frame := rfl
  rw [sizeofEtherHeader] at hlen
  rw [Packet.be16, Packet.byte_eq_getD hdata (by omega), Packet.byte_eq_getD hdata (by omega),
    etherType]

/-- Ethernet admits a frame for its length and its type. -/
theorem ethernet_handles_iff (frame : Bytes) : ethernet.handles (Packet.ofFrame frame) = true ↔
    sizeofEtherHeader ≤ frame.length ∧ 0x0200 ≤ etherType frame ∧ etherType frame ≤ 0x9000 := by
  have hiff : ethernet.handles (Packet.ofFrame frame) = true ↔ (Packet.ofFrame frame).data ≠ none ∧
      sizeofEtherHeader ≤ frame.length ∧ 0x0200 ≤ (Packet.ofFrame frame).be16 12 ∧
        (Packet.ofFrame frame).be16 12 ≤ 0x9000 := ethernetDissectorHandles_iff _
  rw [hiff]
  constructor
  · intro h
    obtain ⟨-, hlen, htype⟩ := h
    rw [be16_ofFrame hlen] at htype
    exact ⟨hlen, htype⟩
  · intro h
    obtain ⟨hlen, htype⟩ := h
    rw [be16_ofFrame hlen]
    exact ⟨Option.some_ne_none _, hlen, htype⟩

/-- What is dumped of a frame that Ethernet accepts, at layers 2, 3 and 7. -/
structure Layered (frame : Bytes) (trace : List Event)
    (second third seventh : Option (Dissector × Ref)) : Prop where
  dumped : dumps trace = (ethernet, ⟨0, Packet.ofFrame frame⟩) ::
    (second.toList ++ third.toList ++ seventh.toList)
  network : ∀ d p, second = some (d, p) →
    (d = ip ∧ etherType frame = 0x0800) ∨ (d = arp ∧ etherType frame = 0x0806)
  transport : ∀ d p, third = some (d, p) →
    (d, p.packet.protocol) ∈ [(udp, 17), (icmp, 1), (tcp, 6)] ∧
      ∃ q, second = some (ip, q) ∧ Event.decapsulate ip q (some p) ∈ trace
  application : ∀ d p, seventh = some (d, p) → d = dhcp ∨
    ((d = dns ∨ d = http) ∧ ∃ q, third = some (udp, q) ∨ third = some (tcp, q))

section Walk
variable [CircularLinkedList]

private theorem layered_of_accepted {frame : Bytes} (ha : ethernet.handles (Packet.ofFrame frame) = true) :
    Layered frame (osiDumpPacketTrace mainStack (Packet.ofFrame frame))
      (secondVisit mainOrder (Packet.ofFrame frame)).dumped
      (thirdVisit mainOrder (Packet.ofFrame frame)).dumped
      (seventhVisit mainOrder (Packet.ofFrame frame)).dumped := by
  have h := List.Perm.refl mainOrder
  refine ⟨dumps_of_accepted h ha, ?_, ?_, ?_⟩
  · intro d p hd
    have htaker := secondVisit_taker h ha (Visit.dumped_eq_some.mp hd).1
    rwa [be16_ofFrame ((ethernet_handles_iff frame).mp ha).1] at htaker
  · intro d p hd
    obtain ⟨ht, rfl⟩ := Visit.dumped_eq_some.mp hd
    obtain ⟨hhint, hip, hresult⟩ := thirdVisit_taker h ha ht
    refine ⟨hhint, _, Visit.dumped_eq_some.mpr ⟨hip, rfl⟩, ?_⟩
    have hvisit : secondVisit mainOrder (Packet.ofFrame frame) ∈
        visits (registered mainOrder) (Packet.ofFrame frame) := by
      simp [visits_of_accepted h ha]
    exact mem_trace hvisit (by simp [Visit.events, hip, hresult])
  · intro d p hd
    rcases seventhVisit_taker h ha (Visit.dumped_eq_some.mp hd).1 with hdhcp | ⟨hother, ht⟩
    · exact Or.inl hdhcp
    · refine Or.inr ⟨hother, (thirdVisit mainOrder (Packet.ofFrame frame)).packet, ?_⟩
      exact ht.imp (fun ht => Visit.dumped_eq_some.mpr ⟨ht, rfl⟩) (fun ht => Visit.dumped_eq_some.mpr ⟨ht, rfl⟩)

/-- For every frame, nothing is dumped, or Ethernet and at most one dissector of each of
the layers 2, 3 and 7, each only on what the layer below left for it. -/
theorem osiDumpPacket_layered (frame : Bytes) :
    (ethernet.handles (Packet.ofFrame frame) = false ∧
      dumps (osiDumpPacketTrace mainStack (Packet.ofFrame frame)) = []) ∨
    (ethernet.handles (Packet.ofFrame frame) = true ∧ ∃ second third seventh,
      Layered frame (osiDumpPacketTrace mainStack (Packet.ofFrame frame)) second third seventh) := by
  cases ha : ethernet.handles (Packet.ofFrame frame) with
  | false => exact Or.inl ⟨rfl, dumps_of_rejected (List.Perm.refl mainOrder) ha⟩
  | true => exact Or.inr ⟨rfl, _, _, _, layered_of_accepted ha⟩

end Walk
end OpenSniffer.LayerOrder
