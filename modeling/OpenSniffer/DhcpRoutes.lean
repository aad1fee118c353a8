import OpenSniffer.FrameAnatomy

/-!
# By which routes a packet reaches the DHCP dissector

The dissectors of DNS and HTTP ask for a session; that of DHCP looks at two bytes only.
It stands before them in the stack, so whatever reaches layer 7 by whatever route is
dumped as DHCP if it looks like it.
-/
namespace OpenSniffer.DhcpRoutes
open Packets OsiStack OsiWalk MainStack LayerOrder FrameAnatomy FixedHeaderDissectors
  VariableHeaderDissectors DhcpDissector DnsDissector HttpDissector TracedReads

/-- An operation code of 1 or 2 and a hardware type up to 20, in at least eight bytes. -/
def LooksLikeDhcp (bytes : Bytes) : Prop :=
  8 ≤ bytes.length ∧ (bytes.getD 0 0 = 1 ∨ bytes.getD 0 0 = 2) ∧ (bytes.getD 1 0).toNat ≤ 20

/-- Wherever DHCP is dumped, UDP was dumped before on the packet whose payload it is. -/
def DhcpFromUdp (trace : List Event) [Memory] : Prop :=
  ∀ before p after, dumps trace = before ++ (dhcp, p) :: after →
    ∃ q, (udp, q) ∈ before ∧ Event.decapsulate udp q (some p) ∈ trace

variable [Memory]

theorem dhcp_handles_iff {packet : Packet} {bytes : Bytes} (hd : packet.data = some bytes) :
    dhcp.handles packet = true ↔ LooksLikeDhcp bytes := by
  have hlen : bytes.length = packet.size := packet.sized bytes hd
  have hiff := dhcpDissectorHandles_iff packet
  have hop : ∀ b : UInt8, (b.toNat = 1 ∨ b.toNat = 2) ↔ (b = 1 ∨ b = 2) := by
    intro b
    simp [← UInt8.toNat_inj]
  constructor
  · intro h
    obtain ⟨-, hs, hcode, htype⟩ := hiff.mp h
    simp only [sizeofPointer] at hs
    rw [Packet.byte_eq_getD hd (by omega)] at hcode htype
    exact ⟨by omega, (hop _).mp hcode, htype⟩
  · intro hlooks
    obtain ⟨hs, hcode, htype⟩ := hlooks
    refine hiff.mpr ⟨by simp [hd], by simp only [sizeofPointer]; omega, ?_, ?_⟩
    · rw [Packet.byte_eq_getD hd (by omega)]
      exact (hop _).mpr hcode
    · rw [Packet.byte_eq_getD hd (by omega)]
      exact htype

section Walk
variable [CircularLinkedList] {frame : Bytes}
  (ha : ethernet.handles (Packet.ofFrame frame) = true)
include ha

/-- DHCP is the first dissector of its layer, so it takes what it accepts. -/
theorem seventhVisit_dhcp_iff : (seventhVisit mainOrder (Packet.ofFrame frame)).taker = some dhcp ↔
    LooksLikeDhcp (frame.drop (headers frame)) := by
  have h := List.Perm.refl mainOrder
  have hdata : (applicationPacket frame).data = some (frame.drop (headers frame)) := rfl
  rw [← dhcp_handles_iff hdata]
  constructor
  · intro ht
    have hp := (taker_mem h osiLayer7 _ ht).2
    rwa [← seventhVisit_anatomy h ha]
  · intro hp
    rw [seventhVisit_find ha, atLayer_7]
    exact List.find?_cons_of_pos hp

/-- A dump of DHCP is the visit's to layer 7. -/
theorem mem_dumps_dhcp {p : Ref} :
    (dhcp, p) ∈ dumps (osiDumpPacketTrace mainStack (Packet.ofFrame frame)) ↔
      LooksLikeDhcp (frame.drop (headers frame)) ∧
        p = (seventhVisit mainOrder (Packet.ofFrame frame)).packet := by
  rw [mainStack, mem_dumps_layer7 (List.Perm.refl mainOrder) ha rfl, Visit.dumped_eq_some,
    seventhVisit_dhcp_iff ha]
  exact and_congr_right fun _ => eq_comm

theorem mem_dumps_udp {q : Ref} :
    (udp, q) ∈ dumps (osiDumpPacketTrace mainStack (Packet.ofFrame frame)) ↔
      udp.handles (transportPacket frame) = true ∧
        q = (thirdVisit mainOrder (Packet.ofFrame frame)).packet := by
  rw [mainStack, mem_dumps_layer3 (List.Perm.refl mainOrder) ha rfl, Visit.dumped_eq_some,
    thirdVisit_taker_iff (List.Perm.refl mainOrder) ha List.mem_cons_self]
  exact and_congr_right fun _ => eq_comm

theorem udp_decapsulates (hudp : udp.handles (transportPacket frame) = true) :
    Event.decapsulate udp (thirdVisit mainOrder (Packet.ofFrame frame)).packet
        (some (seventhVisit mainOrder (Packet.ofFrame frame)).packet) ∈
      osiDumpPacketTrace mainStack (Packet.ofFrame frame) := by
  have h := List.Perm.refl mainOrder
  have ht := (thirdVisit_taker_iff h ha List.mem_cons_self).mpr hudp
  have hp : udp.handles (thirdVisit mainOrder (Packet.ofFrame frame)).packet.packet = true := by
    rwa [thirdVisit_anatomy h ha]
  have hresult : (thirdVisit mainOrder (Packet.ofFrame frame)).result =
      some (seventhVisit mainOrder (Packet.ofFrame frame)).packet :=
    (taken_of_decapsulate ht hp (udp_decapsulate hp)).result_eq
  have hvisit : thirdVisit mainOrder (Packet.ofFrame frame) ∈
      visits (registered mainOrder) (Packet.ofFrame frame) := by
    simp [visits_of_accepted h ha]
  exact mem_trace hvisit (by simp [Visit.events, ht, hresult])

theorem not_dhcpFromUdp (hudp : udp.handles (transportPacket frame) = false)
    (hlooks : LooksLikeDhcp (frame.drop (headers frame))) :
    ¬ DhcpFromUdp (osiDumpPacketTrace mainStack (Packet.ofFrame frame)) := by
  intro hroute
  obtain ⟨before, after, hsplit⟩ := List.append_of_mem ((mem_dumps_dhcp ha).mpr ⟨hlooks, rfl⟩)
  obtain ⟨q, hq, -⟩ := hroute before _ after hsplit
  have hmem : (udp, q) ∈ dumps (osiDumpPacketTrace mainStack (Packet.ofFrame frame)) := by
    rw [hsplit]
    exact List.mem_append_left _ hq
  have hudp' := ((mem_dumps_udp ha).mp hmem).1
  rw [hudp] at hudp'
  contradiction

theorem dhcpFromUdp_of_udp (hudp : udp.handles (transportPacket frame) = true) :
    DhcpFromUdp (osiDumpPacketTrace mainStack (Packet.ofFrame frame)) := by
  intro before p after hsplit
  have hlayers := dumps_layer_lt mainStack (Packet.ofFrame frame)
  have hdhcp : (dhcp, p) ∈ dumps (osiDumpPacketTrace mainStack (Packet.ofFrame frame)) := by
    rw [hsplit]
    exact List.mem_append_right _ List.mem_cons_self
  have hmem := (mem_dumps_udp ha).mpr ⟨hudp, rfl⟩
  obtain ⟨-, rfl⟩ := (mem_dumps_dhcp ha).mp hdhcp
  refine ⟨_, ?_, udp_decapsulates ha hudp⟩
  have hlayer : udp.layer < dhcp.layer := by
    change osiLayer3 < osiLayer7
    decide
  rw [hsplit, List.pairwise_append, List.pairwise_cons] at hlayers
  rw [hsplit, List.mem_append, List.mem_cons] at hmem
  rcases hmem with hbefore | heq | hafter
  · exact hbefore
  · rw [congrArg (fun x => x.1.layer) heq] at hlayer
    exact absurd hlayer (Nat.lt_irrefl _)
  · exact absurd (hlayers.2.1.1 _ hafter) (Nat.lt_asymm hlayer)

end Walk

/-- DHCP is shown only for UDP traffic exactly when Ethernet rejects the frame, or UDP
takes what IP left of it, or what lies behind the headers does not look like DHCP. -/
theorem dhcpFromUdp_iff [CircularLinkedList] (frame : Bytes) :
    DhcpFromUdp (osiDumpPacketTrace mainStack (Packet.ofFrame frame)) ↔
      ethernet.handles (Packet.ofFrame frame) = false ∨ udp.handles (transportPacket frame) = true ∨
        ¬ LooksLikeDhcp (frame.drop (headers frame)) := by
  cases ha : ethernet.handles (Packet.ofFrame frame) with
  | false =>
    refine iff_of_true ?_ (Or.inl rfl)
    intro before p after hsplit
    have hnil : dumps (osiDumpPacketTrace mainStack (Packet.ofFrame frame)) = [] :=
      dumps_of_rejected (List.Perm.refl mainOrder) ha
    rw [hnil] at hsplit
    exact absurd hsplit.symm (by simp)
  | true =>
    cases hudp : udp.handles (transportPacket frame) with
    | true => exact iff_of_true (dhcpFromUdp_of_udp ha hudp) (Or.inr (Or.inl rfl))
    | false =>
      by_cases hlooks : LooksLikeDhcp (frame.drop (headers frame))
      · refine iff_of_false (not_dhcpFromUdp ha hudp hlooks) ?_
        simp [hlooks]
      · refine iff_of_true ?_ (Or.inr (Or.inr hlooks))
        intro before p after hsplit
        have hdhcp : (dhcp, p) ∈ dumps (osiDumpPacketTrace mainStack (Packet.ofFrame frame)) := by
          rw [hsplit]
          exact List.mem_append_right _ List.mem_cons_self
        exact absurd ((mem_dumps_dhcp ha).mp hdhcp).1 hlooks

/-- A discovery frame opens with a chassis identifier, type 1 and length 7: as DHCP, a
reply over ARCNET. -/
def discoveryFrame : Bytes :=
  [0x01, 0x80, 0xc2, 0, 0, 0x0e] ++ [0, 0x11, 0x22, 0x33, 0x44, 0x55] ++ [0x88, 0xcc] ++
    [2, 7, 4, 0, 0x11, 0x22, 0x33, 0x44, 0x55] ++ [4, 2, 7, 0x31] ++ [6, 2, 0, 120] ++ [0, 0]

omit [Memory] in
theorem discoveryFrame_not_dhcpFromUdp :
    ¬ ∀ (_ : Memory) (_ : CircularLinkedList) (frame : Bytes),
      DhcpFromUdp (osiDumpPacketTrace mainStack (Packet.ofFrame frame)) := by
  intro h
  let _ := zeroMemory
  let _ := plainList
  have ha : ethernet.handles (Packet.ofFrame discoveryFrame) = true := by decide
  have hudp : udp.handles (transportPacket discoveryFrame) = false := by decide
  have hlooks : LooksLikeDhcp (discoveryFrame.drop (headers discoveryFrame)) := by
    have hheaders : headers discoveryFrame = 14 := by decide
    rw [hheaders]
    exact ⟨by decide, by decide, by decide⟩
  exact not_dhcpFromUdp ha hudp hlooks (h zeroMemory plainList discoveryFrame)

end OpenSniffer.DhcpRoutes
