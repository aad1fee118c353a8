import OpenSniffer.LayerOrder

/-!
# The anatomy of a frame

What a frame is made of, without a walk: how many bytes its headers have, the hints in
them, and what lies behind them. The walk refines it, in whatever order the dissectors are
registered: at layers 2, 3 and 7 it sees what lies behind the headers of the layers below.
-/
namespace OpenSniffer.FrameAnatomy
open Packets OsiStack OsiWalk MainStack LayerOrder FixedHeaderDissectors VariableHeaderDissectors
  TracedReads

/-- What lies behind the first bytes of a frame, as a packet. -/
def suffix (frame : Bytes) (removed hint : ℕ) (session : Option Session) : Packet where
  data := some (frame.drop removed)
  size := frame.length - removed
  protocol := hint
  session := session
  sized := by simp

private theorem suffix_zero (frame : Bytes) : suffix frame 0 0 none = Packet.ofFrame frame := rfl

section Suffixes
variable {frame : Bytes} {removed hint : ℕ} {session : Option Session}

@[simp] theorem suffix_data : (suffix frame removed hint session).data = some (frame.drop removed) := rfl
@[simp] theorem suffix_size : (suffix frame removed hint session).size = frame.length - removed := rfl
@[simp] theorem suffix_protocol : (suffix frame removed hint session).protocol = hint := rfl
@[simp] theorem suffix_session : (suffix frame removed hint session).session = session := rfl

theorem suffix_byte [Memory] {i : ℕ} (hi : removed + i < frame.length) :
    (suffix frame removed hint session).byte i = frame.getD (removed + i) 0 := by
  have hi' : i < (frame.drop removed).length := by rw [List.length_drop]; omega
  rw [Packet.byte_eq_getD rfl hi', List.getD_eq_getElem?_getD, List.getElem?_drop,
    List.getD_eq_getElem?_getD]

/-- A header is removed from what lies behind other headers. -/
theorem behind_suffix [Memory] {header protocol : ℕ} {session' : Option Session}
    (hle : header ≤ (suffix frame removed hint session).size) :
    ((suffix frame removed hint session).behind header protocol session').value =
      suffix frame (removed + header) protocol session' := by
  apply Packet.ext
  · have hdata : ((suffix frame removed hint session).behind header protocol session').value.data =
        some ((frame.drop removed).drop header) := Packet.behind_data rfl hle
    rw [hdata, List.drop_drop, suffix_data]
  · rw [Packet.behind_size hle, suffix_size, suffix_size, Nat.sub_sub]
  · rfl
  · rfl

end Suffixes

variable [Memory]

def networkPacket (frame : Bytes) : Packet :=
  suffix frame sizeofEtherHeader (etherType frame) none

def networkHeader (frame : Bytes) : ℕ :=
  let p := networkPacket frame
  if ip.handles p then ipHeaderSize p else if arp.handles p then sizeofEtherArp else 0

def networkHint (frame : Bytes) : ℕ :=
  let p := networkPacket frame
  if ip.handles p then (p.byte 9).toNat else if arp.handles p then 0 else etherType frame

def transportPacket (frame : Bytes) : Packet :=
  suffix frame (sizeofEtherHeader + networkHeader frame) (networkHint frame) none

def transportHeader (frame : Bytes) : ℕ :=
  let p := transportPacket frame
  if udp.handles p then sizeofUdphdr
  else if icmp.handles p then sizeofIcmphdr
  else if tcp.handles p then tcpHeaderSize p
  else 0

def transportHint (frame : Bytes) : ℕ :=
  let p := transportPacket frame
  if udp.handles p || icmp.handles p || tcp.handles p then 0 else networkHint frame

def transportSession (frame : Bytes) : Option Session :=
  let p := transportPacket frame
  if udp.handles p then some (udpSession p)
  else if icmp.handles p then none
  else if tcp.handles p then some (tcpSession p)
  else none

def headers (frame : Bytes) : ℕ := sizeofEtherHeader + networkHeader frame + transportHeader frame

def applicationPacket (frame : Bytes) : Packet :=
  suffix frame (headers frame) (transportHint frame) (transportSession frame)

theorem networkHeader_le (frame : Bytes) : networkHeader frame ≤ (networkPacket frame).size := by
  rw [networkHeader]
  split
  · rename_i hip
    exact ((ipDissectorHandles_iff _).mp hip).2.2.2.1
  · split
    · rename_i harp
      exact ((handlesHint_iff _ _ _).mp harp).2.2
    · exact Nat.zero_le _

theorem transportHeader_le (frame : Bytes) : transportHeader frame ≤ (transportPacket frame).size := by
  rw [transportHeader]
  split
  · rename_i hudp
    exact ((handlesHint_iff _ _ _).mp hudp).2.2
  · split
    · rename_i hicmp
      exact ((handlesHint_iff _ _ _).mp hicmp).2.2
    · split
      · rename_i htcp
        exact Nat.le_of_lt ((tcpDissectorHandles_iff _).mp htcp).2.2.2
      · exact Nat.zero_le _

section Walk
variable [CircularLinkedList] {order : List Dissector} (h : order.Perm mainOrder) {frame : Bytes}
  (ha : ethernet.handles (Packet.ofFrame frame) = true)
include h ha

theorem secondVisit_anatomy :
    (secondVisit order (Packet.ofFrame frame)).packet.packet = networkPacket frame := by
  obtain ⟨hsize, -⟩ := (ethernet_handles_iff frame).mp ha
  have hbehind : ((suffix frame 0 0 none).behind sizeofEtherHeader (etherType frame) none).value =
      suffix frame (0 + sizeofEtherHeader) (etherType frame) none := behind_suffix hsize
  rw [Nat.zero_add, suffix_zero] at hbehind
  rw [secondVisit_packet h ha, be16_ofFrame hsize, hbehind, networkPacket]

theorem thirdVisit_anatomy :
    (thirdVisit order (Packet.ofFrame frame)).packet.packet = transportPacket frame := by
  have hafter := layer2_after h (secondVisit order (Packet.ofFrame frame)).packet
  rw [secondVisit_anatomy h ha] at hafter
  apply Eq.trans hafter
  rw [transportPacket, networkHeader, networkHint]
  split
  · rename_i hip
    exact behind_suffix ((ipDissectorHandles_iff _).mp hip).2.2.2.1
  · split
    · rename_i harp
      exact behind_suffix ((handlesHint_iff _ _ _).mp harp).2.2
    · rfl

theorem seventhVisit_anatomy :
    (seventhVisit order (Packet.ofFrame frame)).packet.packet = applicationPacket frame := by
  have hafter := layer3_after h (thirdVisit order (Packet.ofFrame frame)).packet
  rw [thirdVisit_anatomy h ha] at hafter
  apply Eq.trans hafter
  rw [applicationPacket, headers, transportHeader, transportHint, transportSession]
  by_cases hudp : udp.handles (transportPacket frame) = true
  · simp only [hudp, if_true, Bool.true_or]
    exact behind_suffix ((handlesHint_iff _ _ _).mp hudp).2.2
  · by_cases hicmp : icmp.handles (transportPacket frame) = true
    · simp only [hudp, hicmp, Bool.or_true, Bool.true_or, if_true, if_false, Bool.false_eq_true]
      exact behind_suffix ((handlesHint_iff _ _ _).mp hicmp).2.2
    · by_cases htcp : tcp.handles (transportPacket frame) = true
      · simp only [hudp, hicmp, htcp, Bool.or_true, if_true, if_false, Bool.false_eq_true]
        exact behind_suffix (Nat.le_of_lt ((tcpDissectorHandles_iff _).mp htcp).2.2.2)
      · simp only [hudp, hicmp, htcp, Bool.or_false, if_false, Bool.false_eq_true]
        rfl

theorem secondVisit_taker_iff {d : Dissector} (hd : d ∈ atLayer osiLayer2) :
    (secondVisit order (Packet.ofFrame frame)).taker = some d ↔
      d.handles (networkPacket frame) = true := by
  rw [← secondVisit_anatomy h ha]
  exact taker_iff h osiLayer2 _ (by decide) hd

theorem thirdVisit_taker_iff {d : Dissector} (hd : d ∈ atLayer osiLayer3) :
    (thirdVisit order (Packet.ofFrame frame)).taker = some d ↔
      d.handles (transportPacket frame) = true := by
  rw [← thirdVisit_anatomy h ha]
  exact taker_iff h osiLayer3 _ (by decide) hd

omit h in
/-- At layer 7 the first dissector of the list takes the packet that accepts it. -/
theorem seventhVisit_find : (seventhVisit mainOrder (Packet.ofFrame frame)).taker =
    (atLayer osiLayer7).find? fun d => d.handles (applicationPacket frame) := by
  rw [seventhVisit, visit_taker, find_registered, find_atLayer,
    ← seventhVisit_anatomy (List.Perm.refl mainOrder) ha]
  rfl

end Walk
end OpenSniffer.FrameAnatomy
