import OpenSniffer.OsiWalk
import OpenSniffer.DnsDissector
import OpenSniffer.HttpDissector
import Mathlib.Data.List.Find

/-!
# The stack that `main` builds, and a frame's way through it

The dissectors are those of `main`, registered in any order. At layers 1 to 3 a dissector
that takes a packet removes its header and leaves a hint and perhaps a session; layers 4
to 6 are empty, and at layer 7 nothing is removed. So a walk has four visits that matter.
-/
namespace OpenSniffer.MainStack
open Packets OsiStack OsiWalk FixedHeaderDissectors VariableHeaderDissectors DhcpDissector
  DnsDissector HttpDissector TracedReads

section Registration
variable [CircularLinkedList]

/-- The stack in which dissectors have been registered one after the other. -/
def registered (order : List Dissector) : Stack := order.foldl osiRegisterDissector osiStackNew

private theorem nodes_foldl_register (order : List Dissector) (stack : Stack) :
    CircularLinkedList.nodes (order.foldl osiRegisterDissector stack) =
      CircularLinkedList.nodes stack ++ order := by
  induction order generalizing stack with
  | nil => simp
  | cons d order ih =>
    rw [List.foldl_cons, ih, osiRegisterDissector, CircularLinkedList.nodes_listPushBack,
      List.append_assoc, List.singleton_append]

theorem nodes_registered (order : List Dissector) :
    CircularLinkedList.nodes (registered order) = order := by
  rw [registered, nodes_foldl_register, osiStackNew, CircularLinkedList.nodes_zeroed, List.nil_append]

theorem find_registered (order : List Dissector) (packet : Packet) (layer : ℕ) :
    osiFindDissectorByPacket (registered order) packet layer =
      order.find? (findDissectorByPacket packet layer) := by
  rw [osiFindDissectorByPacket, CircularLinkedList.listFindNodeIf_first, nodes_registered]

end Registration

section Main
variable [Memory]

/-- The dissectors in the order in which `main` registers them. -/
def mainOrder : List Dissector := [ethernet, ip, arp, udp, dhcp, dns, icmp, tcp, http]

def mainStack [CircularLinkedList] : Stack := registered mainOrder

def atLayer (layer : ℕ) : List Dissector := mainOrder.filter fun d => d.layer == layer

@[simp] theorem atLayer_1 : atLayer osiLayer1 = [ethernet] := rfl
@[simp] theorem atLayer_2 : atLayer osiLayer2 = [ip, arp] := rfl
@[simp] theorem atLayer_3 : atLayer osiLayer3 = [udp, icmp, tcp] := rfl
@[simp] theorem atLayer_4 : atLayer 4 = [] := rfl
@[simp] theorem atLayer_5 : atLayer 5 = [] := rfl
@[simp] theorem atLayer_6 : atLayer 6 = [] := rfl
@[simp] theorem atLayer_7 : atLayer osiLayer7 = [dhcp, dns, http] := rfl

private theorem layer_ethernet : ethernet.layer = osiLayer1 := rfl

theorem mem_atLayer {d : Dissector} {layer : ℕ} :
    d ∈ atLayer layer ↔ d ∈ mainOrder ∧ d.layer = layer := by
  rw [atLayer, List.mem_filter, beq_iff_eq]

omit [Memory] in
theorem find_atLayer (order : List Dissector) (packet : Packet) (layer : ℕ) :
    order.find? (findDissectorByPacket packet layer) =
      (order.filter fun d => d.layer == layer).find? fun d => d.handles packet := by
  rw [List.find?_filter]
  congr 1
  funext d
  rw [findDissectorByPacket, Bool.decide_and, Bool.decide_eq_true, Bool.decide_eq_true]

theorem protocol_of_layer2 {d : Dissector} (hd : d ∈ atLayer osiLayer2) {packet : Packet}
    (h : d.handles packet = true) :
    (d = ip ∧ packet.protocol = etherTypeIp) ∨ (d = arp ∧ packet.protocol = etherTypeArp) := by
  rw [atLayer_2, List.mem_pair] at hd
  rcases hd with rfl | rfl
  · exact Or.inl ⟨rfl, ((ipDissectorHandles_iff packet).mp h).2.2.1⟩
  · exact Or.inr ⟨rfl, ((handlesHint_iff _ _ packet).mp h).2.1⟩

theorem protocol_of_layer3 {d : Dissector} (hd : d ∈ atLayer osiLayer3) {packet : Packet}
    (h : d.handles packet = true) :
    (d = udp ∧ packet.protocol = ipProtoUdp) ∨ (d = icmp ∧ packet.protocol = ipProtoIcmp) ∨
      (d = tcp ∧ packet.protocol = ipProtoTcp) := by
  rw [atLayer_3, List.mem_cons, List.mem_pair] at hd
  rcases hd with rfl | rfl | rfl
  · exact Or.inl ⟨rfl, ((handlesHint_iff _ _ packet).mp h).2.1⟩
  · exact Or.inr (Or.inl ⟨rfl, ((handlesHint_iff _ _ packet).mp h).2.1⟩)
  · exact Or.inr (Or.inr ⟨rfl, ((tcpDissectorHandles_iff packet).mp h).2.2.1⟩)

/-- Below layer 7 at most one dissector accepts a packet. -/
theorem eq_of_handles {layer : ℕ} (hlayer : layer ≠ osiLayer7) {d d' : Dissector}
    (hd : d ∈ atLayer layer) (hd' : d' ∈ atLayer layer) {packet : Packet}
    (h : d.handles packet = true) (h' : d'.handles packet = true) : d = d' := by
  have hlow : layer = osiLayer1 ∨ layer = osiLayer2 ∨ layer = osiLayer3 := by
    obtain ⟨hmem, rfl⟩ := mem_atLayer.mp hd
    simp only [mainOrder, List.mem_cons, List.not_mem_nil, or_false] at hmem
    rcases hmem with rfl | rfl | rfl | rfl | rfl | rfl | rfl | rfl | rfl <;>
      first
        | exact Or.inl rfl
        | exact Or.inr (Or.inl rfl)
        | exact Or.inr (Or.inr rfl)
        | exact absurd rfl hlayer
  rcases hlow with rfl | rfl | rfl
  · rw [List.mem_singleton.mp hd, List.mem_singleton.mp hd']
  · have hp := protocol_of_layer2 hd h
    have hp' := protocol_of_layer2 hd' h'
    simp only [etherTypeIp, etherTypeArp] at hp hp'
    rcases hp with ⟨rfl, hp⟩ | ⟨rfl, hp⟩ <;> rcases hp' with ⟨rfl, hp'⟩ | ⟨rfl, hp'⟩ <;>
      first | rfl | omega
  · have hp := protocol_of_layer3 hd h
    have hp' := protocol_of_layer3 hd' h'
    simp only [ipProtoUdp, ipProtoIcmp, ipProtoTcp] at hp hp'
    rcases hp with ⟨rfl, hp⟩ | ⟨rfl, hp⟩ | ⟨rfl, hp⟩ <;>
      rcases hp' with ⟨rfl, hp'⟩ | ⟨rfl, hp'⟩ | ⟨rfl, hp'⟩ <;> first | rfl | omega

section Removed
variable {packet : Packet}

private theorem ethernet_decapsulate (h : ethernet.handles packet = true) : ethernet.decapsulate packet =
    some (packet.behind sizeofEtherHeader (packet.be16 12) none).value := by
  have hdec : ethernet.decapsulate packet = some (packet.behind sizeofEtherHeader
      (ethernetDissectorGetHint packet).value none).value := by
    change (ethernetDissectorDecapsulate packet).value = _
    rw [ethernetDissectorDecapsulate, decapsulateWith_handled h]
    rfl
  have hhint : (ethernetDissectorGetHint packet).value = packet.be16 12 := packet.ntohs_le16 12
  rw [hdec, hhint]

theorem ip_decapsulate (h : ip.handles packet = true) : ip.decapsulate packet =
    some (packet.behind (ipHeaderSize packet) (packet.byte 9).toNat none).value := by
  change (ipDissectorDecapsulate packet).value = _
  rw [ipDissectorDecapsulate, decapsulateWith_handled h]
  rfl

theorem arp_decapsulate (h : arp.handles packet = true) : arp.decapsulate packet =
    some (packet.behind sizeofEtherArp 0 none).value := by
  change (arpDissectorDecapsulate packet).value = _
  rw [arpDissectorDecapsulate, decapsulateWith_handled h]
  rfl

def udpSession (packet : Packet) : Session := osiCreateSession 0 (packet.le16 0) (packet.le16 2)

def tcpSession (packet : Packet) : Session :=
  osiCreateSession (packet.le16 4 + 2 ^ 16 * packet.le16 6) (packet.le16 0) (packet.le16 2)

theorem udp_decapsulate (h : udp.handles packet = true) : udp.decapsulate packet =
    some (packet.behind sizeofUdphdr 0 (some (udpSession packet))).value := by
  change (udpDissectorDecapsulate packet).value = _
  rw [udpDissectorDecapsulate, decapsulateWith_handled h]
  rfl

theorem icmp_decapsulate (h : icmp.handles packet = true) : icmp.decapsulate packet =
    some (packet.behind sizeofIcmphdr 0 none).value := by
  change (icmpDissectorDecapsulate packet).value = _
  rw [icmpDissectorDecapsulate, decapsulateWith_handled h]
  rfl

theorem tcp_decapsulate (h : tcp.handles packet = true) : tcp.decapsulate packet =
    some (packet.behind (tcpHeaderSize packet) 0 (some (tcpSession packet))).value := by
  change (tcpDissectorDecapsulate packet).value = _
  rw [tcpDissectorDecapsulate, decapsulateWith_handled h]
  rfl

end Removed

/-- A dissector takes the visit's packet and removes a header from it. -/
structure Taken (v : Visit) (d : Dissector) (header protocol : ℕ) (session : Option Session) :
    Prop where
  taker : v.taker = some d
  handles : d.handles v.packet.packet = true
  result : v.result =
    some ⟨v.packet.id + 1, (v.packet.packet.behind header protocol session).value⟩

theorem Taken.after {v : Visit} {d : Dissector} {header protocol : ℕ} {session : Option Session}
    (h : Taken v d header protocol session) :
    v.after = ⟨v.packet.id + 1, (v.packet.packet.behind header protocol session).value⟩ :=
  Visit.after_of_result h.result

theorem Taken.result_eq {v : Visit} {d : Dissector} {header protocol : ℕ} {session : Option Session}
    (h : Taken v d header protocol session) : v.result = some v.after := by
  rw [h.after]
  exact h.result

omit [Memory] in
theorem result_of_no_taker {v : Visit} (h : v.taker = none) : v.result = none := by
  simp [Visit.result, h]

omit [Memory] in
theorem after_of_no_taker {v : Visit} (h : v.taker = none) : v.after = v.packet :=
  Visit.after_of_no_result (result_of_no_taker h)

theorem taken_of_decapsulate {v : Visit} {d : Dissector} {header protocol : ℕ}
    {session : Option Session} (ht : v.taker = some d) (hh : d.handles v.packet.packet = true)
    (hd : d.decapsulate v.packet.packet =
      some (v.packet.packet.behind header protocol session).value) :
    Taken v d header protocol session :=
  ⟨ht, hh, by simp [Visit.result, ht, hd]⟩

section Visits
variable [CircularLinkedList] {order : List Dissector} (h : order.Perm mainOrder)
  (layer : ℕ) (packet : Ref)
include h

theorem taker_mem {d : Dissector} (hd : (visit (registered order) layer packet).taker = some d) :
    d ∈ atLayer layer ∧ d.handles packet.packet = true := by
  rw [visit_taker, find_registered] at hd
  have hmem := h.mem_iff.mp (List.mem_of_find?_eq_some hd)
  have hfind := List.find?_some hd
  simp only [findDissectorByPacket, Bool.and_eq_true, beq_iff_eq] at hfind
  exact ⟨mem_atLayer.mpr ⟨hmem, hfind.1⟩, hfind.2⟩

private theorem taker_isSome {d : Dissector} (hd : d ∈ atLayer layer) (hp : d.handles packet.packet = true) :
    (visit (registered order) layer packet).taker.isSome := by
  obtain ⟨hmem, hlayer⟩ := mem_atLayer.mp hd
  rw [visit_taker, find_registered, List.find?_isSome]
  exact ⟨d, h.mem_iff.mpr hmem, by simp [findDissectorByPacket, hlayer, hp]⟩

/-- Below layer 7 the dissector that accepts a packet takes it. -/
theorem taker_iff (hlayer : layer ≠ osiLayer7) {d : Dissector} (hd : d ∈ atLayer layer) :
    (visit (registered order) layer packet).taker = some d ↔ d.handles packet.packet = true := by
  constructor
  · intro ht
    exact (taker_mem h layer packet ht).2
  · intro hp
    obtain ⟨d', ht⟩ := Option.isSome_iff_exists.mp (taker_isSome h layer packet hd hp)
    obtain ⟨hd', hp'⟩ := taker_mem h layer packet ht
    rw [ht, eq_of_handles hlayer hd hd' hp hp']

theorem taker_eq_some_iff (hlayer : layer ≠ osiLayer7) {d : Dissector} :
    (visit (registered order) layer packet).taker = some d ↔
      d ∈ atLayer layer ∧ d.handles packet.packet = true := by
  constructor
  · intro ht
    exact taker_mem h layer packet ht
  · intro hmem
    obtain ⟨hd, hp⟩ := hmem
    exact (taker_iff h layer packet hlayer hd).mpr hp

theorem taker_none (hn : ∀ d ∈ atLayer layer, d.handles packet.packet = false) :
    (visit (registered order) layer packet).taker = none := by
  cases ht : (visit (registered order) layer packet).taker with
  | none => rfl
  | some d =>
    obtain ⟨hd, hp⟩ := taker_mem h layer packet ht
    rw [hn d hd] at hp
    contradiction

theorem taker_none_of_empty (hempty : atLayer layer = []) :
    (visit (registered order) layer packet).taker = none := by
  apply taker_none h layer packet
  simp [hempty]

theorem after_of_handles (hlayer : layer ≠ osiLayer7) {d : Dissector} (hd : d ∈ atLayer layer)
    (hp : d.handles packet.packet = true) {header protocol : ℕ} {session : Option Session}
    (hdec : d.decapsulate packet.packet =
      some (packet.packet.behind header protocol session).value) :
    (visit (registered order) layer packet).after.packet =
      (packet.packet.behind header protocol session).value := by
  have ht := (taker_iff h layer packet hlayer hd).mpr hp
  rw [(taken_of_decapsulate ht hp hdec).after, visit_packet]

theorem after_of_rejected (hn : ∀ d ∈ atLayer layer, d.handles packet.packet = false) :
    (visit (registered order) layer packet).after.packet = packet.packet := by
  rw [after_of_no_taker (taker_none h layer packet hn), visit_packet]

end Visits

section Layers
variable [CircularLinkedList] {order : List Dissector} (h : order.Perm mainOrder) (packet : Ref)
include h

theorem layer1_cases :
    let v := visit (registered order) osiLayer1 packet
    v.taker = none ∨ Taken v ethernet sizeofEtherHeader (packet.packet.be16 12) none := by
  intro v
  cases ht : v.taker with
  | none => exact Or.inl rfl
  | some d =>
    obtain ⟨hd, hp⟩ := taker_mem h osiLayer1 packet ht
    rw [atLayer_1, List.mem_singleton] at hd
    subst hd
    exact Or.inr (taken_of_decapsulate ht hp (ethernet_decapsulate hp))

private theorem layer2_cases :
    let v := visit (registered order) osiLayer2 packet
    v.taker = none ∨ Taken v ip (ipHeaderSize packet.packet) (packet.packet.byte 9).toNat none ∨
      Taken v arp sizeofEtherArp 0 none := by
  intro v
  cases ht : v.taker with
  | none => exact Or.inl rfl
  | some d =>
    obtain ⟨hd, hp⟩ := taker_mem h osiLayer2 packet ht
    rw [atLayer_2, List.mem_pair] at hd
    rcases hd with rfl | rfl
    · exact Or.inr (Or.inl (taken_of_decapsulate ht hp (ip_decapsulate hp)))
    · exact Or.inr (Or.inr (taken_of_decapsulate ht hp (arp_decapsulate hp)))

private theorem layer3_cases :
    let v := visit (registered order) osiLayer3 packet
    v.taker = none ∨
      Taken v udp sizeofUdphdr 0 (some (udpSession packet.packet)) ∨
      Taken v icmp sizeofIcmphdr 0 none ∨
      Taken v tcp (tcpHeaderSize packet.packet) 0 (some (tcpSession packet.packet)) := by
  intro v
  cases ht : v.taker with
  | none => exact Or.inl rfl
  | some d =>
    obtain ⟨hd, hp⟩ := taker_mem h osiLayer3 packet ht
    rw [atLayer_3, List.mem_cons, List.mem_pair] at hd
    rcases hd with rfl | rfl | rfl
    · exact Or.inr (Or.inl (taken_of_decapsulate ht hp (udp_decapsulate hp)))
    · exact Or.inr (Or.inr (Or.inl (taken_of_decapsulate ht hp (icmp_decapsulate hp))))
    · exact Or.inr (Or.inr (Or.inr (taken_of_decapsulate ht hp (tcp_decapsulate hp))))

/-- What layer 2 leaves for layer 3. -/
theorem layer2_after : (visit (registered order) osiLayer2 packet).after.packet =
    if ip.handles packet.packet then (packet.packet.behind (ipHeaderSize packet.packet)
      (packet.packet.byte 9).toNat none).value
    else if arp.handles packet.packet then (packet.packet.behind sizeofEtherArp 0 none).value
    else packet.packet := by
  split
  · rename_i hip
    exact after_of_handles h osiLayer2 packet (by decide) List.mem_cons_self hip (ip_decapsulate hip)
  · rename_i hip
    split
    · rename_i harp
      exact after_of_handles h osiLayer2 packet (by decide) (by simp) harp (arp_decapsulate harp)
    · rename_i harp
      exact after_of_rejected h osiLayer2 packet (by simp [hip, harp])

/-- What layer 3 leaves for layer 7. -/
theorem layer3_after : (visit (registered order) osiLayer3 packet).after.packet =
    if udp.handles packet.packet then
      (packet.packet.behind sizeofUdphdr 0 (some (udpSession packet.packet))).value
    else if icmp.handles packet.packet then (packet.packet.behind sizeofIcmphdr 0 none).value
    else if tcp.handles packet.packet then (packet.packet.behind (tcpHeaderSize packet.packet) 0
      (some (tcpSession packet.packet))).value
    else packet.packet := by
  split
  · rename_i hudp
    exact after_of_handles h osiLayer3 packet (by decide) List.mem_cons_self hudp (udp_decapsulate hudp)
  · rename_i hudp
    split
    · rename_i hicmp
      exact after_of_handles h osiLayer3 packet (by decide) (by simp) hicmp (icmp_decapsulate hicmp)
    · rename_i hicmp
      split
      · rename_i htcp
        exact after_of_handles h osiLayer3 packet (by decide) (by simp) htcp (tcp_decapsulate htcp)
      · rename_i htcp
        exact after_of_rejected h osiLayer3 packet (by simp [hudp, hicmp, htcp])

end Layers

section Walk
variable [CircularLinkedList]

def secondVisit (order : List Dissector) (packet : Packet) : Visit :=
  visit (registered order) osiLayer2 (firstVisit (registered order) packet).after

def thirdVisit (order : List Dissector) (packet : Packet) : Visit :=
  visit (registered order) osiLayer3 (secondVisit order packet).after

def seventhVisit (order : List Dissector) (packet : Packet) : Visit :=
  visit (registered order) osiLayer7 (thirdVisit order packet).after

section Cases
variable {order : List Dissector} (h : order.Perm mainOrder) (packet : Packet)
include h

theorem secondVisit_cases : (secondVisit order packet).taker = none ∨
    Taken (secondVisit order packet) ip (ipHeaderSize (secondVisit order packet).packet.packet)
      ((secondVisit order packet).packet.packet.byte 9).toNat none ∨
    Taken (secondVisit order packet) arp sizeofEtherArp 0 none :=
  layer2_cases h _

theorem thirdVisit_cases : (thirdVisit order packet).taker = none ∨
    Taken (thirdVisit order packet) udp sizeofUdphdr 0
      (some (udpSession (thirdVisit order packet).packet.packet)) ∨
    Taken (thirdVisit order packet) icmp sizeofIcmphdr 0 none ∨
    Taken (thirdVisit order packet) tcp (tcpHeaderSize (thirdVisit order packet).packet.packet) 0
      (some (tcpSession (thirdVisit order packet).packet.packet)) :=
  layer3_cases h _

end Cases

variable {order : List Dissector} (h : order.Perm mainOrder) {packet : Packet}
include h

theorem firstVisit_of_rejected (hp : ethernet.handles packet = false) :
    (firstVisit (registered order) packet).taker = none := by
  have hcases := layer1_cases h ⟨0, packet⟩
  rcases hcases with hnone | htaken
  · exact hnone
  · exact absurd htaken.handles (by simp [hp])

theorem firstVisit_of_accepted (hp : ethernet.handles packet = true) :
    Taken (firstVisit (registered order) packet) ethernet sizeofEtherHeader (packet.be16 12) none := by
  have hcases := layer1_cases h ⟨0, packet⟩
  rcases hcases with hnone | htaken
  · have hsome := (taker_iff h osiLayer1 ⟨0, packet⟩ (by decide) List.mem_cons_self).mpr hp
    rw [hnone] at hsome
    contradiction
  · exact htaken

theorem visits_of_rejected (hp : ethernet.handles packet = false) :
    visits (registered order) packet = [firstVisit (registered order) packet] :=
  visits_of_no_result (result_of_no_taker (firstVisit_of_rejected h hp))

theorem visit_empty_layer {layer : ℕ} (hempty : atLayer layer = []) (p : Ref) (n : ℕ) :
    visitsFrom (registered order) (n + 1) layer p =
      visit (registered order) layer p :: visitsFrom (registered order) n (layer + 1) p :=
  visitsFrom_succ_of_no_result n (result_of_no_taker (taker_none_of_empty h layer p hempty))

theorem visits_of_accepted (hp : ethernet.handles packet = true) :
    visits (registered order) packet =
      [firstVisit (registered order) packet, secondVisit order packet, thirdVisit order packet,
        visit (registered order) 4 (thirdVisit order packet).after,
        visit (registered order) 5 (thirdVisit order packet).after,
        visit (registered order) 6 (thirdVisit order packet).after, seventhVisit order packet] := by
  have htaken := firstVisit_of_accepted h hp
  rw [visits_of_result htaken.result, ← htaken.after]
  have h2 : visitsFrom (registered order) 6 osiLayer2 (firstVisit (registered order) packet).after =
      secondVisit order packet ::
        visitsFrom (registered order) 5 osiLayer3 (secondVisit order packet).after := rfl
  have h3 : visitsFrom (registered order) 5 osiLayer3 (secondVisit order packet).after =
      thirdVisit order packet ::
        visitsFrom (registered order) 4 4 (thirdVisit order packet).after := rfl
  have h7 : visitsFrom (registered order) 1 7 (thirdVisit order packet).after =
      [seventhVisit order packet] := rfl
  rw [h2, h3, visit_empty_layer h atLayer_4, visit_empty_layer h atLayer_5,
    visit_empty_layer h atLayer_6, h7]

/-- Nothing, or what the four visits dump. -/
theorem dumps_of_rejected (hp : ethernet.handles packet = false) :
    dumps (osiDumpPacketTrace (registered order) packet) = [] := by
  have hnone := firstVisit_of_rejected h hp
  rw [dumps_trace, visits_of_rejected h hp, List.filterMap_cons_none]
  · rfl
  · rw [Visit.dumped, hnone, Option.map_none]

theorem dumps_of_accepted (hp : ethernet.handles packet = true) :
    dumps (osiDumpPacketTrace (registered order) packet) =
      (ethernet, ⟨0, packet⟩) :: ((secondVisit order packet).dumped.toList ++
        (thirdVisit order packet).dumped.toList ++ (seventhVisit order packet).dumped.toList) := by
  have hfirst : (firstVisit (registered order) packet).dumped = some (ethernet, ⟨0, packet⟩) := by
    rw [Visit.dumped, (firstVisit_of_accepted h hp).taker]
    rfl
  have hempty : ∀ layer p, atLayer layer = [] →
      (visit (registered order) layer p).dumped = none := by
    intro layer p hlayer
    rw [Visit.dumped, taker_none_of_empty h layer p hlayer, Option.map_none]
  rw [dumps_trace, visits_of_accepted h hp]
  simp only [List.filterMap_cons, hfirst, hempty 4 _ atLayer_4, hempty 5 _ atLayer_5,
    hempty 6 _ atLayer_6, List.filterMap_nil]
  cases (secondVisit order packet).dumped <;> cases (thirdVisit order packet).dumped <;>
    cases (seventhVisit order packet).dumped <;> rfl

theorem thirdVisit_mem_finds (hp : ethernet.handles packet = true) :
    (osiLayer3, (thirdVisit order packet).packet, (thirdVisit order packet).taker) ∈
      finds (osiDumpPacketTrace (registered order) packet) := by
  rw [finds_trace, List.mem_map]
  exact ⟨thirdVisit order packet, by simp [visits_of_accepted h hp], rfl⟩

theorem seventhVisit_mem_finds (hp : ethernet.handles packet = true) :
    (osiLayer7, (seventhVisit order packet).packet, (seventhVisit order packet).taker) ∈
      finds (osiDumpPacketTrace (registered order) packet) := by
  rw [finds_trace, List.mem_map]
  exact ⟨seventhVisit order packet, by simp [visits_of_accepted h hp], rfl⟩

/-- The visit of a layer is the only one that dumps a dissector of it. -/
theorem mem_dumps_of_accepted (hp : ethernet.handles packet = true) {d : Dissector} {p : Ref} :
    (d, p) ∈ dumps (osiDumpPacketTrace (registered order) packet) ↔
      (d = ethernet ∧ p = ⟨0, packet⟩) ∨ (secondVisit order packet).dumped = some (d, p) ∨
        (thirdVisit order packet).dumped = some (d, p) ∨
        (seventhVisit order packet).dumped = some (d, p) := by
  rw [dumps_of_accepted h hp]
  simp only [List.mem_cons, List.mem_append, Option.mem_toList, Prod.mk.injEq, or_assoc]

private theorem layer_of_dumped {layer : ℕ} {q p : Ref} {d : Dissector}
    (hd : (visit (registered order) layer q).dumped = some (d, p)) : d.layer = layer :=
  (mem_atLayer.mp (taker_mem h layer q (Visit.dumped_eq_some.mp hd).1).1).2

/-- The visit of another layer does not dump a dissector. -/
theorem not_dumped_of_ne {layer : ℕ} {q p : Ref} {d : Dissector} (hne : d.layer ≠ layer) :
    (visit (registered order) layer q).dumped ≠ some (d, p) := by
  intro hd
  exact hne (layer_of_dumped h hd)

omit [CircularLinkedList] in
omit h in
theorem ne_ethernet_of_layer {d : Dissector} (hne : d.layer ≠ osiLayer1) : d ≠ ethernet := by
  rintro rfl
  exact hne layer_ethernet

theorem mem_dumps_layer3 (hp : ethernet.handles packet = true) {d : Dissector} {p : Ref}
    (hlayer : d.layer = osiLayer3) :
    (d, p) ∈ dumps (osiDumpPacketTrace (registered order) packet) ↔
      (thirdVisit order packet).dumped = some (d, p) := by
  have hfirst : d ≠ ethernet := ne_ethernet_of_layer (by rw [hlayer]; decide)
  have hsecond : (secondVisit order packet).dumped ≠ some (d, p) :=
    not_dumped_of_ne h (by rw [hlayer]; decide)
  have hseventh : (seventhVisit order packet).dumped ≠ some (d, p) :=
    not_dumped_of_ne h (by rw [hlayer]; decide)
  rw [mem_dumps_of_accepted h hp]
  simp only [hfirst, hsecond, hseventh, false_and, false_or, or_false]

theorem mem_dumps_layer7 (hp : ethernet.handles packet = true) {d : Dissector} {p : Ref}
    (hlayer : d.layer = osiLayer7) :
    (d, p) ∈ dumps (osiDumpPacketTrace (registered order) packet) ↔
      (seventhVisit order packet).dumped = some (d, p) := by
  have hfirst : d ≠ ethernet := ne_ethernet_of_layer (by rw [hlayer]; decide)
  have hsecond : (secondVisit order packet).dumped ≠ some (d, p) :=
    not_dumped_of_ne h (by rw [hlayer]; decide)
  have hthird : (thirdVisit order packet).dumped ≠ some (d, p) :=
    not_dumped_of_ne h (by rw [hlayer]; decide)
  rw [mem_dumps_of_accepted h hp]
  simp only [hfirst, hsecond, hthird, false_and, false_or]

end Walk
end Main
end OpenSniffer.MainStack
