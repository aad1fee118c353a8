import OpenSniffer.Encapsulation
import OpenSniffer.HttpMessageStart
import Mathlib.Data.List.Permutation

/-!
# What the order of registration decides

The first dissector of a layer that accepts a packet takes it. At most one accepts, but
for a DNS message whose identifier looks like the start of a DHCP message: there the one
registered first wins, and this is all that the order decides.
-/
namespace OpenSniffer.RegistrationOrder
open Packets OsiStack OsiWalk MainStack LayerOrder FrameAnatomy Encapsulation HttpMessageStart
  FixedHeaderDissectors VariableHeaderDissectors DhcpDissector DnsDissector HttpDissector TracedReads

/-- If two elements match, the one that comes first in the list is found. -/
theorem find?_of_two {α : Type} {p : α → Bool} {a b : α} (hne : a ≠ b) {l : List α}
    (h : (l.filter p).Perm [a, b]) :
    (List.Sublist [a, b] l ∧ l.find? p = some a) ∨ (¬ List.Sublist [a, b] l ∧ l.find? p = some b) := by
  have ha : p a = true := (List.mem_filter.mp (h.mem_iff.mpr List.mem_cons_self)).2
  have hb : p b = true := (List.mem_filter.mp (h.mem_iff.mpr (by simp))).2
  rw [← List.head?_filter]
  rcases List.perm_pair.mp h with hab | hba
  · refine Or.inl ⟨?_, by rw [hab, List.head?_cons]⟩
    rw [← hab]
    exact List.filter_sublist
  · refine Or.inr ⟨?_, by rw [hba, List.head?_cons]⟩
    intro hsub
    have hfilter : List.Sublist ([a, b].filter p) (l.filter p) := hsub.filter p
    rw [List.filter_cons_of_pos ha, List.filter_cons_of_pos hb, List.filter_nil, hba] at hfilter
    have heq := hfilter.eq_of_length rfl
    exact hne (List.cons.inj heq).1

variable [Memory]

theorem dhcp_ne_dns : dhcp ≠ dns := by
  intro h
  have hname : "DHCP" = "dns" := congrArg Dissector.name h
  exact absurd hname (by decide)

theorem not_http_of_dhcp {packet : Packet} (h : dhcp.handles packet = true) :
    http.handles packet = false := by
  obtain ⟨-, hsize, hop, -⟩ := (dhcpDissectorHandles_iff packet).mp h
  rw [sizeofPointer] at hsize
  rw [Bool.eq_false_iff]
  intro hhttp
  obtain ⟨-, -, bytes, hd, hok⟩ := (httpDissectorHandles_iff packet).mp hhttp
  have hlen := packet.sized bytes hd
  rw [Packet.byte_eq_getD hd (by omega)] at hop
  refine parsed_of_control (by omega) ?_ hok
  simpa [← UInt8.toNat_inj] using hop

/-- At most five questions leave the fifth byte zero. -/
theorem not_http_of_dns {packet : Packet} (h : dns.handles packet = true) :
    http.handles packet = false := by
  obtain ⟨-, hadmitted⟩ := (dnsDissectorHandles_iff packet).mp h
  have hheader := hadmitted.header
  have hquestions := hadmitted.questions
  rw [sizeofDnshdr] at hheader
  rw [Bool.eq_false_iff]
  intro hhttp
  obtain ⟨-, -, bytes, hd, hok⟩ := (httpDissectorHandles_iff packet).mp hhttp
  have hlen := packet.sized bytes hd
  have hbyte : packet.byte 4 = bytes.getD 4 0 := Packet.byte_eq_getD hd (by omega)
  refine parsed_of_zero (by omega) ?_ hok
  rw [Packet.be16, hbyte] at hquestions
  rw [← UInt8.toNat_inj]
  change (bytes.getD 4 0).toNat = 0
  omega

/-- The two dissectors that can accept one packet. -/
def Overlap (d d' : Dissector) : Prop := (d = dhcp ∧ d' = dns) ∨ (d = dns ∧ d' = dhcp)

theorem eq_or_overlap {layer : ℕ} {d d' : Dissector} (hd : d ∈ atLayer layer)
    (hd' : d' ∈ atLayer layer) {packet : Packet} (h : d.handles packet = true)
    (h' : d'.handles packet = true) : d = d' ∨ Overlap d d' := by
  by_cases hlayer : layer = osiLayer7
  · subst hlayer
    rw [atLayer_7, List.mem_cons, List.mem_pair] at hd hd'
    rcases hd with rfl | rfl | rfl <;> rcases hd' with rfl | rfl | rfl
    · exact Or.inl rfl
    · exact Or.inr (Or.inl ⟨rfl, rfl⟩)
    · exact absurd h' (by simp [not_http_of_dhcp h])
    · exact Or.inr (Or.inr ⟨rfl, rfl⟩)
    · exact Or.inl rfl
    · exact absurd h' (by simp [not_http_of_dns h])
    · exact absurd h (by simp [not_http_of_dhcp h'])
    · exact absurd h (by simp [not_http_of_dns h'])
    · exact Or.inl rfl
  · exact Or.inl (eq_of_handles hlayer hd hd' h h')

/-- An order of the nine dissectors. -/
abbrev Registration := {order : List Dissector // order.Perm mainOrder}

def DhcpFirst (o : Registration) : Prop := List.Sublist [dhcp, dns] o.1

/-- What lies behind a frame's headers is accepted by both DHCP and DNS. -/
def Contested (frame : Bytes) : Prop :=
  ethernet.handles (Packet.ofFrame frame) = true ∧ dhcp.handles (applicationPacket frame) = true ∧
    dns.handles (applicationPacket frame) = true

section Finding
variable (o o' : Registration) (packet : Packet)

theorem find_order {layer : ℕ}
    (hu : ∀ d ∈ atLayer layer, ∀ d' ∈ atLayer layer, d.handles packet = true →
      d'.handles packet = true → d = d') :
    o.1.find? (findDissectorByPacket packet layer) = o'.1.find? (findDissectorByPacket packet layer) := by
  apply List.find?_eq_find?_of_perm (o.2.trans o'.2.symm)
  rintro d ⟨hd, hp⟩ d' ⟨hd', hp'⟩
  simp only [findDissectorByPacket, Bool.and_eq_true, beq_iff_eq] at hp hp'
  exact hu d (mem_atLayer.mpr ⟨o.2.mem_iff.mp hd, hp.1⟩) d' (mem_atLayer.mpr ⟨o.2.mem_iff.mp hd', hp'.1⟩)
    hp.2 hp'.2

/-- Of DHCP and DNS the first takes a packet that both accept. -/
theorem find_contested (hdhcp : dhcp.handles packet = true) (hdns : dns.handles packet = true) :
    (DhcpFirst o ∧ o.1.find? (findDissectorByPacket packet osiLayer7) = some dhcp) ∨
      (¬ DhcpFirst o ∧ o.1.find? (findDissectorByPacket packet osiLayer7) = some dns) := by
  apply find?_of_two dhcp_ne_dns
  have hfilter : mainOrder.filter (findDissectorByPacket packet osiLayer7) = [dhcp, dns] := by
    have hlayer : mainOrder.filter (findDissectorByPacket packet osiLayer7) =
        (atLayer osiLayer7).filter fun d => d.handles packet := by
      rw [atLayer, List.filter_filter]
      congr 1
      funext d
      exact Bool.and_comm _ _
    rw [hlayer, atLayer_7]
    simp [hdhcp, hdns, not_http_of_dhcp hdhcp]
  rw [← hfilter]
  exact o.2.filter _

end Finding

section Walk
variable [CircularLinkedList] (o o' : Registration)

theorem visit_order {layer : ℕ} (hlayer : layer ≠ osiLayer7) (p : Ref) :
    visit (registered o.1) layer p = visit (registered o'.1) layer p := by
  have hunique : ∀ d ∈ atLayer layer, ∀ d' ∈ atLayer layer, d.handles p.packet = true →
      d'.handles p.packet = true → d = d' := fun d hd d' hd' => eq_of_handles hlayer hd hd'
  rw [visit, visit, find_registered, find_registered, find_order o o' p.packet hunique]

theorem secondVisit_order (packet : Packet) : secondVisit o.1 packet = secondVisit o'.1 packet := by
  have hfirst : firstVisit (registered o.1) packet = firstVisit (registered o'.1) packet :=
    visit_order o o' (by decide) _
  rw [secondVisit, secondVisit, hfirst]
  exact visit_order o o' (by decide) _

theorem thirdVisit_order (packet : Packet) : thirdVisit o.1 packet = thirdVisit o'.1 packet := by
  rw [thirdVisit, thirdVisit, secondVisit_order o o']
  exact visit_order o o' (by decide) _

private theorem seventhVisit_packet_order (packet : Packet) :
    (seventhVisit o.1 packet).packet = (seventhVisit o'.1 packet).packet := by
  rw [seventhVisit, seventhVisit, thirdVisit_order o o', visit_packet, visit_packet]

/-- Two walks differ at most in who takes the packet at layer 7. -/
theorem dumps_eq_iff {packet : Packet} (ha : ethernet.handles packet = true) :
    dumps (osiDumpPacketTrace (registered o.1) packet) =
        dumps (osiDumpPacketTrace (registered o'.1) packet) ↔
      (seventhVisit o.1 packet).taker = (seventhVisit o'.1 packet).taker := by
  rw [dumps_of_accepted o.2 ha, dumps_of_accepted o'.2 ha, secondVisit_order o o',
    thirdVisit_order o o', List.cons_inj_right, List.append_cancel_left_eq, Visit.dumped,
    Visit.dumped, seventhVisit_packet_order o o']
  cases (seventhVisit o.1 packet).taker <;> cases (seventhVisit o'.1 packet).taker <;> simp

/-- Two orders dump the same, unless they differ on DHCP and DNS and both accept. -/
theorem dumps_order_iff (frame : Bytes) :
    dumps (osiDumpPacketTrace (registered o.1) (Packet.ofFrame frame)) =
        dumps (osiDumpPacketTrace (registered o'.1) (Packet.ofFrame frame)) ↔
      (Contested frame → (DhcpFirst o ↔ DhcpFirst o')) := by
  cases ha : ethernet.handles (Packet.ofFrame frame) with
  | false =>
    rw [dumps_of_rejected o.2 ha, dumps_of_rejected o'.2 ha]
    refine iff_of_true rfl (fun hcontested => ?_)
    rw [hcontested.1] at ha
    contradiction
  | true =>
    have htaker : ∀ o : Registration, (seventhVisit o.1 (Packet.ofFrame frame)).taker =
        o.1.find? (findDissectorByPacket (applicationPacket frame) osiLayer7) := by
      intro o
      have hpacket := seventhVisit_anatomy o.2 ha
      rw [seventhVisit, visit_packet] at hpacket
      rw [seventhVisit, visit_taker, find_registered, hpacket]
    rw [dumps_eq_iff o o' ha, htaker o, htaker o']
    by_cases hboth : dhcp.handles (applicationPacket frame) = true ∧
        dns.handles (applicationPacket frame) = true
    · have hcontested : Contested frame := ⟨ha, hboth⟩
      rcases find_contested o _ hboth.1 hboth.2 with ⟨hfirst, hfind⟩ | ⟨hfirst, hfind⟩ <;>
        rcases find_contested o' _ hboth.1 hboth.2 with ⟨hfirst', hfind'⟩ | ⟨hfirst', hfind'⟩ <;>
        simp [hfind, hfind', hfirst, hfirst', hcontested, dhcp_ne_dns, dhcp_ne_dns.symm]
    · refine iff_of_true (find_order o o' _ ?_) (fun hcontested => absurd hcontested.2 hboth)
      intro d hd d' hd' hp hp'
      rcases eq_or_overlap hd hd' hp hp' with heq | ⟨rfl, rfl⟩ | ⟨rfl, rfl⟩
      · exact heq
      · exact absurd ⟨hp, hp'⟩ hboth
      · exact absurd ⟨hp', hp⟩ hboth

/-- At a layer that a walk reaches, no two dissectors but DHCP and DNS accept the packet. -/
def AtMostOne (frame : Bytes) : Prop :=
  ∀ v ∈ visits (registered o.1) (Packet.ofFrame frame), ∀ d ∈ o.1, ∀ d' ∈ o.1,
    d.layer = v.layer → d'.layer = v.layer → d.handles v.packet.packet = true →
      d'.handles v.packet.packet = true → d = d' ∨ Overlap d d'

/-- The order of registration decides who takes a packet that DHCP and DNS both accept,
and nothing else. -/
theorem registration_order (frame : Bytes) : AtMostOne o frame ∧
    (dumps (osiDumpPacketTrace (registered o.1) (Packet.ofFrame frame)) =
        dumps (osiDumpPacketTrace (registered o'.1) (Packet.ofFrame frame)) ↔
      (Contested frame → (DhcpFirst o ↔ DhcpFirst o'))) := by
  refine ⟨?_, dumps_order_iff o o' frame⟩
  intro v _ d hd d' hd' hlayer hlayer' hp hp'
  exact eq_or_overlap (mem_atLayer.mpr ⟨o.2.mem_iff.mp hd, hlayer⟩)
    (mem_atLayer.mpr ⟨o.2.mem_iff.mp hd', hlayer'⟩) hp hp'

end Walk

def mainRegistration : Registration := ⟨mainOrder, .refl _⟩

def dnsRegistration : Registration :=
  ⟨[ethernet, ip, arp, udp, dns, dhcp, icmp, tcp, http],
    ((((((List.Perm.swap dhcp dns _).cons udp).cons arp).cons ip).cons ethernet))⟩

/-- A datagram with a whole header of DHCP, a request; as DNS it is a query without questions. -/
def contestedFrame : Bytes := encapsulate loopbackEthernet (loopbackIp 264)
  (.udp ⟨1024, 53, 244, 0⟩) (1 :: List.replicate 235 0)

omit [Memory] in
theorem contestedFrame_dumps :
    ¬ ∀ (_ : Memory) (_ : CircularLinkedList) (o o' : Registration) (frame : Bytes),
      dumps (osiDumpPacketTrace (registered o.1) (Packet.ofFrame frame)) =
        dumps (osiDumpPacketTrace (registered o'.1) (Packet.ofFrame frame)) := by
  intro h
  let _ := zeroMemory
  let _ := plainList
  have hsame := h zeroMemory plainList mainRegistration dnsRegistration contestedFrame
  have hcontested : Contested contestedFrame :=
    ⟨by decide +kernel, by decide +kernel, by decide +kernel⟩
  have hmain : DhcpFirst mainRegistration :=
    .cons ethernet (.cons ip (.cons arp (.cons udp (.cons_cons dhcp (.cons_cons dns
      (List.nil_sublist _))))))
  have hdns : ¬ DhcpFirst dnsRegistration := by
    intro hfirst
    have hnames : List.Sublist ["DHCP", "dns"]
        ["Ethernet", "IP", "arp", "udp", "dns", "DHCP", "icmp", "tcp", "http"] :=
      hfirst.map Dissector.name
    exact absurd hnames (by decide)
  exact hdns (((dumps_order_iff _ _ _).mp hsame hcontested).mp hmain)

end OpenSniffer.RegistrationOrder
