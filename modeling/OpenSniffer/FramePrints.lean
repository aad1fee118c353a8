import OpenSniffer.HeaderDisplays
import OpenSniffer.HttpDisplay
import OpenSniffer.RegistrationOrder

/-!
# What is printed for a frame

The text for a frame is that of its dumps, in the order of the layers, between a header with
the time and the size and a footer. For a frame as a sender builds it, it shows each header
as it was sent; if the frame carries requests of HTTP, it shows these.
-/
namespace OpenSniffer.FramePrints
open Packets OsiStack OsiWalk MainStack LayerOrder FrameAnatomy TextFormats FixedHeaderDissectors Encapsulation
  VariableHeaderDissectors HeaderDisplays DhcpDissector DnsDissector HttpDissector TracedReads
open HttpParserState HttpRequests HttpPipelines HttpDisplay

def osiPacketHeader : String :=
  bold (rule ++ dashes 16 ++ "  New packet received  " ++ dashes 16 ++ "\n" ++ rule ++
    " Received : %s Packet size : %zu bytes\n" ++ rule ++ rule)

def osiPacketFooter : String := bold (dashes 55 ++ "\n\n\n")

def headerLine (time : String) (size : ℕ) : Line := .printf osiPacketHeader [.text time, .int size]

def footerLine : Line := .printf osiPacketFooter []

/-- What is printed at an event, at this time. -/
def printed (time : String) : Event → List Line
  | .header size => [headerLine time size]
  | .dump d packet => d.dump packet.packet
  | .footer => [footerLine]
  | _ => []

def dumpLines (dumped : List (Dissector × Ref)) : List Line := dumped.flatMap fun x => x.1.dump x.2.packet

theorem dumpLines_append (dumped dumped' : List (Dissector × Ref)) :
    dumpLines (dumped ++ dumped') = dumpLines dumped ++ dumpLines dumped' := List.flatMap_append

section Traces
variable [CircularLinkedList] (time : String)

omit [CircularLinkedList] in
private theorem printed_events (v : Visit) : v.events.flatMap (printed time) = dumpLines v.dumped.toList := by
  cases h : v.taker <;> simp [Visit.events, Visit.dumped, dumpLines, printed, h]

omit [CircularLinkedList] in
private theorem printed_visits (route : List Visit) :
    (route.flatMap Visit.events).flatMap (printed time) = dumpLines (route.filterMap Visit.dumped) := by
  induction route with
  | nil => rfl
  | cons v route ih =>
    rw [List.flatMap_cons, List.flatMap_append, printed_events, ih, List.filterMap_cons]
    cases v.dumped <;> simp [dumpLines]

/-- Between header and footer the text is that of the dumps. -/
theorem printed_trace (stack : Stack) (packet : Packet) :
    (osiDumpPacketTrace stack packet).flatMap (printed time) =
      headerLine time packet.size :: dumpLines (dumps (osiDumpPacketTrace stack packet)) ++ [footerLine] := by
  have hdestroys : ∀ route : List Ref, (route.map Event.destroy).flatMap (printed time) = [] := by
    intro route
    induction route with
    | nil => rfl
    | cons r route ih => exact ih
  rw [dumps_trace, ← printed_visits time, osiDumpPacketTrace_eq, List.flatMap_cons, List.flatMap_append,
    List.flatMap_append, hdestroys, List.append_nil]
  rfl

end Traces

section Frames
variable [Memory] (e : EthernetHeader) (i : Ipv4Header) (t : Transport) (payload : Bytes)

def applicationLines (frame : Bytes) : List Line :=
  ((atLayer osiLayer7).find? fun d => d.handles (applicationPacket frame)).elim []
    fun d => d.dump (applicationPacket frame)

theorem applicationPacket_encapsulate (hpayload : t.isTcp = false ∨ payload ≠ []) :
    (applicationPacket (encapsulate e i t payload)).data = some payload ∧
      (applicationPacket (encapsulate e i t payload)).protocol = 0 ∧
      (t.isIcmp = false → (applicationPacket (encapsulate e i t payload)).session ≠ none) := by
  let _ := plainList
  have h := List.Perm.refl mainOrder
  have ha := (ethernet_encapsulate e i t payload).1
  have hd := transportPacket_data e i t payload
  have hp := transportPacket_protocol e i t payload
  have ht := (transport_handles t payload hd hp).mpr hpayload
  obtain ⟨session, hdec, hsession⟩ := transport_decapsulate t payload hd hp ht
  have hafter : (seventhVisit mainOrder (Packet.ofFrame (encapsulate e i t payload))).packet.packet =
      ((transportPacket (encapsulate e i t payload)).behind t.wire.length 0 session).value := by
    rw [← thirdVisit_anatomy h ha] at ht hdec ⊢
    exact after_of_handles h osiLayer3 _ (by decide) t.dissector_mem ht hdec
  have hlen : t.wire.length ≤ (transportPacket (encapsulate e i t payload)).size := by
    rw [← (transportPacket (encapsulate e i t payload)).sized _ hd, List.length_append]
    exact Nat.le_add_right _ _
  rw [← seventhVisit_anatomy h ha, hafter]
  exact ⟨by rw [Packet.behind_data hd hlen, List.drop_left], rfl, hsession⟩

section Walk
variable [CircularLinkedList]

/-- The dumps of the walk over an encapsulated payload, each with the packet of its layer. -/
theorem dumpLines_encapsulate (hpayload : t.isTcp = false ∨ payload ≠ []) :
    dumpLines (dumps (osiDumpPacketTrace mainStack (Packet.ofFrame (encapsulate e i t payload)))) =
      ethernetLines e ++ ipLines i ++ transportLines t ++ applicationLines (encapsulate e i t payload) := by
  have h := List.Perm.refl mainOrder
  have ha := (ethernet_encapsulate e i t payload).1
  have hip := (ip_encapsulate e i t payload).1
  have hd := transportPacket_data e i t payload
  have hp := transportPacket_protocol e i t payload
  have ht := (transport_handles t payload hd hp).mpr hpayload
  have hsecond := (secondVisit_taker_iff h ha List.mem_cons_self).mpr hip
  have hthird := (thirdVisit_taker_iff h ha t.dissector_mem).mpr ht
  have hseventh : dumpLines (seventhVisit mainOrder (Packet.ofFrame (encapsulate e i t payload))).dumped.toList =
      applicationLines (encapsulate e i t payload) := by
    have htaker : (seventhVisit mainOrder (Packet.ofFrame (encapsulate e i t payload))).taker =
        (atLayer osiLayer7).find? fun d => d.handles (applicationPacket (encapsulate e i t payload)) := by
      rw [← seventhVisit_anatomy h ha]
      exact (find_registered _ _ _).trans (find_atLayer _ _ _)
    rw [Visit.dumped, htaker, applicationLines]
    cases (atLayer osiLayer7).find? fun d => d.handles (applicationPacket (encapsulate e i t payload)) with
    | none => rfl
    | some d => simp [dumpLines, seventhVisit_anatomy h ha]
  have hfirst : ethernet.dump (Packet.ofFrame (encapsulate e i t payload)) = ethernetLines e :=
    ethernet_dump_sent rfl ha
  have hnetwork := ip_dump_sent (networkPacket_data e i t payload) hip
  have htransport := transport_dump_sent hd hp ht
  have hdumps : dumps (osiDumpPacketTrace mainStack (Packet.ofFrame (encapsulate e i t payload))) = _ :=
    dumps_of_accepted h ha
  rw [hdumps, ← List.singleton_append, dumpLines_append, dumpLines_append, dumpLines_append, hseventh]
  simp only [dumpLines, Visit.dumped, hsecond, hthird, Option.map_some, Option.toList_some, List.flatMap_cons,
    List.flatMap_nil, List.append_nil, secondVisit_anatomy h ha, thirdVisit_anatomy h ha, hfirst, hnetwork,
    htransport, List.append_assoc]

/-- All that is printed for a frame that carries a payload. -/
theorem printed_encapsulate (time : String) (hpayload : t.isTcp = false ∨ payload ≠ []) :
    (osiDumpPacketTrace mainStack (Packet.ofFrame (encapsulate e i t payload))).flatMap (printed time) =
      headerLine time (encapsulate e i t payload).length ::
        (ethernetLines e ++ ipLines i ++ transportLines t ++ applicationLines (encapsulate e i t payload)) ++
          [footerLine] := by
  rw [printed_trace, dumpLines_encapsulate e i t payload hpayload]
  rfl

end Walk

def httpLines (qs : List Request) : List Line :=
  (outputHeader lightMagenta 20 "HTTP Header" "  " 20).outputs ++ qs.flatMap requestPrints ++ outputFooter.outputs

variable {e i t payload}

theorem find_http {packet : Packet} (h : http.handles packet = true) :
    (atLayer osiLayer7).find? (fun d => d.handles packet) = some http := by
  have hdhcp : dhcp.handles packet = false := by
    rw [Bool.eq_false_iff]
    intro hdhcp
    have hnot := RegistrationOrder.not_http_of_dhcp hdhcp
    rw [h] at hnot
    cases hnot
  have hdns : dns.handles packet = false := by
    rw [Bool.eq_false_iff]
    intro hdns
    have hnot := RegistrationOrder.not_http_of_dns hdns
    rw [h] at hnot
    cases hnot
  have hlayer : atLayer osiLayer7 = [dhcp, dns, http] := rfl
  rw [hlayer, List.find?_cons_of_neg (by simp [hdhcp]), List.find?_cons_of_neg (by simp [hdns])]
  exact List.find?_cons_of_pos h

omit [Memory] in
theorem payload_ne_nil {qs : List Request} (htext : characters payload = pipelineText qs) (hqs : qs ≠ []) :
    payload ≠ [] := by
  rintro rfl
  exact pipelineText_ne_nil hqs htext.symm

private theorem applicationLines_requests {qs : List Request} (ht : t.isIcmp = false)
    (htext : characters payload = pipelineText qs) (hqs : qs ≠ []) (hfits : Pipelined 0 qs) :
    applicationLines (encapsulate e i t payload) = httpLines qs := by
  obtain ⟨hdata, hprotocol, hsession⟩ :=
    applicationPacket_encapsulate e i t payload (.inr (payload_ne_nil htext hqs))
  have hholds : HoldsRequests (applicationPacket (encapsulate e i t payload)) payload qs :=
    ⟨hprotocol, hsession ht, hdata, htext, hqs, hfits⟩
  rw [applicationLines, find_http (handles_requests hholds)]
  exact dumps_requests hholds

end Frames

section Arp
variable [Memory] [CircularLinkedList] (e : EthernetHeader) (a : ArpHeader) (padding : Bytes)

/-- A frame of ARP. The link fills it up to its least length. -/
def arpFrame : Bytes := e.wire etherTypeArp ++ (a.wire ++ padding)

/-- Layer 3 passes what ARP leaves, for its hint is 0; layer 7 has no session to go by. -/
structure ArpWalk (frame : Bytes) : Prop where
  accepted : ethernet.handles (Packet.ofFrame frame) = true
  network : (secondVisit mainOrder (Packet.ofFrame frame)).taker = some arp
  transport : (thirdVisit mainOrder (Packet.ofFrame frame)).taker = none
  rest : applicationPacket frame = suffix frame 42 0 none

theorem arpWalk : ArpWalk (arpFrame e a padding) ∧ arp.dump (networkPacket (arpFrame e a padding)) = arpLines a := by
  have h := List.Perm.refl mainOrder
  have hdata : (Packet.ofFrame (arpFrame e a padding)).data = some (e.wire etherTypeArp ++ (a.wire ++ padding)) := rfl
  obtain ⟨ha, htype⟩ := ethernet_handles_sent (by decide) (by decide) hdata
  rw [be16_ofFrame ((ethernet_handles_iff _).mp ha).1] at htype
  have hnetwork : (networkPacket (arpFrame e a padding)).data = some (a.wire ++ padding) :=
    congrArg some (List.drop_left' (e.length_wire etherTypeArp))
  obtain ⟨harp, hlines⟩ := arp_dump_sent hnetwork htype
  have hip : ip.handles (networkPacket (arpFrame e a padding)) = false := by
    rw [Bool.eq_false_iff]
    intro hip
    have hprotocol := ((ipDissectorHandles_iff _).mp hip).2.2.1
    rw [networkPacket, suffix_protocol, htype] at hprotocol
    exact absurd hprotocol (by decide)
  have hpacket : transportPacket (arpFrame e a padding) = suffix (arpFrame e a padding) 42 0 none := by
    simp [transportPacket, networkHeader, networkHint, hip, harp, sizeofEtherHeader, sizeofEtherArp]
  have hnone : ∀ d ∈ atLayer osiLayer3, d.handles (transportPacket (arpFrame e a padding)) = false := by
    intro d hd
    rw [Bool.eq_false_iff]
    intro hhandles
    have hprotocol := protocol_of_layer3 hd hhandles
    rw [hpacket, suffix_protocol] at hprotocol
    simp [ipProtoUdp, ipProtoIcmp, ipProtoTcp] at hprotocol
  refine ⟨⟨ha, ?_, ?_, ?_⟩, hlines⟩
  · exact (secondVisit_taker_iff h ha (List.mem_cons_of_mem _ List.mem_cons_self)).mpr harp
  · rw [Option.eq_none_iff_forall_ne_some]
    intro d hd
    have hmem : d ∈ atLayer osiLayer3 := (taker_mem h osiLayer3 _ hd).1
    have hhandles := (thirdVisit_taker_iff h ha hmem).mp hd
    rw [hnone d hmem] at hhandles
    cases hhandles
  · have hudp := hnone udp (by simp)
    have hicmp := hnone icmp (by simp)
    have htcp := hnone tcp (by simp)
    rw [applicationPacket, headers, transportHeader, transportHint, transportSession]
    simp [hudp, hicmp, htcp, networkHeader, networkHint, hip, harp, sizeofEtherHeader, sizeofEtherArp]

omit [Memory] [CircularLinkedList] in
private theorem drop_arpFrame : (arpFrame e a padding).drop 42 = padding := by
  rw [arpFrame, ← List.append_assoc]
  exact List.drop_left' (by simp)

instance (bytes : Bytes) : Decidable (DhcpRoutes.LooksLikeDhcp bytes) := inferInstanceAs (Decidable (_ ∧ _))

theorem seventhVisit_arpFrame :
    dumpLines (seventhVisit mainOrder (Packet.ofFrame (arpFrame e a padding))).dumped.toList =
      if DhcpRoutes.LooksLikeDhcp padding then dhcp.dump (suffix (arpFrame e a padding) 42 0 none) else [] := by
  have h := List.Perm.refl mainOrder
  obtain ⟨⟨ha, -, htransport, hrest⟩, -⟩ := arpWalk e a padding
  have hpadding : (arpFrame e a padding).drop (headers (arpFrame e a padding)) = padding := by
    have hdata := congrArg Packet.data hrest
    rw [suffix_data, drop_arpFrame] at hdata
    exact Option.some.inj hdata
  have hdhcp := DhcpRoutes.seventhVisit_dhcp_iff ha
  rw [hpadding] at hdhcp
  split
  · rename_i hlooks
    simp [dumpLines, Visit.dumped, hdhcp.mpr hlooks, seventhVisit_anatomy h ha, hrest]
  · rename_i hlooks
    have hnone : (seventhVisit mainOrder (Packet.ofFrame (arpFrame e a padding))).taker = none := by
      rw [Option.eq_none_iff_forall_ne_some]
      intro d hd
      rcases seventhVisit_taker h ha hd with rfl | ⟨-, hudp | htcp⟩
      · exact hlooks (hdhcp.mp hd)
      · rw [htransport] at hudp
        cases hudp
      · rw [htransport] at htcp
        cases htcp
    rw [Visit.dumped, hnone]
    rfl

private theorem dumpLines_arpFrame :
    dumpLines (dumps (osiDumpPacketTrace mainStack (Packet.ofFrame (arpFrame e a padding)))) =
      ethernetLines e ++ arpLines a ++
        if DhcpRoutes.LooksLikeDhcp padding then dhcp.dump (suffix (arpFrame e a padding) 42 0 none) else [] := by
  have h := List.Perm.refl mainOrder
  obtain ⟨⟨ha, hnetwork, htransport, -⟩, hlines⟩ := arpWalk e a padding
  have hfirst : ethernet.dump (Packet.ofFrame (arpFrame e a padding)) = ethernetLines e := ethernet_dump_sent rfl ha
  have hdumps : dumps (osiDumpPacketTrace mainStack (Packet.ofFrame (arpFrame e a padding))) = _ :=
    dumps_of_accepted h ha
  rw [hdumps, ← List.singleton_append, dumpLines_append, dumpLines_append, dumpLines_append, seventhVisit_arpFrame]
  simp only [dumpLines, Visit.dumped, hnetwork, htransport, Option.map_some, Option.map_none, Option.toList_some,
    Option.toList_none, List.flatMap_cons, List.flatMap_nil, List.append_nil, secondVisit_anatomy h ha, hfirst,
    hlines, List.append_assoc]

/-- All that is printed for a frame of ARP. Layer 7 takes its padding for DHCP if it looks
like it, and nothing else. -/
theorem osiDumpPacket_arp (time : String) :
    (osiDumpPacketTrace mainStack (Packet.ofFrame (arpFrame e a padding))).flatMap (printed time) =
      headerLine time (42 + padding.length) :: (ethernetLines e ++ arpLines a ++
        if DhcpRoutes.LooksLikeDhcp padding then dhcp.dump (suffix (arpFrame e a padding) 42 0 none) else []) ++
          [footerLine] := by
  have hsize : (Packet.ofFrame (arpFrame e a padding)).size = 42 + padding.length := by
    simp [Packet.ofFrame, arpFrame, ← Nat.add_assoc]
  rw [printed_trace, hsize, dumpLines_arpFrame]

end Arp

theorem head_transportLines [Memory] {t t' : Transport} {lines lines' : List Line}
    (h : transportLines t ++ lines = transportLines t' ++ lines') : t.number = t'.number := by
  have hhead := congrArg List.head? h
  cases t <;> cases t' <;> first
    | rfl
    | simp [transportLines, udpLines, icmpLines, tcpLines, TcpDisplay.shown, outputHeader, red, magenta, cyan] at hhead

private theorem lineCount_of_number {t t' : Transport} (h : t.number = t'.number) : lineCount t = lineCount t' := by
  cases t <;> cases t' <;> first
    | rfl
    | simp [Transport.number, ipProtoUdp, ipProtoIcmp, ipProtoTcp] at h

/-- Two frames for which the same is printed have the same Ethernet header, the same IP
addresses and checksum, the same protocol behind IP and the same ports. -/
theorem osiDumpPacket_headers_inj [Memory] [CircularLinkedList] (time : String) {e e' : EthernetHeader} {i i' : Ipv4Header} {t t' : Transport}
    {payload payload' : Bytes} (hpayload : t.isTcp = false ∨ payload ≠ [])
    (hpayload' : t'.isTcp = false ∨ payload' ≠ [])
    (h : (osiDumpPacketTrace mainStack (Packet.ofFrame (encapsulate e i t payload))).flatMap (printed time) =
      (osiDumpPacketTrace mainStack (Packet.ofFrame (encapsulate e' i' t' payload'))).flatMap (printed time)) :
    e = e' ∧ i.saddr = i'.saddr ∧ i.daddr = i'.daddr ∧ i.check = i'.check ∧ t.number = t'.number ∧
      ports t = ports t' := by
  rw [printed_encapsulate e i t payload time hpayload, printed_encapsulate e' i' t' payload' time hpayload'] at h
  rw [List.cons_append, List.cons_append] at h
  obtain ⟨-, h⟩ := List.cons.inj h
  simp only [List.append_assoc] at h
  obtain ⟨hethernet, h⟩ := List.append_inj h rfl
  obtain ⟨hip, h⟩ := List.append_inj h rfl
  have hnumber := head_transportLines h
  obtain ⟨htransport, -⟩ := List.append_inj h (by
    rw [length_transportLines, length_transportLines, lineCount_of_number hnumber])
  obtain ⟨hsource, hdestination, hcheck⟩ := ipLines_inj hip
  exact ⟨ethernetLines_inj hethernet, hsource, hdestination, hcheck, hnumber, (transportLines_inj htransport).2⟩

/-- The same segment but for its sequence number, of which the lower half is not printed. -/
def nextSegment : TcpHeader := { acknowledgement with seq := ⟨[0, 0, 0, 2], rfl⟩ }

private theorem printed_nextSegment : let _ := zeroMemory; let _ := plainList
    (osiDumpPacketTrace mainStack (Packet.ofFrame (encapsulate loopbackEthernet (loopbackIp 41)
      (.tcp acknowledgement) [1]))).flatMap (printed "") =
    (osiDumpPacketTrace mainStack (Packet.ofFrame (encapsulate loopbackEthernet (loopbackIp 42)
      (.tcp nextSegment) [1]))).flatMap (printed "") := by
  intro _ _
  have happlication :
      applicationLines (encapsulate loopbackEthernet (loopbackIp 41) (.tcp acknowledgement) [1]) =
        applicationLines (encapsulate loopbackEthernet (loopbackIp 42) (.tcp nextSegment) [1]) := by
    decide +kernel
  rw [printed_encapsulate _ _ _ _ "" (.inr (List.cons_ne_nil 1 [])),
    printed_encapsulate _ _ _ _ "" (.inr (List.cons_ne_nil 1 [])), happlication]
  rfl

theorem osiDumpPacket_headers_inj_segment :
    encapsulate loopbackEthernet (loopbackIp 41) (.tcp acknowledgement) [1] ≠
      encapsulate loopbackEthernet (loopbackIp 42) (.tcp nextSegment) [1] ∧
        (loopbackIp 41).check = (loopbackIp 42).check ∧
          ports (.tcp acknowledgement) = ports (.tcp nextSegment) :=
  let h := @osiDumpPacket_headers_inj zeroMemory plainList "" loopbackEthernet loopbackEthernet (loopbackIp 41)
    (loopbackIp 42) (.tcp acknowledgement) (.tcp nextSegment) [1] [1] (.inr (List.cons_ne_nil 1 []))
    (.inr (List.cons_ne_nil 1 [])) printed_nextSegment
  ⟨by decide +kernel, h.2.2.2.1, h.2.2.2.2.2⟩

/-- For a frame that carries requests of HTTP over TCP or UDP, each header is printed as it
was sent, and then each request with its fields and the sizes of its body. -/
theorem osiDumpPacket_requests [Memory] [CircularLinkedList] (time : String) (e : EthernetHeader) (i : Ipv4Header)
    (t : Transport) (payload : Bytes) {qs : List Request} (ht : t.isIcmp = false)
    (htext : characters payload = pipelineText qs) (hqs : qs ≠ []) (hfits : Pipelined 0 qs) :
    (osiDumpPacketTrace mainStack (Packet.ofFrame (encapsulate e i t payload))).flatMap (printed time) =
      headerLine time (encapsulate e i t payload).length ::
        (ethernetLines e ++ ipLines i ++ transportLines t ++ httpLines qs) ++ [footerLine] := by
  rw [printed_encapsulate e i t payload time (.inr (payload_ne_nil htext hqs)),
    applicationLines_requests ht htext hqs hfits]

theorem osiDumpPacket_requests_two : let _ := zeroMemory; let _ := plainList
    let frame := encapsulate loopbackEthernet (loopbackIp 40) (.tcp acknowledgement)
      (toBytes (pipelineText [plainRequest, chunkedRequest]))
    (osiDumpPacketTrace mainStack (Packet.ofFrame frame)).flatMap (printed "") =
      headerLine "" frame.length :: (ethernetLines loopbackEthernet ++ ipLines (loopbackIp 40) ++
        tcpLines acknowledgement ++ httpLines [plainRequest, chunkedRequest]) ++ [footerLine] :=
  let _ := zeroMemory
  let _ := plainList
  osiDumpPacket_requests "" loopbackEthernet (loopbackIp 40) (.tcp acknowledgement)
    (toBytes (pipelineText [plainRequest, chunkedRequest])) rfl (by decide +kernel) (by simp) pipelined_two

end OpenSniffer.FramePrints
