import OpenSniffer.Encapsulation

/-!
# Sessions and streams

A session is meant to track the packets of one stream. Its identifier is 0 for every
datagram and the sequence number for a segment, so it tells streams apart only by what
the sequence numbers happen to be.
-/
namespace OpenSniffer.Sessions
open Packets OsiStack OsiWalk MainStack LayerOrder FrameAnatomy FixedHeaderDissectors
  VariableHeaderDissectors DhcpDissector DnsDissector HttpDissector Encapsulation TracedReads

/-- The session of the packet that a dissector leaves, if any. -/
def sessionOf : Event → Option Session
  | .decapsulate _ _ (some r) => r.packet.session
  | _ => none

def sessions (trace : List Event) : List Session := trace.filterMap sessionOf

/-- The session that a visit creates. -/
def visitSession (v : Visit) : Option Session := v.result.bind fun r => r.packet.session

theorem sessions_append (trace trace' : List Event) :
    sessions (trace ++ trace') = sessions trace ++ sessions trace' := List.filterMap_append

theorem sessions_cons_of_none {e : Event} (h : sessionOf e = none) (trace : List Event) :
    sessions (e :: trace) = sessions trace := List.filterMap_cons_none h

private theorem sessionOf_decapsulate (d : Dissector) (packet : Ref) (result : Option Ref) :
    sessionOf (.decapsulate d packet result) = result.bind fun r => r.packet.session := by
  cases result <;> rfl

private theorem sessions_events (v : Visit) : sessions v.events = (visitSession v).toList := by
  rw [Visit.events, sessions_cons_of_none rfl]
  cases h : v.taker with
  | none => simp [visitSession, Visit.result, h, sessions]
  | some d =>
    simp only [Option.elim_some, sessions, visitSession, List.filterMap_cons, sessionOf_decapsulate,
      List.filterMap_nil]
    cases v.result.bind fun r => r.packet.session <;> rfl

private theorem sessions_flatMap_events (route : List Visit) :
    sessions (route.flatMap Visit.events) = route.filterMap visitSession := by
  induction route with
  | nil => rfl
  | cons v route ih =>
    rw [List.flatMap_cons, sessions_append, sessions_events, ih]
    cases h : visitSession v <;> simp [h]

private theorem sessions_destroys (route : List Ref) : sessions (route.map Event.destroy) = [] := by
  induction route with
  | nil => rfl
  | cons r route ih => exact ih

private theorem sessions_trace [CircularLinkedList] (stack : Stack) (packet : Packet) :
    sessions (osiDumpPacketTrace stack packet) = (visits stack packet).filterMap visitSession := by
  rw [osiDumpPacketTrace_eq, sessions_cons_of_none rfl, sessions_append, sessions_append,
    sessions_flatMap_events, sessions_destroys]
  simp [sessions, sessionOf]

/-- The walk reaches the dissector of UDP or of TCP. -/
def ReachesTransport [Memory] (trace : List Event) : Prop :=
  ∃ p, (osiLayer3, p, some udp) ∈ finds trace ∨ (osiLayer3, p, some tcp) ∈ finds trace

theorem visitSession_of_no_taker {v : Visit} (h : v.taker = none) : visitSession v = none := by
  rw [visitSession, result_of_no_taker h]
  rfl

section Walk
variable [Memory]

theorem visitSession_of_taken {v : Visit} {d : Dissector} {header protocol : ℕ}
    {session : Option Session} (h : Taken v d header protocol session) :
    visitSession v = session := by
  rw [visitSession, h.result]
  rfl

variable [CircularLinkedList] {frame : Bytes}

theorem eq_thirdVisit (ha : ethernet.handles (Packet.ofFrame frame) = true) {v : Visit}
    (hv : v ∈ visits mainStack (Packet.ofFrame frame)) (hlayer : v.layer = osiLayer3) :
    v = thirdVisit mainOrder (Packet.ofFrame frame) := by
  rw [mainStack, visits_of_accepted (List.Perm.refl mainOrder) ha] at hv
  simp only [List.mem_cons, List.not_mem_nil, or_false] at hv
  rcases hv with rfl | rfl | rfl | rfl | rfl | rfl | rfl
  · exact absurd hlayer (show osiLayer1 ≠ osiLayer3 by decide)
  · exact absurd hlayer (show osiLayer2 ≠ osiLayer3 by decide)
  · rfl
  · exact absurd hlayer (show 4 ≠ osiLayer3 by decide)
  · exact absurd hlayer (show 5 ≠ osiLayer3 by decide)
  · exact absurd hlayer (show 6 ≠ osiLayer3 by decide)
  · exact absurd hlayer (show osiLayer7 ≠ osiLayer3 by decide)

theorem reaches_layer3_iff {d : Dissector} (hd : d ∈ atLayer osiLayer3) :
    (∃ p, (osiLayer3, p, some d) ∈
        finds (osiDumpPacketTrace mainStack (Packet.ofFrame frame))) ↔
      ethernet.handles (Packet.ofFrame frame) = true ∧ d.handles (transportPacket frame) = true := by
  have h := List.Perm.refl mainOrder
  cases ha : ethernet.handles (Packet.ofFrame frame) with
  | false =>
    rw [mainStack, finds_trace, visits_of_rejected h ha]
    simp [firstVisit, osiLayer1, osiLayer3]
  | true =>
    rw [← thirdVisit_taker_iff h ha hd]
    constructor
    · intro hreached
      obtain ⟨p, hp⟩ := hreached
      rw [finds_trace, List.mem_map] at hp
      obtain ⟨v, hv, heq⟩ := hp
      simp only [Prod.mk.injEq] at heq
      rw [eq_thirdVisit ha hv heq.1] at heq
      exact ⟨rfl, heq.2.2⟩
    · intro htaker
      have hfound := thirdVisit_mem_finds h ha
      rw [htaker.2] at hfound
      exact ⟨_, hfound⟩

theorem reachesTransport_iff :
    ReachesTransport (osiDumpPacketTrace mainStack (Packet.ofFrame frame)) ↔
      ethernet.handles (Packet.ofFrame frame) = true ∧
        (udp.handles (transportPacket frame) = true ∨ tcp.handles (transportPacket frame) = true) := by
  rw [ReachesTransport, exists_or, reaches_layer3_iff (by simp), reaches_layer3_iff (by simp),
    ← and_or_left]

private theorem secondVisit_noSession : visitSession (secondVisit mainOrder (Packet.ofFrame frame)) = none := by
  rcases secondVisit_cases (List.Perm.refl mainOrder) (Packet.ofFrame frame) with hnone | hip | harp
  · exact visitSession_of_no_taker hnone
  · exact visitSession_of_taken hip
  · exact visitSession_of_taken harp

section Accepted
variable (ha : ethernet.handles (Packet.ofFrame frame) = true)
include ha

/-- The session that layer 7 finds on its packet is layer 3's. -/
theorem thirdVisit_session :
    visitSession (thirdVisit mainOrder (Packet.ofFrame frame)) = transportSession frame := by
  have h := List.Perm.refl mainOrder
  have hafter : (thirdVisit mainOrder (Packet.ofFrame frame)).after.packet.session =
      transportSession frame := congrArg Packet.session (seventhVisit_anatomy h ha)
  rw [← hafter]
  rcases thirdVisit_cases h (Packet.ofFrame frame) with hnone | hudp | hicmp | htcp
  · rw [visitSession_of_no_taker hnone, after_of_no_taker hnone, (thirdVisit_packet h ha).1]
  · rw [visitSession_of_taken hudp, hudp.after, Packet.behind_session]
  · rw [visitSession_of_taken hicmp, hicmp.after, Packet.behind_session]
  · rw [visitSession_of_taken htcp, htcp.after, Packet.behind_session]

omit ha in
theorem seventhVisit_noSession :
    visitSession (seventhVisit mainOrder (Packet.ofFrame frame)) = none := by
  cases ht : (seventhVisit mainOrder (Packet.ofFrame frame)).taker with
  | none => exact visitSession_of_no_taker ht
  | some d =>
    obtain ⟨hd, -⟩ : d ∈ atLayer osiLayer7 ∧ _ := taker_mem (List.Perm.refl mainOrder) osiLayer7 _ ht
    rw [atLayer_7, List.mem_cons, List.mem_pair] at hd
    rw [visitSession, Visit.result, ht]
    rcases hd with rfl | rfl | rfl <;> rfl

theorem sessions_of_accepted : sessions (osiDumpPacketTrace mainStack (Packet.ofFrame frame)) =
    (transportSession frame).toList := by
  have h := List.Perm.refl mainOrder
  have hfirst := visitSession_of_taken (firstVisit_of_accepted h ha)
  have hempty : ∀ layer p, atLayer layer = [] →
      visitSession (visit (registered mainOrder) layer p) = none := by
    intro layer p hlayer
    exact visitSession_of_no_taker (taker_none_of_empty h layer p hlayer)
  rw [sessions_trace, mainStack, visits_of_accepted h ha]
  simp only [List.filterMap_cons, hfirst, secondVisit_noSession, thirdVisit_session ha,
    seventhVisit_noSession, hempty 4 _ atLayer_4, hempty 5 _ atLayer_5, hempty 6 _ atLayer_6,
    List.filterMap_nil]
  cases transportSession frame <;> rfl

end Accepted

end Walk

/-- What the segments or datagrams of a stream have in common, as bytes. -/
structure Stream where
  protocol : Bytes
  source : Bytes
  destination : Bytes
  srcPort : Bytes
  destPort : Bytes
  deriving DecidableEq

/-- The version in a frame's IP header, and the length of that header in version 4. -/
def ipVersion (frame : Bytes) : ℕ := (frame.getD 14 0).toNat / 16

def ihl (frame : Bytes) : ℕ := (frame.getD 14 0).toNat % 16

/-- A frame's bytes `i` to `i + n` behind its Ethernet header. -/
def field (frame : Bytes) (i n : ℕ) : Bytes := (frame.drop (sizeofEtherHeader + i)).take n

/-- The stream of a frame: the protocol and the addresses where its IP version puts them,
and the ports behind a header of forty bytes in version 6, of `ihl` words otherwise. -/
def streamOf (frame : Bytes) : Stream :=
  if ipVersion frame = 6 then
    ⟨field frame 6 1, field frame 8 16, field frame 24 16, field frame 40 2, field frame 42 2⟩
  else
    ⟨field frame 9 1, field frame 12 4, field frame 16 4, field frame (ihl frame * 4) 2,
      field frame (ihl frame * 4 + 2) 2⟩

section Streams
variable [Memory]

def sequenceNumber (frame : Bytes) : ℕ :=
  (transportPacket frame).be16 4 * 2 ^ 16 + (transportPacket frame).be16 6

/-- What stands for the stream: 0 in what is taken for a datagram, and the sequence number
in what is taken for a segment. -/
def number (frame : Bytes) : ℕ :=
  if networkHint frame = ipProtoUdp then 0 else sequenceNumber frame

def foundPorts (frame : Bytes) : ℕ × ℕ := ((transportPacket frame).be16 0, (transportPacket frame).be16 2)

/-- The numbers agree exactly if the frames belong to one stream, and then the ports that are
found agree too. -/
structure Keyed (frame frame' : Bytes) : Prop where
  numbers : number frame = number frame' ↔ streamOf frame = streamOf frame'
  ports : streamOf frame = streamOf frame' → foundPorts frame = foundPorts frame'

/-- The same of frames with an IPv4 header: two datagrams belong to one stream, a segment's
number is not 0 if the other is a datagram, and two segments agree in theirs exactly if they
belong to one stream. -/
def KeyedIpv4 (frame frame' : Bytes) : Prop :=
  if networkHint frame = ipProtoUdp then
    if networkHint frame' = ipProtoUdp then streamOf frame = streamOf frame'
    else sequenceNumber frame' ≠ 0
  else if networkHint frame' = ipProtoUdp then sequenceNumber frame ≠ 0
  else sequenceNumber frame = sequenceNumber frame' ↔ streamOf frame = streamOf frame'

/-- The sessions that two walks create are alike if the frames belong to one stream, and
have different identifiers if they do not. -/
def ToldApart [CircularLinkedList] (frame frame' : Bytes) : Prop :=
  ∃ a b, sessions (osiDumpPacketTrace mainStack (Packet.ofFrame frame)) = [a] ∧
    sessions (osiDumpPacketTrace mainStack (Packet.ofFrame frame')) = [b] ∧
      (streamOf frame = streamOf frame' →
        a.id = b.id ∧ a.srcPort = b.srcPort ∧ a.destPort = b.destPort) ∧
      (streamOf frame ≠ streamOf frame' → a.id ≠ b.id)

/-- What the session of a frame is made of. -/
structure MadeOf (frame : Bytes) (a : Session) : Prop where
  srcPort : a.srcPort = (transportPacket frame).le16 0
  destPort : a.destPort = (transportPacket frame).le16 2
  id : (networkHint frame = ipProtoUdp ∧ a.id = 0) ∨ (networkHint frame = ipProtoTcp ∧
    a.id = (transportPacket frame).le16 4 + 2 ^ 16 * (transportPacket frame).le16 6)

theorem session_of_reaches [CircularLinkedList] {frame : Bytes}
    (h : ReachesTransport (osiDumpPacketTrace mainStack (Packet.ofFrame frame))) :
    ∃ a, sessions (osiDumpPacketTrace mainStack (Packet.ofFrame frame)) = [a] ∧ MadeOf frame a := by
  obtain ⟨ha, htransport⟩ := reachesTransport_iff.mp h
  rw [sessions_of_accepted ha, transportSession]
  rcases htransport with hudp | htcp
  · have hprotocol : networkHint frame = ipProtoUdp := ((handlesHint_iff _ _ _).mp hudp).2.1
    rw [if_pos hudp]
    exact ⟨_, rfl, rfl, rfl, Or.inl ⟨hprotocol, rfl⟩⟩
  · have hprotocol : networkHint frame = ipProtoTcp := ((tcpDissectorHandles_iff _).mp htcp).2.2.1
    have hother : ∀ protocol header, protocol ≠ ipProtoTcp →
        ¬ (handlesHint protocol header (transportPacket frame)).value = true := by
      intro protocol header hne hp
      exact hne (((handlesHint_iff _ _ _).mp hp).2.1.symm.trans hprotocol)
    have hudp : ¬ udp.handles (transportPacket frame) = true := hother ipProtoUdp _ (by decide)
    have hicmp : ¬ icmp.handles (transportPacket frame) = true := hother ipProtoIcmp _ (by decide)
    rw [if_neg hudp, if_neg hicmp, if_pos htcp]
    exact ⟨_, rfl, rfl, rfl, Or.inr ⟨hprotocol, rfl⟩⟩

section Pairs
variable {frame frame' : Bytes} {a b : Session}

theorem MadeOf.ports_iff (ha : MadeOf frame a) (hb : MadeOf frame' b) :
    (a.srcPort = b.srcPort ∧ a.destPort = b.destPort) ↔ foundPorts frame = foundPorts frame' := by
  rw [ha.srcPort, hb.srcPort, ha.destPort, hb.destPort, Packet.le16_eq_iff, Packet.le16_eq_iff,
    foundPorts, foundPorts, Prod.mk.injEq]

private theorem le_seq_eq_iff (p q : Packet) :
    p.le16 4 + 2 ^ 16 * p.le16 6 = q.le16 4 + 2 ^ 16 * q.le16 6 ↔
      p.be16 4 * 2 ^ 16 + p.be16 6 = q.be16 4 * 2 ^ 16 + q.be16 6 := by
  have hhigh := Packet.le16_eq_iff p q 4
  have hlow := Packet.le16_eq_iff p q 6
  have hp := Packet.le16_lt p 4
  have hq := Packet.le16_lt q 4
  have hp' := Packet.be16_lt p 6
  have hq' := Packet.be16_lt q 6
  omega

theorem le_seq_eq_zero_iff (p : Packet) :
    p.le16 4 + 2 ^ 16 * p.le16 6 = 0 ↔ p.be16 4 * 2 ^ 16 + p.be16 6 = 0 := by
  simp only [Packet.le16, Packet.be16]
  omega

omit [Memory] in
theorem tcp_ne_udp : ipProtoTcp ≠ ipProtoUdp := by decide

/-- Two sessions have one identifier exactly if the numbers agree. -/
theorem MadeOf.id_iff (ha : MadeOf frame a) (hb : MadeOf frame' b) :
    a.id = b.id ↔ number frame = number frame' := by
  rcases ha.id with ⟨hp, hid⟩ | ⟨hp, hid⟩ <;> rcases hb.id with ⟨hp', hid'⟩ | ⟨hp', hid'⟩
  · rw [number, number, if_pos hp, if_pos hp', hid, hid']
  · rw [number, number, if_pos hp, if_neg (hp' ▸ tcp_ne_udp), hid, hid', eq_comm, le_seq_eq_zero_iff,
      eq_comm, sequenceNumber]
  · rw [number, number, if_neg (hp ▸ tcp_ne_udp), if_pos hp', hid, hid', le_seq_eq_zero_iff,
      sequenceNumber]
  · rw [number, number, if_neg (hp ▸ tcp_ne_udp), if_neg (hp' ▸ tcp_ne_udp), hid, hid', le_seq_eq_iff,
      sequenceNumber, sequenceNumber]

theorem toldApart_iff_keyed [CircularLinkedList]
    (hs : sessions (osiDumpPacketTrace mainStack (Packet.ofFrame frame)) = [a])
    (hs' : sessions (osiDumpPacketTrace mainStack (Packet.ofFrame frame')) = [b])
    (ha : MadeOf frame a) (hb : MadeOf frame' b) : ToldApart frame frame' ↔ Keyed frame frame' := by
  constructor
  · intro h
    obtain ⟨a', b', ha', hb', hsame, hdistinct⟩ := h
    rw [hs, List.cons.injEq] at ha'
    rw [hs', List.cons.injEq] at hb'
    obtain ⟨rfl, -⟩ := ha'
    obtain ⟨rfl, -⟩ := hb'
    refine ⟨⟨?_, ?_⟩, ?_⟩
    · intro hnumber
      by_contra hne
      exact hdistinct hne ((ha.id_iff hb).mpr hnumber)
    · intro hstream
      exact (ha.id_iff hb).mp (hsame hstream).1
    · intro hstream
      exact (ha.ports_iff hb).mp (hsame hstream).2
  · intro h
    refine ⟨a, b, hs, hs', ?_, ?_⟩
    · intro hstream
      exact ⟨(ha.id_iff hb).mpr (h.numbers.mpr hstream), (ha.ports_iff hb).mpr (h.ports hstream)⟩
    · intro hne hid
      exact hne (h.numbers.mp ((ha.id_iff hb).mp hid))

end Pairs

/-- A frame with a whole IPv4 header. -/
structure Ipv4 (frame : Bytes) : Prop where
  version : ipVersion frame = 4
  words : 5 ≤ ihl frame

omit [Memory] in
theorem field_eq {frame : Bytes} {i n : ℕ} (h : sizeofEtherHeader + i + n ≤ frame.length) :
    field frame i n = (List.range n).map fun k => frame.getD (sizeofEtherHeader + i + k) 0 := by
  refine List.ext_getElem ?_ fun k hk hk' => ?_
  · rw [field, List.length_take, List.length_drop, List.length_map, List.length_range]
    omega
  · rw [List.length_map, List.length_range] at hk'
    rw [List.getElem_map, List.getElem_range]
    simp only [field, List.getElem_take, List.getElem_drop]
    rw [List.getElem_eq_getD]

/-- A walk that reaches UDP or TCP has passed IP, whatever IP took for the protocol. -/
theorem ip_of_reaches [CircularLinkedList] {frame : Bytes}
    (h : ReachesTransport (osiDumpPacketTrace mainStack (Packet.ofFrame frame))) :
    ip.handles (networkPacket frame) = true ∧ 8 ≤ (transportPacket frame).size := by
  obtain ⟨ha, htransport⟩ := reachesTransport_iff.mp h
  obtain ⟨-, htype, -⟩ := (ethernet_handles_iff frame).mp ha
  have hfound : (networkHint frame = ipProtoUdp ∨ networkHint frame = ipProtoTcp) ∧
      8 ≤ (transportPacket frame).size := by
    rcases htransport with hudp | htcp
    · obtain ⟨-, hprotocol, hsize⟩ := (handlesHint_iff _ _ _).mp hudp
      exact ⟨Or.inl hprotocol, hsize⟩
    · obtain ⟨-, hsize, hprotocol, -⟩ := (tcpDissectorHandles_iff _).mp htcp
      exact ⟨Or.inr hprotocol, hsize⟩
  refine ⟨?_, hfound.2⟩
  by_contra hip
  have hhint := hfound.1
  rw [networkHint, if_neg hip, ipProtoUdp, ipProtoTcp] at hhint
  split at hhint <;> omega

def portOf (bytes : Bytes) : ℕ := (bytes.getD 0 0).toNat * 256 + (bytes.getD 1 0).toNat

omit [Memory] in
theorem portOf_field {frame : Bytes} {i : ℕ} (h : sizeofEtherHeader + i + 2 ≤ frame.length) :
    portOf (field frame i 2) = (frame.getD (sizeofEtherHeader + i) 0).toNat * 256 +
      (frame.getD (sizeofEtherHeader + i + 1) 0).toNat := by
  rw [field_eq h]
  rfl

section Ipv4
variable [CircularLinkedList] {frame frame' : Bytes}

/-- In version 4 the dissectors look where the stream's fields are. -/
theorem Ipv4.found (hf : Ipv4 frame)
    (h : ReachesTransport (osiDumpPacketTrace mainStack (Packet.ofFrame frame))) :
    networkHint frame = ((streamOf frame).protocol.getD 0 0).toNat ∧
      foundPorts frame = (portOf (streamOf frame).srcPort, portOf (streamOf frame).destPort) := by
  obtain ⟨hip, hroom⟩ := ip_of_reaches h
  have hversion := hf.version
  have hwords := hf.words
  have hle := ((ipDissectorHandles_iff _).mp hip).2.2.2.1
  have hlen : sizeofEtherHeader < frame.length := by
    have hsize := ((ipDissectorHandles_iff _).mp hip).2.1
    rw [networkPacket, suffix_size, sizeofPointer] at hsize
    omega
  have hheader : ipHeaderSize (networkPacket frame) = ihl frame * 4 := by
    rw [ipHeaderSize, networkPacket, suffix_byte hlen]
    rfl
  have hnetwork : networkHeader frame = ihl frame * 4 := by
    rw [networkHeader, if_pos hip, hheader]
  rw [hheader, networkPacket, suffix_size] at hle
  rw [transportPacket, suffix_size, hnetwork] at hroom
  rw [streamOf, if_neg (by omega)]
  refine ⟨?_, ?_⟩
  · rw [networkHint, if_pos hip, networkPacket, suffix_byte (by omega), field_eq (by omega)]
    rfl
  · have hbyte : ∀ k, k < 8 → (transportPacket frame).byte k =
        frame.getD (sizeofEtherHeader + ihl frame * 4 + k) 0 := by
      intro k hk
      rw [transportPacket, suffix_byte (by omega), hnetwork]
    rw [foundPorts, Packet.be16, Packet.be16, hbyte 0 (by omega), hbyte 1 (by omega), hbyte 2 (by omega),
      hbyte 3 (by omega), portOf_field (by omega), portOf_field (by omega), Nat.add_zero, ← Nat.add_assoc]

/-- Between IPv4 frames the ports agree with the streams, and the protocols do. -/
theorem keyed_iff_keyedIpv4 (hf : Ipv4 frame) (hf' : Ipv4 frame')
    (h : ReachesTransport (osiDumpPacketTrace mainStack (Packet.ofFrame frame)))
    (h' : ReachesTransport (osiDumpPacketTrace mainStack (Packet.ofFrame frame'))) :
    Keyed frame frame' ↔ KeyedIpv4 frame frame' := by
  obtain ⟨hprotocol, hports⟩ := hf.found h
  obtain ⟨hprotocol', hports'⟩ := hf'.found h'
  have hhint : streamOf frame = streamOf frame' → networkHint frame = networkHint frame' := by
    intro hstream
    rw [hprotocol, hprotocol', hstream]
  have hkeyed : Keyed frame frame' ↔ (number frame = number frame' ↔ streamOf frame = streamOf frame') := by
    refine ⟨Keyed.numbers, fun hnumbers => ⟨hnumbers, fun hstream => ?_⟩⟩
    rw [hports, hports', hstream]
  rw [hkeyed, KeyedIpv4, number, number]
  by_cases hudp : networkHint frame = ipProtoUdp
  · by_cases hudp' : networkHint frame' = ipProtoUdp
    · rw [if_pos hudp, if_pos hudp', if_pos hudp, if_pos hudp', eq_self, true_iff]
    · have hne : streamOf frame ≠ streamOf frame' := fun hstream => hudp' (hhint hstream ▸ hudp)
      rw [if_pos hudp, if_neg hudp', if_pos hudp, if_neg hudp', iff_false_right hne, eq_comm]
  · by_cases hudp' : networkHint frame' = ipProtoUdp
    · have hne : streamOf frame ≠ streamOf frame' := fun hstream => hudp (hhint hstream ▸ hudp')
      rw [if_neg hudp, if_pos hudp', if_neg hudp, if_pos hudp', iff_false_right hne]
    · rw [if_neg hudp, if_neg hudp', if_neg hudp, if_neg hudp']

/-- Two frames' sessions tell their streams apart exactly when the numbers and the ports do
that the dissectors find; between IPv4 frames, when the sequence numbers do. -/
theorem toldApart_iff (frame frame' : Bytes)
    (h : ReachesTransport (osiDumpPacketTrace mainStack (Packet.ofFrame frame)))
    (h' : ReachesTransport (osiDumpPacketTrace mainStack (Packet.ofFrame frame'))) :
    (ToldApart frame frame' ↔ Keyed frame frame') ∧
      (Ipv4 frame → Ipv4 frame' → (ToldApart frame frame' ↔ KeyedIpv4 frame frame')) := by
  obtain ⟨a, hs, ha⟩ := session_of_reaches h
  obtain ⟨b, hs', hb⟩ := session_of_reaches h'
  have hkeyed := toldApart_iff_keyed hs hs' ha hb
  exact ⟨hkeyed, fun hf hf' => hkeyed.trans (keyed_iff_keyedIpv4 hf hf' h h')⟩

end Ipv4
end Streams

def segmentFrame (seq : UInt8) : Bytes :=
  encapsulate loopbackEthernet (loopbackIp 41)
    (.tcp { acknowledgement with seq := ⟨[0, 0, 0, seq], rfl⟩ }) [65]

theorem segmentFrame_reaches [Memory] [CircularLinkedList] (seq : UInt8) :
    ReachesTransport (osiDumpPacketTrace mainStack (Packet.ofFrame (segmentFrame seq))) := by
  have htcp := (transport_handles (.tcp { acknowledgement with seq := ⟨[0, 0, 0, seq], rfl⟩ }) [65]
    (transportPacket_data loopbackEthernet (loopbackIp 41) _ [65])
    (transportPacket_protocol loopbackEthernet (loopbackIp 41) _ [65])).mpr (Or.inr (by simp))
  exact reachesTransport_iff.mpr ⟨(ethernet_encapsulate _ _ _ _).1, Or.inr htcp⟩

theorem toldApart_iff_segments : let _ := zeroMemory; let _ := plainList;
    ReachesTransport (osiDumpPacketTrace mainStack (Packet.ofFrame (segmentFrame 1))) ∧
      ReachesTransport (osiDumpPacketTrace mainStack (Packet.ofFrame (segmentFrame 2))) ∧
        (ToldApart (segmentFrame 1) (segmentFrame 2) ↔ KeyedIpv4 (segmentFrame 1) (segmentFrame 2)) := by
  intro _ _
  have h := segmentFrame_reaches
  exact ⟨h 1, h 2, (toldApart_iff _ _ (h 1) (h 2)).2 ⟨by decide, by decide⟩ ⟨by decide, by decide⟩⟩

/-- Each segment of a stream gets a session with an identifier of its own. -/
theorem segments_not_toldApart : ¬ ∀ (_ : Memory) (_ : CircularLinkedList) (frame frame' : Bytes),
    ReachesTransport (osiDumpPacketTrace mainStack (Packet.ofFrame frame)) →
      ReachesTransport (osiDumpPacketTrace mainStack (Packet.ofFrame frame')) →
        ToldApart frame frame' := by
  intro h
  let _ := zeroMemory
  let _ := plainList
  have htold := h zeroMemory plainList (segmentFrame 1) (segmentFrame 2) (segmentFrame_reaches 1)
    (segmentFrame_reaches 2)
  obtain ⟨a, hs, ha⟩ := session_of_reaches (segmentFrame_reaches 1)
  obtain ⟨b, hs', hb⟩ := session_of_reaches (segmentFrame_reaches 2)
  have hstream : streamOf (segmentFrame 1) = streamOf (segmentFrame 2) := by decide +kernel
  have hnumbers := ((toldApart_iff_keyed hs hs' ha hb).mp htold).numbers.mpr hstream
  exact absurd hnumbers (by decide +kernel)

end OpenSniffer.Sessions
