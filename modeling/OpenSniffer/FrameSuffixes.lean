import OpenSniffer.MainStack

/-!
# Every packet of a walk is a suffix of the frame

A decapsulation cuts a header off the front, and a packet that is passed on keeps its
bytes. The six header lengths are guarded differently, two of them are read from the
packet, but each guard keeps the length within the packet.
-/
namespace OpenSniffer.FrameSuffixes
open Packets OsiStack OsiWalk MainStack FixedHeaderDissectors VariableHeaderDissectors
  TracedReads TracedReads.Traced

variable [Memory]

/-- A call returns what lies behind a header inside its packet, and the last thing it
reads is exactly that. -/
structure Cuts (decapsulate : Packet → Dump (Option Packet)) (header : ℕ) (packet p : Packet) :
    Prop where
  returned : (decapsulate packet).value = some p
  inside : header ≤ packet.size
  size : p.size = packet.size - header
  copied : p.data = packet.data.map (List.drop header)
  reads : ∃ fields, (decapsulate packet).reads = fields ++ List.range' header (packet.size - header)

/-- The `decapsulate` functions that return packets, with the header each removes. -/
inductive Decapsulator : Dissector → (Packet → Dump (Option Packet)) → (Packet → ℕ) → Prop
  | ethernet : Decapsulator ethernet ethernetDissectorDecapsulate fun _ => sizeofEtherHeader
  | ip : Decapsulator ip ipDissectorDecapsulate ipHeaderSize
  | arp : Decapsulator arp arpDissectorDecapsulate fun _ => sizeofEtherArp
  | udp : Decapsulator udp udpDissectorDecapsulate fun _ => sizeofUdphdr
  | icmp : Decapsulator icmp icmpDissectorDecapsulate fun _ => sizeofIcmphdr
  | tcp : Decapsulator tcp tcpDissectorDecapsulate tcpHeaderSize

theorem decapsulateWith_cuts {handles : Packet → Dump Bool} {header hint : Packet → Dump ℕ}
    {session : Packet → Dump (Option Session)} {packet : Packet} {n : ℕ}
    (hh : (handles packet).value = true) (hd : packet.data ≠ none) (hn : (header packet).value = n)
    (hle : n ≤ packet.size) :
    ∃ p, Cuts (decapsulateWith handles header hint session) n packet p := by
  subst hn
  obtain ⟨bytes, hbytes⟩ := Option.ne_none_iff_exists'.mp hd
  refine ⟨_, decapsulateWith_handled hh, hle, Packet.behind_size hle, ?_, ?_⟩
  · rw [Packet.behind_data hbytes hle, hbytes, Option.map_some]
  · refine ⟨(handles packet).reads ++ ((header packet).reads ++ ((hint packet).reads ++
      (session packet).reads)), ?_⟩
    simp [decapsulateWith, hh, Packet.behind, loadRange, sizeSub_of_le hle]

/-- Every guard keeps the header inside the packet. -/
theorem Decapsulator.cuts {d : Dissector} {decapsulate : Packet → Dump (Option Packet)}
    {header : Packet → ℕ} (h : Decapsulator d decapsulate header) {packet : Packet}
    (hp : d.handles packet = true) : ∃ p, Cuts decapsulate (header packet) packet p := by
  cases h with
  | ethernet =>
    obtain ⟨hd, hsize, -⟩ := (ethernetDissectorHandles_iff packet).mp hp
    exact decapsulateWith_cuts hp hd rfl hsize
  | ip =>
    obtain ⟨hd, -, -, hsize, -⟩ := (ipDissectorHandles_iff packet).mp hp
    exact decapsulateWith_cuts hp hd rfl hsize
  | arp =>
    obtain ⟨hd, -, hsize⟩ := (handlesHint_iff _ _ packet).mp hp
    exact decapsulateWith_cuts hp hd rfl hsize
  | udp =>
    obtain ⟨hd, -, hsize⟩ := (handlesHint_iff _ _ packet).mp hp
    exact decapsulateWith_cuts hp hd rfl hsize
  | icmp =>
    obtain ⟨hd, -, hsize⟩ := (handlesHint_iff _ _ packet).mp hp
    exact decapsulateWith_cuts hp hd rfl hsize
  | tcp =>
    obtain ⟨hd, -, -, hsize⟩ := (tcpDissectorHandles_iff packet).mp hp
    exact decapsulateWith_cuts hp hd rfl (Nat.le_of_lt hsize)

theorem Decapsulator.decapsulate_eq {d : Dissector} {decapsulate : Packet → Dump (Option Packet)}
    {header : Packet → ℕ} (h : Decapsulator d decapsulate header) (packet : Packet) :
    d.decapsulate packet = (decapsulate packet).value := by
  cases h <;> rfl

/-- The dissectors of layer 7 return nothing; the others are the decapsulators. -/
theorem decapsulator_of_mem {d : Dissector} (hd : d ∈ mainOrder) :
    (d.layer = osiLayer7 ∧ ∀ packet, d.decapsulate packet = none) ∨
      ∃ decapsulate header, Decapsulator d decapsulate header := by
  simp only [mainOrder, List.mem_cons, List.not_mem_nil, or_false] at hd
  rcases hd with rfl | rfl | rfl | rfl | rfl | rfl | rfl | rfl | rfl
  · exact Or.inr ⟨_, _, .ethernet⟩
  · exact Or.inr ⟨_, _, .ip⟩
  · exact Or.inr ⟨_, _, .arp⟩
  · exact Or.inr ⟨_, _, .udp⟩
  · exact Or.inl ⟨rfl, fun _ => rfl⟩
  · exact Or.inl ⟨rfl, fun _ => rfl⟩
  · exact Or.inr ⟨_, _, .icmp⟩
  · exact Or.inr ⟨_, _, .tcp⟩
  · exact Or.inl ⟨rfl, fun _ => rfl⟩

/-- A visit that no dissector takes, or one of layer 7, passes its packet on; a decapsulator
cuts `n` bytes off it. -/
def Removes (v : Visit) (n : ℕ) : Prop :=
  ((∀ d, v.taker = some d → d.layer = osiLayer7) ∧ v.result = none ∧ n = 0) ∨
    ∃ d decapsulate header r, v.taker = some d ∧
    Decapsulator d decapsulate header ∧ header v.packet.packet = n ∧ v.result = some r ∧
      Cuts decapsulate n v.packet.packet r.packet

/-- A packet holds the last bytes of the frame, those behind the first `removed`. -/
def IsSuffix (frame : Bytes) (removed : ℕ) (packet : Packet) : Prop :=
  packet.data = some (frame.drop (frame.length - packet.size)) ∧ removed + packet.size = frame.length

/-- Every packet of a route is the suffix that the headers removed before leave. -/
def Peels (frame : Bytes) : ℕ → List Visit → Prop
  | _, [] => True
  | removed, v :: route =>
    IsSuffix frame removed v.packet.packet ∧ ∃ n, Removes v n ∧ Peels frame (removed + n) route

omit [Memory] in
private theorem isSuffix_ofFrame (frame : Bytes) : IsSuffix frame 0 (Packet.ofFrame frame) := by
  refine ⟨?_, Nat.zero_add _⟩
  simp [Packet.ofFrame]

theorem IsSuffix.after {frame : Bytes} {removed n : ℕ} {v : Visit}
    (hs : IsSuffix frame removed v.packet.packet) (hr : Removes v n) :
    IsSuffix frame (removed + n) v.after.packet := by
  rcases hr with ⟨-, hnone, rfl⟩ | ⟨d, decapsulate, header, r, -, -, -, hr, hcuts⟩
  · rw [Visit.after_of_no_result hnone]
    exact hs
  · obtain ⟨hdata, hsize⟩ := hs
    have hinside := hcuts.inside
    have hsize' := hcuts.size
    rw [Visit.after_of_result hr]
    refine ⟨?_, by omega⟩
    have hdrop : frame.length - v.packet.packet.size + n = frame.length - r.packet.size := by omega
    rw [hcuts.copied, hdata, Option.map_some, List.drop_drop, hdrop]

section Walk
variable [CircularLinkedList]

theorem visit_removes (layer : ℕ) (packet : Ref) : ∃ n, Removes (visit mainStack layer packet) n := by
  cases ht : (visit mainStack layer packet).taker with
  | none =>
    refine ⟨0, Or.inl ⟨fun d hd => ?_, result_of_no_taker ht, rfl⟩⟩
    rw [ht] at hd
    cases hd
  | some d =>
    obtain ⟨hd, hp⟩ := taker_mem (List.Perm.refl mainOrder) layer packet ht
    rcases decapsulator_of_mem (mem_atLayer.mp hd).1 with ⟨hseven, hnone⟩ | ⟨decapsulate, header, hdec⟩
    · refine ⟨0, Or.inl ⟨fun d' hd' => ?_, ?_, rfl⟩⟩
      · obtain rfl : d = d' := Option.some.inj (ht.symm.trans hd')
        exact hseven
      rw [Visit.result, ht, visit_packet, Option.bind_some, hnone, Option.map_none]
    · obtain ⟨p, hcuts⟩ := hdec.cuts hp
      have hresult : d.decapsulate packet.packet = some p :=
        (hdec.decapsulate_eq packet.packet).trans hcuts.returned
      refine ⟨_, Or.inr ⟨d, decapsulate, header, ⟨packet.id + 1, p⟩, ht, hdec, rfl, ?_, hcuts⟩⟩
      rw [Visit.result, ht, visit_packet, Option.bind_some, hresult, Option.map_some]

private theorem visitsFrom_peels {frame : Bytes} (n layer removed : ℕ) (packet : Ref)
    (hs : IsSuffix frame removed packet.packet) :
    Peels frame removed (visitsFrom mainStack n layer packet) := by
  induction n generalizing layer removed packet with
  | zero => exact trivial
  | succ n ih =>
    obtain ⟨k, hk⟩ := visit_removes layer packet
    exact ⟨hs, k, hk, ih (layer + 1) (removed + k) _ (hs.after hk)⟩

private theorem visits_peels (frame : Bytes) : Peels frame 0 (visits mainStack (Packet.ofFrame frame)) := by
  obtain ⟨k, hk⟩ := visit_removes osiLayer1 ⟨0, Packet.ofFrame frame⟩
  have hs := isSuffix_ofFrame frame
  refine ⟨hs, k, hk, ?_⟩
  cases hr : (firstVisit mainStack (Packet.ofFrame frame)).result with
  | none => exact trivial
  | some p =>
    have hafter : (firstVisit mainStack (Packet.ofFrame frame)).after = p := Visit.after_of_result hr
    have hp : IsSuffix frame (0 + k) p.packet := hafter ▸ hs.after hk
    exact visitsFrom_peels _ osiLayer2 (0 + k) p hp

/-- What holds of the packets of a walk along a route. -/
structure SuffixWalk (frame : Bytes) (route : List Visit) (trace : List Event) : Prop where
  lookups : finds trace = route.map fun v => (v.layer, v.packet, v.taker)
  returned : ∀ r, Returned trace r ↔ ∃ v ∈ route, v.result = some r
  peels : Peels frame 0 route

/-- The packets of a walk are suffixes of the frame: what is missing is the headers
removed so far, each cut off by a copy from inside the packet. -/
theorem osiDumpPacket_suffixes (frame : Bytes) :
    SuffixWalk frame (visits mainStack (Packet.ofFrame frame))
      (osiDumpPacketTrace mainStack (Packet.ofFrame frame)) where
  lookups := finds_trace mainStack _
  returned r := by
    rw [returned_iff, created, List.mem_filterMap]
  peels := visits_peels frame

end Walk
end OpenSniffer.FrameSuffixes
