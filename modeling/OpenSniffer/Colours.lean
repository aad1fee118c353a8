import OpenSniffer.DhcpRoutes
import OpenSniffer.Encapsulation
import OpenSniffer.DnsCursor

/-!
# Colours

A dissector opens its colour before its block and ends it behind. What the dumps of a run
print is seen here through these marks alone: it leaves no colour open exactly when every
block that is opened is closed.
-/
namespace OpenSniffer.Colours
open Packets OsiStack OsiWalk MainStack FrameAnatomy DhcpRoutes Encapsulation TextFormats
  FixedHeaderDissectors VariableHeaderDissectors DhcpDissector DnsDissector DnsCursor HttpDissector
  TracedReads TracedReads.Traced

/-- A colour opened or ended by somebody. -/
inductive Mark (α : Type) where
  | opening (a : α)
  | closing (a : α)

section Marks
variable {α : Type}

/-- Every opening is followed by its own end, before the next one. -/
inductive Closed : List (Mark α) → Prop
  | nil : Closed []
  | pair (a : α) {marks : List (Mark α)} (rest : Closed marks) :
      Closed (.opening a :: .closing a :: marks)

/-- The marks of one block, closed or not. -/
def block (a : α) (closed : Bool) : List (Mark α) :=
  if closed then [.opening a, .closing a] else [.opening a]

theorem closed_opening_iff (a : α) (marks : List (Mark α)) :
    Closed (.opening a :: marks) ↔ ∃ rest, marks = .closing a :: rest ∧ Closed rest := by
  constructor
  · intro h
    cases h with
    | pair a rest => exact ⟨_, rfl, rest⟩
  · intro h
    obtain ⟨rest, rfl, hrest⟩ := h
    exact .pair a hrest

/-- A row of blocks starts with an opening, so it does not end a colour opened before. -/
theorem flatMap_block_ne_closing (blocks : List (α × Bool)) (a : α) (rest : List (Mark α)) :
    blocks.flatMap (fun b => block b.1 b.2) ≠ .closing a :: rest := by
  cases blocks with
  | nil => exact (List.cons_ne_nil _ _).symm
  | cons b blocks =>
    obtain ⟨c, closed⟩ := b
    rw [List.flatMap_cons]
    cases closed <;> simp [block]

private theorem closed_flatMap_block_iff (blocks : List (α × Bool)) :
    Closed (blocks.flatMap fun b => block b.1 b.2) ↔ ∀ b ∈ blocks, b.2 = true := by
  induction blocks with
  | nil => exact iff_of_true .nil (fun b hb => absurd hb List.not_mem_nil)
  | cons b blocks ih =>
    obtain ⟨a, closed⟩ := b
    rw [List.flatMap_cons, List.forall_mem_cons, ← ih]
    cases closed with
    | true =>
      have hpair : Closed (block a true ++ blocks.flatMap fun b => block b.1 b.2) ↔ _ :=
        closed_opening_iff a _
      rw [hpair]
      simp
    | false =>
      have hopen : Closed (block a false ++ blocks.flatMap fun b => block b.1 b.2) ↔ _ :=
        closed_opening_iff a _
      rw [hopen]
      refine iff_of_false ?_ (fun h => absurd h.1 Bool.false_ne_true)
      intro h
      obtain ⟨rest, hrest, -⟩ := h
      exact flatMap_block_ne_closing blocks a rest hrest

end Marks

def mark (name : String) : Line → Option (Mark String)
  | .colorBegin _ _ => some (.opening name)
  | .colorEnd _ => some (.closing name)
  | .printf _ _ => none

def marks (name : String) (lines : List Line) : List (Mark String) := lines.filterMap (mark name)

def walkMarks (trace : List Event) : List (Mark String) :=
  (dumps trace).flatMap fun d => marks d.1.name (d.1.dump d.2.packet)

def runMarks [Memory] [CircularLinkedList] (frames : List Bytes) : List (Mark String) :=
  frames.flatMap fun frame => walkMarks (osiDumpPacketTrace mainStack (Packet.ofFrame frame))

def isText : Line → Prop
  | .printf _ _ => True
  | _ => False

theorem marks_of_texts (name : String) {lines : List Line} (h : ∀ line ∈ lines, isText line) :
    marks name lines = [] := by
  induction lines with
  | nil => rfl
  | cons line lines ih =>
    rw [List.forall_mem_cons] at h
    cases line with
    | printf format args => exact ih h.2
    | colorBegin | colorEnd => exact h.1.elim

section Dumps
variable [Memory] {packet : Packet} (name : String)

omit [Memory] in
theorem outputs_handlesHint (protocol header : ℕ) : (handlesHint protocol header packet).outputs = [] := by
  rw [handlesHint, Traced.outputs_ite]
  exact ite_self _

theorem outputs_ethernetDissectorHandles : (ethernetDissectorHandles packet).outputs = [] := by
  simp only [ethernetDissectorHandles, Traced.outputs_ite, Traced.outputs_bind, Packet.outputs_load16,
    Traced.outputs_pure, List.append_nil, ite_self]

theorem outputs_ipDissectorHandles : (ipDissectorHandles packet).outputs = [] := by
  simp only [ipDissectorHandles, ihl, version, Traced.outputs_ite, Traced.outputs_bind,
    Packet.outputs_load8, Traced.outputs_pure, List.append_nil, ite_self]

theorem outputs_tcpDissectorHandles : (tcpDissectorHandles packet).outputs = [] := by
  simp only [tcpDissectorHandles, doff, Traced.outputs_ite, Traced.outputs_bind,
    Packet.outputs_load8, Traced.outputs_pure, List.append_nil, ite_self]

private theorem outputs_dhcpDissectorHandles : (dhcpDissectorHandles packet).outputs = [] := by
  simp only [dhcpDissectorHandles, Traced.outputs_ite, Traced.outputs_bind,
    Packet.outputs_load8, Traced.outputs_pure, List.append_nil, ite_self]

theorem outputs_tcpDissectorGetPacketType : (tcpDissectorGetPacketType packet).outputs = [] := by
  have hflag : ∀ flag, (tcpHasFlag packet flag).outputs = [] := fun flag => rfl
  simp only [tcpDissectorGetPacketType, Traced.outputs_ite, Traced.outputs_bind, hflag,
    Traced.outputs_pure, List.append_nil, ite_self]

omit [Memory] in
private theorem onPiece_isText (bytes : Bytes) (call : HttpParser.Callback) : isText (onPiece bytes call) := by
  obtain ⟨piece, start, length, method⟩ := call
  cases piece <;> exact trivial

private theorem dumpAnswers_prints (n i data : ℕ) : (dumpAnswers packet n i data).PrintsOnly isText :=
  dumpAnswers_printsOnly (fun _ => trivial) (fun _ => trivial) (fun _ => trivial) (fun _ => trivial)
    n i data

omit [Memory] in
theorem nameLines_print (format : String) (names : List Bytes) :
    ∀ line ∈ names.map (nameLine format), isText line := by
  intro line hline
  obtain ⟨name, -, rfl⟩ := List.mem_map.mp hline
  exact trivial

private theorem countLines_print : ∀ line ∈ countLines packet, isText line := by
  simp [countLines, isText]

private theorem dumpMessage_prints : (dumpMessage packet).PrintsOnly isText := by
  by_cases hqr : (packet.byte 2).toNat / 128 ≠ 0
  · rw [PrintsOnly, dumpMessage_of_response hqr, dumpResponse_outputs, List.forall_mem_append,
      List.forall_mem_append]
    refine ⟨countLines_print, nameLines_print _ _, ?_⟩
    cases questionsEnd packet (packet.be16 4) sizeofDnshdr with
    | none => exact List.forall_mem_nil _
    | some data => exact List.forall_mem_cons.mpr ⟨trivial, dumpAnswers_prints _ _ _⟩
  · rw [PrintsOnly, dumpMessage_of_query hqr, dumpQuery_outputs, List.forall_mem_cons,
      List.forall_mem_append]
    refine ⟨trivial, nameLines_print _ _, ?_⟩
    cases questionsEnd packet (packet.be16 4) sizeofDnshdr with
    | none => exact List.forall_mem_nil _
    | some data => exact List.forall_mem_singleton.mpr trivial

/-- Every dissector ends its block, DNS only for a message without an error code. -/
def endsBlock (d : Dissector) (packet : Packet) : Bool :=
  d.name != "dns" || (packet.byte 3).toNat % 16 == 0

omit [Memory] in
/-- A dump that tests its packet first prints what it prints for a packet it handles. -/
theorem outputs_guarded {handles : Dump Bool} (h : handles.value = true)
    (hs : handles.outputs = []) (body : Dump Unit) :
    (do if ← handles then body else return : Dump Unit).outputs = body.outputs := by
  rw [Traced.outputs_bind, hs, if_pos h, List.nil_append]

omit [Memory] in
theorem marks_append (lines lines' : List Line) :
    marks name (lines ++ lines') = marks name lines ++ marks name lines' := List.filterMap_append

private theorem marks_tcp (h : tcp.handles packet = true) :
    marks name (tcp.dump packet) = block name true := by
  have hdump : tcp.dump packet = _ := outputs_guarded h outputs_tcpDissectorHandles _
  rw [hdump, Traced.outputs_bind, Traced.outputs_bind, outputs_tcpDissectorGetPacketType]
  rfl

omit [Memory] in
private theorem marks_http (h : http.handles packet = true) :
    marks name (http.dump packet) = block name true := by
  have hh : httpDissectorHandles packet = true := h
  have htext : marks name ((parsed (packet.data.getD [])).calls.map (onPiece (packet.data.getD []))) =
      [] := by
    apply marks_of_texts
    intro line hline
    obtain ⟨call, -, rfl⟩ := List.mem_map.mp hline
    exact onPiece_isText _ call
  change marks name (httpDissectorDump packet) = _
  rw [httpDissectorDump, if_pos hh, marks_append, marks_append, htext]
  rfl

theorem marks_dns (h : dns.handles packet = true) :
    marks name (dns.dump packet) = block name ((packet.byte 3).toNat % 16 == 0) := by
  have hdump : dns.dump packet = _ := dnsDissectorDump_outputs h
  have hbody : marks name (dumpMessage packet).outputs = [] := marks_of_texts name dumpMessage_prints
  rw [hdump, marks_append]
  by_cases hcode : (packet.byte 3).toNat % 16 = 0
  · rw [if_neg (not_not.mpr hcode), marks_append, hbody, hcode]
    rfl
  · rw [if_pos hcode, beq_false_of_ne hcode]
    rfl

/-- What a dissector marks when it dumps a packet it handles. -/
theorem marks_dump {d : Dissector} (hd : d ∈ mainOrder) (h : d.handles packet = true) :
    marks d.name (d.dump packet) = block d.name (endsBlock d packet) := by
  simp only [mainOrder, List.mem_cons, List.not_mem_nil, or_false] at hd
  rcases hd with rfl | rfl | rfl | rfl | rfl | rfl | rfl | rfl | rfl
  · have hdump : ethernet.dump packet = _ := outputs_guarded h outputs_ethernetDissectorHandles _
    rw [hdump]
    rfl
  · have hdump : ip.dump packet = _ := outputs_guarded h outputs_ipDissectorHandles _
    rw [hdump]
    rfl
  · have hdump : arp.dump packet = _ := outputs_guarded h (outputs_handlesHint _ _) _
    rw [hdump]
    rfl
  · have hdump : udp.dump packet = _ := outputs_guarded h (outputs_handlesHint _ _) _
    rw [hdump]
    rfl
  · have hdump : dhcp.dump packet = _ := outputs_guarded h outputs_dhcpDissectorHandles _
    rw [hdump]
    rfl
  · exact marks_dns _ h
  · have hdump : icmp.dump packet = _ := outputs_guarded h (outputs_handlesHint _ _) _
    rw [hdump]
    rfl
  · exact marks_tcp _ h
  · exact marks_http _ h

theorem eq_dns_of_not_endsBlock {d : Dissector} (hd : d ∈ mainOrder)
    (h : endsBlock d packet = false) : d = dns ∧ (packet.byte 3).toNat % 16 ≠ 0 := by
  simp only [endsBlock, Bool.or_eq_false_iff, bne_eq_false_iff_eq, beq_eq_false_iff_ne] at h
  refine ⟨?_, h.2⟩
  simp only [mainOrder, List.mem_cons, List.not_mem_nil, or_false] at hd
  rcases hd with rfl | rfl | rfl | rfl | rfl | rfl | rfl | rfl | rfl
  · exact absurd h.1 (show "Ethernet" ≠ "dns" by decide)
  · exact absurd h.1 (show "IP" ≠ "dns" by decide)
  · exact absurd h.1 (show "arp" ≠ "dns" by decide)
  · exact absurd h.1 (show "udp" ≠ "dns" by decide)
  · exact absurd h.1 (show "DHCP" ≠ "dns" by decide)
  · rfl
  · exact absurd h.1 (show "icmp" ≠ "dns" by decide)
  · exact absurd h.1 (show "tcp" ≠ "dns" by decide)
  · exact absurd h.1 (show "http" ≠ "dns" by decide)

end Dumps

section Walk
variable [Memory] [CircularLinkedList]

theorem handles_of_dumped {packet : Packet} {d : Dissector} {p : Ref}
    (h : (d, p) ∈ dumps (osiDumpPacketTrace mainStack packet)) :
    d ∈ mainOrder ∧ d.handles p.packet = true := by
  rw [dumps_trace, List.mem_filterMap] at h
  obtain ⟨v, hv, hdumped⟩ := h
  obtain ⟨htaker, rfl⟩ := Visit.dumped_eq_some.mp hdumped
  rw [taker_first hv, mainStack, nodes_registered] at htaker
  have hfind := List.find?_some htaker
  simp only [findDissectorByPacket, Bool.and_eq_true] at hfind
  exact ⟨List.mem_of_find?_eq_some htaker, hfind.2⟩

/-- The blocks that a walk prints, with whether each is ended. -/
def blocks (trace : List Event) : List (String × Bool) :=
  (dumps trace).map fun d => (d.1.name, endsBlock d.1 d.2.packet)

private theorem walkMarks_eq (packet : Packet) : walkMarks (osiDumpPacketTrace mainStack packet) =
    (blocks (osiDumpPacketTrace mainStack packet)).flatMap fun b => block b.1 b.2 := by
  rw [walkMarks, blocks, List.flatMap_map]
  apply List.flatMap_congr
  intro d hd
  obtain ⟨hmem, hp⟩ := handles_of_dumped hd
  exact marks_dump hmem hp

theorem closed_runMarks_iff (frames : List Bytes) : Closed (runMarks frames) ↔
    ∀ frame ∈ frames, ∀ d ∈ dumps (osiDumpPacketTrace mainStack (Packet.ofFrame frame)),
      endsBlock d.1 d.2.packet = true := by
  have hblocks : runMarks frames = (frames.flatMap fun frame =>
      blocks (osiDumpPacketTrace mainStack (Packet.ofFrame frame))).flatMap fun b => block b.1 b.2 := by
    rw [runMarks, List.flatMap_assoc]
    apply List.flatMap_congr
    intro frame _
    exact walkMarks_eq _
  rw [hblocks, closed_flatMap_block_iff]
  simp only [List.mem_flatMap, blocks, List.mem_map]
  constructor
  · intro h frame hframe d hd
    exact h _ ⟨frame, hframe, d, hd, rfl⟩
  · intro h b hb
    obtain ⟨frame, hframe, d, hd, rfl⟩ := hb
    exact h frame hframe d hd

/-- A frame that is shown as a DNS message with an error code. -/
def ShowsErrorCode (frame : Bytes) : Prop :=
  ethernet.handles (Packet.ofFrame frame) = true ∧ ¬ LooksLikeDhcp (frame.drop (headers frame)) ∧
    dns.handles (applicationPacket frame) = true ∧
      ((applicationPacket frame).byte 3).toNat % 16 ≠ 0

section Accepted
variable {frame : Bytes} (ha : ethernet.handles (Packet.ofFrame frame) = true)
include ha

/-- DNS takes at layer 7 what it accepts and DHCP does not. -/
theorem seventhVisit_dns_iff : (seventhVisit mainOrder (Packet.ofFrame frame)).taker = some dns ↔
    ¬ LooksLikeDhcp (frame.drop (headers frame)) ∧ dns.handles (applicationPacket frame) = true := by
  have hdata : (applicationPacket frame).data = some (frame.drop (headers frame)) := rfl
  rw [seventhVisit_find ha, atLayer_7, ← dhcp_handles_iff hdata]
  simp only [List.find?_cons, List.find?_nil]
  have hdhcp_ne : dhcp ≠ dns := by
    intro h
    exact absurd (congrArg Dissector.name h) (show "DHCP" ≠ "dns" by decide)
  have hhttp_ne : http ≠ dns := by
    intro h
    exact absurd (congrArg Dissector.name h) (show "http" ≠ "dns" by decide)
  cases dhcp.handles (applicationPacket frame) with
  | true => simp [hdhcp_ne]
  | false =>
    cases dns.handles (applicationPacket frame) with
    | true => simp
    | false => cases http.handles (applicationPacket frame) <;> simp [hhttp_ne]

theorem mem_dumps_dns {p : Ref} :
    (dns, p) ∈ dumps (osiDumpPacketTrace mainStack (Packet.ofFrame frame)) ↔
      (¬ LooksLikeDhcp (frame.drop (headers frame)) ∧
        dns.handles (applicationPacket frame) = true) ∧
        p = (seventhVisit mainOrder (Packet.ofFrame frame)).packet := by
  rw [mainStack, mem_dumps_layer7 (List.Perm.refl mainOrder) ha rfl, Visit.dumped_eq_some,
    seventhVisit_dns_iff ha]
  exact and_congr_right fun _ => eq_comm

end Accepted

/-- A frame's blocks are all ended unless it is shown as an error. -/
theorem endsBlocks_iff (frame : Bytes) :
    (∀ d ∈ dumps (osiDumpPacketTrace mainStack (Packet.ofFrame frame)),
      endsBlock d.1 d.2.packet = true) ↔ ¬ ShowsErrorCode frame := by
  cases ha : ethernet.handles (Packet.ofFrame frame) with
  | false =>
    have hnil : dumps (osiDumpPacketTrace mainStack (Packet.ofFrame frame)) = [] :=
      dumps_of_rejected (List.Perm.refl mainOrder) ha
    rw [hnil]
    refine iff_of_true (fun d hd => absurd hd List.not_mem_nil) ?_
    intro hshows
    rw [hshows.1] at ha
    contradiction
  | true =>
    have hpacket := seventhVisit_anatomy (List.Perm.refl mainOrder) ha
    constructor
    · intro hall hshows
      obtain ⟨-, hdhcp, hdns, hcode⟩ := hshows
      have hends := hall _ ((mem_dumps_dns ha).mpr ⟨⟨hdhcp, hdns⟩, rfl⟩)
      rw [hpacket] at hends
      simp only [endsBlock, Bool.or_eq_true, bne_iff_ne, beq_iff_eq] at hends
      exact hends.elim (fun hname => hname rfl) hcode
    · intro hshows d hd
      by_contra hopen
      obtain ⟨hmem, hp⟩ := handles_of_dumped hd
      obtain ⟨d, p⟩ := d
      obtain ⟨rfl, hcode⟩ := eq_dns_of_not_endsBlock hmem (Bool.not_eq_true _ ▸ hopen)
      obtain ⟨htaken, rfl⟩ := (mem_dumps_dns ha).mp hd
      rw [hpacket] at hcode
      exact hshows ⟨ha, htaken.1, htaken.2, hcode⟩

/-- A run ends every colour before it opens the next exactly when none of its frames is
shown as a DNS message with an error code. -/
theorem closed_iff (frames : List Bytes) :
    Closed (runMarks frames) ↔ ∀ frame ∈ frames, ¬ ShowsErrorCode frame := by
  rw [closed_runMarks_iff]
  apply forall_congr'
  intro frame
  rw [endsBlocks_iff]

end Walk

/-- A response with code 3, in a datagram from port 53. -/
def errorFrame : Bytes :=
  encapsulate loopbackEthernet (loopbackIp 40) (.udp ⟨53, 1024, 20, 0⟩)
    [0x12, 0x34, 0x81, 0x83, 0, 0, 0, 0, 0, 0, 0, 0]

/-- The colour of the DNS block is open when the walk over the frame ends. -/
theorem errorFrame_not_closed :
    ¬ ∀ (_ : Memory) (_ : CircularLinkedList) (frames : List Bytes), Closed (runMarks frames) := by
  intro h
  let _ := zeroMemory
  let _ := plainList
  have hshows : ShowsErrorCode errorFrame := by
    have hheaders : headers errorFrame = 42 := by decide +kernel
    refine ⟨by decide +kernel, ?_, by decide +kernel, by decide +kernel⟩
    rw [hheaders]
    intro hlooks
    exact absurd hlooks.2.1 (by decide)
  have hclosed := (closed_runMarks_iff [errorFrame]).mp (h zeroMemory plainList [errorFrame])
  exact (endsBlocks_iff errorFrame).mp (hclosed errorFrame List.mem_cons_self) hshows

end OpenSniffer.Colours
