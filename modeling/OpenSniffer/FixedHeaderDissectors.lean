import OpenSniffer.OsiStack
import OpenSniffer.TextFormats

/-!
# The dissectors whose header has a fixed size: Ethernet, ARP, UDP and ICMP

Field offsets are those of `struct ether_header`, `struct ether_arp`, `struct udphdr`
and `struct icmphdr`.
-/
namespace OpenSniffer.FixedHeaderDissectors
open Packets OsiStack TextFormats TracedReads TracedReads.Traced

def sizeofEtherHeader : ℕ := 14
def sizeofEtherArp : ℕ := 28
def sizeofUdphdr : ℕ := 8
def sizeofIcmphdr : ℕ := 8

def etherTypeIp : ℕ := 0x0800
def etherTypeArp : ℕ := 0x0806
def ipProtoIcmp : ℕ := 1
def ipProtoTcp : ℕ := 6
def ipProtoUdp : ℕ := 17

section Dissectors
variable [Memory]

def ethernetDissectorHandles (packet : Packet) : Dump Bool := do
  if packet.data = none ∨ packet.size < sizeofEtherHeader then return false
  else
    let type := ntohs (← packet.load16 12)
    if type < 0x0200 ∨ type > 0x9000 then return false else return true

def ethernetDissectorDump (packet : Packet) : Dump Unit := do
  if ← ethernetDissectorHandles packet then
    outputHeader blue 17 "Ethernet Header" "  " 19
    printf "Ethernet source address : %s\n" [.text (← stringifyHwAddr packet 6)]
    printf "Ethernet destination address : %s\n" [.text (← stringifyHwAddr packet 0)]
    outputFooter
  else return

def ethernetDissectorGetHint (packet : Packet) : Dump ℕ := do
  return ntohs (← packet.load16 12)

def ethernetDissectorDecapsulate : Packet → Dump (Option Packet) :=
  decapsulateWith ethernetDissectorHandles (fun _ => pure sizeofEtherHeader) ethernetDissectorGetHint
    (fun _ => pure none)

def ethernet : Dissector where
  layer := osiLayer1
  name := "Ethernet"
  handles packet := (ethernetDissectorHandles packet).value
  decapsulate packet := (ethernetDissectorDecapsulate packet).value
  dump packet := (ethernetDissectorDump packet).outputs

theorem ethernetDissectorHandles_iff (packet : Packet) :
    (ethernetDissectorHandles packet).value = true ↔ packet.data ≠ none ∧
      sizeofEtherHeader ≤ packet.size ∧ 0x0200 ≤ packet.be16 12 ∧ packet.be16 12 ≤ 0x9000 := by
  rw [ethernetDissectorHandles, value_reject_iff, not_or, Nat.not_lt, and_assoc, Traced.value_bind,
    value_reject_iff, not_or, Nat.not_lt, Nat.not_lt, Packet.value_load16, Packet.ntohs_le16]
  simp

/-- A packet is handled for its hint and a minimum size alone: ARP, UDP and ICMP. -/
def handlesHint (protocol header : ℕ) (packet : Packet) : Dump Bool := do
  if packet.data = none ∨ packet.protocol ≠ protocol ∨ packet.size < header then return false
  else return true

def arpDissectorHandles : Packet → Dump Bool := handlesHint etherTypeArp sizeofEtherArp

def arpDissectorDump (packet : Packet) : Dump Unit := do
  if ← arpDissectorHandles packet then
    outputHeader yellow 19 "ARP Header" "  " 22
    printf "ARP Sender Hardware address : %s\n" [.text (← stringifyHwAddr packet 8)]
    printf "ARP Target Hardware address : %s\n" [.text (← stringifyHwAddr packet 18)]
    outputFooter
  else return

def arpDissectorDecapsulate : Packet → Dump (Option Packet) :=
  decapsulateWith arpDissectorHandles (fun _ => pure sizeofEtherArp) (fun _ => pure 0)
    (fun _ => pure none)

def arp : Dissector where
  layer := osiLayer2
  name := "arp"
  handles packet := (arpDissectorHandles packet).value
  decapsulate packet := (arpDissectorDecapsulate packet).value
  dump packet := (arpDissectorDump packet).outputs

omit [Memory] in
theorem handlesHint_iff (protocol header : ℕ) (packet : Packet) :
    (handlesHint protocol header packet).value = true ↔
      packet.data ≠ none ∧ packet.protocol = protocol ∧ header ≤ packet.size := by
  rw [handlesHint, value_reject_iff, not_or, not_or, not_not, Nat.not_lt]
  simp

def udpDissectorHandles : Packet → Dump Bool := handlesHint ipProtoUdp sizeofUdphdr

def udpDissectorDump (packet : Packet) : Dump Unit := do
  if ← udpDissectorHandles packet then
    outputHeader red 21 "UDP Header" "  " 20
    printf "UDP source port : %d\n" [.int (ntohs (← packet.load16 0))]
    printf "UDP destination port : %d\n" [.int (ntohs (← packet.load16 2))]
    outputFooter
  else return

/-- The session's ports stay in network order, and every datagram gets id 0. -/
def udpDissectorDecapsulate : Packet → Dump (Option Packet) :=
  decapsulateWith udpDissectorHandles (fun _ => pure sizeofUdphdr) (fun _ => pure 0)
    (fun packet => do
      let source ← packet.load16 0
      let dest ← packet.load16 2
      return some (osiCreateSession 0 source dest))

def udp : Dissector where
  layer := osiLayer3
  name := "udp"
  handles packet := (udpDissectorHandles packet).value
  decapsulate packet := (udpDissectorDecapsulate packet).value
  dump packet := (udpDissectorDump packet).outputs

def types : List (ℕ × String) := [
  (0, "ICMP_ECHOREPLY"),
  (3, "ICMP_DEST_UNREACH"),
  (4, "ICMP_SOURCE_QUENCH"),
  (5, "ICMP_REDIRECT"),
  (8, "ICMP_ECHO"),
  (11, "ICMP_TIME_EXCEEDED"),
  (12, "ICMP_PARAMETERPROB"),
  (13, "ICMP_TIMESTAMP"),
  (14, "ICMP_TIMESTAMPREPLY"),
  (15, "ICMP_INFO_REQUEST"),
  (16, "ICMP_INFO_REPLY"),
  (17, "ICMP_ADDRESS"),
  (18, "ICMP_ADDRESSREPLY")]

def icmpTypeUnknown : String := "ICMP_TYPE_UNKNOWN"

/-- An entry is a byte and a pointer, sixteen bytes with padding. -/
def sizeofTypes : ℕ := 16 * types.length

def typeEntry (i : ℕ) : ℕ × Arg :=
  (types[i]?.map fun entry => (entry.1, Arg.text entry.2)).getD (Memory.pastTypes i)

/-- The loop over the table from index `i`, with `n` indices to go. It records the
table entries it looks at. -/
def typesFrom (code : ℕ) : ℕ → ℕ → Dump Arg
  | 0, _ => return .text icmpTypeUnknown
  | n + 1, i => do
    let entry ← load typeEntry i
    if entry.1 = code then return entry.2
    else typesFrom code n (i + 1)

/-- The bound of the loop is the table's size in bytes, not its number of entries. -/
def icmpDissectorPacketTypeStringified (code : ℕ) : Dump Arg := typesFrom code sizeofTypes 0

def icmpDissectorHandles : Packet → Dump Bool := handlesHint ipProtoIcmp sizeofIcmphdr

def icmpDissectorDump (packet : Packet) : Dump Unit := do
  if ← icmpDissectorHandles packet then
    outputHeader magenta 20 "ICMP Header" "  " 21
    printf "Packet type : %s\n" [(icmpDissectorPacketTypeStringified (← packet.load8 0)).value]
    printf "Packet code : %d\n" [.int (← packet.load8 1)]
    printf "Checksum : 0x%x\n" [.int (ntohs (← packet.load16 2))]
    outputFooter
  else return

def icmpDissectorDecapsulate : Packet → Dump (Option Packet) :=
  decapsulateWith icmpDissectorHandles (fun _ => pure sizeofIcmphdr) (fun _ => pure 0)
    (fun _ => pure none)

def icmp : Dissector where
  layer := osiLayer3
  name := "icmp"
  handles packet := (icmpDissectorHandles packet).value
  decapsulate packet := (icmpDissectorDecapsulate packet).value
  dump packet := (icmpDissectorDump packet).outputs

end Dissectors
end OpenSniffer.FixedHeaderDissectors
