import OpenSniffer.FixedHeaderDissectors

/-!
# The dissectors that read their header's length from the packet: IP and TCP

Both guard the size of a pointer to the header, eight bytes, where the header itself
has twenty. The length fields, `ihl` in byte 0 and `doff` in byte 12, count words.
-/
namespace OpenSniffer.VariableHeaderDissectors
open Packets OsiStack TextFormats FixedHeaderDissectors TracedReads TracedReads.Traced

def sizeofPointer : ℕ := 8

section Dissectors
variable [Memory]

def ihl (packet : Packet) : Dump ℕ := do
  return (← packet.load8 0) % 16

def version (packet : Packet) : Dump ℕ := do
  return (← packet.load8 0) / 16

def ipDissectorHandles (packet : Packet) : Dump Bool := do
  if packet.data = none ∨ packet.size < sizeofPointer ∨ packet.protocol ≠ etherTypeIp then
    return false
  else
    let hdrSize := (← ihl packet) * 4
    let version ← version packet
    if packet.size < hdrSize ∨ (version ≠ 4 ∧ version ≠ 6) then return false else return true

def ipDissectorGetHint (packet : Packet) : Dump ℕ := packet.load8 9

def ipDissectorDump (packet : Packet) : Dump Unit := do
  if ← ipDissectorHandles packet then
    outputHeader green 20 "IP Header" "  " 22
    printf "Source address : %s\n" [.text (← ipToString packet 12)]
    printf "Destination address : %s\n" [.text (← ipToString packet 16)]
    printf "Checksum : 0x%x\n" [.int (ntohs (← packet.load16 10))]
    outputFooter
  else return

def ipDissectorDecapsulate : Packet → Dump (Option Packet) :=
  decapsulateWith ipDissectorHandles (fun packet => do return (← ihl packet) * 4) ipDissectorGetHint
    (fun _ => pure none)

def ip : Dissector where
  layer := osiLayer2
  name := "IP"
  handles packet := (ipDissectorHandles packet).value
  decapsulate packet := (ipDissectorDecapsulate packet).value
  dump packet := (ipDissectorDump packet).outputs

def ipHeaderSize (packet : Packet) : ℕ := (packet.byte 0).toNat % 16 * 4

theorem ipDissectorHandles_iff (packet : Packet) :
    (ipDissectorHandles packet).value = true ↔ packet.data ≠ none ∧ sizeofPointer ≤ packet.size ∧
      packet.protocol = etherTypeIp ∧ ipHeaderSize packet ≤ packet.size ∧
        ((packet.byte 0).toNat / 16 = 4 ∨ (packet.byte 0).toNat / 16 = 6) := by
  have hversion : ∀ v : ℕ, ¬ (v ≠ 4 ∧ v ≠ 6) ↔ v = 4 ∨ v = 6 := fun v => by omega
  rw [ipDissectorHandles, value_reject_iff, not_or, not_or, Nat.not_lt, not_not, and_assoc, and_assoc]
  simp only [Traced.value_bind, value_reject_iff, not_or, Nat.not_lt, hversion, Traced.value_pure, and_true]
  rfl

/-- `tcp_flag_word` with the mask of a flag, given in network order. -/
def tcpHasFlag (packet : Packet) (flag : ℕ) : Dump Bool := do
  return (← packet.load32 12) &&& ntohl flag != 0

def tcpFlagFin : ℕ := 0x00010000
def tcpFlagSyn : ℕ := 0x00020000
def tcpFlagRst : ℕ := 0x00040000
def tcpFlagPsh : ℕ := 0x00080000
def tcpFlagAck : ℕ := 0x00100000

/-- The tests are chained, so the first flag found is the only one named. -/
def tcpDissectorGetPacketType (packet : Packet) : Dump String := do
  if ← tcpHasFlag packet tcpFlagFin then return "FIN "
  else if ← tcpHasFlag packet tcpFlagRst then return "RST "
  else if ← tcpHasFlag packet tcpFlagPsh then return "PSH "
  else if ← tcpHasFlag packet tcpFlagSyn then return "SYN "
  else if ← tcpHasFlag packet tcpFlagAck then return "ACK "
  else return ""

def doff (packet : Packet) : Dump ℕ := do
  return (← packet.load8 12) / 16

def tcpDissectorHandles (packet : Packet) : Dump Bool := do
  if packet.data = none ∨ packet.size < sizeofPointer ∨ packet.protocol ≠ ipProtoTcp then
    return false
  else
    let size := (← doff packet) * 4
    if packet.size ≤ size then return false else return true

def tcpDissectorDump (packet : Packet) : Dump Unit := do
  if ← tcpDissectorHandles packet then
    outputHeader cyan 21 "TCP Header" " " 21
    printf "Packet type : %s\n" [.text (← tcpDissectorGetPacketType packet)]
    printf "Source port : %u\n" [.int (ntohs (← packet.load16 0))]
    printf "Destination port : %u\n" [.int (ntohs (← packet.load16 2))]
    printf "Sequence number : %u\n" [.int (ntohs (← packet.load32 4))]
    printf "Acknowledgement number : %u\n" [.int (ntohs (← packet.load32 8))]
    printf "Header length : %u bytes\n" [.int (ntohs ((← doff packet) * 4))]
    outputFooter
  else return

def tcpDissectorDecapsulate : Packet → Dump (Option Packet) :=
  decapsulateWith tcpDissectorHandles (fun packet => do return (← doff packet) * 4)
    (fun _ => pure 0)
    (fun packet => do
      let seq ← packet.load32 4
      let source ← packet.load16 0
      let dest ← packet.load16 2
      return some (osiCreateSession seq source dest))

def tcp : Dissector where
  layer := osiLayer3
  name := "tcp"
  handles packet := (tcpDissectorHandles packet).value
  decapsulate packet := (tcpDissectorDecapsulate packet).value
  dump packet := (tcpDissectorDump packet).outputs

def tcpHeaderSize (packet : Packet) : ℕ := (packet.byte 12).toNat / 16 * 4

theorem tcpDissectorHandles_iff (packet : Packet) :
    (tcpDissectorHandles packet).value = true ↔ packet.data ≠ none ∧ sizeofPointer ≤ packet.size ∧
      packet.protocol = ipProtoTcp ∧ tcpHeaderSize packet < packet.size := by
  rw [tcpDissectorHandles, value_reject_iff, not_or, not_or, Nat.not_lt, not_not, and_assoc, and_assoc]
  simp only [Traced.value_bind, value_reject_iff, Nat.not_le, Traced.value_pure, and_true]
  rfl

end Dissectors
end OpenSniffer.VariableHeaderDissectors
