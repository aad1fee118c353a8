import OpenSniffer.VariableHeaderDissectors

/-!
# DHCP

Field offsets are those of the packed `struct dhcphdr`. The guard is the size of a
pointer to it.
-/
namespace OpenSniffer.DhcpDissector
open Packets OsiStack TextFormats VariableHeaderDissectors TracedReads TracedReads.Traced

def hwTypes : List (ℕ × String) := [
  (1, "Ethernet"),
  (6, "IEEE 802 Networks"),
  (7, "ARCNET"),
  (11, "LocalTalk"),
  (12, "LocalNet"),
  (14, "SMDS"),
  (15, "Frame Relay"),
  (16, "ATM"),
  (17, "HDLC"),
  (18, "Fibre Channel"),
  (19, "ATM"),
  (20, "Serial Line")]

def dhcpUnknownHwType : String := "Unknown"

def opToString (op : ℕ) : String := if op = 1 then "Request" else "Reply"

def hwTypeToString (type : ℕ) : String :=
  ((hwTypes.find? fun entry => entry.1 == type).map Prod.snd).getD dhcpUnknownHwType

section Dissector
variable [Memory]

def dhcpDissectorHandles (packet : Packet) : Dump Bool := do
  if packet.data = none ∨ packet.size < sizeofPointer then return false
  else
    let op ← packet.load8 0
    let htype ← packet.load8 1
    if (op ≠ 1 ∧ op ≠ 2) ∨ htype > 20 then return false else return true

def dhcpDissectorDump (packet : Packet) : Dump Unit := do
  if ← dhcpDissectorHandles packet then
    outputHeader lightCyan 19 "DHCP Header" " " 22
    printf "Type : %s\n" [.text (opToString (← packet.load8 0))]
    printf "Hardware type : %s\n" [.text (hwTypeToString (← packet.load8 1))]
    printf "XID : %x\n" [.int (ntohl (← packet.load32 4))]
    printf "CIADDR : %s\n" [.text (← ipToString packet 12)]
    printf "YIADDR : %s\n" [.text (← ipToString packet 16)]
    printf "SIADDR : %s\n" [.text (← ipToString packet 20)]
    printf "Client address : %s\n" [.text (← stringifyHwAddr packet 28)]
    outputFooter
  else return

def dhcpDissectorDecapsulate (_ : Packet) : Option Packet := none

def dhcp : Dissector where
  layer := osiLayer7
  name := "DHCP"
  handles packet := (dhcpDissectorHandles packet).value
  decapsulate := dhcpDissectorDecapsulate
  dump packet := (dhcpDissectorDump packet).outputs

theorem dhcpDissectorHandles_iff (packet : Packet) :
    (dhcpDissectorHandles packet).value = true ↔ packet.data ≠ none ∧ sizeofPointer ≤ packet.size ∧
      ((packet.byte 0).toNat = 1 ∨ (packet.byte 0).toNat = 2) ∧ (packet.byte 1).toNat ≤ 20 := by
  have hop : ∀ op : ℕ, ¬ (op ≠ 1 ∧ op ≠ 2) ↔ op = 1 ∨ op = 2 := fun op => by omega
  rw [dhcpDissectorHandles, value_reject_iff, not_or, Nat.not_lt, Traced.value_bind, Traced.value_bind,
    value_reject_iff, not_or, hop, Nat.not_lt, Packet.value_load8, Packet.value_load8, and_assoc]
  simp

end Dissector
end OpenSniffer.DhcpDissector
