import OpenSniffer.DhcpDissector
import OpenSniffer.DnsExpansion

/-!
# DNS

The fields of `struct dnshdr` are bit fields, laid out here as a little-endian
compiler does: `rd`, `tc`, `aa`, `opcode` and `qr` from the low bit of byte 2 up, and
`rcode`, `cd`, `ad`, `unused` and `ra` in byte 3. The dump moves a cursor through the
message: past the question names, past the fields of one question, and from answer to
answer.
-/
namespace OpenSniffer.DnsDissector
open Packets OsiStack TextFormats DnsExpansion TracedReads TracedReads.Traced

def sizeofDnshdr : ℕ := 12
def sizeofDnsQuery : ℕ := 4
def sizeofDnsResourceRecord : ℕ := 10
def maxNameLength : ℕ := 256

def nsTA : ℕ := 1
def nsTNs : ℕ := 2
def nsTCname : ℕ := 5
def nsTAaaa : ℕ := 28

def nsTypes : List (ℕ × String) := [
  (0, "Invalid"), (nsTA, "A"), (nsTNs, "NS"), (3, "MD"), (4, "MF"), (nsTCname, "CNAME"),
  (6, "SOA"), (7, "MB"), (8, "MG"), (9, "MR"), (10, "NULL"), (11, "WKS"), (12, "PTR"),
  (13, "HINFO"), (14, "MINFO"), (15, "MX"), (16, "TXT"), (17, "RP"), (18, "AFSDB"),
  (19, "X25"), (20, "ISDN"), (21, "RT"), (22, "NSAP"), (23, "NSAP_PTR"), (24, "SIG"),
  (25, "KEY"), (26, "PX"), (27, "GPOS"), (nsTAaaa, "AAAA"), (29, "LOC"), (30, "NXT"),
  (31, "EID"), (32, "NIMLOC"), (33, "SRV"), (34, "ATMA"), (35, "NAPTR"), (36, "KX"),
  (37, "CERT"), (38, "A6"), (39, "DNAME"), (40, "SINK"), (41, "OPT"), (42, "APL"),
  (249, "TKEY"), (250, "TSIG"), (251, "IXFR"), (252, "AXFR"), (253, "MAILB"), (254, "MAILA"),
  (255, "ANY"), (256, "ZXFR"), (65536, "MAX")]

def dnsDissectorTypeToString (type : ℕ) : String :=
  ((nsTypes.find? fun entry => entry.1 == type).map Prod.snd).getD "Invalid"

def dnsPacketTypeQuery : String := "QUERY"
def dnsPacketTypeResponse : String := "RESPONSE"

section Dissector
variable [Memory]

def qr (packet : Packet) : Dump ℕ := do
  return (← packet.load8 2) / 128

def rcode (packet : Packet) : Dump ℕ := do
  return (← packet.load8 3) % 16

def unused (packet : Packet) : Dump ℕ := do
  return (← packet.load8 3) / 64 % 2

def qcount (packet : Packet) : Dump ℕ := do
  return ntohs (← packet.load16 4)

def ancount (packet : Packet) : Dump ℕ := do
  return ntohs (← packet.load16 6)

def nscount (packet : Packet) : Dump ℕ := do
  return ntohs (← packet.load16 8)

def arcount (packet : Packet) : Dump ℕ := do
  return ntohs (← packet.load16 10)

/-- `NS_GET16`, without the move of the cursor. -/
def nsGet16 (packet : Packet) (data : ℕ) : Dump ℕ := do
  return (← packet.load8 data) * 256 + (← packet.load8 (data + 1))

def nsGet32 (packet : Packet) (data : ℕ) : Dump ℕ := do
  return (← nsGet16 packet data) * 2 ^ 16 + (← nsGet16 packet (data + 2))

def strlen (packet : Packet) (data : ℕ) : Dump ℕ := scan packet.image (fun b => b == 0) data

/-- The address is read most significant byte first and `ntohl` turns it back, so
`inet_ntoa` gets the four bytes in order. -/
def aRr (packet : Packet) (data : ℕ) : Dump String := do
  let address ← loadRange packet.byte data 4
  return inetNtoa address.1

def aaaaRr (packet : Packet) (data : ℕ) : Dump String := do
  let address ← loadRange packet.byte data 16
  return inetNtop address.1

/-- The name as a string, or a null pointer, and where the cursor goes. -/
def cnameRr (packet : Packet) (base fin data : ℕ) : Dump (Arg × ℕ) := do
  match ← dnExpand packet base fin data maxNameLength with
  | (some sizeOfName, nsName) => return (.str (some (cString nsName)), data + sizeOfName)
  | (none, _) => return (.str none, data)

def dnsDissectorTypeOfPacket (packet : Packet) : Dump String := do
  if (← qr packet) ≠ 0 then return dnsPacketTypeResponse else return dnsPacketTypeQuery

def getMinimumPacketSize (packet : Packet) : Dump ℕ := do
  let questions ← qcount packet
  let answers ← ancount packet
  let requiredSize := sizeofDnshdr + questions * sizeofDnsQuery
  if (← qr packet) ≠ 0 then return requiredSize + answers * sizeofDnsResourceRecord
  else return requiredSize

/-- The loop over the questions, the same in both functions but for its text, with
`n` questions to go. `none` is the return on an invalid name. -/
def dumpQuestions (packet : Packet) (format : String) : ℕ → ℕ → Dump (Option ℕ)
  | 0, data => return some data
  | n + 1, data => do
    if data < packet.size then
      match ← dnExpand packet sizeofDnshdr packet.size data maxNameLength with
      | (some size, buffer) =>
        printf format [.str (some (cString buffer))]
        dumpQuestions packet format n (data + size)
      | (none, _) => return none
    else return some data

def dnsDissectorDumpQueryPacket (packet : Packet) : Dump Unit := do
  let questions ← qcount packet
  printf "# of questions : %d\n" [.int questions]
  match ← dumpQuestions packet "Query : %s\n" questions sizeofDnshdr with
  | none => return
  | some data =>
    let type ← nsGet16 packet data
    printf "Query type : %s (%u)\n" [.text (dnsDissectorTypeToString type), .int type]

def aliasFormat : String := "Alias : %s\n"

/-- The `switch` on the type of an answer whose data is at `data`. The result is the
cursor after it, or `none` where another type ends the function. -/
def dumpAnswerData (packet : Packet) (type data : ℕ) : Dump (Option ℕ) := do
  if type = nsTA then
    printf "IPv4 address : %s\n" [.text (← aRr packet data)]
    return some (data + 4)
  else if type = nsTAaaa then
    printf "IPv6 address : %s\n" [.text (← aaaaRr packet data)]
    return some (data + 16)
  else if type = nsTNs ∨ type = nsTCname then
    let (name, data) ← cnameRr packet sizeofDnshdr packet.size data
    printf aliasFormat [name]
    return some data
  else return none

/-- One answer: its number from 0, and the cursor. -/
def dumpAnswer (packet : Packet) (i data : ℕ) : Dump (Option ℕ) := do
  let sizeOfName ← strlen packet data
  let data := data + sizeOfName
  let type ← nsGet16 packet data
  let _class ← nsGet16 packet (data + 2)
  let _ttl ← nsGet32 packet (data + 4)
  let _len ← nsGet16 packet (data + 8)
  let data := data + sizeofDnsResourceRecord
  printf (underlined "Response #%zu (%s)\n") [.int (i + 1), .text (dnsDissectorTypeToString type)]
  dumpAnswerData packet type data

/-- The loop over the answers, with `n` answers to go. -/
def dumpAnswers (packet : Packet) : ℕ → ℕ → ℕ → Dump Unit
  | 0, _, _ => return
  | n + 1, i, data => do
    if data < packet.size then
      match ← dumpAnswer packet i data with
      | some data => dumpAnswers packet n (i + 1) data
      | none => return
    else return

def dnsDissectorDumpResponsePacket (packet : Packet) : Dump Unit := do
  let questions ← qcount packet
  let answers ← ancount packet
  printf "Response code : %d\n" [.int (← rcode packet)]
  printf "# of questions : %d\n" [.int questions]
  printf "# of answers : %d\n" [.int answers]
  printf "# of authoritative servers : %d\n" [.int (← nscount packet)]
  printf "# of additional records : %d\n" [.int (← arcount packet)]
  match ← dumpQuestions packet "Query address : %s\n" questions sizeofDnshdr with
  | none => return
  | some data =>
    let type ← nsGet16 packet data
    let _class ← nsGet16 packet (data + 2)
    printf "Query type : %s (%u)\n" [.text (dnsDissectorTypeToString type), .int type]
    dumpAnswers packet answers 0 (data + 4)

def dnsDissectorHandles (packet : Packet) : Dump Bool := do
  if packet.data = none ∨ packet.size < sizeofDnshdr ∨ packet.session = none then return false
  else
    let questions ← qcount packet
    let answers ← ancount packet
    if (← unused packet) ≠ 0 ∨ (← rcode packet) > 5 ∨ questions > 5 ∨ answers > 10 then return false
    else
      let requiredSize ← getMinimumPacketSize packet
      if packet.size < requiredSize then return false else return true

/-- What follows the two header lines of a message without an error code. -/
def dumpMessage (packet : Packet) : Dump Unit := do
  if (← qr packet) ≠ 0 then dnsDissectorDumpResponsePacket packet
  else dnsDissectorDumpQueryPacket packet

def dnsDissectorDump (packet : Packet) : Dump Unit := do
  if ← dnsDissectorHandles packet then
    outputHeader lightBlue 20 "DNS Header" "  " 21
    printf "Identifier : %d\n" [.int (ntohs (← packet.load16 0))]
    printf "Type of packet : %s\n" [.text (← dnsDissectorTypeOfPacket packet)]
    if (← rcode packet) ≠ 0 then
      printf "An error response was received from the remote server\n" []
    else do
      dumpMessage packet
      outputFooter
  else return

def dnsDissectorDecapsulate (_ : Packet) : Option Packet := none

def dns : Dissector where
  layer := osiLayer7
  name := "dns"
  handles packet := (dnsDissectorHandles packet).value
  decapsulate := dnsDissectorDecapsulate
  dump packet := (dnsDissectorDump packet).outputs

section Fields
variable (packet : Packet)

@[simp] theorem value_qr : (qr packet).value = (packet.byte 2).toNat / 128 := rfl
@[simp] theorem value_rcode : (rcode packet).value = (packet.byte 3).toNat % 16 := rfl
@[simp] theorem value_unused : (unused packet).value = (packet.byte 3).toNat / 64 % 2 := rfl
@[simp] theorem value_qcount : (qcount packet).value = packet.be16 4 := packet.ntohs_le16 4
@[simp] theorem value_ancount : (ancount packet).value = packet.be16 6 := packet.ntohs_le16 6
@[simp] theorem value_nscount : (nscount packet).value = packet.be16 8 := packet.ntohs_le16 8
@[simp] theorem value_arcount : (arcount packet).value = packet.be16 10 := packet.ntohs_le16 10
@[simp] theorem value_nsGet16 (data : ℕ) : (nsGet16 packet data).value = packet.be16 data := rfl

@[simp] theorem outputs_qr : (qr packet).outputs = [] := rfl
@[simp] theorem outputs_rcode : (rcode packet).outputs = [] := rfl
@[simp] theorem outputs_unused : (unused packet).outputs = [] := rfl
@[simp] theorem outputs_qcount : (qcount packet).outputs = [] := rfl
@[simp] theorem outputs_ancount : (ancount packet).outputs = [] := rfl
@[simp] theorem outputs_nscount : (nscount packet).outputs = [] := rfl
@[simp] theorem outputs_arcount : (arcount packet).outputs = [] := rfl
@[simp] theorem outputs_nsGet16 (data : ℕ) : (nsGet16 packet data).outputs = [] := rfl
@[simp] theorem outputs_nsGet32 (data : ℕ) : (nsGet32 packet data).outputs = [] := rfl
@[simp] theorem outputs_strlen (data : ℕ) : (strlen packet data).outputs = [] := rfl
@[simp] theorem outputs_aRr (data : ℕ) : (aRr packet data).outputs = [] := rfl
@[simp] theorem outputs_aaaaRr (data : ℕ) : (aaaaRr packet data).outputs = [] := rfl

private theorem outputs_getMinimumPacketSize : (getMinimumPacketSize packet).outputs = [] := by
  simp [getMinimumPacketSize]

theorem outputs_dnsDissectorHandles : (dnsDissectorHandles packet).outputs = [] := by
  simp only [dnsDissectorHandles, Traced.outputs_ite, Traced.outputs_bind, Traced.outputs_pure,
    outputs_unused, outputs_rcode, outputs_qcount, outputs_ancount, outputs_getMinimumPacketSize,
    List.append_nil, ite_self]

theorem outputs_dnsDissectorTypeOfPacket : (dnsDissectorTypeOfPacket packet).outputs = [] := by
  simp [dnsDissectorTypeOfPacket]

end Fields

/-- The sizes and counts that `dns_dissector_handles` admits. -/
structure Admitted (packet : Packet) : Prop where
  header : sizeofDnshdr ≤ packet.size
  session : packet.session ≠ none
  reserved : (packet.byte 3).toNat / 64 % 2 = 0
  code : (packet.byte 3).toNat % 16 ≤ 5
  questions : packet.be16 4 ≤ 5
  answers : packet.be16 6 ≤ 10
  room : sizeofDnshdr + packet.be16 4 * sizeofDnsQuery +
    (if (packet.byte 2).toNat / 128 ≠ 0 then packet.be16 6 * sizeofDnsResourceRecord else 0) ≤
      packet.size

private theorem value_getMinimumPacketSize (packet : Packet) :
    (getMinimumPacketSize packet).value = sizeofDnshdr + packet.be16 4 * sizeofDnsQuery +
      (if (packet.byte 2).toNat / 128 ≠ 0 then packet.be16 6 * sizeofDnsResourceRecord else 0) := by
  simp only [getMinimumPacketSize, Traced.value_bind, Traced.value_ite, Traced.value_pure]
  simp only [value_qr, value_qcount, value_ancount]
  split <;> rfl

theorem dnsDissectorHandles_iff (packet : Packet) :
    (dnsDissectorHandles packet).value = true ↔ packet.data ≠ none ∧ Admitted packet := by
  rw [dnsDissectorHandles, value_reject_iff, not_or, not_or, and_assoc, Traced.value_bind,
    Traced.value_bind, Traced.value_bind, Traced.value_bind, value_reject_iff, Traced.value_bind,
    value_reject_iff, value_getMinimumPacketSize, value_unused, value_rcode, value_qcount,
    value_ancount, Traced.value_pure]
  simp only [not_or, Nat.not_lt, not_not, and_true]
  apply and_congr_right
  intro _
  constructor
  · intro hall
    obtain ⟨⟨hs, hsession⟩, ⟨hreserved, hcode, hquestions, hanswers⟩, hroom⟩ := hall
    exact ⟨hs, hsession, hreserved, hcode, hquestions, hanswers, hroom⟩
  · intro h
    exact ⟨⟨h.header, h.session⟩, ⟨h.reserved, h.code, h.questions, h.answers⟩, h.room⟩

end Dissector
end OpenSniffer.DnsDissector
