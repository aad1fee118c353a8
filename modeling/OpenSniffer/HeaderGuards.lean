import OpenSniffer.Encapsulation

/-!
# What the guards of IP, TCP and DHCP admit

The three dissectors test the size of a pointer where the size of the header is meant; IP
and TCP also a length that the packet declares. An accepted packet of these two holds its
header exactly when it declares five words or more, and one of DHCP what is shown of it
exactly when it has 34 bytes.
-/
namespace OpenSniffer.HeaderGuards
open Packets OsiStack TextFormats FixedHeaderDissectors VariableHeaderDissectors DhcpDissector
  TracedReads TracedReads.Traced

/-- The bytes of a header without options, IP's and TCP's alike. -/
def fixedHeader : ℕ := 20

section Guards
variable [Memory]

/-- A packet holds its header: it has the fixed header's bytes, the header it declares
covers them and ends inside it, nothing is read behind it, and what is left when the header
is removed has none of them. -/
structure HoldsHeader (handles : Packet → Dump Bool) (dump : Packet → Dump Unit)
    (decapsulate : Packet → Dump (Option Packet)) (declared : ℕ) (packet : Packet) : Prop where
  size : fixedHeader ≤ packet.size
  covers : fixedHeader ≤ declared
  inside : declared ≤ packet.size
  handles_reads : (handles packet).ReadsWithin 0 packet.size
  dump_reads : (dump packet).ReadsWithin 0 packet.size
  decapsulate_reads : (decapsulate packet).ReadsWithin 0 packet.size
  payload : ∃ p bytes n, (decapsulate packet).value = some p ∧ packet.data = some bytes ∧
    fixedHeader ≤ n ∧ p.data = some (bytes.drop n)

def IpHoldsHeader (packet : Packet) : Prop :=
  HoldsHeader ipDissectorHandles ipDissectorDump ipDissectorDecapsulate (ipHeaderSize packet) packet

def TcpHoldsHeader (packet : Packet) : Prop :=
  HoldsHeader tcpDissectorHandles tcpDissectorDump tcpDissectorDecapsulate (tcpHeaderSize packet) packet

variable {packet : Packet}

section Ip
variable (hsize : fixedHeader ≤ packet.size)
include hsize

theorem ipDissectorHandles_reads : (ipDissectorHandles packet).ReadsWithin 0 packet.size := by
  have hzero : 0 < packet.size := by
    rw [fixedHeader] at hsize
    omega
  simp only [ipDissectorHandles, ihl, version, readsWithin_ite, readsWithin_bind, readsWithin_pure,
    Packet.readsWithin_load8, hzero, Nat.le_refl, and_self, ite_self]

private theorem ipDissectorDump_reads : (ipDissectorDump packet).ReadsWithin 0 packet.size := by
  have hhandles := ipDissectorHandles_reads hsize
  simp only [fixedHeader] at hsize
  simp only [ipDissectorDump, readsWithin_bind, readsWithin_ite, hhandles, outputHeader, outputFooter,
    printf, readsWithin_print, readsWithin_ipToString, Packet.readsWithin_load16, readsWithin_pure,
    true_and, Nat.zero_le, and_true]
  split
  · omega
  · exact trivial

private theorem ipDissectorDecapsulate_reads (hinside : ipHeaderSize packet ≤ packet.size) :
    (ipDissectorDecapsulate packet).ReadsWithin 0 packet.size := by
  have hfirst : 0 < packet.size ∧ 9 < packet.size := by
    rw [fixedHeader] at hsize
    omega
  apply decapsulateWith_reads
  · exact ipDissectorHandles_reads hsize
  · simp [ihl, hfirst]
  · simp [ipDissectorGetHint, hfirst]
  · exact readsWithin_pure _
  · exact (Packet.behind_reads hinside).mono (Nat.zero_le _) (Nat.le_refl _)

end Ip

/-- IP holds its header exactly when the packet declares five words or more. -/
theorem ipHoldsHeader_iff (h : (ipDissectorHandles packet).value = true) :
    IpHoldsHeader packet ↔ 5 ≤ (packet.byte 0).toNat % 16 := by
  have hinside := ((ipDissectorHandles_iff packet).mp h).2.2.2.1
  constructor
  · intro hholds
    have hcovers := hholds.covers
    rw [ipHeaderSize, fixedHeader] at hcovers
    omega
  · intro hwords
    have hcovers : fixedHeader ≤ ipHeaderSize packet := by
      rw [ipHeaderSize, fixedHeader]
      omega
    have hsize := hcovers.trans hinside
    obtain ⟨bytes, hbytes⟩ := Option.ne_none_iff_exists'.mp ((ipDissectorHandles_iff packet).mp h).1
    refine ⟨hsize, hcovers, hinside, ipDissectorHandles_reads hsize, ipDissectorDump_reads hsize,
      ipDissectorDecapsulate_reads hsize hinside, _, bytes, ipHeaderSize packet,
      MainStack.ip_decapsulate h, hbytes, hcovers, ?_⟩
    exact Packet.behind_data hbytes hinside

section Tcp
variable (hsize : fixedHeader ≤ packet.size)
include hsize

theorem doff_reads : (doff packet).ReadsWithin 0 packet.size := by
  simp only [fixedHeader] at hsize
  simp only [doff, readsWithin_bind, readsWithin_pure, Packet.readsWithin_load8, and_true]
  omega

theorem tcpDissectorHandles_reads : (tcpDissectorHandles packet).ReadsWithin 0 packet.size := by
  simp only [tcpDissectorHandles, readsWithin_ite, readsWithin_bind, readsWithin_pure,
    doff_reads hsize, and_self, ite_self]

/-- The flags are read as the word that also holds the data offset. -/
theorem tcpDissectorGetPacketType_reads :
    (tcpDissectorGetPacketType packet).ReadsWithin 0 packet.size := by
  have hflag : ∀ flag, (tcpHasFlag packet flag).ReadsWithin 0 packet.size := by
    intro flag
    simp only [fixedHeader] at hsize
    simp only [tcpHasFlag, readsWithin_bind, readsWithin_pure, Packet.readsWithin_load32, and_true]
    omega
  simp only [tcpDissectorGetPacketType, readsWithin_bind, readsWithin_ite, readsWithin_pure, hflag,
    and_self, ite_self]

private theorem tcpDissectorDump_reads : (tcpDissectorDump packet).ReadsWithin 0 packet.size := by
  have hhandles := tcpDissectorHandles_reads hsize
  have htype := tcpDissectorGetPacketType_reads hsize
  have hdoff := doff_reads hsize
  simp only [fixedHeader] at hsize
  simp only [tcpDissectorDump, readsWithin_bind, readsWithin_ite, hhandles, htype, hdoff, outputHeader,
    outputFooter, printf, readsWithin_print, Packet.readsWithin_load16, Packet.readsWithin_load32,
    readsWithin_pure, true_and, Nat.zero_le, and_true]
  split
  · omega
  · exact trivial

private theorem tcpDissectorDecapsulate_reads (hinside : tcpHeaderSize packet ≤ packet.size) :
    (tcpDissectorDecapsulate packet).ReadsWithin 0 packet.size := by
  have hdoff := doff_reads hsize
  have htwenty := hsize
  simp only [fixedHeader] at htwenty
  apply decapsulateWith_reads
  · exact tcpDissectorHandles_reads hsize
  · simp only [readsWithin_bind, readsWithin_pure, hdoff, and_self]
  · exact readsWithin_pure _
  · simp only [readsWithin_bind, Packet.readsWithin_load32, Packet.readsWithin_load16, readsWithin_pure,
      and_true]
    omega
  · exact (Packet.behind_reads hinside).mono (Nat.zero_le _) (Nat.le_refl _)

end Tcp

/-- TCP holds its header exactly when the data offset is in the packet and counts five
words or more. -/
theorem tcpHoldsHeader_iff (h : (tcpDissectorHandles packet).value = true) :
    TcpHoldsHeader packet ↔ 12 < packet.size ∧ 5 ≤ (packet.byte 12).toNat / 16 := by
  have hinside := ((tcpDissectorHandles_iff packet).mp h).2.2.2
  constructor
  · intro hholds
    have hcovers := hholds.covers
    rw [tcpHeaderSize, fixedHeader] at hcovers
    rw [tcpHeaderSize] at hinside
    omega
  · intro hwords
    have hcovers : fixedHeader ≤ tcpHeaderSize packet := by
      rw [tcpHeaderSize, fixedHeader]
      omega
    have hle := Nat.le_of_lt hinside
    have hsize := hcovers.trans hle
    obtain ⟨bytes, hbytes⟩ := Option.ne_none_iff_exists'.mp ((tcpDissectorHandles_iff packet).mp h).1
    refine ⟨hsize, hcovers, hle, tcpDissectorHandles_reads hsize, tcpDissectorDump_reads hsize,
      tcpDissectorDecapsulate_reads hsize hle, _, bytes, tcpHeaderSize packet,
      MainStack.tcp_decapsulate h, hbytes, hcovers, ?_⟩
    exact Packet.behind_data hbytes hle

/-- An accepted packet holds its header exactly when it declares five words or more. -/
theorem holdsHeader_iff (packet : Packet) :
    ((ipDissectorHandles packet).value = true →
      (IpHoldsHeader packet ↔ 5 ≤ (packet.byte 0).toNat % 16)) ∧
    ((tcpDissectorHandles packet).value = true →
      (TcpHoldsHeader packet ↔ 12 < packet.size ∧ 5 ≤ (packet.byte 12).toNat / 16)) :=
  ⟨ipHoldsHeader_iff, tcpHoldsHeader_iff⟩

/-- Where the last byte that is shown ends: six bytes of the client's hardware address. -/
def dhcpShown : ℕ := 34

/-- The dump stays inside an accepted packet exactly when that has all the bytes it shows. -/
theorem dhcpDissectorDump_inside_iff (h : (dhcpDissectorHandles packet).value = true) :
    (dhcpDissectorDump packet).ReadsWithin 0 packet.size ↔ dhcpShown ≤ packet.size := by
  have hsize := ((dhcpDissectorHandles_iff packet).mp h).2.1
  rw [sizeofPointer] at hsize
  have hhandles : (dhcpDissectorHandles packet).ReadsWithin 0 packet.size := by
    have hop : 0 < packet.size := by omega
    have hhtype : 1 < packet.size := by omega
    simp only [dhcpDissectorHandles, readsWithin_ite, readsWithin_bind, readsWithin_pure,
      Packet.readsWithin_load8, hop, hhtype, Nat.zero_le, and_self, ite_self]
  simp only [dhcpDissectorDump, readsWithin_bind, hhandles, h, if_true, outputHeader, outputFooter,
    printf, readsWithin_print, Packet.readsWithin_load8, Packet.readsWithin_load32,
    readsWithin_ipToString, readsWithin_stringifyHwAddr, Nat.zero_le, true_and, and_true, dhcpShown]
  omega

end Guards

def shortIp : Packet where
  data := some [0x42, 0, 0, 8, 0, 0, 0, 0]
  size := 8
  protocol := etherTypeIp
  session := none
  sized := by simp

def shortTcp : Packet where
  data := some [4, 0, 0, 80, 0, 0, 0, 1]
  size := 8
  protocol := ipProtoTcp
  session := none
  sized := by simp

theorem holdsHeader_iff_short : let _ := zeroMemory
    (IpHoldsHeader shortIp ↔ 5 ≤ (shortIp.byte 0).toNat % 16) ∧
      (TcpHoldsHeader shortTcp ↔ 12 < shortTcp.size ∧ 5 ≤ (shortTcp.byte 12).toNat / 16) := by
  intro _
  exact ⟨(holdsHeader_iff shortIp).1 (by decide), (holdsHeader_iff shortTcp).2 (by decide)⟩

/-- Both are accepted, with eight bytes. -/
theorem short_not_holdsHeader : ¬ ∀ (_ : Memory) (packet : Packet),
    ((ipDissectorHandles packet).value = true → IpHoldsHeader packet) ∧
      ((tcpDissectorHandles packet).value = true → TcpHoldsHeader packet) := by
  intro h
  let _ := zeroMemory
  have hholds := (h zeroMemory shortIp).1 (by decide)
  exact absurd hholds.size (by decide)

/-- The first eight bytes of a request: they are accepted, for they are as many as a pointer
has. -/
def shortDhcp : Packet where
  data := some [1, 1, 6, 0, 0, 0, 0, 1]
  size := 8
  protocol := 0
  session := some (osiCreateSession 0 0 0)
  sized := by simp

theorem dhcpDissectorDump_inside_iff_short : let _ := zeroMemory
    (dhcpDissectorDump shortDhcp).ReadsWithin 0 shortDhcp.size ↔ dhcpShown ≤ shortDhcp.size := by
  intro _
  exact dhcpDissectorDump_inside_iff (by decide)

/-- The addresses of the short request are read behind it. -/
theorem shortDhcp_not_inside : ¬ ∀ (_ : Memory) (packet : Packet),
    (dhcpDissectorHandles packet).value = true →
      (dhcpDissectorDump packet).ReadsWithin 0 packet.size := by
  intro h
  let _ := zeroMemory
  have hread : 12 ∈ (dhcpDissectorDump shortDhcp).reads := by decide
  exact absurd (h zeroMemory shortDhcp (by decide) 12 hread).2 (by decide)

end OpenSniffer.HeaderGuards
