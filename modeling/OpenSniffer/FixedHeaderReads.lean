import OpenSniffer.FixedHeaderDissectors

/-!
# What the fixed-header dissectors read

Behind their guards the four dissectors stay inside the packet, and a hardware address fits
the buffer it is printed from. The loop over the ICMP types has the size of its table in
bytes for a bound: it stays inside the table exactly for the types that are in it.
-/
namespace OpenSniffer.FixedHeaderReads
open Packets TextFormats FixedHeaderDissectors TracedReads TracedReads.Traced

inductive FixedHeader where
  | ethernet | arp | udp | icmp
  deriving DecidableEq

def ethStringLen : ℕ := 17

/-- The code of a type that is in the table. -/
def Listed (code : ℕ) : Prop := ∃ entry ∈ types, entry.1 = code

section Reads
variable [Memory]

namespace FixedHeader

def handles : FixedHeader → Packet → Dump Bool
  | .ethernet => ethernetDissectorHandles
  | .arp => arpDissectorHandles
  | .udp => udpDissectorHandles
  | .icmp => icmpDissectorHandles

def dump : FixedHeader → Packet → Dump Unit
  | .ethernet => ethernetDissectorDump
  | .arp => arpDissectorDump
  | .udp => udpDissectorDump
  | .icmp => icmpDissectorDump

def decapsulate : FixedHeader → Packet → Dump (Option Packet)
  | .ethernet => ethernetDissectorDecapsulate
  | .arp => arpDissectorDecapsulate
  | .udp => udpDissectorDecapsulate
  | .icmp => icmpDissectorDecapsulate

/-- Where the hardware addresses stand that a dump shows. -/
def hwAddresses : FixedHeader → List ℕ
  | .ethernet => [6, 0]
  | .arp => [8, 18]
  | .udp | .icmp => []

/-- The entries of the ICMP type table that a dump looks at. -/
def tableReads (packet : Packet) : FixedHeader → List ℕ
  | .icmp => (icmpDissectorPacketTypeStringified (packet.byte 0).toNat).reads
  | _ => []

end FixedHeader

/-- The cells of the buffer `addr` that are read when an address is printed from it: the
text, and the zero byte behind it. -/
def addrReads (packet : Packet) (i : ℕ) : List ℕ :=
  List.range ((stringifyHwAddr packet i).value.length + 1)

/-- All reads of a dissector on a packet are inside the packet, or inside the buffer or the
table that they are made of, and a type that is not in the table is shown as unknown. -/
structure ReadsInRange (d : FixedHeader) (packet : Packet) : Prop where
  handles : (d.handles packet).ReadsWithin 0 packet.size
  dump : (d.dump packet).ReadsWithin 0 packet.size
  decapsulate : (d.decapsulate packet).ReadsWithin 0 packet.size
  buffer : ∀ i ∈ d.hwAddresses, ∀ cell ∈ addrReads packet i, cell < ethStringLen + 1
  table : ∀ entry ∈ d.tableReads packet, entry < types.length
  unknown : d = .icmp → ¬ Listed (packet.byte 0).toNat →
    (icmpDissectorPacketTypeStringified (packet.byte 0).toNat).value = .text icmpTypeUnknown

variable {packet : Packet}

omit [Memory] in
private theorem length_hexByte (b : UInt8) : (hexByte b).length = 2 := by
  simp [hexByte]

theorem length_stringifyHwAddr (i : ℕ) : (stringifyHwAddr packet i).value.length = ethStringLen := by
  have hvalue : (stringifyHwAddr packet i).value =
      ":".intercalate ((List.range' i 6).map fun j => hexByte (packet.byte j)) := by
    rw [stringifyHwAddr, Traced.value_bind, Traced.value_pure, value_loadRange, List.map_map]
    rfl
  have hcolon : ":".length = 1 := rfl
  rw [hvalue]
  simp [List.range'_succ, length_hexByte, hcolon, ethStringLen]

private theorem addrReads_lt (i : ℕ) : ∀ cell ∈ addrReads packet i, cell < ethStringLen + 1 := by
  intro cell hcell
  rw [addrReads, length_stringifyHwAddr, List.mem_range] at hcell
  exact hcell

theorem typeEntry_inside {i : ℕ} (hi : i < types.length) :
    typeEntry i = (types[i].1, .text types[i].2) := by
  rw [typeEntry, List.getElem?_eq_getElem hi]
  rfl

private theorem listed_iff (code : ℕ) : Listed code ↔ ∃ i < types.length, (typeEntry i).1 = code := by
  rw [Listed]
  constructor
  · intro h
    obtain ⟨entry, hentry, rfl⟩ := h
    obtain ⟨i, hi, rfl⟩ := List.mem_iff_getElem.mp hentry
    exact ⟨i, hi, by rw [typeEntry_inside hi]⟩
  · intro h
    obtain ⟨i, hi, rfl⟩ := h
    rw [typeEntry_inside hi]
    exact ⟨types[i], List.getElem_mem hi, rfl⟩

/-- One turn of the loop. -/
theorem typesFrom_succ_reads (code n i : ℕ) : (typesFrom code (n + 1) i).reads =
    i :: if (typeEntry i).1 = code then [] else (typesFrom code n (i + 1)).reads := by
  rw [typesFrom, Traced.reads_bind]
  by_cases h : (typeEntry i).1 = code
  · have hvalue : (load typeEntry i : Dump _).value.1 = code := h
    rw [if_pos h, if_pos hvalue]
    rfl
  · have hvalue : ¬ (load typeEntry i : Dump _).value.1 = code := h
    rw [if_neg h, if_neg hvalue]
    rfl

/-- The loop looks at no entry behind one that has the code. -/
theorem typesFrom_reads_le {code i j : ℕ} (n : ℕ) (hij : i ≤ j) (hcode : (typeEntry j).1 = code) :
    ∀ entry ∈ (typesFrom code n i).reads, entry ≤ j := by
  induction n generalizing i with
  | zero =>
    intro entry hentry
    exact absurd hentry List.not_mem_nil
  | succ n ih =>
    intro entry hentry
    rw [typesFrom_succ_reads] at hentry
    rcases List.mem_cons.mp hentry with rfl | hentry
    · exact hij
    · by_cases h : (typeEntry i).1 = code
      · rw [if_pos h] at hentry
        exact absurd hentry List.not_mem_nil
      · rw [if_neg h] at hentry
        have hne : i ≠ j := by
          rintro rfl
          exact h hcode
        exact ih (by omega) entry hentry

/-- The loop goes on to an entry if none before it has the code. -/
theorem mem_typesFrom_reads {code i j n : ℕ} (hij : i ≤ j) (hn : j < i + n)
    (hnone : ∀ k < j, (typeEntry k).1 ≠ code) : j ∈ (typesFrom code n i).reads := by
  induction n generalizing i with
  | zero => omega
  | succ n ih =>
    rw [typesFrom_succ_reads]
    rcases Nat.eq_or_lt_of_le hij with rfl | hlt
    · exact List.mem_cons_self
    · rw [if_neg (hnone i hlt)]
      exact List.mem_cons_of_mem _ (ih hlt (by omega))

/-- The entries that are looked at are the table's own exactly for a type that is in it. -/
theorem table_reads_iff (code : ℕ) :
    (∀ entry ∈ (icmpDissectorPacketTypeStringified code).reads, entry < types.length) ↔ Listed code := by
  rw [listed_iff]
  constructor
  · intro hreads
    by_contra hnone
    have hmem : types.length ∈ (icmpDissectorPacketTypeStringified code).reads := by
      apply mem_typesFrom_reads (Nat.zero_le _)
      · decide
      · intro k hk hcode
        exact hnone ⟨k, hk, hcode⟩
    exact Nat.lt_irrefl _ (hreads _ hmem)
  · intro h entry hentry
    obtain ⟨j, hj, hcode⟩ := h
    exact Nat.lt_of_le_of_lt (typesFrom_reads_le _ (Nat.zero_le j) hcode entry hentry) hj

omit [Memory] in
theorem handlesHint_reads (protocol header : ℕ) :
    (handlesHint protocol header packet).ReadsWithin 0 packet.size := by
  rw [handlesHint, readsWithin_ite]
  split <;> exact readsWithin_pure _

private theorem ethernet_reads (h : (ethernetDissectorHandles packet).value = true) :
    (ethernetDissectorHandles packet).ReadsWithin 0 packet.size ∧
      (ethernetDissectorDump packet).ReadsWithin 0 packet.size ∧
        (ethernetDissectorDecapsulate packet).ReadsWithin 0 packet.size := by
  have hsize := ((ethernetDissectorHandles_iff packet).mp h).2.1
  have hle := hsize
  rw [sizeofEtherHeader] at hsize
  have htype : (packet.load16 12).ReadsWithin 0 packet.size := by
    rw [Packet.readsWithin_load16]
    omega
  have hhandles : (ethernetDissectorHandles packet).ReadsWithin 0 packet.size := by
    simp only [ethernetDissectorHandles, readsWithin_ite, readsWithin_bind, readsWithin_pure, htype,
      and_self, ite_self]
  refine ⟨hhandles, ?_, ?_⟩
  · simp only [ethernetDissectorDump, readsWithin_bind, hhandles, h, if_true, outputHeader, outputFooter,
      printf, readsWithin_print, readsWithin_stringifyHwAddr, Nat.zero_le, true_and, and_true]
    omega
  · apply decapsulateWith_reads hhandles
    · exact readsWithin_pure _
    · simp only [ethernetDissectorGetHint, readsWithin_bind, readsWithin_pure, htype, and_self]
    · exact readsWithin_pure _
    · exact (Packet.behind_reads hle).mono (Nat.zero_le _) (Nat.le_refl _)

/-- What is behind a header of a fixed size is copied inside the packet. -/
theorem decapsulateHint_reads {protocol header : ℕ} {session : Packet → Dump (Option Session)}
    (hsize : header ≤ packet.size) (hsession : (session packet).ReadsWithin 0 packet.size) :
    (decapsulateWith (handlesHint protocol header) (fun _ => pure header) (fun _ => pure 0) session
      packet).ReadsWithin 0 packet.size := by
  apply decapsulateWith_reads (handlesHint_reads _ _)
  · exact readsWithin_pure _
  · exact readsWithin_pure _
  · exact hsession
  · exact (Packet.behind_reads hsize).mono (Nat.zero_le _) (Nat.le_refl _)

private theorem arp_reads (h : (arpDissectorHandles packet).value = true) :
    (arpDissectorDump packet).ReadsWithin 0 packet.size ∧
      (arpDissectorDecapsulate packet).ReadsWithin 0 packet.size := by
  have hsize := ((handlesHint_iff _ _ packet).mp h).2.2
  have hhandles : (arpDissectorHandles packet).ReadsWithin 0 packet.size := handlesHint_reads _ _
  refine ⟨?_, decapsulateHint_reads hsize (readsWithin_pure _)⟩
  rw [sizeofEtherArp] at hsize
  simp only [arpDissectorDump, readsWithin_bind, hhandles, h, if_true, outputHeader, outputFooter,
    printf, readsWithin_print, readsWithin_stringifyHwAddr, Nat.zero_le, true_and, and_true]
  omega

private theorem udp_reads (h : (udpDissectorHandles packet).value = true) :
    (udpDissectorDump packet).ReadsWithin 0 packet.size ∧
      (udpDissectorDecapsulate packet).ReadsWithin 0 packet.size := by
  have hsize := ((handlesHint_iff _ _ packet).mp h).2.2
  have hle := hsize
  rw [sizeofUdphdr] at hsize
  have hhandles : (udpDissectorHandles packet).ReadsWithin 0 packet.size := handlesHint_reads _ _
  constructor
  · simp only [udpDissectorDump, readsWithin_bind, hhandles, h, if_true, outputHeader, outputFooter,
      printf, readsWithin_print, Packet.readsWithin_load16, Nat.zero_le, true_and, and_true]
    omega
  · apply decapsulateHint_reads hle
    simp only [readsWithin_bind, Packet.readsWithin_load16, readsWithin_pure, and_true]
    omega

private theorem icmp_reads (h : (icmpDissectorHandles packet).value = true) :
    (icmpDissectorDump packet).ReadsWithin 0 packet.size ∧
      (icmpDissectorDecapsulate packet).ReadsWithin 0 packet.size := by
  have hsize := ((handlesHint_iff _ _ packet).mp h).2.2
  have hhandles : (icmpDissectorHandles packet).ReadsWithin 0 packet.size := handlesHint_reads _ _
  refine ⟨?_, decapsulateHint_reads hsize (readsWithin_pure _)⟩
  rw [sizeofIcmphdr] at hsize
  simp only [icmpDissectorDump, readsWithin_bind, hhandles, h, if_true, outputHeader, outputFooter,
    printf, readsWithin_print, Packet.readsWithin_load8, Packet.readsWithin_load16, Nat.zero_le,
    true_and, and_true]
  omega

/-- Behind the guard no dissector leaves the packet. -/
theorem packet_reads {d : FixedHeader} (h : (d.handles packet).value = true) :
    (d.handles packet).ReadsWithin 0 packet.size ∧ (d.dump packet).ReadsWithin 0 packet.size ∧
      (d.decapsulate packet).ReadsWithin 0 packet.size := by
  cases d with
  | ethernet => exact ethernet_reads h
  | arp => exact ⟨handlesHint_reads _ _, arp_reads h⟩
  | udp => exact ⟨handlesHint_reads _ _, udp_reads h⟩
  | icmp => exact ⟨handlesHint_reads _ _, icmp_reads h⟩

/-- What keeps the loop inside the table for an ICMP packet does so for all four. -/
theorem tableReads_iff (d : FixedHeader) :
    (∀ entry ∈ d.tableReads packet, entry < types.length) ↔
      (d = .icmp → Listed (packet.byte 0).toNat) := by
  cases d with
  | ethernet => simp [FixedHeader.tableReads]
  | arp => simp [FixedHeader.tableReads]
  | udp => simp [FixedHeader.tableReads]
  | icmp =>
    have htable := table_reads_iff (packet.byte 0).toNat
    simpa [FixedHeader.tableReads] using htable

/-- An accepted packet is dissected without a read out of range exactly when it is not an
ICMP packet with a type that is not in the table. -/
theorem readsInRange_iff {d : FixedHeader} (h : (d.handles packet).value = true) :
    ReadsInRange d packet ↔ (d = .icmp → Listed (packet.byte 0).toNat) := by
  constructor
  · intro hrange
    exact (tableReads_iff d).mp hrange.table
  · intro hlisted
    obtain ⟨hhandles, hdump, hdecapsulate⟩ := packet_reads h
    refine ⟨hhandles, hdump, hdecapsulate, ?_, (tableReads_iff d).mpr hlisted, ?_⟩
    · intro i _
      exact addrReads_lt i
    · intro hicmp hunlisted
      exact absurd (hlisted hicmp) hunlisted

end Reads

def unnamedType : Packet where
  data := some [1, 0, 0, 0, 0, 0, 0, 0]
  size := 8
  protocol := ipProtoIcmp
  session := none
  sized := by simp

theorem readsInRange_iff_unnamedType : let _ := zeroMemory
    ReadsInRange .icmp unnamedType ↔
      (FixedHeader.icmp = .icmp → Listed (unnamedType.byte 0).toNat) := by
  intro _
  exact readsInRange_iff (by decide)

/-- The loop leaves the table: the type is in none of its entries. -/
theorem unnamedType_not_inRange : ¬ ∀ (_ : Memory) (d : FixedHeader) (packet : Packet),
    (d.handles packet).value = true → ReadsInRange d packet := by
  intro h
  let _ := zeroMemory
  have hrange := h zeroMemory .icmp unnamedType (by decide)
  have hlisted : Listed 1 := (table_reads_iff 1).mp hrange.table
  rw [Listed] at hlisted
  exact absurd hlisted (by decide)

end OpenSniffer.FixedHeaderReads
