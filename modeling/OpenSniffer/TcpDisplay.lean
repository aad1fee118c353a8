import OpenSniffer.Colours
import OpenSniffer.Encapsulation
import Mathlib.Data.Nat.Bitwise

/-!
# What the TCP dump shows of a header

The dump shows both ports as they were sent. Of the two numbers it shows the upper half,
for `ntohs` takes two of their four bytes. It names the first flag that it tests, and no
other. The length is in host order before its bytes are swapped, so no header has its length
shown.
-/
namespace OpenSniffer.TcpDisplay
open Packets TextFormats Encapsulation FixedHeaderDissectors VariableHeaderDissectors Colours
  TracedReads TracedReads.Traced

inductive Flag where
  | fin | syn | rst | psh | ack
  deriving DecidableEq

namespace Flag

def bit : Flag → ℕ
  | .fin => 0
  | .syn => 1
  | .rst => 2
  | .psh => 3
  | .ack => 4

def name : Flag → String
  | .fin => "FIN "
  | .syn => "SYN "
  | .rst => "RST "
  | .psh => "PSH "
  | .ack => "ACK "

def mask : Flag → ℕ
  | .fin => tcpFlagFin
  | .syn => tcpFlagSyn
  | .rst => tcpFlagRst
  | .psh => tcpFlagPsh
  | .ack => tcpFlagAck

theorem bit_lt (f : Flag) : f.bit < 8 := by
  cases f <;> decide

/-- In host order, the flags stand in the second byte of their word. -/
theorem ntohl_mask (f : Flag) : ntohl f.mask = 2 ^ (8 + f.bit) := by
  cases f <;> rfl

theorem length_name (f : Flag) : f.name.length = 4 := by
  cases f <;> rfl

end Flag

/-- The flags in the order in which they are tested. -/
def tested : List Flag := [.fin, .rst, .psh, .syn, .ack]

def names (flags : List Flag) : String := String.join (flags.map Flag.name)

def sets (t : TcpHeader) (f : Flag) : Bool := t.flags.toNat.testBit f.bit

/-- A text that names each flag of the header once and no other flag. -/
def NamesFlags (t : TcpHeader) (type : String) : Prop :=
  ∃ flags : List Flag, flags.Nodup ∧ (∀ f, f ∈ flags ↔ sets t f = true) ∧ type = names flags

theorem length_names (flags : List Flag) : (names flags).length = flags.length * 4 := by
  have hfour : String.length ∘ Flag.name = fun _ => 4 := by
    funext f
    exact f.length_name
  rw [names, String.length_join, List.map_map, hfour, List.map_const',
    List.sum_replicate_nat]

private theorem mem_tested (f : Flag) : f ∈ tested := by
  cases f <;> decide

/-- The first flag that is set names them all exactly if there is no other. -/
theorem namesFlags_first_iff (t : TcpHeader) :
    NamesFlags t (names (tested.find? (sets t)).toList) ↔
      ∀ f g, sets t f = true → sets t g = true → f = g := by
  constructor
  · intro h f g hf hg
    obtain ⟨flags, -, hflags, hnames⟩ := h
    have hlen := congrArg String.length hnames
    rw [length_names, length_names] at hlen
    have hle : (tested.find? (sets t)).toList.length ≤ 1 := Option.length_toList_le
    obtain ⟨flag, rfl⟩ : ∃ flag, flags = [flag] := by
      apply List.length_eq_one_iff.mp
      have hpos := List.length_pos_of_mem ((hflags f).mpr hf)
      omega
    rw [List.mem_singleton.mp ((hflags f).mpr hf), List.mem_singleton.mp ((hflags g).mpr hg)]
  · intro h
    refine ⟨_, ?_, ?_, rfl⟩
    · cases tested.find? (sets t) <;> simp
    · intro f
      rw [Option.mem_toList]
      constructor
      · intro hfind
        exact List.find?_some hfind
      · intro hf
        obtain ⟨g, hg⟩ := Option.isSome_iff_exists.mp
          (List.find?_isSome.mpr ⟨f, mem_tested f, hf⟩)
        rw [hg, h f g hf (List.find?_some hg)]

section Dump
variable [Memory] {packet : Packet}

theorem tcpHasFlag_value (f : Flag) :
    (tcpHasFlag packet f.mask).value = (packet.byte 13).toNat.testBit f.bit := by
  have hlow := (packet.byte 12).toNat_lt
  have hflags := (packet.byte 13).toNat_lt
  have hbit : 8 ≤ 8 + f.bit := by omega
  have hload : (packet.load32 12).value =
      2 ^ 8 * (2 ^ 8 * packet.le16 14 + (packet.byte 13).toNat) + (packet.byte 12).toNat := by
    simp only [Packet.value_load32, Packet.le16, Nat.reduceAdd]
    omega
  have htest : (packet.load32 12).value.testBit (8 + f.bit) = (packet.byte 13).toNat.testBit f.bit := by
    rw [hload, Nat.testBit_two_pow_mul_add _ hlow, if_neg (Nat.not_lt.mpr hbit), Nat.add_sub_cancel_left,
      Nat.testBit_two_pow_mul_add _ hflags, if_pos f.bit_lt]
  have hvalue : (tcpHasFlag packet f.mask).value =
      ((packet.load32 12).value &&& ntohl f.mask != 0) := rfl
  rw [hvalue, f.ntohl_mask, Nat.and_two_pow, htest]
  cases (packet.byte 13).toNat.testBit f.bit <;> simp

/-- Only the first flag is named. -/
theorem tcpDissectorGetPacketType_value : (tcpDissectorGetPacketType packet).value =
    names (tested.find? fun f => (packet.byte 13).toNat.testBit f.bit).toList := by
  have hfin : (tcpHasFlag packet tcpFlagFin).value = _ := tcpHasFlag_value .fin
  have hrst : (tcpHasFlag packet tcpFlagRst).value = _ := tcpHasFlag_value .rst
  have hpsh : (tcpHasFlag packet tcpFlagPsh).value = _ := tcpHasFlag_value .psh
  have hsyn : (tcpHasFlag packet tcpFlagSyn).value = _ := tcpHasFlag_value .syn
  have hack : (tcpHasFlag packet tcpFlagAck).value = _ := tcpHasFlag_value .ack
  simp only [tcpDissectorGetPacketType, Traced.value_bind, Traced.value_ite, Traced.value_pure, hfin,
    hrst, hpsh, hsyn, hack, tested, List.find?_cons]
  cases (packet.byte 13).toNat.testBit Flag.fin.bit with
  | true => rfl
  | false =>
    cases (packet.byte 13).toNat.testBit Flag.rst.bit with
    | true => rfl
    | false =>
      cases (packet.byte 13).toNat.testBit Flag.psh.bit with
      | true => rfl
      | false =>
        cases (packet.byte 13).toNat.testBit Flag.syn.bit with
        | true => rfl
        | false => cases (packet.byte 13).toNat.testBit Flag.ack.bit <;> rfl

/-- The lines of a dump with these values. -/
def shown (type : String) (source dest seq ackSeq length : ℕ) : List Line :=
  (outputHeader cyan 21 "TCP Header" " " 21).outputs ++ [
    .printf "Packet type : %s\n" [.text type],
    .printf "Source port : %u\n" [.int source],
    .printf "Destination port : %u\n" [.int dest],
    .printf "Sequence number : %u\n" [.int seq],
    .printf "Acknowledgement number : %u\n" [.int ackSeq],
    .printf "Header length : %u bytes\n" [.int length]] ++ outputFooter.outputs

/-- `ntohs` takes the lower half of a number of 32 bits. -/
theorem ntohs_load32 (i : ℕ) : ntohs (packet.load32 i).value = packet.be16 i := by
  rw [Packet.value_load32, ← Packet.ntohs_le16, ntohs, ntohs]
  omega

private theorem ntohs_doff : ntohs ((doff packet).value * 4) = tcpHeaderSize packet * 256 := by
  have hbyte := (packet.byte 12).toNat_lt
  have hdoff : (doff packet).value * 4 = tcpHeaderSize packet := rfl
  rw [hdoff, ntohs, tcpHeaderSize]
  omega

theorem dump_shown (h : tcp.handles packet = true) : tcp.dump packet =
    shown (names (tested.find? fun f => (packet.byte 13).toNat.testBit f.bit).toList) (packet.be16 0)
      (packet.be16 2) (packet.be16 4) (packet.be16 8) (tcpHeaderSize packet * 256) := by
  have hdump : tcp.dump packet = _ := outputs_guarded h outputs_tcpDissectorHandles _
  rw [hdump, ← tcpDissectorGetPacketType_value, ← Packet.ntohs_le16, ← Packet.ntohs_le16, ← ntohs_load32 4,
    ← ntohs_load32 8, ← ntohs_doff, Traced.outputs_bind, Traced.outputs_bind,
    outputs_tcpDissectorGetPacketType]
  rfl

end Dump

def bigEndian (bytes : Bytes) : ℕ := bytes.foldl (fun n b => n * 256 + b.toNat) 0

/-- The dump shows the header: its ports, both numbers, its length, and its flags. -/
def ShowsHeader [Memory] (packet : Packet) (t : TcpHeader) : Prop :=
  ∃ type, NamesFlags t type ∧ tcp.dump packet = shown type t.source.toNat t.dest.toNat
    (bigEndian t.seq.1) (bigEndian t.ackSeq.1) (t.options.headerWords * 4)

section Sent
variable [Memory] {packet : Packet} {t : TcpHeader} {payload : Bytes}

theorem bigEndian_of_holds {i : ℕ} {bytes : Octets 4} (h : Holds packet.byte i bytes.1) :
    bigEndian bytes.1 = packet.be16 i * 65536 + packet.be16 (i + 2) := by
  rw [holds_iff_map, bytes.2] at h
  have hvalue : bigEndian bytes.1 =
      (((packet.byte i).toNat * 256 + (packet.byte (i + 1)).toNat) * 256 +
        (packet.byte (i + 2)).toNat) * 256 + (packet.byte (i + 3)).toNat := by
    rw [← h]
    simp [bigEndian, List.range'_succ]
  rw [hvalue, Packet.be16, Packet.be16, Nat.add_assoc i 2 1]
  omega

private theorem fields_wire (hd : packet.data = some (t.wire ++ payload)) :
    packet.be16 0 = t.source.toNat ∧ packet.be16 2 = t.dest.toNat ∧
      packet.be16 4 = bigEndian t.seq.1 / 65536 ∧ packet.be16 8 = bigEndian t.ackSeq.1 / 65536 ∧
        packet.byte 13 = t.flags := by
  have hholds := Packet.holds_data hd
  simp only [TcpHeader.wire, holds_append, holds_cons, List.length_append, length_word,
    t.seq.2, t.ackSeq.2, Nat.reduceAdd, and_assoc] at hholds
  obtain ⟨hsource, hdest, hseq, hackSeq, -, hflags, -⟩ := hholds
  have hhalf : ∀ i, (packet.be16 i * 65536 + packet.be16 (i + 2)) / 65536 = packet.be16 i := by
    intro i
    have hlow := packet.be16_lt (i + 2)
    omega
  refine ⟨Packet.be16_of_holds hsource t.source.toNat_lt, Packet.be16_of_holds hdest t.dest.toNat_lt,
    ?_, ?_, hflags⟩
  · rw [bigEndian_of_holds hseq, hhalf]
  · rw [bigEndian_of_holds hackSeq, hhalf]

/-- What is printed of a header that was sent. -/
theorem dump_sent (hd : packet.data = some (t.wire ++ payload)) (hp : packet.protocol = ipProtoTcp)
    (hpayload : payload ≠ []) : tcp.dump packet =
      shown (names (tested.find? (sets t)).toList) t.source.toNat t.dest.toNat
        (bigEndian t.seq.1 / 65536) (bigEndian t.ackSeq.1 / 65536)
        (t.options.headerWords * 4 * 256) := by
  obtain ⟨hsize, hhandles⟩ := tcp_handles_wire hd hp
  obtain ⟨hsource, hdest, hseq, hackSeq, hflags⟩ := fields_wire hd
  rw [dump_shown (hhandles.mpr hpayload), hsource, hdest, hseq, hackSeq, hflags, hsize]
  rfl

omit [Memory] in
theorem shown_inj {type type' : String} {source source' dest dest' seq seq' ackSeq ackSeq' n n' : ℕ} :
    shown type source dest seq ackSeq n = shown type' source' dest' seq' ackSeq' n' ↔
      type = type' ∧ source = source' ∧ dest = dest' ∧ seq = seq' ∧ ackSeq = ackSeq' ∧ n = n' := by
  simp [shown]

/-- Which lines tell what was sent: those of the ports always, those of the numbers if
these are zero, that of the flags if there are not two, and that of the length never. -/
theorem lines_sent (hd : packet.data = some (t.wire ++ payload)) (hp : packet.protocol = ipProtoTcp)
    (hpayload : payload ≠ []) {type : String} {source dest seq ackSeq n : ℕ}
    (h : tcp.dump packet = shown type source dest seq ackSeq n) :
    source = t.source.toNat ∧ dest = t.dest.toNat ∧
      (seq = bigEndian t.seq.1 ↔ bigEndian t.seq.1 = 0) ∧
      (ackSeq = bigEndian t.ackSeq.1 ↔ bigEndian t.ackSeq.1 = 0) ∧
      (NamesFlags t type ↔ ∀ f g, sets t f = true → sets t g = true → f = g) ∧
      n ≠ t.options.headerWords * 4 := by
  obtain ⟨hwords, -⟩ := t.options.headerWords_lt
  rw [dump_sent hd hp hpayload, shown_inj] at h
  obtain ⟨rfl, rfl, rfl, rfl, rfl, rfl⟩ := h
  refine ⟨rfl, rfl, ?_, ?_, namesFlags_first_iff t, ?_⟩
  · omega
  · omega
  · omega

/-- No dump shows the header that was sent. -/
theorem not_showsHeader (hd : packet.data = some (t.wire ++ payload))
    (hp : packet.protocol = ipProtoTcp) (hpayload : payload ≠ []) : ¬ ShowsHeader packet t := by
  intro h
  obtain ⟨type, -, hdump⟩ := h
  exact (lines_sent hd hp hpayload hdump).2.2.2.2.2 rfl

end Sent

def segment : Packet where
  data := some (acknowledgement.wire ++ [1])
  size := (acknowledgement.wire ++ [1]).length
  protocol := ipProtoTcp
  session := none
  sized := by simp

theorem not_showsHeader_segment : let _ := zeroMemory
    ¬ ShowsHeader segment acknowledgement := by
  intro _
  exact not_showsHeader rfl rfl (List.cons_ne_nil 1 [])

/-- The length of twenty bytes is shown as 5120. -/
theorem segment_misread : ¬ ∀ (_ : Memory) (packet : Packet) (t : TcpHeader) (payload : Bytes),
    packet.data = some (t.wire ++ payload) → packet.protocol = ipProtoTcp → payload ≠ [] →
      ShowsHeader packet t := by
  intro h
  let _ := zeroMemory
  obtain ⟨type, -, hdump⟩ := h zeroMemory segment acknowledgement [1] rfl rfl (List.cons_ne_nil 1 [])
  rw [dump_sent rfl rfl (List.cons_ne_nil 1 []), shown_inj] at hdump
  exact absurd hdump.2.2.2.2.2 (by decide)

end OpenSniffer.TcpDisplay
