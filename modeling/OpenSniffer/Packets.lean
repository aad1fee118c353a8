import OpenSniffer.TracedReads
import Mathlib.Algebra.Group.Nat.Defs
import Mathlib.Tactic.Common

/-!
# Packets, the memory behind them, and what the dissectors print

A packet owns a buffer of exactly `size` bytes. C code can read past that buffer;
what such a read yields is up to the heap, so it is a parameter: `Memory.past`
lists the bytes that follow a packet's buffer. Any finite list may follow, and
further on memory reads as zero, which only a run that has left the buffer can
see. Integers are natural numbers; byte order is explicit, for a little-endian
host.
-/
namespace OpenSniffer.Packets
open TracedReads TracedReads.Traced

abbrev Bytes := List UInt8

abbrev Octets (n : ℕ) := {bytes : Bytes // bytes.length = n}

structure Session where
  id : ℕ
  srcPort : ℕ
  destPort : ℕ
  deriving DecidableEq, Repr

def osiCreateSession (id srcPort destPort : ℕ) : Session := ⟨id, srcPort, destPort⟩

/-- `data` is `none` for a null pointer. A buffer has `size` bytes: the reader and
every `decapsulate` allocate it so. -/
@[ext] structure Packet where
  data : Option Bytes
  size : ℕ
  protocol : ℕ
  session : Option Session
  sized : ∀ bytes ∈ data, bytes.length = size

/-- The packet `sync_reader_read` builds around a received frame. -/
def Packet.ofFrame (frame : Bytes) : Packet where
  data := some frame
  size := frame.length
  protocol := 0
  session := none
  sized := by simp

/-- One argument of a `printf`; `str` is a C string, cut at its first zero byte,
or a null pointer. -/
inductive Arg where
  | int (n : ℕ)
  | text (s : String)
  | str (s : Option Bytes)
  deriving DecidableEq, Repr

/-- What reads past an object's end yield: the bytes behind a packet's buffer, and
the entries the ICMP type table would have behind its last one. -/
class Memory where
  past : Packet → Bytes
  pastTypes : ℕ → ℕ × Arg

/-- Memory that reads as zero behind every object. -/
@[reducible] def zeroMemory : Memory := ⟨fun _ => [], fun _ => (0, .str none)⟩

/-- One `printf` call. The banners that open and close a colour are kept apart. -/
inductive Line where
  | colorBegin (color text : String)
  | colorEnd (text : String)
  | printf (format : String) (args : List Arg)
  deriving DecidableEq, Repr

abbrev Dump := Traced Line

def printf (format : String) (args : List Arg) : Dump Unit := print (.printf format args)

def cString (bytes : Bytes) : Bytes := bytes.takeWhile (fun b => b != 0)

theorem cString_append_zero {bytes : Bytes} (h : ∀ b ∈ bytes, b ≠ 0) :
    cString (bytes ++ [0]) = bytes := by
  induction bytes with
  | nil => rfl
  | cons b bytes ih =>
    have hb : b ≠ 0 := h b List.mem_cons_self
    rw [cString, List.cons_append, List.takeWhile_cons_of_pos (by simpa using hb)]
    exact congrArg (List.cons b) (ih (fun b hb => h b (List.mem_cons_of_mem _ hb)))

def sizeSub (a b : ℕ) : ℕ := if b ≤ a then a - b else a + 2 ^ 64 - b

@[simp] theorem sizeSub_of_le {a b : ℕ} (h : b ≤ a) : sizeSub a b = a - b := if_pos h

def ntohs (n : ℕ) : ℕ := n % 256 * 256 + n / 256 % 256

def ntohl (n : ℕ) : ℕ :=
  n % 256 * 2 ^ 24 + n / 256 % 256 * 2 ^ 16 + n / 2 ^ 16 % 256 * 256 + n / 2 ^ 24 % 256

/-- A number as two bytes in network order. -/
def word (n : ℕ) : Bytes := [UInt8.ofNat (n / 256), UInt8.ofNat n]

@[simp] theorem length_word (n : ℕ) : (word n).length = 2 := rfl

private theorem ntohs_bytes (a b : UInt8) : ntohs (a.toNat + 256 * b.toNat) = a.toNat * 256 + b.toNat := by
  have ha := a.toNat_lt
  have hb := b.toNat_lt
  unfold ntohs
  omega

namespace Packet
variable [Memory]

/-- The buffer and what lies behind it. -/
def image (packet : Packet) : Bytes := packet.data.getD [] ++ Memory.past packet

def byte (packet : Packet) (i : ℕ) : UInt8 := packet.image.getD i 0

def load8 (packet : Packet) (i : ℕ) : Dump ℕ := do
  return (← load packet.byte i).toNat

def load16 (packet : Packet) (i : ℕ) : Dump ℕ := do
  return (← packet.load8 i) + 256 * (← packet.load8 (i + 1))

def load32 (packet : Packet) (i : ℕ) : Dump ℕ := do
  return (← packet.load16 i) + 2 ^ 16 * (← packet.load16 (i + 2))

/-- What every `decapsulate` does once its header length is known: allocate the
remaining size and copy the bytes behind the header. -/
def behind (packet : Packet) (header protocol : ℕ) (session : Option Session) : Dump Packet := do
  let size := sizeSub packet.size header
  let copy ← loadRange packet.byte header size
  return ⟨some copy.1, size, protocol, session, by simp [copy.2]⟩

private theorem image_eq {packet : Packet} {bytes : Bytes} (h : packet.data = some bytes) :
    packet.image = bytes ++ Memory.past packet := by simp [image, h]

theorem byte_eq {packet : Packet} {bytes : Bytes} (h : packet.data = some bytes) {i : ℕ}
    (hi : i < bytes.length) : packet.byte i = bytes[i] := by
  rw [byte, image_eq h, List.getD_eq_getElem?_getD, List.getElem?_append_left hi,
    List.getElem?_eq_getElem hi, Option.getD_some]

theorem byte_eq_getD {packet : Packet} {bytes : Bytes} (h : packet.data = some bytes) {i : ℕ}
    (hi : i < bytes.length) : packet.byte i = bytes.getD i 0 := by
  rw [byte_eq h hi, List.getD_eq_getElem?_getD, List.getElem?_eq_getElem hi, Option.getD_some]

theorem holds_data {packet : Packet} {bytes : Bytes} (h : packet.data = some bytes) :
    Holds packet.byte 0 bytes := by
  rw [holds_iff_map]
  apply List.ext_getElem
  · simp
  · intro i hi hi'
    have hb := byte_eq h hi'
    simpa using hb

/-- Two bytes in host order, as a field of a header is read. -/
def le16 (packet : Packet) (i : ℕ) : ℕ := (packet.byte i).toNat + 256 * (packet.byte (i + 1)).toNat

/-- Two bytes in network order. -/
def be16 (packet : Packet) (i : ℕ) : ℕ := (packet.byte i).toNat * 256 + (packet.byte (i + 1)).toNat

theorem le16_lt (packet : Packet) (i : ℕ) : packet.le16 i < 2 ^ 16 := by
  have hlow := (packet.byte i).toNat_lt
  have hhigh := (packet.byte (i + 1)).toNat_lt
  rw [le16]
  omega

theorem be16_lt (packet : Packet) (i : ℕ) : packet.be16 i < 2 ^ 16 := by
  have hhigh := (packet.byte i).toNat_lt
  have hlow := (packet.byte (i + 1)).toNat_lt
  rw [be16]
  omega

/-- Fields agree in one byte order exactly when they do in the other. -/
theorem le16_eq_iff (packet other : Packet) (i : ℕ) :
    packet.le16 i = other.le16 i ↔ packet.be16 i = other.be16 i := by
  have hhere := (packet.byte i).toNat_lt
  have hnext := (packet.byte (i + 1)).toNat_lt
  have hhere' := (other.byte i).toNat_lt
  have hnext' := (other.byte (i + 1)).toNat_lt
  rw [le16, le16, be16, be16]
  omega

theorem be16_of_holds {packet : Packet} {i n : ℕ} (h : Holds packet.byte i (word n))
    (hn : n < 65536) : packet.be16 i = n := by
  obtain ⟨hhigh, hlow, -⟩ := h
  rw [be16, hhigh, hlow, UInt8.toNat_ofNat', UInt8.toNat_ofNat']
  omega

@[simp] theorem ntohs_le16 (packet : Packet) (i : ℕ) : ntohs (packet.le16 i) = packet.be16 i :=
  ntohs_bytes _ _

@[simp] theorem value_load8 (packet : Packet) (i : ℕ) :
    (packet.load8 i).value = (packet.byte i).toNat := rfl
@[simp] theorem outputs_load8 (packet : Packet) (i : ℕ) : (packet.load8 i).outputs = [] := rfl
@[simp] theorem value_load16 (packet : Packet) (i : ℕ) :
    (packet.load16 i).value = packet.le16 i := rfl
@[simp] theorem value_load32 (packet : Packet) (i : ℕ) :
    (packet.load32 i).value = packet.le16 i + 2 ^ 16 * packet.le16 (i + 2) := rfl
@[simp] theorem outputs_load16 (packet : Packet) (i : ℕ) : (packet.load16 i).outputs = [] := rfl
@[simp] theorem outputs_load32 (packet : Packet) (i : ℕ) : (packet.load32 i).outputs = [] := rfl

@[simp] theorem readsWithin_load8 (packet : Packet) (i lo hi : ℕ) :
    (packet.load8 i).ReadsWithin lo hi ↔ lo ≤ i ∧ i < hi := by simp [load8]

@[simp] theorem readsWithin_load16 (packet : Packet) (i lo hi : ℕ) :
    (packet.load16 i).ReadsWithin lo hi ↔ lo ≤ i ∧ i + 1 < hi := by
  simp [load16]
  omega

@[simp] theorem readsWithin_load32 (packet : Packet) (i lo hi : ℕ) :
    (packet.load32 i).ReadsWithin lo hi ↔ lo ≤ i ∧ i + 3 < hi := by
  simp [load32]
  omega

section Behind
variable {packet : Packet} {header protocol : ℕ} {session : Option Session}

@[simp] theorem behind_protocol : (packet.behind header protocol session).value.protocol = protocol := rfl
@[simp] theorem behind_session : (packet.behind header protocol session).value.session = session := rfl

theorem behind_size (h : header ≤ packet.size) :
    (packet.behind header protocol session).value.size = packet.size - header := sizeSub_of_le h

/-- A header inside the packet is removed and nothing else: the copy is what follows it. -/
theorem behind_data {bytes : Bytes} (hd : packet.data = some bytes) (h : header ≤ packet.size) :
    (packet.behind header protocol session).value.data = some (bytes.drop header) := by
  have hlen : bytes.length = packet.size := packet.sized bytes hd
  have hcopy : (packet.behind header protocol session).value.data =
      some ((List.range' header (packet.size - header)).map packet.byte) := by
    simp [behind, value_loadRange, sizeSub_of_le h]
  rw [hcopy]
  congr 1
  apply List.ext_getElem
  · simp [hlen]
  · intro i hi _
    simp only [List.length_map, List.length_range'] at hi
    have hb := byte_eq hd (i := header + i) (by omega)
    simpa using hb

/-- The copy reads the bytes behind the header, all of them inside the packet. -/
theorem behind_reads (h : header ≤ packet.size) :
    (packet.behind header protocol session).ReadsWithin header packet.size := by
  simp [behind, readsWithin_loadRange, sizeSub_of_le h]
  omega

end Behind
end Packet

section Decapsulation
variable [Memory]

/-- The body every `decapsulate` has: nothing for a packet that is not handled, and
otherwise what follows the header, with a hint and perhaps a session. -/
def decapsulateWith (handles : Packet → Dump Bool) (header hint : Packet → Dump ℕ)
    (session : Packet → Dump (Option Session)) (packet : Packet) : Dump (Option Packet) := do
  if ← handles packet then
    let size ← header packet
    let protocol ← hint packet
    let session ← session packet
    return some (← packet.behind size protocol session)
  else return none

private theorem decapsulateWith_eq_some {handles : Packet → Dump Bool} {header hint : Packet → Dump ℕ}
    {session : Packet → Dump (Option Session)} {packet p : Packet} :
    (decapsulateWith handles header hint session packet).value = some p ↔
      (handles packet).value = true ∧ p = (packet.behind (header packet).value (hint packet).value
        (session packet).value).value := by
  simp only [decapsulateWith, Traced.value_bind]
  cases (handles packet).value <;> simp [eq_comm]

theorem decapsulateWith_handled {handles : Packet → Dump Bool} {header hint : Packet → Dump ℕ}
    {session : Packet → Dump (Option Session)} {packet : Packet}
    (h : (handles packet).value = true) :
    (decapsulateWith handles header hint session packet).value =
      some (packet.behind (header packet).value (hint packet).value (session packet).value).value :=
  decapsulateWith_eq_some.mpr ⟨h, rfl⟩

/-- Removing the header reads inside the packet if each of its parts does. -/
theorem decapsulateWith_reads {handles : Packet → Dump Bool} {header hint : Packet → Dump ℕ}
    {session : Packet → Dump (Option Session)} {packet : Packet} {lo hi : ℕ}
    (hhandles : (handles packet).ReadsWithin lo hi) (hheader : (header packet).ReadsWithin lo hi)
    (hhint : (hint packet).ReadsWithin lo hi) (hsession : (session packet).ReadsWithin lo hi)
    (hbehind : (packet.behind (header packet).value (hint packet).value
      (session packet).value).ReadsWithin lo hi) :
    (decapsulateWith handles header hint session packet).ReadsWithin lo hi := by
  rw [decapsulateWith, readsWithin_bind]
  refine ⟨hhandles, ?_⟩
  rw [readsWithin_ite]
  split
  · simp only [readsWithin_bind, hheader, hhint, hsession, hbehind, readsWithin_pure, and_self]
  · exact readsWithin_pure _

end Decapsulation
end OpenSniffer.Packets
