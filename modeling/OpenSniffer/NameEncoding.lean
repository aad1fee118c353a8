import OpenSniffer.DnsExpansion
import OpenSniffer.NameReadings

/-!
# `dn_expand` and the standard's names

The standard opens a pointer with two set bits; `dn_expand` takes one for enough. On a name
whose parts share no byte the two agree, and the loop has passes for all of it.
-/
namespace OpenSniffer.NameEncoding
open Packets CompressedNames NameReadings DnsExpansion TracedReads TracedReads.Traced
open CompressedNames.Label (letter)

/-- The standard's pointers, with offsets counted from a buffer's first byte. -/
def standardFrom (base : ℕ) : Convention := { standard with origin := base }

/-- The two top bits of a byte differ. -/
def Reserved (b : UInt8) : Prop := 64 ≤ b.toNat ∧ b.toNat < 192

theorem room_eq_min (space : ℕ) : room space = min space 254 := by
  rw [room]
  split <;> omega

section Names
variable [Memory] {packet : Packet} {base fin src space width : ℕ} {labels : List Label}
  {parts : List Part}

/-- The standard's readings are the loop's. -/
theorem fromBase_of_standard
    (h : Reading packet.byte (standardFrom base) fin src labels parts width) :
    Reading packet.byte (fromBase base) fin src labels parts width := by
  have horigin : (fromBase base).origin = (standardFrom base).origin := rfl
  apply h.convert horigin
  intro part _ hpointer
  exact Nat.le_trans (by decide) hpointer

/-- The loop's readings that meet no reserved byte are the standard's. -/
theorem standard_of_fromBase
    (h : Reading packet.byte (fromBase base) fin src labels parts width)
    (hreserved : ∀ part ∈ parts, ¬ Reserved (packet.byte part.start)) :
    Reading packet.byte (standardFrom base) fin src labels parts width := by
  have horigin : (standardFrom base).origin = (fromBase base).origin := rfl
  apply h.convert horigin
  intro part hpart hpointer
  by_contra hlow
  exact hreserved part hpart ⟨hpointer, Nat.lt_of_not_le hlow⟩

/-- The loop has a pass for every part of a name whose parts share no byte. -/
theorem length_le_passes (hbase : base ≤ src)
    (h : Reading packet.byte (standardFrom base) fin src labels parts width)
    (hapart : parts.Pairwise Part.Apart) : parts.length ≤ passes base fin := by
  have hparts := h.two_mul_length_le_of_apart hbase (Nat.le_refl base) hapart
  rw [passes]
  omega

/-- A name written with any pointers, over parts that share no byte, is expanded to its
text, and its width is returned. -/
theorem dnExpand_written (hbase : base ≤ src) (_hsize : fin - base < 2 ^ 31)
    (h : Reading packet.byte (standardFrom base) fin src labels parts width)
    (hapart : parts.Pairwise Part.Apart) (hlen : (dotted labels).length < min space 254) :
    (dnExpand packet base fin src space).value = (some width, dotted labels ++ [0]) := by
  have hspace : 0 < space := by omega
  rw [dnExpand_iff hbase h.spells.lt_fin hspace]
  refine ⟨labels, parts.length, (fromBase_of_standard h).spells, length_le_passes hbase h hapart, ?_,
    rfl⟩
  rw [room_eq_min]
  exact hlen

end Names

/-- The label `a` and a pointer to the label `b` behind it. -/
def twoPieces : Packet where
  data := some [1, 97, 0xc0, 4, 1, 98, 0]
  size := 7
  protocol := 0
  session := none
  sized := by simp

theorem dnExpand_written_twoPieces : let _ := zeroMemory
    (dnExpand twoPieces 0 7 0 256).value =
      (some 4, dotted [letter 97, letter 98] ++ [0]) := by
  intro _
  have hfirst : Holds twoPieces.byte 0 (letter 97).wire := ⟨by decide, by decide, trivial⟩
  have hsecond : Holds twoPieces.byte 4 (letter 98).wire := ⟨by decide, by decide, trivial⟩
  have hopens : (standardFrom 0).pointer (twoPieces.byte 2) := by
    change 192 ≤ (twoPieces.byte 2).toNat
    decide
  have hrest : Reading twoPieces.byte (standardFrom 0) 7 4 [letter 98] [⟨4, 2⟩, ⟨6, 1⟩] 3 :=
    .label hsecond (.terminator (by decide) (by decide))
  have htarget : (standardFrom 0).origin + offset (twoPieces.byte 2) (twoPieces.byte 3) = 4 := by decide
  have hpointer : Reading twoPieces.byte (standardFrom 0) 7 2 [letter 98]
      [⟨2, 2⟩, ⟨4, 2⟩, ⟨6, 1⟩] 2 := by
    apply Reading.pointer (by decide) hopens
    rw [htarget]
    exact hrest
  have hname : Reading twoPieces.byte (standardFrom 0) 7 0 [letter 97, letter 98]
      [⟨0, 2⟩, ⟨2, 2⟩, ⟨4, 2⟩, ⟨6, 1⟩] 4 := .label hfirst hpointer
  exact dnExpand_written (Nat.le_refl 0) (by decide) hname (by simp [Part.Apart]) (by decide)

end OpenSniffer.NameEncoding
