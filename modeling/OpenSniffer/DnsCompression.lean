import OpenSniffer.DnsAliases

/-!
# Compressed names

A pointer's offset counts from the first byte of the header. The dump hands `dn_expand`
the first question as its base, twelve bytes further on, so a target name is shown as it
is written exactly when the name twelve bytes behind the pointer's target reads alike.
-/
namespace OpenSniffer.DnsCompression
open Packets TextFormats CompressedNames DnsExpansion DnsDissector DnsCursor DnsLayout DnsRecords
  DnsAliases TracedReads
open CompressedNames.Label (letter)

section Targets
variable [Memory]

/-- At `t` the message has `labels` and a pointer to offset `o`, where it spells `rest`. -/
structure Compressed (packet : Packet) (t : ℕ) (labels : List Label) (o : ℕ)
    (rest : List Label) : Prop where
  front : Holds packet.byte t (labels.flatMap Label.wire)
  pointer : Holds packet.byte (t + (labels.flatMap Label.wire).length) [UInt8.ofNat (192 + o / 256), UInt8.ofNat o]
  inside : t + (labels.flatMap Label.wire).length + 2 ≤ packet.size
  behind_header : sizeofDnshdr ≤ o
  earlier : o < t
  fourteen_bits : o < 2 ^ 14
  suffix : ∃ steps width, Spells packet.byte standard packet.size o rest steps width

/-- Twelve bytes behind offset `o`, with offsets counted from there too, the message has
labels that complete `labels` to the text of `labels ++ rest`, within the limits of
`dn_expand`. -/
def ReadsAlike (packet : Packet) (labels : List Label) (o : ℕ) (rest : List Label) : Prop :=
  ∃ shown steps width,
    Spells packet.byte (fromBase sizeofDnshdr) packet.size (sizeofDnshdr + o) shown steps width ∧
      labels.length + 1 + steps ≤ passes sizeofDnshdr packet.size ∧
        (dotted (labels ++ shown)).length < 254 ∧
          cString (dotted (labels ++ shown) ++ [0]) = dotted (labels ++ rest)

variable {packet : Packet} {t o : ℕ} {labels rest : List Label}

omit [Memory] in
private theorem offset_pointer (ho : o < 2 ^ 14) :
    offset (UInt8.ofNat (192 + o / 256)) (UInt8.ofNat o) = o := by
  rw [offset, UInt8.toNat_ofNat', UInt8.toNat_ofNat']
  omega

theorem Compressed.opens (h : Compressed packet t labels o rest) : (fromBase sizeofDnshdr).pointer
    (packet.byte (t + (labels.flatMap Label.wire).length)) := by
  have ho := h.fourteen_bits
  rw [h.pointer.1]
  change 64 ≤ (UInt8.ofNat (192 + o / 256)).toNat
  rw [UInt8.toNat_ofNat']
  omega

theorem Compressed.target (h : Compressed packet t labels o rest) :
    offset (packet.byte (t + (labels.flatMap Label.wire).length))
      (packet.byte (t + (labels.flatMap Label.wire).length + 1)) = o := by
  rw [h.pointer.1, h.pointer.2.1, offset_pointer h.fourteen_bits]

/-- What `dn_expand` takes the name at `t` for. -/
theorem Compressed.spells_iff (h : Compressed packet t labels o rest) (all : List Label)
    (steps width : ℕ) :
    Spells packet.byte (fromBase sizeofDnshdr) packet.size t all steps width ↔
      ∃ shown steps' width', all = labels ++ shown ∧ steps = labels.length + 1 + steps' ∧
        width = (labels.flatMap Label.wire).length + 2 ∧
          Spells packet.byte (fromBase sizeofDnshdr) packet.size (sizeofDnshdr + o) shown steps' width' := by
  constructor
  · intro hall
    obtain ⟨shown, steps₁, width₁, rfl, rfl, rfl, hshown⟩ := hall.of_prepend h.front
    obtain ⟨-, rfl, steps₂, width₂, rfl, htarget⟩ := hshown.pointer_inv h.opens
    rw [h.target] at htarget
    exact ⟨shown, steps₂, width₂, rfl, by omega, rfl, htarget⟩
  · intro hsuffix
    obtain ⟨shown, steps', width', rfl, rfl, rfl, htarget⟩ := hsuffix
    have hinside := h.inside
    have hpointer : Spells packet.byte (fromBase sizeofDnshdr) packet.size
        (t + (labels.flatMap Label.wire).length) shown (steps' + 1) 2 := by
      have hsame : (fromBase sizeofDnshdr).origin +
          offset (packet.byte (t + (labels.flatMap Label.wire).length))
            (packet.byte (t + (labels.flatMap Label.wire).length + 1)) = sizeofDnshdr + o := by
        rw [h.target]
        rfl
      exact .pointer (by omega) h.opens (hsame ▸ htarget)
    have hall := Spells.prepend h.front hpointer
    rwa [Nat.add_comm steps', ← Nat.add_assoc] at hall

/-- The name at `t` prints in full exactly when the place behind its pointer reads alike. -/
theorem Compressed.printsAs_iff (h : Compressed packet t labels o rest) :
    PrintsAs packet t (dotted (labels ++ rest)) ↔ ReadsAlike packet labels o rest := by
  have hinside := h.inside
  simp only [PrintsAs, readAt_inside (show t ≤ packet.size by omega)]
  constructor
  · rintro ⟨all, steps, ⟨width, hall⟩, hsteps, hlen, htext⟩
    obtain ⟨shown, steps', width', rfl, rfl, -, hshown⟩ := (h.spells_iff all steps width).mp hall
    exact ⟨shown, steps', width', hshown, hsteps, hlen, htext⟩
  · rintro ⟨shown, steps, width, hshown, hsteps, hlen, htext⟩
    have hall := (h.spells_iff (labels ++ shown) _ _).mpr ⟨shown, steps, width, rfl, rfl, rfl, hshown⟩
    exact ⟨labels ++ shown, _, ⟨_, hall⟩, hsteps, hlen, htext⟩

end Targets

/-- A CNAME record whose target is written `a` and a pointer to the question's name, `b`. -/
def cutAlias : Record where
  owner := .questioned
  type := 5
  class_ := internet
  ttl := aMinute
  rdata := [1, 97, 0xc0, 12]
  declared := by decide

theorem laid_cutAlias : let _ := zeroMemory
    AnswersLaid (withAnswers [cutAlias]) 19 [cutAlias] := by
  intro _
  exact laid_withAnswers (by decide +kernel) (by decide +kernel)

theorem compressed_cutAlias : let _ := zeroMemory
    Compressed (withAnswers [cutAlias]) (cutAlias.dataAt (place 19 [cutAlias] 0)) [letter 97] 12 [letter 98] := by
  intro _
  have hlabel : Holds (withAnswers [cutAlias]).byte 12 (letter 98).wire :=
    ⟨by decide +kernel, by decide +kernel, trivial⟩
  have hquestion : Spells (withAnswers [cutAlias]).byte standard (withAnswers [cutAlias]).size 12
      [letter 98] 2 3 := .label hlabel (.terminator (by decide +kernel) (by decide +kernel))
  exact ⟨⟨by decide +kernel, by decide +kernel, trivial⟩, ⟨by decide +kernel, by decide +kernel, trivial⟩,
    by decide +kernel, by decide, by decide, by decide, 2, 3, hquestion⟩

private theorem findsType_cutAlias : let _ := zeroMemory
    FindsType (withAnswers [cutAlias]) 0 (cutAlias.fieldsAt (place 19 [cutAlias] 0)) := by
  intro _
  have hcursor : (answers (withAnswers [cutAlias]))[0]? = some (place 19 [cutAlias] 0) := by decide +kernel
  exact ⟨_, (getElem?_answers_iff.mp hcursor).2,
    (stringTo_record (laid_cutAlias.recordAt rfl).holds).mpr ⟨by decide +kernel, by decide⟩⟩

end OpenSniffer.DnsCompression
