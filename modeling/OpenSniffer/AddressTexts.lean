import OpenSniffer.TextFormats

/-!
# Addresses as text

The text of a hardware address or of an IPv4 address is that of no other address.
-/
namespace OpenSniffer.AddressTexts
open Packets TextFormats

/-- Parts without the separator are found again. -/
theorem intercalate_inj {sep : String} {c : Char} (hsep : sep.toList = [c]) {texts texts' : List String}
    (htexts : ∀ t ∈ texts, c ∉ t.toList) (htexts' : ∀ t ∈ texts', c ∉ t.toList)
    (hne : texts ≠ []) (hne' : texts' ≠ []) (h : sep.intercalate texts = sep.intercalate texts') :
    texts = texts' := by
  have hlists := congrArg String.toList h
  rw [String.toList_intercalate, String.toList_intercalate, hsep] at hlists
  have hsplit := congrArg (List.splitOn c) hlists
  rw [List.splitOn_intercalate c (by simpa using htexts) (by simpa using hne),
    List.splitOn_intercalate c (by simpa using htexts') (by simpa using hne')] at hsplit
  exact List.map_injective_iff.mpr (fun s t => String.toList_injective) hsplit

/-- A text for each byte, none of which has the separator in it, is a text for bytes. -/
theorem byteTexts_injective {sep : String} {c : Char} (hsep : sep.toList = [c]) {text : UInt8 → String}
    (htext : ∀ b, c ∉ (text b).toList) (hinj : Function.Injective text) {bytes bytes' : Bytes}
    (hne : bytes ≠ []) (hne' : bytes' ≠ [])
    (h : sep.intercalate (bytes.map text) = sep.intercalate (bytes'.map text)) : bytes = bytes' := by
  have hfree : ∀ bytes : Bytes, ∀ t ∈ bytes.map text, c ∉ t.toList := by
    intro bytes t ht
    obtain ⟨b, -, rfl⟩ := List.mem_map.mp ht
    exact htext b
  have htexts := intercalate_inj hsep (hfree bytes) (hfree bytes') (by simpa using hne) (by simpa using hne') h
  exact List.map_injective_iff.mpr hinj htexts

theorem digitChar_inj : ∀ m < 16, ∀ n < 16, Nat.digitChar m = Nat.digitChar n → m = n := by decide

theorem digitChar_ne_colon : ∀ n < 16, Nat.digitChar n ≠ ':' := by decide

private theorem hexByte_injective : Function.Injective hexByte := by
  intro a b h
  have ha := a.toNat_lt
  have hb := b.toNat_lt
  have hlists : [Nat.digitChar (a.toNat / 16), Nat.digitChar (a.toNat % 16)] =
      [Nat.digitChar (b.toNat / 16), Nat.digitChar (b.toNat % 16)] := String.ofList_injective h
  obtain ⟨hhigh, hlow⟩ := List.cons.inj hlists
  have hdiv := digitChar_inj _ (by omega) _ (by omega) hhigh
  have hmod := digitChar_inj _ (by omega) _ (by omega) (List.cons.inj hlow).1
  apply UInt8.toNat_inj.mp
  omega

private theorem hexByte_no_colon (b : UInt8) : ':' ∉ (hexByte b).toList := by
  have hb := b.toNat_lt
  have hhigh := digitChar_ne_colon (b.toNat / 16) (by omega)
  have hlow := digitChar_ne_colon (b.toNat % 16) (by omega)
  simp [hexByte, hhigh.symm, hlow.symm]

private theorem decimalByte_injective : Function.Injective fun b : UInt8 => toString b.toNat := by
  intro a b h
  have hlists := congrArg String.toList h
  simp only [Nat.toString_eq_repr, Nat.toList_repr] at hlists
  have hvalues := congrArg (Nat.ofDigitChars 10 · 0) hlists
  simp only [Nat.ofDigitChars_ten_toDigits] at hvalues
  exact UInt8.toNat_inj.mp hvalues

private theorem decimalByte_no_dot (b : UInt8) : '.' ∉ (toString b.toNat).toList := by
  rw [Nat.toString_eq_repr, Nat.toList_repr]
  intro h
  cases Nat.isDigit_of_mem_toDigits (by decide) (by decide) h

theorem length_ne {n : ℕ} (a : Octets (n + 1)) : a.1 ≠ [] := by
  intro h
  have hlength := a.2
  rw [h] at hlength
  cases hlength

def hardwareText (a : Octets 6) : String := ":".intercalate (a.1.map hexByte)

theorem hardwareText_injective : Function.Injective hardwareText := by
  intro a b h
  exact Subtype.ext (byteTexts_injective rfl hexByte_no_colon hexByte_injective (length_ne a) (length_ne b) h)

theorem inetNtoa_injective : Function.Injective fun a : Octets 4 => inetNtoa a.1 := by
  intro a b h
  exact Subtype.ext (byteTexts_injective rfl decimalByte_no_dot decimalByte_injective (length_ne a) (length_ne b) h)

end OpenSniffer.AddressTexts
