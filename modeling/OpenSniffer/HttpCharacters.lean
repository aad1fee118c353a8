import OpenSniffer.HttpGrammar
import OpenSniffer.HttpCalls

/-!
# The parser's character classes

The parser's tables agree with the classes of the grammar on every byte.
-/
namespace OpenSniffer.HttpCharacters
open HttpGrammar HttpParserState HttpParser

/-- What holds of every code up to 255 holds of every character that is a byte. -/
theorem byte_rule {P : Char → Prop} (h : ∀ n < 256, P (Char.ofNat n)) {c : Char} (hc : c.toNat < 256) :
    P c := by
  have hn := h c.toNat hc
  rwa [Char.ofNat_toNat] at hn

/-- The parser and the grammar sort a character alike. -/
@[mk_iff]
structure SortedAlike (c : Char) : Prop where
  token_ne_nul_iff : token c ≠ nul ↔ isTokenChar c = true
  token_eq_toLower : isTokenChar c = true → token c = c.toLower
  isNum_eq_isDigit : isNum c = c.isDigit
  digit_eq_digitValue : c.isDigit = true → digit c = digitValue c
  unhex_eq_digitValue : c.isHexDigit = true → unhex c = some (digitValue c)
  /-- Where letters are compared, `lower` folds case. -/
  lower_eq_iff : ∀ d ∈ "chunked".toList, lower c = d ↔ c.toLower = d
  /-- The digits that a version of a request may start with. -/
  leading_digit : c.isDigit = true → c ≠ '0' → ¬ (c < '1' ∨ c > '9')

instance (c : Char) : Decidable (SortedAlike c) := decidable_of_iff' _ (sortedAlike_iff c)

-- The kernel tries the codes one by one.
theorem sortedAlike {c : Char} (hc : c.toNat < 256) : SortedAlike c :=
  byte_rule (by decide +kernel) hc

theorem toNat_lt_of_le {c d : Char} (h : c ≤ d) (hd : d.toNat < 256) : c.toNat < 256 :=
  Nat.lt_of_le_of_lt (UInt32.le_iff_toNat_le.mp (Char.le_def.mp h)) hd

theorem toNat_lt_of_isDigit {c : Char} (h : c.isDigit = true) : c.toNat < 256 := by
  have hle := (Char.isDigit_iff_toNat.mp h).2
  have hnine : '9'.toNat < 256 := by decide
  omega

theorem toNat_lt_of_isHexDigit {c : Char} (h : c.isHexDigit = true) : c.toNat < 256 := by
  simp only [Char.isHexDigit, Bool.or_eq_true, Bool.and_eq_true, decide_eq_true_eq] at h
  rcases h with (h | h) | h
  · exact toNat_lt_of_isDigit h
  · exact toNat_lt_of_le (d := 'f') h.2 (by decide)
  · exact toNat_lt_of_le (d := 'F') h.2 (by decide)

private theorem toNat_lt_of_isAlpha {c : Char} (h : c.isAlpha = true) : c.toNat < 256 := by
  have hcase : (c.isUpper || c.isLower) = true := h
  rcases Bool.or_eq_true_iff.mp hcase with hupper | hlower
  · have hle := of_decide_eq_true hupper
    exact toNat_lt_of_le (d := 'Z') hle.2 (by decide)
  · have hle := Bool.and_eq_true_iff.mp hlower
    exact toNat_lt_of_le (d := 'z') (of_decide_eq_true hle.2) (by decide)

theorem toNat_lt_of_isTokenChar {c : Char} (h : isTokenChar c = true) : c.toNat < 256 := by
  have htable : ∀ d ∈ ['!', '#', '$', '%', '&', '\x27', '*', '+', '-', '.', '^', '_', '\x60', '|', '~'],
      d.toNat < 256 := by
    decide
  simp only [isTokenChar, Bool.or_eq_true, Char.isAlphanum, decide_eq_true_eq] at h
  rcases h with (h | h) | h
  · exact toNat_lt_of_isAlpha h
  · exact toNat_lt_of_isDigit h
  · exact htable c h

/-- What the parser finds of a digit. -/
structure IsDigit (c : Char) : Prop where
  num : isNum c = true
  value : digit c = digitValue c
  le : digitValue c ≤ 9
  ne_dot : c ≠ '.'
  ne_space : c ≠ ' '
  ne_cr : c ≠ cr
  ne_lf : c ≠ lf

theorem isDigit_of {c : Char} (h : c.isDigit = true) : IsDigit c := by
  have hc := toNat_lt_of_isDigit h
  have hnum := (sortedAlike hc).isNum_eq_isDigit
  have hvalue := (sortedAlike hc).digit_eq_digitValue h
  rw [h] at hnum
  have hle := HttpInvariants.digit_le_of_isNum hnum
  rw [hvalue] at hle
  have hne : ∀ d : Char, d.isDigit = false → c ≠ d := by
    rintro d hd rfl
    rw [h] at hd
    cases hd
  exact ⟨hnum, hvalue, hle, hne _ rfl, hne _ rfl, hne _ rfl, hne _ rfl⟩

end OpenSniffer.HttpCharacters
