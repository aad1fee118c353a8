import OpenSniffer.HttpInvariants

/-!
# Passes over a body

In each state of a body, of a known length, in chunks or up to the end of the data, a pass
is good. What the state relies on is what the source asserts there.
-/
namespace OpenSniffer.HttpBodyPasses
open HttpParserState HttpParser HttpMessageStart HttpOpenings HttpRuns HttpInvariants

section States
variable {data : List Char} {before last : Option Piece} {r : Run} (ch : Char)

theorem unhex_le {c : Char} {value : ℕ} (hc : unhex c = some value) : value ≤ 15 := by
  rw [unhex] at hc
  split at hc
  · cases hc
    decide
  · split at hc
    · rename_i hnum
      cases hc
      exact Nat.le_trans (digit_le_of_isNum hnum) (by decide)
    · split at hc
      · rename_i hletter
        cases hc
        have hle : (lower c).toNat ≤ 'f'.toNat := Char.le_def.mp hletter.2
        have hdiff : 10 + 'f'.toNat - 'a'.toNat = 15 := by decide
        omega
      · cases hc

section Sizes
variable (h : At data before r none last) (hin : r.p < data.length)
  (hlast : last ≠ some .headerField) (hchunked : r.parser.flags.chunked = true)
include h hin hlast hchunked

theorem chunkSizeStart_good : Good data before r.p (chunkSizeStart r ch) := by
  rw [chunkSizeStart]
  cases hhex : unhex ch with
  | none => exact good_error h _ (by decide)
  | some value =>
    have hlt : value < ullongMax := Nat.lt_of_le_of_lt (unhex_le hhex) (by decide)
    exact good_update h hin (h.healthy.contentLength hlt.le) ⟨⟨hchunked, hlt.ne⟩, .inl rfl, hlast⟩

theorem chunkSize_good (hlength : r.parser.contentLength ≠ ullongMax) (hs : r.parser.state = .chunkSize) :
    Good data before r.p (chunkSize r ch) := by
  rw [chunkSize]
  split
  · exact good_update h hin h.healthy ⟨⟨hchunked, hlength⟩, .inl rfl, hlast⟩
  · cases hhex : unhex ch with
    | none =>
      dsimp only
      split
      · exact good_update h hin h.healthy ⟨⟨hchunked, hlength⟩, .inl rfl, hlast⟩
      · exact good_error h _ (by decide)
    | some value =>
      dsimp only
      split
      · exact good_error h _ (by decide)
      · rename_i hle
        have hvalue := unhex_le hhex
        have hlt : r.parser.contentLength * 16 + value < ullongMax := by
          simp only [ullongMax] at hle ⊢
          omega
        apply good_update h hin
        · exact h.healthy.contentLength hlt.le
        · refine ⟨?_, ?_, ?_⟩
          · simpa [Ready, hs] using ⟨hchunked, hlt.ne⟩
          · simp [Opens, hs, pieceOf]
          · simpa [Expects, hs] using hlast

theorem chunkParameters_good (hlength : r.parser.contentLength ≠ ullongMax)
    (hs : r.parser.state = .chunkParameters) : Good data before r.p (chunkParameters r ch) := by
  rw [chunkParameters]
  split
  · exact good_update h hin h.healthy ⟨⟨hchunked, hlength⟩, .inl rfl, hlast⟩
  · apply good_next h hin (Nat.le_refl _)
    refine ⟨?_, ?_, ?_⟩
    · simpa [Ready, hs] using ⟨hchunked, hlength⟩
    · simp [Opens, hs, pieceOf]
    · simpa [Expects, hs] using hlast

theorem chunkSizeAlmostDone_good (hlength : r.parser.contentLength ≠ ullongMax) :
    Good data before r.p (chunkSizeAlmostDone r ch) := by
  simp only [chunkSizeAlmostDone]
  apply good_strictCheck h
  intro _
  split
  · exact good_update h hin h.healthy.uncounted (fits_plain rfl hlast)
  · rename_i hne
    exact good_update h hin h.healthy.uncounted ⟨⟨hchunked, hne, hlength⟩, .inr rfl, hlast⟩

theorem chunkDataDone_good : Good data before r.p (chunkDataDone r ch) := by
  apply good_strictCheck h
  intro _
  exact good_update h hin h.healthy.uncounted ⟨⟨rfl, hchunked⟩, .inl rfl, hlast⟩

end Sizes

section Body
variable {opened : Option (Piece × ℕ)} (h : At data before r opened last) (hin : r.p < data.length)
  (hlast : last ≠ some .headerField) (hbody : ∀ piece start, opened = some (piece, start) → piece = .body)
include h hin hlast hbody

omit hin hlast in
/-- A body is open from its first character on. -/
theorem mark_body : ∃ start, r.mark .body = { r with marks := only (some (.body, start)) } ∧
    At data before (r.mark .body) (some (.body, start)) last := by
  cases opened with
  | none => exact ⟨r.p, mark_of_closed h.marks _, h.mark .body⟩
  | some o =>
    obtain ⟨piece, start⟩ := o
    obtain rfl := hbody piece start rfl
    rw [mark_of_open h.marks]
    refine ⟨start, ?_, h⟩
    rw [← h.marks]

theorem bodyIdentityEof_good (hs : r.parser.state = .bodyIdentityEof) :
    Good data before r.p (bodyIdentityEof data r) := by
  obtain ⟨start, hmark, hat⟩ := mark_body h hbody
  rw [bodyIdentityEof]
  rw [hmark] at hat ⊢
  have hlen : r.p ≤ data.length - 1 := Nat.le_sub_one_of_lt hin
  have hlast' : data.length - 1 < data.length := by omega
  have hread := hat.goto hat.healthy hlen hlast'.le
  apply good_next hread hlast' hlen
  exact ⟨by simp [Ready, hs], by simp [Opens, hs, pieceOf], by simpa [Expects, hs] using hlast⟩

theorem bodyIdentity_good (hs : r.parser.state = .bodyIdentity) (hzero : r.parser.contentLength ≠ 0)
    (hmax : r.parser.contentLength ≠ ullongMax) : Good data before r.p (bodyIdentity data r) := by
  obtain ⟨start, hmark, hat⟩ := mark_body h hbody
  have hle := h.healthy.2.contentLength_le
  have hstart : start ≤ r.p := by
    rw [hmark] at hat
    exact hat.opened_le
  simp only [bodyIdentity]
  rw [hmark] at hat ⊢
  have hread : min r.parser.contentLength (data.length - r.p) ≠ 0 := by omega
  have hread' : min r.parser.contentLength (data.length - r.p) ≤ data.length - r.p := Nat.min_le_right _ _
  generalize min r.parser.contentLength (data.length - r.p) = toRead at hread hread' ⊢
  have hin' : r.p + toRead - 1 < data.length := by omega
  have hp' : r.p ≤ r.p + toRead - 1 := by omega
  have hmoved := @At.goto _ _ _ _ _ _ _ hat { r.parser with contentLength := r.parser.contentLength - toRead }
    (h.healthy.contentLength (Nat.le_trans (Nat.sub_le _ _) hle)) hp' hin'.le
  split
  · have hmarks := (hmoved.updateState .messageDone).marks
    have hend : start ≤ r.p + toRead - 1 + 1 := by omega
    rw [callbackTo_of_open hmarks]
    have hfollows : Follows last .body := follows_of_ne hlast (by decide)
    have hbody : some Piece.body ≠ some .headerField := by decide
    refine Good.of_le (messageDone_told hin' ?_ rfl ?_ hbody) hp'
    · exact hmoved.healthy
    · refine hmoved.told.concat (Nat.le_refl _) ?_ hfollows
      change start + (r.p + toRead - 1 + 1 - start) ≤ r.p + toRead - 1 + 1
      omega
  · rename_i hrest
    apply good_next hmoved hin' hp'
    have hmax' : r.parser.contentLength - toRead ≠ ullongMax := by omega
    refine ⟨?_, ?_, ?_⟩
    · simpa [Ready, hs] using ⟨hrest, hmax'⟩
    · simp [Opens, hs, pieceOf]
    · simpa [Expects, hs] using hlast

theorem chunkData_good (hs : r.parser.state = .chunkData) (hchunked : r.parser.flags.chunked = true)
    (hzero : r.parser.contentLength ≠ 0) (hmax : r.parser.contentLength ≠ ullongMax) :
    Good data before r.p (chunkData data r) := by
  obtain ⟨start, hmark, hat⟩ := mark_body h hbody
  have hle := h.healthy.2.contentLength_le
  simp only [chunkData]
  rw [hmark] at hat ⊢
  have hread : min r.parser.contentLength (data.length - r.p) ≠ 0 := by omega
  have hread' : min r.parser.contentLength (data.length - r.p) ≤ data.length - r.p := Nat.min_le_right _ _
  generalize min r.parser.contentLength (data.length - r.p) = toRead at hread hread' ⊢
  have hin' : r.p + toRead - 1 < data.length := by omega
  have hp' : r.p ≤ r.p + toRead - 1 := by omega
  have hmoved := @At.goto _ _ _ _ _ _ _ hat { r.parser with contentLength := r.parser.contentLength - toRead }
    (h.healthy.contentLength (Nat.le_trans (Nat.sub_le _ _) hle)) hp' hin'.le
  split
  · rename_i hrest
    apply good_next (hmoved.updateState .chunkDataAlmostDone) hin' hp'
    exact ⟨⟨hchunked, hrest⟩, rfl, hlast⟩
  · rename_i hrest
    have hmax' : r.parser.contentLength - toRead ≠ ullongMax := by omega
    apply good_next hmoved hin' hp'
    refine ⟨?_, ?_, ?_⟩
    · simpa [Ready, hs] using ⟨hchunked, hrest, hmax'⟩
    · simp [Opens, hs, pieceOf]
    · simpa [Expects, hs] using hlast

theorem chunkDataAlmostDone_good (hchunked : r.parser.flags.chunked = true) :
    Good data before r.p (chunkDataAlmostDone r ch) := by
  apply good_strictCheck h
  intro _
  have hended := h.updateState .chunkDataDone
  cases opened with
  | none =>
    have hnone : (r.updateState .chunkDataDone).callback .body = r.updateState .chunkDataDone := by
      apply callbackTo_of_none
      rw [hended.marks, only_none]
    rw [hnone]
    exact good_update h hin h.healthy ⟨hchunked, .inl rfl, hlast⟩
  | some o =>
    obtain ⟨piece, start⟩ := o
    obtain rfl := hbody piece start rfl
    have hne : some Piece.body ≠ some .headerField := by decide
    exact good_callback hended hin (follows_of_ne hlast (by decide)) ⟨hchunked, .inl rfl, hne⟩

end Body

end States

end OpenSniffer.HttpBodyPasses
