import OpenSniffer.HttpInvariants

/-!
# Passes over the first line of a message

In each state of a request line or a status line, a pass is good: it keeps what every run
keeps and moves on, or it stops.
-/
namespace OpenSniffer.HttpStartPasses
open HttpParserState HttpParser HttpMessageStart HttpOpenings HttpRuns HttpInvariants

section States
variable {data : List Char} {before last : Option Piece} {r : Run} (ch : Char)

private theorem one_le_length (m : Method) : 1 ≤ (methodStrings m).length := by
  cases m <;> decide

theorem fits_reqMethod {parser : Parser} (hs : parser.state = .reqMethod)
    (hindex : parser.index ≤ (methodStrings parser.method).length)
    (hlast : last ≠ some .headerField) : Fits parser none last :=
  ⟨by simpa [Ready, hs] using hindex, by simp [Opens, hs, pieceOf], by simpa [Expects, hs] using hlast⟩

section Start
variable (h : At data before r none last) (hin : r.p < data.length)
  (hlast : last ≠ some .headerField)
include h hin hlast

theorem dead_good (hs : r.parser.state = .dead) : Good data before r.p (dead r ch) := by
  rw [dead]
  split
  · exact good_plain h hin hlast (by rw [hs]; rfl)
  · exact good_error h _ (by decide)

theorem startReq_good (hs : r.parser.state = .startReq) : Good data before r.p (startReq r ch) := by
  simp only [startReq]
  split
  · exact good_plain h hin hlast (by rw [hs]; rfl)
  · split
    · exact good_error h _ (by decide)
    · cases firstMethod ch with
      | none => exact good_error h _ (by decide)
      | some m =>
        apply good_update h hin
        · exact h.healthy.opening
        · exact fits_reqMethod rfl (one_le_length m) hlast

theorem startReqOrRes_good (hs : r.parser.state = .startReqOrRes) :
    Good data before r.p (startReqOrRes r ch) := by
  simp only [startReqOrRes]
  split
  · exact good_plain h hin hlast (by rw [hs]; rfl)
  · split
    · apply good_update h hin
      · exact h.healthy.opening
      · exact fits_plain rfl hlast
    · exact startReq_good ch (h.update h.healthy.opening) hin hlast rfl

theorem resOrRespH_good : Good data before r.p (resOrRespH r ch) := by
  simp only [resOrRespH]
  split
  · apply good_update h hin
    · exact h.healthy
    · exact fits_plain rfl hlast
  · split
    · exact good_error h _ (by decide)
    · apply good_update h hin
      · exact h.healthy
      · have hhead : 2 ≤ (methodStrings .head).length := by decide
        exact fits_reqMethod rfl hhead hlast

theorem startRes_good (hs : r.parser.state = .startRes) : Good data before r.p (startRes r ch) := by
  simp only [startRes]
  split
  · apply good_update h hin
    · exact h.healthy.opening
    · exact fits_plain rfl hlast
  · split
    · apply good_update h hin
      · exact h.healthy.opening
      · exact fits_plain (by rw [hs]; rfl) hlast
    · exact good_error h _ (by decide)

theorem expect_good (c : Char) {s : State} (hs : plain s = true) :
    Good data before r.p (expect c s r ch) := by
  apply good_strictCheck h
  intro _
  exact good_state h hin hlast hs

theorem resFirstHttpMajor_good : Good data before r.p (resFirstHttpMajor r ch) := by
  simp only [resFirstHttpMajor]
  split
  · exact good_error h _ (by decide)
  · rename_i hch
    have hle := digit_le (Char.not_lt.mp (not_or.mp hch).2)
    apply good_update h hin
    · exact h.healthy.httpMajor (Nat.le_trans hle (by decide))
    · exact fits_plain rfl hlast

theorem reqFirstHttpMajor_good : Good data before r.p (reqFirstHttpMajor r ch) := by
  simp only [reqFirstHttpMajor]
  split
  · exact good_error h _ (by decide)
  · rename_i hch
    have hle := digit_le (Char.not_lt.mp (not_or.mp hch).2)
    apply good_update h hin
    · exact h.healthy.httpMajor (Nat.le_trans hle (by decide))
    · exact fits_plain rfl hlast

theorem httpMajorDigit_good (hs : plain r.parser.state = true) :
    Good data before r.p (httpMajorDigit r ch) := by
  simp only [httpMajorDigit]
  split
  · exact good_error h _ (by decide)
  · split
    · exact good_error h _ (by decide)
    · rename_i hle
      apply good_update h hin
      · exact h.healthy.httpMajor (Nat.not_lt.mp hle)
      · exact fits_plain hs hlast

theorem httpMinorDigit_good (hs : plain r.parser.state = true) :
    Good data before r.p (httpMinorDigit r ch) := by
  simp only [httpMinorDigit]
  split
  · exact good_error h _ (by decide)
  · split
    · exact good_error h _ (by decide)
    · rename_i hle
      apply good_update h hin
      · exact h.healthy.httpMinor (Nat.not_lt.mp hle)
      · exact fits_plain hs hlast

theorem resHttpMajor_good (hs : r.parser.state = .resHttpMajor) :
    Good data before r.p (resHttpMajor r ch) := by
  rw [resHttpMajor]
  split
  · exact good_state h hin hlast rfl
  · exact httpMajorDigit_good ch h hin hlast (by rw [hs]; rfl)

theorem reqHttpMajor_good (hs : r.parser.state = .reqHttpMajor) :
    Good data before r.p (reqHttpMajor r ch) := by
  rw [reqHttpMajor]
  split
  · exact good_state h hin hlast rfl
  · exact httpMajorDigit_good ch h hin hlast (by rw [hs]; rfl)

theorem firstHttpMinor_good {s : State} (hs : plain s = true) :
    Good data before r.p (firstHttpMinor s r ch) := by
  rw [firstHttpMinor]
  split
  · exact good_error h _ (by decide)
  · rename_i hch
    have hle := digit_le_of_isNum (by simpa using hch)
    apply good_update h hin
    · exact h.healthy.httpMinor (Nat.le_trans hle (by decide))
    · exact fits_plain hs hlast

theorem resHttpMinor_good (hs : r.parser.state = .resHttpMinor) :
    Good data before r.p (resHttpMinor r ch) := by
  rw [resHttpMinor]
  split
  · exact good_state h hin hlast rfl
  · exact httpMinorDigit_good ch h hin hlast (by rw [hs]; rfl)

theorem reqHttpMinor_good (hs : r.parser.state = .reqHttpMinor) :
    Good data before r.p (reqHttpMinor r ch) := by
  rw [reqHttpMinor]
  split
  · exact good_state h hin hlast rfl
  · split
    · exact good_state h hin hlast rfl
    · exact httpMinorDigit_good ch h hin hlast (by rw [hs]; rfl)

theorem resFirstStatusCode_good (hs : r.parser.state = .resFirstStatusCode) :
    Good data before r.p (resFirstStatusCode r ch) := by
  rw [resFirstStatusCode]
  split
  · split
    · exact good_plain h hin hlast (by rw [hs]; rfl)
    · exact good_error h _ (by decide)
  · rename_i hch
    have hle := digit_le_of_isNum (by simpa using hch)
    apply good_update h hin
    · exact h.healthy.statusCode (Nat.le_trans hle (by decide))
    · exact fits_plain rfl hlast

theorem resStatusCode_good (hs : r.parser.state = .resStatusCode) :
    Good data before r.p (resStatusCode r ch) := by
  simp only [resStatusCode]
  split
  · split
    · exact good_state h hin hlast rfl
    · split
      · exact good_state h hin hlast rfl
      · split
        · exact good_state h hin hlast rfl
        · exact good_error h _ (by decide)
  · split
    · exact good_error h _ (by decide)
    · rename_i hle
      apply good_update h hin
      · exact h.healthy.statusCode (Nat.not_lt.mp hle)
      · exact fits_plain (by rw [hs]; rfl) hlast

theorem resStatusStart_good : Good data before r.p (resStatusStart r ch) := by
  simp only [resStatusStart]
  split
  · exact good_state h hin hlast rfl
  · split
    · exact good_state h hin hlast rfl
    · apply good_mark h hin
      · exact (h.mark .status).healthy
      · exact ⟨trivial, rfl, hlast⟩

theorem reqHttpStart_good (hs : r.parser.state = .reqHttpStart) :
    Good data before r.p (reqHttpStart r ch) := by
  rw [reqHttpStart]
  split
  · exact good_state h hin hlast rfl
  · split
    · exact good_plain h hin hlast (by rw [hs]; rfl)
    · exact good_error h _ (by decide)

theorem reqLineAlmostDone_good : Good data before r.p (reqLineAlmostDone r ch) := by
  rw [reqLineAlmostDone]
  split
  · exact good_error h _ (by decide)
  · exact good_state h hin hlast rfl

theorem reqMethod_good (hs : r.parser.state = .reqMethod)
    (hindex : r.parser.index ≤ (methodStrings r.parser.method).length) :
    Good data before r.p (reqMethod r ch) := by
  have hmod : (r.parser.index + 1) % 256 ≤ r.parser.index + 1 := Nat.mod_le _ _
  simp only [reqMethod]
  split
  · exact good_error h _ (by decide)
  · rename_i hnul
    split
    · apply good_update h hin
      · exact h.healthy
      · exact fits_plain rfl hlast
    · split
      · rename_i hmatcher
        have hlt : r.parser.index < (methodStrings r.parser.method).length := by
          by_contra hout
          apply hnul
          rw [hmatcher, List.getD_eq_getElem?_getD, List.getElem?_eq_none (Nat.not_lt.mp hout),
            Option.getD_none]
        apply good_update h hin
        · exact h.healthy
        · exact fits_reqMethod hs (Nat.le_trans hmod hlt) hlast
      · cases hother : otherMethod r.parser.method r.parser.index ch with
        | none => exact good_error h _ (by decide)
        | some m =>
          have hpart := otherMethod_prefix hother
          have hprefix := hpart.length_le
          rw [List.length_append, List.length_take, Nat.min_eq_left hindex] at hprefix
          apply good_update h hin
          · exact h.healthy
          · exact fits_reqMethod hs (Nat.le_trans hmod hprefix) hlast

omit h hin hlast in
/-- A character of a URL leads to a state that reads a URL. -/
theorem pieceOf_parseUrlChar {s : State} {c : Char} (hdead : parseUrlChar s c ≠ .dead) :
    pieceOf (parseUrlChar s c) = some .url := by
  revert hdead
  cases s <;> simp only [parseUrlChar] <;> split_ifs <;> simp [pieceOf]

omit h hin in
private theorem fits_url {parser : Parser} {start : ℕ} (hs : pieceOf parser.state = some .url) :
    Fits parser (some (.url, start)) last := by
  refine ⟨?_, hs, ?_⟩
  · cases h : parser.state <;> simp_all [pieceOf, Ready]
  · cases h : parser.state <;> simp_all [pieceOf, Expects]

end Start

section Url
variable {start : ℕ} (h : At data before r (some (.url, start)) last) (hin : r.p < data.length)
  (hlast : last ≠ some .headerField)
include h hin hlast

theorem urlChar_good : Good data before r.p (urlChar r ch) := by
  simp only [urlChar]
  split
  · exact good_error h _ (by decide)
  · rename_i hdead
    apply good_update h hin
    · exact h.healthy
    · exact fits_url hlast (pieceOf_parseUrlChar hdead)

theorem reqSchema_good : Good data before r.p (reqSchema r ch) := by
  rw [reqSchema]
  split
  · exact good_error h _ (by decide)
  · exact urlChar_good ch h hin hlast

theorem reqUrl_good : Good data before r.p (reqUrl r ch) := by
  have hfollows : Follows last .url := follows_of_ne hlast (by decide)
  have hurl : some Piece.url ≠ some .headerField := by decide
  simp only [reqUrl]
  split
  · exact good_callback (h.updateState .reqHttpStart) hin hfollows (fits_plain rfl hurl)
  · split
    · have hhealthy := (h.healthy.httpMajor (Nat.zero_le _)).httpMinor (n := 9) (by decide)
      apply good_callback ((h.update hhealthy).updateState _) hin hfollows
      apply fits_plain _ hurl
      split <;> rfl
    · exact urlChar_good ch h hin hlast

end Url

theorem reqSpacesBeforeUrl_good (h : At data before r none last) (hin : r.p < data.length)
    (hlast : last ≠ some .headerField) (hs : r.parser.state = .reqSpacesBeforeUrl) :
    Good data before r.p (reqSpacesBeforeUrl r ch) := by
  rw [reqSpacesBeforeUrl]
  split
  · exact good_plain h hin hlast (by rw [hs]; rfl)
  · have hopen := h.mark .url
    simp only [mark_of_closed h.marks] at hopen ⊢
    split
    · exact urlChar_good ch (hopen.updateState _) hin hlast
    · exact urlChar_good ch hopen hin hlast

theorem resStatus_good {start : ℕ} (h : At data before r (some (.status, start)) last)
    (hin : r.p < data.length) (hlast : last ≠ some .headerField) (hs : r.parser.state = .resStatus) :
    Good data before r.p (resStatus r ch) := by
  have hfollows : Follows last .status := follows_of_ne hlast (by decide)
  have hstatus : some Piece.status ≠ some .headerField := by decide
  rw [resStatus]
  split
  · exact good_callback (h.updateState .resLineAlmostDone) hin hfollows (fits_plain rfl hstatus)
  · split
    · exact good_callback (h.updateState .headerFieldStart) hin hfollows (fits_plain rfl hstatus)
    · apply good_next h hin (Nat.le_refl _)
      exact ⟨by simp [Ready, hs], by simp [Opens, hs, pieceOf], by simpa [Expects, hs] using hlast⟩

end States

end OpenSniffer.HttpStartPasses
