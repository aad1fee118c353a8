import OpenSniffer.HttpInvariants

/-!
# Passes over the header

In each state of a field's name, of its value, and of the end of a header, a pass is good.
A pass takes a name, or a line of a value, as far as the data goes.
-/
namespace OpenSniffer.HttpHeadPasses
open HttpParserState HttpParser HttpMessageStart HttpOpenings HttpRuns HttpInvariants

section States
variable {data : List Char} {before last : Option Piece} {r : Run} (ch : Char)

section Headers
variable (h : At data before r none last) (hin : r.p < data.length)
  (hlast : last ≠ some .headerField)
include h hin hlast

omit hlast in
theorem stopped_upgrade {parser : Parser} (hhealthy : Healthy parser) (hready : Ready parser)
    (hupgrade : parser.upgrade = true) :
    Good data before r.p (.stop (r.update parser) (r.p + 1)) :=
  ⟨hin, ⟨last, h.told_all⟩, fun _ => ⟨hupgrade, hhealthy, hready⟩⟩

private theorem messageDone_good : Good data before r.p (messageDone r) :=
  messageDone_told hin h.healthy h.marks (h.told.mono (Nat.le_succ _)) hlast

private theorem headersDone_good : Good data before r.p (headersDone r ch) := by
  have hhealthy := h.healthy.uncounted
  have hdone : ∀ parser : Parser, parser.state = newMessage { r.parser with nread := 0 } →
      Fits parser none last := by
    intro parser hs
    apply fits_plain _ hlast
    rw [hs]
    exact plain_newMessage _
  simp only [headersDone]
  apply good_strictCheck h
  intro _
  split
  · rename_i hupgrade
    exact stopped_upgrade h hin hhealthy (hdone _ rfl).ready hupgrade.1
  · split
    · exact good_update h hin hhealthy (hdone _ rfl)
    · split
      · rename_i hchunked
        exact good_update h hin hhealthy ⟨⟨rfl, hchunked⟩, .inl rfl, hlast⟩
      · split
        · exact good_update h hin hhealthy (hdone _ rfl)
        · rename_i hzero
          split
          · rename_i hmax
            exact good_update h hin hhealthy ⟨⟨hzero, hmax⟩, .inr rfl, hlast⟩
          · split
            · exact good_update h hin hhealthy (hdone _ rfl)
            · exact good_update h hin hhealthy ⟨trivial, .inr rfl, hlast⟩

theorem headersAlmostDone_good : Good data before r.p (headersAlmostDone r ch) := by
  simp only [headersAlmostDone]
  apply good_strictCheck h
  intro _
  split
  · have hdone := messageDone_good (h.updateState .messageDone) hin hlast
    exact hdone
  · exact headersDone_good ch (h.update h.healthy) hin hlast

theorem headerFieldStart_good : Good data before r.p (headerFieldStart r ch) := by
  simp only [headerFieldStart]
  split
  · exact good_state h hin hlast rfl
  · split
    · exact headersAlmostDone_good ch (h.updateState .headersAlmostDone) hin hlast
    · split
      · exact good_error h _ (by decide)
      · apply good_mark h hin
        · exact (h.mark .headerField).healthy
        · refine ⟨?_, rfl, hlast⟩
          change readsField _ = true
          dsimp only
          split <;> rfl

end Headers

/-- A match goes on, is complete, or fails. -/
theorem matching_rule {P : HeaderState → Prop} {miss matched same : HeaderState} (hmiss : P miss)
    (hmatched : P matched) (hsame : P same) (text : List Char) (index : ℕ) (c : Char) :
    P (matching text index c miss matched same) := by
  rw [matching]
  split_ifs
  · exact hmiss
  · exact hmatched
  · exact hsame

private theorem readsField_headerFieldChar {parser : Parser} (h : readsField parser.headerState = true)
    (ch c : Char) : readsField (headerFieldChar parser ch c).headerState = true := by
  cases hs : parser.headerState <;> rw [hs] at h <;> simp only [headerFieldChar, hs]
  case c | co | con => split_ifs <;> rfl
  case matchingConnection | matchingProxyConnection | matchingContentLength
      | matchingTransferEncoding | matchingUpgrade =>
    exact matching_rule (P := fun h => readsField h = true) rfl rfl rfl _ _ _
  case connection | contentLength | transferEncoding | upgrade =>
    split_ifs
    · rfl
    · rw [hs]
      rfl
  case general => rfl
  all_goals cases h

/-- A character of a field changes what the parser knows of the field's name only. -/
theorem headerFieldChar_eq (parser : Parser) (ch c : Char) : ∃ index headerState,
    headerFieldChar parser ch c = { parser with index := index, headerState := headerState } := by
  rw [headerFieldChar]
  split <;> (try split) <;> exact ⟨_, _, rfl⟩

theorem fieldRead_eq {parser : Parser} (h : readsField parser.headerState = true) (name : List Char) :
    ∃ index headerState, readsField headerState = true ∧
      fieldRead parser name = { parser with index := index, headerState := headerState } := by
  induction name generalizing parser with
  | nil => exact ⟨parser.index, parser.headerState, h, rfl⟩
  | cons ch name ih =>
    have hreads := readsField_headerFieldChar h ch (token ch)
    obtain ⟨index, headerState, heq⟩ := headerFieldChar_eq parser ch (token ch)
    obtain ⟨index', headerState', hreads', heq'⟩ := ih hreads
    refine ⟨index', headerState', hreads', ?_⟩
    change fieldRead (headerFieldChar parser ch (token ch)) name = _
    rw [heq', heq]

theorem fieldName_le {p : ℕ} (hp : p ≤ data.length) : p + (fieldName data p).length ≤ data.length := by
  have hle := (List.takeWhile_sublist (l := data.drop p) fun ch => token ch ≠ nul).length_le
  rw [List.length_drop] at hle
  simp only [fieldName]
  omega

theorem headerField_good {start : ℕ} (h : At data before r (some (.headerField, start)) last)
    (hin : r.p < data.length) (hs : r.parser.state = .headerField)
    (hready : readsField r.parser.headerState = true) (hlast : last ≠ some .headerField) :
    Good data before r.p (headerField data r) := by
  obtain ⟨index, headerState, hreads, heq⟩ := fieldRead_eq hready (fieldName data r.p)
  have hinside := fieldName_le hin.le
  simp only [headerField]
  rw [headerFieldLoop_eq data _ r (Nat.le_refl _), heq]
  generalize (fieldName data r.p).length = n at hinside ⊢
  have hat := @At.goto _ _ _ _ _ _ _ h { r.parser with index := index, headerState := headerState } h.healthy
    (Nat.le_add_right r.p n) hinside
  apply good_countHeaderSize hat
  intro nread hcounted
  have hfits : ∀ parser : Parser, parser.state = .headerField → parser.headerState = headerState →
      Fits parser (some (.headerField, start)) last := by
    intro parser hs' hh
    exact ⟨by simpa [Ready, hs', hh] using hreads, by simp [Opens, hs', pieceOf], by simpa [Expects, hs'] using hlast⟩
  split
  · rename_i hend
    apply good_last hcounted hend
    · simp only [Run.update] at hend ⊢
      omega
    · exact hfits _ hs rfl
  · rename_i hend
    split
    · have hin' : r.p + n < data.length := Nat.lt_of_le_of_ne hinside hend
      have hfollows : Follows last .headerField := follows_of_ne hlast (by decide)
      apply Good.of_le _ (Nat.le_add_right r.p n)
      exact good_callback (hcounted.updateState .headerValueDiscardWs) hin' hfollows
        ⟨trivial, .inl rfl, rfl⟩
    · exact good_error hcounted _ (by decide)

theorem fits_headerValue {parser : Parser} {start : ℕ} (hs : parser.state = .headerValue)
    (hreads : readsValue parser.headerState = true)
    (hlast : last = some .headerField ∨ last = some .headerValue) :
    Fits parser (some (.headerValue, start)) last :=
  ⟨by simpa [Ready, hs] using hreads, by simp [Opens, hs, pieceOf], by simpa [Expects, hs] using hlast⟩

theorem follows_headerValue (hlast : last = some .headerField ∨ last = some .headerValue) :
    Follows last .headerValue :=
  ⟨fun _ => rfl, fun _ => hlast⟩

section Values
variable (h : At data before r none last) (hin : r.p < data.length)
include h hin

theorem headerValueStart_good (hlast : last = some .headerField ∨ last = some .headerValue) :
    Good data before r.p (headerValueStart r ch) := by
  have hhealthy := (h.mark .headerValue).healthy
  simp only [headerValueStart]
  split
  · exact good_mark h hin hhealthy (fits_headerValue rfl rfl hlast)
  · refine good_mark h hin hhealthy (fits_headerValue rfl ?_ hlast)
    split_ifs <;> rfl
  · split
    · rw [← p_mark r .headerValue]
      exact good_error (h.mark .headerValue) _ (by decide)
    · rename_i hstate hch
      have hle := digit_le_of_isNum (by simpa using hch)
      refine good_mark h hin (hhealthy.contentLength (Nat.le_trans hle (by decide))) ?_
      refine fits_headerValue rfl ?_ hlast
      change readsValue ((r.mark .headerValue).updateState .headerValue).parser.headerState = true
      rw [hstate]
      rfl
  · refine good_mark h hin hhealthy (fits_headerValue rfl ?_ hlast)
    split_ifs <;> rfl
  · rename_i hstate
    refine good_mark h hin hhealthy (fits_headerValue rfl ?_ hlast)
    change readsValue ((r.mark .headerValue).updateState .headerValue).parser.headerState = true
    rw [hstate]
    rfl
  · exact good_mark h hin hhealthy (fits_headerValue rfl rfl hlast)

theorem headerValueDiscardWs_good (hlast : last = some .headerField)
    (hs : r.parser.state = .headerValueDiscardWs) :
    Good data before r.p (headerValueDiscardWs r ch) := by
  rw [headerValueDiscardWs]
  split
  · apply good_next h hin (Nat.le_refl _)
    exact ⟨by simp [Ready, hs], by simp [Opens, hs, pieceOf], by simpa [Expects, hs] using hlast⟩
  · split
    · exact good_update h hin h.healthy ⟨trivial, .inl rfl, hlast⟩
    · split
      · exact good_update h hin h.healthy ⟨trivial, .inl rfl, hlast⟩
      · exact headerValueStart_good ch h hin (.inl hlast)

theorem expect_headerValueDiscardLws_good (hlast : last = some .headerField) :
    Good data before r.p (expect lf .headerValueDiscardLws r ch) := by
  apply good_strictCheck h
  intro _
  exact good_update h hin h.healthy ⟨trivial, .inl rfl, hlast⟩

theorem headerAlmostDone_good (hlast : last = some .headerValue) :
    Good data before r.p (headerAlmostDone r ch) := by
  apply good_strictCheck h
  intro _
  exact good_update h hin h.healthy ⟨trivial, .inl rfl, hlast⟩

theorem headerValueLws_good (hlast : last = some .headerValue) :
    Good data before r.p (headerValueLws r ch) := by
  have hne : last ≠ some .headerField := by
    rw [hlast]
    decide
  simp only [headerValueLws]
  split
  · exact headerValueStart_good ch (h.updateState .headerValueStart) hin (.inr hlast)
  · exact headerFieldStart_good ch (h.update h.healthy) hin hne

theorem headerValueDiscardLws_good (hlast : last = some .headerField) :
    Good data before r.p (headerValueDiscardLws r ch) := by
  simp only [headerValueDiscardLws]
  split
  · exact good_update h hin h.healthy ⟨trivial, .inl rfl, hlast⟩
  · have hflags := @At.update _ _ _ _ _ h { r.parser with
      flags := headerFlags r.parser.headerState r.parser.flags } h.healthy
    have htold := ((hflags.mark .headerValue).updateState .headerFieldStart).callback
      (follows_headerValue (.inl hlast))
    have hne : some Piece.headerValue ≠ some .headerField := by decide
    have hp : ((((r.update { r.parser with
        flags := headerFlags r.parser.headerState r.parser.flags }).mark .headerValue).updateState
          .headerFieldStart).callback .headerValue).p = r.p := by
      rw [p_callback]
      exact p_mark _ _
    rw [← hp] at hin ⊢
    exact headerFieldStart_good ch htold hin hne

end Values

theorem headerValueChar_keeps {parser parser' : Parser} {h h' : HeaderState}
    (hhealthy : Healthy parser) (hs : parser.state = .headerValue) (hreads : readsValue h = true)
    (hchar : headerValueChar parser h ch = some (parser', h')) :
    Healthy parser' ∧ parser'.state = .headerValue ∧ readsValue h' = true := by
  cases h <;> simp only [headerValueChar] at hchar
  case connection | transferEncoding => cases hreads
  case contentLength =>
    split at hchar
    · cases hchar
      exact ⟨hhealthy, hs, rfl⟩
    · split at hchar
      · cases hchar
      · rename_i hnum
        split at hchar
        · cases hchar
        · rename_i hle
          cases hchar
          have hdigit := digit_le_of_isNum (by simpa using hnum)
          refine ⟨hhealthy.contentLength ?_, hs, rfl⟩
          simp only [ullongMax] at hle ⊢
          omega
  case matchingTransferEncodingChunked | matchingConnectionKeepAlive | matchingConnectionClose
      | matchingConnectionUpgrade =>
    cases hchar
    exact ⟨hhealthy, hs, matching_rule (P := fun h => readsValue h = true) rfl rfl rfl _ _ _⟩
  case matchingConnectionTokenStart =>
    cases hchar
    refine ⟨hhealthy, hs, ?_⟩
    split_ifs <;> rfl
  case transferEncodingChunked =>
    cases hchar
    refine ⟨hhealthy, hs, ?_⟩
    split <;> rfl
  case matchingConnectionToken =>
    split at hchar <;> cases hchar <;> exact ⟨hhealthy, hs, rfl⟩
  case connectionKeepAlive | connectionClose | connectionUpgrade =>
    split at hchar <;> cases hchar
    · exact ⟨hhealthy, hs, rfl⟩
    · refine ⟨hhealthy, hs, ?_⟩
      split <;> rfl
  all_goals
    cases hchar
    exact ⟨hhealthy, rfl, rfl⟩

theorem headerValueDone_told {start : ℕ} {h : HeaderState} (hat : At data before r none (some .headerValue))
    (hs : r.parser.state = .headerAlmostDone) (hp : start ≤ r.p) (hin : r.p < data.length) :
    Good data before start (headerValueDone data start r h) := by
  apply good_countHeaderSize (@At.update _ _ _ _ _ hat { r.parser with headerState := h } hat.healthy)
  intro nread hcounted
  split
  · rename_i hend
    exact absurd hend (Nat.ne_of_lt hin)
  · apply Good.of_le _ hp
    apply good_next hcounted hin (Nat.le_refl _)
    refine ⟨?_, ?_, ?_⟩
    · simp [Ready, Run.update, hs]
    · simp [Opens, Run.update, hs, pieceOf]
    · simp [Expects, Run.update, hs]

/-- The line feed that ends a value is handled again behind it. -/
theorem headerAlmostDone_told {position : ℕ} (hat : At data before r (some (.headerValue, position)) last)
    (hin : r.p < data.length) (hlast : last = some .headerField ∨ last = some .headerValue) :
    Good data before r.p (headerAlmostDone (r.callback .headerValue) ch) := by
  rw [← p_callback r .headerValue] at hin ⊢
  exact headerAlmostDone_good ch (hat.callback (follows_headerValue hlast)) hin rfl

section ValueLoop
variable {start position : ℕ} {h : HeaderState} (hstart : start < data.length)
  (hlast : last = some .headerField ∨ last = some .headerValue)
include hstart hlast

/-- A value that goes on behind the data. -/
theorem headerValueDone_last (hat : At data before r (some (.headerValue, position)) last)
    (hs : r.parser.state = .headerValue) (hreads : readsValue h = true) (hend : r.p = data.length) :
    Good data before start (headerValueDone data start r h) := by
  apply good_countHeaderSize (@At.update _ _ _ _ _ hat { r.parser with headerState := h } hat.healthy)
  intro nread hcounted
  split
  · apply good_last hcounted hend
    · change start < r.p
      omega
    · exact fits_headerValue hs hreads hlast
  · rename_i hne
    exact absurd hend hne

private theorem headerValueLoop_good (n : ℕ) (r : Run) (h : HeaderState)
    (hat : At data before r (some (.headerValue, position)) last)
    (hs : r.parser.state = .headerValue) (hreads : readsValue h = true) (hp : start ≤ r.p)
    (hn : data.length - r.p ≤ n) : Good data before start (headerValueLoop data start n r h) := by
  have hinside := hat.inside
  induction n generalizing r h with
  | zero => exact headerValueDone_last hstart hlast hat hs hreads (by omega)
  | succ n ih =>
    simp only [headerValueLoop]
    split
    · rename_i hend
      exact headerValueDone_last hstart hlast hat hs hreads hend
    · rename_i hend
      have hin : r.p < data.length := by omega
      split
      · have hended : At data before (r.update { r.parser with
            headerState := h, state := .headerAlmostDone }) (some (.headerValue, position)) last :=
          hat.update hat.healthy
        apply headerValueDone_told (hended.callback (follows_headerValue hlast))
        · rw [Run.callback, parser_callbackTo]
          rfl
        · rw [p_callback]
          exact hp
        · rw [p_callback]
          exact hin
      · rename_i hcr
        split
        · apply good_countHeaderSize (hat.updateState .headerAlmostDone)
          intro nread hcounted
          refine Good.of_le (headerAlmostDone_told _ (hcounted.update ?_) hin hlast) hp
          exact hcounted.healthy
        · rename_i hlf
          split
          · obtain ⟨hlt, hle⟩ := valueEnd_bounds hin hcr hlf
            have hskipped := hat.goto hat.healthy hlt.le hle
            exact ih _ h hskipped hs hreads (Nat.le_trans hp hlt.le) (by simp only; omega) hle
          · cases hchar : headerValueChar r.parser h (charAt data r.p) with
            | none => exact (good_error hat _ (by decide))
            | some next =>
              obtain ⟨parser', h'⟩ := next
              obtain ⟨hhealthy, hs', hreads'⟩ := headerValueChar_keeps _ hat.healthy hs hreads hchar
              have hread := hat.goto hhealthy (Nat.le_succ r.p) hin
              exact ih _ h' hread hs' hreads' (Nat.le_succ_of_le hp) (by simp only; omega) hin

omit hstart in
theorem headerValue_good (hat : At data before r (some (.headerValue, position)) last)
    (hs : r.parser.state = .headerValue) (hreads : readsValue r.parser.headerState = true)
    (hin : r.p < data.length) : Good data before r.p (headerValue data r) :=
  headerValueLoop_good hin hlast _ r _ hat hs hreads (Nat.le_refl _) (Nat.le_refl _)

end ValueLoop

end States

end OpenSniffer.HttpHeadPasses
