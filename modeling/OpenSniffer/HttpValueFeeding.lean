import OpenSniffer.HttpFeeding

/-!
# Values of fields, one character at a time

The loop over a value takes a line of it, or jumps over a part that is of no interest. Both
come to what the machine comes to over these characters.
-/
namespace OpenSniffer.HttpValueFeeding
open HttpParserState HttpParser HttpMessageStart HttpOpenings HttpRuns HttpInvariants HttpHeadPasses
  HttpCalls HttpMirrors HttpFeeding
  StreamFeeds
open HttpReading (Room counted countHeaderSize_of_room)
open HttpFieldLines (headerFieldChar_nread fieldRead_nread headerValueChar_nread)

section Values
variable {data : List Char} {parser : Parser} {r : Run} {c : Char}

theorem startMarks_value (hs : parser.state = .headerValue) :
    (startRun parser).marks = only (some (.headerValue, 0)) := by
  change startMarks parser.state = _
  rw [startMarks_eq, hs]
  rfl

/-- A pass over one character of a value, or over the one behind it. -/
theorem headerValue_single (hs : parser.state = .headerValue) (hnread : parser.nread ≤ 1) (c : Char) :
    headerValue [c] (startRun parser) =
      if c = cr then
        .next (counted (((startRun parser).updateState .headerAlmostDone).callback .headerValue) 0)
      else if c = lf then
        headerAlmostDone ((counted ((startRun parser).updateState .headerAlmostDone) 0).callback .headerValue) c
      else
        match headerValueChar parser parser.headerState c with
        | none => (startRun parser).error .invalidContentLength
        | some (parser', h) => .next (counted ((startRun parser).update { parser' with headerState := h }) 1) := by
  have hch : charAt [c] (startRun parser).p = c := rfl
  have hend : ¬ (startRun parser).p = [c].length := Nat.zero_ne_one
  change headerValueLoop [c] 0 1 (startRun parser) parser.headerState = _
  rw [headerValueLoop]
  simp only [hch, if_neg hend]
  split
  · have hmarks : ((startRun parser).updateState .headerAlmostDone).marks = only (some (.headerValue, 0)) :=
      startMarks_value hs
    have hmarks' : ((startRun parser).update { (startRun parser).parser with
        headerState := parser.headerState, state := .headerAlmostDone }).marks = only (some (.headerValue, 0)) :=
      startMarks_value hs
    rw [Run.callback, Run.callback, callbackTo_of_open hmarks, callbackTo_of_open hmarks', headerValueDone]
    rw [countHeaderSize_of_room]
    · exact if_neg hend
    · exact room_of_le hnread (Nat.zero_le 1)
  · split
    · rw [countHeaderSize_of_room]
      · rfl
      · exact room_of_le hnread (Nat.zero_le 1)
    · rename_i hcr hlf
      by_cases hgeneral : parser.headerState = .general
      · have hjump : valueEnd [c] (startRun parser).p = 1 := by
          obtain ⟨hlt, hle⟩ := @valueEnd_bounds [c] 0 Nat.zero_lt_one hcr hlf
          exact Nat.le_antisymm hle hlt
        have hchar : headerValueChar parser parser.headerState c = some (parser, parser.headerState) := by
          rw [hgeneral]
          change some ({ parser with state := .headerValue }, _) = _
          rw [← hs]
        rw [if_pos hgeneral, hjump, headerValueLoop, headerValueDone, countHeaderSize_of_room, hchar]
        · rfl
        · exact room_of_le hnread (Nat.le_refl 1)
      · rw [if_neg hgeneral]
        have hparser : (startRun parser).parser = parser := rfl
        rw [hparser]
        cases hchar : headerValueChar parser parser.headerState c with
        | none => rfl
        | some next =>
          obtain ⟨parser', h⟩ := next
          obtain ⟨index, contentLength, flags, rfl⟩ := HttpFieldLines.headerValueChar_eq hs hchar
          dsimp only
          rw [headerValueLoop, headerValueDone, countHeaderSize_of_room]
          · rfl
          · exact room_of_le hnread (Nat.le_refl 1)

/-- What a character of a value does does not depend on the state that was kept for it. -/
theorem headerValueChar_headerState (parser : Parser) (h₀ h : HeaderState) (c : Char) :
    headerValueChar { parser with headerState := h₀ } h c =
      (headerValueChar parser h c).map fun (parser, h) => ({ parser with headerState := h₀ }, h) := by
  cases h <;> simp only [headerValueChar] <;> first | rfl | (split_ifs <;> rfl)

theorem headerValueChar_bare (parser : Parser) (h : HeaderState) (c : Char) :
    headerValueChar (bare { parser with headerState := h }) h c =
      (headerValueChar parser h c).map fun next => (bare { next.1 with headerState := h }, next.2) := by
  rw [bare, headerValueChar_nread, headerValueChar_headerState, Option.map_map]
  rfl

/-- The pass over one character, as far as the head is not counted. -/
theorem pass_value (hs : parser.state = .headerValue) (hnread : parser.nread = 0) (c : Char) : ∃ nread ≤ 1,
    pass [c] (startRun parser) = headerValue [c] (startRun { parser with nread := nread }) := by
  obtain ⟨k, hk, hpass⟩ := pass_single hnread c
  have hs' : (startRun { parser with nread := k }).parser.state = .headerValue := hs
  refine ⟨k, hk, ?_⟩
  rw [hpass]
  simp only [dispatch, hs']

theorem feedChar_value {h h' : HeaderState} {parser' : Parser} (hs : parser.state = .headerValue)
    (hline : c ≠ cr ∧ c ≠ lf) (hchar : headerValueChar parser h c = some (parser', h')) :
    feedChar (bare { parser with headerState := h }) c =
      ⟨bare { parser' with headerState := h' }, [(.headerValue, c)], 1, false⟩ := by
  obtain ⟨k, hk, hpass⟩ := @pass_value (bare { parser with headerState := h }) hs rfl c
  have hchar' : headerValueChar { bare { parser with headerState := h } with nread := k }
      ({ bare { parser with headerState := h } with nread := k } : Parser).headerState c =
        some ({ parser' with headerState := h, nread := k }, h') := by
    rw [headerValueChar_nread]
    change (headerValueChar (bare { parser with headerState := h }) h c).map _ = _
    rw [headerValueChar_bare, hchar]
    rfl
  have hs' : ({ bare { parser with headerState := h } with nread := k } : Parser).state = .headerValue := hs
  have hmarks : (counted ((startRun { bare { parser with headerState := h } with nread := k }).update
      { parser' with headerState := h', nread := k }) 1).marks = only (some (.headerValue, 0)) :=
    startMarks_value hs
  rw [feedChar, hpass, headerValue_single hs' hk, if_neg hline.1, if_neg hline.2, hchar']
  exact fedBy_next hmarks c

/-- The search for the end of a value finds the first line end, if it looks that far. -/
theorem valueEnd_cases (data : List Char) {p : ℕ} (hp : p ≤ data.length) :
    (∃ text, text <+: data.drop p ∧ valueEnd data p = p + text.length ∧ ∀ c ∈ text, c ≠ cr ∧ c ≠ lf) ∨
      (valueEnd data p = data.length ∧ httpMaxHeaderSize < data.length - p) := by
  simp only [valueEnd]
  split
  · rename_i i hfound
    obtain ⟨hlt, -, hbefore⟩ := List.findIdx?_eq_some_iff_getElem.mp hfound
    rw [List.length_take, List.length_drop] at hlt
    refine .inl ⟨(data.drop p).take i, List.take_prefix _ _, ?_, ?_⟩
    · rw [List.length_take, List.length_drop]
      omega
    · intro c hc
      obtain ⟨j, hj, rfl⟩ := List.mem_take_iff_getElem.mp hc
      have hnone := hbefore j (by omega)
      rw [List.getElem_take] at hnone
      simpa using hnone
  · rename_i hnone
    by_cases hlong : httpMaxHeaderSize < data.length - p
    · exact .inr ⟨rfl, hlong⟩
    · have hwindow : (data.drop p).take httpMaxHeaderSize = data.drop p := by
        apply List.take_of_length_le
        rw [List.length_drop]
        omega
      rw [hwindow, List.findIdx?_eq_none_iff] at hnone
      refine .inl ⟨data.drop p, List.prefix_rfl, ?_, ?_⟩
      · rw [List.length_drop]
        omega
      · intro c hc
        simpa using hnone c hc

/-- What follows the loop over a value, whatever is counted there. -/
theorem agrees_headerValueDone {text : List (Piece × Char)} {p start : ℕ} {h : HeaderState}
    (hgo : ∀ nread, Agrees data parser text p
      (if r.p = data.length then
        .next { r.update { r.parser with headerState := h, nread := nread } with p := r.p - 1 }
      else .next (r.update { r.parser with headerState := h, nread := nread }))) :
    Agrees data parser text p (headerValueDone data start r h) :=
  agrees_countHeaderSize fun nread _ => hgo nread

section Loop
variable {text : List (Piece × Char)} {position start : ℕ} {h : HeaderState}
  (hs : r.parser.state = .headerValue) (hmarks : r.marks = only (some (.headerValue, position)))
  (hposition : position ≤ r.p)
  (htext : toldText data r.calls ++ openText data (some (.headerValue, position)) r.p = text)
include hs hmarks hposition htext

/-- The two runs at a character of a value. -/
theorem mirrors_value (nread : ℕ) : Mirrors data text r.p (some (.headerValue, position))
    (r.update { r.parser with headerState := h })
    (startRun { bare { r.parser with headerState := h } with nread := nread }) :=
  ⟨rfl, rfl, hposition, rfl, hmarks, startMarks_value hs, htext, List.forall_mem_nil _⟩

omit hs hposition in
theorem valueLast_agrees (hstart : start < r.p) (hend : r.p = data.length) :
    Agrees data (bare { r.parser with headerState := h }) text r.p (headerValueDone data start r h) := by
  apply agrees_headerValueDone
  intro nread
  have hback : r.p - 1 + 1 = r.p := by omega
  rw [if_pos hend]
  exact @agrees_there data text r.p { r with
    p := r.p - 1, parser := { r.parser with headerState := h, nread := nread } } _ hmarks hback htext

private theorem valueCr_agrees (hin : r.p < data.length) (hcr : charAt data r.p = cr) :
    Agrees data (bare { r.parser with headerState := h }) text r.p
      (headerValueDone data start ((r.update { r.parser with
        headerState := h, state := .headerAlmostDone }).callback .headerValue) h) := by
  obtain ⟨k, hk, hpass⟩ := @pass_value (bare { r.parser with headerState := h }) hs rfl (charAt data r.p)
  have hs' : ({ bare { r.parser with headerState := h } with nread := k } : Parser).state = .headerValue := hs
  have hmirrors := (@mirrors_value _ _ text position h hs hmarks hposition htext k).updateState .headerAlmostDone
  apply agrees_headerValueDone
  intro nread
  rw [p_callback, if_neg]
  · apply agrees_of_both hin
    rw [hpass, headerValue_single hs' hk, if_pos hcr]
    refine .next (hmirrors.callback.update ?_)
    simp only [Run.callback, parser_callbackTo]
    rfl
  · exact Nat.ne_of_lt hin

private theorem valueLf_agrees (hin : r.p < data.length) (hlf : charAt data r.p = lf) :
    Agrees data (bare { r.parser with headerState := h }) text r.p
      ((r.updateState .headerAlmostDone).countHeaderSize (r.p - start) fun r =>
        headerAlmostDone ((r.update { r.parser with headerState := h }).callback .headerValue)
          (charAt data r.p)) := by
  obtain ⟨k, hk, hpass⟩ := @pass_value (bare { r.parser with headerState := h }) hs rfl (charAt data r.p)
  have hs' : ({ bare { r.parser with headerState := h } with nread := k } : Parser).state = .headerValue := hs
  have hcr : charAt data r.p ≠ cr := by
    rw [hlf]
    decide
  apply agrees_countHeaderSize
  intro nread _
  have hmirrors := (@mirrors_value _ _ text position h hs hmarks hposition htext k).updateState .headerAlmostDone
  have hcounted : Mirrors data text r.p (some (.headerValue, position))
      (r.update { r.parser with headerState := h, state := .headerAlmostDone, nread := nread })
      (counted ((startRun { bare { r.parser with headerState := h } with nread := k }).updateState
        .headerAlmostDone) 0) := hmirrors.update rfl
  apply agrees_of_both hin
  rw [hpass, headerValue_single hs' hk, if_neg hcr, if_pos hlf]
  exact hcounted.callback.lift (f := fun r' => headerAlmostDone r' (charAt data r.p)) fun _ _ _ h =>
    both_headerAlmostDone _ h

private theorem valueError_agrees (hin : r.p < data.length) (hcr : charAt data r.p ≠ cr) (hlf : charAt data r.p ≠ lf)
    (hchar : headerValueChar r.parser h (charAt data r.p) = none) :
    Agrees data (bare { r.parser with headerState := h }) text r.p
      ((r.update { r.parser with headerState := h }).error .invalidContentLength) := by
  obtain ⟨k, hk, hpass⟩ := @pass_value (bare { r.parser with headerState := h }) hs rfl (charAt data r.p)
  have hs' : ({ bare { r.parser with headerState := h } with nread := k } : Parser).state = .headerValue := hs
  have hmirrors := @mirrors_value _ _ text position h hs hmarks hposition htext k
  have hnone : headerValueChar { bare { r.parser with headerState := h } with nread := k }
      ({ bare { r.parser with headerState := h } with nread := k } : Parser).headerState (charAt data r.p) =
        none := by
    rw [headerValueChar_nread]
    change (headerValueChar (bare { r.parser with headerState := h }) h _).map _ = _
    rw [headerValueChar_bare, hchar]
    rfl
  apply agrees_of_both hin
  rw [hpass, headerValue_single hs' hk, if_neg hcr, if_neg hlf, hnone]
  exact both_error hmirrors (by decide)

end Loop

/-- A character that the machine takes, and what follows it. -/
theorem value_cons {text : List (Piece × Char)} {h h' : HeaderState} {parser' : Parser} {o : Outcome}
    (hs : r.parser.state = .headerValue) (hin : r.p < data.length)
    (hline : charAt data r.p ≠ cr ∧ charAt data r.p ≠ lf)
    (hchar : headerValueChar r.parser h (charAt data r.p) = some (parser', h'))
    (hrest : Agrees data (bare { parser' with headerState := h' }) (text ++ [(.headerValue, charAt data r.p)])
      (r.p + 1) o) : Agrees data (bare { r.parser with headerState := h }) text r.p o := by
  apply Agrees.after _ hrest
  rw [feedFrom_cons hin, feedChar_value hs hline hchar]

/-- The machine takes what the search for the end of a value skips. -/
theorem feed_general {text : List Char} (hs : parser.state = .headerValue)
    (hline : ∀ c ∈ text, c ≠ cr ∧ c ≠ lf) :
    feed feedChar (bare { parser with headerState := .general }) text =
      ⟨bare { parser with headerState := .general }, text.map (Prod.mk .headerValue), text.length, false⟩ := by
  apply feed_fixed
  intro c hc
  have hchar : headerValueChar parser .general c = some (parser, .general) := by
    change some ({ parser with state := .headerValue }, _) = _
    rw [← hs]
  exact feedChar_value hs (hline c hc) hchar

/-- A value whose end was not looked for far enough is too large. -/
theorem valueLong_agrees {text : List (Piece × Char)} {p start : ℕ} {h : HeaderState}
    (hlong : httpMaxHeaderSize < data.length - start) (hnread : r.parser.nread ≤ httpMaxHeaderSize)
    (hlen : data.length + httpMaxHeaderSize < 2 ^ 32) :
    Agrees data parser text p (headerValueDone data start { r with p := data.length } h) := by
  have hover : (r.parser.nread + (data.length - start)) % 2 ^ 32 > httpMaxHeaderSize := by
    rw [Nat.mod_eq_of_lt (by omega)]
    omega
  simp only [headerValueDone, Run.countHeaderSize, Run.update, if_pos hover]
  exact .overflow rfl

private theorem headerValueLoop_end (n start : ℕ) (r : Run) (h : HeaderState) :
    headerValueLoop data start n { r with p := data.length } h =
      headerValueDone data start { r with p := data.length } h := by
  cases n with
  | zero => rfl
  | succ n => exact if_pos rfl

theorem headerValueLoop_agrees {position start : ℕ} (hlen : data.length + httpMaxHeaderSize < 2 ^ 32)
    (hpos : start < data.length) (n : ℕ) {r : Run} {h : HeaderState} {text : List (Piece × Char)}
    (hs : r.parser.state = .headerValue) (hmarks : r.marks = only (some (.headerValue, position)))
    (hposition : position ≤ r.p)
    (htext : toldText data r.calls ++ openText data (some (.headerValue, position)) r.p = text)
    (hnread : r.parser.nread ≤ httpMaxHeaderSize) (hstart : start ≤ r.p)
    (hle : r.p ≤ data.length) (hn : data.length - r.p ≤ n) :
    Agrees data (bare { r.parser with headerState := h }) text r.p (headerValueLoop data start n r h) := by
  induction n generalizing r h text with
  | zero => exact valueLast_agrees hmarks htext (by omega) (by omega)
  | succ n ih =>
    rw [headerValueLoop]
    split
    · rename_i hend
      exact valueLast_agrees hmarks htext (by omega) hend
    · rename_i hend
      have hin : r.p < data.length := Nat.lt_of_le_of_ne hle hend
      split
      · rename_i hcr
        exact valueCr_agrees hs hmarks hposition htext hin hcr
      · rename_i hcr
        split
        · rename_i hlf
          exact valueLf_agrees hs hmarks hposition htext hin hlf
        · rename_i hlf
          split
          · rename_i hgeneral
            subst hgeneral
            obtain ⟨hlt, hle'⟩ := valueEnd_bounds hin hcr hlf
            rcases valueEnd_cases data hle with ⟨skipped, hbegins, hskip, hline⟩ | ⟨hskip, hlong⟩
            · apply Agrees.after (feedFrom_stretch hbegins (feed_general hs hline))
              rw [hskip] at hle' ⊢
              have htext' := @openText_add data .headerValue position r.p hposition skipped.length
              rw [← List.prefix_iff_eq_take.mp hbegins] at htext'
              refine @ih { r with p := r.p + skipped.length } _ _ hs hmarks ?_ ?_ hnread ?_ hle' ?_
              · exact Nat.le_add_right_of_le hposition
              · rw [htext', ← List.append_assoc, htext]
              · exact Nat.le_add_right_of_le hstart
              · dsimp only
                omega
            · have hlong' : httpMaxHeaderSize < data.length - start := by omega
              rw [hskip, headerValueLoop_end]
              exact valueLong_agrees hlong' hnread hlen
          · cases hchar : headerValueChar r.parser h (charAt data r.p) with
            | none => exact valueError_agrees hs hmarks hposition htext hin hcr hlf hchar
            | some next =>
              obtain ⟨parser', h'⟩ := next
              obtain ⟨index, contentLength, flags, rfl⟩ := HttpFieldLines.headerValueChar_eq hs hchar
              apply value_cons hs hin ⟨hcr, hlf⟩ hchar
              have htext' := @openText_add data .headerValue position r.p hposition 1
              rw [drop_eq_cons hin] at htext'
              refine @ih { r with
                  p := r.p + 1
                  parser := { r.parser with index := index, contentLength := contentLength, flags := flags } }
                h' _ hs hmarks ?_ ?_ hnread ?_ hin ?_
              · exact Nat.le_succ_of_le hposition
              · rw [htext', ← List.append_assoc, htext]
                rfl
              · exact Nat.le_succ_of_le hstart
              · dsimp only
                omega

theorem headerValue_agrees {text : List (Piece × Char)} {position : ℕ}
    (hlen : data.length + httpMaxHeaderSize < 2 ^ 32) (hs : r.parser.state = .headerValue)
    (hmarks : r.marks = only (some (.headerValue, position))) (hposition : position ≤ r.p)
    (hin : r.p < data.length)
    (htext : toldText data r.calls ++ openText data (some (.headerValue, position)) r.p = text)
    (hnread : r.parser.nread ≤ httpMaxHeaderSize) :
    Agrees data (bare r.parser) text r.p (headerValue data r) :=
  headerValueLoop_agrees hlen hin _ hs hmarks hposition htext hnread (Nat.le_refl _) hin.le (Nat.le_refl _)

end Values

end OpenSniffer.HttpValueFeeding
