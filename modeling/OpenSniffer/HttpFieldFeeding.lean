import OpenSniffer.HttpFeeding

/-!
# Names of fields, one character at a time

A pass takes the characters of a field's name that the data has. It comes to what the
machine comes to over them.
-/
namespace OpenSniffer.HttpFieldFeeding
open HttpParserState HttpParser HttpMessageStart HttpOpenings HttpRuns HttpInvariants HttpHeadPasses
  HttpCalls HttpMirrors HttpFeeding
  StreamFeeds
open HttpReading (Room counted countHeaderSize_of_room)
open HttpFieldLines (headerFieldChar_nread fieldRead_nread headerValueChar_nread)

section Fields
variable {data : List Char} {parser : Parser} {r : Run} {c : Char}

theorem startMarks_field (hs : parser.state = .headerField) :
    (startRun parser).marks = only (some (.headerField, 0)) := by
  change startMarks parser.state = _
  rw [startMarks_eq, hs]
  rfl

theorem headerFieldChar_uncounted (hnread : parser.nread = 0) (ch c : Char) :
    (headerFieldChar parser ch c).nread = 0 := by
  obtain ⟨index, headerState, heq⟩ := headerFieldChar_eq parser ch c
  rw [heq]
  exact hnread

/-- A pass over one character of a name, or over the one behind it. -/
theorem headerField_single (hnread : parser.nread ≤ 1) (c : Char) :
    headerField [c] (startRun parser) =
      if token c ≠ nul then
        .next (counted ((startRun parser).update (headerFieldChar parser c (token c))) 1)
      else if c = ':' then
        .next (((counted (startRun parser) 0).updateState .headerValueDiscardWs).callback .headerField)
      else (counted (startRun parser) 0).error .invalidHeaderToken := by
  have hstart : (startRun parser).p = 0 := rfl
  simp only [headerField, hstart]
  by_cases hc : token c = nul
  · have hname : fieldName [c] 0 = [] := by simp [fieldName, hc]
    have hloop : headerFieldLoop [c] ([c].length - 0) (startRun parser) = startRun parser := by
      have heq := headerFieldLoop_eq [c] 1 (startRun parser) (Nat.le_refl 1)
      rwa [hstart, hname] at heq
    have hroom : Room (startRun parser) ((startRun parser).p - 0) := room_of_le hnread (Nat.zero_le 1)
    rw [hloop, countHeaderSize_of_room hroom]
    simp [hc, startRun, counted, Run.update, charAt]
  · have hname : fieldName [c] 0 = [c] := by simp [fieldName, hc]
    have hloop : headerFieldLoop [c] ([c].length - 0) (startRun parser) =
        { (startRun parser).update (headerFieldChar parser c (token c)) with p := 1 } := by
      have heq := headerFieldLoop_eq [c] 1 (startRun parser) (Nat.le_refl 1)
      rwa [hstart, hname] at heq
    obtain ⟨index, headerState, heq⟩ := headerFieldChar_eq parser c (token c)
    have hroom : Room { (startRun parser).update (headerFieldChar parser c (token c)) with p := 1 } (1 - 0) := by
      rw [heq]
      exact room_of_le hnread (Nat.le_refl 1)
    rw [hloop, countHeaderSize_of_room hroom]
    simp [hc, startRun, counted, Run.update]

private theorem feedChar_field (hs : parser.state = .headerField) (hnread : parser.nread = 0) (hc : token c ≠ nul) :
    feedChar parser c = ⟨headerFieldChar parser c (token c), [(.headerField, c)], 1, false⟩ := by
  obtain ⟨k, hk, hpass⟩ := pass_single hnread c
  have hs' : (startRun { parser with nread := k }).parser.state = .headerField := hs
  have hmarks : (counted ((startRun { parser with nread := k }).update
      (headerFieldChar { parser with nread := k } c (token c))) 1).marks = only (some (.headerField, 0)) :=
    startMarks_field hs
  have hbare : bare (headerFieldChar { parser with nread := k } c (token c)) =
      headerFieldChar parser c (token c) := by
    rw [headerFieldChar_nread, ← bare_eq (headerFieldChar_uncounted hnread c (token c))]
    rfl
  rw [feedChar, hpass]
  simp only [dispatch, hs']
  rw [headerField_single hk, if_pos hc, fedBy_next hmarks, ← hbare]
  rfl

private theorem feed_name {name : List Char} (hs : parser.state = .headerField) (hnread : parser.nread = 0)
    (hname : ∀ c ∈ name, token c ≠ nul) :
    feed feedChar parser name =
      ⟨fieldRead parser name, name.map (Prod.mk .headerField), name.length, false⟩ := by
  apply feed_steady (P := fun parser => parser.state = .headerField ∧ parser.nread = 0) _ ⟨hs, hnread⟩
  intro parser hparser c hc
  obtain ⟨hs, hnread⟩ := hparser
  refine ⟨feedChar_field hs hnread (hname c hc), ?_, headerFieldChar_uncounted hnread c _⟩
  obtain ⟨index, headerState, heq⟩ := headerFieldChar_eq parser c (token c)
  rw [heq]
  exact hs

/-- Behind the name the machine's pass and the one in the data end the same. -/
theorem fieldEnd_agrees {text : List (Piece × Char)} {start : ℕ} (hs : r.parser.state = .headerField)
    (hmarks : r.marks = only (some (.headerField, start))) (hstart : start ≤ r.p) (hin : r.p < data.length)
    (hend : token (charAt data r.p) = nul)
    (htext : toldText data r.calls ++ openText data (some (.headerField, start)) r.p = text) :
    Agrees data (bare r.parser) text r.p
      (if charAt data r.p = ':' then .next ((r.updateState .headerValueDiscardWs).callback .headerField)
        else r.error .invalidHeaderToken) := by
  apply agrees_of_both hin
  obtain ⟨k, hk, hpass⟩ := @pass_single (bare r.parser) rfl (charAt data r.p)
  have hs' : (startRun { bare r.parser with nread := k }).parser.state = .headerField := hs
  rw [hpass]
  simp only [dispatch, hs']
  rw [headerField_single hk, if_neg (not_not.mpr hend)]
  have hmirrors : Mirrors data text r.p (some (.headerField, start)) r
      (counted (startRun { bare r.parser with nread := k }) 0) :=
    ⟨rfl, rfl, hstart, rfl, hmarks, startMarks_field hs, htext, List.forall_mem_nil _⟩
  apply both_ite
  · intro _
    exact .next (hmirrors.updateState _).callback
  · intro _
    exact both_error hmirrors (by decide)

theorem token_behind {p : ℕ} (h : p + (fieldName data p).length < data.length) :
    token (charAt data (p + (fieldName data p).length)) = nul := by
  have hsplit := @List.takeWhile_append_dropWhile _ (fun ch => token ch ≠ nul) (data.drop p)
  have hrest : data.drop (p + (fieldName data p).length) =
      (data.drop p).dropWhile fun ch => token ch ≠ nul := by
    rw [← List.drop_drop]
    conv_lhs => rw [← hsplit]
    exact List.drop_left
  have hhead := List.head?_dropWhile_not (fun ch => decide (token ch ≠ nul)) (data.drop p)
  rw [← hrest, drop_eq_cons h] at hhead
  simpa using hhead

theorem headerField_agrees {text : List (Piece × Char)} {start : ℕ} (hs : r.parser.state = .headerField)
    (hmarks : r.marks = only (some (.headerField, start))) (hstart : start ≤ r.p) (hin : r.p < data.length)
    (htext : toldText data r.calls ++ openText data (some (.headerField, start)) r.p = text) :
    Agrees data (bare r.parser) text r.p (headerField data r) := by
  have hbegins : fieldName data r.p <+: data.drop r.p := List.takeWhile_prefix _
  have hname : ∀ c ∈ fieldName data r.p, token c ≠ nul := by
    intro c hc
    simpa using List.mem_takeWhile_imp hc
  have hinside := fieldName_le hin.le
  have hbehind := @token_behind data r.p
  have hfeed := feedFrom_stretch hbegins (@feed_name (bare r.parser) _ hs rfl hname)
  have htext' := @openText_add data .headerField start r.p hstart (fieldName data r.p).length
  rw [← List.prefix_iff_eq_take.mp hbegins] at htext'
  have hread : fieldRead (bare r.parser) (fieldName data r.p) = bare (fieldRead r.parser (fieldName data r.p)) :=
    fieldRead_nread _ _ _
  have hstate : (fieldRead r.parser (fieldName data r.p)).state = .headerField := by
    obtain ⟨index, headerState, heq⟩ := HttpFieldLines.fieldRead_same r.parser (fieldName data r.p)
    rw [heq]
    exact hs
  rw [hread] at hfeed
  simp only [headerField]
  rw [headerFieldLoop_eq data _ r (Nat.le_refl _)]
  apply agrees_countHeaderSize
  intro nread hnread
  refine .after hfeed ?_
  generalize (fieldName data r.p).length = n at *
  have htext'' : toldText data r.calls ++ openText data (some (.headerField, start)) (r.p + n) =
      text ++ (fieldName data r.p).map (Prod.mk .headerField) := by
    rw [htext', ← List.append_assoc, htext]
  split
  · rename_i hend
    have hback : r.p + n - 1 + 1 = r.p + n := by
      have hend' : r.p + n = data.length := hend
      omega
    exact @agrees_there data _ _ { r with
        p := r.p + n - 1, parser := { fieldRead r.parser (fieldName data r.p) with nread := nread } }
      (some (.headerField, start)) hmarks hback htext''
  · rename_i hend
    have hin' : r.p + n < data.length := Nat.lt_of_le_of_ne hinside hend
    exact @fieldEnd_agrees data { r with p := r.p + n, parser := { fieldRead r.parser _ with nread := nread } }
      _ start hstate hmarks (Nat.le_add_right_of_le hstart) hin' (hbehind hin') htext''

end Fields

end OpenSniffer.HttpFieldFeeding
