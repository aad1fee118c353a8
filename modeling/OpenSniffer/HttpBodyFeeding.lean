import OpenSniffer.HttpFeeding

/-!
# Bodies, one character at a time

A pass takes as much of a body, or of a chunk, as the data has. The last character is taken
as the machine takes it.
-/
namespace OpenSniffer.HttpBodyFeeding
open HttpParserState HttpParser HttpMessageStart HttpOpenings HttpRuns HttpInvariants HttpCalls
  HttpMirrors HttpFeeding
  StreamFeeds
open HttpReading (Room counted countHeaderSize_of_room)
open HttpFieldLines (headerFieldChar_nread fieldRead_nread headerValueChar_nread)

section Bodies
variable {data : List Char} {parser : Parser} {r : Run} {c : Char}

theorem startMarks_body (hs : pieceOf parser.state = some .body) : (startRun parser).marks = only none := by
  change startMarks parser.state = _
  rw [startMarks_eq, resumed, hs]

/-- A body is open from its first character on. -/
theorem openText_body {text : List (Piece × Char)} {opened : Option (Piece × ℕ)} (hmarks : r.marks = only opened)
    (hbody : ∀ piece start, opened = some (piece, start) → piece = .body) (hle : untold opened r.p ≤ r.p)
    (htext : toldText data r.calls ++ openText data opened r.p = text) :
    ∃ start ≤ r.p, r.mark .body = { r with marks := only (some (.body, start)) } ∧
      toldText data r.calls ++ openText data (some (.body, start)) r.p = text := by
  cases opened with
  | none =>
    refine ⟨r.p, Nat.le_refl _, mark_of_closed hmarks _, ?_⟩
    rw [← htext, openText, openText, Nat.sub_self, List.take_zero, List.map_nil]
  | some o =>
    obtain ⟨piece, start⟩ := o
    obtain rfl := hbody piece start rfl
    rw [mark_of_open hmarks]
    refine ⟨start, hle, ?_, htext⟩
    rw [← hmarks]

private theorem feedChar_eof (hs : parser.state = .bodyIdentityEof) (hnread : parser.nread = 0) :
    feedChar parser c = ⟨parser, [(.body, c)], 1, false⟩ := by
  obtain ⟨k, hk, hpass⟩ := pass_single hnread c
  have hs' : (startRun { parser with nread := k }).parser.state = .bodyIdentityEof := hs
  have hmarks : (startRun { parser with nread := k }).marks = only none := startMarks_body (by
    rw [hs]
    rfl)
  rw [feedChar, hpass]
  simp only [dispatch, hs', bodyIdentityEof, mark_of_closed hmarks]
  rw [@fedBy_next _ (some (.body, 0)) rfl]
  exact congrArg (fun parser => (⟨parser, [(.body, c)], 1, false⟩ : Fed Parser (Piece × Char))) (bare_eq hnread)

theorem bodyIdentityEof_agrees {text : List (Piece × Char)} {opened : Option (Piece × ℕ)}
    (hs : r.parser.state = .bodyIdentityEof) (hmarks : r.marks = only opened)
    (hbody : ∀ piece start, opened = some (piece, start) → piece = .body) (hle : untold opened r.p ≤ r.p)
    (hin : r.p < data.length) (htext : toldText data r.calls ++ openText data opened r.p = text) :
    Agrees data (bare r.parser) text r.p (bodyIdentityEof data r) := by
  obtain ⟨start, hstart, hmark, htext'⟩ := openText_body hmarks hbody hle htext
  have hfixed : feed feedChar (bare r.parser) (data.drop r.p) =
      ⟨bare r.parser, (data.drop r.p).map (Prod.mk .body), (data.drop r.p).length, false⟩ :=
    feed_fixed fun c _ => feedChar_eof hs rfl
  have hlen : r.p + (data.drop r.p).length = data.length - 1 + 1 := by
    rw [List.length_drop]
    omega
  have hopen := @openText_add data .body start r.p hstart (data.drop r.p).length
  rw [List.take_length, hlen] at hopen
  refine .after (feedFrom_stretch List.prefix_rfl hfixed) ?_
  rw [bodyIdentityEof, hmark, hlen]
  refine @agrees_there data _ _ { r with p := data.length - 1, marks := only (some (.body, start)) }
    (some (.body, start)) rfl rfl ?_
  rw [hopen, ← List.append_assoc, htext']

/-- The run at the last of the characters of a body that a pass takes. -/
def inBody (r : Run) (start n : ℕ) : Run :=
  { r with
    marks := only (some (.body, start))
    p := r.p + n
    parser := { r.parser with contentLength := r.parser.contentLength - (n + 1) } }

section Parts
variable {start n : ℕ} (hmark : r.mark .body = { r with marks := only (some (.body, start)) })
  (hread : min r.parser.contentLength (data.length - r.p) = n + 1)
include hmark hread

theorem bodyIdentity_eq : bodyIdentity data r =
    if (inBody r start n).parser.contentLength = 0 then
      messageDone (((inBody r start n).updateState .messageDone).callbackTo .body ((inBody r start n).p + 1))
    else .next (inBody r start n) := by
  simp only [bodyIdentity, hmark, hread]
  rfl

theorem chunkData_eq : chunkData data r =
    .next (if (inBody r start n).parser.contentLength = 0 then (inBody r start n).updateState .chunkDataAlmostDone
      else inBody r start n) := by
  simp only [chunkData, hmark, hread]
  rfl

end Parts

theorem mark_startRun (hs : pieceOf parser.state = some .body) :
    (startRun parser).mark .body = { startRun parser with marks := only (some (.body, 0)) } :=
  mark_of_closed (startMarks_body hs) _

theorem read_startRun (hzero : parser.contentLength ≠ 0) (c : Char) :
    min (startRun parser).parser.contentLength ([c].length - (startRun parser).p) = 0 + 1 := by
  change min parser.contentLength 1 = 1
  omega

theorem feedChar_part (hs : parser.state = .bodyIdentity ∨ parser.state = .chunkData) (hnread : parser.nread = 0)
    (hlength : 1 < parser.contentLength) :
    feedChar parser c = ⟨{ parser with contentLength := parser.contentLength - 1 }, [(.body, c)], 1, false⟩ := by
  obtain ⟨k, hk, hpass⟩ := pass_single hnread c
  have hmark := @mark_startRun { parser with nread := k } (by
    rcases hs with hs | hs <;> rw [hs] <;> rfl)
  have hread := @read_startRun { parser with nread := k } (by
    dsimp only
    omega) c
  have hrest : ¬ (inBody (startRun { parser with nread := k }) 0 0).parser.contentLength = 0 := by
    change ¬ parser.contentLength - 1 = 0
    omega
  have hnext : fedBy c (.next (inBody (startRun { parser with nread := k }) 0 0)) =
      ⟨{ parser with contentLength := parser.contentLength - 1 }, [(.body, c)], 1, false⟩ := by
    rw [@fedBy_next _ (some (.body, 0)) rfl, ← @bare_eq { parser with contentLength := parser.contentLength - 1 } hnread]
    rfl
  rw [feedChar, hpass]
  rcases hs with hs | hs
  · have hs' : (startRun { parser with nread := k }).parser.state = .bodyIdentity := hs
    simp only [dispatch, hs']
    rw [bodyIdentity_eq hmark hread, if_neg hrest, hnext]
  · have hs' : (startRun { parser with nread := k }).parser.state = .chunkData := hs
    simp only [dispatch, hs']
    rw [chunkData_eq hmark hread, if_neg hrest, hnext]

/-- The machine takes a part of a body that does not complete it. -/
theorem feed_part {text : List Char} (hs : parser.state = .bodyIdentity ∨ parser.state = .chunkData)
    (hnread : parser.nread = 0) (hlength : text.length < parser.contentLength) :
    feed feedChar parser text = ⟨{ parser with contentLength := parser.contentLength - text.length },
      text.map (Prod.mk .body), text.length, false⟩ := by
  induction text generalizing parser with
  | nil => rfl
  | cons c text ih =>
    rw [List.length_cons] at hlength
    have hrest := @ih { parser with contentLength := parser.contentLength - 1 } hs hnread (by
      dsimp only
      omega)
    have hsub : parser.contentLength - 1 - text.length = parser.contentLength - (text.length + 1) := by omega
    rw [feed, feedChar_part hs hnread (by omega), andThen_goes, hrest, hsub, Nat.add_comm 1]
    rfl

def left (parser : Parser) (n nread : ℕ) : Parser :=
  { parser with contentLength := parser.contentLength - n, nread := nread }

/-- The run at the last character that a pass takes, and the machine's run there. -/
theorem mirrors_inBody {start n : ℕ} (hstart : start ≤ r.p) (k : ℕ) :
    Mirrors data (toldText data r.calls ++ openText data (some (.body, start)) (r.p + n)) (r.p + n)
      (some (.body, start)) (inBody r start n) (inBody (startRun (left r.parser n k)) 0 0) :=
  ⟨rfl, rfl, Nat.le_add_right_of_le hstart, rfl, rfl, rfl, rfl, List.forall_mem_nil _⟩

theorem messageDone_upgrade (h : r.parser.upgrade = true) :
    messageDone r = .stop (r.updateState (newMessage r.parser)) (r.p + 1) := if_pos h

theorem messageDone_goes (h : ¬ r.parser.upgrade = true) :
    messageDone r = .next (r.updateState (newMessage r.parser)) := if_neg h

theorem messageDone_agrees {r₀ : Run} {text : List (Piece × Char)} {start p : ℕ} (hin : p < data.length)
    (h : Mirrors data text p (some (.body, start)) r r₀) (hcalls : r₀.calls = [])
    (hpass : pass [charAt data p] (startRun parser) = messageDone (r₀.callbackTo .body (r₀.p + 1))) :
    Agrees data parser text p (messageDone (r.callbackTo .body (r.p + 1))) := by
  have hfeed := feedFrom_cons hin parser
  have hstart : start ≤ p := h.untold_le
  have hmarks₀ : r₀.marks = only (some (.body, 0)) := h.marks₀
  have htold : toldText data (r.calls ++ [⟨.body, start, p + 1 - start, r.parser.method⟩]) =
      text ++ [(.body, charAt data p)] := by
    have hopen := @openText_add data .body start p hstart 1
    rw [drop_eq_cons hin] at hopen
    rw [toldText_concat, ← h.text_eq, List.append_assoc]
    exact congrArg (toldText data r.calls ++ ·) hopen
  rw [feedChar, hpass, callbackTo_of_open hmarks₀, h.start, hcalls] at hfeed
  rw [callbackTo_of_open h.marks, h.here]
  have hbare : bare { r₀.parser with state := newMessage r₀.parser } =
      bare { r.parser with state := newMessage r.parser } := by
    rw [h.parser]
    rfl
  have hupgrade₀ : r₀.parser.upgrade = r.parser.upgrade := by rw [h.parser]
  by_cases hupgrade : r.parser.upgrade = true
  · rw [@messageDone_upgrade { r with p := p, marks := _, calls := _ } hupgrade]
    rw [@messageDone_upgrade { r₀ with p := 0, marks := _, calls := _ } (hupgrade₀.trans hupgrade)] at hfeed
    have hfeed' : feedFrom data p parser =
        ⟨bare { r₀.parser with state := newMessage r₀.parser }, [(.body, charAt data p)], 1, true⟩ := hfeed
    rw [hbare] at hfeed'
    refine .stop rfl hfeed' ?_ fun _ => htold
    rw [← htold]
    exact List.prefix_rfl
  · rw [@messageDone_goes { r with p := p, marks := _, calls := _ } hupgrade]
    rw [@messageDone_goes { r₀ with p := 0, marks := _, calls := _ } (hupgrade₀ ▸ hupgrade)] at hfeed
    have hfeed' : feedFrom data p parser =
        (⟨bare { r₀.parser with state := newMessage r₀.parser }, [(.body, charAt data p)], 1, false⟩ :
          Fed Parser (Piece × Char)).andThen (feedFrom data (p + 1)) := hfeed
    rw [hbare] at hfeed'
    refine @Agrees.next _ _ _ _ none _ _ 1 rfl rfl hfeed' ?_
    rw [← htold]
    exact List.append_nil _

section Known
variable {text : List (Piece × Char)} {opened : Option (Piece × ℕ)} (hmarks : r.marks = only opened)
  (hbody : ∀ piece start, opened = some (piece, start) → piece = .body) (hle : untold opened r.p ≤ r.p)
  (hin : r.p < data.length) (htext : toldText data r.calls ++ openText data opened r.p = text)
  (hzero : r.parser.contentLength ≠ 0)

/-- The machine comes to the last character that the pass takes. -/
theorem body_after {start n : ℕ} {o : Outcome} (hs : r.parser.state = .bodyIdentity ∨ r.parser.state = .chunkData)
    (hstart : start ≤ r.p) (htext : toldText data r.calls ++ openText data (some (.body, start)) r.p = text)
    (hn : n < r.parser.contentLength) (hin : r.p + n < data.length)
    (h : Agrees data (left r.parser n 0)
      (toldText data r.calls ++ openText data (some (.body, start)) (r.p + n)) (r.p + n) o) :
    Agrees data (bare r.parser) text r.p o := by
  have hlen : ((data.drop r.p).take n).length = n := by
    rw [List.length_take, List.length_drop]
    omega
  have hbegins := List.take_prefix n (data.drop r.p)
  have hpart := feedFrom_stretch hbegins
    (@feed_part (bare r.parser) ((data.drop r.p).take n) hs rfl (by rw [hlen]; exact hn))
  rw [hlen] at hpart
  rw [openText_add hstart, ← List.append_assoc, htext] at h
  exact .after hpart h

include hmarks hbody hle hin htext hzero

/-- What a pass takes of a body: one character at least, up to the last one. -/
theorem takes_body : ∃ start n, start ≤ r.p ∧ r.p + n < data.length ∧ n < r.parser.contentLength ∧
    min r.parser.contentLength (data.length - r.p) = n + 1 ∧
    r.mark .body = { r with marks := only (some (.body, start)) } ∧
    toldText data r.calls ++ openText data (some (.body, start)) r.p = text := by
  obtain ⟨start, hstart, hmark, htext'⟩ := openText_body hmarks hbody hle htext
  refine ⟨start, min r.parser.contentLength (data.length - r.p) - 1, hstart, ?_, ?_, ?_, hmark, htext'⟩ <;> omega

theorem chunkData_agrees (hs : r.parser.state = .chunkData) :
    Agrees data (bare r.parser) text r.p (chunkData data r) := by
  obtain ⟨start, n, hstart, hinside, hn, hread, hmark, htext'⟩ := takes_body hmarks hbody hle hin htext hzero
  apply body_after (.inr hs) hstart htext' hn hinside
  apply agrees_of_both hinside
  obtain ⟨k, hk, hpass⟩ := @pass_single (left r.parser n 0) rfl (charAt data (r.p + n))
  have hpass' : pass [charAt data (r.p + n)] (startRun (left r.parser n 0)) =
      dispatch [charAt data (r.p + n)] (startRun (left r.parser n k)) (charAt data (r.p + n)) := hpass
  have hpiece : pieceOf (left r.parser n k).state = some .body := by
    change pieceOf r.parser.state = _
    rw [hs]
    rfl
  have hread₀ := @read_startRun (left r.parser n k) (Nat.sub_ne_zero_of_lt hn) (charAt data (r.p + n))
  have hs' : (startRun (left r.parser n k)).parser.state = .chunkData := hs
  rw [hpass']
  simp only [dispatch, hs']
  rw [chunkData_eq hmark hread, chunkData_eq (mark_startRun hpiece) hread₀]
  have hmirrors := @mirrors_inBody data r start n hstart k
  by_cases hdone : (inBody r start n).parser.contentLength = 0
  · have hdone₀ : (inBody (startRun (left r.parser n k)) 0 0).parser.contentLength = 0 := hdone
    rw [if_pos hdone, if_pos hdone₀]
    exact .next (hmirrors.updateState _)
  · have hdone₀ : ¬ (inBody (startRun (left r.parser n k)) 0 0).parser.contentLength = 0 := hdone
    rw [if_neg hdone, if_neg hdone₀]
    exact .next hmirrors

theorem bodyIdentity_agrees (hs : r.parser.state = .bodyIdentity) :
    Agrees data (bare r.parser) text r.p (bodyIdentity data r) := by
  obtain ⟨start, n, hstart, hinside, hn, hread, hmark, htext'⟩ := takes_body hmarks hbody hle hin htext hzero
  apply body_after (.inl hs) hstart htext' hn hinside
  obtain ⟨k, hk, hpass⟩ := @pass_single (left r.parser n 0) rfl (charAt data (r.p + n))
  have hpiece : pieceOf (left r.parser n k).state = some .body := by
    change pieceOf r.parser.state = _
    rw [hs]
    rfl
  have hread₀ := @read_startRun (left r.parser n k) (Nat.sub_ne_zero_of_lt hn) (charAt data (r.p + n))
  have hs' : (startRun (left r.parser n k)).parser.state = .bodyIdentity := hs
  have hpass' : pass [charAt data (r.p + n)] (startRun (left r.parser n 0)) =
      bodyIdentity [charAt data (r.p + n)] (startRun (left r.parser n k)) := by
    refine hpass.trans ?_
    change dispatch [charAt data (r.p + n)] (startRun (left r.parser n k)) (charAt data (r.p + n)) = _
    simp only [dispatch, hs']
  rw [bodyIdentity_eq (mark_startRun hpiece) hread₀] at hpass'
  rw [bodyIdentity_eq hmark hread]
  have hmirrors := @mirrors_inBody data r start n hstart k
  by_cases hdone : (inBody r start n).parser.contentLength = 0
  · have hdone₀ : (inBody (startRun (left r.parser n k)) 0 0).parser.contentLength = 0 := hdone
    rw [if_pos hdone₀] at hpass'
    rw [if_pos hdone]
    exact messageDone_agrees hinside (hmirrors.updateState .messageDone) rfl hpass'
  · have hdone₀ : ¬ (inBody (startRun (left r.parser n k)) 0 0).parser.contentLength = 0 := hdone
    apply agrees_of_both hinside
    rw [hpass', if_neg hdone, if_neg hdone₀]
    exact .next hmirrors

end Known

end Bodies

end OpenSniffer.HttpBodyFeeding
