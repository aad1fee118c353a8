import Mathlib.Algebra.GroupWithZero.Nat
import OpenSniffer.HttpAssertions
import OpenSniffer.HttpFieldLines

/-!
# The size that is counted of a head

A pass counts what it takes, and one more where the data end within a field's name or its
value. So no head is too large in a stream that is not, with one more for each call.
-/
namespace OpenSniffer.HttpHeaderSizes
open HttpParserState HttpParser HttpMessageStart HttpOpenings HttpRuns HttpInvariants HttpHeadPasses
  HttpCalls HttpAssertions
open HttpReading (Room counted countHeaderSize_of_room)

def outcomeParser : Outcome → Parser
  | .next r => r.parser
  | .stop r _ => r.parser

/-- So much was counted at most, and it was not too much. -/
structure Below (n : ℕ) (parser : Parser) : Prop where
  nread : parser.nread ≤ n
  fits : parser.httpErrno ≠ .headerOverflow

section States
variable {n : ℕ} {r : Run} (ch : Char) (h : Below n r.parser)

theorem Below.same {parser parser' : Parser} (h : Below n parser) (hnread : parser'.nread = parser.nread)
    (herrno : parser'.httpErrno = parser.httpErrno) : Below n parser' := by
  obtain ⟨hle, hfits⟩ := h
  rw [← hnread] at hle
  rw [← herrno] at hfits
  exact ⟨hle, hfits⟩

theorem Below.reset {parser parser' : Parser} (h : Below n parser) (hnread : parser'.nread = 0)
    (herrno : parser'.httpErrno = parser.httpErrno) : Below n parser' := by
  obtain ⟨-, hfits⟩ := h
  rw [← herrno] at hfits
  exact ⟨hnread ▸ Nat.zero_le n, hfits⟩

theorem below_ite {c : Prop} [Decidable c] {o o' : Outcome} (hyes : c → Below n (outcomeParser o))
    (hno : ¬ c → Below n (outcomeParser o')) : Below n (outcomeParser (if c then o else o')) := by
  split
  · exact hyes ‹_›
  · exact hno ‹_›

include h

theorem below_mark (piece : Piece) : Below n (r.mark piece).parser := by
  rw [parser_mark]
  exact h

theorem below_callbackTo (piece : Piece) (fin : ℕ) : Below n (r.callbackTo piece fin).parser := by
  rw [parser_callbackTo]
  exact h

theorem below_error {e : Errno} (he : e ≠ .headerOverflow) : Below n (outcomeParser (r.error e)) := ⟨h.nread, he⟩

theorem below_strictCheck (c : Prop) [Decidable c] {o : Outcome} (hgo : Below n (outcomeParser o)) :
    Below n (outcomeParser (r.strictCheck c o)) :=
  below_ite (fun _ => below_error h (by decide)) fun _ => hgo

theorem below_startReq : Below n (outcomeParser (startReq r ch)) := by
  refine below_ite (fun _ => h) fun _ => ?_
  refine below_ite (fun _ => below_error (by exact h.same rfl rfl) (by decide)) fun _ => ?_
  cases firstMethod ch with
  | none => exact below_error (by exact h.same rfl rfl) (by decide)
  | some m => exact h.same rfl rfl

private theorem below_startReqOrRes : Below n (outcomeParser (startReqOrRes r ch)) := by
  refine below_ite (fun _ => h) fun _ => ?_
  exact below_ite (fun _ => h.same rfl rfl) fun _ => below_startReq ch (h.same rfl rfl)

private theorem below_expect (c : Char) (s : State) : Below n (outcomeParser (expect c s r ch)) :=
  below_strictCheck h _ (h.same rfl rfl)

private theorem below_httpMajorDigit : Below n (outcomeParser (httpMajorDigit r ch)) := by
  refine below_ite (fun _ => below_error h (by decide)) fun _ => ?_
  exact below_ite (fun _ => below_error (by exact h.same rfl rfl) (by decide)) fun _ => h.same rfl rfl

theorem below_httpMinorDigit : Below n (outcomeParser (httpMinorDigit r ch)) := by
  refine below_ite (fun _ => below_error h (by decide)) fun _ => ?_
  exact below_ite (fun _ => below_error (by exact h.same rfl rfl) (by decide)) fun _ => h.same rfl rfl

private theorem below_firstHttpMinor (s : State) : Below n (outcomeParser (firstHttpMinor s r ch)) :=
  below_ite (fun _ => below_error h (by decide)) fun _ => h.same rfl rfl

private theorem below_resFirstStatusCode : Below n (outcomeParser (resFirstStatusCode r ch)) := by
  refine below_ite (fun _ => ?_) fun _ => h.same rfl rfl
  exact below_ite (fun _ => h) fun _ => below_error h (by decide)

private theorem below_resStatusCode : Below n (outcomeParser (resStatusCode r ch)) := by
  refine below_ite (fun _ => ?_) fun _ => ?_
  · refine below_ite (fun _ => h.same rfl rfl) fun _ => ?_
    refine below_ite (fun _ => h.same rfl rfl) fun _ => ?_
    exact below_ite (fun _ => h.same rfl rfl) fun _ => below_error h (by decide)
  · exact below_ite (fun _ => below_error (by exact h.same rfl rfl) (by decide)) fun _ => h.same rfl rfl

private theorem below_resStatusStart : Below n (outcomeParser (resStatusStart r ch)) := by
  refine below_ite (fun _ => h.same rfl rfl) fun _ => ?_
  exact below_ite (fun _ => h.same rfl rfl) fun _ => (below_mark h _).same rfl rfl

private theorem below_resStatus : Below n (outcomeParser (resStatus r ch)) := by
  have htold : ∀ s, Below n ((r.updateState s).callback .status).parser := by
    intro s
    apply below_callbackTo
    exact h.same rfl rfl
  exact below_ite (fun _ => htold _) fun _ => below_ite (fun _ => htold _) fun _ => h

private theorem below_reqMethod : Below n (outcomeParser (reqMethod r ch)) := by
  refine below_ite (fun _ => below_error h (by decide)) fun _ => ?_
  refine below_ite (fun _ => h.same rfl rfl) fun _ => ?_
  refine below_ite (fun _ => h.same rfl rfl) fun _ => ?_
  cases otherMethod r.parser.method r.parser.index ch with
  | none => exact below_error h (by decide)
  | some m => exact h.same rfl rfl

theorem below_urlChar : Below n (outcomeParser (urlChar r ch)) :=
  below_ite (fun _ => below_error (by exact h.same rfl rfl) (by decide)) fun _ => h.same rfl rfl

private theorem below_reqSpacesBeforeUrl : Below n (outcomeParser (reqSpacesBeforeUrl r ch)) := by
  refine below_ite (fun _ => h) fun _ => ?_
  have hmark := below_mark h .url
  apply below_urlChar
  split
  · exact hmark.same rfl rfl
  · exact hmark

private theorem below_reqUrl : Below n (outcomeParser (reqUrl r ch)) := by
  refine below_ite (fun _ => below_callbackTo (by exact h.same rfl rfl) _ _) fun _ => ?_
  exact below_ite (fun _ => below_callbackTo (by exact h.same rfl rfl) _ _) fun _ => below_urlChar ch h

theorem below_messageDone : Below n (outcomeParser (messageDone r)) :=
  below_ite (fun _ => h.same rfl rfl) fun _ => h.same rfl rfl

theorem below_headersDone : Below n (outcomeParser (headersDone r ch)) := by
  refine below_strictCheck h _ ?_
  refine below_ite (fun _ => h.reset rfl rfl) fun _ => ?_
  refine below_ite (fun _ => h.reset rfl rfl) fun _ => ?_
  refine below_ite (fun _ => h.reset rfl rfl) fun _ => ?_
  refine below_ite (fun _ => h.reset rfl rfl) fun _ => ?_
  refine below_ite (fun _ => h.reset rfl rfl) fun _ => ?_
  exact below_ite (fun _ => h.reset rfl rfl) fun _ => h.reset rfl rfl

theorem below_headersAlmostDone : Below n (outcomeParser (headersAlmostDone r ch)) := by
  refine below_strictCheck h _ ?_
  exact below_ite (fun _ => below_messageDone (h.same rfl rfl)) fun _ => below_headersDone ch (h.same rfl rfl)

theorem below_headerFieldStart : Below n (outcomeParser (headerFieldStart r ch)) := by
  refine below_ite (fun _ => h.same rfl rfl) fun _ => ?_
  refine below_ite (fun _ => below_headersAlmostDone ch (h.same rfl rfl)) fun _ => ?_
  exact below_ite (fun _ => below_error h (by decide)) fun _ => (below_mark h _).same rfl rfl

theorem below_headerValueStart : Below n (outcomeParser (headerValueStart r ch)) := by
  have hmark := below_mark h .headerValue
  rw [headerValueStart]
  split
  all_goals first
    | exact hmark.same rfl rfl
    | exact below_ite (fun _ => below_error (by exact hmark.same rfl rfl) (by decide)) fun _ => hmark.same rfl rfl

private theorem below_headerValueDiscardWs : Below n (outcomeParser (headerValueDiscardWs r ch)) := by
  refine below_ite (fun _ => h) fun _ => ?_
  refine below_ite (fun _ => h.same rfl rfl) fun _ => ?_
  exact below_ite (fun _ => h.same rfl rfl) fun _ => below_headerValueStart ch h

private theorem below_headerValueDiscardLws : Below n (outcomeParser (headerValueDiscardLws r ch)) := by
  refine below_ite (fun _ => h.same rfl rfl) fun _ => ?_
  apply below_headerFieldStart
  apply below_callbackTo
  have hflags : Below n (r.update { r.parser with
    flags := headerFlags r.parser.headerState r.parser.flags }).parser := h.same rfl rfl
  exact (below_mark hflags .headerValue).same rfl rfl

private theorem below_headerValueLws : Below n (outcomeParser (headerValueLws r ch)) :=
  below_ite (fun _ => below_headerValueStart ch (h.same rfl rfl)) fun _ =>
    below_headerFieldStart ch (h.same rfl rfl)

private theorem below_chunkSizeStart : Below n (outcomeParser (chunkSizeStart r ch)) := by
  rw [chunkSizeStart]
  cases unhex ch with
  | none => exact below_error h (by decide)
  | some value => exact h.same rfl rfl

private theorem below_chunkSize : Below n (outcomeParser (chunkSize r ch)) := by
  refine below_ite (fun _ => h.same rfl rfl) fun _ => ?_
  cases unhex ch with
  | none => exact below_ite (fun _ => h.same rfl rfl) fun _ => below_error h (by decide)
  | some value => exact below_ite (fun _ => below_error h (by decide)) fun _ => h.same rfl rfl

private theorem below_chunkSizeAlmostDone : Below n (outcomeParser (chunkSizeAlmostDone r ch)) :=
  below_strictCheck h _ (below_ite (fun _ => h.reset rfl rfl) fun _ => h.reset rfl rfl)

private theorem below_bodyIdentity (data : List Char) : Below n (outcomeParser (bodyIdentity data r)) := by
  have hmark := below_mark h .body
  refine below_ite (fun _ => below_messageDone (below_callbackTo ?_ _ _)) fun _ => hmark.same rfl rfl
  exact hmark.same rfl rfl

private theorem below_chunkData (data : List Char) : Below n (outcomeParser (chunkData data r)) := by
  have hmark := below_mark h .body
  rw [chunkData, outcomeParser]
  split
  · exact hmark.same rfl rfl
  · exact hmark.same rfl rfl

theorem below_dispatch (data : List Char) (hfield : r.parser.state ≠ .headerField)
    (hvalue : r.parser.state ≠ .headerValue) : Below n (outcomeParser (dispatch data r ch)) := by
  cases hs : r.parser.state <;> simp only [dispatch, hs]
  case dead => exact below_ite (fun _ => h) fun _ => below_error h (by decide)
  case startReqOrRes => exact below_startReqOrRes ch h
  case resOrRespH =>
    refine below_ite (fun _ => h.same rfl rfl) fun _ => ?_
    exact below_ite (fun _ => below_error h (by decide)) fun _ => h.same rfl rfl
  case startRes =>
    refine below_ite (fun _ => h.same rfl rfl) fun _ => ?_
    exact below_ite (fun _ => h.same rfl rfl) fun _ => below_error (by exact h.same rfl rfl) (by decide)
  case resH | resHT | resHTT | resHTTP | resLineAlmostDone | reqHttpH | reqHttpHT | reqHttpHTT
      | reqHttpHTTP | headerValueDiscardWsAlmostDone =>
    exact below_expect ch h _ _
  case resFirstHttpMajor | reqFirstHttpMajor =>
    exact below_ite (fun _ => below_error h (by decide)) fun _ => h.same rfl rfl
  case resHttpMajor | reqHttpMajor =>
    exact below_ite (fun _ => h.same rfl rfl) fun _ => below_httpMajorDigit ch h
  case resFirstHttpMinor | reqFirstHttpMinor => exact below_firstHttpMinor ch h _
  case resHttpMinor => exact below_ite (fun _ => h.same rfl rfl) fun _ => below_httpMinorDigit ch h
  case resFirstStatusCode => exact below_resFirstStatusCode ch h
  case resStatusCode => exact below_resStatusCode ch h
  case resStatusStart => exact below_resStatusStart ch h
  case resStatus => exact below_resStatus ch h
  case startReq => exact below_startReq ch h
  case reqMethod => exact below_reqMethod ch h
  case reqSpacesBeforeUrl => exact below_reqSpacesBeforeUrl ch h
  case reqSchema | reqSchemaSlash | reqSchemaSlashSlash | reqServerStart =>
    exact below_ite (fun _ => below_error h (by decide)) fun _ => below_urlChar ch h
  case reqServer | reqServerWithAt | reqPath | reqQueryStringStart | reqQueryString
      | reqFragmentStart | reqFragment =>
    exact below_reqUrl ch h
  case reqHttpStart =>
    refine below_ite (fun _ => h.same rfl rfl) fun _ => ?_
    exact below_ite (fun _ => h) fun _ => below_error h (by decide)
  case reqHttpMinor =>
    refine below_ite (fun _ => h.same rfl rfl) fun _ => ?_
    exact below_ite (fun _ => h.same rfl rfl) fun _ => below_httpMinorDigit ch h
  case reqLineAlmostDone => exact below_ite (fun _ => below_error h (by decide)) fun _ => h.same rfl rfl
  case headerFieldStart => exact below_headerFieldStart ch h
  case headerField => exact absurd hs hfield
  case headerValueDiscardWs => exact below_headerValueDiscardWs ch h
  case headerValueDiscardLws => exact below_headerValueDiscardLws ch h
  case headerValueStart => exact below_headerValueStart ch h
  case headerValue => exact absurd hs hvalue
  case headerValueLws => exact below_headerValueLws ch h
  case headerAlmostDone => exact below_strictCheck h _ (h.same rfl rfl)
  case chunkSizeStart => exact below_chunkSizeStart ch h
  case chunkSize => exact below_chunkSize ch h
  case chunkParameters => exact below_ite (fun _ => h.same rfl rfl) fun _ => h
  case chunkSizeAlmostDone => exact below_chunkSizeAlmostDone ch h
  case headersAlmostDone => exact below_headersAlmostDone ch h
  case headersDone => exact below_headersDone ch h
  case chunkData => exact below_chunkData h data
  case chunkDataAlmostDone =>
    exact below_strictCheck h _ (below_callbackTo (by exact h.same rfl rfl) _ _)
  case chunkDataDone => exact below_strictCheck h _ (h.reset rfl rfl)
  case bodyIdentity => exact below_bodyIdentity h data
  case bodyIdentityEof => exact (below_mark h .body).same rfl rfl
  case messageDone => exact below_messageDone h

end States

/-- A pass stays below the bound: what is counted, with what is left of the data, while
there is more of them, and one more at their end. -/
def Stays (data : List Char) (most : ℕ) : Outcome → Prop
  | .next r => Below (most + 1) r.parser ∧
      (r.p + 1 < data.length → r.parser.nread + (data.length - (r.p + 1)) ≤ most)
  | .stop r _ => Below (most + 1) r.parser

section Passes
variable {data : List Char} {most : ℕ} {r : Run}

theorem stays_error {c : ℕ} {e : Errno} (h : Below c r.parser) (hc : c ≤ most + 1) (he : e ≠ .headerOverflow) :
    Stays data most (r.error e) := ⟨h.nread.trans hc, he⟩

theorem stays_next {c : ℕ} (h : Below c r.parser) (hc : c ≤ most + 1)
    (hmore : r.p + 1 < data.length → c + (data.length - (r.p + 1)) ≤ most) : Stays data most (.next r) :=
  ⟨⟨h.nread.trans hc, h.fits⟩, fun hlt => (Nat.add_le_add_right h.nread _).trans (hmore hlt)⟩

/-- A pass that counts one at most. -/
theorem stays_of_below {n p : ℕ} {o : Outcome} (h : Below (n + 1) (outcomeParser o)) (hp : p < data.length)
    (hmost : n + (data.length - p) ≤ most) (hgoes : ∀ r, o = .next r → p ≤ r.p) : Stays data most o := by
  cases o with
  | stop r parsed => exact ⟨h.nread.trans (by omega), h.fits⟩
  | next r =>
    have hle := hgoes r rfl
    exact stays_next h (by omega) fun _ => by omega

theorem below_counted {c v : ℕ} (h : Below c r.parser) : Below (c + v) (counted r v).parser :=
  ⟨Nat.add_le_add_right h.nread v, h.fits⟩

theorem headerField_stays {n : ℕ} (h : Below (n + 1) r.parser) (hin : r.p < data.length)
    (hmost : n + (data.length - r.p) ≤ most) (hroom : most < httpMaxHeaderSize) :
    Stays data most (headerField data r) := by
  have hinside := fieldName_le hin.le
  have hread : Below (n + 1) (fieldRead r.parser (fieldName data r.p)) := by
    obtain ⟨index, headerState, heq⟩ := HttpFieldLines.fieldRead_same r.parser (fieldName data r.p)
    rw [heq]
    exact h.same rfl rfl
  simp only [headerField]
  rw [headerFieldLoop_eq data _ r (Nat.le_refl _)]
  generalize fieldRead r.parser (fieldName data r.p) = parser at *
  generalize (fieldName data r.p).length = k at *
  have hcount : Room { r with p := r.p + k, parser := parser } (r.p + k - r.p) := by
    have hle := hread.nread
    simp only [Room]
    omega
  have hcounted : Below (n + 1 + k) (counted { r with p := r.p + k, parser := parser } (r.p + k - r.p)).parser := by
    rw [Nat.add_sub_cancel_left]
    exact @below_counted { r with p := r.p + k, parser := parser } (n + 1) k hread
  rw [countHeaderSize_of_room hcount]
  split
  · exact stays_next hcounted (by omega) fun hlt => by
      have hend : r.p + k = data.length := ‹_›
      change r.p + k - 1 + 1 < data.length at hlt
      omega
  · split
    · refine stays_next (below_callbackTo (by exact hcounted.same rfl rfl) _ _) (by omega) fun hlt => ?_
      rw [p_callback] at hlt ⊢
      change n + 1 + k + (data.length - (r.p + k + 1)) ≤ most
      change r.p + k + 1 < data.length at hlt
      omega
    · exact stays_error hcounted (by omega) (by decide)

/-- What follows the loop over a value, which is counted from where the loop began. -/
theorem headerValueDone_stays {n start : ℕ} {h : HeaderState} (hbelow : Below (n + 1) r.parser)
    (hle : r.p ≤ data.length) (hstart : start ≤ r.p) (hmost : n + (data.length - start) ≤ most)
    (hroom : most < httpMaxHeaderSize) : Stays data most (headerValueDone data start r h) := by
  have hkept : Below (n + 1) (r.update { r.parser with headerState := h }).parser := hbelow.same rfl rfl
  have hcount : Room (r.update { r.parser with headerState := h }) (r.p - start) := by
    have hnread := hkept.nread
    rw [Room]
    omega
  have hcounted := @below_counted _ _ (r.p - start) hkept
  rw [headerValueDone, countHeaderSize_of_room hcount]
  split
  · rename_i hend
    have hend' : r.p = data.length := hend
    refine stays_next (by exact hcounted.same rfl rfl) (by omega) fun hlt => ?_
    change r.p - 1 + 1 < data.length at hlt
    omega
  · refine stays_next hcounted (by omega) fun hlt => ?_
    change r.p + 1 < data.length at hlt
    change n + 1 + (r.p - start) + (data.length - (r.p + 1)) ≤ most
    omega

private theorem headerAlmostDone_stays {c : ℕ} (h : Below c r.parser) (hmore : c + (data.length - (r.p + 1)) ≤ most)
    (ch : Char) : Stays data most (headerAlmostDone r ch) := by
  have hc : c ≤ most + 1 := by omega
  simp only [headerAlmostDone, Run.strictCheck]
  split
  · exact stays_error h hc (by decide)
  · exact stays_next (by exact h.same rfl rfl) hc fun _ => hmore

private theorem valueLf_stays {n start : ℕ} {h : HeaderState} (hbelow : Below (n + 1) r.parser)
    (hin : r.p < data.length) (hstart : start ≤ r.p) (hmost : n + (data.length - start) ≤ most)
    (hroom : most < httpMaxHeaderSize) :
    Stays data most ((r.updateState .headerAlmostDone).countHeaderSize (r.p - start) fun r' =>
      headerAlmostDone ((r'.update { r'.parser with headerState := h }).callback .headerValue)
        (charAt data r.p)) := by
  have hcount : Room (r.updateState .headerAlmostDone) (r.p - start) := by
    have hnread := hbelow.nread
    change r.parser.nread + (r.p - start) ≤ _
    omega
  have hdone : Below (n + 1) (r.updateState .headerAlmostDone).parser := hbelow.same rfl rfl
  have hcounted := @below_counted _ _ (r.p - start) hdone
  rw [countHeaderSize_of_room hcount]
  apply headerAlmostDone_stays
  · apply below_callbackTo
    exact hcounted.same rfl rfl
  · rw [p_callback]
    change n + 1 + (r.p - start) + (data.length - (r.p + 1)) ≤ most
    omega

theorem headerValueLoop_stays {n start : ℕ} (hmost : n + (data.length - start) ≤ most)
    (hroom : most < httpMaxHeaderSize) (passes : ℕ) {r : Run} {h : HeaderState}
    (hbelow : Below (n + 1) r.parser) (hs : r.parser.state = .headerValue) (hstart : start ≤ r.p)
    (hle : r.p ≤ data.length) : Stays data most (headerValueLoop data start passes r h) := by
  induction passes generalizing r h with
  | zero => exact headerValueDone_stays hbelow hle hstart hmost hroom
  | succ passes ih =>
    rw [headerValueLoop]
    split
    · exact headerValueDone_stays hbelow hle hstart hmost hroom
    · rename_i hend
      have hin : r.p < data.length := Nat.lt_of_le_of_ne hle hend
      split
      · refine headerValueDone_stays (below_callbackTo (by exact hbelow.same rfl rfl) _ _) ?_ ?_ hmost hroom
        · rw [p_callback]
          exact hle
        · rw [p_callback]
          exact hstart
      · rename_i hcr
        split
        · exact valueLf_stays hbelow hin hstart hmost hroom
        · rename_i hlf
          split
          · obtain ⟨hlt, hle'⟩ := valueEnd_bounds hin hcr hlf
            exact ih (r := { r with p := valueEnd data r.p }) hbelow hs (hstart.trans hlt.le) hle'
          · cases hchar : headerValueChar r.parser h (charAt data r.p) with
            | none => exact stays_error (by exact hbelow.same rfl rfl) (by omega) (by decide)
            | some next =>
              obtain ⟨parser', h'⟩ := next
              obtain ⟨index, contentLength, flags, rfl⟩ := HttpFieldLines.headerValueChar_eq hs hchar
              exact ih (r := { r with
                p := r.p + 1
                parser := { r.parser with index := index, contentLength := contentLength, flags := flags } })
                (hbelow.same rfl rfl) hs (Nat.le_succ_of_le hstart) hin

/-- No pass counts more than it takes, but for the one at the end of the data. -/
theorem pass_stays {before : Option Piece} (hsound : Sound data before r) (hin : r.p < data.length)
    (hfits : r.parser.httpErrno ≠ .headerOverflow) (hmost : r.parser.nread + (data.length - r.p) ≤ most)
    (hroom : most < httpMaxHeaderSize) : Stays data most (pass data r) := by
  have hgood := pass_good hsound hin
  have hgoes : ∀ r', pass data r = .next r' → r.p ≤ r'.p := by
    intro r' heq
    rw [heq] at hgood
    exact hgood.1
  by_cases hparsing : r.parser.state.parsingHeader = true
  · have hcount : Room r 1 := by
      rw [Room]
      omega
    have hcounted : Below (r.parser.nread + 1) (counted r 1).parser := ⟨Nat.le_refl _, hfits⟩
    have hpass : pass data r = dispatch data (counted r 1) (charAt data r.p) := by
      rw [HttpParser.pass, if_pos hparsing, countHeaderSize_of_room hcount]
    rw [hpass] at hgoes ⊢
    by_cases hfield : (counted r 1).parser.state = .headerField
    · simp only [dispatch, hfield]
      exact headerField_stays hcounted hin hmost hroom
    · by_cases hvalue : (counted r 1).parser.state = .headerValue
      · simp only [dispatch, hvalue]
        exact headerValueLoop_stays hmost hroom _ hcounted hvalue (Nat.le_refl _) hin.le
      · exact stays_of_below (below_dispatch _ hcounted data hfield hvalue) hin hmost hgoes
  · have hpass : pass data r = dispatch data r (charAt data r.p) := by rw [HttpParser.pass, if_neg hparsing]
    have helse : ∀ s : State, s.parsingHeader = true → r.parser.state ≠ s := by
      intro s hs heq
      rw [heq] at hparsing
      exact hparsing hs
    have hbelow : Below (r.parser.nread + 1) r.parser := ⟨Nat.le_succ _, hfits⟩
    rw [hpass] at hgoes ⊢
    exact stays_of_below (below_dispatch _ hbelow data (helse _ rfl) (helse _ rfl)) hin hmost hgoes

private theorem executeLoop_below {before : Option Piece} (hroom : most < httpMaxHeaderSize) (n : ℕ) {r : Run}
    (hsound : Sound data before r) (hbelow : Below (most + 1) r.parser)
    (hmost : r.p < data.length → r.parser.nread + (data.length - r.p) ≤ most) :
    Below (most + 1) (executeLoop data n r).1.parser := by
  induction n generalizing r with
  | zero =>
    rw [executeLoop, parser_leftover]
    exact hbelow
  | succ n ih =>
    rw [executeLoop]
    by_cases hin : r.p < data.length
    · rw [if_pos hin]
      have hgood := pass_good hsound hin
      have hstays := pass_stays hsound hin hbelow.fits (hmost hin) hroom
      generalize pass data r = o at hgood hstays
      cases o with
      | next r' => exact ih hgood.2 hstays.1 hstays.2
      | stop r' parsed => exact hstays
    · rw [if_neg hin, parser_leftover]
      exact hbelow

end Passes

section Calls
variable {parser : Parser}

theorem httpParserExecute_below {n : ℕ} {data : List Char} (hlive : Live parser) (h : Below n parser)
    (hroom : n + data.length < httpMaxHeaderSize) :
    Below (n + data.length + 1) (httpParserExecute data parser).1.parser := by
  have hmore : Below (n + data.length + 1) parser := ⟨h.nread.trans (by omega), h.fits⟩
  rcases hlive with herror | ⟨hhealthy, hready⟩
  · rw [httpParserExecute, if_pos herror]
    exact hmore
  · have hok : ¬ parser.httpErrno ≠ .ok := not_not.mpr hhealthy.1
    rw [httpParserExecute, if_neg hok]
    by_cases hdata : data.length = 0
    · rw [if_pos hdata]
      split
      all_goals first
        | exact hmore
        | exact ⟨hmore.nread, fun heq => by cases heq⟩
    · rw [if_neg hdata]
      refine executeLoop_below hroom _ (startRun_sound hhealthy hready) hmore fun _ => ?_
      exact Nat.add_le_add_right h.nread _

/-- What the calls for these parts count at most. -/
def sizeOf (parts : List (List Char)) : ℕ := (parts.map fun data => data.length + 1).sum

private theorem fed_below {n : ℕ} {parts : List (List Char)} (hlive : Live parser) (h : Below n parser)
    (hroom : n + sizeOf parts ≤ httpMaxHeaderSize) : Below (n + sizeOf parts) (fed parser parts) := by
  induction parts generalizing parser n with
  | nil => exact h
  | cons data parts ih =>
    have hsize : n + data.length + 1 + sizeOf parts = n + sizeOf (data :: parts) := by
      rw [sizeOf, sizeOf, List.map_cons, List.sum_cons]
      omega
    have hcall : n + data.length < httpMaxHeaderSize := by omega
    rw [← hsize] at hroom ⊢
    exact ih (httpParserExecute_live hlive data) (httpParserExecute_below hlive h hcall) hroom

/-- No head is found too large as long as all that was given to the parser, with one more
for each call, is within the limit. -/
theorem httpParserExecute_fits (t : ParserType) {parts : List (List Char)} (h : sizeOf parts ≤ httpMaxHeaderSize) :
    (fed (httpParserInit t) parts).nread ≤ sizeOf parts ∧
      (fed (httpParserInit t) parts).httpErrno ≠ .headerOverflow := by
  have hstart : Below 0 (httpParserInit t) := ⟨Nat.le_refl 0, by cases t <;> decide⟩
  have hbelow := fed_below (httpParserInit_live t) hstart (by rwa [Nat.zero_add])
  rw [Nat.zero_add] at hbelow
  exact ⟨hbelow.nread, hbelow.fits⟩

def headParts : List (List Char) :=
  ["GET /a HT".toList, "TP/1.1".toList ++ [cr, lf], "Accept".toList]

theorem httpParserExecute_fits_headParts :
    sizeOf headParts ≤ httpMaxHeaderSize ∧
      (fed (httpParserInit .httpBoth) headParts).nread ≤ sizeOf headParts ∧
      (fed (httpParserInit .httpBoth) headParts).httpErrno ≠ .headerOverflow := by
  have h : sizeOf headParts ≤ httpMaxHeaderSize := by decide
  exact ⟨h, httpParserExecute_fits .httpBoth h⟩

end Calls
end OpenSniffer.HttpHeaderSizes
