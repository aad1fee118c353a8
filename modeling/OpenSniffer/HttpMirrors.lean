import OpenSniffer.HttpInvariants

/-!
# A pass of the HTTP parser in the data and on its own

A pass over a character in the middle of some data, and one over the same character on its
own by a parser that resumes there, do the same to the parser, but for the size of the head
that is counted, and tell the same, though in parts. This file has the states that look at
one character only.
-/
namespace OpenSniffer.HttpMirrors
open HttpParserState HttpParser HttpOpenings HttpRuns HttpInvariants

/-- The characters that callbacks are for, each with its piece. -/
def toldText (data : List Char) (calls : List Callback) : List (Piece × Char) :=
  calls.flatMap fun c => ((data.drop c.start).take c.length).map (Prod.mk c.piece)

/-- The characters of the piece that is open, up to a position. -/
def openText (data : List Char) (opened : Option (Piece × ℕ)) (p : ℕ) : List (Piece × Char) :=
  match opened with
  | none => []
  | some (piece, start) => ((data.drop start).take (p - start)).map (Prod.mk piece)

theorem toldText_concat (data : List Char) (calls : List Callback) (c : Callback) :
    toldText data (calls ++ [c]) = toldText data calls ++
      ((data.drop c.start).take c.length).map (Prod.mk c.piece) := by
  rw [toldText, List.flatMap_append, List.flatMap_singleton]
  rfl

theorem toldText_still {data : List Char} {calls : List Callback} (h : ∀ c ∈ calls, c.length = 0) :
    toldText data calls = [] := by
  rw [toldText, List.flatMap_eq_nil_iff]
  intro c hc
  rw [h c hc, List.take_zero, List.map_nil]

section Mirrors
variable (data : List Char) (text : List (Piece × Char)) (p : ℕ)

/-- The runs are at position `p` and at the start of their data. Their parsers are the same
but for `nread`, the same piece is open in both, what the first has told and read of it is
`text`, and the second has told nothing yet. -/
structure Mirrors (opened : Option (Piece × ℕ)) (r r₀ : Run) : Prop where
  parser : r₀.parser = { r.parser with nread := r₀.parser.nread }
  here : r.p = p
  untold_le : untold opened p ≤ p
  start : r₀.p = 0
  marks : r.marks = only opened
  marks₀ : r₀.marks = only (opened.map fun o => (o.1, 0))
  text_eq : toldText data r.calls ++ openText data opened p = text
  still : ∀ c ∈ r₀.calls, c.length = 0

/-- The second run resumes there. -/
@[reducible] def resuming (r : Run) (nread : ℕ) (marks : Piece → Option ℕ) (calls : List Callback) : Run :=
  ⟨{ r.parser with nread := nread }, 0, marks, calls⟩

/-- A pass ends in the same way in both runs, unless the head is too large in the first. -/
inductive Both : Outcome → Outcome → Prop
  | next {opened : Option (Piece × ℕ)} {r r₀ : Run} (h : Mirrors data text p opened r r₀) :
      Both (.next r) (.next r₀)
  | error {r r₀ : Run} {n n₀ : ℕ} (hparser : r₀.parser = { r.parser with nread := r₀.parser.nread })
      (htold : toldText data r.calls <+: text) (hstill : ∀ c ∈ r₀.calls, c.length = 0)
      (herror : r.parser.httpErrno ≠ .ok) (hn : n = p) (hn₀ : n₀ = 0) : Both (.stop r n) (.stop r₀ n₀)
  | done {r r₀ : Run} {n n₀ : ℕ} (h : Mirrors data text p none r r₀) (hn : n = p + 1) (hn₀ : n₀ = 1) :
      Both (.stop r n) (.stop r₀ n₀)
  | overflow {r : Run} {n : ℕ} {o : Outcome} (h : r.parser.httpErrno = .headerOverflow) : Both (.stop r n) o

variable {data text p} {opened : Option (Piece × ℕ)} {r r₀ : Run}

namespace Mirrors
variable (h : Mirrors data text p opened r r₀)
include h

theorem update {parser parser₀ : Parser} (hparser : parser₀ = { parser with nread := parser₀.nread }) :
    Mirrors data text p opened (r.update parser) (r₀.update parser₀) :=
  ⟨hparser, h.here, h.untold_le, h.start, h.marks, h.marks₀, h.text_eq, h.still⟩

theorem updateState (s : State) : Mirrors data text p opened (r.updateState s) (r₀.updateState s) := by
  apply h.update
  rw [h.parser]

/-- The second run resumes with whatever parser the first goes on with. -/
theorem resuming (parser : Parser) (nread : ℕ) :
    Mirrors data text p opened (r.update parser) (resuming (r.update parser) nread r₀.marks r₀.calls) :=
  ⟨rfl, h.here, h.untold_le, rfl, h.marks, h.marks₀, h.text_eq, h.still⟩

end Mirrors

/-- What is so when the second run resumes is so. -/
theorem Mirrors.lift (h : Mirrors data text p opened r r₀) {f : Run → Outcome}
    (hf : ∀ nread marks calls, Mirrors data text p opened r (HttpMirrors.resuming r nread marks calls) →
      Both data text p (f r) (f (HttpMirrors.resuming r nread marks calls))) : Both data text p (f r) (f r₀) := by
  have hresuming : r₀ = HttpMirrors.resuming r r₀.parser.nread r₀.marks r₀.calls := by
    obtain ⟨parser₀, p₀, marks₀, calls₀⟩ := r₀
    obtain rfl : p₀ = 0 := h.start
    have hparser : parser₀ = { r.parser with nread := parser₀.nread } := h.parser
    rw [HttpMirrors.resuming, ← hparser]
  rw [hresuming] at h ⊢
  exact hf _ _ _ h

/-- A piece is opened. -/
theorem Mirrors.mark (h : Mirrors data text p none r r₀) (piece : Piece) :
    Mirrors data text p (some (piece, p)) (r.mark piece) (r₀.mark piece) := by
  have hmarks₀ : r₀.marks = only none := h.marks₀
  rw [mark_of_closed h.marks, mark_of_closed hmarks₀]
  refine ⟨h.parser, h.here, Nat.le_refl p, h.start, ?_, ?_, ?_, h.still⟩
  · rw [← h.here]
  · rw [Option.map_some, ← h.start]
  · rw [← h.text_eq, openText, openText, Nat.sub_self, List.take_zero, List.map_nil]

/-- The piece that is open is told. -/
theorem Mirrors.callback {piece : Piece} {start : ℕ} (h : Mirrors data text p (some (piece, start)) r r₀) :
    Mirrors data text p none (r.callback piece) (r₀.callback piece) := by
  have hmarks₀ : r₀.marks = only (some (piece, 0)) := h.marks₀
  rw [Run.callback, Run.callback, callbackTo_of_open h.marks, callbackTo_of_open hmarks₀]
  refine ⟨h.parser, h.here, Nat.le_refl p, h.start, rfl, rfl, ?_, ?_⟩
  · rw [← h.text_eq, toldText_concat, openText, openText, List.append_nil, h.here]
  · intro c hc
    rcases List.mem_append.mp hc with hc | hc
    · exact h.still c hc
    · rw [List.mem_singleton.mp hc, h.start]

section Outcomes
variable {o o' o₀ o₀' : Outcome}

theorem both_ite {c : Prop} [Decidable c] (hyes : c → Both data text p o o₀) (hno : ¬ c → Both data text p o' o₀') :
    Both data text p (if c then o else o') (if c then o₀ else o₀') := by
  split
  · exact hyes ‹_›
  · exact hno ‹_›

theorem both_error (h : Mirrors data text p opened r r₀) {e : Errno} (he : e ≠ .ok) :
    Both data text p (r.error e) (r₀.error e) := by
  refine .error ?_ ⟨_, h.text_eq⟩ h.still he h.here h.start
  rw [Run.update, Run.update, h.parser]

theorem both_strictCheck (h : Mirrors data text p opened r r₀) (c : Prop) [Decidable c]
    (hgo : ¬ c → Both data text p o o₀) : Both data text p (r.strictCheck c o) (r₀.strictCheck c o₀) :=
  both_ite (fun _ => both_error h (by decide)) hgo

end Outcomes

section States
variable {k : ℕ} {marks : Piece → Option ℕ} {calls : List Callback} (ch : Char)

section Messages
variable (h : Mirrors data text p opened r (resuming r k marks calls))
include h

theorem both_dead : Both data text p (dead r ch) (dead (resuming r k marks calls) ch) :=
  both_ite (fun _ => .next h) fun _ => both_error h (by decide)

theorem both_startReq : Both data text p (startReq r ch) (startReq (resuming r k marks calls) ch) := by
  refine both_ite (fun _ => .next h) fun _ => ?_
  refine both_ite (fun _ => both_error (h.update rfl) (by decide)) fun _ => ?_
  cases firstMethod ch with
  | none => exact both_error (h.update rfl) (by decide)
  | some m => exact .next ((h.update rfl).updateState .reqMethod)

theorem both_startReqOrRes : Both data text p (startReqOrRes r ch) (startReqOrRes (resuming r k marks calls) ch) := by
  refine both_ite (fun _ => .next h) fun _ => ?_
  refine both_ite (fun _ => .next ((h.update rfl).updateState .resOrRespH)) fun _ => ?_
  exact both_startReq ch (h.resuming _ _)

theorem both_resOrRespH : Both data text p (resOrRespH r ch) (resOrRespH (resuming r k marks calls) ch) := by
  refine both_ite (fun _ => .next ((h.update rfl).updateState .resHT)) fun _ => ?_
  refine both_ite (fun _ => both_error h (by decide)) fun _ => ?_
  exact .next ((h.update rfl).updateState .reqMethod)

theorem both_startRes : Both data text p (startRes r ch) (startRes (resuming r k marks calls) ch) := by
  refine both_ite (fun _ => .next ((h.update rfl).updateState .resH)) fun _ => ?_
  exact both_ite (fun _ => .next (h.update rfl)) fun _ => both_error (h.update rfl) (by decide)

theorem both_expect (c : Char) (s : State) :
    Both data text p (expect c s r ch) (expect c s (resuming r k marks calls) ch) :=
  both_strictCheck h _ fun _ => .next (h.updateState s)

theorem both_resFirstHttpMajor :
    Both data text p (resFirstHttpMajor r ch) (resFirstHttpMajor (resuming r k marks calls) ch) :=
  both_ite (fun _ => both_error h (by decide)) fun _ => .next ((h.update rfl).updateState .resHttpMajor)

theorem both_reqFirstHttpMajor :
    Both data text p (reqFirstHttpMajor r ch) (reqFirstHttpMajor (resuming r k marks calls) ch) :=
  both_ite (fun _ => both_error h (by decide)) fun _ => .next ((h.update rfl).updateState .reqHttpMajor)

theorem both_httpMajorDigit :
    Both data text p (httpMajorDigit r ch) (httpMajorDigit (resuming r k marks calls) ch) := by
  refine both_ite (fun _ => both_error h (by decide)) fun _ => ?_
  exact both_ite (fun _ => both_error (h.update rfl) (by decide)) fun _ => .next (h.update rfl)

theorem both_httpMinorDigit :
    Both data text p (httpMinorDigit r ch) (httpMinorDigit (resuming r k marks calls) ch) := by
  refine both_ite (fun _ => both_error h (by decide)) fun _ => ?_
  exact both_ite (fun _ => both_error (h.update rfl) (by decide)) fun _ => .next (h.update rfl)

theorem both_resHttpMajor : Both data text p (resHttpMajor r ch) (resHttpMajor (resuming r k marks calls) ch) :=
  both_ite (fun _ => .next (h.updateState .resFirstHttpMinor)) fun _ => both_httpMajorDigit ch h

theorem both_reqHttpMajor : Both data text p (reqHttpMajor r ch) (reqHttpMajor (resuming r k marks calls) ch) :=
  both_ite (fun _ => .next (h.updateState .reqFirstHttpMinor)) fun _ => both_httpMajorDigit ch h

theorem both_firstHttpMinor (s : State) :
    Both data text p (firstHttpMinor s r ch) (firstHttpMinor s (resuming r k marks calls) ch) :=
  both_ite (fun _ => both_error h (by decide)) fun _ => .next ((h.update rfl).updateState s)

theorem both_resHttpMinor : Both data text p (resHttpMinor r ch) (resHttpMinor (resuming r k marks calls) ch) :=
  both_ite (fun _ => .next (h.updateState .resFirstStatusCode)) fun _ => both_httpMinorDigit ch h

theorem both_reqHttpMinor : Both data text p (reqHttpMinor r ch) (reqHttpMinor (resuming r k marks calls) ch) := by
  refine both_ite (fun _ => .next (h.updateState .reqLineAlmostDone)) fun _ => ?_
  exact both_ite (fun _ => .next (h.updateState .headerFieldStart)) fun _ => both_httpMinorDigit ch h

theorem both_resFirstStatusCode :
    Both data text p (resFirstStatusCode r ch) (resFirstStatusCode (resuming r k marks calls) ch) := by
  refine both_ite (fun _ => ?_) fun _ => .next ((h.update rfl).updateState .resStatusCode)
  exact both_ite (fun _ => .next h) fun _ => both_error h (by decide)

theorem both_resStatusCode :
    Both data text p (resStatusCode r ch) (resStatusCode (resuming r k marks calls) ch) := by
  refine both_ite (fun _ => ?_) fun _ => ?_
  · refine both_ite (fun _ => .next (h.updateState .resStatusStart)) fun _ => ?_
    refine both_ite (fun _ => .next (h.updateState .resLineAlmostDone)) fun _ => ?_
    exact both_ite (fun _ => .next (h.updateState .headerFieldStart)) fun _ => both_error h (by decide)
  · exact both_ite (fun _ => both_error (h.update rfl) (by decide)) fun _ => .next (h.update rfl)

theorem both_reqMethod : Both data text p (reqMethod r ch) (reqMethod (resuming r k marks calls) ch) := by
  simp only [reqMethod, resuming]
  refine both_ite (fun _ => both_error h (by decide)) fun _ => ?_
  refine both_ite (fun _ => .next ((h.update rfl).updateState .reqSpacesBeforeUrl)) fun _ => ?_
  refine both_ite (fun _ => .next (h.update rfl)) fun _ => ?_
  cases otherMethod r.parser.method r.parser.index ch with
  | none => exact both_error h (by decide)
  | some m => exact .next (h.update rfl)

theorem both_reqHttpStart : Both data text p (reqHttpStart r ch) (reqHttpStart (resuming r k marks calls) ch) := by
  refine both_ite (fun _ => .next (h.updateState .reqHttpH)) fun _ => ?_
  exact both_ite (fun _ => .next h) fun _ => both_error h (by decide)

theorem both_reqLineAlmostDone :
    Both data text p (reqLineAlmostDone r ch) (reqLineAlmostDone (resuming r k marks calls) ch) :=
  both_ite (fun _ => both_error h (by decide)) fun _ => .next (h.updateState .headerFieldStart)

theorem both_urlChar : Both data text p (urlChar r ch) (urlChar (resuming r k marks calls) ch) :=
  both_ite (fun _ => both_error (h.updateState _) (by decide)) fun _ => .next (h.updateState _)

theorem both_reqSchema : Both data text p (reqSchema r ch) (reqSchema (resuming r k marks calls) ch) :=
  both_ite (fun _ => both_error h (by decide)) fun _ => both_urlChar ch h

theorem both_chunkSizeStart :
    Both data text p (chunkSizeStart r ch) (chunkSizeStart (resuming r k marks calls) ch) := by
  simp only [chunkSizeStart]
  cases unhex ch with
  | none => exact both_error h (by decide)
  | some value => exact .next ((h.update rfl).updateState .chunkSize)

theorem both_chunkSize : Both data text p (chunkSize r ch) (chunkSize (resuming r k marks calls) ch) := by
  refine both_ite (fun _ => .next (h.updateState .chunkSizeAlmostDone)) fun _ => ?_
  cases unhex ch with
  | none => exact both_ite (fun _ => .next (h.updateState .chunkParameters)) fun _ => both_error h (by decide)
  | some value => exact both_ite (fun _ => both_error h (by decide)) fun _ => .next (h.update rfl)

theorem both_chunkParameters :
    Both data text p (chunkParameters r ch) (chunkParameters (resuming r k marks calls) ch) :=
  both_ite (fun _ => .next (h.updateState .chunkSizeAlmostDone)) fun _ => .next h

theorem both_chunkSizeAlmostDone :
    Both data text p (chunkSizeAlmostDone r ch) (chunkSizeAlmostDone (resuming r k marks calls) ch) := by
  refine both_strictCheck h _ fun _ => ?_
  refine both_ite (fun _ => .next (((h.update rfl).update rfl).updateState .headerFieldStart)) fun _ => ?_
  exact .next ((h.update rfl).updateState .chunkData)

theorem both_chunkDataDone :
    Both data text p (chunkDataDone r ch) (chunkDataDone (resuming r k marks calls) ch) :=
  both_strictCheck h _ fun _ => .next ((h.update rfl).updateState .chunkSizeStart)

end Messages

section Pieces

theorem both_resStatusStart (h : Mirrors data text p none r (resuming r k marks calls)) :
    Both data text p (resStatusStart r ch) (resStatusStart (resuming r k marks calls) ch) := by
  refine both_ite (fun _ => .next (h.updateState .resLineAlmostDone)) fun _ => ?_
  refine both_ite (fun _ => .next (h.updateState .headerFieldStart)) fun _ => ?_
  have hmarks₀ : (resuming r k marks calls).marks = only none := h.marks₀
  have hmark := h.mark .status
  rw [mark_of_closed h.marks, mark_of_closed hmarks₀] at hmark ⊢
  exact .next ((hmark.updateState .resStatus).update rfl)

theorem both_resStatus {start : ℕ} (h : Mirrors data text p (some (.status, start)) r (resuming r k marks calls)) :
    Both data text p (resStatus r ch) (resStatus (resuming r k marks calls) ch) := by
  refine both_ite (fun _ => .next (h.updateState .resLineAlmostDone).callback) fun _ => ?_
  exact both_ite (fun _ => .next (h.updateState .headerFieldStart).callback) fun _ => .next h

theorem both_reqSpacesBeforeUrl (h : Mirrors data text p none r (resuming r k marks calls)) :
    Both data text p (reqSpacesBeforeUrl r ch) (reqSpacesBeforeUrl (resuming r k marks calls) ch) := by
  refine both_ite (fun _ => .next h) fun _ => ?_
  have hmarks₀ : (resuming r k marks calls).marks = only none := h.marks₀
  have hmark := h.mark .url
  rw [mark_of_closed h.marks, mark_of_closed hmarks₀] at hmark ⊢
  by_cases hconnect : r.parser.method = .connect
  · simp only [if_pos hconnect]
    exact both_urlChar ch (hmark.resuming _ k)
  · simp only [if_neg hconnect]
    exact both_urlChar ch hmark

theorem both_reqUrl {start : ℕ} (h : Mirrors data text p (some (.url, start)) r (resuming r k marks calls)) :
    Both data text p (reqUrl r ch) (reqUrl (resuming r k marks calls) ch) := by
  refine both_ite (fun _ => .next (h.updateState .reqHttpStart).callback) fun _ => ?_
  refine both_ite (fun _ => .next ((h.update rfl).updateState _).callback) fun _ => ?_
  exact both_urlChar ch h

end Pieces

section Heads

private theorem both_messageDone (h : Mirrors data text p none r (resuming r k marks calls)) :
    Both data text p (messageDone r) (messageDone (resuming r k marks calls)) :=
  both_ite (fun _ => .done (h.updateState _) (congrArg (· + 1) h.here) rfl) fun _ => .next (h.updateState _)

private theorem both_headersDone (h : Mirrors data text p none r (resuming r k marks calls)) :
    Both data text p (headersDone r ch) (headersDone (resuming r k marks calls) ch) := by
  refine both_strictCheck h _ fun _ => ?_
  have hread := h.resuming { r.parser with nread := 0 } 0
  refine both_ite (fun _ => .done (hread.updateState _) (congrArg (· + 1) h.here) rfl) fun _ => ?_
  refine both_ite (fun _ => .next (hread.updateState _)) fun _ => ?_
  refine both_ite (fun _ => .next (hread.updateState .chunkSizeStart)) fun _ => ?_
  refine both_ite (fun _ => .next (hread.updateState _)) fun _ => ?_
  refine both_ite (fun _ => .next (hread.updateState .bodyIdentity)) fun _ => ?_
  exact both_ite (fun _ => .next (hread.updateState _)) fun _ => .next (hread.updateState .bodyIdentityEof)

theorem both_headersAlmostDone (h : Mirrors data text p none r (resuming r k marks calls)) :
    Both data text p (headersAlmostDone r ch) (headersAlmostDone (resuming r k marks calls) ch) := by
  refine both_strictCheck h _ fun _ => ?_
  refine both_ite (fun _ => both_messageDone (h.resuming _ k)) fun _ => ?_
  exact both_headersDone ch (h.resuming _ k)

theorem both_headerFieldStart (h : Mirrors data text p none r (resuming r k marks calls)) :
    Both data text p (headerFieldStart r ch) (headerFieldStart (resuming r k marks calls) ch) := by
  refine both_ite (fun _ => .next (h.updateState .headersAlmostDone)) fun _ => ?_
  refine both_ite (fun _ => both_headersAlmostDone ch (h.resuming _ k)) fun _ => ?_
  refine both_ite (fun _ => both_error h (by decide)) fun _ => ?_
  have hmarks₀ : (resuming r k marks calls).marks = only none := h.marks₀
  have hmark := h.mark .headerField
  rw [mark_of_closed h.marks, mark_of_closed hmarks₀] at hmark ⊢
  exact .next ((hmark.updateState .headerField).update rfl)

theorem both_headerValueStart (h : Mirrors data text p none r (resuming r k marks calls)) :
    Both data text p (headerValueStart r ch) (headerValueStart (resuming r k marks calls) ch) := by
  have hmarks₀ : (resuming r k marks calls).marks = only none := h.marks₀
  have hmark := h.mark .headerValue
  rw [mark_of_closed h.marks, mark_of_closed hmarks₀] at hmark
  have hopen := hmark.updateState .headerValue
  rw [headerValueStart, headerValueStart, mark_of_closed h.marks, mark_of_closed hmarks₀]
  cases hh : r.parser.headerState <;> simp only [Run.updateState, Run.update, hh]
  case contentLength =>
    exact both_ite (fun _ => both_error (hopen.update rfl) (by decide)) fun _ => .next (hopen.update rfl)
  all_goals exact .next (hopen.update rfl)

theorem both_headerValueDiscardWs (h : Mirrors data text p none r (resuming r k marks calls)) :
    Both data text p (headerValueDiscardWs r ch) (headerValueDiscardWs (resuming r k marks calls) ch) := by
  refine both_ite (fun _ => .next h) fun _ => ?_
  refine both_ite (fun _ => .next (h.updateState .headerValueDiscardWsAlmostDone)) fun _ => ?_
  exact both_ite (fun _ => .next (h.updateState .headerValueDiscardLws)) fun _ => both_headerValueStart ch h

theorem both_headerAlmostDone (h : Mirrors data text p none r (resuming r k marks calls)) :
    Both data text p (headerAlmostDone r ch) (headerAlmostDone (resuming r k marks calls) ch) :=
  both_strictCheck h _ fun _ => .next (h.updateState .headerValueLws)

theorem both_headerValueLws (h : Mirrors data text p none r (resuming r k marks calls)) :
    Both data text p (headerValueLws r ch) (headerValueLws (resuming r k marks calls) ch) := by
  refine both_ite (fun _ => both_headerValueStart ch (h.resuming _ k)) fun _ => ?_
  exact both_headerFieldStart ch (h.resuming _ k)

theorem both_headerValueDiscardLws (h : Mirrors data text p none r (resuming r k marks calls)) :
    Both data text p (headerValueDiscardLws r ch) (headerValueDiscardLws (resuming r k marks calls) ch) := by
  refine both_ite (fun _ => .next (h.updateState .headerValueDiscardWs)) fun _ => ?_
  have hflags := h.resuming { r.parser with flags := headerFlags r.parser.headerState r.parser.flags } k
  have htold := ((hflags.mark .headerValue).updateState .headerFieldStart).callback
  exact htold.lift (f := fun r => headerFieldStart r ch) fun _ _ _ h => both_headerFieldStart ch h

/-- In the first run a chunk may be open that is not open in the second. -/
theorem both_chunkDataAlmostDone (hhere : r.p = p) (hmarks : r.marks = only opened)
    (hbody : ∀ piece start, opened = some (piece, start) → piece = .body)
    (htext : toldText data r.calls ++ openText data opened p = text) :
    Both data text p (chunkDataAlmostDone r ch) (chunkDataAlmostDone (resuming r k (only none) []) ch) := by
  have hstill : ∀ c ∈ ([] : List Callback), c.length = 0 := List.forall_mem_nil _
  have hstrict : Errno.strict ≠ .ok := by decide
  refine both_ite (fun _ => .error rfl ⟨_, htext⟩ hstill hstrict hhere rfl) fun _ => ?_
  have hclosed₀ : ((resuming r k (only none) []).updateState .chunkDataDone).callback .body =
      (resuming r k (only none) []).updateState .chunkDataDone := callbackTo_of_none rfl _
  rw [hclosed₀]
  cases opened with
  | none =>
    have hclosed : (r.updateState .chunkDataDone).callback .body = r.updateState .chunkDataDone := by
      apply callbackTo_of_none
      change r.marks .body = none
      rw [hmarks, only_none]
    rw [hclosed]
    exact @Both.next data text p none _ _ ⟨rfl, hhere, Nat.le_refl p, rfl, hmarks, rfl, htext, hstill⟩
  | some o =>
    obtain ⟨piece, start⟩ := o
    obtain rfl := hbody piece start rfl
    have hmarks' : (r.updateState .chunkDataDone).marks = only (some (.body, start)) := hmarks
    rw [Run.callback, callbackTo_of_open hmarks']
    refine @Both.next data text p none _ _ ⟨rfl, hhere, Nat.le_refl p, rfl, rfl, rfl, ?_, hstill⟩
    rw [← htext, openText, List.append_nil, toldText_concat, ← hhere]
    rfl

end Heads

end States
end Mirrors
end OpenSniffer.HttpMirrors
