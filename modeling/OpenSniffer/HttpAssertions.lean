import OpenSniffer.HttpCalls

/-!
# The assertions of the HTTP parser

What the source asserts in each state, and that no assertion fails: for a parser of any
type, whatever was given to it before, in calls of any lengths.
-/
namespace OpenSniffer.HttpAssertions
open HttpParserState HttpParser HttpMessageStart HttpOpenings HttpRuns HttpInvariants HttpHeadPasses
  HttpCalls ScanLoops

/-- The parser after a call for each of these parts of a stream. -/
def fed (parser : Parser) (chunks : List (List Char)) : Parser :=
  chunks.foldl (fun parser data => (httpParserExecute data parser).1.parser) parser

/-- In a call for this data the parser comes to this run, at a pass or at the end. -/
def Visits (parser : Parser) (data : List Char) (r : Run) : Prop :=
  parser.httpErrno = .ok ∧ data ≠ [] ∧ (scan data).Reaches (startRun parser) r

/-- What a pass has counted when it comes to the state. -/
def countedFor (parser : Parser) : ℕ :=
  if parser.state.parsingHeader then (parser.nread + 1) % 2 ^ 32 else parser.nread

/-- Every character of the name is read in a known header state. -/
def FieldAsserts (parser : Parser) (name : List Char) : Prop :=
  ∀ seen ch rest, name = seen ++ ch :: rest → readsField (fieldRead parser seen).headerState = true

/-- No character of a value is read in a header state that a value only starts from. -/
def ValueAsserts (data : List Char) : ℕ → ℕ → Parser → HeaderState → Prop
  | 0, _, _, _ => True
  | n + 1, p, parser, h =>
    let ch := charAt data p
    if p = data.length ∨ ch = cr ∨ ch = lf then True
    else if h = .general then ValueAsserts data n (valueEnd data p) parser h
    else readsValue h = true ∧
      match headerValueChar parser h ch with
      | none => True
      | some (parser, h) => ValueAsserts data n (p + 1) parser h

/-- What the source asserts in a pass: that there is no error yet where it calls back, and
what it asserts in the pass's state. -/
def Asserts (data : List Char) (r : Run) : Prop :=
  let parser := r.parser
  parser.httpErrno = .ok ∧
    match parser.state with
    | .headerField => FieldAsserts parser (fieldName data r.p)
    | .headerValue => ValueAsserts data (data.length - r.p) r.p parser parser.headerState
    | .bodyIdentity => parser.contentLength ≠ 0 ∧ parser.contentLength ≠ ullongMax
    | .chunkSizeStart => countedFor parser = 1 ∧ parser.flags.chunked = true
    | .chunkSize | .chunkParameters | .chunkSizeAlmostDone | .chunkDataDone =>
      parser.flags.chunked = true
    | .chunkData =>
      parser.flags.chunked = true ∧ parser.contentLength ≠ 0 ∧ parser.contentLength ≠ ullongMax
    | .chunkDataAlmostDone => parser.flags.chunked = true ∧ parser.contentLength = 0
    | _ => True

/-- At most one piece is open, as the source asserts at the end of its data. -/
def OneMark (r : Run) : Prop :=
  ∀ piece other, r.marks piece ≠ none → r.marks other ≠ none → piece = other

/-- What is open is the piece that the state reads: a URL in the states of a URL, and nothing
in those that read no piece. A body may not be open yet. -/
def OpensItsPiece (r : Run) : Prop := ∃ opened, r.marks = only opened ∧ Opens r.parser.state opened

/-- A parser has an error, or it can go on. -/
def Live (parser : Parser) : Prop := parser.httpErrno ≠ .ok ∨ (Healthy parser ∧ Ready parser)

theorem httpParserInit_live (t : ParserType) : Live (httpParserInit t) := by
  refine .inr ⟨⟨rfl, ?_⟩, ?_⟩
  · constructor <;> exact Nat.zero_le _
  · cases t <;> trivial

theorem httpParserExecute_live {parser : Parser} (h : Live parser) (data : List Char) :
    Live (httpParserExecute data parser).1.parser := by
  rcases h with herror | ⟨hhealthy, hready⟩
  · simp only [httpParserExecute, if_pos herror]
    exact .inl herror
  · by_cases hdata : data = []
    · have hok : ¬ parser.httpErrno ≠ .ok := not_not.mpr hhealthy.1
      simp only [httpParserExecute, hdata, List.length_nil, if_true, if_neg hok]
      have hinvalid : Errno.invalidEofState ≠ .ok := by decide
      split
      all_goals first
        | exact .inr ⟨hhealthy, hready⟩
        | exact .inl hinvalid
    · rcases httpParserExecute_done hhealthy hready hdata with hstopped | ⟨-, -, hhealthy', hready'⟩
      · by_cases hok : (httpParserExecute data parser).1.parser.httpErrno = .ok
        · exact .inr (hstopped.upgraded hok).2
        · exact .inl hok
      · exact .inr ⟨hhealthy', hready'⟩

theorem fed_live {parser : Parser} (h : Live parser) (chunks : List (List Char)) :
    Live (fed parser chunks) := by
  induction chunks generalizing parser with
  | nil => exact h
  | cons data chunks ih => exact ih (httpParserExecute_live h data)

private theorem fieldAsserts_of_reads {parser : Parser} (h : readsField parser.headerState = true)
    (name : List Char) : FieldAsserts parser name := by
  intro seen ch rest _
  obtain ⟨index, headerState, hreads, heq⟩ := fieldRead_eq h seen
  rw [heq]
  exact hreads

private theorem valueAsserts_of_reads (data : List Char) (n p : ℕ) {parser : Parser} {h : HeaderState}
    (hhealthy : Healthy parser) (hs : parser.state = .headerValue) (hreads : readsValue h = true) :
    ValueAsserts data n p parser h := by
  induction n generalizing p parser h with
  | zero => trivial
  | succ n ih =>
    simp only [ValueAsserts]
    split
    · trivial
    · split
      · exact ih _ hhealthy hs hreads
      · refine ⟨hreads, ?_⟩
        split
        · trivial
        · rename_i parser' h' hchar
          obtain ⟨hhealthy', hs', hreads'⟩ := headerValueChar_keeps _ hhealthy hs hreads hchar
          exact ih _ hhealthy' hs' hreads'

private theorem asserts_of_ready (data : List Char) {r : Run} (hhealthy : Healthy r.parser)
    (hready : Ready r.parser) : Asserts data r := by
  refine ⟨hhealthy.1, ?_⟩
  cases hs : r.parser.state <;> simp only [Ready, hs] at hready <;> dsimp only
  case headerField => exact fieldAsserts_of_reads hready _
  case headerValue => exact valueAsserts_of_reads _ _ _ hhealthy hs hready
  case bodyIdentity => exact hready
  case chunkSizeStart =>
    refine ⟨?_, hready.2⟩
    rw [countedFor, hs, hready.1]
    rfl
  case chunkSize | chunkParameters | chunkSizeAlmostDone => exact hready.1
  case chunkData | chunkDataAlmostDone | chunkDataDone => exact hready

private theorem oneMark_of_only {r : Run} {opened : Option (Piece × ℕ)} (h : r.marks = only opened) :
    OneMark r := by
  intro piece other hpiece hother
  rw [h] at hpiece hother
  obtain ⟨start, hstart⟩ := Option.ne_none_iff_exists'.mp hpiece
  obtain ⟨start', hstart'⟩ := Option.ne_none_iff_exists'.mp hother
  have hopened := eq_of_only hstart
  rw [eq_of_only hstart'] at hopened
  cases hopened
  rfl

/-- Wherever a parser comes to, none of the assertions there fails, its numbers are within
their bounds, the state finds what it relies on, and at most one piece is open, the state's
own. -/
theorem assertions_hold (t : ParserType) (chunks : List (List Char)) {data : List Char} {r : Run}
    (h : Visits (fed (httpParserInit t) chunks) data r) :
    Asserts data r ∧ OneMark r ∧ OpensItsPiece r ∧ Healthy r.parser ∧ Ready r.parser := by
  obtain ⟨hok, -, hreaches⟩ := h
  rcases fed_live (httpParserInit_live t) chunks with herror | ⟨hhealthy, hready⟩
  · exact absurd hok herror
  · obtain ⟨opened, last, hat, hfits⟩ := hreaches.keeps scan_keeps (startRun_sound hhealthy hready)
    exact ⟨asserts_of_ready data hat.healthy hfits.ready, oneMark_of_only hat.marks,
      ⟨opened, hat.marks, hfits.opens⟩, hat.healthy, hfits.ready⟩

def chunkedHead : List Char :=
  "POST /a HTTP/1.1".toList ++ [cr, lf] ++ "Transfer-Encoding: chunked".toList ++ [cr, lf, cr, lf]

theorem assertions_hold_chunkedHead :
    let parser := fed (httpParserInit .httpBoth) [chunkedHead]
    Asserts ['5', cr, lf] (startRun parser) ∧ OneMark (startRun parser) ∧
      OpensItsPiece (startRun parser) ∧ Healthy parser ∧ Ready parser :=
  assertions_hold .httpBoth [chunkedHead] ⟨by decide +kernel, by decide, .refl _⟩

theorem calls_of_done {data : List Char} {before : Option Piece} {result : Run × ℕ}
    (h : Done data before result) : ∃ last, Told before result.1.calls data.length last := by
  rcases h with hstopped | ⟨-, htold, -⟩
  · exact hstopped.told
  · exact htold

/-- A parser with an error, and a call without data, make no callback, and the call returns
more than the length of its data only with an error. -/
theorem idle {parser : Parser} {data : List Char} (h : parser.httpErrno ≠ .ok ∨ data = []) :
    let result := httpParserExecute data parser
    result.1.calls = [] ∧ (data ≠ [] → result.2 = 0) ∧
      (result.2 = data.length ∨ result.1.parser.httpErrno ≠ .ok) := by
  simp only [httpParserExecute]
  split
  · rename_i herror
    exact ⟨rfl, fun _ => rfl, .inr herror⟩
  · rename_i hok
    rcases h with herror | hdata
    · exact absurd herror hok
    · have hlen : data.length = 0 := List.length_eq_zero_iff.mpr hdata
      have hinvalid : Errno.invalidEofState ≠ .ok := by decide
      rw [if_pos hlen]
      split
      all_goals first
        | exact ⟨rfl, fun _ => rfl, .inl hlen.symm⟩
        | exact ⟨rfl, fun hne => absurd hdata hne, .inr hinvalid⟩

/-- The callbacks of a call are for disjoint parts of its data, in order; what the call
returns is within the data, and is all of it unless there is an error or an upgrade. -/
theorem httpParserExecute_ranges (t : ParserType) (chunks : List (List Char)) (data : List Char) :
    let result := httpParserExecute data (fed (httpParserInit t) chunks)
    (∀ c ∈ result.1.calls, c.start + c.length ≤ data.length) ∧
      result.1.calls.Pairwise (fun c c' => c.start + c.length ≤ c'.start) ∧
      (data ≠ [] → result.2 ≤ data.length) ∧
      (result.2 = data.length ∨ result.1.parser.httpErrno ≠ .ok ∨ result.1.parser.upgrade = true) := by
  intro result
  have hlive := fed_live (httpParserInit_live t) chunks
  by_cases hidle : (fed (httpParserInit t) chunks).httpErrno ≠ .ok ∨ data = []
  · obtain ⟨hcalls, hparsed, hend⟩ := idle hidle
    refine ⟨?_, ?_, ?_, ?_⟩
    · intro c hc
      rw [hcalls] at hc
      cases hc
    · rw [hcalls]
      exact .nil
    · intro hdata
      exact Nat.le_trans (Nat.le_of_eq (hparsed hdata)) (Nat.zero_le _)
    · exact hend.imp_right .inl
  · obtain ⟨hok, hdata⟩ := not_or.mp hidle
    rcases hlive with herror | ⟨hhealthy, hready⟩
    · exact absurd herror hok
    · have hdone := httpParserExecute_done hhealthy hready hdata
      obtain ⟨last, htold⟩ := calls_of_done hdone
      refine ⟨htold.within, htold.ordered, ?_, ?_⟩
      · intro _
        rcases hdone with hstopped | ⟨hparsed, -, -⟩
        · exact hstopped.parsed_le
        · exact Nat.le_of_eq hparsed
      · rcases hdone with hstopped | ⟨hparsed, -, -⟩
        · by_cases herror : result.1.parser.httpErrno = .ok
          · exact .inr (.inr (hstopped.upgraded herror).1)
          · exact .inr (.inl herror)
        · exact .inl hparsed

/-- In the callbacks for a first call each field is directly followed by a value, if any
callback follows it, and each value directly follows a field or another line of the value. -/
theorem httpParserExecute_chained (t : ParserType) (data : List Char) :
    Chained none ((httpParserExecute data (httpParserInit t)).1.calls.map Callback.piece) := by
  have hbefore : toldBefore (httpParserInit t).state = none := by cases t <;> rfl
  by_cases hdata : data = []
  · rw [(idle (.inr hdata)).1]
    trivial
  · rcases httpParserInit_live t with herror | ⟨hhealthy, hready⟩
    · exact absurd rfl herror
    · obtain ⟨last, htold⟩ := calls_of_done (httpParserExecute_done hhealthy hready hdata)
      rw [← hbefore]
      exact htold.chained

end OpenSniffer.HttpAssertions
