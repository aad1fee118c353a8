import OpenSniffer.HttpAssertions
import OpenSniffer.HttpFieldFeeding
import OpenSniffer.HttpValueFeeding
import OpenSniffer.HttpBodyFeeding

/-!
# The HTTP parser over the parts of a stream

What the parser makes of some data is what it makes of their characters, one at a time. So
it does not matter where a stream is cut into the data of several calls: as long as no head
is too large, the parser is the same, but for the size that is counted, and the same is told.
-/
namespace OpenSniffer.HttpSplits
open HttpParserState HttpParser HttpMessageStart HttpOpenings HttpRuns HttpInvariants HttpCalls
  HttpFieldFeeding HttpValueFeeding HttpBodyFeeding HttpAssertions
open HttpMirrors HttpFeeding StreamFeeds

section Passes
variable {data : List Char} {text : List (Piece × Char)} {before last : Option Piece} {r : Run}
  {opened : Option (Piece × ℕ)}

/-- The marks of a call that resumes in a piece are those of the piece that is open. -/
theorem marks_resumed {s : State} (hopens : Opens s opened) (hbody : pieceOf s ≠ some .body) :
    startMarks s = only (opened.map fun o => (o.1, 0)) := by
  rw [startMarks_eq]
  congr 1
  cases opened with
  | none =>
    rcases hopens with hnone | hopens
    · rw [resumed, hnone]
      rfl
    · exact absurd hopens hbody
  | some o =>
    obtain ⟨piece, start⟩ := o
    have hpiece : pieceOf s = some piece := hopens
    rw [resumed, hpiece]
    cases piece <;> first
      | rfl
      | exact absurd hpiece hbody

/-- The states that look at one character only and leave no body open. -/
def looksAtOne : State → Bool
  | .headerField | .headerValue | .chunkData | .chunkDataAlmostDone | .bodyIdentity | .bodyIdentityEof => false
  | .headersDone | .headerValueStart | .messageDone => false
  | _ => true

private theorem dispatch_both (ch : Char) {k p : ℕ} {marks : Piece → Option ℕ} {calls : List Callback}
    (h : Mirrors data text p opened r (resuming r k marks calls)) (hone : looksAtOne r.parser.state = true)
    (hopens : Opens r.parser.state opened) :
    Both data text p (dispatch data r ch) (dispatch [ch] (resuming r k marks calls) ch) := by
  have hquiet : pieceOf r.parser.state = none → Mirrors data text p none r (resuming r k marks calls) := by
    intro hnone
    rw [← closed_of_opens hopens hnone]
    exact h
  have hinside : ∀ piece, pieceOf r.parser.state = some piece → piece ≠ .body →
      ∃ start, Mirrors data text p (some (piece, start)) r (resuming r k marks calls) := by
    intro piece hpiece hbody
    obtain ⟨start, rfl⟩ := opened_of_opens hopens hpiece hbody
    exact ⟨start, h⟩
  cases hs : r.parser.state <;> rw [hs] at hone hquiet hinside <;> simp only [dispatch, hs]
  case dead => exact both_dead ch h
  case startReqOrRes => exact both_startReqOrRes ch h
  case resOrRespH => exact both_resOrRespH ch h
  case startRes => exact both_startRes ch h
  case resH | resHT | resHTT | resHTTP | resLineAlmostDone | reqHttpH | reqHttpHT | reqHttpHTT
      | reqHttpHTTP | headerValueDiscardWsAlmostDone =>
    exact both_expect ch h _ _
  case resFirstHttpMajor => exact both_resFirstHttpMajor ch h
  case resHttpMajor => exact both_resHttpMajor ch h
  case resFirstHttpMinor => exact both_firstHttpMinor ch h _
  case resHttpMinor => exact both_resHttpMinor ch h
  case resFirstStatusCode => exact both_resFirstStatusCode ch h
  case resStatusCode => exact both_resStatusCode ch h
  case resStatusStart => exact both_resStatusStart ch (hquiet rfl)
  case resStatus =>
    obtain ⟨start, h⟩ := hinside .status rfl (by decide)
    exact both_resStatus ch h
  case startReq => exact both_startReq ch h
  case reqMethod => exact both_reqMethod ch h
  case reqSpacesBeforeUrl => exact both_reqSpacesBeforeUrl ch (hquiet rfl)
  case reqSchema | reqSchemaSlash | reqSchemaSlashSlash | reqServerStart => exact both_reqSchema ch h
  case reqServer | reqServerWithAt | reqPath | reqQueryStringStart | reqQueryString
      | reqFragmentStart | reqFragment =>
    obtain ⟨start, h⟩ := hinside .url rfl (by decide)
    exact both_reqUrl ch h
  case reqHttpStart => exact both_reqHttpStart ch h
  case reqFirstHttpMajor => exact both_reqFirstHttpMajor ch h
  case reqHttpMajor => exact both_reqHttpMajor ch h
  case reqFirstHttpMinor => exact both_firstHttpMinor ch h _
  case reqHttpMinor => exact both_reqHttpMinor ch h
  case reqLineAlmostDone => exact both_reqLineAlmostDone ch h
  case headerFieldStart => exact both_headerFieldStart ch (hquiet rfl)
  case headerValueDiscardWs => exact both_headerValueDiscardWs ch (hquiet rfl)
  case headerValueDiscardLws => exact both_headerValueDiscardLws ch (hquiet rfl)
  case headerValueLws => exact both_headerValueLws ch (hquiet rfl)
  case headerAlmostDone => exact both_headerAlmostDone ch (hquiet rfl)
  case chunkSizeStart => exact both_chunkSizeStart ch h
  case chunkSize => exact both_chunkSize ch h
  case chunkParameters => exact both_chunkParameters ch h
  case chunkSizeAlmostDone => exact both_chunkSizeAlmostDone ch h
  case headersAlmostDone => exact both_headersAlmostDone ch (hquiet rfl)
  case chunkDataDone => exact both_chunkDataDone ch h
  all_goals cases hone

private theorem looksAtOne_cases {parser : Parser} (hready : Ready parser) : looksAtOne parser.state = true ∨
    parser.state = .headerField ∨ parser.state = .headerValue ∨ pieceOf parser.state = some .body := by
  cases hs : parser.state <;> simp only [Ready, hs] at hready <;> simp [looksAtOne, pieceOf]

private theorem pieceOf_looksAtOne {s : State} (h : looksAtOne s = true) : pieceOf s ≠ some .body := by
  cases s <;> simp [looksAtOne, pieceOf] at h ⊢

/-- Whatever was counted for it, a pass agrees with the machine from its place on. -/
theorem dispatch_agrees {nread : ℕ} (hlen : data.length + httpMaxHeaderSize < 2 ^ 32)
    (h : At data before r opened last) (hin : r.p < data.length)
    (hfits : Fits { r.parser with nread := nread } opened last)
    (htext : toldText data r.calls ++ openText data opened r.p = text) :
    Agrees data (bare r.parser) text r.p (dispatch data r (charAt data r.p)) := by
  obtain ⟨k, hk, hpass⟩ := @pass_single (bare r.parser) rfl (charAt data r.p)
  have hopens : Opens r.parser.state opened := hfits.opens
  rcases looksAtOne_cases hfits.ready with hone | hs | hs | hs
  · apply agrees_of_both hin
    rw [hpass]
    have hmirrors : Mirrors data text r.p opened r (resuming r k (startMarks r.parser.state) []) :=
      ⟨rfl, rfl, h.untold_le, rfl, h.marks, marks_resumed hopens (pieceOf_looksAtOne hone), htext,
        List.forall_mem_nil _⟩
    exact dispatch_both _ hmirrors hone hopens
  · have hs' : r.parser.state = .headerField := hs
    rw [hs'] at hopens
    obtain ⟨start, rfl⟩ := opened_of_opens hopens rfl (by decide)
    simp only [dispatch, hs']
    exact headerField_agrees hs h.marks h.untold_le hin htext
  · have hs' : r.parser.state = .headerValue := hs
    rw [hs'] at hopens
    obtain ⟨start, rfl⟩ := opened_of_opens hopens rfl (by decide)
    simp only [dispatch, hs']
    exact headerValue_agrees hlen hs h.marks h.untold_le hin htext h.healthy.2.nread_le
  · have hpiece : pieceOf r.parser.state = some .body := hs
    have hbody := body_of_opens hopens hpiece
    have hready := hfits.ready
    cases hs' : r.parser.state <;> simp only [pieceOf, hs', reduceCtorEq, Option.some.injEq] at hpiece <;>
      simp only [Ready, hs'] at hready <;> simp only [dispatch, hs']
    case chunkData => exact chunkData_agrees h.marks hbody h.untold_le hin htext hready.2.1 hs'
    case chunkDataAlmostDone =>
      apply agrees_of_both hin
      have hstart : startRun { bare r.parser with nread := k } = resuming r k (only none) [] :=
        congrArg (fun marks => (⟨_, 0, marks, []⟩ : Run)) (startMarks_body hs)
      rw [hpass, hstart]
      simp only [dispatch, hs']
      exact both_chunkDataAlmostDone _ rfl h.marks hbody htext
    case bodyIdentity => exact bodyIdentity_agrees h.marks hbody h.untold_le hin htext hready.1 hs'
    case bodyIdentityEof => exact bodyIdentityEof_agrees hs' h.marks hbody h.untold_le hin htext

private theorem pass_agrees (hlen : data.length + httpMaxHeaderSize < 2 ^ 32) (h : At data before r opened last)
    (hin : r.p < data.length) (hfits : Fits r.parser opened last)
    (htext : toldText data r.calls ++ openText data opened r.p = text) :
    Agrees data (bare r.parser) text r.p (pass data r) := by
  rw [HttpParser.pass]
  split
  · apply agrees_countHeaderSize
    intro nread hnread
    have hcounted : At data before (r.update { r.parser with nread := nread }) opened last :=
      h.update ⟨h.healthy.1, { h.healthy.2 with nread_le := hnread }⟩
    exact dispatch_agrees hlen hcounted hin hfits htext
  · exact dispatch_agrees hlen h hin hfits htext

end Passes

section Calls
variable {data : List Char} {before : Option Piece}

/-- A call ends as the machine does: unless a head was too large, the parsers are the same but
for what was counted, as much was read, and without an error the same was told. -/
structure Comes (data : List Char) (text : List (Piece × Char)) (p : ℕ) (f : Fed Parser (Piece × Char))
    (result : Run × ℕ) : Prop where
  parser : bare result.1.parser = f.state
  parsed : result.2 = p + f.count
  told_prefix : toldText data result.1.calls <+: text ++ f.told
  told : result.1.parser.httpErrno = .ok → toldText data result.1.calls = text ++ f.told
  stopped : f.stopped = true → result.1.parser.httpErrno = .ok → result.1.parser.upgrade = true
  goes : f.stopped = false → result.1.parser.httpErrno = .ok

private theorem only_inj {opened opened' : Option (Piece × ℕ)} (h : only opened = only opened') : opened = opened' := by
  cases opened with
  | none =>
    cases opened' with
    | none => rfl
    | some o =>
      have hsome := congrFun h o.1
      rw [only_self] at hsome
      cases hsome
  | some o =>
    obtain ⟨piece, start⟩ := o
    have hsome := congrFun h piece
    rw [only_self] at hsome
    exact (eq_of_only hsome.symm).symm

/-- At the end of the data the machine has nothing more to read. -/
theorem comes_leftover {r : Run} {opened : Option (Piece × ℕ)} {text : List (Piece × Char)}
    (hmarks : r.marks = only opened) (htext : toldText data r.calls ++ openText data opened r.p = text)
    (hend : r.p = data.length) (hok : r.parser.httpErrno = .ok) :
    Comes data text r.p (feedFrom data r.p (bare r.parser)) (leftover r, data.length) := by
  have hfeed : feedFrom data r.p (bare r.parser) = Fed.start (bare r.parser) := by
    rw [feedFrom, hend, List.drop_length]
    rfl
  have htold : toldText data (leftover r).calls = text ++ [] := by
    rw [toldText_leftover hmarks, htext, List.append_nil]
  rw [hfeed]
  refine ⟨?_, hend.symm, ?_, fun _ => htold, ?_, ?_⟩
  · rw [parser_leftover]
    rfl
  · rw [htold]
    exact List.prefix_rfl
  · intro hstopped
    cases hstopped
  · intro _
    rw [parser_leftover]
    exact hok

/-- What follows the characters that a pass has taken. -/
theorem Comes.after {text more : List (Piece × Char)} {p n : ℕ} {parser parser' : Parser} {result : Run × ℕ}
    (hfeed : feedFrom data p parser =
      (⟨parser', more, n, false⟩ : Fed Parser (Piece × Char)).andThen (feedFrom data (p + n)))
    (h : Comes data (text ++ more) (p + n) (feedFrom data (p + n) parser') result) :
    Comes data text p (feedFrom data p parser) result := by
  rw [hfeed, andThen_goes]
  have hassoc := List.append_assoc text more (feedFrom data (p + n) parser').told
  exact ⟨h.parser, h.parsed.trans (Nat.add_assoc _ _ _), hassoc ▸ h.told_prefix, fun hok => hassoc ▸ h.told hok,
    h.stopped, h.goes⟩

private theorem executeLoop_comes (hlen : data.length + httpMaxHeaderSize < 2 ^ 32) (n : ℕ) {r : Run}
    {opened : Option (Piece × ℕ)} {text : List (Piece × Char)} (h : Sound data before r)
    (hmarks : r.marks = only opened) (htext : toldText data r.calls ++ openText data opened r.p = text)
    (hn : data.length ≤ r.p + n) :
    (executeLoop data n r).1.parser.httpErrno = .headerOverflow ∨
      Comes data text r.p (feedFrom data r.p (bare r.parser)) (executeLoop data n r) := by
  induction n generalizing r opened text with
  | zero =>
    obtain ⟨_, _, hat, _⟩ := h
    exact .inr (comes_leftover hmarks htext (Nat.le_antisymm hat.inside hn) hat.healthy.1)
  | succ n ih =>
    rw [executeLoop]
    by_cases hin : r.p < data.length
    · rw [if_pos hin]
      have hgood := pass_good h hin
      obtain ⟨opened', last, hat, hfits⟩ := h
      obtain rfl := only_inj (hmarks.symm.trans hat.marks)
      have hagrees := pass_agrees hlen hat hin hfits htext
      generalize pass data r = o at hgood hagrees
      cases hagrees with
      | @next opened' r' more m hmarks' hp hfeed htold =>
        have hle : r.p ≤ r'.p := hgood.1
        have hrest : data.length ≤ r'.p + 1 + n := by omega
        rcases ih hgood.2 hmarks' htold hrest with hover | hcomes
        · exact .inl hover
        · rw [hp] at hfeed
          refine .inr (.after hfeed ?_)
          rw [← hp]
          exact hcomes
      | @stop r' parsed m more hparsed hfeed htold hall =>
        refine .inr ?_
        rw [hfeed]
        exact ⟨rfl, hparsed, htold, hall, fun _ hok => (hgood.upgraded hok).1, fun hgoes => by cases hgoes⟩
      | overflow herror => exact .inl herror
    · rw [if_neg hin]
      obtain ⟨_, _, hat, _⟩ := h
      exact .inr (comes_leftover hmarks htext (Nat.le_antisymm hat.inside (Nat.le_of_not_lt hin)) hat.healthy.1)

theorem httpParserExecute_comes {parser : Parser} (hhealthy : Healthy parser) (hready : Ready parser)
    (hdata : data ≠ []) (hlen : data.length + httpMaxHeaderSize < 2 ^ 32)
    (hover : (httpParserExecute data parser).1.parser.httpErrno ≠ .headerOverflow) :
    Comes data [] 0 (feed feedChar (bare parser) data) (httpParserExecute data parser) := by
  have hok : ¬ parser.httpErrno ≠ .ok := not_not.mpr hhealthy.1
  have hlen' : data.length ≠ 0 := fun h => hdata (List.eq_nil_of_length_eq_zero h)
  have hexecute : httpParserExecute data parser = executeLoop data data.length (startRun parser) := by
    simp only [httpParserExecute, if_neg hok, if_neg hlen']
    rfl
  rw [hexecute] at hover ⊢
  have htext : toldText data (startRun parser).calls ++ openText data (resumed parser.state) (startRun parser).p = [] := by
    rw [resumed]
    split <;> rfl
  have hcomes := executeLoop_comes hlen data.length (startRun_sound hhealthy hready) (startMarks_eq _) htext
    (Nat.le_add_left _ _)
  exact hcomes.resolve_left hover

end Calls

/-- A call for a part of a stream is for some characters, not too many for the counters, and
comes upon no head that is too large. -/
structure Fair (parser : Parser) (data : List Char) : Prop where
  ne_nil : data ≠ []
  short : data.length + httpMaxHeaderSize < 2 ^ 32
  fits : (httpParserExecute data parser).1.parser.httpErrno ≠ .headerOverflow

/-- Every call is fair, and none comes behind one that asks for another protocol. -/
def FairParts : Parser → List (List Char) → Prop
  | _, [] => True
  | parser, data :: parts => Fair parser data ∧
      let next := (httpParserExecute data parser).1.parser
      (next.httpErrno = .ok → next.upgrade = true → parts = []) ∧ FairParts next parts

instance (parser : Parser) (data : List Char) : Decidable (Fair parser data) :=
  decidable_of_iff (data ≠ [] ∧ data.length + httpMaxHeaderSize < 2 ^ 32 ∧
      (httpParserExecute data parser).1.parser.httpErrno ≠ .headerOverflow)
    ⟨fun ⟨hne, hshort, hfits⟩ => ⟨hne, hshort, hfits⟩, fun h => ⟨h.ne_nil, h.short, h.fits⟩⟩

instance decidableFairParts : (parser : Parser) → (parts : List (List Char)) → Decidable (FairParts parser parts)
  | _, [] => isTrue trivial
  | parser, data :: parts =>
    haveI := decidableFairParts (httpParserExecute data parser).1.parser parts
    inferInstanceAs (Decidable (_ ∧ (_ → _ → _) ∧ _))

def readBy : Parser → List (List Char) → ℕ
  | _, [] => 0
  | parser, data :: parts =>
    let result := httpParserExecute data parser
    result.2 + readBy result.1.parser parts

def toldBy : Parser → List (List Char) → List (Piece × Char)
  | _, [] => []
  | parser, data :: parts =>
    let result := httpParserExecute data parser
    toldText data result.1.calls ++ toldBy result.1.parser parts

section Cuts
variable {parser : Parser}

/-- Behind an error nothing changes, and nothing is read or told. -/
theorem fed_failed (herror : parser.httpErrno ≠ .ok) (parts : List (List Char)) :
    fed parser parts = parser ∧ readBy parser parts = 0 ∧ toldBy parser parts = [] := by
  induction parts with
  | nil => exact ⟨rfl, rfl, rfl⟩
  | cons data parts ih =>
    have hsame : httpParserExecute data parser = (startRun parser, 0) := if_pos herror
    obtain ⟨hparser, hread, htold⟩ := ih
    refine ⟨?_, ?_, ?_⟩
    · rw [fed, List.foldl_cons, hsame]
      exact hparser
    · rw [readBy, hsame]
      exact (Nat.zero_add _).trans hread
    · rw [toldBy, hsame]
      exact htold

/-- The calls for the parts of a stream come to what the machine comes to over all of it. -/
structure ComesTo (parser : Parser) (parts : List (List Char)) (f : Fed Parser (Piece × Char)) : Prop where
  same : bare (fed parser parts) = f.state
  read : readBy parser parts = f.count
  told_prefix : toldBy parser parts <+: f.told
  told : (fed parser parts).httpErrno = .ok → toldBy parser parts = f.told

theorem fed_comesTo {parts : List (List Char)} (hhealthy : Healthy parser) (hready : Ready parser)
    (h : FairParts parser parts) : ComesTo parser parts (feed feedChar (bare parser) parts.flatten) := by
  induction parts generalizing parser with
  | nil => exact ⟨rfl, rfl, List.prefix_rfl, fun _ => rfl⟩
  | cons data parts ih =>
    obtain ⟨hfair, hlast, hrest⟩ := h
    have hcomes := httpParserExecute_comes hhealthy hready hfair.ne_nil hfair.short hfair.fits
    have hlive := httpParserExecute_live (.inr ⟨hhealthy, hready⟩) data
    have hcount := hcomes.parsed.trans (Nat.zero_add _)
    rw [List.flatten_cons, feed_append]
    cases hstopped : (feed feedChar (bare parser) data).stopped with
    | true =>
      rw [andThen_stopped hstopped]
      by_cases hok : (httpParserExecute data parser).1.parser.httpErrno = .ok
      · -- the call asks for another protocol
        obtain rfl := hlast hok (hcomes.stopped hstopped hok)
        have htold : toldBy parser [data] = _ := (List.append_nil _).trans (hcomes.told hok)
        exact ⟨hcomes.parser, hcount, htold ▸ List.prefix_rfl, fun _ => htold⟩
      · obtain ⟨hparser, hread, htold⟩ := fed_failed hok parts
        have hparser' : fed parser (data :: parts) = _ := hparser
        refine ⟨?_, ?_, ?_, fun hok' => ?_⟩
        · rw [hparser']
          exact hcomes.parser
        · rw [readBy, hread]
          exact hcount
        · rw [toldBy, htold, List.append_nil]
          exact hcomes.told_prefix
        · rw [hparser'] at hok'
          exact absurd hok' hok
    | false =>
      have hok := hcomes.goes hstopped
      obtain ⟨hhealthy', hready'⟩ := hlive.resolve_left (not_not.mpr hok)
      have hnext := ih hhealthy' hready' hrest
      have htold : toldText data (httpParserExecute data parser).1.calls = _ := hcomes.told hok
      rw [Fed.andThen, hstopped, ← hcomes.parser, ← hcount]
      refine ⟨hnext.same, ?_, ?_, fun hend => ?_⟩
      · rw [readBy, hnext.read]
        rfl
      · rw [toldBy, htold]
        exact (List.prefix_append_right_inj _).mpr hnext.told_prefix
      · rw [toldBy, htold, hnext.told hend]
        rfl

/-- It does not matter where a stream is cut: the parser is the same but for what it has
counted of a head, and as much is read. The same is told without an error, and the same
to begin with where there is one. -/
theorem httpParserExecute_cuts (t : ParserType) (chunks : List (List Char)) {parts parts' : List (List Char)}
    (h : FairParts (fed (httpParserInit t) chunks) parts) (h' : FairParts (fed (httpParserInit t) chunks) parts')
    (hflatten : parts.flatten = parts'.flatten) :
    let parser := fed (httpParserInit t) chunks
    bare (fed parser parts) = bare (fed parser parts') ∧ readBy parser parts = readBy parser parts' ∧
      ((fed parser parts).httpErrno = .ok → toldBy parser parts = toldBy parser parts') ∧
      (toldBy parser parts <+: toldBy parser parts' ∨ toldBy parser parts' <+: toldBy parser parts) := by
  intro parser
  rcases fed_live (httpParserInit_live t) chunks with herror | ⟨hhealthy, hready⟩
  · obtain ⟨hparser, hread, htold⟩ := fed_failed herror parts
    obtain ⟨hparser', hread', htold'⟩ := fed_failed herror parts'
    refine ⟨congrArg bare (hparser.trans hparser'.symm), hread.trans hread'.symm, fun _ => htold.trans htold'.symm, ?_⟩
    rw [htold]
    exact .inl List.nil_prefix
  · have hcomes := fed_comesTo hhealthy hready h
    have hcomes' := fed_comesTo hhealthy hready h'
    rw [← hflatten] at hcomes'
    have hsame := hcomes.same.trans hcomes'.same.symm
    refine ⟨hsame, hcomes.read.trans hcomes'.read.symm, fun hok => ?_,
      List.prefix_or_prefix_of_prefix hcomes.told_prefix hcomes'.told_prefix⟩
    have hok' : (fed parser parts').httpErrno = .ok := (congrArg Parser.httpErrno hsame).symm.trans hok
    exact (hcomes.told hok).trans (hcomes'.told hok').symm

def cutHead : List (List Char) := ["GET /a HT".toList, "TP/1.1".toList ++ [cr], [lf, cr, lf]]

theorem httpParserExecute_cuts_head :
    let parser := fed (httpParserInit .httpBoth) []
    FairParts parser cutHead ∧ FairParts parser [cutHead.flatten] ∧
      bare (fed parser cutHead) = bare (fed parser [cutHead.flatten]) := by
  have h : FairParts (httpParserInit .httpBoth) cutHead := by decide +kernel
  have h' : FairParts (httpParserInit .httpBoth) [cutHead.flatten] := by decide +kernel
  exact ⟨h, h', (httpParserExecute_cuts .httpBoth [] h h' (List.append_nil _).symm).1⟩

/-- An error is found before what follows it is read, and stays; without an error, what is
told is the beginning of what is told when more data follow. -/
theorem httpParserExecute_longer (t : ParserType) (chunks : List (List Char)) {data rest : List Char}
    (h : Fair (fed (httpParserInit t) chunks) data) (h' : Fair (fed (httpParserInit t) chunks) (data ++ rest)) :
    let parser := fed (httpParserInit t) chunks
    let first := httpParserExecute data parser
    let whole := httpParserExecute (data ++ rest) parser
    (first.1.parser.httpErrno ≠ .ok → bare whole.1.parser = bare first.1.parser ∧ whole.2 = first.2) ∧
      (whole.1.parser.httpErrno = .ok → first.1.parser.httpErrno = .ok ∧
        toldText data first.1.calls <+: toldText (data ++ rest) whole.1.calls) ∧
      first.2 ≤ whole.2 := by
  intro parser first whole
  rcases fed_live (httpParserInit_live t) chunks with herror | ⟨hhealthy, hready⟩
  · have hfirst : first = (startRun parser, 0) := if_pos herror
    have hwhole : whole = (startRun parser, 0) := if_pos herror
    rw [hfirst, hwhole]
    exact ⟨fun _ => ⟨rfl, rfl⟩, fun hok => absurd hok herror, Nat.le_refl 0⟩
  · have hcomes := httpParserExecute_comes hhealthy hready h.ne_nil h.short h.fits
    have hcomes' := httpParserExecute_comes hhealthy hready h'.ne_nil h'.short h'.fits
    rw [feed_append] at hcomes'
    cases hstopped : (feed feedChar (bare parser) data).stopped with
    | true =>
      rw [andThen_stopped hstopped] at hcomes'
      have hsame : bare whole.1.parser = bare first.1.parser := hcomes'.parser.trans hcomes.parser.symm
      have hread : whole.2 = first.2 := hcomes'.parsed.trans hcomes.parsed.symm
      refine ⟨fun _ => ⟨hsame, hread⟩, fun hok => ?_, Nat.le_of_eq hread.symm⟩
      have hok' : first.1.parser.httpErrno = .ok := (congrArg Parser.httpErrno hsame).symm.trans hok
      refine ⟨hok', ?_⟩
      rewrite [hcomes.told hok', hcomes'.told hok]
      exact List.prefix_rfl
    | false =>
      have hok := hcomes.goes hstopped
      rw [Fed.andThen, hstopped] at hcomes'
      refine ⟨fun herror => absurd hok herror, fun hok' => ⟨hok, ?_⟩, ?_⟩
      · rw [hcomes.told hok, hcomes'.told hok']
        exact List.prefix_append _ _
      · have hread : whole.2 = 0 + ((feed feedChar (bare parser) data).count + _) := hcomes'.parsed
        rw [hcomes.parsed, hread, ← Nat.add_assoc]
        exact Nat.le_add_right _ _

theorem httpParserExecute_longer_misspelt :
    let first := httpParserExecute "GET /a HX".toList (httpParserInit .httpBoth)
    let whole := httpParserExecute ("GET /a HX".toList ++ [cr, lf]) (httpParserInit .httpBoth)
    first.1.parser.httpErrno ≠ .ok ∧ bare whole.1.parser = bare first.1.parser ∧ whole.2 = first.2 := by
  have h : Fair (httpParserInit .httpBoth) "GET /a HX".toList := by decide +kernel
  have h' : Fair (httpParserInit .httpBoth) ("GET /a HX".toList ++ [cr, lf]) := by decide +kernel
  have herror : (httpParserExecute "GET /a HX".toList (httpParserInit .httpBoth)).1.parser.httpErrno ≠ .ok := by
    decide +kernel
  exact ⟨herror, (httpParserExecute_longer .httpBoth [] h h').1 herror⟩

end Cuts
end OpenSniffer.HttpSplits
