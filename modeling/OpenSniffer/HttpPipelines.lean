import OpenSniffer.HttpAssertions
import OpenSniffer.HttpRequests

/-!
# Requests one behind the other

One call reads all the requests that its data hold, as long as each but the last lets the
connection go on.
-/
namespace OpenSniffer.HttpPipelines
open HttpGrammar HttpParserState HttpParser HttpOpenings HttpRuns HttpInvariants HttpCalls
  HttpAssertions HttpCharacters
open HttpReading HttpFieldLines HttpFieldEffects HttpBodies HttpRequests ScanLoops

/-- A request behind which the connection goes on: of a version with two positive numbers,
and without a word about the connection or an upgrade. -/
structure GoesOn (q : Request) : Prop where
  major_pos : 0 < numeral 10 q.version.major.text
  minor_pos : 0 < numeral 10 q.version.minor.text
  no_connection : q.allFields.any Field.namesConnection = false
  no_upgrade : q.fields.any (Field.named · "upgrade") = false
  method_ne : q.method ≠ .connect

/-- Each request is short enough, from what was counted before it, and each but the last
lets the connection go on. -/
def Pipelined : ℕ → List Request → Prop
  | _, [] => True
  | n, q :: qs => n + q.head.length ≤ httpMaxHeaderSize ∧ ShortLines q.body ∧ (qs ≠ [] → GoesOn q) ∧
      Pipelined q.left qs

def pipelineText (qs : List Request) : List Char := (qs.map Request.text).flatten

def pipelineCalls : ℕ → List Request → List Callback
  | _, [] => []
  | p, q :: qs => requestCalls q p ++ pipelineCalls (p + q.text.length) qs

theorem pipelineText_cons (q : Request) (qs : List Request) :
    pipelineText (q :: qs) = q.text ++ pipelineText qs := rfl

section Runs
variable {data : List Char} {r final : Run} {q : Request} {qs : List Request}

theorem reads_of_completes (h : Completes data r final) (hupgrade : final.parser.upgrade = false) :
    Reads data r final := by
  obtain ⟨s, last, hreads, hin, rfl, hpass⟩ := h
  have hplain : ¬ last.parser.upgrade = true := by
    rw [Bool.not_eq_true]
    exact hupgrade
  rw [if_neg hplain] at hpass
  exact hreads.trans (Scan.Reaches.single hin (body_of_next hpass))

theorem mayRequest_of_finished (h : Finished q r final) (hq : GoesOn q) : MayRequest final.parser := by
  refine .inr ⟨?_, h.type⟩
  have hversion : final.parser.httpMajor > 0 ∧ final.parser.httpMinor > 0 := by
    rw [h.httpMajor, h.httpMinor]
    exact ⟨hq.major_pos, hq.minor_pos⟩
  have hclose : ¬ final.parser.flags.connectionClose = true := by
    rw [h.close hq.no_connection]
    exact Bool.false_ne_true
  have heof : httpMessageNeedsEof final.parser = false := by
    rw [httpMessageNeedsEof, if_pos h.type]
  have hkeep : httpShouldKeepAlive final.parser = true := by
    rw [httpShouldKeepAlive, if_pos hversion, if_neg hclose, heof]
    rfl
  rw [h.state, newMessage, if_pos hkeep, startState, if_pos h.type]

private theorem upgrade_of_finished (h : Finished q r final) (hq : GoesOn q) : final.parser.upgrade = false := by
  rw [h.upgrade hq.no_upgrade]
  exact decide_eq_false hq.method_ne

/-- What is left in the parser and told behind requests from this run on. -/
structure Answered (qs : List Request) (r final : Run) : Prop where
  p : final.p = r.p + (pipelineText qs).length
  marks : final.marks = only none
  calls : final.calls = r.calls ++ pipelineCalls r.p qs
  httpErrno : final.parser.httpErrno = r.parser.httpErrno
  type : final.parser.type = .httpRequest
  state : final.parser.state = newMessage final.parser

theorem Answered.single (h : Finished q r final) : Answered [q] r final where
  p := by
    rw [h.p, pipelineText_cons, List.length_append]
    rfl
  marks := h.marks
  calls := by rw [h.calls, pipelineCalls, pipelineCalls, List.append_nil]
  httpErrno := h.httpErrno
  type := h.type
  state := h.state

theorem Answered.cons {r' : Run} (h : Finished q r r') (hrest : Answered qs r' final) :
    Answered (q :: qs) r final where
  p := by
    rw [hrest.p, h.p, pipelineText_cons, List.length_append, Nat.add_assoc]
  marks := hrest.marks
  calls := by
    rw [hrest.calls, h.calls, h.p, pipelineCalls, List.append_assoc]
  httpErrno := hrest.httpErrno.trans h.httpErrno
  type := hrest.type
  state := hrest.state

theorem completes_requests (hqs : qs ≠ []) (h : MayRequest r.parser) (hmarks : r.marks = only none)
    (hspells : Spells data r.p (pipelineText qs)) (hfits : Pipelined r.parser.nread qs) :
    ∃ final, Completes data r final ∧ Answered qs r final := by
  induction qs generalizing r with
  | nil => exact absurd rfl hqs
  | cons q qs ih =>
    obtain ⟨hroom, hshort, hgoes, hrest⟩ := hfits
    rw [pipelineText_cons] at hspells
    obtain ⟨hspells, hspells'⟩ := spells_append.mp hspells
    obtain ⟨r', hcompletes, hfinished⟩ := completes_request h hmarks hspells hroom hshort
    by_cases hlast : qs = []
    · subst hlast
      exact ⟨r', hcompletes, .single hfinished⟩
    · have hq := hgoes hlast
      rw [← hfinished.p] at hspells'
      rw [← hfinished.nread] at hrest
      obtain ⟨final, hcompletes', hanswered⟩ :=
        ih hlast (mayRequest_of_finished hfinished hq) hfinished.marks hspells' hrest
      have hreads := reads_of_completes hcompletes (upgrade_of_finished hfinished hq)
      exact ⟨final, hcompletes'.of_reads hreads, .cons hfinished hanswered⟩

end Runs

section Calls
variable {data : List Char} {r final : Run}

/-- A call whose data end with a message returns behind it. -/
theorem executeLoop_of_completes {before : Option Piece} {n : ℕ} (hsound : Sound data before r)
    (hn : data.length ≤ r.p + n) (h : Completes data r final) (hend : final.p = data.length)
    (hmarks : final.marks = only none) :
    (executeLoop data n r).2 = data.length ∧ (executeLoop data n r).1.parser = final.parser ∧
      (executeLoop data n r).1.calls = final.calls := by
  obtain ⟨s, last, hreads, hin, rfl, hpass⟩ := h
  rw [executeLoop_eq_run]
  have hfuel : (scan data).stop ≤ (scan data).pos s + (data.length + 1) := by
    simp only [scan]
    omega
  rw [hreads.run_eq scan_keeps hsound hn hfuel]
  split at hpass
  · rw [Scan.run_of_returns hin (body_of_stop hpass)]
    exact ⟨hend, rfl, rfl⟩
  · have hout : (scan data).stop ≤ (scan data).pos { last with p := last.p + 1 } := Nat.le_of_eq hend.symm
    have hleft : leftover { last with p := last.p + 1 } = { last with p := last.p + 1 } :=
      leftover_of_closed hmarks
    rw [Scan.run_of_goes hin (body_of_next hpass), Scan.run_of_end hout]
    simp only [scan, hleft, and_self]

theorem startMarks_mayRequest {parser : Parser} (h : MayRequest parser) :
    (startRun parser).marks = only none := by
  rcases h with hs | ⟨hs, -⟩
  all_goals
    simp only [startRun, hs, startMarks_eq]
    rfl

/-- A text that is not empty does not come to an end. -/
theorem pipelineText_ne_nil {qs : List Request} (hqs : qs ≠ []) : pipelineText qs ≠ [] := by
  cases qs with
  | nil => exact absurd rfl hqs
  | cons q qs =>
    intro hnil
    have hlength := congrArg List.length hnil
    rw [pipelineText_cons, List.length_append, Request.text, List.length_append, length_head] at hlength
    simp at hlength

/-- A call for requests, from a parser that may read one, is told of each of their parts, in
order, returns their length and finds no error. -/
theorem executes_requests {parser : Parser} {qs : List Request} (hqs : qs ≠ []) (hhealthy : Healthy parser)
    (hready : Ready parser) (h : MayRequest parser) (hfits : Pipelined parser.nread qs) :
    let result := httpParserExecute (pipelineText qs) parser
    result.2 = (pipelineText qs).length ∧ result.1.calls = pipelineCalls 0 qs ∧
      result.1.parser.httpErrno = .ok ∧ result.1.parser.type = .httpRequest ∧
        result.1.parser.state = newMessage result.1.parser := by
  have hmarks := startMarks_mayRequest h
  have hspells : Spells (pipelineText qs) (startRun parser).p (pipelineText qs) := List.prefix_refl _
  obtain ⟨final, hcompletes, hanswered⟩ := completes_requests (r := startRun parser) hqs h hmarks hspells hfits
  have hend : final.p = (pipelineText qs).length := by
    rw [hanswered.p]
    exact Nat.zero_add _
  have hok : ¬ parser.httpErrno ≠ .ok := not_not.mpr hhealthy.1
  have hlength : (pipelineText qs).length ≠ 0 := by
    intro hzero
    exact pipelineText_ne_nil hqs (List.length_eq_zero_iff.mp hzero)
  obtain ⟨hparsed, hparser, hcalls⟩ := executeLoop_of_completes (startRun_sound hhealthy hready)
    (Nat.le_add_left _ _) hcompletes hend hanswered.marks
  simp only [httpParserExecute, if_neg hok, if_neg hlength]
  refine ⟨hparsed, ?_, ?_, ?_, ?_⟩
  · exact hcalls.trans hanswered.calls
  · exact (congrArg Parser.httpErrno hparser).trans (hanswered.httpErrno.trans hhealthy.1)
  · exact (congrArg Parser.type hparser).trans hanswered.type
  · exact (congrArg Parser.state hparser).trans (hanswered.state.trans (congrArg newMessage hparser.symm))

/-- Whatever a parser was given before, if it has found no error and may read a request now,
a call for requests tells each of their parts, in order, returns their length and finds no
error. -/
theorem httpParserExecute_requests (t : ParserType) (chunks : List (List Char)) {qs : List Request}
    (hqs : qs ≠ []) (hok : (fed (httpParserInit t) chunks).httpErrno = .ok)
    (h : MayRequest (fed (httpParserInit t) chunks))
    (hfits : Pipelined (fed (httpParserInit t) chunks).nread qs) :
    let result := httpParserExecute (pipelineText qs) (fed (httpParserInit t) chunks)
    result.2 = (pipelineText qs).length ∧ result.1.calls = pipelineCalls 0 qs ∧
      result.1.parser.httpErrno = .ok ∧ result.1.parser.type = .httpRequest ∧
        result.1.parser.state = newMessage result.1.parser := by
  rcases fed_live (httpParserInit_live t) chunks with herror | ⟨hhealthy, hready⟩
  · exact absurd hok herror
  · exact executes_requests hqs hhealthy hready h hfits

end Calls

def hostField : Field where
  name := "Host".toList
  space := [' ']
  value := "b:80".toList
  name_ne := by decide
  name_token := by decide
  space_blank := by decide
  value_line := by decide
  value_start := by decide

def chunkedField : Field where
  name := "Transfer-Encoding".toList
  space := []
  value := "Chunked".toList
  name_ne := by decide
  name_token := by decide
  space_blank := blank_nil
  value_line := by decide
  value_start := by decide

def versionOne : Version := ⟨⟨['1'], by decide, by decide, by decide⟩, ⟨['1'], by decide, by decide, by decide⟩⟩

theorem versionOne_lead : ∀ c ∈ versionOne.major.text.head?, c ≠ '0' := by decide

def plainRequest : Request where
  method := .get
  target := "/a?b#c".toList
  version := versionOne
  fields := [hostField]
  body := .none
  target_read := by decide
  major_lead := versionOne_lead
  fields_sized := by decide
  body_framed := by decide

def chunkedRequest : Request where
  method := .post
  target := "http://u@b/".toList
  version := versionOne
  fields := [hostField, chunkedField]
  body := .chunked {
    chunks := [⟨⟨['5'], ";x".toList, by decide, by decide, by decide, by decide, by decide⟩,
      "hello".toList, by decide, by decide⟩]
    last := ⟨['0'], [], by decide, by decide, by decide, by decide, by decide⟩
    last_zero := by decide
    trailer := [hostField] }
  target_read := by decide
  major_lead := versionOne_lead
  fields_sized := by decide
  body_framed := by decide

private theorem goesOn_plainRequest : GoesOn plainRequest := ⟨by decide, by decide, by decide, by decide, by decide⟩

private theorem shortLines_chunkedRequest : ShortLines chunkedRequest.body := ⟨by decide, by decide, by decide⟩

theorem pipelined_two : Pipelined 0 [plainRequest, chunkedRequest] :=
  ⟨by decide, trivial, fun _ => goesOn_plainRequest, by decide, shortLines_chunkedRequest, fun h => absurd rfl h, trivial⟩

theorem httpParserExecute_requests_two :
    (httpParserExecute (pipelineText [plainRequest, chunkedRequest])
        (fed (httpParserInit .httpBoth) [plainRequest.text])).1.calls =
      pipelineCalls 0 [plainRequest, chunkedRequest] :=
  (httpParserExecute_requests .httpBoth [plainRequest.text] (by simp) (by decide +kernel)
    (.inr (by decide +kernel)) pipelined_two).2.1

end OpenSniffer.HttpPipelines
