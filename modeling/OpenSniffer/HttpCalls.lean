import OpenSniffer.HttpStartPasses
import OpenSniffer.HttpHeadPasses
import OpenSniffer.HttpBodyPasses

/-!
# Whole calls of the HTTP parser

Every pass is good, so every run of a call is sound, from its start to its end.
-/
namespace OpenSniffer.HttpCalls
open HttpParserState HttpParser HttpMessageStart HttpOpenings HttpRuns HttpInvariants
open HttpStartPasses HttpHeadPasses HttpBodyPasses ScanLoops

section Passes
variable {data : List Char} {before last : Option Piece} {r : Run} {opened : Option (Piece × ℕ)}

theorem closed_of_opens {s : State} (h : Opens s opened) (hs : pieceOf s = none) : opened = none := by
  cases opened with
  | none => rfl
  | some o =>
    rw [Opens, hs] at h
    cases h

theorem opened_of_opens {s : State} {piece : Piece} (h : Opens s opened) (hs : pieceOf s = some piece)
    (hbody : piece ≠ .body) : ∃ start, opened = some (piece, start) := by
  cases opened with
  | none =>
    rw [Opens, hs] at h
    rcases h with h | h
    · cases h
    · cases h
      exact absurd rfl hbody
  | some o =>
    obtain ⟨q, start⟩ := o
    rw [Opens, hs] at h
    cases h
    exact ⟨start, rfl⟩

theorem body_of_opens {s : State} (h : Opens s opened) (hs : pieceOf s = some .body) :
    ∀ piece start, opened = some (piece, start) → piece = .body := by
  intro piece start hopened
  rw [hopened, Opens, hs] at h
  cases h
  rfl

/-- The state finds what it relies on, whatever has been counted for the pass. -/
theorem dispatch_good (ch : Char) {nread : ℕ} (h : At data before r opened last) (hin : r.p < data.length)
    (hfits : Fits { r.parser with nread := nread } opened last) :
    Good data before r.p (dispatch data r ch) := by
  obtain ⟨hready, hopens, hexpects⟩ := hfits
  have hquiet : ∀ s, r.parser.state = s → pieceOf s = none → At data before r none last := by
    intro s hs hnone
    rw [← hs] at hnone
    rw [← closed_of_opens hopens hnone]
    exact h
  have hinside : ∀ s piece, r.parser.state = s → pieceOf s = some piece → piece ≠ .body →
      ∃ start, opened = some (piece, start) := by
    intro s piece hs hpiece hbody
    rw [← hs] at hpiece
    exact opened_of_opens hopens hpiece hbody
  cases hs : r.parser.state <;> simp only [Ready, Expects, hs] at hready hopens hexpects <;>
    simp only [dispatch, hs]
  case dead => exact dead_good ch (hquiet _ hs rfl) hin hexpects hs
  case startReqOrRes => exact startReqOrRes_good ch (hquiet _ hs rfl) hin hexpects hs
  case resOrRespH => exact resOrRespH_good ch (hquiet _ hs rfl) hin hexpects
  case startRes => exact startRes_good ch (hquiet _ hs rfl) hin hexpects hs
  case resH | resHT | resHTT | resHTTP | resLineAlmostDone | reqHttpH | reqHttpHT | reqHttpHTT
      | reqHttpHTTP =>
    exact expect_good ch (hquiet _ hs rfl) hin hexpects _ rfl
  case resFirstHttpMajor => exact resFirstHttpMajor_good ch (hquiet _ hs rfl) hin hexpects
  case resHttpMajor => exact resHttpMajor_good ch (hquiet _ hs rfl) hin hexpects hs
  case resFirstHttpMinor => exact firstHttpMinor_good ch (hquiet _ hs rfl) hin hexpects rfl
  case resHttpMinor => exact resHttpMinor_good ch (hquiet _ hs rfl) hin hexpects hs
  case resFirstStatusCode => exact resFirstStatusCode_good ch (hquiet _ hs rfl) hin hexpects hs
  case resStatusCode => exact resStatusCode_good ch (hquiet _ hs rfl) hin hexpects hs
  case resStatusStart => exact resStatusStart_good ch (hquiet _ hs rfl) hin hexpects
  case resStatus =>
    obtain ⟨start, rfl⟩ := hinside _ _ hs rfl (by decide)
    exact resStatus_good ch h hin hexpects hs
  case startReq => exact startReq_good ch (hquiet _ hs rfl) hin hexpects hs
  case reqMethod => exact reqMethod_good ch (hquiet _ hs rfl) hin hexpects hs hready
  case reqSpacesBeforeUrl => exact reqSpacesBeforeUrl_good ch (hquiet _ hs rfl) hin hexpects hs
  case reqSchema | reqSchemaSlash | reqSchemaSlashSlash | reqServerStart =>
    obtain ⟨start, rfl⟩ := hinside _ _ hs rfl (by decide)
    exact reqSchema_good ch h hin hexpects
  case reqServer | reqServerWithAt | reqPath | reqQueryStringStart | reqQueryString
      | reqFragmentStart | reqFragment =>
    obtain ⟨start, rfl⟩ := hinside _ _ hs rfl (by decide)
    exact reqUrl_good ch h hin hexpects
  case reqHttpStart => exact reqHttpStart_good ch (hquiet _ hs rfl) hin hexpects hs
  case reqFirstHttpMajor => exact reqFirstHttpMajor_good ch (hquiet _ hs rfl) hin hexpects
  case reqHttpMajor => exact reqHttpMajor_good ch (hquiet _ hs rfl) hin hexpects hs
  case reqFirstHttpMinor => exact firstHttpMinor_good ch (hquiet _ hs rfl) hin hexpects rfl
  case reqHttpMinor => exact reqHttpMinor_good ch (hquiet _ hs rfl) hin hexpects hs
  case reqLineAlmostDone => exact reqLineAlmostDone_good ch (hquiet _ hs rfl) hin hexpects
  case headerFieldStart => exact headerFieldStart_good ch (hquiet _ hs rfl) hin hexpects
  case headerField =>
    obtain ⟨start, rfl⟩ := hinside _ _ hs rfl (by decide)
    exact headerField_good h hin hs hready hexpects
  case headerValueDiscardWs => exact headerValueDiscardWs_good ch (hquiet _ hs rfl) hin hexpects hs
  case headerValueDiscardWsAlmostDone => exact expect_headerValueDiscardLws_good ch (hquiet _ hs rfl) hin hexpects
  case headerValueDiscardLws => exact headerValueDiscardLws_good ch (hquiet _ hs rfl) hin hexpects
  case headerValue =>
    obtain ⟨start, rfl⟩ := hinside _ _ hs rfl (by decide)
    exact headerValue_good hexpects h hs hready hin
  case headerValueLws => exact headerValueLws_good ch (hquiet _ hs rfl) hin hexpects
  case headerAlmostDone => exact headerAlmostDone_good ch (hquiet _ hs rfl) hin hexpects
  case chunkSizeStart => exact chunkSizeStart_good ch (hquiet _ hs rfl) hin hexpects hready.2
  case chunkSize => exact chunkSize_good ch (hquiet _ hs rfl) hin hexpects hready.1 hready.2 hs
  case chunkParameters => exact chunkParameters_good ch (hquiet _ hs rfl) hin hexpects hready.1 hready.2 hs
  case chunkSizeAlmostDone => exact chunkSizeAlmostDone_good ch (hquiet _ hs rfl) hin hexpects hready.1 hready.2
  case headersAlmostDone => exact headersAlmostDone_good ch (hquiet _ hs rfl) hin hexpects
  case chunkData =>
    exact chunkData_good h hin hexpects (body_of_opens hopens rfl) hs hready.1 hready.2.1 hready.2.2
  case chunkDataAlmostDone =>
    exact chunkDataAlmostDone_good ch h hin hexpects (body_of_opens hopens rfl) hready.1
  case chunkDataDone => exact chunkDataDone_good ch (hquiet _ hs rfl) hin hexpects hready
  case bodyIdentity =>
    exact bodyIdentity_good h hin hexpects (body_of_opens hopens rfl) hs hready.1 hready.2
  case bodyIdentityEof =>
    exact bodyIdentityEof_good h hin hexpects (body_of_opens hopens rfl) hs

theorem pass_good (h : Sound data before r) (hin : r.p < data.length) :
    Good data before r.p (pass data r) := by
  obtain ⟨opened, last, hat, hfits⟩ := h
  rw [HttpParser.pass]
  split
  · apply good_countHeaderSize hat
    intro nread hcounted
    exact dispatch_good _ hcounted hin hfits
  · exact dispatch_good _ hat hin hfits

end Passes

section Calls
variable {data : List Char} {before : Option Piece} {r : Run}

theorem scan_keeps : (scan data).Keeps (Sound data before) := by
  intro r r' h hin hbody
  have hgood := pass_good h hin
  cases hpass : pass data r with
  | next next =>
    rw [body_of_next hpass] at hbody
    rw [hpass] at hgood
    cases hbody
    exact ⟨hgood.2, Nat.lt_succ_of_le hgood.1⟩
  | stop last parsed =>
    rw [body_of_stop hpass] at hbody
    cases hbody

/-- What a call comes to: a stop, or the end of its data with a parser that may go on. -/
def Done (data : List Char) (before : Option Piece) (result : Run × ℕ) : Prop :=
  Stopped data before result.1 result.2 ∨
    (result.2 = data.length ∧ (∃ last, Told before result.1.calls data.length last) ∧
      Healthy result.1.parser ∧ Ready result.1.parser)

private theorem expects_ne {s : State} {piece : Piece} {last : Option Piece} (hpiece : pieceOf s = some piece)
    (hexpects : Expects s last) : Follows last piece := by
  cases s <;> simp only [pieceOf, reduceCtorEq, Option.some.injEq] at hpiece <;> subst hpiece <;>
    first
    | exact follows_headerValue hexpects
    | exact follows_of_ne hexpects (by decide)

private theorem leftover_done (h : Sound data before r) (hend : data.length ≤ r.p) :
    Done data before (leftover r, data.length) := by
  obtain ⟨opened, last, hat, hfits⟩ := h
  have hp : r.p = data.length := Nat.le_antisymm hat.inside hend
  refine .inr ⟨rfl, ?_, ?_, ?_⟩
  · cases opened with
    | none =>
      rw [leftover_of_closed hat.marks]
      exact ⟨last, hat.told_all⟩
    | some o =>
      obtain ⟨piece, start⟩ := o
      rw [leftover_of_open hat.marks]
      exact ⟨_, (hat.callback (expects_ne hfits.opens hfits.expects)).told_all⟩
  · rw [parser_leftover]
    exact hat.healthy
  · rw [parser_leftover]
    exact hfits.ready

/-- From a sound run the loop comes to an end as its parts do. -/
theorem executeLoop_done {n : ℕ} (h : Sound data before r) (hn : data.length ≤ r.p + n) :
    Done data before (executeLoop data n r) := by
  rw [executeLoop_eq_run]
  apply Scan.run_rule scan_keeps h hn
  · intro r result h hin hbody
    have hgood := pass_good h hin
    cases hpass : pass data r with
    | next next =>
      rw [body_of_next hpass] at hbody
      cases hbody
    | stop last parsed =>
      rw [body_of_stop hpass] at hbody
      rw [hpass] at hgood
      cases hbody
      exact .inl hgood
  · intro r h hend
    exact leftover_done h hend

/-- The piece that a call resumes inside of; a body is opened again. -/
def resumed (s : State) : Option (Piece × ℕ) :=
  match pieceOf s with
  | none | some .body => none
  | some piece => some (piece, 0)

/-- What was told last when a call starts, as far as its callbacks have to know. -/
def toldBefore : State → Option Piece
  | .headerValueDiscardWs | .headerValueDiscardWsAlmostDone | .headerValueDiscardLws => some .headerField
  | .headerValue | .headerAlmostDone | .headerValueLws => some .headerValue
  | _ => none

theorem startMarks_eq (s : State) : startMarks s = only (resumed s) := by
  funext piece
  cases s <;> cases piece <;> rfl

private theorem opens_resumed (s : State) : Opens s (resumed s) := by
  cases s <;> simp [Opens, resumed, pieceOf]

private theorem expects_toldBefore (s : State) : Expects s (toldBefore s) := by
  cases s <;> simp [Expects, toldBefore]

def startRun (parser : Parser) : Run := ⟨parser, 0, startMarks parser.state, []⟩

theorem startRun_sound {parser : Parser} (hhealthy : Healthy parser) (hready : Ready parser) :
    Sound data (toldBefore parser.state) (startRun parser) := by
  have hle : untold (resumed parser.state) 0 = 0 := by
    rw [resumed]
    split <;> rfl
  have htold : Told (toldBefore parser.state) [] (untold (resumed parser.state) 0)
      (toldBefore parser.state) :=
    ⟨List.Pairwise.nil, by simp, trivial, rfl⟩
  have hat : At data (toldBefore parser.state) (startRun parser) (resumed parser.state)
      (toldBefore parser.state) :=
    ⟨Nat.zero_le _, hhealthy, startMarks_eq _, Nat.le_of_eq hle, htold⟩
  exact ⟨_, _, hat, hready, opens_resumed _, expects_toldBefore _⟩

theorem httpParserExecute_done {parser : Parser} (hhealthy : Healthy parser) (hready : Ready parser)
    (hdata : data ≠ []) :
    Done data (toldBefore parser.state) (httpParserExecute data parser) := by
  have hok : ¬ parser.httpErrno ≠ .ok := not_not.mpr hhealthy.1
  have hlen : data.length ≠ 0 := by
    intro h
    exact hdata (List.length_eq_zero_iff.mp h)
  simp only [httpParserExecute, if_neg hok, if_neg hlen]
  exact executeLoop_done (startRun_sound hhealthy hready) (Nat.le_add_left _ _)

end Calls

end OpenSniffer.HttpCalls
