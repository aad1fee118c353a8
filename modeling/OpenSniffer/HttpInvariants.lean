import OpenSniffer.HttpOpenings
import OpenSniffer.HttpRuns

/-!
# What every run of the HTTP parser keeps

Between two passes the parser's numbers are within their bounds, the state finds what it
relies on, at most the state's own piece is open, and the callbacks made so far are for
disjoint parts of the data, in order, each field before its value. A pass is good if it
keeps this and moves on, or stops.
-/
namespace OpenSniffer.HttpInvariants
open HttpParserState HttpParser HttpMessageStart HttpOpenings HttpRuns ScanLoops

structure Numbers (nread contentLength httpMajor httpMinor statusCode : ℕ) : Prop where
  nread_le : nread ≤ httpMaxHeaderSize
  contentLength_le : contentLength ≤ ullongMax
  httpMajor_le : httpMajor ≤ 999
  httpMinor_le : httpMinor ≤ 999
  statusCode_le : statusCode ≤ 999

/-- The parser has no error, and its numbers are within the bounds that its checks are for. -/
def Healthy (parser : Parser) : Prop :=
  parser.httpErrno = .ok ∧
    Numbers parser.nread parser.contentLength parser.httpMajor parser.httpMinor parser.statusCode

def readsField : HeaderState → Bool
  | .general | .c | .co | .con => true
  | .matchingConnection | .matchingProxyConnection | .matchingContentLength => true
  | .matchingTransferEncoding | .matchingUpgrade => true
  | .connection | .contentLength | .transferEncoding | .upgrade => true
  | _ => false

/-- The header states that read a value: not those a value starts from. -/
def readsValue : HeaderState → Bool
  | .connection | .transferEncoding => false
  | _ => true

/-- What the parser's state relies on. Three states are left in the pass they are entered. -/
def Ready (parser : Parser) : Prop :=
  match parser.state with
  | .headersDone | .headerValueStart | .messageDone => False
  | .reqMethod => parser.index ≤ (methodStrings parser.method).length
  | .headerField => readsField parser.headerState = true
  | .headerValue => readsValue parser.headerState = true
  | .bodyIdentity => parser.contentLength ≠ 0 ∧ parser.contentLength ≠ ullongMax
  | .chunkSizeStart => parser.nread = 0 ∧ parser.flags.chunked = true
  | .chunkSize | .chunkParameters | .chunkSizeAlmostDone =>
    parser.flags.chunked = true ∧ parser.contentLength ≠ ullongMax
  | .chunkData =>
    parser.flags.chunked = true ∧ parser.contentLength ≠ 0 ∧ parser.contentLength ≠ ullongMax
  | .chunkDataAlmostDone => parser.flags.chunked = true ∧ parser.contentLength = 0
  | .chunkDataDone => parser.flags.chunked = true
  | _ => True

def pieceOf : State → Option Piece
  | .headerField => some .headerField
  | .headerValue => some .headerValue
  | .reqSchema | .reqSchemaSlash | .reqSchemaSlashSlash => some .url
  | .reqServerStart | .reqServer | .reqServerWithAt => some .url
  | .reqPath | .reqQueryStringStart | .reqQueryString => some .url
  | .reqFragmentStart | .reqFragment => some .url
  | .resStatus => some .status
  | .bodyIdentity | .bodyIdentityEof | .chunkData | .chunkDataAlmostDone => some .body
  | _ => none

/-- The piece that is open in a state; a body is not yet open before its first character. -/
def Opens (s : State) : Option (Piece × ℕ) → Prop
  | some (piece, _) => pieceOf s = some piece
  | none => pieceOf s = none ∨ pieceOf s = some .body

/-- The piece that was last told in a state. -/
def Expects (s : State) (last : Option Piece) : Prop :=
  match s with
  | .headerValueDiscardWs | .headerValueDiscardWsAlmostDone | .headerValueDiscardLws =>
    last = some .headerField
  | .headerValue => last = some .headerField ∨ last = some .headerValue
  | .headerAlmostDone | .headerValueLws => last = some .headerValue
  | _ => last ≠ some .headerField

/-- The parser's state fits the piece that is open and the piece that was told last. -/
structure Fits (parser : Parser) (opened : Option (Piece × ℕ)) (last : Option Piece) : Prop where
  ready : Ready parser
  opens : Opens parser.state opened
  expects : Expects parser.state last

/-- The states that rely on nothing, outside of every piece. -/
def plain : State → Bool
  | .headersDone | .headerValueStart | .messageDone | .reqMethod => false
  | .headerValueDiscardWs | .headerValueDiscardWsAlmostDone | .headerValueDiscardLws => false
  | .headerAlmostDone | .headerValueLws => false
  | .chunkSizeStart | .chunkSize | .chunkParameters | .chunkSizeAlmostDone | .chunkDataDone => false
  | s => pieceOf s = none

theorem fits_plain {parser : Parser} {last : Option Piece} (hs : plain parser.state = true)
    (hlast : last ≠ some .headerField) : Fits parser none last := by
  cases h : parser.state <;> simp [h, plain, pieceOf] at hs <;>
    exact ⟨by simp [Ready, h], by simp [Opens, h, pieceOf], by simpa [Expects, h] using hlast⟩

/-- Where the part of the data that a callback is for ends. -/
def fin (c : Callback) : ℕ := c.start + c.length

/-- Which piece may follow a piece: a field has its value next, and a value its field, or
another line of the same value, before it. -/
def Follows (last : Option Piece) (piece : Piece) : Prop :=
  (last = some .headerField → piece = .headerValue) ∧
    (piece = .headerValue → last = some .headerField ∨ last = some .headerValue)

theorem follows_of_ne {last : Option Piece} {piece : Piece} (hlast : last ≠ some .headerField)
    (hpiece : piece ≠ .headerValue) : Follows last piece :=
  ⟨fun h => absurd h hlast, fun h => absurd h hpiece⟩

/-- Each piece may follow the one before it, where the first comes after `before`. -/
def Chained : Option Piece → List Piece → Prop
  | _, [] => True
  | before, piece :: pieces => Follows before piece ∧ Chained (some piece) pieces

/-- The last of some pieces, where the first comes after `before`. -/
def lastOf (before : Option Piece) : List Piece → Option Piece
  | [] => before
  | piece :: pieces => lastOf (some piece) pieces

private theorem chained_concat {before : Option Piece} {pieces : List Piece} {piece : Piece}
    (h : Chained before pieces) (hfollows : Follows (lastOf before pieces) piece) :
    Chained before (pieces ++ [piece]) := by
  induction pieces generalizing before with
  | nil => exact ⟨hfollows, trivial⟩
  | cons q qs ih => exact ⟨h.1, ih h.2 hfollows⟩

private theorem lastOf_concat (before : Option Piece) (pieces : List Piece) (piece : Piece) :
    lastOf before (pieces ++ [piece]) = some piece := by
  induction pieces generalizing before with
  | nil => rfl
  | cons q qs ih => exact ih (some q)

/-- The callbacks are for disjoint parts of the data up to `e`, in order, each for a piece
that may follow the one before; `last` is the piece told last. -/
structure Told (before : Option Piece) (calls : List Callback) (e : ℕ) (last : Option Piece) :
    Prop where
  ordered : calls.Pairwise fun c c' => fin c ≤ c'.start
  within : ∀ c ∈ calls, fin c ≤ e
  chained : Chained before (calls.map Callback.piece)
  last_eq : lastOf before (calls.map Callback.piece) = last

namespace Told
variable {before last : Option Piece} {calls : List Callback} {e e' : ℕ}

theorem mono (h : Told before calls e last) (he : e ≤ e') : Told before calls e' last where
  ordered := h.ordered
  within := fun c hc => Nat.le_trans (h.within c hc) he
  chained := h.chained
  last_eq := h.last_eq

theorem concat (h : Told before calls e last) {c : Callback} (hstart : e ≤ c.start)
    (hfin : fin c ≤ e') (hfollows : Follows last c.piece) :
    Told before (calls ++ [c]) e' (some c.piece) where
  ordered := by
    rw [List.pairwise_append]
    refine ⟨h.ordered, List.pairwise_singleton _ _, ?_⟩
    intro a ha b hb
    rw [List.mem_singleton.mp hb]
    exact Nat.le_trans (h.within a ha) hstart
  within := by
    intro a ha
    rcases List.mem_append.mp ha with ha | ha
    · have hle := h.within a ha
      simp only [fin] at hle hfin ⊢
      omega
    · rw [List.mem_singleton.mp ha]
      exact hfin
  chained := by
    rw [List.map_append]
    apply chained_concat h.chained
    rw [h.last_eq]
    exact hfollows
  last_eq := by
    rw [List.map_append]
    exact lastOf_concat _ _ _

end Told

/-- The position from which on nothing has been told. -/
def untold (opened : Option (Piece × ℕ)) (p : ℕ) : ℕ :=
  match opened with
  | none => p
  | some (_, start) => start

/-- The run's parser is healthy, this piece is open, if one is, and the callbacks are in
order. -/
structure At (data : List Char) (before : Option Piece) (r : Run) (opened : Option (Piece × ℕ))
    (last : Option Piece) : Prop where
  inside : r.p ≤ data.length
  healthy : Healthy r.parser
  marks : r.marks = only opened
  untold_le : untold opened r.p ≤ r.p
  told : Told before r.calls (untold opened r.p) last

/-- The run may begin a pass. -/
def Sound (data : List Char) (before : Option Piece) (r : Run) : Prop :=
  ∃ opened last, At data before r opened last ∧ Fits r.parser opened last

/-- The run has stopped, after an error or at the end of a message that upgrades. -/
structure Stopped (data : List Char) (before : Option Piece) (r : Run) (parsed : ℕ) : Prop where
  parsed_le : parsed ≤ data.length
  told : ∃ last, Told before r.calls data.length last
  upgraded : r.parser.httpErrno = .ok →
    r.parser.upgrade = true ∧ Healthy r.parser ∧ Ready r.parser

/-- A pass from position `p` on keeps the invariant and moves on, or it stops. -/
def Good (data : List Char) (before : Option Piece) (p : ℕ) : Outcome → Prop
  | .next r => p ≤ r.p ∧ Sound data before { r with p := r.p + 1 }
  | .stop r parsed => Stopped data before r parsed

section Outcomes
variable {data : List Char} {before last : Option Piece} {r : Run} {opened : Option (Piece × ℕ)}
  {p : ℕ}

theorem At.told_all (h : At data before r opened last) : Told before r.calls data.length last :=
  h.told.mono (Nat.le_trans h.untold_le h.inside)

theorem At.update (h : At data before r opened last) {parser : Parser} (hhealthy : Healthy parser) :
    At data before (r.update parser) opened last :=
  ⟨h.inside, hhealthy, h.marks, h.untold_le, h.told⟩

theorem At.updateState (h : At data before r opened last) (s : State) :
    At data before (r.updateState s) opened last :=
  h.update h.healthy

theorem At.opened_le {piece : Piece} {start : ℕ} (h : At data before r (some (piece, start)) last) :
    start ≤ r.p :=
  h.untold_le

/-- A run that is inside of a piece moves on in it. -/
theorem At.goto {piece : Piece} {start p' : ℕ} (h : At data before r (some (piece, start)) last)
    {parser : Parser} (hhealthy : Healthy parser) (hp : r.p ≤ p') (hp' : p' ≤ data.length) :
    At data before { r with parser := parser, p := p' } (some (piece, start)) last :=
  ⟨hp', hhealthy, h.marks, Nat.le_trans h.untold_le hp, h.told⟩

theorem At.mark (h : At data before r none last) (piece : Piece) :
    At data before (r.mark piece) (some (piece, r.p)) last := by
  rw [mark_of_closed h.marks]
  exact ⟨h.inside, h.healthy, rfl, Nat.le_refl _, h.told⟩

theorem At.callback {piece : Piece} {start : ℕ} (h : At data before r (some (piece, start)) last)
    (hfollows : Follows last piece) : At data before (r.callback piece) none (some piece) := by
  have hstart := h.opened_le
  rw [Run.callback, callbackTo_of_open h.marks]
  refine ⟨h.inside, h.healthy, rfl, Nat.le_refl _, ?_⟩
  apply h.told.concat (Nat.le_refl _) _ hfollows
  simp only [fin, untold]
  omega

theorem good_next (h : At data before r opened last) (hin : r.p < data.length) (hp : p ≤ r.p)
    (hfits : Fits r.parser opened last) : Good data before p (.next r) := by
  refine ⟨hp, opened, last, ⟨hin, h.healthy, h.marks, ?_, ?_⟩, hfits⟩
  · cases opened with
    | none => exact Nat.le_refl _
    | some o => exact Nat.le_succ_of_le h.untold_le
  · cases opened with
    | none => exact h.told.mono (Nat.le_succ _)
    | some o => exact h.told

theorem Good.of_le {o : Outcome} {p' : ℕ} (h : Good data before p' o) (hp : p ≤ p') :
    Good data before p o := by
  cases o with
  | next r => exact ⟨Nat.le_trans hp h.1, h.2⟩
  | stop r parsed => exact h

/-- A pass that has come to the end of the data goes on behind it. -/
theorem good_last (h : At data before r opened last) (hend : r.p = data.length) (hp : p < r.p)
    (hfits : Fits r.parser opened last) :
    Good data before p (.next { r with p := r.p - 1 }) := by
  have hback : r.p - 1 + 1 = r.p := by omega
  refine ⟨Nat.le_sub_one_of_lt hp, opened, last, ?_, hfits⟩
  simp only [hback]
  exact h

/-- A pass goes on with another parser. -/
theorem good_update (h : At data before r opened last) (hin : r.p < data.length) {parser : Parser}
    (hhealthy : Healthy parser) (hfits : Fits parser opened last) :
    Good data before r.p (.next (r.update parser)) :=
  good_next (h.update hhealthy) hin (Nat.le_refl _) hfits

/-- A pass goes on in a piece that it has opened. -/
theorem good_mark (h : At data before r none last) (hin : r.p < data.length) {piece : Piece}
    {parser : Parser} (hhealthy : Healthy parser) (hfits : Fits parser (some (piece, r.p)) last) :
    Good data before r.p (.next ((r.mark piece).update parser)) := by
  have hopen := (h.mark piece).update hhealthy
  rw [mark_of_closed h.marks] at hopen ⊢
  exact good_next hopen hin (Nat.le_refl _) hfits

/-- A pass goes on after it has told the piece that was open. -/
theorem good_callback {piece : Piece} {start : ℕ} (h : At data before r (some (piece, start)) last)
    (hin : r.p < data.length) (hfollows : Follows last piece)
    (hfits : Fits r.parser none (some piece)) : Good data before r.p (.next (r.callback piece)) := by
  have hclosed := h.callback hfollows
  rw [Run.callback, callbackTo_of_open h.marks] at hclosed ⊢
  exact good_next hclosed hin (Nat.le_refl _) hfits

/-- An error stops a pass, whatever the parser. -/
theorem good_error (h : At data before r opened last) (parser : Parser) {e : Errno} (he : e ≠ .ok) :
    Good data before p ((r.update parser).error e) :=
  ⟨h.inside, ⟨last, h.told_all⟩, fun hok => absurd hok he⟩

theorem good_strictCheck (h : At data before r opened last) (cond : Prop) [Decidable cond]
    {go : Outcome} (hgo : ¬ cond → Good data before p go) :
    Good data before p (r.strictCheck cond go) := by
  rw [Run.strictCheck]
  split
  · exact good_error h r.parser (by decide)
  · rename_i hcond
    exact hgo hcond

theorem good_countHeaderSize (h : At data before r opened last) (v : ℕ) {go : Run → Outcome}
    (hgo : ∀ nread, At data before (r.update { r.parser with nread := nread }) opened last →
      Good data before p (go (r.update { r.parser with nread := nread }))) :
    Good data before p (r.countHeaderSize v go) := by
  simp only [Run.countHeaderSize]
  split
  · have hne : Errno.headerOverflow ≠ .ok := by decide
    exact ⟨h.inside, ⟨last, h.told_all⟩, fun hok => absurd hok hne⟩
  · rename_i hle
    obtain ⟨hok, hnumbers⟩ := h.healthy
    exact hgo _ (h.update ⟨hok, { hnumbers with nread_le := Nat.not_lt.mp hle }⟩)

theorem good_plain (h : At data before r none last) (hin : r.p < data.length)
    (hlast : last ≠ some .headerField) (hs : plain r.parser.state = true) :
    Good data before r.p (.next r) :=
  good_next h hin (Nat.le_refl _) (fits_plain hs hlast)

theorem good_state (h : At data before r none last) (hin : r.p < data.length)
    (hlast : last ≠ some .headerField) {s : State} (hs : plain s = true) :
    Good data before r.p (.next (r.updateState s)) :=
  good_plain (h.updateState s) hin hlast hs

end Outcomes

namespace Healthy
variable {parser : Parser} (h : Healthy parser) {n : ℕ}
include h

/-- A message starts with no body's length known. -/
theorem opening : Healthy { parser with flags := Flags.zero, contentLength := ullongMax } :=
  ⟨h.1, { h.2 with contentLength_le := Nat.le_refl _ }⟩

theorem httpMajor (hn : n ≤ 999) : Healthy { parser with httpMajor := n } :=
  ⟨h.1, { h.2 with httpMajor_le := hn }⟩

theorem httpMinor (hn : n ≤ 999) : Healthy { parser with httpMinor := n } :=
  ⟨h.1, { h.2 with httpMinor_le := hn }⟩

theorem statusCode (hn : n ≤ 999) : Healthy { parser with statusCode := n } :=
  ⟨h.1, { h.2 with statusCode_le := hn }⟩

theorem contentLength (hn : n ≤ ullongMax) : Healthy { parser with contentLength := n } :=
  ⟨h.1, { h.2 with contentLength_le := hn }⟩

theorem uncounted : Healthy { parser with nread := 0 } :=
  ⟨h.1, { h.2 with nread_le := Nat.zero_le _ }⟩

end Healthy

theorem digit_le {c : Char} (hc : c ≤ '9') : digit c ≤ 9 := by
  have hle : c.toNat ≤ '9'.toNat := Char.le_def.mp hc
  have hnine : '9'.toNat - '0'.toNat = 9 := by decide
  rw [digit]
  omega

theorem digit_le_of_isNum {c : Char} (hc : isNum c = true) : digit c ≤ 9 := by
  simp only [isNum, Bool.and_eq_true, decide_eq_true_eq] at hc
  exact digit_le hc.2

theorem plain_newMessage (parser : Parser) : plain (newMessage parser) = true := by
  rw [newMessage]
  split
  · rw [startState]
    split <;> rfl
  · rfl

/-- The end of a message may be behind the character at hand. -/
theorem messageDone_told {data : List Char} {before last : Option Piece} {r : Run}
    (hin : r.p < data.length) (hhealthy : Healthy r.parser) (hmarks : r.marks = only none) (htold : Told before r.calls (r.p + 1) last)
    (hlast : last ≠ some .headerField) : Good data before r.p (messageDone r) := by
  have hfits : Fits (r.updateState (newMessage r.parser)).parser none last :=
    fits_plain (plain_newMessage _) hlast
  simp only [messageDone]
  split
  · rename_i hupgrade
    exact ⟨hin, ⟨last, htold.mono hin⟩, fun _ => ⟨hupgrade, hhealthy, hfits.ready⟩⟩
  · exact ⟨Nat.le_refl _, none, last, ⟨hin, hhealthy, hmarks, Nat.le_refl _, htold⟩, hfits⟩

end OpenSniffer.HttpInvariants
