import OpenSniffer.HttpMirrors
import OpenSniffer.HttpFieldLines
import OpenSniffer.StreamFeeds

/-!
# The HTTP parser, one character at a time

A call for a single character is the step of a machine that reads a stream. A pass in the
middle of some data may take many characters: a field's name, a value, a body. It agrees
with the machine over the characters that it takes, unless a head is too large.
-/
namespace OpenSniffer.HttpFeeding
open HttpParserState HttpParser HttpMessageStart HttpOpenings HttpRuns HttpInvariants HttpCalls
  HttpMirrors StreamFeeds
open HttpReading (Room counted countHeaderSize_of_room)
open HttpFieldLines (headerFieldChar_nread fieldRead_nread headerValueChar_nread)

/-- The parser, with nothing counted of a head. -/
def bare (parser : Parser) : Parser := { parser with nread := 0 }

theorem bare_eq {parser : Parser} (h : parser.nread = 0) : bare parser = parser := by rw [bare, ← h]

/-- What the only pass over one character comes to. -/
def fedBy (c : Char) : Outcome → Fed Parser (Piece × Char)
  | .next r => ⟨bare r.parser, toldText [c] (leftover { r with p := r.p + 1 }).calls, 1, false⟩
  | .stop r parsed => ⟨bare r.parser, toldText [c] r.calls, parsed, true⟩

def feedChar (parser : Parser) (c : Char) : Fed Parser (Piece × Char) := fedBy c (pass [c] (startRun parser))

def feedFrom (data : List Char) (p : ℕ) (parser : Parser) : Fed Parser (Piece × Char) :=
  feed feedChar parser (data.drop p)

theorem feedFrom_cons {data : List Char} {p : ℕ} (hp : p < data.length) (parser : Parser) :
    feedFrom data p parser = (feedChar parser (charAt data p)).andThen (feedFrom data (p + 1)) := by
  rw [feedFrom, drop_eq_cons hp]
  rfl

section Texts
variable {data : List Char} {piece : Piece} {start p : ℕ}

theorem openText_add (hstart : start ≤ p) (n : ℕ) :
    openText data (some (piece, start)) (p + n) =
      openText data (some (piece, start)) p ++ ((data.drop p).take n).map (Prod.mk piece) := by
  have hsum : p + n - start = p - start + n := by omega
  have hdrop : start + (p - start) = p := by omega
  rw [openText, openText, hsum, List.take_add, List.map_append, List.drop_drop, hdrop]

/-- What is told at the end of the data is what was told and what is open. -/
theorem toldText_leftover {r : Run} {opened : Option (Piece × ℕ)} (h : r.marks = only opened) :
    toldText data (leftover r).calls = toldText data r.calls ++ openText data opened r.p := by
  cases opened with
  | none =>
    rw [leftover_of_closed h]
    exact (List.append_nil _).symm
  | some o =>
    obtain ⟨piece, start⟩ := o
    rw [leftover_of_open h, Run.callback, callbackTo_of_open h, toldText_concat]
    rfl

end Texts

section Agrees
variable (data : List Char) (parser : Parser) (text : List (Piece × Char)) (p : ℕ)

/-- A pass that has begun at position `p` ends where the machine comes to from there, and
has told and read `text` and what the machine tells; an error may leave the rest untold. -/
inductive Agrees : Outcome → Prop
  | next {opened : Option (Piece × ℕ)} {r : Run} {more : List (Piece × Char)} {n : ℕ}
      (hmarks : r.marks = only opened) (hp : r.p + 1 = p + n)
      (hfeed : feedFrom data p parser =
        (⟨bare r.parser, more, n, false⟩ : Fed Parser (Piece × Char)).andThen (feedFrom data (r.p + 1)))
      (htold : toldText data r.calls ++ openText data opened (r.p + 1) = text ++ more) : Agrees (.next r)
  | stop {r : Run} {parsed n : ℕ} {more : List (Piece × Char)} (hparsed : parsed = p + n)
      (hfeed : feedFrom data p parser = ⟨bare r.parser, more, n, true⟩)
      (htold : toldText data r.calls <+: text ++ more)
      (hall : r.parser.httpErrno = .ok → toldText data r.calls = text ++ more) : Agrees (.stop r parsed)
  | overflow {r : Run} {parsed : ℕ} (h : r.parser.httpErrno = .headerOverflow) : Agrees (.stop r parsed)

variable {data parser text p}

/-- The machine has come a part of the way already. -/
theorem Agrees.after {parser' : Parser} {more : List (Piece × Char)} {n : ℕ} {o : Outcome}
    (hfeed : feedFrom data p parser =
      (⟨parser', more, n, false⟩ : Fed Parser (Piece × Char)).andThen (feedFrom data (p + n)))
    (h : Agrees data parser' (text ++ more) (p + n) o) : Agrees data parser text p o := by
  cases h with
  | @next opened r rest m hmarks hp hrest htold =>
    have hp' : r.p + 1 = p + (n + m) := by omega
    refine .next hmarks hp' ?_ (htold.trans (List.append_assoc _ _ _))
    rw [hfeed, andThen_goes, hrest, andThen_goes, andThen_goes, List.append_assoc, Nat.add_assoc]
  | @stop r parsed m rest hparsed hrest htold hall =>
    have hparsed' : parsed = p + (n + m) := by omega
    rw [List.append_assoc] at htold hall
    refine .stop hparsed' ?_ htold hall
    rw [hfeed, andThen_goes, hrest]
  | overflow herror => exact .overflow herror

/-- The machine has come all the way. -/
theorem agrees_there {r : Run} {opened : Option (Piece × ℕ)} (hmarks : r.marks = only opened)
    (hp : r.p + 1 = p) (htext : toldText data r.calls ++ openText data opened p = text) :
    Agrees data (bare r.parser) text p (.next r) := by
  rw [← hp] at htext ⊢
  refine @Agrees.next _ _ _ _ opened r [] 0 hmarks rfl (start_andThen _ _).symm ?_
  rw [List.append_nil]
  exact htext

/-- After its count a pass goes on, or the head is too large. -/
theorem agrees_countHeaderSize {r : Run} {v : ℕ} {go : Run → Outcome}
    (hgo : ∀ nread ≤ httpMaxHeaderSize,
      Agrees data parser text p (go (r.update { r.parser with nread := nread }))) :
    Agrees data parser text p (r.countHeaderSize v go) := by
  simp only [Run.countHeaderSize]
  split
  · exact .overflow rfl
  · rename_i hle
    exact hgo _ (Nat.not_lt.mp hle)

/-- A pass over one character agrees with the machine if it ends as the machine's does. -/
theorem agrees_of_both {o : Outcome} (hp : p < data.length)
    (h : Both data text p o (pass [charAt data p] (startRun parser))) : Agrees data parser text p o := by
  have hfeed := feedFrom_cons hp parser
  rw [feedChar] at hfeed
  generalize pass [charAt data p] (startRun parser) = o₀ at h hfeed
  cases h with
  | @next opened r r₀ h =>
    have hparser : bare r₀.parser = bare r.parser := by rw [h.parser, bare, bare]
    rw [fedBy, hparser, ← h.here] at hfeed
    rw [← h.here]
    refine .next h.marks rfl hfeed ?_
    have hmarks₀ : ({ r₀ with p := r₀.p + 1 } : Run).marks = only (opened.map fun o => (o.1, 0)) := h.marks₀
    rw [toldText_leftover hmarks₀, toldText_still h.still, List.nil_append, ← h.text_eq, h.here,
      List.append_assoc]
    congr 1
    cases opened with
    | none => rfl
    | some o =>
      obtain ⟨piece, start⟩ := o
      have hstart : start ≤ p := h.untold_le
      rw [openText_add hstart, drop_eq_cons hp, h.start]
      rfl
  | @error r r₀ n n₀ hparser htold hstill herror hn hn₀ =>
    have hbare : bare r₀.parser = bare r.parser := by rw [hparser, bare, bare]
    rw [fedBy, hbare, toldText_still hstill, hn₀] at hfeed
    have hparsed : n = p + 0 := hn
    refine .stop hparsed hfeed ?_ (fun hok => absurd hok herror)
    rw [List.append_nil]
    exact htold
  | @done r r₀ n n₀ h hn hn₀ =>
    have hbare : bare r₀.parser = bare r.parser := by rw [h.parser, bare, bare]
    have htold : toldText data r.calls = text := by rw [← h.text_eq, openText, List.append_nil]
    rw [fedBy, hbare, toldText_still h.still, hn₀] at hfeed
    rw [← List.append_nil text] at htold
    refine .stop hn hfeed ?_ fun _ => htold
    rewrite [htold]
    exact List.prefix_rfl
  | overflow herror => exact .overflow herror

end Agrees

section Single
variable {parser : Parser} {c : Char}

/-- A head of one character is never too large. -/
theorem pass_single (hnread : parser.nread = 0) (c : Char) : ∃ nread ≤ 1,
    pass [c] (startRun parser) = dispatch [c] (startRun { parser with nread := nread }) c := by
  by_cases hparsing : parser.state.parsingHeader = true
  · refine ⟨1, Nat.le_refl 1, ?_⟩
    have hroom : Room (startRun parser) 1 := by
      change parser.nread + 1 ≤ httpMaxHeaderSize
      rw [hnread]
      decide
    have hparsing' : (startRun parser).parser.state.parsingHeader = true := hparsing
    rw [HttpParser.pass, if_pos hparsing', countHeaderSize_of_room hroom]
    change dispatch [c] (startRun { parser with nread := parser.nread + 1 }) c = _
    rw [hnread]
  · refine ⟨0, Nat.zero_le 1, ?_⟩
    have hparsing' : ¬ (startRun parser).parser.state.parsingHeader = true := hparsing
    rw [HttpParser.pass, if_neg hparsing', ← hnread]
    rfl

theorem fedBy_next {r : Run} {opened : Option (Piece × ℕ)} (h : r.marks = only opened) (c : Char) :
    fedBy c (.next r) =
      ⟨bare r.parser, toldText [c] r.calls ++ openText [c] opened (r.p + 1), 1, false⟩ := by
  have hmarks : ({ r with p := r.p + 1 } : Run).marks = only opened := h
  rw [fedBy, toldText_leftover hmarks]

/-- A stretch of the data that the machine takes without a stop. -/
theorem feedFrom_stretch {data stretch : List Char} {p : ℕ} (hbegins : stretch <+: data.drop p)
    {parser' : Parser} {told : List (Piece × Char)}
    (hfeed : feed feedChar parser stretch = ⟨parser', told, stretch.length, false⟩) :
    feedFrom data p parser = (⟨parser', told, stretch.length, false⟩ : Fed Parser (Piece × Char)).andThen
      (feedFrom data (p + stretch.length)) := by
  obtain ⟨rest, hrest⟩ := hbegins
  have hdrop : data.drop (p + stretch.length) = rest := by
    rw [← List.drop_drop, ← hrest, List.drop_left]
  rw [feedFrom, ← hrest, feed_append, hfeed, andThen_goes, andThen_goes, feedFrom, hdrop]

end Single

theorem room_of_le {r : Run} {n : ℕ} (h : r.parser.nread ≤ 1) (hn : n ≤ 1) : Room r n := by
  rw [Room, httpMaxHeaderSize]
  omega

end OpenSniffer.HttpFeeding
