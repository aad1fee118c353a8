import OpenSniffer.HttpCharacters

/-!
# How the parser reads a request's first line

One lemma for each part of the line: where the data has the part at the run's position,
the run comes to the position behind it, and what has changed in the parser is said
outright. A head's characters are each counted once.
-/
namespace OpenSniffer.HttpReading
open HttpGrammar HttpParserState HttpParser HttpOpenings HttpRuns HttpInvariants HttpStartPasses
  HttpCharacters
open ScanLoops

def Spells (data : List Char) (p : ℕ) (text : List Char) : Prop := text <+: data.drop p

section Spelling
variable {data : List Char} {p : ℕ} {text rest : List Char} {c : Char}

theorem spells_cons :
    Spells data p (c :: text) ↔ p < data.length ∧ charAt data p = c ∧ Spells data (p + 1) text := by
  simp only [Spells]
  by_cases hp : p < data.length
  · rw [drop_eq_cons hp, List.cons_prefix_cons]
    simp [hp, eq_comm]
  · simp [List.drop_eq_nil_of_le (Nat.not_lt.mp hp), hp]

theorem spells_append :
    Spells data p (text ++ rest) ↔ Spells data p text ∧ Spells data (p + text.length) rest := by
  induction text generalizing p with
  | nil => simp [Spells]
  | cons c text ih =>
    have hlen : p + (c :: text).length = p + 1 + text.length := by
      rw [List.length_cons]
      omega
    rw [List.cons_append, spells_cons, spells_cons, ih, hlen]
    simp only [and_assoc]

theorem Spells.le (h : Spells data p text) (hp : p ≤ data.length) : p + text.length ≤ data.length := by
  have hle := h.length_le
  rw [List.length_drop] at hle
  omega

/-- The part of the data is the text. -/
theorem Spells.take (h : Spells data p text) : (data.drop p).take text.length = text :=
  (List.prefix_iff_eq_take.mp h).symm

end Spelling

/-- The run with another parser, so many characters of a head later. -/
def went (r : Run) (n : ℕ) (parser : Parser) : Run :=
  { r with p := r.p + n, parser := { parser with nread := r.parser.nread + n } }

/-- The run with another parser, so many characters into the piece that it opens. -/
def inPiece (piece : Piece) (r : Run) (n : ℕ) (parser : Parser) : Run :=
  { went r n parser with marks := only (some (piece, r.p)) }

def told (r : Run) (calls : List Callback) : Run := { r with calls := r.calls ++ calls }

/-- The run, when a pass has counted its characters. -/
def counted (r : Run) (n : ℕ) : Run := r.update { r.parser with nread := r.parser.nread + n }

/-- So many characters more are within the largest header size. -/
def Room (r : Run) (n : ℕ) : Prop := r.parser.nread + n ≤ httpMaxHeaderSize

theorem Room.of_le {r : Run} {m n : ℕ} (h : Room r n) (hm : m ≤ n) : Room r m :=
  Nat.le_trans (Nat.add_le_add_left hm _) h

theorem Room.went {r : Run} {m n : ℕ} (h : Room r (m + n)) (parser : Parser) :
    Room (went r m parser) n := by
  simp only [Room, HttpReading.went] at h ⊢
  omega

theorem went_went (r : Run) (m n : ℕ) (parser parser' : Parser) :
    went (went r m parser) n parser' = went r (m + n) parser' := by
  simp only [went, Nat.add_assoc]

theorem countHeaderSize_of_room {r : Run} {n : ℕ} (h : Room r n) (go : Run → Outcome) :
    r.countHeaderSize n go = go (counted r n) := by
  have hmod : (r.parser.nread + n) % 2 ^ 32 = r.parser.nread + n := by
    apply Nat.mod_eq_of_lt
    simp only [Room, httpMaxHeaderSize] at h
    omega
  simp only [Run.countHeaderSize, hmod]
  exact if_neg (Nat.not_lt.mpr h)

section Passes
variable {data : List Char} {r r' : Run} {ch : Char}

/-- The parser comes from one run to another. -/
abbrev Reads (data : List Char) (r r' : Run) : Prop := (scan data).Reaches r r'

theorem reads_pass (hparsing : r.parser.state.parsingHeader = true) (hp : r.p < data.length)
    (hch : charAt data r.p = ch) (hroom : Room r 1)
    (hdispatch : dispatch data (counted r 1) ch = .next r') :
    Reads data r { r' with p := r'.p + 1 } := by
  apply Scan.Reaches.single
  · exact hp
  · apply body_of_next
    rw [HttpParser.pass, if_pos hparsing, countHeaderSize_of_room hroom, hch]
    exact hdispatch

theorem reads_uncounted (hparsing : r.parser.state.parsingHeader = false) (hp : r.p < data.length)
    (hch : charAt data r.p = ch) (hdispatch : dispatch data r ch = .next r') :
    Reads data r { r' with p := r'.p + 1 } := by
  apply Scan.Reaches.single
  · exact hp
  · apply body_of_next
    rw [HttpParser.pass, hparsing, hch]
    exact hdispatch

end Passes

/-- The character leads from one parser to the other, whatever has been counted, and nothing
else happens. -/
def Steps (data : List Char) (parser : Parser) (ch : Char) (parser' : Parser) : Prop :=
  parser.state.parsingHeader = true ∧ ∀ (r : Run) (nread : ℕ),
    dispatch data (r.update { parser with nread := nread }) ch = .next (r.update { parser' with nread := nread })

inductive Course (data : List Char) : Parser → List Char → Parser → Prop
  | nil (parser : Parser) : Course data parser [] parser
  | cons {parser parser' parser'' : Parser} {ch : Char} {text : List Char}
      (step : Steps data parser ch parser') (rest : Course data parser' text parser'') :
      Course data parser (ch :: text) parser''

section Courses
variable {data : List Char} {parser parser' parser'' : Parser} {text rest : List Char} {ch : Char}

theorem Course.single (h : Steps data parser ch parser') : Course data parser [ch] parser' :=
  .cons h (.nil parser')

theorem Course.append (h : Course data parser text parser') (h' : Course data parser' rest parser'') :
    Course data parser (text ++ rest) parser'' := by
  induction h with
  | nil _ => exact h'
  | cons step _ ih => exact .cons step (ih h')

theorem Course.reads (h : Course data parser text parser') {r : Run}
    (hr : r.parser = { parser with nread := r.parser.nread }) (hspells : Spells data r.p text)
    (hroom : Room r text.length) : Reads data r (went r text.length parser') := by
  induction h generalizing r with
  | nil parser =>
    have hsame : went r 0 parser = r := by
      change { r with parser := { parser with nread := r.parser.nread } } = r
      rw [← hr]
    rw [List.length_nil, hsame]
    exact .refl r
  | cons step rest ih =>
    rename_i parser parser' parser'' ch text
    obtain ⟨hp, hch, hrest⟩ := spells_cons.mp hspells
    have hparsing : r.parser.state.parsingHeader = true := by
      rw [hr]
      exact step.1
    have hcounted : counted r 1 = r.update { parser with nread := r.parser.nread + 1 } := by
      rw [counted, hr]
    have hdispatch := step.2 r (r.parser.nread + 1)
    rw [← hcounted] at hdispatch
    rw [List.length_cons, Nat.add_comm] at hroom
    have hfirst := reads_pass hparsing hp hch (hroom.of_le (Nat.le_add_right 1 _)) hdispatch
    have hrest' := ih (r := went r 1 parser') rfl hrest (hroom.went parser')
    rw [went_went, Nat.add_comm] at hrest'
    exact hfirst.trans hrest'

end Courses

/-- The method that a text leads to, from a method of which so many characters were read. -/
def methodRead : Method → ℕ → List Char → Option Method
  | m, _, [] => some m
  | m, i, ch :: text =>
    if ch = nul ∨ ch = ' ' then none
    else if ch = (methodStrings m).getD i nul then methodRead m (i + 1) text
    else (otherMethod m i ch).bind fun m => methodRead m (i + 1) text

theorem methodRead_methodStrings (m : Method) : ∃ ch text first, methodStrings m = ch :: text ∧
    firstMethod ch = some first ∧ methodRead first 1 text = some m := by
  cases m <;> exact ⟨_, _, _, rfl, rfl, by decide⟩

private theorem methodRead_head : methodRead .head 2 ['A', 'D'] = some .head := by decide

private theorem eq_head {m : Method} {text : List Char} (h : methodStrings m = 'H' :: text) : m = .head := by
  cases m <;> simp_all [methodStrings]

private theorem isAlpha_of_firstMethod {ch : Char} {m : Method} (h : firstMethod ch = some m) :
    isAlpha ch = true ∧ ¬ (ch = cr ∨ ch = lf) := by
  unfold firstMethod at h
  split at h <;> cases h
  all_goals exact ⟨by decide, by decide⟩

def MayRequest (parser : Parser) : Prop :=
  parser.state = .startReqOrRes ∨ (parser.state = .startReq ∧ parser.type = .httpRequest)

/-- The parser inside of a request's first line, with the method and the number of its
characters that were read. -/
def requesting (parser : Parser) (m : Method) (i : ℕ) (s : State) : Parser :=
  { parser with
    type := .httpRequest, flags := Flags.zero, contentLength := ullongMax,
    method := m, index := i, state := s }

section Methods
variable {data : List Char} {parser : Parser} {m : Method}

/-- A character of a method's name. -/
theorem steps_reqMethod {m' : Method} {i : ℕ} {ch : Char} (hindex : i < 255)
    (hplain : ¬ (ch = nul ∨ ch = ' '))
    (hnext : (ch = (methodStrings m).getD i nul ∧ m' = m) ∨
      (ch ≠ (methodStrings m).getD i nul ∧ otherMethod m i ch = some m')) :
    Steps data (requesting parser m i .reqMethod) ch (requesting parser m' (i + 1) .reqMethod) := by
  obtain ⟨hnul, hspace⟩ := not_or.mp hplain
  have hmod : (i + 1) % 256 = i + 1 := Nat.mod_eq_of_lt (by omega)
  have hend : ¬ (ch = ' ' ∧ (methodStrings m).getD i nul = nul) := fun h => hspace h.1
  refine ⟨rfl, ?_⟩
  intro r nread
  simp only [dispatch, requesting, Run.update, reqMethod, if_neg hnul, if_neg hend, hmod]
  rcases hnext with ⟨hmatcher, rfl⟩ | ⟨hmatcher, hother⟩
  · rw [if_pos hmatcher]
  · rw [if_neg hmatcher, hother]

theorem course_reqMethod {m' : Method} {i : ℕ} {text : List Char} (hread : methodRead m i text = some m')
    (hindex : i + text.length < 256) :
    Course data (requesting parser m i .reqMethod) text (requesting parser m' (i + text.length) .reqMethod) := by
  induction text generalizing m i with
  | nil =>
    simp only [methodRead, Option.some.injEq] at hread
    subst hread
    exact .nil _
  | cons ch text ih =>
    rw [List.length_cons] at hindex ⊢
    have hplain : ¬ (ch = nul ∨ ch = ' ') := by
      intro h
      rw [methodRead, if_pos h] at hread
      cases hread
    have hlen : i + (text.length + 1) = i + 1 + text.length := by omega
    rw [hlen]
    rw [methodRead, if_neg hplain] at hread
    split at hread
    · rename_i hmatcher
      exact .cons (steps_reqMethod (by omega) hplain (.inl ⟨hmatcher, rfl⟩)) (ih hread (by omega))
    · rename_i hmatcher
      obtain ⟨m'', hother, hread'⟩ := Option.bind_eq_some_iff.mp hread
      exact .cons (steps_reqMethod (by omega) hplain (.inr ⟨hmatcher, hother⟩)) (ih hread' (by omega))

/-- The first letter of a request, but for an `H` that may start a response. -/
theorem steps_firstMethod {ch : Char} (h : MayRequest parser) (hfirst : firstMethod ch = some m)
    (hH : parser.state = .startReqOrRes → ch ≠ 'H') :
    Steps data parser ch (requesting parser m 1 .reqMethod) := by
  obtain ⟨halpha, hline⟩ := isAlpha_of_firstMethod hfirst
  have hletter : ¬ (!isAlpha ch) = true := by simp [halpha]
  rcases h with hs | ⟨hs, htype⟩
  · refine ⟨by rw [hs]; rfl, ?_⟩
    intro r nread
    simp only [dispatch, Run.update, hs, startReqOrRes, if_neg hline, if_neg (hH hs), startReq, if_neg hletter,
      hfirst, Run.updateState, requesting]
  · refine ⟨by rw [hs]; rfl, ?_⟩
    intro r nread
    simp only [dispatch, Run.update, hs, if_neg hline, startReq, if_neg hletter, hfirst, Run.updateState,
      requesting, htype]

theorem course_headMethod (hs : parser.state = .startReqOrRes) :
    Course data parser ['H', 'E'] (requesting parser .head 2 .reqMethod) := by
  have hline : ¬ ('H' = cr ∨ 'H' = lf) := by decide
  have hfirst : Steps data parser 'H'
      { parser with flags := Flags.zero, contentLength := ullongMax, state := .resOrRespH } := by
    refine ⟨by rw [hs]; rfl, ?_⟩
    intro r nread
    simp only [dispatch, Run.update, hs, startReqOrRes, if_neg hline, Run.updateState, if_true]
  exact .cons hfirst (.single ⟨rfl, fun _ _ => rfl⟩)

/-- The name of a method is read to its end. -/
theorem course_methodStrings (h : MayRequest parser) (m : Method) :
    Course data parser (methodStrings m)
      (requesting parser m (methodStrings m).length .reqMethod) := by
  have hlength := length_methodStrings_lt m
  by_cases hH : parser.state = .startReqOrRes ∧ m = .head
  · obtain ⟨hs, rfl⟩ := hH
    exact (course_headMethod hs).append (course_reqMethod methodRead_head (by decide))
  · obtain ⟨ch, text, first, hname, hfirst, hread⟩ := methodRead_methodStrings m
    rw [hname] at hlength ⊢
    have hletter : parser.state = .startReqOrRes → ch ≠ 'H' := by
      rintro hs rfl
      exact hH ⟨hs, eq_head hname⟩
    rw [List.length_cons] at hlength
    rw [List.length_cons, Nat.add_comm]
    exact .cons (steps_firstMethod h hfirst hletter) (course_reqMethod hread (by omega))

/-- The space behind the name. -/
theorem steps_methodEnd (parser : Parser) (m : Method) :
    Steps data (requesting parser m (methodStrings m).length .reqMethod) ' '
      (requesting parser m ((methodStrings m).length + 1) .reqSpacesBeforeUrl) := by
  have hlength := length_methodStrings_lt m
  have hmod : ((methodStrings m).length + 1) % 256 = (methodStrings m).length + 1 :=
    Nat.mod_eq_of_lt (by omega)
  have hmatcher : (methodStrings m).getD (methodStrings m).length nul = nul := by
    rw [List.getD_eq_getElem?_getD, List.getElem?_eq_none (Nat.le_refl _), Option.getD_none]
  have hspace : ¬ ' ' = nul := by decide
  refine ⟨rfl, ?_⟩
  intro r nread
  simp only [dispatch, requesting, Run.update, reqMethod, if_neg hspace, hmatcher, hmod, Run.updateState,
    and_self, if_true]

end Methods

def urlStart (m : Method) : State := if m = .connect then .reqServerStart else .reqSpacesBeforeUrl

def urlRun (s : State) (text : List Char) : State := text.foldl parseUrlChar s

def urlEnds : State → Bool
  | .reqServer | .reqServerWithAt | .reqPath | .reqQueryStringStart | .reqQueryString => true
  | .reqFragmentStart | .reqFragment => true
  | _ => false

/-- The parser reads the text as the target of a request with this method. -/
def ReadsUrl (m : Method) (text : List Char) : Prop := urlEnds (urlRun (urlStart m) text) = true

instance (m : Method) (text : List Char) : Decidable (ReadsUrl m text) := inferInstanceAs (Decidable (_ = true))

section Urls
variable {data : List Char} {s : State} {text : List Char} {ch : Char}

theorem urlRun_dead (text : List Char) : urlRun .dead text = .dead := by
  induction text with
  | nil => rfl
  | cons ch text ih =>
    have hdead : parseUrlChar .dead ch = .dead := by
      unfold parseUrlChar
      split <;> rfl
    change urlRun (parseUrlChar .dead ch) text = .dead
    rw [hdead, ih]

theorem ne_dead_of_urlEnds (h : urlEnds (urlRun s (ch :: text)) = true) : parseUrlChar s ch ≠ .dead := by
  intro hdead
  have hrun : urlRun s (ch :: text) = urlRun (parseUrlChar s ch) text := rfl
  rw [hrun, hdead, urlRun_dead] at h
  cases h

theorem parseUrlChar_end (s : State) (h : ch = ' ' ∨ ch = cr ∨ ch = lf) : parseUrlChar s ch = .dead := by
  rcases h with rfl | rfl | rfl <;> exact if_pos (by decide)

theorem urlChar_next {r : Run} (hs : r.parser.state = s) (hdead : parseUrlChar s ch ≠ .dead) :
    urlChar r ch = .next (r.updateState (parseUrlChar s ch)) := by
  simp only [urlChar, hs, if_neg hdead]

theorem dispatch_url {r : Run} (hs : pieceOf r.parser.state = some .url)
    (hend : ¬ (ch = ' ' ∨ ch = cr ∨ ch = lf)) : dispatch data r ch = urlChar r ch := by
  obtain ⟨hspace, hline⟩ := not_or.mp hend
  cases h : r.parser.state <;> rw [h] at hs <;>
    simp only [pieceOf, reduceCtorEq, Option.some.injEq] at hs <;>
    simp only [dispatch, h, reqSchema, reqUrl, if_neg hend, if_neg hspace, if_neg hline]

theorem steps_url {parser : Parser} (hs : pieceOf parser.state = some .url)
    (hdead : parseUrlChar parser.state ch ≠ .dead) :
    Steps data parser ch { parser with state := parseUrlChar parser.state ch } := by
  have hend : ¬ (ch = ' ' ∨ ch = cr ∨ ch = lf) := fun h => hdead (parseUrlChar_end _ h)
  refine ⟨?_, ?_⟩
  · cases h : parser.state <;> rw [h] at hs <;> first | rfl | cases hs
  · intro r nread
    rw [dispatch_url hs hend]
    exact urlChar_next rfl hdead

private theorem course_url {parser : Parser} (hs : pieceOf parser.state = some .url)
    (h : urlEnds (urlRun parser.state text) = true) :
    Course data parser text { parser with state := urlRun parser.state text } := by
  induction text generalizing parser with
  | nil => exact .nil parser
  | cons ch text ih =>
    have hdead := ne_dead_of_urlEnds h
    exact .cons (steps_url hs hdead) (ih (pieceOf_parseUrlChar hdead) h)

variable {r : Run}

/-- The first character of a target opens it. -/
theorem reads_urlStart (hs : r.parser.state = .reqSpacesBeforeUrl) (hmarks : r.marks = only none)
    (hdead : parseUrlChar (urlStart r.parser.method) ch ≠ .dead) (hp : r.p < data.length)
    (hch : charAt data r.p = ch) (hroom : Room r 1) :
    Reads data r (inPiece .url r 1 { r.parser with state := parseUrlChar (urlStart r.parser.method) ch }) := by
  have hspace : ch ≠ ' ' := fun h => hdead (parseUrlChar_end _ (.inl h))
  have hmark := mark_of_closed (r := counted r 1) hmarks .url
  have hparsing : r.parser.state.parsingHeader = true := by
    rw [hs]
    rfl
  have hdispatch : dispatch data (counted r 1) ch =
      .next { (counted r 1).updateState (parseUrlChar (urlStart r.parser.method) ch) with
        marks := only (some (.url, r.p)) } := by
    have hs' : (counted r 1).parser.state = .reqSpacesBeforeUrl := hs
    have hmethod : (counted r 1).parser.method = r.parser.method := rfl
    simp only [dispatch, hs', reqSpacesBeforeUrl, if_neg hspace, hmark, hmethod]
    by_cases hconnect : r.parser.method = .connect
    · simp only [urlStart, if_pos hconnect] at hdead ⊢
      exact urlChar_next rfl hdead
    · simp only [urlStart, if_neg hconnect] at hdead ⊢
      exact urlChar_next hs' hdead
  exact reads_pass hparsing hp hch hroom hdispatch

theorem reads_urlEnd {n : ℕ} {parser : Parser} (hends : urlEnds parser.state = true)
    (hmarks : r.marks = only none) (hp : r.p + n < data.length) (hch : charAt data (r.p + n) = ' ')
    (hroom : Room r (n + 1)) :
    Reads data (inPiece .url r n parser) (told (went r (n + 1) { parser with state := .reqHttpStart })
      [⟨.url, r.p, n, parser.method⟩]) := by
  have hparsing : parser.state.parsingHeader = true := by
    cases h : parser.state <;> rw [h] at hends <;> first | rfl | cases hends
  have hlen : r.p + n - r.p = n := Nat.add_sub_cancel_left _ _
  have hdispatch : dispatch data (counted (inPiece .url r n parser) 1) ' ' =
      .next (((counted (inPiece .url r n parser) 1).updateState .reqHttpStart).callback .url) := by
    have hstate : (counted (inPiece .url r n parser) 1).parser.state = parser.state := rfl
    cases h : parser.state <;> rw [h] at hends hstate <;>
      simp only [urlEnds, Bool.false_eq_true] at hends <;>
      simp only [dispatch, hstate, reqUrl, if_true]
  have hopen : ((counted (inPiece .url r n parser) 1).updateState .reqHttpStart).marks =
      only (some (.url, r.p)) := rfl
  rw [Run.callback, callbackTo_of_open hopen] at hdispatch
  have hread := reads_pass (r := inPiece .url r n parser) hparsing hp hch hroom hdispatch
  simp only [counted, inPiece, went, Run.updateState, Run.update, hlen, ← hmarks] at hread
  exact hread

/-- A target and the space behind it. -/
theorem reads_target (hs : r.parser.state = .reqSpacesBeforeUrl) (hmarks : r.marks = only none)
    (hurl : ReadsUrl r.parser.method text) (hspells : Spells data r.p (text ++ [' ']))
    (hroom : Room r (text.length + 1)) :
    Reads data r (told (went r (text.length + 1) { r.parser with state := .reqHttpStart })
      [⟨.url, r.p, text.length, r.parser.method⟩]) := by
  cases text with
  | nil =>
    rw [ReadsUrl, urlRun, List.foldl_nil, urlStart] at hurl
    split at hurl <;> cases hurl
  | cons ch text =>
    obtain ⟨htext, hspace⟩ := spells_append.mp hspells
    obtain ⟨hp, hch, hrest⟩ := spells_cons.mp htext
    obtain ⟨hp', hch', -⟩ := spells_cons.mp hspace
    have hdead := ne_dead_of_urlEnds hurl
    have hopened := reads_urlStart hs hmarks hdead hp hch (hroom.of_le (Nat.le_add_left 1 _))
    have hroom' : Room (inPiece .url r 1 { r.parser with
        state := parseUrlChar (urlStart r.parser.method) ch }) text.length := by
      simp only [Room, inPiece, went, List.length_cons] at hroom ⊢
      omega
    have hcourse := (@course_url data text { r.parser with
      state := parseUrlChar (urlStart r.parser.method) ch } (pieceOf_parseUrlChar hdead) hurl).reads
        (r := inPiece .url r 1 { r.parser with state := parseUrlChar (urlStart r.parser.method) ch })
        rfl hrest hroom'
    have hsum : ∀ parser, went (inPiece .url r 1 { r.parser with
        state := parseUrlChar (urlStart r.parser.method) ch }) text.length parser =
          inPiece .url r (text.length + 1) parser := by
      intro parser
      simp only [inPiece, went, Nat.add_assoc, Nat.add_comm text.length]
    rw [hsum] at hcourse
    exact (hopened.trans hcourse).trans (@reads_urlEnd data _ _ { r.parser with
      state := urlRun (urlStart r.parser.method) (ch :: text) } hurl hmarks hp' hch' hroom)

end Urls

section Versions
variable {data : List Char} (parser : Parser)

private theorem course_http : Course data { parser with state := .reqHttpStart } "HTTP/".toList
    { parser with state := .reqFirstHttpMajor } :=
  @Course.cons _ _ { parser with state := .reqHttpH } _ _ _ ⟨rfl, fun _ _ => rfl⟩ <|
  @Course.cons _ _ { parser with state := .reqHttpHT } _ _ _ ⟨rfl, fun _ _ => rfl⟩ <|
  @Course.cons _ _ { parser with state := .reqHttpHTT } _ _ _ ⟨rfl, fun _ _ => rfl⟩ <|
  @Course.cons _ _ { parser with state := .reqHttpHTTP } _ _ _ ⟨rfl, fun _ _ => rfl⟩ <|
  .single ⟨rfl, fun _ _ => rfl⟩

theorem course_major {s : State} (hs : s = .reqHttpMajor ∨ s = .resHttpMajor) {text : List Char} {n : ℕ}
    (hdigits : ∀ c ∈ text, c.isDigit = true)
    (hvalue : text.foldl (fun n c => n * 10 + digitValue c) n ≤ 999) :
    Course data { parser with httpMajor := n, state := s } text { parser with
      httpMajor := text.foldl (fun n c => n * 10 + digitValue c) n, state := s } := by
  induction text generalizing n with
  | nil => exact .nil _
  | cons c text ih =>
    have hc := isDigit_of (hdigits c List.mem_cons_self)
    rw [List.foldl_cons] at hvalue ⊢
    have hle := Nat.le_trans (@le_foldl_numeral 10 (by decide) _ text) hvalue
    refine .cons ⟨by rcases hs with rfl | rfl <;> rfl, ?_⟩
      (ih (fun c hc => hdigits c (List.mem_cons_of_mem _ hc)) hvalue)
    intro r nread
    rcases hs with rfl | rfl <;>
      simp only [dispatch, Run.update, reqHttpMajor, resHttpMajor, if_neg hc.ne_dot, httpMajorDigit, hc.num,
        hc.value, Bool.not_true, Bool.false_eq_true, if_false, if_neg (Nat.not_lt.mpr hle)]

theorem course_minor {s : State} (hs : s = .reqHttpMinor ∨ s = .resHttpMinor) {text : List Char} {n : ℕ}
    (hdigits : ∀ c ∈ text, c.isDigit = true)
    (hvalue : text.foldl (fun n c => n * 10 + digitValue c) n ≤ 999) :
    Course data { parser with httpMinor := n, state := s } text { parser with
      httpMinor := text.foldl (fun n c => n * 10 + digitValue c) n, state := s } := by
  induction text generalizing n with
  | nil => exact .nil _
  | cons c text ih =>
    have hc := isDigit_of (hdigits c List.mem_cons_self)
    rw [List.foldl_cons] at hvalue ⊢
    have hle := Nat.le_trans (@le_foldl_numeral 10 (by decide) _ text) hvalue
    refine .cons ⟨by rcases hs with rfl | rfl <;> rfl, ?_⟩
      (ih (fun c hc => hdigits c (List.mem_cons_of_mem _ hc)) hvalue)
    intro r nread
    rcases hs with rfl | rfl <;>
      simp only [dispatch, Run.update, reqHttpMinor, resHttpMinor, if_neg hc.ne_cr, if_neg hc.ne_lf,
        if_neg hc.ne_space, httpMinorDigit, hc.num, hc.value, Bool.not_true, Bool.false_eq_true, if_false,
        if_neg (Nat.not_lt.mpr hle)]

/-- The digits of a minor version, and the dot before them. -/
theorem course_dotMinor {s s' s'' : State} (minor : Decimal 999)
    (hs : (s = .reqHttpMajor ∧ s' = .reqFirstHttpMinor ∧ s'' = .reqHttpMinor) ∨
      (s = .resHttpMajor ∧ s' = .resFirstHttpMinor ∧ s'' = .resHttpMinor)) :
    Course data { parser with state := s } ('.' :: minor.text)
      { parser with httpMinor := numeral 10 minor.text, state := s'' } := by
  obtain ⟨text, hne, hdigits, hvalue⟩ := minor
  cases text with
  | nil => exact absurd rfl hne
  | cons c text =>
    have hc := isDigit_of (hdigits c List.mem_cons_self)
    rw [numeral_cons] at hvalue ⊢
    have hrest := @course_minor data parser s'' (by
      rcases hs with ⟨-, -, rfl⟩ | ⟨-, -, rfl⟩
      · exact .inl rfl
      · exact .inr rfl) _ _ (fun c hc => hdigits c (List.mem_cons_of_mem _ hc)) hvalue
    refine @Course.cons _ _ { parser with state := s' } _ _ _ ?_ (.cons ?_ hrest)
    · rcases hs with ⟨rfl, rfl, -⟩ | ⟨rfl, rfl, -⟩ <;> exact ⟨rfl, fun _ _ => rfl⟩
    · rcases hs with ⟨-, rfl, rfl⟩ | ⟨-, rfl, rfl⟩ <;> refine ⟨rfl, ?_⟩ <;> intro r nread <;>
        simp only [dispatch, Run.update, firstHttpMinor, hc.num, hc.value, Bool.not_true, Bool.false_eq_true,
          if_false, Run.updateState]

/-- The version in a request's first line, and the line's end. -/
theorem course_requestVersion (v : Version) (hlead : ∀ c ∈ v.major.text.head?, c ≠ '0') :
    Course data { parser with state := .reqHttpStart } (v.text ++ crlf) { parser with
      httpMajor := numeral 10 v.major.text, httpMinor := numeral 10 v.minor.text,
      state := .headerFieldStart } := by
  obtain ⟨⟨text, hne, hdigits, hvalue⟩, minor⟩ := v
  cases text with
  | nil => exact absurd rfl hne
  | cons c text =>
    have hdigit := hdigits c List.mem_cons_self
    have hc := isDigit_of hdigit
    have hfirst := (sortedAlike (toNat_lt_of_isDigit hdigit)).leading_digit hdigit (hlead c rfl)
    rw [numeral_cons] at hvalue
    have hmajor := @course_major data parser _ (.inl rfl) _ _
      (fun c hc => hdigits c (List.mem_cons_of_mem _ hc)) hvalue
    have hopen : Steps data { parser with state := .reqFirstHttpMajor } c
        { parser with httpMajor := digitValue c, state := .reqHttpMajor } := by
      refine ⟨rfl, ?_⟩
      intro r nread
      simp only [dispatch, Run.update, reqFirstHttpMajor, if_neg hfirst, hc.value, Run.updateState]
    have hminor := @course_dotMinor data { parser with
      httpMajor := numeral 10 (c :: text) } _ _ _ minor (.inl ⟨rfl, rfl, rfl⟩)
    rw [← numeral_cons] at hmajor
    have hdone : Course data { parser with
        httpMajor := numeral 10 (c :: text), httpMinor := numeral 10 minor.text, state := .reqHttpMinor } crlf
          { parser with
            httpMajor := numeral 10 (c :: text), httpMinor := numeral 10 minor.text
            state := .headerFieldStart } :=
      @Course.cons _ _ { parser with
        httpMajor := numeral 10 (c :: text), httpMinor := numeral 10 minor.text
        state := .reqLineAlmostDone } _ _ _ ⟨rfl, fun _ _ => rfl⟩ (.single ⟨rfl, fun _ _ => rfl⟩)
    have hline := ((course_http parser).append (.cons hopen hmajor)).append (hminor.append hdone)
    simpa [Version.text] using hline

end Versions

end OpenSniffer.HttpReading
