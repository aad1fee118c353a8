import OpenSniffer.HttpReading

/-!
# How the parser reads the fields of a head

A field is read from the start of its line to the start of the next, where its value has
been told and its effect on the flags is due.
-/
namespace OpenSniffer.HttpFieldLines
open HttpGrammar HttpParserState HttpParser HttpOpenings HttpRuns HttpInvariants HttpHeadPasses HttpCharacters
open HttpReading ScanLoops

/-- The run is between two lines of a head, where the parser goes on as from the start of a
field in the other run, whose index and header state do not matter. -/
structure Begins (data : List Char) (r r₀ : Run) : Prop where
  p : r.p = r₀.p
  nread : r.parser.nread = r₀.parser.nread
  parsing : r.parser.state.parsingHeader = true
  marks : r₀.marks = only none
  dispatch : ∃ index headerState, ∀ n ch, isBlank ch = false →
    HttpParser.dispatch data (counted r n) ch = headerFieldStart ((counted r₀ n).update
      { (counted r₀ n).parser with index := index, headerState := headerState }) ch

def firstState (c : Char) : HeaderState :=
  match token c with
  | 'c' => .c
  | 'p' => .matchingProxyConnection
  | 't' => .matchingTransferEncoding
  | 'u' => .matchingUpgrade
  | _ => .general

def nameRead (parser : Parser) : List Char → Parser
  | [] => parser
  | c :: name => fieldRead { parser with index := 0, headerState := firstState c, state := .headerField } name

section Names
variable {data : List Char} {r r₀ : Run} {name : List Char}

private theorem fieldName_of_spells {p : ℕ} (hname : ∀ c ∈ name, token c ≠ nul)
    (hspells : Spells data p (name ++ [':'])) : fieldName data p = name := by
  obtain ⟨rest, hrest⟩ := hspells
  rw [fieldName, ← hrest, List.append_assoc]
  have hcolon : token ':' = nul := by decide
  rw [List.takeWhile_append_of_pos (by simpa using hname)]
  simp [hcolon]

theorem headerFieldChar_nread (parser : Parser) (n : ℕ) (ch c : Char) :
    headerFieldChar { parser with nread := n } ch c = { headerFieldChar parser ch c with nread := n } := by
  simp only [headerFieldChar]
  split <;> first | rfl | (split <;> rfl)

/-- What a name does to the parser does not depend on what was counted. -/
theorem fieldRead_nread (parser : Parser) (n : ℕ) (name : List Char) :
    fieldRead { parser with nread := n } name = { fieldRead parser name with nread := n } := by
  induction name generalizing parser with
  | nil => rfl
  | cons ch name ih =>
    change fieldRead (headerFieldChar { parser with nread := n } ch (token ch)) name = _
    rw [headerFieldChar_nread, ih]
    rfl

theorem fieldRead_same (parser : Parser) (name : List Char) : ∃ index headerState,
    fieldRead parser name = { parser with index := index, headerState := headerState } := by
  induction name generalizing parser with
  | nil => exact ⟨parser.index, parser.headerState, rfl⟩
  | cons ch name ih =>
    obtain ⟨index, headerState, heq⟩ := headerFieldChar_eq parser ch (token ch)
    obtain ⟨index', headerState', heq'⟩ := ih (headerFieldChar parser ch (token ch))
    refine ⟨index', headerState', ?_⟩
    change fieldRead (headerFieldChar parser ch (token ch)) name = _
    rw [heq', heq]

theorem headerField_colon {start : ℕ} (hmarks : r.marks = only (some (.headerField, start)))
    (hname : ∀ c ∈ name, token c ≠ nul) (hspells : Spells data r.p (name ++ [':']))
    (hroom : Room r name.length) :
    headerField data r = .next (told { r with
      p := r.p + name.length, marks := only none
      parser := { fieldRead r.parser name with
        nread := r.parser.nread + name.length, state := .headerValueDiscardWs } }
      [⟨.headerField, start, r.p + name.length - start, r.parser.method⟩]) := by
  obtain ⟨index, headerState, hread⟩ := fieldRead_same r.parser name
  obtain ⟨hp, hcolon, -⟩ := spells_cons.mp (spells_append.mp hspells).2
  have hloop := headerFieldLoop_eq data (data.length - r.p) r (Nat.le_refl _)
  rw [fieldName_of_spells hname hspells] at hloop
  have hlen : r.p + name.length - r.p = name.length := Nat.add_sub_cancel_left _ _
  have hend : ¬ r.p + name.length = data.length := Nat.ne_of_lt hp
  simp only [headerField, hloop, hlen]
  rw [countHeaderSize_of_room]
  · simp only [counted, Run.update, hend, if_false, hcolon, if_true]
    rw [Run.callback, @callbackTo_of_open _ .headerField start]
    · simp only [Run.updateState, Run.update, told, hread]
    · exact hmarks
  · simp only [Room, hread] at hroom ⊢
    exact hroom

theorem reads_fieldRest {n : ℕ} {parser : Parser} (hs : parser.state = .headerField)
    (hmarks : r.marks = only none) (hname : ∀ c ∈ name, token c ≠ nul)
    (hspells : Spells data (r.p + n) (name ++ [':'])) (hroom : Room r (n + (name.length + 1))) :
    Reads data (inPiece .headerField r n parser) (told (went r (n + (name.length + 1))
      { fieldRead parser name with state := .headerValueDiscardWs })
        [⟨.headerField, r.p, n + name.length, parser.method⟩]) := by
  have hp := (spells_cons.mp (spells_append.mp hspells).2).1
  have hparsing : parser.state.parsingHeader = true := by
    rw [hs]
    rfl
  have hroom' : Room (inPiece .headerField r n parser) (name.length + 1) := hroom.went parser
  rw [Nat.add_comm] at hroom'
  have hcolon := headerField_colon (r := counted (inPiece .headerField r n parser) 1) rfl hname hspells
    (hroom'.went parser)
  have hcounted : fieldRead (counted (inPiece .headerField r n parser) 1).parser name =
      { fieldRead parser name with nread := r.parser.nread + n + 1 } := fieldRead_nread parser _ name
  have hstate : (counted (inPiece .headerField r n parser) 1).parser.state = .headerField := hs
  have hread := reads_pass (r := inPiece .headerField r n parser) hparsing
    (Nat.lt_of_le_of_lt (Nat.le_add_right _ _) hp) rfl (hroom'.of_le (Nat.le_add_right 1 _)) (by
      simp only [dispatch, hstate]
      exact hcolon)
  rw [hcounted] at hread
  simpa only [told, went, inPiece, counted, Run.update, Nat.add_assoc, Nat.add_comm 1,
    Nat.add_sub_cancel_left, ← hmarks] using hread

theorem nameRead_same (parser : Parser) (name : List Char) : ∃ index headerState s,
    nameRead parser name = { parser with index := index, headerState := headerState, state := s } := by
  cases name with
  | nil => exact ⟨_, _, _, rfl⟩
  | cons c name =>
    obtain ⟨index, headerState, heq⟩ := fieldRead_same
      { parser with index := 0, headerState := firstState c, state := .headerField } name
    exact ⟨index, headerState, .headerField, heq⟩

private theorem not_blank_of_token {c : Char} (h : token c ≠ nul) : isBlank c = false := by
  rw [isBlank, decide_eq_false_iff_not]
  rintro (rfl | rfl) <;> exact h rfl

/-- The first character of a name, where a field may begin. -/
theorem headerFieldStart_token {c : Char} (hmarks : r.marks = only none) (hc : token c ≠ nul) :
    headerFieldStart r c = .next { r with
      marks := only (some (.headerField, r.p))
      parser := { r.parser with index := 0, headerState := firstState c, state := .headerField } } := by
  have hcr : c ≠ cr := by
    rintro rfl
    exact hc rfl
  have hlf : c ≠ lf := by
    rintro rfl
    exact hc rfl
  have hmark := mark_of_closed hmarks .headerField
  simp only [headerFieldStart, if_neg hcr, if_neg hlf, if_neg hc, hmark]
  rfl

/-- A name and the colon behind it. -/
theorem reads_name (h : Begins data r r₀) (hne : name ≠ []) (hname : ∀ c ∈ name, token c ≠ nul)
    (hspells : Spells data r.p (name ++ [':'])) (hroom : Room r (name.length + 1)) :
    Reads data r (told (went r₀ (name.length + 1)
      { nameRead r₀.parser name with state := .headerValueDiscardWs })
        [⟨.headerField, r₀.p, name.length, r₀.parser.method⟩]) := by
  cases name with
  | nil => exact absurd rfl hne
  | cons c name =>
    obtain ⟨index, headerState, hdispatch⟩ := h.dispatch
    have hc := hname c List.mem_cons_self
    obtain ⟨hp, hch, hrest⟩ := spells_cons.mp hspells
    have hfirst := (hdispatch 1 c (not_blank_of_token hc)).trans (headerFieldStart_token h.marks hc)
    have hopened := reads_pass h.parsing hp hch (hroom.of_le (Nat.le_add_left 1 _)) hfirst
    refine hopened.trans ?_
    have hrest' := @reads_fieldRest data r₀ name 1
      { r₀.parser with index := 0, headerState := firstState c, state := .headerField } rfl h.marks
      (fun c hc => hname c (List.mem_cons_of_mem _ hc)) (h.p ▸ hrest) ?_
    · have hlen : (c :: name).length = 1 + name.length := Nat.add_comm _ _
      rw [hlen]
      exact hrest'
    · simp only [Room, List.length_cons, h.nread] at hroom ⊢
      omega

end Names

/-- The first character of a value leads from one parser to the other, whatever has been
counted, and opens the value. -/
structure OpensValue (parser : Parser) (c : Char) (parser' : Parser) : Prop where
  state : parser'.state = .headerValue
  method : parser'.method = parser.method
  opens : ∀ (r : Run) (nread : ℕ), r.marks = only none →
    headerValueStart (r.update { parser with nread := nread }) c = .next { r with
      marks := only (some (.headerValue, r.p)), parser := { parser' with nread := nread } }

/-- What the other characters of a value do to the parser and to `h_state`. -/
def valueRead : Parser → HeaderState → List Char → Option (Parser × HeaderState)
  | parser, h, [] => some (parser, h)
  | parser, h, ch :: text =>
    (headerValueChar parser h ch).bind fun (parser, h) => valueRead parser h text

def ReadsValue (parser : Parser) : List Char → Parser → Prop
  | [], parser' => parser' = parser
  | c :: text, parser' => ∃ opened last h, OpensValue parser c opened ∧
      valueRead opened opened.headerState text = some (last, h) ∧ parser' = { last with headerState := h }

theorem not_lineEnd {c : Char} (h : isLineChar c = true) : c ≠ cr ∧ c ≠ lf := by
  simp only [isLineChar, decide_eq_true_eq] at h
  exact h.2

section Values
variable {data : List Char} {r : Run} {parser parser' : Parser} {h h' : HeaderState} {text : List Char}

/-- The search for the end of a value stops at the end of its line. -/
theorem valueEnd_of_spells {p : ℕ} (hline : ∀ c ∈ text, isLineChar c = true)
    (hspells : Spells data p (text ++ crlf)) (hlen : text.length < httpMaxHeaderSize) :
    valueEnd data p = p + text.length := by
  obtain ⟨rest, hrest⟩ := hspells
  obtain ⟨n, hn⟩ : ∃ n, httpMaxHeaderSize - text.length = n + 1 :=
    ⟨_, (Nat.succ_pred_eq_of_pos (by omega)).symm⟩
  have hnone : (text.findIdx? fun ch => ch = cr ∨ ch = lf) = none := by
    rw [List.findIdx?_eq_none_iff]
    intro c hc
    rw [decide_eq_false_iff_not, not_or]
    exact not_lineEnd (hline c hc)
  have hwindow : (data.drop p).take httpMaxHeaderSize =
      text ++ '\r' :: ('\n' :: rest).take n := by
    rw [← hrest, crlf, List.append_assoc, List.take_append, hn, List.take_of_length_le hlen.le]
    rfl
  have hcr : ('\r' = cr ∨ '\r' = lf) := .inl rfl
  simp only [valueEnd, hwindow, List.findIdx?_append, hnone, List.findIdx?_cons, hcr]
  simp

theorem headerValueChar_nread (parser : Parser) (n : ℕ) (h : HeaderState) (ch : Char) :
    headerValueChar { parser with nread := n } h ch =
      (headerValueChar parser h ch).map fun (parser, h) => ({ parser with nread := n }, h) := by
  cases h <;> simp only [headerValueChar] <;> first | rfl | (split_ifs <;> rfl)

private theorem valueRead_nread (parser : Parser) (n : ℕ) (h : HeaderState) (text : List Char) :
    valueRead { parser with nread := n } h text =
      (valueRead parser h text).map fun (parser, h) => ({ parser with nread := n }, h) := by
  induction text generalizing parser h with
  | nil => rfl
  | cons ch text ih =>
    rw [valueRead, valueRead, headerValueChar_nread]
    cases headerValueChar parser h ch with
    | none => rfl
    | some next => exact ih next.1 next.2

theorem headerValueChar_eq {ch : Char} (hs : parser.state = .headerValue)
    (hchar : headerValueChar parser h ch = some (parser', h')) : ∃ index contentLength flags,
      parser' = { parser with index := index, contentLength := contentLength, flags := flags } := by
  cases h <;> simp only [headerValueChar] at hchar <;> (try split_ifs at hchar) <;> cases hchar <;>
    first | exact ⟨_, _, _, rfl⟩ | exact ⟨_, _, _, by rw [← hs]⟩

/-- In a value of no use nothing more happens. -/
theorem valueRead_general (hs : parser.state = .headerValue) (text : List Char) :
    valueRead parser .general text = some (parser, .general) := by
  induction text with
  | nil => rfl
  | cons ch text ih =>
    have hsame : ({ parser with state := .headerValue } : Parser) = parser := by rw [← hs]
    change valueRead { parser with state := .headerValue } .general text = _
    rw [hsame]
    exact ih

/-- What follows the loop over a value whose line ends here. -/
theorem headerValueLoop_cr {n start position : ℕ} (hmarks : r.marks = only (some (.headerValue, position)))
    (hp : r.p < data.length) (hcr : charAt data r.p = cr) (hroom : Room r (r.p - start)) :
    headerValueLoop data start (n + 1) r h = .next (told { r with
      marks := only none
      parser := { r.parser with
        headerState := h, state := .headerAlmostDone, nread := r.parser.nread + (r.p - start) } }
      [⟨.headerValue, position, r.p - position, r.parser.method⟩]) := by
  have hend : ¬ r.p = data.length := Nat.ne_of_lt hp
  simp only [headerValueLoop, if_neg hend, hcr, if_true, headerValueDone]
  rw [Run.callback, @callbackTo_of_open _ .headerValue position]
  · simp only [Run.update]
    rw [countHeaderSize_of_room]
    · exact if_neg hend
    · exact hroom
  · exact hmarks

/-- The loop over the rest of a value stops at the end of its line. -/
theorem headerValueLoop_line {n start position : ℕ} {r : Run}
    (hmarks : r.marks = only (some (.headerValue, position))) (hs : r.parser.state = .headerValue)
    (hline : ∀ c ∈ text, isLineChar c = true) (hspells : Spells data r.p (text ++ crlf))
    (hread : valueRead r.parser h text = some (parser', h')) (hn : text.length < n)
    (hp : start ≤ r.p) (hroom : Room r (r.p + text.length - start)) (hcounted : 0 < r.parser.nread) :
    headerValueLoop data start n r h = .next (told { r with
      p := r.p + text.length, marks := only none
      parser := { parser' with
        headerState := h', state := .headerAlmostDone
        nread := r.parser.nread + (r.p + text.length - start) } }
      [⟨.headerValue, position, r.p + text.length - position, r.parser.method⟩]) := by
  induction text generalizing r h n with
  | nil =>
    obtain ⟨n, rfl⟩ : ∃ m, n = m + 1 := ⟨n - 1, by omega⟩
    obtain ⟨hin, hcr, -⟩ := spells_cons.mp hspells
    cases hread
    exact headerValueLoop_cr hmarks hin hcr hroom
  | cons ch text ih =>
    obtain ⟨n, rfl⟩ : ∃ m, n = m + 1 := ⟨n - 1, by omega⟩
    obtain ⟨hin, hch, hrest⟩ := spells_cons.mp hspells
    have hchar : ch ≠ cr ∧ ch ≠ lf := not_lineEnd (hline ch List.mem_cons_self)
    have hend : ¬ r.p = data.length := Nat.ne_of_lt hin
    have hlen : (ch :: text).length = text.length + 1 := rfl
    simp only [headerValueLoop, if_neg hend, hch, if_neg hchar.1, if_neg hchar.2]
    by_cases hgeneral : h = .general
    · subst hgeneral
      rw [valueRead_general hs] at hread
      cases hread
      have hle : (ch :: text).length < httpMaxHeaderSize := by
        simp only [Room] at hroom
        omega
      have hjump := valueEnd_of_spells hline hspells hle
      obtain ⟨hin', hcr, -⟩ := spells_cons.mp (spells_append.mp hspells).2
      obtain ⟨n, rfl⟩ : ∃ m, n = m + 1 := ⟨n - 1, by omega⟩
      rw [if_pos rfl, hjump]
      exact headerValueLoop_cr hmarks hin' hcr hroom
    · rw [if_neg hgeneral]
      rw [valueRead] at hread
      obtain ⟨⟨next, hnext⟩, hstep, hread'⟩ := Option.bind_eq_some_iff.mp hread
      obtain ⟨index, contentLength, flags, rfl⟩ := headerValueChar_eq hs hstep
      rw [hstep]
      have hshift : r.p + (ch :: text).length = r.p + 1 + text.length := by omega
      rw [hshift] at hroom ⊢
      exact ih hmarks hs (fun c hc => hline c (List.mem_cons_of_mem _ hc)) hrest hread' (by omega) (by
        simp only
        omega) hroom hcounted

/-- The blanks before a value. -/
theorem course_blanks (hs : parser.state = .headerValueDiscardWs) (hblank : ∀ c ∈ text, isBlank c = true) :
    Course data parser text parser := by
  induction text with
  | nil => exact .nil parser
  | cons ch text ih =>
    have hch : ch = ' ' ∨ ch = '\t' := by simpa [isBlank] using hblank ch List.mem_cons_self
    refine .cons ⟨?_, ?_⟩ (ih fun c hc => hblank c (List.mem_cons_of_mem _ hc))
    · rw [hs]
      rfl
    · intro r nread
      simp only [dispatch, Run.update, hs, headerValueDiscardWs, if_pos hch]

theorem reads_valueStart {c : Char} (hr : r.parser = { parser with nread := r.parser.nread })
    (hs : parser.state = .headerValueDiscardWs) (hmarks : r.marks = only none)
    (hopens : OpensValue parser c parser') (hblank : isBlank c = false) (hline : isLineChar c = true)
    (hp : r.p < data.length) (hch : charAt data r.p = c) (hroom : Room r 1) :
    Reads data r (inPiece .headerValue r 1 parser') := by
  have hparsing : r.parser.state.parsingHeader = true := by
    rw [hr]
    simp only [hs]
    rfl
  have hspace : ¬ (c = ' ' ∨ c = '\t') := by simpa [isBlank] using hblank
  have hchar : c ≠ cr ∧ c ≠ lf := not_lineEnd hline
  have hcounted : counted r 1 = r.update { parser with nread := r.parser.nread + 1 } := by rw [counted, hr]
  have hdispatch : dispatch data (counted r 1) c =
      headerValueStart (r.update { parser with nread := r.parser.nread + 1 }) c := by
    rw [hcounted]
    simp only [dispatch, Run.update, hs, headerValueDiscardWs, if_neg hspace, if_neg hchar.1, if_neg hchar.2]
  exact reads_pass hparsing hp hch hroom (hdispatch.trans (hopens.opens r _ hmarks))

theorem reads_valueRest {n : ℕ} (hs : parser.state = .headerValue) (hmarks : r.marks = only none)
    (hread : valueRead parser parser.headerState text = some (parser', h'))
    (hline : ∀ c ∈ text, isLineChar c = true) (hspells : Spells data (r.p + n) (text ++ crlf))
    (hroom : Room r (n + (text.length + 2))) :
    Reads data (inPiece .headerValue r n parser) (told (went r (n + (text.length + 2))
      { parser' with headerState := h', state := .headerValueLws })
        [⟨.headerValue, r.p, n + text.length, parser.method⟩]) := by
  have hcrlf := (spells_append.mp hspells).2
  obtain ⟨hcr, -, hlf⟩ := spells_cons.mp hcrlf
  obtain ⟨hin, hch, -⟩ := spells_cons.mp hlf
  have hparsing : parser.state.parsingHeader = true := by
    rw [hs]
    rfl
  have hroom₁ : Room (counted (inPiece .headerValue r n parser) 1) (r.p + n + text.length - (r.p + n)) := by
    simp only [Room, counted, inPiece, went, Run.update] at hroom ⊢
    omega
  have hread₁ : valueRead (counted (inPiece .headerValue r n parser) 1).parser parser.headerState text =
      some ({ parser' with nread := r.parser.nread + n + 1 }, h') := by
    have hnread := valueRead_nread parser (r.parser.nread + n + 1) parser.headerState text
    rw [hread] at hnread
    exact hnread
  have hloop := @headerValueLoop_line data _ _ _ _ (data.length - (r.p + n)) (r.p + n) r.p
    (counted (inPiece .headerValue r n parser) 1) rfl hs hline hspells hread₁ (by omega) (Nat.le_refl _)
    hroom₁ (Nat.succ_pos _)
  have hsum : (counted (inPiece .headerValue r n parser) 1).p + text.length - (r.p + n) = text.length :=
    Nat.add_sub_cancel_left _ _
  rw [hsum] at hloop
  have hdispatch : dispatch data (counted (inPiece .headerValue r n parser) 1) (charAt data (r.p + n)) =
      headerValueLoop data (r.p + n) (data.length - (r.p + n)) (counted (inPiece .headerValue r n parser) 1)
        parser.headerState := by
    have hstate : (counted (inPiece .headerValue r n parser) 1).parser.state = .headerValue := hs
    simp only [dispatch, hstate]
    rfl
  have hline' := reads_pass (r := inPiece .headerValue r n parser) hparsing
    (Nat.lt_of_le_of_lt (Nat.le_add_right _ _) hcr) rfl (by
      simp only [Room, inPiece, went] at hroom ⊢
      omega) (hdispatch.trans hloop)
  have hstep : Steps data { parser' with headerState := h', state := .headerAlmostDone } '\n'
      { parser' with headerState := h', state := .headerValueLws } := ⟨rfl, fun _ _ => rfl⟩
  have hlf' := (Course.single hstep).reads (r := told (went r (n + (text.length + 1))
      { parser' with headerState := h', state := .headerAlmostDone })
        [⟨.headerValue, r.p, n + text.length, parser.method⟩]) rfl (by
      simp only [told, went, ← Nat.add_assoc]
      exact hlf) (by
      simp only [Room, told, went, List.length_singleton] at hroom ⊢
      omega)
  refine Scan.Reaches.trans ?_ hlf'
  simpa only [told, went, inPiece, counted, Run.update, Nat.add_assoc, Nat.add_comm 1,
    Nat.add_sub_cancel_left, ← hmarks] using hline'

/-- A value that is not empty, with the blanks before it, and the end of its line. -/
theorem reads_value {space : List Char} {c : Char} (hr : r.parser = { parser with nread := r.parser.nread })
    (hs : parser.state = .headerValueDiscardWs) (hmarks : r.marks = only none)
    (hread : ReadsValue parser (c :: text) parser')
    (hspace : ∀ c ∈ space, isBlank c = true) (hblank : isBlank c = false)
    (hline : ∀ d ∈ c :: text, isLineChar d = true) (hspells : Spells data r.p (space ++ (c :: text ++ crlf)))
    (hroom : Room r (space.length + (text.length + 3))) :
    Reads data r (told (went r (space.length + (text.length + 3)) { parser' with state := .headerValueLws })
      [⟨.headerValue, r.p + space.length, text.length + 1, parser.method⟩]) := by
  obtain ⟨opened, last, h, hopens, hrest, rfl⟩ := hread
  obtain ⟨hspells₁, hspells₂⟩ := spells_append.mp hspells
  obtain ⟨hp, hch, hspells₃⟩ := spells_cons.mp hspells₂
  have hroom₁ : Room (went r space.length parser) (text.length + 3) := hroom.went parser
  have hblanks := (@course_blanks data _ _ hs hspace).reads hr hspells₁
    (hroom.of_le (Nat.le_add_right _ _))
  have hstart := reads_valueStart (r := went r space.length parser) rfl hs hmarks hopens hblank
    (hline c List.mem_cons_self) hp hch (hroom₁.of_le (Nat.le_add_left 1 _))
  have hend := reads_valueRest (r := went r space.length parser) (n := 1) hopens.state hmarks hrest
    (fun c hc => hline c (List.mem_cons_of_mem _ hc)) hspells₃ (hroom₁.of_le (by omega))
  have hread := (hblanks.trans hstart).trans hend
  rw [went_went, hopens.method] at hread
  simpa only [told, went, Nat.add_comm 1, Nat.add_assoc] using hread

/-- The end of a line whose value is empty, with the blanks before it. -/
theorem course_emptyValue (hs : parser.state = .headerValueDiscardWs) (hspace : ∀ c ∈ text, isBlank c = true) :
    Course data parser (text ++ crlf) { parser with state := .headerValueDiscardLws } := by
  have hcr : Steps data parser '\r' { parser with state := .headerValueDiscardWsAlmostDone } := by
    refine ⟨?_, ?_⟩
    · rw [hs]
      rfl
    · intro r nread
      simp only [dispatch, Run.update, hs]
      rfl
  have hlf : Steps data { parser with state := .headerValueDiscardWsAlmostDone } '\n'
      { parser with state := .headerValueDiscardLws } := ⟨rfl, fun _ _ => rfl⟩
  exact (course_blanks hs hspace).append (.cons hcr (.single hlf))

end Values

/-- A field leads from one parser to the other, at the start of the next line. -/
def ReadsField (parser : Parser) (f : Field) (parser' : Parser) : Prop :=
  ∃ last, ReadsValue { nameRead parser f.name with state := .headerValueDiscardWs } f.value last ∧
    parser' = { last with flags := headerFlags last.headerState last.flags, state := .headerFieldStart }

section Fields
variable {data : List Char} {r r₀ : Run}

theorem begins_headerFieldStart (hs : r.parser.state = .headerFieldStart) (hmarks : r.marks = only none) :
    Begins data r r where
  p := rfl
  nread := rfl
  parsing := by rw [hs]; rfl
  marks := hmarks
  dispatch := by
    refine ⟨r.parser.index, r.parser.headerState, ?_⟩
    intro n ch _
    have hstate : (counted r n).parser.state = .headerFieldStart := hs
    have hdispatch : HttpParser.dispatch data (counted r n) ch = headerFieldStart (counted r n) ch := by
      simp only [HttpParser.dispatch, hstate]
    exact hdispatch

/-- Behind a value that is not empty the effect on the flags is due. -/
theorem begins_headerValueLws {parser : Parser} (hs : r.parser = { parser with
      state := .headerValueLws, nread := r.parser.nread }) (hmarks : r.marks = only none) :
    Begins data r (r.update { parser with
      flags := headerFlags parser.headerState parser.flags
      state := .headerFieldStart, nread := r.parser.nread }) where
  p := rfl
  nread := rfl
  parsing := by rw [hs]; rfl
  marks := hmarks
  dispatch := by
    refine ⟨parser.index, parser.headerState, ?_⟩
    intro n ch hblank
    have hspace : ¬ (ch = ' ' ∨ ch = '\t') := by simpa [isBlank] using hblank
    have hcounted : counted r n = r.update { parser with
        state := .headerValueLws, nread := r.parser.nread + n } := by rw [counted, hs]
    rw [hcounted]
    simp only [HttpParser.dispatch, Run.update, headerValueLws, if_neg hspace]
    rfl

/-- Behind an empty value its callback is due, too. -/
theorem begins_headerValueDiscardLws {parser : Parser} (hs : r.parser = { parser with
      state := .headerValueDiscardLws, nread := r.parser.nread }) (hmarks : r.marks = only none) :
    Begins data r ((told r [⟨.headerValue, r.p, 0, parser.method⟩]).update { parser with
      flags := headerFlags parser.headerState parser.flags
      state := .headerFieldStart, nread := r.parser.nread }) where
  p := rfl
  nread := rfl
  parsing := by rw [hs]; rfl
  marks := hmarks
  dispatch := by
    refine ⟨parser.index, parser.headerState, ?_⟩
    intro n ch hblank
    have hspace : ¬ (ch = ' ' ∨ ch = '\t') := by simpa [isBlank] using hblank
    have hcounted : counted r n = r.update { parser with
        state := .headerValueDiscardLws, nread := r.parser.nread + n } := by rw [counted, hs]
    rw [hcounted]
    simp only [HttpParser.dispatch, Run.update, headerValueDiscardLws, if_neg hspace]
    rw [mark_of_closed]
    · rw [Run.callback, @callbackTo_of_open _ .headerValue r.p]
      · simp only [Run.updateState, Run.update, told, Nat.sub_self, ← hmarks]
        rfl
      · rfl
    · exact hmarks

/-- The index and the header state do not matter between two lines. -/
theorem Begins.same (h : Begins data r r₀) {parser : Parser} {index : ℕ} {headerState : HeaderState}
    (hparser : r₀.parser = { parser with index := index, headerState := headerState }) :
    Begins data r (r₀.update parser) := by
  obtain ⟨index', headerState', hdispatch⟩ := h.dispatch
  refine ⟨h.p, ?_, h.parsing, h.marks, index', headerState', ?_⟩
  · rw [h.nread, hparser]
    rfl
  · intro n ch hblank
    rw [hdispatch n ch hblank]
    simp only [counted, Run.update, hparser]

/-- Where the callback for a value behind these blanks is. An empty value is told at the
start of the next line. -/
def valuePosition (space value : List Char) (p : ℕ) : ℕ :=
  if value = [] then p + (space.length + 2) else p + space.length

/-- A value with the blanks before it, to the start of the next line. -/
theorem reads_valueLine {parser last : Parser} {space value : List Char}
    (hr : r.parser = { parser with nread := r.parser.nread }) (hs : parser.state = .headerValueDiscardWs)
    (hmarks : r.marks = only none) (hread : ReadsValue parser value last)
    (hspace : ∀ c ∈ space, isBlank c = true) (hstart : ∀ c ∈ value.head?, isBlank c = false)
    (hline : ∀ c ∈ value, isLineChar c = true) (hspells : Spells data r.p (space ++ (value ++ crlf)))
    (hroom : Room r (space.length + (value.length + 2))) :
    ∃ r', Reads data r r' ∧ Begins data r' (told (went r (space.length + (value.length + 2))
      { last with flags := headerFlags last.headerState last.flags, state := .headerFieldStart })
        [⟨.headerValue, valuePosition space value r.p, value.length, parser.method⟩]) := by
  cases value with
  | nil =>
    cases hread
    have hlen : (space ++ crlf).length = space.length + 2 := List.length_append
    have hread := (@course_emptyValue data _ _ hs hspace).reads hr hspells (by rwa [hlen])
    rw [hlen] at hread
    exact ⟨_, hread, @begins_headerValueDiscardLws data (went r _ _) parser rfl hmarks⟩
  | cons c text =>
    have hread' := reads_value hr hs hmarks hread hspace (hstart c rfl) hline hspells hroom
    exact ⟨_, hread', @begins_headerValueLws data (told (went r _ _) _) last rfl hmarks⟩

def fieldCalls (m : Method) (f : Field) (p : ℕ) : List Callback :=
  [⟨.headerField, p, f.name.length, m⟩,
    ⟨.headerValue, valuePosition f.space f.value (p + (f.name.length + 1)), f.value.length, m⟩]

/-- A field is read to the start of the next line. -/
theorem reads_field (h : Begins data r r₀) {f : Field} {parser : Parser} (hname : ∀ c ∈ f.name, token c ≠ nul)
    (hread : ReadsField r₀.parser f parser) (hspells : Spells data r.p f.line) (hroom : Room r f.line.length) :
    ∃ r', Reads data r r' ∧ Begins data r'
      (told (went r₀ f.line.length parser) (fieldCalls r₀.parser.method f r₀.p)) := by
  obtain ⟨last, hvalue, rfl⟩ := hread
  have hline : f.line = (f.name ++ [':']) ++ (f.space ++ (f.value ++ crlf)) := by simp [Field.line]
  have hlength : f.line.length = f.name.length + 1 + (f.space.length + (f.value.length + 2)) := by
    rw [hline]
    simp only [crlf, List.length_append, List.length_cons, List.length_nil]
  rw [hline] at hspells
  obtain ⟨hspells₁, hspells₂⟩ := spells_append.mp hspells
  rw [List.length_append, List.length_singleton, h.p] at hspells₂
  rw [hlength] at hroom ⊢
  have hopened := reads_name h f.name_ne hname hspells₁ (hroom.of_le (Nat.le_add_right _ _))
  obtain ⟨index, headerState, s, hsame⟩ := nameRead_same r₀.parser f.name
  have hmethod : (nameRead r₀.parser f.name).method = r₀.parser.method := by rw [hsame]
  have hroom₁ : Room (went r₀ (f.name.length + 1) { nameRead r₀.parser f.name with
      state := .headerValueDiscardWs }) (f.space.length + (f.value.length + 2)) := by
    simp only [Room, went, h.nread] at hroom ⊢
    omega
  obtain ⟨r', hread, hbegins⟩ := reads_valueLine (r := told (went r₀ (f.name.length + 1)
    { nameRead r₀.parser f.name with state := .headerValueDiscardWs })
      [⟨.headerField, r₀.p, f.name.length, r₀.parser.method⟩])
    rfl rfl h.marks hvalue f.space_blank f.value_start f.value_line hspells₂ hroom₁
  refine ⟨r', hopened.trans hread, ?_⟩
  simpa only [told, went, fieldCalls, hmethod, Nat.add_assoc, List.append_assoc, List.singleton_append]
    using hbegins

end Fields
end OpenSniffer.HttpFieldLines
