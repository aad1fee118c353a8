import OpenSniffer.HttpFieldEffects

/-!
# How the parser reads bodies

The end of a head says which body follows. Chunks are read one by one, each from the start
of the count of a head's characters; behind the last comes a head of its own.
-/
namespace OpenSniffer.HttpBodies
open HttpGrammar HttpParserState HttpParser HttpOpenings HttpRuns HttpInvariants HttpCharacters
open HttpReading HttpFieldLines HttpFieldEffects ScanLoops

def maxChunk : ℕ := ullongMax - 16

/-- The run with another parser, so many characters later, where the count of a head's
characters starts again. -/
def moved (r : Run) (n : ℕ) (parser : Parser) : Run :=
  { r with p := r.p + n, parser := { parser with nread := 0 } }

private theorem moved_moved (r : Run) (m n : ℕ) (parser parser' : Parser) :
    moved (moved r m parser) n parser' = moved r (m + n) parser' := by
  simp only [moved, Nat.add_assoc]

def sizing (parser : Parser) (n : ℕ) (s : State) : Parser := { parser with contentLength := n, state := s }

section Lines
variable {data : List Char} {parser : Parser} {text : List Char}

theorem course_chunkSize (hhex : ∀ c ∈ text, c.isHexDigit = true) {n : ℕ}
    (hvalue : text.foldl (fun n c => n * 16 + digitValue c) n ≤ maxChunk) :
    Course data (sizing parser n .chunkSize) text
      (sizing parser (text.foldl (fun n c => n * 16 + digitValue c) n) .chunkSize) := by
  induction text generalizing n with
  | nil => exact .nil _
  | cons c text ih =>
    have hc := hhex c List.mem_cons_self
    have hvalue' := (sortedAlike (toNat_lt_of_isHexDigit hc)).unhex_eq_digitValue hc
    have hcr : c ≠ cr := by
      rintro rfl
      cases hc
    rw [List.foldl_cons] at hvalue ⊢
    have hle := Nat.le_trans (@le_foldl_numeral 16 (by decide) _ text) hvalue
    have hsmall : ¬ (ullongMax - 16) / 16 < n := by
      simp only [maxChunk, ullongMax] at hle ⊢
      omega
    refine .cons ⟨rfl, ?_⟩ (ih (fun c hc => hhex c (List.mem_cons_of_mem _ hc)) hvalue)
    intro r nread
    simp only [dispatch, Run.update, sizing, chunkSize, if_neg hcr, hvalue']
    exact if_neg hsmall

theorem course_chunkParameters (hline : ∀ c ∈ text, c ≠ '\r') (hs : parser.state = .chunkParameters) :
    Course data parser text parser := by
  induction text with
  | nil => exact .nil parser
  | cons c text ih =>
    have hcr : c ≠ cr := hline c List.mem_cons_self
    refine .cons ⟨?_, ?_⟩ (ih fun c hc => hline c (List.mem_cons_of_mem _ hc))
    · rw [hs]
      rfl
    · intro r nread
      simp only [dispatch, Run.update, hs, chunkParameters, if_neg hcr]

private theorem course_extension (hline : ∀ c ∈ text, c ≠ '\r') (hstart : ∀ c ∈ text.head?, c = ';' ∨ c = ' ') (n : ℕ) :
    Course data (sizing parser n .chunkSize) (text ++ ['\r']) (sizing parser n .chunkSizeAlmostDone) := by
  cases text with
  | nil => exact .single ⟨rfl, fun _ _ => rfl⟩
  | cons c text =>
    have hc := hstart c rfl
    have hopen : Steps data (sizing parser n .chunkSize) c (sizing parser n .chunkParameters) := by
      refine ⟨rfl, ?_⟩
      intro r nread
      rcases hc with rfl | rfl <;> rfl
    have hclose : Steps data (sizing parser n .chunkParameters) '\r' (sizing parser n .chunkSizeAlmostDone) :=
      ⟨rfl, fun _ _ => rfl⟩
    have hrest := @course_chunkParameters data (sizing parser n .chunkParameters) _
      (fun c hc => hline c (List.mem_cons_of_mem _ hc)) rfl
    exact (Course.cons hopen hrest).append (.single hclose)

theorem course_chunkLine (hs : parser.state = .chunkSizeStart) (line : ChunkLine maxChunk) :
    Course data parser (line.size ++ (line.extension ++ ['\r']))
      (sizing parser line.value .chunkSizeAlmostDone) := by
  obtain ⟨size, extension, hne, hhex, hstart, hline, hle⟩ := line
  cases size with
  | nil => exact absurd rfl hne
  | cons c size =>
    have hc := hhex c List.mem_cons_self
    have hvalue := (sortedAlike (toNat_lt_of_isHexDigit hc)).unhex_eq_digitValue hc
    have hopen : Steps data parser c (sizing parser (digitValue c) .chunkSize) := by
      refine ⟨?_, ?_⟩
      · rw [hs]
        rfl
      · intro r nread
        simp only [dispatch, Run.update, hs, chunkSizeStart, hvalue]
        rfl
    rw [numeral_cons] at hle
    have hsize := @course_chunkSize data parser _
      (fun c hc => hhex c (List.mem_cons_of_mem _ hc)) _ hle
    have hrest := (Course.cons hopen hsize).append (course_extension hline hstart _)
    rw [← numeral_cons] at hrest
    exact hrest

def lined (parser : Parser) (n : ℕ) : Parser := { parser with
  contentLength := n
  state := if n = 0 then .headerFieldStart else .chunkData
  flags := { parser.flags with trailing := if n = 0 then true else parser.flags.trailing } }

private theorem chunkSizeAlmostDone_lf (r : Run) : chunkSizeAlmostDone r '\n' = .next (r.update
    { lined r.parser r.parser.contentLength with nread := 0 }) := by
  have hlf : ¬ '\n' ≠ lf := fun h => h rfl
  simp only [chunkSizeAlmostDone, Run.strictCheck, if_neg hlf, Run.updateState, Run.update, lined]
  by_cases hzero : r.parser.contentLength = 0
  · simp only [hzero, if_true]
  · simp only [hzero, if_false]

/-- The line of a chunk is read. -/
theorem reads_chunkLine {r : Run} (hs : r.parser.state = .chunkSizeStart) (line : ChunkLine maxChunk)
    (hspells : Spells data r.p line.text) (hroom : Room r line.text.length) :
    Reads data r (moved r line.text.length (lined r.parser line.value)) := by
  have htext : line.text = (line.size ++ (line.extension ++ ['\r'])) ++ ['\n'] := by
    simp [ChunkLine.text, crlf]
  rw [htext] at hspells ⊢
  have hlength := congrArg List.length htext
  rw [List.length_append, List.length_singleton] at hlength ⊢
  rw [hlength] at hroom
  obtain ⟨hspells₁, hspells₂⟩ := spells_append.mp hspells
  obtain ⟨hp, hch, -⟩ := spells_cons.mp hspells₂
  have hfirst := (@course_chunkLine data _ hs line).reads (r := r) rfl hspells₁
    (hroom.of_le (Nat.le_add_right _ _))
  refine hfirst.trans ?_
  have hlast := reads_pass (r := went r _ (sizing r.parser line.value .chunkSizeAlmostDone)) rfl hp hch
    (hroom.went _) (chunkSizeAlmostDone_lf _)
  exact hlast

end Lines

section Chunks
variable {data : List Char} {r : Run}

theorem reads_chunkData {content : List Char} (hs : r.parser.state = .chunkData) (hmarks : r.marks = only none)
    (hne : content ≠ []) (hlength : r.parser.contentLength = content.length)
    (hspells : Spells data r.p content) (hp : r.p < data.length) :
    Reads data r { r with
      p := r.p + content.length, marks := only (some (.body, r.p))
      parser := sizing r.parser 0 .chunkDataAlmostDone } := by
  have hle := hspells.le hp.le
  have hpos := List.length_pos_iff.mpr hne
  have hmin : min content.length (data.length - r.p) = content.length := Nat.min_eq_left (by omega)
  have hdispatch : dispatch data r (charAt data r.p) = .next { r with
      p := r.p + content.length - 1, marks := only (some (.body, r.p))
      parser := sizing r.parser 0 .chunkDataAlmostDone } := by
    simp only [dispatch, hs, chunkData, hlength, hmin, mark_of_closed hmarks, Nat.sub_self, if_true,
      Run.updateState, Run.update]
    rfl
  have hread := reads_uncounted (r := r) (by rw [hs]; rfl) hp rfl hdispatch
  have hsucc : r.p + content.length - 1 + 1 = r.p + content.length := by omega
  rw [hsucc] at hread
  exact hread

private theorem chunkDataDone_lf (hs : r.parser.state = .chunkDataDone) : dispatch data r '\n' = .next (r.update
    { r.parser with nread := 0, state := .chunkSizeStart }) := by
  simp only [dispatch, hs]
  rfl

theorem reads_chunkEnd {start n : ℕ} (hs : r.parser.state = .chunkDataAlmostDone)
    (hmarks : r.marks = only (some (.body, start))) (hstart : r.p = start + n) (hspells : Spells data r.p crlf) :
    Reads data r (moved (told { r with marks := only none } [⟨.body, start, n, r.parser.method⟩]) 2
      { r.parser with state := .chunkSizeStart }) := by
  obtain ⟨hp, hcr, hrest⟩ := spells_cons.mp hspells
  obtain ⟨hp', hlf, -⟩ := spells_cons.mp hrest
  have hfirst : dispatch data r '\r' = .next (told { r with
      marks := only none, parser := { r.parser with state := .chunkDataDone } }
        [⟨.body, start, n, r.parser.method⟩]) := by
    have hcr' : ¬ '\r' ≠ cr := fun h => h rfl
    have hlength : r.p - start = n := by omega
    simp only [dispatch, hs, chunkDataAlmostDone, Run.strictCheck, if_neg hcr', Run.callback, Run.updateState,
      Run.update]
    rw [@callbackTo_of_open _ .body start]
    · simp only [hlength]
      rfl
    · exact hmarks
  have hread := reads_uncounted (by rw [hs]; rfl) hp hcr hfirst
  exact hread.trans (reads_uncounted rfl hp' hlf (chunkDataDone_lf rfl))

theorem reads_chunk {c : Chunk maxChunk} (hs : r.parser.state = .chunkSizeStart) (hmarks : r.marks = only none)
    (hspells : Spells data r.p c.text) (hroom : Room r c.line.text.length) :
    Reads data r (moved (told r [⟨.body, r.p + c.line.text.length, c.content.length, r.parser.method⟩])
      c.text.length (sizing r.parser 0 .chunkSizeStart)) := by
  obtain ⟨hline, hrest⟩ := spells_append.mp hspells
  obtain ⟨hcontent, hend⟩ := spells_append.mp hrest
  have hlength : c.text.length = c.line.text.length + (c.content.length + 2) := by
    rw [Chunk.text, List.length_append, List.length_append]
    rfl
  have hne : c.line.value ≠ 0 := by
    rw [← c.length_eq]
    exact fun hzero => c.content_ne (List.length_eq_zero_iff.mp hzero)
  have hfirst := reads_chunkLine hs c.line hline hroom
  have hlined : lined r.parser c.line.value = sizing r.parser c.content.length .chunkData := by
    simp only [lined, if_neg hne, c.length_eq, sizing]
  rw [hlined] at hfirst
  obtain ⟨hp, -, -⟩ := spells_cons.mp hend
  have hdata := reads_chunkData (r := moved r c.line.text.length (sizing r.parser c.content.length .chunkData))
    rfl hmarks c.content_ne rfl hcontent (Nat.lt_of_le_of_lt (Nat.le_add_right _ _) hp)
  have hlast := @reads_chunkEnd data { moved r c.line.text.length
    (sizing r.parser 0 .chunkDataAlmostDone) with
      p := r.p + c.line.text.length + c.content.length
      marks := only (some (.body, r.p + c.line.text.length)) } (r.p + c.line.text.length) _ rfl rfl rfl hend
  have hread := hfirst.trans (hdata.trans hlast)
  rw [hlength]
  simpa only [told, moved, sizing, Nat.add_assoc, Nat.add_sub_cancel_left, ← hmarks] using hread

def chunkCalls (m : Method) : List (Chunk maxChunk) → ℕ → List Callback
  | [], _ => []
  | c :: chunks, p => ⟨.body, p + c.line.text.length, c.content.length, m⟩ :: chunkCalls m chunks (p + c.text.length)

theorem reads_chunks {chunks : List (Chunk maxChunk)} (hs : r.parser.state = .chunkSizeStart)
    (hmarks : r.marks = only none) (hnread : r.parser.nread = 0)
    (hspells : Spells data r.p (chunks.map Chunk.text).flatten)
    (hlines : ∀ c ∈ chunks, c.line.text.length ≤ httpMaxHeaderSize) :
    ∃ n, Reads data r (moved (told r (chunkCalls r.parser.method chunks r.p))
      (chunks.map Chunk.text).flatten.length (sizing r.parser n .chunkSizeStart)) := by
  induction chunks generalizing r with
  | nil =>
    refine ⟨r.parser.contentLength, ?_⟩
    have hsame : moved (told r []) 0 (sizing r.parser r.parser.contentLength .chunkSizeStart) = r := by
      have hparser : ({ r.parser with state := .chunkSizeStart, nread := 0 } : Parser) = r.parser := by
        rw [← hs, ← hnread]
      simp only [moved, told, sizing, List.append_nil, Nat.add_zero]
      rw [hparser]
    exact hsame.symm ▸ .refl r
  | cons c chunks ih =>
    rw [List.map_cons, List.flatten_cons] at hspells ⊢
    obtain ⟨hfirst, hrest⟩ := spells_append.mp hspells
    have hroom : Room r c.line.text.length := by
      have hle := hlines c List.mem_cons_self
      rw [Room, hnread]
      omega
    have hread := reads_chunk hs hmarks hfirst hroom
    obtain ⟨n, hreads⟩ := ih (r := moved (told r [⟨.body, r.p + c.line.text.length, c.content.length,
      r.parser.method⟩]) c.text.length (sizing r.parser 0 .chunkSizeStart)) rfl hmarks rfl hrest
      fun c hc => hlines c (List.mem_cons_of_mem _ hc)
    refine ⟨n, ?_⟩
    have hboth := hread.trans hreads
    rw [List.length_append]
    simpa only [moved, told, sizing, chunkCalls, Nat.add_assoc, List.append_assoc, List.singleton_append]
      using hboth

end Chunks

def headed (parser : Parser) : Parser := { parser with
  state := .headersDone, nread := 0
  upgrade := (parser.flags.upgrade && parser.flags.connectionUpgrade) || parser.method = .connect }

/-- A run comes to the end of a message, where the loop goes on or, for an upgrade, stops. -/
def Completes (data : List Char) (r final : Run) : Prop :=
  ∃ s last, Reads data r s ∧ s.p < data.length ∧ final = { last with p := last.p + 1 } ∧
    pass data s = if last.parser.upgrade then .stop last (last.p + 1) else .next last

def done (parser : Parser) : Parser := { parser with state := newMessage parser }

/-- No body follows a head: the message is an upgrade, or the length is zero, or none is
stated where there is no body without one. -/
def NoBody (parser : Parser) : Prop :=
  parser.method = .connect ∨ (parser.flags.chunked = false ∧ (parser.contentLength = 0 ∨
    (parser.contentLength = ullongMax ∧ (parser.type = .httpRequest ∨ httpMessageNeedsEof parser = false))))

section Ends
variable {data : List Char} {r r₀ : Run}

theorem Completes.of_reads {r' final : Run} (h : Reads data r r') (h' : Completes data r' final) :
    Completes data r final := by
  obtain ⟨s, last, hreads, hrest⟩ := h'
  exact ⟨s, last, h.trans hreads, hrest⟩

/-- The first character of the line that ends a head. -/
theorem reads_headCr (h : Begins data r r₀) (hspells : Spells data r.p crlf) (hroom : Room r 1) :
    ∃ index headerState, Reads data r (went r₀ 1 { r₀.parser with
      index := index, headerState := headerState, state := .headersAlmostDone }) := by
  obtain ⟨index, headerState, hdispatch⟩ := h.dispatch
  obtain ⟨hp, hch, -⟩ := spells_cons.mp hspells
  exact ⟨index, headerState, reads_pass h.parsing hp hch hroom (hdispatch 1 '\r' (by decide))⟩

private theorem headersAlmostDone_trailing (htrailing : r.parser.flags.trailing = true) :
    headersAlmostDone r '\n' = messageDone (r.updateState .messageDone) := by
  have hlf : ¬ '\n' ≠ lf := fun h => h rfl
  simp only [headersAlmostDone, Run.strictCheck, if_neg hlf, htrailing, if_true]

private theorem headersAlmostDone_lf (htrailing : r.parser.flags.trailing = false) :
    headersAlmostDone r '\n' = headersDone (r.update { headed r.parser with nread := r.parser.nread }) '\n' := by
  have hlf : ¬ '\n' ≠ lf := fun h => h rfl
  simp only [headersAlmostDone, Run.strictCheck, if_neg hlf, htrailing]
  rfl

theorem headersDone_noBody (hskip : r.parser.flags.skipbody = false) (h : NoBody r.parser)
    (hupgrade : r.parser.method = .connect → r.parser.upgrade = true) :
    headersDone r '\n' =
      let last := r.update (done { r.parser with nread := 0 })
      if last.parser.upgrade then .stop last (last.p + 1) else .next last := by
  have hlf : ¬ '\n' ≠ lf := fun h => h rfl
  simp only [headersDone, Run.strictCheck, if_neg hlf, Run.update, Run.updateState, done]
  by_cases hup : r.parser.upgrade = true
  · have hnone : r.parser.method = .connect ∨ r.parser.flags.skipbody = true ∨
        (!(r.parser.flags.chunked || (decide (0 < r.parser.contentLength) &&
          decide (r.parser.contentLength ≠ ullongMax)))) = true := by
      rcases h with hconnect | ⟨hchunked, hzero | ⟨hmax, -⟩⟩
      · exact .inl hconnect
      · exact .inr (.inr (by simp [hchunked, hzero]))
      · exact .inr (.inr (by simp [hchunked, hmax]))
    exact (if_pos (And.intro hup hnone)).trans (if_pos hup).symm
  · rcases h with hconnect | ⟨hchunked, hlength⟩
    · exact absurd (hupgrade hconnect) hup
    · have hstop : ¬ (r.parser.upgrade = true ∧ (r.parser.method = .connect ∨ r.parser.flags.skipbody = true ∨
          (!(r.parser.flags.chunked || (decide (0 < r.parser.contentLength) &&
            decide (r.parser.contentLength ≠ ullongMax)))) = true)) := fun hboth => hup hboth.1
      refine (if_neg hstop).trans (Eq.trans ?_ (if_neg hup).symm)
      simp only [hskip, hchunked, Bool.false_eq_true, if_false]
      rcases hlength with hzero | ⟨hmax, hend⟩
      · exact if_pos hzero
      · have hne : ¬ r.parser.contentLength = 0 := by
          rw [hmax]
          decide
        have hend' : r.parser.type = .httpRequest ∨ (!httpMessageNeedsEof { r.parser with nread := 0 }) = true := by
          rcases hend with htype | heof
          · exact .inl htype
          · exact .inr (by rw [Bool.not_eq_true']; exact heof)
        exact (if_neg hne).trans ((if_neg (not_not.mpr hmax)).trans (if_pos hend'))

/-- Where a body follows, what the last character of a head leads to. -/
theorem headersDone_body {s : State} (hskip : r.parser.flags.skipbody = false) (hconnect : r.parser.method ≠ .connect)
    (hbody : (r.parser.flags.chunked = true ∧ s = .chunkSizeStart) ∨
      (r.parser.flags.chunked = false ∧ r.parser.contentLength ≠ 0 ∧ r.parser.contentLength ≠ ullongMax ∧
        s = .bodyIdentity)) :
    headersDone r '\n' = .next (r.update { r.parser with nread := 0, state := s }) := by
  have hlf : ¬ '\n' ≠ lf := fun h => h rfl
  have hstop : ¬ (r.parser.upgrade = true ∧ (r.parser.method = .connect ∨ r.parser.flags.skipbody = true ∨
      (!(r.parser.flags.chunked || (decide (0 < r.parser.contentLength) &&
        decide (r.parser.contentLength ≠ ullongMax)))) = true)) := by
    rintro ⟨-, hm | hs | hnone⟩
    · exact hconnect hm
    · rw [hskip] at hs
      cases hs
    · rcases hbody with ⟨hchunked, -⟩ | ⟨-, hzero, hmax, -⟩
      · simp [hchunked] at hnone
      · simp [hmax, Nat.pos_of_ne_zero hzero] at hnone
  have hskip' : ¬ r.parser.flags.skipbody = true := by
    rw [hskip]
    exact Bool.false_ne_true
  simp only [headersDone, Run.strictCheck, if_neg hlf, Run.update, Run.updateState]
  refine (if_neg hstop).trans ((if_neg hskip').trans ?_)
  rcases hbody with ⟨hchunked, rfl⟩ | ⟨hchunked, hzero, hmax, rfl⟩
  · exact if_pos hchunked
  · have hchunked' : ¬ r.parser.flags.chunked = true := by
      rw [hchunked]
      exact Bool.false_ne_true
    exact (if_neg hchunked').trans ((if_neg hzero).trans (if_pos hmax))

/-- The last character of a head or a trailer. -/
theorem pass_headersAlmostDone (hs : r.parser.state = .headersAlmostDone) (hch : charAt data r.p = '\n')
    (hroom : Room r 1) : pass data r = headersAlmostDone (counted r 1) '\n' := by
  have hparsing : r.parser.state.parsingHeader = true := by
    rw [hs]
    rfl
  have hstate : (counted r 1).parser.state = .headersAlmostDone := hs
  rw [HttpParser.pass, if_pos hparsing, countHeaderSize_of_room hroom, hch]
  simp only [dispatch, hstate]

/-- The line that ends a head leads to its end. -/
theorem reads_headEnd (h : Begins data r r₀) (htrailing : r₀.parser.flags.trailing = false)
    (hspells : Spells data r.p crlf) (hroom : Room r 2) :
    ∃ index headerState s, Reads data r s ∧ s.p < data.length ∧
      pass data s = headersDone { r₀ with
        p := r₀.p + 1
        parser := { headed r₀.parser with
          index := index, headerState := headerState, nread := r₀.parser.nread + 2 } } '\n' := by
  obtain ⟨index, headerState, hcr⟩ := reads_headCr h hspells (hroom.of_le (by omega))
  obtain ⟨-, -, hrest⟩ := spells_cons.mp hspells
  obtain ⟨hp, hch, -⟩ := spells_cons.mp hrest
  rw [h.p] at hp hch
  have hroom' : Room (went r₀ 1 { r₀.parser with
      index := index, headerState := headerState, state := .headersAlmostDone }) 1 := by
    simp only [Room, went, h.nread] at hroom ⊢
    omega
  exact ⟨index, headerState, _, hcr, hp, (@pass_headersAlmostDone data (went r₀ 1 _) rfl hch hroom').trans
    (headersAlmostDone_lf htrailing)⟩

/-- A head without a body is a message. -/
theorem completes_noBody (h : Begins data r r₀) (htrailing : r₀.parser.flags.trailing = false)
    (hskip : r₀.parser.flags.skipbody = false) (hno : NoBody r₀.parser) (hspells : Spells data r.p crlf)
    (hroom : Room r 2) :
    ∃ index headerState, Completes data r { r₀ with
      p := r₀.p + 2
      parser := done { headed r₀.parser with index := index, headerState := headerState } } := by
  obtain ⟨index, headerState, s, hreads, hp, hpass⟩ := reads_headEnd h htrailing hspells hroom
  refine ⟨index, headerState, s, _, hreads, hp, ?_, hpass.trans (headersDone_noBody hskip hno ?_)⟩
  · rfl
  · intro hconnect
    simp only [headed] at hconnect ⊢
    simp [hconnect]

/-- A head before a body. -/
theorem reads_head {s : State} (h : Begins data r r₀) (htrailing : r₀.parser.flags.trailing = false)
    (hskip : r₀.parser.flags.skipbody = false) (hconnect : r₀.parser.method ≠ .connect)
    (hbody : (r₀.parser.flags.chunked = true ∧ s = .chunkSizeStart) ∨
      (r₀.parser.flags.chunked = false ∧ r₀.parser.contentLength ≠ 0 ∧ r₀.parser.contentLength ≠ ullongMax ∧
        s = .bodyIdentity)) (hspells : Spells data r.p crlf) (hroom : Room r 2) :
    ∃ index headerState, Reads data r (moved r₀ 2 { headed r₀.parser with
      index := index, headerState := headerState, state := s }) := by
  obtain ⟨index, headerState, s, hreads, hp, hpass⟩ := reads_headEnd h htrailing hspells hroom
  have hnext := hpass.trans (headersDone_body hskip hconnect hbody)
  exact ⟨index, headerState, hreads.trans (.single hp (body_of_next hnext))⟩

theorem messageDone_eq (r : Run) : messageDone r =
    let last := r.update (done r.parser)
    if last.parser.upgrade then .stop last (last.p + 1) else .next last := rfl

/-- The line behind the trailer of a message in chunks ends the message. -/
theorem completes_trailer (h : Begins data r r₀) (htrailing : r₀.parser.flags.trailing = true)
    (hspells : Spells data r.p crlf) (hroom : Room r 2) :
    ∃ index headerState, Completes data r { r₀ with
      p := r₀.p + 2
      parser := done { r₀.parser with
        index := index, headerState := headerState, nread := r₀.parser.nread + 2, state := .messageDone } } := by
  obtain ⟨index, headerState, hcr⟩ := reads_headCr h hspells (hroom.of_le (by omega))
  obtain ⟨-, -, hrest⟩ := spells_cons.mp hspells
  obtain ⟨hp, hch, -⟩ := spells_cons.mp hrest
  rw [h.p] at hp hch
  have hroom' : Room (went r₀ 1 { r₀.parser with
      index := index, headerState := headerState, state := .headersAlmostDone }) 1 := by
    simp only [Room, went, h.nread] at hroom ⊢
    omega
  have hpass := @pass_headersAlmostDone data (went r₀ 1 _) rfl hch hroom'
  rw [headersAlmostDone_trailing, messageDone_eq] at hpass
  · refine ⟨index, headerState, _, _, hcr, hp, ?_, hpass⟩
    rfl
  · exact htrailing

section Identity
variable {content : List Char} (hs : r.parser.state = .bodyIdentity) (hmarks : r.marks = only none)
  (hp : r.p < data.length)
include hs hmarks hp

/-- A body whose length was stated ends its message. -/
theorem completes_identity (hspells : Spells data r.p content) (hne : content ≠ [])
    (hlength : r.parser.contentLength = content.length) :
    Completes data r { told r [⟨.body, r.p, content.length, r.parser.method⟩] with
      p := r.p + content.length
      parser := done { r.parser with contentLength := 0, state := .messageDone } } := by
  have hle := hspells.le hp.le
  have hpos := List.length_pos_iff.mpr hne
  have hmin : min content.length (data.length - r.p) = content.length := Nat.min_eq_left (by omega)
  have hsucc : r.p + content.length - 1 + 1 = r.p + content.length := by omega
  have hlen : r.p + content.length - r.p = content.length := Nat.add_sub_cancel_left _ _
  have hpass : pass data r = messageDone { told r [⟨.body, r.p, content.length, r.parser.method⟩] with
      p := r.p + content.length - 1
      parser := { r.parser with contentLength := 0, state := .messageDone } } := by
    have hparsing : r.parser.state.parsingHeader = false := by
      rw [hs]
      rfl
    rw [HttpParser.pass, hparsing]
    simp only [Bool.false_eq_true, if_false, dispatch, hs, bodyIdentity, hlength, hmin, mark_of_closed hmarks,
      Nat.sub_self, if_true, hsucc, Run.updateState, Run.update]
    rw [@callbackTo_of_open _ .body r.p]
    · simp only [hlen, told, hmarks]
    · rfl
  refine ⟨r, _, .refl r, hp, ?_, hpass.trans (messageDone_eq _)⟩
  simp only [Run.update, hsucc]

end Identity

/-- The lines of a body in chunks and its trailer are within the largest header size. -/
structure ShortChunks (body : ChunkedBody maxChunk) : Prop where
  chunks : ∀ c ∈ body.chunks, c.line.text.length ≤ httpMaxHeaderSize
  last : body.last.text.length ≤ httpMaxHeaderSize
  trailer : (fieldLines body.trailer ++ crlf).length ≤ httpMaxHeaderSize

def trailing (parser : Parser) : Parser := { sizing parser 0 .headerFieldStart with
  flags := { parser.flags with trailing := true } }

def chunksLength (body : ChunkedBody maxChunk) : ℕ :=
  (body.chunks.map Chunk.text).flatten.length + body.last.text.length

def chunkedCalls (m : Method) (body : ChunkedBody maxChunk) (p : ℕ) : List Callback :=
  chunkCalls m body.chunks p ++ fieldsCalls m body.trailer (p + chunksLength body)

section Bodies
variable {body : ChunkedBody maxChunk} (hs : r.parser.state = .chunkSizeStart) (hmarks : r.marks = only none)
  (hnread : r.parser.nread = 0) (hshort : ShortChunks body)
include hs hmarks hnread hshort

theorem reads_allChunks (hspells : Spells data r.p body.text) :
    Reads data r (moved (told r (chunkCalls r.parser.method body.chunks r.p)) (chunksLength body)
      (trailing r.parser)) := by
  obtain ⟨hspells₁, hrest⟩ := spells_append.mp hspells
  obtain ⟨hspells₂, -⟩ := spells_append.mp hrest
  obtain ⟨n, hchunks⟩ := reads_chunks hs hmarks hnread hspells₁ hshort.chunks
  have hlast := reads_chunkLine (r := moved (told r (chunkCalls r.parser.method body.chunks r.p)) _
    (sizing r.parser n .chunkSizeStart)) rfl body.last hspells₂ (by
      rw [Room]
      exact (Nat.zero_add _).symm ▸ hshort.last)
  have hread := hchunks.trans hlast
  rw [body.last_zero, moved_moved] at hread
  exact hread

/-- A body in chunks, with its trailer, ends its message. -/
theorem completes_chunkedBody (hsized : ∀ f ∈ body.trailer, f.Sized (ullongMax - 6))
    (hspells : Spells data r.p body.text) :
    ∃ flags length index headerState, FlagsAfter body.trailer { r.parser.flags with trailing := true } flags ∧
      Completes data r { told r (chunkedCalls r.parser.method body r.p) with
        p := r.p + body.text.length
        parser := done { between r.parser flags length with
          index := index, headerState := headerState, nread := (fieldLines body.trailer ++ crlf).length
          state := .messageDone } } := by
  have hchunks := reads_allChunks hs hmarks hnread hshort hspells
  obtain ⟨-, hrest⟩ := spells_append.mp hspells
  obtain ⟨-, hrest⟩ := spells_append.mp hrest
  obtain ⟨hspells₁, hspells₂⟩ := spells_append.mp hrest
  have hlength : (fieldLines body.trailer ++ crlf).length = (fieldLines body.trailer).length + 2 :=
    List.length_append
  have htrailer := hshort.trailer
  rw [hlength] at htrailer
  rw [Nat.add_assoc r.p] at hspells₁ hspells₂
  have hbegins := @begins_headerFieldStart data (moved (told r (chunkCalls r.parser.method body.chunks r.p))
    (chunksLength body) (trailing r.parser)) rfl hmarks
  obtain ⟨r', flags, hreads, hflags, hbegins'⟩ := reads_fields hsized hbegins rfl hspells₁ (by
    simp only [Room, moved]
    omega)
  have hp := hbegins'.p
  have hnread := hbegins'.nread
  simp only [told, went, moved, Nat.zero_add] at hp hnread
  obtain ⟨index, headerState, hcompletes⟩ := completes_trailer hbegins' hflags.trailing (hp ▸ hspells₂) (by
    rw [Room, hnread]
    exact htrailer)
  have hbody : body.text.length = chunksLength body + ((fieldLines body.trailer).length + 2) := by
    simp only [ChunkedBody.text, chunksLength, List.length_append, hlength, Nat.add_assoc]
  have hfinal := (hcompletes.of_reads hreads).of_reads hchunks
  refine ⟨flags, (statedLength body.trailer).getD 0, index, headerState, hflags, ?_⟩
  rw [hbody, hlength]
  simpa only [told, went, moved, trailing, sizing, between, chunkedCalls, Nat.zero_add, Nat.add_assoc,
    List.append_assoc] using hfinal

end Bodies
end Ends
end OpenSniffer.HttpBodies
