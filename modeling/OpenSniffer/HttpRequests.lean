import OpenSniffer.HttpBodies

/-!
# Requests

A request that is written down as the grammar has it is read back: the parser finds no
error and calls back for the target, for each field and its value and for each part of the
body, at their places and in their order.
-/
namespace OpenSniffer.HttpRequests
open HttpGrammar HttpParserState HttpParser HttpOpenings HttpRuns HttpInvariants HttpCharacters
open HttpReading HttpFieldLines HttpFieldEffects HttpBodies ScanLoops

inductive Body where
  | none
  | sized (content : List Char)
  | chunked (body : ChunkedBody maxChunk)

def Body.text : Body → List Char
  | .none => []
  | .sized content => content
  | .chunked body => body.text

/-- The fields of a request say that this body follows. -/
def Frames (method : Method) (fields : List Field) : Body → Prop
  | .none => method = .connect ∨ (fields.any Field.isChunked = false ∧ (statedLength fields).getD 0 = 0)
  | .sized content => method ≠ .connect ∧ fields.any Field.isChunked = false ∧
      statedLength fields = some content.length ∧ content ≠ []
  | .chunked body => method ≠ .connect ∧ fields.any Field.isChunked = true ∧
      ∀ f ∈ body.trailer, f.Sized (ullongMax - 6)

instance (method : Method) (fields : List Field) : (body : Body) → Decidable (Frames method fields body)
  | .none => inferInstanceAs (Decidable (_ ∨ _))
  | .sized _ => inferInstanceAs (Decidable (_ ∧ _))
  | .chunked _ => inferInstanceAs (Decidable (_ ∧ _))

structure Request where
  method : Method
  target : List Char
  version : Version
  fields : List Field
  body : Body
  target_read : ReadsUrl method target
  major_lead : ∀ c ∈ version.major.text.head?, c ≠ '0'
  fields_sized : ∀ f ∈ fields, f.Sized (ullongMax - 6)
  body_framed : Frames method fields body

namespace Request

def line (q : Request) : List Char :=
  methodStrings q.method ++ ([' '] ++ ((q.target ++ [' ']) ++ (q.version.text ++ crlf)))

def head (q : Request) : List Char := q.line ++ (fieldLines q.fields ++ crlf)

def text (q : Request) : List Char := q.head ++ q.body.text

def allFields (q : Request) : List Field :=
  match q.body with
  | .chunked body => q.fields ++ body.trailer
  | _ => q.fields

/-- What the parser has counted for the next message. -/
def left (q : Request) : ℕ :=
  match q.body with
  | .chunked body => (fieldLines body.trailer ++ crlf).length
  | _ => 0

end Request

/-- The lines of a body are within the largest header size. -/
def ShortLines : Body → Prop
  | .chunked body => ShortChunks body
  | _ => True

def requested (parser : Parser) (q : Request) : Parser :=
  { requesting parser q.method ((methodStrings q.method).length + 1) .headerFieldStart with
    httpMajor := numeral 10 q.version.major.text, httpMinor := numeral 10 q.version.minor.text }

def targetCall (q : Request) (p : ℕ) : Callback :=
  ⟨.url, p + ((methodStrings q.method).length + 1), q.target.length, q.method⟩

section Lines
variable {data : List Char} {r : Run} {q : Request}

theorem reads_requestLine (h : MayRequest r.parser) (hmarks : r.marks = only none)
    (hspells : Spells data r.p q.line) (hroom : Room r q.line.length) :
    Reads data r (told (went r q.line.length (requested r.parser q)) [targetCall q r.p]) := by
  have hlength : q.line.length = (methodStrings q.method).length + 1 +
      (q.target.length + 1 + (q.version.text ++ crlf).length) := by
    simp only [Request.line, List.length_append, List.length_singleton]
    omega
  rw [Request.line, ← List.append_assoc] at hspells
  obtain ⟨hspells₁, hspells₂⟩ := spells_append.mp hspells
  obtain ⟨hspells₂, hspells₃⟩ := spells_append.mp hspells₂
  rw [List.length_append, List.length_singleton] at hspells₂ hspells₃
  rw [List.length_append, List.length_singleton] at hspells₃
  rw [hlength] at hroom ⊢
  have hmethod := ((@course_methodStrings data _ h q.method).append
    (.single (steps_methodEnd r.parser q.method))).reads (r := r) rfl hspells₁ (by
      rw [List.length_append, List.length_singleton]
      exact hroom.of_le (Nat.le_add_right _ _))
  rw [List.length_append, List.length_singleton] at hmethod
  have hroom₁ := hroom.went (requesting r.parser q.method ((methodStrings q.method).length + 1) .reqSpacesBeforeUrl)
  have htarget := reads_target (r := went r _ (requesting r.parser q.method
    ((methodStrings q.method).length + 1) .reqSpacesBeforeUrl)) rfl hmarks q.target_read hspells₂
    (hroom₁.of_le (Nat.le_add_right _ _))
  have hversion := (@course_requestVersion data (requesting r.parser q.method
    ((methodStrings q.method).length + 1) .reqHttpStart) q.version q.major_lead).reads
      (r := told (went (went r _ (requesting r.parser q.method ((methodStrings q.method).length + 1)
        .reqSpacesBeforeUrl)) (q.target.length + 1) (requesting r.parser q.method
          ((methodStrings q.method).length + 1) .reqHttpStart)) [targetCall q r.p])
      rfl (by
        rw [← Nat.add_assoc] at hspells₃
        exact hspells₃) (hroom₁.went _)
  have hread := (hmethod.trans htarget).trans hversion
  simpa only [told, went, requested, requesting, Nat.add_assoc] using hread

/-- The head of a request is read to the line that ends it. -/
theorem reads_requestHead (h : MayRequest r.parser) (hmarks : r.marks = only none)
    (hspells : Spells data r.p q.head) (hroom : Room r q.head.length) :
    ∃ r' flags, Reads data r r' ∧ FlagsAfter q.fields Flags.zero flags ∧
      Begins data r' (told (went r (q.line.length + (fieldLines q.fields).length)
        (between (requested r.parser q) flags ((statedLength q.fields).getD ullongMax)))
          (targetCall q r.p :: fieldsCalls q.method q.fields (r.p + q.line.length))) ∧
      Spells data r'.p crlf ∧ Room r' 2 := by
  have hlength : q.head.length = q.line.length + ((fieldLines q.fields).length + 2) := by
    rw [Request.head, List.length_append, List.length_append]
    rfl
  rw [hlength] at hroom
  obtain ⟨hline, hrest⟩ := spells_append.mp hspells
  obtain ⟨hfields, hcrlf⟩ := spells_append.mp hrest
  have hread := reads_requestLine h hmarks hline (hroom.of_le (Nat.le_add_right _ _))
  have hroom₁ := hroom.went (requested r.parser q)
  obtain ⟨r', flags, hreads, hflags, hbegins⟩ := @reads_fields data _ q.fields_sized _ _
    (begins_headerFieldStart (r := told (went r q.line.length (requested r.parser q)) [targetCall q r.p])
      rfl hmarks) rfl hfields (hroom₁.of_le (Nat.le_add_right _ _))
  have hbegins' : Begins data r' (told (went r (q.line.length + (fieldLines q.fields).length)
      (between (requested r.parser q) flags ((statedLength q.fields).getD ullongMax)))
        (targetCall q r.p :: fieldsCalls q.method q.fields (r.p + q.line.length))) := by
    simpa only [told, went, between, requested, requesting, Nat.add_assoc, List.append_assoc,
      List.singleton_append] using hbegins
  refine ⟨r', flags, hread.trans hreads, hflags, hbegins', ?_, ?_⟩
  · have hp := hbegins'.p
    simp only [told, went, ← Nat.add_assoc] at hp
    rw [hp]
    exact hcrlf
  · have hnread := hbegins'.nread
    simp only [told, went] at hnread
    simp only [Room, hnread] at hroom ⊢
    omega

end Lines

def bodyCalls (m : Method) (p : ℕ) : Body → List Callback
  | .none => []
  | .sized content => [⟨.body, p, content.length, m⟩]
  | .chunked body => chunkedCalls m body p

def requestCalls (q : Request) (p : ℕ) : List Callback :=
  targetCall q p :: fieldsCalls q.method q.fields (p + q.line.length) ++
    bodyCalls q.method (p + q.head.length) q.body

/-- The run behind a request. -/
structure Finished (q : Request) (r final : Run) : Prop where
  p : final.p = r.p + q.text.length
  marks : final.marks = only none
  calls : final.calls = r.calls ++ requestCalls q r.p
  httpErrno : final.parser.httpErrno = r.parser.httpErrno
  type : final.parser.type = .httpRequest
  nread : final.parser.nread = q.left
  httpMajor : final.parser.httpMajor = numeral 10 q.version.major.text
  httpMinor : final.parser.httpMinor = numeral 10 q.version.minor.text
  state : final.parser.state = newMessage final.parser
  close : q.allFields.any Field.namesConnection = false → final.parser.flags.connectionClose = false
  upgrade : q.fields.any (Field.named · "upgrade") = false →
    final.parser.upgrade = decide (q.method = .connect)

section Whole
variable {data : List Char} {r r' : Run} {q : Request} {flags : Flags}

def fieldsRead (q : Request) (r : Run) (flags : Flags) : Run :=
  told (went r (q.line.length + (fieldLines q.fields).length)
    (between (requested r.parser q) flags ((statedLength q.fields).getD ullongMax)))
      (targetCall q r.p :: fieldsCalls q.method q.fields (r.p + q.line.length))

theorem length_head (q : Request) : q.head.length = q.line.length + (fieldLines q.fields).length + 2 := by
  rw [Request.head, List.length_append, List.length_append, ← Nat.add_assoc]
  rfl

section Kinds
variable (hmarks : r.marks = only none) (hflags : FlagsAfter q.fields Flags.zero flags)
  (hbegins : Begins data r' (fieldsRead q r flags)) (hcrlf : Spells data r'.p crlf) (hroom : Room r' 2)
include hmarks hflags hbegins hcrlf hroom

theorem completes_none (hbody : q.body = .none) :
    ∃ final, Completes data r' final ∧ Finished q r final := by
  have hframed := q.body_framed
  rw [hbody] at hframed
  have hno : NoBody (fieldsRead q r flags).parser := by
    rcases hframed with hconnect | ⟨hchunked, hzero⟩
    · exact .inl hconnect
    · refine .inr ⟨hflags.chunked.trans hchunked, ?_⟩
      simp only [fieldsRead, told, went, between]
      cases hstated : statedLength q.fields with
      | none => exact .inr ⟨rfl, .inl rfl⟩
      | some n =>
        rw [hstated] at hzero
        exact .inl hzero
  obtain ⟨index, headerState, hcompletes⟩ :=
    completes_noBody hbegins hflags.trailing hflags.skipbody hno hcrlf hroom
  have htext : q.text.length = q.line.length + (fieldLines q.fields).length + 2 := by
    rw [Request.text, hbody, Body.text, List.append_nil, length_head]
  refine ⟨_, hcompletes, ?_, hmarks, ?_, rfl, rfl, ?_, rfl, rfl, rfl, ?_, ?_⟩
  · rw [htext]
    exact Nat.add_assoc _ _ _
  · rw [requestCalls, hbody, bodyCalls, List.append_nil]
    rfl
  · rw [Request.left, hbody]
    rfl
  · rw [Request.allFields, hbody]
    exact hflags.close
  · intro hnone
    have hup := hflags.upgrade hnone
    simp only [done, headed, fieldsRead, told, went, between, hup]
    rfl

theorem completes_sized {content : List Char} (hbody : q.body = .sized content)
    (hcontent : Spells data (r.p + q.head.length) content) (hp : r.p + q.head.length < data.length) :
    ∃ final, Completes data r' final ∧ Finished q r final := by
  have hframed := q.body_framed
  rw [hbody] at hframed
  obtain ⟨hconnect, hchunked, hstated, hne⟩ := hframed
  have hlength : (fieldsRead q r flags).parser.contentLength = content.length := by
    simp only [fieldsRead, told, went, between, hstated, Option.getD_some]
  have hmax : content.length ≠ ullongMax := by
    have hle := statedLength_le q.fields_sized hstated
    intro heq
    rw [heq] at hle
    exact absurd hle (by decide)
  have hzero : content.length ≠ 0 := fun hzero => hne (List.length_eq_zero_iff.mp hzero)
  obtain ⟨index, headerState, hhead⟩ := reads_head (s := .bodyIdentity) hbegins hflags.trailing hflags.skipbody
    hconnect (.inr ⟨hflags.chunked.trans hchunked, by rwa [hlength], by rwa [hlength], rfl⟩) hcrlf hroom
  have hp' : (fieldsRead q r flags).p + 2 = r.p + q.head.length := by
    rw [length_head]
    exact Nat.add_assoc _ _ _
  rw [← hp'] at hcontent hp
  have hidentity := completes_identity (r := moved (fieldsRead q r flags) 2 { headed (fieldsRead q r flags).parser with
    index := index, headerState := headerState, state := .bodyIdentity }) rfl hmarks hp hcontent
    hne hlength
  have htext : q.text.length = q.head.length + content.length := by
    rw [Request.text, hbody, Body.text, List.length_append]
  refine ⟨_, hidentity.of_reads hhead, ?_, hmarks, ?_, rfl, rfl, ?_, rfl, rfl, rfl, ?_, ?_⟩
  · rw [htext, ← Nat.add_assoc, ← hp']
    rfl
  · rw [requestCalls, hbody, bodyCalls, ← hp', ← List.append_assoc]
    rfl
  · rw [Request.left, hbody]
    rfl
  · rw [Request.allFields, hbody]
    exact hflags.close
  · intro hnone
    have hup := hflags.upgrade hnone
    simp only [done, moved, told, headed, fieldsRead, went, between, hup]
    rfl

theorem completes_chunked {body : ChunkedBody maxChunk} (hbody : q.body = .chunked body)
    (hcontent : Spells data (r.p + q.head.length) body.text) (hshort : ShortChunks body) :
    ∃ final, Completes data r' final ∧ Finished q r final := by
  have hframed := q.body_framed
  rw [hbody] at hframed
  obtain ⟨hconnect, hchunked, hsized⟩ := hframed
  obtain ⟨index, headerState, hhead⟩ := reads_head (s := .chunkSizeStart) hbegins hflags.trailing hflags.skipbody
    hconnect (.inl ⟨hflags.chunked.trans hchunked, rfl⟩) hcrlf hroom
  have hp' : (fieldsRead q r flags).p + 2 = r.p + q.head.length := by
    rw [length_head]
    exact Nat.add_assoc _ _ _
  rw [← hp'] at hcontent
  obtain ⟨flags', length, index', headerState', hflags', hbody'⟩ := completes_chunkedBody
    (r := moved (fieldsRead q r flags) 2 { headed (fieldsRead q r flags).parser with
      index := index, headerState := headerState, state := .chunkSizeStart }) rfl hmarks rfl hshort hsized hcontent
  have htext : q.text.length = q.head.length + body.text.length := by
    rw [Request.text, hbody, Body.text, List.length_append]
  refine ⟨_, hbody'.of_reads hhead, ?_, hmarks, ?_, rfl, rfl, ?_, rfl, rfl, rfl, ?_, ?_⟩
  · rw [htext, ← Nat.add_assoc, ← hp']
    rfl
  · rw [requestCalls, hbody, bodyCalls, ← hp', ← List.append_assoc]
    rfl
  · rw [Request.left, hbody]
    rfl
  · rw [Request.allFields, hbody, List.any_append, Bool.or_eq_false_iff]
    intro hnone
    exact (hflags'.close hnone.2).trans (hflags.close hnone.1)
  · intro hnone
    have hup := hflags.upgrade hnone
    simp only [done, moved, told, headed, fieldsRead, went, between, hup]
    rfl

end Kinds

/-- A request is read to its end. -/
theorem completes_request (h : MayRequest r.parser) (hmarks : r.marks = only none)
    (hspells : Spells data r.p q.text) (hroom : Room r q.head.length) (hshort : ShortLines q.body) :
    ∃ final, Completes data r final ∧ Finished q r final := by
  obtain ⟨hhead, hbody⟩ := spells_append.mp hspells
  obtain ⟨r', flags, hreads, hflags, hbegins, hcrlf, hroom'⟩ := reads_requestHead h hmarks hhead hroom
  have hfinal : ∃ final, Completes data r' final ∧ Finished q r final := by
    cases hkind : q.body with
    | none => exact completes_none hmarks hflags hbegins hcrlf hroom' hkind
    | sized content =>
      have hframed := q.body_framed
      rw [hkind] at hframed hbody
      obtain ⟨c, text, hcons⟩ := List.exists_cons_of_ne_nil hframed.2.2.2
      have hp : r.p + q.head.length < data.length := by
        rw [hcons] at hbody
        exact (spells_cons.mp hbody).1
      exact completes_sized hmarks hflags hbegins hcrlf hroom' hkind hbody hp
    | chunked body =>
      rw [hkind] at hshort hbody
      exact completes_chunked hmarks hflags hbegins hcrlf hroom' hkind hbody hshort
  obtain ⟨final, hcompletes, hfinished⟩ := hfinal
  exact ⟨final, hcompletes.of_reads hreads, hfinished⟩

end Whole
end OpenSniffer.HttpRequests
