import OpenSniffer.HttpDissector
import OpenSniffer.HttpPipelines

/-!
# What the HTTP dump shows of requests

A packet of a session that holds requests one behind the other is handled. Its dump shows
for each request the method and the target, each field with its value, and the size of each
part of the body.
-/
namespace OpenSniffer.HttpDisplay
open Packets OsiStack TextFormats HttpDissector TracedReads
open HttpGrammar HttpParserState HttpParser HttpOpenings HttpRuns HttpInvariants HttpAssertions
open HttpReading HttpFieldLines HttpFieldEffects HttpBodies HttpRequests HttpPipelines

def toBytes (text : List Char) : Bytes := text.map fun c => UInt8.ofNat c.toNat

private theorem toBytes_characters (bytes : Bytes) : toBytes (characters bytes) = bytes := by
  rw [toBytes, characters, List.map_map]
  conv_rhs => rw [← List.map_id bytes]
  apply List.map_congr_left
  intro b _
  simp only [Function.comp_apply, toNat_ofNat_toNat]
  exact UInt8.ofNat_toNat

/-- Where the characters have a text, the bytes are those of the text. -/
theorem bytes_of_spells {bytes : Bytes} {p : ℕ} {text : List Char} (h : Spells (characters bytes) p text) :
    (bytes.drop p).take text.length = toBytes text := by
  have htake : characters ((bytes.drop p).take text.length) = text := by
    have htake := h.take
    rwa [characters, ← List.map_drop, ← List.map_take] at htake
  conv_rhs => rw [← htake]
  exact (toBytes_characters _).symm

def shown (text : List Char) : Arg := .str (some (cString (toBytes text)))

def targetLine (m : Method) (target : List Char) : Line :=
  .printf "%s %.*s\n" [.text (httpMethodFromId m), shown target]

def fieldPrints (f : Field) : List Line :=
  [.printf "%.*s: " [shown f.name], .printf "%.*s\n" [shown f.value]]

def sizeLine (n : ℕ) : Line := .printf "Body size : %zu\n" [.int n]

def bodyPrints : Body → List Line
  | .none => []
  | .sized content => [sizeLine content.length]
  | .chunked body => body.chunks.map (fun c => sizeLine c.content.length) ++ body.trailer.flatMap fieldPrints

def requestPrints (q : Request) : List Line :=
  targetLine q.method q.target :: q.fields.flatMap fieldPrints ++ bodyPrints q.body

section Prints
variable {bytes : Bytes} {p : ℕ} (m : Method)

private theorem onPiece_url {text : List Char} (h : Spells (characters bytes) p text) :
    onPiece bytes ⟨.url, p, text.length, m⟩ = targetLine m text := by
  simp only [onPiece, targetLine, shown, bytes_of_spells h]

private theorem onPiece_headerField {text : List Char} (h : Spells (characters bytes) p text) :
    onPiece bytes ⟨.headerField, p, text.length, m⟩ = .printf "%.*s: " [shown text] := by
  simp only [onPiece, shown, bytes_of_spells h]

private theorem onPiece_headerValue {text : List Char} (h : Spells (characters bytes) p text) :
    onPiece bytes ⟨.headerValue, p, text.length, m⟩ = .printf "%.*s\n" [shown text] := by
  simp only [onPiece, shown, bytes_of_spells h]

private theorem onPiece_body (n : ℕ) : onPiece bytes ⟨.body, p, n, m⟩ = sizeLine n := rfl

theorem spells_value {f : Field} (h : Spells (characters bytes) p f.line) :
    Spells (characters bytes) (valuePosition f.space f.value (p + (f.name.length + 1))) f.value := by
  by_cases hvalue : f.value = []
  · rw [hvalue]
    exact List.nil_prefix
  · have hline : f.line = (f.name ++ [':']) ++ (f.space ++ (f.value ++ crlf)) := by simp [Field.line]
    rw [hline] at h
    obtain ⟨-, hrest⟩ := spells_append.mp h
    obtain ⟨-, hrest⟩ := spells_append.mp hrest
    obtain ⟨hrest, -⟩ := spells_append.mp hrest
    rw [List.length_append, List.length_singleton] at hrest
    rw [valuePosition, if_neg hvalue]
    exact hrest

private theorem prints_field {f : Field} (h : Spells (characters bytes) p f.line) :
    (fieldCalls m f p).map (onPiece bytes) = fieldPrints f := by
  have hname : Spells (characters bytes) p f.name := by
    have hline : f.line = f.name ++ (':' :: f.space ++ (f.value ++ crlf)) := by simp [Field.line]
    rw [hline] at h
    exact (spells_append.mp h).1
  rw [fieldCalls, List.map_cons, List.map_cons, List.map_nil, onPiece_headerField m hname,
    onPiece_headerValue m (spells_value h), fieldPrints]

theorem prints_fields {fields : List Field} (h : Spells (characters bytes) p (fieldLines fields)) :
    (fieldsCalls m fields p).map (onPiece bytes) = fields.flatMap fieldPrints := by
  induction fields generalizing p with
  | nil => rfl
  | cons f fields ih =>
    obtain ⟨hline, hlines⟩ := spells_append.mp h
    rw [fieldsCalls, List.map_append, prints_field m hline, ih hlines, List.flatMap_cons]

private theorem prints_chunks (chunks : List (Chunk maxChunk)) :
    (chunkCalls m chunks p).map (onPiece bytes) = chunks.map fun c => sizeLine c.content.length := by
  induction chunks generalizing p with
  | nil => rfl
  | cons c chunks ih => rw [chunkCalls, List.map_cons, List.map_cons, onPiece_body, ih]

private theorem prints_body {body : Body} (h : Spells (characters bytes) p body.text) :
    (bodyCalls m p body).map (onPiece bytes) = bodyPrints body := by
  cases body with
  | none => rfl
  | sized content => rfl
  | chunked body =>
    obtain ⟨-, hrest⟩ := spells_append.mp h
    obtain ⟨-, hrest⟩ := spells_append.mp hrest
    obtain ⟨htrailer, -⟩ := spells_append.mp hrest
    rw [Nat.add_assoc] at htrailer
    rw [bodyCalls, chunkedCalls, List.map_append, prints_chunks, bodyPrints]
    exact congrArg _ (prints_fields m htrailer)

end Prints

section Requests
variable {bytes : Bytes} {p : ℕ}

private theorem prints_request {q : Request} (h : Spells (characters bytes) p q.text) :
    (requestCalls q p).map (onPiece bytes) = requestPrints q := by
  obtain ⟨hhead, hbody⟩ := spells_append.mp h
  obtain ⟨hline, hrest⟩ := spells_append.mp hhead
  obtain ⟨hfields, -⟩ := spells_append.mp hrest
  have htarget : Spells (characters bytes) (p + ((methodStrings q.method).length + 1)) q.target := by
    obtain ⟨-, hrest⟩ := spells_append.mp hline
    obtain ⟨-, hrest⟩ := spells_append.mp hrest
    obtain ⟨hrest, -⟩ := spells_append.mp hrest
    obtain ⟨hrest, -⟩ := spells_append.mp hrest
    rw [List.length_singleton, Nat.add_assoc] at hrest
    exact hrest
  rw [requestCalls, List.map_append, List.map_cons, targetCall, onPiece_url q.method htarget,
    prints_fields q.method hfields, prints_body q.method hbody, requestPrints]

private theorem prints_requests {qs : List Request} (h : Spells (characters bytes) p (pipelineText qs)) :
    (pipelineCalls p qs).map (onPiece bytes) = qs.flatMap requestPrints := by
  induction qs generalizing p with
  | nil => rfl
  | cons q qs ih =>
    rw [pipelineText_cons] at h
    obtain ⟨hq, hqs⟩ := spells_append.mp h
    rw [pipelineCalls, List.map_append, prints_request hq, ih hqs, List.flatMap_cons]

end Requests

section Dissector
variable {packet : Packet} {bytes : Bytes} {qs : List Request}

/-- The parser of the dissector reads the requests. -/
theorem parsed_requests (htext : characters bytes = pipelineText qs) (hqs : qs ≠ []) (hfits : Pipelined 0 qs) :
    (parsed bytes).parser.httpErrno = .ok ∧ (parsed bytes).calls = pipelineCalls 0 qs := by
  have hlive := httpParserInit_live .httpBoth
  rcases hlive with herror | ⟨hhealthy, hready⟩
  · exact absurd rfl herror
  · obtain ⟨-, hcalls, hok, -⟩ := executes_requests hqs hhealthy hready (.inl rfl) hfits
    rw [← htext] at hcalls hok
    exact ⟨hok, hcalls⟩

/-- A packet of a session, of no layer below, that holds requests. -/
structure HoldsRequests (packet : Packet) (bytes : Bytes) (qs : List Request) : Prop where
  protocol_eq : packet.protocol = 0
  session_ne : packet.session ≠ none
  data_eq : packet.data = some bytes
  text_eq : characters bytes = pipelineText qs
  requests_ne : qs ≠ []
  pipelined : Pipelined 0 qs

theorem handles_requests (h : HoldsRequests packet bytes qs) : httpDissectorHandles packet = true := by
  rw [httpDissectorHandles_iff]
  exact ⟨h.protocol_eq, h.session_ne, bytes, h.data_eq, (parsed_requests h.text_eq h.requests_ne h.pipelined).1⟩

/-- The dump of requests shows each of them, in order, between its banners. -/
theorem dumps_requests (h : HoldsRequests packet bytes qs) :
    httpDissectorDump packet = (outputHeader lightMagenta 20 "HTTP Header" "  " 20).outputs ++
      qs.flatMap requestPrints ++ outputFooter.outputs := by
  have hspells : Spells (characters bytes) 0 (pipelineText qs) := by
    rw [← h.text_eq]
    exact List.prefix_refl _
  obtain ⟨-, hcalls⟩ := parsed_requests h.text_eq h.requests_ne h.pipelined
  rw [httpDissectorDump, if_pos (handles_requests h), h.data_eq, Option.getD_some, hcalls, prints_requests hspells]

end Dissector
end OpenSniffer.HttpDisplay
