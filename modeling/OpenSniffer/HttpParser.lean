import OpenSniffer.HttpParserState

/-!
# `http_parser_execute`

A state handles one character: it goes on to the next position, or stops with an error or
at the end of the message. A `goto reexecute` is a call of the state it leads to, so the
states are defined in the order in which they can reach each other. The callbacks of
complete pieces are recorded with the piece's place; the dissectors' callbacks return 0.
-/
namespace OpenSniffer.HttpParser
open HttpParserState

/-- The pieces of a message that have a mark and a callback. -/
inductive Piece where
  | headerField | headerValue | url | body | status
  deriving DecidableEq, Repr

structure Callback where
  piece : Piece
  start : ℕ
  length : ℕ
  method : Method
  deriving DecidableEq, Repr

/-- The parser with the local variables of a call. -/
structure Run where
  parser : Parser
  p : ℕ
  marks : Piece → Option ℕ
  calls : List Callback

inductive Outcome where
  | next (r : Run)
  | stop (r : Run) (parsed : ℕ)

namespace Run

def update (r : Run) (parser : Parser) : Run := { r with parser := parser }

def updateState (r : Run) (s : State) : Run := r.update { r.parser with state := s }

def error (r : Run) (e : Errno) : Outcome := .stop (r.update { r.parser with httpErrno := e }) r.p

def mark (r : Run) (piece : Piece) : Run :=
  if r.marks piece = none then { r with marks := Function.update r.marks piece (some r.p) } else r

/-- `CALLBACK_DATA_` for a piece that ends at `fin`. -/
def callbackTo (r : Run) (piece : Piece) (fin : ℕ) : Run :=
  match r.marks piece with
  | none => r
  | some start => { r with
      marks := Function.update r.marks piece none
      calls := r.calls ++ [⟨piece, start, fin - start, r.parser.method⟩] }

def callback (r : Run) (piece : Piece) : Run := r.callbackTo piece r.p

/-- `COUNT_HEADER_SIZE`, and what follows it. -/
def countHeaderSize (r : Run) (v : ℕ) (go : Run → Outcome) : Outcome :=
  let r := r.update { r.parser with nread := (r.parser.nread + v) % 2 ^ 32 }
  if r.parser.nread > httpMaxHeaderSize then r.error .headerOverflow else go r

/-- `STRICT_CHECK`, and what follows it. -/
def strictCheck (r : Run) (cond : Prop) [Decidable cond] (go : Outcome) : Outcome :=
  if cond then r.error .strict else go

end Run

def dead (r : Run) (ch : Char) : Outcome :=
  if ch = cr ∨ ch = lf then .next r else r.error .closedConnection

def firstMethod : Char → Option Method
  | 'C' => some .connect
  | 'D' => some .delete
  | 'G' => some .get
  | 'H' => some .head
  | 'L' => some .lock
  | 'M' => some .mkcol
  | 'N' => some .notify
  | 'O' => some .options
  | 'P' => some .post
  | 'R' => some .report
  | 'S' => some .subscribe
  | 'T' => some .trace
  | 'U' => some .unlock
  | _ => none

def startReq (r : Run) (ch : Char) : Outcome :=
  if ch = cr ∨ ch = lf then .next r
  else
    let r := r.update { r.parser with flags := Flags.zero, contentLength := ullongMax }
    if !isAlpha ch then r.error .invalidMethod
    else
      let r := r.update { r.parser with method := .delete, index := 1 }
      match firstMethod ch with
      | some m => .next ((r.update { r.parser with method := m }).updateState .reqMethod)
      | none => r.error .invalidMethod

def startReqOrRes (r : Run) (ch : Char) : Outcome :=
  if ch = cr ∨ ch = lf then .next r
  else
    let r := r.update { r.parser with flags := Flags.zero, contentLength := ullongMax }
    if ch = 'H' then .next (r.updateState .resOrRespH)
    else startReq ((r.update { r.parser with type := .httpRequest }).updateState .startReq) ch

def resOrRespH (r : Run) (ch : Char) : Outcome :=
  if ch = 'T' then .next ((r.update { r.parser with type := .httpResponse }).updateState .resHT)
  else if ch ≠ 'E' then r.error .invalidConstant
  else
    let r := r.update { r.parser with type := .httpRequest, method := .head, index := 2 }
    .next (r.updateState .reqMethod)

def startRes (r : Run) (ch : Char) : Outcome :=
  let r := r.update { r.parser with flags := Flags.zero, contentLength := ullongMax }
  if ch = 'H' then .next (r.updateState .resH)
  else if ch = cr ∨ ch = lf then .next r
  else r.error .invalidConstant

/-- A state that admits one character, in strict mode. -/
def expect (c : Char) (s : State) (r : Run) (ch : Char) : Outcome :=
  r.strictCheck (ch ≠ c) (.next (r.updateState s))

def resFirstHttpMajor (r : Run) (ch : Char) : Outcome :=
  if ch < '0' ∨ ch > '9' then r.error .invalidVersion
  else .next ((r.update { r.parser with httpMajor := digit ch }).updateState .resHttpMajor)

def httpMajorDigit (r : Run) (ch : Char) : Outcome :=
  if !isNum ch then r.error .invalidVersion
  else
    let r := r.update { r.parser with httpMajor := r.parser.httpMajor * 10 + digit ch }
    if r.parser.httpMajor > 999 then r.error .invalidVersion else .next r

def httpMinorDigit (r : Run) (ch : Char) : Outcome :=
  if !isNum ch then r.error .invalidVersion
  else
    let r := r.update { r.parser with httpMinor := r.parser.httpMinor * 10 + digit ch }
    if r.parser.httpMinor > 999 then r.error .invalidVersion else .next r

def resHttpMajor (r : Run) (ch : Char) : Outcome :=
  if ch = '.' then .next (r.updateState .resFirstHttpMinor) else httpMajorDigit r ch

/-- The first digit of a minor version; `s` reads the others. -/
def firstHttpMinor (s : State) (r : Run) (ch : Char) : Outcome :=
  if !isNum ch then r.error .invalidVersion
  else .next ((r.update { r.parser with httpMinor := digit ch }).updateState s)

def resHttpMinor (r : Run) (ch : Char) : Outcome :=
  if ch = ' ' then .next (r.updateState .resFirstStatusCode) else httpMinorDigit r ch

def resFirstStatusCode (r : Run) (ch : Char) : Outcome :=
  if !isNum ch then
    if ch = ' ' then .next r else r.error .invalidStatus
  else .next ((r.update { r.parser with statusCode := digit ch }).updateState .resStatusCode)

def resStatusCode (r : Run) (ch : Char) : Outcome :=
  if !isNum ch then
    if ch = ' ' then .next (r.updateState .resStatusStart)
    else if ch = cr then .next (r.updateState .resLineAlmostDone)
    else if ch = lf then .next (r.updateState .headerFieldStart)
    else r.error .invalidStatus
  else
    let r := r.update { r.parser with statusCode := r.parser.statusCode * 10 + digit ch }
    if r.parser.statusCode > 999 then r.error .invalidStatus else .next r

def resStatusStart (r : Run) (ch : Char) : Outcome :=
  if ch = cr then .next (r.updateState .resLineAlmostDone)
  else if ch = lf then .next (r.updateState .headerFieldStart)
  else
    let r := (r.mark .status).updateState .resStatus
    .next (r.update { r.parser with index := 0 })

def resStatus (r : Run) (ch : Char) : Outcome :=
  if ch = cr then .next ((r.updateState .resLineAlmostDone).callback .status)
  else if ch = lf then .next ((r.updateState .headerFieldStart).callback .status)
  else .next r

/-- The method a letter leads to where the current one has another. -/
def otherMethod (method : Method) (index : ℕ) (ch : Char) : Option Method :=
  match method with
  | .connect =>
    if index = 1 ∧ ch = 'H' then some .checkout
    else if index = 2 ∧ ch = 'P' then some .copy
    else none
  | .mkcol =>
    if index = 1 ∧ ch = 'O' then some .move
    else if index = 1 ∧ ch = 'E' then some .merge
    else if index = 1 ∧ ch = '-' then some .msearch
    else if index = 2 ∧ ch = 'A' then some .mkactivity
    else if index = 3 ∧ ch = 'A' then some .mkcalendar
    else none
  | .subscribe => if index = 1 ∧ ch = 'E' then some .search else none
  | .post =>
    if index = 1 ∧ ch = 'R' then some .propfind
    else if index = 1 ∧ ch = 'U' then some .put
    else if index = 1 ∧ ch = 'A' then some .patch
    else none
  | .put => if index = 2 ∧ ch = 'R' then some .purge else none
  | .unlock => if index = 2 ∧ ch = 'S' then some .unsubscribe else none
  | .propfind => if index = 4 ∧ ch = 'P' then some .proppatch else none
  | _ => none

def reqMethod (r : Run) (ch : Char) : Outcome :=
  let matcher := (methodStrings r.parser.method).getD r.parser.index nul
  let index := (r.parser.index + 1) % 256
  if ch = nul then r.error .invalidMethod
  else if ch = ' ' ∧ matcher = nul then
    .next ((r.update { r.parser with index := index }).updateState .reqSpacesBeforeUrl)
  else if ch = matcher then .next (r.update { r.parser with index := index })
  else
    match otherMethod r.parser.method r.parser.index ch with
    | some m => .next (r.update { r.parser with method := m, index := index })
    | none => r.error .invalidMethod

/-- One character of a URL. -/
def urlChar (r : Run) (ch : Char) : Outcome :=
  let s := parseUrlChar r.parser.state ch
  if s = .dead then (r.updateState s).error .invalidUrl else .next (r.updateState s)

def reqSpacesBeforeUrl (r : Run) (ch : Char) : Outcome :=
  if ch = ' ' then .next r
  else
    let r := r.mark .url
    urlChar (if r.parser.method = .connect then r.updateState .reqServerStart else r) ch

/-- The states of a URL that admit no end yet. -/
def reqSchema (r : Run) (ch : Char) : Outcome :=
  if ch = ' ' ∨ ch = cr ∨ ch = lf then r.error .invalidUrl else urlChar r ch

/-- The states of a URL that may end here. -/
def reqUrl (r : Run) (ch : Char) : Outcome :=
  if ch = ' ' then .next ((r.updateState .reqHttpStart).callback .url)
  else if ch = cr ∨ ch = lf then
    let r := r.update { r.parser with httpMajor := 0, httpMinor := 9 }
    .next ((r.updateState (if ch = cr then .reqLineAlmostDone else .headerFieldStart)).callback .url)
  else urlChar r ch

def reqHttpStart (r : Run) (ch : Char) : Outcome :=
  if ch = 'H' then .next (r.updateState .reqHttpH)
  else if ch = ' ' then .next r
  else r.error .invalidConstant

def reqFirstHttpMajor (r : Run) (ch : Char) : Outcome :=
  if ch < '1' ∨ ch > '9' then r.error .invalidVersion
  else .next ((r.update { r.parser with httpMajor := digit ch }).updateState .reqHttpMajor)

def reqHttpMajor (r : Run) (ch : Char) : Outcome :=
  if ch = '.' then .next (r.updateState .reqFirstHttpMinor) else httpMajorDigit r ch

def reqHttpMinor (r : Run) (ch : Char) : Outcome :=
  if ch = cr then .next (r.updateState .reqLineAlmostDone)
  else if ch = lf then .next (r.updateState .headerFieldStart)
  else httpMinorDigit r ch

def reqLineAlmostDone (r : Run) (ch : Char) : Outcome :=
  if ch ≠ lf then r.error .lfExpected else .next (r.updateState .headerFieldStart)

def messageDone (r : Run) : Outcome :=
  let r := r.updateState (newMessage r.parser)
  if r.parser.upgrade then .stop r (r.p + 1) else .next r

def headersDone (r : Run) (ch : Char) : Outcome :=
  r.strictCheck (ch ≠ lf) <|
    let r := r.update { r.parser with nread := 0 }
    let parser := r.parser
    let hasBody := parser.flags.chunked ||
      (0 < parser.contentLength && parser.contentLength ≠ ullongMax)
    let done := r.updateState (newMessage parser)
    if parser.upgrade ∧ (parser.method = .connect ∨ parser.flags.skipbody ∨ !hasBody) then
      .stop done (r.p + 1)
    else if parser.flags.skipbody then .next done
    else if parser.flags.chunked then .next (r.updateState .chunkSizeStart)
    else if parser.contentLength = 0 then .next done
    else if parser.contentLength ≠ ullongMax then .next (r.updateState .bodyIdentity)
    else if parser.type = .httpRequest ∨ !httpMessageNeedsEof parser then .next done
    else .next (r.updateState .bodyIdentityEof)

def headersAlmostDone (r : Run) (ch : Char) : Outcome :=
  r.strictCheck (ch ≠ lf) <|
    if r.parser.flags.trailing then messageDone (r.updateState .messageDone)
    else
      let r := r.updateState .headersDone
      let upgrade := (r.parser.flags.upgrade && r.parser.flags.connectionUpgrade) ||
        r.parser.method = .connect
      headersDone (r.update { r.parser with upgrade := upgrade }) ch

def headerFieldStart (r : Run) (ch : Char) : Outcome :=
  if ch = cr then .next (r.updateState .headersAlmostDone)
  else if ch = lf then headersAlmostDone (r.updateState .headersAlmostDone) ch
  else
    let c := token ch
    if c = nul then r.error .invalidHeaderToken
    else
      let r := (r.mark .headerField).updateState .headerField
      let headerState : HeaderState := match c with
        | 'c' => .c
        | 'p' => .matchingProxyConnection
        | 't' => .matchingTransferEncoding
        | 'u' => .matchingUpgrade
        | _ => .general
      .next (r.update { r.parser with index := 0, headerState := headerState })

/-- The next character of a text that is being matched; its index has just grown. -/
def matching (text : List Char) (index : ℕ) (c : Char) (miss matched same : HeaderState) : HeaderState :=
  if index > text.length ∨ c ≠ text.getD index nul then miss
  else if index + 1 = text.length then matched
  else same

def headerFieldChar (parser : Parser) (ch c : Char) : Parser :=
  let h := parser.headerState
  let index := (parser.index + 1) % 256
  let advance (h : HeaderState) : Parser := { parser with index := index, headerState := h }
  match h with
  | .c => advance (if c = 'o' then .co else .general)
  | .co => advance (if c = 'n' then .con else .general)
  | .con => advance (if c = 'n' then .matchingConnection
      else if c = 't' then .matchingContentLength else .general)
  | .matchingConnection => advance (matching "connection".toList index c .general .connection h)
  | .matchingProxyConnection =>
    advance (matching "proxy-connection".toList index c .general .connection h)
  | .matchingContentLength => advance (matching "content-length".toList index c .general .contentLength h)
  | .matchingTransferEncoding =>
    advance (matching "transfer-encoding".toList index c .general .transferEncoding h)
  | .matchingUpgrade => advance (matching "upgrade".toList index c .general .upgrade h)
  | .connection | .contentLength | .transferEncoding | .upgrade =>
    if ch ≠ ' ' then { parser with headerState := .general } else parser
  | _ => parser

section Data
variable (data : List Char)

def charAt (p : ℕ) : Char := data.getD p nul

/-- The loop over the characters of a field's name, with `n` characters to the end. -/
def headerFieldLoop : ℕ → Run → Run
  | 0, r => r
  | n + 1, r =>
    let ch := charAt data r.p
    let c := token ch
    if c = nul then r
    else headerFieldLoop n { r with p := r.p + 1, parser := headerFieldChar r.parser ch c }

def headerField (r : Run) : Outcome :=
  let start := r.p
  let r := headerFieldLoop data (data.length - r.p) r
  r.countHeaderSize (r.p - start) fun r =>
    if r.p = data.length then .next { r with p := r.p - 1 }
    else if charAt data r.p = ':' then .next ((r.updateState .headerValueDiscardWs).callback .headerField)
    else r.error .invalidHeaderToken

/-- What a finished header adds to the flags. -/
def headerFlags (h : HeaderState) (flags : Flags) : Flags :=
  match h with
  | .connectionKeepAlive => { flags with connectionKeepAlive := true }
  | .connectionClose => { flags with connectionClose := true }
  | .transferEncodingChunked => { flags with chunked := true }
  | .connectionUpgrade => { flags with connectionUpgrade := true }
  | _ => flags

def headerValueStart (r : Run) (ch : Char) : Outcome :=
  let r := (r.mark .headerValue).updateState .headerValue
  let parser := { r.parser with index := 0 }
  let c := lower ch
  let go (h : HeaderState) : Outcome := .next (r.update { parser with headerState := h })
  match parser.headerState with
  | .upgrade => .next (r.update
      { parser with flags := { parser.flags with upgrade := true }, headerState := .general })
  | .transferEncoding => go (if c = 'c' then .matchingTransferEncodingChunked else .general)
  | .contentLength =>
    if !isNum ch then (r.update parser).error .invalidContentLength
    else .next (r.update { parser with contentLength := digit ch })
  | .connection => go (if c = 'k' then .matchingConnectionKeepAlive
      else if c = 'c' then .matchingConnectionClose
      else if c = 'u' then .matchingConnectionUpgrade
      else .matchingConnectionToken)
  | .matchingConnectionTokenStart => .next (r.update parser)
  | _ => go .general

def headerValueDiscardWs (r : Run) (ch : Char) : Outcome :=
  if ch = ' ' ∨ ch = '\t' then .next r
  else if ch = cr then .next (r.updateState .headerValueDiscardWsAlmostDone)
  else if ch = lf then .next (r.updateState .headerValueDiscardLws)
  else headerValueStart r ch

/-- What one character of a header value does to the parser and to `h_state`; an error is
a bad `Content-Length`. -/
def headerValueChar (parser : Parser) (h : HeaderState) (ch : Char) : Option (Parser × HeaderState) :=
  let c := lower ch
  let index := (parser.index + 1) % 256
  let advance (h : HeaderState) : Option (Parser × HeaderState) :=
    some ({ parser with index := index }, h)
  match h with
  | .contentLength =>
    if ch = ' ' then some (parser, h)
    else if !isNum ch then none
    else if (ullongMax - 10) / 10 < parser.contentLength then none
    else some ({ parser with contentLength := parser.contentLength * 10 + digit ch }, h)
  | .matchingTransferEncodingChunked =>
    advance (matching "chunked".toList index c .general .transferEncodingChunked h)
  | .matchingConnectionTokenStart => some (parser,
      if c = 'k' then .matchingConnectionKeepAlive
      else if c = 'c' then .matchingConnectionClose
      else if c = 'u' then .matchingConnectionUpgrade
      else if token c ≠ nul then .matchingConnectionToken
      else if c = ' ' ∨ c = '\t' then h
      else .general)
  | .matchingConnectionKeepAlive =>
    advance (matching "keep-alive".toList index c .matchingConnectionToken .connectionKeepAlive h)
  | .matchingConnectionClose =>
    advance (matching "close".toList index c .matchingConnectionToken .connectionClose h)
  | .matchingConnectionUpgrade =>
    advance (matching "upgrade".toList index c .matchingConnectionToken .connectionUpgrade h)
  | .matchingConnectionToken =>
    if ch = ',' then some ({ parser with index := 0 }, .matchingConnectionTokenStart)
    else some (parser, h)
  | .transferEncodingChunked => some (parser, if ch ≠ ' ' then .general else h)
  | .connectionKeepAlive | .connectionClose | .connectionUpgrade =>
    if ch = ',' then
      some ({ parser with index := 0, flags := headerFlags h parser.flags }, .matchingConnectionTokenStart)
    else some (parser, if ch ≠ ' ' then .matchingConnectionToken else h)
  | .connection | .transferEncoding => some (parser, h)
  | _ => some ({ parser with state := .headerValue }, .general)

def headerAlmostDone (r : Run) (ch : Char) : Outcome :=
  r.strictCheck (ch ≠ lf) (.next (r.updateState .headerValueLws))

/-- Where the search for the end of a general value leads: the first CR or LF within the
largest header size, and otherwise the end of the data. -/
def valueEnd (p : ℕ) : ℕ :=
  let window := (data.drop p).take httpMaxHeaderSize
  match window.findIdx? fun ch => ch = cr ∨ ch = lf with
  | some i => p + i
  | none => data.length

def headerValueDone (start : ℕ) (r : Run) (h : HeaderState) : Outcome :=
  (r.update { r.parser with headerState := h }).countHeaderSize (r.p - start) fun r =>
    if r.p = data.length then .next { r with p := r.p - 1 } else .next r

/-- The loop over a header value; `n` bounds the passes it has left. -/
def headerValueLoop (start : ℕ) : ℕ → Run → HeaderState → Outcome
  | 0, r, h => headerValueDone data start r h
  | n + 1, r, h =>
    let ch := charAt data r.p
    if r.p = data.length then headerValueDone data start r h
    else if ch = cr then
      let r := r.update { r.parser with headerState := h, state := .headerAlmostDone }
      headerValueDone data start (r.callback .headerValue) h
    else if ch = lf then
      (r.updateState .headerAlmostDone).countHeaderSize (r.p - start) fun r =>
        headerAlmostDone ((r.update { r.parser with headerState := h }).callback .headerValue) ch
    else if h = .general then headerValueLoop start n { r with p := valueEnd data r.p } h
    else
      match headerValueChar r.parser h ch with
      | none => (r.update { r.parser with headerState := h }).error .invalidContentLength
      | some (parser, h) => headerValueLoop start n { r with p := r.p + 1, parser := parser } h

def headerValue (r : Run) : Outcome :=
  headerValueLoop data r.p (data.length - r.p) r r.parser.headerState

def headerValueLws (r : Run) (ch : Char) : Outcome :=
  if ch = ' ' ∨ ch = '\t' then headerValueStart (r.updateState .headerValueStart) ch
  else
    let r := r.update { r.parser with flags := headerFlags r.parser.headerState r.parser.flags }
    headerFieldStart (r.updateState .headerFieldStart) ch

def headerValueDiscardLws (r : Run) (ch : Char) : Outcome :=
  if ch = ' ' ∨ ch = '\t' then .next (r.updateState .headerValueDiscardWs)
  else
    let r := r.update { r.parser with flags := headerFlags r.parser.headerState r.parser.flags }
    -- the header's value was empty
    headerFieldStart (((r.mark .headerValue).updateState .headerFieldStart).callback .headerValue) ch

def bodyIdentity (r : Run) : Outcome :=
  let toRead := min r.parser.contentLength (data.length - r.p)
  let r := r.mark .body
  let parser := { r.parser with contentLength := r.parser.contentLength - toRead }
  let r : Run := { r with parser := parser, p := r.p + toRead - 1 }
  if parser.contentLength = 0 then messageDone ((r.updateState .messageDone).callbackTo .body (r.p + 1))
  else .next r

def bodyIdentityEof (r : Run) : Outcome := .next { r.mark .body with p := data.length - 1 }

def chunkSizeStart (r : Run) (ch : Char) : Outcome :=
  match unhex ch with
  | none => r.error .invalidChunkSize
  | some value => .next ((r.update { r.parser with contentLength := value }).updateState .chunkSize)

def chunkSize (r : Run) (ch : Char) : Outcome :=
  if ch = cr then .next (r.updateState .chunkSizeAlmostDone)
  else
    match unhex ch with
    | none =>
      if ch = ';' ∨ ch = ' ' then .next (r.updateState .chunkParameters) else r.error .invalidChunkSize
    | some value =>
      if (ullongMax - 16) / 16 < r.parser.contentLength then r.error .invalidContentLength
      else .next (r.update { r.parser with contentLength := r.parser.contentLength * 16 + value })

def chunkParameters (r : Run) (ch : Char) : Outcome :=
  if ch = cr then .next (r.updateState .chunkSizeAlmostDone) else .next r

def chunkSizeAlmostDone (r : Run) (ch : Char) : Outcome :=
  r.strictCheck (ch ≠ lf) <|
    let r := r.update { r.parser with nread := 0 }
    if r.parser.contentLength = 0 then
      let flags := { r.parser.flags with trailing := true }
      .next ((r.update { r.parser with flags := flags }).updateState .headerFieldStart)
    else .next (r.updateState .chunkData)

def chunkData (r : Run) : Outcome :=
  let toRead := min r.parser.contentLength (data.length - r.p)
  let r := r.mark .body
  let parser := { r.parser with contentLength := r.parser.contentLength - toRead }
  let r : Run := { r with parser := parser, p := r.p + toRead - 1 }
  .next (if parser.contentLength = 0 then r.updateState .chunkDataAlmostDone else r)

def chunkDataAlmostDone (r : Run) (ch : Char) : Outcome :=
  r.strictCheck (ch ≠ cr) (.next ((r.updateState .chunkDataDone).callback .body))

def chunkDataDone (r : Run) (ch : Char) : Outcome :=
  r.strictCheck (ch ≠ lf) (.next ((r.update { r.parser with nread := 0 }).updateState .chunkSizeStart))

def dispatch (r : Run) (ch : Char) : Outcome :=
  match r.parser.state with
  | .dead => dead r ch
  | .startReqOrRes => startReqOrRes r ch
  | .resOrRespH => resOrRespH r ch
  | .startRes => startRes r ch
  | .resH => expect 'T' .resHT r ch
  | .resHT => expect 'T' .resHTT r ch
  | .resHTT => expect 'P' .resHTTP r ch
  | .resHTTP => expect '/' .resFirstHttpMajor r ch
  | .resFirstHttpMajor => resFirstHttpMajor r ch
  | .resHttpMajor => resHttpMajor r ch
  | .resFirstHttpMinor => firstHttpMinor .resHttpMinor r ch
  | .resHttpMinor => resHttpMinor r ch
  | .resFirstStatusCode => resFirstStatusCode r ch
  | .resStatusCode => resStatusCode r ch
  | .resStatusStart => resStatusStart r ch
  | .resStatus => resStatus r ch
  | .resLineAlmostDone => expect lf .headerFieldStart r ch
  | .startReq => startReq r ch
  | .reqMethod => reqMethod r ch
  | .reqSpacesBeforeUrl => reqSpacesBeforeUrl r ch
  | .reqSchema | .reqSchemaSlash | .reqSchemaSlashSlash | .reqServerStart => reqSchema r ch
  | .reqServer | .reqServerWithAt | .reqPath | .reqQueryStringStart | .reqQueryString
  | .reqFragmentStart | .reqFragment => reqUrl r ch
  | .reqHttpStart => reqHttpStart r ch
  | .reqHttpH => expect 'T' .reqHttpHT r ch
  | .reqHttpHT => expect 'T' .reqHttpHTT r ch
  | .reqHttpHTT => expect 'P' .reqHttpHTTP r ch
  | .reqHttpHTTP => expect '/' .reqFirstHttpMajor r ch
  | .reqFirstHttpMajor => reqFirstHttpMajor r ch
  | .reqHttpMajor => reqHttpMajor r ch
  | .reqFirstHttpMinor => firstHttpMinor .reqHttpMinor r ch
  | .reqHttpMinor => reqHttpMinor r ch
  | .reqLineAlmostDone => reqLineAlmostDone r ch
  | .headerFieldStart => headerFieldStart r ch
  | .headerField => headerField data r
  | .headerValueDiscardWs => headerValueDiscardWs r ch
  | .headerValueDiscardWsAlmostDone => expect lf .headerValueDiscardLws r ch
  | .headerValueDiscardLws => headerValueDiscardLws r ch
  | .headerValueStart => headerValueStart r ch
  | .headerValue => headerValue data r
  | .headerValueLws => headerValueLws r ch
  | .headerAlmostDone => headerAlmostDone r ch
  | .chunkSizeStart => chunkSizeStart r ch
  | .chunkSize => chunkSize r ch
  | .chunkParameters => chunkParameters r ch
  | .chunkSizeAlmostDone => chunkSizeAlmostDone r ch
  | .headersAlmostDone => headersAlmostDone r ch
  | .headersDone => headersDone r ch
  | .chunkData => chunkData data r
  | .chunkDataAlmostDone => chunkDataAlmostDone r ch
  | .chunkDataDone => chunkDataDone r ch
  | .bodyIdentity => bodyIdentity data r
  | .bodyIdentityEof => bodyIdentityEof data r
  | .messageDone => messageDone r

def pass (r : Run) : Outcome :=
  let ch := charAt data r.p
  if r.parser.state.parsingHeader then r.countHeaderSize 1 fun r => dispatch data r ch
  else dispatch data r ch

/-- The callbacks for the marks that are left at the end of the data. -/
def leftover (r : Run) : Run :=
  ((((r.callback .headerField).callback .headerValue).callback .url).callback .body).callback .status

/-- The loop; `n` bounds the passes it has left. Every pass moves on by at least one. -/
def executeLoop : ℕ → Run → Run × ℕ
  | 0, r => (leftover r, data.length)
  | n + 1, r =>
    if r.p < data.length then
      match pass data r with
      | .next r => executeLoop n { r with p := r.p + 1 }
      | .stop r parsed => (r, parsed)
    else (leftover r, data.length)

/-- The marks that a call sets at once when it resumes inside a piece. -/
def startMarks (s : State) (piece : Piece) : Option ℕ :=
  match piece, s with
  | .headerField, .headerField => some 0
  | .headerValue, .headerValue => some 0
  | .url, .reqPath | .url, .reqSchema | .url, .reqSchemaSlash | .url, .reqSchemaSlashSlash
  | .url, .reqServerStart | .url, .reqServer | .url, .reqServerWithAt
  | .url, .reqQueryStringStart | .url, .reqQueryString | .url, .reqFragmentStart
  | .url, .reqFragment => some 0
  | .status, .resStatus => some 0
  | _, _ => none

/-- The parser and the callbacks after a call, and what it returns. -/
def httpParserExecute (parser : Parser) : Run × ℕ :=
  let r : Run := ⟨parser, 0, startMarks parser.state, []⟩
  if parser.httpErrno ≠ .ok then (r, 0)
  else if data.length = 0 then
    match parser.state with
    | .bodyIdentityEof | .dead | .startReqOrRes | .startRes | .startReq => (r, 0)
    | _ => (r.update { parser with httpErrno := .invalidEofState }, 1)
  else executeLoop data data.length r

end Data
end OpenSniffer.HttpParser
