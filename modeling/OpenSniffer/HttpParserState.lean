import Mathlib.Algebra.Group.Nat.Defs
import Mathlib.Data.List.Basic
import Mathlib.Logic.Function.Basic

/-!
# The HTTP parser's states, tables and variables

The vendored parser in strict mode, its default. A byte is a character with the same
code; bytes from 128 on are negative in the source's `char`, and as here they are neither
digits nor letters. The source's tables of 256 entries list 128, so the others are zero.
-/
namespace OpenSniffer.HttpParserState

inductive State where
  | dead
  | startReqOrRes
  | resOrRespH
  | startRes
  | resH | resHT | resHTT | resHTTP
  | resFirstHttpMajor | resHttpMajor | resFirstHttpMinor | resHttpMinor
  | resFirstStatusCode | resStatusCode | resStatusStart | resStatus | resLineAlmostDone
  | startReq
  | reqMethod
  | reqSpacesBeforeUrl
  | reqSchema | reqSchemaSlash | reqSchemaSlashSlash
  | reqServerStart | reqServer | reqServerWithAt
  | reqPath | reqQueryStringStart | reqQueryString | reqFragmentStart | reqFragment
  | reqHttpStart | reqHttpH | reqHttpHT | reqHttpHTT | reqHttpHTTP
  | reqFirstHttpMajor | reqHttpMajor | reqFirstHttpMinor | reqHttpMinor | reqLineAlmostDone
  | headerFieldStart | headerField
  | headerValueDiscardWs | headerValueDiscardWsAlmostDone | headerValueDiscardLws
  | headerValueStart | headerValue | headerValueLws
  | headerAlmostDone
  | chunkSizeStart | chunkSize | chunkParameters | chunkSizeAlmostDone
  | headersAlmostDone | headersDone
  | chunkData | chunkDataAlmostDone | chunkDataDone
  | bodyIdentity | bodyIdentityEof
  | messageDone
  deriving DecidableEq, Repr

/-- `PARSING_HEADER`: the states up to `s_headers_done`. -/
def State.parsingHeader : State → Bool
  | .chunkData | .chunkDataAlmostDone | .chunkDataDone => false
  | .bodyIdentity | .bodyIdentityEof | .messageDone => false
  | _ => true

inductive HeaderState where
  | general
  | c | co | con
  | matchingConnection | matchingProxyConnection | matchingContentLength
  | matchingTransferEncoding | matchingUpgrade
  | connection | contentLength | transferEncoding | upgrade
  | matchingTransferEncodingChunked
  | matchingConnectionTokenStart | matchingConnectionKeepAlive | matchingConnectionClose
  | matchingConnectionUpgrade | matchingConnectionToken
  | transferEncodingChunked | connectionKeepAlive | connectionClose | connectionUpgrade
  deriving DecidableEq, Repr

inductive ParserType where
  | httpRequest | httpResponse | httpBoth
  deriving DecidableEq, Repr

inductive Method where
  | delete | get | head | post | put | connect | options | trace | copy | lock | mkcol | move
  | propfind | proppatch | search | unlock | report | mkactivity | checkout | merge | msearch
  | notify | subscribe | unsubscribe | patch | purge | mkcalendar
  deriving DecidableEq, Repr

def methodStrings : Method → List Char
  | .delete => ['D', 'E', 'L', 'E', 'T', 'E']
  | .get => ['G', 'E', 'T']
  | .head => ['H', 'E', 'A', 'D']
  | .post => ['P', 'O', 'S', 'T']
  | .put => ['P', 'U', 'T']
  | .connect => ['C', 'O', 'N', 'N', 'E', 'C', 'T']
  | .options => ['O', 'P', 'T', 'I', 'O', 'N', 'S']
  | .trace => ['T', 'R', 'A', 'C', 'E']
  | .copy => ['C', 'O', 'P', 'Y']
  | .lock => ['L', 'O', 'C', 'K']
  | .mkcol => ['M', 'K', 'C', 'O', 'L']
  | .move => ['M', 'O', 'V', 'E']
  | .propfind => ['P', 'R', 'O', 'P', 'F', 'I', 'N', 'D']
  | .proppatch => ['P', 'R', 'O', 'P', 'P', 'A', 'T', 'C', 'H']
  | .search => ['S', 'E', 'A', 'R', 'C', 'H']
  | .unlock => ['U', 'N', 'L', 'O', 'C', 'K']
  | .report => ['R', 'E', 'P', 'O', 'R', 'T']
  | .mkactivity => ['M', 'K', 'A', 'C', 'T', 'I', 'V', 'I', 'T', 'Y']
  | .checkout => ['C', 'H', 'E', 'C', 'K', 'O', 'U', 'T']
  | .merge => ['M', 'E', 'R', 'G', 'E']
  | .msearch => ['M', '-', 'S', 'E', 'A', 'R', 'C', 'H']
  | .notify => ['N', 'O', 'T', 'I', 'F', 'Y']
  | .subscribe => ['S', 'U', 'B', 'S', 'C', 'R', 'I', 'B', 'E']
  | .unsubscribe => ['U', 'N', 'S', 'U', 'B', 'S', 'C', 'R', 'I', 'B', 'E']
  | .patch => ['P', 'A', 'T', 'C', 'H']
  | .purge => ['P', 'U', 'R', 'G', 'E']
  | .mkcalendar => ['M', 'K', 'C', 'A', 'L', 'E', 'N', 'D', 'A', 'R']

/-- The errors the parser sets; its callbacks never fail, so theirs are left out. -/
inductive Errno where
  | ok
  | invalidEofState
  | headerOverflow
  | closedConnection
  | invalidVersion
  | invalidStatus
  | invalidMethod
  | invalidUrl
  | lfExpected
  | invalidHeaderToken
  | invalidContentLength
  | invalidChunkSize
  | invalidConstant
  | strict
  deriving DecidableEq, Repr

structure Flags where
  chunked : Bool
  connectionKeepAlive : Bool
  connectionClose : Bool
  connectionUpgrade : Bool
  trailing : Bool
  upgrade : Bool
  skipbody : Bool
  deriving DecidableEq, Repr

def Flags.zero : Flags := ⟨false, false, false, false, false, false, false⟩

structure Parser where
  type : ParserType
  flags : Flags
  state : State
  headerState : HeaderState
  index : ℕ
  nread : ℕ
  contentLength : ℕ
  httpMajor : ℕ
  httpMinor : ℕ
  statusCode : ℕ
  method : Method
  httpErrno : Errno
  upgrade : Bool
  deriving DecidableEq, Repr

def httpParserInit (t : ParserType) : Parser where
  type := t
  flags := Flags.zero
  state := match t with
    | .httpRequest => .startReq
    | .httpResponse => .startRes
    | .httpBoth => .startReqOrRes
  headerState := .general
  index := 0
  nread := 0
  contentLength := 0
  httpMajor := 0
  httpMinor := 0
  statusCode := 0
  method := .delete
  httpErrno := .ok
  upgrade := false

def ullongMax : ℕ := 2 ^ 64 - 1

def httpMaxHeaderSize : ℕ := 80 * 1024

def cr : Char := '\r'
def lf : Char := '\n'
def nul : Char := '\x00'

/-- `LOWER`: bit 5 set, on the character as a byte. -/
def lower (ch : Char) : Char := Char.ofNat (ch.toNat ||| 0x20)

def isAlpha (ch : Char) : Bool := 'a' ≤ lower ch && lower ch ≤ 'z'

def isNum (ch : Char) : Bool := '0' ≤ ch && ch ≤ '9'

def digit (ch : Char) : ℕ := ch.toNat - '0'.toNat

def isAlphanum (ch : Char) : Bool := isAlpha ch || isNum ch

def isMark (ch : Char) : Bool := ch ∈ ['-', '_', '.', '!', '~', '*', '\x27', '(', ')']

def isUserinfoChar (ch : Char) : Bool :=
  isAlphanum ch || isMark ch || ch ∈ ['%', ';', ':', '&', '=', '+', '$', ',']

/-- `tokens`: the characters of a token, letters in lower case, and `nul` for others. -/
def token (ch : Char) : Char :=
  if 'A' ≤ ch ∧ ch ≤ 'Z' then lower ch
  else if ('a' ≤ ch ∧ ch ≤ 'z') ∨ isNum ch then ch
  else if ch ∈ ['!', '#', '$', '%', '&', '\x27', '*', '+', '-', '.', '^', '_', '\x60', '|', '~'] then ch
  else nul

/-- `unhex`, with `none` for -1. The second half of the table reads as the digit zero. -/
def unhex (ch : Char) : Option ℕ :=
  if 128 ≤ ch.toNat then some 0
  else if isNum ch then some (digit ch)
  else if 'a' ≤ lower ch ∧ lower ch ≤ 'f' then some (10 + (lower ch).toNat - 'a'.toNat)
  else none

/-- `normal_url_char`: what is printed, but `#`, `?` and the space. -/
def isUrlChar (ch : Char) : Bool := '!' ≤ ch && ch ≤ '~' && ch ≠ '#' && ch ≠ '?'

def parseUrlChar (s : State) (ch : Char) : State :=
  if ch ∈ [' ', '\r', '\n', '\t', '\x0c'] then .dead
  else match s with
    | .reqSpacesBeforeUrl =>
      if ch = '/' ∨ ch = '*' then .reqPath
      else if isAlpha ch then .reqSchema
      else .dead
    | .reqSchema =>
      if isAlpha ch then s
      else if ch = ':' then .reqSchemaSlash
      else .dead
    | .reqSchemaSlash => if ch = '/' then .reqSchemaSlashSlash else .dead
    | .reqSchemaSlashSlash => if ch = '/' then .reqServerStart else .dead
    | .reqServerWithAt | .reqServerStart | .reqServer =>
      if s = .reqServerWithAt ∧ ch = '@' then .dead
      else if ch = '/' then .reqPath
      else if ch = '?' then .reqQueryStringStart
      else if ch = '@' then .reqServerWithAt
      else if isUserinfoChar ch ∨ ch = '[' ∨ ch = ']' then .reqServer
      else .dead
    | .reqPath =>
      if isUrlChar ch then s
      else if ch = '?' then .reqQueryStringStart
      else if ch = '#' then .reqFragmentStart
      else .dead
    | .reqQueryStringStart | .reqQueryString =>
      if isUrlChar ch ∨ ch = '?' then .reqQueryString
      else if ch = '#' then .reqFragmentStart
      else .dead
    | .reqFragmentStart =>
      if isUrlChar ch ∨ ch = '?' then .reqFragment
      else if ch = '#' then s
      else .dead
    | .reqFragment => if isUrlChar ch ∨ ch = '?' ∨ ch = '#' then s else .dead
    | _ => .dead

def httpMessageNeedsEof (parser : Parser) : Bool :=
  if parser.type = .httpRequest then false
  else if parser.statusCode / 100 = 1 ∨ parser.statusCode = 204 ∨ parser.statusCode = 304 ∨
      parser.flags.skipbody then false
  else if parser.flags.chunked ∨ parser.contentLength ≠ ullongMax then false
  else true

def httpShouldKeepAlive (parser : Parser) : Bool :=
  if parser.httpMajor > 0 ∧ parser.httpMinor > 0 then
    if parser.flags.connectionClose then false else !httpMessageNeedsEof parser
  else if !parser.flags.connectionKeepAlive then false
  else !httpMessageNeedsEof parser

def startState (parser : Parser) : State :=
  if parser.type = .httpRequest then .startReq else .startRes

def newMessage (parser : Parser) : State :=
  if httpShouldKeepAlive parser then startState parser else .dead

end OpenSniffer.HttpParserState
