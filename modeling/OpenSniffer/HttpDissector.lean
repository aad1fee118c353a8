import OpenSniffer.DhcpDissector
import OpenSniffer.HttpParser

/-!
# HTTP

A packet is handled if the parser finds no error in it; the dump parses it again and
prints what the callbacks get. The parser reads the packet's own bytes only, so neither
function depends on the memory behind them.
-/
namespace OpenSniffer.HttpDissector
open Packets OsiStack TextFormats HttpParserState HttpParser

def httpMethodFromId : Method → String
  | .delete => "DELETE"
  | .get => "GET"
  | .head => "HEAD"
  | .post => "POST"
  | .put => "PUT"
  | .connect => "CONNECT"
  | .options => "OPTIONS"
  | .trace => "TRACE"
  | .copy => "COPY"
  | .lock => "LOCK"
  | .mkcol => "MKCOL"
  | .move => "MOVE"
  | .propfind => "PROPFIND"
  | .proppatch => "PROPPATCH"
  | .search => "SEARCH"
  | .unlock => "UNLOCK"
  | .report => "REPORT"
  | .mkactivity => "MKACTIVITY"
  | .checkout => "CHECKOUT"
  | .merge => "MERGE"
  | .msearch => "MSEARCH"
  | .notify => "NOTIFY"
  | .subscribe => "SUBSCRIBE"
  | .unsubscribe => "UNSUBSCRIBE"
  | .patch => "PATCH"
  | .purge => "PURGE"
  | .mkcalendar => "MKCALENDAR"

def httpDissectorGetParser : Parser := httpParserInit .httpBoth

/-- The dissector's callback for a piece. -/
def onPiece (bytes : Bytes) (call : Callback) : Line :=
  let text : Arg := .str (some (cString ((bytes.drop call.start).take call.length)))
  match call.piece with
  | .body => .printf "Body size : %zu\n" [.int call.length]
  | .status => .printf "Response status : %.*s\n" [text]
  | .url => .printf "%s %.*s\n" [.text (httpMethodFromId call.method), text]
  | .headerField => .printf "%.*s: " [text]
  | .headerValue => .printf "%.*s\n" [text]

def characters (bytes : Bytes) : List Char := bytes.map fun b => Char.ofNat b.toNat

def parsed (bytes : Bytes) : Run := (httpParserExecute (characters bytes) httpDissectorGetParser).1

def httpDissectorHandles (packet : Packet) : Bool :=
  match packet.data with
  | none => false
  | some bytes =>
    if packet.protocol ≠ 0 ∨ packet.session = none then false
    else (parsed bytes).parser.httpErrno = .ok

def httpDissectorDump (packet : Packet) : List Line :=
  if httpDissectorHandles packet then
    (outputHeader lightMagenta 20 "HTTP Header" "  " 20).outputs ++
      (parsed (packet.data.getD [])).calls.map (onPiece (packet.data.getD [])) ++ outputFooter.outputs
  else []

def httpDissectorDecapsulate (_ : Packet) : Option Packet := none

def http : Dissector where
  layer := osiLayer7
  name := "http"
  handles := httpDissectorHandles
  decapsulate := httpDissectorDecapsulate
  dump := httpDissectorDump

theorem httpDissectorHandles_iff (packet : Packet) : httpDissectorHandles packet = true ↔
    packet.protocol = 0 ∧ packet.session ≠ none ∧
      ∃ bytes, packet.data = some bytes ∧ (parsed bytes).parser.httpErrno = .ok := by
  rw [httpDissectorHandles]
  cases packet.data with
  | none => simp
  | some bytes =>
    by_cases hp : packet.protocol = 0 <;> by_cases hs : packet.session = none <;> simp [hp, hs]

end OpenSniffer.HttpDissector
