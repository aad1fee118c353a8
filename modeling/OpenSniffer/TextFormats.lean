import OpenSniffer.Packets

/-!
# The texts the dissectors print

The banners that open and close a dissector's block, and addresses as text.
-/
namespace OpenSniffer.TextFormats
open Packets TracedReads TracedReads.Traced

def bold (s : String) : String := "\x1b[1m" ++ s ++ "\x1b[21m"
def underlined (s : String) : String := "\x1b[4m" ++ s ++ "\x1b[24m"

def red : String := "\x1b[31m"
def green : String := "\x1b[32m"
def yellow : String := "\x1b[33m"
def blue : String := "\x1b[34m"
def magenta : String := "\x1b[35m"
def cyan : String := "\x1b[36m"
def lightBlue : String := "\x1b[94m"
def lightMagenta : String := "\x1b[95m"
def lightCyan : String := "\x1b[96m"
def colorEnd : String := "\x1b[0m"

def dashes (n : ℕ) : String := String.ofList (List.replicate n '-')

def rule : String := dashes 55 ++ "\n"

/-- An `*_OUTPUT_HEADER`: a colour, and a title between two rules. -/
def outputHeader (color : String) (left : ℕ) (title gap : String) (right : ℕ) : Dump Unit :=
  print (.colorBegin color
    (rule ++ dashes left ++ "  " ++ bold title ++ gap ++ dashes right ++ "\n" ++ rule))

/-- An `*_OUTPUT_FOOTER`: all nine are the same text, a rule and `COLOR_END`. -/
def outputFooter : Dump Unit := print (.colorEnd (rule ++ colorEnd))

def hexDigits (n : ℕ) : String := String.ofList (Nat.toDigits 16 n)

def hexByte (b : UInt8) : String :=
  String.ofList [Nat.digitChar (b.toNat / 16), Nat.digitChar (b.toNat % 16)]

def inetNtoa (address : Bytes) : String :=
  ".".intercalate (address.map fun b => toString b.toNat)

/-- The longest run of zero words, the first one of that length: where it starts and
how long it is. Runs shorter than two are not shortened. -/
def zeroRun (words : List ℕ) : Option (ℕ × ℕ) :=
  let runs := (List.range words.length).map fun i => (i, ((words.drop i).takeWhile (· == 0)).length)
  runs.foldl (fun best run => match best with
    | none => if 2 ≤ run.2 then some run else none
    | some b => if b.2 < run.2 then some run else best) none

/-- `inet_ntop` of an IPv6 address: hexadecimal words, the longest zero run as `::`,
and the last four bytes in dotted form behind an IPv4 prefix. -/
def inetNtop (address : Bytes) : String :=
  let words := (List.range 8).map fun i =>
    (address.getD (2 * i) 0).toNat * 256 + (address.getD (2 * i + 1) 0).toNat
  let hex (ws : List ℕ) := ":".intercalate (ws.map hexDigits)
  match zeroRun words with
  | none => hex words
  | some (start, length) =>
    if start = 0 ∧ (length = 6 ∨ (length = 5 ∧ words.getD 5 0 = 0xffff)) then
      (if length = 6 then "::" else "::ffff:") ++ inetNtoa (address.drop 12)
    else hex (words.take start) ++ "::" ++ hex (words.drop (start + length))

example : inetNtoa [192, 168, 0, 1] = "192.168.0.1" := by decide

section Reads
variable [Memory]

def stringifyHwAddr (packet : Packet) (i : ℕ) : Dump String := do
  let hw ← loadRange packet.byte i 6
  return ":".intercalate (hw.1.map hexByte)

/-- `ip_to_string`: the four bytes of an address field, in memory order. -/
def ipToString (packet : Packet) (i : ℕ) : Dump String := do
  let address ← loadRange packet.byte i 4
  return inetNtoa address.1

@[simp] theorem outputs_stringifyHwAddr (packet : Packet) (i : ℕ) :
    (stringifyHwAddr packet i).outputs = [] := rfl
@[simp] theorem outputs_ipToString (packet : Packet) (i : ℕ) : (ipToString packet i).outputs = [] := rfl

theorem readsWithin_stringifyHwAddr (packet : Packet) (i lo hi : ℕ) :
    (stringifyHwAddr packet i).ReadsWithin lo hi ↔ lo ≤ i ∧ i + 6 ≤ hi := by
  simp [stringifyHwAddr, readsWithin_loadRange]

theorem readsWithin_ipToString (packet : Packet) (i lo hi : ℕ) :
    (ipToString packet i).ReadsWithin lo hi ↔ lo ≤ i ∧ i + 4 ≤ hi := by
  simp [ipToString, readsWithin_loadRange]

end Reads
end OpenSniffer.TextFormats
