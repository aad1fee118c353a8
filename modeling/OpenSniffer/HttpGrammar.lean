import Mathlib.Algebra.Group.Nat.Defs
import Mathlib.Data.List.Basic
import Mathlib.Tactic.Common

/-!
# Messages of HTTP/1 as text

The lines of a message's head, request targets, numerals, and bodies by length or in
chunks. Texts are lists of characters. What is not well formed cannot be built: fields,
targets and chunks carry the proofs of their own form.
-/
namespace OpenSniffer.HttpGrammar

/-- A text is finite, so what is asked of all its characters is asked one by one: the
characters of Unicode are too many to be tried. -/
instance (priority := high) decidableForallMem (text : List Char) (P : Char → Prop) [DecidablePred P] :
    Decidable (∀ c ∈ text, P c) :=
  List.decidableBAll P text

instance (priority := high) decidableForallFirst (first : Option Char) (P : Char → Prop)
    [DecidablePred P] : Decidable (∀ c ∈ first, P c) :=
  Option.decidableForallMem first

def crlf : List Char := ['\r', '\n']

/-- `tchar`: a character of a method or of a field's name. -/
def isTokenChar (c : Char) : Bool :=
  c.isAlphanum ||
    c ∈ ['!', '#', '$', '%', '&', '\x27', '*', '+', '-', '.', '^', '_', '\x60', '|', '~']

/-- What is printed in ASCII, but the space. -/
def isVisible (c : Char) : Bool := '!' ≤ c && c ≤ '~'

def isBlank (c : Char) : Bool := c = ' ' ∨ c = '\t'

theorem blank_nil : ∀ c ∈ ([] : List Char), isBlank c = true := List.forall_mem_nil _

def isLineChar (c : Char) : Bool := c.toNat < 256 ∧ c ≠ '\r' ∧ c ≠ '\n'

def digitValue (c : Char) : ℕ :=
  if c.isDigit then c.toNat - '0'.toNat else c.toLower.toNat - 'a'.toNat + 10

def numeral (base : ℕ) (text : List Char) : ℕ :=
  text.foldl (fun n c => n * base + digitValue c) 0

/-- A numeral in decimal with a value up to `top`. -/
structure Decimal (top : ℕ) where
  text : List Char
  ne : text ≠ []
  digits : ∀ c ∈ text, c.isDigit = true
  value_le : numeral 10 text ≤ top

theorem le_foldl_numeral {base : ℕ} (hbase : 0 < base) (n : ℕ) (text : List Char) :
    n ≤ text.foldl (fun n c => n * base + digitValue c) n := by
  induction text generalizing n with
  | nil => exact Nat.le_refl n
  | cons c text ih =>
    have hn : n ≤ n * base := Nat.le_mul_of_pos_right n hbase
    exact Nat.le_trans (Nat.le_trans hn (Nat.le_add_right _ _)) (ih _)

theorem numeral_cons (base : ℕ) (c : Char) (text : List Char) :
    numeral base (c :: text) = text.foldl (fun n c => n * base + digitValue c) (digitValue c) := by
  rw [numeral, List.foldl_cons, Nat.zero_mul, Nat.zero_add]

/-- A version of the protocol, with numbers of up to three digits or leading zeros. -/
structure Version where
  major : Decimal 999
  minor : Decimal 999

def Version.text (v : Version) : List Char := "HTTP/".toList ++ v.major.text ++ '.' :: v.minor.text

/-- `name: value`, with blanks before the value. The value does not start with a blank and
may be empty. -/
structure Field where
  name : List Char
  space : List Char
  value : List Char
  name_ne : name ≠ []
  name_token : ∀ c ∈ name, isTokenChar c = true
  space_blank : ∀ c ∈ space, isBlank c = true
  value_line : ∀ c ∈ value, isLineChar c = true
  value_start : ∀ c ∈ value.head?, isBlank c = false

namespace Field

def line (f : Field) : List Char := f.name ++ ':' :: f.space ++ f.value ++ crlf

/-- Names are compared without regard to case. -/
def named (f : Field) (name : String) : Bool := f.name.map Char.toLower = name.toList

def namesConnection (f : Field) : Bool := f.named "connection" || f.named "proxy-connection"

/-- The length of the body that a field states. -/
def length? (f : Field) : Option ℕ :=
  if f.named "content-length" ∧ f.value ≠ [] then some (numeral 10 f.value) else none

/-- A length is stated in digits, with a value up to `top`. -/
def Sized (top : ℕ) (f : Field) : Prop :=
  f.named "content-length" = true → (∀ c ∈ f.value, c.isDigit = true) ∧ numeral 10 f.value ≤ top

instance (top : ℕ) (f : Field) : Decidable (f.Sized top) := inferInstanceAs (Decidable (_ → _))

/-- The coding `chunked`, in any case, and nothing behind it but spaces. -/
def IsChunkedValue (value : List Char) : Prop :=
  (value.take 7).map Char.toLower = "chunked".toList ∧ ∀ c ∈ value.drop 7, c = ' '

instance (value : List Char) : Decidable (IsChunkedValue value) :=
  inferInstanceAs (Decidable (_ ∧ _))

def isChunked (f : Field) : Bool := f.named "transfer-encoding" ∧ IsChunkedValue f.value

end Field

def fieldLines (fields : List Field) : List Char := (fields.map Field.line).flatten

def statedLength : List Field → Option ℕ
  | [] => none
  | f :: fields => (statedLength fields).or f.length?

/-- The line before a chunk: its size in hexadecimal, and what may follow the size. -/
structure ChunkLine (top : ℕ) where
  size : List Char
  extension : List Char
  size_ne : size ≠ []
  size_hex : ∀ c ∈ size, c.isHexDigit = true
  extension_start : ∀ c ∈ extension.head?, c = ';' ∨ c = ' '
  extension_line : ∀ c ∈ extension, c ≠ '\r'
  value_le : numeral 16 size ≤ top

namespace ChunkLine
variable {top : ℕ}

def value (line : ChunkLine top) : ℕ := numeral 16 line.size

def text (line : ChunkLine top) : List Char := line.size ++ line.extension ++ crlf

end ChunkLine

structure Chunk (top : ℕ) where
  line : ChunkLine top
  content : List Char
  content_ne : content ≠ []
  length_eq : content.length = line.value

def Chunk.text {top : ℕ} (c : Chunk top) : List Char := c.line.text ++ (c.content ++ crlf)

/-- Chunks, the line of the last chunk, which is empty, and the fields behind it. -/
structure ChunkedBody (top : ℕ) where
  chunks : List (Chunk top)
  last : ChunkLine top
  last_zero : last.value = 0
  trailer : List Field

def ChunkedBody.text {top : ℕ} (body : ChunkedBody top) : List Char :=
  (body.chunks.map Chunk.text).flatten ++ (body.last.text ++ (fieldLines body.trailer ++ crlf))

/-- A character of the part of a target that names a host. -/
def isAuthorityChar (c : Char) : Bool :=
  c.isAlphanum || c ∈ ['-', '_', '.', '!', '~', '*', '\x27', '(', ')', '%', ';', ':', '&', '=',
    '+', '$', ',', '[', ']', '@']

/-- Where a host is named: no two `@` next to each other. -/
structure IsAuthority (text : List Char) : Prop where
  chars : ∀ c ∈ text, isAuthorityChar c = true
  separate : text.IsChain fun c d => ¬ (c = '@' ∧ d = '@')

/-- A host, and then a path or a query of any visible characters; not both are empty. -/
def IsHostTarget (text : List Char) : Prop :=
  ∃ authority rest, text = authority ++ rest ∧ text ≠ [] ∧ IsAuthority authority ∧
    (∀ c ∈ rest.head?, c = '/' ∨ c = '?') ∧ ∀ c ∈ rest, isVisible c = true

/-- A path or an asterisk, and any visible characters. -/
def IsPathTarget (text : List Char) : Prop :=
  (∃ c ∈ text.head?, c = '/' ∨ c = '*') ∧ ∀ c ∈ text, isVisible c = true

/-- A scheme of letters, and a host. -/
def IsSchemeTarget (text : List Char) : Prop :=
  ∃ scheme host, text = scheme ++ [':', '/', '/'] ++ host ∧ scheme ≠ [] ∧
    (∀ c ∈ scheme, c.isAlpha = true) ∧ IsHostTarget host

end OpenSniffer.HttpGrammar
