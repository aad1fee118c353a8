import OpenSniffer.DnsReadBounds
import OpenSniffer.Ipv6Texts

/-!
# Ordinary DNS responses

A response as a server writes it: one question, and answers that each name their owner
by a pointer. The structures hold what makes the message ordinary, so that an encoded
response is accepted and shown as it is.
-/
namespace OpenSniffer.DnsResponses
open Packets TextFormats Ipv6Texts CompressedNames DnsExpansion DnsDissector DnsCursor
  DnsReadBounds TracedReads TracedReads.Traced

/-- A name that prints as it is and fits `dn_expand`. -/
structure Name where
  labels : List Label
  nonzero : ∀ l ∈ labels, ∀ b ∈ l.bytes, b ≠ 0
  fits : (dotted labels).length ≤ 253

namespace Name

def wire (n : Name) : Bytes := plainWire n.labels

def text (n : Name) : Bytes := dotted n.labels

end Name

/-- A compression pointer whose second byte does not end a string. -/
structure Pointer where
  high : UInt8
  low : UInt8
  opens : 192 ≤ high.toNat
  nonzero : low ≠ 0

/-- The mnemonics of the record types, by code; the other codes are shown as invalid. -/
def typeName : ℕ → String
  | 1 => "A" | 2 => "NS" | 3 => "MD" | 4 => "MF" | 5 => "CNAME" | 6 => "SOA" | 7 => "MB" | 8 => "MG"
  | 9 => "MR" | 10 => "NULL" | 11 => "WKS" | 12 => "PTR" | 13 => "HINFO" | 14 => "MINFO" | 15 => "MX"
  | 16 => "TXT" | 17 => "RP" | 18 => "AFSDB" | 19 => "X25" | 20 => "ISDN" | 21 => "RT" | 22 => "NSAP"
  | 23 => "NSAP_PTR" | 24 => "SIG" | 25 => "KEY" | 26 => "PX" | 27 => "GPOS" | 28 => "AAAA" | 29 => "LOC"
  | 30 => "NXT" | 31 => "EID" | 32 => "NIMLOC" | 33 => "SRV" | 34 => "ATMA" | 35 => "NAPTR" | 36 => "KX"
  | 37 => "CERT" | 38 => "A6" | 39 => "DNAME" | 40 => "SINK" | 41 => "OPT" | 42 => "APL" | 249 => "TKEY"
  | 250 => "TSIG" | 251 => "IXFR" | 252 => "AXFR" | 253 => "MAILB" | 254 => "MAILA" | 255 => "ANY"
  | 256 => "ZXFR"
  | _ => "Invalid"

private theorem typeName_of_large {type : ℕ} (h : 256 < type) : typeName type = "Invalid" := by
  unfold typeName
  split <;> first | rfl | omega

/-- The table of the code is this one, on every type that two bytes hold. -/
theorem typeToString_eq_typeName {type : ℕ} (h : type < 65536) :
    dnsDissectorTypeToString type = typeName type := by
  have hsmall : ∀ type ≤ 256, dnsDissectorTypeToString type = typeName type := by decide +kernel
  have hcodes : ∀ entry ∈ nsTypes, entry.1 ≤ 256 ∨ entry.1 = 65536 := by decide
  rcases Nat.lt_or_ge 256 type with hlarge | hle
  · have hnone : nsTypes.find? (fun entry => entry.1 == type) = none := by
      refine List.find?_eq_none.mpr fun entry hentry heq => ?_
      have hcode := hcodes entry hentry
      have htype : entry.1 = type := beq_iff_eq.mp heq
      omega
    rw [typeName_of_large hlarge, dnsDissectorTypeToString, hnone]
    rfl
  · exact hsmall type hle

inductive RData where
  | a (address : Octets 4)
  | aaaa (address : Octets 16)
  | ns (target : Name)
  | cname (target : Name)

namespace RData

def type : RData → ℕ
  | .a _ => nsTA
  | .aaaa _ => nsTAaaa
  | .ns _ => nsTNs
  | .cname _ => nsTCname

def wire : RData → Bytes
  | .a address => address.1
  | .aaaa address => address.1
  | .ns target => target.wire
  | .cname target => target.wire

def name : RData → String
  | .a _ => "A"
  | .aaaa _ => "AAAA"
  | .ns _ => "NS"
  | .cname _ => "CNAME"

def line : RData → Line
  | .a address => .printf "IPv4 address : %s\n" [.text (ipv4Text address)]
  | .aaaa address => .printf "IPv6 address : %s\n" [.text (ipv6Text address)]
  | .ns target => .printf "Alias : %s\n" [.str (some target.text)]
  | .cname target => .printf "Alias : %s\n" [.str (some target.text)]

end RData

structure Answer where
  owner : Pointer
  class_ : Octets 2
  ttl : Octets 4
  data : RData

namespace Answer

def wire (a : Answer) : Bytes :=
  [a.owner.high, a.owner.low] ++ word a.data.type ++ a.class_.1 ++ a.ttl.1 ++
    word a.data.wire.length ++ a.data.wire

def lines (a : Answer) (i : ℕ) : List Line :=
  [.printf "\x1b[4mResponse #%zu (%s)\n\x1b[24m" [.int (i + 1), .text a.data.name], a.data.line]

end Answer

/-- A message with `qr` set, `rcode` and `unused` zero, one question and at most ten answers. -/
structure Response where
  id : UInt16
  flags : UInt8
  codes : UInt8
  nscount : UInt16
  arcount : UInt16
  question : Name
  qtype : UInt16
  qclass : Octets 2
  answers : List Answer
  trailer : Bytes
  response : 128 ≤ flags.toNat
  success : codes.toNat % 16 = 0
  reserved : codes.toNat / 64 % 2 = 0
  few : answers.length ≤ 10

namespace Response

def header (r : Response) : Bytes :=
  word r.id.toNat ++ [r.flags, r.codes] ++ word 1 ++ word r.answers.length ++
    word r.nscount.toNat ++ word r.arcount.toNat

def wire (r : Response) : Bytes :=
  r.header ++ r.question.wire ++ word r.qtype.toNat ++ r.qclass.1 ++
    r.answers.flatMap Answer.wire ++ r.trailer

def packet (r : Response) (protocol : ℕ) (session : Session) : Packet where
  data := some r.wire
  size := r.wire.length
  protocol := protocol
  session := some session
  sized := by simp

def body (r : Response) : List Line :=
  [.printf "Response code : %d\n" [.int 0],
    .printf "# of questions : %d\n" [.int 1],
    .printf "# of answers : %d\n" [.int r.answers.length],
    .printf "# of authoritative servers : %d\n" [.int r.nscount.toNat],
    .printf "# of additional records : %d\n" [.int r.arcount.toNat],
    .printf "Query address : %s\n" [.str (some r.question.text)],
    .printf "Query type : %s (%u)\n"
      [.text (typeName r.qtype.toNat), .int r.qtype.toNat]] ++
  r.answers.zipIdx.flatMap fun a => a.1.lines a.2

def lines (r : Response) : List Line :=
  (outputHeader lightBlue 20 "DNS Header" "  " 21).outputs ++
    [.printf "Identifier : %d\n" [.int r.id.toNat],
      .printf "Type of packet : %s\n" [.text "RESPONSE"]] ++
    r.body ++ outputFooter.outputs

end Response

section Names
variable [Memory] {packet : Packet}

omit [Memory] in
theorem text_ne_zero (n : Name) : ∀ b ∈ n.text, b ≠ 0 := by
  intro b hb
  rcases mem_dotted hb with rfl | ⟨l, hl, hb⟩
  · decide
  · exact n.nonzero l hl b hb

/-- A name is expanded to its text, and its bytes are skipped. -/
theorem expandAt_name {n : Name} {data : ℕ} (hlow : sizeofDnshdr ≤ data)
    (h : Holds packet.byte data n.wire) (hend : data + n.wire.length ≤ packet.size) :
    expandAt packet data = (some n.wire.length, n.text ++ [0]) := by
  have hroom : (dotted n.labels).length < room maxNameLength := Nat.lt_succ_of_le n.fits
  exact dnExpand_plainWire hlow h hend hroom

theorem aliasArg_name {n : Name} {data : ℕ} (hlow : sizeofDnshdr ≤ data)
    (h : Holds packet.byte data n.wire) (hend : data + n.wire.length ≤ packet.size) :
    aliasArg packet data = .str (some n.text) := by
  rw [aliasArg, expandAt_name hlow h hend, cString_append_zero (text_ne_zero n)]
  rfl

end Names

section Answers
variable [Memory] {packet : Packet} {a : Answer} {data : ℕ}

omit [Memory] in
theorem type_lt (d : RData) : d.type < 256 := by
  cases d <;> simp only [RData.type] <;> decide

omit [Memory] in
theorem length_wire_answer (a : Answer) : a.wire.length = 12 + a.data.wire.length := by
  simp only [Answer.wire, List.length_append, List.length_cons, List.length_nil, length_word,
    a.class_.2, a.ttl.2]

theorem holds_answer (h : Holds packet.byte data a.wire) :
    Holds packet.byte data [a.owner.high, a.owner.low] ∧
      Holds packet.byte (data + 2) (word a.data.type) ∧
      Holds packet.byte (data + 12) a.data.wire := by
  simp only [Answer.wire, holds_append, List.length_append, List.length_cons, List.length_nil,
    length_word, a.class_.2, a.ttl.2] at h
  exact ⟨h.1.1.1.1.1, h.1.1.1.1.2, h.2⟩

/-- The owner's two bytes are skipped, for the byte behind them is zero. -/
theorem ownerEnd_answer (h : Holds packet.byte data a.wire) : ownerEnd packet data = data + 2 := by
  obtain ⟨howner, htype, -⟩ := holds_answer h
  have hne : ∀ b ∈ [a.owner.high, a.owner.low], b ≠ 0 := by
    have hopens := a.owner.opens
    have hhigh : a.owner.high ≠ 0 := by
      intro hz
      rw [hz] at hopens
      exact absurd hopens (by decide)
    simpa using ⟨hhigh, a.owner.nonzero⟩
  have hzero : packet.byte (data + 2) = 0 := by
    rw [htype.1, Nat.div_eq_of_lt (type_lt a.data)]
    rfl
  rw [ownerEnd, strlen_of_holds howner hne hzero]
  rfl

theorem answerType_answer (h : Holds packet.byte data a.wire) :
    answerType packet data = a.data.type := by
  have := type_lt a.data
  rw [answerType, ownerEnd_answer h]
  exact Packet.be16_of_holds (holds_answer h).2.1 (by omega)

theorem answerData_answer (h : Holds packet.byte data a.wire) :
    answerData packet data = data + 12 := by
  rw [answerData, ownerEnd_answer h]
  rfl

/-- The `switch` shows the data and leaves the cursor behind it. -/
theorem dumpAnswerData_rdata (d : RData) (hlow : sizeofDnshdr ≤ data)
    (h : Holds packet.byte data d.wire) (hend : data + d.wire.length ≤ packet.size) :
    (dumpAnswerData packet d.type data).value = some (data + d.wire.length) ∧
      (dumpAnswerData packet d.type data).outputs = [d.line] := by
  cases d with
  | a address =>
    have hbytes := (holds_iff_map data address.1).mp h
    rw [address.2] at hbytes
    have hvalue : (aRr packet data).value = ipv4Text address := congrArg inetNtoa hbytes
    rw [RData.type, dumpAnswerData, if_pos rfl, RData.wire, RData.line, address.2, ← hvalue]
    exact ⟨rfl, rfl⟩
  | aaaa address =>
    have hbytes := (holds_iff_map data address.1).mp h
    rw [address.2] at hbytes
    have hvalue : (aaaaRr packet data).value = ipv6Text address := congrArg inetNtop hbytes
    rw [RData.type, dumpAnswerData, if_neg (by decide), if_pos rfl, RData.wire, RData.line,
      address.2, ← hvalue]
    exact ⟨rfl, rfl⟩
  | ns target =>
    have hshown : (dumpAnswerData packet nsTNs data).value = _ ∧ _ :=
      dumpAnswerData_alias (Or.inl rfl) data
    rwa [expandAt_name hlow h hend, aliasArg_name hlow h hend] at hshown
  | cname target =>
    have hshown : (dumpAnswerData packet nsTCname data).value = _ ∧ _ :=
      dumpAnswerData_alias (Or.inr rfl) data
    rwa [expandAt_name hlow h hend, aliasArg_name hlow h hend] at hshown

omit [Memory] in
private theorem typeToString_type (d : RData) : dnsDissectorTypeToString d.type = d.name := by
  cases d <;> rfl

private theorem dumpAnswer_answer (i : ℕ) (hlow : sizeofDnshdr ≤ data) (h : Holds packet.byte data a.wire)
    (hend : data + a.wire.length ≤ packet.size) :
    (dumpAnswer packet i data).value = some (data + a.wire.length) ∧
      (dumpAnswer packet i data).outputs = a.lines i := by
  have hlen := length_wire_answer a
  have hdata := dumpAnswerData_rdata a.data (show sizeofDnshdr ≤ data + 12 by omega)
    (holds_answer h).2.2 (by omega)
  have hvalue : (dumpAnswer packet i data).value =
      (dumpAnswerData packet (answerType packet data) (answerData packet data)).value := rfl
  rw [hvalue, dumpAnswer_outputs, answerType_answer h, answerData_answer h, hdata.1, hdata.2, hlen,
    typeToString_type, Nat.add_assoc]
  exact ⟨rfl, rfl⟩

private theorem answerFits_answer (h : Holds packet.byte data a.wire)
    (hend : data + a.wire.length ≤ packet.size) : AnswerFits packet data := by
  rw [length_wire_answer] at hend
  refine ⟨?_, ?_, ?_⟩
  · rw [answerData_answer h]
    omega
  · rw [answerType_answer h, answerData_answer h]
    intro htype
    cases hd : a.data with
    | a address =>
      rw [hd, RData.wire, address.2] at hend
      omega
    | aaaa | ns | cname =>
      rw [hd] at htype
      exact absurd htype (by rw [RData.type]; decide)
  · rw [answerType_answer h, answerData_answer h]
    intro htype
    cases hd : a.data with
    | aaaa address =>
      rw [hd, RData.wire, address.2] at hend
      omega
    | a | ns | cname =>
      rw [hd] at htype
      exact absurd htype (by rw [RData.type]; decide)

/-- The loop shows every answer in order and reads nothing else. -/
theorem dumpAnswers_answers (answers : List Answer) (i : ℕ) (hlow : sizeofDnshdr ≤ data)
    (h : Holds packet.byte data (answers.flatMap Answer.wire))
    (hend : data + (answers.flatMap Answer.wire).length ≤ packet.size) :
    (dumpAnswers packet answers.length i data).outputs =
        (answers.zipIdx i).flatMap (fun a => a.1.lines a.2) ∧
      (dumpAnswers packet answers.length i data).ReadsWithin 0 packet.size := by
  induction answers generalizing i data with
  | nil => exact ⟨rfl, readsWithin_pure _⟩
  | cons a answers ih =>
    rw [List.flatMap_cons, holds_append] at h
    rw [List.flatMap_cons, List.length_append] at hend
    have hlen := length_wire_answer a
    obtain ⟨hvalue, houtputs⟩ := dumpAnswer_answer i hlow h.1 (by omega)
    obtain ⟨hshown, hread⟩ := ih (i + 1) (by omega) h.2 (by omega)
    rw [List.length_cons, dumpAnswers, if_pos (by omega), Traced.outputs_bind, readsWithin_bind,
      hvalue, houtputs, List.zipIdx_cons, List.flatMap_cons, dumpAnswer_reads i hlow]
    exact ⟨congrArg (a.lines i ++ ·) hshown, answerFits_answer h.1 (by omega), hread⟩

end Answers

section Message
variable [Memory] (r : Response) (protocol : ℕ) (session : Session)

omit [Memory] in
private theorem length_header : r.header.length = 12 := rfl

/-- Where the parts of the message stand. -/
structure Laid (r : Response) (packet : Packet) : Prop where
  id : packet.be16 0 = r.id.toNat
  flags : packet.byte 2 = r.flags
  codes : packet.byte 3 = r.codes
  qcount : packet.be16 4 = 1
  ancount : packet.be16 6 = r.answers.length
  nscount : packet.be16 8 = r.nscount.toNat
  arcount : packet.be16 10 = r.arcount.toNat
  question : Holds packet.byte 12 r.question.wire
  qtype : packet.be16 (12 + r.question.wire.length) = r.qtype.toNat
  answers : Holds packet.byte (12 + r.question.wire.length + 4) (r.answers.flatMap Answer.wire)
  size : 12 + r.question.wire.length + 4 + (r.answers.flatMap Answer.wire).length ≤ packet.size

theorem laid_packet : Laid r (r.packet protocol session) := by
  have h : Holds (r.packet protocol session).byte 0 r.wire := Packet.holds_data rfl
  simp only [Response.wire, Response.header, holds_append, List.length_append, length_word,
    r.qclass.2, List.length_cons, List.length_nil, Nat.zero_add, Nat.reduceAdd] at h
  obtain ⟨⟨⟨⟨⟨⟨⟨⟨⟨⟨hid, hbits⟩, hqcount⟩, hancount⟩, hnscount⟩, harcount⟩, hquestion⟩, hqtype⟩, -⟩,
    hanswers⟩, -⟩ := h
  have hfew := r.few
  have hsize : (r.packet protocol session).size = r.wire.length := rfl
  refine ⟨Packet.be16_of_holds hid (UInt16.toNat_lt _), hbits.1, hbits.2.1,
    Packet.be16_of_holds hqcount (by decide), Packet.be16_of_holds hancount (by omega),
    Packet.be16_of_holds hnscount (UInt16.toNat_lt _), Packet.be16_of_holds harcount (UInt16.toNat_lt _),
    hquestion, Packet.be16_of_holds hqtype (UInt16.toNat_lt _), hanswers, ?_⟩
  rw [hsize]
  simp only [Response.wire, List.length_append, length_header, length_word, r.qclass.2]
  omega

omit [Memory] in
private theorem ten_mul_length_le (answers : List Answer) :
    answers.length * 10 ≤ (answers.flatMap Answer.wire).length := by
  induction answers with
  | nil => simp
  | cons a answers ih =>
    have := length_wire_answer a
    rw [List.flatMap_cons, List.length_append, List.length_cons]
    omega

private theorem handles_packet : (dnsDissectorHandles (r.packet protocol session)).value = true := by
  have h := laid_packet r protocol session
  have hsize := h.size
  have hanswers := ten_mul_length_le r.answers
  have hresponse := r.response
  have hfew := r.few
  rw [dnsDissectorHandles_iff]
  refine ⟨nofun, ?_, nofun, ?_, ?_, ?_, ?_, ?_⟩
  · simp only [sizeofDnshdr]
    omega
  · rw [h.codes]
    exact r.reserved
  · rw [h.codes, r.success]
    omega
  · rw [h.qcount]
    omega
  · rw [h.ancount]
    exact hfew
  · rw [h.flags, h.qcount, h.ancount, if_pos (by omega)]
    simp only [sizeofDnshdr, sizeofDnsQuery, sizeofDnsResourceRecord]
    omega

theorem question_packet :
    questionsEnd (r.packet protocol session) 1 sizeofDnshdr = some (12 + r.question.wire.length) ∧
      questionNames (r.packet protocol session) 1 sizeofDnshdr = [r.question.text] := by
  have h := laid_packet r protocol session
  have hsize := h.size
  have hin : sizeofDnshdr < (r.packet protocol session).size := by
    simp only [sizeofDnshdr]
    omega
  have hexpand : expandAt (r.packet protocol session) sizeofDnshdr =
      (some r.question.wire.length, r.question.text ++ [0]) :=
    expandAt_name (Nat.le_refl _) h.question (by simp only [sizeofDnshdr]; omega)
  rw [questionsEnd, questionNames, if_pos hin, if_pos hin, hexpand,
    cString_append_zero (text_ne_zero r.question)]
  exact ⟨rfl, rfl⟩

private theorem dumpMessage_outputs : (dumpMessage (r.packet protocol session)).outputs = r.body := by
  have h := laid_packet r protocol session
  have hqr : ((r.packet protocol session).byte 2).toNat / 128 ≠ 0 := by
    have hresponse := r.response
    rw [h.flags]
    omega
  obtain ⟨hend, hnames⟩ := question_packet r protocol session
  have hanswers := (dumpAnswers_answers r.answers 0 (by simp only [sizeofDnshdr]; omega) h.answers h.size).1
  rw [dumpMessage_of_response hqr, dumpResponse_outputs]
  have hqtype := typeToString_eq_typeName (UInt16.toNat_lt r.qtype)
  simp only [countLines, nameLine, typeLine, hqtype, h.qcount, h.ancount, h.nscount, h.arcount, h.codes,
    r.success, hend, hnames, h.qtype, hanswers, List.map_cons, List.map_nil, List.cons_append,
    List.nil_append, Option.elim_some, Response.body]

private theorem dumpMessage_within : (dumpMessage (r.packet protocol session)).ReadsWithin 0
    (r.packet protocol session).size := by
  have h := laid_packet r protocol session
  have hsize := h.size
  have hresponse := r.response
  have hlow : sizeofDnshdr ≤ 12 + r.question.wire.length + 4 := by
    simp only [sizeofDnshdr]
    omega
  rw [dumpMessage_reads (by omega), CursorFits, h.qcount, h.ancount,
    (question_packet r protocol session).1]
  intro data hdata
  obtain rfl := Option.some.inj hdata
  rw [h.flags, if_pos (by omega)]
  exact ⟨by omega, (dumpAnswers_reads _ 0 hlow).mp (dumpAnswers_answers r.answers 0 hlow h.answers hsize).2⟩

/-- An ordinary response is accepted, shown as it is, and read inside the packet. -/
theorem dnsDissector_response :
    (dnsDissectorHandles (r.packet protocol session)).value = true ∧
      (dnsDissectorDump (r.packet protocol session)).outputs = r.lines ∧
        (dnsDissectorDump (r.packet protocol session)).ReadsWithin 0
          (r.packet protocol session).size := by
  have h := laid_packet r protocol session
  have hhandles := handles_packet r protocol session
  have hcode : ¬ ((r.packet protocol session).byte 3).toNat % 16 ≠ 0 := by
    rw [h.codes, r.success]
    exact fun hne => hne rfl
  have hqr : (qr (r.packet protocol session)).value ≠ 0 := by
    have hresponse := r.response
    rw [value_qr, h.flags]
    omega
  refine ⟨hhandles, ?_, ?_⟩
  · rw [dnsDissectorDump_outputs hhandles, if_neg hcode, dumpMessage_outputs, openingLines, h.id,
      dnsDissectorTypeOfPacket, Traced.value_bind, if_pos hqr, Response.lines]
    simp only [Traced.value_pure, List.append_assoc]
    rfl
  · rw [dnsDissectorDump_reads hhandles]
    exact Or.inr (dumpMessage_within r protocol session)

end Message
end OpenSniffer.DnsResponses
