import OpenSniffer.DnsLayout
import OpenSniffer.DnsResponses

/-!
# Messages with several questions

The question loop reads one name behind the other and leaves the type and the class of a
question where they are, so behind the first question it reads these as a name. It shows the
questions of a message if there is one, or if what stands behind the first name happens to
read like the others.
-/
namespace OpenSniffer.DnsQuestions
open Packets TextFormats CompressedNames DnsExpansion DnsDissector DnsCursor DnsLayout DnsResponses
  TracedReads TracedReads.Traced
open CompressedNames.Label (letter)

structure Question where
  name : Name
  type : UInt16
  class_ : Octets 2

def Question.wire (q : Question) : Bytes := q.name.wire ++ word q.type.toNat ++ q.class_.1

def argsOf (format : String) (lines : List Line) : List (List Arg) :=
  lines.filterMap fun
    | .printf f args => if f = format then some args else none
    | _ => none

section Lines
variable {format : String}

theorem argsOf_append (lines lines' : List Line) :
    argsOf format (lines ++ lines') = argsOf format lines ++ argsOf format lines' :=
  List.filterMap_append

theorem argsOf_cons_of_ne {f : String} (h : f ≠ format) (args : List Arg) (lines : List Line) :
    argsOf format (.printf f args :: lines) = argsOf format lines := by
  simp [argsOf, h]

theorem argsOf_cons_self (args : List Arg) (lines : List Line) :
    argsOf format (.printf format args :: lines) = args :: argsOf format lines := by
  simp [argsOf]

private theorem argsOf_of_other {lines : List Line} (h : ∀ line ∈ lines, ∀ args, line ≠ .printf format args) :
    argsOf format lines = [] := by
  rw [argsOf, List.filterMap_eq_nil_iff]
  intro line hline
  cases line with
  | printf f args =>
    have hne : f ≠ format := by
      intro heq
      exact h _ hline args (heq ▸ rfl)
    simp [hne]
  | colorBegin | colorEnd => rfl

theorem argsOf_nameLines_self (names : List Bytes) :
    argsOf format (names.map (nameLine format)) = names.map fun name => [.str (some name)] := by
  induction names with
  | nil => rfl
  | cons name names ih => rw [List.map_cons, nameLine, argsOf_cons_self, ih, List.map_cons]

theorem argsOf_nameLines_of_ne {f : String} (h : f ≠ format) (names : List Bytes) :
    argsOf format (names.map (nameLine f)) = [] := by
  induction names with
  | nil => rfl
  | cons name names ih => rw [List.map_cons, nameLine, argsOf_cons_of_ne h, ih]

end Lines

section Shown
variable [Memory] {packet : Packet}

def typeArgs (type : ℕ) : List Arg := [.text (typeName type), .int type]

theorem argsOf_typeLine_self (data : ℕ) (lines : List Line) :
    argsOf "Query type : %s (%u)\n" (typeLine packet data :: lines) =
      typeArgs (packet.be16 data) :: argsOf "Query type : %s (%u)\n" lines := by
  rw [typeLine, argsOf_cons_self, typeArgs, typeToString_eq_typeName (packet.be16_lt data)]

theorem argsOf_typeLine_of_ne {format : String} (h : "Query type : %s (%u)\n" ≠ format) (data : ℕ)
    (lines : List Line) : argsOf format (typeLine packet data :: lines) = argsOf format lines :=
  argsOf_cons_of_ne h _ _

theorem argsOf_countLines {format : String} (h : format = "Query address : %s\n" ∨ format = "Query type : %s (%u)\n") :
    argsOf format (countLines packet) = [] := by
  rcases h with rfl | rfl <;> simp [argsOf, countLines]

theorem argsOf_answers {format : String} (h : format = "Query address : %s\n" ∨ format = "Query type : %s (%u)\n")
    (n i data : ℕ) : argsOf format (dumpAnswers packet n i data).outputs = [] := by
  have hother : ∀ {f : String}, f ≠ format → ∀ args args', Line.printf f args ≠ .printf format args' := by
    intro f hne args args' heq
    exact hne (Line.printf.inj heq).1
  have hformats : "IPv4 address : %s\n" ≠ format ∧ "IPv6 address : %s\n" ≠ format ∧
      aliasFormat ≠ format ∧ underlined "Response #%zu (%s)\n" ≠ format := by
    rcases h with rfl | rfl
    · decide
    · decide
  apply argsOf_of_other
  exact dumpAnswers_printsOnly (hother hformats.1) (hother hformats.2.1) (hother hformats.2.2.1)
    (hother hformats.2.2.2) n i data

variable (packet) in
def nameFormat : String := if (packet.byte 2).toNat / 128 ≠ 0 then "Query address : %s\n" else "Query : %s\n"

/-- The names a message shows are those the loop expands. -/
theorem argsOf_names : argsOf (nameFormat packet) (dumpMessage packet).outputs =
    (questionNames packet (packet.be16 4) sizeofDnshdr).map fun name => [.str (some name)] := by
  by_cases hqr : (packet.byte 2).toNat / 128 ≠ 0
  · rw [dumpMessage_of_response hqr, nameFormat, if_pos hqr, dumpResponse_outputs, argsOf_append,
      argsOf_append, argsOf_countLines (Or.inl rfl), argsOf_nameLines_self, List.nil_append]
    cases questionsEnd packet (packet.be16 4) sizeofDnshdr with
    | none => exact List.append_nil _
    | some data =>
      rw [Option.elim_some, argsOf_typeLine_of_ne (by decide), argsOf_answers (Or.inl rfl),
        List.append_nil]
  · rw [dumpMessage_of_query hqr, nameFormat, if_neg hqr, dumpQuery_outputs,
      argsOf_cons_of_ne (by decide), argsOf_append, argsOf_nameLines_self]
    cases questionsEnd packet (packet.be16 4) sizeofDnshdr with
    | none => exact List.append_nil _
    | some data =>
      rw [Option.elim_some, argsOf_typeLine_of_ne (by decide)]
      exact List.append_nil _

/-- The type a message shows is read where the loop stops. -/
theorem argsOf_type : argsOf "Query type : %s (%u)\n" (dumpMessage packet).outputs =
    (questionsEnd packet (packet.be16 4) sizeofDnshdr).elim [] fun data =>
      [typeArgs (packet.be16 data)] := by
  by_cases hqr : (packet.byte 2).toNat / 128 ≠ 0
  · rw [dumpMessage_of_response hqr, dumpResponse_outputs, argsOf_append, argsOf_append,
      argsOf_countLines (Or.inr rfl), argsOf_nameLines_of_ne (by decide), List.nil_append,
      List.nil_append]
    cases questionsEnd packet (packet.be16 4) sizeofDnshdr with
    | none => rfl
    | some data =>
      rw [Option.elim_some, Option.elim_some, argsOf_typeLine_self, argsOf_answers (Or.inr rfl)]
  · rw [dumpMessage_of_query hqr, dumpQuery_outputs, argsOf_cons_of_ne (by decide), argsOf_append,
      argsOf_nameLines_of_ne (by decide), List.nil_append]
    cases questionsEnd packet (packet.be16 4) sizeofDnshdr with
    | none => rfl
    | some data => exact argsOf_typeLine_self data []

private theorem argsOf_openingLines {format : String} (hidentifier : "Identifier : %d\n" ≠ format)
    (htype : "Type of packet : %s\n" ≠ format) : argsOf format (openingLines packet) = [] := by
  rw [openingLines, argsOf_append, argsOf_cons_of_ne hidentifier, argsOf_cons_of_ne htype]
  rfl

/-- The dump shows what the printer of its kind does, and of an error response nothing. -/
theorem argsOf_dump {format : String} (h : (dnsDissectorHandles packet).value = true)
    (hformat : format = nameFormat packet ∨ format = "Query type : %s (%u)\n") :
    argsOf format (dnsDissectorDump packet).outputs =
      if (packet.byte 3).toNat % 16 ≠ 0 then [] else argsOf format (dumpMessage packet).outputs := by
  have hne : "Identifier : %d\n" ≠ format ∧ "Type of packet : %s\n" ≠ format ∧
      "An error response was received from the remote server\n" ≠ format := by
    rcases hformat with rfl | rfl
    · rw [nameFormat]
      split <;> decide
    · decide
  rw [dnsDissectorDump_outputs h, argsOf_append, argsOf_openingLines hne.1 hne.2.1, List.nil_append]
  by_cases hcode : (packet.byte 3).toNat % 16 ≠ 0
  · rw [if_pos hcode, if_pos hcode, argsOf_cons_of_ne hne.2.2]
    rfl
  · rw [if_neg hcode, if_neg hcode, argsOf_append]
    exact List.append_nil _

end Shown

section Bytes
variable [Memory] (packet : Packet)

/-- The text that is printed of a dotted name. -/
def printed (labels : List Label) : Bytes := cString (dotted labels ++ [0])

/-- Names that print as these texts stand one behind the other from `p` to `e`, as
`dn_expand` reads names. -/
inductive TextsTo : List Bytes → ℕ → ℕ → Prop
  | nil {p : ℕ} : TextsTo [] p p
  | cons {labels : List Label} {texts : List Bytes} {p steps width e : ℕ}
      (here : Spells packet.byte (fromBase sizeofDnshdr) packet.size p labels steps width)
      (hsteps : steps ≤ passes sizeofDnshdr packet.size)
      (hlen : (dotted labels).length < room maxNameLength) (rest : TextsTo texts (p + width) e) :
      TextsTo (printed labels :: texts) p e

/-- The questions of an accepted message. -/
structure QuestionsLaid (questions : List Question) : Prop where
  accepted : (dnsDissectorHandles packet).value = true
  count : packet.be16 4 = questions.length
  holds : Holds packet.byte sizeofDnshdr (questions.flatMap Question.wire)
  inside : sizeofDnshdr + (questions.flatMap Question.wire).length ≤ packet.size

/-- The dump shows the names of the questions, in order, and the type of the last one. -/
structure ShowsQuestions (first : Question) (more : List Question) : Prop where
  names : argsOf (nameFormat packet) (dnsDissectorDump packet).outputs =
    (first :: more).map fun q => [.str (some q.name.text)]
  type : argsOf "Query type : %s (%u)\n" (dnsDissectorDump packet).outputs =
    [typeArgs ((more.getLastD first).type.toNat)]

/-- Behind the name of the first question, names that print as those of the others stand
one behind the other, and then two bytes that are the type of the last. -/
def ReadsOn (first : Question) (more : List Question) : Prop :=
  ∃ e, TextsTo packet (more.map fun q => q.name.text) (sizeofDnshdr + first.name.wire.length) e ∧
    packet.be16 e = (more.getLastD first).type.toNat

variable {packet}

theorem textsTo_cons_iff {text : Bytes} {texts : List Bytes} {p : ℕ} (hlow : sizeofDnshdr ≤ p) (e : ℕ) :
    TextsTo packet (text :: texts) p e ↔ p < packet.size ∧ ∃ width d,
      expandAt packet p = (some width, d) ∧ cString d = text ∧ TextsTo packet texts (p + width) e := by
  constructor
  · intro h
    cases h with
    | cons here hsteps hlen rest =>
      have hp := here.lt_fin
      exact ⟨hp, _, _, (expandAt_iff hlow hp _ _).mpr ⟨_, _, here, hsteps, hlen, rfl⟩, rfl, rest⟩
  · intro h
    obtain ⟨hp, width, d, hexpand, rfl, rest⟩ := h
    obtain ⟨labels, steps, here, hsteps, hlen, rfl⟩ := (expandAt_iff hlow hp width d).mp hexpand
    exact .cons here hsteps hlen rest

theorem loop_succ_iff (n : ℕ) (text : Bytes) (texts : List Bytes) (p e : ℕ) :
    (questionNames packet (n + 1) p = text :: texts ∧ questionsEnd packet (n + 1) p = some e) ↔
      p < packet.size ∧ ∃ width d, expandAt packet p = (some width, d) ∧ cString d = text ∧
        questionNames packet n (p + width) = texts ∧ questionsEnd packet n (p + width) = some e := by
  rw [questionNames, questionsEnd]
  by_cases hp : p < packet.size
  · rw [if_pos hp, if_pos hp]
    cases expandAt packet p with
    | mk width d =>
      cases width with
      | none => simp
      | some width => simp [hp, and_assoc]
  · rw [if_neg hp, if_neg hp]
    simp [hp]

/-- The loop prints as many texts as it has passes exactly where names stand that print so. -/
theorem textsTo_iff (texts : List Bytes) {p : ℕ} (hlow : sizeofDnshdr ≤ p) (e : ℕ) :
    (questionNames packet texts.length p = texts ∧ questionsEnd packet texts.length p = some e) ↔
      TextsTo packet texts p e := by
  induction texts generalizing p with
  | nil =>
    constructor
    · intro h
      obtain ⟨-, hend⟩ := h
      cases hend
      exact .nil
    · intro h
      cases h
      exact ⟨rfl, rfl⟩
  | cons text texts ih =>
    rw [List.length_cons, loop_succ_iff, textsTo_cons_iff hlow]
    apply and_congr_right'
    apply exists_congr
    intro width
    apply exists_congr
    intro d
    rw [ih (hlow.trans (Nat.le_add_right _ _))]

/-- A name written out prints as its text, and what is read behind it is what follows. -/
theorem textsTo_name {n : Name} {texts : List Bytes} {p e : ℕ} (hlow : sizeofDnshdr ≤ p)
    (h : Holds packet.byte p n.wire) (hend : p + n.wire.length ≤ packet.size) :
    TextsTo packet (n.text :: texts) p e ↔ TextsTo packet texts (p + n.wire.length) e := by
  have hpos : 0 < n.wire.length := by
    rw [Name.wire, length_plainWire]
    omega
  have hexpand := expandAt_name hlow h hend
  rw [textsTo_cons_iff hlow]
  constructor
  · intro htexts
    obtain ⟨-, width, d, hexpand', -, rest⟩ := htexts
    rw [hexpand] at hexpand'
    cases hexpand'
    exact rest
  · intro hrest
    exact ⟨by omega, _, _, hexpand, cString_append_zero (text_ne_zero n), hrest⟩

end Bytes

section Questions
variable [Memory] {packet : Packet} {first : Question} {more : List Question}

omit [Memory] in
private theorem typeArgs_inj {type type' : ℕ} : typeArgs type = typeArgs type' ↔ type = type' := by
  constructor
  · intro h
    simp only [typeArgs, List.cons.injEq, Arg.int.injEq] at h
    omega
  · rintro rfl
    rfl

/-- An error response shows no question. -/
theorem showsQuestions_code (haccepted : (dnsDissectorHandles packet).value = true)
    (h : ShowsQuestions packet first more) : (packet.byte 3).toNat % 16 = 0 := by
  by_contra hcode
  have hnames := h.names
  rw [argsOf_dump haccepted (Or.inl rfl), if_pos hcode] at hnames
  exact absurd hnames (List.cons_ne_nil _ _).symm

/-- The lines of a message tell the names the loop expands and the place where it stops. -/
theorem showsQuestions_iff_loop (haccepted : (dnsDissectorHandles packet).value = true)
    (hcode : (packet.byte 3).toNat % 16 = 0) (hcount : packet.be16 4 = (first :: more).length) :
    ShowsQuestions packet first more ↔
      ∃ e, TextsTo packet ((first :: more).map fun q => q.name.text) sizeofDnshdr e ∧
        packet.be16 e = (more.getLastD first).type.toNat := by
  have hinj : Function.Injective fun name : Bytes => [Arg.str (some name)] := by
    intro name name' h
    simpa using h
  have hnames : (first :: more).map (fun q => [Arg.str (some q.name.text)]) =
      ((first :: more).map fun q => q.name.text).map fun name => [Arg.str (some name)] := by
    rw [List.map_map]
    rfl
  have hcount' : packet.be16 4 = ((first :: more).map fun q => q.name.text).length := by
    rw [hcount, List.length_map]
  have hdump : ∀ format, format = nameFormat packet ∨ format = "Query type : %s (%u)\n" →
      argsOf format (dnsDissectorDump packet).outputs = argsOf format (dumpMessage packet).outputs := by
    intro format hformat
    rw [argsOf_dump haccepted hformat, if_neg (not_not.mpr hcode)]
  constructor
  · intro h
    obtain ⟨hnamed, htype⟩ := h
    rw [hdump _ (Or.inl rfl), argsOf_names, hnames, hinj.list_map.eq_iff, hcount'] at hnamed
    rw [hdump _ (Or.inr rfl), argsOf_type, hcount'] at htype
    cases hend : questionsEnd packet ((first :: more).map fun q => q.name.text).length sizeofDnshdr with
    | none =>
      rw [hend] at htype
      exact absurd htype (List.cons_ne_nil _ _).symm
    | some e =>
      rw [hend] at htype
      have htypes := typeArgs_inj.mp (List.singleton_inj.mp htype)
      exact ⟨e, (textsTo_iff _ (Nat.le_refl _) e).mp ⟨hnamed, hend⟩, htypes⟩
  · intro h
    obtain ⟨e, htexts, htype⟩ := h
    obtain ⟨hnamed, hend⟩ := (textsTo_iff _ (Nat.le_refl _) e).mpr htexts
    constructor
    · rw [hdump _ (Or.inl rfl), argsOf_names, hnames, hcount', hnamed]
    · rw [hdump _ (Or.inr rfl), argsOf_type, hcount', hend, Option.elim_some, htype]

/-- What the parts of the first question are. -/
theorem QuestionsLaid.parts_first (h : QuestionsLaid packet (first :: more)) :
    Holds packet.byte sizeofDnshdr first.name.wire ∧
      Holds packet.byte (sizeofDnshdr + first.name.wire.length) (word first.type.toNat) ∧
        sizeofDnshdr + first.name.wire.length ≤ packet.size := by
  have hholds := h.holds
  have hinside := h.inside
  rw [List.flatMap_cons, Question.wire] at hholds hinside
  simp only [holds_append] at hholds
  simp only [List.length_append] at hinside
  obtain ⟨⟨⟨hname, htype⟩, -⟩, -⟩ := hholds
  exact ⟨hname, htype, by omega⟩

theorem readsOn_nil (h : QuestionsLaid packet [first]) : ReadsOn packet first [] :=
  ⟨_, .nil, Packet.be16_of_holds h.parts_first.2.1 first.type.toNat_lt⟩

/-- The questions of an accepted message are shown exactly if it has no error code and there
is one question, or what stands behind the first name reads like the names of the others and
the last type. -/
theorem showsQuestions_iff (h : QuestionsLaid packet (first :: more)) :
    ShowsQuestions packet first more ↔
      (packet.byte 3).toNat % 16 = 0 ∧ (more = [] ∨ ReadsOn packet first more) := by
  obtain ⟨hname, -, hinside⟩ := h.parts_first
  have hshows : (packet.byte 3).toNat % 16 = 0 →
      (ShowsQuestions packet first more ↔ ReadsOn packet first more) := by
    intro hcode
    rw [showsQuestions_iff_loop h.accepted hcode h.count]
    simp only [List.map_cons, textsTo_name (Nat.le_refl _) hname hinside]
    rfl
  constructor
  · intro hshown
    have hcode := showsQuestions_code h.accepted hshown
    exact ⟨hcode, Or.inr ((hshows hcode).mp hshown)⟩
  · rintro ⟨hcode, rfl | hreads⟩
    · exact (hshows hcode).mpr (readsOn_nil h)
    · exact (hshows hcode).mpr hreads

end Questions

private theorem nonzero_letter {b : UInt8} (h : b ≠ 0) : ∀ l ∈ [letter b], ∀ c ∈ l.bytes, c ≠ 0 := by
  intro l hl c hc
  rw [List.mem_singleton.mp hl] at hc
  rw [List.mem_singleton.mp hc]
  exact h

private theorem fits_letter (b : UInt8) : (dotted [letter b]).length ≤ 253 := by
  have htext : dotted [letter b] = [b] := rfl
  rw [htext, List.length_singleton]
  omega

def addressOf (b : UInt8) (h : b ≠ 0) : Question where
  name := ⟨[letter b], nonzero_letter h, fits_letter b⟩
  type := 1
  class_ := ⟨word 1, length_word 1⟩

def forA : Question := addressOf 97 (by decide)
def forB : Question := addressOf 98 (by decide)

def queryHeader : Bytes := [0, 1, 1, 0, 0, 2, 0, 0, 0, 0, 0, 0]

def twoQuestions : Packet where
  data := some (queryHeader ++ [forA, forB].flatMap Question.wire)
  size := (queryHeader ++ [forA, forB].flatMap Question.wire).length
  protocol := 0
  session := some (osiCreateSession 0 0 0)
  sized := by simp

theorem laid_twoQuestions : let _ := zeroMemory
    QuestionsLaid twoQuestions [forA, forB] := by
  intro _
  have hholds : Holds twoQuestions.byte 0 (queryHeader ++ [forA, forB].flatMap Question.wire) :=
    Packet.holds_data rfl
  rw [holds_append] at hholds
  exact ⟨by decide +kernel, by decide +kernel, hholds.2, Nat.le_refl _⟩

theorem showsQuestions_iff_twoQuestions : let _ := zeroMemory
    ShowsQuestions twoQuestions forA [forB] ↔
      (twoQuestions.byte 3).toNat % 16 = 0 ∧ ([forB] = [] ∨ ReadsOn twoQuestions forA [forB]) := by
  intro _
  exact showsQuestions_iff laid_twoQuestions

/-- The type of the first question is read as the name of the second. -/
theorem twoQuestions_not_shown : ¬ ∀ (_ : Memory) (packet : Packet) (first : Question)
    (more : List Question), QuestionsLaid packet (first :: more) →
      ShowsQuestions packet first more := by
  intro h
  let _ := zeroMemory
  have hnames := (h zeroMemory twoQuestions forA [forB] laid_twoQuestions).names
  rw [argsOf_dump laid_twoQuestions.accepted (Or.inl rfl), if_neg (by decide), argsOf_names] at hnames
  exact absurd hnames (by decide +kernel)

end OpenSniffer.DnsQuestions
