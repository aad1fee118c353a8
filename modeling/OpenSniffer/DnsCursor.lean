import OpenSniffer.DnsDissector

/-!
# Where the DNS dump's cursor goes

The two loops of the dump, seen through their cursor alone: the places where a
question name is expanded, and the places where an answer is read. What the loops
print and which bytes they read are then statements about these places.
-/
namespace OpenSniffer.DnsCursor
open Packets TextFormats DnsExpansion DnsDissector TracedReads TracedReads.Traced

section Cursor
variable [Memory] (packet : Packet)

/-- What `dn_expand` returns and writes for a name at `data`. -/
def expandAt (data : ℕ) : Option ℕ × Bytes :=
  (dnExpand packet sizeofDnshdr packet.size data maxNameLength).value

/-- The cursor after the question names, unless one of them is invalid. -/
def questionsEnd : ℕ → ℕ → Option ℕ
  | 0, data => some data
  | n + 1, data =>
    if data < packet.size then (expandAt packet data).1.bind fun size => questionsEnd n (data + size)
    else some data

def questionNames : ℕ → ℕ → List Bytes
  | 0, _ => []
  | n + 1, data =>
    if data < packet.size then
      (expandAt packet data).1.elim [] fun size =>
        cString (expandAt packet data).2 :: questionNames n (data + size)
    else []

/-- Where the string of an answer's owner name ends. -/
def ownerEnd (data : ℕ) : ℕ := data + (strlen packet data).value

def answerType (data : ℕ) : ℕ := packet.be16 (ownerEnd packet data)

def answerData (data : ℕ) : ℕ := ownerEnd packet data + sizeofDnsResourceRecord

abbrev IsAlias (type : ℕ) : Prop := type = nsTNs ∨ type = nsTCname

omit [Memory] in
theorem ne_address_of_isAlias {type : ℕ} (h : IsAlias type) : type ≠ nsTA ∧ type ≠ nsTAaaa := by
  rcases h with rfl | rfl <;> decide

/-- The cursor after the answer at `data`, unless its type ends the loop. -/
def afterAnswer (data : ℕ) : Option ℕ :=
  if answerType packet data = nsTA then some (answerData packet data + 4)
  else if answerType packet data = nsTAaaa then some (answerData packet data + 16)
  else if IsAlias (answerType packet data) then
    some (answerData packet data + (expandAt packet (answerData packet data)).1.getD 0)
  else none

/-- The cursor at each answer that the loop reads, with `n` answers to go. -/
def answerCursors : ℕ → ℕ → List ℕ
  | 0, _ => []
  | n + 1, data =>
    if data < packet.size then data :: (afterAnswer packet data).elim [] (answerCursors n) else []

/-- The fields that are read of the answer at `data` lie inside the packet. -/
structure AnswerFits (data : ℕ) : Prop where
  fixed : answerData packet data ≤ packet.size
  ipv4 : answerType packet data = nsTA → answerData packet data + 4 ≤ packet.size
  ipv6 : answerType packet data = nsTAaaa → answerData packet data + 16 ≤ packet.size

/-- What `%s` gets for the target name at `data`. -/
def aliasArg (data : ℕ) : Arg := .str ((expandAt packet data).1.map fun _ => cString (expandAt packet data).2)

end Cursor

section Strings
variable [Memory] {packet : Packet}

private theorem drop_of_byte_ne_zero {i : ℕ} (h : packet.byte i ≠ 0) :
    packet.image.drop i = packet.byte i :: packet.image.drop (i + 1) := by
  by_cases hi : i < packet.image.length
  · rw [List.drop_eq_getElem_cons hi, Packet.byte, List.getD_eq_getElem?_getD,
      List.getElem?_eq_getElem hi, Option.getD_some]
  · exact absurd (by simp [Packet.byte, Nat.not_lt.mp hi]) h

theorem strlen_of_zero {i : ℕ} (h : packet.byte i = 0) : (strlen packet i).value = 0 := by
  rw [strlen, value_scan]
  by_cases hi : i < packet.image.length
  · have hget : packet.image[i] = 0 := by
      rw [← h, Packet.byte, List.getD_eq_getElem?_getD, List.getElem?_eq_getElem hi, Option.getD_some]
    rw [List.drop_eq_getElem_cons hi, hget]
    rfl
  · rw [List.drop_eq_nil_of_le (Nat.not_lt.mp hi)]
    rfl

theorem strlen_of_ne_zero {i : ℕ} (h : packet.byte i ≠ 0) :
    (strlen packet i).value = (strlen packet (i + 1)).value + 1 := by
  rw [strlen, strlen, value_scan, value_scan, drop_of_byte_ne_zero h, List.takeWhile_cons_of_pos,
    List.length_cons]
  simpa using h

/-- A string is as long as the bytes before its zero byte. -/
theorem strlen_of_holds {i : ℕ} {bytes : Bytes} (h : Holds packet.byte i bytes)
    (hne : ∀ b ∈ bytes, b ≠ 0) (hzero : packet.byte (i + bytes.length) = 0) :
    (strlen packet i).value = bytes.length := by
  induction bytes generalizing i with
  | nil => exact strlen_of_zero hzero
  | cons b bytes ih =>
    obtain ⟨hb, hbytes⟩ := h
    have hbne : packet.byte i ≠ 0 := hb ▸ hne b List.mem_cons_self
    have hnext : i + 1 + bytes.length = i + (b :: bytes).length := by
      rw [List.length_cons]
      omega
    rw [strlen_of_ne_zero hbne, ih hbytes (fun b hb => hne b (List.mem_cons_of_mem _ hb))
      (hnext ▸ hzero), List.length_cons]

end Strings

section Questions
variable [Memory] {packet : Packet} {format : String}

theorem expandAt_reads {data : ℕ} (hlow : sizeofDnshdr ≤ data) (hdata : data ≤ packet.size) :
    (dnExpand packet sizeofDnshdr packet.size data maxNameLength).ReadsWithin 0 packet.size :=
  (dnExpand_reads hlow hdata).mono (Nat.zero_le _) (Nat.le_refl _)

theorem dumpQuestions_value (n data : ℕ) :
    (dumpQuestions packet format n data).value = questionsEnd packet n data := by
  induction n generalizing data with
  | zero => rfl
  | succ n ih =>
    rw [dumpQuestions, questionsEnd, Traced.value_ite]
    by_cases hdata : data < packet.size
    · rw [if_pos hdata, if_pos hdata, Traced.value_bind, expandAt]
      cases (dnExpand packet sizeofDnshdr packet.size data maxNameLength).value with
      | mk size buffer =>
        cases size with
        | none => rfl
        | some size => exact ih (data + size)
    · rw [if_neg hdata, if_neg hdata]
      rfl

theorem dumpQuestions_outputs (n data : ℕ) :
    (dumpQuestions packet format n data).outputs =
      (questionNames packet n data).map fun name => .printf format [.str (some name)] := by
  induction n generalizing data with
  | zero => rfl
  | succ n ih =>
    rw [dumpQuestions, questionNames, Traced.outputs_ite]
    by_cases hdata : data < packet.size
    · rw [if_pos hdata, if_pos hdata, Traced.outputs_bind, outputs_dnExpand, expandAt]
      cases (dnExpand packet sizeofDnshdr packet.size data maxNameLength).value with
      | mk size buffer =>
        cases size with
        | none => rfl
        | some size => exact congrArg (List.cons _) (ih (data + size))
    · rw [if_neg hdata, if_neg hdata]
      rfl

/-- The questions are read inside the packet, whatever they are. -/
theorem dumpQuestions_reads (n data : ℕ) (hlow : sizeofDnshdr ≤ data) :
    (dumpQuestions packet format n data).ReadsWithin 0 packet.size := by
  induction n generalizing data with
  | zero => exact readsWithin_pure _
  | succ n ih =>
    rw [dumpQuestions, readsWithin_ite]
    split
    · rename_i hdata
      rw [readsWithin_bind]
      refine ⟨expandAt_reads hlow (Nat.le_of_lt hdata), ?_⟩
      cases (dnExpand packet sizeofDnshdr packet.size data maxNameLength).value with
      | mk size buffer =>
        cases size with
        | none => exact readsWithin_pure _
        | some size =>
          rw [readsWithin_bind]
          exact ⟨readsWithin_print _, ih (data + size) (by omega)⟩
    · exact readsWithin_pure _

theorem le_questionsEnd {n data e : ℕ} (h : questionsEnd packet n data = some e) : data ≤ e := by
  induction n generalizing data with
  | zero =>
    cases h
    exact Nat.le_refl _
  | succ n ih =>
    rw [questionsEnd] at h
    split at h
    · obtain ⟨size, -, h⟩ := Option.bind_eq_some_iff.mp h
      exact (Nat.le_add_right _ _).trans (ih h)
    · cases h
      exact Nat.le_refl _

end Questions

section Answers
variable [Memory] {packet : Packet}

theorem cnameRr_value (data : ℕ) : (cnameRr packet sizeofDnshdr packet.size data).value =
    (aliasArg packet data, data + (expandAt packet data).1.getD 0) := by
  rw [cnameRr, Traced.value_bind, aliasArg, expandAt]
  cases (dnExpand packet sizeofDnshdr packet.size data maxNameLength).value with
  | mk size buffer => cases size <;> rfl

theorem cnameRr_outputs (data : ℕ) :
    (cnameRr packet sizeofDnshdr packet.size data).outputs = [] := by
  rw [cnameRr, Traced.outputs_bind, outputs_dnExpand]
  cases (dnExpand packet sizeofDnshdr packet.size data maxNameLength).value with
  | mk size buffer => cases size <;> rfl

theorem cnameRr_reads {data : ℕ} (hlow : sizeofDnshdr ≤ data) (hdata : data ≤ packet.size) :
    (cnameRr packet sizeofDnshdr packet.size data).ReadsWithin 0 packet.size := by
  rw [cnameRr, readsWithin_bind]
  refine ⟨expandAt_reads hlow hdata, ?_⟩
  cases (dnExpand packet sizeofDnshdr packet.size data maxNameLength).value with
  | mk size buffer => cases size <;> exact readsWithin_pure _

/-- An alias is shown, and the cursor moves over a name that expands. -/
theorem dumpAnswerData_alias {type : ℕ} (h : IsAlias type) (data : ℕ) :
    (dumpAnswerData packet type data).value = some (data + (expandAt packet data).1.getD 0) ∧
      (dumpAnswerData packet type data).outputs = [.printf aliasFormat [aliasArg packet data]] := by
  have hne := ne_address_of_isAlias h
  rw [dumpAnswerData, if_neg hne.1, if_neg hne.2, if_pos h, Traced.value_bind, Traced.outputs_bind,
    cnameRr_outputs, cnameRr_value]
  exact ⟨rfl, rfl⟩

theorem dumpAnswer_value (i data : ℕ) :
    (dumpAnswer packet i data).value = afterAnswer packet data := by
  simp only [dumpAnswer, dumpAnswerData, Traced.value_bind, Traced.value_ite, Traced.value_pure, cnameRr_value]
  rfl

theorem dumpAnswer_outputs (i data : ℕ) : (dumpAnswer packet i data).outputs =
    .printf (underlined "Response #%zu (%s)\n")
      [.int (i + 1), .text (dnsDissectorTypeToString (answerType packet data))] ::
        (dumpAnswerData packet (answerType packet data) (answerData packet data)).outputs := rfl

theorem le_afterAnswer {data next : ℕ} (h : afterAnswer packet data = some next) :
    answerData packet data ≤ next := by
  rw [afterAnswer] at h
  split at h
  · cases h
    omega
  split at h
  · cases h
    omega
  split at h
  · cases h
    omega
  · cases h

variable (packet) in
theorem le_answerData (data : ℕ) : data + sizeofDnsResourceRecord ≤ answerData packet data := by
  rw [answerData, ownerEnd]
  omega

theorem dumpAnswers_outputs (n i data : ℕ) :
    (dumpAnswers packet n i data).outputs =
      ((answerCursors packet n data).zipIdx i).flatMap fun c => (dumpAnswer packet c.2 c.1).outputs := by
  induction n generalizing i data with
  | zero => rfl
  | succ n ih =>
    rw [dumpAnswers, answerCursors, Traced.outputs_ite]
    by_cases hdata : data < packet.size
    · rw [if_pos hdata, if_pos hdata, Traced.outputs_bind, dumpAnswer_value, List.zipIdx_cons,
        List.flatMap_cons]
      cases afterAnswer packet data with
      | none => rfl
      | some next => exact congrArg (_ ++ ·) (ih (i + 1) next)
    · rw [if_neg hdata, if_neg hdata]
      rfl

section PrintsOnly
variable {P : Line → Prop} (hipv4 : ∀ args, P (.printf "IPv4 address : %s\n" args))
  (hipv6 : ∀ args, P (.printf "IPv6 address : %s\n" args))
  (halias : ∀ args, P (.printf aliasFormat args))
include hipv4 hipv6 halias

private theorem dumpAnswerData_printsOnly (type data : ℕ) :
    (dumpAnswerData packet type data).PrintsOnly P := by
  have ha : (aRr packet data).PrintsOnly P := printsOnly_of_silent (outputs_aRr _ _)
  have haaaa : (aaaaRr packet data).PrintsOnly P := printsOnly_of_silent (outputs_aaaaRr _ _)
  have hname : (cnameRr packet sizeofDnshdr packet.size data).PrintsOnly P :=
    printsOnly_of_silent (cnameRr_outputs _)
  simp only [dumpAnswerData, printsOnly_ite, printsOnly_bind, ha, haaaa, hname, printf,
    printsOnly_print, hipv4, hipv6, halias, printsOnly_pure, and_self, ite_self]

/-- The lines of the answer loop have four formats. -/
theorem dumpAnswers_printsOnly
    (hnumber : ∀ args, P (.printf (underlined "Response #%zu (%s)\n") args)) (n i data : ℕ) :
    (dumpAnswers packet n i data).PrintsOnly P := by
  intro line hline
  rw [dumpAnswers_outputs] at hline
  obtain ⟨c, -, hline⟩ := List.mem_flatMap.mp hline
  rw [dumpAnswer_outputs] at hline
  rcases List.mem_cons.mp hline with rfl | hline
  · exact hnumber _
  · exact dumpAnswerData_printsOnly hipv4 hipv6 halias _ _ line hline

end PrintsOnly

end Answers

section Printers
variable [Memory] (packet : Packet)

def nameLine (format : String) (name : Bytes) : Line := .printf format [.str (some name)]

def typeLine (data : ℕ) : Line :=
  .printf "Query type : %s (%u)\n"
    [.text (dnsDissectorTypeToString (packet.be16 data)), .int (packet.be16 data)]

def countLines : List Line := [
  .printf "Response code : %d\n" [.int ((packet.byte 3).toNat % 16)],
  .printf "# of questions : %d\n" [.int (packet.be16 4)],
  .printf "# of answers : %d\n" [.int (packet.be16 6)],
  .printf "# of authoritative servers : %d\n" [.int (packet.be16 8)],
  .printf "# of additional records : %d\n" [.int (packet.be16 10)]]

theorem dumpQuery_outputs : (dnsDissectorDumpQueryPacket packet).outputs =
    .printf "# of questions : %d\n" [.int (packet.be16 4)] ::
      ((questionNames packet (packet.be16 4) sizeofDnshdr).map (nameLine "Query : %s\n") ++
        (questionsEnd packet (packet.be16 4) sizeofDnshdr).elim [] fun data =>
          [typeLine packet data]) := by
  simp only [dnsDissectorDumpQueryPacket, Traced.outputs_bind, outputs_qcount, printf, outputs_print,
    dumpQuestions_outputs, dumpQuestions_value, value_qcount, List.nil_append, List.cons_append]
  cases questionsEnd packet (packet.be16 4) sizeofDnshdr <;> rfl

theorem dumpResponse_outputs : (dnsDissectorDumpResponsePacket packet).outputs =
    countLines packet ++
      ((questionNames packet (packet.be16 4) sizeofDnshdr).map (nameLine "Query address : %s\n") ++
        (questionsEnd packet (packet.be16 4) sizeofDnshdr).elim [] fun data =>
          typeLine packet data :: (dumpAnswers packet (packet.be16 6) 0 (data + 4)).outputs) := by
  simp only [dnsDissectorDumpResponsePacket, Traced.outputs_bind, outputs_qcount, outputs_ancount,
    outputs_rcode, outputs_nscount, outputs_arcount, printf, outputs_print, dumpQuestions_outputs,
    dumpQuestions_value, value_qcount, value_ancount, value_nscount, value_arcount, value_rcode,
    List.nil_append, List.cons_append, countLines]
  cases questionsEnd packet (packet.be16 4) sizeofDnshdr <;> rfl

variable {packet}

theorem dumpMessage_of_response (hqr : (packet.byte 2).toNat / 128 ≠ 0) :
    (dumpMessage packet).outputs = (dnsDissectorDumpResponsePacket packet).outputs := by
  have hvalue : (qr packet).value ≠ 0 := hqr
  rw [dumpMessage, Traced.outputs_bind, outputs_qr, if_pos hvalue, List.nil_append]

theorem dumpMessage_of_query (hqr : ¬ (packet.byte 2).toNat / 128 ≠ 0) :
    (dumpMessage packet).outputs = (dnsDissectorDumpQueryPacket packet).outputs := by
  have hvalue : ¬ (qr packet).value ≠ 0 := hqr
  rw [dumpMessage, Traced.outputs_bind, outputs_qr, if_neg hvalue, List.nil_append]

variable (packet) in
def openingLines : List Line := (outputHeader lightBlue 20 "DNS Header" "  " 21).outputs ++ [
  .printf "Identifier : %d\n" [.int (packet.be16 0)],
  .printf "Type of packet : %s\n" [.text (dnsDissectorTypeOfPacket packet).value]]

/-- The dump of an accepted message: only one without an error code is shown and has its
block ended. -/
theorem dnsDissectorDump_outputs (h : (dnsDissectorHandles packet).value = true) :
    (dnsDissectorDump packet).outputs = openingLines packet ++
      if (packet.byte 3).toNat % 16 ≠ 0 then
        [.printf "An error response was received from the remote server\n" []]
      else (dumpMessage packet).outputs ++ outputFooter.outputs := by
  rw [dnsDissectorDump, Traced.outputs_bind, outputs_dnsDissectorHandles, h, if_pos rfl]
  simp only [Traced.outputs_bind, Packet.outputs_load16, Packet.value_load16, Packet.ntohs_le16,
    outputs_dnsDissectorTypeOfPacket, outputs_rcode, List.nil_append, openingLines, printf, outputs_print,
    List.append_assoc]
  by_cases hcode : (packet.byte 3).toNat % 16 ≠ 0
  · have hvalue : (rcode packet).value ≠ 0 := hcode
    rw [if_pos hcode, if_pos hvalue]
    rfl
  · have hvalue : ¬ (rcode packet).value ≠ 0 := hcode
    rw [if_neg hcode, if_neg hvalue]
    rfl

end Printers
end OpenSniffer.DnsCursor
