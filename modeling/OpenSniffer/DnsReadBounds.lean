import OpenSniffer.DnsLayout

/-!
# Which bytes the DNS dump reads

Bounds are tested at the heads of the two loops only. The dump stays inside the packet
exactly when the fields between two loop heads fit.
-/
namespace OpenSniffer.DnsReadBounds
open Packets TextFormats DnsExpansion DnsDissector DnsCursor DnsLayout TracedReads TracedReads.Traced

section Reads
variable [Memory] {packet : Packet}

@[simp] theorem readsWithin_nsGet16 (data lo hi : ℕ) :
    (nsGet16 packet data).ReadsWithin lo hi ↔ lo ≤ data ∧ data + 1 < hi := by
  simp only [nsGet16, readsWithin_bind, Packet.readsWithin_load8, readsWithin_pure, and_true]
  omega

@[simp] theorem readsWithin_nsGet32 (data lo hi : ℕ) :
    (nsGet32 packet data).ReadsWithin lo hi ↔ lo ≤ data ∧ data + 3 < hi := by
  simp only [nsGet32, readsWithin_bind, readsWithin_nsGet16, readsWithin_pure, and_true]
  omega

private theorem readsWithin_strlen (data lo hi : ℕ) :
    (strlen packet data).ReadsWithin lo hi ↔ lo ≤ data ∧ ownerEnd packet data < hi :=
  readsWithin_scan _ _ _

private theorem readsWithin_aRr (data lo hi : ℕ) :
    (aRr packet data).ReadsWithin lo hi ↔ lo ≤ data ∧ data + 4 ≤ hi := by
  simp [aRr, readsWithin_loadRange]

private theorem readsWithin_aaaaRr (data lo hi : ℕ) :
    (aaaaRr packet data).ReadsWithin lo hi ↔ lo ≤ data ∧ data + 16 ≤ hi := by
  simp [aaaaRr, readsWithin_loadRange]

theorem dumpAnswerData_reads (type : ℕ) {data : ℕ} (hlow : sizeofDnshdr ≤ data)
    (hdata : data ≤ packet.size) : (dumpAnswerData packet type data).ReadsWithin 0 packet.size ↔
      (type = nsTA → data + 4 ≤ packet.size) ∧ (type = nsTAaaa → data + 16 ≤ packet.size) := by
  have hname := cnameRr_reads hlow hdata
  simp only [dumpAnswerData, readsWithin_ite, readsWithin_bind, readsWithin_aRr, readsWithin_aaaaRr,
    printf, readsWithin_print, readsWithin_pure, hname, and_true, Nat.zero_le, true_and, ite_self]
  by_cases ha : type = nsTA
  · have hne : type ≠ nsTAaaa := by
      rw [ha]
      decide
    rw [if_pos ha]
    exact ⟨fun h => ⟨fun _ => h, fun h' => absurd h' hne⟩, fun h => h.1 ha⟩
  by_cases haaaa : type = nsTAaaa
  · rw [if_neg ha, if_pos haaaa]
    exact ⟨fun h => ⟨fun h' => absurd h' ha, fun _ => h⟩, fun h => h.2 haaaa⟩
  · rw [if_neg ha, if_neg haaaa]
    exact iff_of_true trivial ⟨fun h => absurd h ha, fun h => absurd h haaaa⟩

theorem dumpAnswer_reads (i : ℕ) {data : ℕ} (hlow : sizeofDnshdr ≤ data) :
    (dumpAnswer packet i data).ReadsWithin 0 packet.size ↔ AnswerFits packet data := by
  have howner : ownerEnd packet data = data + (strlen packet data).value := rfl
  have htype : (nsGet16 packet (ownerEnd packet data)).value = answerType packet data := rfl
  have hdata : ownerEnd packet data + sizeofDnsResourceRecord = answerData packet data := rfl
  have hten : sizeofDnsResourceRecord = 10 := rfl
  simp only [dumpAnswer, readsWithin_bind, readsWithin_strlen, printf, readsWithin_print,
    ← howner, htype, hdata, readsWithin_nsGet16, readsWithin_nsGet32, Nat.zero_le, true_and]
  constructor
  · intro hreads
    obtain ⟨-, -, -, -, hlen, hswitch⟩ := hreads
    have hfixed : answerData packet data ≤ packet.size := by omega
    rw [dumpAnswerData_reads _ (by omega) hfixed] at hswitch
    exact ⟨hfixed, hswitch.1, hswitch.2⟩
  · intro h
    have hfixed := h.fixed
    rw [dumpAnswerData_reads _ (by omega) hfixed]
    exact ⟨by omega, by omega, by omega, by omega, by omega, h.ipv4, h.ipv6⟩

/-- The loop stays inside the packet exactly when every answer it reads fits. -/
theorem dumpAnswers_reads (n i : ℕ) {data : ℕ} (hlow : sizeofDnshdr ≤ data) :
    (dumpAnswers packet n i data).ReadsWithin 0 packet.size ↔
      ∀ c ∈ answerCursors packet n data, AnswerFits packet c := by
  induction n generalizing i data with
  | zero => simp [dumpAnswers, answerCursors]
  | succ n ih =>
    rw [dumpAnswers, answerCursors, readsWithin_ite]
    by_cases hdata : data < packet.size
    · rw [if_pos hdata, if_pos hdata, readsWithin_bind, dumpAnswer_reads i hlow, dumpAnswer_value,
        List.forall_mem_cons]
      apply and_congr_right
      intro _
      cases hnext : afterAnswer packet data with
      | none => simp
      | some next =>
        have := le_afterAnswer hnext
        have := le_answerData packet data
        exact ih (i + 1) (by omega)
    · rw [if_neg hdata, if_neg hdata]
      simp

section Header
variable (hsize : 12 ≤ packet.size)
include hsize

theorem qr_reads : (qr packet).ReadsWithin 0 packet.size := by
  simp [qr]
  omega

theorem byteThree_reads : (rcode packet).ReadsWithin 0 packet.size ∧
    (unused packet).ReadsWithin 0 packet.size := by
  simp [rcode, unused]
  omega

theorem counts_reads : (qcount packet).ReadsWithin 0 packet.size ∧
    (ancount packet).ReadsWithin 0 packet.size ∧ (nscount packet).ReadsWithin 0 packet.size ∧
      (arcount packet).ReadsWithin 0 packet.size := by
  simp [qcount, ancount, nscount, arcount]
  omega

private theorem dnsDissectorTypeOfPacket_reads :
    (dnsDissectorTypeOfPacket packet).ReadsWithin 0 packet.size := by
  simp only [dnsDissectorTypeOfPacket, readsWithin_bind, readsWithin_ite, readsWithin_pure, ite_self,
    and_true]
  exact qr_reads hsize

private theorem getMinimumPacketSize_reads : (getMinimumPacketSize packet).ReadsWithin 0 packet.size := by
  have hcounts := counts_reads hsize
  simp only [getMinimumPacketSize, readsWithin_bind, readsWithin_ite, readsWithin_pure, ite_self,
    and_true]
  exact ⟨hcounts.1, hcounts.2.1, qr_reads hsize⟩

end Header

private theorem dnsDissectorHandles_reads : (dnsDissectorHandles packet).ReadsWithin 0 packet.size := by
  rw [dnsDissectorHandles, readsWithin_ite]
  by_cases h : packet.data = none ∨ packet.size < sizeofDnshdr ∨ packet.session = none
  · rw [if_pos h]
    exact readsWithin_pure _
  · have hsize : 12 ≤ packet.size := Nat.not_lt.mp (fun hs => h (Or.inr (Or.inl hs)))
    have hcounts := counts_reads hsize
    have hthree := byteThree_reads hsize
    have hroom := getMinimumPacketSize_reads hsize
    rw [if_neg h]
    simp only [readsWithin_bind, readsWithin_ite, readsWithin_pure, hroom, ite_self, and_true]
    exact ⟨hcounts.1, hcounts.2.1, hthree.2, hthree.1⟩

/-- What lies between the loop heads fits: the type, or type and class, behind the
question names, and the fields of every answer the loop reads. -/
def CursorFits (packet : Packet) : Prop :=
  ∀ data ∈ questionsEnd packet (packet.be16 4) sizeofDnshdr,
    if (packet.byte 2).toNat / 128 ≠ 0 then
      data + 4 ≤ packet.size ∧
        ∀ c ∈ answerCursors packet (packet.be16 6) (data + 4), AnswerFits packet c
    else data + 2 ≤ packet.size

/-- Behind the question names there is room for a type, or for a type, a class and the
records. -/
def MessageFits (packet : Packet) : Prop :=
  ∀ e, NamesTo packet (packet.be16 4) sizeofDnshdr e →
    if (packet.byte 2).toNat / 128 ≠ 0 then
      e + 4 ≤ packet.size ∧ RecordsFit packet (packet.be16 6) (e + 4)
    else e + 2 ≤ packet.size

private theorem messageFits_iff : MessageFits packet ↔ CursorFits packet := by
  rw [MessageFits, CursorFits]
  apply forall_congr'
  intro e
  rw [Option.mem_def, questionsEnd_eq_some_iff _ (Nat.le_refl _)]
  apply imp_congr_right
  intro hnames
  have hend := (questionsEnd_eq_some_iff _ (Nat.le_refl _) e).mpr hnames
  have hlow : sizeofDnshdr ≤ e + 4 := (le_questionsEnd hend).trans (Nat.le_add_right _ _)
  rw [recordsFit_iff _ hlow]

section Message
variable (hsize : 12 ≤ packet.size)
include hsize

private theorem dnsDissectorDumpQueryPacket_reads :
    (dnsDissectorDumpQueryPacket packet).ReadsWithin 0 packet.size ↔
      ∀ data ∈ questionsEnd packet (packet.be16 4) sizeofDnshdr, data + 2 ≤ packet.size := by
  have hcounts := counts_reads hsize
  have hquestions : ∀ format, (dumpQuestions packet format (packet.be16 4) sizeofDnshdr).ReadsWithin
      0 packet.size := fun format => dumpQuestions_reads _ _ (Nat.le_refl _)
  simp only [dnsDissectorDumpQueryPacket, readsWithin_bind, printf, readsWithin_print, value_qcount,
    hcounts.1, hquestions, true_and, dumpQuestions_value]
  cases questionsEnd packet (packet.be16 4) sizeofDnshdr with
  | none => simp
  | some data =>
    simp only [readsWithin_bind, readsWithin_nsGet16, readsWithin_print, and_true, Nat.zero_le,
      true_and, Option.mem_some_iff, forall_eq']
    exact Nat.lt_iff_add_one_le

private theorem dnsDissectorDumpResponsePacket_reads :
    (dnsDissectorDumpResponsePacket packet).ReadsWithin 0 packet.size ↔
      ∀ data ∈ questionsEnd packet (packet.be16 4) sizeofDnshdr, data + 4 ≤ packet.size ∧
        ∀ c ∈ answerCursors packet (packet.be16 6) (data + 4), AnswerFits packet c := by
  have hcounts := counts_reads hsize
  have hthree := byteThree_reads hsize
  have hquestions : ∀ format, (dumpQuestions packet format (packet.be16 4) sizeofDnshdr).ReadsWithin
      0 packet.size := fun format => dumpQuestions_reads _ _ (Nat.le_refl _)
  simp only [dnsDissectorDumpResponsePacket, readsWithin_bind, printf, readsWithin_print,
    value_qcount, value_ancount, hcounts, hthree, hquestions, true_and, dumpQuestions_value]
  cases hend : questionsEnd packet (packet.be16 4) sizeofDnshdr with
  | none => simp
  | some data =>
    have hlow : sizeofDnshdr ≤ data + 4 := (le_questionsEnd hend).trans (Nat.le_add_right _ _)
    simp only [readsWithin_bind, readsWithin_nsGet16, readsWithin_print, Nat.zero_le, true_and,
      dumpAnswers_reads _ _ hlow, Option.mem_some_iff, forall_eq']
    constructor
    · intro h
      obtain ⟨-, hclass, hanswers⟩ := h
      exact ⟨hclass, hanswers⟩
    · intro h
      obtain ⟨hclass, hanswers⟩ := h
      exact ⟨by omega, hclass, hanswers⟩

theorem dumpMessage_reads : (dumpMessage packet).ReadsWithin 0 packet.size ↔ CursorFits packet := by
  rw [dumpMessage, readsWithin_bind, readsWithin_ite, CursorFits, value_qr,
    dnsDissectorDumpQueryPacket_reads hsize, dnsDissectorDumpResponsePacket_reads hsize]
  simp only [qr_reads hsize, true_and]
  by_cases h : (packet.byte 2).toNat / 128 ≠ 0
  · simp only [if_pos h]
  · simp only [if_neg h]

end Message

/-- Nothing but the message itself can lead the dump of an accepted packet out of it. -/
theorem dnsDissectorDump_reads (h : (dnsDissectorHandles packet).value = true) :
    (dnsDissectorDump packet).ReadsWithin 0 packet.size ↔
      (packet.byte 3).toNat % 16 ≠ 0 ∨ (dumpMessage packet).ReadsWithin 0 packet.size := by
  have hsize : 12 ≤ packet.size := ((dnsDissectorHandles_iff packet).mp h).2.header
  have hid : (packet.load16 0).ReadsWithin 0 packet.size := by
    simp
    omega
  simp only [dnsDissectorDump, readsWithin_bind, dnsDissectorHandles_reads, h, if_true, printf,
    outputHeader, outputFooter, readsWithin_print, hid, dnsDissectorTypeOfPacket_reads hsize,
    (byteThree_reads hsize).1, true_and]
  have hvalue : (rcode packet).value = (packet.byte 3).toNat % 16 := rfl
  by_cases hcode : (packet.byte 3).toNat % 16 ≠ 0
  · rw [if_pos (hvalue ▸ hcode)]
    exact iff_of_true (readsWithin_print _) (Or.inl hcode)
  · rw [if_neg (hvalue ▸ hcode), readsWithin_bind]
    exact ⟨fun h => Or.inr h.1, fun h => ⟨h.resolve_left hcode, readsWithin_print _⟩⟩

/-- The dump of an accepted packet reads inside it exactly when the message carries an
error code, or a question name is invalid, or the message fits the packet. -/
theorem dnsDissectorDump_reads_iff (h : (dnsDissectorHandles packet).value = true) :
    (dnsDissectorDump packet).ReadsWithin 0 packet.size ↔
      (packet.byte 3).toNat % 16 ≠ 0 ∨ MessageFits packet := by
  rw [dnsDissectorDump_reads h, dumpMessage_reads ((dnsDissectorHandles_iff packet).mp h).2.header,
    messageFits_iff]

end Reads

/-- Twelve zero bytes: a query without questions. -/
def bareHeader : Packet where
  data := some (List.replicate 12 0)
  size := 12
  protocol := 0
  session := some (osiCreateSession 0 0 0)
  sized := by simp

theorem dnsDissectorDump_reads_iff_bareHeader :
    let _ := zeroMemory
    (dnsDissectorHandles bareHeader).value = true ∧
      ((dnsDissectorDump bareHeader).ReadsWithin 0 bareHeader.size ↔
        (bareHeader.byte 3).toNat % 16 ≠ 0 ∨ MessageFits bareHeader) := by
  intro _
  exact ⟨by decide, dnsDissectorDump_reads_iff (by decide)⟩

/-- The type of the query is read behind the header, which is the whole packet. -/
theorem dnsDissectorDump_bareHeader_reads_past : ¬ ∀ (_ : Memory) (packet : Packet),
    (dnsDissectorHandles packet).value = true →
      (dnsDissectorDump packet).ReadsWithin 0 packet.size := by
  intro h
  let _ := zeroMemory
  have hread : 12 ∈ (dnsDissectorDump bareHeader).reads := by decide
  have hbound := h zeroMemory bareHeader (by decide) 12 hread
  exact absurd hbound.2 (by decide)

end OpenSniffer.DnsReadBounds
