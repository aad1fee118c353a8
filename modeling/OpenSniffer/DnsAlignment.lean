import OpenSniffer.DnsRecords

/-!
# From record to record

A record whose fields are read where they are is shown as it is, and the loop goes on behind
it if it is of a type that is shown and declares the length that the type stands for.
-/
namespace OpenSniffer.DnsAlignment
open Packets TextFormats CompressedNames DnsDissector DnsCursor DnsLayout DnsRecords TracedReads

section Alignment
variable [Memory] {packet : Packet} {i c start : ℕ} {records : List Record} {r : Record}

def Displayed (type : ℕ) : Prop := type = nsTA ∨ type = nsTAaaa ∨ IsAlias type

variable (packet) in
/-- The declared length of a record at `p` is that of the address or of the name there. -/
def DeclaresItsData (p : ℕ) (r : Record) : Prop :=
  (r.type.toNat = nsTA ∧ r.rdata.length = 4) ∨ (r.type.toNat = nsTAaaa ∧ r.rdata.length = 16) ∨
    (IsAlias r.type.toNat ∧ NameAt packet (r.dataAt p) r.rdata.length)

variable (packet) in
/-- A record at `p` that the loop gets over: nothing in its owner name is taken for the end
of a string, and its data has the length it declares. -/
structure SelfContained (p : ℕ) (r : Record) : Prop where
  owner : ∀ b ∈ r.owner.wire, b ≠ 0
  data : DeclaresItsData packet p r

variable (packet start records) in
/-- What the loop does at `c` on record `i`: it shows the type and the data of the record,
and goes on behind the data if the record declares its length, but ends on another type. Of
an alias whose name is not legible nothing is said. -/
structure Processed (i c : ℕ) (r : Record) : Prop where
  shown : (dumpAnswer packet i c).outputs =
    .printf (underlined "Response #%zu (%s)\n")
      [.int (i + 1), .text (dnsDissectorTypeToString r.type.toNat)] ::
        (dumpAnswerData packet r.type.toNat (r.dataAt (place start records i))).outputs
  ends : ¬ Displayed r.type.toNat → (dumpAnswer packet i c).value = none
  follows : Displayed r.type.toNat →
    (IsAlias r.type.toNat → ∃ width, NameAt packet (r.dataAt (place start records i)) width) →
      ((dumpAnswer packet i c).value =
          some (r.dataAt (place start records i) + r.rdata.length) ↔
        DeclaresItsData packet (place start records i) r)

private theorem type_lt_of_declares (h : DeclaresItsData packet c r) : r.type.toNat < 256 := by
  rcases h with ⟨htype, -⟩ | ⟨htype, -⟩ | ⟨htype | htype, -⟩
  · rw [htype, nsTA]
    omega
  · rw [htype, nsTAaaa]
    omega
  · rw [htype, nsTNs]
    omega
  · rw [htype, nsTCname]
    omega

/-- Behind the data of a record that declares it stands the next record. -/
theorem nextRecord_of_declares (h : DeclaresItsData packet c r) :
    NextRecord packet (r.dataAt c) r.type.toNat (r.dataAt c + r.rdata.length) := by
  rw [DeclaresItsData] at h
  generalize r.type.toNat = type at h ⊢
  rcases h with ⟨rfl, hlen⟩ | ⟨rfl, hlen⟩ | ⟨halias, here⟩
  · rw [hlen]
    exact .ipv4
  · rw [hlen]
    exact .ipv6
  · exact .name halias here

private theorem declares_of_nextRecord
    (hlegible : IsAlias r.type.toNat → ∃ width, NameAt packet (r.dataAt c) width)
    (h : NextRecord packet (r.dataAt c) r.type.toNat (r.dataAt c + r.rdata.length)) :
    DeclaresItsData packet c r := by
  rw [DeclaresItsData]
  generalize hnext : r.dataAt c + r.rdata.length = next at h
  generalize r.type.toNat = type at hlegible h ⊢
  cases h with
  | ipv4 => exact Or.inl ⟨rfl, by omega⟩
  | ipv6 => exact Or.inr (Or.inl ⟨rfl, by omega⟩)
  | name halias here =>
    have hwidth := Nat.add_left_cancel hnext
    exact Or.inr (Or.inr ⟨halias, hwidth ▸ here⟩)
  | noName halias hnone =>
    obtain ⟨width, here⟩ := hlegible halias
    exact absurd here (hnone width)

private theorem not_nextRecord {type : ℕ} (h : ¬ Displayed type) (data next : ℕ) :
    ¬ NextRecord packet data type next := by
  intro hnext
  cases hnext with
  | ipv4 => exact h (Or.inl rfl)
  | ipv6 => exact h (Or.inr (Or.inl rfl))
  | name halias _ => exact h (Or.inr (Or.inr halias))
  | noName halias _ => exact h (Or.inr (Or.inr halias))

/-- Where the string at the cursor ends at the fields of a record at `p`, these are read. -/
theorem answerType_record {p : ℕ} (h : Holds packet.byte p r.wire)
    (hstring : StringTo packet c (r.fieldsAt p)) : answerType packet c = r.type.toNat := by
  rw [answerType, (stringTo_ownerEnd c).unique hstring, be16_fields h]

theorem answerData_record {p : ℕ} (hstring : StringTo packet c (r.fieldsAt p)) :
    answerData packet c = r.dataAt p := by
  rw [answerData, (stringTo_ownerEnd c).unique hstring, Record.dataAt]

/-- Where the cursor goes from an answer whose fields are read where its record has them. -/
theorem dumpAnswer_record {p : ℕ} (hlow : sizeofDnshdr ≤ c) (h : RecordAt packet p r)
    (hstring : StringTo packet c (r.fieldsAt p)) (next : ℕ) :
    (dumpAnswer packet i c).value = some next ↔
      NextRecord packet (r.dataAt p) r.type.toNat next := by
  have hdata := r.dataAt_add_length p
  have hinside := h.inside
  have hle : answerData packet c ≤ packet.size := by
    rw [answerData_record hstring]
    omega
  rw [dumpAnswer_value, afterAnswer_eq_some_iff hlow hle, answerType_record h.holds hstring,
    answerData_record hstring]

theorem processed_of_stringTo (h : AnswersLaid packet start records) (hr : records[i]? = some r)
    (hlow : sizeofDnshdr ≤ c) (hstring : StringTo packet c (r.fieldsAt (place start records i))) :
    Processed packet start records i c r := by
  have hrecord := h.recordAt hr
  have hnext := dumpAnswer_record (i := i) hlow hrecord hstring
  refine ⟨?_, ?_, ?_⟩
  · rw [dumpAnswer_outputs, answerType_record hrecord.holds hstring, answerData_record hstring]
  · intro hother
    rw [Option.eq_none_iff_forall_ne_some]
    intro next hvalue
    exact not_nextRecord hother _ next ((hnext next).mp hvalue)
  · intro _ hlegible
    rw [hnext]
    exact ⟨declares_of_nextRecord hlegible, nextRecord_of_declares⟩

/-- From a record that is read right and declares its data the loop comes to the next. -/
theorem comesTo_succ (h : AnswersLaid packet start records) (hr : records[i]? = some r)
    (hi : i + 1 < records.length) (hcomes : ComesTo packet i c)
    (hstring : StringTo packet c (r.fieldsAt (place start records i)))
    (hdata : DeclaresItsData packet (place start records i) r) :
    ComesTo packet (i + 1) (place start records (i + 1)) := by
  obtain ⟨hcode, hc, e, hnames, hwalk⟩ := hcomes
  have hnext := nextRecord_of_declares hdata
  have hinside := (h.recordAt (List.getElem?_eq_getElem hi)).inside
  rw [Record.length_wire, sizeofDnsResourceRecord] at hinside
  rw [← be16_fields (h.recordAt hr).holds, Record.dataAt_add_length, ← place_succ hr] at hnext
  exact ⟨hcode, by omega, e, hnames, hwalk.snoc hc hstring hnext⟩

theorem comesTo_add (h : AnswersLaid packet start records) {j : ℕ}
    (hcomes : ComesTo packet j (place start records j)) (n : ℕ) (hn : j + n < records.length)
    (hself : ∀ k r, j ≤ k → k < j + n → records[k]? = some r →
      SelfContained packet (place start records k) r) :
    ComesTo packet (j + n) (place start records (j + n)) := by
  induction n with
  | zero => exact hcomes
  | succ n ih =>
    have hbefore := ih (by omega) (fun k r hj hk => hself k r hj (by omega))
    have hr := List.getElem?_eq_getElem (show j + n < records.length by omega)
    have hrecord := hself (j + n) _ (by omega) (by omega) hr
    have hstring := (stringTo_record (h.recordAt hr).holds).mpr
      ⟨hrecord.owner, type_lt_of_declares hrecord.data⟩
    exact comesTo_succ h hr hn hbefore hstring hrecord.data

end Alignment

def pointedAlias : Record where
  owner := .questioned
  type := 5
  class_ := internet
  ttl := aMinute
  rdata := [1, 97, 0]
  declared := by decide

def mailExchange : Record where
  owner := .questioned
  type := 15
  class_ := internet
  ttl := aMinute
  rdata := [0, 10, 0xc0, 12]
  declared := by decide

def threeAnswers : List Record := [pointedTo, pointedAlias, mailExchange]

theorem laid_threeAnswers : let _ := zeroMemory
    AnswersLaid (withAnswers threeAnswers) 19 threeAnswers := by
  intro _
  exact laid_withAnswers (by decide +kernel) (by decide +kernel)

private theorem selfContained_pointedAlias : let _ := zeroMemory
    SelfContained (withAnswers threeAnswers) (place 19 threeAnswers 1) pointedAlias := by
  intro _
  have hlabel : Holds (withAnswers threeAnswers).byte 47 (Label.wire ⟨[97], by simp, by simp⟩) :=
    ⟨by decide +kernel, by decide +kernel, trivial⟩
  have hname : NameAt (withAnswers threeAnswers) 47 3 :=
    ⟨_, 2, .label hlabel (.terminator (by decide +kernel) (by decide +kernel)), by decide +kernel,
      by decide +kernel⟩
  exact ⟨by decide +kernel, Or.inr (Or.inr ⟨Or.inr rfl, hname⟩)⟩

end OpenSniffer.DnsAlignment
