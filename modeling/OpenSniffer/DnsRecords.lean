import OpenSniffer.DnsLayout

/-!
# Resource records

The records of a message in the standard's format, whatever they hold: an owner name in any
form, a type, and data of the length that the record declares. The answer loop looks for a
record's fields behind the first zero byte of its owner name, and for the next record behind
data whose length it takes from the type.
-/
namespace OpenSniffer.DnsRecords
open Packets CompressedNames DnsExpansion DnsDissector DnsCursor DnsLayout TracedReads
  TracedReads.Traced

/-- What ends the labels of a name. -/
inductive Ending where
  | zero
  | pointer (high low : UInt8) (opens : 192 ≤ high.toNat)

def Ending.wire : Ending → Bytes
  | .zero => [0]
  | .pointer high low _ => [high, low]

/-- The name of a record's owner; without labels, the root or a mere pointer. -/
structure Owner where
  labels : List Label
  ending : Ending

def Owner.wire (o : Owner) : Bytes := o.labels.flatMap Label.wire ++ o.ending.wire

structure Record where
  owner : Owner
  type : UInt16
  class_ : Octets 2
  ttl : Octets 4
  rdata : Bytes
  declared : rdata.length < 65536

namespace Record

def wire (r : Record) : Bytes :=
  r.owner.wire ++ word r.type.toNat ++ r.class_.1 ++ r.ttl.1 ++ word r.rdata.length ++ r.rdata

/-- Where the fields of a record at `p` start, and where its data does. -/
def fieldsAt (r : Record) (p : ℕ) : ℕ := p + r.owner.wire.length

def dataAt (r : Record) (p : ℕ) : ℕ := r.fieldsAt p + sizeofDnsResourceRecord

theorem length_wire (r : Record) :
    r.wire.length = r.owner.wire.length + sizeofDnsResourceRecord + r.rdata.length := by
  simp only [wire, List.length_append, length_word, r.class_.2, r.ttl.2, sizeofDnsResourceRecord]

theorem dataAt_add_length (r : Record) (p : ℕ) : r.dataAt p + r.rdata.length = p + r.wire.length := by
  rw [dataAt, fieldsAt, length_wire]
  omega

end Record

/-- Where record `i` of a list that starts at `start` stands. -/
def place (start : ℕ) (records : List Record) (i : ℕ) : ℕ :=
  start + ((records.take i).flatMap Record.wire).length

theorem place_succ {start i : ℕ} {records : List Record} {r : Record} (hr : records[i]? = some r) :
    place start records (i + 1) = place start records i + r.wire.length := by
  rw [place, place, List.take_add_one, hr, Option.toList_some, List.flatMap_append, List.length_append,
    List.flatMap_singleton, Nat.add_assoc]

section Loop
variable [Memory] (packet : Packet)

/-- A record is written at `p`, all of it inside the packet. -/
structure RecordAt (p : ℕ) (r : Record) : Prop where
  holds : Holds packet.byte p r.wire
  inside : p + r.wire.length ≤ packet.size

/-- The answers of an accepted response stand one behind the other, all of them inside the
packet. -/
structure AnswersLaid (start : ℕ) (records : List Record) : Prop where
  accepted : (dnsDissectorHandles packet).value = true
  response : (packet.byte 2).toNat / 128 ≠ 0
  count : packet.be16 6 = records.length
  holds : Holds packet.byte start (records.flatMap Record.wire)
  inside : start + (records.flatMap Record.wire).length ≤ packet.size

/-- The cursor at each answer that the dump of a response reads; it reads none of one with
an error code. -/
def answers : List ℕ :=
  if (packet.byte 3).toNat % 16 ≠ 0 then []
  else (questionsEnd packet (packet.be16 4) sizeofDnshdr).elim [] fun data =>
    answerCursors packet (packet.be16 6) (data + 4)

/-- The ten cells that answer `i` reads behind its owner's string, for its type, class,
TTL and length. -/
def fieldCells (i : ℕ) : Option (List ℕ) :=
  (answers packet)[i]?.map fun c =>
    ((dumpAnswer packet i c).reads.drop (strlen packet c).reads.length).take sizeofDnsResourceRecord

/-- Over `n` records from `p` to `c`, each a string up to its zero byte, ten bytes, and data
whose length its type tells. -/
inductive WalkTo : ℕ → ℕ → ℕ → Prop
  | here {p : ℕ} : WalkTo p 0 p
  | past {p z next n c : ℕ} (inside : p < packet.size) (string : StringTo packet p z)
      (data : NextRecord packet (z + sizeofDnsResourceRecord) (packet.be16 z) next)
      (rest : WalkTo next n c) : WalkTo p (n + 1) c

/-- Behind the names of the questions and four bytes, a walk over `i` records ends at `c`. -/
def ComesTo (i c : ℕ) : Prop :=
  (packet.byte 3).toNat % 16 = 0 ∧ c < packet.size ∧
    ∃ e, NamesTo packet (packet.be16 4) sizeofDnshdr e ∧ WalkTo packet (e + 4) i c

end Loop

section Walk
variable [Memory] {packet : Packet} {i c : ℕ}

theorem WalkTo.le {p n : ℕ} (h : WalkTo packet p n c) : p ≤ c := by
  induction h with
  | here => exact Nat.le_refl _
  | past _ string data _ ih =>
    have hstring := string.le
    have hdata := data.le
    omega

/-- A walk that ends on a record goes on over it. -/
theorem WalkTo.snoc {p n z next : ℕ} (h : WalkTo packet p n c) (hc : c < packet.size)
    (hstring : StringTo packet c z)
    (hnext : NextRecord packet (z + sizeofDnsResourceRecord) (packet.be16 z) next) :
    WalkTo packet p (n + 1) next := by
  induction h with
  | here => exact .past hc hstring hnext .here
  | past inside string data _ ih => exact .past inside string data (ih hc hstring)

/-- The loop goes on at a cursor inside the packet exactly behind a record. -/
theorem afterAnswer_iff_nextRecord {p next : ℕ} (hlow : sizeofDnshdr ≤ p) (hnext : next ≤ packet.size) :
    afterAnswer packet p = some next ↔
      NextRecord packet (answerData packet p) (answerType packet p) next := by
  constructor
  · intro h
    exact (afterAnswer_eq_some_iff hlow ((le_afterAnswer h).trans hnext) next).mp h
  · intro h
    exact (afterAnswer_eq_some_iff hlow (h.le.trans hnext) next).mpr h

private theorem le_of_mem_answerCursors {n p : ℕ} (h : c ∈ answerCursors packet n p) : p ≤ c := by
  induction n generalizing p with
  | zero => exact absurd h List.not_mem_nil
  | succ n ih =>
    rw [answerCursors] at h
    split at h
    · rcases List.mem_cons.mp h with rfl | h
      · exact Nat.le_refl _
      · cases hnext : afterAnswer packet p with
        | none =>
          rw [hnext] at h
          exact absurd h List.not_mem_nil
        | some next =>
          rw [hnext] at h
          have hle := le_afterAnswer hnext
          have hdata := le_answerData packet p
          have hrest := ih h
          omega
    · exact absurd h List.not_mem_nil

/-- The loop comes to answer `i` at the end of a walk over the `i` records before it. -/
private theorem walkTo_of_answerCursors {n p : ℕ} (hlow : sizeofDnshdr ≤ p)
    (h : (answerCursors packet n p)[i]? = some c) : i < n ∧ c < packet.size ∧ WalkTo packet p i c := by
  induction n generalizing p i with
  | zero => simp [answerCursors] at h
  | succ n ih =>
    rw [answerCursors] at h
    split at h
    · next hp =>
      cases i with
      | zero =>
        obtain rfl : p = c := by simpa using h
        exact ⟨Nat.succ_pos n, hp, .here⟩
      | succ i =>
        rw [List.getElem?_cons_succ] at h
        cases hnext : afterAnswer packet p with
        | none =>
          rw [hnext] at h
          simp at h
        | some next =>
          rw [hnext, Option.elim_some] at h
          have hdata := le_answerData packet p
          have hle := le_afterAnswer hnext
          have hc := le_of_mem_answerCursors (List.mem_of_getElem? h)
          obtain ⟨hi, hin, hwalk⟩ := ih (by omega) h
          have hrecord := (afterAnswer_iff_nextRecord hlow (by omega)).mp hnext
          exact ⟨by omega, hin, .past hp (stringTo_ownerEnd p) hrecord hwalk⟩
    · simp at h

private theorem answerCursors_of_walkTo {n p : ℕ} (hlow : sizeofDnshdr ≤ p) (hi : i < n) (hc : c < packet.size)
    (hwalk : WalkTo packet p i c) : (answerCursors packet n p)[i]? = some c := by
  obtain ⟨n, rfl⟩ := Nat.exists_eq_succ_of_ne_zero (Nat.ne_of_gt (Nat.zero_lt_of_lt hi))
  induction hwalk generalizing n with
  | here => rw [answerCursors, if_pos hc, List.getElem?_cons_zero]
  | @past p _ next i c hp string data rest ih =>
    obtain rfl := string.unique (stringTo_ownerEnd p)
    have hdata := le_answerData packet p
    have hle := data.le
    have hrest := rest.le
    have hnext : afterAnswer packet p = some next :=
      (afterAnswer_iff_nextRecord hlow (by omega)).mpr data
    have hlow' : sizeofDnshdr ≤ next := by
      rw [answerData] at hdata
      omega
    obtain ⟨m, rfl⟩ := Nat.exists_eq_succ_of_ne_zero (by omega : n ≠ 0)
    rw [answerCursors, if_pos hp, List.getElem?_cons_succ, hnext, Option.elim_some]
    exact ih hlow' hc m (by omega)

theorem getElem?_answerCursors_iff {n p : ℕ} (hlow : sizeofDnshdr ≤ p) :
    (answerCursors packet n p)[i]? = some c ↔ i < n ∧ c < packet.size ∧ WalkTo packet p i c := by
  constructor
  · exact walkTo_of_answerCursors hlow
  · rintro ⟨hi, hc, hwalk⟩
    exact answerCursors_of_walkTo hlow hi hc hwalk

theorem getElem?_answers_iff : (answers packet)[i]? = some c ↔ i < packet.be16 6 ∧ ComesTo packet i c := by
  rw [answers, ComesTo]
  by_cases hcode : (packet.byte 3).toNat % 16 = 0
  · rw [if_neg (not_not.mpr hcode)]
    constructor
    · intro h
      cases hend : questionsEnd packet (packet.be16 4) sizeofDnshdr with
      | none =>
        rw [hend] at h
        simp at h
      | some e =>
        rw [hend, Option.elim_some] at h
        have hle := le_questionsEnd hend
        obtain ⟨hi, hc, hwalk⟩ := (getElem?_answerCursors_iff (by omega)).mp h
        exact ⟨hi, hcode, hc, e, (questionsEnd_eq_some_iff _ (Nat.le_refl _) e).mp hend, hwalk⟩
    · rintro ⟨hi, -, hc, e, hnames, hwalk⟩
      have hend := (questionsEnd_eq_some_iff _ (Nat.le_refl _) e).mpr hnames
      have hle := le_questionsEnd hend
      rw [hend, Option.elim_some]
      exact (getElem?_answerCursors_iff (by omega)).mpr ⟨hi, hc, hwalk⟩
  · rw [if_pos hcode]
    simp [hcode]

theorem le_of_comesTo (h : ComesTo packet i c) : sizeofDnshdr ≤ c := by
  obtain ⟨-, -, e, hnames, hwalk⟩ := h
  have hend := (questionsEnd_eq_some_iff _ (Nat.le_refl _) e).mpr hnames
  have hle := le_questionsEnd hend
  have hwalk' := hwalk.le
  omega

end Walk

section Fields
variable [Memory] {packet : Packet} {i c start : ℕ} {records : List Record} {r : Record}

private theorem dumpAnswer_reads_eq (i c : ℕ) : (dumpAnswer packet i c).reads =
    (strlen packet c).reads ++ (List.range' (ownerEnd packet c) sizeofDnsResourceRecord ++
      (dumpAnswerData packet (answerType packet c) (answerData packet c)).reads) := rfl

theorem fieldCells_eq (h : (answers packet)[i]? = some c) :
    fieldCells packet i = some (List.range' (ownerEnd packet c) sizeofDnsResourceRecord) := by
  have hlen : (List.range' (ownerEnd packet c) sizeofDnsResourceRecord).length =
      sizeofDnsResourceRecord := List.length_range'
  rw [fieldCells, h, Option.map_some, dumpAnswer_reads_eq, List.drop_left, List.take_left' hlen]

/-- The fields of an answer are read behind the string at the cursor. -/
theorem fieldCells_eq_some_iff (z : ℕ) :
    fieldCells packet i = some (List.range' z sizeofDnsResourceRecord) ↔
      ∃ c, (answers packet)[i]? = some c ∧ StringTo packet c z := by
  constructor
  · intro hcells
    cases hc : (answers packet)[i]? with
    | none =>
      rw [fieldCells, hc] at hcells
      cases hcells
    | some c =>
      rw [fieldCells_eq hc, Option.some.injEq] at hcells
      have howner := (List.range'_inj.mp hcells).2.resolve_left (by decide)
      exact ⟨c, rfl, howner ▸ stringTo_ownerEnd c⟩
  · rintro ⟨c, hc, hstring⟩
    rw [fieldCells_eq hc, (stringTo_ownerEnd c).unique hstring]

theorem fieldCells_of_answers (h : (answers packet)[i]? = some c) (z : ℕ) :
    fieldCells packet i = some (List.range' z sizeofDnsResourceRecord) ↔ StringTo packet c z := by
  rw [fieldCells_eq_some_iff]
  constructor
  · rintro ⟨c', hc', hstring⟩
    obtain rfl : c' = c := Option.some.inj (hc'.symm.trans h)
    exact hstring
  · exact fun hstring => ⟨c, h, hstring⟩

/-- What the parts of a record are. -/
theorem holds_record (h : Holds packet.byte c r.wire) :
    Holds packet.byte c r.owner.wire ∧ Holds packet.byte (r.fieldsAt c) (word r.type.toNat) ∧
      Holds packet.byte (r.dataAt c) r.rdata := by
  simp only [Record.wire, holds_append, List.length_append, length_word, r.class_.2, r.ttl.2] at h
  obtain ⟨⟨⟨⟨⟨howner, htype⟩, -⟩, -⟩, -⟩, hdata⟩ := h
  have hat : r.dataAt c = c + (r.owner.wire.length + 2 + 2 + 4 + 2) := by
    rw [Record.dataAt, Record.fieldsAt, sizeofDnsResourceRecord]
    omega
  exact ⟨howner, htype, hat ▸ hdata⟩

theorem be16_fields (h : Holds packet.byte c r.wire) :
    packet.be16 (r.fieldsAt c) = r.type.toNat :=
  Packet.be16_of_holds (holds_record h).2.1 r.type.toNat_lt

theorem byte_fields (h : Holds packet.byte c r.wire) :
    packet.byte (r.fieldsAt c) = 0 ↔ r.type.toNat < 256 := by
  have hlt := r.type.toNat_lt
  rw [(holds_record h).2.1.1, ← UInt8.toNat_inj, UInt8.toNat_ofNat']
  change r.type.toNat / 256 % 2 ^ 8 = 0 ↔ _
  omega

/-- The string at a record is its owner name if that has no zero byte and the type's first
byte is zero. -/
theorem stringTo_record (h : Holds packet.byte c r.wire) : StringTo packet c (r.fieldsAt c) ↔
    (∀ b ∈ r.owner.wire, b ≠ 0) ∧ r.type.toNat < 256 := by
  have hnonzero := forall_cells_iff (holds_record h).1 (· ≠ 0)
  rw [← hnonzero, ← byte_fields h]
  constructor
  · intro hstring
    exact ⟨hstring.nonzero, hstring.zero⟩
  · intro hall
    exact ⟨Nat.le_add_right _ _, hall.2, hall.1⟩

theorem AnswersLaid.recordAt (h : AnswersLaid packet start records) (hr : records[i]? = some r) :
    RecordAt packet (place start records i) r := by
  obtain ⟨hi, hget⟩ := List.getElem?_eq_some_iff.mp hr
  have hsplit : records = records.take i ++ r :: records.drop (i + 1) := by
    rw [← hget, List.getElem_cons_drop hi, List.take_append_drop]
  have hholds := h.holds
  have hinside := h.inside
  rw [hsplit, List.flatMap_append, List.flatMap_cons] at hholds hinside
  rw [holds_append, holds_append] at hholds
  simp only [List.length_append] at hinside
  refine ⟨hholds.2.1, ?_⟩
  rw [place]
  omega

/-- The loop comes to answer `i` of a message with that many records. -/
theorem AnswersLaid.answers_iff (h : AnswersLaid packet start records) (hr : records[i]? = some r) :
    (answers packet)[i]? = some c ↔ ComesTo packet i c := by
  obtain ⟨hi, -⟩ := List.getElem?_eq_some_iff.mp hr
  rw [getElem?_answers_iff, h.count]
  exact and_iff_right hi

/-- The loop reads the fields of record `i` where they are. -/
def ReadsRecord (packet : Packet) (start : ℕ) (records : List Record) (i : ℕ) (r : Record) : Prop :=
  fieldCells packet i =
    some (List.range' (r.fieldsAt (place start records i)) sizeofDnsResourceRecord)

instance (packet : Packet) (start : ℕ) (records : List Record) (i : ℕ) (r : Record) :
    Decidable (ReadsRecord packet start records i r) := inferInstanceAs (Decidable (_ = _))

end Fields

/-- A response with one question, for the name `b`, and answers. -/
def withAnswers (records : List Record) : Packet where
  data := some ([0, 1, 0x80, 0, 0, 1, 0, UInt8.ofNat records.length, 0, 0, 0, 0] ++ [1, 98, 0, 0, 1, 0, 1] ++
    records.flatMap Record.wire)
  size := 19 + (records.flatMap Record.wire).length
  protocol := 0
  session := some (osiCreateSession 0 0 0)
  sized := by
    intro bytes h
    cases h
    rw [List.length_append]
    rfl

theorem laid_withAnswers [Memory] {records : List Record}
    (haccepted : (dnsDissectorHandles (withAnswers records)).value = true)
    (hcount : (withAnswers records).be16 6 = records.length) :
    AnswersLaid (withAnswers records) 19 records := by
  have hholds : Holds (withAnswers records).byte 0 _ := Packet.holds_data rfl
  rw [holds_append] at hholds
  obtain ⟨⟨-, -, hflags, -⟩, hrecords⟩ := hholds
  refine ⟨haccepted, ?_, hcount, hrecords, Nat.le_refl _⟩
  rw [hflags]
  decide

def internet : Octets 2 := ⟨[0, 1], rfl⟩

def aMinute : Octets 4 := ⟨[0, 0, 0, 60], rfl⟩

def Owner.questioned : Owner := ⟨[], .pointer 0xc0 12 (by decide)⟩

def pointedTo : Record where
  owner := .questioned
  type := 1
  class_ := internet
  ttl := aMinute
  rdata := [127, 0, 0, 1]
  declared := by decide

def writtenOut : Record where
  owner := ⟨[⟨[98], by simp, by simp⟩], .zero⟩
  type := 1
  class_ := internet
  ttl := aMinute
  rdata := [127, 0, 0, 1]
  declared := by decide

theorem laid_pointedTo_writtenOut : let _ := zeroMemory
    AnswersLaid (withAnswers [pointedTo, writtenOut]) 19 [pointedTo, writtenOut] := by
  intro _
  exact laid_withAnswers (by decide +kernel) (by decide +kernel)

theorem comesTo_writtenOut : let _ := zeroMemory
    ComesTo (withAnswers [pointedTo, writtenOut]) 1 (place 19 [pointedTo, writtenOut] 1) := by
  intro _
  exact (getElem?_answers_iff.mp (by decide +kernel)).2

end OpenSniffer.DnsRecords
