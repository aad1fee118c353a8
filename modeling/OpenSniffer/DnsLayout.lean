import OpenSniffer.DnsCursor

/-!
# Where a message's bytes put its parts

The questions and records of a message as `dns.c` delimits them, told from the bytes and
not from the loops: a name is what the labels and pointers at a place spell, and a record
is a string up to its zero byte, ten bytes of fixed fields, and data whose length is known
from the type. The cursor of the two loops goes from part to part.
-/
namespace OpenSniffer.DnsLayout
open Packets CompressedNames DnsExpansion DnsDissector DnsCursor TracedReads TracedReads.Traced

section Layout
variable [Memory] (packet : Packet)

/-- A name of `width` bytes is written at `p`, with pointers counted from the first
question, and is within the limits of `dn_expand`. -/
def NameAt (p width : ℕ) : Prop :=
  ∃ labels steps, Spells packet.byte (fromBase sizeofDnshdr) packet.size p labels steps width ∧
    steps ≤ passes sizeofDnshdr packet.size ∧ (dotted labels).length < room maxNameLength

/-- Up to `n` names stand one behind the other from `p` to `e`; fewer, if the packet ends. -/
inductive NamesTo : ℕ → ℕ → ℕ → Prop
  | zero {p : ℕ} : NamesTo 0 p p
  | outside {n p : ℕ} (h : packet.size ≤ p) : NamesTo (n + 1) p p
  | name {n p width e : ℕ} (here : NameAt packet p width) (rest : NamesTo n (p + width) e) :
      NamesTo (n + 1) p e

/-- The string at `p` has its zero byte at `z`. -/
structure StringTo (p z : ℕ) : Prop where
  le : p ≤ z
  zero : packet.byte z = 0
  nonzero : ∀ i, p ≤ i → i < z → packet.byte i ≠ 0

/-- Behind data at `data`, of a record of some type, the next record starts at a place.
Nothing is looked for behind a record of another type. -/
inductive NextRecord (data : ℕ) : ℕ → ℕ → Prop
  | ipv4 : NextRecord data nsTA (data + 4)
  | ipv6 : NextRecord data nsTAaaa (data + 16)
  | name {type width : ℕ} (halias : IsAlias type) (here : NameAt packet data width) :
      NextRecord data type (data + width)
  | noName {type : ℕ} (halias : IsAlias type) (none : ∀ width, ¬ NameAt packet data width) :
      NextRecord data type data

/-- The fixed fields of up to `n` records from `p` on, and the addresses behind them, lie
inside the packet. -/
def RecordsFit : ℕ → ℕ → Prop
  | 0, _ => True
  | n + 1, p => p < packet.size → ∃ z, StringTo packet p z ∧
      z + sizeofDnsResourceRecord ≤ packet.size ∧
      (packet.be16 z = nsTA → z + sizeofDnsResourceRecord + 4 ≤ packet.size) ∧
      (packet.be16 z = nsTAaaa → z + sizeofDnsResourceRecord + 16 ≤ packet.size) ∧
      ∀ next, NextRecord packet (z + sizeofDnsResourceRecord) (packet.be16 z) next →
        RecordsFit n next

end Layout

section Cursor
variable [Memory] {packet : Packet}

/-- What is expanded is a name within the limits, and its dotted text. -/
theorem expandAt_iff {p : ℕ} (hlow : sizeofDnshdr ≤ p) (hp : p < packet.size) (width : ℕ) (d : Bytes) :
    expandAt packet p = (some width, d) ↔
      ∃ labels steps, Spells packet.byte (fromBase sizeofDnshdr) packet.size p labels steps width ∧
        steps ≤ passes sizeofDnshdr packet.size ∧ (dotted labels).length < room maxNameLength ∧
          d = dotted labels ++ [0] :=
  dnExpand_iff hlow hp (by decide) width d

theorem expandAt_eq_some_iff {p : ℕ} (hlow : sizeofDnshdr ≤ p) (hp : p ≤ packet.size) (width : ℕ) :
    (expandAt packet p).1 = some width ↔ NameAt packet p width := by
  rcases Nat.lt_or_eq_of_le hp with hin | rfl
  · have hiff := expandAt_iff hlow hin width
    constructor
    · intro h
      obtain ⟨labels, steps, hspells, hsteps, hlen, -⟩ := (hiff (expandAt packet p).2).mp (Prod.ext h rfl)
      exact ⟨labels, steps, hspells, hsteps, hlen⟩
    · intro hname
      obtain ⟨labels, steps, hspells, hsteps, hlen⟩ := hname
      exact congrArg Prod.fst ((hiff _).mpr ⟨labels, steps, hspells, hsteps, hlen, rfl⟩)
  · have hnone : expandAt packet packet.size = (none, []) := by
      rw [expandAt, dnExpand, if_pos (Or.inl rfl)]
      rfl
    rw [hnone]
    constructor
    · intro h
      cases h
    · intro hname
      obtain ⟨labels, steps, hspells, -⟩ := hname
      exact absurd hspells.lt_fin (Nat.lt_irrefl _)

theorem expandAt_eq_none_iff {p : ℕ} (hlow : sizeofDnshdr ≤ p) (hp : p ≤ packet.size) :
    (expandAt packet p).1 = none ↔ ∀ width, ¬ NameAt packet p width := by
  rw [Option.eq_none_iff_forall_ne_some]
  apply forall_congr'
  intro width
  rw [ne_eq, expandAt_eq_some_iff hlow hp]

theorem NameAt.lt_size {p width : ℕ} (h : NameAt packet p width) : p < packet.size := by
  obtain ⟨_, _, hspells, -⟩ := h
  exact hspells.lt_fin

/-- The question loop leaves its cursor where the names end. -/
theorem questionsEnd_eq_some_iff (n : ℕ) {p : ℕ} (hlow : sizeofDnshdr ≤ p) (e : ℕ) :
    questionsEnd packet n p = some e ↔ NamesTo packet n p e := by
  induction n generalizing p with
  | zero =>
    rw [questionsEnd, Option.some.injEq]
    constructor
    · rintro rfl
      exact .zero
    · intro h
      cases h
      rfl
  | succ n ih =>
    rw [questionsEnd]
    by_cases hp : p < packet.size
    · rw [if_pos hp, Option.bind_eq_some_iff]
      constructor
      · intro hnames
        obtain ⟨width, hwidth, hrest⟩ := hnames
        have here := (expandAt_eq_some_iff hlow (Nat.le_of_lt hp) width).mp hwidth
        exact .name here ((ih (hlow.trans (Nat.le_add_right _ _))).mp hrest)
      · intro h
        cases h with
        | outside hout => exact absurd hp (Nat.not_lt.mpr hout)
        | name here rest =>
          exact ⟨_, (expandAt_eq_some_iff hlow (Nat.le_of_lt hp) _).mpr here,
            (ih (hlow.trans (Nat.le_add_right _ _))).mpr rest⟩
    · rw [if_neg hp, Option.some.injEq]
      constructor
      · rintro rfl
        exact .outside (Nat.not_lt.mp hp)
      · intro h
        cases h with
        | outside _ => rfl
        | name here _ => exact absurd here.lt_size hp

theorem stringTo_ownerEnd (p : ℕ) : StringTo packet p (ownerEnd packet p) := by
  rw [ownerEnd]
  generalize hlen : (strlen packet p).value = n
  induction n generalizing p with
  | zero =>
    have hzero : packet.byte p = 0 := by
      by_contra hne
      rw [strlen_of_ne_zero hne] at hlen
      omega
    exact ⟨Nat.le_refl _, hzero, fun i hi hlt => absurd hi (Nat.not_le.mpr hlt)⟩
  | succ n ih =>
    have hne : packet.byte p ≠ 0 := by
      intro hzero
      rw [strlen_of_zero hzero] at hlen
      omega
    rw [strlen_of_ne_zero hne, Nat.add_right_cancel_iff] at hlen
    have hrest := ih (p + 1) hlen
    rw [Nat.add_right_comm, Nat.add_assoc] at hrest
    refine ⟨Nat.le_add_right _ _, hrest.zero, ?_⟩
    intro i hi hlt
    rcases Nat.lt_or_eq_of_le hi with hi | rfl
    · exact hrest.nonzero i hi hlt
    · exact hne

theorem StringTo.unique {p z z' : ℕ} (h : StringTo packet p z) (h' : StringTo packet p z') :
    z = z' := by
  rcases Nat.lt_trichotomy z z' with hlt | heq | hgt
  · exact absurd h.zero (h'.nonzero z h.le hlt)
  · exact heq
  · exact absurd h'.zero (h.nonzero z' h'.le hgt)

theorem NextRecord.le {data type next : ℕ} (h : NextRecord packet data type next) : data ≤ next := by
  cases h <;> omega

theorem afterAnswer_eq_some_iff {p : ℕ} (hlow : sizeofDnshdr ≤ p)
    (hdata : answerData packet p ≤ packet.size) (next : ℕ) :
    afterAnswer packet p = some next ↔
      NextRecord packet (answerData packet p) (answerType packet p) next := by
  have hlow' : sizeofDnshdr ≤ answerData packet p :=
    (hlow.trans (Nat.le_add_right _ _)).trans (le_answerData packet p)
  rw [afterAnswer]
  constructor
  · intro h
    split at h
    · rename_i htype
      cases h
      rw [htype]
      exact .ipv4
    split at h
    · rename_i htype
      cases h
      rw [htype]
      exact .ipv6
    split at h
    · rename_i halias
      cases h
      cases hname : (expandAt packet (answerData packet p)).1 with
      | none => exact .noName halias ((expandAt_eq_none_iff hlow' hdata).mp hname)
      | some width => exact .name halias ((expandAt_eq_some_iff hlow' hdata width).mp hname)
    · cases h
  · intro h
    generalize answerType packet p = type at h ⊢
    cases h with
    | ipv4 => rw [if_pos rfl]
    | ipv6 => rw [if_neg (by decide), if_pos rfl]
    | name halias here =>
      have hne := ne_address_of_isAlias halias
      rw [if_neg hne.1, if_neg hne.2, if_pos halias,
        (expandAt_eq_some_iff hlow' hdata _).mpr here, Option.getD_some]
    | noName halias hnone =>
      have hne := ne_address_of_isAlias halias
      rw [if_neg hne.1, if_neg hne.2, if_pos halias,
        (expandAt_eq_none_iff hlow' hdata).mpr hnone, Option.getD_none, Nat.add_zero]

/-- The answers that the loop reads fit exactly when the records do. -/
theorem recordsFit_iff (n : ℕ) {p : ℕ} (hlow : sizeofDnshdr ≤ p) :
    RecordsFit packet n p ↔ ∀ c ∈ answerCursors packet n p, AnswerFits packet c := by
  induction n generalizing p with
  | zero => simp [RecordsFit, answerCursors]
  | succ n ih =>
    rw [RecordsFit, answerCursors]
    by_cases hp : p < packet.size
    · rw [if_pos hp, List.forall_mem_cons]
      have hrest : answerData packet p ≤ packet.size →
          ((∀ next, NextRecord packet (answerData packet p) (answerType packet p) next →
            RecordsFit packet n next) ↔
          ∀ c ∈ (afterAnswer packet p).elim [] (answerCursors packet n), AnswerFits packet c) := by
        intro hdata
        simp only [← afterAnswer_eq_some_iff hlow hdata]
        cases hnext : afterAnswer packet p with
        | none => simp
        | some next =>
          have hle := le_afterAnswer hnext
          have hle' := le_answerData packet p
          simp only [Option.some.injEq, forall_eq', Option.elim_some]
          exact ih (by omega)
      constructor
      · intro h
        obtain ⟨z, hz, hfixed, hipv4, hipv6, hnext⟩ := h hp
        obtain rfl := hz.unique (stringTo_ownerEnd p)
        exact ⟨⟨hfixed, hipv4, hipv6⟩, (hrest hfixed).mp hnext⟩
      · rintro ⟨hfits, hnext⟩ -
        exact ⟨_, stringTo_ownerEnd p, hfits.fixed, hfits.ipv4, hfits.ipv6,
          (hrest hfits.fixed).mpr hnext⟩
    · rw [if_neg hp]
      exact iff_of_true (fun h => absurd h hp) (by simp)

end Cursor
end OpenSniffer.DnsLayout
