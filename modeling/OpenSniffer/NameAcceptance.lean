import OpenSniffer.NameEncoding
import OpenSniffer.NameSafety

/-!
# What `dn_expand` accepts

A length is returned for the standard's names, and for readings that meet a reserved byte;
-1 is returned for everything else, if the counter of the passes does not run over.
-/
namespace OpenSniffer.NameAcceptance
open Packets CompressedNames NameReadings DnsExpansion NameEncoding NameSafety CountedLoops TracedReads

section Definitions
variable [Memory] (packet : Packet) (base fin src : ℕ) (space : ℤ)

/-- By the standard the reading at `src` comes to a zero byte in the buffer and to no place
twice; it is `m` bytes wide there, and `d` is its dotted text, short enough. -/
def IsName (m : ℕ) (d : Bytes) : Prop :=
  ∃ labels parts, Reading packet.byte (standardFrom base) fin src labels parts m ∧
    (parts.map Part.start).Nodup ∧ ((dotted labels).length : ℤ) < min space 254 ∧ d = dotted labels ++ [0]

/-- `dn_expand` returns a length for names only, and -1 for what is none. -/
structure AcceptsNames : Prop where
  accepted : ∀ m d, Returns packet base fin src space (some m, d) → IsName packet base fin src space m d
  rejected : (∀ m d, ¬ IsName packet base fin src space m d) →
    ∃ d, Returns packet base fin src space (none, d)

/-- The reading at `src` that takes reserved bytes for pointers stands on none of them, if
it comes to an end with no more parts than passes and a text that is short enough. -/
def MeetsNoReserved : Prop :=
  ∀ labels parts width, Reading packet.byte (fromBase base) fin src labels parts width →
    parts.length ≤ passes base fin → ((dotted labels).length : ℤ) < min space 254 →
      ∀ part ∈ parts, ¬ Reserved (packet.byte part.start)

/-- From `p` the reading goes on over labels and pointers, that many of them, inside the
buffer and with a text below the limit. -/
inductive GoesOn (limit : ℕ) : ℕ → ℕ → Bytes → Prop
  | here {p : ℕ} {text : Bytes} : GoesOn limit 0 p text
  | label {n p : ℕ} {text : Bytes} {l : Label} (here : Holds packet.byte p l.wire)
      (inside : p + l.wire.length < fin) (short : (extend text l).length < limit)
      (rest : GoesOn limit n (p + l.wire.length) (extend text l)) : GoesOn limit (n + 1) p text
  | pointer {n p : ℕ} {text : Bytes} (opens : 64 ≤ (packet.byte p).toNat) (inside : p + 1 ≠ fin)
      (target : offset (packet.byte p) (packet.byte (p + 1)) < fin - base)
      (rest : GoesOn limit n (base + offset (packet.byte p) (packet.byte (p + 1))) text) :
      GoesOn limit (n + 1) p text

/-- The buffer has as many bytes as the largest `int`, and the reading at `src` goes on for
all of the 2^30 passes. -/
def Overruns : Prop :=
  fin - base = intMax ∧ src < fin ∧ 0 < space ∧ GoesOn packet base fin (room space.toNat) (2 ^ 30) src []

end Definitions

section Accepted
variable [Memory] {packet : Packet} {base fin src limit m : ℕ} {space : ℤ} {d : Bytes}

omit [Memory] in
theorem lt_room_iff (labels : List Label) :
    (dotted labels).length < room space.toNat ↔ ((dotted labels).length : ℤ) < min space 254 := by
  rw [room_eq_min]
  omega

private theorem goesOn_of_pass {n : ℕ} {s next : Expansion}
    (hpass : (dnExpandPass packet base fin src limit s).value = .next next)
    (hrest : GoesOn packet base fin limit n next.p next.dest) :
    GoesOn packet base fin limit (n + 1) s.p s.dest := by
  rcases byte_cases packet.byte s.p with hp | ⟨l, hl⟩ | hz
  · rw [dnExpandPass_pointer hp] at hpass
    split at hpass
    · cases hpass
    · next hin =>
      rw [not_or] at hin
      cases hpass
      exact .pointer hp hin.1 (Nat.not_le.mp hin.2) hrest
  · rw [dnExpandPass_label hl] at hpass
    split at hpass
    · cases hpass
    · next hin =>
      rw [not_or] at hin
      cases hpass
      exact .label hl (Nat.not_le.mp hin.1) (Nat.not_le.mp hin.2) hrest
  · rw [dnExpandPass_terminator hz] at hpass
    cases hpass

/-- The loop is still going on after a number of passes exactly if the reading is. -/
theorem iterate_goes_iff (n : ℕ) (s : Expansion) :
    (∃ s', (expandLoop packet base fin src limit).iterate n s = .inl s') ↔
      GoesOn packet base fin limit n s.p s.dest := by
  induction n generalizing s with
  | zero => exact iff_of_true ⟨s, rfl⟩ .here
  | succ n ih =>
    constructor
    · rintro ⟨s', h⟩
      cases hbody : (expandLoop packet base fin src limit).body s with
      | inr result =>
        rw [Loop.iterate_of_returns hbody] at h
        cases h
      | inl next =>
        rw [Loop.iterate_of_goes hbody] at h
        exact goesOn_of_pass (expandLoop_goes_iff.mp hbody) ((ih next).mp ⟨s', h⟩)
    · intro h
      have hstep : ∀ next, (dnExpandPass packet base fin src limit s).value = .next next →
          GoesOn packet base fin limit n next.p next.dest →
            ∃ s', (expandLoop packet base fin src limit).iterate (n + 1) s = .inl s' := by
        intro next hpass hrest
        rw [Loop.iterate_of_goes (expandLoop_goes_iff.mpr hpass)]
        exact (ih next).mpr hrest
      cases h with
      | @label _ _ _ l here inside short rest =>
        refine hstep ⟨s.p + l.wire.length, extend s.dest l, s.len⟩ ?_ rest
        rw [dnExpandPass_label here, if_neg (by omega)]
      | pointer opens inside target rest =>
        refine hstep ⟨_, s.dest, some (s.len.getD (s.p + 2 - src))⟩ ?_ rest
        rw [dnExpandPass_pointer opens, if_neg (by omega)]

/-- A length is returned exactly if the body returns it in one of its passes. -/
theorem returns_some_iff (hsrc : src ≤ fin) (hfin : fin - base < 2 ^ 31) :
    Returns packet base fin src space (some m, d) ↔
      (dnExpand packet base fin src space.toNat).value = (some m, d) := by
  refine ⟨fun h => h.value hsrc, fun h => ?_⟩
  by_cases hrefused : src = fin ∨ space ≤ 0
  · rw [dnExpand, if_pos (by omega)] at h
    cases h
  · have hspace : 0 < space := by omega
    rw [dnExpand_value (by omega) hspace] at h
    cases hiterate : (expandLoop packet base fin src (room space.toNat)).iterate (passes base fin)
        ⟨src, [], none⟩ with
    | inl s =>
      rw [hiterate] at h
      cases h
    | inr result =>
      rw [hiterate] at h
      have htop : (expandLoop packet base fin src (room space.toNat)).bound ≤
          (expandLoop packet base fin src (room space.toNat)).top + 1 := by
        change fin - base ≤ intMax + 1
        rw [intMax]
        omega
      have hends := Loop.ends_of_returns expandLoop_stride_pos htop 0 _ hiterate
      rw [← h]
      exact .looped (by omega) hspace hends

/-- Where the loop does not overrun, `dn_expand` returns what it computes. -/
theorem returns_of_not_overruns (hsrc : src ≤ fin) (hfin : fin - base < 2 ^ 31)
    (h : ¬ Overruns packet base fin src space) :
    Returns packet base fin src space (dnExpand packet base fin src space.toNat).value := by
  by_cases hrefused : src = fin ∨ space ≤ 0
  · rw [dnExpand, if_pos (by omega)]
    exact .refused hrefused
  by_cases hlargest : fin - base = intMax
  · have hspace : 0 < space := by omega
    have hpasses : passes base fin = 2 ^ 30 := by
      rw [passes, hlargest, intMax]
      rfl
    cases hvalue : (dnExpand packet base fin src space.toNat).value with
    | mk length dest =>
      rw [dnExpand_value (by omega) hspace] at hvalue
      cases hiterate : (expandLoop packet base fin src (room space.toNat)).iterate (passes base fin)
          ⟨src, [], none⟩ with
      | inl s =>
        rw [hpasses] at hiterate
        exact absurd ⟨hlargest, by omega, hspace, (iterate_goes_iff _ ⟨src, [], none⟩).mp ⟨s, hiterate⟩⟩ h
      | inr result =>
        rw [hiterate] at hvalue
        have htop : (expandLoop packet base fin src (room space.toNat)).bound ≤
            (expandLoop packet base fin src (room space.toNat)).top + 1 := by
          change fin - base ≤ intMax + 1
          omega
        have hends := Loop.ends_of_returns expandLoop_stride_pos htop 0 _ hiterate
        rw [← hvalue]
        exact .looped (by omega) hspace hends
  · apply returns_value hsrc
    rw [intMax] at hlargest ⊢
    omega

theorem not_returns_of_overruns {r : Option ℕ × Bytes} (h : Overruns packet base fin src space) :
    ¬ Returns packet base fin src space r := by
  obtain ⟨hlargest, hsrc, hspace, hgoes⟩ := h
  intro hreturns
  cases hreturns with
  | refused hrefused => omega
  | looped _ _ ends =>
    obtain ⟨s, hiterate⟩ := (iterate_goes_iff _ ⟨src, [], none⟩).mpr hgoes
    have hpasses : (expandLoop packet base fin src (room space.toNat)).passesFrom 0 = 2 ^ 30 := by
      change (fin - base - 0 + 2 - 1) / 2 = 2 ^ 30
      rw [hlargest, intMax]
      rfl
    rw [← hpasses] at hiterate
    refine Loop.not_ends_of_iterate_goes expandLoop_stride_pos ?_ (Nat.dvd_zero _) (Nat.zero_le _)
      hiterate ends
    intro i hi hbound
    change intMax < i
    change fin - base ≤ i at hbound
    change 2 ∣ i at hi
    rw [hlargest] at hbound
    rw [intMax] at *
    omega

/-- A short name has fewer parts than the loop has passes in the largest buffer. -/
theorem length_lt_of_short {convention : Convention} {labels : List Label} {parts : List Part}
    {width : ℕ} (h : Reading packet.byte convention fin src labels parts width)
    (hlen : (dotted labels).length < 254) : parts.length < 2 ^ 30 := by
  have hparts := h.length_le
  have hlabels := two_mul_length_le labels
  have hwire := length_flatMap_wire_le labels
  omega

theorem not_isName_of_overruns (hbase : base ≤ src) (h : Overruns packet base fin src space) :
    ¬ IsName packet base fin src space m d := by
  obtain ⟨hlargest, hsrc, hspace, hgoes⟩ := h
  rintro ⟨labels, parts, hname, -, hlen, rfl⟩
  have hpasses : passes base fin = 2 ^ 30 := by
    rw [passes, hlargest, intMax]
    rfl
  have hsteps := length_lt_of_short hname (by omega)
  have hvalue := (dnExpand_iff hbase hsrc (show 0 < space.toNat by omega) m _).mpr
    ⟨labels, parts.length, (fromBase_of_standard hname).spells, by omega, (lt_room_iff labels).mpr hlen, rfl⟩
  obtain ⟨s, hiterate⟩ := (iterate_goes_iff _ ⟨src, [], none⟩).mpr hgoes
  rw [dnExpand_value hsrc hspace, hpasses, hiterate] at hvalue
  cases hvalue

private theorem isName_of_meetsNoReserved (hbase : base ≤ src) (hsrc : src < fin) (hspace : 0 < space)
    (h : MeetsNoReserved packet base fin src space)
    (hvalue : (dnExpand packet base fin src space.toNat).value = (some m, d)) :
    IsName packet base fin src space m d := by
  obtain ⟨labels, steps, hspells, hsteps, hlen, hd⟩ :=
    (dnExpand_iff hbase hsrc (by omega) m d).mp hvalue
  obtain ⟨parts, hreading, rfl⟩ := Reading.of_spells hspells
  rw [lt_room_iff] at hlen
  have hname := standard_of_fromBase hreading (h labels parts m hreading hsteps hlen)
  exact ⟨labels, parts, hname, hname.nodup_starts, hlen, hd⟩

/-- A reading that is accepted and a name meets no reserved byte. -/
theorem meetsNoReserved_of_isName (hbase : base ≤ src) (hsrc : src < fin) (hspace : 0 < space)
    (h : ∀ m d, (dnExpand packet base fin src space.toNat).value = (some m, d) →
      IsName packet base fin src space m d) : MeetsNoReserved packet base fin src space := by
  intro labels parts width hreading hsteps hlen part hpart hreserved
  have hvalue := (dnExpand_iff hbase hsrc (show 0 < space.toNat by omega) width _).mpr
    ⟨labels, parts.length, hreading.spells, hsteps, (lt_room_iff labels).mpr hlen, rfl⟩
  obtain ⟨labels', parts', hname, -⟩ := h width _ hvalue
  obtain rfl := hreading.unique (fromBase_of_standard hname)
  rcases hname.byte_of_mem part hpart with hlow | hpointer
  · exact absurd hreserved.1 (Nat.not_le.mpr hlow)
  · exact absurd hreserved.2 (Nat.not_lt.mpr hpointer)

/-- Lengths are returned for names only exactly when the reading meets no reserved byte. -/
theorem accepted_iff (hbase : base ≤ src) (hsrc : src ≤ fin) (hfin : fin - base < 2 ^ 31) :
    (∀ m d, Returns packet base fin src space (some m, d) → IsName packet base fin src space m d) ↔
      MeetsNoReserved packet base fin src space := by
  simp only [returns_some_iff hsrc hfin]
  by_cases hrefused : src = fin ∨ space ≤ 0
  · have hnone : (dnExpand packet base fin src space.toNat).value = (none, []) := by
      rw [dnExpand, if_pos (by omega)]
      rfl
    constructor
    · intro _ labels parts width hreading _ hlen
      have hlt := hreading.spells.lt_fin
      omega
    · intro _ m d hvalue
      rw [hnone] at hvalue
      cases hvalue
  · have hlt : src < fin := by omega
    have hspace : 0 < space := by omega
    exact ⟨meetsNoReserved_of_isName hbase hlt hspace, fun h m d =>
      isName_of_meetsNoReserved hbase hlt hspace h⟩

/-- `dn_expand` accepts names only, and rejects what is none, exactly when the reading meets
no reserved byte and the counter does not run over. -/
theorem acceptsNames_iff (hbase : base ≤ src) (hsrc : src ≤ fin) (hfin : fin - base < 2 ^ 31) :
    AcceptsNames packet base fin src space ↔
      MeetsNoReserved packet base fin src space ∧ ¬ Overruns packet base fin src space := by
  constructor
  · intro h
    refine ⟨(accepted_iff hbase hsrc hfin).mp h.accepted, fun hover => ?_⟩
    obtain ⟨d, hd⟩ := h.rejected fun m d => not_isName_of_overruns hbase hover
    exact not_returns_of_overruns hover hd
  · rintro ⟨hreserved, hover⟩
    have haccepted := (accepted_iff hbase hsrc hfin).mpr hreserved
    refine ⟨haccepted, fun hnone => ?_⟩
    have hreturns := returns_of_not_overruns hsrc hfin hover
    cases hvalue : (dnExpand packet base fin src space.toNat).value with
    | mk length d =>
      rw [hvalue] at hreturns
      cases length with
      | none => exact ⟨d, hreturns⟩
      | some m => exact absurd (haccepted m d hreturns) (hnone m d)

end Accepted

/-- In as many bytes as the largest `int`, each the first of a pointer to one of them, the
counter runs over. -/
theorem overruns_largestCycle [Memory] : Overruns largestCycle 0 intMax 0 256 := by
  have hgoes : ∀ n p, p + 1 < intMax →
      GoesOn largestCycle 0 intMax (room (256 : ℤ).toNat) n p [] := by
    intro n
    induction n with
    | zero => exact fun p _ => .here
    | succ n ih =>
      intro p hp
      have hhere : largestCycle.byte p = 192 := byte_largestCycle (by omega)
      have hnext : largestCycle.byte (p + 1) = 192 := byte_largestCycle hp
      have hoffset : offset (largestCycle.byte p) (largestCycle.byte (p + 1)) = 192 := by
        rw [hhere, hnext]
        rfl
      refine .pointer ?_ (Nat.ne_of_lt hp) ?_ ?_
      · rw [hhere]
        decide
      · rw [hoffset, intMax]
        omega
      · rw [hoffset]
        exact ih (0 + 192) (by rw [intMax]; omega)
  exact ⟨rfl, by rw [intMax]; omega, by decide, hgoes _ _ (by rw [intMax]; omega)⟩

/-- A byte of 64, a byte of 2, and a zero byte at offset 2. -/
def reservedPointer : Packet where
  data := some [64, 2, 0]
  size := 3
  protocol := 0
  session := none
  sized := by simp

theorem acceptsNames_iff_reservedPointer : let _ := zeroMemory
    (AcceptsNames reservedPointer 0 3 0 256 ↔
      MeetsNoReserved reservedPointer 0 3 0 256 ∧ ¬ Overruns reservedPointer 0 3 0 256) ∧
        ¬ AcceptsNames largestCycle 0 intMax 0 256 := by
  intro _
  refine ⟨acceptsNames_iff (Nat.le_refl 0) (by decide) (by decide), ?_⟩
  intro haccepts
  have hlt : intMax - 0 < 2 ^ 31 := by
    rw [intMax]
    omega
  exact ((acceptsNames_iff (Nat.le_refl 0) (Nat.zero_le _) hlt).mp haccepts).2 overruns_largestCycle

/-- It is expanded, to the root name. -/
theorem reservedPointer_accepted : ¬ ∀ (_ : Memory) (packet : Packet) (base fin src : ℕ) (space : ℤ),
    base ≤ src → src ≤ fin → fin - base < 2 ^ 31 → AcceptsNames packet base fin src space := by
  intro h
  let _ := zeroMemory
  have hreturns : Returns reservedPointer 0 3 0 256 (some 2, [0]) :=
    (returns_some_iff (by decide) (by decide)).mpr (by decide)
  obtain ⟨labels, parts, hname, -⟩ := (h zeroMemory reservedPointer 0 3 0 256 (by decide) (by decide)
    (by decide)).accepted 2 [0] hreturns
  have hbyte : (reservedPointer.byte 0).toNat = 64 := by decide
  obtain ⟨part, hpart, hstart⟩ := hname.start_mem
  have hfirst := hname.byte_of_mem part hpart
  rw [hstart, hbyte] at hfirst
  rcases hfirst with hlow | hpointer
  · omega
  · have hopens : 192 ≤ (reservedPointer.byte 0).toNat := hstart ▸ hpointer
    omega

end OpenSniffer.NameAcceptance
