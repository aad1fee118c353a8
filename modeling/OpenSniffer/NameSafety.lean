import OpenSniffer.CountedLoops
import OpenSniffer.DnsCursor

/-!
# `dn_expand` with its counter

The loop of `dn_expand` counts in an `int`, up to the number of bytes in the buffer. It
cannot leave the range of an `int` except in a buffer of 2^31 - 1 bytes, where the counter
steps over its last value if every pass goes on. Whatever the bytes are, each pass stays
inside the buffer and inside `dest`, and a length that is returned leads no further than
to the end of the buffer; so the loops over the questions move on with every name.
-/
namespace OpenSniffer.NameSafety
open Packets CompressedNames DnsExpansion DnsDissector DnsCursor CountedLoops TracedReads
  TracedReads.Traced

def intMax : ℕ := 2 ^ 31 - 1

def sizeMax : ℕ := 2 ^ 64 - 1

/-- What has been written to `dest` when a pass is over. -/
def written : Pass → Bytes
  | .next s => s.dest
  | .done _ dest => dest

/-- What `dn_expand` returns and leaves in `dest` when its loop is over. -/
def outcome : Expansion ⊕ (Option ℕ × Bytes) → Option ℕ × Bytes
  | .inl s => (none, s.dest)
  | .inr result => result

section Definitions
variable [Memory] (packet : Packet) (base fin src : ℕ)

def expandLoop (limit : ℕ) : Loop Expansion (Option ℕ × Bytes) where
  body s :=
    match (dnExpandPass packet base fin src limit s).value with
    | .next s => .inl s
    | .done length dest => .inr (length, dest)
  bound := fin - base
  stride := 2
  top := intMax

/-- `dn_expand` returns this, with any `int space`. -/
inductive Returns (space : ℤ) : Option ℕ × Bytes → Prop
  | refused (h : src = fin ∨ space ≤ 0) : Returns space (none, [])
  | looped {r : Expansion ⊕ (Option ℕ × Bytes)} (hsrc : src ≠ fin) (hspace : 0 < space)
      (ends : (expandLoop packet base fin src (room space.toNat)).Ends 0 ⟨src, [], none⟩ r) :
      Returns space (outcome r)

/-- The loop of `dn_expand` enters its body with this counter and these variables. -/
def AtHead (space : ℤ) (i : ℕ) (s : Expansion) : Prop :=
  src ≠ fin ∧ 0 < space ∧
    (expandLoop packet base fin src (room space.toNat)).Head ⟨src, [], none⟩ i s

/-- The loop over the questions, with the cursor for its state. It returns where the cursor
has reached the end of the packet, and on an invalid name. -/
def questionLoop : Loop ℕ (Option ℕ) where
  body data :=
    if data < packet.size then
      match (expandAt packet data).1 with
      | some size => .inl (data + size)
      | none => .inr none
    else .inr (some data)
  bound := packet.be16 4
  stride := 1
  top := sizeMax

/-- `dn_expand` is safe: it returns but in one case, every pass keeps to the buffer and to
`dest`, its `int len` holds every length, and it returns lengths inside the buffer. -/
structure Safe (space : ℤ) : Prop where
  returns : (∃ r, Returns packet base fin src space r) ∨
    fin - base = intMax ∧ ∀ i s, AtHead packet base fin src space i s →
      ∃ s', (dnExpandPass packet base fin src (room space.toNat) s).value = .next s'
  heads : ∀ i s, AtHead packet base fin src space i s → s.InBounds base fin (room space.toNat)
  lengths : ∀ i s, AtHead packet base fin src space i s → ∀ n ∈ s.len, n ≤ intMax
  reads : ∀ i s, AtHead packet base fin src space i s →
    (dnExpandPass packet base fin src (room space.toNat) s).ReadsWithin base fin
  writes : ∀ i s, AtHead packet base fin src space i s →
    s.dest <+: written (dnExpandPass packet base fin src (room space.toNat) s).value ∧
      (written (dnExpandPass packet base fin src (room space.toNat) s).value).length ≤ room space.toNat
  result : ∀ m dest, Returns packet base fin src space (some m, dest) →
    1 ≤ m ∧ m ≤ fin - src ∧ ∃ text, dest = text ++ [0]

/-- The cursor of the question loops stays inside the packet and moves on with every name, and
the loop ends, where both functions that have it go on. -/
structure CursorAdvances : Prop where
  inside : ∀ i data, (questionLoop packet).Head sizeofDnshdr i data →
    sizeofDnshdr ≤ data ∧ data ≤ packet.size
  advances : ∀ i data next, (questionLoop packet).Head sizeofDnshdr i data →
    (questionLoop packet).body data = .inl next → data < next ∧ next ≤ packet.size
  ends : ∀ format, ∃ r, (questionLoop packet).Ends 0 sizeofDnshdr r ∧
    (dumpQuestions packet format (packet.be16 4) sizeofDnshdr).value = r.elim some id

end Definitions

section Safety
variable [Memory] {packet : Packet} {base fin src limit : ℕ} {s s' : Expansion}

theorem expandLoop_stride_pos : 0 < (expandLoop packet base fin src limit).stride := Nat.zero_lt_two

theorem expandLoop_goes_iff : (expandLoop packet base fin src limit).body s = .inl s' ↔
    (dnExpandPass packet base fin src limit s).value = .next s' := by
  simp only [expandLoop]
  cases (dnExpandPass packet base fin src limit s).value with
  | next _ => simp
  | done _ _ => simp

theorem expandLoop_returns_iff {result : Option ℕ × Bytes} :
    (expandLoop packet base fin src limit).body s = .inr result ↔
      (dnExpandPass packet base fin src limit s).value = .done result.1 result.2 := by
  simp only [expandLoop]
  cases (dnExpandPass packet base fin src limit s).value with
  | next _ => simp
  | done _ _ => simp [Prod.ext_iff]

omit [Memory] in
private theorem prefix_separated (text : Bytes) :
    text <+: separated text ∧ (separated text).length ≤ text.length + 1 := by
  rw [separated]
  split
  · exact ⟨List.prefix_rfl, Nat.le_succ _⟩
  · exact ⟨List.prefix_append _ _, by rw [List.length_append, List.length_singleton]⟩

/-- A pass writes behind what was written, no further than to the limit: a dot or a zero
byte may be the last. -/
theorem dnExpandPass_written (h : s.InBounds base fin limit) :
    s.dest <+: written (dnExpandPass packet base fin src limit s).value ∧
      (written (dnExpandPass packet base fin src limit s).value).length ≤ limit := by
  have hdest := h.dest_lt
  have hseparated := prefix_separated s.dest
  rcases byte_cases packet.byte s.p with hp | ⟨l, hl⟩ | hz
  · rw [dnExpandPass_pointer hp]
    split
    · exact ⟨List.prefix_rfl, Nat.le_of_lt hdest⟩
    · exact ⟨List.prefix_rfl, Nat.le_of_lt hdest⟩
  · rw [dnExpandPass_label hl]
    split
    · exact ⟨hseparated.1, hseparated.2.trans hdest⟩
    · rename_i hin
      have hlabel : s.dest <+: extend s.dest l := hseparated.1.trans (List.prefix_append _ _)
      exact ⟨hlabel, Nat.le_of_lt (Nat.not_le.mp (not_or.mp hin).2)⟩
  · rw [dnExpandPass_terminator hz, written, List.length_append, List.length_singleton]
    exact ⟨List.prefix_append _ _, hdest⟩

/-- Until the first pointer the source moves on, and then `len` is a length in the buffer. -/
structure Measured (fin src : ℕ) (s : Expansion) : Prop where
  src_le : s.len = none → src ≤ s.p
  length_le : ∀ n ∈ s.len, 1 ≤ n ∧ n ≤ fin - src

omit [Memory] in
theorem Measured.getD {n : ℕ} (h : Measured fin src s) (hn : src ≤ s.p → 1 ≤ n ∧ n ≤ fin - src) :
    1 ≤ s.len.getD n ∧ s.len.getD n ≤ fin - src := by
  cases hlen : s.len with
  | none => exact hn (h.src_le hlen)
  | some n' => exact h.length_le n' hlen

private theorem dnExpandPass_measured (h : s.InBounds base fin limit) (hm : Measured fin src s)
    (hs' : (dnExpandPass packet base fin src limit s).value = .next s') : Measured fin src s' := by
  have hp_lt := h.p_lt
  rcases dnExpandPass_next_inv hs' with ⟨j, hend, -, rfl⟩ | ⟨l, -, -, rfl⟩
  · refine ⟨?_, ?_⟩
    · intro hlen
      cases hlen
    · intro n hn
      rw [← Option.some.inj hn]
      apply hm.getD
      omega
  · refine ⟨?_, hm.length_le⟩
    intro hlen
    exact (hm.src_le hlen).trans (Nat.le_add_right _ _)

/-- A length is returned where the name ends, behind the zero that is written. -/
theorem dnExpandPass_result {m : ℕ} {dest : Bytes} (h : s.InBounds base fin limit)
    (hm : Measured fin src s)
    (hdone : (dnExpandPass packet base fin src limit s).value = .done (some m) dest) :
    1 ≤ m ∧ m ≤ fin - src ∧ ∃ text, dest = text ++ [0] := by
  have hp_lt := h.p_lt
  obtain ⟨rfl, rfl⟩ := dnExpandPass_done_inv hdone
  have hrange : 1 ≤ s.len.getD (s.p + 1 - src) ∧ s.len.getD (s.p + 1 - src) ≤ fin - src := by
    apply hm.getD
    omega
  exact ⟨hrange.1, hrange.2, s.dest, rfl⟩

/-- What holds at every head of the loop. -/
def Invariant (base fin src limit : ℕ) (s : Expansion) : Prop :=
  s.InBounds base fin limit ∧ Measured fin src s

theorem invariant_step (s s' : Expansion) (h : Invariant base fin src limit s)
    (hgoes : (expandLoop packet base fin src limit).body s = .inl s') :
    Invariant base fin src limit s' := by
  have hpass := expandLoop_goes_iff.mp hgoes
  exact ⟨dnExpandPass_inBounds h.1 hpass, dnExpandPass_measured h.1 h.2 hpass⟩

omit [Memory] in
theorem invariant_start {space : ℕ} (hbase : base ≤ src) (hsrc : src < fin) (hspace : 0 < space) :
    Invariant base fin src (room space) ⟨src, [], none⟩ :=
  ⟨start_inBounds hbase hsrc hspace, fun _ => Nat.le_refl _, fun _ hn => nomatch hn⟩

theorem dnExpandLoop_eq_iterate (n : ℕ) (s : Expansion) :
    (dnExpandLoop packet base fin src limit n s).value =
      outcome ((expandLoop packet base fin src limit).iterate n s) := by
  induction n generalizing s with
  | zero => rfl
  | succ n ih =>
    rw [dnExpandLoop, Traced.value_bind]
    cases hpass : (dnExpandPass packet base fin src limit s).value with
    | next s' =>
      rw [Loop.iterate_of_goes (expandLoop_goes_iff.mpr hpass)]
      exact ih s'
    | done length dest =>
      have hreturns : (expandLoop packet base fin src limit).body s = .inr (length, dest) :=
        expandLoop_returns_iff.mpr hpass
      rw [Loop.iterate_of_returns hreturns]
      rfl

variable {space : ℤ}

theorem dnExpand_value (hsrc : src < fin) (hspace : 0 < space) :
    (dnExpand packet base fin src space.toNat).value =
      outcome ((expandLoop packet base fin src (room space.toNat)).iterate (passes base fin)
        ⟨src, [], none⟩) := by
  have hroom : 0 < space.toNat := by omega
  rw [dnExpand_eq_loop hsrc hroom, dnExpandLoop_eq_iterate]

/-- What `dn_expand` returns with its counter is what it computes without. -/
theorem Returns.value (hsrc : src ≤ fin) {r : Option ℕ × Bytes}
    (h : Returns packet base fin src space r) :
    (dnExpand packet base fin src space.toNat).value = r := by
  cases h with
  | refused h =>
    rw [dnExpand, if_pos (by omega)]
    rfl
  | looped hne hspace ends =>
    rw [dnExpand_value (by omega) hspace, ends.eq_iterate expandLoop_stride_pos]
    rfl

/-- Where the counter cannot step over the largest `int`, what is computed is returned. -/
theorem returns_value (hsrc : src ≤ fin) (hfin : fin - base < intMax) :
    Returns packet base fin src space (dnExpand packet base fin src space.toNat).value := by
  by_cases h : src = fin ∨ space ≤ 0
  · rw [dnExpand, if_pos (by omega)]
    exact .refused h
  · have hspace : 0 < space := by omega
    rw [dnExpand_value (by omega) hspace]
    apply Returns.looped (by omega) hspace
    apply Loop.ends_iterate expandLoop_stride_pos
    change fin - base + 2 ≤ intMax + 1
    omega

theorem dnExpand_result {space m : ℕ} {dest : Bytes} (hbase : base ≤ src) (hsrc : src ≤ fin)
    (h : (dnExpand packet base fin src space).value = (some m, dest)) :
    1 ≤ m ∧ m ≤ fin - src ∧ ∃ text, dest = text ++ [0] := by
  by_cases hnone : src = fin ∨ space = 0
  · rw [dnExpand, if_pos hnone] at h
    cases h
  · have hlt : src < fin := by omega
    have hspace : 0 < space := by omega
    rw [dnExpand_eq_loop hlt hspace, dnExpandLoop_eq_iterate] at h
    cases hiterate : (expandLoop packet base fin src (room space)).iterate (passes base fin)
        ⟨src, [], none⟩ with
    | inl s =>
      rw [hiterate] at h
      cases h
    | inr result =>
      rw [hiterate] at h
      cases h
      obtain ⟨s, hs, hreturns⟩ := Loop.exists_of_iterate_returns invariant_step
        (invariant_start hbase hlt hspace) hiterate
      exact dnExpandPass_result hs.1 hs.2 (expandLoop_returns_iff.mp hreturns)

theorem AtHead.invariant (hbase : base ≤ src) (hsrc : src ≤ fin) {i : ℕ}
    (h : AtHead packet base fin src space i s) : Invariant base fin src (room space.toNat) s := by
  obtain ⟨hne, hspace, hhead⟩ := h
  exact hhead.invariant invariant_step (invariant_start hbase (by omega) (by omega))

private theorem dnExpand_safe (hbase : base ≤ src) (hsrc : src ≤ fin) (hfin : fin - base < 2 ^ 31) :
    Safe packet base fin src space where
  returns := by
    by_cases hlargest : fin - base = intMax
    · by_cases h : src = fin ∨ space ≤ 0
      · exact .inl ⟨_, .refused h⟩
      · have hspace : 0 < space := by omega
        have hne : src ≠ fin := by omega
        rcases (expandLoop packet base fin src (room space.toNat)).ends_or_goes ⟨src, [], none⟩ with
          hends | hgoes
        · obtain ⟨r, hr⟩ := hends
          exact .inl ⟨_, .looped hne hspace hr⟩
        · refine .inr ⟨hlargest, ?_⟩
          intro i s hhead
          obtain ⟨s', hs'⟩ := hgoes i s hhead.2.2
          exact ⟨s', expandLoop_goes_iff.mp hs'⟩
    · have hlt : fin - base < intMax := by
        rw [intMax] at hlargest ⊢
        omega
      exact .inl ⟨_, returns_value hsrc hlt⟩
  heads i s hhead := (hhead.invariant hbase hsrc).1
  lengths i s hhead n hn := by
    have hle := ((hhead.invariant hbase hsrc).2.length_le n hn).2
    rw [intMax]
    omega
  reads i s hhead := dnExpandPass_reads (hhead.invariant hbase hsrc).1
  writes i s hhead := dnExpandPass_written (hhead.invariant hbase hsrc).1
  result m dest h := dnExpand_result hbase hsrc (h.value hsrc)

private theorem questionLoop_goes_iff {data next : ℕ} : (questionLoop packet).body data = .inl next ↔
    data < packet.size ∧ ∃ size, (expandAt packet data).1 = some size ∧ next = data + size := by
  simp only [questionLoop]
  by_cases h : data < packet.size
  · rw [if_pos h]
    cases (expandAt packet data).1 with
    | none => simp
    | some size => simp [h, eq_comm]
  · simp [h]

theorem questionLoop_step {data next : ℕ} (hlow : sizeofDnshdr ≤ data)
    (h : (questionLoop packet).body data = .inl next) : data < next ∧ next ≤ packet.size := by
  obtain ⟨hdata, size, hsize, rfl⟩ := questionLoop_goes_iff.mp h
  have hvalue : (dnExpand packet sizeofDnshdr packet.size data maxNameLength).value =
      (some size, (expandAt packet data).2) := Prod.ext hsize rfl
  have hresult := dnExpand_result hlow (Nat.le_of_lt hdata) hvalue
  omega

private theorem questionsEnd_eq_iterate (n data : ℕ) :
    questionsEnd packet n data = ((questionLoop packet).iterate n data).elim some id := by
  induction n generalizing data with
  | zero => rfl
  | succ n ih =>
    rw [questionsEnd, Loop.iterate]
    simp only [questionLoop]
    by_cases hdata : data < packet.size
    · rw [if_pos hdata, if_pos hdata]
      cases (expandAt packet data).1 with
      | none => rfl
      | some size => exact ih (data + size)
    · rw [if_neg hdata, if_neg hdata]
      rfl

/-- The loop over the questions ends, where both functions that have it go on. -/
theorem questionLoop_ends (format : String) : ∃ r, (questionLoop packet).Ends 0 sizeofDnshdr r ∧
    (dumpQuestions packet format (packet.be16 4) sizeofDnshdr).value = r.elim some id := by
  have hcount := packet.be16_lt 4
  have hstride : 0 < (questionLoop packet).stride := Nat.zero_lt_one
  have htop : (questionLoop packet).bound + (questionLoop packet).stride ≤
      (questionLoop packet).top + 1 := by
    change packet.be16 4 + 1 ≤ sizeMax + 1
    rw [sizeMax]
    omega
  have hpasses : (questionLoop packet).passesFrom 0 = packet.be16 4 := by
    change (packet.be16 4 - 0 + 1 - 1) / 1 = packet.be16 4
    rw [Nat.div_one]
    omega
  have hends := Loop.ends_iterate hstride htop 0 sizeofDnshdr
  refine ⟨_, hends, ?_⟩
  rw [dumpQuestions_value, questionsEnd_eq_iterate, hpasses]

private theorem cursorAdvances (hsize : sizeofDnshdr ≤ packet.size) : CursorAdvances packet := by
  have hheads : ∀ i data, (questionLoop packet).Head sizeofDnshdr i data →
      sizeofDnshdr ≤ data ∧ data ≤ packet.size := by
    intro i data hhead
    apply hhead.invariant
    · intro data next hin hgoes
      have hstep := questionLoop_step hin.1 hgoes
      exact ⟨hin.1.trans (Nat.le_of_lt hstep.1), hstep.2⟩
    · exact ⟨Nat.le_refl _, hsize⟩
  refine ⟨hheads, ?_, questionLoop_ends⟩
  intro i data next hhead hgoes
  exact questionLoop_step (hheads i data hhead).1 hgoes

/-- Name expansion is safe in every buffer that an `int` can count, and the question loops
move on inside every packet that has a header. -/
theorem nameExpansion_safe (packet : Packet) :
    (∀ (base fin src : ℕ) (space : ℤ), base ≤ src → src ≤ fin → fin - base < 2 ^ 31 →
      Safe packet base fin src space) ∧ (sizeofDnshdr ≤ packet.size → CursorAdvances packet) := by
  constructor
  · intro base fin src space hbase hsrc hfin
    exact dnExpand_safe hbase hsrc hfin
  · intro hsize
    exact cursorAdvances hsize

end Safety

def selfPointer : Packet where
  data := some [0, 0, 0, 0, 0, 1, 0, 0, 0, 0, 0, 0, 192, 0]
  size := 14
  protocol := 0
  session := some (osiCreateSession 0 0 0)
  sized := by simp

theorem nameExpansion_safe_selfPointer : let _ := zeroMemory
    Safe selfPointer sizeofDnshdr selfPointer.size sizeofDnshdr maxNameLength ∧
      CursorAdvances selfPointer := by
  intro _
  have hsafe := nameExpansion_safe selfPointer
  exact ⟨hsafe.1 _ _ _ _ (Nat.le_refl _) (by decide) (by decide), hsafe.2 (by decide)⟩

/-- As many bytes as the largest `int`, each the first of a pointer to one of them. -/
def largestCycle : Packet where
  data := some (List.replicate intMax 192)
  size := intMax
  protocol := 0
  session := none
  sized := by simp

theorem byte_largestCycle [Memory] {i : ℕ} (hi : i < intMax) : largestCycle.byte i = 192 := by
  have hlen : i < (List.replicate intMax (192 : UInt8)).length := by rwa [List.length_replicate]
  rw [Packet.byte_eq rfl hlen, List.getElem_replicate]

theorem largestCycle_goes [Memory] {src limit : ℕ} (s : Expansion) (h : s.p + 1 < intMax) :
    ∃ s', (expandLoop largestCycle 0 intMax src limit).body s = .inl s' ∧ s'.p + 1 < intMax := by
  have hhere : largestCycle.byte s.p = 192 := byte_largestCycle (by omega)
  have hnext : largestCycle.byte (s.p + 1) = 192 := byte_largestCycle h
  have hpointer : 64 ≤ (largestCycle.byte s.p).toNat := by
    rw [hhere]
    decide
  have hoffset : offset (largestCycle.byte s.p) (largestCycle.byte (s.p + 1)) = 192 := by
    rw [hhere, hnext]
    rfl
  refine ⟨⟨0 + 192, s.dest, some (s.len.getD (s.p + 2 - src))⟩, ?_, ?_⟩
  · rw [expandLoop_goes_iff, dnExpandPass_pointer hpointer, hoffset, if_neg]
    rw [intMax] at *
    omega
  · change 192 + 1 < intMax
    rw [intMax]
    omega

/-- There the counter leaves the range of an `int` before it reaches its bound. -/
theorem largestCycle_not_returns : ¬ ∀ (_ : Memory) (packet : Packet) (base fin src : ℕ) (space : ℤ),
    base ≤ src → src ≤ fin → fin - base < 2 ^ 31 → ∃ r, Returns packet base fin src space r := by
  intro h
  let _ := zeroMemory
  obtain ⟨r, hr⟩ := h zeroMemory largestCycle 0 intMax 0 256 (Nat.le_refl _) (Nat.zero_le _)
    (by rw [intMax]; omega)
  cases hr with
  | refused h =>
    rw [intMax] at h
    omega
  | looped _ _ ends =>
    refine Loop.not_ends_of_goes (P := fun s => s.p + 1 < intMax) largestCycle_goes ?_ ?_ ?_ ?_ ends
    · intro i hi hbound
      change intMax < i
      change intMax - 0 ≤ i at hbound
      change 2 ∣ i at hi
      rw [intMax] at *
      omega
    · change 0 + 1 < intMax
      rw [intMax]
      omega
    · exact Nat.dvd_zero _
    · exact Nat.zero_le _

end OpenSniffer.NameSafety
