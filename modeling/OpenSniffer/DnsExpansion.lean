import OpenSniffer.Packets
import OpenSniffer.CompressedNames

/-!
# `dn_expand`

Pointers are positions in the packet. The bytes written to `dest` are written one
after the other, so what has been written is a list and `dest` is its length. The
counter `i` grows by two: the loop has half of `end - base` passes, rounded up. It is
not cut to 32 bits, which only a cycle in a buffer of 2^31 - 1 bytes or more would show;
the loop with an `int` for its counter is in `NameSafety`.
-/
namespace OpenSniffer.DnsExpansion
open Packets CompressedNames TracedReads TracedReads.Traced

/-- The loop's variables; `len` is -1 until the first pointer. -/
structure Expansion where
  p : ℕ
  dest : Bytes
  len : Option ℕ

/-- A pass goes on, or returns a length, or -1, with what it has written. -/
inductive Pass where
  | next (s : Expansion)
  | done (length : Option ℕ) (dest : Bytes)

section Expand
variable [Memory] (packet : Packet) (base fin src : ℕ)

def dnExpandPass (limit : ℕ) (s : Expansion) : Dump Pass := do
  let b ← packet.load8 s.p
  -- one of the two top bits is set
  if 64 ≤ b then
    if s.p + 1 = fin then return .done none s.dest
    else
      let j := b % 64 * 256 + (← packet.load8 (s.p + 1))
      let len := s.len.getD (s.p + 2 - src)
      if fin - base ≤ j then return .done none s.dest
      else return .next ⟨base + j, s.dest, some len⟩
  else if b ≠ 0 then
    let dest := separated s.dest
    if fin ≤ s.p + 1 + b ∨ limit ≤ dest.length + b then return .done none dest
    else
      let label ← loadRange packet.byte (s.p + 1) b
      return .next ⟨s.p + 1 + b, dest ++ label.1, s.len⟩
  else return .done (some (s.len.getD (s.p + 1 - src))) (s.dest ++ [0])

def dnExpandLoop (limit : ℕ) : ℕ → Expansion → Dump (Option ℕ × Bytes)
  | 0, s => return (none, s.dest)
  | n + 1, s => do
    match ← dnExpandPass packet base fin src limit s with
    | .next s => dnExpandLoop limit n s
    | .done length dest => return (length, dest)

def passes (base fin : ℕ) : ℕ := (fin - base + 1) / 2

/-- The room `dn_expand` leaves in a buffer of `space` bytes. -/
def room (space : ℕ) : ℕ := if space > 254 then 254 else space

def dnExpand (space : ℕ) : Dump (Option ℕ × Bytes) := do
  if src = fin ∨ space = 0 then return (none, [])
  else
    let start : Expansion := ⟨src, [], none⟩
    dnExpandLoop packet base fin src (room space) (passes base fin) start

end Expand

/-- A byte with one of its two top bits set opens a pointer, counted from `base`. -/
def fromBase (base : ℕ) : Convention where
  pointer b := 64 ≤ b.toNat
  origin := base
  pointer_high _ h := h

section Spec
variable [Memory] {packet : Packet} {base fin src limit : ℕ} {s : Expansion}

theorem dnExpandPass_pointer (h : 64 ≤ (packet.byte s.p).toNat) :
    (dnExpandPass packet base fin src limit s).value =
      if s.p + 1 = fin ∨ fin - base ≤ offset (packet.byte s.p) (packet.byte (s.p + 1)) then
        .done none s.dest
      else .next ⟨base + offset (packet.byte s.p) (packet.byte (s.p + 1)), s.dest,
        some (s.len.getD (s.p + 2 - src))⟩ := by
  have hb : 64 ≤ (packet.load8 s.p).value := h
  rw [dnExpandPass, Traced.value_bind, if_pos hb]
  by_cases hend : s.p + 1 = fin
  · rw [if_pos hend, if_pos (Or.inl hend)]
    rfl
  · by_cases hj : fin - base ≤ offset (packet.byte s.p) (packet.byte (s.p + 1))
    · rw [if_neg hend, if_pos (Or.inr hj), Traced.value_bind, Traced.value_ite]
      exact if_pos hj
    · rw [if_neg hend, if_neg (not_or.mpr ⟨hend, hj⟩), Traced.value_bind, Traced.value_ite]
      exact if_neg hj

def labelAt (cells : ℕ → UInt8) (p : ℕ) (hpos : 0 < (cells p).toNat) (hlow : (cells p).toNat < 64) :
    Label where
  bytes := (List.range' (p + 1) (cells p).toNat).map cells
  nonempty := by simpa using hpos
  short := by simpa using hlow

omit [Memory] in
private theorem holds_labelAt {cells : ℕ → UInt8} {p : ℕ} (hpos : 0 < (cells p).toNat)
    (hlow : (cells p).toNat < 64) : Holds cells p (labelAt cells p hpos hlow).wire := by
  refine ⟨?_, holds_map_range' _ _⟩
  simp [labelAt]

theorem dnExpandPass_label {l : Label} (h : Holds packet.byte s.p l.wire) :
    (dnExpandPass packet base fin src limit s).value =
      if fin ≤ s.p + l.wire.length ∨ limit ≤ (extend s.dest l).length then
        .done none (separated s.dest)
      else .next ⟨s.p + l.wire.length, extend s.dest l, s.len⟩ := by
  have hlen : (packet.byte s.p).toNat = l.bytes.length := Spells.toNat_of_label h
  have hlow : ¬ 64 ≤ (packet.load8 s.p).value := by
    have := l.short
    rw [Packet.value_load8]
    omega
  have hpos : (packet.load8 s.p).value ≠ 0 := by
    have := l.nonempty
    rw [Packet.value_load8]
    omega
  have hbytes := (holds_iff_map (s.p + 1) l.bytes).mp h.2
  have hend : s.p + 1 + l.bytes.length = s.p + l.wire.length := by
    rw [Label.length_wire]
    omega
  have hextend : extend s.dest l = separated s.dest ++ l.bytes := rfl
  rw [dnExpandPass, Traced.value_bind, if_neg hlow, if_pos hpos, Packet.value_load8, hlen, hend,
    hextend, List.length_append]
  by_cases hout : fin ≤ s.p + l.wire.length ∨ limit ≤ (separated s.dest).length + l.bytes.length
  · rw [if_pos hout, if_pos hout]
    rfl
  · rw [if_neg hout, if_neg hout, Traced.value_bind, value_loadRange, hbytes]
    rfl

theorem dnExpandPass_terminator (h : packet.byte s.p = 0) :
    (dnExpandPass packet base fin src limit s).value =
      .done (some (s.len.getD (s.p + 1 - src))) (s.dest ++ [0]) := by
  simp [dnExpandPass, h]

omit [Memory] in
/-- Every byte is the first of a pointer, of a label, or ends the name. -/
theorem byte_cases (cells : ℕ → UInt8) (p : ℕ) :
    64 ≤ (cells p).toNat ∨ (∃ l : Label, Holds cells p l.wire) ∨ cells p = 0 := by
  by_cases hhigh : 64 ≤ (cells p).toNat
  · exact Or.inl hhigh
  by_cases hzero : (cells p).toNat = 0
  · exact Or.inr (Or.inr (UInt8.toNat_inj.mp hzero))
  · exact Or.inr (Or.inl ⟨_, holds_labelAt (Nat.pos_of_ne_zero hzero) (Nat.not_le.mp hhigh)⟩)

/-- What the source's comment states of every loop head, with the lower bound of `p`. -/
structure Expansion.InBounds (base fin limit : ℕ) (s : Expansion) : Prop where
  base_le : base ≤ s.p
  p_lt : s.p < fin
  dest_lt : s.dest.length < limit

/-- How a pass goes on: behind a pointer inside the buffer, or behind a label that fits. -/
theorem dnExpandPass_next_inv {s' : Expansion}
    (hs' : (dnExpandPass packet base fin src limit s).value = .next s') :
    (∃ j, s.p + 1 ≠ fin ∧ j < fin - base ∧
      s' = ⟨base + j, s.dest, some (s.len.getD (s.p + 2 - src))⟩) ∨
    ∃ l : Label, s.p + l.wire.length < fin ∧ (extend s.dest l).length < limit ∧
      s' = ⟨s.p + l.wire.length, extend s.dest l, s.len⟩ := by
  rcases byte_cases packet.byte s.p with hp | ⟨l, hl⟩ | hz
  · rw [dnExpandPass_pointer hp] at hs'
    split at hs'
    · cases hs'
    · rename_i hin
      cases hs'
      exact .inl ⟨_, by omega, by omega, rfl⟩
  · rw [dnExpandPass_label hl] at hs'
    split at hs'
    · cases hs'
    · rename_i hin
      cases hs'
      exact .inr ⟨l, by omega, by omega, rfl⟩
  · rw [dnExpandPass_terminator hz] at hs'
    cases hs'

/-- A pass returns a length where the name ends. -/
theorem dnExpandPass_done_inv {m : ℕ} {dest : Bytes}
    (hdone : (dnExpandPass packet base fin src limit s).value = .done (some m) dest) :
    m = s.len.getD (s.p + 1 - src) ∧ dest = s.dest ++ [0] := by
  rcases byte_cases packet.byte s.p with hp | ⟨l, hl⟩ | hz
  · rw [dnExpandPass_pointer hp] at hdone
    split at hdone <;> cases hdone
  · rw [dnExpandPass_label hl] at hdone
    split at hdone <;> cases hdone
  · rw [dnExpandPass_terminator hz] at hdone
    cases hdone
    exact ⟨rfl, rfl⟩

theorem dnExpandPass_inBounds {s' : Expansion} (h : s.InBounds base fin limit)
    (hs' : (dnExpandPass packet base fin src limit s).value = .next s') :
    s'.InBounds base fin limit := by
  have hbase := h.base_le
  rcases dnExpandPass_next_inv hs' with ⟨j, -, hj, rfl⟩ | ⟨l, hp, hdest, rfl⟩
  · exact ⟨Nat.le_add_right _ _, by dsimp only; omega, h.dest_lt⟩
  · exact ⟨hbase.trans (Nat.le_add_right _ _), hp, hdest⟩

theorem dnExpandPass_reads (h : s.InBounds base fin limit) :
    (dnExpandPass packet base fin src limit s).ReadsWithin base fin := by
  have := h.p_lt
  have := h.base_le
  rw [dnExpandPass, readsWithin_bind, Packet.readsWithin_load8]
  refine ⟨by omega, ?_⟩
  rw [readsWithin_ite]
  split
  · rw [readsWithin_ite]
    split
    · exact readsWithin_pure _
    · rw [readsWithin_bind, Packet.readsWithin_load8]
      refine ⟨by omega, ?_⟩
      rw [readsWithin_ite]
      split <;> exact readsWithin_pure _
  · rw [readsWithin_ite]
    split
    · rw [readsWithin_ite]
      split
      · exact readsWithin_pure _
      · rw [readsWithin_bind, readsWithin_loadRange]
        exact ⟨by omega, readsWithin_pure _⟩
    · exact readsWithin_pure _

private theorem dnExpandLoop_reads (n : ℕ) (h : s.InBounds base fin limit) :
    (dnExpandLoop packet base fin src limit n s).ReadsWithin base fin := by
  induction n generalizing s with
  | zero => exact readsWithin_pure _
  | succ n ih =>
    rw [dnExpandLoop, readsWithin_bind]
    refine ⟨dnExpandPass_reads h, ?_⟩
    cases hpass : (dnExpandPass packet base fin src limit s).value with
    | next s' => exact ih (dnExpandPass_inBounds h hpass)
    | done length dest => exact readsWithin_pure _

private theorem outputs_dnExpandPass : (dnExpandPass packet base fin src limit s).outputs = [] := by
  simp only [dnExpandPass, Traced.outputs_bind, Traced.outputs_ite, Traced.outputs_pure,
    Packet.outputs_load8, outputs_loadRange, List.append_nil, ite_self]

private theorem outputs_dnExpandLoop (n : ℕ) : (dnExpandLoop packet base fin src limit n s).outputs = [] := by
  induction n generalizing s with
  | zero => rfl
  | succ n ih =>
    rw [dnExpandLoop, Traced.outputs_bind, outputs_dnExpandPass, List.nil_append]
    cases (dnExpandPass packet base fin src limit s).value with
    | next s' => exact ih
    | done length dest => rfl

variable (packet base fin src limit) in
/-- The name at a loop head fits `n` passes and the room in `dest`; with it the function
returns `m` and has written `d`. -/
def Expansion.Yields (n m : ℕ) (d : Bytes) (s : Expansion) : Prop :=
  ∃ labels steps width, Spells packet.byte (fromBase base) fin s.p labels steps width ∧
    steps ≤ n ∧ (labels.foldl extend s.dest).length < limit ∧
      m = s.len.getD (s.p + width - src) ∧ d = labels.foldl extend s.dest ++ [0]

variable (packet base fin src limit) in
/-- The same of the outcome of a pass. -/
def Pass.Yields (n m : ℕ) (d : Bytes) : Pass → Prop
  | .next s => s.Yields packet base fin src limit n m d
  | .done length dest => (length, dest) = (some m, d)

section Yields
variable {n m : ℕ} {d : Bytes}

private theorem not_yields_zero : ¬ s.Yields packet base fin src limit 0 m d := by
  intro h
  obtain ⟨labels, steps, width, hspells, hsteps, -⟩ := h
  have := hspells.steps_pos
  omega

private theorem yields_pointer (h : s.InBounds base fin limit) (hp : 64 ≤ (packet.byte s.p).toNat) :
    s.Yields packet base fin src limit (n + 1) m d ↔
      (dnExpandPass packet base fin src limit s).value.Yields packet base fin src limit n m d := by
  have := h.p_lt
  have hopens : (fromBase base).pointer (packet.byte s.p) := hp
  rw [dnExpandPass_pointer hp]
  split
  · refine iff_of_false ?_ (by simp [Pass.Yields])
    intro hname
    obtain ⟨labels, steps, width, hspells, -⟩ := hname
    obtain ⟨hinside, -, _, _, -, hrest⟩ := hspells.pointer_inv hopens
    have htarget : base + offset (packet.byte s.p) (packet.byte (s.p + 1)) < fin := hrest.lt_fin
    omega
  · constructor
    · intro hname
      obtain ⟨labels, steps, width, hspells, hsteps, hlen, hm, hd⟩ := hname
      obtain ⟨-, rfl, steps', width', rfl, hrest⟩ := hspells.pointer_inv hopens
      exact ⟨labels, steps', width', hrest, by omega, hlen, hm, hd⟩
    · intro hname
      obtain ⟨labels, steps, width, hspells, hsteps, hlen, hm, hd⟩ := hname
      exact ⟨labels, steps + 1, 2, .pointer (by omega) hopens hspells, by omega, hlen, hm, hd⟩

private theorem yields_label {l : Label} (hl : Holds packet.byte s.p l.wire) :
    s.Yields packet base fin src limit (n + 1) m d ↔
      (dnExpandPass packet base fin src limit s).value.Yields packet base fin src limit n m d := by
  rw [dnExpandPass_label hl]
  split
  · refine iff_of_false ?_ (by simp [Pass.Yields])
    intro hname
    obtain ⟨labels, steps, width, hspells, -, hlen, -⟩ := hname
    obtain ⟨rest, _, _, rfl, -, -, hrest⟩ := hspells.label_inv hl
    have hgrow := length_le_foldl_extend (extend s.dest l) rest
    have := hrest.lt_fin
    rw [List.foldl_cons] at hlen
    omega
  · constructor
    · intro hname
      obtain ⟨labels, steps, width, hspells, hsteps, hlen, hm, hd⟩ := hname
      obtain ⟨rest, steps', width', rfl, rfl, rfl, hrest⟩ := hspells.label_inv hl
      refine ⟨rest, steps', width', hrest, by omega, hlen, ?_, hd⟩
      rw [hm, Nat.add_assoc]
    · intro hname
      obtain ⟨labels, steps, width, hspells, hsteps, hlen, hm, hd⟩ := hname
      refine ⟨l :: labels, steps + 1, l.wire.length + width, .label hl hspells, by omega, hlen, ?_, hd⟩
      rw [hm, Nat.add_assoc]

private theorem yields_terminator (h : s.InBounds base fin limit) (hz : packet.byte s.p = 0) :
    s.Yields packet base fin src limit (n + 1) m d ↔
      (dnExpandPass packet base fin src limit s).value.Yields packet base fin src limit n m d := by
  rw [dnExpandPass_terminator hz]
  constructor
  · intro hname
    obtain ⟨labels, steps, width, hspells, hsteps, hlen, hm, hd⟩ := hname
    obtain ⟨rfl, rfl, rfl⟩ := hspells.terminator_inv hz
    rw [hm, hd]
    rfl
  · intro hr
    cases hr
    exact ⟨[], 1, 1, .terminator h.p_lt hz, by omega, h.dest_lt, rfl, rfl⟩

theorem yields_succ_iff (h : s.InBounds base fin limit) :
    s.Yields packet base fin src limit (n + 1) m d ↔
      (dnExpandPass packet base fin src limit s).value.Yields packet base fin src limit n m d := by
  rcases byte_cases packet.byte s.p with hp | ⟨l, hl⟩ | hz
  · exact yields_pointer h hp
  · exact yields_label hl
  · exact yields_terminator h hz

end Yields

/-- The loop succeeds exactly on a name that fits the passes it has left and the
room in `dest`, and then has written it behind what was there. -/
theorem dnExpandLoop_iff (n : ℕ) (h : s.InBounds base fin limit) (m : ℕ) (d : Bytes) :
    (dnExpandLoop packet base fin src limit n s).value = (some m, d) ↔
      s.Yields packet base fin src limit n m d := by
  induction n generalizing s with
  | zero =>
    refine iff_of_false ?_ not_yields_zero
    intro hr
    cases hr
  | succ n ih =>
    rw [yields_succ_iff h, dnExpandLoop, Traced.value_bind]
    cases hpass : (dnExpandPass packet base fin src limit s).value with
    | next s' => exact ih (dnExpandPass_inBounds h hpass)
    | done length dest => exact Iff.rfl

theorem dnExpand_eq_loop {space : ℕ} (hsrc : src < fin) (hspace : 0 < space) :
    dnExpand packet base fin src space =
      dnExpandLoop packet base fin src (room space) (passes base fin) ⟨src, [], none⟩ :=
  if_neg (by omega)

omit [Memory] in
theorem start_inBounds {space : ℕ} (hbase : base ≤ src) (hsrc : src < fin) (hspace : 0 < space) :
    Expansion.InBounds base fin (room space) ⟨src, [], none⟩ where
  base_le := hbase
  p_lt := hsrc
  dest_lt := by
    simp only [room, List.length_nil]
    split <;> omega

/-- `dn_expand` succeeds exactly on the names that its passes and its buffer admit; it
returns their width and writes their dotted text. -/
theorem dnExpand_iff {space : ℕ} (hbase : base ≤ src) (hsrc : src < fin) (hspace : 0 < space)
    (m : ℕ) (d : Bytes) :
    (dnExpand packet base fin src space).value = (some m, d) ↔
      ∃ labels steps, Spells packet.byte (fromBase base) fin src labels steps m ∧
        steps ≤ passes base fin ∧ (dotted labels).length < room space ∧ d = dotted labels ++ [0] := by
  rw [dnExpand_eq_loop hsrc hspace, dnExpandLoop_iff _ (start_inBounds hbase hsrc hspace)]
  constructor
  · intro h
    obtain ⟨labels, steps, width, hspells, hsteps, hlen, hm, hd⟩ := h
    obtain rfl : m = width := by
      rw [hm]
      simp
    rw [foldl_extend_nil] at hlen hd
    exact ⟨labels, steps, hspells, hsteps, hlen, hd⟩
  · intro h
    obtain ⟨labels, steps, hspells, hsteps, hlen, hd⟩ := h
    rw [← foldl_extend_nil] at hlen hd
    exact ⟨labels, steps, m, hspells, hsteps, hlen, by simp, hd⟩

theorem dnExpand_reads {space : ℕ} (hbase : base ≤ src) (hsrc : src ≤ fin) :
    (dnExpand packet base fin src space).ReadsWithin base fin := by
  by_cases h : src = fin ∨ space = 0
  · rw [dnExpand, if_pos h]
    exact readsWithin_pure _
  · have hlt : src < fin := by omega
    have hspace : 0 < space := by omega
    rw [dnExpand_eq_loop hlt hspace]
    exact dnExpandLoop_reads _ (start_inBounds hbase hlt hspace)

@[simp] theorem outputs_dnExpand (space : ℕ) : (dnExpand packet base fin src space).outputs = [] := by
  rw [dnExpand, Traced.outputs_ite, outputs_dnExpandLoop]
  exact ite_self _

/-- A name without pointers always fits the passes. -/
theorem dnExpand_plainWire {space : ℕ} {labels : List Label} (hbase : base ≤ src)
    (h : Holds packet.byte src (plainWire labels)) (hfin : src + (plainWire labels).length ≤ fin)
    (hlen : (dotted labels).length < room space) :
    (dnExpand packet base fin src space).value =
      (some (plainWire labels).length, dotted labels ++ [0]) := by
  have hwire := length_plainWire labels
  have hspace : 0 < space := by
    unfold room at hlen
    split at hlen <;> omega
  rw [dnExpand_iff hbase (by omega) hspace]
  refine ⟨labels, labels.length + 1, spells_plainWire h hfin, ?_, hlen, rfl⟩
  have := two_mul_length_le labels
  unfold passes
  omega

end Spec
end OpenSniffer.DnsExpansion
