import OpenSniffer.CompressedNames
import Mathlib.Algebra.Group.Nat.Defs
import Mathlib.Data.List.Nodup
import Mathlib.Data.List.Perm.Subperm

/-!
# Readings of a name, part by part

The parts of a name are its labels, its pointers and its terminator. A reading stands at
one part after the other. It never comes back to a place, for a place spells one name at
most; and if its parts share no byte, there are at most half as many as there are bytes.
-/
namespace OpenSniffer.NameReadings
open CompressedNames TracedReads

/-- Where a part of a name stands, and how many bytes it has. -/
structure Part where
  start : ℕ
  length : ℕ

namespace Part

def positions (part : Part) : List ℕ := List.range' part.start part.length

/-- Two parts share no byte. -/
def Apart (part part' : Part) : Prop :=
  part.start + part.length ≤ part'.start ∨ part'.start + part'.length ≤ part.start

@[simp] theorem length_positions (part : Part) : part.positions.length = part.length :=
  List.length_range'

theorem nodup_positions (part : Part) : part.positions.Nodup := List.nodup_range' _

theorem Apart.disjoint {part part' : Part} (h : part.Apart part') :
    part.positions.Disjoint part'.positions := by
  intro i hi hi'
  rw [positions, List.mem_range'_1] at hi hi'
  rcases h with h | h <;> omega

end Part

/-- `Reading cells convention fin p labels parts width`: the name at `p` is read over
these parts. -/
inductive Reading (cells : ℕ → UInt8) (convention : Convention) (fin : ℕ) :
    ℕ → List Label → List Part → ℕ → Prop
  | terminator {p : ℕ} (inside : p < fin) (zero : cells p = 0) :
      Reading cells convention fin p [] [⟨p, 1⟩] 1
  | label {p : ℕ} {l : Label} {labels : List Label} {parts : List Part} {width : ℕ}
      (here : Holds cells p l.wire)
      (rest : Reading cells convention fin (p + l.wire.length) labels parts width) :
      Reading cells convention fin p (l :: labels) (⟨p, l.wire.length⟩ :: parts)
        (l.wire.length + width)
  | pointer {p : ℕ} {labels : List Label} {parts : List Part} {width : ℕ}
      (inside : p + 1 < fin) (opens : convention.pointer (cells p))
      (rest : Reading cells convention fin (convention.origin + offset (cells p) (cells (p + 1)))
        labels parts width) :
      Reading cells convention fin p labels (⟨p, 2⟩ :: parts) 2

namespace Reading
variable {cells : ℕ → UInt8} {convention : Convention} {fin p width : ℕ} {labels : List Label}
  {parts : List Part}

theorem spells (h : Reading cells convention fin p labels parts width) :
    Spells cells convention fin p labels parts.length width := by
  induction h with
  | terminator inside zero => exact .terminator inside zero
  | label here _ ih => exact .label here ih
  | pointer inside opens _ ih => exact .pointer inside opens ih

theorem of_spells {steps : ℕ} (h : Spells cells convention fin p labels steps width) :
    ∃ parts, Reading cells convention fin p labels parts width ∧ parts.length = steps := by
  induction h with
  | terminator inside zero => exact ⟨_, .terminator inside zero, rfl⟩
  | label here _ ih =>
    obtain ⟨parts, hrest, hlen⟩ := ih
    exact ⟨_, .label here hrest, by rw [List.length_cons, hlen]⟩
  | pointer inside opens _ ih =>
    obtain ⟨parts, hrest, hlen⟩ := ih
    exact ⟨_, .pointer inside opens hrest, by rw [List.length_cons, hlen]⟩

/-- The parts lie between the lowest place a pointer can lead to and `fin`. -/
theorem inside {lo : ℕ} (h : Reading cells convention fin p labels parts width) (hp : lo ≤ p)
    (horigin : lo ≤ convention.origin) :
    ∀ part ∈ parts, lo ≤ part.start ∧ part.start + part.length ≤ fin := by
  induction h with
  | terminator inside _ => simpa using ⟨hp, inside⟩
  | label here rest ih =>
    have hend := rest.spells.lt_fin
    rw [List.forall_mem_cons]
    exact ⟨⟨hp, by dsimp only; omega⟩, ih (by omega)⟩
  | pointer inside _ _ ih =>
    rw [List.forall_mem_cons]
    exact ⟨⟨hp, by dsimp only; omega⟩, ih (by omega)⟩

/-- Every part but the last has two bytes or more. -/
theorem two_mul_length_le (h : Reading cells convention fin p labels parts width) :
    2 * parts.length ≤ (parts.flatMap Part.positions).length + 1 := by
  induction h with
  | terminator => simp
  | @label p l labels parts width here rest ih =>
    have hone := l.nonempty
    rw [List.flatMap_cons, List.length_append, List.length_cons, Part.length_positions,
      Label.length_wire]
    dsimp only
    omega
  | pointer _ _ _ ih =>
    rw [List.flatMap_cons, List.length_append, List.length_cons, Part.length_positions]
    dsimp only
    omega

/-- Parts that share no byte are at most half as many as the bytes they lie in, with one
more byte for the terminator. -/
theorem two_mul_length_le_of_apart {lo : ℕ} (h : Reading cells convention fin p labels parts width)
    (hp : lo ≤ p) (horigin : lo ≤ convention.origin) (hapart : parts.Pairwise Part.Apart) :
    2 * parts.length ≤ fin - lo + 1 := by
  have hnodup : (parts.flatMap Part.positions).Nodup := by
    rw [List.nodup_flatMap]
    exact ⟨fun part _ => part.nodup_positions, hapart.imp Part.Apart.disjoint⟩
  have hsub : parts.flatMap Part.positions ⊆ List.range' lo (fin - lo) := by
    intro i hi
    obtain ⟨part, hpart, hi⟩ := List.mem_flatMap.mp hi
    have hin := h.inside hp horigin part hpart
    rw [Part.positions, List.mem_range'_1] at hi
    rw [List.mem_range'_1]
    omega
  have hle := (hnodup.subperm hsub).length_le
  rw [List.length_range'] at hle
  exact h.two_mul_length_le.trans (Nat.succ_le_succ hle)

theorem spells_of_mem (h : Reading cells convention fin p labels parts width) {part : Part}
    (hpart : part ∈ parts) : ∃ rest steps width', steps ≤ parts.length ∧
      Spells cells convention fin part.start rest steps width' := by
  induction h with
  | @terminator p inside zero =>
    obtain rfl := List.mem_singleton.mp hpart
    exact ⟨[], 1, 1, Nat.le_refl _, .terminator inside zero⟩
  | label here rest ih =>
    rcases List.mem_cons.mp hpart with rfl | hpart
    · exact ⟨_, _, _, Nat.le_refl _, (Reading.label here rest).spells⟩
    · obtain ⟨labels, steps, width', hle, hspells⟩ := ih hpart
      exact ⟨labels, steps, width', hle.trans (Nat.le_succ _), hspells⟩
  | pointer inside opens rest ih =>
    rcases List.mem_cons.mp hpart with rfl | hpart
    · exact ⟨_, _, _, Nat.le_refl _, (Reading.pointer inside opens rest).spells⟩
    · obtain ⟨labels, steps, width', hle, hspells⟩ := ih hpart
      exact ⟨labels, steps, width', hle.trans (Nat.le_succ _), hspells⟩

/-- A place is not visited again by the reading that goes on from it. -/
theorem not_mem_starts {first : Part} {p' width' : ℕ} {labels' : List Label}
    (h : Reading cells convention fin p labels (first :: parts) width)
    (hrest : Reading cells convention fin p' labels' parts width') : p ∉ parts.map Part.start := by
  intro hmem
  obtain ⟨part, hpart, hstart⟩ := List.mem_map.mp hmem
  obtain ⟨rest, steps, width'', hle, hspells⟩ := hrest.spells_of_mem hpart
  rw [hstart] at hspells
  have hsteps := (h.spells.unique hspells).2.1
  rw [List.length_cons] at hsteps
  omega

/-- A reading does not come back to a place. -/
theorem nodup_starts (h : Reading cells convention fin p labels parts width) :
    (parts.map Part.start).Nodup := by
  induction h with
  | terminator => exact List.nodup_singleton _
  | label here rest ih =>
    rw [List.map_cons, List.nodup_cons]
    exact ⟨(Reading.label here rest).not_mem_starts rest, ih⟩
  | pointer inside opens rest ih =>
    rw [List.map_cons, List.nodup_cons]
    exact ⟨(Reading.pointer inside opens rest).not_mem_starts rest, ih⟩

/-- The places that the pointers of a reading lead to are the starts of later parts. -/
theorem targets (h : Reading cells convention fin p labels parts width) :
    ∃ targets : List ℕ, targets.Sublist (parts.map Part.start).tail ∧
      targets.length + labels.length + 1 = parts.length ∧
        ∀ q ∈ targets, convention.origin ≤ q ∧ q < convention.origin + 2 ^ 14 := by
  induction h with
  | terminator => exact ⟨[], List.nil_sublist _, rfl, nofun⟩
  | label here rest ih =>
    obtain ⟨targets, hsub, hlength, hin⟩ := ih
    refine ⟨targets, hsub.trans (List.tail_sublist _), ?_, hin⟩
    rw [List.length_cons, List.length_cons, ← hlength]
    rfl
  | @pointer p labels parts width inside opens rest ih =>
    obtain ⟨targets, hsub, hlength, hin⟩ := ih
    have hoffset : offset (cells p) (cells (p + 1)) < 2 ^ 14 := by
      have hlow := (cells (p + 1)).toNat_lt
      rw [offset]
      omega
    refine ⟨(convention.origin + offset (cells p) (cells (p + 1))) :: targets, ?_, ?_, ?_⟩
    · rw [List.map_cons, List.tail_cons]
      cases rest with
      | terminator => exact hsub.cons_cons _
      | label => exact hsub.cons_cons _
      | pointer => exact hsub.cons_cons _
    · rw [List.length_cons, List.length_cons, ← hlength]
      omega
    · rw [List.forall_mem_cons]
      exact ⟨⟨Nat.le_add_right _ _, by omega⟩, hin⟩

/-- A reading has no more pointers than there are offsets. -/
theorem length_le (h : Reading cells convention fin p labels parts width) :
    parts.length ≤ labels.length + 1 + 2 ^ 14 := by
  obtain ⟨targets, hsub, hlength, hin⟩ := h.targets
  have hnodup : targets.Nodup := h.nodup_starts.sublist (hsub.trans (List.tail_sublist _))
  have hrange : targets ⊆ List.range' convention.origin (2 ^ 14) := by
    intro q hq
    rw [List.mem_range'_1]
    exact hin q hq
  have hle := (hnodup.subperm hrange).length_le
  rw [List.length_range'] at hle
  omega

/-- Where the bytes that are pointers by one convention are so by the other, a reading by
the one is a reading by the other. -/
theorem convert {convention' : Convention} (h : Reading cells convention fin p labels parts width)
    (horigin : convention'.origin = convention.origin)
    (hpointer : ∀ part ∈ parts, convention.pointer (cells part.start) →
      convention'.pointer (cells part.start)) :
    Reading cells convention' fin p labels parts width := by
  induction h with
  | terminator inside zero => exact .terminator inside zero
  | label here _ ih =>
    rw [List.forall_mem_cons] at hpointer
    exact .label here (ih hpointer.2)
  | pointer inside opens _ ih =>
    rw [List.forall_mem_cons] at hpointer
    have hrest := ih hpointer.2
    rw [← horigin] at hrest
    exact .pointer inside (hpointer.1 opens) hrest

/-- A place is read over one list of parts at most. -/
theorem unique {labels' : List Label} {parts' : List Part} {width' : ℕ}
    (h : Reading cells convention fin p labels parts width)
    (h' : Reading cells convention fin p labels' parts' width') : parts = parts' := by
  induction h generalizing labels' parts' width' with
  | terminator _ zero =>
    cases h' with
    | terminator => rfl
    | label here _ => exact absurd zero (Spells.ne_zero_of_label here)
    | pointer _ opens _ => exact absurd opens (Spells.not_pointer_of_zero zero)
  | label here _ ih =>
    cases h' with
    | terminator _ zero => exact absurd zero (Spells.ne_zero_of_label here)
    | label here' rest' =>
      obtain rfl := Label.eq_of_holds here here'
      rw [ih rest']
    | pointer _ opens _ => exact absurd opens (Spells.not_pointer_of_label here)
  | pointer _ opens _ ih =>
    cases h' with
    | terminator _ zero => exact absurd opens (Spells.not_pointer_of_zero zero)
    | label here _ => exact absurd opens (Spells.not_pointer_of_label here)
    | pointer _ _ rest' => rw [ih rest']

/-- Every part starts with a byte that is zero, a label's length or opens a pointer. -/
theorem byte_of_mem (h : Reading cells convention fin p labels parts width) :
    ∀ part ∈ parts, (cells part.start).toNat < 64 ∨ convention.pointer (cells part.start) := by
  induction h with
  | terminator _ zero => simp [zero]
  | @label p l labels parts width here _ ih =>
    have hshort := l.short
    rw [List.forall_mem_cons]
    exact ⟨Or.inl (Spells.toNat_of_label here ▸ hshort), ih⟩
  | pointer _ opens _ ih =>
    rw [List.forall_mem_cons]
    exact ⟨Or.inr opens, ih⟩

theorem start_mem (h : Reading cells convention fin p labels parts width) :
    ∃ part ∈ parts, part.start = p := by
  cases h <;> exact ⟨_, List.mem_cons_self, rfl⟩

end Reading
end OpenSniffer.NameReadings
