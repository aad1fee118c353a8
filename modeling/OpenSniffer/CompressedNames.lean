import OpenSniffer.TracedReads
import Mathlib.Tactic.Common

/-!
# Domain names in memory

A name is written as labels, each behind its length, and is ended by a zero byte or
by a pointer to the rest of the name. Which bytes open a pointer and from where its
offset counts is a convention, so that two conventions can be compared over the same
memory. A reading is a finite derivation: a cycle of pointers has none.
-/
namespace OpenSniffer.CompressedNames
open TracedReads

structure Label where
  bytes : List UInt8
  nonempty : 0 < bytes.length
  short : bytes.length < 64

namespace Label

/-- A label as it is written: its length, then its bytes. -/
def wire (l : Label) : List UInt8 := UInt8.ofNat l.bytes.length :: l.bytes

@[simp] theorem length_wire (l : Label) : l.wire.length = l.bytes.length + 1 := rfl

theorem toNat_length (l : Label) : (UInt8.ofNat l.bytes.length).toNat = l.bytes.length := by
  have := l.short
  simp only [UInt8.toNat_ofNat']
  omega

private theorem eq_of_bytes {l l' : Label} (h : l.bytes = l'.bytes) : l = l' := by
  cases l
  cases l'
  simpa using h

def letter (b : UInt8) : Label := ⟨[b], by simp, by simp⟩

/-- Two labels written at one place are the same. -/
theorem eq_of_holds {cells : ℕ → UInt8} {p : ℕ} {l l' : Label} (h : Holds cells p l.wire)
    (h' : Holds cells p l'.wire) : l = l' := by
  obtain ⟨hn, hb⟩ := h
  obtain ⟨hn', hb'⟩ := h'
  have hlen : l.bytes.length = l'.bytes.length := by
    rw [← toNat_length l, ← toNat_length l', ← hn, ← hn']
  rw [holds_iff_map] at hb hb'
  apply eq_of_bytes
  rw [← hb, ← hb', hlen]

end Label

def separated (text : List UInt8) : List UInt8 := if text = [] then text else text ++ [46]

/-- A label added to a text, with a dot between the two. -/
def extend (text : List UInt8) (l : Label) : List UInt8 := separated text ++ l.bytes

def dotted (labels : List Label) : List UInt8 := [46].intercalate (labels.map Label.bytes)

theorem length_extend (text : List UInt8) (l : Label) :
    (extend text l).length = (if text = [] then 0 else text.length + 1) + l.bytes.length := by
  unfold extend separated
  by_cases h : text = []
  · simp [h]
  · simp only [if_neg h, List.length_append, List.length_singleton]

theorem extend_ne_nil (text : List UInt8) (l : Label) : extend text l ≠ [] := by
  intro h
  have := l.nonempty
  have hlen := congrArg List.length h
  rw [length_extend, List.length_nil] at hlen
  omega

theorem length_le_foldl_extend (text : List UInt8) (labels : List Label) :
    text.length ≤ (labels.foldl extend text).length := by
  induction labels generalizing text with
  | nil => exact Nat.le_refl _
  | cons l labels ih =>
    have hone : text.length ≤ (extend text l).length := by
      rw [length_extend]
      by_cases h : text = []
      · simp [h]
      · rw [if_neg h]
        omega
    exact hone.trans (ih (extend text l))

private theorem foldl_extend_of_ne_nil {text : List UInt8} (h : text ≠ []) (labels : List Label) :
    labels.foldl extend text = [46].intercalate (text :: labels.map Label.bytes) := by
  induction labels generalizing text with
  | nil => simp
  | cons l labels ih =>
    have hstep : extend text l = text ++ [46] ++ l.bytes := by rw [extend, separated, if_neg h]
    rw [List.foldl_cons, ih (extend_ne_nil text l), hstep, List.map_cons,
      List.intercalate_cons_cons]
    cases labels with
    | nil => simp
    | cons l' labels => simp [List.intercalate_cons_cons]

/-- Adding the labels one by one to an empty text gives the dotted name. -/
theorem foldl_extend_nil (labels : List Label) : labels.foldl extend [] = dotted labels := by
  cases labels with
  | nil => rfl
  | cons l labels =>
    have hl : extend [] l = l.bytes := by simp [extend, separated]
    rw [List.foldl_cons, foldl_extend_of_ne_nil (extend_ne_nil [] l), hl]
    rfl

theorem dotted_cons (l : Label) {labels : List Label} (h : labels ≠ []) :
    dotted (l :: labels) = l.bytes ++ 46 :: dotted labels := by
  have hmap : labels.map Label.bytes ≠ [] := by simpa using h
  rw [dotted, List.map_cons, List.intercalate_cons_of_ne_nil hmap]
  simp [dotted]

theorem mem_dotted {labels : List Label} {b : UInt8} (h : b ∈ dotted labels) :
    b = 46 ∨ ∃ l ∈ labels, b ∈ l.bytes := by
  induction labels with
  | nil => simp [dotted] at h
  | cons l labels ih =>
    by_cases hnil : labels = []
    · subst hnil
      exact Or.inr ⟨l, List.mem_cons_self, by simpa [dotted] using h⟩
    · rw [dotted_cons l hnil, List.mem_append, List.mem_cons] at h
      rcases h with h | h | h
      · exact Or.inr ⟨l, List.mem_cons_self, h⟩
      · exact Or.inl h
      · rcases ih h with h | ⟨l', hl', hb⟩
        · exact Or.inl h
        · exact Or.inr ⟨l', List.mem_cons_of_mem _ hl', hb⟩

/-- A name takes one more byte as labels than as text, and none if it has no labels. -/
theorem length_flatMap_wire_le (labels : List Label) :
    (labels.flatMap Label.wire).length ≤ (dotted labels).length + 1 := by
  induction labels with
  | nil => simp
  | cons l labels ih =>
    rw [List.flatMap_cons, List.length_append, Label.length_wire]
    by_cases hnil : labels = []
    · subst hnil
      simp [dotted]
    · rw [dotted_cons l hnil, List.length_append, List.length_cons]
      omega

/-- How pointers are written: the bytes that open one, and where offsets count from.
No label length opens a pointer. -/
structure Convention where
  pointer : UInt8 → Prop
  origin : ℕ
  pointer_high : ∀ b, pointer b → 64 ≤ b.toNat

/-- The fourteen-bit offset in the two bytes of a pointer. -/
def offset (b b' : UInt8) : ℕ := b.toNat % 64 * 256 + b'.toNat

/-- The two top bits open a pointer, and offsets count from the message's first byte. -/
def standard : Convention where
  pointer b := 192 ≤ b.toNat
  origin := 0
  pointer_high _ h := by omega

/-- `Spells cells convention fin p labels steps width`: below `fin`, the name at `p` has
these labels; it is read in `steps` labels, pointers and terminators, and `width` bytes
at `p` are its own, up to its terminator or first pointer. -/
inductive Spells (cells : ℕ → UInt8) (convention : Convention) (fin : ℕ) :
    ℕ → List Label → ℕ → ℕ → Prop
  | terminator {p : ℕ} (inside : p < fin) (zero : cells p = 0) : Spells cells convention fin p [] 1 1
  | label {p : ℕ} {l : Label} {labels : List Label} {steps width : ℕ}
      (here : Holds cells p l.wire)
      (rest : Spells cells convention fin (p + l.wire.length) labels steps width) :
      Spells cells convention fin p (l :: labels) (steps + 1) (l.wire.length + width)
  | pointer {p : ℕ} {labels : List Label} {steps width : ℕ}
      (inside : p + 1 < fin) (opens : convention.pointer (cells p))
      (rest : Spells cells convention fin (convention.origin + offset (cells p) (cells (p + 1)))
        labels steps width) :
      Spells cells convention fin p labels (steps + 1) 2

namespace Spells
variable {cells : ℕ → UInt8} {convention : Convention} {fin p : ℕ} {labels labels' : List Label}
  {steps steps' width width' : ℕ}

theorem lt_fin (h : Spells cells convention fin p labels steps width) : p < fin := by
  induction h with
  | terminator inside _ => exact inside
  | label _ _ ih => omega
  | pointer inside _ _ _ => omega

theorem steps_pos (h : Spells cells convention fin p labels steps width) : 0 < steps := by
  cases h <;> omega

theorem toNat_of_label {l : Label} (h : Holds cells p l.wire) :
    (cells p).toNat = l.bytes.length := by rw [h.1, Label.toNat_length]

theorem not_pointer_of_label {l : Label} (h : Holds cells p l.wire) :
    ¬ convention.pointer (cells p) := by
  intro hp
  have := convention.pointer_high _ hp
  have := toNat_of_label h
  have := l.short
  omega

theorem not_pointer_of_zero (h : cells p = 0) : ¬ convention.pointer (cells p) := by
  intro hp
  have := convention.pointer_high _ hp
  simp [h] at this

theorem ne_zero_of_label {l : Label} (h : Holds cells p l.wire) : cells p ≠ 0 := by
  intro hz
  have := toNat_of_label h
  have := l.nonempty
  have hlen : (cells p).toNat = 0 := by rw [hz]; rfl
  omega

theorem pointer_inv (opens : convention.pointer (cells p))
    (h : Spells cells convention fin p labels steps width) :
    p + 1 < fin ∧ width = 2 ∧ ∃ steps' width', steps = steps' + 1 ∧
      Spells cells convention fin (convention.origin + offset (cells p) (cells (p + 1)))
        labels steps' width' := by
  cases h with
  | terminator _ zero => exact absurd opens (not_pointer_of_zero zero)
  | label here _ => exact absurd opens (not_pointer_of_label here)
  | pointer inside _ rest => exact ⟨inside, rfl, _, _, rfl, rest⟩

theorem label_inv {l : Label} (here : Holds cells p l.wire)
    (h : Spells cells convention fin p labels steps width) :
    ∃ rest steps' width', labels = l :: rest ∧ steps = steps' + 1 ∧
      width = l.wire.length + width' ∧
        Spells cells convention fin (p + l.wire.length) rest steps' width' := by
  cases h with
  | terminator _ zero => exact absurd zero (ne_zero_of_label here)
  | pointer _ opens _ => exact absurd opens (not_pointer_of_label here)
  | label here' rest =>
    obtain rfl := Label.eq_of_holds here here'
    exact ⟨_, _, _, rfl, rfl, rfl, rest⟩

theorem terminator_inv (zero : cells p = 0)
    (h : Spells cells convention fin p labels steps width) :
    labels = [] ∧ steps = 1 ∧ width = 1 := by
  cases h with
  | terminator => exact ⟨rfl, rfl, rfl⟩
  | label here _ => exact absurd zero (ne_zero_of_label here)
  | pointer _ opens _ => exact absurd opens (not_pointer_of_zero zero)

/-- A place spells one name at most. -/
theorem unique (h : Spells cells convention fin p labels steps width)
    (h' : Spells cells convention fin p labels' steps' width') :
    labels = labels' ∧ steps = steps' ∧ width = width' := by
  induction h generalizing labels' steps' width' with
  | terminator _ zero =>
    obtain ⟨rfl, rfl, rfl⟩ := terminator_inv zero h'
    exact ⟨rfl, rfl, rfl⟩
  | label here _ ih =>
    obtain ⟨rest, steps', width', rfl, rfl, rfl, hrest⟩ := label_inv here h'
    obtain ⟨rfl, rfl, rfl⟩ := ih hrest
    exact ⟨rfl, rfl, rfl⟩
  | pointer _ opens _ ih =>
    obtain ⟨-, rfl, steps', width', rfl, hrest⟩ := pointer_inv opens h'
    obtain ⟨rfl, rfl, -⟩ := ih hrest
    exact ⟨rfl, rfl, rfl⟩

/-- Labels in front of a place that spells a name. -/
theorem prepend {front : List Label} (hfront : Holds cells p (front.flatMap Label.wire))
    (h : Spells cells convention fin (p + (front.flatMap Label.wire).length) labels steps width) :
    Spells cells convention fin p (front ++ labels) (front.length + steps)
      ((front.flatMap Label.wire).length + width) := by
  induction front generalizing p with
  | nil => simpa using h
  | cons l front ih =>
    rw [List.flatMap_cons, holds_append] at hfront
    rw [List.flatMap_cons, List.length_append, ← Nat.add_assoc] at h
    have hrest := Spells.label hfront.1 (ih hfront.2 h)
    have hsteps : (l :: front).length + steps = front.length + steps + 1 := by
      rw [List.length_cons]
      omega
    have hwidth : ((l :: front).flatMap Label.wire).length + width =
        l.wire.length + ((front.flatMap Label.wire).length + width) := by
      rw [List.flatMap_cons, List.length_append, Nat.add_assoc]
    rw [hsteps, hwidth]
    exact hrest

/-- What labels in front of a place spell is decided there. -/
theorem of_prepend {front : List Label} (hfront : Holds cells p (front.flatMap Label.wire))
    (h : Spells cells convention fin p labels steps width) :
    ∃ rest steps' width', labels = front ++ rest ∧ steps = front.length + steps' ∧
      width = (front.flatMap Label.wire).length + width' ∧
      Spells cells convention fin (p + (front.flatMap Label.wire).length) rest steps' width' := by
  induction front generalizing p labels steps width with
  | nil => exact ⟨labels, steps, width, rfl, by simp, by simp, by simpa using h⟩
  | cons l front ih =>
    rw [List.flatMap_cons, holds_append] at hfront
    obtain ⟨tail, steps, width, rfl, rfl, rfl, htail⟩ := label_inv hfront.1 h
    obtain ⟨rest, steps', width', rfl, rfl, rfl, hrest⟩ := ih hfront.2 htail
    refine ⟨rest, steps', width', rfl, ?_, ?_, ?_⟩
    · rw [List.length_cons]
      omega
    · rw [List.flatMap_cons, List.length_append, Nat.add_assoc]
    · rw [List.flatMap_cons, List.length_append, ← Nat.add_assoc]
      exact hrest

end Spells

/-- A name written as labels up to a zero byte. -/
def plainWire (labels : List Label) : List UInt8 := labels.flatMap Label.wire ++ [0]

theorem length_plainWire (labels : List Label) :
    (plainWire labels).length = (labels.flatMap Label.wire).length + 1 := by simp [plainWire]

theorem two_mul_length_le (labels : List Label) :
    2 * labels.length ≤ (labels.flatMap Label.wire).length := by
  induction labels with
  | nil => simp
  | cons l labels ih =>
    have := l.nonempty
    simp only [List.flatMap_cons, List.length_append, Label.length_wire, List.length_cons]
    omega

theorem spells_plainWire {cells : ℕ → UInt8} {convention : Convention} {fin p : ℕ}
    {labels : List Label} (h : Holds cells p (plainWire labels))
    (hfin : p + (plainWire labels).length ≤ fin) :
    Spells cells convention fin p labels (labels.length + 1) (plainWire labels).length := by
  rw [length_plainWire] at hfin ⊢
  rw [plainWire, holds_append, holds_cons] at h
  simpa using Spells.prepend h.1 (.terminator (by omega) h.2.1)

end OpenSniffer.CompressedNames
