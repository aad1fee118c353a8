import Mathlib.Data.List.Basic
import Mathlib.Data.List.Range
import Mathlib.Tactic.Basic

/-!
# Computations that record the cells they read and what they print

A traced computation is a result with the list of cells that were read and the
list of outputs that were made on the way to it, both oldest first. Nothing here
fixes what a cell holds or what an output is: a program over a byte buffer reads
numbered cells, and a bound on its reads is a statement about the recorded
numbers. The rules below split such a bound over sequencing, so that a proof
about a program follows the program's own text. The last section states that cells
hold a list, for facts about a buffer with a known content.
-/
namespace OpenSniffer.TracedReads

structure Traced (Out α : Type) where
  value : α
  reads : List ℕ
  outputs : List Out

namespace Traced
variable {Out α β : Type}

instance : Monad (Traced Out) where
  pure a := ⟨a, [], []⟩
  bind x f := ⟨(f x.value).value, x.reads ++ (f x.value).reads, x.outputs ++ (f x.value).outputs⟩

@[simp] theorem value_pure (a : α) : (pure a : Traced Out α).value = a := rfl
@[simp] theorem reads_pure (a : α) : (pure a : Traced Out α).reads = [] := rfl
@[simp] theorem outputs_pure (a : α) : (pure a : Traced Out α).outputs = [] := rfl

@[simp] theorem value_bind (x : Traced Out α) (f : α → Traced Out β) :
    (x >>= f).value = (f x.value).value := rfl

@[simp] theorem reads_bind (x : Traced Out α) (f : α → Traced Out β) :
    (x >>= f).reads = x.reads ++ (f x.value).reads := rfl

@[simp] theorem outputs_bind (x : Traced Out α) (f : α → Traced Out β) :
    (x >>= f).outputs = x.outputs ++ (f x.value).outputs := rfl

@[simp] theorem value_ite (c : Prop) [Decidable c] (x y : Traced Out α) :
    (if c then x else y).value = if c then x.value else y.value := by split <;> rfl

@[simp] theorem outputs_ite (c : Prop) [Decidable c] (x y : Traced Out α) :
    (if c then x else y).outputs = if c then x.outputs else y.outputs := by split <;> rfl

/-- A guard that rejects. -/
theorem value_reject_iff (c : Prop) [Decidable c] (x : Traced Out Bool) :
    (if c then pure false else x).value = true ↔ ¬ c ∧ x.value = true := by
  by_cases h : c
  · simp [h]
  · simp [h]

def load (cells : ℕ → β) (i : ℕ) : Traced Out β := ⟨cells i, [i], []⟩

/-- Read `n` cells from `i` on; the result has exactly that many. -/
def loadRange (cells : ℕ → β) (i n : ℕ) : Traced Out {bs : List β // bs.length = n} :=
  ⟨⟨(List.range' i n).map cells, by simp⟩, List.range' i n, []⟩

/-- Read from `i` up to and including the first cell that satisfies `stop`, and
return how many came before it. Cells behind the image are not looked at. -/
def scan (image : List β) (stop : β → Bool) (i : ℕ) : Traced Out ℕ :=
  let n := ((image.drop i).takeWhile (fun b => !stop b)).length
  ⟨n, List.range' i (n + 1), []⟩

def print (o : Out) : Traced Out Unit := ⟨(), [], [o]⟩

@[simp] theorem value_load (cells : ℕ → β) (i : ℕ) :
    (load cells i : Traced Out β).value = cells i := rfl
@[simp] theorem outputs_load (cells : ℕ → β) (i : ℕ) :
    (load cells i : Traced Out β).outputs = [] := rfl
@[simp] theorem outputs_loadRange (cells : ℕ → β) (i n : ℕ) :
    (loadRange cells i n : Traced Out _).outputs = [] := rfl
@[simp] theorem outputs_scan (image : List β) (stop : β → Bool) (i : ℕ) :
    (scan image stop i : Traced Out ℕ).outputs = [] := rfl
@[simp] theorem outputs_print (o : Out) : (print o).outputs = [o] := rfl

theorem value_loadRange (cells : ℕ → β) (i n : ℕ) :
    (loadRange cells i n : Traced Out _).value.1 = (List.range' i n).map cells := rfl

theorem value_scan (image : List β) (stop : β → Bool) (i : ℕ) :
    (scan image stop i : Traced Out ℕ).value =
      ((image.drop i).takeWhile (fun b => !stop b)).length := rfl

/-- Every cell read lies in `[lo, hi)`. -/
def ReadsWithin (lo hi : ℕ) (x : Traced Out α) : Prop := ∀ i ∈ x.reads, lo ≤ i ∧ i < hi

section Within
variable {lo hi : ℕ}

@[simp] theorem readsWithin_pure (a : α) : (pure a : Traced Out α).ReadsWithin lo hi := by
  simp [ReadsWithin]

@[simp] theorem readsWithin_bind (x : Traced Out α) (f : α → Traced Out β) :
    (x >>= f).ReadsWithin lo hi ↔ x.ReadsWithin lo hi ∧ (f x.value).ReadsWithin lo hi := by
  simp only [ReadsWithin, reads_bind, List.mem_append]
  constructor
  · intro h
    exact ⟨fun i hi => h i (Or.inl hi), fun i hi => h i (Or.inr hi)⟩
  · rintro ⟨hx, hf⟩ i (hi | hi)
    · exact hx i hi
    · exact hf i hi

theorem readsWithin_ite (c : Prop) [Decidable c] (x y : Traced Out α) :
    (if c then x else y).ReadsWithin lo hi ↔
      if c then x.ReadsWithin lo hi else y.ReadsWithin lo hi := by
  split <;> rfl

@[simp] theorem readsWithin_load (cells : ℕ → β) (i : ℕ) :
    (load cells i : Traced Out β).ReadsWithin lo hi ↔ lo ≤ i ∧ i < hi := by
  simp [ReadsWithin, load]

@[simp] theorem readsWithin_print (o : Out) : (print o).ReadsWithin lo hi := by
  simp [ReadsWithin, print]

theorem readsWithin_loadRange (cells : ℕ → β) (i n : ℕ) :
    (loadRange cells i n : Traced Out _).ReadsWithin lo hi ↔ n = 0 ∨ (lo ≤ i ∧ i + n ≤ hi) := by
  simp only [ReadsWithin, loadRange, List.mem_range'_1]
  constructor
  · intro h
    rcases Nat.eq_zero_or_pos n with hn | hn
    · exact Or.inl hn
    · have hfirst := h i ⟨Nat.le_refl i, by omega⟩
      have hlast := h (i + n - 1) ⟨by omega, by omega⟩
      exact Or.inr ⟨hfirst.1, by omega⟩
  · rintro (rfl | hb) j hj <;> omega

theorem readsWithin_scan (image : List β) (stop : β → Bool) (i : ℕ) :
    (scan image stop i : Traced Out ℕ).ReadsWithin lo hi ↔
      lo ≤ i ∧ i + (scan image stop i : Traced Out ℕ).value < hi := by
  simp only [ReadsWithin, scan, List.mem_range'_1]
  constructor
  · intro h
    have hfirst := h i ⟨Nat.le_refl i, by omega⟩
    have hlast := h (i + ((image.drop i).takeWhile (fun b => !stop b)).length) ⟨by omega, by omega⟩
    exact ⟨hfirst.1, by omega⟩
  · rintro hb j hj
    omega

theorem ReadsWithin.mono {x : Traced Out α} {lo' hi' : ℕ} (h : x.ReadsWithin lo hi)
    (hlo : lo' ≤ lo) (hhi : hi ≤ hi') : x.ReadsWithin lo' hi' := by
  intro i hi
  have := h i hi
  omega

end Within

/-- Every output has a property. -/
def PrintsOnly (P : Out → Prop) (x : Traced Out α) : Prop := ∀ o ∈ x.outputs, P o

section PrintsOnly
variable {P : Out → Prop}

@[simp] theorem printsOnly_pure (a : α) : (pure a : Traced Out α).PrintsOnly P := by
  simp [PrintsOnly]

@[simp] theorem printsOnly_bind (x : Traced Out α) (f : α → Traced Out β) :
    (x >>= f).PrintsOnly P ↔ x.PrintsOnly P ∧ (f x.value).PrintsOnly P := by
  simp only [PrintsOnly, outputs_bind, List.forall_mem_append]

theorem printsOnly_ite (c : Prop) [Decidable c] (x y : Traced Out α) :
    (if c then x else y).PrintsOnly P ↔ if c then x.PrintsOnly P else y.PrintsOnly P := by
  split <;> rfl

@[simp] theorem printsOnly_print (o : Out) : (print o).PrintsOnly P ↔ P o := by
  simp [PrintsOnly]

theorem printsOnly_of_silent {x : Traced Out α} (h : x.outputs = []) : x.PrintsOnly P := by
  simp [PrintsOnly, h]

end PrintsOnly
end Traced

section Holds
variable {β : Type}

/-- The cells from a position on hold a list. -/
def Holds (cells : ℕ → β) : ℕ → List β → Prop
  | _, [] => True
  | i, b :: bs => cells i = b ∧ Holds cells (i + 1) bs

variable {cells : ℕ → β}

@[simp] theorem holds_nil (i : ℕ) : Holds cells i [] := trivial

@[simp] theorem holds_cons (i : ℕ) (b : β) (bs : List β) :
    Holds cells i (b :: bs) ↔ cells i = b ∧ Holds cells (i + 1) bs := Iff.rfl

@[simp] theorem holds_append (i : ℕ) (bs cs : List β) :
    Holds cells i (bs ++ cs) ↔ Holds cells i bs ∧ Holds cells (i + bs.length) cs := by
  induction bs generalizing i with
  | nil => simp
  | cons b bs ih =>
    have hlen : i + (b :: bs).length = i + 1 + bs.length := by simp only [List.length_cons]; omega
    rw [List.cons_append, holds_cons, holds_cons, ih, hlen, and_assoc]

theorem holds_iff_map (i : ℕ) (bs : List β) :
    Holds cells i bs ↔ (List.range' i bs.length).map cells = bs := by
  induction bs generalizing i with
  | nil => simp
  | cons b bs ih =>
    rw [holds_cons, ih, List.length_cons, List.range'_succ, List.map_cons, List.cons.injEq]

theorem holds_map_range' (i n : ℕ) : Holds cells i ((List.range' i n).map cells) := by
  rw [holds_iff_map, List.length_map, List.length_range']

/-- What holds of a list's elements holds of the cells they are in. -/
theorem forall_cells_iff {i : ℕ} {bs : List β} (h : Holds cells i bs) (P : β → Prop) :
    (∀ j, i ≤ j → j < i + bs.length → P (cells j)) ↔ ∀ b ∈ bs, P b := by
  rw [holds_iff_map] at h
  constructor
  · intro hcells b hb
    rw [← h, List.mem_map] at hb
    obtain ⟨j, hj, rfl⟩ := hb
    rw [List.mem_range'_1] at hj
    exact hcells j hj.1 hj.2
  · intro hall j hlow hhigh
    apply hall
    rw [← h]
    exact List.mem_map_of_mem (List.mem_range'_1.mpr ⟨hlow, hhigh⟩)

end Holds

end OpenSniffer.TracedReads
