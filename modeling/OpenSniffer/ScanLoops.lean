import Mathlib.Algebra.Group.Nat.Defs
import Mathlib.Tactic.Common

/-!
# Loops that scan

`for (; pos < stop;)` over the positions of a text. The body goes on with a new state or
returns, and what is left at the end of the text finishes. The loop is run by fuel; an
invariant under which every pass moves on makes the fuel irrelevant, so that facts about a
run are facts about the states it reaches.
-/
namespace OpenSniffer.ScanLoops

structure Scan (σ α : Type) where
  pos : σ → ℕ
  stop : ℕ
  body : σ → σ ⊕ α
  finish : σ → α

namespace Scan
variable {σ α : Type} (scan : Scan σ α)

def run : ℕ → σ → α
  | 0, s => scan.finish s
  | n + 1, s =>
    if scan.pos s < scan.stop then
      match scan.body s with
      | .inl s => run n s
      | .inr a => a
    else scan.finish s

/-- The loop comes from one head to another. -/
inductive Reaches : σ → σ → Prop
  | refl (s : σ) : Reaches s s
  | step {s s' s'' : σ} (inside : scan.pos s < scan.stop) (goes : scan.body s = .inl s')
      (rest : Reaches s' s'') : Reaches s s''

/-- The invariant is kept by every pass, and every pass moves on. -/
def Keeps (P : σ → Prop) : Prop :=
  ∀ s s', P s → scan.pos s < scan.stop → scan.body s = .inl s' → P s' ∧ scan.pos s < scan.pos s'

variable {scan} {s s' s'' : σ} {a : α} {n : ℕ}

theorem run_of_goes (inside : scan.pos s < scan.stop) (goes : scan.body s = .inl s') :
    scan.run (n + 1) s = scan.run n s' := by
  rw [run, if_pos inside, goes]

theorem run_of_returns (inside : scan.pos s < scan.stop) (returns : scan.body s = .inr a) :
    scan.run (n + 1) s = a := by
  rw [run, if_pos inside, returns]

theorem run_of_end (out : scan.stop ≤ scan.pos s) : scan.run n s = scan.finish s := by
  cases n with
  | zero => rfl
  | succ n => rw [run, if_neg (Nat.not_lt.mpr out)]

theorem Reaches.single (inside : scan.pos s < scan.stop) (goes : scan.body s = .inl s') :
    scan.Reaches s s' :=
  .step inside goes (.refl s')

theorem Reaches.trans (h : scan.Reaches s s') (h' : scan.Reaches s' s'') : scan.Reaches s s'' := by
  induction h with
  | refl _ => exact h'
  | step inside goes _ ih => exact .step inside goes (ih h')

section Invariants
variable {P : σ → Prop} (hP : scan.Keeps P)
include hP

theorem Reaches.keeps (h : scan.Reaches s s') (hs : P s) : P s' := by
  induction h with
  | refl _ => exact hs
  | step inside goes _ ih => exact ih (hP _ _ hs inside goes).1

/-- With enough fuel a run comes to a head where the body returns, or to the text's end. -/
theorem run_cases (hs : P s) (hn : scan.stop ≤ scan.pos s + n) :
    ∃ s', scan.Reaches s s' ∧ P s' ∧
      ((scan.pos s' < scan.stop ∧ scan.body s' = .inr (scan.run n s)) ∨
        (scan.stop ≤ scan.pos s' ∧ scan.run n s = scan.finish s')) := by
  induction n generalizing s with
  | zero => exact ⟨s, .refl s, hs, .inr ⟨hn, rfl⟩⟩
  | succ n ih =>
    by_cases inside : scan.pos s < scan.stop
    · cases hbody : scan.body s with
      | inl t =>
        obtain ⟨ht, hlt⟩ := hP s t hs inside hbody
        obtain ⟨s', hreach, hs', hend⟩ := ih ht (by omega)
        rw [run_of_goes inside hbody]
        exact ⟨s', .step inside hbody hreach, hs', hend⟩
      | inr a =>
        refine ⟨s, .refl s, hs, .inl ⟨inside, ?_⟩⟩
        rw [run_of_returns inside hbody, hbody]
    · have hout := Nat.not_lt.mp inside
      exact ⟨s, .refl s, hs, .inr ⟨hout, run_of_end hout⟩⟩

theorem run_eq_run {m : ℕ} (hs : P s) (hn : scan.stop ≤ scan.pos s + n)
    (hm : scan.stop ≤ scan.pos s + m) : scan.run n s = scan.run m s := by
  induction n generalizing s m with
  | zero => rw [run_of_end (n := 0) hn, run_of_end (n := m) hn]
  | succ n ih =>
    by_cases inside : scan.pos s < scan.stop
    · obtain ⟨m, rfl⟩ : ∃ k, m = k + 1 := ⟨m - 1, by omega⟩
      cases hbody : scan.body s with
      | inl t =>
        obtain ⟨ht, hlt⟩ := hP s t hs inside hbody
        rw [run_of_goes inside hbody, run_of_goes inside hbody]
        exact ih ht (by omega) (by omega)
      | inr a => rw [run_of_returns inside hbody, run_of_returns inside hbody]
    · have hout := Nat.not_lt.mp inside
      rw [run_of_end hout, run_of_end hout]

/-- A run is the run from any head it reaches. -/
theorem Reaches.run_eq {m : ℕ} (h : scan.Reaches s s') (hs : P s) (hn : scan.stop ≤ scan.pos s + n)
    (hm : scan.stop ≤ scan.pos s' + m) : scan.run n s = scan.run m s' := by
  induction h generalizing n with
  | refl s => exact run_eq_run hP hs hn hm
  | step inside goes _ ih =>
    obtain ⟨n, rfl⟩ : ∃ k, n = k + 1 := ⟨n - 1, by omega⟩
    obtain ⟨ht, hlt⟩ := hP _ _ hs inside goes
    rw [run_of_goes inside goes]
    exact ih ht (by omega) hm

/-- What holds of every return and of every finish holds of the run. -/
theorem run_rule {Q : α → Prop} (hs : P s) (hn : scan.stop ≤ scan.pos s + n)
    (hreturns : ∀ s a, P s → scan.pos s < scan.stop → scan.body s = .inr a → Q a)
    (hfinish : ∀ s, P s → scan.stop ≤ scan.pos s → Q (scan.finish s)) : Q (scan.run n s) := by
  obtain ⟨s', -, hs', ⟨inside, hbody⟩ | ⟨hout, heq⟩⟩ := run_cases hP hs hn
  · exact hreturns s' _ hs' inside hbody
  · rw [heq]
    exact hfinish s' hs' hout

end Invariants
end Scan
end OpenSniffer.ScanLoops
