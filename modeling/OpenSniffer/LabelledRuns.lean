import Mathlib.Data.List.Basic
import Mathlib.Algebra.GroupWithZero.Nat
import Mathlib.Tactic.Common

/-!
# Runs of a machine that takes inputs

A step takes an input and may be impossible. A run takes one step for each of its inputs.
What one step keeps, adds or mirrors, a run keeps, adds or mirrors.
-/
namespace OpenSniffer.LabelledRuns
variable {σ τ ι : Type}

def run (step : σ → ι → Option σ) : σ → List ι → Option σ
  | s, [] => some s
  | s, i :: inputs => (step s i).bind fun s' => run step s' inputs

variable {step : σ → ι → Option σ} {s s' : σ} {i : ι} {inputs inputs' : List ι}

theorem run_cons_iff : run step s (i :: inputs) = some s' ↔ ∃ s₁, step s i = some s₁ ∧ run step s₁ inputs = some s' :=
  Option.bind_eq_some_iff

theorem run_append_iff : run step s (inputs ++ inputs') = some s' ↔
    ∃ s₁, run step s inputs = some s₁ ∧ run step s₁ inputs' = some s' := by
  induction inputs generalizing s with
  | nil => simp [run]
  | cons i inputs ih =>
    rw [List.cons_append, run_cons_iff]
    constructor
    · intro h
      obtain ⟨s₁, hstep, hrest⟩ := h
      obtain ⟨s₂, hrun, hrest'⟩ := ih.mp hrest
      exact ⟨s₂, run_cons_iff.mpr ⟨s₁, hstep, hrun⟩, hrest'⟩
    · intro h
      obtain ⟨s₂, hrun, hrest⟩ := h
      obtain ⟨s₁, hstep, hrun'⟩ := run_cons_iff.mp hrun
      exact ⟨s₁, hstep, ih.mpr ⟨s₂, hrun', hrest⟩⟩

/-- What every step keeps, a run keeps. -/
theorem run_rule {P : σ → Prop} (hkeeps : ∀ s i s', P s → step s i = some s' → P s')
    (h : run step s inputs = some s') (hs : P s) : P s' := by
  induction inputs generalizing s with
  | nil =>
    cases h
    exact hs
  | cons i inputs ih =>
    obtain ⟨s₁, hstep, hrest⟩ := run_cons_iff.mp h
    exact ih hrest (hkeeps s i s₁ hs hstep)

/-- What the steps add to a text, one after the other, a run adds. -/
theorem run_adds {α : Type} {P : σ → Prop} {text : σ → List α} {added : ι → List α}
    (hkeeps : ∀ s i s', P s → step s i = some s' → P s')
    (hadds : ∀ s i s', P s → step s i = some s' → text s' = text s ++ added i)
    (h : run step s inputs = some s') (hs : P s) : text s' = text s ++ inputs.flatMap added := by
  induction inputs generalizing s with
  | nil =>
    cases h
    exact (List.append_nil _).symm
  | cons i inputs ih =>
    obtain ⟨s₁, hstep, hrest⟩ := run_cons_iff.mp h
    rw [ih hrest (hkeeps s i s₁ hs hstep), hadds s i s₁ hs hstep, List.flatMap_cons, List.append_assoc]

/-- What the steps pay for out of a potential, a run pays for. -/
theorem run_pays {P : σ → Prop} {potential : σ → ℕ} {cost : ι → ℕ}
    (hkeeps : ∀ s i s', P s → step s i = some s' → P s')
    (hpays : ∀ s i s', P s → step s i = some s' → cost i + potential s' ≤ potential s)
    (h : run step s inputs = some s') (hs : P s) : (inputs.map cost).sum + potential s' ≤ potential s := by
  induction inputs generalizing s with
  | nil =>
    cases h
    simp
  | cons i inputs ih =>
    obtain ⟨s₁, hstep, hrest⟩ := run_cons_iff.mp h
    have hpay := hpays s i s₁ hs hstep
    have hrun := ih hrest (hkeeps s i s₁ hs hstep)
    rw [List.map_cons, List.sum_cons]
    omega

/-- What a run has made true, one of its steps has. -/
theorem run_turns {P : σ → Prop} (h : run step s inputs = some s') (hs : ¬ P s) (hs' : P s') :
    ∃ before i after s₁ s₂, inputs = before ++ i :: after ∧ run step s before = some s₁ ∧
      step s₁ i = some s₂ ∧ run step s₂ after = some s' ∧ ¬ P s₁ ∧ P s₂ := by
  induction inputs generalizing s with
  | nil =>
    cases h
    exact absurd hs' hs
  | cons i inputs ih =>
    obtain ⟨s₁, hstep, hrest⟩ := run_cons_iff.mp h
    by_cases hs₁ : P s₁
    · exact ⟨[], i, inputs, s, s₁, rfl, rfl, hstep, hrest, hs, hs₁⟩
    · obtain ⟨before, i', after, s₂, s₃, rfl, hbefore, hrest'⟩ := ih hrest hs₁
      exact ⟨i :: before, i', after, s₂, s₃, rfl, run_cons_iff.mpr ⟨s₁, hstep, hbefore⟩, hrest'⟩

/-- A machine that mirrors every step of another mirrors its runs. -/
theorem run_mirrors {step' : τ → ι → Option τ} {R : σ → τ → Prop} {t : τ}
    (hmirrors : ∀ s t i s', R s t → step s i = some s' → ∃ t', step' t i = some t' ∧ R s' t')
    (h : run step s inputs = some s') (hst : R s t) : ∃ t', run step' t inputs = some t' ∧ R s' t' := by
  induction inputs generalizing s t with
  | nil =>
    cases h
    exact ⟨t, rfl, hst⟩
  | cons i inputs ih =>
    obtain ⟨s₁, hstep, hrest⟩ := run_cons_iff.mp h
    obtain ⟨t₁, hstep', hst₁⟩ := hmirrors s t i s₁ hst hstep
    obtain ⟨t', hrest', hst'⟩ := ih hrest hst₁
    exact ⟨t', run_cons_iff.mpr ⟨t₁, hstep', hrest'⟩, hst'⟩

end OpenSniffer.LabelledRuns
