import Mathlib.Algebra.Group.Nat.Defs
import Mathlib.Tactic.Common

/-!
# Loops that count

`for (i = 0; i < bound; i += stride)`, where the counter holds numbers up to `top`. A step
of the counter beyond `top` is undefined, so a run that comes to it has no end. The body
goes on with a new state or returns. A run that ends does what the body does when it is
iterated as often as the counter allows.
-/
namespace OpenSniffer.CountedLoops

structure Loop (σ α : Type) where
  body : σ → σ ⊕ α
  bound : ℕ
  stride : ℕ
  top : ℕ

namespace Loop
variable {σ α : Type} (loop : Loop σ α)

/-- The body is entered with this counter and this state. -/
inductive Head (start : σ) : ℕ → σ → Prop
  | entry (inside : 0 < loop.bound) : Head start 0 start
  | again {i : ℕ} {s s' : σ} (head : Head start i s) (goes : loop.body s = .inl s')
      (fits : i + loop.stride ≤ loop.top) (inside : i + loop.stride < loop.bound) :
      Head start (i + loop.stride) s'

/-- From this counter and this state the loop ends, with its last state or with what the
body returned. -/
inductive Ends : ℕ → σ → σ ⊕ α → Prop
  | exhausted {i : ℕ} {s : σ} (out : loop.bound ≤ i) : Ends i s (.inl s)
  | returned {i : ℕ} {s : σ} {a : α} (inside : i < loop.bound) (returns : loop.body s = .inr a) :
      Ends i s (.inr a)
  | again {i : ℕ} {s s' : σ} {r : σ ⊕ α} (inside : i < loop.bound) (goes : loop.body s = .inl s')
      (fits : i + loop.stride ≤ loop.top) (rest : Ends (i + loop.stride) s' r) : Ends i s r

def iterate : ℕ → σ → σ ⊕ α
  | 0, s => .inl s
  | n + 1, s =>
    match loop.body s with
    | .inl s => iterate n s
    | .inr a => .inr a

/-- How often the body is entered from this counter on, if it always goes on. -/
def passesFrom (i : ℕ) : ℕ := (loop.bound - i + loop.stride - 1) / loop.stride

variable {loop} {start s s' : σ} {i n : ℕ} {a : α} {r : σ ⊕ α}

theorem iterate_of_goes (h : loop.body s = .inl s') : loop.iterate (n + 1) s = loop.iterate n s' := by
  rw [iterate, h]

theorem iterate_of_returns (h : loop.body s = .inr a) : loop.iterate (n + 1) s = .inr a := by
  rw [iterate, h]

theorem Head.inside (h : loop.Head start i s) : i < loop.bound := by
  cases h with
  | entry inside => exact inside
  | again _ _ _ inside => exact inside

section Invariants
variable {P : σ → Prop} (hstep : ∀ s s', P s → loop.body s = .inl s' → P s')
include hstep

/-- What the body keeps holds wherever it is entered. -/
theorem Head.invariant (hstart : P start) (h : loop.Head start i s) : P s := by
  induction h with
  | entry _ => exact hstart
  | again _ goes _ _ ih => exact hstep _ _ ih goes

/-- What is returned is returned from a state in which the invariant holds. -/
theorem exists_of_iterate_returns (hstart : P s) (h : loop.iterate n s = .inr a) :
    ∃ s', P s' ∧ loop.body s' = .inr a := by
  induction n generalizing s with
  | zero => cases h
  | succ n ih =>
    cases hbody : loop.body s with
    | inl s' =>
      rw [iterate_of_goes hbody] at h
      exact ih (hstep s s' hstart hbody) h
    | inr b =>
      rw [iterate_of_returns hbody] at h
      cases h
      exact ⟨s, hstart, hbody⟩

end Invariants

/-- An end from where the body is entered is an end of the whole loop. -/
theorem Head.ends (h : loop.Head start i s) (hends : loop.Ends i s r) : loop.Ends 0 start r := by
  induction h with
  | entry _ => exact hends
  | again head goes fits _ ih => exact ih (.again head.inside goes fits hends)

variable (loop) in
/-- A loop ends, or goes on wherever its body is entered. -/
theorem ends_or_goes (start : σ) :
    (∃ r, loop.Ends 0 start r) ∨ ∀ i s, loop.Head start i s → ∃ s', loop.body s = .inl s' := by
  by_cases h : ∃ i s a, loop.Head start i s ∧ loop.body s = .inr a
  · obtain ⟨i, s, a, hhead, hreturns⟩ := h
    exact .inl ⟨.inr a, hhead.ends (.returned hhead.inside hreturns)⟩
  · refine .inr ?_
    intro i s hhead
    cases hbody : loop.body s with
    | inl s' => exact ⟨s', rfl⟩
    | inr a => exact absurd ⟨i, s, a, hhead, hbody⟩ h

/-- A loop whose body always goes on has no end if its counter cannot leave the range. -/
theorem not_ends_of_goes {P : σ → Prop} (hgoes : ∀ s, P s → ∃ s', loop.body s = .inl s' ∧ P s')
    (hover : ∀ i, loop.stride ∣ i → loop.bound ≤ i → loop.top < i) (hs : P s) (hi : loop.stride ∣ i)
    (hfits : i ≤ loop.top) : ¬ loop.Ends i s r := by
  intro h
  induction h with
  | exhausted out => exact absurd (hover _ hi out) (Nat.not_lt.mpr hfits)
  | returned _ returns =>
    obtain ⟨s', hbody, -⟩ := hgoes _ hs
    rw [returns] at hbody
    cases hbody
  | again _ goes fits _ ih =>
    obtain ⟨s', hbody, hs'⟩ := hgoes _ hs
    rw [goes] at hbody
    cases hbody
    exact ih hs' (Nat.dvd_add hi (Nat.dvd_refl _)) fits

section Passes
variable (hstride : 0 < loop.stride)
include hstride

theorem passesFrom_of_le (h : loop.bound ≤ i) : loop.passesFrom i = 0 := by
  rw [passesFrom, Nat.sub_eq_zero_of_le h]
  exact Nat.div_eq_of_lt (by omega)

theorem passesFrom_of_lt (h : i < loop.bound) :
    loop.passesFrom i = loop.passesFrom (i + loop.stride) + 1 := by
  rw [passesFrom, passesFrom, ← Nat.add_div_right _ hstride]
  by_cases hlast : loop.bound ≤ i + loop.stride
  · have hone : (loop.bound - i + loop.stride - 1) / loop.stride = 1 :=
      Nat.div_eq_of_lt_le (by omega) (by omega)
    have hother : (loop.bound - (i + loop.stride) + loop.stride - 1 + loop.stride) / loop.stride = 1 :=
      Nat.div_eq_of_lt_le (by omega) (by omega)
    rw [hone, hother]
  · congr 1
    omega

/-- The end of a loop is what its body comes to. -/
theorem Ends.eq_iterate (h : loop.Ends i s r) : r = loop.iterate (loop.passesFrom i) s := by
  induction h with
  | exhausted out =>
    rw [passesFrom_of_le hstride out]
    rfl
  | returned inside returns => rw [passesFrom_of_lt hstride inside, iterate_of_returns returns]
  | again inside goes _ _ ih => rw [passesFrom_of_lt hstride inside, iterate_of_goes goes, ih]

/-- A loop ends if its counter can step over the bound. -/
theorem ends_iterate (htop : loop.bound + loop.stride ≤ loop.top + 1) (i : ℕ) (s : σ) :
    loop.Ends i s (loop.iterate (loop.passesFrom i) s) := by
  induction hn : loop.passesFrom i generalizing i s with
  | zero =>
    apply Ends.exhausted
    by_contra hinside
    rw [passesFrom_of_lt hstride (Nat.not_le.mp hinside)] at hn
    omega
  | succ n ih =>
    have hinside : i < loop.bound := by
      by_contra hout
      rw [passesFrom_of_le hstride (Nat.not_lt.mp hout)] at hn
      omega
    have hrest : loop.passesFrom (i + loop.stride) = n := by
      rw [passesFrom_of_lt hstride hinside] at hn
      omega
    cases hbody : loop.body s with
    | inl s' =>
      rw [iterate_of_goes hbody]
      exact .again hinside hbody (by omega) (ih _ s' hrest)
    | inr a =>
      rw [iterate_of_returns hbody]
      exact .returned hinside hbody

/-- A run that returns ends, for its counter has not come to the bound. -/
theorem ends_of_returns (htop : loop.bound ≤ loop.top + 1) (i : ℕ) (s : σ)
    (h : loop.iterate (loop.passesFrom i) s = .inr a) : loop.Ends i s (.inr a) := by
  induction hn : loop.passesFrom i generalizing i s with
  | zero =>
    rw [hn] at h
    cases h
  | succ n ih =>
    have hinside : i < loop.bound := by
      by_contra hout
      rw [passesFrom_of_le hstride (Nat.not_lt.mp hout)] at hn
      omega
    have hrest : loop.passesFrom (i + loop.stride) = n := by
      rw [passesFrom_of_lt hstride hinside] at hn
      omega
    rw [hn] at h
    cases hbody : loop.body s with
    | inl s' =>
      rw [iterate_of_goes hbody] at h
      have hnext : i + loop.stride < loop.bound := by
        by_contra hout
        rw [← hrest, passesFrom_of_le hstride (Nat.not_lt.mp hout)] at h
        cases h
      exact .again hinside hbody (by omega) (ih (i + loop.stride) s' (hrest ▸ h) hrest)
    | inr b =>
      rw [iterate_of_returns hbody] at h
      cases h
      exact .returned hinside hbody

/-- Where the counter cannot step over the bound, a run that always goes on has no end. -/
theorem not_ends_of_iterate_goes (hover : ∀ i, loop.stride ∣ i → loop.bound ≤ i → loop.top < i)
    (hi : loop.stride ∣ i) (hfits : i ≤ loop.top)
    (h : loop.iterate (loop.passesFrom i) s = .inl s') : ¬ loop.Ends i s r := by
  intro hends
  induction hends with
  | exhausted out => exact absurd (hover _ hi out) (Nat.not_lt.mpr hfits)
  | returned inside returns =>
    rw [passesFrom_of_lt hstride inside, iterate_of_returns returns] at h
    cases h
  | again inside goes fits _ ih =>
    rw [passesFrom_of_lt hstride inside, iterate_of_goes goes] at h
    exact ih (Nat.dvd_add hi (Nat.dvd_refl _)) fits h

end Passes
end Loop
end OpenSniffer.CountedLoops
