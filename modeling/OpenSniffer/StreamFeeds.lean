import Mathlib.Data.List.Basic
import Mathlib.Tactic.Common

/-!
# Machines that read a stream

A machine takes one input after the other, tells something for each, and may stop. What it
has come to behind two parts of a stream is what it comes to in the second part from where
the first part has led it.
-/
namespace OpenSniffer.StreamFeeds
variable {σ α β : Type}

/-- What some inputs have led to: how many were taken, and whether that was the end. -/
structure Fed (σ β : Type) where
  state : σ
  told : List β
  count : ℕ
  stopped : Bool

def Fed.start (s : σ) : Fed σ β := ⟨s, [], 0, false⟩

/-- What follows, unless the machine has stopped. -/
def Fed.andThen (f : Fed σ β) (next : σ → Fed σ β) : Fed σ β :=
  if f.stopped then f
  else ⟨(next f.state).state, f.told ++ (next f.state).told, f.count + (next f.state).count, (next f.state).stopped⟩

def feed (step : σ → α → Fed σ β) : σ → List α → Fed σ β
  | s, [] => Fed.start s
  | s, a :: inputs => (step s a).andThen fun s => feed step s inputs

theorem andThen_stopped {f : Fed σ β} (h : f.stopped = true) (next : σ → Fed σ β) : f.andThen next = f :=
  if_pos h

theorem andThen_goes (s : σ) (told : List β) (n : ℕ) (next : σ → Fed σ β) :
    (⟨s, told, n, false⟩ : Fed σ β).andThen next =
      ⟨(next s).state, told ++ (next s).told, n + (next s).count, (next s).stopped⟩ := rfl

theorem start_andThen (s : σ) (next : σ → Fed σ β) : (Fed.start s).andThen next = next s := by
  rw [Fed.start, andThen_goes, List.nil_append, Nat.zero_add]

private theorem andThen_assoc (f : Fed σ β) (next last : σ → Fed σ β) :
    (f.andThen next).andThen last = f.andThen fun s => (next s).andThen last := by
  obtain ⟨s, told, n, stopped⟩ := f
  cases stopped with
  | true => rfl
  | false =>
    rw [andThen_goes, andThen_goes]
    cases hstopped : (next s).stopped with
    | true => rw [andThen_stopped rfl, andThen_stopped hstopped, hstopped]
    | false => simp only [Fed.andThen, hstopped, Bool.false_eq_true, if_false, List.append_assoc, Nat.add_assoc]

section Feeds
variable {step : σ → α → Fed σ β}

theorem feed_append (s : σ) (inputs rest : List α) :
    feed step s (inputs ++ rest) = (feed step s inputs).andThen fun s => feed step s rest := by
  induction inputs generalizing s with
  | nil => rw [List.nil_append, feed, start_andThen]
  | cons a inputs ih =>
    rw [List.cons_append, feed, feed, andThen_assoc]
    simp only [ih]

/-- Inputs that lead from each state of a kind to another of it, each telling one thing. -/
theorem feed_steady {P : σ → Prop} {next : σ → α → σ} {tell : α → β} {inputs : List α}
    (hstep : ∀ s, P s → ∀ a ∈ inputs, step s a = ⟨next s a, [tell a], 1, false⟩ ∧ P (next s a))
    {s : σ} (hs : P s) : feed step s inputs = ⟨inputs.foldl next s, inputs.map tell, inputs.length, false⟩ := by
  induction inputs generalizing s with
  | nil => rfl
  | cons a inputs ih =>
    obtain ⟨hfirst, hs'⟩ := hstep s hs a List.mem_cons_self
    have hrest := ih (fun s hs b hb => hstep s hs b (List.mem_cons_of_mem _ hb)) hs'
    rw [feed, hfirst, andThen_goes, hrest, Nat.add_comm 1]
    rfl

/-- Inputs that leave the machine where it is. -/
theorem feed_fixed {tell : α → β} {inputs : List α} {s : σ}
    (hstep : ∀ a ∈ inputs, step s a = ⟨s, [tell a], 1, false⟩) :
    feed step s inputs = ⟨s, inputs.map tell, inputs.length, false⟩ := by
  have hsteady := @feed_steady _ _ _ step (fun s' => s' = s) (fun s' _ => s') tell inputs ?_ _ rfl
  · rwa [List.foldl_fixed] at hsteady
  · rintro _ rfl a ha
    exact ⟨hstep a ha, rfl⟩

end Feeds
end OpenSniffer.StreamFeeds
