import OpenSniffer.HttpOpenings
import OpenSniffer.ScanLoops

/-!
# Runs of the HTTP parser

The parser's loop scans its data. At most one piece is open at a time, so the marks of a
run are those of one piece or none, and the callback of a piece that is not open does
nothing.
-/
namespace OpenSniffer.HttpRuns
open HttpParserState HttpParser HttpOpenings ScanLoops

section Loop
variable (data : List Char)

/-- The parser's loop: the run that a pass goes on with is at the next position. -/
def scan : Scan Run (Run × ℕ) where
  pos r := r.p
  stop := data.length
  body r := match pass data r with
    | .next r => .inl { r with p := r.p + 1 }
    | .stop r parsed => .inr (r, parsed)
  finish r := (leftover r, data.length)

theorem executeLoop_eq_run (n : ℕ) (r : Run) : executeLoop data n r = (scan data).run n r := by
  induction n generalizing r with
  | zero => rfl
  | succ n ih =>
    rw [executeLoop, Scan.run]
    by_cases hinside : r.p < data.length
    · have hinside' : (scan data).pos r < (scan data).stop := hinside
      rw [if_pos hinside, if_pos hinside']
      simp only [scan]
      cases pass data r with
      | next r' => exact ih _
      | stop r' parsed => rfl
    · have hout : ¬ (scan data).pos r < (scan data).stop := hinside
      rw [if_neg hinside, if_neg hout]
      rfl

variable {data}

theorem body_of_next {r r' : Run} (h : pass data r = .next r') :
    (scan data).body r = .inl { r' with p := r'.p + 1 } := by
  simp only [scan, h]

theorem body_of_stop {r r' : Run} {n : ℕ} (h : pass data r = .stop r' n) :
    (scan data).body r = .inr (r', n) := by
  simp only [scan, h]

end Loop

/-- The marks when this piece is open, if one is. -/
def only : Option (Piece × ℕ) → Piece → Option ℕ
  | none => fun _ => none
  | some (piece, start) => Function.update (fun _ => none) piece (some start)

@[simp] theorem only_none (piece : Piece) : only none piece = none := rfl

@[simp] theorem only_self (piece : Piece) (start : ℕ) : only (some (piece, start)) piece = some start := by
  rw [only, Function.update_self]

theorem only_other {piece other : Piece} (h : other ≠ piece) (start : ℕ) :
    only (some (piece, start)) other = none := by
  rw [only, Function.update_of_ne h]

theorem eq_of_only {opened : Option (Piece × ℕ)} {piece : Piece} {start : ℕ}
    (h : only opened piece = some start) : opened = some (piece, start) := by
  cases opened with
  | none => cases h
  | some o =>
    obtain ⟨q, s⟩ := o
    by_cases hq : piece = q
    · subst hq
      rw [only_self] at h
      cases h
      rfl
    · rw [only_other hq] at h
      cases h

private theorem update_only (piece : Piece) (start : ℕ) :
    Function.update (only (some (piece, start))) piece none = only none := by
  funext q
  by_cases hq : q = piece
  · rw [hq, Function.update_self]
    rfl
  · rw [Function.update_of_ne hq, only_other hq]
    rfl

section Marks
variable {r : Run} {piece : Piece} {start : ℕ}

/-- A piece that is not open is opened here. -/
theorem mark_of_closed (h : r.marks = only none) (piece : Piece) :
    r.mark piece = { r with marks := only (some (piece, r.p)) } := by
  have hnone : r.marks piece = none := by rw [h, only_none]
  rw [Run.mark, if_pos hnone, h]
  rfl

theorem mark_of_open (h : r.marks = only (some (piece, start))) : r.mark piece = r := by
  have hsome : ¬ r.marks piece = none := by
    rw [h, only_self]
    exact Option.some_ne_none start
  rw [Run.mark, if_neg hsome]

theorem callbackTo_of_open (h : r.marks = only (some (piece, start))) (fin : ℕ) :
    r.callbackTo piece fin = { r with
      marks := only none
      calls := r.calls ++ [⟨piece, start, fin - start, r.parser.method⟩] } := by
  have hsome : r.marks piece = some start := by rw [h, only_self]
  rw [Run.callbackTo, hsome, h, update_only]

theorem callbackTo_of_none (h : r.marks piece = none) (fin : ℕ) : r.callbackTo piece fin = r := by
  rw [Run.callbackTo, h]

private theorem callback_of_other {other : Piece} (hne : other ≠ piece)
    (h : r.marks = only (some (piece, start))) : r.callback other = r := by
  apply callbackTo_of_none
  rw [h, only_other hne]

@[simp] theorem p_mark (r : Run) (piece : Piece) : (r.mark piece).p = r.p := by
  rw [Run.mark]
  split <;> rfl

@[simp] theorem p_callback (r : Run) (piece : Piece) : (r.callback piece).p = r.p := by
  rw [Run.callback, Run.callbackTo]
  split <;> rfl

/-- At the end of the data nothing is left over if no piece is open. -/
theorem leftover_of_closed (h : r.marks = only none) : leftover r = r := by
  have hnone : ∀ piece, r.callback piece = r := by
    intro piece
    apply callbackTo_of_none
    rw [h, only_none]
  simp only [leftover, hnone]

theorem leftover_of_open (h : r.marks = only (some (piece, start))) :
    leftover r = r.callback piece := by
  have hclosed : ∀ other, (r.callback piece).callback other = r.callback piece := by
    intro other
    rw [Run.callback, Run.callback, callbackTo_of_open h]
    exact callbackTo_of_none rfl _
  have hother : ∀ other, other ≠ piece → r.callback other = r := by
    intro other hne
    exact callback_of_other hne h
  cases piece <;> simp [leftover, hother, hclosed]

end Marks

section Loops
variable (data : List Char)

def fieldName (p : ℕ) : List Char := (data.drop p).takeWhile fun ch => token ch ≠ nul

def fieldRead (parser : Parser) (name : List Char) : Parser :=
  name.foldl (fun parser ch => headerFieldChar parser ch (token ch)) parser

private theorem token_nul : token nul = nul := by decide

theorem headerFieldLoop_eq (n : ℕ) (r : Run) (hn : data.length - r.p ≤ n) :
    headerFieldLoop data n r = { r with
      p := r.p + (fieldName data r.p).length
      parser := fieldRead r.parser (fieldName data r.p) } := by
  induction n generalizing r with
  | zero =>
    have hdrop : data.drop r.p = [] := List.drop_eq_nil_of_le (by omega)
    simp [headerFieldLoop, fieldName, hdrop, fieldRead]
  | succ n ih =>
    rw [headerFieldLoop]
    by_cases hinside : r.p < data.length
    · have hdrop := drop_eq_cons hinside
      by_cases htoken : token (charAt data r.p) = nul
      · simp [fieldName, hdrop, htoken, fieldRead]
      · rw [if_neg htoken, ih _ (by simp only; omega)]
        simp [fieldName, hdrop, htoken, fieldRead]
        omega
    · have hdrop : data.drop r.p = [] := List.drop_eq_nil_of_le (by omega)
      have hch : charAt data r.p = nul := by
        rw [charAt, List.getD_eq_getElem?_getD, List.getElem?_eq_none (by omega), Option.getD_none]
      simp [hch, token_nul, fieldName, hdrop, fieldRead]

variable {data}

/-- From a character that does not end a value, the search for its end moves on. -/
theorem valueEnd_bounds {p : ℕ} (hin : p < data.length) (hcr : charAt data p ≠ cr)
    (hlf : charAt data p ≠ lf) : p < valueEnd data p ∧ valueEnd data p ≤ data.length := by
  have hdrop := drop_eq_cons hin
  simp only [valueEnd]
  split
  · rename_i i hfound
    obtain ⟨hlt, hend, -⟩ := List.findIdx?_eq_some_iff_getElem.mp hfound
    rw [List.length_take, List.length_drop] at hlt
    refine ⟨?_, by omega⟩
    by_contra hle
    obtain rfl : i = 0 := by omega
    simp [hdrop, hcr, hlf] at hend
  · exact ⟨hin, Nat.le_refl _⟩

end Loops
end OpenSniffer.HttpRuns
