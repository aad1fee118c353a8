import OpenSniffer.HttpDissector

/-!
# How an HTTP message may start

Up to its fifth character a message is in one of a few states, none of which admits a
zero character, and it does not start with a control character. So what the parser
accepts is no DNS message with few questions and no DHCP message.
-/
namespace OpenSniffer.HttpMessageStart
open Packets HttpParserState HttpParser HttpDissector

/-- The outcome stops with an error, or goes on with a run that satisfies `P`. -/
def Ends (P : Run → Prop) : Outcome → Prop
  | .next r => P r
  | .stop r _ => r.parser.httpErrno ≠ .ok

section Outcomes
variable {P : Run → Prop}

@[simp] theorem ends_next (r : Run) : Ends P (.next r) ↔ P r := Iff.rfl

theorem ends_error (r : Run) {e : Errno} (he : e ≠ .ok) : Ends P (r.error e) := he

private theorem ends_countHeaderSize (r : Run) (v : ℕ) {go : Run → Outcome}
    (h : ∀ nread, Ends P (go (r.update { r.parser with nread := nread }))) :
    Ends P (r.countHeaderSize v go) := by
  simp only [Run.countHeaderSize]
  split
  · exact ends_error _ (by decide)
  · exact h _

theorem ends_strictCheck (r : Run) (cond : Prop) [Decidable cond] {go : Outcome}
    (h : ¬ cond → Ends P go) : Ends P (r.strictCheck cond go) := by
  rw [Run.strictCheck]
  split
  · exact ends_error r (by decide)
  · rename_i hcond
    exact h hcond

end Outcomes

/-- The run is at the same position, in this state. -/
structure Moves (r : Run) (s : State) (r' : Run) : Prop where
  p : r'.p = r.p
  state : r'.parser.state = s

theorem startReqOrRes_ends {P : Run → Prop} (r : Run) (ch : Char) (hline : ch = cr ∨ ch = lf → P r)
    (hname : ch = 'H' → ∀ r', Moves r .resOrRespH r' → P r')
    (hmethod : ∀ m r', firstMethod ch = some m → Moves r .reqMethod r' → r'.parser.method = m →
      r'.parser.index = 1 → P r') :
    Ends P (startReqOrRes r ch) := by
  simp only [startReqOrRes]
  split
  · rename_i hch
    exact hline hch
  · rename_i hch
    split
    · rename_i hH
      exact hname hH _ ⟨rfl, rfl⟩
    · simp only [startReq, if_neg hch]
      split
      · exact ends_error _ (by decide)
      · cases hfirst : firstMethod ch with
        | none => exact ends_error _ (by decide)
        | some m => exact hmethod m _ hfirst ⟨rfl, rfl⟩ rfl rfl

theorem resOrRespH_ends {P : Run → Prop} (r : Run) (ch : Char)
    (hname : ch = 'T' → ∀ r', Moves r .resHT r' → P r')
    (hmethod : ch = 'E' → ∀ r', Moves r .reqMethod r' → r'.parser.method = .head →
      r'.parser.index = 2 → P r') :
    Ends P (resOrRespH r ch) := by
  simp only [resOrRespH]
  split
  · rename_i hT
    exact hname hT _ ⟨rfl, rfl⟩
  · split
    · exact ends_error _ (by decide)
    · rename_i hE
      exact hmethod (not_not.mp hE) _ ⟨rfl, rfl⟩ rfl rfl

/-- A character of a method ends the name, or goes on with it or with another. -/
theorem reqMethod_ends {P : Run → Prop} (r : Run) (ch : Char) (hs : r.parser.state = .reqMethod)
    (hend : ch = ' ' → (methodStrings r.parser.method).getD r.parser.index nul = nul →
      ∀ r', Moves r .reqSpacesBeforeUrl r' → P r')
    (hname : ∀ m r', ch ≠ nul →
      (m = r.parser.method ∧ ch = (methodStrings m).getD r.parser.index nul) ∨
        otherMethod r.parser.method r.parser.index ch = some m →
      Moves r .reqMethod r' → r'.parser.method = m →
      r'.parser.index = (r.parser.index + 1) % 256 → P r') :
    Ends P (reqMethod r ch) := by
  simp only [reqMethod]
  split
  · exact ends_error _ (by decide)
  · rename_i hnul
    split
    · rename_i hspace
      exact hend hspace.1 hspace.2 _ ⟨rfl, rfl⟩
    · split
      · rename_i hmatcher
        exact hname _ _ hnul (.inl ⟨rfl, hmatcher⟩) ⟨rfl, hs⟩ rfl rfl
      · cases hother : otherMethod r.parser.method r.parser.index ch with
        | none => exact ends_error _ (by decide)
        | some m => exact hname m _ hnul (.inr hother) ⟨rfl, hs⟩ rfl rfl

/-- The states a run from the start can be in at the first positions. -/
def Early (r : Run) : Prop :=
  match r.parser.state with
  | .startReqOrRes => True
  | .resOrRespH => 1 ≤ r.p
  | .resHT => 2 ≤ r.p
  | .resHTT => 3 ≤ r.p
  | .resHTTP => 4 ≤ r.p
  | .reqMethod => r.parser.index ≤ r.p
  | .reqSpacesBeforeUrl => 4 ≤ r.p
  | _ => False

def Onward (p : ℕ) (r : Run) : Prop := r.p = p ∧ Early { r with p := p + 1 }

private theorem startReqOrRes_early (r : Run) (ch : Char) (hs : r.parser.state = .startReqOrRes) :
    Ends (Onward r.p) (startReqOrRes r ch) := by
  apply startReqOrRes_ends
  · intro _
    exact ⟨rfl, by simp [Early, hs]⟩
  · intro _ r' hr'
    exact ⟨hr'.p, by simp [Early, hr'.state]⟩
  · intro m r' _ hr' _ hindex
    exact ⟨hr'.p, by simp [Early, hr'.state, hindex]⟩

private theorem resOrRespH_early (r : Run) (ch : Char) (hp : 1 ≤ r.p) :
    Ends (Onward r.p) (resOrRespH r ch) := by
  apply resOrRespH_ends
  · intro _ r' hr'
    exact ⟨hr'.p, by simpa [Early, hr'.state] using hp⟩
  · intro _ r' hr' _ hindex
    exact ⟨hr'.p, by simpa [Early, hr'.state, hindex] using hp⟩

theorem expect_early (c : Char) (s : State) (r : Run) (ch : Char)
    (h : Early { r.updateState s with p := r.p + 1 }) : Ends (Onward r.p) (expect c s r ch) := by
  apply ends_strictCheck
  intro _
  exact ⟨rfl, h⟩

theorem three_le_of_matcher_nul {m : Method} {index : ℕ} (h : (methodStrings m).getD index nul = nul) :
    3 ≤ index := by
  by_contra hlt
  have hindex : index = 0 ∨ index = 1 ∨ index = 2 := by omega
  rcases hindex with rfl | rfl | rfl <;> cases m <;> exact absurd h (by decide)

private theorem reqMethod_early (r : Run) (ch : Char) (hs : r.parser.state = .reqMethod)
    (hi : r.parser.index ≤ r.p) : Ends (Onward r.p) (reqMethod r ch) := by
  apply reqMethod_ends r ch hs
  · intro _ hmatcher r' hr'
    have hthree := three_le_of_matcher_nul hmatcher
    refine ⟨hr'.p, ?_⟩
    simp only [Early, hr'.state]
    omega
  · intro m r' _ _ hr' _ hindex
    have hmod : (r.parser.index + 1) % 256 ≤ r.p + 1 :=
      Nat.le_trans (Nat.mod_le _ _) (Nat.succ_le_succ hi)
    refine ⟨hr'.p, ?_⟩
    simp only [Early, hr'.state, hindex]
    exact hmod

private theorem dispatch_early (data : List Char) {r : Run} (h : Early r) (hp : r.p < 4) (ch : Char) :
    Ends (Onward r.p) (dispatch data r ch) := by
  cases hs : r.parser.state <;> simp only [Early, hs] at h <;> simp only [dispatch, hs]
  case startReqOrRes => exact startReqOrRes_early r ch hs
  case resOrRespH => exact resOrRespH_early r ch h
  case resHT => exact expect_early _ _ r ch (Nat.succ_le_succ h)
  case resHTT => exact expect_early _ _ r ch (Nat.succ_le_succ h)
  case resHTTP => omega
  case reqMethod => exact reqMethod_early r ch hs h
  case reqSpacesBeforeUrl => omega

theorem parser_mark (r : Run) (piece : Piece) : (r.mark piece).parser = r.parser := by
  rw [Run.mark]
  split <;> rfl

private theorem urlChar_nul {r : Run} (h : parseUrlChar r.parser.state nul = .dead) :
    Ends (fun _ => False) (urlChar r nul) := by
  simp only [urlChar, h, if_true]
  exact ends_error _ (by decide)

private theorem reqSpacesBeforeUrl_nul (r : Run) (hs : r.parser.state = .reqSpacesBeforeUrl) :
    Ends (fun _ => False) (reqSpacesBeforeUrl r nul) := by
  have hspace : nul ≠ ' ' := by decide
  rw [reqSpacesBeforeUrl, if_neg hspace]
  apply urlChar_nul
  split
  · change parseUrlChar .reqServerStart nul = .dead
    decide
  · rw [parser_mark, hs]
    decide

theorem dispatch_nul (data : List Char) {r : Run} (h : Early r) :
    Ends (fun _ => False) (dispatch data r nul) := by
  cases hs : r.parser.state <;> simp only [Early, hs] at h <;> simp only [dispatch, hs]
  case startReqOrRes => exact ends_error _ (by decide)
  case resOrRespH => exact ends_error _ (by decide)
  case resHT => exact ends_strictCheck r _ (fun hch => hch (by decide))
  case resHTT => exact ends_strictCheck r _ (fun hch => hch (by decide))
  case resHTTP => exact ends_strictCheck r _ (fun hch => hch (by decide))
  case reqMethod => exact ends_error r (by decide)
  case reqSpacesBeforeUrl => exact reqSpacesBeforeUrl_nul r hs

/-- A pass in a header ends as its dispatch does, whatever has been counted. -/
theorem pass_ends (data : List Char) {r : Run} (hparsing : r.parser.state.parsingHeader = true)
    {P : Run → Prop}
    (hP : ∀ nread, Ends P (dispatch data (r.update { r.parser with nread := nread }) (charAt data r.p))) :
    Ends P (pass data r) := by
  rw [HttpParser.pass, if_pos hparsing]
  exact ends_countHeaderSize r 1 hP

theorem Early.parsingHeader {r : Run} (h : Early r) : r.parser.state.parsingHeader = true := by
  cases hs : r.parser.state <;> simp only [Early, hs] at h <;> rfl

/-- One pass keeps a run early, or stops it with an error. -/
theorem pass_early (data : List Char) {r : Run} (h : Early r) (hp : r.p < 4) :
    Ends (Onward r.p) (pass data r) := by
  apply pass_ends data h.parsingHeader
  intro nread
  have hr : Early (r.update { r.parser with nread := nread }) := h
  exact dispatch_early data hr hp _

private theorem pass_nul (data : List Char) {r : Run} (h : Early r) (hch : charAt data r.p = nul) :
    Ends (fun _ => False) (pass data r) := by
  apply pass_ends data h.parsingHeader
  intro nread
  have hr : Early (r.update { r.parser with nread := nread }) := h
  rw [hch]
  exact dispatch_nul data hr

theorem executeLoop_of_pass {data : List Char} (n : ℕ) {r : Run} (hinside : r.p < data.length)
    (h : Ends (fun _ => False) (pass data r)) :
    (executeLoop data (n + 1) r).1.parser.httpErrno ≠ .ok := by
  rw [executeLoop, if_pos hinside]
  cases hpass : pass data r with
  | next r' =>
    rw [hpass] at h
    exact h.elim
  | stop r' parsed =>
    rw [hpass] at h
    exact h

/-- A zero at position 4 stops the loop with an error, from any early run before it. -/
theorem executeLoop_nul {data : List Char} (hlen : 4 < data.length) (hnul : charAt data 4 = nul)
    (n : ℕ) {r : Run} (h : Early r) (hp : r.p ≤ 4) (hn : 4 < r.p + n) :
    (executeLoop data n r).1.parser.httpErrno ≠ .ok := by
  induction n generalizing r with
  | zero => omega
  | succ n ih =>
    have hinside : r.p < data.length := by omega
    by_cases hlast : r.p = 4
    · exact executeLoop_of_pass n hinside (pass_nul data h (hlast ▸ hnul))
    · have hends := pass_early data h (by omega)
      rw [executeLoop, if_pos hinside]
      cases hpass : pass data r with
      | next r' =>
        rw [hpass] at hends
        obtain ⟨hp', hearly⟩ := hends
        rw [← hp'] at hearly
        apply ih hearly
        · change r'.p + 1 ≤ 4
          omega
        · change 4 < r'.p + 1 + n
          omega
      | stop r' parsed =>
        rw [hpass] at hends
        exact hends

theorem charAt_characters {bytes : Bytes} {i : ℕ} (hi : i < bytes.length) :
    charAt (characters bytes) i = Char.ofNat (bytes.getD i 0).toNat := by
  have hi' : i < (characters bytes).length := by rwa [characters, List.length_map]
  rw [charAt, List.getD_eq_getElem?_getD, List.getElem?_eq_getElem hi', Option.getD_some,
    List.getD_eq_getElem?_getD, List.getElem?_eq_getElem hi, Option.getD_some]
  exact List.getElem_map _

def initial : Run := ⟨httpDissectorGetParser, 0, startMarks httpDissectorGetParser.state, []⟩

theorem parsed_eq {bytes : Bytes} (h : 0 < bytes.length) :
    parsed bytes = (executeLoop (characters bytes) bytes.length initial).1 := by
  have hlen : (characters bytes).length = bytes.length := List.length_map _
  have hok : ¬ httpDissectorGetParser.httpErrno ≠ .ok := by decide
  have hne : bytes.length ≠ 0 := by omega
  rw [parsed, httpParserExecute]
  simp only [hlen, if_neg hok, if_neg hne]
  rfl

/-- No message has a zero as its fifth byte. -/
theorem parsed_of_zero {bytes : Bytes} (hlen : 4 < bytes.length) (hzero : bytes.getD 4 0 = 0) :
    (parsed bytes).parser.httpErrno ≠ .ok := by
  have hlen' : 4 < (characters bytes).length := by rwa [characters, List.length_map]
  have hnul : charAt (characters bytes) 4 = nul := by
    rw [charAt_characters hlen, hzero]
    rfl
  have hstart : initial.p = 0 := rfl
  rw [parsed_eq (by omega)]
  exact executeLoop_nul hlen' hnul bytes.length trivial (by omega) (by omega)

/-- No message starts with a byte that is 1 or 2. -/
theorem parsed_of_control {bytes : Bytes} (hlen : 0 < bytes.length)
    (hcontrol : bytes.getD 0 0 = 1 ∨ bytes.getD 0 0 = 2) : (parsed bytes).parser.httpErrno ≠ .ok := by
  have hlen' : 0 < (characters bytes).length := by rwa [characters, List.length_map]
  have hearly : Early initial := trivial
  obtain ⟨n, hn⟩ : ∃ n, bytes.length = n + 1 := ⟨bytes.length - 1, by omega⟩
  rw [parsed_eq hlen, hn]
  apply executeLoop_of_pass n hlen'
  apply pass_ends _ hearly.parsingHeader
  intro nread
  have hch : charAt (characters bytes) initial.p = Char.ofNat (bytes.getD 0 0).toNat :=
    charAt_characters hlen
  rw [hch]
  rcases hcontrol with hone | htwo
  · rw [hone]
    exact ends_error _ (by decide)
  · rw [htwo]
    exact ends_error _ (by decide)

end OpenSniffer.HttpMessageStart
