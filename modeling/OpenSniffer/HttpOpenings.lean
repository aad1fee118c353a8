import OpenSniffer.HttpMessageStart
import Mathlib.Data.List.TakeWhile

/-!
# What the HTTP parser has seen of a message

Behind leading line ends, what the parser accepts is the start of a message: as far as it
goes, it agrees with the name of the protocol or with a method and a space. A payload
without a character of a message is accepted all the same, as long as the parser counts
no more line ends than a header may have characters.
-/
namespace OpenSniffer.HttpOpenings
open Packets HttpParserState HttpParser HttpDissector HttpMessageStart

def isLineEnd (ch : Char) : Bool := ch = cr ∨ ch = lf

def Opening (text : List Char) : Prop :=
  text = ['H', 'T', 'T', 'P', '/'] ∨ ∃ m, text = methodStrings m ++ [' ']

/-- One of the two goes on where the other ends. -/
def Agrees (line : List Char) : Prop := ∃ text, Opening text ∧ (line <+: text ∨ text <+: line)

/-- The characters of a payload, without leading line ends. -/
def message (bytes : Bytes) : List Char := (characters bytes).dropWhile isLineEnd

def BeginsMessage (bytes : Bytes) : Prop := message bytes ≠ [] ∧ Agrees (message bytes)

/-- What has been read of an opening when the parser is in one of the states that read it. -/
def Seen (r : Run) (seen : List Char) : Prop :=
  match r.parser.state with
  | .startReqOrRes => seen = []
  | .resOrRespH => seen = ['H']
  | .resHT => seen = ['H', 'T']
  | .resHTT => seen = ['H', 'T', 'T']
  | .resHTTP => seen = ['H', 'T', 'T', 'P']
  | .reqMethod => r.parser.index = seen.length ∧ seen ≠ [] ∧ seen <+: methodStrings r.parser.method
  | _ => False

private theorem not_isLineEnd_of_opening {text : List Char} (h : Opening text) :
    ∃ ch rest, text = ch :: rest ∧ isLineEnd ch = false := by
  rcases h with rfl | ⟨m, rfl⟩
  · exact ⟨_, _, rfl, rfl⟩
  · cases m <;> exact ⟨_, _, rfl, rfl⟩

/-- No line ends are in front of what agrees with an opening. -/
theorem dropWhile_of_agrees {line text : List Char} (h : Opening text)
    (hline : line <+: text ∨ text <+: line) : line.dropWhile isLineEnd = line := by
  obtain ⟨ch, rest, rfl, hch⟩ := not_isLineEnd_of_opening h
  cases line with
  | nil => rfl
  | cons first line =>
    have hfirst : first = ch := by
      rcases hline with hline | hline
      · exact (List.cons_prefix_cons.mp hline).1
      · exact (List.cons_prefix_cons.mp hline).1.symm
    apply List.dropWhile_cons_of_neg
    rw [hfirst, hch]
    decide

theorem Agrees.of_prefix {text rest : List Char} (h : Opening text) (hrest : text <+: rest) :
    Agrees (rest.dropWhile isLineEnd) := by
  rw [dropWhile_of_agrees h (.inr hrest)]
  exact ⟨text, h, .inr hrest⟩

/-- What has been seen is the beginning of an opening. -/
theorem Seen.prefix_opening {r : Run} {seen : List Char} (h : Seen r seen) :
    ∃ text, Opening text ∧ seen <+: text := by
  cases hs : r.parser.state <;> simp only [Seen, hs] at h
  case reqMethod =>
    obtain ⟨-, -, hprefix⟩ := h
    exact ⟨_, .inr ⟨_, rfl⟩, hprefix.trans (List.prefix_append _ _)⟩
  all_goals
    subst h
    exact ⟨_, .inl rfl, by decide⟩

theorem Seen.agrees {r : Run} {seen : List Char} (h : Seen r seen) :
    Agrees (seen.dropWhile isLineEnd) := by
  obtain ⟨text, htext, hprefix⟩ := h.prefix_opening
  rw [dropWhile_of_agrees htext (.inl hprefix)]
  exact ⟨text, htext, .inl hprefix⟩

theorem Seen.parsingHeader {r : Run} {seen : List Char} (h : Seen r seen) :
    r.parser.state.parsingHeader = true := by
  cases hs : r.parser.state <;> simp only [Seen, hs] at h <;> rfl

private theorem nul_notMem_methodStrings (m : Method) : nul ∉ methodStrings m := by
  cases m <;> decide

theorem length_methodStrings_lt (m : Method) : (methodStrings m).length < 255 := by
  cases m <;> decide

private theorem firstMethod_prefix {ch : Char} {m : Method} (h : firstMethod ch = some m) :
    [ch] <+: methodStrings m := by
  unfold firstMethod at h
  split at h <;> cases h <;> decide

/-- Methods are told apart at the first character in which they differ. -/
theorem otherMethod_prefix {m other : Method} {index : ℕ} {ch : Char}
    (h : otherMethod m index ch = some other) :
    (methodStrings m).take index ++ [ch] <+: methodStrings other := by
  unfold otherMethod at h
  split at h <;> (repeat' split at h) <;> cases h
  all_goals
    rename_i hcond
    obtain ⟨rfl, rfl⟩ := hcond
    decide

/-- The name of a method is read to its end when the character there is the zero behind it. -/
theorem eq_methodStrings {m : Method} {seen : List Char} (h : seen <+: methodStrings m)
    (hend : (methodStrings m).getD seen.length nul = nul) : seen = methodStrings m := by
  apply h.eq_of_length_le
  by_contra hlt
  have hinside : seen.length < (methodStrings m).length := Nat.lt_of_not_le hlt
  apply nul_notMem_methodStrings m
  rw [List.getD_eq_getElem?_getD, List.getElem?_eq_getElem hinside, Option.getD_some] at hend
  rw [← hend]
  exact List.getElem_mem hinside

theorem append_prefix_methodStrings {m : Method} {seen : List Char} {ch : Char}
    (h : seen <+: methodStrings m) (hch : ch = (methodStrings m).getD seen.length nul)
    (hnul : ch ≠ nul) : seen ++ [ch] <+: methodStrings m := by
  obtain ⟨rest, hrest⟩ := h
  cases rest with
  | nil =>
    rw [← hrest, List.append_nil, List.getD_eq_getElem?_getD, List.getElem?_eq_none (Nat.le_refl _)] at hch
    exact absurd hch hnul
  | cons next rest =>
    have hnext : ch = next := by
      rw [← hrest] at hch
      simpa using hch
    rw [hnext, ← hrest]
    exact ⟨rest, by simp⟩

/-- A character is read: an opening is complete, or more of one has been seen, or it is a
line end in front of it. -/
def Taken (seen : List Char) (ch : Char) (p : ℕ) (r : Run) : Prop :=
  r.p = p ∧ (Opening (seen ++ [ch]) ∨ Seen r (seen ++ [ch]) ∨
    (seen = [] ∧ isLineEnd ch = true ∧ Seen r []))

private theorem startReqOrRes_taken (r : Run) (ch : Char) (hs : r.parser.state = .startReqOrRes) :
    Ends (Taken [] ch r.p) (startReqOrRes r ch) := by
  apply startReqOrRes_ends
  · intro hline
    refine ⟨rfl, .inr (.inr ⟨rfl, by simpa [isLineEnd] using hline, ?_⟩)⟩
    simp only [Seen, hs]
  · intro hH r' hr'
    refine ⟨hr'.p, .inr (.inl ?_)⟩
    simp only [Seen, hr'.state, hH, List.nil_append]
  · intro m r' hfirst hr' hmethod hindex
    refine ⟨hr'.p, .inr (.inl ?_)⟩
    simp only [Seen, hr'.state, hmethod, hindex]
    exact ⟨rfl, by simp, firstMethod_prefix hfirst⟩

private theorem resOrRespH_taken (r : Run) (ch : Char) : Ends (Taken ['H'] ch r.p) (resOrRespH r ch) := by
  apply resOrRespH_ends
  · intro hT r' hr'
    refine ⟨hr'.p, .inr (.inl ?_)⟩
    simp only [Seen, hr'.state, hT, List.singleton_append]
  · intro hE r' hr' hmethod hindex
    refine ⟨hr'.p, .inr (.inl ?_)⟩
    simp only [Seen, hr'.state, hmethod, hindex, hE]
    exact ⟨rfl, by decide, by decide⟩

theorem expect_taken (c : Char) (s : State) (r : Run) (ch : Char) {seen : List Char}
    (h : Opening (seen ++ [c]) ∨ Seen (r.updateState s) (seen ++ [c])) :
    Ends (Taken seen ch r.p) (expect c s r ch) := by
  apply ends_strictCheck
  intro hch
  rw [not_not.mp hch]
  rcases h with h | h
  · exact ⟨rfl, .inl h⟩
  · exact ⟨rfl, .inr (.inl h)⟩

private theorem reqMethod_taken (r : Run) (ch : Char) {seen : List Char} (hs : r.parser.state = .reqMethod)
    (hindex : r.parser.index = seen.length) (hseen : seen <+: methodStrings r.parser.method) :
    Ends (Taken seen ch r.p) (reqMethod r ch) := by
  apply reqMethod_ends r ch hs
  · intro hspace hmatcher r' hr'
    rw [hindex] at hmatcher
    refine ⟨hr'.p, .inl (.inr ⟨r.parser.method, ?_⟩)⟩
    rw [hspace, eq_methodStrings hseen hmatcher]
  · intro m r' hnul hm hr' hmethod hindex'
    have hmod : (r.parser.index + 1) % 256 = (seen ++ [ch]).length := by
      have hlen := hseen.length_le
      have hlt := length_methodStrings_lt r.parser.method
      rw [List.length_append, List.length_singleton, hindex]
      omega
    have hprefix : seen ++ [ch] <+: methodStrings m := by
      rw [hindex] at hm
      rcases hm with ⟨rfl, hmatcher⟩ | hother
      · exact append_prefix_methodStrings hseen hmatcher hnul
      · have hprefix := otherMethod_prefix hother
        rwa [← List.prefix_iff_eq_take.mp hseen] at hprefix
    refine ⟨hr'.p, .inr (.inl ?_)⟩
    simp only [Seen, hr'.state, hmethod, hindex']
    exact ⟨hmod, by simp, hprefix⟩

private theorem dispatch_taken (data : List Char) {r : Run} {seen : List Char} (h : Seen r seen) (ch : Char) :
    Ends (Taken seen ch r.p) (dispatch data r ch) := by
  cases hs : r.parser.state <;> simp only [Seen, hs] at h <;> simp only [dispatch, hs]
  case startReqOrRes =>
    subst h
    exact startReqOrRes_taken r ch hs
  case resOrRespH =>
    subst h
    exact resOrRespH_taken r ch
  case resHT =>
    subst h
    exact expect_taken _ _ r ch (.inr rfl)
  case resHTT =>
    subst h
    exact expect_taken _ _ r ch (.inr rfl)
  case resHTTP =>
    subst h
    exact expect_taken _ _ r ch (.inl (.inl rfl))
  case reqMethod => exact reqMethod_taken r ch hs h.1 h.2.2

private theorem pass_taken (data : List Char) {r : Run} {seen : List Char} (h : Seen r seen) :
    Ends (Taken seen (charAt data r.p) r.p) (pass data r) := by
  apply pass_ends data h.parsingHeader
  intro nread
  have hr : Seen (r.update { r.parser with nread := nread }) seen := h
  exact dispatch_taken data hr _

theorem drop_eq_cons {data : List Char} {p : ℕ} (h : p < data.length) :
    data.drop p = charAt data p :: data.drop (p + 1) := by
  rw [List.drop_eq_getElem_cons h, charAt, List.getD_eq_getElem?_getD, List.getElem?_eq_getElem h,
    Option.getD_some]

/-- Where the loop ends without an error, what has been seen and what was left of the data
agree with an opening. -/
theorem executeLoop_agrees {data : List Char} (n : ℕ) {r : Run} {seen : List Char} (h : Seen r seen)
    (hn : data.length ≤ r.p + n) (hok : (executeLoop data n r).1.parser.httpErrno = .ok) :
    Agrees ((seen ++ data.drop r.p).dropWhile isLineEnd) := by
  induction n generalizing r seen with
  | zero =>
    rw [List.drop_eq_nil_of_le (by omega), List.append_nil]
    exact h.agrees
  | succ n ih =>
    by_cases hinside : r.p < data.length
    · have hends := pass_taken data h
      rw [executeLoop, if_pos hinside] at hok
      rw [drop_eq_cons hinside]
      cases hpass : pass data r with
      | stop r' parsed =>
        rw [hpass] at hends hok
        exact absurd hok hends
      | next r' =>
        rw [hpass] at hends hok
        obtain ⟨hp, htaken⟩ := hends
        have hn' : data.length ≤ r'.p + 1 + n := by omega
        rcases htaken with hopening | hseen | ⟨rfl, hline, hseen⟩
        · exact Agrees.of_prefix hopening ⟨data.drop (r.p + 1), by simp⟩
        · have hagrees := ih (r := { r' with p := r'.p + 1 }) hseen hn' hok
          simpa [hp] using hagrees
        · have hagrees := ih (r := { r' with p := r'.p + 1 }) hseen hn' hok
          rw [List.nil_append, List.dropWhile_cons_of_pos hline]
          simpa [hp] using hagrees
    · rw [List.drop_eq_nil_of_le (by omega), List.append_nil]
      exact h.agrees

/-- What the parser accepts agrees with an opening behind its line ends. -/
theorem message_agrees {bytes : Bytes} (h : (parsed bytes).parser.httpErrno = .ok) :
    Agrees (message bytes) := by
  have hstart : Seen initial [] := rfl
  by_cases hlen : 0 < bytes.length
  · have hlen' : (characters bytes).length = bytes.length := List.length_map _
    rw [parsed_eq hlen] at h
    have hagrees := executeLoop_agrees bytes.length hstart (by rw [hlen']; omega) h
    exact hagrees
  · have hnil : bytes = [] := List.eq_nil_of_length_eq_zero (by omega)
    rw [hnil]
    exact hstart.agrees

/-- A byte as a character keeps its code. -/
theorem toNat_ofNat_toNat (b : UInt8) : (Char.ofNat b.toNat).toNat = b.toNat := by
  have hlt := b.toNat_lt
  have hvalid : b.toNat.isValidChar := .inl (by omega)
  rw [Char.ofNat, dif_pos hvalid]
  rfl

private theorem isLineEnd_ofNat (b : UInt8) : isLineEnd (Char.ofNat b.toNat) = true ↔ b = 13 ∨ b = 10 := by
  rw [isLineEnd, decide_eq_true_iff, ← Char.toNat_inj, ← Char.toNat_inj, toNat_ofNat_toNat,
    ← UInt8.toNat_inj, ← UInt8.toNat_inj]
  rfl

/-- Something is left behind the line ends if some byte is not one. -/
theorem message_ne_nil_iff (bytes : Bytes) : message bytes ≠ [] ↔ ∃ b ∈ bytes, b ≠ 13 ∧ b ≠ 10 := by
  rw [message, characters, ne_eq, List.dropWhile_eq_nil_iff]
  simp [isLineEnd_ofNat]

/-- A packet that is shown as HTTP begins a message exactly if some byte of it is no line end. -/
theorem beginsMessage_iff {packet : Packet} {bytes : Bytes} (hdata : packet.data = some bytes)
    (h : httpDissectorHandles packet = true) :
    BeginsMessage bytes ↔ ∃ b ∈ bytes, b ≠ 13 ∧ b ≠ 10 := by
  obtain ⟨-, -, accepted, haccepted, hok⟩ := (httpDissectorHandles_iff packet).mp h
  have hbytes : bytes = accepted := Option.some.inj (hdata.symm.trans haccepted)
  rw [← message_ne_nil_iff]
  constructor
  · intro hbegins
    exact hbegins.1
  · intro hne
    rw [← hbytes] at hok
    exact ⟨hne, message_agrees hok⟩

theorem parser_callbackTo (r : Run) (piece : Piece) (fin : ℕ) :
    (r.callbackTo piece fin).parser = r.parser := by
  rw [Run.callbackTo]
  split <;> rfl

theorem parser_leftover (r : Run) : (leftover r).parser = r.parser := by
  simp only [leftover, Run.callback, parser_callbackTo]

def emptyPayload : Packet where
  data := some []
  size := 0
  protocol := 0
  session := some (osiCreateSession 0 0 0)
  sized := by simp

def requestStart : Packet where
  data := some [13, 10, 71, 69]
  size := 4
  protocol := 0
  session := some (osiCreateSession 0 0 0)
  sized := by simp

theorem beginsMessage_iff_requestStart :
    BeginsMessage [13, 10, 71, 69] ↔ ∃ b ∈ ([13, 10, 71, 69] : Bytes), b ≠ 13 ∧ b ≠ 10 := by
  have hdata : requestStart.data = some [13, 10, 71, 69] := rfl
  exact beginsMessage_iff hdata (by decide)

/-- It is accepted, and begins nothing. -/
theorem emptyPayload_not_beginsMessage : ¬ ∀ (packet : Packet) (bytes : Bytes),
    packet.data = some bytes → httpDissectorHandles packet = true → BeginsMessage bytes := by
  intro h
  have hbegins := h emptyPayload [] rfl (by decide)
  exact hbegins.1 rfl

end OpenSniffer.HttpOpenings
