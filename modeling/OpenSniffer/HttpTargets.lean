import OpenSniffer.HttpPipelines

/-!
# The targets that the parser reads

The states of a URL are an automaton over the characters of a target. It accepts what the
grammar has as a target and nothing else, and a first line with another target is an error.
-/
namespace OpenSniffer.HttpTargets
open HttpGrammar HttpParserState HttpParser HttpOpenings HttpRuns HttpInvariants HttpStartPasses
  HttpCalls HttpAssertions HttpCharacters
open HttpReading HttpRequests HttpPipelines ScanLoops

/-- The automaton accepts the text from a state. -/
abbrev Accepts (s : State) (text : List Char) : Prop := urlEnds (urlRun s text) = true

/-- A text of bytes. -/
abbrev OfBytes (text : List Char) : Prop := ∀ c ∈ text, c.toNat < 256

theorem accepts_cons (s : State) (c : Char) (text : List Char) :
    Accepts s (c :: text) ↔ Accepts (parseUrlChar s c) text := Iff.rfl

theorem not_accepts_dead (text : List Char) : ¬ Accepts .dead text := by
  rw [Accepts, urlRun_dead]
  decide

def readsVisible : State → Bool
  | .reqPath | .reqQueryStringStart | .reqQueryString | .reqFragmentStart | .reqFragment => true
  | _ => false

private theorem readsVisible_parseUrlChar {s : State} {c : Char} (hs : readsVisible s = true) (hc : c.toNat < 256) :
    if isVisible c then readsVisible (parseUrlChar s c) = true else parseUrlChar s c = .dead := by
  refine byte_rule (P := fun c =>
    if isVisible c then readsVisible (parseUrlChar s c) = true else parseUrlChar s c = .dead) ?_ hc
  cases s <;> cases hs <;> decide +kernel

/-- In these states visible characters are accepted. -/
theorem accepts_visible_iff {s : State} {text : List Char} (hs : readsVisible s = true) (hbytes : OfBytes text) :
    Accepts s text ↔ ∀ c ∈ text, isVisible c = true := by
  induction text generalizing s with
  | nil =>
    have hends : urlEnds s = true := by
      cases s <;> first | rfl | cases hs
    simp only [Accepts, urlRun, List.foldl_nil, hends, List.not_mem_nil, false_imp_iff, implies_true]
  | cons c text ih =>
    obtain ⟨hc, hrest⟩ := List.forall_mem_cons.mp hbytes
    have hnext := readsVisible_parseUrlChar hs hc
    rw [accepts_cons, List.forall_mem_cons]
    split at hnext
    · rename_i hvisible
      rw [ih hnext hrest]
      simp only [hvisible, true_and]
    · rename_i hvisible
      rw [hnext]
      exact ⟨fun h => absurd h (not_accepts_dead text), fun h => absurd h.1 hvisible⟩

def readsHost : State → Bool
  | .reqServerStart | .reqServer | .reqServerWithAt => true
  | _ => false

/-- What the name of a host goes on from. -/
def hostBefore : State → List Char
  | .reqServerWithAt => ['@']
  | _ => []

/-- The rest of a name of a host: no `@` follows another. -/
structure GoesOnHost (s : State) (text : List Char) : Prop where
  chars : ∀ c ∈ text, isAuthorityChar c = true
  separate : (hostBefore s ++ text).IsChain fun c d => ¬ (c = '@' ∧ d = '@')

/-- A target from the name of a host on. -/
def FromHost (s : State) (text : List Char) : Prop :=
  ∃ authority rest, text = authority ++ rest ∧ GoesOnHost s authority ∧
    (∀ c ∈ rest.head?, c = '/' ∨ c = '?') ∧ ∀ c ∈ rest, isVisible c = true

def hostNext (c : Char) : State := if c = '@' then .reqServerWithAt else .reqServer

private theorem readsHost_hostNext (c : Char) : readsHost (hostNext c) = true := by
  rw [hostNext]
  split <;> rfl

private theorem parseUrlChar_host {s : State} {c : Char} (hs : readsHost s = true) (hc : c.toNat < 256) :
    parseUrlChar s c =
      if c = '/' then .reqPath
      else if c = '?' then .reqQueryStringStart
      else if ¬ isAuthorityChar c = true ∨ (s = .reqServerWithAt ∧ c = '@') then .dead
      else hostNext c := by
  refine byte_rule (P := fun c => parseUrlChar s c =
      if c = '/' then .reqPath
      else if c = '?' then .reqQueryStringStart
      else if ¬ isAuthorityChar c = true ∨ (s = .reqServerWithAt ∧ c = '@') then .dead
      else hostNext c) ?_ hc
  cases s <;> cases hs <;> decide +kernel

section Hosts
variable {s : State} {c : Char} {text : List Char}

private theorem separate_cons : (c :: text).IsChain (fun c d => ¬ (c = '@' ∧ d = '@')) ↔
    (hostBefore (hostNext c) ++ text).IsChain fun c d => ¬ (c = '@' ∧ d = '@') := by
  by_cases hc : c = '@'
  · rw [hc]
    rfl
  · have hbefore : hostBefore (hostNext c) = [] := by
      rw [hostNext, if_neg hc]
      rfl
    rw [hbefore, List.nil_append]
    cases text with
    | nil => simp
    | cons d text => simp [hc]

theorem goesOnHost_cons (hs : readsHost s = true) : GoesOnHost s (c :: text) ↔
    ¬ (¬ isAuthorityChar c = true ∨ (s = .reqServerWithAt ∧ c = '@')) ∧ GoesOnHost (hostNext c) text := by
  have hseparate : (hostBefore s ++ c :: text).IsChain (fun c d => ¬ (c = '@' ∧ d = '@')) ↔
      ¬ (s = .reqServerWithAt ∧ c = '@') ∧ (c :: text).IsChain fun c d => ¬ (c = '@' ∧ d = '@') := by
    cases s <;> cases hs <;> simp [hostBefore]
  rw [separate_cons] at hseparate
  constructor
  · rintro ⟨hchars, hchain⟩
    obtain ⟨hc, hrest⟩ := List.forall_mem_cons.mp hchars
    obtain ⟨hat, hchain⟩ := hseparate.mp hchain
    exact ⟨fun h => h.elim (fun hne => hne hc) hat, hrest, hchain⟩
  · rintro ⟨hc, hchars, hchain⟩
    obtain ⟨hc, hat⟩ := not_or.mp hc
    exact ⟨List.forall_mem_cons.mpr ⟨not_not.mp hc, hchars⟩, hseparate.mpr ⟨hat, hchain⟩⟩

theorem goesOnHost_nil (hs : readsHost s = true) : GoesOnHost s [] := by
  refine ⟨by simp, ?_⟩
  cases s <;> cases hs <;> simp [hostBefore]

/-- A path or a query ends the name of a host. -/
theorem fromHost_end (hs : readsHost s = true) (hc : c = '/' ∨ c = '?') :
    FromHost s (c :: text) ↔ ∀ c ∈ text, isVisible c = true := by
  have hother : isAuthorityChar c = false ∧ isVisible c = true := by
    rcases hc with rfl | rfl <;> decide
  constructor
  · rintro ⟨authority, rest, heq, hauthority, -, hvisible⟩
    cases authority with
    | nil =>
      rw [List.nil_append] at heq
      rw [← heq] at hvisible
      exact (List.forall_mem_cons.mp hvisible).2
    | cons d authority =>
      obtain ⟨rfl, -⟩ := List.cons.inj heq
      have hd := hauthority.chars c List.mem_cons_self
      rw [hother.1] at hd
      cases hd
  · intro hvisible
    refine ⟨[], c :: text, rfl, goesOnHost_nil hs, ?_, List.forall_mem_cons.mpr ⟨hother.2, hvisible⟩⟩
    intro d hd
    obtain rfl : c = d := Option.some.inj hd
    exact hc

theorem fromHost_cons (hs : readsHost s = true) (hc : ¬ (c = '/' ∨ c = '?')) :
    FromHost s (c :: text) ↔
      ¬ (¬ isAuthorityChar c = true ∨ (s = .reqServerWithAt ∧ c = '@')) ∧ FromHost (hostNext c) text := by
  constructor
  · rintro ⟨authority, rest, heq, hauthority, hstart, hvisible⟩
    cases authority with
    | nil =>
      rw [List.nil_append] at heq
      rw [← heq] at hstart
      exact absurd (hstart c rfl) hc
    | cons d authority =>
      obtain ⟨rfl, htail⟩ := List.cons.inj heq
      obtain ⟨hd, hrest⟩ := (goesOnHost_cons hs).mp hauthority
      exact ⟨hd, authority, rest, htail, hrest, hstart, hvisible⟩
  · rintro ⟨hd, authority, rest, rfl, hauthority, hstart, hvisible⟩
    exact ⟨c :: authority, rest, rfl, (goesOnHost_cons hs).mpr ⟨hd, hauthority⟩, hstart, hvisible⟩

private theorem accepts_host_iff (hs : readsHost s = true) (hbytes : OfBytes text) :
    Accepts s text ↔ (s = .reqServerStart → text ≠ []) ∧ FromHost s text := by
  induction text generalizing s with
  | nil =>
    have hends : urlEnds s = true ↔ s ≠ .reqServerStart := by
      cases s <;> cases hs <;> decide
    have hhost : FromHost s [] := ⟨[], [], rfl, goesOnHost_nil hs, by simp, by simp⟩
    simp only [Accepts, urlRun, List.foldl_nil, hends, hhost, ne_eq, not_true, imp_false, and_true]
  | cons c text ih =>
    obtain ⟨hc, hrest⟩ := List.forall_mem_cons.mp hbytes
    have hne : (s = .reqServerStart → c :: text ≠ []) ↔ True := iff_of_true (fun _ => List.cons_ne_nil c text) trivial
    rw [accepts_cons, parseUrlChar_host hs hc, hne, true_and]
    by_cases hpath : c = '/'
    · rw [if_pos hpath, accepts_visible_iff rfl hrest, fromHost_end hs (.inl hpath)]
    · rw [if_neg hpath]
      by_cases hquery : c = '?'
      · rw [if_pos hquery, accepts_visible_iff rfl hrest, fromHost_end hs (.inr hquery)]
      · rw [if_neg hquery, fromHost_cons hs (not_or.mpr ⟨hpath, hquery⟩)]
        split
        · rename_i hdead
          exact ⟨fun h => absurd h (not_accepts_dead text), fun h => absurd hdead h.1⟩
        · rename_i hdead
          have hnext : hostNext c ≠ .reqServerStart := by
            rw [hostNext]
            split <;> decide
          rw [ih (readsHost_hostNext c) hrest]
          simp only [hnext, hdead, false_imp_iff, true_and, not_false_iff]

theorem accepts_reqServerStart_iff (hbytes : OfBytes text) : Accepts .reqServerStart text ↔ IsHostTarget text := by
  rw [accepts_host_iff rfl hbytes]
  constructor
  · rintro ⟨hne, authority, rest, heq, hauthority, hrest⟩
    exact ⟨authority, rest, heq, hne rfl, ⟨hauthority.chars, hauthority.separate⟩, hrest⟩
  · rintro ⟨authority, rest, heq, hne, hauthority, hrest⟩
    exact ⟨fun _ => hne, authority, rest, heq, ⟨hauthority.chars, hauthority.separate⟩, hrest⟩

end Hosts

section Schemes
variable {text : List Char}

private theorem parseUrlChar_reqSchema {c : Char} (hc : c.toNat < 256) : parseUrlChar .reqSchema c =
    if c.isAlpha then .reqSchema else if c = ':' then .reqSchemaSlash else .dead :=
  byte_rule (P := fun c => parseUrlChar .reqSchema c =
    if c.isAlpha then .reqSchema else if c = ':' then .reqSchemaSlash else .dead) (by decide +kernel) hc

theorem accepts_slashes_iff : Accepts .reqSchemaSlash text ↔
    ∃ host, text = ['/', '/'] ++ host ∧ Accepts .reqServerStart host := by
  have hslash : ∀ c s, s = .reqSchemaSlash ∨ s = .reqSchemaSlashSlash → c ≠ '/' → parseUrlChar s c = .dead := by
    intro c s hs hc
    rcases hs with rfl | rfl <;> simp [parseUrlChar, hc]
  constructor
  · intro h
    cases text with
    | nil => cases h
    | cons c text =>
      rw [accepts_cons] at h
      by_cases hc : c = '/'
      · subst hc
        cases text with
        | nil => cases h
        | cons d text =>
          rw [accepts_cons] at h
          by_cases hd : d = '/'
          · subst hd
            exact ⟨text, rfl, h⟩
          · rw [show parseUrlChar .reqSchemaSlash '/' = .reqSchemaSlashSlash from rfl, hslash d _ (.inr rfl) hd] at h
            exact absurd h (not_accepts_dead text)
      · rw [hslash c _ (.inl rfl) hc] at h
        exact absurd h (not_accepts_dead text)
  · rintro ⟨host, rfl, h⟩
    exact h

private theorem accepts_reqSchema_iff (hbytes : OfBytes text) : Accepts .reqSchema text ↔
    ∃ scheme host, text = scheme ++ [':', '/', '/'] ++ host ∧ (∀ c ∈ scheme, c.isAlpha = true) ∧
      IsHostTarget host := by
  induction text with
  | nil =>
    constructor
    · intro h
      cases h
    · rintro ⟨scheme, host, heq, -⟩
      simp at heq
  | cons c text ih =>
    obtain ⟨hc, hrest⟩ := List.forall_mem_cons.mp hbytes
    rw [accepts_cons, parseUrlChar_reqSchema hc]
    by_cases halpha : c.isAlpha = true
    · rw [if_pos halpha, ih hrest]
      constructor
      · rintro ⟨scheme, host, rfl, hscheme, hhost⟩
        exact ⟨c :: scheme, host, rfl, List.forall_mem_cons.mpr ⟨halpha, hscheme⟩, hhost⟩
      · rintro ⟨scheme, host, heq, hscheme, hhost⟩
        cases scheme with
        | nil =>
          obtain ⟨rfl, -⟩ := List.cons.inj heq
          cases halpha
        | cons d scheme =>
          obtain ⟨rfl, htail⟩ := List.cons.inj heq
          exact ⟨scheme, host, htail, (List.forall_mem_cons.mp hscheme).2, hhost⟩
    · rw [if_neg halpha]
      have hnil : (∃ scheme host, c :: text = scheme ++ [':', '/', '/'] ++ host ∧
          (∀ c ∈ scheme, c.isAlpha = true) ∧ IsHostTarget host) ↔
            c = ':' ∧ ∃ host, text = ['/', '/'] ++ host ∧ IsHostTarget host := by
        constructor
        · rintro ⟨scheme, host, heq, hscheme, hhost⟩
          cases scheme with
          | nil =>
            obtain ⟨rfl, htail⟩ := List.cons.inj heq
            exact ⟨rfl, host, htail, hhost⟩
          | cons d scheme =>
            obtain ⟨rfl, -⟩ := List.cons.inj heq
            exact absurd (hscheme c List.mem_cons_self) halpha
        · rintro ⟨rfl, host, rfl, hhost⟩
          exact ⟨[], host, rfl, by simp, hhost⟩
      rw [hnil]
      by_cases hcolon : c = ':'
      · rw [if_pos hcolon, accepts_slashes_iff]
        constructor
        · rintro ⟨host, rfl, hhost⟩
          refine ⟨hcolon, host, rfl, (accepts_reqServerStart_iff ?_).mp hhost⟩
          exact fun d hd => hrest d (List.mem_append_right _ hd)
        · rintro ⟨-, host, rfl, hhost⟩
          refine ⟨host, rfl, (accepts_reqServerStart_iff ?_).mpr hhost⟩
          exact fun d hd => hrest d (List.mem_append_right _ hd)
      · rw [if_neg hcolon]
        exact ⟨fun h => absurd h (not_accepts_dead text), fun h => absurd h.1 hcolon⟩

end Schemes

def IsTarget (m : Method) (text : List Char) : Prop :=
  if m = .connect then IsHostTarget text else IsPathTarget text ∨ IsSchemeTarget text

private theorem parseUrlChar_first {c : Char} (hc : c.toNat < 256) : parseUrlChar .reqSpacesBeforeUrl c =
    if c = '/' ∨ c = '*' then .reqPath else if c.isAlpha then .reqSchema else .dead :=
  byte_rule (P := fun c => parseUrlChar .reqSpacesBeforeUrl c =
    if c = '/' ∨ c = '*' then .reqPath else if c.isAlpha then .reqSchema else .dead) (by decide +kernel) hc

private theorem accepts_reqSpacesBeforeUrl_iff {text : List Char} (hbytes : OfBytes text) :
    Accepts .reqSpacesBeforeUrl text ↔ IsPathTarget text ∨ IsSchemeTarget text := by
  cases text with
  | nil =>
    constructor
    · intro h
      cases h
    · rintro (⟨⟨c, hc, -⟩, -⟩ | ⟨scheme, host, heq, -⟩)
      · cases hc
      · simp at heq
  | cons c text =>
    obtain ⟨hc, hrest⟩ := List.forall_mem_cons.mp hbytes
    have hpath : IsPathTarget (c :: text) ↔ (c = '/' ∨ c = '*') ∧ ∀ c ∈ text, isVisible c = true := by
      simp only [IsPathTarget, List.head?_cons, Option.mem_some_iff, exists_eq_left', List.forall_mem_cons]
      constructor
      · rintro ⟨hstart, -, hvisible⟩
        exact ⟨hstart, hvisible⟩
      · rintro ⟨hstart, hvisible⟩
        refine ⟨hstart, ?_, hvisible⟩
        rcases hstart with rfl | rfl <;> rfl
    have hscheme : IsSchemeTarget (c :: text) ↔ c.isAlpha = true ∧ Accepts .reqSchema text := by
      rw [accepts_reqSchema_iff hrest]
      constructor
      · rintro ⟨scheme, host, heq, hne, halpha, hhost⟩
        cases scheme with
        | nil => exact absurd rfl hne
        | cons d scheme =>
          obtain ⟨rfl, htail⟩ := List.cons.inj heq
          obtain ⟨hd, hscheme⟩ := List.forall_mem_cons.mp halpha
          exact ⟨hd, scheme, host, htail, hscheme, hhost⟩
      · rintro ⟨hd, scheme, host, rfl, hscheme, hhost⟩
        exact ⟨c :: scheme, host, rfl, List.cons_ne_nil _ _, List.forall_mem_cons.mpr ⟨hd, hscheme⟩, hhost⟩
    rw [accepts_cons, parseUrlChar_first hc, hpath, hscheme]
    by_cases hstart : c = '/' ∨ c = '*'
    · have hletter : ¬ c.isAlpha = true := by
        rcases hstart with rfl | rfl <;> decide
      rw [if_pos hstart, accepts_visible_iff rfl hrest]
      simp only [hstart, hletter, true_and, Bool.false_eq_true, false_and, or_false]
    · rw [if_neg hstart]
      by_cases hletter : c.isAlpha = true
      · rw [if_pos hletter]
        simp only [hstart, hletter, true_and, false_and, false_or]
      · rw [if_neg hletter]
        simp only [hstart, hletter, Bool.false_eq_true, false_and, or_self, iff_false]
        exact not_accepts_dead text

/-- The parser reads the targets of the grammar. -/
theorem readsUrl_iff (m : Method) {text : List Char} (hbytes : OfBytes text) :
    ReadsUrl m text ↔ IsTarget m text := by
  rw [ReadsUrl, urlStart, IsTarget]
  split
  · exact accepts_reqServerStart_iff hbytes
  · exact accepts_reqSpacesBeforeUrl_iff hbytes

/-- The run comes to this error, and has told nothing on the way. -/
def Fails (data : List Char) (r : Run) (e : Errno) : Prop :=
  ∃ s last parsed, Reads data r s ∧ s.p < data.length ∧ pass data s = .stop last parsed ∧
    last.parser.httpErrno = e ∧ last.calls = r.calls

section Errors
variable {data : List Char} {r r' : Run} {e : Errno}

theorem Fails.of_reads (h : Reads data r r') (hcalls : r'.calls = r.calls) (h' : Fails data r' e) :
    Fails data r e := by
  obtain ⟨s, last, parsed, hreads, hp, hpass, he, hlast⟩ := h'
  exact ⟨s, last, parsed, h.trans hreads, hp, hpass, he, hlast.trans hcalls⟩

/-- A pass that finds an error. -/
theorem fails_pass {ch : Char} {last : Run} {parsed : ℕ} (hparsing : r.parser.state.parsingHeader = true)
    (hp : r.p < data.length) (hch : charAt data r.p = ch) (hroom : Room r 1)
    (hdispatch : dispatch data (counted r 1) ch = .stop last parsed) (he : last.parser.httpErrno = e)
    (hcalls : last.calls = r.calls) : Fails data r e := by
  refine ⟨r, last, parsed, .refl r, hp, ?_, he, hcalls⟩
  rw [HttpParser.pass, if_pos hparsing, countHeaderSize_of_room hroom, hch]
  exact hdispatch

variable {c : Char} {text : List Char}

theorem pieceOf_url_parsing {s : State} (hs : pieceOf s = some .url) : s.parsingHeader = true := by
  cases s <;> first | rfl | cases hs

theorem fails_urlChar (hs : pieceOf r.parser.state = some .url) (hplain : ¬ (c = ' ' ∨ c = cr ∨ c = lf))
    (hdead : parseUrlChar r.parser.state c = .dead) (hp : r.p < data.length) (hch : charAt data r.p = c)
    (hroom : Room r 1) : Fails data r .invalidUrl := by
  have hs' : pieceOf (counted r 1).parser.state = some .url := hs
  have hdead' : parseUrlChar (counted r 1).parser.state c = .dead := hdead
  have hdispatch : dispatch data (counted r 1) c = ((counted r 1).updateState .dead).error .invalidUrl := by
    rw [dispatch_url hs' hplain, urlChar]
    simp only [hdead', if_true]
  exact fails_pass (pieceOf_url_parsing hs) hp hch hroom hdispatch rfl rfl

theorem fails_urlEnd (hs : pieceOf r.parser.state = some .url) (hends : ¬ urlEnds r.parser.state = true)
    (hp : r.p < data.length) (hch : charAt data r.p = ' ') (hroom : Room r 1) : Fails data r .invalidUrl := by
  have hdispatch : dispatch data (counted r 1) ' ' = (counted r 1).error .invalidUrl := by
    have hstate : (counted r 1).parser.state = r.parser.state := rfl
    cases h : r.parser.state <;> rw [h] at hs hends hstate <;>
      simp only [pieceOf, reduceCtorEq, Option.some.injEq] at hs <;>
      simp only [urlEnds, not_true, Bool.false_eq_true, not_false_iff] at hends <;>
      simp only [dispatch, hstate, reqSchema, true_or, if_true]
  exact fails_pass (pieceOf_url_parsing hs) hp hch hroom hdispatch rfl rfl

theorem fails_url (hs : pieceOf r.parser.state = some .url) (hnot : ¬ Accepts r.parser.state text)
    (hplain : ∀ c ∈ text, ¬ (c = ' ' ∨ c = cr ∨ c = lf)) (hspells : Spells data r.p (text ++ [' ']))
    (hroom : Room r (text.length + 1)) : Fails data r .invalidUrl := by
  induction text generalizing r with
  | nil =>
    obtain ⟨hp, hch, -⟩ := spells_cons.mp hspells
    exact fails_urlEnd hs hnot hp hch hroom
  | cons c text ih =>
    obtain ⟨hp, hch, hrest⟩ := spells_cons.mp hspells
    obtain ⟨hc, htext⟩ := List.forall_mem_cons.mp hplain
    have hroom₁ : Room r 1 := hroom.of_le (Nat.le_add_left 1 _)
    by_cases hdead : parseUrlChar r.parser.state c = .dead
    · exact fails_urlChar hs hc hdead hp hch hroom₁
    · have hspells₁ : Spells data r.p [c] := spells_cons.mpr ⟨hp, hch, List.nil_prefix⟩
      have hread := (Course.single (@steps_url data _ _ hs hdead)).reads (r := r) rfl hspells₁ hroom₁
      refine .of_reads hread rfl (ih (pieceOf_parseUrlChar hdead) hnot htext hrest ?_)
      have hlength : (c :: text).length + 1 = 1 + (text.length + 1) := Nat.add_comm _ _
      rw [hlength] at hroom
      exact hroom.went _

theorem fails_urlStart (hs : r.parser.state = .reqSpacesBeforeUrl) (hmarks : r.marks = only none)
    (hplain : ¬ (c = ' ' ∨ c = cr ∨ c = lf)) (hdead : parseUrlChar (urlStart r.parser.method) c = .dead)
    (hp : r.p < data.length) (hch : charAt data r.p = c) (hroom : Room r 1) : Fails data r .invalidUrl := by
  obtain ⟨hspace, -⟩ := not_or.mp hplain
  have hmark := mark_of_closed (r := counted r 1) hmarks .url
  have hdispatch : dispatch data (counted r 1) c =
      ({ (counted r 1).updateState .dead with marks := only (some (.url, r.p)) } : Run).error .invalidUrl := by
    have hs' : (counted r 1).parser.state = .reqSpacesBeforeUrl := hs
    have hmethod : (counted r 1).parser.method = r.parser.method := rfl
    simp only [dispatch, hs', reqSpacesBeforeUrl, if_neg hspace, hmark, hmethod]
    by_cases hconnect : r.parser.method = .connect
    · simp only [urlStart, if_pos hconnect] at hdead ⊢
      simp only [urlChar, Run.updateState, Run.update, hdead, if_true]
      rfl
    · simp only [urlStart, if_neg hconnect] at hdead ⊢
      simp only [urlChar, hs', hdead, if_true]
      rfl
  have hparsing : r.parser.state.parsingHeader = true := by
    rw [hs]
    rfl
  exact fails_pass hparsing hp hch hroom hdispatch rfl rfl

theorem fails_target (h : MayRequest r.parser) {m : Method} (hmarks : r.marks = only none)
    (hne : text ≠ []) (hnot : ¬ ReadsUrl m text) (hplain : ∀ c ∈ text, ¬ (c = ' ' ∨ c = cr ∨ c = lf))
    (hspells : Spells data r.p (methodStrings m ++ ([' '] ++ (text ++ [' ']))))
    (hroom : Room r ((methodStrings m).length + 1 + (text.length + 1))) : Fails data r .invalidUrl := by
  rw [← List.append_assoc] at hspells
  obtain ⟨hspells₁, hspells₂⟩ := spells_append.mp hspells
  rw [List.length_append, List.length_singleton] at hspells₂
  have hmethod := ((@course_methodStrings data _ h m).append
    (.single (steps_methodEnd r.parser m))).reads (r := r) rfl hspells₁ (by
      rw [List.length_append, List.length_singleton]
      exact hroom.of_le (Nat.le_add_right _ _))
  rw [List.length_append, List.length_singleton] at hmethod
  refine .of_reads hmethod rfl ?_
  have hroom' := hroom.went (requesting r.parser m ((methodStrings m).length + 1) .reqSpacesBeforeUrl)
  cases text with
  | nil => exact absurd rfl hne
  | cons c text =>
    obtain ⟨hp, hch, hrest⟩ := spells_cons.mp hspells₂
    obtain ⟨hc, htext⟩ := List.forall_mem_cons.mp hplain
    have hroom₁ := hroom'.of_le (Nat.le_add_left 1 _)
    by_cases hdead : parseUrlChar (urlStart m) c = .dead
    · exact fails_urlStart rfl hmarks hc hdead hp hch hroom₁
    · have hread := reads_urlStart (r := went r _ (requesting r.parser m ((methodStrings m).length + 1)
        .reqSpacesBeforeUrl)) rfl hmarks hdead hp hch hroom₁
      refine .of_reads hread rfl (fails_url (pieceOf_parseUrlChar hdead) hnot htext hrest ?_)
      simp only [Room, inPiece, went, List.length_cons] at hroom' ⊢
      omega

theorem executeLoop_of_fails {before : Option Piece} {n : ℕ} (hsound : Sound data before r)
    (hn : data.length ≤ r.p + n) (h : Fails data r e) :
    (executeLoop data n r).1.parser.httpErrno = e ∧ (executeLoop data n r).1.calls = r.calls := by
  obtain ⟨s, last, parsed, hreads, hin, hpass, he, hcalls⟩ := h
  have hfuel : (scan data).stop ≤ (scan data).pos s + (data.length + 1) := by
    simp only [scan]
    omega
  rw [executeLoop_eq_run, hreads.run_eq scan_keeps hsound hn hfuel, Scan.run_of_returns hin (body_of_stop hpass)]
  exact ⟨he, hcalls⟩

end Errors

def headFor (m : Method) (target : List Char) : List Char :=
  methodStrings m ++ ([' '] ++ (target ++ [' '])) ++ "HTTP/1.1\r\n\r\n".toList

def requestFor (m : Method) (target : List Char) (h : ReadsUrl m target) : Request where
  method := m
  target := target
  version := versionOne
  fields := []
  body := .none
  target_read := h
  major_lead := versionOne_lead
  fields_sized := by simp
  body_framed := .inr ⟨rfl, rfl⟩

private theorem text_requestFor {m : Method} {target : List Char} (h : ReadsUrl m target) :
    pipelineText [requestFor m target h] = headFor m target := by
  simp only [pipelineText, headFor, Request.text, Request.head, Request.line, requestFor, Body.text, fieldLines,
    List.map_cons, List.map_nil, List.flatten_cons, List.flatten_nil, List.append_nil, List.append_assoc]
  rfl

/-- Whatever a parser was given before, if it has found no error and may read a request now,
it finds no error in a first line if what stands behind the method is a target for it, and
otherwise it finds the target wrong and tells nothing. -/
theorem httpParserExecute_target_iff (t : ParserType) (chunks : List (List Char)) (m : Method)
    {target : List Char} (hok : (fed (httpParserInit t) chunks).httpErrno = .ok)
    (h : MayRequest (fed (httpParserInit t) chunks)) (hne : target ≠ []) (hbytes : OfBytes target)
    (hplain : ∀ c ∈ target, ¬ (c = ' ' ∨ c = cr ∨ c = lf))
    (hroom : (fed (httpParserInit t) chunks).nread + (headFor m target).length ≤ httpMaxHeaderSize) :
    let result := httpParserExecute (headFor m target) (fed (httpParserInit t) chunks)
    (result.1.parser.httpErrno = .ok ↔ IsTarget m target) ∧
      (¬ IsTarget m target → result.1.parser.httpErrno = .invalidUrl ∧ result.1.calls = []) := by
  intro result
  rcases fed_live (httpParserInit_live t) chunks with herror | ⟨hhealthy, hready⟩
  · exact absurd hok herror
  · by_cases htarget : IsTarget m target
    · have hreads := (readsUrl_iff m hbytes).mpr htarget
      have htext := text_requestFor hreads
      have hfits : Pipelined (fed (httpParserInit t) chunks).nread [requestFor m target hreads] := by
        refine ⟨?_, trivial, fun hnil => absurd rfl hnil, trivial⟩
        rw [← htext, pipelineText_cons, List.length_append, Request.text, List.length_append] at hroom
        omega
      obtain ⟨-, -, herrno, -⟩ := executes_requests (List.cons_ne_nil _ _) hhealthy hready h hfits
      rw [htext] at herrno
      exact ⟨iff_of_true herrno htarget, fun hnot => absurd htarget hnot⟩
    · have hnot : ¬ ReadsUrl m target := fun hreads => htarget ((readsUrl_iff m hbytes).mp hreads)
      have hspells : Spells (headFor m target) 0 (methodStrings m ++ ([' '] ++ (target ++ [' ']))) :=
        List.prefix_append _ _
      have hlength : (headFor m target).length ≠ 0 := by
        rw [headFor, List.length_append]
        exact Nat.ne_of_gt (Nat.add_pos_right _ (by decide))
      have hfails : Fails (headFor m target) (startRun (fed (httpParserInit t) chunks)) .invalidUrl := by
        refine fails_target h (startMarks_mayRequest h) hne hnot hplain hspells ?_
        simp only [headFor, List.length_append, List.length_singleton] at hroom
        simp only [Room, startRun]
        omega
      obtain ⟨herrno, hcalls⟩ := executeLoop_of_fails (startRun_sound hhealthy hready) (Nat.le_add_left _ _) hfails
      have hresult : result = executeLoop (headFor m target) (headFor m target).length
          (startRun (fed (httpParserInit t) chunks)) := by
        simp only [result, httpParserExecute, if_neg (not_not.mpr hok), if_neg hlength]
        rfl
      rw [hresult]
      have hne' : Errno.invalidUrl ≠ .ok := by decide
      refine ⟨iff_of_false ?_ htarget, fun _ => ⟨herrno, hcalls⟩⟩
      rw [herrno]
      exact hne'

theorem httpParserExecute_target_iff_asterisk :
    (httpParserExecute (headFor .options ['*']) (fed (httpParserInit .httpBoth) [])).1.parser.httpErrno = .ok ↔
      IsTarget .options ['*'] :=
  (httpParserExecute_target_iff .httpBoth [] .options rfl (.inl rfl) (by decide) (by decide) (by decide)
    (by decide)).1

end OpenSniffer.HttpTargets
