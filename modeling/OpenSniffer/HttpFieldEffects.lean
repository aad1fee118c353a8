import OpenSniffer.HttpFieldNames

/-!
# What fields do to the parser

The fields of a head change the length that is stated, the coding and the flags of the
connection, and nothing else that a later line or the body depends on.
-/
namespace OpenSniffer.HttpFieldEffects
open HttpGrammar HttpParserState HttpParser HttpOpenings HttpRuns HttpInvariants HttpHeadPasses HttpCharacters
open HttpReading HttpFieldLines HttpFieldNames

section Starts
variable {parser : Parser} {c : Char}

def valued (parser : Parser) (h : HeaderState) : Parser :=
  { parser with index := 0, headerState := h, state := .headerValue }

private theorem opensValue_general (h : readsField parser.headerState = true)
    (hknown : parser.headerState ∉ [.connection, .contentLength, .transferEncoding, .upgrade]) :
    OpensValue parser c (valued parser .general) := by
  refine ⟨rfl, rfl, ?_⟩
  intro r nread hmarks
  simp only [headerValueStart]
  rw [mark_of_closed]
  · cases hs : parser.headerState <;> rw [hs] at h hknown <;>
      first | (cases h; done) | (simp at hknown; done) | rfl
  · exact hmarks

private theorem opensValue_upgrade (hs : parser.headerState = .upgrade) :
    OpensValue parser c { valued parser .general with flags := { parser.flags with upgrade := true } } := by
  refine ⟨rfl, rfl, ?_⟩
  intro r nread hmarks
  simp only [headerValueStart]
  rw [mark_of_closed]
  · simp only [Run.updateState, Run.update, hs]
    rfl
  · exact hmarks

private theorem opensValue_transferEncoding (hs : parser.headerState = .transferEncoding) :
    OpensValue parser c
      (valued parser (if lower c = 'c' then .matchingTransferEncodingChunked else .general)) := by
  refine ⟨rfl, rfl, ?_⟩
  intro r nread hmarks
  simp only [headerValueStart]
  rw [mark_of_closed]
  · simp only [Run.updateState, Run.update, hs]
    rfl
  · exact hmarks

private theorem opensValue_contentLength (hs : parser.headerState = .contentLength) (hc : isNum c = true) :
    OpensValue parser c { valued parser .contentLength with contentLength := digit c } := by
  refine ⟨rfl, rfl, ?_⟩
  intro r nread hmarks
  simp only [headerValueStart]
  rw [mark_of_closed]
  · simp only [Run.updateState, Run.update, hs, hc, Bool.not_true, Bool.false_eq_true, if_false]
    rw [← hs]
    rfl
  · exact hmarks

def optionState (c : Char) : HeaderState :=
  if lower c = 'k' then .matchingConnectionKeepAlive
  else if lower c = 'c' then .matchingConnectionClose
  else if lower c = 'u' then .matchingConnectionUpgrade
  else .matchingConnectionToken

private theorem opensValue_connection (hs : parser.headerState = .connection) :
    OpensValue parser c (valued parser (optionState c)) := by
  refine ⟨rfl, rfl, ?_⟩
  intro r nread hmarks
  simp only [headerValueStart]
  rw [mark_of_closed]
  · simp only [Run.updateState, Run.update, hs]
    rfl
  · exact hmarks

end Starts

section Values
variable {parser : Parser} {text : List Char}

theorem valueRead_contentLength (hdigits : ∀ c ∈ text, c.isDigit = true) {n : ℕ}
    (hvalue : text.foldl (fun n c => n * 10 + digitValue c) n ≤ ullongMax - 6) :
    valueRead { parser with contentLength := n } .contentLength text = some ({ parser with
      contentLength := text.foldl (fun n c => n * 10 + digitValue c) n }, .contentLength) := by
  induction text generalizing n with
  | nil => rfl
  | cons c text ih =>
    have hc := isDigit_of (hdigits c List.mem_cons_self)
    rw [List.foldl_cons] at hvalue ⊢
    have hle := Nat.le_trans (@le_foldl_numeral 10 (by decide) _ text) hvalue
    have hsmall : ¬ (ullongMax - 10) / 10 < n := by
      simp only [ullongMax] at hle ⊢
      omega
    have hchar : headerValueChar { parser with contentLength := n } .contentLength c =
        some ({ parser with contentLength := n * 10 + digitValue c }, .contentLength) := by
      simp only [headerValueChar, if_neg hc.ne_space, hc.num, Bool.not_true, Bool.false_eq_true, if_false,
        if_neg hsmall, hc.value]
    rw [valueRead, hchar]
    exact ih (fun c hc => hdigits c (List.mem_cons_of_mem _ hc)) hvalue

/-- `IsChunkedValue`, as the parser compares letters. -/
def LowerChunked (value : List Char) : Prop :=
  (value.take 7).map lower = "chunked".toList ∧ ∀ c ∈ value.drop 7, c = ' '

/-- What has been read of a coding when the search for `chunked` is in a state. -/
def Codes (h : HeaderState) (index : ℕ) (seen : List Char) : Prop :=
  match h with
  | .general => ∀ rest, ¬ LowerChunked (seen ++ rest)
  | .matchingTransferEncodingChunked => Progress "chunked".toList (seen.map lower) index
  | .transferEncodingChunked => LowerChunked seen
  | _ => False

theorem length_of_lowerChunked {value : List Char} (h : LowerChunked value) : 7 ≤ value.length := by
  have hlen := congrArg List.length h.1
  rw [List.length_map, List.length_take] at hlen
  have hseven : "chunked".toList.length = 7 := by decide
  omega

theorem lowerChunked_append {seen rest : List Char} (h : LowerChunked seen) :
    LowerChunked (seen ++ rest) ↔ ∀ c ∈ rest, c = ' ' := by
  have hlen := length_of_lowerChunked h
  rw [LowerChunked, List.take_append_of_le_length hlen, List.drop_append_of_le_length hlen]
  constructor
  · intro hboth c hc
    exact hboth.2 c (List.mem_append_right _ hc)
  · intro hrest
    refine ⟨h.1, ?_⟩
    intro c hc
    rcases List.mem_append.mp hc with hc | hc
    · exact h.2 c hc
    · exact hrest c hc

/-- What starts in another way is no coding `chunked`. -/
theorem not_lowerChunked_append {seen rest : List Char} (hlen : seen.length ≤ 7)
    (hpart : ¬ seen.map lower <+: "chunked".toList) : ¬ LowerChunked (seen ++ rest) := by
  intro h
  apply hpart
  rw [← h.1, List.take_append, List.take_of_length_le hlen, List.map_append]
  exact List.prefix_append _ _

private theorem codes_headerValueChar {h : HeaderState} {index : ℕ} {seen : List Char} (hs : parser.state = .headerValue)
    (hcodes : Codes h index seen) (ch : Char) :
    ∃ index' h', headerValueChar { parser with index := index } h ch =
      some ({ parser with index := index' }, h') ∧ Codes h' index' (seen ++ [ch]) := by
  cases h <;> simp only [headerValueChar]
  case general =>
    refine ⟨index, .general, by rw [← hs], ?_⟩
    intro rest
    rw [List.append_assoc]
    exact hcodes _
  case matchingTransferEncodingChunked =>
    refine ⟨_, _, rfl, ?_⟩
    have hlen : "chunked".toList.length = 7 := by decide
    have hshort := hcodes.short
    rw [List.length_map, hlen] at hshort
    have hlength : (seen ++ [ch]).length ≤ 7 := by
      rw [List.length_append, List.length_singleton]
      omega
    have hmap : (seen ++ [ch]).map lower = seen.map lower ++ [lower ch] := List.map_append
    rw [matching_eq hcodes (by decide)]
    split
    · rename_i heq
      refine ⟨?_, ?_⟩
      · rw [List.take_of_length_le hlength, hmap, heq]
      · rw [List.drop_eq_nil_of_le hlength]
        intro c hc
        cases hc
    · rename_i hne
      split
      · rename_i hpart
        have hprogress := hcodes.concat (by decide) hpart hne
        rw [← hmap] at hprogress
        exact hprogress
      · rename_i hmiss
        rw [← hmap] at hmiss
        intro rest
        exact not_lowerChunked_append hlength hmiss
  case transferEncodingChunked =>
    refine ⟨index, _, rfl, ?_⟩
    split
    · rename_i hch
      intro rest hrest
      rw [List.append_assoc] at hrest
      exact hch ((lowerChunked_append hcodes).mp hrest ch List.mem_cons_self)
    · rename_i hch
      have hspace : ∀ c ∈ [ch], c = ' ' := by
        intro c hc
        rw [List.mem_singleton.mp hc]
        exact not_not.mp hch
      exact (lowerChunked_append hcodes).mpr hspace
  all_goals exact hcodes.elim

private theorem valueRead_coding {h : HeaderState} {index : ℕ} {seen : List Char} (hs : parser.state = .headerValue)
    (hcodes : Codes h index seen) (text : List Char) :
    ∃ index' h', valueRead { parser with index := index } h text =
      some ({ parser with index := index' }, h') ∧ Codes h' index' (seen ++ text) := by
  induction text generalizing h index seen with
  | nil => exact ⟨index, h, rfl, by rwa [List.append_nil]⟩
  | cons ch text ih =>
    obtain ⟨index', h', hchar, hcodes'⟩ := codes_headerValueChar hs hcodes ch
    obtain ⟨index'', h'', hread, hcodes''⟩ := ih hcodes'
    refine ⟨index'', h'', ?_, ?_⟩
    · rw [valueRead, hchar]
      exact hread
    · rw [List.append_assoc] at hcodes''
      exact hcodes''

private theorem codes_iff {h : HeaderState} {index : ℕ} {seen : List Char} (hcodes : Codes h index seen) :
    h = .transferEncodingChunked ↔ LowerChunked seen := by
  cases h
  case general =>
    refine iff_of_false (by decide) ?_
    have hself := hcodes []
    rwa [List.append_nil] at hself
  case matchingTransferEncodingChunked =>
    refine iff_of_false (by decide) ?_
    intro hchunked
    have hlen := length_of_lowerChunked hchunked
    have hshort := hcodes.short
    have hseven : "chunked".toList.length = 7 := by decide
    rw [List.length_map] at hshort
    omega
  case transferEncodingChunked => exact iff_of_true rfl hcodes
  all_goals exact hcodes.elim

/-- On bytes the parser compares letters as the grammar does. -/
theorem map_lower_eq_iff {text word : List Char} (htext : ∀ c ∈ text, c.toNat < 256)
    (hword : ∀ d ∈ word, d ∈ "chunked".toList) :
    text.map lower = word ↔ text.map Char.toLower = word := by
  induction text generalizing word with
  | nil => rfl
  | cons c text ih =>
    cases word with
    | nil => simp
    | cons d word =>
      rw [List.map_cons, List.map_cons, List.cons.injEq, List.cons.injEq,
        (sortedAlike (htext c List.mem_cons_self)).lower_eq_iff d (hword d List.mem_cons_self),
        ih (fun c hc => htext c (List.mem_cons_of_mem _ hc)) (fun d hd => hword d (List.mem_cons_of_mem _ hd))]

private theorem lowerChunked_iff {value : List Char} (hvalue : ∀ c ∈ value, c.toNat < 256) :
    LowerChunked value ↔ Field.IsChunkedValue value := by
  rw [LowerChunked, Field.IsChunkedValue,
    map_lower_eq_iff (fun c hc => hvalue c (List.mem_of_mem_take hc)) fun d hd => hd]

private theorem codes_start (c : Char) :
    Codes (if lower c = 'c' then .matchingTransferEncodingChunked else .general) 0 [c] := by
  split
  · rename_i hc
    have hmap : [c].map lower = ['c'] := by rw [List.map_singleton, hc]
    refine ⟨?_, ?_, rfl⟩
    · rw [hmap]
      decide
    · rw [hmap]
      decide
  · rename_i hc
    intro rest
    apply not_lowerChunked_append (by simp)
    intro hpart
    have hnext := (concat_prefix_iff (List.nil_prefix (l := "chunked".toList)) (by decide)).mp hpart
    exact hc hnext

/-- The state behind a coding tells whether it is `chunked`, and the flags follow it. -/
theorem readsValue_transferEncoding {value : List Char} (hs : parser.headerState = .transferEncoding)
    (hne : value ≠ []) (hvalue : ∀ c ∈ value, c.toNat < 256) :
    ∃ index h, ReadsValue parser value { parser with index := index, headerState := h, state := .headerValue } ∧
      headerFlags h parser.flags =
        { parser.flags with chunked := parser.flags.chunked || decide (Field.IsChunkedValue value) } := by
  cases value with
  | nil => exact absurd rfl hne
  | cons c text =>
    obtain ⟨index, h, hread, hcodes⟩ := @valueRead_coding
      (valued parser (if lower c = 'c' then .matchingTransferEncodingChunked else .general)) _ 0 [c] rfl
      (codes_start c) text
    refine ⟨index, h, ⟨_, _, h, opensValue_transferEncoding hs, hread, rfl⟩, ?_⟩
    have hiff := (codes_iff hcodes).trans (lowerChunked_iff hvalue)
    by_cases hchunked : Field.IsChunkedValue (c :: text)
    · rw [hiff.mpr hchunked, decide_eq_true hchunked, Bool.or_true]
      rfl
    · rw [decide_eq_false hchunked, Bool.or_false]
      cases h
      case transferEncodingChunked => exact absurd (hiff.mp rfl) hchunked
      case general | matchingTransferEncodingChunked => rfl
      all_goals exact hcodes.elim

private theorem readsValue_contentLength {value : List Char} (hs : parser.headerState = .contentLength)
    (hne : value ≠ []) (hdigits : ∀ c ∈ value, c.isDigit = true) (hle : numeral 10 value ≤ ullongMax - 6) :
    ReadsValue parser value { parser with
      index := 0, headerState := .contentLength, state := .headerValue, contentLength := numeral 10 value } := by
  cases value with
  | nil => exact absurd rfl hne
  | cons c text =>
    have hc := isDigit_of (hdigits c List.mem_cons_self)
    rw [numeral_cons, ← hc.value] at hle ⊢
    have hread := @valueRead_contentLength (valued parser .contentLength) _
      (fun c hc => hdigits c (List.mem_cons_of_mem _ hc)) _ hle
    exact ⟨_, _, _, opensValue_contentLength hs hc.num, hread, rfl⟩

theorem readsValue_general {value : List Char} (h : readsField parser.headerState = true)
    (hknown : parser.headerState ∉ [.connection, .contentLength, .transferEncoding, .upgrade])
    (hne : value ≠ []) : ReadsValue parser value (valued parser .general) := by
  cases value with
  | nil => exact absurd rfl hne
  | cons c text =>
    have hread : valueRead (valued parser .general) .general text = some (valued parser .general, .general) :=
      valueRead_general rfl text
    exact ⟨_, _, _, opensValue_general h hknown, hread, rfl⟩

private theorem readsValue_upgrade {value : List Char} (hs : parser.headerState = .upgrade) (hne : value ≠ []) :
    ReadsValue parser value
      { valued parser .general with flags := { parser.flags with upgrade := true } } := by
  cases value with
  | nil => exact absurd rfl hne
  | cons c text =>
    have hread := @valueRead_general { valued parser .general with
      flags := { parser.flags with upgrade := true } } rfl text
    exact ⟨_, _, _, opensValue_upgrade hs, hread, rfl⟩

def readsOption : HeaderState → Bool
  | .general | .matchingConnectionTokenStart | .matchingConnectionKeepAlive | .matchingConnectionClose => true
  | .matchingConnectionUpgrade | .matchingConnectionToken => true
  | .connectionKeepAlive | .connectionClose | .connectionUpgrade => true
  | _ => false

/-- Flags that differ in the options of the connection only. -/
def OptionsOnly (flags flags' : Flags) : Prop := flags' = { flags with
  connectionKeepAlive := flags'.connectionKeepAlive
  connectionClose := flags'.connectionClose
  connectionUpgrade := flags'.connectionUpgrade }

theorem optionsOnly_headerFlags {h : HeaderState} (hoption : readsOption h = true) (flags : Flags) :
    OptionsOnly flags (headerFlags h flags) := by
  cases h <;> first | rfl | cases hoption

theorem OptionsOnly.trans {flags flags' flags'' : Flags} (h : OptionsOnly flags flags')
    (h' : OptionsOnly flags' flags'') : OptionsOnly flags flags'' := by
  rw [OptionsOnly] at h h' ⊢
  rw [h', h]

private theorem readsOption_headerValueChar {h : HeaderState} (hs : parser.state = .headerValue)
    (hoption : readsOption h = true) (ch : Char) :
    ∃ index flags h', headerValueChar parser h ch = some ({ parser with index := index, flags := flags }, h') ∧
      OptionsOnly parser.flags flags ∧ readsOption h' = true := by
  have hsame : OptionsOnly parser.flags parser.flags := rfl
  cases h <;> simp only [headerValueChar]
  case general => exact ⟨parser.index, parser.flags, .general, by rw [← hs], hsame, rfl⟩
  case matchingConnectionTokenStart =>
    refine ⟨parser.index, parser.flags, _, rfl, hsame, ?_⟩
    split_ifs <;> rfl
  case matchingConnectionKeepAlive | matchingConnectionClose | matchingConnectionUpgrade =>
    exact ⟨_, parser.flags, _, rfl, hsame, matching_rule (P := fun h => readsOption h = true) rfl rfl rfl _ _ _⟩
  case matchingConnectionToken =>
    split
    · exact ⟨0, parser.flags, _, rfl, hsame, rfl⟩
    · exact ⟨parser.index, parser.flags, _, rfl, hsame, rfl⟩
  case connectionKeepAlive | connectionClose | connectionUpgrade =>
    split
    · exact ⟨0, _, _, rfl, optionsOnly_headerFlags hoption _, rfl⟩
    · refine ⟨parser.index, parser.flags, _, rfl, hsame, ?_⟩
      split <;> rfl
  all_goals cases hoption

private theorem valueRead_options {h : HeaderState} (hs : parser.state = .headerValue) (hoption : readsOption h = true)
    (text : List Char) :
    ∃ index flags h', valueRead parser h text = some ({ parser with index := index, flags := flags }, h') ∧
      OptionsOnly parser.flags flags ∧ readsOption h' = true := by
  induction text generalizing parser h with
  | nil => exact ⟨parser.index, parser.flags, h, rfl, rfl, hoption⟩
  | cons ch text ih =>
    obtain ⟨index, flags, h', hchar, hflags, hoption'⟩ := readsOption_headerValueChar hs hoption ch
    obtain ⟨index', flags', h'', hread, hflags', hoption''⟩ :=
      @ih { parser with index := index, flags := flags } _ hs hoption'
    refine ⟨index', flags', h'', ?_, hflags.trans hflags', hoption''⟩
    rw [valueRead, hchar]
    exact hread

private theorem readsOption_optionState (c : Char) : readsOption (optionState c) = true := by
  unfold optionState
  split_ifs <;> rfl

theorem readsValue_connection {value : List Char} (hs : parser.headerState = .connection) (hne : value ≠ []) :
    ∃ index flags h, ReadsValue parser value { parser with
        index := index, flags := flags, headerState := h, state := .headerValue } ∧
      OptionsOnly parser.flags (headerFlags h flags) := by
  cases value with
  | nil => exact absurd rfl hne
  | cons c text =>
    obtain ⟨index, flags, h, hread, hflags, hoption⟩ :=
      @valueRead_options (valued parser (optionState c)) _ rfl (readsOption_optionState c) text
    exact ⟨index, flags, h, ⟨_, _, h, opensValue_connection hs, hread, rfl⟩,
      hflags.trans (optionsOnly_headerFlags hoption flags)⟩

end Values

/-- What fields do to the flags. -/
structure FlagsAfter (fields : List Field) (flags flags' : Flags) : Prop where
  chunked : flags'.chunked = (flags.chunked || fields.any Field.isChunked)
  trailing : flags'.trailing = flags.trailing
  skipbody : flags'.skipbody = flags.skipbody
  close : fields.any Field.namesConnection = false → flags'.connectionClose = flags.connectionClose
  upgrade : fields.any (Field.named · "upgrade") = false → flags'.upgrade = flags.upgrade

private theorem flagsAfter_nil (flags : Flags) : FlagsAfter [] flags flags :=
  ⟨(Bool.or_false _).symm, rfl, rfl, fun _ => rfl, fun _ => rfl⟩

theorem FlagsAfter.cons {f : Field} {fields : List Field} {flags flags' flags'' : Flags}
    (h : FlagsAfter [f] flags flags') (h' : FlagsAfter fields flags' flags'') :
    FlagsAfter (f :: fields) flags flags'' where
  chunked := by rw [h'.chunked, h.chunked, List.any_cons, List.any_cons, List.any_nil, Bool.or_false, Bool.or_assoc]
  trailing := h'.trailing.trans h.trailing
  skipbody := h'.skipbody.trans h.skipbody
  close := by
    rw [List.any_cons, Bool.or_eq_false_iff]
    intro hnone
    exact (h'.close hnone.2).trans (h.close (by rw [List.any_cons, hnone.1]; rfl))
  upgrade := by
    rw [List.any_cons, Bool.or_eq_false_iff]
    intro hnone
    exact (h'.upgrade hnone.2).trans (h.upgrade (by rw [List.any_cons, hnone.1]; rfl))

def between (parser : Parser) (flags : Flags) (length : ℕ) : Parser :=
  { parser with state := .headerFieldStart, flags := flags, contentLength := length }

section Effects
variable {f : Field}

private theorem headerFlags_of_readsField {h : HeaderState} (hreads : readsField h = true) (flags : Flags) :
    headerFlags h flags = flags := by
  cases h <;> first | rfl | cases hreads

theorem isChunked_of_not_named (h : f.named "transfer-encoding" ≠ true) : f.isChunked = false := by
  rw [Field.isChunked, decide_eq_false_iff_not]
  exact fun hboth => h hboth.1

private theorem isChunked_of_empty (h : f.value = []) : f.isChunked = false := by
  have hnone : ¬ Field.IsChunkedValue [] := fun hvalue => absurd hvalue.1 (by decide)
  rw [Field.isChunked, decide_eq_false_iff_not, h]
  exact fun hboth => hnone hboth.2

theorem flagsAfter_same (h : f.isChunked = false) (flags : Flags) : FlagsAfter [f] flags flags where
  chunked := by rw [List.any_cons, h, List.any_nil, Bool.or_false, Bool.or_false]
  trailing := rfl
  skipbody := rfl
  close := fun _ => rfl
  upgrade := fun _ => rfl

private theorem flagsAfter_coding (h : f.named "transfer-encoding" = true) (flags : Flags) :
    FlagsAfter [f] flags { flags with chunked := flags.chunked || decide (Field.IsChunkedValue f.value) } where
  chunked := by simp [Field.isChunked, h]
  trailing := rfl
  skipbody := rfl
  close := fun _ => rfl
  upgrade := fun _ => rfl

private theorem flagsAfter_options {flags flags' : Flags} (hcoding : f.isChunked = false)
    (h : f.namesConnection = true) (hflags : OptionsOnly flags flags') : FlagsAfter [f] flags flags' where
  chunked := by
    rw [hflags, List.any_cons, hcoding, List.any_nil, Bool.or_false, Bool.or_false]
  trailing := by rw [hflags]
  skipbody := by rw [hflags]
  close := by
    rw [List.any_cons, h]
    exact fun hnone => absurd hnone (by decide)
  upgrade := fun _ => by rw [hflags]

private theorem flagsAfter_upgrade (hcoding : f.isChunked = false) (h : f.named "upgrade" = true) (flags : Flags) :
    FlagsAfter [f] flags { flags with upgrade := true } where
  chunked := by rw [List.any_cons, hcoding, List.any_nil, Bool.or_false, Bool.or_false]
  trailing := rfl
  skipbody := rfl
  close := fun _ => rfl
  upgrade := by
    rw [List.any_cons, h]
    exact fun hnone => absurd hnone (by decide)

theorem length?_of_not_named (h : f.named "content-length" ≠ true) : f.length? = none := by
  rw [Field.length?, if_neg]
  exact fun hboth => h hboth.1

/-- The field is read, with an effect on the flags and the length only. -/
def Effect (parser : Parser) (f : Field) : Prop :=
  ∃ flags index headerState, ReadsField parser f
      { between parser flags (f.length?.getD parser.contentLength) with
        index := index, headerState := headerState } ∧
    FlagsAfter [f] parser.flags flags

section Kinds
variable {parser : Parser}

private theorem effect_empty (hempty : f.value = []) : Effect parser f := by
  obtain ⟨index, h, s, hsame⟩ := nameRead_same parser f.name
  have hreads := readsField_of_knows (knows_name f parser)
  have hnone : f.length? = none := by
    rw [Field.length?, if_neg]
    exact fun hboth => hboth.2 hempty
  have hread : ReadsValue { nameRead parser f.name with state := .headerValueDiscardWs } f.value
      { nameRead parser f.name with state := .headerValueDiscardWs } := by
    rw [hempty]
    exact rfl
  rw [hsame] at hreads
  refine ⟨parser.flags, index, h, ⟨_, hread, ?_⟩, flagsAfter_same (isChunked_of_empty hempty) _⟩
  simp only [between, hnone, hsame, headerFlags_of_readsField hreads]
  rfl

variable (hempty : f.value ≠ [])
include hempty

private theorem effect_contentLength (hsized : f.Sized (ullongMax - 6)) (hnamed : f.named "content-length" = true) :
    Effect parser f := by
  obtain ⟨-, hlength, hcoding, -⟩ := headerState_iff f parser
  obtain ⟨index, h, s, hsame⟩ := nameRead_same parser f.name
  have hs := hlength.mpr hnamed
  have hother : f.named "transfer-encoding" ≠ true := by
    intro hnamed'
    have hs' := hcoding.mpr hnamed'
    rw [hs] at hs'
    cases hs'
  have hsome : f.length? = some (numeral 10 f.value) := by rw [Field.length?, if_pos ⟨hnamed, hempty⟩]
  obtain ⟨hdigits, hle⟩ := hsized hnamed
  have hread := @readsValue_contentLength { nameRead parser f.name with
    state := .headerValueDiscardWs } _ hs hempty hdigits hle
  refine ⟨parser.flags, 0, .contentLength, ⟨_, hread, ?_⟩, flagsAfter_same (isChunked_of_not_named hother) _⟩
  simp only [between, hsome, hsame]
  rfl

private theorem effect_coding (hnamed : f.named "transfer-encoding" = true) : Effect parser f := by
  obtain ⟨-, hlength, hcoding, -⟩ := headerState_iff f parser
  obtain ⟨index, h, s, hsame⟩ := nameRead_same parser f.name
  have hs := hcoding.mpr hnamed
  have hnone : f.named "content-length" ≠ true := by
    intro hnamed'
    have hs' := hlength.mpr hnamed'
    rw [hs] at hs'
    cases hs'
  have hbyte : ∀ c ∈ f.value, c.toNat < 256 := by
    intro c hc
    have hline := f.value_line c hc
    simp only [isLineChar, decide_eq_true_eq] at hline
    exact hline.1
  obtain ⟨index', h', hread, hflags⟩ := @readsValue_transferEncoding { nameRead parser f.name with
    state := .headerValueDiscardWs } _ hs hempty hbyte
  refine ⟨_, index', h', ⟨_, hread, ?_⟩, flagsAfter_coding hnamed parser.flags⟩
  have hsame' : (nameRead parser f.name).flags = parser.flags := by rw [hsame]
  rw [hsame'] at hflags
  simp only [between, length?_of_not_named hnone, hsame, hflags]
  rfl

private theorem effect_options (hnamed : f.namesConnection = true) : Effect parser f := by
  obtain ⟨hconnection, hlength, hcoding, -⟩ := headerState_iff f parser
  obtain ⟨index, h, s, hsame⟩ := nameRead_same parser f.name
  have hs := hconnection.mpr hnamed
  have hnone : f.named "content-length" ≠ true := by
    intro hnamed'
    have hs' := hlength.mpr hnamed'
    rw [hs] at hs'
    cases hs'
  have hother : f.named "transfer-encoding" ≠ true := by
    intro hnamed'
    have hs' := hcoding.mpr hnamed'
    rw [hs] at hs'
    cases hs'
  obtain ⟨index', flags, h', hread, hflags⟩ := @readsValue_connection { nameRead parser f.name with
    state := .headerValueDiscardWs } _ hs hempty
  have hsame' : (nameRead parser f.name).flags = parser.flags := by rw [hsame]
  rw [hsame'] at hflags
  refine ⟨_, index', h', ⟨_, hread, ?_⟩, flagsAfter_options (isChunked_of_not_named hother) hnamed hflags⟩
  simp only [between, length?_of_not_named hnone, hsame]
  rfl

private theorem effect_upgrade (hnamed : f.named "upgrade" = true) : Effect parser f := by
  obtain ⟨-, hlength, hcoding, hupgrade⟩ := headerState_iff f parser
  obtain ⟨index, h, s, hsame⟩ := nameRead_same parser f.name
  have hs := hupgrade.mpr hnamed
  have hnone : f.named "content-length" ≠ true := by
    intro hnamed'
    have hs' := hlength.mpr hnamed'
    rw [hs] at hs'
    cases hs'
  have hother : f.named "transfer-encoding" ≠ true := by
    intro hnamed'
    have hs' := hcoding.mpr hnamed'
    rw [hs] at hs'
    cases hs'
  have hread := @readsValue_upgrade { nameRead parser f.name with
    state := .headerValueDiscardWs } _ hs hempty
  refine ⟨_, 0, .general, ⟨_, hread, ?_⟩,
    flagsAfter_upgrade (isChunked_of_not_named hother) hnamed parser.flags⟩
  simp only [between, valued, length?_of_not_named hnone, hsame]
  rfl

private theorem effect_other (hconnection : f.namesConnection ≠ true) (hlength : f.named "content-length" ≠ true)
    (hcoding : f.named "transfer-encoding" ≠ true) (hupgrade : f.named "upgrade" ≠ true) : Effect parser f := by
  obtain ⟨hconnection', hlength', hcoding', hupgrade'⟩ := headerState_iff f parser
  obtain ⟨index, h, s, hsame⟩ := nameRead_same parser f.name
  have hreads := readsField_of_knows (knows_name f parser)
  have hknown : (nameRead parser f.name).headerState ∉
      [.connection, .contentLength, .transferEncoding, .upgrade] := by
    simp only [List.mem_cons, List.not_mem_nil, or_false, hconnection', hlength', hcoding', hupgrade']
    simp [hconnection, hlength, hcoding, hupgrade]
  have hread := @readsValue_general { nameRead parser f.name with
    state := .headerValueDiscardWs } _ hreads hknown hempty
  refine ⟨parser.flags, 0, .general, ⟨_, hread, ?_⟩, flagsAfter_same (isChunked_of_not_named hcoding) _⟩
  simp only [between, valued, length?_of_not_named hlength, hsame]
  rfl

end Kinds

/-- Every field of the grammar is read, with an effect on the flags and the length only. -/
theorem readsField_effect (hsized : f.Sized (ullongMax - 6)) (parser : Parser) : Effect parser f := by
  by_cases hempty : f.value = []
  · exact effect_empty hempty
  · by_cases hconnection : f.namesConnection = true
    · exact effect_options hempty hconnection
    · by_cases hlength : f.named "content-length" = true
      · exact effect_contentLength hempty hsized hlength
      · by_cases hcoding : f.named "transfer-encoding" = true
        · exact effect_coding hempty hcoding
        · by_cases hupgrade : f.named "upgrade" = true
          · exact effect_upgrade hempty hupgrade
          · exact effect_other hempty hconnection hlength hcoding hupgrade

end Effects

def fieldsCalls (m : Method) : List Field → ℕ → List Callback
  | [], _ => []
  | f :: fields, p => fieldCalls m f p ++ fieldsCalls m fields (p + f.line.length)

private theorem statedLength_getD (f : Field) (fields : List Field) (n : ℕ) :
    (statedLength (f :: fields)).getD n = (statedLength fields).getD (f.length?.getD n) := by
  rw [statedLength]
  cases statedLength fields <;> rfl

theorem statedLength_le {fields : List Field} {top n : ℕ} (hsized : ∀ f ∈ fields, f.Sized top)
    (hstated : statedLength fields = some n) : n ≤ top := by
  induction fields with
  | nil => cases hstated
  | cons f fields ih =>
    rw [statedLength] at hstated
    cases hrest : statedLength fields with
    | some m =>
      rw [hrest] at hstated
      cases hstated
      exact ih (fun f hf => hsized f (List.mem_cons_of_mem _ hf)) hrest
    | none =>
      rw [hrest, Option.none_or, Field.length?] at hstated
      split at hstated
      · rename_i hnamed
        cases hstated
        exact (hsized f List.mem_cons_self hnamed.1).2
      · cases hstated

/-- The fields are read to the start of the line behind them. -/
theorem reads_fields {data : List Char} {fields : List Field} (hsized : ∀ f ∈ fields, f.Sized (ullongMax - 6))
    {r r₀ : Run} (h : Begins data r r₀) (hs : r₀.parser.state = .headerFieldStart)
    (hspells : Spells data r.p (fieldLines fields)) (hroom : Room r (fieldLines fields).length) :
    ∃ r' flags, Reads data r r' ∧ FlagsAfter fields r₀.parser.flags flags ∧
      Begins data r' (told (went r₀ (fieldLines fields).length
        (between r₀.parser flags ((statedLength fields).getD r₀.parser.contentLength)))
          (fieldsCalls r₀.parser.method fields r₀.p)) := by
  induction fields generalizing r r₀ with
  | nil =>
    refine ⟨r, r₀.parser.flags, .refl r, flagsAfter_nil _, ?_⟩
    have hsame : told (went r₀ 0 (between r₀.parser r₀.parser.flags r₀.parser.contentLength)) [] = r₀ := by
      simp only [told, went, between, List.append_nil, Nat.add_zero, ← hs]
    exact hsame.symm ▸ h
  | cons f fields ih =>
    have hlines : fieldLines (f :: fields) = f.line ++ fieldLines fields := rfl
    rw [hlines] at hspells hroom
    rw [List.length_append] at hroom
    obtain ⟨hfirst, hrest⟩ := spells_append.mp hspells
    obtain ⟨flags, index, headerState, hread, hflags⟩ :=
      readsField_effect (hsized f List.mem_cons_self) r₀.parser
    obtain ⟨r₁, hreads₁, hbegins₁⟩ := reads_field h (fun c hc => (token_of_mem f hc).2) hread hfirst
      (hroom.of_le (Nat.le_add_right _ _))
    have hbegins : Begins data r₁ (told (went r₀ f.line.length
        (between r₀.parser flags (f.length?.getD r₀.parser.contentLength)))
          (fieldCalls r₀.parser.method f r₀.p)) :=
      @Begins.same _ _ _ hbegins₁ { between r₀.parser flags (f.length?.getD r₀.parser.contentLength) with
        nread := r₀.parser.nread + f.line.length } _ _ rfl
    have hp : r₁.p = r.p + f.line.length := by
      rw [hbegins.p, h.p]
      rfl
    have hroom₁ : Room r₁ (fieldLines fields).length := by
      have hnread := hbegins.nread
      simp only [told, went] at hnread
      simp only [Room, hnread, h.nread] at hroom ⊢
      omega
    obtain ⟨r', flags', hreads, hflags', hbegins'⟩ := ih (fun f hf => hsized f (List.mem_cons_of_mem _ hf))
      hbegins rfl (hp ▸ hrest) hroom₁
    refine ⟨r', flags', hreads₁.trans hreads, hflags.cons hflags', ?_⟩
    rw [hlines, List.length_append, statedLength_getD]
    simpa only [told, went, between, fieldsCalls, Nat.add_assoc, List.append_assoc] using hbegins'

end OpenSniffer.HttpFieldEffects
