import OpenSniffer.HttpAssertions
import OpenSniffer.HttpFieldLines

/-!
# The names of fields that the parser knows

Each state of the search for a name stands for what has been read: it is a part of a known
name, in small letters, or the start of none.
-/
namespace OpenSniffer.HttpFieldNames
open HttpGrammar HttpParserState HttpParser HttpOpenings HttpRuns HttpInvariants HttpCalls
  HttpAssertions HttpCharacters
open HttpReading HttpFieldLines

/-- A part of the text has been matched, up to the character with this index. -/
structure Progress (text seen : List Char) (index : ℕ) : Prop where
  part : seen <+: text
  short : seen.length < text.length
  index_eq : index + 1 = seen.length

section Matching
variable {text seen : List Char} {index : ℕ} {c : Char}

theorem concat_prefix_iff (hpart : seen <+: text) (hshort : seen.length < text.length) :
    seen ++ [c] <+: text ↔ c = text.getD seen.length nul := by
  obtain ⟨rest, rfl⟩ := hpart
  cases rest with
  | nil => simp at hshort
  | cons d rest => simp [List.prefix_append_right_inj, List.cons_prefix_cons]

/-- The next character of a text that is being matched. -/
theorem matching_eq (h : Progress text seen index) (hlen : text.length < 256)
    (miss matched same : HeaderState) :
    matching text ((index + 1) % 256) c miss matched same =
      if seen ++ [c] = text then matched else if seen ++ [c] <+: text then same else miss := by
  have hshort := h.short
  have hmod : (index + 1) % 256 = seen.length := by
    rw [h.index_eq]
    exact Nat.mod_eq_of_lt (by omega)
  have hle : ¬ seen.length > text.length := by omega
  have hnext := concat_prefix_iff (c := c) h.part hshort
  rw [hmod, matching]
  by_cases hc : c = text.getD seen.length nul
  · have hpart := hnext.mpr hc
    have hmiss : ¬ (seen.length > text.length ∨ c ≠ text.getD seen.length nul) := by
      rintro (hgt | hne)
      · exact hle hgt
      · exact hne hc
    have hlength : (seen ++ [c]).length = seen.length + 1 := List.length_append
    rw [if_neg hmiss, if_pos hpart]
    by_cases hend : seen.length + 1 = text.length
    · rw [if_pos hend, if_pos (hpart.eq_of_length (hlength.trans hend))]
    · have hne : seen ++ [c] ≠ text := by
        intro heq
        rw [heq] at hlength
        exact hend hlength.symm
      rw [if_neg hend, if_neg hne]
  · have hpart : ¬ seen ++ [c] <+: text := fun h => hc (hnext.mp h)
    have hne : seen ++ [c] ≠ text := fun h => hpart (h ▸ List.prefix_refl _)
    rw [if_pos (.inr hc), if_neg hne, if_neg hpart]

theorem Progress.concat (h : Progress text seen index) (hlen : text.length < 256)
    (hpart : seen ++ [c] <+: text) (hne : seen ++ [c] ≠ text) :
    Progress text (seen ++ [c]) ((index + 1) % 256) := by
  have hlength : (seen ++ [c]).length = seen.length + 1 := List.length_append
  have hshort := hpart.length_le
  have hindex := h.index_eq
  refine ⟨hpart, ?_, ?_⟩
  · exact Nat.lt_of_le_of_ne hshort fun heq => hne (hpart.eq_of_length heq)
  · rw [Nat.mod_eq_of_lt (by omega)]
    omega

end Matching

def knownNames : List (List Char) :=
  ["connection".toList, "proxy-connection".toList, "content-length".toList,
    "transfer-encoding".toList, "upgrade".toList]

/-- What has been read of a name, in small letters, when the search is in a state. -/
def Knows (h : HeaderState) (index : ℕ) (seen : List Char) : Prop :=
  match h with
  | .general => ∀ text ∈ knownNames, ¬ seen <+: text
  | .c => seen = "c".toList ∧ index = 0
  | .co => seen = "co".toList ∧ index = 1
  | .con => seen = "con".toList ∧ index = 2
  | .matchingConnection => "conn".toList <+: seen ∧ Progress "connection".toList seen index
  | .matchingProxyConnection => "p".toList <+: seen ∧ Progress "proxy-connection".toList seen index
  | .matchingContentLength => "cont".toList <+: seen ∧ Progress "content-length".toList seen index
  | .matchingTransferEncoding => "t".toList <+: seen ∧ Progress "transfer-encoding".toList seen index
  | .matchingUpgrade => "u".toList <+: seen ∧ Progress "upgrade".toList seen index
  | .connection => seen = "connection".toList ∨ seen = "proxy-connection".toList
  | .contentLength => seen = "content-length".toList
  | .transferEncoding => seen = "transfer-encoding".toList
  | .upgrade => seen = "upgrade".toList
  | _ => False

section Names
variable {seen : List Char} {index : ℕ} {c : Char}

theorem knows_matching {text first : List Char} {matched same : HeaderState}
    (hfirst : first <+: seen) (h : Progress text seen index) (hlen : text.length < 256)
    (hother : ∀ other ∈ knownNames, first <+: other → other = text)
    (hmatched : ∀ index, Knows matched index text)
    (hsame : ∀ index seen, first <+: seen → Progress text seen index → Knows same index seen) :
    Knows (matching text ((index + 1) % 256) c .general matched same) ((index + 1) % 256) (seen ++ [c]) := by
  have hfirst' : first <+: seen ++ [c] := hfirst.trans (List.prefix_append _ _)
  rw [matching_eq h hlen]
  split
  · rename_i heq
    rw [heq]
    exact hmatched _
  · rename_i hne
    split
    · rename_i hpart
      exact hsame _ _ hfirst' (h.concat hlen hpart hne)
    · rename_i hmiss
      intro other hmem hpart
      have heq := hother other hmem (hfirst'.trans hpart)
      exact hmiss (heq ▸ hpart)

/-- A character that goes on with no known name. -/
theorem knows_general (next : List Char)
    (hnext : ∀ text ∈ knownNames, seen <+: text → seen.length < text.length → text.getD seen.length nul ∈ next)
    (hc : c ∉ next) : Knows .general index (seen ++ [c]) := by
  intro text hmem hpart
  have hseen := (List.prefix_append _ _).trans hpart
  have hshort := hpart.length_le
  rw [List.length_append, List.length_singleton] at hshort
  apply hc
  rw [(concat_prefix_iff hseen hshort).mp hpart]
  exact hnext text hmem hseen hshort

private theorem knows_headerFieldChar {parser : Parser} {ch : Char} (hch : ch ≠ ' ')
    (h : Knows parser.headerState parser.index seen) :
    Knows (headerFieldChar parser ch c).headerState (headerFieldChar parser ch c).index (seen ++ [c]) := by
  cases hs : parser.headerState <;> rw [hs] at h <;> simp only [headerFieldChar, hs, if_pos hch]
  case general =>
    intro text hmem hpart
    exact h text hmem ((List.prefix_append _ _).trans hpart)
  case c =>
    obtain ⟨rfl, hindex⟩ := h
    rw [hindex]
    split
    · rename_i hc
      rw [hc]
      exact ⟨rfl, rfl⟩
    · rename_i hc
      exact knows_general ['o'] (by decide) (by simpa using hc)
  case co =>
    obtain ⟨rfl, hindex⟩ := h
    rw [hindex]
    split
    · rename_i hc
      rw [hc]
      exact ⟨rfl, rfl⟩
    · rename_i hc
      exact knows_general ['n'] (by decide) (by simpa using hc)
  case con =>
    obtain ⟨rfl, hindex⟩ := h
    rw [hindex]
    split
    · rename_i hc
      rw [hc]
      exact ⟨by decide, ⟨by decide, by decide, rfl⟩⟩
    · rename_i hn
      split
      · rename_i hc
        rw [hc]
        exact ⟨by decide, ⟨by decide, by decide, rfl⟩⟩
      · rename_i ht
        exact knows_general ['n', 't'] (by decide) (by simp [hn, ht])
  case matchingConnection =>
    exact knows_matching h.1 h.2 (by decide) (by decide) (fun _ => .inl rfl) fun _ _ => .intro
  case matchingProxyConnection =>
    exact knows_matching h.1 h.2 (by decide) (by decide) (fun _ => .inr rfl) fun _ _ => .intro
  case matchingContentLength =>
    exact knows_matching h.1 h.2 (by decide) (by decide) (fun _ => rfl) fun _ _ => .intro
  case matchingTransferEncoding =>
    exact knows_matching h.1 h.2 (by decide) (by decide) (fun _ => rfl) fun _ _ => .intro
  case matchingUpgrade =>
    exact knows_matching h.1 h.2 (by decide) (by decide) (fun _ => rfl) fun _ _ => .intro
  case connection =>
    rcases h with rfl | rfl
    · exact knows_general [] (by decide) List.not_mem_nil
    · exact knows_general [] (by decide) List.not_mem_nil
  case contentLength =>
    subst h
    exact knows_general [] (by decide) List.not_mem_nil
  case transferEncoding =>
    subst h
    exact knows_general [] (by decide) List.not_mem_nil
  case upgrade =>
    subst h
    exact knows_general [] (by decide) List.not_mem_nil
  all_goals exact h.elim

private theorem knows_firstState (c : Char) : Knows (firstState c) 0 [token c] := by
  unfold firstState
  split
  · rename_i hc
    rw [hc]
    exact ⟨rfl, rfl⟩
  · rename_i hc
    rw [hc]
    exact ⟨by decide, ⟨by decide, by decide, rfl⟩⟩
  · rename_i hc
    rw [hc]
    exact ⟨by decide, ⟨by decide, by decide, rfl⟩⟩
  · rename_i hc
    rw [hc]
    exact ⟨by decide, ⟨by decide, by decide, rfl⟩⟩
  · rename_i hc hp ht hu
    have hother : token c ∉ ['c', 'p', 't', 'u'] := by
      simp only [List.mem_cons, List.not_mem_nil, or_false, not_or]
      exact ⟨hc, hp, ht, hu⟩
    exact @knows_general [] 0 (token c) _ (by decide) hother

private theorem knows_fieldRead {parser : Parser} {name : List Char} (hname : ∀ c ∈ name, token c ≠ nul)
    (h : Knows parser.headerState parser.index seen) :
    Knows (fieldRead parser name).headerState (fieldRead parser name).index (seen ++ name.map token) := by
  induction name generalizing parser seen with
  | nil =>
    rw [List.map_nil, List.append_nil]
    exact h
  | cons c name ih =>
    have hspace : c ≠ ' ' := by
      rintro rfl
      exact hname ' ' List.mem_cons_self rfl
    have hrest := ih (fun c hc => hname c (List.mem_cons_of_mem _ hc))
      (knows_headerFieldChar (c := token c) hspace h)
    rw [List.append_assoc] at hrest
    exact hrest

private theorem knows_nameRead (parser : Parser) {name : List Char} (hne : name ≠ [])
    (hname : ∀ c ∈ name, token c ≠ nul) :
    Knows (nameRead parser name).headerState (nameRead parser name).index (name.map token) := by
  cases name with
  | nil => exact absurd rfl hne
  | cons c name =>
    exact @knows_fieldRead [token c] { parser with index := 0, headerState := firstState c, state := .headerField }
      name (fun c hc => hname c (List.mem_cons_of_mem _ hc)) (knows_firstState c)

def knownState (text : List Char) : HeaderState :=
  if text = "content-length".toList then .contentLength
  else if text = "transfer-encoding".toList then .transferEncoding
  else if text = "upgrade".toList then .upgrade
  else .connection

private theorem eq_knownState {h : HeaderState} (hknows : Knows h index seen) (hmem : seen ∈ knownNames) :
    h = knownState seen := by
  simp only [knownNames, List.mem_cons, List.not_mem_nil, or_false] at hmem
  have hself : ∀ text ∈ knownNames, ¬ Knows .general index text :=
    fun text hmem h => h text hmem (List.prefix_refl text)
  rcases hmem with rfl | rfl | rfl | rfl | rfl <;> cases h <;> first
    | rfl
    | exact absurd hknows (hself _ (by decide))
    | exact absurd hknows.1 (by decide)
    | exact absurd hknows.2.short (by decide)
    | exact absurd (id hknows : _ = _) (by decide)
    | exact absurd (id hknows : _ = _ ∨ _ = _) (by decide)
    | exact False.elim hknows

/-- The parser knows the name of a connection's field, and the others as they are. -/
theorem knownState_iff {h : HeaderState} (hknows : Knows h index seen) :
    (h = .connection ↔ seen = "connection".toList ∨ seen = "proxy-connection".toList) ∧
      (h = .contentLength ↔ seen = "content-length".toList) ∧
      (h = .transferEncoding ↔ seen = "transfer-encoding".toList) ∧
      (h = .upgrade ↔ seen = "upgrade".toList) := by
  have hstate := eq_knownState hknows
  refine ⟨⟨?_, ?_⟩, ⟨?_, ?_⟩, ⟨?_, ?_⟩, ⟨?_, ?_⟩⟩
  · rintro rfl
    exact hknows
  · rintro (rfl | rfl) <;> exact hstate (by decide)
  · rintro rfl
    exact hknows
  · rintro rfl
    exact hstate (by decide)
  · rintro rfl
    exact hknows
  · rintro rfl
    exact hstate (by decide)
  · rintro rfl
    exact hknows
  · rintro rfl
    exact hstate (by decide)

theorem readsField_of_knows {h : HeaderState} (hknows : Knows h index seen) : readsField h = true := by
  cases h <;> first | rfl | exact hknows.elim

end Names

section Fields
variable (f : Field)

theorem token_of_mem {c : Char} (hc : c ∈ f.name) : token c = c.toLower ∧ token c ≠ nul := by
  have htoken := f.name_token c hc
  have hbyte := toNat_lt_of_isTokenChar htoken
  exact ⟨(sortedAlike hbyte).token_eq_toLower htoken, (sortedAlike hbyte).token_ne_nul_iff.mpr htoken⟩

theorem knows_name (parser : Parser) : Knows (nameRead parser f.name).headerState
    (nameRead parser f.name).index (f.name.map Char.toLower) := by
  have hmap : f.name.map token = f.name.map Char.toLower :=
    List.map_congr_left fun c hc => (token_of_mem f hc).1
  rw [← hmap]
  exact knows_nameRead parser f.name_ne fun c hc => (token_of_mem f hc).2

/-- Behind its name the parser knows which field it is. -/
theorem headerState_iff (parser : Parser) :
    ((nameRead parser f.name).headerState = .connection ↔ f.namesConnection = true) ∧
      ((nameRead parser f.name).headerState = .contentLength ↔ f.named "content-length" = true) ∧
      ((nameRead parser f.name).headerState = .transferEncoding ↔ f.named "transfer-encoding" = true) ∧
      ((nameRead parser f.name).headerState = .upgrade ↔ f.named "upgrade" = true) := by
  simp only [Field.namesConnection, Field.named, Bool.or_eq_true, decide_eq_true_eq]
  exact knownState_iff (knows_name f parser)

end Fields

section Data
variable {data : List Char} {r : Run}

/-- The states in which a line of a head or a trailer starts: the first one, one behind a
value, and one behind an empty value. -/
def startsLine (s : State) : Prop :=
  s = .headerFieldStart ∨ s = .headerValueLws ∨ s = .headerValueDiscardLws

/-- What the value before the line is due for: its effect on the flags. -/
def dueFlags (parser : Parser) : Flags :=
  if parser.state = .headerFieldStart then parser.flags else headerFlags parser.headerState parser.flags

/-- An empty value before the line is told at its start. -/
def dueCalls (r : Run) : List Callback :=
  if r.parser.state = .headerValueDiscardLws then [⟨.headerValue, r.p, 0, r.parser.method⟩] else []

/-- The run at the start of the line, when what is due has been done. -/
def settled (r : Run) : Run :=
  (told r (dueCalls r)).update { r.parser with flags := dueFlags r.parser, state := .headerFieldStart }

private theorem closed_of_visits {t : ParserType} {chunks : List (List Char)}
    (h : Visits (fed (httpParserInit t) chunks) data r) (hs : pieceOf r.parser.state = none) :
    r.marks = only none := by
  obtain ⟨hok, -, hreaches⟩ := h
  rcases fed_live (httpParserInit_live t) chunks with herror | ⟨hhealthy, hready⟩
  · exact absurd hok herror
  · obtain ⟨opened, last, hat, hfits⟩ := hreaches.keeps scan_keeps (startRun_sound hhealthy hready)
    rw [hat.marks, closed_of_opens hfits.opens hs]

/-- Wherever a line starts the parser goes on as from the start of a field. -/
theorem begins_settled (hs : startsLine r.parser.state) (hmarks : r.marks = only none) :
    Begins data r (settled r) := by
  rcases hs with hs | hs | hs
  · have hsettled : settled r = r := by
      simp only [settled, dueFlags, dueCalls, hs, if_true, reduceCtorEq, if_false, told, List.append_nil]
      rw [← hs]
      rfl
    rw [hsettled]
    exact begins_headerFieldStart hs hmarks
  · have hbegins := @begins_headerValueLws data r r.parser (by rw [← hs]) hmarks
    simp only [settled, dueFlags, dueCalls, hs, reduceCtorEq, if_false, told, List.append_nil]
    exact hbegins
  · have hbegins := @begins_headerValueDiscardLws data r r.parser (by rw [← hs]) hmarks
    simp only [settled, dueFlags, dueCalls, hs, reduceCtorEq, if_true, if_false]
    exact hbegins

def proxyField : Field where
  name := "Proxy-CONNECTION".toList
  space := []
  value := "close".toList
  name_ne := by decide
  name_token := by decide
  space_blank := blank_nil
  value_line := by decide
  value_start := by decide

def chunkedLines : List Char := "POST / HTTP/1.1\r\nTransfer-Encoding: chunked\r\n".toList

end Data
end OpenSniffer.HttpFieldNames
