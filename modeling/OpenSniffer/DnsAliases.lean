import OpenSniffer.DnsRecords

/-!
# The aliases of a dump

The alias that is shown behind the number of an answer is the name that `dn_expand` makes
of the bytes behind the fields the loop has read for it.
-/
namespace OpenSniffer.DnsAliases
open Packets TextFormats CompressedNames DnsExpansion DnsDissector DnsCursor DnsLayout DnsRecords
  TracedReads TracedReads.Traced

/-- The line of an answer's number and type, and that of an alias. -/
def answerLine (i : ℕ) (type : String) : Line :=
  .printf (underlined "Response #%zu (%s)\n") [.int (i + 1), .text type]

def aliasLine (text : Bytes) : Line := .printf aliasFormat [.str (some text)]

/-- Right behind the line of answer `i` stands the alias `text`. -/
def ShowsAlias (lines : List Line) (i : ℕ) (text : Bytes) : Prop :=
  ∃ type, [answerLine i type, aliasLine text] <:+: lines

theorem pair_infix_append {α : Type} {a b : α} {front : List α} (h : a ∉ front) (rest : List α) :
    [a, b] <:+: front ++ rest ↔ [a, b] <:+: rest := by
  induction front with
  | nil => rfl
  | cons x front ih =>
    rw [List.mem_cons, not_or] at h
    rw [List.cons_append, List.infix_cons_iff, ih h.2]
    refine or_iff_right fun hprefix => ?_
    exact h.1 (List.cons_prefix_cons.mp hprefix).1

/-- A line that is neither an answer's nor an alias. -/
def Plain (line : Line) : Prop := ∀ i type text, line ≠ answerLine i type ∧ line ≠ aliasLine text

theorem plain_printf {format : String} (hanswer : format ≠ underlined "Response #%zu (%s)\n")
    (halias : format ≠ aliasFormat) (args : List Arg) : Plain (.printf format args) := by
  intro i type text
  refine ⟨fun h => ?_, fun h => ?_⟩
  · exact hanswer (Line.printf.inj h).1
  · exact halias (Line.printf.inj h).1

private theorem answerLine_inj {i k : ℕ} {name name' : String} (h : answerLine k name = answerLine i name') :
    k = i ∧ name = name' := by
  obtain ⟨hnumber, hname⟩ := List.cons.inj (Line.printf.inj h).2
  have hsucc := Arg.int.inj hnumber
  exact ⟨by omega, Arg.text.inj (List.cons.inj hname).1⟩

theorem plain_nameLines (names : List Bytes) :
    ∀ line ∈ names.map (nameLine "Query address : %s\n"), Plain line := by
  intro line hline
  obtain ⟨name, -, rfl⟩ := List.mem_map.mp hline
  exact plain_printf (by decide) (by decide) _

theorem plain_footer : ∀ line ∈ outputFooter.outputs, Plain line := by
  intro line hline
  obtain rfl := List.mem_singleton.mp hline
  exact fun _ _ _ => ⟨nofun, nofun⟩

theorem not_answerLine_mem {lines : List Line} (h : ∀ line ∈ lines, Plain line) (i : ℕ) (name : String) :
    answerLine i name ∉ lines := fun hmem => (h _ hmem i name []).1 rfl

theorem not_showsAlias_of_plain {lines : List Line} (h : ∀ line ∈ lines, Plain line) (i : ℕ) (text : Bytes) :
    ¬ ShowsAlias lines i text := by
  rintro ⟨name, hpair⟩
  exact not_answerLine_mem h i name (hpair.subset List.mem_cons_self)

section Shown
variable [Memory] {packet : Packet}

theorem dumpAnswerData_cases (type data : ℕ) :
    (IsAlias type ∧ (dumpAnswerData packet type data).outputs = [.printf aliasFormat [aliasArg packet data]]) ∨
      (¬ IsAlias type ∧ ∀ line ∈ (dumpAnswerData packet type data).outputs, Plain line) := by
  by_cases halias : IsAlias type
  · exact Or.inl ⟨halias, (dumpAnswerData_alias halias data).2⟩
  refine Or.inr ⟨halias, ?_⟩
  rw [dumpAnswerData]
  by_cases ha : type = nsTA
  · rw [if_pos ha]
    intro line hline
    obtain rfl := List.mem_singleton.mp hline
    exact plain_printf (by decide) (by decide) _
  by_cases haaaa : type = nsTAaaa
  · rw [if_neg ha, if_pos haaaa]
    intro line hline
    obtain rfl := List.mem_singleton.mp hline
    exact plain_printf (by decide) (by decide) _
  · rw [if_neg ha, if_neg haaaa, if_neg halias]
    intro line hline
    cases hline

variable (packet) in
def answerLines (cursors : List ℕ) (i : ℕ) : List Line :=
  (cursors.zipIdx i).flatMap fun c => (dumpAnswer packet c.2 c.1).outputs

theorem answerLines_cons (c : ℕ) (cursors : List ℕ) (i : ℕ) :
    answerLines packet (c :: cursors) i =
      answerLine i (dnsDissectorTypeToString (answerType packet c)) ::
        ((dumpAnswerData packet (answerType packet c) (answerData packet c)).outputs ++
          answerLines packet cursors (i + 1)) := by
  rw [answerLines, List.zipIdx_cons, List.flatMap_cons, dumpAnswer_outputs]
  rfl

/-- What follows the lines of one answer does not begin with an alias. -/
theorem not_alias_prefix (text : Bytes) (cursors : List ℕ) (i : ℕ) {back : List Line}
    (hback : ∀ line ∈ back, Plain line) : ¬ [aliasLine text] <+: answerLines packet cursors i ++ back := by
  intro h
  cases cursors with
  | nil =>
    have hmem := h.subset List.mem_cons_self
    exact (hback _ hmem 0 "" text).2 rfl
  | cons c cursors =>
    rw [answerLines_cons, List.cons_append, List.cons_prefix_cons] at h
    exact absurd (Line.printf.inj h.1).1 (by decide)

private theorem alias_prefix_iff (text : Bytes) (type data : ℕ) (cursors : List ℕ) (i : ℕ) {back : List Line}
    (hback : ∀ line ∈ back, Plain line) :
    [aliasLine text] <+: (dumpAnswerData packet type data).outputs ++
        (answerLines packet cursors i ++ back) ↔
      IsAlias type ∧ aliasArg packet data = .str (some text) := by
  rcases dumpAnswerData_cases type data with ⟨halias, hlines⟩ | ⟨hother, hplain⟩
  · rw [hlines, List.cons_append, List.cons_prefix_cons, aliasLine]
    constructor
    · rintro ⟨hline, -⟩
      exact ⟨halias, (List.cons.inj (Line.printf.inj hline).2).1.symm⟩
    · rintro ⟨-, harg⟩
      rw [harg]
      exact ⟨rfl, List.nil_prefix⟩
  · refine iff_of_false ?_ (fun h => hother h.1)
    cases hlines : (dumpAnswerData packet type data).outputs with
    | nil => exact not_alias_prefix text cursors i hback
    | cons line lines =>
      intro h
      rw [List.cons_append, List.cons_prefix_cons] at h
      exact (hplain line (hlines ▸ List.mem_cons_self) 0 "" text).2 h.1.symm

private theorem answerLine_not_mem (k : ℕ) (name : String) (type data : ℕ) :
    answerLine k name ∉ (dumpAnswerData packet type data).outputs := by
  intro h
  rcases @dumpAnswerData_cases _ packet type data with ⟨-, hlines⟩ | ⟨-, hplain⟩
  · rw [hlines] at h
    exact absurd (Line.printf.inj (List.mem_singleton.mp h)).1 (by decide)
  · exact (hplain _ h k name []).1 rfl

/-- An alias is shown behind the number of an answer exactly when the answer there has it. -/
theorem pair_infix_answerLines (text : Bytes) (name : String) (k : ℕ) (cursors : List ℕ) (i : ℕ)
    {back : List Line} (hback : ∀ line ∈ back, Plain line) :
    [answerLine k name, aliasLine text] <:+: answerLines packet cursors i ++ back ↔
      ∃ n c, i + n = k ∧ cursors[n]? = some c ∧ name = dnsDissectorTypeToString (answerType packet c) ∧
        IsAlias (answerType packet c) ∧ aliasArg packet (answerData packet c) = .str (some text) := by
  induction cursors generalizing i with
  | nil =>
    refine iff_of_false (fun h => ?_) (by simp)
    have hmem := h.subset List.mem_cons_self
    exact (hback _ hmem k name []).1 rfl
  | cons c cursors ih =>
    rw [answerLines_cons, List.cons_append, List.infix_cons_iff, List.append_assoc,
      List.cons_prefix_cons, alias_prefix_iff text _ _ _ _ hback,
      pair_infix_append (answerLine_not_mem k name _ _), ih]
    constructor
    · rintro (⟨hline, halias, harg⟩ | ⟨n, c', rfl, hc', hrest⟩)
      · obtain ⟨rfl, rfl⟩ := answerLine_inj hline
        exact ⟨0, c, rfl, rfl, rfl, halias, harg⟩
      · exact ⟨n + 1, c', by omega, hc', hrest⟩
    · rintro ⟨n, c', hn, hc', hname, hrest⟩
      cases n with
      | zero =>
        obtain rfl : c = c' := by simpa using hc'
        obtain rfl : i = k := hn
        exact Or.inl ⟨hname ▸ rfl, hrest⟩
      | succ n => exact Or.inr ⟨n, c', by omega, hc', hname, hrest⟩

theorem plain_openingLines : ∀ line ∈ openingLines packet, Plain line := by
  intro line hline
  rcases List.mem_append.mp hline with hline | hline
  · obtain rfl := List.mem_singleton.mp hline
    exact fun _ _ _ => ⟨nofun, nofun⟩
  · rcases List.mem_cons.mp hline with rfl | hline
    · exact plain_printf (by decide) (by decide) _
    · obtain rfl := List.mem_singleton.mp hline
      exact plain_printf (by decide) (by decide) _

theorem plain_countLines : ∀ line ∈ countLines packet, Plain line := by
  intro line hline
  simp only [countLines, List.mem_cons, List.not_mem_nil, or_false] at hline
  rcases hline with rfl | rfl | rfl | rfl | rfl <;> exact plain_printf (by decide) (by decide) _

variable (packet) in
/-- The lines before those of the answers, behind question names that end at `data`. -/
def frontLines (data : ℕ) : List Line :=
  openingLines packet ++ countLines packet ++
    (questionNames packet (packet.be16 4) sizeofDnshdr).map (nameLine "Query address : %s\n") ++
      [typeLine packet data]

private theorem plain_frontLines (data : ℕ) : ∀ line ∈ frontLines packet data, Plain line := by
  intro line hline
  simp only [frontLines, List.mem_append] at hline
  rcases hline with ((hline | hline) | hline) | hline
  · exact plain_openingLines line hline
  · exact plain_countLines line hline
  · exact plain_nameLines _ line hline
  · obtain rfl := List.mem_singleton.mp hline
    exact plain_printf (by decide) (by decide) _

/-- The dump of a response shows for an answer the expansion of the target name it finds. -/
theorem showsAlias_iff (h : (dnsDissectorHandles packet).value = true)
    (hqr : (packet.byte 2).toNat / 128 ≠ 0) (i : ℕ) (text : Bytes) :
    ShowsAlias (dnsDissectorDump packet).outputs i text ↔ ∃ c, (answers packet)[i]? = some c ∧
      IsAlias (answerType packet c) ∧ aliasArg packet (answerData packet c) = .str (some text) := by
  rw [dnsDissectorDump_outputs h, answers]
  by_cases hcode : (packet.byte 3).toNat % 16 = 0
  · rw [if_neg (not_not.mpr hcode), if_neg (not_not.mpr hcode), dumpMessage_of_response hqr,
      dumpResponse_outputs]
    cases hend : questionsEnd packet (packet.be16 4) sizeofDnshdr with
    | none =>
      refine iff_of_false (not_showsAlias_of_plain (fun line hline => ?_) i text) (by simp)
      simp only [Option.elim_none, List.append_nil, List.mem_append] at hline
      rcases hline with hline | (hline | hline) | hline
      · exact plain_openingLines line hline
      · exact plain_countLines line hline
      · exact plain_nameLines _ line hline
      · exact plain_footer line hline
    | some data =>
      have hsplit : openingLines packet ++
          (countLines packet ++ ((questionNames packet (packet.be16 4) sizeofDnshdr).map
            (nameLine "Query address : %s\n") ++ typeLine packet data ::
              (dumpAnswers packet (packet.be16 6) 0 (data + 4)).outputs) ++ outputFooter.outputs) =
          frontLines packet data ++
            (answerLines packet (answerCursors packet (packet.be16 6) (data + 4)) 0 ++
              outputFooter.outputs) := by
        rw [dumpAnswers_outputs, ← answerLines]
        simp only [frontLines, List.append_assoc, List.cons_append, List.nil_append]
      rw [Option.elim_some, Option.elim_some, hsplit, ShowsAlias]
      simp only [pair_infix_append (not_answerLine_mem (plain_frontLines data) i _),
        pair_infix_answerLines text _ i _ 0 plain_footer]
      constructor
      · rintro ⟨_, n, c, rfl, hc, -, hshown⟩
        exact ⟨c, (Nat.zero_add n).symm ▸ hc, hshown⟩
      · rintro ⟨c, hc, hshown⟩
        exact ⟨_, i, c, Nat.zero_add i, hc, rfl, hshown⟩
  · rw [if_pos hcode, if_pos hcode]
    refine iff_of_false (not_showsAlias_of_plain (fun line hline => ?_) i text) (by simp)
    rcases List.mem_append.mp hline with hline | hline
    · exact plain_openingLines line hline
    · obtain rfl := List.mem_singleton.mp hline
      exact plain_printf (by decide) (by decide) _

end Shown

section Names
variable [Memory] (packet : Packet)

/-- The labels that `dn_expand` reads at `p`, and in how many steps. Behind the packet it
takes a zero byte or a pointer, from wherever memory has them. -/
inductive ReadAt (p : ℕ) : List Label → ℕ → Prop
  | inside {shown : List Label} {steps width : ℕ}
      (h : Spells packet.byte (fromBase sizeofDnshdr) packet.size p shown steps width) : ReadAt p shown steps
  | zeroBehind (behind : packet.size < p) (zero : packet.byte p = 0) : ReadAt p [] 1
  | pointerBehind {shown : List Label} {steps width : ℕ} (behind : packet.size < p)
      (opens : 64 ≤ (packet.byte p).toNat)
      (rest : Spells packet.byte (fromBase sizeofDnshdr) packet.size
        (sizeofDnshdr + offset (packet.byte p) (packet.byte (p + 1))) shown steps width) :
      ReadAt p shown (steps + 1)

/-- The labels at `p` are within the limits of `dn_expand`, and `%s` prints them as `text`. -/
def PrintsAs (p : ℕ) (text : Bytes) : Prop :=
  ∃ shown steps, ReadAt packet p shown steps ∧ steps ≤ passes sizeofDnshdr packet.size ∧
    (dotted shown).length < 254 ∧ cString (dotted shown ++ [0]) = text

/-- The type of answer `i` is looked for at `z`. -/
def FindsType (i z : ℕ) : Prop := ∃ c, ComesTo packet i c ∧ StringTo packet c z

variable {packet} {p : ℕ}

theorem readAt_inside (hp : p ≤ packet.size) {shown : List Label} {steps : ℕ} :
    ReadAt packet p shown steps ↔
      ∃ width, Spells packet.byte (fromBase sizeofDnshdr) packet.size p shown steps width := by
  constructor
  · intro h
    cases h with
    | inside h => exact ⟨_, h⟩
    | zeroBehind behind _ => omega
    | pointerBehind behind _ _ => omega
  · rintro ⟨width, h⟩
    exact .inside h

theorem ReadAt.steps_pos {shown : List Label} {steps : ℕ} (h : ReadAt packet p shown steps) : 0 < steps := by
  cases h with
  | inside h => exact h.steps_pos
  | zeroBehind _ _ => exact Nat.one_pos
  | pointerBehind _ _ _ => exact Nat.succ_pos _

private theorem readAt_behind_pointer (hp : packet.size < p) (hopens : 64 ≤ (packet.byte p).toNat)
    {shown : List Label} {steps : ℕ} : ReadAt packet p shown steps ↔ ∃ steps' width, steps = steps' + 1 ∧
      Spells packet.byte (fromBase sizeofDnshdr) packet.size
        (sizeofDnshdr + offset (packet.byte p) (packet.byte (p + 1))) shown steps' width := by
  constructor
  · intro h
    cases h with
    | inside h => exact absurd h.lt_fin (Nat.not_lt.mpr (Nat.le_of_lt hp))
    | zeroBehind _ zero =>
      rw [zero] at hopens
      exact absurd hopens (by decide)
    | pointerBehind _ _ rest => exact ⟨_, _, rfl, rest⟩
  · rintro ⟨steps', width, rfl, rest⟩
    exact .pointerBehind hp hopens rest

private theorem readAt_behind_zero (hp : packet.size < p) (hzero : packet.byte p = 0) {shown : List Label}
    {steps : ℕ} : ReadAt packet p shown steps ↔ shown = [] ∧ steps = 1 := by
  constructor
  · intro h
    cases h with
    | inside h => exact absurd h.lt_fin (Nat.not_lt.mpr (Nat.le_of_lt hp))
    | zeroBehind _ _ => exact ⟨rfl, rfl⟩
    | pointerBehind _ opens _ =>
      rw [hzero] at opens
      exact absurd opens (by decide)
  · rintro ⟨rfl, rfl⟩
    exact .zeroBehind hp hzero

private theorem not_readAt_behind_label (hp : packet.size < p) {l : Label} (hl : Holds packet.byte p l.wire)
    (shown : List Label) (steps : ℕ) : ¬ ReadAt packet p shown steps := by
  have hlen := Spells.toNat_of_label hl
  have hpos := l.nonempty
  have hshort := l.short
  intro h
  cases h with
  | inside h => exact absurd h.lt_fin (Nat.not_lt.mpr (Nat.le_of_lt hp))
  | zeroBehind _ zero =>
    rw [zero] at hlen
    exact absurd hlen.symm (Nat.ne_of_gt hpos)
  | pointerBehind _ opens _ => omega

/-- The cursor may stand behind the packet, where a length of its own bounds nothing. -/
private theorem expandAt_behind (hp : packet.size < p) :
    expandAt packet p = (dnExpandLoop packet sizeofDnshdr packet.size p (room maxNameLength)
      (passes sizeofDnshdr packet.size) ⟨p, [], none⟩).value := by
  rw [expandAt, dnExpand, if_neg (by rw [maxNameLength]; omega)]

private theorem pointer_behind_readAt (hp : packet.size < p) (hopens : 64 ≤ (packet.byte p).toNat)
    (n : ℕ) (d : Bytes) :
    (∃ width, (dnExpandLoop packet sizeofDnshdr packet.size p (room maxNameLength) (n + 1)
        ⟨p, [], none⟩).value = (some width, d)) ↔ ∃ shown steps, ReadAt packet p shown steps ∧
      steps ≤ n + 1 ∧ (dotted shown).length < room maxNameLength ∧ d = dotted shown ++ [0] := by
  simp only [readAt_behind_pointer hp hopens]
  rw [dnExpandLoop, Traced.value_bind, dnExpandPass_pointer hopens]
  by_cases hin : packet.size - sizeofDnshdr ≤ offset (packet.byte p) (packet.byte (p + 1))
  · rw [if_pos (Or.inr hin)]
    refine iff_of_false (by simp) ?_
    rintro ⟨shown, _, ⟨steps, width, rfl, hspells⟩, -⟩
    have htarget := hspells.lt_fin
    omega
  · rw [if_neg (by dsimp only; omega)]
    have hbounds : Expansion.InBounds sizeofDnshdr packet.size (room maxNameLength)
        ⟨sizeofDnshdr + offset (packet.byte p) (packet.byte (p + 1)), [], some (p + 2 - p)⟩ :=
      ⟨Nat.le_add_right _ _, by dsimp only; omega, (by decide : 0 < room maxNameLength)⟩
    constructor
    · rintro ⟨width, h⟩
      obtain ⟨shown, steps, width', hspells, hsteps, hlen, -, hd⟩ :=
        (dnExpandLoop_iff n hbounds width d).mp h
      rw [foldl_extend_nil] at hlen hd
      exact ⟨shown, steps + 1, ⟨steps, width', rfl, hspells⟩, by omega, hlen, hd⟩
    · rintro ⟨shown, _, ⟨steps, width', rfl, hspells⟩, hsteps, hlen, hd⟩
      rw [← foldl_extend_nil] at hlen hd
      exact ⟨_, (dnExpandLoop_iff n hbounds _ d).mpr
        ⟨shown, steps, width', hspells, by omega, hlen, rfl, hd⟩⟩

private theorem loop_behind_readAt (hp : packet.size < p) (n : ℕ) (d : Bytes) :
    (∃ width, (dnExpandLoop packet sizeofDnshdr packet.size p (room maxNameLength) n
        ⟨p, [], none⟩).value = (some width, d)) ↔ ∃ shown steps, ReadAt packet p shown steps ∧
      steps ≤ n ∧ (dotted shown).length < room maxNameLength ∧ d = dotted shown ++ [0] := by
  cases n with
  | zero =>
    refine iff_of_false (by simp [dnExpandLoop]) ?_
    rintro ⟨shown, steps, hread, hsteps, -⟩
    have := hread.steps_pos
    omega
  | succ n =>
    rcases byte_cases packet.byte p with hopens | ⟨l, hl⟩ | hzero
    · exact pointer_behind_readAt hp hopens n d
    · rw [dnExpandLoop, Traced.value_bind, dnExpandPass_label hl, if_pos (Or.inl (by dsimp only; omega))]
      refine iff_of_false (by simp) ?_
      rintro ⟨shown, steps, hread, -⟩
      exact not_readAt_behind_label hp hl shown steps hread
    · simp only [readAt_behind_zero hp hzero]
      rw [dnExpandLoop, Traced.value_bind, dnExpandPass_terminator hzero]
      constructor
      · rintro ⟨width, h⟩
        exact ⟨[], 1, ⟨rfl, rfl⟩, by omega, by decide, (Prod.mk.inj h).2.symm⟩
      · rintro ⟨_, _, ⟨rfl, rfl⟩, -, -, rfl⟩
        exact ⟨_, rfl⟩

/-- What is expanded at a place is read there, also behind the packet. -/
theorem expandAt_readAt (hlow : sizeofDnshdr ≤ p) (d : Bytes) :
    (∃ width, expandAt packet p = (some width, d)) ↔ ∃ shown steps, ReadAt packet p shown steps ∧
      steps ≤ passes sizeofDnshdr packet.size ∧ (dotted shown).length < room maxNameLength ∧
        d = dotted shown ++ [0] := by
  rcases Nat.lt_trichotomy p packet.size with hp | hp | hp
  · simp only [expandAt_iff hlow hp, readAt_inside (Nat.le_of_lt hp)]
    constructor
    · rintro ⟨width, shown, steps, hspells, hrest⟩
      exact ⟨shown, steps, ⟨width, hspells⟩, hrest⟩
    · rintro ⟨shown, steps, ⟨width, hspells⟩, hrest⟩
      exact ⟨width, shown, steps, hspells, hrest⟩
  · subst hp
    have hnone : expandAt packet packet.size = (none, []) := by
      rw [expandAt, dnExpand, if_pos (Or.inl rfl)]
      rfl
    simp only [hnone, readAt_inside (Nat.le_refl _)]
    refine iff_of_false (by simp) ?_
    rintro ⟨shown, steps, ⟨width, hspells⟩, -⟩
    exact absurd hspells.lt_fin (Nat.lt_irrefl _)
  · rw [expandAt_behind hp]
    exact loop_behind_readAt hp _ d

theorem aliasArg_iff (hlow : sizeofDnshdr ≤ p) (text : Bytes) :
    aliasArg packet p = .str (some text) ↔ PrintsAs packet p text := by
  have hexpand := @expandAt_readAt _ packet _ hlow
  rw [aliasArg]
  constructor
  · intro h
    cases hname : expandAt packet p with
    | mk size buffer =>
      rw [hname] at h
      cases size with
      | none => cases h
      | some width =>
        obtain ⟨shown, steps, hread, hsteps, hlen, rfl⟩ := (hexpand buffer).mp ⟨width, hname⟩
        exact ⟨shown, steps, hread, hsteps, hlen, Option.some.inj (Arg.str.inj h)⟩
  · rintro ⟨shown, steps, hread, hsteps, hlen, rfl⟩
    obtain ⟨width, hname⟩ := (hexpand _).mpr ⟨shown, steps, hread, hsteps, hlen, rfl⟩
    rw [hname]
    rfl

/-- The dump shows an alias for answer `i` exactly when a type of aliases is found, and a
name behind it that prints so. -/
theorem showsAlias_iff_bytes {i : ℕ} (h : (dnsDissectorHandles packet).value = true)
    (hqr : (packet.byte 2).toNat / 128 ≠ 0) (hi : i < packet.be16 6) (text : Bytes) :
    ShowsAlias (dnsDissectorDump packet).outputs i text ↔ ∃ z, FindsType packet i z ∧
      IsAlias (packet.be16 z) ∧ PrintsAs packet (z + sizeofDnsResourceRecord) text := by
  rw [showsAlias_iff h hqr]
  constructor
  · rintro ⟨c, hc, halias, harg⟩
    have hcomes := (getElem?_answers_iff.mp hc).2
    have hlow := le_of_comesTo hcomes
    have hdata : sizeofDnshdr ≤ answerData packet c :=
      (hlow.trans (Nat.le_add_right _ _)).trans (le_answerData packet c)
    exact ⟨ownerEnd packet c, ⟨c, hcomes, stringTo_ownerEnd c⟩, halias, (aliasArg_iff hdata text).mp harg⟩
  · rintro ⟨z, ⟨c, hcomes, hstring⟩, halias, hprints⟩
    obtain rfl := hstring.unique (stringTo_ownerEnd c)
    have hlow := le_of_comesTo hcomes
    have hdata : sizeofDnshdr ≤ answerData packet c :=
      (hlow.trans (Nat.le_add_right _ _)).trans (le_answerData packet c)
    exact ⟨c, getElem?_answers_iff.mpr ⟨hi, hcomes⟩, halias, (aliasArg_iff hdata text).mpr hprints⟩

end Names

end OpenSniffer.DnsAliases
