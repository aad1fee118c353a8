import Mathlib.Logic.Embedding.Basic
import OpenSniffer.AddressTexts

/-!
# IPv6 addresses as text

A text form of an IPv6 address is a list of hexadecimal words, with the last two of them
written as an IPv4 address or not, and with one run of zero words left out or none. A
text is that of one address only, and `inet_ntop` writes one of these forms.
-/
namespace OpenSniffer.Ipv6Texts
open Packets TextFormats AddressTexts

private theorem toDigits_injective : ∀ m n, Nat.toDigits 16 m = Nat.toDigits 16 n → m = n := by
  intro m
  induction m using Nat.strong_induction_on with
  | _ m ih =>
    intro n h
    have hm := Nat.mod_lt m (show 0 < 16 by decide)
    have hn := Nat.mod_lt n (show 0 < 16 by decide)
    rw [Nat.toDigits_eq_if (by decide), Nat.toDigits_eq_if (n := n) (by decide)] at h
    split at h <;> split at h
    · exact digitChar_inj m (by assumption) n (by assumption) (List.cons.inj h).1
    · have hlength := congrArg List.length h
      have hpos : 0 < (Nat.toDigits 16 (n / 16)).length := Nat.length_toDigits_pos
      simp only [List.length_append, List.length_cons, List.length_nil] at hlength
      omega
    · have hlength := congrArg List.length h
      have hpos : 0 < (Nat.toDigits 16 (m / 16)).length := Nat.length_toDigits_pos
      simp only [List.length_append, List.length_cons, List.length_nil] at hlength
      omega
    · obtain ⟨hhigh, hlow⟩ := List.append_inj' h rfl
      have hdiv := ih (m / 16) (by omega) (n / 16) hhigh
      have hmod := digitChar_inj _ hm _ hn (List.cons.inj hlow).1
      omega

theorem hexDigits_injective : Function.Injective hexDigits := fun m n h =>
  toDigits_injective m n (String.ofList_injective h)

private theorem mem_toDigits {c : Char} (n : ℕ) (h : c ∈ Nat.toDigits 16 n) : ∃ d < 16, c = Nat.digitChar d := by
  induction n using Nat.strong_induction_on with
  | _ n ih =>
    rw [Nat.toDigits_eq_if (by decide)] at h
    split at h
    · exact ⟨n, by assumption, List.mem_singleton.mp h⟩
    · rcases List.mem_append.mp h with h | h
      · exact ih (n / 16) (by omega) h
      · exact ⟨n % 16, by omega, List.mem_singleton.mp h⟩

theorem hexDigits_free {c : Char} (hc : ∀ d < 16, c ≠ Nat.digitChar d) (n : ℕ) :
    c ∉ (hexDigits n).toList := by
  rw [hexDigits, String.toList_ofList]
  intro h
  obtain ⟨d, hd, rfl⟩ := mem_toDigits n h
  exact hc d hd rfl

private theorem hexDigits_ne_empty (n : ℕ) : hexDigits n ≠ "" := by
  intro h
  have hlist : (hexDigits n).toList = [] := congrArg String.toList h
  rw [hexDigits, String.toList_ofList] at hlist
  exact Nat.toDigits_ne_nil hlist

def word2 (high low : UInt8) : ℕ := high.toNat * 256 + low.toNat

/-- Texts of groups, and the words they stand for. -/
inductive Groups : List String → List ℕ → Prop
  | nil : Groups [] []
  | hex {texts words} (w : ℕ) (h : Groups texts words) : Groups (hexDigits w :: texts) (w :: words)
  | dotted (a b c d : UInt8) : Groups [inetNtoa [a, b, c, d]] [word2 a b, word2 c d]

theorem dot_mem_inetNtoa (a b c d : UInt8) : '.' ∈ (inetNtoa [a, b, c, d]).toList := by
  simp [inetNtoa]

private theorem colon_not_mem_inetNtoa (a b c d : UInt8) : ':' ∉ (inetNtoa [a, b, c, d]).toList := by
  have hcolon : ∀ b : UInt8, ':' ∉ (toString b.toNat).toList := by
    intro b h
    rw [Nat.toString_eq_repr, Nat.toList_repr] at h
    cases Nat.isDigit_of_mem_toDigits (by decide) (by decide) h
  have ha := hcolon a
  have hb := hcolon b
  have hc := hcolon c
  have hd := hcolon d
  simp_all [inetNtoa]

theorem groups_texts {texts : List String} {words : List ℕ} (h : Groups texts words) :
    ∀ t ∈ texts, t ≠ "" ∧ ':' ∉ t.toList := by
  induction h with
  | nil => nofun
  | hex w h ih =>
    intro t ht
    rcases List.mem_cons.mp ht with rfl | ht
    · exact ⟨hexDigits_ne_empty w, hexDigits_free (by decide) w⟩
    · exact ih t ht
  | dotted a b c d =>
    intro t ht
    obtain rfl := List.mem_singleton.mp ht
    refine ⟨fun hempty => ?_, colon_not_mem_inetNtoa a b c d⟩
    have hdot := dot_mem_inetNtoa a b c d
    rw [hempty] at hdot
    cases hdot

theorem hexDigits_ne_inetNtoa (w : ℕ) (a b c d : UInt8) : hexDigits w ≠ inetNtoa [a, b, c, d] := by
  intro h
  have hdot := dot_mem_inetNtoa a b c d
  rw [← h] at hdot
  exact hexDigits_free (by decide) w hdot

theorem groups_unique {texts texts' : List String} {words words' : List ℕ} (h : Groups texts words)
    (h' : Groups texts' words') (heq : texts = texts') : words = words' := by
  induction h generalizing texts' words' with
  | nil =>
    cases h' with
    | nil => rfl
    | hex w' h' => cases heq
    | dotted => cases heq
  | hex w h ih =>
    cases h' with
    | nil => cases heq
    | hex w' h' =>
      obtain ⟨hhead, htail⟩ := List.cons.inj heq
      rw [hexDigits_injective hhead, ih h' htail]
    | dotted a b c d => exact absurd (List.cons.inj heq).1 (hexDigits_ne_inetNtoa w a b c d)
  | dotted a b c d =>
    cases h' with
    | nil => cases heq
    | hex w' h' => exact absurd (List.cons.inj heq).1.symm (hexDigits_ne_inetNtoa w' a b c d)
    | dotted a' b' c' d' =>
      have hbytes : (⟨[a, b, c, d], rfl⟩ : Octets 4) = ⟨[a', b', c', d'], rfl⟩ :=
        inetNtoa_injective (List.cons.inj heq).1
      cases hbytes
      rfl

/-- The text forms of a list of words: every group written, or zero words left out. -/
inductive Spells : String → List ℕ → Prop
  | full {texts words} (h : Groups texts words) : Spells (":".intercalate texts) words
  | short {texts words} (front : List ℕ) (zeros : ℕ) (h : Groups texts words) :
    Spells (":".intercalate (front.map hexDigits) ++ "::" ++ ":".intercalate texts)
      (front ++ List.replicate zeros 0 ++ words)

/-- The pieces between colons on one side of `::`. -/
def side (texts : List String) : List String := if texts = [] then [""] else texts

theorem side_ne_nil (texts : List String) : side texts ≠ [] := by
  unfold side
  split
  · exact List.cons_ne_nil _ _
  · assumption

theorem intercalate_side (texts : List String) : ":".intercalate (side texts) = ":".intercalate texts := by
  unfold side
  split
  · next h => rw [h, String.intercalate_singleton, String.intercalate_nil]
  · rfl

/-- A shortened text is its pieces, an empty one between the two sides. -/
theorem short_eq_intercalate (front back : List String) :
    ":".intercalate front ++ "::" ++ ":".intercalate back =
      ":".intercalate (side front ++ "" :: side back) := by
  rw [String.intercalate_append_of_ne_nil (side_ne_nil front) (List.cons_ne_nil _ _),
    String.intercalate_cons_of_ne_nil (side_ne_nil back), intercalate_side, intercalate_side,
    String.append_assoc, String.append_assoc]
  rfl

theorem side_free {texts : List String} (h : ∀ t ∈ texts, t ≠ "" ∧ ':' ∉ t.toList) :
    ∀ t ∈ side texts, ':' ∉ t.toList := by
  unfold side
  split
  · intro t ht
    obtain rfl := List.mem_singleton.mp ht
    exact List.not_mem_nil
  · exact fun t ht => (h t ht).2

theorem side_inj {texts texts' : List String} (h : ∀ t ∈ texts, t ≠ "") (h' : ∀ t ∈ texts', t ≠ "")
    (heq : side texts = side texts') : texts = texts' := by
  unfold side at heq
  split at heq <;> split at heq
  · simp_all
  · exact absurd rfl <| h' "" (heq ▸ List.mem_cons_self)
  · exact absurd rfl (h "" (heq ▸ List.mem_cons_self))
  · exact heq

private theorem before_empty_inj {front front' back back' : List String} (hf : ∀ t ∈ front, t ≠ "")
    (hf' : ∀ t ∈ front', t ≠ "") (h : front ++ "" :: back = front' ++ "" :: back') :
    front = front' ∧ back = back' := by
  induction front generalizing front' with
  | nil =>
    cases front' with
    | nil => exact ⟨rfl, (List.cons.inj h).2⟩
    | cons t' front' => exact absurd (List.cons.inj h).1.symm (hf' t' List.mem_cons_self)
  | cons t front ih =>
    cases front' with
    | nil => exact absurd (List.cons.inj h).1 (hf t List.mem_cons_self)
    | cons t' front' =>
      obtain ⟨rfl, htail⟩ := List.cons.inj h
      obtain ⟨rfl, hback⟩ := ih (fun u hu => hf u (List.mem_cons_of_mem _ hu))
        (fun u hu => hf' u (List.mem_cons_of_mem _ hu)) htail
      exact ⟨rfl, hback⟩

/-- The sides of a text are found again around its first empty piece. -/
theorem sides_inj {front front' back back' : List String} (hf : ∀ t ∈ front, t ≠ "")
    (hf' : ∀ t ∈ front', t ≠ "") (hb : ∀ t ∈ back, t ≠ "") (hb' : ∀ t ∈ back', t ≠ "")
    (h : side front ++ "" :: side back = side front' ++ "" :: side back') :
    front = front' ∧ back = back' := by
  cases front with
  | nil =>
    cases front' with
    | nil => exact ⟨rfl, side_inj hb hb' (List.cons.inj (List.cons.inj h).2).2⟩
    | cons t' front' => exact absurd (List.cons.inj h).1.symm (hf' t' List.mem_cons_self)
  | cons t front =>
    cases front' with
    | nil => exact absurd (List.cons.inj h).1 (hf t List.mem_cons_self)
    | cons t' front' =>
      obtain ⟨hfront, hback⟩ := before_empty_inj hf hf' h
      exact ⟨hfront, side_inj hb hb' hback⟩

theorem groups_hex (words : List ℕ) : Groups (words.map hexDigits) words := by
  induction words with
  | nil => exact .nil
  | cons w words ih => exact .hex w ih

theorem short_free {front : List ℕ} {texts : List String} {words : List ℕ} (h : Groups texts words) :
    ∀ t ∈ side (front.map hexDigits) ++ "" :: side texts, ':' ∉ t.toList := by
  intro t ht
  rcases List.mem_append.mp ht with ht | ht
  · exact side_free (groups_texts (groups_hex front)) t ht
  · rcases List.mem_cons.mp ht with rfl | ht
    · exact List.not_mem_nil
    · exact side_free (groups_texts h) t ht

/-- A text with every group has no empty piece that a shortened one has. -/
theorem full_ne_short {front : List ℕ} {texts texts' : List String} {words words' : List ℕ}
    (h : Groups texts words) (h' : Groups texts' words') : ":".intercalate texts ≠
      ":".intercalate (front.map hexDigits) ++ "::" ++ ":".intercalate texts' := by
  intro heq
  rw [short_eq_intercalate, ← intercalate_side texts] at heq
  have hpieces := intercalate_inj rfl (side_free (groups_texts h)) (short_free h') (side_ne_nil texts)
    (List.append_ne_nil_of_right_ne_nil _ (List.cons_ne_nil _ _)) heq
  by_cases htexts : texts = []
  · have hone := congrArg List.length hpieces
    have hpos := List.length_pos_of_ne_nil (side_ne_nil (front.map hexDigits))
    rw [side, if_pos htexts, List.length_append, List.length_singleton, List.length_cons] at hone
    omega
  · rw [side, if_neg htexts] at hpieces
    have hempty : "" ∈ texts := hpieces ▸ List.mem_append_right _ List.mem_cons_self
    exact (groups_texts h "" hempty).1 rfl

/-- A text is a form of no two lists of words of one length. -/
theorem spells_unique {text text' : String} {words words' : List ℕ} (h : Spells text words)
    (h' : Spells text' words') (heq : text = text') (hlength : words.length = words'.length) :
    words = words' := by
  cases h with
  | @full texts words h =>
    cases h' with
    | @full texts' words' h' =>
      rw [← intercalate_side texts, ← intercalate_side texts'] at heq
      have hsides := intercalate_inj rfl (side_free (groups_texts h)) (side_free (groups_texts h'))
        (side_ne_nil texts) (side_ne_nil texts') heq
      exact groups_unique h h' (side_inj (fun t ht => (groups_texts h t ht).1)
        (fun t ht => (groups_texts h' t ht).1) hsides)
    | short front' zeros' h' => exact absurd heq (full_ne_short h h')
  | @short texts words front zeros h =>
    cases h' with
    | full h' => exact absurd heq.symm (full_ne_short h' h)
    | @short texts' words' front' zeros' h' =>
      rw [short_eq_intercalate, short_eq_intercalate] at heq
      have hpieces := intercalate_inj rfl (short_free h) (short_free h')
        (List.append_ne_nil_of_right_ne_nil _ (List.cons_ne_nil _ _))
        (List.append_ne_nil_of_right_ne_nil _ (List.cons_ne_nil _ _)) heq
      obtain ⟨hfront, hback⟩ := sides_inj (fun t ht => (groups_texts (groups_hex front) t ht).1)
        (fun t ht => (groups_texts (groups_hex front') t ht).1) (fun t ht => (groups_texts h t ht).1)
        (fun t ht => (groups_texts h' t ht).1) hpieces
      obtain rfl := List.map_injective_iff.mpr hexDigits_injective hfront
      obtain rfl := groups_unique h h' hback
      simp only [List.length_append, List.length_replicate] at hlength
      rw [show zeros = zeros' by omega]

/-- The words of an address. -/
def addressWords (address : Bytes) : List ℕ :=
  (List.range 8).map fun i => word2 (address.getD (2 * i) 0) (address.getD (2 * i + 1) 0)

private theorem word2_inj {a b c d : UInt8} (h : word2 a b = word2 c d) : a = c ∧ b = d := by
  have hb := b.toNat_lt
  have hd := d.toNat_lt
  simp only [word2] at h
  exact ⟨UInt8.toNat_inj.mp (by omega), UInt8.toNat_inj.mp (by omega)⟩

private theorem addressWords_inj {a b : Octets 16} (h : addressWords a.1 = addressWords b.1) : a = b := by
  have hwords := List.map_inj_left.mp h
  refine Subtype.ext (List.ext_getElem (a.2.trans b.2.symm) fun i ha hb => ?_)
  have hi : i < 16 := a.2 ▸ ha
  obtain ⟨heven, hodd⟩ := word2_inj (hwords (i / 2) (List.mem_range.mpr (by omega)))
  rcases Nat.mod_two_eq_zero_or_one i with hmod | hmod
  · rw [show 2 * (i / 2) = i by omega] at heven
    rwa [← List.getElem_eq_getD, ← List.getElem_eq_getD] at heven
  · rw [show 2 * (i / 2) + 1 = i by omega] at hodd
    rwa [← List.getElem_eq_getD, ← List.getElem_eq_getD] at hodd

/-- A fold that keeps its value or takes the next one ends on one of them. -/
theorem foldl_chooses {α : Type} {choose : Option α → α → Option α}
    (hchoose : ∀ best next r, choose best next = some r → best = some r ∨ next = r)
    {best : Option α} {values : List α} {r : α} (h : values.foldl choose best = some r) :
    best = some r ∨ r ∈ values := by
  induction values generalizing best with
  | nil => exact Or.inl h
  | cons next values ih =>
    rcases ih h with hbest | hr
    · rcases hchoose best next r hbest with hbest | rfl
      · exact Or.inl hbest
      · exact Or.inr List.mem_cons_self
    · exact Or.inr (List.mem_cons_of_mem _ hr)

private theorem takeWhile_zero (words : List ℕ) :
    words.takeWhile (· == 0) = List.replicate (words.takeWhile (· == 0)).length 0 := by
  refine List.eq_replicate_iff.mpr ⟨rfl, fun w hw => ?_⟩
  exact beq_iff_eq.mp (List.all_eq_true.mp List.all_takeWhile w hw)

/-- What `zeroRun` finds is a run of zero words. -/
theorem zeroRun_spec {words : List ℕ} {start length : ℕ} (h : zeroRun words = some (start, length)) :
    words = words.take start ++ List.replicate length 0 ++ words.drop (start + length) := by
  have hchosen := foldl_chooses (fun best next r hr => ?_) h
  · rcases hchosen with hnone | hrun
    · cases hnone
    · obtain ⟨i, -, hi⟩ := List.mem_map.mp hrun
      obtain ⟨rfl, hlength⟩ := Prod.mk.inj hi
      have hzeros := takeWhile_zero (words.drop i)
      have hdrop := List.prefix_iff_eq_append.mp (List.takeWhile_prefix (· == 0) : _ <+: words.drop i)
      rw [hzeros, List.length_replicate, hlength, List.drop_drop] at hdrop
      rw [List.append_assoc, hdrop, List.take_append_drop]
  · cases best with
    | none =>
      simp only at hr
      split at hr
      · exact Or.inr (Option.some.inj hr)
      · cases hr
    | some b =>
      simp only at hr
      split at hr
      · exact Or.inr (Option.some.inj hr)
      · exact Or.inl hr

private theorem drop_twelve (a : Octets 16) :
    a.1.drop 12 = [a.1.getD 12 0, a.1.getD 13 0, a.1.getD 14 0, a.1.getD 15 0] := by
  have hlength := a.2
  refine List.ext_getElem (by rw [List.length_drop, hlength]; rfl) fun i hi hi' => ?_
  rw [List.getElem_drop, List.getElem_eq_getD 0]
  match i, hi' with
  | 0, _ | 1, _ | 2, _ | 3, _ => rfl

/-- The last two words of an address in the form of an IPv4 address. -/
theorem groups_last (a : Octets 16) : Groups [inetNtoa (a.1.drop 12)] ((addressWords a.1).drop 6) := by
  rw [drop_twelve]
  exact .dotted _ _ _ _

/-- What `inet_ntop` writes is a form of the address. -/
theorem inetNtop_spells (a : Octets 16) : Spells (inetNtop a.1) (addressWords a.1) := by
  unfold inetNtop
  dsimp only
  split
  · exact .full (groups_hex (addressWords a.1))
  · next start length hrun =>
    have hwords := @zeroRun_spec (addressWords a.1) _ _ hrun
    split
    · next hdotted =>
      obtain ⟨rfl, hlength⟩ := hdotted
      by_cases hsix : length = 6
      · subst hsix
        rw [if_pos rfl, hwords]
        have hspells := Spells.short [] 6 (groups_last a)
        rw [String.intercalate_singleton] at hspells
        exact hspells
      · obtain ⟨rfl, hffff⟩ := hlength.resolve_left hsix
        have hback : (addressWords a.1).drop (0 + 5) = 0xffff :: (addressWords a.1).drop 6 :=
          congrArg (· :: (addressWords a.1).drop 6) hffff
        rw [if_neg hsix, hwords, hback]
        have hspells := Spells.short [] 5 (.hex 0xffff (groups_last a))
        rw [String.intercalate_cons_cons, String.intercalate_singleton] at hspells
        exact hspells
    · rw [hwords]
      exact .short _ length (groups_hex _)

private theorem inetNtop_injective : Function.Injective fun a : Octets 16 => inetNtop a.1 := by
  intro a b h
  exact addressWords_inj (spells_unique (inetNtop_spells a) (inetNtop_spells b) h (by simp [addressWords]))

/-- The text of an IPv4 address, that of no other. -/
def ipv4Text : Octets 4 ↪ String := ⟨fun a => inetNtoa a.1, inetNtoa_injective⟩

/-- The text of an IPv6 address, that of no other. -/
def ipv6Text : Octets 16 ↪ String := ⟨fun a => inetNtop a.1, inetNtop_injective⟩

end OpenSniffer.Ipv6Texts
