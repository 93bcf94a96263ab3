import Mathlib.Data.List.Infix
import StoreQuery.Text.Lower

/-!
# Patterns of texts

In a pattern `%` stands for any text and `_` for any one character. Every other character stands for
one that is the same, where it is left open when two characters are: they may have to be equal, or
to have one small letter (`SameLetter`). There is no way to write a wildcard that stands for itself.

A part with `%` around it matches a text in which something matches the part, at the beginning
(`like_prefix_iff`), at the end (`like_suffix_iff`) or anywhere (`like_infix_iff`).

**A part stands for itself alone exactly if no wildcard is in it.** Without one it matches nothing
else (`like_eq_iff`). With one it still matches itself (`like_self`), but also the text in which its
wildcards are filled (`like_filled`), and this text does not contain it (`not_infix_filled`).

**A pattern ignores case in a lowered text exactly if no capital letter is in it**, as far as ASCII
goes (`like_lower_iff`, `not_like_lower`).
-/

namespace StoreQuery.Text

/-- The characters that stand for others in a pattern. -/
def isWildcard (c : Char) : Bool := c == '%' || c == '_'

/-- A text matches a pattern. -/
inductive Like (same : Char → Char → Prop) : List Char → List Char → Prop
  | nil : Like same [] []
  | nothing {pattern text : List Char} (h : Like same pattern text) :
    Like same ('%' :: pattern) text
  | more (c : Char) {pattern text : List Char} (h : Like same ('%' :: pattern) text) :
    Like same ('%' :: pattern) (c :: text)
  | one (c : Char) {pattern text : List Char} (h : Like same pattern text) :
    Like same ('_' :: pattern) (c :: text)
  | letter {c d : Char} {pattern text : List Char} (hc : isWildcard c = false) (hsame : same c d)
    (h : Like same pattern text) : Like same (c :: pattern) (d :: text)

variable {same same' : Char → Char → Prop} {c : Char} {pattern part text : List Char}

/-! ## Patterns from left to right -/

theorem like_nil_iff : Like same [] text ↔ text = [] :=
  ⟨fun h => by cases h; rfl, fun h => by subst h; exact .nil⟩

/-- What is behind a `%` matches an end of the text. -/
theorem like_percent_iff :
    Like same ('%' :: pattern) text ↔ ∃ rest, rest <:+ text ∧ Like same pattern rest := by
  constructor
  · intro h
    generalize hp : '%' :: pattern = p at h
    induction h with
    | nil => cases hp
    | nothing h =>
      cases hp
      exact ⟨_, List.suffix_refl _, h⟩
    | more c _ ih =>
      obtain ⟨rest, hrest, h⟩ := ih hp
      exact ⟨rest, hrest.trans (List.suffix_cons c _), h⟩
    | one => simp at hp
    | letter hc =>
      cases hp
      cases hc
  · rintro ⟨rest, ⟨before, rfl⟩, h⟩
    induction before with
    | nil => exact .nothing h
    | cons c before ih => exact .more c ih

theorem like_cons_iff (hpercent : c ≠ '%') : Like same (c :: pattern) text ↔
    ∃ d rest, text = d :: rest ∧ (c = '_' ∨ same c d) ∧ Like same pattern rest := by
  constructor
  · rintro (_ | _ | _ | ⟨d, h⟩ | ⟨-, hsame, h⟩)
    · exact absurd rfl hpercent
    · exact absurd rfl hpercent
    · exact ⟨d, _, rfl, .inl rfl, h⟩
    · exact ⟨_, _, rfl, .inr hsame, h⟩
  · rintro ⟨d, rest, rfl, hmatch, h⟩
    by_cases hunderscore : c = '_'
    · subst hunderscore
      exact .one d h
    · exact .letter (by simp [isWildcard, hpercent, hunderscore])
        (hmatch.resolve_left hunderscore) h

/-- A pattern is tried on the ends of a text. -/
def decideLike (same : Char → Char → Prop) [DecidableRel same] :
    ∀ pattern text, Decidable (Like same pattern text)
  | [], text => decidable_of_iff (text = []) like_nil_iff.symm
  | c :: pattern, text =>
    have (rest : List Char) : Decidable (Like same pattern rest) := decideLike same pattern rest
    if hpercent : c = '%' then
      decidable_of_iff (∃ rest ∈ text.tails, Like same pattern rest)
        (by simp [hpercent, like_percent_iff])
    else
      match text with
      | [] => .isFalse (by simp [like_cons_iff hpercent])
      | d :: rest => decidable_of_iff ((c = '_' ∨ same c d) ∧ Like same pattern rest)
        (by simp [like_cons_iff hpercent])

instance [DecidableRel same] (pattern text : List Char) : Decidable (Like same pattern text) :=
  decideLike same pattern text

example : Like Eq "%5_%%".toList "1500".toList := by decide
example : ¬ Like Eq "%5_%".toList "1005".toList := by decide

/-! ## Patterns in parts -/

theorem Like.append {pattern' text' : List Char} (h : Like same pattern text)
    (h' : Like same pattern' text') : Like same (pattern ++ pattern') (text ++ text') := by
  induction h with
  | nil => exact h'
  | nothing _ ih => exact .nothing ih
  | more c _ ih => exact .more c ih
  | one c _ ih => exact .one c ih
  | letter hc hsame _ ih => exact .letter hc hsame ih

theorem like_append_iff {pattern' : List Char} : Like same (pattern ++ pattern') text ↔
    ∃ front back, front ++ back = text ∧ Like same pattern front ∧ Like same pattern' back := by
  constructor
  · intro h
    generalize hwhole : pattern ++ pattern' = whole at h
    -- A pattern that is used up leaves the whole text to the second one.
    induction h generalizing pattern with
    | nil =>
      obtain ⟨rfl, rfl⟩ := List.append_eq_nil_iff.1 hwhole
      exact ⟨[], [], rfl, .nil, .nil⟩
    | nothing h ih =>
      rcases List.append_eq_cons_iff.1 hwhole with ⟨rfl, rfl⟩ | ⟨rest, rfl, hrest⟩
      · exact ⟨[], _, rfl, .nil, .nothing h⟩
      · obtain ⟨front, back, htext, hfront, hback⟩ := ih hrest.symm
        exact ⟨front, back, htext, .nothing hfront, hback⟩
    | more c h ih =>
      rcases List.append_eq_cons_iff.1 hwhole with ⟨rfl, rfl⟩ | ⟨rest, rfl, hrest⟩
      · exact ⟨[], _, rfl, .nil, .more c h⟩
      · obtain ⟨front, back, rfl, hfront, hback⟩ := ih hwhole
        exact ⟨c :: front, back, rfl, .more c hfront, hback⟩
    | one c h ih =>
      rcases List.append_eq_cons_iff.1 hwhole with ⟨rfl, rfl⟩ | ⟨rest, rfl, hrest⟩
      · exact ⟨[], _, rfl, .nil, .one c h⟩
      · obtain ⟨front, back, rfl, hfront, hback⟩ := ih hrest.symm
        exact ⟨c :: front, back, rfl, .one c hfront, hback⟩
    | letter hc hsame h ih =>
      rcases List.append_eq_cons_iff.1 hwhole with ⟨rfl, rfl⟩ | ⟨rest, rfl, hrest⟩
      · exact ⟨[], _, rfl, .nil, .letter hc hsame h⟩
      · obtain ⟨front, back, rfl, hfront, hback⟩ := ih hrest.symm
        exact ⟨_ :: front, back, rfl, .letter hc hsame hfront, hback⟩
  · rintro ⟨front, back, rfl, hfront, hback⟩
    exact hfront.append hback

theorem like_percent (text : List Char) : Like same ['%'] text :=
  like_percent_iff.2 ⟨[], List.nil_suffix, .nil⟩

theorem like_prefix_iff :
    Like same (pattern ++ ['%']) text ↔ ∃ part, part <+: text ∧ Like same pattern part := by
  rw [like_append_iff]
  constructor
  · rintro ⟨front, back, rfl, hfront, -⟩
    exact ⟨front, List.prefix_append _ _, hfront⟩
  · rintro ⟨part, ⟨rest, rfl⟩, hpart⟩
    exact ⟨part, rest, rfl, hpart, like_percent rest⟩

theorem like_suffix_iff :
    Like same (['%'] ++ pattern) text ↔ ∃ part, part <:+ text ∧ Like same pattern part :=
  like_percent_iff

/-- With `%` on both sides a part is looked for anywhere. -/
theorem like_infix_iff : Like same (['%'] ++ pattern ++ ['%']) text ↔
    ∃ part, part <:+: text ∧ Like same pattern part := by
  rw [List.append_assoc, like_suffix_iff]
  simp only [like_prefix_iff, List.infix_iff_prefix_suffix]
  grind

/-! ## Parts and themselves -/

theorem like_self (hsame : ∀ c, same c c) (part : List Char) : Like same part part := by
  induction part with
  | nil => exact .nil
  | cons c part ih =>
    by_cases hpercent : c = '%'
    · subst hpercent
      exact .more _ (.nothing ih)
    by_cases hunderscore : c = '_'
    · subst hunderscore
      exact .one _ ih
    exact .letter (by simp [isWildcard, hpercent, hunderscore]) (hsame c) ih

/-- No wildcard is in a part. -/
def IsPlain (part : List Char) : Prop := ∀ c ∈ part, isWildcard c = false

instance (part : List Char) : Decidable (IsPlain part) :=
  List.decidableBAll (fun c => isWildcard c = false) part

/-- **A part without wildcards matches nothing but itself.** -/
theorem like_eq_iff (hpart : IsPlain part) :
    Like Eq part text ↔ text = part := by
  induction part generalizing text with
  | nil => exact like_nil_iff
  | cons c part ih =>
    obtain ⟨hc, hpart⟩ := List.forall_mem_cons.1 hpart
    obtain ⟨hpercent, hunderscore⟩ : c ≠ '%' ∧ c ≠ '_' := by simpa [isWildcard] using hc
    rw [like_cons_iff hpercent]
    constructor
    · rintro ⟨d, rest, rfl, hmatch, h⟩
      rw [(ih hpart).1 h, hmatch.resolve_left hunderscore]
    · rintro rfl
      exact ⟨c, part, rfl, .inr rfl, (ih hpart).2 rfl⟩

/-- A text for a pattern: nothing for `%`, and an `x` for `_`. -/
def filled (pattern : List Char) : List Char :=
  (pattern.filter (· ≠ '%')).map fun c => if c = '_' then 'x' else c

theorem isPlain_filled (pattern : List Char) : IsPlain (filled pattern) := by
  intro c hc
  obtain ⟨d, hd, rfl⟩ := List.mem_map.1 hc
  have hpercent : d ≠ '%' := by simpa using (List.mem_filter.1 hd).2
  by_cases hunderscore : d = '_'
  · rw [if_pos hunderscore]
    rfl
  · rw [if_neg hunderscore]
    simp [isWildcard, hpercent, hunderscore]

theorem like_filled (hsame : ∀ c, same c c) (part : List Char) : Like same part (filled part) := by
  induction part with
  | nil => exact .nil
  | cons c part ih =>
    by_cases hpercent : c = '%'
    · subst hpercent
      exact .nothing ih
    rw [filled, List.filter_cons_of_pos (by simpa using hpercent), List.map_cons]
    by_cases hunderscore : c = '_'
    · subst hunderscore
      exact .one _ ih
    rw [if_neg hunderscore]
    exact .letter (by simp [isWildcard, hpercent, hunderscore]) (hsame c) ih

/-- **A part with a wildcard is not in the text in which it is filled.** -/
theorem not_infix_filled (hc : c ∈ part) (hwildcard : isWildcard c = true) :
    ¬ part <:+: filled part := by
  intro h
  rw [isPlain_filled part c (h.subset hc)] at hwildcard
  cases hwildcard

/-! ## Patterns and letter case -/

/-- Two characters have one small letter. -/
def SameLetter (c d : Char) : Prop := lowerSimple c = lowerSimple d

instance : DecidableRel SameLetter := fun c d =>
  inferInstanceAs (Decidable (lowerSimple c = lowerSimple d))

theorem SameLetter.refl (c : Char) : SameLetter c c := rfl

/-- All characters of a text are ASCII. -/
def IsAscii (text : List Char) : Prop := ∀ c ∈ text, c.toNat < 0x80

instance (text : List Char) : Decidable (IsAscii text) :=
  List.decidableBAll (fun c : Char => c.toNat < 0x80) text

/-- No capital letter is in a text. -/
def IsSmall (text : List Char) : Prop := ∀ c ∈ text, c.isUpper = false

instance (text : List Char) : Decidable (IsSmall text) :=
  List.decidableBAll (fun c : Char => c.isUpper = false) text

/-- What holds of the first code points holds of all ASCII characters. -/
theorem forall_ascii {p : Char → Prop} (h : ∀ n < 0x80, p (Char.ofNat n)) {c : Char}
    (hc : c.toNat < 0x80) : p c := by
  rw [← Char.ofNat_toNat c]
  exact h c.toNat hc

theorem lowerSimple_eq_self {c : Char} (hc : c.toNat < 0x80) :
    lowerSimple c = c ↔ c.isUpper = false :=
  forall_ascii (p := fun c => lowerSimple c = c ↔ c.isUpper = false) (by decide) hc

theorem isUpper_lowerSimple {c : Char} (hc : c.toNat < 0x80) : (lowerSimple c).isUpper = false :=
  forall_ascii (p := fun c => (lowerSimple c).isUpper = false) (by decide) hc

/-- In ASCII every letter is lowered by itself. -/
theorem lowerChars_of_isAscii (before : List Char) (h : IsAscii text) :
    lowerChars before text = text.map lowerSimple := by
  induction text generalizing before with
  | nil => rfl
  | cons c text ih =>
    obtain ⟨hc, htext⟩ := List.forall_mem_cons.1 h
    have hsigma : c ≠ 'Σ' := by
      rintro rfl
      exact absurd hc (by decide)
    have hdotted : c ≠ 'İ' := by
      rintro rfl
      exact absurd hc (by decide)
    rw [lowerChars, if_neg hsigma, if_neg hdotted, ih _ htext]
    rfl

theorem like_map_iff {f : Char → Char} :
    Like same pattern (text.map f) ↔ Like (fun c d => same c (f d)) pattern text := by
  induction pattern generalizing text with
  | nil => rw [like_nil_iff, like_nil_iff, List.map_eq_nil_iff]
  | cons c pattern ih =>
    by_cases hpercent : c = '%'
    · subst hpercent
      rw [like_percent_iff, like_percent_iff]
      constructor
      · rintro ⟨rest, hrest, h⟩
        obtain ⟨rest, hsuffix, rfl⟩ := List.suffix_map_iff.1 hrest
        exact ⟨rest, hsuffix, ih.1 h⟩
      · rintro ⟨rest, hrest, h⟩
        exact ⟨rest.map f, hrest.map f, ih.2 h⟩
    · rw [like_cons_iff hpercent, like_cons_iff hpercent]
      constructor
      · rintro ⟨d, rest, htext, hmatch, h⟩
        obtain ⟨d, rest, rfl, rfl, rfl⟩ := List.map_eq_cons_iff.1 htext
        exact ⟨d, rest, rfl, hmatch, ih.1 h⟩
      · rintro ⟨d, rest, rfl, hmatch, h⟩
        exact ⟨f d, rest.map f, rfl, hmatch, ih.2 h⟩

theorem Like.mono (h : Like same pattern text)
    (hsame : ∀ c ∈ pattern, ∀ d ∈ text, same c d → same' c d) : Like same' pattern text := by
  induction h with
  | nil => exact .nil
  | nothing _ ih => exact .nothing (ih fun c hc => hsame c (.tail _ hc))
  | more c _ ih => exact .more c (ih fun c hc d hd => hsame c hc d (.tail _ hd))
  | one c _ ih => exact .one c (ih fun c hc d hd => hsame c (.tail _ hc) d (.tail _ hd))
  | letter hc h _ ih =>
    exact .letter hc (hsame _ (.head _) _ (.head _) h)
      (ih fun c hc d hd => hsame c (.tail _ hc) d (.tail _ hd))

/-- Every character of a pattern that stands for itself is found in the text. -/
theorem Like.exists_same (h : Like same pattern text) (hmem : c ∈ pattern)
    (hc : isWildcard c = false) : ∃ d ∈ text, same c d := by
  induction h with
  | nil => cases hmem
  | nothing _ ih =>
    rcases List.mem_cons.1 hmem with rfl | hmem
    · cases hc
    · exact ih hmem
  | more d _ ih =>
    obtain ⟨d, hd, hsame⟩ := ih hmem
    exact ⟨d, .tail _ hd, hsame⟩
  | one d _ ih =>
    rcases List.mem_cons.1 hmem with rfl | hmem
    · cases hc
    · obtain ⟨d, hd, hsame⟩ := ih hmem
      exact ⟨d, .tail _ hd, hsame⟩
  | letter _ hsame _ ih =>
    rcases List.mem_cons.1 hmem with rfl | hmem
    · exact ⟨_, .head _, hsame⟩
    · obtain ⟨d, hd, hsame⟩ := ih hmem
      exact ⟨d, .tail _ hd, hsame⟩

/-- **A pattern without capital letters ignores case in the lowered text.** -/
theorem like_lower_iff (hpattern : IsAscii pattern) (hsmall : IsSmall pattern)
    (htext : IsAscii text) :
    Like Eq pattern (lowerChars [] text) ↔ Like SameLetter pattern text := by
  rw [lowerChars_of_isAscii [] htext, like_map_iff]
  have hself : ∀ c ∈ pattern, lowerSimple c = c :=
    fun c hc => (lowerSimple_eq_self (hpattern c hc)).2 (hsmall c hc)
  constructor
  · intro h
    exact h.mono fun c hc d _ hsame => (hself c hc).trans hsame
  · intro h
    exact h.mono fun c hc d _ hsame => (hself c hc).symm.trans hsame

/-- **A pattern with a capital letter matches no lowered text.** -/
theorem not_like_lower (hc : c ∈ pattern) (hcapital : c.isUpper = true) (htext : IsAscii text) :
    ¬ Like Eq pattern (lowerChars [] text) := by
  rw [lowerChars_of_isAscii [] htext, like_map_iff]
  intro h
  have hplain : isWildcard c = false := by
    rw [← Bool.not_eq_true]
    intro hwildcard
    rcases Bool.or_eq_true_iff.1 hwildcard with heq | heq <;> rw [beq_iff_eq.1 heq] at hcapital <;>
      cases hcapital
  obtain ⟨d, hd, rfl⟩ := h.exists_same hc hplain
  rw [isUpper_lowerSimple (htext d hd)] at hcapital
  cases hcapital

end StoreQuery.Text
