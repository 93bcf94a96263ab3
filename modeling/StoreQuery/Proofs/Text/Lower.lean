import Mathlib.Data.List.Basic
import Mathlib.Data.List.TakeWhile
import Mathlib.Tactic.Push
import StoreQuery.Text.Lower

/-!
# Small letters of a part of a text

Small letters are found one by one, but a capital sigma looks at its neighbours, so the small
letters of a part depend on what stands around it. The part stands between two other texts here, the
one in front of it read backwards.

**The small letters of a text are those of its parts, each in its place** (`lowerChars_append`). A
part has the same small letters in two places exactly if each of its capital sigmas ends a word in
both or in neither (`lowerIn_eq_lowerIn_iff`). So it keeps those that it has alone exactly if no
sigma changes there (`lowerIn_eq_lowerChars_iff`).

If some place changes a sigma, then one more letter behind the part, or in front of it, does so
(`exists_infix_of_not_keeps`).
-/

namespace StoreQuery.Text

variable {before after before' after' part cs ds : List Char} {c : Char}

/-! ## Ends of words -/

/-- A capital sigma between two texts ends a word. -/
def endsWord (before after : List Char) : Bool := nextIsCased before && !nextIsCased after

/-- All characters of a text are passed over. -/
def Skipped (cs : List Char) : Prop := ∀ c ∈ cs, isCaseIgnorable c = true

theorem nextIsCased_append_of_skipped (h : Skipped cs) :
    nextIsCased (cs ++ ds) = nextIsCased ds := by
  rw [nextIsCased, nextIsCased, List.dropWhile_append_of_pos h]

theorem nextIsCased_of_skipped (h : Skipped cs) : nextIsCased cs = false := by
  rw [← List.append_nil cs, nextIsCased_append_of_skipped h]
  rfl

theorem nextIsCased_append_of_not_skipped (h : ¬ Skipped cs) :
    nextIsCased (cs ++ ds) = nextIsCased cs := by
  have hne : cs.dropWhile isCaseIgnorable ≠ [] := fun hnil => h (List.dropWhile_eq_nil_iff.1 hnil)
  rw [nextIsCased, nextIsCased, List.dropWhile_append,
    if_neg (by rwa [List.isEmpty_iff])]
  obtain ⟨c, rest, hrest⟩ := List.exists_cons_of_ne_nil hne
  rw [hrest]
  rfl

/-- A letter that is not passed over. -/
structure IsLetter (c : Char) : Prop where
  cased : isCased c = true
  seen : isCaseIgnorable c = false

theorem IsLetter.nextIsCased (h : IsLetter c) : Text.nextIsCased [c] = true := by
  simp [Text.nextIsCased, h.seen, h.cased]

/-- If what stands around a sigma matters, then a letter behind it does, or one in front of it. -/
theorem endsWord_letter (h : endsWord (cs ++ before) (ds ++ after) ≠ endsWord cs ds) :
    (∀ c, IsLetter c → endsWord cs (ds ++ [c]) ≠ endsWord cs ds) ∨
      ∀ c, IsLetter c → endsWord (cs ++ [c]) ds ≠ endsWord cs ds := by
  unfold endsWord at h ⊢
  -- What stands beyond a side shows only through a side that is passed over as a whole, so the
  -- sides that are decide on which one a letter has to stand.
  by_cases hds : Skipped ds
  · by_cases hcs : Skipped cs
    · right
      intro c hc
      rw [nextIsCased_append_of_skipped hcs, hc.nextIsCased, nextIsCased_of_skipped hcs,
        nextIsCased_of_skipped hds]
      decide
    · left
      intro c hc
      rw [nextIsCased_append_of_not_skipped hcs, nextIsCased_of_skipped hds] at h
      have hcased : nextIsCased cs = true := by
        by_contra hnot
        rw [Bool.not_eq_true] at hnot
        simp [hnot] at h
      rw [nextIsCased_append_of_skipped hds, hc.nextIsCased, nextIsCased_of_skipped hds, hcased]
      decide
  · right
    intro c hc
    rw [nextIsCased_append_of_not_skipped hds] at h
    have hcs : Skipped cs := by
      by_contra hnot
      rw [nextIsCased_append_of_not_skipped hnot] at h
      exact h rfl
    have hcased : nextIsCased ds = false := by
      by_contra hnot
      rw [Bool.not_eq_false] at hnot
      simp [hnot] at h
    rw [nextIsCased_append_of_skipped hcs, hc.nextIsCased, nextIsCased_of_skipped hcs, hcased]
    decide

/-! ## Parts in their places -/

/-- The small letters of a character between two texts. -/
def lowerAt (before after : List Char) (c : Char) : List Char :=
  if c = 'Σ' then
    if endsWord before after then ['ς'] else ['σ']
  else if c = 'İ' then ['i', '\u0307']
  else [lowerSimple c]

/-- The small letters of a part between two texts. -/
def lowerIn (before after : List Char) : List Char → List Char
  | [] => []
  | c :: cs => lowerAt before (cs ++ after) c ++ lowerIn (c :: before) after cs

/-- **The small letters of a text are those of its parts in their places.** -/
theorem lowerChars_append (before part after : List Char) : lowerChars before (part ++ after) =
    lowerIn before after part ++ lowerChars (part.reverse ++ before) after := by
  induction part generalizing before with
  | nil => rfl
  | cons c part ih =>
    rw [List.cons_append, lowerChars, ih, lowerIn, List.append_assoc, List.reverse_cons,
      List.append_assoc]
    rfl

theorem lowerChars_eq_lowerIn (before part : List Char) :
    lowerChars before part = lowerIn before [] part := by
  have happend := lowerChars_append before part []
  rwa [List.append_nil, lowerChars, List.append_nil] at happend

theorem length_lowerAt (before after : List Char) (c : Char) : (lowerAt before after c).length =
    (lowerAt before' after' c).length := by
  unfold lowerAt
  split
  · split <;> split <;> rfl
  · rfl

theorem length_lowerIn (before after part : List Char) : (lowerIn before after part).length =
    (lowerIn before' after' part).length := by
  induction part generalizing before before' with
  | nil => rfl
  | cons c part ih =>
    rw [lowerIn, lowerIn, List.length_append, List.length_append, length_lowerAt (c := c), ih]

theorem lowerAt_eq_lowerAt_iff : lowerAt before after c = lowerAt before' after' c ↔
    (c = 'Σ' → endsWord before after = endsWord before' after') := by
  unfold lowerAt
  by_cases hc : c = 'Σ'
  · rw [if_pos hc, if_pos hc]
    cases endsWord before after <;> cases endsWord before' after' <;> simp [hc]
  · rw [if_neg hc, if_neg hc]
    simp [hc]

/-- **A part has the same small letters in two places exactly if its capital sigmas end words
alike.** -/
theorem lowerIn_eq_lowerIn_iff : lowerIn before after part = lowerIn before' after' part ↔
    ∀ front back, part = front ++ 'Σ' :: back →
      endsWord (front.reverse ++ before) (back ++ after) =
        endsWord (front.reverse ++ before') (back ++ after') := by
  induction part generalizing before before' with
  | nil => simp [lowerIn]
  | cons c part ih =>
    have hsplit : lowerIn before after (c :: part) = lowerIn before' after' (c :: part) ↔
        lowerAt before (part ++ after) c = lowerAt before' (part ++ after') c ∧
          lowerIn (c :: before) after part = lowerIn (c :: before') after' part := by
      rw [lowerIn, lowerIn]
      exact ⟨fun h => List.append_inj h (length_lowerAt ..), fun ⟨h, h'⟩ => by rw [h, h']⟩
    rw [hsplit, lowerAt_eq_lowerAt_iff, ih]
    constructor
    · rintro ⟨hfirst, hrest⟩ front back hpart
      rcases List.cons_eq_append_iff.1 hpart with ⟨rfl, hback⟩ | ⟨front, rfl, rfl⟩
      · obtain ⟨rfl, rfl⟩ := List.cons.inj hback
        exact hfirst rfl
      · simpa using hrest front back rfl
    · intro h
      refine ⟨fun hc => h [] part (by rw [hc]; rfl), fun front back hpart => ?_⟩
      simpa using h (c :: front) back (by rw [hpart]; rfl)

/-! ## Parts that keep their small letters -/

/-- In a place, the capital sigmas of a part end words as they do in the part alone. -/
def Keeps (before after part : List Char) : Prop :=
  ∀ front back, part = front ++ 'Σ' :: back →
    endsWord (front.reverse ++ before) (back ++ after) = endsWord front.reverse back

/-- **In a place a part has the small letters that it has alone exactly if it keeps its sigmas.** -/
theorem lowerIn_eq_lowerChars_iff :
    lowerIn before after part = lowerChars [] part ↔ Keeps before after part := by
  rw [lowerChars_eq_lowerIn, lowerIn_eq_lowerIn_iff]
  simp only [List.append_nil]
  rfl

theorem keeps_nil (part : List Char) : Keeps [] [] part :=
  lowerIn_eq_lowerChars_iff.1 (lowerChars_eq_lowerIn [] part).symm

theorem keeps_of_notMem (h : 'Σ' ∉ part) : Keeps before after part := by
  rintro front back rfl
  exact absurd (List.mem_append_right _ List.mem_cons_self) h

/-- If a place changes a sigma, then a letter behind the part does, or one in front of it. -/
theorem not_keeps_letter (h : ¬ Keeps before after part) :
    (∀ c, IsLetter c → ¬ Keeps [] [c] part) ∨ ∀ c, IsLetter c → ¬ Keeps [c] [] part := by
  unfold Keeps at h
  push Not at h
  obtain ⟨front, back, hpart, hne⟩ := h
  refine (endsWord_letter hne).imp (fun hletter c hc hkeeps => ?_) fun hletter c hc hkeeps => ?_
  · exact hletter c hc (by simpa using hkeeps front back hpart)
  · exact hletter c hc (by simpa using hkeeps front back hpart)

theorem exists_letter_ne (o : Option Char) :
    ∃ c, IsLetter c ∧ (∀ before after, lowerIn before after [c] = [c]) ∧ o ≠ some c := by
  by_cases ha : o = some 'a'
  · subst ha
    exact ⟨'b', ⟨by decide +kernel, by decide +kernel⟩, fun _ _ => rfl, by decide⟩
  · exact ⟨'a', ⟨by decide +kernel, by decide +kernel⟩, fun _ _ => rfl, ha⟩

/-- What is as long as a text and in it is the text. -/
theorem keeps_of_infix_lowerIn (h : lowerChars [] part <:+: lowerIn before after part) :
    Keeps before after part := by
  refine lowerIn_eq_lowerChars_iff.1 (h.eq_of_length ?_).symm
  rw [lowerChars_eq_lowerIn]
  exact length_lowerIn ..

/-- **A part that some place changes is in a text whose small letters do not hold its own.** -/
theorem exists_infix_of_not_keeps (h : ¬ Keeps before after part) :
    ∃ text, part <:+: text ∧ ¬ lowerChars [] part <:+: lowerChars [] text := by
  have hne : lowerChars [] part ≠ [] := by
    intro hnil
    refine h (keeps_of_infix_lowerIn ?_)
    rw [hnil]
    exact List.nil_infix
  -- The letter differs from the last one of the part, or the first, so the small letters of the
  -- part do not reach over it and could be found in their own place only.
  rcases not_keeps_letter h with hbehind | hfront
  · obtain ⟨c, hletter, hlower, hlast⟩ := exists_letter_ne (lowerChars [] part).getLast?
    refine ⟨part ++ [c], (List.prefix_append _ _).isInfix, fun hinside => ?_⟩
    rw [lowerChars_append, lowerChars_eq_lowerIn _ [c], hlower, List.infix_concat_iff] at hinside
    rcases hinside with hsuffix | hinside
    · refine hlast ?_
      obtain ⟨start, hstart⟩ := hsuffix
      have hlast' := congrArg List.getLast? hstart
      rwa [List.getLast?_append_of_ne_nil _ hne, List.getLast?_concat] at hlast'
    · exact hbehind c hletter (keeps_of_infix_lowerIn hinside)
  · obtain ⟨c, hletter, hlower, hhead⟩ := exists_letter_ne (lowerChars [] part).head?
    refine ⟨[c] ++ part, (List.suffix_append _ _).isInfix, fun hinside => ?_⟩
    rw [lowerChars_append, hlower, lowerChars_eq_lowerIn ([c].reverse ++ []), List.singleton_append,
      List.infix_cons_iff] at hinside
    rcases hinside with hstart | hinside
    · refine hhead ?_
      obtain ⟨rest, hrest⟩ := hstart
      have hhead' := congrArg List.head? hrest
      rwa [List.head?_append_of_ne_nil _ hne, List.head?_cons] at hhead'
    · exact hfront c hletter (keeps_of_infix_lowerIn hinside)

end StoreQuery.Text
