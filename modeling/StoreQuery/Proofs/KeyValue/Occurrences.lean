import StoreQuery.Proofs.KeyValue.Words

/-!
# Tokens that occur in a text

A count keeps only what the expressions of a query use, and looks for it in their texts: `#` or `:`
with all the letters, digits and underscores behind it, of which there is at least one.

* `Occurs` says where a token stands in a text. It goes on as far as it can, so a token does not
  occur where a longer one stands that begins with it. **The search finds the tokens that occur**
  (`mem_tokensIn_iff`).
* **These are the words of the text that have a mark in front and something behind it**
  (`occurs_iff`). So what occurs in a text that is put together with blanks and punctuation occurs
  in one of its parts (`tokensOf_around`).
-/

namespace StoreQuery.KeyValue

/-- Whether a character begins a token. -/
def isMark (c : Char) : Bool := c == '#' || c == ':'

theorem isMark_iff {c : Char} : isMark c = true ↔ c = '#' ∨ c = ':' := by simp [isMark]

theorem not_isTokenChar_of_isMark {c : Char} (h : isMark c = true) :
    Query.isTokenChar c = false := by
  rcases isMark_iff.1 h with rfl | rfl <;> decide

theorem isWordChar_of_isMark {c : Char} (h : isMark c = true) : isWordChar c = true := by
  rcases isMark_iff.1 h with rfl | rfl <;> decide

/-! ## Where tokens stand -/

/-- A mark with characters of a token behind it stands in a text, and no more such characters
follow. -/
structure StandsIn (token cs : List Char) (before after : List Char) : Prop where
  text : cs = before ++ token ++ after
  shape : ∃ mark body, token = mark :: body ∧ isMark mark = true ∧ body ≠ [] ∧
    ∀ c ∈ body, Query.isTokenChar c = true
  maximal : ∀ c ∈ after.head?, Query.isTokenChar c = false

/-- A token occurs in a text. -/
def Occurs (token text : String) : Prop :=
  ∃ before after, StandsIn token.toList text.toList before after

section Runs

variable {p : Char → Bool} {body after before cs : List Char} {mark c : Char}

theorem takeWhile_append_of_all (hbody : ∀ c ∈ body, p c = true)
    (hafter : ∀ c ∈ after.head?, p c = false) :
    (body ++ after).takeWhile p = body ∧ (body ++ after).dropWhile p = after := by
  rw [List.takeWhile_append_of_pos hbody, List.dropWhile_append_of_pos hbody]
  cases after with
  | nil => exact ⟨List.append_nil _, rfl⟩
  | cons c after =>
    have hc : p c = false := hafter c rfl
    rw [List.takeWhile_cons_of_neg (by simp [hc]), List.dropWhile_cons_of_neg (by simp [hc])]
    exact ⟨List.append_nil _, rfl⟩

/-- What stops a run is still there after the run has been dropped. -/
theorem dropWhile_append_cons (hmark : p mark = false) :
    (before ++ mark :: cs).dropWhile p = before.dropWhile p ++ mark :: cs := by
  induction before with
  | nil => exact List.dropWhile_cons_of_neg (by simp [hmark])
  | cons c before ih =>
    by_cases hc : p c = true
    · rw [List.cons_append, List.dropWhile_cons_of_pos hc, List.dropWhile_cons_of_pos hc, ih]
    · rw [List.cons_append, List.dropWhile_cons_of_neg hc, List.dropWhile_cons_of_neg hc]
      rfl

theorem head?_dropWhile (cs : List Char) : ∀ c ∈ (cs.dropWhile p).head?, p c = false := by
  intro c hc
  have := List.head?_dropWhile_not p cs
  rw [Option.mem_def.1 hc] at this
  simpa using this

end Runs

theorem standsIn_cons {token cs before after : List Char} {c : Char}
    (h : StandsIn token (c :: cs) before after) :
    (∃ body, token = c :: body ∧ isMark c = true ∧ body ≠ [] ∧
        body = cs.takeWhile Query.isTokenChar ∧ after = cs.dropWhile Query.isTokenChar) ∨
      ∃ before', StandsIn token cs before' after := by
  obtain ⟨htext, hshape, hmaximal⟩ := h
  cases before with
  | nil =>
    obtain ⟨mark, body, rfl, hmark, hne, hbody⟩ := hshape
    obtain ⟨rfl, rfl⟩ := List.cons.inj htext
    obtain ⟨htake, hdrop⟩ := takeWhile_append_of_all hbody hmaximal
    exact .inl ⟨body, rfl, hmark, hne, htake.symm, hdrop.symm⟩
  | cons b before =>
    obtain ⟨rfl, rfl⟩ := List.cons.inj htext
    exact .inr ⟨before, rfl, hshape, hmaximal⟩

theorem StandsIn.cons {token cs before after : List Char} (h : StandsIn token cs before after)
    (c : Char) : StandsIn token (c :: cs) (c :: before) after :=
  ⟨by rw [h.text]; rfl, h.shape, h.maximal⟩

theorem standsIn_run {c : Char} {cs : List Char} (hmark : isMark c = true)
    (hne : cs.takeWhile Query.isTokenChar ≠ []) :
    StandsIn (c :: cs.takeWhile Query.isTokenChar) (c :: cs) [] (cs.dropWhile Query.isTokenChar) :=
  ⟨by simp, ⟨c, _, rfl, hmark, hne, List.all_eq_true.1 List.all_takeWhile⟩, head?_dropWhile cs⟩

/-- Where a text begins with a token, any other one stands behind it. -/
theorem exists_standsIn_cons_iff {token cs : List Char} {c : Char} (hmark : isMark c = true)
    (hne : cs.takeWhile Query.isTokenChar ≠ []) :
    (∃ before after, StandsIn token (c :: cs) before after) ↔
      token = c :: cs.takeWhile Query.isTokenChar ∨
        ∃ before after, StandsIn token (cs.dropWhile Query.isTokenChar) before after := by
  constructor
  · rintro ⟨before, after, hstands⟩
    rcases standsIn_cons hstands with ⟨body, htoken, -, -, rfl, -⟩ | ⟨before, hstands⟩
    · exact .inl htoken
    · -- The token begins with a mark, so it stands behind the whole run.
      obtain ⟨rfl, ⟨mark, body, htoken, hbegins, hrest⟩, hmaximal⟩ := hstands
      refine .inr ⟨before.dropWhile Query.isTokenChar, after, ?_,
        ⟨mark, body, htoken, hbegins, hrest⟩, hmaximal⟩
      rw [htoken, List.append_assoc, List.append_assoc, List.cons_append,
        dropWhile_append_cons (not_isTokenChar_of_isMark hbegins)]
  · rintro (rfl | ⟨before, after, htext, hshape, hmaximal⟩)
    · exact ⟨[], _, standsIn_run hmark hne⟩
    · refine ⟨c :: cs.takeWhile Query.isTokenChar ++ before, after, ?_, hshape, hmaximal⟩
      rw [List.append_assoc, List.append_assoc, ← List.append_assoc before, ← htext,
        List.cons_append, List.takeWhile_append_dropWhile]

/-- Where a text begins with no token, every token stands behind its first character. -/
theorem exists_standsIn_cons_iff_of_not {token cs : List Char} {c : Char}
    (h : ¬ (isMark c = true ∧ cs.takeWhile Query.isTokenChar ≠ [])) :
    (∃ before after, StandsIn token (c :: cs) before after) ↔
      ∃ before after, StandsIn token cs before after := by
  constructor
  · rintro ⟨before, after, hstands⟩
    rcases standsIn_cons hstands with ⟨body, -, hmark, hne, rfl, -⟩ | ⟨before, hstands⟩
    · exact absurd ⟨hmark, hne⟩ h
    · exact ⟨before, after, hstands⟩
  · rintro ⟨before, after, hstands⟩
    exact ⟨c :: before, after, hstands.cons c⟩

/-- **The search finds the tokens that stand in a text.** -/
theorem mem_tokensIn_iff {fuel : Nat} {cs : List Char} (hfuel : cs.length < fuel) {token : String} :
    token ∈ Query.tokensIn fuel cs ↔ ∃ before after, StandsIn token.toList cs before after := by
  induction fuel generalizing cs with
  | zero => omega
  | succ fuel ih =>
    cases cs with
    | nil =>
      refine ⟨nofun, ?_⟩
      rintro ⟨before, after, htext, ⟨mark, body, htoken, -⟩, -⟩
      rw [htoken] at htext
      simp at htext
    | cons c cs =>
      rw [List.length_cons] at hfuel
      have hdrop : (cs.dropWhile Query.isTokenChar).length < fuel := by
        have := (List.dropWhile_suffix Query.isTokenChar (l := cs)).length_le
        omega
      unfold Query.tokensIn
      dsimp only
      split
      · rename_i hfound
        rw [exists_standsIn_cons_iff (isMark_iff.2 hfound.1) hfound.2, List.mem_cons, ih hdrop,
          ← String.toList_inj, String.toList_ofList]
      · rename_i hnone
        have hnot : ¬ (isMark c = true ∧ cs.takeWhile Query.isTokenChar ≠ []) := by
          rwa [isMark_iff]
        rw [exists_standsIn_cons_iff_of_not hnot, ih (by omega)]

/-! ## Tokens among the words -/

/-- Whether a word begins with a mark. -/
def isMarked (word : String) : Bool := word.toList.head?.any isMark

/-- The words of a text that begin with a mark. -/
def tokensOf (text : String) : List String := (wordsOf text).filter isMarked

variable {text token : String}

theorem tokensOf_before (h : endsApart text = true) (rest : String) :
    tokensOf (text ++ rest) = tokensOf text ++ tokensOf rest := by
  rw [tokensOf, wordsOf_before h, List.filter_append]
  rfl

theorem tokensOf_behind (h : beginsApart text = true) (start : String) :
    tokensOf (start ++ text) = tokensOf start ++ tokensOf text := by
  rw [tokensOf, wordsOf_behind h, List.filter_append]
  rfl

/-- What occurs in texts with a separator between them occurs in one of the three. -/
theorem tokensOf_around {separator : String} (hstart : beginsApart separator = true)
    (hend : endsApart separator = true) (a b : String) :
    tokensOf (a ++ separator ++ b) = tokensOf a ++ tokensOf separator ++ tokensOf b := by
  rw [tokensOf, wordsOf_around hstart hend, List.filter_append, List.filter_append]
  rfl

theorem tokensOf_join {separator : String} (hstart : beginsApart separator = true)
    (hend : endsApart separator = true) (hnone : tokensOf separator = []) (texts : List String) :
    tokensOf (Text.join separator texts) = texts.flatMap tokensOf := by
  induction texts with
  | nil => rfl
  | cons text texts ih =>
    by_cases hlast : texts = []
    · rw [hlast, List.flatMap_cons, List.flatMap_nil, List.append_nil]
      rfl
    · rw [Text.join_cons separator hlast, tokensOf_around hstart hend, hnone, ih, List.append_nil,
        List.flatMap_cons]

theorem IsToken.tokensOf {mark : Char} (h : IsToken mark text) (hmark : isMark mark = true) :
    tokensOf text = [text] := by
  rw [KeyValue.tokensOf, h.wordsOf (isMark_iff.1 hmark)]
  obtain ⟨body, htext, -⟩ := h
  exact List.filter_cons_of_pos (by rw [isMarked, htext]; exact hmark)

theorem not_isSymbolChar_of_isWordChar {c : Char} (h : isWordChar c = true) :
    isSymbolChar c = false := by
  by_contra hsymbol
  simp only [isSymbolChar, Bool.not_eq_false, Bool.or_eq_true, beq_iff_eq] at hsymbol
  rcases hsymbol with (rfl | rfl) | rfl <;> exact absurd h (by decide)

theorem words_run {c : Char} (hc : isWordChar c = true) (cs : List Char) :
    words (c :: cs) =
      (c :: cs.takeWhile Query.isTokenChar) :: words (cs.dropWhile Query.isTokenChar) := by
  have hrun : ∀ d ∈ cs.takeWhile Query.isTokenChar, Query.isTokenChar d = true :=
    List.all_eq_true.1 List.all_takeWhile
  have hborder : ∀ e ∈ (c :: cs.takeWhile Query.isTokenChar).getLast?,
      ∀ d ∈ (cs.dropWhile Query.isTokenChar).head?, goesOn e d = false := by
    intro e he d hd
    have hword : isWordChar e = true := by
      rcases List.mem_cons.1 (List.mem_of_getLast? he) with rfl | he
      · exact hc
      · rw [isWordChar, hrun e he]
        rfl
    rw [goesOn, not_isSymbolChar_of_isWordChar hword, head?_dropWhile cs d hd, Bool.false_and,
      Bool.and_false, Bool.or_false]
  have happend := words_append hborder
  rw [words_token hc hrun, List.cons_append, List.takeWhile_append_dropWhile] at happend
  exact happend

/-- A text that does not begin with a blank begins with its first word. -/
theorem exists_words_cons {c : Char} (h : c ≠ ' ') (cs : List Char) :
    ∃ word rest, words (c :: cs) = (c :: word) :: rest := by
  rw [words, if_neg h]
  split
  · cases words cs with
    | nil => exact ⟨[], [], rfl⟩
    | cons word rest => exact ⟨word, rest, rfl⟩
  · exact ⟨[], words cs, rfl⟩

/-- A character in front of a text is left out, is a word of its own, or goes in front of the first
word. -/
theorem words_cons_cases (c : Char) (cs : List Char) :
    words (c :: cs) = words cs ∨ words (c :: cs) = [c] :: words cs ∨
      ∃ d word rest, goesOn c d = true ∧ words cs = (d :: word) :: rest ∧
        words (c :: cs) = (c :: d :: word) :: rest := by
  by_cases hblank : c = ' '
  · exact .inl (by rw [words, if_pos hblank])
  · cases cs with
    | nil => exact .inr (.inl (by simp [words, hblank]))
    | cons d cs =>
      by_cases hd : goesOn c d = true
      · have hnext : d ≠ ' ' := by
          rintro rfl
          exact absurd hd (by rw [not_goesOn_blank]; simp)
        obtain ⟨word, rest, hwords⟩ := exists_words_cons hnext cs
        refine .inr (.inr ⟨d, word, rest, hd, hwords, ?_⟩)
        rw [words, if_neg hblank, hwords]
        exact if_pos hd
      · refine .inr (.inl ?_)
        rw [words, if_neg hblank]
        exact if_neg hd

/-- No word begins with a mark because something is in front of it. -/
theorem not_isMark_of_goesOn {c d : Char} (h : goesOn c d = true) : isMark d = false := by
  by_contra hmark
  rw [Bool.not_eq_false] at hmark
  rw [goesOn, not_isTokenChar_of_isMark hmark,
    not_isSymbolChar_of_isWordChar (isWordChar_of_isMark hmark)] at h
  simp at h

theorem standsIn_iff_mem_words {mark : Char} {body : List Char} (hmark : isMark mark = true)
    (hbody : body ≠ []) (cs : List Char) :
    (∃ before after, StandsIn (mark :: body) cs before after) ↔ mark :: body ∈ words cs := by
  induction cs with
  | nil =>
    refine ⟨?_, nofun⟩
    rintro ⟨before, after, htext, -, -⟩
    simp at htext
  | cons c cs ih =>
    constructor
    · rintro ⟨before, after, hstands⟩
      rcases standsIn_cons hstands with ⟨_, htoken, -, -, rfl, -⟩ | ⟨before, hstands⟩
      · obtain ⟨rfl, rfl⟩ := List.cons.inj htoken
        rw [words_run (isWordChar_of_isMark hmark)]
        exact List.mem_cons_self
      · have hmem := ih.1 ⟨before, after, hstands⟩
        rcases words_cons_cases c cs with hwords | hwords | ⟨d, word, rest, hd, hcs, hwords⟩
        · rwa [hwords]
        · rw [hwords]
          exact List.mem_cons_of_mem _ hmem
        · rw [hcs] at hmem
          rw [hwords]
          rcases List.mem_cons.1 hmem with hfirst | hrest
          · -- The first word goes on from the character in front, so it begins with no mark.
            obtain ⟨rfl, -⟩ := List.cons.inj hfirst
            rw [not_isMark_of_goesOn hd] at hmark
            cases hmark
          · exact List.mem_cons_of_mem _ hrest
    · intro hmem
      rcases words_cons_cases c cs with hwords | hwords | ⟨d, word, rest, -, hcs, hwords⟩
      · rw [hwords] at hmem
        obtain ⟨before, after, hstands⟩ := ih.2 hmem
        exact ⟨c :: before, after, hstands.cons c⟩
      · rw [hwords] at hmem
        rcases List.mem_cons.1 hmem with hfirst | hrest
        · exact absurd (List.cons.inj hfirst).2 hbody
        · obtain ⟨before, after, hstands⟩ := ih.2 hrest
          exact ⟨c :: before, after, hstands.cons c⟩
      · rw [hwords] at hmem
        rcases List.mem_cons.1 hmem with hfirst | hrest
        · obtain ⟨rfl, rfl⟩ := List.cons.inj hfirst
          have hrun := words_run (isWordChar_of_isMark hmark) cs
          rw [hwords] at hrun
          obtain ⟨hrun, -⟩ := List.cons.inj hrun
          obtain ⟨-, hrun⟩ := List.cons.inj hrun
          rw [hrun] at hbody ⊢
          exact ⟨[], _, standsIn_run hmark hbody⟩
        · obtain ⟨before, after, hstands⟩ := ih.2 (hcs ▸ List.mem_cons_of_mem _ hrest)
          exact ⟨c :: before, after, hstands.cons c⟩

/-- **What occurs in a text is a word of it that has something behind a mark.** -/
theorem occurs_iff : Occurs token text ↔ token ∈ tokensOf text ∧ token.length ≠ 1 := by
  rw [tokensOf, List.mem_filter, wordsOf, List.mem_map]
  constructor
  · rintro ⟨before, after, hstands⟩
    obtain ⟨mark, body, htoken, hmark, hbody, -⟩ := hstands.shape
    rw [htoken] at hstands
    have hmem := (standsIn_iff_mem_words hmark hbody _).1 ⟨before, after, hstands⟩
    refine ⟨⟨⟨_, hmem, String.toList_inj.1 (by rw [String.toList_ofList, htoken])⟩, ?_⟩, ?_⟩
    · rw [isMarked, htoken]
      exact hmark
    · rw [← String.length_toList, htoken]
      simpa using hbody
  · rintro ⟨⟨⟨word, hmem, rfl⟩, hmark⟩, hlength⟩
    rw [isMarked, String.toList_ofList] at hmark
    rw [String.length_ofList] at hlength
    cases word with
    | nil => cases hmark
    | cons mark body =>
      have hbody : body ≠ [] := by
        rintro rfl
        exact hlength rfl
      obtain ⟨before, after, hstands⟩ := (standsIn_iff_mem_words hmark hbody _).2 hmem
      exact ⟨before, after, by rwa [String.toList_ofList]⟩

end StoreQuery.KeyValue
