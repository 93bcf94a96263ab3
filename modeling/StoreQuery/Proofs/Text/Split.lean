import StoreQuery.Path

/-!
# Cutting and joining are inverse

**Joining the parts of a text gives the text back** (`join_split`). So a path that was read from a
text has this text (`Path.toText_ofText`), and paths of different texts differ.

**Cutting a text that was joined cuts its parts** (`split_join`). So parts that hold the separator
are not told apart from more parts, and two lists of parts join to one text exactly if they cut to
the same words (`join_eq_join_iff`).

A text is cut once at the first separator (`cutAt_eq_some_iff`), also where separators overlap, and
not at all if it holds none (`cutAt_eq_none_iff`).
-/

namespace StoreQuery

namespace Text

theorem splitChars_ne_nil (sep : Char) (cs : List Char) : splitChars sep cs ≠ [] := by
  cases cs with
  | nil => simp [splitChars]
  | cons c cs =>
    rw [splitChars]
    split
    · simp
    · split <;> simp

theorem join_cons {part : String} {parts : List String} (sep : String) (h : parts ≠ []) :
    join sep (part :: parts) = part ++ sep ++ join sep parts := by
  cases parts with
  | nil => exact absurd rfl h
  | cons => rw [join]; simp

theorem join_append (sep : String) {parts others : List String} (h : parts ≠ [])
    (h' : others ≠ []) : join sep (parts ++ others) = join sep parts ++ sep ++ join sep others := by
  induction parts with
  | nil => exact absurd rfl h
  | cons part parts ih =>
    cases parts with
    | nil => exact join_cons sep h'
    | cons next rest =>
      have hne := List.cons_ne_nil next rest
      rw [List.cons_append, join_cons sep (List.append_ne_nil_of_left_ne_nil hne others), ih hne,
        join_cons sep hne]
      simp only [String.append_assoc]

theorem infix_join (sep : String) {part : String} {parts : List String} (h : part ∈ parts) :
    part.toList <:+: (join sep parts).toList := by
  induction parts with
  | nil => cases h
  | cons first rest ih =>
    by_cases hrest : rest = []
    · subst hrest
      obtain rfl := List.mem_singleton.1 h
      exact List.infix_refl _
    · rw [join_cons sep hrest, String.toList_append, String.toList_append]
      rcases List.mem_cons.1 h with rfl | h
      · rw [List.append_assoc]
        exact (List.prefix_append _ _).isInfix
      · exact (ih h).trans (List.suffix_append _ _).isInfix

/-- A character in front of the first part stands in front of the whole. -/
theorem join_ofList_cons (sep : String) (c : Char) (part : List Char) (parts : List String) :
    join sep (String.ofList (c :: part) :: parts) =
      String.ofList [c] ++ join sep (String.ofList part :: parts) := by
  have hc : String.ofList (c :: part) = String.ofList [c] ++ String.ofList part := by
    rw [← String.ofList_append]; rfl
  cases parts with
  | nil => exact hc
  | cons next rest =>
    have hne := List.cons_ne_nil next rest
    rw [join_cons sep hne, join_cons sep hne, hc, String.append_assoc, String.append_assoc,
      String.append_assoc]

/-- **Joining the parts of a text gives the text back.** -/
theorem join_split (sep : Char) (text : String) :
    join (String.ofList [sep]) (split sep text) = text := by
  suffices h : ∀ cs, join (String.ofList [sep]) ((splitChars sep cs).map String.ofList) =
      String.ofList cs by rw [split, h, String.ofList_toList]
  intro cs
  induction cs with
  | nil => rfl
  | cons c cs ih =>
    rw [splitChars]
    split
    · rename_i hc
      rw [List.map_cons, join_cons _ (by simpa using splitChars_ne_nil sep cs), ih, ← hc]
      rw [← String.ofList_append, ← String.ofList_append]
      rfl
    · split
      · rename_i hnil; exact absurd hnil (splitChars_ne_nil sep cs)
      · rename_i part parts hparts
        rw [hparts, List.map_cons] at ih
        rw [List.map_cons, join_ofList_cons, ih, ← String.ofList_append]
        rfl

/-- A separator cuts, whatever stands in front of it and behind it. -/
theorem splitChars_append (sep : Char) (cs ds : List Char) :
    splitChars sep (cs ++ sep :: ds) = splitChars sep cs ++ splitChars sep ds := by
  induction cs with
  | nil => simp [splitChars]
  | cons c cs ih =>
    rw [List.cons_append, splitChars, splitChars, ih]
    split
    · rfl
    · cases hparts : splitChars sep cs with
      | nil => exact absurd hparts (splitChars_ne_nil sep cs)
      | cons part parts => rfl

theorem split_ne_nil (sep : Char) (text : String) : split sep text ≠ [] := by
  simpa [split] using splitChars_ne_nil sep text.toList

theorem split_append (sep : Char) (text other : String) :
    split sep (text ++ String.ofList [sep] ++ other) = split sep text ++ split sep other := by
  rw [split, String.toList_append, String.toList_append, String.toList_ofList, List.append_assoc,
    List.singleton_append, splitChars_append, List.map_append]
  rfl

theorem split_of_notMem {sep : Char} {text : String} (h : sep ∉ text.toList) :
    split sep text = [text] := by
  suffices hchars : ∀ cs : List Char, sep ∉ cs → splitChars sep cs = [cs] by
    rw [split, hchars _ h, List.map_singleton, String.ofList_toList]
  intro cs hcs
  induction cs with
  | nil => rfl
  | cons c cs ih =>
    obtain ⟨hc, hcs⟩ := not_or.1 (mt List.mem_cons.2 hcs)
    rw [splitChars, if_neg (Ne.symm hc), ih hcs]

theorem notMem_of_mem_split {sep : Char} {text part : String} (h : part ∈ split sep text) :
    sep ∉ part.toList := by
  suffices hchars : ∀ cs : List Char, ∀ part ∈ splitChars sep cs, sep ∉ part by
    obtain ⟨chars, hmem, rfl⟩ := List.mem_map.1 h
    rw [String.toList_ofList]
    exact hchars _ chars hmem
  intro cs
  induction cs with
  | nil => simp [splitChars]
  | cons c cs ih =>
    intro part hpart
    rw [splitChars] at hpart
    split at hpart
    · rcases List.mem_cons.1 hpart with rfl | hpart
      · exact List.not_mem_nil
      · exact ih part hpart
    · rename_i hc
      cases hparts : splitChars sep cs with
      | nil => exact absurd hparts (splitChars_ne_nil sep cs)
      | cons first rest =>
        rw [hparts] at ih hpart
        rcases List.mem_cons.1 hpart with rfl | hpart
        · exact fun hmem => (List.mem_cons.1 hmem).elim (fun hsep => hc hsep.symm)
            (ih first List.mem_cons_self)
        · exact ih part (List.mem_cons_of_mem _ hpart)

/-- **Cutting a text that was joined cuts its parts.** -/
theorem split_join (sep : Char) {parts : List String} (h : parts ≠ []) :
    split sep (join (String.ofList [sep]) parts) = parts.flatMap (split sep) := by
  induction parts with
  | nil => exact absurd rfl h
  | cons part parts ih =>
    cases parts with
    | nil => simp [join]
    | cons next rest =>
      have hne := List.cons_ne_nil next rest
      rw [join_cons _ hne, split_append, ih hne, ← List.flatMap_cons]

theorem split_join_of_notMem (sep : Char) {parts : List String} (h : parts ≠ [])
    (hparts : ∀ part ∈ parts, sep ∉ part.toList) :
    split sep (join (String.ofList [sep]) parts) = parts := by
  calc split sep (join (String.ofList [sep]) parts)
      = parts.flatMap (split sep) := split_join sep h
    _ = (parts.map fun part => [part]).flatten := by
      rw [List.flatMap_def]
      exact congrArg List.flatten
        (List.map_congr_left fun part hpart => split_of_notMem (hparts part hpart))
    _ = parts := List.flatMap_singleton' parts

/-- Lists of parts join to one text exactly if they cut to the same words. -/
theorem join_eq_join_iff (sep : Char) {parts others : List String} (h : parts ≠ [])
    (h' : others ≠ []) :
    join (String.ofList [sep]) parts = join (String.ofList [sep]) others ↔
      parts.flatMap (split sep) = others.flatMap (split sep) := by
  rw [← split_join sep h, ← split_join sep h']
  constructor
  · exact congrArg (split sep)
  · intro hwords
    rw [← join_split sep (join _ parts), hwords, join_split]

/-! ## Cutting once -/

theorem beginsWith_append (start rest : List Char) : beginsWith start (start ++ rest) = true := by
  rw [beginsWith, List.isPrefixOf_iff_prefix]
  exact List.prefix_append start rest

theorem containsChars_iff {part text : List Char} :
    containsChars part text = true ↔ part <:+: text := by
  induction text with
  | nil =>
    rw [containsChars, beginsWith, List.isPrefixOf_iff_prefix, List.prefix_nil, List.infix_nil]
  | cons c text ih =>
    rw [containsChars, Bool.or_eq_true, ih, beginsWith, List.isPrefixOf_iff_prefix,
      List.infix_cons_iff]

/-- A character that is not in a text goes beyond every beginning with it. -/
theorem beginsWith_append_of_notMem {c : Char} {start : List Char} (h : c ∉ start)
    (cs ds : List Char) : beginsWith start (cs ++ c :: ds) = beginsWith start cs := by
  rw [beginsWith, beginsWith]
  induction start generalizing cs with
  | nil => rw [List.isPrefixOf, List.isPrefixOf]
  | cons b start ih =>
    obtain ⟨hb, hstart⟩ := not_or.1 (mt List.mem_cons.2 h)
    cases cs with
    | nil => simp [List.isPrefixOf, Ne.symm hb]
    | cons d cs => rw [List.cons_append, List.isPrefixOf, List.isPrefixOf, ih hstart]

/-- The first cut is the first separator, if nothing in front of it can begin one. -/
theorem cutCharsAt_append {c : Char} {before : List Char} (sep after : List Char)
    (h : c ∉ before) : cutCharsAt (c :: sep) (before ++ (c :: sep ++ after)) =
      some (before, after) := by
  induction before with
  | nil =>
    rw [List.nil_append, List.cons_append, cutCharsAt, ← List.cons_append, beginsWith_append,
      if_pos rfl, List.drop_left]
  | cons d before ih =>
    obtain ⟨hd, hbefore⟩ := not_or.1 (mt List.mem_cons.2 h)
    have hbegins : beginsWith (c :: sep) (d :: (before ++ (c :: sep ++ after))) = false := by
      simp [beginsWith, List.isPrefixOf, hd]
    rw [List.cons_append, cutCharsAt, hbegins, if_neg Bool.false_ne_true, ih hbefore]
    rfl

/-- What stands in front of the first separator, and behind it. -/
theorem cutAt_append {c : Char} {sep before : String} {rest : List Char}
    (hsep : sep.toList = c :: rest) (h : c ∉ before.toList) (after : String) :
    cutAt sep (before ++ sep ++ after) = some (before, after) := by
  rw [cutAt, String.toList_append, String.toList_append, List.append_assoc, hsep,
    cutCharsAt_append rest after.toList h]
  simp only [Option.map_some, String.ofList_toList]

/-- A text is cut in two by the first separator in it. -/
structure FirstCut (sep text before after : String) : Prop where
  whole : text = before ++ sep ++ after
  first : ∀ before' after', text = before' ++ sep ++ after' → before.length ≤ before'.length

theorem FirstCut.unique {sep text before after before' after' : String}
    (h : FirstCut sep text before after) (h' : FirstCut sep text before' after') :
    before = before' ∧ after = after' := by
  have hlength : before.length = before'.length :=
    Nat.le_antisymm (h.first _ _ h'.whole) (h'.first _ _ h.whole)
  have hwhole := congrArg String.toList (h.whole.symm.trans h'.whole)
  simp only [String.toList_append, List.append_assoc] at hwhole
  obtain ⟨hbefore, hrest⟩ := List.append_inj hwhole (by simpa [String.length_toList])
  exact ⟨String.toList_injective hbefore, String.toList_injective (List.append_cancel_left hrest)⟩

/-- What is cut off is put together again, and no separator begins further in front. -/
theorem cutCharsAt_eq_some {sep cs before after : List Char}
    (h : cutCharsAt sep cs = some (before, after)) :
    cs = before ++ sep ++ after ∧
      ∀ before' after', cs = before' ++ sep ++ after' → before.length ≤ before'.length := by
  induction cs generalizing before with
  | nil =>
    rw [cutCharsAt] at h
    split at h
    · rename_i hsep
      rw [beginsWith, List.isPrefixOf_iff_prefix, List.prefix_nil] at hsep
      cases h
      exact ⟨by simp [hsep], fun _ _ _ => Nat.zero_le _⟩
    · cases h
  | cons c cs ih =>
    rw [cutCharsAt] at h
    split at h
    · rename_i hsep
      rw [beginsWith, List.isPrefixOf_iff_prefix, List.prefix_iff_eq_append] at hsep
      cases h
      exact ⟨hsep.symm, fun _ _ _ => Nat.zero_le _⟩
    · rename_i hsep
      rw [beginsWith, List.isPrefixOf_iff_prefix] at hsep
      obtain ⟨⟨rest, _⟩, hrest, hcons⟩ := Option.map_eq_some_iff.1 h
      cases hcons
      obtain ⟨hwhole, hfirst⟩ := ih hrest
      refine ⟨by rw [hwhole]; rfl, ?_⟩
      intro before' after' h'
      cases before' with
      | nil => exact absurd ⟨after', h'.symm⟩ hsep
      | cons d before' => exact Nat.succ_le_succ (hfirst before' after' (List.cons.inj h').2)

theorem cutCharsAt_eq_none_iff {sep cs : List Char} :
    cutCharsAt sep cs = none ↔ ¬ sep <:+: cs := by
  induction cs with
  | nil => simp [cutCharsAt, beginsWith]
  | cons c cs ih =>
    rw [cutCharsAt, List.infix_cons_iff, not_or, ← ih, beginsWith, ← List.isPrefixOf_iff_prefix]
    split <;> simp_all

theorem cutAt_eq_none_iff {sep text : String} :
    cutAt sep text = none ↔ ¬ sep.toList <:+: text.toList := by
  rw [cutAt, Option.map_eq_none_iff, cutCharsAt_eq_none_iff]

theorem firstCut_of_cutAt {sep text before after : String}
    (h : cutAt sep text = some (before, after)) : FirstCut sep text before after := by
  obtain ⟨⟨chars, chars'⟩, hcut, hparts⟩ := Option.map_eq_some_iff.1 h
  cases hparts
  obtain ⟨hwhole, hfirst⟩ := cutCharsAt_eq_some hcut
  constructor
  · apply String.toList_injective
    simpa using hwhole
  · intro before' after' h'
    have hlength := hfirst before'.toList after'.toList (by simp [h'])
    simpa [String.length_toList] using hlength

/-- **A text is cut at the first separator in it.** -/
theorem cutAt_eq_some_iff {sep text before after : String} :
    cutAt sep text = some (before, after) ↔ FirstCut sep text before after := by
  constructor
  · exact firstCut_of_cutAt
  · intro h
    cases hcut : cutAt sep text with
    | none =>
      refine absurd ⟨before.toList, after.toList, ?_⟩ (cutAt_eq_none_iff.1 hcut)
      simp [h.whole]
    | some parts =>
      obtain ⟨rfl, rfl⟩ := h.unique (firstCut_of_cutAt hcut)
      rfl

end Text

namespace Path

theorem join_assoc (p q r : Path) : (p.join q).join r = p.join (q.join r) :=
  congrArg Path.mk (List.append_assoc ..)

theorem join_root (p : Path) : p.join .root = p := congrArg Path.mk (List.append_nil _)

theorem root_join (p : Path) : root.join p = p := rfl

/-- The path that several names lead along, each of which may be dotted. -/
def ofNames (names : List String) : Path := ⟨names.flatMap (Text.split '.')⟩

theorem ofNames_cons (name : String) (names : List String) :
    ofNames (name :: names) = (ofText name).join (ofNames names) := rfl

@[simp] theorem toText_ofText (text : String) : (ofText text).toText = text :=
  Text.join_split '.' text

/-- What stands below the path of a text has a text that begins with it. -/
theorem toText_ofText_join (text : String) (rest : Path) :
    ((ofText text).join rest).toText = text ∨
      ((ofText text).join rest).toText = text ++ "." ++ rest.toText := by
  have hne := Text.split_ne_nil '.' text
  by_cases h : rest.segments = []
  · left
    rw [join, h, List.append_nil]
    exact toText_ofText text
  · right
    rw [toText, join, ofText, Text.join_append "." hne h]
    exact congrArg (· ++ "." ++ rest.toText) (toText_ofText text)

theorem ofText_injective {text other : String} (h : ofText text = ofText other) :
    text = other := by rw [← toText_ofText text, h, toText_ofText]

end Path

end StoreQuery
