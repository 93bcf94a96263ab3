import StoreQuery.Proofs.Sql.Placeholders

/-!
# Columns of a statement

A word is a run of letters, digits, underscores, dots and colons that goes as far as it can. A word
with a dot and without a colon is a column, which has a table and a name in it; one with a colon is
a placeholder. `columns` reads the columns off a text, without knowing how the text was made.

**The columns of two texts with a border between them are those of the one and those of the other**
(`columnsIn_append`). So putting conditions together adds none and loses none
(`columns_joinConditions`), and **the condition of a leaf has exactly the column of the leaf**
(`columns_leafText`).
-/

namespace StoreQuery.Sql

/-- A character of names, a dot or a colon. -/
def isWordChar (c : Char) : Bool := isNameChar c || c == '.' || c == ':'

/-- Whether a word has a dot and no colon. -/
def isColumnWord (word : List Char) : Bool := word.contains '.' && !word.contains ':'

def columnsIn (cs : List Char) : List String :=
  ((cs.splitOnP fun c => !isWordChar c).filter isColumnWord).map String.ofList

/-- The columns in a text, in their order. -/
def columns (text : String) : List String := columnsIn text.toList

/-! ## Words -/

variable {c : Char}

/-- **No word goes on across a character that belongs to none.** -/
theorem columnsIn_append (h : isWordChar c = false) (cs ds : List Char) :
    columnsIn (cs ++ c :: ds) = columnsIn cs ++ columnsIn ds := by
  rw [columnsIn, List.splitOnP_append_cons cs ds (by simp [h]), List.filter_append,
    List.map_append]
  rfl

theorem columnsIn_cons (h : isWordChar c = false) (cs : List Char) :
    columnsIn (c :: cs) = columnsIn cs :=
  columnsIn_append h [] cs

theorem columnsIn_word {word : List Char} (h : ∀ c ∈ word, isWordChar c = true) :
    columnsIn word = if isColumnWord word then [String.ofList word] else [] := by
  rw [columnsIn, List.splitOnP_eq_singleton fun c hc => by simp [h c hc]]
  cases hcolumn : isColumnWord word <;> simp [hcolumn]

theorem mem_of_mem_splitOnP {p : Char → Bool} {cs word : List Char} (h : word ∈ cs.splitOnP p)
    (hc : c ∈ word) : c ∈ cs := by
  induction cs generalizing word with
  | nil =>
    obtain rfl : word = [] := by simpa [List.splitOnP_nil] using h
    cases hc
  | cons b cs ih =>
    rw [List.splitOnP_cons_eq_if_modifyHead] at h
    split_ifs at h
    · rcases List.mem_cons.1 h with rfl | h
      · cases hc
      · exact List.mem_cons_of_mem b (ih h hc)
    · obtain ⟨first, rest, hwords⟩ := List.exists_cons_of_ne_nil (List.splitOnP_ne_nil p cs)
      rw [hwords, List.modifyHead_cons] at h
      rw [hwords] at ih
      rcases List.mem_cons.1 h with rfl | h
      · rcases List.mem_cons.1 hc with rfl | hc
        · exact List.mem_cons_self
        · exact List.mem_cons_of_mem b (ih List.mem_cons_self hc)
      · exact List.mem_cons_of_mem b (ih (List.mem_cons_of_mem first h) hc)

theorem columnsIn_of_notMem {cs : List Char} (h : '.' ∉ cs) : columnsIn cs = [] := by
  rw [columnsIn, List.map_eq_nil_iff, List.filter_eq_nil_iff]
  intro word hword hcolumn
  obtain ⟨hdot, -⟩ := (Bool.and_eq_true _ _).mp hcolumn
  exact h (mem_of_mem_splitOnP hword (List.contains_iff_mem.1 hdot))

/-! ## Conditions put together -/

theorem columns_joinConditions (k : Connective) (texts : List String) :
    columns (joinConditions k texts) = texts.flatMap columns := by
  have hparentheses (text : String) (ds : List Char) :
      columnsIn (("(" ++ text ++ ")").toList ++ ds) = columns text ++ columnsIn ds := by
    have hchars : ("(" ++ text ++ ")").toList ++ ds = '(' :: (text.toList ++ ')' :: ds) := by simp
    rw [hchars, columnsIn_cons (by decide), columnsIn_append (by decide)]
    rfl
  rw [joinConditions]
  induction texts with
  | nil => rfl
  | cons text texts ih =>
    cases texts with
    | nil =>
      have hone := hparentheses text []
      rw [List.append_nil] at hone
      exact hone
    | cons next rest =>
      have hbetween (ds : List Char) :
          columnsIn ((" " ++ k.text ++ " ").toList ++ ds) = columnsIn ds := by
        cases k with
        | and => exact columnsIn_append (c := ' ') (by decide) " AND".toList ds
        | or => exact columnsIn_append (c := ' ') (by decide) " OR".toList ds
      rw [List.map_cons, Text.join_cons _ (by simp), columns, String.toList_append,
        String.toList_append, List.append_assoc, hparentheses, hbetween, List.flatMap_cons, ← ih]
      rfl

/-! ## The condition of a leaf -/

/-- A text of names and dots between them. -/
structure IsColumn (text : String) : Prop where
  chars : ∀ c ∈ text.toList, isNameChar c = true ∨ c = '.'
  dot : '.' ∈ text.toList

/-- A column is a table and a name. -/
theorem isColumn_of_isName {table name : String} (htable : IsName table) (hname : IsName name) :
    IsColumn (table ++ "." ++ name) := by
  have hchars : (table ++ "." ++ name).toList = table.toList ++ '.' :: name.toList := by simp
  refine ⟨fun c hc => ?_, by simp⟩
  rw [hchars] at hc
  rcases List.mem_append.1 hc with hc | hc
  · exact .inl (htable c hc)
  · rcases List.mem_cons.1 hc with rfl | hc
    · exact .inr rfl
    · exact .inl (hname c hc)

theorem IsColumn.columnsIn_eq {column : String} (h : IsColumn column) :
    columnsIn column.toList = [column] := by
  have hword : ∀ c ∈ column.toList, isWordChar c = true := by
    intro c hc
    rcases h.chars c hc with hname | rfl
    · simp [isWordChar, hname]
    · rfl
  have hcolon : ':' ∉ column.toList := fun hc => by
    rcases h.chars ':' hc with hname | hdot
    · exact absurd hname (by decide)
    · exact absurd hdot (by decide)
  rw [columnsIn_word hword, if_pos (by simp [isColumnWord, h.dot, hcolon]), String.ofList_toList]

/-- The parameter of a list has dots, but it is no column. -/
theorem columnsIn_list {parameter : String} (h : IsName parameter) :
    columnsIn ('(' :: ':' :: '.' :: '.' :: '.' :: (parameter.toList ++ [')'])) = [] := by
  have hword : ∀ c ∈ ':' :: '.' :: '.' :: '.' :: parameter.toList, isWordChar c = true := by
    simp only [List.forall_mem_cons]
    exact ⟨rfl, rfl, rfl, rfl, fun c hc => by simp [isWordChar, h c hc]⟩
  have hclosed := columnsIn_append (c := ')') (by decide)
    (':' :: '.' :: '.' :: '.' :: parameter.toList) []
  rw [columnsIn_word hword, if_neg (by simp [isColumnWord])] at hclosed
  rw [columnsIn_cons (by decide)]
  exact hclosed

/-- **The condition of a leaf has exactly the column of the leaf.** -/
theorem columns_leafText (schema : Schema) (op : Operator) {column parameter : String}
    (hcolumn : IsColumn column) (hname : IsName parameter) :
    columns (leafText schema op column parameter) = [column] := by
  have hdot := hname.notMem (c := '.') (by decide)
  have hborder (b : Char) (hb : isWordChar b = false) (ds : List Char) :
      columnsIn (column.toList ++ b :: ds) = column :: columnsIn ds := by
    rw [columnsIn_append hb, hcolumn.columnsIn_eq]
    rfl
  have hblank := hborder ' ' (by decide)
  have hlower (ds : List Char) :
      columnsIn ('L' :: 'O' :: 'W' :: 'E' :: 'R' :: '(' :: (column.toList ++ ')' :: ds)) =
        column :: columnsIn ds := by
    rw [← hborder ')' (by decide)]
    exact columnsIn_append (by decide) "LOWER".toList (column.toList ++ ')' :: ds)
  have hin (ds : List Char) : columnsIn ('I' :: 'N' :: ' ' :: ds) = columnsIn ds :=
    columnsIn_append (by decide) "IN".toList ds
  have hnot (ds : List Char) : columnsIn ('N' :: 'O' :: 'T' :: ' ' :: ds) = columnsIn ds :=
    columnsIn_append (by decide) "NOT".toList ds
  have hspace (ds : List Char) : columnsIn (' ' :: ds) = columnsIn ds :=
    columnsIn_cons (by decide) ds
  rw [columns]
  cases op with
  | eq | neq | gt | gte | lt | lte | starts | ends | contains | notContains | between | isNull
    | notNull => simp [leafText, hblank, columnsIn_of_notMem, hdot]
  | eqLower | neqLower => simp [leafText, hlower, columnsIn_of_notMem, hdot]
  | startsLower | endsLower | containsLower | notContainsLower =>
    rw [leafText, iLike]
    split_ifs <;> simp [hblank, hlower, columnsIn_of_notMem, hdot]
  | isIn | notIn => simp [leafText, hblank, hin, hnot, columnsIn_list hname]
  | inLower | notInLower => simp [leafText, hlower, hspace, hin, hnot, columnsIn_list hname]

end StoreQuery.Sql
