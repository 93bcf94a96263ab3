import Mathlib.Data.List.Basic
import StoreQuery.KeyValue.Query
import StoreQuery.Proofs.Text.Split

/-!
# Words of expressions

An expression is read as a row of words. A word is a keyword or the name of a function, a symbol, a
mark of punctuation, or a token: `#` or `:` and the letters, digits and underscores behind it. A
word goes on as long as characters follow that belong to it; blanks between words say nothing.

**The words of two texts in a row are those of the one and those of the other** (`words_append`) if
no word goes on across the border. This is so wherever one of the two has a blank or a mark of
punctuation at the border, which is seen from that text alone (`endsApart`, `beginsApart`).
-/

namespace StoreQuery.KeyValue

/-! ## Cutting a text into words -/

/-- The characters of comparison symbols. -/
def isSymbolChar (c : Char) : Bool := c == '<' || c == '=' || c == '>'

/-- The characters that letters, digits and underscores can follow in a word. -/
def isWordChar (c : Char) : Bool := Query.isTokenChar c || c == '#' || c == ':'

/-- Whether a word that has come to the first character goes on with the second one. -/
def goesOn (c d : Char) : Bool :=
  (isSymbolChar c && isSymbolChar d) || (isWordChar c && Query.isTokenChar d)

/-- Puts a character in front of the first word. -/
def lengthen (c : Char) : List (List Char) → List (List Char)
  | [] => [[c]]
  | word :: rest => (c :: word) :: rest

/-- The words of a text. -/
def words : List Char → List (List Char)
  | [] => []
  | c :: cs =>
    if c = ' ' then words cs
    else if cs.head?.any (goesOn c) then lengthen c (words cs)
    else [c] :: words cs

theorem not_goesOn_blank (c : Char) : goesOn c ' ' = false := by
  have hsymbol : isSymbolChar ' ' = false := by decide
  have htoken : Query.isTokenChar ' ' = false := by decide
  rw [goesOn, hsymbol, htoken, Bool.and_false, Bool.and_false, Bool.or_false]

theorem words_ne_nil {c : Char} {cs : List Char} (h : c ≠ ' ') : words (c :: cs) ≠ [] := by
  rw [words, if_neg h]
  split
  · cases words cs <;> simp [lengthen]
  · simp

/-- Nothing but blanks is left out of the words of a text. -/
theorem flatten_words (cs : List Char) : (words cs).flatten = cs.filter (· ≠ ' ') := by
  induction cs with
  | nil => rfl
  | cons c cs ih =>
    by_cases hblank : c = ' '
    · rw [words, if_pos hblank, ih, List.filter_cons_of_neg (by simp [hblank])]
    · rw [words, if_neg hblank, List.filter_cons_of_pos (by simp [hblank]), ← ih]
      split
      · cases words cs <;> rfl
      · rfl

/-- **Words do not go on across a border** at which the characters do not belong together. -/
theorem words_append {a b : List Char}
    (h : ∀ c ∈ a.getLast?, ∀ d ∈ b.head?, goesOn c d = false) :
    words (a ++ b) = words a ++ words b := by
  induction a with
  | nil => rfl
  | cons c cs ih =>
    cases cs with
    | nil =>
      -- Only here does the border matter.
      have hborder : b.head?.any (goesOn c) = false := by
        cases hb : b.head? with
        | none => rfl
        | some d => exact h c rfl d hb
      rw [List.singleton_append, words, hborder]
      by_cases hc : c = ' ' <;> simp [words, hc]
    | cons d cs =>
      have hrest := ih fun e he => h e (by rwa [List.getLast?_cons_cons])
      rw [List.cons_append, words, words, hrest]
      show (if c = ' ' then _ else if goesOn c d then _ else _) =
        (if c = ' ' then _ else if goesOn c d then _ else _) ++ _
      by_cases hc : c = ' '
      · rw [if_pos hc, if_pos hc]
      · rw [if_neg hc, if_neg hc]
        by_cases hd : goesOn c d = true
        · -- The first word of the rest is there to be lengthened.
          have hblank : d ≠ ' ' := by
            rintro rfl
            exact absurd hd (by rw [not_goesOn_blank]; simp)
          have hne : words (d :: cs) ≠ [] := words_ne_nil hblank
          obtain ⟨word, rest, hwords⟩ := List.exists_cons_of_ne_nil hne
          rw [if_pos hd, if_pos hd, hwords]
          rfl
        · rw [if_neg hd, if_neg hd, List.cons_append]

/-- Letters, digits and underscores go on with a word. -/
theorem words_token {c : Char} {body : List Char} (hc : isWordChar c = true)
    (hbody : ∀ d ∈ body, Query.isTokenChar d = true) : words (c :: body) = [c :: body] := by
  have hblank : c ≠ ' ' := by
    rintro rfl
    exact absurd hc (by decide)
  induction body generalizing c with
  | nil => simp [words, hblank]
  | cons d body ih =>
    obtain ⟨hd, hrest⟩ := List.forall_mem_cons.1 hbody
    have hword : isWordChar d = true := by rw [isWordChar, hd]; rfl
    have hnext : d ≠ ' ' := by
      rintro rfl
      exact absurd hd (by decide)
    have hon : goesOn c d = true := by rw [goesOn, hc, hd, Bool.and_self, Bool.or_true]
    rw [words, if_neg hblank, ih hword hrest hnext]
    exact if_pos hon

/-! ## Borders -/

/-- Whether a character, as blanks and punctuation do, keeps to itself. -/
def isBorder (c : Char) : Bool := !isSymbolChar c && !isWordChar c

/-- The text begins with a blank or a mark of punctuation. -/
def beginsApart (text : String) : Bool := text.toList.head?.any isBorder

/-- The text ends with a blank or a mark of punctuation. -/
def endsApart (text : String) : Bool := text.toList.getLast?.any isBorder

theorem not_goesOn_of_isBorder {c d : Char} (h : isBorder c = true ∨ isBorder d = true) :
    goesOn c d = false := by
  simp only [isBorder, Bool.and_eq_true, Bool.not_eq_true'] at h
  rcases h with ⟨hsymbol, hword⟩ | ⟨hsymbol, hword⟩
  · rw [goesOn, hsymbol, hword, Bool.false_and, Bool.false_and, Bool.or_false]
  · simp only [isWordChar, Bool.or_eq_false_iff] at hword
    rw [goesOn, hsymbol, hword.1.1, Bool.and_false, Bool.and_false, Bool.or_false]

/-- The words of an expression. -/
def wordsOf (text : String) : List String := (words text.toList).map String.ofList

/-- The words of a text stay apart from what follows a border at its end. -/
theorem wordsOf_before {text : String} (h : endsApart text = true) (rest : String) :
    wordsOf (text ++ rest) = wordsOf text ++ wordsOf rest := by
  rw [wordsOf, String.toList_append, words_append, List.map_append]
  · rfl
  · intro c hc d _
    rw [endsApart, Option.mem_def.1 hc] at h
    exact not_goesOn_of_isBorder (.inl h)

/-- The words of a text stay apart from what stands in front of a border at its start. -/
theorem wordsOf_behind {text : String} (h : beginsApart text = true) (start : String) :
    wordsOf (start ++ text) = wordsOf start ++ wordsOf text := by
  rw [wordsOf, String.toList_append, words_append, List.map_append]
  · rfl
  · intro c _ d hd
    rw [beginsApart, Option.mem_def.1 hd] at h
    exact not_goesOn_of_isBorder (.inr h)

/-- A separator keeps the words on its two sides apart. -/
theorem wordsOf_around {separator : String} (hstart : beginsApart separator = true)
    (hend : endsApart separator = true) (a b : String) :
    wordsOf (a ++ separator ++ b) = wordsOf a ++ wordsOf separator ++ wordsOf b := by
  rw [String.append_assoc, ← wordsOf_behind hstart, ← String.append_assoc]
  have hclosed : endsApart (a ++ separator) = true := by
    obtain ⟨c, hc, hborder⟩ := (Option.any_eq_true _ _).1 hend
    rw [endsApart, String.toList_append, List.getLast?_append, hc]
    exact hborder
  exact wordsOf_before hclosed b

/-! ## Tokens -/

/-- A mark with nothing but ASCII letters, digits and underscores behind it. -/
def IsToken (mark : Char) (text : String) : Prop :=
  ∃ body, text.toList = mark :: body ∧ ∀ c ∈ body, Query.isTokenChar c = true

/-- A token is one word. -/
theorem IsToken.wordsOf {mark : Char} {text : String} (h : IsToken mark text)
    (hmark : mark = '#' ∨ mark = ':') : wordsOf text = [text] := by
  obtain ⟨body, htext, hbody⟩ := h
  have hword : isWordChar mark = true := by rcases hmark with rfl | rfl <;> decide
  rw [KeyValue.wordsOf, htext, words_token hword hbody, List.map_singleton, ← htext,
    String.ofList_toList]

/-! ## Kinds of words -/

/-- A word of an expression, by what it is there for. -/
inductive Word where
  | name (token : String)
  | value (token : String)
  | symbol (text : String)
  | function (text : String)
  | present
  | absent
  | and
  | or
  | not
  | between
  | isIn
  | opening
  | closing
  | comma
  | unknown (text : String)
  deriving DecidableEq, Repr

/-- The words that expressions are made of, besides tokens. -/
def vocabulary : List (String × Word) :=
  [("(", .opening), (")", .closing), (",", .comma), ("AND", .and), ("OR", .or), ("NOT", .not),
    ("BETWEEN", .between), ("IN", .isIn), ("=", .symbol "="), ("<>", .symbol "<>"),
    ("<", .symbol "<"), ("<=", .symbol "<="), (">", .symbol ">"), (">=", .symbol ">="),
    ("begins_with", .function "begins_with"), ("contains", .function "contains"),
    ("attribute_exists", .present), ("attribute_not_exists", .absent)]

/-- The kind of a word. -/
def Word.of (text : String) : Word :=
  match text.toList.head? with
  | some '#' => .name text
  | some ':' => .value text
  | _ => (vocabulary.lookup text).getD (.unknown text)

/-- The kinds of the words of an expression. -/
def kindsOf (text : String) : List Word := (wordsOf text).map .of

theorem IsToken.of_name {text : String} (h : IsToken '#' text) : Word.of text = .name text := by
  obtain ⟨body, htext, -⟩ := h
  rw [Word.of, htext]
  rfl

theorem IsToken.of_value {text : String} (h : IsToken ':' text) : Word.of text = .value text := by
  obtain ⟨body, htext, -⟩ := h
  rw [Word.of, htext]
  rfl

theorem kindsOf_name {text : String} (h : IsToken '#' text) : kindsOf text = [.name text] := by
  rw [kindsOf, h.wordsOf (.inl rfl), List.map_singleton, h.of_name]

theorem kindsOf_value {text : String} (h : IsToken ':' text) : kindsOf text = [.value text] := by
  rw [kindsOf, h.wordsOf (.inr rfl), List.map_singleton, h.of_value]

theorem kindsOf_before {text : String} (h : endsApart text = true) (rest : String) :
    kindsOf (text ++ rest) = kindsOf text ++ kindsOf rest := by
  rw [kindsOf, wordsOf_before h, List.map_append]
  rfl

theorem kindsOf_behind {text : String} (h : beginsApart text = true) (start : String) :
    kindsOf (start ++ text) = kindsOf start ++ kindsOf text := by
  rw [kindsOf, wordsOf_behind h, List.map_append]
  rfl

theorem kindsOf_around {separator : String} (hstart : beginsApart separator = true)
    (hend : endsApart separator = true) (a b : String) :
    kindsOf (a ++ separator ++ b) = kindsOf a ++ kindsOf separator ++ kindsOf b := by
  rw [kindsOf, wordsOf_around hstart hend, List.map_append, List.map_append]
  rfl

example : kindsOf "NOT (#a_1 IN (:a_0, :a_1))" =
    [.not, .opening, .name "#a_1", .isIn, .opening, .value ":a_0", .comma, .value ":a_1", .closing,
      .closing] := by
  decide

end StoreQuery.KeyValue
