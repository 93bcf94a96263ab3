import Mathlib.Data.List.TakeWhile
import Mathlib.Tactic.SplitIfs
import StoreQuery.Proofs.Text.Split
import StoreQuery.Sql.Build

/-!
# Placeholders of a statement

A placeholder is a colon, perhaps three dots, and a name of letters, digits and underscores; it goes
as far as such characters follow. `placeholders` reads them off a text, without knowing how the text
was made.

**The placeholders of two texts in a row are those of the one and those of the other**
(`placeholdersIn_append`), if the second one begins with a character that no name goes on with. So
putting conditions together adds none and loses none (`placeholders_of_allMadeOf`), and the
condition of a leaf has exactly the parameters of the leaf (`placeholders_leafText`), as long as its
column has no colon.
-/

namespace StoreQuery.Sql

/-! ## Names -/

/-- A letter, a digit or an underscore. -/
def isNameChar (c : Char) : Bool := c.isAlphanum || c == '_'

/-- A text of letters, digits and underscores. -/
def IsName (text : String) : Prop := ∀ c ∈ text.toList, isNameChar c = true

instance (text : String) : Decidable (IsName text) :=
  decidable_of_iff (text.toList.all isNameChar = true) List.all_eq_true

theorem IsName.append {text other : String} (h : IsName text) (h' : IsName other) :
    IsName (text ++ other) := by
  intro c hc
  rw [String.toList_append] at hc
  rcases List.mem_append.1 hc with hc | hc
  · exact h c hc
  · exact h' c hc

theorem isName_ofNat (n : Nat) : IsName (Text.ofNat n) := by
  intro c hc
  rw [Text.ofNat, String.toList_ofList] at hc
  have hdigit := Nat.isDigit_of_mem_toDigits (by decide) (by decide) hc
  simp [isNameChar, Char.isAlphanum, hdigit]

theorem IsName.notMem {text : String} (h : IsName text) {c : Char} (hc : isNameChar c = false) :
    c ∉ text.toList := by
  intro hmem
  rw [h c hmem] at hc
  cases hc

/-! ## Placeholders -/

/-- The dots in front of the name of a list. -/
def dots : List Char := ['.', '.', '.']

/-- What stands behind the dots, if there are any. -/
def skipDots (cs : List Char) : List Char :=
  if Text.beginsWith dots cs then cs.drop dots.length else cs

/-- The name behind a colon, if there is one. -/
def nameBehind (cs : List Char) : List String :=
  match (skipDots cs).takeWhile isNameChar with
  | [] => []
  | c :: name => [String.ofList (c :: name)]

def placeholdersIn : List Char → List String
  | [] => []
  | c :: cs => if c = ':' then nameBehind cs ++ placeholdersIn cs else placeholdersIn cs

/-- The names of the placeholders in a text, in their order. -/
def placeholders (text : String) : List String := placeholdersIn text.toList

theorem placeholdersIn_cons {c : Char} (h : c ≠ ':') (cs : List Char) :
    placeholdersIn (c :: cs) = placeholdersIn cs := by
  rw [placeholdersIn, if_neg h]

/-- Without a colon there is no placeholder. -/
theorem placeholdersIn_of_notMem {cs : List Char} (h : ':' ∉ cs) (ds : List Char) :
    placeholdersIn (cs ++ ds) = placeholdersIn ds := by
  induction cs with
  | nil => rfl
  | cons c cs ih =>
    obtain ⟨hc, hcs⟩ := not_or.1 (mt List.mem_cons.2 h)
    rw [List.cons_append, placeholdersIn_cons (Ne.symm hc), ih hcs]

/-! ## Borders -/

/-- A character that no placeholder goes on with. -/
structure IsBorder (c : Char) : Prop where
  noName : isNameChar c = false
  noDot : c ∉ dots

variable {c : Char}

theorem skipDots_append (h : IsBorder c) (cs ds : List Char) :
    skipDots (cs ++ c :: ds) = skipDots cs ++ c :: ds := by
  have hbegins : Text.beginsWith dots (cs ++ c :: ds) = Text.beginsWith dots cs :=
    Text.beginsWith_append_of_notMem h.noDot cs ds
  rw [skipDots, skipDots, hbegins]
  split_ifs with hdots
  · have hlength := (List.isPrefixOf_iff_prefix.1 hdots).length_le
    exact List.drop_append_of_le_length hlength
  · rfl

theorem nameBehind_append (h : IsBorder c) (cs ds : List Char) :
    nameBehind (cs ++ c :: ds) = nameBehind cs := by
  have htake : ∀ bs : List Char,
      (bs ++ c :: ds).takeWhile isNameChar = bs.takeWhile isNameChar := by
    intro bs
    induction bs with
    | nil => simp [h.noName]
    | cons b bs ih =>
      rw [List.cons_append, List.takeWhile_cons, List.takeWhile_cons, ih]
  rw [nameBehind, nameBehind, skipDots_append h, htake]

/-- **No placeholder goes on across a border.** -/
theorem placeholdersIn_append (h : IsBorder c) (cs ds : List Char) :
    placeholdersIn (cs ++ c :: ds) = placeholdersIn cs ++ placeholdersIn (c :: ds) := by
  induction cs with
  | nil => rfl
  | cons b cs ih =>
    rw [List.cons_append, placeholdersIn, placeholdersIn, ih]
    split_ifs
    · rw [nameBehind_append h, List.append_assoc]
    · rfl

theorem isBorder_blank : IsBorder ' ' := ⟨by decide, by decide⟩

theorem isBorder_close : IsBorder ')' := ⟨by decide, by decide⟩

/-! ## Conditions put together -/

/-- Parentheses hold no placeholder of their own. -/
theorem placeholdersIn_parentheses (text : String) (ds : List Char) :
    placeholdersIn (("(" ++ text ++ ")").toList ++ ds) =
      placeholders text ++ placeholdersIn (')' :: ds) := by
  have hchars : ("(" ++ text ++ ")").toList ++ ds = '(' :: (text.toList ++ ')' :: ds) := by
    simp
  rw [hchars, placeholdersIn_cons (by decide), placeholdersIn_append isBorder_close]
  rfl

/-- Conditions put together have the placeholders of all of them. -/
theorem placeholders_joinConditions (k : Connective) (texts : List String) :
    placeholders (joinConditions k texts) = texts.flatMap placeholders := by
  have hclose : ∀ ds : List Char, placeholdersIn (')' :: ds) = placeholdersIn ds :=
    placeholdersIn_cons (by decide)
  rw [joinConditions]
  induction texts with
  | nil => rfl
  | cons text texts ih =>
    cases texts with
    | nil =>
      have hone := placeholdersIn_parentheses text []
      rw [List.append_nil, hclose] at hone
      exact hone
    | cons next rest =>
      have hsep : ':' ∉ (" " ++ k.text ++ " ").toList := by cases k <;> decide
      rw [List.map_cons, Text.join_cons _ (by simp), placeholders, String.toList_append,
        String.toList_append, List.append_assoc, placeholdersIn_parentheses, hclose,
        placeholdersIn_of_notMem hsep]
      rw [List.flatMap_cons, ← ih]
      rfl

mutual

/-- A condition is made of pieces, in this order. -/
inductive MadeOf : String → List String → Prop
  | piece (text : String) : MadeOf text [text]
  | bracket (k : Connective) {texts pieces : List String} (h : AllMadeOf texts pieces) :
    MadeOf (joinConditions k texts) pieces

/-- Conditions are made, one after the other, of pieces. -/
inductive AllMadeOf : List String → List String → Prop
  | nil : AllMadeOf [] []
  | cons {text : String} {texts pieces others : List String} (h : MadeOf text pieces)
    (hrest : AllMadeOf texts others) : AllMadeOf (text :: texts) (pieces ++ others)

end

theorem AllMadeOf.single {text : String} {pieces : List String} (h : MadeOf text pieces) :
    AllMadeOf [text] pieces := by
  have hsingle := AllMadeOf.cons h .nil
  rwa [List.append_nil] at hsingle

theorem AllMadeOf.append {texts texts' pieces pieces' : List String} (h : AllMadeOf texts pieces)
    (h' : AllMadeOf texts' pieces') : AllMadeOf (texts ++ texts') (pieces ++ pieces') :=
  match h with
  | .nil => h'
  | .cons hfirst hrest => by
    rw [List.cons_append, List.append_assoc]
    exact .cons hfirst (hrest.append h')

mutual

/-- A condition has the placeholders of its pieces. -/
theorem MadeOf.placeholders_eq {text : String} {pieces : List String} (h : MadeOf text pieces) :
    placeholders text = pieces.flatMap placeholders :=
  match h with
  | .piece text => (List.flatMap_singleton ..).symm
  | .bracket k h => (placeholders_joinConditions k _).trans h.placeholders_eq

theorem AllMadeOf.placeholders_eq {texts pieces : List String} (h : AllMadeOf texts pieces) :
    texts.flatMap placeholders = pieces.flatMap placeholders :=
  match h with
  | .nil => rfl
  | .cons h hrest => by
    rw [List.flatMap_cons, h.placeholders_eq, hrest.placeholders_eq, List.flatMap_append]

end

/-! ## The condition of a leaf -/

section Leaf

variable {name : String} (hname : IsName name) (hne : name ≠ "")

include hname

theorem takeWhile_name : name.toList.takeWhile isNameChar = name.toList :=
  List.takeWhile_eq_self_iff.2 hname

theorem skipDots_name : skipDots name.toList = name.toList := by
  have hbegins : Text.beginsWith dots name.toList = false := by
    cases hchars : name.toList with
    | nil => rfl
    | cons c cs =>
      have hc : c ≠ '.' := by
        rintro rfl
        exact hname.notMem (by decide) (hchars ▸ List.mem_cons_self)
      simp [Text.beginsWith, dots, List.isPrefixOf, Ne.symm hc]
  rw [skipDots, hbegins, if_neg Bool.false_ne_true]

theorem placeholdersIn_name : placeholdersIn name.toList = [] := by
  have hnone := placeholdersIn_of_notMem (hname.notMem (by decide)) []
  rwa [List.append_nil] at hnone

include hne

theorem nameBehind_name : nameBehind name.toList = [name] := by
  rw [nameBehind, skipDots_name hname, takeWhile_name hname]
  split
  · rename_i hnil
    exact absurd (String.toList_eq_nil_iff.1 hnil) hne
  · rename_i c cs hchars
    rw [← hchars, String.ofList_toList]

theorem nameBehind_dots : nameBehind (dots ++ name.toList) = [name] := by
  have hskip : skipDots (dots ++ name.toList) = skipDots name.toList := by
    rw [skipDots_name hname, skipDots, Text.beginsWith_append, if_pos rfl, List.drop_left]
  have hbehind := nameBehind_name hname hne
  rw [nameBehind] at hbehind ⊢
  rwa [hskip]

/-- A colon in front of a name. -/
theorem placeholdersIn_value : placeholdersIn (':' :: name.toList) = [name] := by
  rw [placeholdersIn, if_pos rfl, nameBehind_name hname hne, placeholdersIn_name hname]
  rfl

/-- A colon and dots in front of a name. -/
theorem placeholdersIn_list : placeholdersIn (':' :: (dots ++ name.toList)) = [name] := by
  have hnone : placeholdersIn (dots ++ name.toList) = [] := by
    rw [placeholdersIn_of_notMem (by decide), placeholdersIn_name hname]
  rw [placeholdersIn, if_pos rfl, nameBehind_dots hname hne, hnone]
  rfl

end Leaf

/-- **The condition of a leaf has exactly the parameters of the leaf for placeholders.** -/
theorem placeholders_leafText (schema : Schema) (op : Operator) (value : Operand)
    {column parameter : String} (hcolumn : ':' ∉ column.toList) (hname : IsName parameter)
    (hne : parameter ≠ "") :
    placeholders (leafText schema op column parameter) =
      (leafParameters op value parameter).map (·.1) := by
  have hskip := placeholdersIn_of_notMem hcolumn
  have hvalue := placeholdersIn_value hname hne
  have hlist : placeholdersIn (':' :: (dots ++ parameter.toList) ++ [')']) = [parameter] := by
    rw [placeholdersIn_append isBorder_close, placeholdersIn_list hname hne]
    rfl
  rw [placeholders]
  cases op with
  | eq | neq | gt | gte | lt | lte | starts | ends | contains | notContains | eqLower | neqLower =>
    simpa [leafText, leafParameters, hskip, placeholdersIn_cons] using hvalue
  | startsLower | endsLower | containsLower | notContainsLower =>
    rw [leafText, iLike]
    split_ifs <;> simpa [leafParameters, hskip, placeholdersIn_cons] using hvalue
  | isIn | notIn | inLower | notInLower =>
    simpa [leafText, leafParameters, hskip, placeholdersIn_cons, dots] using hlist
  | between =>
    have hstart : IsName (parameter ++ "_start") := hname.append (by decide)
    have hend : IsName (parameter ++ "_end") := hname.append (by decide)
    have hfirst := placeholdersIn_value hstart (by simp)
    have hsecond := placeholdersIn_value hend (by simp)
    have hboth : placeholdersIn (':' :: (parameter ++ "_start").toList ++
        ' ' :: ("AND :".toList ++ (parameter ++ "_end").toList)) =
          [parameter ++ "_start", parameter ++ "_end"] := by
      rw [placeholdersIn_append isBorder_blank, hfirst]
      simpa [placeholdersIn_cons] using hsecond
    simpa [leafText, leafParameters, hskip, placeholdersIn_cons] using hboth
  | isNull | notNull =>
    simp [leafText, leafParameters, hskip, placeholdersIn]

end StoreQuery.Sql
