import StoreQuery.Proofs.Sql.Placeholders

/-!
# Reading a condition

A condition is read without knowing how it was made. It is split where `AND` or `OR` stands between
two groups in parentheses, and nowhere else, and what the groups hold is read in the same way
(`read`). A text that is no row of groups is a piece, whatever it contains.

**Balanced conditions that are put together are read as they were put together**
(`read_joinConditions`), and the condition of a leaf is a piece (`read_leafText`): the `AND` of a
range stands between no groups, and no condition of a leaf begins with a parenthesis.
-/

namespace StoreQuery.Sql

/-! ## Parentheses -/

/-- How many parentheses are open behind a character. No number of them is if it closes one that is
not open. -/
def openBehind (depth : Nat) (c : Char) : Option Nat :=
  if c = '(' then some (depth + 1)
  else if c = ')' then if depth = 0 then none else some (depth - 1)
  else some depth

/-- How many parentheses are open behind a text. -/
def openAfter : Nat → List Char → Option Nat
  | depth, [] => some depth
  | depth, c :: cs => (openBehind depth c).bind fun depth => openAfter depth cs

/-- All parentheses are closed in the end, and none is that is not open. -/
def Balanced (text : String) : Prop := openAfter 0 text.toList = some 0

instance (text : String) : Decidable (Balanced text) := inferInstanceAs (Decidable (_ = _))

theorem openAfter_append (depth : Nat) (cs ds : List Char) :
    openAfter depth (cs ++ ds) = (openAfter depth cs).bind fun depth => openAfter depth ds := by
  induction cs generalizing depth with
  | nil => rfl
  | cons c cs ih =>
    rw [List.cons_append, openAfter, openAfter, Option.bind_assoc]
    exact Option.bind_congr fun depth _ => ih depth

theorem openBehind_add {depth depth' : Nat} {c : Char} (h : openBehind depth c = some depth')
    (more : Nat) : openBehind (depth + more) c = some (depth' + more) := by
  rw [openBehind] at h ⊢
  split_ifs at h ⊢ with hopen hclose hnone hnone'
  all_goals grind

/-- Parentheses that are open before stay open. -/
theorem openAfter_add {depth depth' : Nat} {cs : List Char} (h : openAfter depth cs = some depth')
    (more : Nat) : openAfter (depth + more) cs = some (depth' + more) := by
  induction cs generalizing depth with
  | nil =>
    cases h
    rfl
  | cons c cs ih =>
    obtain ⟨next, hnext, h⟩ := Option.bind_eq_some_iff.1 h
    rw [openAfter, openBehind_add hnext, Option.bind_some, ih h]

theorem openAfter_of_notMem {cs : List Char} (hopen : '(' ∉ cs) (hclose : ')' ∉ cs) (depth : Nat) :
    openAfter depth cs = some depth := by
  induction cs with
  | nil => rfl
  | cons c cs ih =>
    obtain ⟨hc, hcs⟩ := not_or.1 (mt List.mem_cons.2 hopen)
    obtain ⟨hc', hcs'⟩ := not_or.1 (mt List.mem_cons.2 hclose)
    rw [openAfter, openBehind, if_neg (Ne.symm hc), if_neg (Ne.symm hc'), Option.bind_some,
      ih hcs hcs']

namespace Balanced

variable {text other : String}

theorem openAfter_eq (h : Balanced text) (depth : Nat) :
    openAfter depth text.toList = some depth := by
  have hadd := openAfter_add h depth
  rwa [Nat.zero_add] at hadd

theorem of_notMem (hopen : '(' ∉ text.toList) (hclose : ')' ∉ text.toList) : Balanced text :=
  openAfter_of_notMem hopen hclose 0

theorem append (h : Balanced text) (h' : Balanced other) : Balanced (text ++ other) := by
  rw [Balanced, String.toList_append, openAfter_append, h, Option.bind_some, h']

theorem group (h : Balanced text) : Balanced ("(" ++ text ++ ")") := by
  have hchars : ("(" ++ text ++ ")").toList = '(' :: (text.toList ++ [')']) := by simp
  rw [Balanced, hchars, openAfter, openBehind, if_pos rfl, Option.bind_some, openAfter_append,
    h.openAfter_eq]
  rfl

end Balanced

theorem IsName.balanced {text : String} (h : IsName text) : Balanced text :=
  .of_notMem (h.notMem (by decide)) (h.notMem (by decide))

theorem balanced_joinConditions (k : Connective) {texts : List String}
    (h : ∀ text ∈ texts, Balanced text) : Balanced (joinConditions k texts) := by
  have hseparator : Balanced (" " ++ k.text ++ " ") := by cases k <;> decide
  rw [joinConditions]
  induction texts with
  | nil => exact rfl
  | cons text texts ih =>
    obtain ⟨htext, hrest⟩ := List.forall_mem_cons.1 h
    cases texts with
    | nil => exact htext.group
    | cons next rest =>
      rw [List.map_cons, Text.join_cons _ (by simp)]
      exact (htext.group.append hseparator).append (ih hrest)

/-! ## Rows of groups -/

/-- Groups in a row: what they hold, and the connectives between them. -/
structure Row where
  connectives : List Connective
  groups : List (List Char)

namespace Row

/-- The row with one more group in front, which holds nothing yet. -/
def enter (row : Row) : Row := { row with groups := [] :: row.groups }

/-- The row with a connective in front. -/
def link (k : Connective) (row : Row) : Row := { row with connectives := k :: row.connectives }

/-- The row with a character in front of what its first group holds. -/
def push (c : Char) (row : Row) : Row :=
  match row.groups with
  | [] => row
  | group :: rest => { row with groups := (c :: group) :: rest }

/-- No group holds more than so many characters. -/
def Within (row : Row) (n : Nat) : Prop := ∀ group ∈ row.groups, group.length ≤ n

namespace Within

variable {row : Row} {n : Nat}

theorem succ (h : row.Within n) : row.Within (n + 1) :=
  fun group hgroup => (h group hgroup).trans (Nat.le_succ n)

theorem enter (h : row.Within n) : row.enter.Within (n + 1) :=
  List.forall_mem_cons.2 ⟨Nat.zero_le _, h.succ⟩

theorem link (h : row.Within n) (k : Connective) : (row.link k).Within (n + 1) := h.succ

theorem push (h : row.Within n) (c : Char) : (row.push c).Within (n + 1) := by
  obtain ⟨connectives, groups⟩ := row
  cases groups with
  | nil => exact nofun
  | cons first rest =>
    obtain ⟨hfirst, -⟩ := List.forall_mem_cons.1 h
    obtain ⟨-, hrest⟩ := List.forall_mem_cons.1 h.succ
    exact List.forall_mem_cons.2 ⟨Nat.succ_le_succ hfirst, hrest⟩

end Within

end Row

/-- A place in a row of groups. -/
inductive Place where
  /-- Inside a group, and inside so many parentheses there. -/
  | inside (depth : Nat)
  /-- Behind a group, with what stands between it and here. -/
  | behind (word : List Char)

/-- The connective that stands between two groups. -/
def connectiveOf? (word : List Char) : Option Connective :=
  [Connective.and, .or].find? fun k => (" " ++ k.text ++ " ").toList = word

/-- What is left of a row from a place on, if it is a row to the end. -/
def scan : Place → List Char → Option Row
  | .inside _, [] => none
  | .behind word, [] => if word = [] then some ⟨[], []⟩ else none
  | .inside depth, c :: cs =>
    match openBehind depth c with
    | some depth => (scan (.inside depth) cs).map (Row.push c)
    | none => (scan (.behind []) cs).map Row.enter
  | .behind word, c :: cs =>
    if c = '(' then (connectiveOf? word).bind fun k => (scan (.inside 0) cs).map (Row.link k)
    else scan (.behind (word ++ [c])) cs

/-- The row of two or more groups that a text is. -/
def row? : List Char → Option Row
  | [] => none
  | c :: cs => if c = '(' then (scan (.inside 0) cs).filter (!·.connectives.isEmpty) else none

theorem within_scan {place : Place} {cs : List Char} {row : Row} (h : scan place cs = some row) :
    row.Within cs.length := by
  induction cs generalizing place row with
  | nil =>
    cases place with
    | inside depth => cases h
    | behind word =>
      rw [scan] at h
      split at h
      · cases h
        exact nofun
      · cases h
  | cons c cs ih =>
    cases place with
    | inside depth =>
      rw [scan] at h
      split at h
      · obtain ⟨rest, hrest, rfl⟩ := Option.map_eq_some_iff.1 h
        exact (ih hrest).push c
      · obtain ⟨rest, hrest, rfl⟩ := Option.map_eq_some_iff.1 h
        exact (ih hrest).enter
    | behind word =>
      rw [scan] at h
      split at h
      · obtain ⟨k, -, h⟩ := Option.bind_eq_some_iff.1 h
        obtain ⟨rest, hrest, rfl⟩ := Option.map_eq_some_iff.1 h
        exact (ih hrest).link k
      · exact (ih h).succ

/-- What a group holds is shorter than the text. -/
theorem length_row? {cs : List Char} {row : Row} (h : row? cs = some row) :
    ∀ group ∈ row.groups, group.length < cs.length := by
  match cs with
  | c :: cs =>
    rw [row?] at h
    split at h
    · obtain ⟨hscan, -⟩ := Option.filter_eq_some_iff.1 h
      exact fun group hgroup => Nat.lt_succ_of_le (within_scan hscan group hgroup)
    · cases h

/-! ## Readings -/

/-- What a condition is read as: a piece, or readings with connectives between them. -/
inductive Reading where
  | piece (text : String)
  | chain (connectives : List Connective) (members : List Reading)

/-- Splits a text as far as it is a row of groups. -/
def readChars (text : List Char) : Reading :=
  match h : row? text with
  | none => .piece (String.ofList text)
  | some row => .chain row.connectives <| row.groups.attach.map fun ⟨group, hgroup⟩ =>
    have := length_row? h group hgroup
    readChars group
termination_by text.length

/-- What a condition is read as. -/
def read (text : String) : Reading := readChars text.toList

theorem readChars_of_none {text : List Char} (h : row? text = none) :
    readChars text = .piece (String.ofList text) := by
  rw [readChars]
  split
  · rfl
  · rename_i row hrow
    rw [h] at hrow
    cases hrow

theorem readChars_of_some {text : List Char} {row : Row} (h : row? text = some row) :
    readChars text = .chain row.connectives (row.groups.map readChars) := by
  rw [readChars]
  split
  · rename_i hnone
    rw [h] at hnone
    cases hnone
  · rename_i row' hrow
    obtain rfl := Option.some.inj (h.symm.trans hrow)
    rw [List.map_attach_eq_pmap, List.pmap_eq_map]

/-! ## Conditions put together -/

/-- A group is read to the parenthesis that closes it. -/
theorem scan_group {depth : Nat} {text : List Char} (h : openAfter depth text = some 0)
    (rest : List Char) : scan (.inside depth) (text ++ ')' :: rest) =
      (scan (.behind []) rest).map fun row => { row with groups := text :: row.groups } := by
  induction text generalizing depth with
  | nil =>
    cases h
    rfl
  | cons c cs ih =>
    obtain ⟨next, hnext, h⟩ := Option.bind_eq_some_iff.1 h
    rw [List.cons_append, scan, hnext]
    dsimp only
    rw [ih h, Option.map_map]
    rfl

/-- A connective is read to the parenthesis that opens the next group. -/
theorem scan_separator (k : Connective) (cs : List Char) :
    scan (.behind []) ((" " ++ k.text ++ " ").toList ++ '(' :: cs) =
      (scan (.inside 0) cs).map (Row.link k) := by
  cases k <;> rfl

/-- Conditions put together begin with a parenthesis, and behind it they are a row. -/
theorem scan_joinConditions (k : Connective) (text : String) (texts : List String)
    (h : ∀ other ∈ text :: texts, Balanced other) :
    ∃ cs, (joinConditions k (text :: texts)).toList = '(' :: cs ∧
      scan (.inside 0) cs = some
        ⟨List.replicate texts.length k, (text :: texts).map String.toList⟩ := by
  induction texts generalizing text with
  | nil =>
    refine ⟨text.toList ++ [')'], by simp [joinConditions, Text.join], ?_⟩
    rw [scan_group (h text (.head _))]
    rfl
  | cons next rest ih =>
    obtain ⟨htext, hrest⟩ := List.forall_mem_cons.1 h
    obtain ⟨cs, hchars, hscan⟩ := ih next hrest
    refine ⟨text.toList ++ ')' :: ((" " ++ k.text ++ " ").toList ++ '(' :: cs), ?_, ?_⟩
    · rw [← hchars, joinConditions, joinConditions, List.map_cons, Text.join_cons _ (by simp)]
      simp
    · rw [scan_group htext, scan_separator, hscan]
      rfl

/-- **Balanced conditions that are put together are read as they were put together.** -/
theorem read_joinConditions (k : Connective) {texts : List String} (several : 2 ≤ texts.length)
    (h : ∀ text ∈ texts, Balanced text) :
    read (joinConditions k texts) =
      .chain (List.replicate (texts.length - 1) k) (texts.map read) := by
  match texts with
  | first :: second :: rest =>
    obtain ⟨cs, hchars, hscan⟩ := scan_joinConditions k first (second :: rest) h
    have hrow : row? (joinConditions k (first :: second :: rest)).toList =
        some ⟨List.replicate (second :: rest).length k,
          (first :: second :: rest).map String.toList⟩ := by
      rw [hchars, row?, if_pos rfl, hscan]
      rfl
    rw [read, readChars_of_some hrow, List.map_map]
    rfl

/-! ## The condition of a leaf -/

/-- What does not begin with a parenthesis is a piece. -/
theorem read_of_head {text : String} (h : text.toList.head? ≠ some '(') :
    read text = .piece text := by
  have hrow : row? text.toList = none := by
    cases hchars : text.toList with
    | nil => rfl
    | cons c cs =>
      rw [hchars] at h
      rw [row?, if_neg fun hc => h (congrArg some hc)]
  rw [read, readChars_of_none hrow, String.ofList_toList]

section Leaf

variable (schema : Schema) (op : Operator) {column parameter : String}

theorem balanced_leafText (hcolumn : Balanced column) (hparameter : Balanced parameter) :
    Balanced (leafText schema op column parameter) := by
  have hskip (depth : Nat) (cs : List Char) :
      openAfter depth (column.toList ++ cs) = openAfter depth cs := by
    rw [openAfter_append, hcolumn.openAfter_eq, Option.bind_some]
  have hskip' (depth : Nat) (cs : List Char) :
      openAfter depth (parameter.toList ++ cs) = openAfter depth cs := by
    rw [openAfter_append, hparameter.openAfter_eq, Option.bind_some]
  have hend := hparameter.openAfter_eq 0
  rw [Balanced]
  cases op with
  | startsLower | endsLower | containsLower | notContainsLower =>
    rw [leafText, iLike]
    split_ifs <;> simp [hskip, hend, openAfter, openBehind]
  | _ => simp [leafText, hskip, hskip', hend, openAfter, openBehind]

/-- The condition of a leaf is a piece. -/
theorem read_leafText (hcolumn : '(' ∉ column.toList) :
    read (leafText schema op column parameter) = .piece (leafText schema op column parameter) := by
  refine read_of_head ?_
  -- It begins with the column, or with what stands in front of it or behind.
  have hhead {c : Char} (hc : c ≠ '(') : column.toList.head?.getD c ≠ '(' := by
    cases hchars : column.toList with
    | nil => exact hc
    | cons first rest =>
      rintro rfl
      exact hcolumn (hchars ▸ List.mem_cons_self)
  cases op with
  | startsLower | endsLower | containsLower | notContainsLower =>
    rw [leafText, iLike]
    split_ifs <;> simp [hhead]
  | _ => simp [leafText, hhead]

end Leaf

end StoreQuery.Sql
