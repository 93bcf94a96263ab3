import Mathlib.Data.List.Forall2
import StoreQuery.Condition.Basic
import StoreQuery.Proofs.KeyValue.Words

/-!
# Reading expressions

A key-value store reads an expression as a formula over tests of properties. Parentheses come first;
then NOT binds to what follows it, AND binds more tightly than OR, and the AND of a BETWEEN belongs
to it. `Formula.read?` reads the words of a text from left to right, with a frame for every
parenthesis that is open.

A part of a text that the reader takes as one operand, whatever stands around it, is a `Piece`; a
part that fills a pair of parentheses, or the whole text, is a `Filling`. Tests are pieces, NOT in
front of a piece and parentheses around a filling make pieces, and **pieces with a connective
between them are a filling** (`filling_join`).
-/

namespace StoreQuery.KeyValue

/-! ## Formulas -/

/-- A test of one property. -/
inductive Test (β : Type) where
  | compare (symbol name : String) (value : β)
  | call (function name : String) (value : β)
  | between (name : String) (low high : β)
  | among (name : String) (values : List β)
  | present (name : String)
  | absent (name : String)

/-- Tests with connectives. In an expression names and values are tokens. -/
inductive Formula (β : Type) where
  | test (t : Test β)
  | not (f : Formula β)
  | and (f g : Formula β)
  | or (f g : Formula β)

namespace Formula

variable {β : Type}

/-- One formula joined with another. -/
def joined : Connective → Formula β → Formula β → Formula β
  | .and => and
  | .or => or

/-- A formula under several negations. -/
def negated : Nat → Formula β → Formula β
  | 0, f => f
  | n + 1, f => negated n (.not f)

/-- What stands before the last OR, joined with what stands behind it. -/
def orElse (alternatives : Option (Formula β)) (f : Formula β) : Formula β :=
  match alternatives with
  | none => f
  | some g => .or g f

end Formula

/-! ## The reader -/

/-- What has been read inside a parenthesis: the alternatives before the last OR, the factors behind
it, and the negations of the next factor. -/
structure Frame where
  alternatives : Option (Formula String) := none
  factors : Option (Formula String) := none
  negations : Nat := 0

namespace Frame

/-- One more negation. -/
def negate (here : Frame) : Frame := { here with negations := here.negations + 1 }

/-- The factors, with one more. -/
def factor (here : Frame) (f : Formula String) : Formula String :=
  match here.factors with
  | none => f.negated here.negations
  | some g => .and g (f.negated here.negations)

end Frame

mutual

/-- Reads on where an operand has to come. -/
def operand (here : Frame) (outer : List Frame) : List Word → Option (Formula String)
  | .not :: rest => operand here.negate outer rest
  | .opening :: rest => operand {} (here :: outer) rest
  | .name n :: .symbol s :: .value v :: rest =>
    operator here.alternatives (here.factor (.test (.compare s n v))) outer rest
  | .name n :: .between :: .value low :: .and :: .value high :: rest =>
    operator here.alternatives (here.factor (.test (.between n low high))) outer rest
  | .name n :: .isIn :: .opening :: rest => items here outer n [] rest
  | .function f :: .opening :: .name n :: .comma :: .value v :: .closing :: rest =>
    operator here.alternatives (here.factor (.test (.call f n v))) outer rest
  | .present :: .opening :: .name n :: .closing :: rest =>
    operator here.alternatives (here.factor (.test (.present n))) outer rest
  | .absent :: .opening :: .name n :: .closing :: rest =>
    operator here.alternatives (here.factor (.test (.absent n))) outer rest
  | _ => none

/-- Reads on where an item of a list has to come. -/
def items (here : Frame) (outer : List Frame) (name : String) (values : List String) :
    List Word → Option (Formula String)
  | .value v :: .comma :: rest => items here outer name (values ++ [v]) rest
  | .value v :: .closing :: rest =>
    operator here.alternatives (here.factor (.test (.among name (values ++ [v])))) outer rest
  | _ => none

/-- Reads on behind an operand. -/
def operator (alternatives : Option (Formula String)) (factors : Formula String)
    (outer : List Frame) : List Word → Option (Formula String)
  | .and :: rest => operand { alternatives, factors := some factors } outer rest
  | .or :: rest => operand { alternatives := some (.orElse alternatives factors) } outer rest
  | .closing :: rest =>
    match outer with
    | [] => none
    | here :: outer =>
      operator here.alternatives (here.factor (.orElse alternatives factors)) outer rest
  | [] =>
    match outer with
    | [] => some (.orElse alternatives factors)
    | _ :: _ => none
  | _ => none

end

/-- The formula of an expression. -/
def Formula.read? (text : String) : Option (Formula String) :=
  operand {} [] (kindsOf text)

example : Formula.read? "#a = :a OR NOT contains(#b, :b) AND #c BETWEEN :c_start AND :c_end" =
    some (.or (.test (.compare "=" "#a" ":a"))
      (.and (.not (.test (.call "contains" "#b" ":b")))
        (.test (.between "#c" ":c_start" ":c_end")))) := by
  rfl

/-! ## Parts of a text -/

/-- Words that are read as one operand wherever they stand. -/
def Piece (ws : List Word) (f : Formula String) : Prop :=
  ∀ here outer rest,
    operand here outer (ws ++ rest) = operator here.alternatives (here.factor f) outer rest

/-- Words that are read as one formula between parentheses, or alone. -/
def Filling (ws : List Word) (f : Formula String) : Prop :=
  ∃ alternatives factors, Formula.orElse alternatives factors = f ∧
    ∀ outer rest, operand {} outer (ws ++ rest) = operator alternatives factors outer rest

variable {ws : List Word} {f : Formula String}

theorem Piece.filling (h : Piece ws f) : Filling ws f :=
  ⟨none, f, rfl, fun outer rest => h {} outer rest⟩

theorem Piece.not (h : Piece ws f) : Piece (.not :: ws) (.not f) := fun here outer rest =>
  h here.negate outer rest

theorem Filling.parentheses (h : Filling ws f) : Piece (.opening :: ws ++ [.closing]) f := by
  obtain ⟨alternatives, factors, rfl, hread⟩ := h
  intro here outer rest
  rw [List.append_assoc, List.cons_append, List.singleton_append]
  show operand {} (here :: outer) (ws ++ .closing :: rest) = _
  rw [hread]
  rfl

/-- A text that is filled by a formula is read as it. -/
theorem Filling.read? {text : String} (h : Filling (kindsOf text) f) :
    Formula.read? text = some f := by
  obtain ⟨alternatives, factors, rfl, hread⟩ := h
  rw [Formula.read?, ← List.append_nil (kindsOf text), hread]
  rfl

/-! ### Tests -/

section Tests

variable {n v : String} (hn : IsToken '#' n) (hv : IsToken ':' v)

include hn hv in
theorem piece_compare {s : String} (hs : kindsOf s = [.symbol s]) :
    Piece (kindsOf (n ++ " " ++ s ++ " " ++ v)) (.test (.compare s n v)) := by
  have hblank : kindsOf " " = [] := by decide
  rw [kindsOf_around (by decide) (by decide), kindsOf_around (by decide) (by decide),
    kindsOf_name hn, kindsOf_value hv, hs, hblank]
  exact fun _ _ _ => rfl

include hn hv in
theorem piece_call {f : String} (hf : kindsOf f = [.function f]) :
    Piece (kindsOf (f ++ "(" ++ n ++ ", " ++ v ++ ")")) (.test (.call f n v)) := by
  have hopening : kindsOf "(" = [.opening] := by decide
  have hcomma : kindsOf ", " = [.comma] := by decide
  have hclosing : kindsOf ")" = [.closing] := by decide
  rw [kindsOf_behind (by decide), kindsOf_around (by decide) (by decide),
    kindsOf_around (by decide) (by decide), kindsOf_name hn, kindsOf_value hv, hf, hopening, hcomma,
    hclosing]
  exact fun _ _ _ => rfl

include hn hv in
theorem piece_between {w : String} (hw : IsToken ':' w) :
    Piece (kindsOf (n ++ " BETWEEN " ++ v ++ " AND " ++ w)) (.test (.between n v w)) := by
  have hbetween : kindsOf " BETWEEN " = [.between] := by decide
  have hand : kindsOf " AND " = [.and] := by decide
  rw [kindsOf_around (by decide) (by decide), kindsOf_around (by decide) (by decide),
    kindsOf_name hn, kindsOf_value hv, kindsOf_value hw, hbetween, hand]
  exact fun _ _ _ => rfl

/-- Items with commas between them are read up to the closing parenthesis. -/
theorem items_join (here : Frame) (outer : List Frame) (rest : List Word) (done : List String)
    {tokens : List String} (h : ∀ t ∈ tokens, IsToken ':' t) (hne : tokens ≠ []) :
    items here outer n done (kindsOf (Text.join ", " tokens) ++ .closing :: rest) =
      operator here.alternatives (here.factor (.test (.among n (done ++ tokens)))) outer rest := by
  have hcomma : kindsOf ", " = [.comma] := by decide
  induction tokens generalizing done with
  | nil => exact absurd rfl hne
  | cons token tokens ih =>
    obtain ⟨htoken, htokens⟩ := List.forall_mem_cons.1 h
    by_cases hlast : tokens = []
    · subst hlast
      rw [Text.join, kindsOf_value htoken]
      rfl
    · rw [Text.join_cons ", " hlast, kindsOf_around (by decide) (by decide), kindsOf_value htoken,
        hcomma]
      refine (ih (done ++ [token]) htokens hlast).trans ?_
      rw [List.append_assoc, List.singleton_append]

include hn in
theorem piece_among {tokens : List String} (h : ∀ t ∈ tokens, IsToken ':' t)
    (hne : tokens ≠ []) :
    Piece (kindsOf (n ++ " IN (" ++ Text.join ", " tokens ++ ")")) (.test (.among n tokens)) := by
  have hin : kindsOf " IN (" = [.isIn, .opening] := by decide
  have hclosing : kindsOf ")" = [.closing] := by decide
  rw [kindsOf_behind (by decide), kindsOf_around (by decide) (by decide), kindsOf_name hn, hin,
    hclosing]
  intro here outer rest
  simp only [List.append_assoc]
  exact items_join here outer rest [] h hne

/-- A missing value and null are one alternative after the other. -/
theorem piece_vacant (hn : IsToken '#' n) (hv : IsToken ':' v) :
    Piece (kindsOf ("(attribute_not_exists(" ++ n ++ ") OR " ++ n ++ " = " ++ v ++ ")"))
      (.or (.test (.absent n)) (.test (.compare "=" n v))) := by
  have hstart : kindsOf "(attribute_not_exists(" = [.opening, .absent, .opening] := by decide
  have hor : kindsOf ") OR " = [.closing, .or] := by decide
  have hsymbol : kindsOf " = " = [.symbol "="] := by decide
  have hclosing : kindsOf ")" = [.closing] := by decide
  rw [kindsOf_behind (by decide), kindsOf_around (by decide) (by decide),
    kindsOf_around (by decide) (by decide), kindsOf_before (by decide), kindsOf_name hn,
    kindsOf_value hv, hstart, hor, hsymbol, hclosing]
  exact fun _ _ _ => rfl

/-- There being a value and its not being null are one factor after the other. -/
theorem piece_filled (hn : IsToken '#' n) (hv : IsToken ':' v) :
    Piece (kindsOf ("(attribute_exists(" ++ n ++ ") AND " ++ n ++ " <> " ++ v ++ ")"))
      (.and (.test (.present n)) (.test (.compare "<>" n v))) := by
  have hstart : kindsOf "(attribute_exists(" = [.opening, .present, .opening] := by decide
  have hand : kindsOf ") AND " = [.closing, .and] := by decide
  have hsymbol : kindsOf " <> " = [.symbol "<>"] := by decide
  have hclosing : kindsOf ")" = [.closing] := by decide
  rw [kindsOf_behind (by decide), kindsOf_around (by decide) (by decide),
    kindsOf_around (by decide) (by decide), kindsOf_before (by decide), kindsOf_name hn,
    kindsOf_value hv, hstart, hand, hsymbol, hclosing]
  exact fun _ _ _ => rfl

end Tests

/-! ### Connectives -/

theorem Piece.notText {text : String} (h : Piece (kindsOf text) f) :
    Piece (kindsOf ("NOT " ++ text)) (.not f) := by
  have hnot : kindsOf "NOT " = [.not] := by decide
  rw [kindsOf_before (by decide), hnot]
  exact h.not

theorem Filling.parenthesesText {text : String} (h : Filling (kindsOf text) f) :
    Piece (kindsOf ("(" ++ text ++ ")")) f := by
  have hopening : kindsOf "(" = [.opening] := by decide
  have hclosing : kindsOf ")" = [.closing] := by decide
  rw [kindsOf_behind (by decide), kindsOf_before (by decide), hopening, hclosing]
  exact h.parentheses

theorem piece_factors {text : String} {texts : List String} {fs : List (Formula String)}
    (h : Piece (kindsOf text) f) (hs : List.Forall₂ (fun t g => Piece (kindsOf t) g) texts fs)
    (here : Frame) (outer : List Frame) (rest : List Word) :
    operand here outer (kindsOf (Text.join " AND " (text :: texts)) ++ rest) =
      operator here.alternatives (fs.foldl .and (here.factor f)) outer rest := by
  have hand : kindsOf " AND " = [.and] := by decide
  induction hs generalizing here text f with
  | nil => exact h here outer rest
  | @cons next g texts fs hnext hs ih =>
    rw [Text.join_cons " AND " (List.cons_ne_nil next texts),
      kindsOf_around (by decide) (by decide), hand, List.append_assoc, List.append_assoc,
      h here outer]
    exact ih hnext { alternatives := here.alternatives, factors := some (here.factor f) }

theorem piece_alternatives {text : String} {texts : List String} {fs : List (Formula String)}
    (h : Piece (kindsOf text) f) (hs : List.Forall₂ (fun t g => Piece (kindsOf t) g) texts fs)
    (here : Frame) : ∃ alternatives factors,
      Formula.orElse alternatives factors =
        fs.foldl .or (Formula.orElse here.alternatives (here.factor f)) ∧
      ∀ outer rest, operand here outer (kindsOf (Text.join " OR " (text :: texts)) ++ rest) =
        operator alternatives factors outer rest := by
  have hor : kindsOf " OR " = [.or] := by decide
  induction hs generalizing here text f with
  | nil => exact ⟨here.alternatives, here.factor f, rfl, h here⟩
  | @cons next g texts fs hnext hs ih =>
    obtain ⟨alternatives, factors, hformula, hread⟩ :=
      ih hnext { alternatives := some (.orElse here.alternatives (here.factor f)) }
    refine ⟨alternatives, factors, hformula, fun outer rest => ?_⟩
    rw [Text.join_cons " OR " (List.cons_ne_nil next texts), kindsOf_around (by decide) (by decide),
      hor, List.append_assoc, List.append_assoc, h here outer]
    exact hread outer rest

/-- **Pieces with a connective between them are a filling.** -/
theorem filling_join (k : Connective) {text : String} {texts : List String}
    {fs : List (Formula String)} (h : Piece (kindsOf text) f)
    (hs : List.Forall₂ (fun t g => Piece (kindsOf t) g) texts fs) :
    Filling (kindsOf (Text.join (" " ++ k.text ++ " ") (text :: texts)))
      (fs.foldl (.joined k) f) := by
  cases k with
  | and => exact ⟨none, fs.foldl .and f, rfl, fun outer rest => piece_factors h hs {} outer rest⟩
  | or => exact piece_alternatives h hs {}

end StoreQuery.KeyValue
