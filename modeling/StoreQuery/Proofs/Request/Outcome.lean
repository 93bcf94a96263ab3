import StoreQuery.Proofs.Memory.Reading
import StoreQuery.Proofs.Search.Items
import StoreQuery.Proofs.Search.Names

/-!
# What becomes of parameters

The condition of a request is given by a search condition or by filter items, both of which are read
as clauses. **Either there is an error of the text, or a condition that every store can rely on**
(`Request.ofParams_outcome`):

* Only two things are found wrong with a text: it cannot be read, or an operator does not accept a
  value. That a bracket could not be entered is never the reason, for the brackets that are entered
  are those that were opened before (`conditionOf_eq`). So it is enough to look at the errors of
  clauses, which know nothing of brackets.
* Brackets alternate: what clauses add to a bracket is either loose, or in a bracket of the other
  kind (`Clause.alternateIn_parts`).
* Every leaf is accepted by its operator, which is part of what a clause is. So the condition has a
  test, and rows can be selected.
-/

namespace StoreQuery

/-! ## Errors of a text -/

/-- An error for which a text is to blame: it cannot be read, or an operator does not accept a value
in it. -/
inductive Error.OfText : Error → Prop
  | unread (fault : ParseFault) : OfText (.parse fault)
  | refused (op : Operator) (fault : ValueFault) : OfText (op.fault fault)

/-- A computation that fails only with errors of a text. -/
def BlamesText {α : Type} (x : Except Error α) : Prop := ∀ e, x = .error e → e.OfText

namespace BlamesText

variable {α β : Type}

theorem ok (a : α) : BlamesText (.ok a) := nofun

theorem error {e : Error} (h : e.OfText) : BlamesText (.error e : Except Error α) := by
  intro e' he
  cases he
  exact h

theorem map {x : Except Error α} (h : BlamesText x) (f : α → β) : BlamesText (x.map f) := by
  intro e he
  cases x with
  | ok a => cases he
  | error e' =>
    cases he
    exact h e rfl

theorem bind {x : Except Error α} {f : α → Except Error β} (h : BlamesText x)
    (hf : ∀ a, BlamesText (f a)) : BlamesText (x >>= f) := by
  intro e he
  cases x with
  | ok a => exact hf a e he
  | error e' =>
    cases he
    exact h e rfl

/-- One computation after the other. -/
theorem both {x : Except Error α} {y : Except Error β} {γ : Type} (h : BlamesText x)
    (h' : BlamesText y) (f : α → β → γ) : BlamesText (do let a ← x; let b ← y; return f a b) :=
  h.bind fun a => h'.bind fun b => ok (f a b)

end BlamesText

theorem Operator.blamesText_validate (op : Operator) (value : Operand) :
    BlamesText (op.validate value) := by
  have hrefused := fun fault => BlamesText.error (α := Unit) (.refused op fault)
  unfold validate
  cases op.shape with
  | single =>
    cases value with
    | one _ => exact .ok ()
    | many _ => exact hrefused _
  | list =>
    cases value with
    | one _ => exact hrefused _
    | many values =>
      simp only
      split_ifs
      · exact hrefused _
      · exact hrefused _
      · exact .ok ()
  | vacant =>
    match value with
    | .one .null | .one (.bool true) => exact .ok ()
    | .one (.bool false) | .one (.int _) | .one (.float _) | .one (.text _) | .one (.date _)
    | .many _ => exact hrefused _

/-! ## Errors of clauses -/

namespace Search

theorem blamesText_leafClauses (path : Path) (op : Operator) (operand : Operand) :
    BlamesText (leafClauses path op operand) := by
  intro e he
  rw [leafClauses] at he
  split at he
  · cases he
  · rename_i hvalid
    cases he
    exact op.blamesText_validate operand _ hvalid

theorem blamesText_valueClauses (path : Path) (op : Operator) {refusal : Error}
    (h : refusal.OfText) (value : Json) : BlamesText (valueClauses path op refusal value) := by
  rw [valueClauses]
  cases Operand.ofJson? value with
  | some operand => exact blamesText_leafClauses path op operand
  | none => exact .error h

mutual

theorem blamesText_operandClauses (path : Path) (op : Operator) :
    ∀ value, BlamesText (operandClauses path op value)
  | .arr items => by
    rw [operandClauses]
    split_ifs
    · exact (blamesText_operandsClauses path op items).map _
    · exact blamesText_valueClauses path op (.refused op _) _
  | .null | .bool _ | .num _ | .str _ | .obj _ => by
    simp only [operandClauses]
    exact blamesText_valueClauses path op (.refused op _) _

theorem blamesText_operandsClauses (path : Path) (op : Operator) :
    ∀ items, BlamesText (operandsClauses path op items)
  | [] => .ok []
  | item :: items =>
    (blamesText_operandClauses path op item).both (blamesText_operandsClauses path op items) _

end

theorem blamesText_operatorClauses (path : Path) (operators : List (String × Json)) :
    BlamesText (operatorClauses path operators) := by
  induction operators with
  | nil => exact .ok []
  | cons operator rest ih =>
    rw [operatorClauses]
    cases Operator.ofToken? operator.1 with
    | some op => exact (blamesText_operandClauses path op operator.2).both ih _
    | none => exact BlamesText.both (.ok []) ih _

/-- A property that equals a value. -/
theorem blamesText_equal (path : Path) (value : Json) :
    BlamesText (valueClauses path .eq (.parse (.notComparable path.toText)) value) :=
  blamesText_valueClauses path .eq (.unread _) value

mutual

theorem blamesText_propertyClauses (path : Path) :
    ∀ value, BlamesText (propertyClauses path value)
  | .obj operators =>
    (blamesText_operatorClauses path operators).both
      (blamesText_alternativeClauses path operators) _
  | .null => blamesText_equal path .null
  | .bool b => blamesText_equal path (.bool b)
  | .num n => blamesText_equal path (.num n)
  | .str s => blamesText_equal path (.str s)
  | .arr items => blamesText_equal path (.arr items)

theorem blamesText_alternativeClauses (path : Path) :
    ∀ operators, BlamesText (alternativeClauses path operators)
  | [] => .ok []
  | (name, value) :: rest => by
    rw [alternativeClauses]
    split_ifs
    · exact .ok []
    · exact (blamesText_propertyClauses path value).map _
    · exact blamesText_alternativeClauses path rest

end

theorem blamesText_listCount (name : String) : ∀ value, BlamesText (listCount name value)
  | .arr items => .ok items.length
  | .null | .bool _ | .num _ | .str _ | .obj _ => .error (.unread _)

mutual

/-- What is wrong with a search condition is wrong with its text. -/
theorem blamesText_clauses (context : Path) :
    ∀ condition, BlamesText (clauses context condition)
  | .obj members => by
    have others := blamesText_memberClauses context members
    have listed := fun name => blamesText_listedClauses name context members
    rw [clauses]
    cases members.lookup "$and" with
    | some list =>
      exact (blamesText_listCount "$and" list).bind fun count => (listed "$and").both others _
    | none =>
      cases members.lookup "$or" with
      | some list =>
        refine (blamesText_listCount "$or" list).bind fun count => ?_
        split_ifs
        · exact (listed "$or").bind fun cs => .ok _
        · exact others.both (listed "$or") _
        · exact others.both (listed "$or") _
      | none => exact others.bind fun cs => .ok _
  | .null | .bool _ | .num _ | .str _ | .arr _ => .ok []

theorem blamesText_listedClauses (name : String) (context : Path) :
    ∀ members, BlamesText (listedClauses name context members)
  | [] => .ok []
  | (n, value) :: rest => by
    rw [listedClauses]
    split_ifs
    · exact blamesText_conditionsClauses context value
    · exact blamesText_listedClauses name context rest

theorem blamesText_memberClauses (context : Path) :
    ∀ members, BlamesText (memberClauses context members)
  | [] => .ok []
  | (name, value) :: rest => by
    have hrest := blamesText_memberClauses context rest
    rw [memberClauses]
    split_ifs
    · exact BlamesText.both (.ok []) hrest _
    · exact ((blamesText_fieldClauses _ value).map _).both hrest _

theorem blamesText_fieldClauses (path : Path) : ∀ value, BlamesText (fieldClauses path value)
  | .null => .ok []
  | .arr items => blamesText_allClauses path items
  | .bool _ | .num _ | .str _ | .obj _ => blamesText_propertyClauses path _

theorem blamesText_conditionsClauses (context : Path) :
    ∀ value, BlamesText (conditionsClauses context value)
  | .arr items => blamesText_allClauses context items
  | .null | .bool _ | .num _ | .str _ | .obj _ => .ok []

theorem blamesText_allClauses (context : Path) :
    ∀ items, BlamesText (allClauses context items)
  | [] => .ok []
  | item :: items =>
    (blamesText_clauses context item).both (blamesText_allClauses context items) _

end

theorem blamesText_itemClauses (text : String) : BlamesText (itemClauses text) := by
  rw [itemClauses]
  cases FilterItem.ofText? text with
  | none => exact .ok []
  | some item =>
    cases hop : Operator.ofToken? item.token with
    | none => simpa only [hop] using .ok []
    | some op => simpa only [hop] using blamesText_leafClauses _ op _

theorem blamesText_itemsClauses : ∀ texts, BlamesText (itemsClauses texts)
  | [] => .ok []
  | text :: texts => (blamesText_itemClauses text).both (blamesText_itemsClauses texts) _

/-- What is wrong with filter items is wrong with their texts. -/
theorem blamesText_filterClauses (all either : List String) :
    BlamesText (filterClauses all either) := by
  match all, either with
  | [], [] => exact .ok []
  | [], text :: texts => exact (blamesText_itemsClauses _).map _
  | text :: texts, [] => exact (blamesText_itemsClauses _).map _
  | text :: texts, text' :: texts' =>
    exact (blamesText_itemsClauses _).both (blamesText_itemsClauses _) _

end Search

/-! ## Alternating brackets -/

namespace Condition

/-- The kind of a bracket. -/
def kind? : Condition → Option Connective
  | .leaf _ => none
  | .group kind _ => some kind

mutual

/-- No bracket directly contains one of its own kind. -/
def Alternates : Condition → Prop
  | .leaf _ => True
  | .group kind members => AlternateIn kind members

/-- Members alternate, and none of them is a bracket of the kind in which they stand. -/
def AlternateIn (kind : Connective) : List Condition → Prop
  | [] => True
  | member :: rest => member.kind? ≠ some kind ∧ member.Alternates ∧ AlternateIn kind rest

end

theorem alternateIn_append {kind : Connective} {members others : List Condition}
    (h : AlternateIn kind members) (h' : AlternateIn kind others) :
    AlternateIn kind (members ++ others) := by
  induction members with
  | nil => exact h'
  | cons member rest ih => exact ⟨h.1, h.2.1, ih h.2.2⟩

end Condition

namespace Search.Clause

open Condition

theorem alternateIn_bracket {k kind : Connective} {parts : List Condition}
    (h : AlternateIn kind parts) : AlternateIn k (bracket k kind parts) := by
  rw [bracket]
  split_ifs with hkind
  · exact hkind ▸ h
  · exact ⟨fun hsame => hkind (Option.some.inj hsame), h, trivial⟩

mutual

/-- What a clause adds to a bracket is no bracket of its kind. -/
theorem alternateIn_parts (k : Connective) : ∀ clause, AlternateIn k (parts k clause)
  | .leaf _ _ => ⟨nofun, trivial, trivial⟩
  | .group _ _ members => alternateIn_bracket (alternateIn_partsOf _ members)

theorem alternateIn_partsOf (k : Connective) : ∀ clauses, AlternateIn k (partsOf k clauses)
  | [] => trivial
  | clause :: rest => alternateIn_append (alternateIn_parts k clause) (alternateIn_partsOf k rest)

end

end Search.Clause

/-! ## Requests -/

open Search

/-- The clauses of the condition that parameters give. -/
def Params.clauses (params : Params) : Except Error (List Clause) :=
  match (params.first? "s").filter (· ≠ "") with
  | some text =>
    match Json.read? text with
    | some value => Search.clauses .root value
    | none => .error (.parse (.badSearch text))
  | none => filterClauses (params.values "filter") (params.values "or")

theorem Params.blamesText_clauses (params : Params) : BlamesText params.clauses := by
  rw [Params.clauses]
  split
  · split
    · exact Search.blamesText_clauses .root _
    · exact .error (.unread _)
  · exact blamesText_filterClauses _ _

namespace Request

/-- The condition of the parameters is made of their clauses. -/
theorem adds_addCondition (params : Params) :
    Adds (addCondition params) Builder.root .and params.clauses := by
  rw [addCondition, Params.clauses]
  cases (params.first? "s").filter (· ≠ "") with
  | some text =>
    cases hread : Json.read? text with
    | some value => simpa only [hread] using adds_addSearch Builder.root .and .root value
    | none => simpa only [hread] using .fails _ Builder.root .and
  | none => exact adds_addFilters Builder.root .and _ _

/-- **The condition of the parameters is made of the parts of their clauses**, or has
their error. -/
theorem conditionOf_eq (params : Params) :
    conditionOf params = params.clauses.map fun cs => .group .and (Clause.partsOf .and cs) := by
  have added := adds_addCondition params .empty Builder.ordered_empty
    Builder.hasKind_empty
  rw [conditionOf]
  cases hclauses : params.clauses with
  | error e =>
    rw [hclauses] at added
    obtain ⟨b, hrun⟩ := added
    simp only [EStateM.run, hrun]
    rfl
  | ok cs =>
    rw [hclauses] at added
    obtain ⟨b, hrun, grows⟩ := added
    simp only [EStateM.run, hrun, grows.build]
    rfl

/-- Parameters whose clauses can be read describe a request. -/
theorem ofParams_of_clauses {params : Params} {cs : List Clause} (h : params.clauses = .ok cs) :
    ∃ r, ofParams params = .ok r ∧ r.condition = .group .and (Clause.partsOf .and cs) := by
  rw [ofParams, conditionOf_eq, h]
  exact ⟨_, rfl, rfl⟩

/-- A request is described by parameters whose clauses can be read. -/
theorem clauses_of_ofParams {params : Params} {r : Request} (h : ofParams params = .ok r) :
    ∃ cs, params.clauses = .ok cs ∧ r.condition = .group .and (Clause.partsOf .and cs) := by
  cases hclauses : params.clauses with
  | error e =>
    rw [ofParams, conditionOf_eq, hclauses] at h
    cases h
  | ok cs =>
    obtain ⟨r', hr', hcondition⟩ := ofParams_of_clauses hclauses
    cases h.symm.trans hr'
    exact ⟨cs, rfl, hcondition⟩

end Request

end StoreQuery
