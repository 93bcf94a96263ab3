import StoreQuery.Condition.Builder

/-!
# Search conditions

A search condition is a JSON object. Its member `$and` lists conditions that all hold, its member
`$or` conditions of which one holds, and every other member constrains the property it names:

- null says nothing;
- an array lists conditions on the properties below this one, all of which hold;
- an object gives operators by their tokens, with the values to compare with, all of which hold;
  its member `$or` gives alternatives;
- any other value is what the property equals.

Names may be dotted. Unknown operators say nothing, and an operator that takes a single value is
repeated for each item of an array. The members of an object all hold, so an object with several
of them opens an AND; `$or` opens an OR where it lists several conditions, before the properties
beside it are added.
-/

namespace StoreQuery.Builder

/-- A step that changes a builder. -/
abbrev Step := EStateM Error Builder

/-- Enters a bracket where one is called for, and stays in place otherwise. -/
def enterIf (wanted : Bool) (kind : Connective) (here : Nat) : Step Nat :=
  if wanted then enter kind here else pure here

/-- How many conditions a member lists. -/
def conditionCount (name : String) : Json → Step Nat
  | .arr items => pure items.length
  | _ => throw (.parse (.notConditions name))

/-! ## Operators -/

/-- Adds a comparison with a value as it is. -/
def addValue (here : Nat) (path : Path) (op : Operator) (value : Json) : Step Unit :=
  match Operand.ofJson? value with
  | some operand => addField here path op operand
  | none => throw (op.fault (.notComparable path.toText))

mutual

/-- Adds a comparison; an array given to an operator that takes a single value is taken item by
item. -/
def addOperand (here : Nat) (path : Path) (op : Operator) : Json → Step Unit
  | .arr items =>
    if op.shape = .single then addOperands here path op items
    else addValue here path op (.arr items)
  | value => addValue here path op value

/-- Adds a comparison for each item of an array. -/
def addOperands (here : Nat) (path : Path) (op : Operator) : List Json → Step Unit
  | [] => pure ()
  | item :: items => do
    addOperand here path op item
    addOperands here path op items

end

/-- Adds the comparisons of the operators that an object names. -/
def addOperators (here : Nat) (path : Path) : List (String × Json) → Step Unit
  | [] => pure ()
  | (token, value) :: rest => do
    match Operator.ofToken? token with
    | some op => addOperand here path op value
    | none => pure ()
    addOperators here path rest

/-! ## Properties -/

mutual

/-- Adds what a value says about a property: operators with their values, or equality. -/
def addProperty (here : Nat) (path : Path) : Json → Step Unit
  | .obj operators => do
    addOperators here path operators
    addAlternatives here path operators
  | value =>
    match Operand.ofJson? value with
    | some operand => addField here path .eq operand
    | none => throw (.parse (.notComparable path.toText))

/-- Adds the alternatives that an object of operators gives, if it does. -/
def addAlternatives (here : Nat) (path : Path) : List (String × Json) → Step Unit
  | [] => pure ()
  | (name, value) :: rest =>
    if name = "$or" then
      if value.isNull then pure ()
      else do
        let inside ← enter .or here
        addProperty inside path value
    else addAlternatives here path rest

end

/-! ## Conditions -/

mutual

/-- Adds a search condition to a bracket. The context stands before every path in it. Anything
but an object says nothing. -/
def addSearch (here : Nat) (context : Path) : Json → Step Unit
  | .obj members =>
    match members.lookup "$and", members.lookup "$or" with
    | some list, _ => do
      let count ← conditionCount "$and" list
      let inside ← enterIf (1 < count || 1 < members.length) .and here
      addListed "$and" inside context members
      addMembers inside context members
    | none, some list => do
      let count ← conditionCount "$or" list
      if members.length = 1 then
        let inside ← enterIf (1 < count) .or here
        addListed "$or" inside context members
      else
        let outside ← enter .and here
        let inside ← enterIf (1 < count) .or outside
        addMembers outside context members
        addListed "$or" inside context members
    | none, none => do
      let inside ← enterIf (1 < members.length) .and here
      addMembers inside context members
  | _ => pure ()

/-- Adds the conditions that the member of a given name lists. -/
def addListed (name : String) (here : Nat) (context : Path) :
    List (String × Json) → Step Unit
  | [] => pure ()
  | (n, value) :: rest =>
    if n = name then addConditions here context value else addListed name here context rest

/-- Adds what every member but `$and` and `$or` says about its property. -/
def addMembers (here : Nat) (context : Path) : List (String × Json) → Step Unit
  | [] => pure ()
  | (name, value) :: rest => do
    if name = "$and" ∨ name = "$or" then pure ()
    else addMember here (context.join (.ofText name)) value
    addMembers here context rest

/-- Adds what a member says about its property. -/
def addMember (here : Nat) (path : Path) : Json → Step Unit
  | .null => pure ()
  | .arr items => addAll here path items
  | value => addProperty here path value

/-- Adds the conditions in an array. -/
def addConditions (here : Nat) (context : Path) : Json → Step Unit
  | .arr items => addAll here context items
  | _ => pure ()

/-- Adds conditions one after the other. -/
def addAll (here : Nat) (context : Path) : List Json → Step Unit
  | [] => pure ()
  | item :: items => do
    addSearch here context item
    addAll here context items

end

end StoreQuery.Builder
