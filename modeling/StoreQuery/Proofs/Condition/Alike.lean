import StoreQuery.Request.Basic

/-!
# Requests that differ in their values

Two conditions are alike if they have the same brackets, with the same paths and operators in
them, and the values of corresponding leaves are similar, in a sense that is left open. Two
requests are alike if their conditions are and everything else is the same. Laws on what a client's
values can influence are laws about two alike requests.
-/

namespace StoreQuery

namespace Condition

mutual

/-- Two conditions have the same brackets, paths and operators, and similar values. -/
inductive Alike (similar : Operand → Operand → Prop) : Condition → Condition → Prop
  | leaf (path : Path) (op : Operator) {value value' : Operand} (h : similar value value') :
    Alike similar (.leaf ⟨path, op, value⟩) (.leaf ⟨path, op, value'⟩)
  | group (k : Connective) {members members' : List Condition}
    (h : AllAlike similar members members') :
    Alike similar (.group k members) (.group k members')

inductive AllAlike (similar : Operand → Operand → Prop) : List Condition → List Condition → Prop
  | nil : AllAlike similar [] []
  | cons {condition condition' : Condition} {rest rest' : List Condition}
    (h : Alike similar condition condition') (hrest : AllAlike similar rest rest') :
    AllAlike similar (condition :: rest) (condition' :: rest')

end

end Condition

/-- Two requests differ in nothing but the values of their conditions, which are similar. -/
structure Request.Alike (similar : Operand → Operand → Prop) (r r' : Request) : Prop where
  condition : r.condition.Alike similar r'.condition
  rest : r' = { r with condition := r'.condition }

end StoreQuery
