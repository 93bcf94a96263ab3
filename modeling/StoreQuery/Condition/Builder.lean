import StoreQuery.Condition.Basic

/-!
# Building conditions

A builder holds brackets in the order in which they were opened and names each by its index, so
several open brackets can grow side by side. Bracket `0` is the root, an AND. Every other bracket
stands in the one that it was opened in, whose index is smaller; a bracket is never opened inside
one of its own kind, for entering the kind at hand stays where it is.

An index can also come from elsewhere. One that names no bracket of this builder is refused.
-/

namespace StoreQuery

/-- What stands in a bracket that is being built. -/
inductive Builder.Member where
  | bracket (index : Nat)
  | leaf (comparison : Comparison)

/-- A bracket that is being built. -/
structure Builder.Node where
  kind : Connective
  parent : Option Nat
  members : List Builder.Member

/-- A condition that is being built: its brackets, by index. -/
structure Builder where
  nodes : List Builder.Node

namespace Builder

/-- An AND without members. -/
def empty : Builder := ⟨[⟨.and, none, []⟩]⟩

instance : Inhabited Builder := ⟨empty⟩

/-- The index of the root. -/
def root : Nat := 0

/-- The bracket with an index. -/
def node? (b : Builder) (index : Nat) : Option Node := b.nodes[index]?

theorem lt_of_node? {b : Builder} {index : Nat} {node : Node} (h : b.node? index = some node) :
    index < b.nodes.length := (List.getElem?_eq_some_iff.1 h).1

/-- The bracket that a bracket stands in. -/
def parent? (b : Builder) (index : Nat) : Option Nat := (b.node? index).bind (·.parent)

/-- The kind of a bracket. -/
def kind (b : Builder) (index : Nat) : Except Error Connective :=
  match b.node? index with
  | some node => .ok node.kind
  | none => .error (.invalidState (.foreignCursor index))

/-- Adds a member at the end of a bracket. -/
def append (b : Builder) (index : Nat) (member : Member) : Builder :=
  ⟨b.nodes.modify index fun node => { node with members := node.members ++ [member] }⟩

/-- Opens a bracket in another one. -/
def openIn (b : Builder) (index : Nat) (kind : Connective) : Builder :=
  let opened := b.append index (.bracket b.nodes.length)
  ⟨opened.nodes ++ [⟨kind, some index, []⟩]⟩

/-! ## Steps -/

/-- Enters a bracket of the given kind: the one at hand if it is one, otherwise a new one in it.
The result is the index of the bracket. -/
def enter (kind : Connective) (index : Nat) : EStateM Error Builder Nat := fun b =>
  match b.node? index with
  | none => .error (.invalidState (.foreignCursor index)) b
  | some node =>
    if node.kind = kind then .ok index b else .ok b.nodes.length (b.openIn index kind)

/-- Adds a leaf whose operator accepts the value. -/
def addField (index : Nat) (path : Path) (operator : Operator) (value : Operand) :
    EStateM Error Builder Unit := fun b =>
  match Comparison.make path operator value with
  | .error e => .error e b
  | .ok comparison =>
    match b.node? index with
    | none => .error (.invalidState (.foreignCursor index)) b
    | some _ => .ok () (b.append index (.leaf comparison))

/-! ## The condition -/

/-- The condition of a bracket. Only brackets opened after it are followed, which all of its
members are; so the reading comes to an end whatever the builder holds. -/
def conditionAt (b : Builder) (index : Nat) : Condition :=
  match _h : b.node? index with
  | none => .unconstrained
  | some node =>
    .group node.kind <| node.members.filterMap fun
      | .leaf comparison => some (.leaf comparison)
      | .bracket inner => if index < inner then some (b.conditionAt inner) else none
termination_by b.nodes.length - index
decreasing_by
  have := lt_of_node? _h
  omega

/-- The condition built so far. -/
def build (b : Builder) : Condition := b.conditionAt root

end Builder

end StoreQuery
