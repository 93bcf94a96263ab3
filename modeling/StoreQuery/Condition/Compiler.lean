import StoreQuery.Condition.Basic

/-!
# Compiling conditions

A store has a form of its own for conditions. A `Compiler` says how one leaf is compiled and how
the fragments of a bracket are joined; `Compiler.compile` does the rest, the same for every store:

- a bracket without members contributes nothing;
- a bracket with one member compiles to exactly that member;
- leaves without a fragment drop out, and a bracket left with one fragment is that fragment.

Leaves are compiled in document order, and the first error ends the compilation. The state of the
compiler stands for everything it gathers on the way: bound parameters, extracted keys, a trace.
-/

namespace StoreQuery

/-- Where a condition stands in the tree that is compiled. -/
structure Scope where
  /-- No OR bracket stands above it. -/
  topLevelAnd : Bool
  /-- How many brackets with two or more members stand above it. -/
  depth : Nat
  deriving DecidableEq, Repr

namespace Scope

/-- The scope of a whole condition. -/
def root : Scope := ⟨true, 0⟩

/-- The scope of the only member of a bracket. -/
def single (s : Scope) : Connective → Scope
  | .and => s
  | .or => ⟨false, s.depth⟩

/-- The scope of the members of a bracket that has two or more. -/
def enter (s : Scope) (k : Connective) : Scope := ⟨s.topLevelAnd && k == .and, s.depth + 1⟩

end Scope

/-- How a store compiles leaves and joins fragments. -/
structure Compiler (σ φ : Type) where
  /-- Compiles one leaf; no fragment drops the leaf. -/
  leaf : Comparison → Scope → EStateM Error σ (Option φ)
  /-- Joins the two or more fragments of the bracket that stands at the scope. -/
  join : Connective → List φ → Scope → σ → φ × σ

namespace Compiler

variable {σ φ : Type}

/-- The fragment of a bracket, from those of its members. -/
def close (c : Compiler σ φ) (k : Connective) (scope : Scope) :
    List φ → EStateM Error σ (Option φ)
  | [] => pure none
  | [fragment] => pure (some fragment)
  | fragments => modifyGet fun s => (c.join k fragments scope s).map some id

mutual

/-- Compiles a condition that stands at a scope. -/
def compileAt (c : Compiler σ φ) (scope : Scope) : Condition → EStateM Error σ (Option φ)
  | .leaf comparison => c.leaf comparison scope
  | .group _ [] => pure none
  | .group k [only] => compileAt c (scope.single k) only
  | .group k (first :: second :: rest) => do
    let fragments ← compileAll c (scope.enter k) (first :: second :: rest)
    c.close k scope fragments

/-- Compiles the members of a bracket and keeps the fragments there are. -/
def compileAll (c : Compiler σ φ) (scope : Scope) :
    List Condition → EStateM Error σ (List φ)
  | [] => pure []
  | condition :: rest => do
    let fragment ← compileAt c scope condition
    let fragments ← compileAll c scope rest
    pure (fragment.toList ++ fragments)

end

/-- Compiles a whole condition. No fragment means that the condition places no constraint. -/
def compile (c : Compiler σ φ) (condition : Condition) : EStateM Error σ (Option φ) :=
  compileAt c .root condition

/-- A compiler without state. -/
def stateless (leaf : Comparison → Scope → Except Error (Option φ))
    (join : Connective → List φ → φ) : Compiler PUnit φ where
  leaf comparison scope := match leaf comparison scope with
    | .ok fragment => pure fragment
    | .error e => throw e
  join k fragments _ s := (join k fragments, s)

/-- Compiles a whole condition with a compiler that has no state. -/
def compilePure (c : Compiler PUnit φ) (condition : Condition) : Except Error (Option φ) :=
  match (c.compile condition).run ⟨⟩ with
  | .ok fragment _ => .ok fragment
  | .error e _ => .error e

end Compiler

end StoreQuery
