import StoreQuery.Memory.Predicate
import StoreQuery.Document.Filter
import StoreQuery.Proofs.Condition.Normal
import StoreQuery.Sql.Build

/-!
# Redundant brackets do not matter

Three of the stores compile conditions without looking at scopes: rows in memory, documents and
tables. So brackets that contain no leaf or have a single member may be left out of a condition, or
put into it, and nothing changes (`outcomes_normalize`): not the query with its names of parameters,
not the filter, not the test, and not the error where there is one.

The expressions of a key-value store are not among them. There a leaf alone in an OR is no part of
the key, as it is without this bracket.
-/

namespace StoreQuery

theorem Memory.compiler_unscoped : Memory.compiler.Unscoped :=
  Compiler.Unscoped.stateless fun _ _ _ => rfl

theorem Document.compiler_unscoped : Document.compiler.Unscoped :=
  Compiler.Unscoped.stateless fun _ _ _ => rfl

namespace Sql

theorem compiler_unscoped (schema : Schema) (q : Query) (relations : List Relation) :
    (compiler schema q relations).Unscoped where
  leaf _ _ _ := rfl
  join _ _ _ _ := rfl

theorem withCondition_normalize (schema : Schema) (r : Request) (condition : Condition)
    (q : Query) : withCondition schema { r with condition := condition.normalize } q =
      withCondition schema { r with condition } q := by
  simp only [withCondition, (compiler_unscoped schema q r.relations).compile_normalize]

/-- Of the four stages only one looks at the condition. -/
theorem build_normalize (schema : Schema) (base : Query) (r : Request) (condition : Condition) :
    build schema base { r with condition := condition.normalize } =
      build schema base { r with condition } := by
  have hstage := funext (withCondition_normalize schema r condition)
  simp only [build, buildAll, hstage]
  rfl

end Sql

/-- **Redundant brackets do not matter.** A normal form has no bracket with fewer than two members,
unless it is the empty AND of a condition without leaves, and it has the leaves of the condition.
Tables, documents and rows cannot tell the two apart, whatever the policies are. -/
theorem outcomes_normalize (condition : Condition) :
    (condition.leaves = [] ∧ condition.normalize = .unconstrained ∨ condition.normalize.Normal) ∧
      condition.normalize.leaves = condition.leaves ∧
      (∀ (schema : Sql.Schema) (base : Sql.Query) (r : Request),
        Sql.build schema base { r with condition := condition.normalize } =
          Sql.build schema base { r with condition }) ∧
      Document.filter condition.normalize = Document.filter condition ∧
      Memory.predicate condition.normalize = Memory.predicate condition := by
  refine ⟨?normal, condition.leaves_normalize, ?sql, ?document, ?memory⟩
  case normal =>
    rw [Condition.normalize]
    cases hleft : condition.reduced with
    | none => exact .inl ⟨Condition.leaves_eq_nil hleft, rfl⟩
    | some left => exact .inr (Condition.normal_reduced hleft)
  case sql =>
    intro schema base r
    exact Sql.build_normalize schema base r condition
  case document =>
    simp only [Document.filter, Compiler.compilePure,
      Document.compiler_unscoped.compile_normalize]
  case memory =>
    simp only [Memory.predicate, Compiler.compilePure,
      Memory.compiler_unscoped.compile_normalize]

example : (Condition.group .or
    [.group .and [], .group .and [.group .or [.leaf ⟨⟨["a"]⟩, .isNull, .one .null⟩],
      .group .or [.group .and []], .leaf ⟨⟨["b"]⟩, .notNull, .one .null⟩]]).normalize =
    .group .and [.leaf ⟨⟨["a"]⟩, .isNull, .one .null⟩, .leaf ⟨⟨["b"]⟩, .notNull, .one .null⟩] :=
  rfl

end StoreQuery
