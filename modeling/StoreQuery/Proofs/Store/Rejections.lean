import StoreQuery.Document.Model
import StoreQuery.Memory.Query
import StoreQuery.Proofs.Document.Faults
import StoreQuery.Proofs.KeyValue.Faults
import StoreQuery.Sql.Build

/-!
# No leaf escapes validation

Every store looks at every leaf, and fails at the first one that it does not take. What a store does
not take is its own affair, and its `fault` says it: rows in memory take every value that the
operator accepts, documents want texts for regular expressions, tables want a column, and a
key-value store has no expressions for some operators. That the first fault in document order is the
error of the whole request, and that without one there is no error, is the same for all of them
(`builds_rejectBy`).
-/

namespace StoreQuery

namespace Memory

theorem errorOf?_leafPredicate (c : Comparison) (scope : Scope) :
    errorOf? (leafPredicate c scope) = c.fault := by
  rw [leafPredicate, errorOf?_map, Comparison.fault]
  cases c.validate <;> rfl

theorem errorOf?_predicate (condition : Condition) :
    errorOf? (predicate condition) = condition.leaves.findSome? Comparison.fault := by
  rw [predicate, errorOf?_map]
  exact (Compiler.RejectsBy.stateless errorOf?_leafPredicate).compilePure condition

theorem errorOf?_build (start : Json.Members) (rows : List Json) (r : Request) :
    errorOf? (build start rows r) = r.condition.leaves.findSome? Comparison.fault := by
  rw [build, matching, errorOf?_map, errorOf?_map, errorOf?_predicate]

end Memory

namespace Document

theorem Cursor.errorOf?_build (base : Cursor) (r : Request) :
    errorOf? (base.build r) = r.condition.leaves.findSome? fault := by
  rw [build, adapt, errorOf?_map, errorOf?_map, errorOf?_filter]

theorem ModelQuery.errorOf?_build (base : ModelQuery) (r : Request) :
    errorOf? (base.build r) = r.condition.leaves.findSome? fault := by
  rw [build, restrict, errorOf?_map, errorOf?_map, errorOf?_filter]

end Document

namespace Sql

open Compiler (Fails)

/-- The fault of a leaf where all paths must lead to columns: its path leads to none, or its
operator does not accept the value. -/
def fault (schema : Schema) (entity : String) (c : Comparison) : Option Error :=
  if schema.registry.isColumn entity c.path.segments then c.fault
  else some (.invalidField "where" c.path.toText)

variable {schema : Schema}

theorem compiler_rejectsBy (hpolicy : schema.policies.condition = .deny) (q : Query)
    (relations : List Relation) :
    (compiler schema q relations).RejectsBy (fault schema q.entity) := by
  intro c scope
  show Fails (compileLeaf schema q relations c scope) (fault schema q.entity c)
  have hleads : leads schema q.entity c.path .condition =
    schema.registry.isColumn q.entity c.path.segments := rfl
  rw [compileLeaf, accepts, fault, hleads, Clause.policy, hpolicy]
  cases schema.registry.isColumn q.entity c.path.segments with
  | false => exact .throw _
  | true =>
    simp only [if_true, Comparison.fault]
    cases c.validate with
    | error e => exact .throw e
    | ok _ => exact .get_bind fun _ _ => rfl

theorem errorOf?_withCondition (hpolicy : schema.policies.condition = .deny) (r : Request)
    (q : Query) :
    errorOf? (withCondition schema r q) =
      r.condition.leaves.findSome? (fault schema q.entity) := by
  have hrun := (compiler_rejectsBy hpolicy q r.relations).compileAt .root r.condition .empty
  rw [withCondition, ← hrun, Compiler.compile, EStateM.run]
  cases (compiler schema q r.relations).compileAt .root r.condition .empty with
  | error e bound => rfl
  | ok text bound => cases text <;> rfl

/-- Without paths elsewhere the condition alone can fail. -/
theorem errorOf?_build (hpolicy : schema.policies.condition = .deny) (base : Query) {r : Request}
    (hselect : r.select = []) (hrelations : r.relations = []) (horder : r.order = []) :
    errorOf? (build schema base r) =
      r.condition.leaves.findSome? (fault schema base.entity) := by
  have hstages : buildAll schema base r = withCondition schema r (withTable schema base) := by
    have hnone : withSelect schema r (withTable schema base) = .ok (withTable schema base) := by
      rw [withSelect, hselect]
      rfl
    rw [buildAll, hnone]
    simp only [withRelations, hrelations, withOrder, horder]
    exact bind_pure (withCondition schema r (withTable schema base))
  have hentity : (withTable schema base).entity = base.entity := by
    rw [withTable]
    split <;> rfl
  rw [build, errorOf?_map, hstages, errorOf?_withCondition hpolicy, hentity]

end Sql

/-- **No leaf escapes validation.** A request fails exactly if some leaf of its condition has a
fault, and then with the fault of the first such leaf, however deep it is. -/
theorem builds_rejectBy (r : Request) :
    (∀ start rows, FailsBy Comparison.fault r.condition.leaves (Memory.build start rows r)) ∧
    FailsBy Document.fault r.condition.leaves (Document.filter r.condition) ∧
    (∀ base : Document.Cursor, FailsBy Document.fault r.condition.leaves (base.build r)) ∧
    (∀ base : Document.ModelQuery, FailsBy Document.fault r.condition.leaves (base.build r)) ∧
    (∀ (schema : Sql.Schema) (base : Sql.Query), schema.policies.condition = .deny →
      r.select = [] → r.relations = [] → r.order = [] →
        FailsBy (Sql.fault schema base.entity) r.condition.leaves (Sql.build schema base r)) ∧
    ∀ (table : KeyValue.Table) (base : KeyValue.Query), base.kind = .scan →
      FailsBy KeyValue.fault r.condition.leaves (KeyValue.build table base r) := by
  refine ⟨fun start rows => .of_errorOf? (Memory.errorOf?_build start rows r),
    .of_errorOf? (Document.errorOf?_filter r.condition),
    fun base => .of_errorOf? (base.errorOf?_build r),
    fun base => .of_errorOf? (base.errorOf?_build r), ?sql, ?keyValue⟩
  case sql =>
    intro schema base hpolicy hselect hrelations horder
    exact .of_errorOf? (Sql.errorOf?_build hpolicy base hselect hrelations horder)
  case keyValue =>
    intro table base hkind
    exact .of_errorOf? (KeyValue.errorOf?_build table hkind r)

/-- A request whose last two leaves are refused by some stores each, deep in the condition. -/
def hidden : Request where
  condition := .group .or [.leaf ⟨⟨["name"]⟩, .notNull, .one .null⟩,
    .group .and [.group .and [], .group .or [.leaf ⟨⟨["name"]⟩, .endsLower, .one (.int 1)⟩],
      .group .and [.leaf ⟨⟨["gone"]⟩, .between, .many []⟩]]]

/-- Each store finds the first leaf that it does not take. -/
theorem builds_rejectBy_hidden :
    ∃ (schema : Sql.Schema) (base : Sql.Query) (table : KeyValue.Table) (call : KeyValue.Query),
      schema.policies.condition = .deny ∧ call.kind = .scan ∧
      Memory.build [] [] hidden = .error (.invalidValue "between" (.notPair 0)) ∧
      Document.filter hidden.condition = .error (.invalidValue "ends_lower" .notText) ∧
      Sql.build schema base hidden = .error (.invalidField "where" "gone") ∧
      KeyValue.build table call hidden = .error (.unsupported "ends_lower" "dynamodb") := by
  obtain ⟨hmemory, hdocument, -, -, hsql, hkeyValue⟩ := builds_rejectBy hidden
  let schema : Sql.Schema :=
    { registry := Sql.Registry.register .empty ⟨"person", "people", ["name"], .empty⟩ }
  refine ⟨schema, .of "person" "p", {}, default, rfl, rfl, ?_, ?_, ?_, ?_⟩
  · exact ((hmemory [] []).error_iff _).2 ⟨[_, _], _, [], rfl, by decide, rfl⟩
  · exact (hdocument.error_iff _).2 ⟨[_], _, [_], rfl, by decide, rfl⟩
  · exact ((hsql schema (.of "person" "p") rfl rfl rfl rfl).error_iff _).2
      ⟨[_, _], _, [], rfl, by decide, rfl⟩
  · exact ((hkeyValue {} default rfl).error_iff _).2 ⟨[_], _, [_], rfl, by decide, rfl⟩

end StoreQuery
