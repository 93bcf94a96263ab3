import StoreQuery.Proofs.Condition.Faults
import StoreQuery.Proofs.KeyValue.Walk

/-!
# Leaves that a key-value store refuses

A key-value store has no expressions for the ends of texts and for case (`supports`), so a leaf has
a fault exactly if its operator does not accept its value or is one of those
(`compiler_rejectsBy`). This is so whether key parts are split off or not: only supported operators
constrain a key.

**A scan fails with the fault of the first leaf that has one** (`errorOf?_build`). A leaf that was
split off is compiled a second time, as a part of the key condition or by the pass over the whole
condition. That never fails where the first pass succeeded, since a key part is a valid leaf
(`sort_compilePass`).
-/

namespace StoreQuery.KeyValue

open Compiler (Fails)

/-! ## Faults -/

/-- Whether the store has an expression for an operator. -/
def supports : Operator → Bool
  | .ends | .eqLower | .neqLower | .startsLower | .endsLower | .containsLower | .notContainsLower
  | .inLower | .notInLower => false
  | _ => true

/-- The fault of an operator that the store has no expression for. -/
def operatorFault (op : Operator) : Option Error :=
  if supports op then none else some (.unsupported op.name storeName)

/-- The fault of a leaf: its operator does not accept the value, or has no expression. -/
def fault (c : Comparison) : Option Error := c.fault.or (operatorFault c.operator)

theorem supports_of_constrainsSortKey {op : Operator} (h : constrainsSortKey op = true) :
    supports op = true := by
  cases op <;> first | rfl | cases h

/-! ## Expressions -/

theorem fails_nameOf (path : Path) : Fails (nameOf path) none := .modifyGet _

theorem fails_valueOf (path : Path) (scalar : Scalar) : Fails (valueOf path scalar) none :=
  .modifyGet _

theorem fails_bindValue (name : String) (scalar : Scalar) : Fails (bindValue name scalar) none :=
  .modifyGet _

theorem fails_nullValue : Fails nullValue none :=
  (Fails.modifyGet _).bind fun _ => .pure _

section Leaf

variable {c : Comparison}

theorem fails_single (hshape : c.operator.shape = .single) (hvalid : c.validate = .ok ()) :
    Fails (single c) none := by
  obtain ⟨scalar, hvalue⟩ := Operator.one_of_validate hshape hvalid
  rw [single, hvalue]
  exact .pure scalar

theorem fails_many (hshape : c.operator.shape = .list) (hvalid : c.validate = .ok ()) :
    Fails (many c) none := by
  obtain ⟨scalars, hvalue⟩ := Operator.many_of_validate hshape hvalid
  rw [many, hvalue]
  exact .pure scalars

theorem fails_compareExpression (name symbol : String) (hshape : c.operator.shape = .single)
    (hvalid : c.validate = .ok ()) : Fails (compareExpression name symbol c) none :=
  (fails_single hshape hvalid).bind fun scalar =>
    (fails_valueOf c.path scalar).bind fun _ => .pure _

theorem fails_callExpression (function name : String) (hshape : c.operator.shape = .single)
    (hvalid : c.validate = .ok ()) : Fails (callExpression function name c) none :=
  (fails_single hshape hvalid).bind fun scalar =>
    (fails_valueOf c.path scalar).bind fun _ => .pure _

/-- Both bounds of a valid range are there. -/
theorem fails_betweenExpression (name token : String) (hop : c.operator = .between)
    (hvalid : c.validate = .ok ()) : Fails (betweenExpression name token c) none := by
  rw [Comparison.validate, hop] at hvalid
  obtain ⟨low, high, hvalue⟩ := Operator.bounds_of_validate hvalid
  have hmany : many c = pure [low, high] := by rw [many, hvalue]; rfl
  rw [betweenExpression, hmany, pure_bind]
  exact (fails_bindValue _ low).bind fun _ => (fails_bindValue _ high).bind fun _ => .pure _

theorem fails_bindItems (token : String) : ∀ (index : Nat) (scalars : List Scalar),
    Fails (bindItems token index scalars) none
  | _, [] => .pure []
  | index, scalar :: rest => (fails_bindValue _ scalar).bind fun _ =>
      (fails_bindItems token (index + 1) rest).bind fun _ => .pure _

theorem fails_inExpression (name : String) (hshape : c.operator.shape = .list)
    (hvalid : c.validate = .ok ()) : Fails (inExpression name c) none :=
  (fails_many hshape hvalid).bind fun scalars => .get_bind fun _ =>
    (fails_bindItems _ 0 scalars).bind fun _ => .pure _

/-- A valid leaf has an expression exactly if the store supports its operator. -/
theorem fails_leafExpression (hvalid : c.validate = .ok ()) :
    Fails (leafExpression c) (operatorFault c.operator) := by
  refine (fails_nameOf c.path).bind fun name => ?_
  obtain ⟨path, op, value⟩ := c
  cases op with
  | eq | neq | lt | lte | gt | gte => exact fails_compareExpression name _ rfl hvalid
  | starts | contains => exact fails_callExpression _ name rfl hvalid
  | notContains => exact (fails_callExpression _ name rfl hvalid).bind fun _ => .pure _
  | between => exact .get_bind fun q => fails_betweenExpression name _ rfl hvalid
  | isIn => exact fails_inExpression name rfl hvalid
  | notIn => exact (fails_inExpression name rfl hvalid).bind fun _ => .pure _
  | isNull | notNull => exact fails_nullValue.bind fun _ => .pure _
  | ends | eqLower | neqLower | startsLower | endsLower | containsLower | notContainsLower | inLower
  | notInLower => exact .throw _

/-- A valid leaf that constrains a sort key has a condition. -/
theorem fails_sortCondition (hop : constrainsSortKey c.operator = true)
    (hvalid : c.validate = .ok ()) : Fails (sortCondition c) none := by
  refine (fails_nameOf c.path).bind fun name => ?_
  obtain ⟨path, op, value⟩ := c
  cases op with
  | eq | lt | lte | gt | gte => exact fails_compareExpression name _ rfl hvalid
  | starts => exact fails_callExpression _ name rfl hvalid
  | between => exact .get_bind fun q => fails_betweenExpression name _ rfl hvalid
  | neq | contains | notContains | isIn | notIn | isNull | notNull | ends | eqLower | neqLower
  | startsLower | endsLower | containsLower | notContainsLower | inLower | notInLower => cases hop

end Leaf

/-! ## Leaves -/

theorem fails_onQuery {α : Type} {step : Step α} {fault : Option Error} (h : Fails step fault) :
    Fails (onQuery step) fault := by
  intro p
  rw [← h p.query, onQuery]
  cases step p.query <;> rfl

/-- Only leaves that the store supports are split off. -/
theorem supports_of_takeKey? {t : Table} {keys keys' : Keys} {c : Comparison}
    (h : takeKey? t keys c = some keys') : supports c.operator = true := by
  rw [takeKey?] at h
  split at h
  · rename_i hpartition
    rw [hpartition.2.1]
    rfl
  · split at h
    · rename_i hsort
      exact supports_of_constrainsSortKey hsort.2.1
    · cases h

/-- **A leaf is refused exactly if it has a fault**, whether key parts are split off or not. -/
theorem compiler_rejectsBy (t : Table) (taking : Bool) : (compiler t taking).RejectsBy fault := by
  intro c scope
  show Fails (compileLeaf t taking c scope) (fault c)
  rw [compileLeaf, fault, Comparison.fault]
  cases hvalid : c.validate with
  | error e => exact .throw e
  | ok _ =>
    refine .get_bind fun p => ?_
    cases htake : if taking && scope.topLevelAnd then takeKey? t p.keys c else none with
    | some keys =>
      have hsupported : supports c.operator = true := by
        split at htake
        · exact supports_of_takeKey? htake
        · cases htake
      rw [operatorFault, if_pos hsupported]
      exact fun _ => rfl
    | none =>
      have hleaf := (fails_onQuery (fails_leafExpression hvalid)).bind
        fun expression => Fails.pure (some expression)
      rwa [Option.or_none] at hleaf

/-! ## Passes -/

section Pass

variable {t : Table} {base : Query} {r : Request} {taking : Bool} {p : Progress}

/-- A pass over the condition fails where a leaf does, whichever leaves are split off. -/
theorem errorOf?_compilePass (t : Table) (base : Query) (r : Request) (taking : Bool) :
    errorOf? (compilePass t base r taking) = r.condition.leaves.findSome? fault := by
  have hrun := (compiler_rejectsBy t taking).compileAt .root r.condition
    { query := withProjection (withTable t base) r.select }
  rw [compilePass, ← hrun, Compiler.compile, EStateM.run]
  cases (compiler t taking).compileAt .root r.condition
    { query := withProjection (withTable t base) r.select } <;> rfl

theorem sort_takeKey? {keys keys' : Keys} {c : Comparison} (h : takeKey? t keys c = some keys') :
    keys'.sort = keys.sort ∨ keys'.sort = some c ∧ constrainsSortKey c.operator = true := by
  rw [takeKey?] at h
  split at h
  · cases h
    exact .inl rfl
  · split at h
    · rename_i hsort
      cases h
      exact .inr ⟨rfl, hsort.2.1⟩
    · cases h

/-- The leaf on the sort key was there before, or is one that constrains it. -/
theorem sort_split {leaves : List (Comparison × Bool)} {keys : Keys} {c : Comparison}
    (h : (split t taking keys leaves).1.sort = some c) :
    keys.sort = some c ∨
      (∃ leaf ∈ leaves, leaf.1 = c) ∧ constrainsSortKey c.operator = true := by
  induction leaves generalizing keys with
  | nil => exact .inl h
  | cons leaf rest ih =>
    have hlater {keys : Keys} (h : (split t taking keys rest).1.sort = some c) :
        keys.sort = some c ∨
          (∃ other ∈ leaf :: rest, other.1 = c) ∧ constrainsSortKey c.operator = true :=
      (ih h).imp_right fun ⟨⟨other, hother, hc⟩, hop⟩ => ⟨⟨other, .tail _ hother, hc⟩, hop⟩
    obtain ⟨c', top⟩ := leaf
    rw [split] at h
    split at h
    · rename_i keys' htake
      split at htake
      · rcases hlater h with hkeys | hlater
        · rcases sort_takeKey? htake with hsame | ⟨hnew, hop⟩
          · exact .inl (hsame.symm.trans hkeys)
          · cases hnew.symm.trans hkeys
            exact .inr ⟨⟨_, .head _, rfl⟩, hop⟩
        · exact .inr hlater
      · cases htake
    · exact hlater h

/-- The leaf on the sort key that a pass splits off is valid and constrains it. -/
theorem sort_compilePass (h : compilePass t base r taking = .ok p) {c : Comparison}
    (hsort : p.keys.sort = some c) :
    c.validate = .ok () ∧ constrainsSortKey c.operator = true := by
  obtain ⟨filter, progress, hrun, rfl⟩ := compilePass_cases h
  have hcompiled := compileAt_compiled .root r.condition hrun
  rw [hcompiled.keys] at hsort
  rcases sort_split hsort with hbefore | ⟨⟨leaf, hleaf, rfl⟩, hop⟩
  · cases hbefore
  · exact ⟨hcompiled.valid leaf hleaf, hop⟩

/-- The key condition of what a pass split off never fails. -/
theorem fails_keyCondition (h : compilePass t base r taking = .ok p) (partition : Scalar) :
    Fails (keyCondition t partition p.keys) none := by
  refine (fails_nameOf _).bind fun name => (fails_valueOf _ partition).bind fun value => ?_
  cases hsort : p.keys.sort with
  | none => exact .pure _
  | some c =>
    obtain ⟨hvalid, hop⟩ := sort_compilePass h hsort
    exact (fails_sortCondition hop hvalid).bind fun _ => .pure _

theorem errorOf?_buildFree (t : Table) (base : Query) (r : Request) :
    errorOf? (buildFree t base r) = r.condition.leaves.findSome? fault := by
  rw [← errorOf?_compilePass t base r true, buildFree]
  refine errorOf?_bind fun p hpass => ?_
  cases hpartition : p.keys.partition with
  | none =>
    simp only [hpartition]
    split
    · rfl
    · -- The leaves are the ones that the first pass took.
      have hwhole := errorOf?_compilePass t base r false
      rw [← errorOf?_compilePass t base r true, hpass] at hwhole
      rw [errorOf?_bind fun _ _ => rfl, hwhole]
      rfl
  | some value =>
    simp only [hpartition]
    split
    · rfl
    · have hcondition := fails_keyCondition hpass value p.query
      rw [EStateM.run]
      cases hrun : keyCondition t value p.keys p.query with
      | ok condition q => rfl
      | error e q => rw [hrun] at hcondition; cases hcondition

/-- **A scan fails with the fault of the first leaf that has one.** -/
theorem errorOf?_build (t : Table) {base : Query} (hkind : base.kind = .scan) (r : Request) :
    errorOf? (build t base r) = r.condition.leaves.findSome? fault := by
  rw [build, hkind]
  exact errorOf?_buildFree t base r

end Pass

end StoreQuery.KeyValue
