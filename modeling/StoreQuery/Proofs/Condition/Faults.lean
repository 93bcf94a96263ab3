import StoreQuery.Proofs.Condition.Compiling

/-!
# Conditions fail by their leaves

A leaf has a fault if a store does not take it, wherever it stands and whatever was compiled before
it. A compiler that fails at exactly the leaves with a fault (`RejectsBy`) fails at exactly the
conditions that have such a leaf, with the fault of the first one in document order
(`RejectsBy.compileAt`). Brackets neither hide a fault nor add one, however deep the leaf is.

`FailsBy` says so of an outcome, in the words of its leaves.
-/

namespace StoreQuery

/-! ## Values that are accepted -/

namespace Operator

variable {op : Operator} {value : Operand}

theorem one_of_validate (hshape : op.shape = .single) (h : op.validate value = .ok ()) :
    ∃ scalar, value = .one scalar := by
  cases value with
  | one scalar => exact ⟨scalar, rfl⟩
  | many scalars => simp [validate, hshape] at h

theorem many_of_validate (hshape : op.shape = .list) (h : op.validate value = .ok ()) :
    ∃ scalars, value = .many scalars := by
  cases value with
  | one scalar => simp [validate, hshape] at h
  | many scalars => exact ⟨scalars, rfl⟩

/-- A range whose value is accepted has its two bounds. -/
theorem bounds_of_validate (h : between.validate value = .ok ()) :
    ∃ low high, value = .many [low, high] :=
  match value with
  | .many [low, high] => ⟨low, high, rfl⟩
  | .one _ | .many [] | .many [_] => nomatch h
  | .many (_ :: _ :: _ :: _) => by simp [validate, shape] at h

end Operator

/-- The fault of a value that its operator does not accept. -/
def Comparison.fault (c : Comparison) : Option Error :=
  match c.validate with
  | .ok () => none
  | .error e => some e

/-! ## Outcomes -/

/-- The error of an outcome, if it is one. -/
def errorOf? {α : Type} : Except Error α → Option Error
  | .ok _ => none
  | .error e => some e

theorem errorOf?_eq_some {α : Type} {x : Except Error α} {e : Error} :
    errorOf? x = some e ↔ x = .error e := by
  cases x <;> simp [errorOf?]

theorem errorOf?_map {α β : Type} (x : Except Error α) (f : α → β) :
    errorOf? (x.map f) = errorOf? x := by
  cases x <;> rfl

/-- What comes next adds no error if it never fails where it is reached. -/
theorem errorOf?_bind {α β : Type} {x : Except Error α} {f : α → Except Error β}
    (hf : ∀ a, x = .ok a → errorOf? (f a) = none) : errorOf? (x >>= f) = errorOf? x := by
  cases x with
  | error e => rfl
  | ok a => exact hf a rfl

/-- An outcome is an error exactly if some leaf has a fault, and then it is the fault of the first
one. -/
structure FailsBy {α : Type} (fault : Comparison → Option Error) (leaves : List Comparison)
    (outcome : Except Error α) : Prop where
  fails_iff : (∃ e, outcome = .error e) ↔ ∃ c ∈ leaves, fault c ≠ none
  error_iff : ∀ e, outcome = .error e ↔ ∃ before c after, leaves = before ++ c :: after ∧
    (∀ d ∈ before, fault d = none) ∧ fault c = some e

theorem FailsBy.of_errorOf? {α : Type} {fault : Comparison → Option Error}
    {leaves : List Comparison} {outcome : Except Error α}
    (h : errorOf? outcome = leaves.findSome? fault) : FailsBy fault leaves outcome := by
  constructor
  · simp only [← errorOf?_eq_some, h]
    rw [← Option.isSome_iff_exists, List.findSome?_isSome_iff]
    simp only [Option.isSome_iff_ne_none]
  · intro e
    rw [← errorOf?_eq_some, h, List.findSome?_eq_some_iff]
    constructor
    · rintro ⟨before, c, after, hleaves, hfault, hbefore⟩
      exact ⟨before, c, after, hleaves, hbefore, hfault⟩
    · rintro ⟨before, c, after, hleaves, hbefore, hfault⟩
      exact ⟨before, c, after, hleaves, hfault, hbefore⟩

namespace Compiler

variable {σ φ α β : Type}

/-- The error that a computation ends with, if it does not succeed. -/
def failure? : EStateM.Result Error σ α → Option Error
  | .ok _ _ => none
  | .error e _ => some e

/-- A computation always fails as stated, and so it never fails where nothing is stated. -/
def Fails (x : EStateM Error σ α) (fault : Option Error) : Prop := ∀ s, failure? (x s) = fault

namespace Fails

variable {x : EStateM Error σ α} {f : α → EStateM Error σ β} {fault fault' : Option Error}

theorem pure (a : α) : Fails (Pure.pure a : EStateM Error σ α) none := fun _ => rfl

theorem throw (e : Error) : Fails (throw e : EStateM Error σ α) (some e) := fun _ => rfl

theorem modifyGet (f : σ → α × σ) : Fails (modifyGet f : EStateM Error σ α) none := fun _ => rfl

/-- The first part fails, or else the second one does. -/
theorem bind (h : Fails x fault) (hf : ∀ a, Fails (f a) fault') :
    Fails (x >>= f) (fault.or fault') := by
  intro s
  show failure? (EStateM.bind x f s) = _
  rw [← h s, EStateM.bind]
  cases x s with
  | ok a t => exact hf a t
  | error e t => rfl

/-- What comes next may look at the state. -/
theorem get_bind {f : σ → EStateM Error σ α} (hf : ∀ s, Fails (f s) fault) :
    Fails (get >>= f) fault := fun s => hf s s

end Fails

/-- The leaves that a compiler fails at are those with a fault. -/
def RejectsBy (c : Compiler σ φ) (fault : Comparison → Option Error) : Prop :=
  ∀ comparison scope, Fails (c.leaf comparison scope) (fault comparison)

namespace RejectsBy

variable {c : Compiler σ φ} {fault : Comparison → Option Error}

/-- Closing a bracket never fails. -/
theorem close (c : Compiler σ φ) (k : Connective) (scope : Scope) (fragments : List φ) :
    Fails (c.close k scope fragments) none := by
  match fragments with
  | [] => exact .pure none
  | [only] => exact .pure (some only)
  | _ :: _ :: _ => exact .modifyGet _

mutual

/-- **A condition fails with the fault of the first leaf that has one.** -/
theorem compileAt (h : RejectsBy c fault) (scope : Scope) : ∀ condition : Condition,
    Fails (c.compileAt scope condition) (condition.leaves.findSome? fault)
  | .leaf comparison => by
    have hleaf := h comparison scope
    rwa [Condition.leaves, List.findSome?_singleton]
  | .group _ [] => .pure none
  | .group k [only] => by
    have honly := compileAt h (scope.single k) only
    rwa [Condition.leaves, Condition.leavesOf, Condition.leavesOf, List.append_nil]
  | .group k (first :: second :: rest) => by
    have hall := (compileAll h (scope.enter k) (first :: second :: rest)).bind
      fun fragments => close c k scope fragments
    rwa [Option.or_none] at hall

theorem compileAll (h : RejectsBy c fault) (scope : Scope) : ∀ members : List Condition,
    Fails (c.compileAll scope members) ((Condition.leavesOf members).findSome? fault)
  | [] => .pure []
  | condition :: rest => by
    have hrest (fragment : Option φ) := (compileAll h scope rest).bind
      fun fragments => Fails.pure (fragment.toList ++ fragments)
    have hall := (compileAt h scope condition).bind hrest
    rwa [Option.or_none, ← List.findSome?_append] at hall

end

/-- A compiler without state fails where its leaves do. -/
theorem stateless {leaf : Comparison → Scope → Except Error (Option φ)}
    {join : Connective → List φ → φ}
    (h : ∀ comparison scope, errorOf? (leaf comparison scope) = fault comparison) :
    RejectsBy (.stateless leaf join) fault := by
  intro comparison scope s
  rw [← h comparison scope, Compiler.stateless]
  dsimp only
  cases leaf comparison scope <;> rfl

theorem compilePure {c : Compiler PUnit φ} (h : RejectsBy c fault) (condition : Condition) :
    errorOf? (c.compilePure condition) = condition.leaves.findSome? fault := by
  rw [← h.compileAt .root condition ⟨⟩, Compiler.compilePure, compile, EStateM.run]
  cases c.compileAt .root condition ⟨⟩ <;> rfl

end RejectsBy

end Compiler

end StoreQuery
