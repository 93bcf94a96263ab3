import StoreQuery.Proofs.Condition.Truth
import StoreQuery.Proofs.Condition.Compiling

/-!
# Conditions without redundant brackets

A bracket that contains no leaf says nothing, and one with a single member says what its member
says. `Condition.reduced` leaves both kinds out, from the inside out, so that every bracket that is
left has two or more members (`normal_reduced`); the leaves and their order stay
(`leaves_normalize`), and so does what the condition says (`meaning_eq_reduced`).

**A compiler that does not look at scopes cannot tell a condition from its normal form**
(`Unscoped.compile_normalize`): not by its fragment, its state or its error.

**What holds of leaves and of joins holds of the reduced condition and its fragment**
(`TreeLaw.compileAt`). A leaf may be dropped, and then a bracket may lose so many members that it
is not joined: what the fragment is made for is the reduced form of what is left. The law for a run
(`Compiler.Law`) knows the leaves only; this one knows the tree.
-/

namespace StoreQuery

namespace Condition

/-! ## Reducing -/

/-- What is left of a bracket with the given members. -/
def collapse (k : Connective) : List Condition → Option Condition
  | [] => none
  | [only] => some only
  | members => some (.group k members)

mutual

/-- The condition without the brackets that contain no leaf or have a single member. -/
def reduced : Condition → Option Condition
  | .leaf c => some (.leaf c)
  | .group k members => collapse k (reducedAll members)

/-- What is left of each of the members of a bracket. -/
def reducedAll : List Condition → List Condition
  | [] => []
  | condition :: rest => condition.reduced.toList ++ reducedAll rest

end

/-- The normal form of a condition; one without leaves becomes the empty AND. -/
def normalize (condition : Condition) : Condition := condition.reduced.getD unconstrained

mutual

/-- Every bracket has two or more members. -/
inductive Normal : Condition → Prop
  | leaf (c : Comparison) : Normal (.leaf c)
  | group (k : Connective) {members : List Condition} (several : 2 ≤ members.length)
    (h : AllNormal members) : Normal (.group k members)

inductive AllNormal : List Condition → Prop
  | nil : AllNormal []
  | cons {condition : Condition} {rest : List Condition} (h : Normal condition)
    (hrest : AllNormal rest) : AllNormal (condition :: rest)

end

theorem AllNormal.append {members others : List Condition} (h : AllNormal members)
    (h' : AllNormal others) : AllNormal (members ++ others) :=
  match h with
  | .nil => h'
  | .cons hfirst hrest => .cons hfirst (hrest.append h')

theorem collapse_toList (k : Connective) (left : Option Condition) :
    collapse k left.toList = left := by
  cases left <;> rfl

theorem allNormal_collapse (k : Connective) {members : List Condition} (h : AllNormal members) :
    AllNormal (collapse k members).toList :=
  match members with
  | [] => .nil
  | [_] => h
  | _ :: _ :: _ => .cons (.group k (by simp) h) .nil

mutual

theorem allNormal_reduced : ∀ condition : Condition, AllNormal condition.reduced.toList
  | .leaf c => .cons (.leaf c) .nil
  | .group k members => allNormal_collapse k (allNormal_reducedAll members)

theorem allNormal_reducedAll : ∀ members : List Condition, AllNormal (reducedAll members)
  | [] => .nil
  | condition :: rest => (allNormal_reduced condition).append (allNormal_reducedAll rest)

end

theorem normal_reduced {condition left : Condition} (h : condition.reduced = some left) :
    left.Normal := by
  have hall := allNormal_reduced condition
  rw [h] at hall
  cases hall with
  | cons hleft _ => exact hleft

theorem leavesOf_collapse (k : Connective) (members : List Condition) :
    leavesOf (collapse k members).toList = leavesOf members :=
  match members with
  | [] => rfl
  | [_] => rfl
  | _ :: _ :: _ => List.append_nil _

mutual

theorem leavesOf_reduced : ∀ condition : Condition,
    leavesOf condition.reduced.toList = condition.leaves
  | .leaf _ => rfl
  | .group k members => (leavesOf_collapse k _).trans (leavesOf_reducedAll members)

theorem leavesOf_reducedAll : ∀ members : List Condition,
    leavesOf (reducedAll members) = leavesOf members
  | [] => rfl
  | condition :: rest => by
    rw [reducedAll, leavesOf_append, leavesOf_reduced condition, leavesOf_reducedAll rest, leavesOf]

end

theorem leaves_eq_nil {condition : Condition} (h : condition.reduced = none) :
    condition.leaves = [] := by
  rw [← leavesOf_reduced condition, h]
  rfl

theorem leaves_eq_of_reduced {condition left : Condition} (h : condition.reduced = some left) :
    left.leaves = condition.leaves := by
  rw [← leavesOf_reduced condition, h]
  exact (List.append_nil _).symm

theorem leaves_normalize (condition : Condition) :
    condition.normalize.leaves = condition.leaves := by
  rw [Condition.normalize]
  cases hleft : condition.reduced with
  | none => exact (leaves_eq_nil hleft).symm
  | some left => exact leaves_eq_of_reduced hleft

/-! ## What is left says the same -/

section Truth

variable {holds : Comparison → Bool}

/-- A bracket with a single member says what its member says. -/
theorem truth_collapse (k : Connective) (members : List Condition) :
    (collapse k members).map (truth holds) = (bracket? k members).map (truth holds) :=
  match members with
  | [] => rfl
  | [only] => by cases k <;> simp [collapse, bracket?, truth, allTrue, someTrue]
  | _ :: _ :: _ => rfl

mutual

/-- **A condition says what is left of it.** -/
theorem meaning_eq_reduced (holds : Comparison → Bool) : ∀ condition : Condition,
    condition.meaning holds = condition.reduced.map (truth holds)
  | .leaf _ => rfl
  | .group k members => meaningOf_eq_reduced holds k members

theorem meaningOf_eq_reduced (holds : Comparison → Bool) (k : Connective) :
    ∀ members : List Condition,
      meaningOf holds k members = (collapse k (reducedAll members)).map (truth holds)
  | [] => rfl
  | condition :: rest => by
    rw [meaningOf, reducedAll, meaning_eq_reduced holds condition,
      meaningOf_eq_reduced holds k rest, truth_collapse, truth_collapse]
    cases condition.reduced with
    | none => exact k.merge_none_left _
    | some left => exact merge_truth k left (reducedAll rest)

end

end Truth

/-! ## Leaves that are dropped -/

variable {keep : Comparison → Bool}

mutual

theorem retainInside_true : ∀ condition : Condition,
    retainInside (fun _ => true) condition = condition
  | .leaf _ => rfl
  | .group k members => congrArg (Condition.group k) (retainMembers_true members)

theorem retainMembers_true : ∀ members : List Condition,
    retainMembers (fun _ => true) members = members
  | [] => rfl
  | .leaf c :: rest => congrArg (List.cons (Condition.leaf c)) (retainMembers_true rest)
  | .group k members :: rest =>
    congrArg₂ (· :: ·) (retainInside_true (.group k members)) (retainMembers_true rest)

end

theorem retain_true : ∀ condition : Condition, condition.retain (fun _ => true) = condition
  | .leaf _ => rfl
  | .group k members => retainInside_true (.group k members)

/-- What is left of a bracket when leaves are dropped. -/
theorem reduced_retain_group (k : Connective) (members : List Condition) :
    ((Condition.group k members).retain keep).reduced =
      collapse k (reducedAll (retainMembers keep members)) := rfl

theorem reducedAll_retainMembers_cons (condition : Condition) (rest : List Condition) :
    reducedAll (retainMembers keep (condition :: rest)) =
      (condition.retain keep).reduced.toList ++ reducedAll (retainMembers keep rest) := by
  cases condition with
  | group k members => rfl
  | leaf c =>
    rw [retainMembers, retain]
    split
    · rfl
    · rfl

end Condition

namespace Compiler

open Condition

variable {σ φ : Type} {c : Compiler σ φ}

/-! ## Compilers that do not look at scopes -/

/-- Neither leaves nor joins depend on the scope. -/
structure Unscoped (c : Compiler σ φ) : Prop where
  leaf : ∀ comparison scope scope', c.leaf comparison scope = c.leaf comparison scope'
  join : ∀ k fragments scope scope', c.join k fragments scope = c.join k fragments scope'

/-- A bracket with one member is closed with the fragment of its member. -/
theorem compileAll_singleton_close (c : Compiler σ φ) (k : Connective) (scope scope' : Scope)
    (condition : Condition) :
    (c.compileAll scope [condition] >>= c.close k scope') = c.compileAt scope condition := by
  have hclose : ∀ fragment : Option φ,
      c.close k scope' (fragment.toList ++ []) = pure fragment := by
    intro fragment
    cases fragment <;> rfl
  simp only [compileAll, bind_assoc, pure_bind, hclose, bind_pure]

namespace Unscoped

theorem stateless {leaf : Comparison → Scope → Except Error (Option φ)}
    {join : Connective → List φ → φ}
    (h : ∀ comparison scope scope', leaf comparison scope = leaf comparison scope') :
    Unscoped (.stateless leaf join) where
  leaf comparison scope scope' := by simp only [Compiler.stateless, h comparison scope scope']
  join _ _ _ _ := rfl

theorem close (h : Unscoped c) (k : Connective) (scope scope' : Scope) (fragments : List φ) :
    c.close k scope fragments = c.close k scope' fragments := by
  match fragments with
  | [] => rfl
  | [_] => rfl
  | first :: second :: rest =>
    show (modifyGet fun s => (c.join k (first :: second :: rest) scope s).map some id :
      EStateM Error σ (Option φ)) = _
    rw [h.join k _ scope scope']
    rfl

mutual

theorem compileAt_congr (h : Unscoped c) (scope scope' : Scope) : ∀ condition : Condition,
    c.compileAt scope condition = c.compileAt scope' condition
  | .leaf comparison => h.leaf comparison scope scope'
  | .group _ [] => rfl
  | .group k [only] => compileAt_congr h (scope.single k) (scope'.single k) only
  | .group k (first :: second :: rest) => by
    rw [Compiler.compileAt, Compiler.compileAt,
      compileAll_congr h (scope.enter k) (scope'.enter k) (first :: second :: rest),
      funext (h.close k scope scope')]

theorem compileAll_congr (h : Unscoped c) (scope scope' : Scope) : ∀ members : List Condition,
    c.compileAll scope members = c.compileAll scope' members
  | [] => rfl
  | condition :: rest => by
    rw [Compiler.compileAll, Compiler.compileAll, compileAt_congr h scope scope' condition,
      compileAll_congr h scope scope' rest]

end

/-- Without scopes there is one rule for all brackets: the members first, then the bracket. -/
theorem compileAt_group (h : Unscoped c) (scope : Scope) (k : Connective)
    (members : List Condition) :
    c.compileAt scope (.group k members) = c.compileAll scope members >>= c.close k scope :=
  match members with
  | [] => (pure_bind ([] : List φ) (c.close k scope)).symm
  | [only] => by
    rw [compileAll_singleton_close, Compiler.compileAt, h.compileAt_congr (scope.single k) scope]
  | first :: second :: rest => by
    rw [Compiler.compileAt, h.compileAll_congr (scope.enter k) scope]

/-- Closing a bracket amounts to compiling what is left of it. -/
theorem compile_collapse (h : Unscoped c) (scope : Scope) (k : Connective)
    (members : List Condition) :
    ((collapse k members).elim (pure none) (c.compileAt scope)) =
      (c.compileAll scope members >>= c.close k scope) :=
  match members with
  | [] => (pure_bind ([] : List φ) (c.close k scope)).symm
  | [only] => (compileAll_singleton_close c k scope scope only).symm
  | first :: second :: rest => h.compileAt_group scope k (first :: second :: rest)

mutual

theorem compileAt_reduced (h : Unscoped c) (scope : Scope) : ∀ condition : Condition,
    condition.reduced.elim (pure none) (c.compileAt scope) = c.compileAt scope condition
  | .leaf _ => rfl
  | .group k members => by
    rw [reduced, h.compile_collapse, compileAll_reduced h scope members, h.compileAt_group]

theorem compileAll_reduced (h : Unscoped c) (scope : Scope) : ∀ members : List Condition,
    c.compileAll scope (reducedAll members) = c.compileAll scope members
  | [] => rfl
  | condition :: rest => by
    rw [Compiler.compileAll, ← compileAt_reduced h scope condition,
      ← compileAll_reduced h scope rest, reducedAll]
    cases condition.reduced with
    | none => exact ((pure_bind none _).trans (bind_pure _)).symm
    | some left => rfl

end

/-- **A compiler that does not look at scopes cannot tell a condition from its normal form.** -/
theorem compile_normalize (h : Unscoped c) (condition : Condition) :
    c.compile condition.normalize = c.compile condition := by
  rw [compile, compile, ← h.compileAt_reduced .root condition, Condition.normalize]
  cases condition.reduced <;> rfl

end Unscoped

/-! ## What holds of the tree -/

/-- A relation between conditions, the fragments that they compile to, and the states before and
after. It holds of each leaf, which has a fragment exactly if it is kept; it survives joining and
composes; and each condition has one fragment. -/
structure TreeLaw (c : Compiler σ φ) (keep : Comparison → Bool)
    (holds : List Condition → List φ → σ → σ → Prop) : Prop where
  nil : ∀ s, holds [] [] s s
  append : ∀ {conditions conditions' fragments fragments' s t u}, holds conditions fragments s t →
    holds conditions' fragments' t u →
      holds (conditions ++ conditions') (fragments ++ fragments') s u
  leaf : ∀ {comparison scope fragment s t}, c.leaf comparison scope s = .ok fragment t →
    holds (if keep comparison then [.leaf comparison] else []) fragment.toList s t
  join : ∀ {conditions fragments s t} (k : Connective) (scope : Scope),
    holds conditions fragments s t → 2 ≤ fragments.length →
      holds [.group k conditions] [(c.join k fragments scope t).1] s
        (c.join k fragments scope t).2
  length_eq : ∀ {conditions fragments s t}, holds conditions fragments s t →
    conditions.length = fragments.length

namespace TreeLaw

variable {keep : Comparison → Bool} {holds : List Condition → List φ → σ → σ → Prop}

/-- A bracket is joined exactly where its reduced form is a bracket. -/
theorem close (h : TreeLaw c keep holds) {conditions : List Condition} {fragments : List φ}
    {fragment : Option φ} {k : Connective} {scope : Scope} {s t u : σ}
    (hall : holds conditions fragments s t)
    (run : c.close k scope fragments t = .ok fragment u) :
    holds (collapse k conditions).toList fragment.toList s u := by
  have hlength := h.length_eq hall
  match conditions, fragments with
  | [], [] => cases run; exact hall
  | [_], [_] => cases run; exact hall
  | _ :: _ :: _, first :: second :: rest => cases run; exact h.join k scope hall (by simp)

mutual

/-- **What holds of leaves and of joins holds of the reduced condition and its fragment.** -/
theorem compileAt (h : TreeLaw c keep holds) (scope : Scope) :
    ∀ (condition : Condition) {fragment : Option φ} {s t : σ},
      c.compileAt scope condition s = .ok fragment t →
        holds (condition.retain keep).reduced.toList fragment.toList s t
  | .leaf comparison, fragment, s, t, run => by
    have hleaf := h.leaf run
    rw [retain]
    split at hleaf
    · rename_i hkept
      rwa [if_pos hkept]
    · rename_i hdropped
      rwa [if_neg hdropped]
  | .group _ [], _, s, _, run => by cases run; exact h.nil s
  | .group k [only], fragment, s, t, run => by
    have honly := compileAt h (scope.single k) only run
    rwa [reduced_retain_group, reducedAll_retainMembers_cons, retainMembers, reducedAll,
      List.append_nil, collapse_toList]
  | .group k (first :: second :: rest), fragment, s, t, run => by
    obtain ⟨fragments, s₁, hall, hclose⟩ := run_bind_eq_ok.1 run
    exact h.close (compileAll h (scope.enter k) (first :: second :: rest) hall) hclose

theorem compileAll (h : TreeLaw c keep holds) (scope : Scope) :
    ∀ (members : List Condition) {fragments : List φ} {s t : σ},
      c.compileAll scope members s = .ok fragments t →
        holds (reducedAll (retainMembers keep members)) fragments s t
  | [], _, s, _, run => by cases run; exact h.nil s
  | condition :: rest, _, s, t, run => by
    obtain ⟨fragment, s₁, hfirst, run⟩ := run_bind_eq_ok.1 run
    obtain ⟨fragments, s₂, hrest, run⟩ := run_bind_eq_ok.1 run
    cases run
    rw [reducedAll_retainMembers_cons]
    exact h.append (compileAt h scope condition hfirst) (compileAll h scope rest hrest)

end

end TreeLaw

end Compiler

end StoreQuery
