import Mathlib.Data.List.Basic
import StoreQuery.Condition.Compiler
import StoreQuery.Proofs.Condition.Alike
import StoreQuery.Proofs.Success

/-!
# Laws of compiling

What holds of every compiler, whatever its store. A leaf stands in brackets, listed from the
innermost one to the outermost one; its scope is read off this list (`Scope.below`). A compiler
without state succeeds as its leaves do (`leaf_stateless_eq_ok`).

**What holds of leaves and survives joining holds of the whole run** (`Law.compileAt`), if it
composes. This is the way to say something about the fragment of a condition.

**Compilers that treat alike comparisons alike compile alike conditions to one fragment**
(`Uniform.compileAt`). Here two runs are compared, on two conditions that differ in the values of
their leaves only.

**A compiler that gives the fragments of another one in a different form** gives them so for every
condition (`Image.compileAt`).
-/

namespace StoreQuery

/-! ## Leaves and the brackets around them -/

/-- A bracket, as the members inside see it: its kind and how many members it has. -/
structure Bracket where
  kind : Connective
  size : Nat
  deriving DecidableEq, Repr

namespace Scope

/-- The scope inside some brackets: no OR may be among them, and those with two or more members
count for the depth. -/
def below (above : List Bracket) : Scope :=
  ⟨above.all fun b => b.kind == .and, above.countP fun b => decide (2 ≤ b.size)⟩

@[simp] theorem below_nil : below [] = root := rfl

theorem below_single (k : Connective) (above : List Bracket) :
    below (⟨k, 1⟩ :: above) = (below above).single k := by
  cases k <;> simp [below, single]

theorem below_enter (k : Connective) {size : Nat} (hsize : 2 ≤ size) (above : List Bracket) :
    below (⟨k, size⟩ :: above) = (below above).enter k := by
  simp [below, enter, hsize, Bool.and_comm]

end Scope

namespace Condition

mutual

/-- The leaves in document order, each with the brackets around it. -/
def placed (above : List Bracket) : Condition → List (Comparison × List Bracket)
  | .leaf c => [(c, above)]
  | .group k members => placedAll (⟨k, members.length⟩ :: above) members

def placedAll (above : List Bracket) : List Condition → List (Comparison × List Bracket)
  | [] => []
  | condition :: rest => placed above condition ++ placedAll above rest

end

mutual

theorem map_placed (above : List Bracket) :
    ∀ condition, (placed above condition).map (·.1) = condition.leaves
  | .leaf _ => rfl
  | .group k members => map_placedAll (⟨k, members.length⟩ :: above) members

theorem map_placedAll (above : List Bracket) :
    ∀ members, (placedAll above members).map (·.1) = leavesOf members
  | [] => rfl
  | condition :: rest => by
    rw [placedAll, List.map_append, map_placed above condition, map_placedAll above rest, leavesOf]

end

end Condition

namespace Compiler

variable {σ φ : Type} {c : Compiler σ φ}

/-! ## Compilers without state -/

theorem leaf_stateless_eq_ok {leaf : Comparison → Scope → Except Error (Option φ)}
    {join : Connective → List φ → φ} {comparison : Comparison} {scope : Scope}
    {fragment : Option φ} {s t : PUnit} :
    (stateless leaf join).leaf comparison scope s = .ok fragment t ↔
      leaf comparison scope = .ok fragment := by
  rw [stateless]
  dsimp only
  cases leaf comparison scope with
  | ok fragment' => exact ⟨fun h => by cases h; rfl, fun h => by cases h; rfl⟩
  | error e => exact ⟨nofun, nofun⟩

theorem compilePure_eq_ok {c : Compiler PUnit φ} {condition : Condition} {fragment : Option φ} :
    c.compilePure condition = .ok fragment ↔
      c.compileAt .root condition ⟨⟩ = .ok fragment ⟨⟩ := by
  rw [compilePure, compile, EStateM.run]
  cases c.compileAt .root condition ⟨⟩ with
  | ok fragment' t => exact ⟨fun h => by cases h; rfl, fun h => by cases h; rfl⟩
  | error e t => exact ⟨nofun, nofun⟩

/-! ## One run -/

/-- A relation between leaves, the fragments that compiling them gives, and the states before and
after. It holds of each leaf, survives joining and composes. -/
structure Law (c : Compiler σ φ)
    (holds : List (Comparison × List Bracket) → List φ → σ → σ → Prop) : Prop where
  nil : ∀ s, holds [] [] s s
  append : ∀ {leaves leaves' fragments fragments' s t u}, holds leaves fragments s t →
    holds leaves' fragments' t u → holds (leaves ++ leaves') (fragments ++ fragments') s u
  leaf : ∀ {comparison above fragment s t},
    c.leaf comparison (.below above) s = .ok fragment t →
      holds [(comparison, above)] fragment.toList s t
  join : ∀ {leaves fragments s t} (k : Connective) (above : List Bracket),
    holds leaves fragments s t → 2 ≤ fragments.length →
      holds leaves [(c.join k fragments (.below above) t).1] s
        (c.join k fragments (.below above) t).2

namespace Law

variable {holds : List (Comparison × List Bracket) → List φ → σ → σ → Prop}

theorem close (h : Law c holds) {leaves : List (Comparison × List Bracket)} {fragments : List φ}
    {fragment : Option φ} {k : Connective} {above : List Bracket} {s t u : σ}
    (hall : holds leaves fragments s t)
    (run : c.close k (.below above) fragments t = .ok fragment u) :
    holds leaves fragment.toList s u := by
  match fragments with
  | [] => cases run; exact hall
  | [only] => cases run; exact hall
  | first :: second :: rest =>
    cases run
    exact h.join k above hall (by simp)

mutual

/-- **What holds of leaves and survives joining holds of the whole run.** -/
theorem compileAt (h : Law c holds) (above : List Bracket) :
    ∀ (condition : Condition) {fragment : Option φ} {s t : σ},
      c.compileAt (.below above) condition s = .ok fragment t →
        holds (condition.placed above) fragment.toList s t
  | .leaf _, _, _, _, run => h.leaf run
  | .group _ [], _, s, _, run => by cases run; exact h.nil s
  | .group k [only], fragment, s, t, run => by
    rw [Compiler.compileAt, ← Scope.below_single] at run
    have honly := compileAt h (⟨k, 1⟩ :: above) only run
    simpa [Condition.placed, Condition.placedAll] using honly
  | .group k (first :: second :: rest), fragment, s, t, run => by
    have several : 2 ≤ (first :: second :: rest).length := by simp
    rw [Compiler.compileAt, ← Scope.below_enter k several] at run
    obtain ⟨fragments, s₁, hall, hclose⟩ := run_bind_eq_ok.1 run
    exact h.close (compileAll h _ (first :: second :: rest) hall) hclose

theorem compileAll (h : Law c holds) (above : List Bracket) :
    ∀ (members : List Condition) {fragments : List φ} {s t : σ},
      c.compileAll (.below above) members s = .ok fragments t →
        holds (Condition.placedAll above members) fragments s t
  | [], _, s, _, run => by cases run; exact h.nil s
  | condition :: rest, _, s, t, run => by
    obtain ⟨fragment, s₁, hfirst, run⟩ := run_bind_eq_ok.1 run
    obtain ⟨fragments, s₂, hrest, run⟩ := run_bind_eq_ok.1 run
    cases run
    exact h.append (compileAt h above condition hfirst) (compileAll h above rest hrest)

end

end Law

/-! ## Two runs -/

/-- Two computations that begin in related states and both succeed give the same result and end
in related states. -/
def Agree {α : Type} (related : σ → σ → Prop) (x x' : EStateM Error σ α) : Prop :=
  ∀ ⦃s s' t t' : σ⦄ ⦃a a' : α⦄, related s s' → x s = .ok a t → x' s' = .ok a' t' →
    a = a' ∧ related t t'

namespace Agree

variable {α β : Type} {related : σ → σ → Prop} {x x' : EStateM Error σ α}
  {f f' : α → EStateM Error σ β}

theorem pure (a : α) : Agree related (Pure.pure a) (Pure.pure a) := by
  intro s s' t t' b b' hs run run'
  cases run
  cases run'
  exact ⟨rfl, hs⟩

theorem bind (h : Agree related x x') (hf : ∀ a, Agree related (f a) (f' a)) :
    Agree related (x >>= f) (x' >>= f') := by
  intro s s' t t' b b' hs run run'
  obtain ⟨a, s₁, hrun, hrest⟩ := run_bind_eq_ok.1 run
  obtain ⟨a', s₁', hrun', hrest'⟩ := run_bind_eq_ok.1 run'
  obtain ⟨rfl, hs₁⟩ := h hs hrun hrun'
  exact hf a hs₁ hrest hrest'

/-- A computation that fails agrees with any other. -/
theorem fails (e : Error) : Agree related (throw e) x := by
  intro s s' t t' a a' _ run
  cases run

/-- Steps that are functions of the state. -/
theorem ofFun {g g' : σ → α × σ}
    (h : ∀ s s', related s s' → (g s).1 = (g' s').1 ∧ related (g s).2 (g' s').2) :
    Agree related (modifyGet g) (modifyGet g') := by
  intro s s' t t' a a' hs run run'
  have hrun : (modifyGet g : EStateM Error σ α) s = .ok (g s).1 (g s).2 := rfl
  have hrun' : (modifyGet g' : EStateM Error σ α) s' = .ok (g' s').1 (g' s').2 := rfl
  obtain ⟨rfl, rfl⟩ := EStateM.Result.ok.inj (hrun.symm.trans run)
  obtain ⟨rfl, rfl⟩ := EStateM.Result.ok.inj (hrun'.symm.trans run')
  exact h s s' hs

/-- What comes next may look at the state. -/
theorem get_bind {k k' : σ → EStateM Error σ α}
    (h : ∀ s s', related s s' → Agree related (k s) (k' s')) :
    Agree related (get >>= k) (get >>= k') := by
  intro s s' t t' a a' hs run run'
  exact h s s' hs hs run run'

end Agree

/-- Leaves that compare with similar values agree, and so do joins of the same fragments. -/
structure Uniform (c : Compiler σ φ) (similar : Operand → Operand → Prop)
    (related : σ → σ → Prop) : Prop where
  leaf : ∀ {value value'} (path : Path) (op : Operator) (scope : Scope), similar value value' →
    Agree related (c.leaf ⟨path, op, value⟩ scope) (c.leaf ⟨path, op, value'⟩ scope)
  join : ∀ {s s'} (k : Connective) (fragments : List φ) (scope : Scope), related s s' →
    (c.join k fragments scope s).1 = (c.join k fragments scope s').1 ∧
      related (c.join k fragments scope s).2 (c.join k fragments scope s').2

namespace Uniform

variable {similar : Operand → Operand → Prop} {related : σ → σ → Prop}

theorem close (h : Uniform c similar related) (k : Connective) (scope : Scope)
    (fragments : List φ) :
    Agree related (c.close k scope fragments) (c.close k scope fragments) := by
  match fragments with
  | [] => exact .pure none
  | [only] => exact .pure (some only)
  | first :: second :: rest =>
    intro s s' t t' fragment fragment' hs run run'
    cases run
    cases run'
    obtain ⟨hfragment, hstate⟩ := h.join k (first :: second :: rest) scope hs
    exact ⟨congrArg some hfragment, hstate⟩

mutual

/-- **Alike conditions compile to one fragment.** -/
theorem compileAt (h : Uniform c similar related) (scope : Scope) {condition condition' : Condition}
    (halike : condition.Alike similar condition') :
    Agree related (c.compileAt scope condition) (c.compileAt scope condition') :=
  match halike with
  | .leaf path op hvalue => h.leaf path op scope hvalue
  | .group _ .nil => .pure none
  | .group k (.cons honly .nil) => compileAt h (scope.single k) honly
  | .group k (.cons hfirst (.cons hsecond hrest)) =>
    (compileAll h (scope.enter k) (.cons hfirst (.cons hsecond hrest))).bind fun fragments =>
      h.close k scope fragments

theorem compileAll (h : Uniform c similar related) (scope : Scope)
    {members members' : List Condition}
    (halike : Condition.AllAlike similar members members') :
    Agree related (c.compileAll scope members) (c.compileAll scope members') :=
  match halike with
  | .nil => .pure []
  | .cons hfirst hrest =>
    (compileAt h scope hfirst).bind fun fragment =>
      (compileAll h scope hrest).bind fun fragments => .pure (fragment.toList ++ fragments)

end

end Uniform

/-! ## Fragments in another form -/

section Image

variable {ψ : Type} {d : Compiler σ ψ} {f : φ → ψ}

/-- A compiler whose fragments are those of another one in a different form. -/
structure Image (f : φ → ψ) (c : Compiler σ φ) (d : Compiler σ ψ) : Prop where
  leaf : ∀ comparison scope,
    d.leaf comparison scope = Option.map f <$> c.leaf comparison scope
  join : ∀ k fragments scope s, d.join k (fragments.map f) scope s =
    (f (c.join k fragments scope s).1, (c.join k fragments scope s).2)

namespace Image

theorem close (h : Image f c d) (k : Connective) (scope : Scope) (fragments : List φ) :
    d.close k scope (fragments.map f) = Option.map f <$> c.close k scope fragments := by
  match fragments with
  | [] => rfl
  | [_] => rfl
  | first :: second :: rest =>
    funext s
    show EStateM.Result.ok (some (d.join k ((first :: second :: rest).map f) scope s).1)
      (d.join k ((first :: second :: rest).map f) scope s).2 = _
    rw [h.join]
    rfl

mutual

/-- **A condition compiles to the same fragment in its other form.** -/
theorem compileAt (h : Image f c d) (scope : Scope) : ∀ condition : Condition,
    d.compileAt scope condition = Option.map f <$> c.compileAt scope condition
  | .leaf comparison => h.leaf comparison scope
  | .group _ [] => rfl
  | .group k [only] => compileAt h (scope.single k) only
  | .group k (first :: second :: rest) => by
    rw [Compiler.compileAt, Compiler.compileAt,
      compileAll h (scope.enter k) (first :: second :: rest)]
    simp only [map_eq_pure_bind, bind_assoc, pure_bind, h.close]

theorem compileAll (h : Image f c d) (scope : Scope) : ∀ members : List Condition,
    d.compileAll scope members = List.map f <$> c.compileAll scope members
  | [] => rfl
  | condition :: rest => by
    have hfragment (fragment : Option φ) : (fragment.map f).toList = fragment.toList.map f := by
      cases fragment <;> rfl
    rw [Compiler.compileAll, Compiler.compileAll, compileAt h scope condition,
      compileAll h scope rest]
    simp only [map_eq_pure_bind, bind_assoc, pure_bind, List.map_append, hfragment]

end

theorem stateless {leaf : Comparison → Scope → Except Error (Option φ)}
    {leaf' : Comparison → Scope → Except Error (Option ψ)} {join : Connective → List φ → φ}
    {join' : Connective → List ψ → ψ}
    (hleaf : ∀ comparison scope,
      leaf' comparison scope = (leaf comparison scope).map (Option.map f))
    (hjoin : ∀ k fragments, join' k (fragments.map f) = f (join k fragments)) :
    Image f (.stateless leaf join) (.stateless leaf' join') where
  leaf comparison scope := by
    simp only [Compiler.stateless, hleaf]
    cases leaf comparison scope <;> rfl
  join k fragments _ _ := by simp only [Compiler.stateless, hjoin]

theorem compilePure {c : Compiler PUnit φ} {d : Compiler PUnit ψ} (h : Image f c d)
    (condition : Condition) :
    d.compilePure condition = (c.compilePure condition).map (Option.map f) := by
  have hrun : (d.compile condition).run ⟨⟩ =
      EStateM.map (Option.map f) (c.compile condition) ⟨⟩ := by
    rw [compile, compile, h.compileAt]
    rfl
  rw [Compiler.compilePure, Compiler.compilePure, hrun, EStateM.map, EStateM.run]
  cases c.compile condition ⟨⟩ <;> rfl

end Image

end Image

end Compiler

end StoreQuery
