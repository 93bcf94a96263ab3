import StoreQuery.Condition.Compiler

/-!
# Steps that leave a part of the state alone

A step that neither reads nor writes a part of its state commutes with every change of that part:
it does not matter whether the state is changed before the step or after it. This goes through
computations step by step (`Commutes.bind`), and a compiler has it if its leaves and its joins have
it (`Blind.compileAt`).
-/

namespace StoreQuery.Compiler

variable {σ φ α β : Type} {g : σ → σ}

/-- Changes the state that a computation ends in. -/
def onState (g : σ → σ) : EStateM.Result Error σ α → EStateM.Result Error σ α
  | .ok a s => .ok a (g s)
  | .error e s => .error e (g s)

/-- The change may come before the computation or after it. -/
def Commutes (g : σ → σ) (x : EStateM Error σ α) : Prop := ∀ s, x (g s) = onState g (x s)

namespace Commutes

variable {x : EStateM Error σ α} {f : α → EStateM Error σ β}

theorem pure (a : α) : Commutes g (Pure.pure a) := fun _ => rfl

theorem throw (e : Error) : Commutes g (throw e : EStateM Error σ α) := fun _ => rfl

theorem bind (h : Commutes g x) (hf : ∀ a, Commutes g (f a)) : Commutes g (x >>= f) := by
  intro s
  show EStateM.bind x f (g s) = onState g (EStateM.bind x f s)
  rw [EStateM.bind, EStateM.bind, h s]
  cases x s with
  | ok a t => exact hf a t
  | error e t => rfl

/-- A step that is a function of the state. -/
theorem modifyGet {k : σ → α × σ} (h : ∀ s, k (g s) = ((k s).1, g (k s).2)) :
    Commutes g (modifyGet k) := by
  intro s
  show EStateM.Result.ok (k (g s)).1 (k (g s)).2 = .ok (k s).1 (g (k s).2)
  rw [h s]

/-- What comes next may look at the state. -/
theorem get_bind {k : σ → EStateM Error σ α} (h : ∀ s, k (g s) (g s) = onState g (k s s)) :
    Commutes g (get >>= k) := h

/-- What comes next may look at what is not changed. -/
theorem get_bind_same {k : σ → EStateM Error σ α} (hsame : ∀ s, k (g s) = k s)
    (h : ∀ s, Commutes g (k s)) : Commutes g (get >>= k) :=
  .get_bind fun s => by rw [hsame s, h s s]

end Commutes

/-! ## Compilers -/

/-- The leaves and the joins of a compiler commute with a change of the state. -/
structure Blind (c : Compiler σ φ) (g : σ → σ) : Prop where
  leaf : ∀ comparison scope, Commutes g (c.leaf comparison scope)
  join : ∀ k fragments scope s, c.join k fragments scope (g s) =
    ((c.join k fragments scope s).1, g (c.join k fragments scope s).2)

namespace Blind

variable {c : Compiler σ φ}

theorem close (h : Blind c g) (k : Connective) (scope : Scope) (fragments : List φ) :
    Commutes g (c.close k scope fragments) := by
  match fragments with
  | [] => exact .pure none
  | [only] => exact .pure (some only)
  | first :: second :: rest =>
    refine .modifyGet fun s => ?_
    rw [h.join k (first :: second :: rest) scope s]
    rfl

mutual

/-- **What holds of leaves and joins holds of the whole compilation.** -/
theorem compileAt (h : Blind c g) (scope : Scope) :
    ∀ condition : Condition, Commutes g (c.compileAt scope condition)
  | .leaf comparison => h.leaf comparison scope
  | .group _ [] => .pure none
  | .group k [only] => compileAt h (scope.single k) only
  | .group k (first :: second :: rest) =>
    (compileAll h (scope.enter k) (first :: second :: rest)).bind fun fragments =>
      h.close k scope fragments

theorem compileAll (h : Blind c g) (scope : Scope) :
    ∀ members : List Condition, Commutes g (c.compileAll scope members)
  | [] => .pure []
  | condition :: rest =>
    (compileAt h scope condition).bind fun fragment =>
      (compileAll h scope rest).bind fun fragments => .pure (fragment.toList ++ fragments)

end

end Blind

end StoreQuery.Compiler
