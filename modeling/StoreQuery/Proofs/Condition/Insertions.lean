import StoreQuery.Condition.Search
import StoreQuery.Proofs.Condition.Links

/-!
# What steps insert

A step is put together from single ones that enter a bracket or add a leaf, and it ends where one of
them fails. `Inserts step b log` says which leaves it adds to the builder `b` on its way, one after
the other: those of the single steps that succeed, and none for one that fails.

**The insertions account for all that a step does to leaves** (`Inserts.accounted`), whether it
succeeds or fails half-way: every bracket has got, behind the leaves that it held, those that were
put into it, in their order, and the brackets are still linked. This needs to be looked at for the
single steps only, since insertions one after the other account for both changes
(`Accounted.trans`).
-/

namespace StoreQuery.Builder

/-- A leaf that was put into a bracket. -/
structure Insertion where
  place : Nat
  comparison : Comparison

/-- The comparisons that were put into one bracket, in the order in which they were. -/
def insertedIn (index : Nat) (log : List Insertion) : List Comparison :=
  (log.filter fun insertion => insertion.place = index).map (·.comparison)

/-- The builder that a step leaves behind, whether it succeeds or fails. -/
def left {α : Type} (step : Step α) (b : Builder) : Builder :=
  match step b with
  | .ok _ b' => b'
  | .error _ b' => b'

/-- A step that is run on a builder adds these leaves, one after the other. -/
inductive Inserts : {α : Type} → Step α → Builder → List Insertion → Prop
  | pure {α : Type} (a : α) (b : Builder) : Inserts (Pure.pure a) b []
  | fails {α : Type} (e : Error) (b : Builder) : Inserts (throw e : Step α) b []
  | enter (kind : Connective) (place : Nat) (b : Builder) : Inserts (Builder.enter kind place) b []
  | added {place : Nat} {path : Path} {op : Operator} {value : Operand} {b b' : Builder}
    (run : addField place path op value b = .ok () b') :
    Inserts (addField place path op value) b [⟨place, path, op, value⟩]
  | refused {place : Nat} {path : Path} {op : Operator} {value : Operand} {b b' : Builder}
    {e : Error} (run : addField place path op value b = .error e b') :
    Inserts (addField place path op value) b []
  | bind {α β : Type} {x : Step α} {f : α → Step β} {a : α} {b b' : Builder}
    {log log' : List Insertion} (h : Inserts x b log) (run : x b = .ok a b')
    (h' : Inserts (f a) b' log') : Inserts (x >>= f) b (log ++ log')
  | stops {α β : Type} {x : Step α} {f : α → Step β} {b b' : Builder} {e : Error}
    {log : List Insertion} (h : Inserts x b log) (run : x b = .error e b') :
    Inserts (x >>= f) b log

variable {α β : Type} {b b' b'' : Builder} {place : Nat} {node : Node} {k : Connective}
  {log log' : List Insertion}

/-! ## Steps with known insertions -/

/-- On every builder the step is made of single ones, so its insertions are known. -/
def Traced (step : Step α) : Prop := ∀ b, ∃ log, Inserts step b log

namespace Traced

theorem pure (a : α) : Traced (Pure.pure a) := fun b => ⟨[], .pure a b⟩

theorem fails (e : Error) : Traced (throw e : Step α) := fun b => ⟨[], .fails e b⟩

theorem enter (kind : Connective) (place : Nat) : Traced (Builder.enter kind place) :=
  fun b => ⟨[], .enter kind place b⟩

theorem addField (place : Nat) (path : Path) (op : Operator) (value : Operand) :
    Traced (Builder.addField place path op value) := by
  intro b
  cases run : Builder.addField place path op value b with
  | ok _ b' => exact ⟨_, .added run⟩
  | error e b' => exact ⟨_, .refused run⟩

theorem bind {x : Step α} {f : α → Step β} (h : Traced x) (hf : ∀ a, Traced (f a)) :
    Traced (x >>= f) := by
  intro b
  obtain ⟨log, hlog⟩ := h b
  cases run : x b with
  | ok a b' =>
    obtain ⟨log', hlog'⟩ := hf a b'
    exact ⟨log ++ log', .bind hlog run hlog'⟩
  | error e b' => exact ⟨log, .stops hlog run⟩

theorem seq {x y : Step Unit} (h : Traced x) (h' : Traced y) : Traced (do x; y) :=
  h.bind fun _ => h'

end Traced

theorem left_bind_ok {x : Step α} {f : α → Step β} {a : α} (run : x b = .ok a b') :
    left (x >>= f) b = left (f a) b' := by
  simp only [left, bind, EStateM.bind, run]

theorem left_bind_error {x : Step α} {f : α → Step β} {e : Error} (run : x b = .error e b') :
    left (x >>= f) b = b' := by
  simp only [left, bind, EStateM.bind, run]

/-! ## What insertions account for -/

/-- The insertions are all that has become of the leaves, and the brackets are linked as before. -/
structure Accounted (log : List Insertion) (b b' : Builder) : Prop where
  linked : b.Linked → b'.Linked
  extended : b.Extends b'
  leavesIn : ∀ index, b'.leavesIn index = b.leavesIn index ++ insertedIn index log
  leaves : b'.leaves.Perm (b.leaves ++ log.map (·.comparison))

namespace Accounted

theorem refl (b : Builder) : Accounted [] b b where
  linked h := h
  extended := .refl b
  leavesIn index := (List.append_nil _).symm
  leaves := by rw [List.map_nil, List.append_nil]

theorem trans (h : Accounted log b b') (h' : Accounted log' b' b'') :
    Accounted (log ++ log') b b'' where
  linked hb := h'.linked (h.linked hb)
  extended := h.extended.trans h'.extended
  leavesIn index := by
    rw [h'.leavesIn, h.leavesIn, insertedIn, insertedIn, insertedIn, List.filter_append,
      List.map_append, List.append_assoc]
  leaves := by
    rw [List.map_append, ← List.append_assoc]
    exact h'.leaves.trans (h.leaves.append_right _)

theorem openIn (hn : b.node? place = some node) (hk : node.kind ≠ k) :
    Accounted [] b (b.openIn place k) where
  linked hb := linked_openIn hb hn hk
  extended := extends_openIn b place k
  leavesIn index := by
    have happend := leavesIn_append hn (.bracket b.nodes.length) index
    rw [Member.comparison?, Option.toList_none, ite_self] at happend
    rw [insertedIn, List.filter_nil, List.map_nil, ← happend, Builder.leavesIn, node?_openIn]
    split_ifs with hnew
    · rw [hnew, Builder.leavesIn, node?,
        List.getElem?_eq_none (Nat.le_of_eq (length_append b place _))]
      rfl
    · rfl
  leaves := by
    have hsame : (b.openIn place k).leaves =
        (b.append place (.bracket b.nodes.length)).nodes.flatMap Node.leaves := by
      simp [Builder.leaves, Builder.openIn, Node.leaves]
    rw [hsame]
    exact flatMap_append_perm (leaves_add · (.bracket b.nodes.length)) (lt_of_node? hn)

theorem append (hn : b.node? place = some node) (c : Comparison) :
    Accounted [⟨place, c⟩] b (b.append place (.leaf c)) where
  linked hb := linked_append hb hn c
  extended := extends_append b place (.leaf c)
  leavesIn index := by
    rw [leavesIn_append hn, insertedIn]
    by_cases hplace : place = index <;> simp [hplace, Member.comparison?]
  leaves := flatMap_append_perm (leaves_add · (.leaf c)) (lt_of_node? hn)

end Accounted

/-- A leaf that is refused changes nothing. -/
theorem eq_of_addField_error {path : Path} {op : Operator} {value : Operand} {e : Error}
    (run : addField place path op value b = .error e b') : b' = b := by
  rw [addField] at run
  split at run
  · cases run
    rfl
  · split at run
    · cases run
      rfl
    · cases run

/-- A leaf that is added has a value that its operator accepts, and a bracket to stand in. -/
theorem addField_eq_ok {path : Path} {op : Operator} {value : Operand}
    (run : addField place path op value b = .ok () b') :
    op.validate value = .ok () ∧ ∃ node, b.node? place = some node ∧
      b' = b.append place (.leaf ⟨path, op, value⟩) := by
  rw [addField, Comparison.make] at run
  cases hvalid : op.validate value with
  | error fault =>
    simp only [hvalid] at run
    cases run
  | ok _ =>
    simp only [hvalid] at run
    cases hnode : b.node? place with
    | none =>
      simp only [hnode] at run
      cases run
    | some node =>
      simp only [hnode] at run
      cases run
      exact ⟨rfl, node, rfl, rfl⟩

/-- A bracket that cannot be entered changes nothing. -/
theorem eq_of_enter_error {kind : Connective} {e : Error}
    (run : enter kind place b = .error e b') : b' = b := by
  rw [enter] at run
  split at run
  · cases run
    rfl
  · split at run <;> cases run

/-- Entering a bracket inserts nothing. -/
theorem accounted_enter (kind : Connective) (place : Nat) (b : Builder) :
    Accounted [] b (left (enter kind place) b) := by
  rw [left, enter]
  cases hnode : b.node? place with
  | none => exact .refl b
  | some node =>
    by_cases hkind : node.kind = kind
    · simp only [if_pos hkind]
      exact .refl b
    · simp only [if_neg hkind]
      exact .openIn hnode hkind

/-- **The insertions account for all that a step does**, also where it fails half-way. -/
theorem Inserts.accounted {step : Step α} (h : Inserts step b log) :
    Accounted log b (left step b) := by
  induction h with
  | pure a b => exact .refl b
  | fails e b => exact .refl b
  | enter kind place b => exact accounted_enter kind place b
  | added run =>
    obtain ⟨-, node, hnode, rfl⟩ := addField_eq_ok run
    rw [left, run]
    exact .append hnode _
  | refused run =>
    obtain rfl := eq_of_addField_error run
    rw [left, run]
    exact .refl _
  | bind _ run _ ih ih' =>
    rw [left, run] at ih
    rw [left_bind_ok run]
    exact ih.trans ih'
  | stops _ run ih =>
    rw [left, run] at ih
    rw [left_bind_error run]
    exact ih

end StoreQuery.Builder
