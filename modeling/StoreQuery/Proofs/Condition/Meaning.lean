import StoreQuery.Memory.Predicate
import StoreQuery.Proofs.Condition.Compiling

/-!
# What a condition says

A condition says something where it has leaves. Given which comparisons hold, a leaf says whether
its comparison does, and a bracket joins what its members say; a bracket in which nothing is said
says nothing, and is left out of the bracket around it. A document is accepted unless the
condition says false.

**The test of a condition is its meaning** (`predicate_ok`): a condition whose leaves all carry
values that their operators accept compiles, and the test accepts exactly what the condition
accepts.
-/

namespace StoreQuery

namespace Connective

/-- The truth value of two statements together. -/
def apply : Connective → Bool → Bool → Bool
  | .and => (· && ·)
  | .or => (· || ·)

/-- The truth value that changes nothing. -/
def neutral : Connective → Bool
  | .and => true
  | .or => false

/-- Joins two statements, either of which may be missing. -/
def merge (k : Connective) : Option Bool → Option Bool → Option Bool := Option.merge k.apply

/-- Joins any number of statements. -/
def mergeAll (k : Connective) (statements : List (Option Bool)) : Option Bool :=
  statements.foldr k.merge none

@[simp] theorem merge_none_left (k : Connective) (a : Option Bool) : k.merge none a = a :=
  Option.merge_none_left

@[simp] theorem merge_none_right (k : Connective) (a : Option Bool) : k.merge a none = a :=
  Option.merge_none_right

theorem merge_comm (k : Connective) (a b : Option Bool) : k.merge a b = k.merge b a := by
  cases k <;> cases a <;> cases b <;> simp [merge, apply, Bool.and_comm, Bool.or_comm]

theorem merge_assoc (k : Connective) (a b c : Option Bool) :
    k.merge (k.merge a b) c = k.merge a (k.merge b c) := by
  cases k <;> cases a <;> cases b <;> cases c <;>
    simp [merge, apply, Bool.and_assoc, Bool.or_assoc]

@[simp] theorem mergeAll_nil (k : Connective) : k.mergeAll [] = none := rfl

@[simp] theorem mergeAll_cons (k : Connective) (a : Option Bool) (rest : List (Option Bool)) :
    k.mergeAll (a :: rest) = k.merge a (k.mergeAll rest) := rfl

@[simp] theorem mergeAll_append (k : Connective) (xs ys : List (Option Bool)) :
    k.mergeAll (xs ++ ys) = k.merge (k.mergeAll xs) (k.mergeAll ys) := by
  induction xs with
  | nil => simp
  | cons a xs ih => simp [ih, merge_assoc]

theorem mergeAll_none {k : Connective} {statements : List (Option Bool)}
    (h : ∀ s ∈ statements, s = none) : k.mergeAll statements = none := by
  induction statements with
  | nil => rfl
  | cons s statements ih =>
    rw [mergeAll_cons, h s List.mem_cons_self, ih fun s hs => h s (List.mem_cons_of_mem _ hs),
      merge_none_left]

/-- Statements that are all missing or neutral change nothing. -/
theorem mergeAll_neutral {k : Connective} {statements : List (Option Bool)}
    (h : ∀ s ∈ statements, s = none ∨ s = some k.neutral) (b : Bool) :
    k.merge (some b) (k.mergeAll statements) = some b := by
  induction statements with
  | nil => rw [mergeAll_nil, merge_none_right]
  | cons s statements ih =>
    have ih := ih fun s hs => h s (List.mem_cons_of_mem _ hs)
    rcases h s List.mem_cons_self with rfl | rfl
    · rw [mergeAll_cons, merge_none_left, ih]
    · rw [mergeAll_cons, ← merge_assoc,
        show k.merge (some b) (some k.neutral) = some b by
          cases k <;> cases b <;> rfl, ih]

/-- Among statements that are all missing or neutral, one other statement decides. -/
theorem mergeAll_decided {k : Connective} {before after : List (Option Bool)} {b : Bool}
    (hbefore : ∀ s ∈ before, s = none ∨ s = some k.neutral)
    (hafter : ∀ s ∈ after, s = none ∨ s = some k.neutral) :
    k.mergeAll (before ++ some b :: after) = some b := by
  rw [mergeAll_append, mergeAll_cons, mergeAll_neutral hafter, merge_comm,
    mergeAll_neutral hbefore]

/-- A bracket that holds the absorbing statement says it. -/
theorem mergeAll_absorbed {k : Connective} {statements : List (Option Bool)}
    (h : some (!k.neutral) ∈ statements) : k.mergeAll statements = some (!k.neutral) := by
  obtain ⟨before, after, rfl⟩ := List.append_of_mem h
  rw [mergeAll_append, mergeAll_cons]
  cases k <;> cases mergeAll _ before <;> cases mergeAll _ after <;>
    simp [merge, apply, neutral]

/-- Brackets of different kinds that both hold both truth values say different things. -/
theorem mergeAll_ne {k k' : Connective} (h : k ≠ k') {xs ys : List (Option Bool)}
    (hx : ∀ b, some b ∈ xs) (hy : ∀ b, some b ∈ ys) : k.mergeAll xs ≠ k'.mergeAll ys := by
  rw [mergeAll_absorbed (hx _), mergeAll_absorbed (hy _)]
  cases k <;> cases k' <;> simp_all [neutral]

/-- Where at most one statement is there, the connective does not matter. -/
theorem mergeAll_sparse {statements : List (Option Bool)}
    (h : statements.Pairwise fun a b => a = none ∨ b = none) (k k' : Connective) :
    k.mergeAll statements = k'.mergeAll statements := by
  induction statements with
  | nil => rfl
  | cons s statements ih =>
    obtain ⟨hs, h⟩ := List.pairwise_cons.1 h
    rw [mergeAll_cons, mergeAll_cons, ← ih h]
    cases s with
    | none => rw [merge_none_left, merge_none_left]
    | some b =>
      have hnone : ∀ s ∈ statements, s = none := fun s hs' => (hs s hs').resolve_left nofun
      rw [mergeAll_none hnone, merge_none_right, merge_none_right]

end Connective

namespace Condition

/-! ## Meaning -/

mutual

/-- What a condition says, given which comparisons hold. -/
def meaning (holds : Comparison → Bool) : Condition → Option Bool
  | .leaf c => some (holds c)
  | .group k members => meaningOf holds k members

/-- What the members of a bracket say together. -/
def meaningOf (holds : Comparison → Bool) (k : Connective) : List Condition → Option Bool
  | [] => none
  | condition :: rest => k.merge (meaning holds condition) (meaningOf holds k rest)

end

/-- Whether a condition does not say false. -/
def accepts (holds : Comparison → Bool) (condition : Condition) : Bool :=
  (condition.meaning holds).getD true

variable {holds : Comparison → Bool}

theorem meaningOf_eq (holds : Comparison → Bool) (k : Connective) (members : List Condition) :
    meaningOf holds k members = k.mergeAll (members.map (meaning holds)) := by
  induction members with
  | nil => rfl
  | cons condition rest ih => rw [meaningOf, ih]; rfl

@[simp] theorem meaning_leaf (holds : Comparison → Bool) (c : Comparison) :
    (Condition.leaf c).meaning holds = some (holds c) := rfl

@[simp] theorem meaning_group (holds : Comparison → Bool) (k : Connective)
    (members : List Condition) :
    (Condition.group k members).meaning holds = k.mergeAll (members.map (meaning holds)) :=
  meaningOf_eq holds k members

theorem leavesOf_eq (members : List Condition) : leavesOf members = members.flatMap leaves := by
  induction members with
  | nil => rfl
  | cons condition rest ih => rw [leavesOf, ih, List.flatMap_cons]

@[simp] theorem leavesOf_append (members others : List Condition) :
    leavesOf (members ++ others) = leavesOf members ++ leavesOf others := by
  simp [leavesOf_eq]

@[simp] theorem leavesOf_singleton (condition : Condition) :
    leavesOf [condition] = condition.leaves := by
  simp [leavesOf_eq]

@[simp] theorem leaves_leaf (c : Comparison) : (Condition.leaf c).leaves = [c] := rfl

@[simp] theorem leaves_group (k : Connective) (members : List Condition) :
    (Condition.group k members).leaves = members.flatMap leaves := leavesOf_eq members

/-! ## What the meaning depends on -/

mutual

/-- The meaning depends on what holds of the leaves only. -/
theorem meaning_congr {holds holds' : Comparison → Bool} : ∀ {condition : Condition},
    (∀ c ∈ condition.leaves, holds c = holds' c) →
      condition.meaning holds = condition.meaning holds'
  | .leaf c, h => by rw [meaning_leaf, meaning_leaf, h c (by simp)]
  | .group k members, h => meaningOf_congr h

theorem meaningOf_congr {holds holds' : Comparison → Bool} {k : Connective} :
    ∀ {members : List Condition}, (∀ c ∈ leavesOf members, holds c = holds' c) →
      meaningOf holds k members = meaningOf holds' k members
  | [], _ => rfl
  | condition :: rest, h => by
    rw [meaningOf, meaningOf, meaning_congr fun c hc => h c (List.mem_append_left _ hc),
      meaningOf_congr fun c hc => h c (List.mem_append_right _ hc)]

end

mutual

/-- Leaves that all hold, or all fail, make the condition true or false. -/
theorem meaning_uniform {b : Bool} : ∀ {condition : Condition},
    (∀ c ∈ condition.leaves, holds c = b) →
      condition.meaning holds = if condition.leaves = [] then none else some b
  | .leaf c, h => by rw [meaning_leaf, h c (by simp)]; rfl
  | .group k members, h => meaningOf_uniform h

theorem meaningOf_uniform {b : Bool} {k : Connective} : ∀ {members : List Condition},
    (∀ c ∈ leavesOf members, holds c = b) →
      meaningOf holds k members = if leavesOf members = [] then none else some b
  | [], _ => rfl
  | condition :: rest, h => by
    rw [meaningOf, meaning_uniform fun c hc => h c (List.mem_append_left _ hc),
      meaningOf_uniform fun c hc => h c (List.mem_append_right _ hc), leavesOf]
    by_cases hc : condition.leaves = [] <;> by_cases hr : leavesOf rest = [] <;>
      cases k <;> cases b <;> simp [hc, hr, Connective.merge, Connective.apply]

end

mutual

/-- A condition says something exactly when it has leaves. -/
theorem meaning_eq_none_iff : ∀ {condition : Condition},
    condition.meaning holds = none ↔ condition.leaves = []
  | .leaf c => by simp
  | .group k members => meaningOf_eq_none_iff

theorem meaningOf_eq_none_iff {k : Connective} : ∀ {members : List Condition},
    meaningOf holds k members = none ↔ leavesOf members = []
  | [] => by simp [meaningOf, leavesOf]
  | condition :: rest => by
    rw [meaningOf, leavesOf, Connective.merge, Option.merge_eq_none_iff, List.append_eq_nil_iff,
      meaning_eq_none_iff, meaningOf_eq_none_iff]

end

end Condition

namespace Memory

/-! ## Tests -/

theorem leafPredicate_ok {c : Comparison} (h : c.validate = .ok ()) (scope : Scope) :
    leafPredicate c scope = .ok (some c.holds) := by
  rw [leafPredicate, h]; rfl

/-- Joining the tests of a bracket joins what they say. -/
theorem close_ok (k : Connective) (scope : Scope) (tests : List Predicate) :
    ∃ test, compiler.close k scope tests ⟨⟩ = .ok test ⟨⟩ ∧
      ∀ document, test.map (fun t => t document) =
        k.mergeAll (tests.map fun t => some (t document)) := by
  match tests with
  | [] => exact ⟨none, rfl, fun _ => rfl⟩
  | [test] => exact ⟨some test, rfl, fun _ => by simp⟩
  | first :: second :: rest =>
    refine ⟨some (joinPredicates k (first :: second :: rest)), rfl, fun document => ?_⟩
    have h : ∀ (first : Predicate) (tests : List Predicate),
        some (joinPredicates k (first :: tests) document) =
          k.mergeAll ((first :: tests).map fun t => some (t document)) := by
      intro first tests
      induction tests generalizing first with
      | nil => cases k <;> simp [joinPredicates]
      | cons test tests ih =>
        rw [List.map_cons, Connective.mergeAll_cons, ← ih test]
        cases k <;> rfl
    exact h first (second :: rest)

mutual

theorem compileAt_ok (scope : Scope) : ∀ condition : Condition,
    (∀ c ∈ condition.leaves, c.validate = .ok ()) →
    ∃ test, compiler.compileAt scope condition ⟨⟩ = .ok test ⟨⟩ ∧
      ∀ document, test.map (fun t => t document) =
        condition.meaning fun c => c.holds document
  | .leaf c, h => by
    have hc := leafPredicate_ok (h c (by simp)) scope
    exact ⟨some c.holds, Compiler.leaf_stateless_eq_ok.2 hc, fun _ => rfl⟩
  | .group k [], _ => ⟨none, rfl, fun _ => rfl⟩
  | .group k [only], h => by
    obtain ⟨test, run, means⟩ :=
      compileAt_ok (scope.single k) only fun c hc => h c (by simpa using hc)
    exact ⟨test, run, fun document => by simpa using means document⟩
  | .group k (first :: second :: rest), h => by
    obtain ⟨tests, run, means⟩ := compileAll_ok (scope.enter k) k (first :: second :: rest)
      fun c hc => h c (by simpa using hc)
    obtain ⟨test, close, joined⟩ := close_ok k scope tests
    refine ⟨test, ?_, fun document => (joined document).trans (means document)⟩
    rw [Compiler.compileAt]
    simp only [bind, EStateM.bind, run, close]

theorem compileAll_ok (scope : Scope) (k : Connective) : ∀ members : List Condition,
    (∀ c ∈ members.flatMap Condition.leaves, c.validate = .ok ()) →
    ∃ tests, compiler.compileAll scope members ⟨⟩ = .ok tests ⟨⟩ ∧
      ∀ document, k.mergeAll (tests.map fun t => some (t document)) =
        Condition.meaningOf (fun c => c.holds document) k members
  | [], _ => ⟨[], rfl, fun _ => rfl⟩
  | condition :: rest, h => by
    obtain ⟨test, run, means⟩ := compileAt_ok scope condition fun c hc => h c (by simp [hc])
    obtain ⟨tests, runs, meansAll⟩ := compileAll_ok scope k rest fun c hc =>
      h c (List.mem_flatMap.2 (by
        obtain ⟨m, hm, hc⟩ := List.mem_flatMap.1 hc
        exact ⟨m, List.mem_cons_of_mem _ hm, hc⟩))
    refine ⟨test.toList ++ tests, ?_, fun document => ?_⟩
    · rw [Compiler.compileAll]
      simp only [bind, EStateM.bind, run, runs]
      rfl
    · rw [Condition.meaningOf, ← meansAll document, ← means document]
      cases test <;> simp

end

/-- **The test of a condition is its meaning.** -/
theorem predicate_ok {condition : Condition}
    (h : ∀ c ∈ condition.leaves, c.validate = .ok ()) :
    ∃ test, predicate condition = .ok test ∧
      ∀ document, test document = condition.accepts fun c => c.holds document := by
  obtain ⟨test, run, means⟩ := compileAt_ok .root condition h
  refine ⟨test.getD fun _ => true, ?_, fun document => ?_⟩
  · rw [predicate, Compiler.compilePure_eq_ok.2 run]
    rfl
  · rw [Condition.accepts, ← means document]
    cases test <;> rfl

/-- Only comparisons whose operators accept their values compile. -/
theorem validate_law : Compiler.Law compiler fun leaves _ _ _ =>
    ∀ l ∈ leaves, l.1.validate = .ok () where
  nil _ := nofun
  append h h' := List.forall_mem_append.2 ⟨h, h'⟩
  leaf run := by
    obtain ⟨_, hvalid, -⟩ := map_eq_ok.1 (Compiler.leaf_stateless_eq_ok.1 run)
    exact List.forall_mem_singleton.2 hvalid
  join _ _ h _ := h

/-- Only a condition whose leaves are accepted has a test. -/
theorem validate_of_predicate {condition : Condition} {test : Predicate}
    (h : predicate condition = .ok test) : ∀ c ∈ condition.leaves, c.validate = .ok () := by
  obtain ⟨fragment, hfragment, -⟩ := map_eq_ok.1 h
  have hvalid := validate_law.compileAt [] condition (Compiler.compilePure_eq_ok.1 hfragment)
  intro c hc
  rw [← Condition.map_placed []] at hc
  obtain ⟨l, hl, rfl⟩ := List.mem_map.1 hc
  exact hvalid l hl

/-- A condition has a test exactly when its operators accept the values of its leaves. -/
theorem predicate_isOk_iff {condition : Condition} :
    (∃ test, predicate condition = .ok test) ↔
      ∀ c ∈ condition.leaves, c.validate = .ok () := by
  constructor
  · rintro ⟨test, h⟩
    exact validate_of_predicate h
  · intro h
    obtain ⟨test, htest, -⟩ := predicate_ok h
    exact ⟨test, htest⟩

/-- What the test of a condition says, wherever there is one. -/
theorem predicate_eq {condition : Condition} {test : Predicate}
    (h : predicate condition = .ok test) (document : Json) :
    test document = condition.accepts fun c => c.holds document := by
  obtain ⟨test', htest', means⟩ := predicate_ok (validate_of_predicate h)
  obtain rfl := Except.ok.inj (h.symm.trans htest')
  exact means document

end Memory

end StoreQuery
