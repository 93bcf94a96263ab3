import Mathlib.Data.List.Forall2
import StoreQuery.Proofs.Condition.Meaning
import StoreQuery.Proofs.Success
import StoreQuery.Request.Restrict

/-!
# Forced conditions

A condition that comes from outside may be any tree: an OR, a single comparison, a bracket that
holds nothing but empty brackets. What is forced on it has to narrow it all the same.

**One condition** (`accepts_force`). A forced condition is appended to an AND and put beside
anything else, and brackets that say nothing drop out; either way the whole accepts a document
exactly when both parts do.

**Any number of them** (`predicate_forced`). After any sequence of forced conditions and forced
values, in any order, the request has a test, and it accepts the documents that pass the first
test and the test of everything forced.
-/

namespace StoreQuery

/-! ## One forced condition -/

namespace Connective

theorem getD_merge_and (a b : Option Bool) :
    (Connective.and.merge a b).getD true = (a.getD true && b.getD true) := by
  cases a with
  | none => simp
  | some a =>
    cases b with
    | none => simp
    | some b => rfl

end Connective

namespace Condition

variable {holds : Comparison → Bool}

theorem accepts_and (members : List Condition) :
    (Condition.group .and members).accepts holds = members.all (accepts holds) := by
  rw [accepts, meaning_group]
  induction members with
  | nil => rfl
  | cons condition members ih =>
    rw [List.map_cons, Connective.mergeAll_cons, Connective.getD_merge_and, ih, List.all_cons]
    rfl

theorem accepts_of_leaves_eq_nil {condition : Condition} (h : condition.leaves = []) :
    condition.accepts holds = true := by
  rw [accepts, meaning_eq_none_iff.2 h]
  rfl

end Condition

namespace Request

variable {holds : Comparison → Bool}

/-- Where the forced condition goes: last into an AND, and otherwise in front. -/
theorem force_cases (condition forced : Condition) :
    (∃ members, condition = .group .and members ∧
        force condition forced = .group .and (members ++ [forced])) ∨
      force condition forced = .group .and [forced, condition] := by
  cases condition with
  | leaf c => exact .inr rfl
  | group k members =>
    cases k with
    | and => exact .inl ⟨members, rfl, rfl⟩
    | or => exact .inr rfl

/-- **A forced condition narrows the condition it is forced on**, whatever that is. -/
theorem accepts_force (condition forced : Condition) :
    (force condition forced).accepts holds =
      (condition.accepts holds && forced.accepts holds) := by
  rcases force_cases condition forced with ⟨members, rfl, h⟩ | h
  · rw [h, Condition.accepts_and, Condition.accepts_and, List.all_append, List.all_cons,
      List.all_nil, Bool.and_true]
  · -- The old condition is a member like any other, so its brackets keep to themselves.
    rw [h, Condition.accepts_and, List.all_cons, List.all_cons, List.all_nil, Bool.and_true,
      Bool.and_comm]

theorem mem_leaves_force {c : Comparison} {condition forced : Condition} :
    c ∈ (force condition forced).leaves ↔ c ∈ condition.leaves ∨ c ∈ forced.leaves := by
  rcases force_cases condition forced with ⟨members, rfl, h⟩ | h
  · simp [h, List.flatMap_append]
  · simp [h, or_comm]

end Request

namespace Memory

open Request

theorem predicate_force {condition forced : Condition} {test t : Predicate}
    (h : predicate condition = .ok test) (hforced : predicate forced = .ok t) :
    ∃ test', predicate (force condition forced) = .ok test' ∧
      ∀ document, test' document = (test document && t document) := by
  have hvalid : ∀ c ∈ (force condition forced).leaves, c.validate = .ok () := by
    intro c hc
    rcases mem_leaves_force.1 hc with hc | hc
    · exact predicate_isOk_iff.1 ⟨test, h⟩ c hc
    · exact predicate_isOk_iff.1 ⟨t, hforced⟩ c hc
  obtain ⟨test', htest', means⟩ := predicate_ok hvalid
  refine ⟨test', htest', fun document => ?_⟩
  rw [means, accepts_force, predicate_eq h, predicate_eq hforced]

end Memory

/-! ## Sequences of forced conditions -/

/-- Something forced on a request: a condition, or a value that a property has to equal. -/
inductive Forcing where
  | tree (condition : Condition)
  | equal (path : Path) (value : Scalar)

namespace Forcing

/-- Forces it on a request. -/
def apply (r : Request) : Forcing → Except Error Request
  | .tree condition => .ok (r.requireCondition condition)
  | .equal path value => r.requireEqual path value

/-- What it demands, as a condition. -/
def demand : Forcing → Condition
  | .tree condition => condition
  | .equal path value => .leaf ⟨path, .eq, .one value⟩

theorem apply_eq (r : Request) (forcing : Forcing) :
    forcing.apply r = .ok (r.requireCondition forcing.demand) := by
  cases forcing with
  | tree condition => rfl
  | equal path value => rfl

end Forcing

namespace Memory

theorem predicate_demand (forcing : Forcing)
    (h : ∀ condition, forcing = .tree condition → ∃ t, predicate condition = .ok t) :
    ∃ t, predicate forcing.demand = .ok t := by
  cases forcing with
  | tree condition => exact h condition rfl
  | equal path value =>
    refine predicate_isOk_iff.2 fun c hc => ?_
    obtain rfl := List.mem_singleton.1 hc
    rfl

/-- **Forced conditions restrict and never widen.** Take a request whose condition has a test, and
force any sequence of conditions that have tests, and of values, on it. This succeeds and touches
nothing else in the request; the result has a test, and it accepts exactly the documents that pass
the first test and the test of each demand. A condition without leaves demands nothing. -/
theorem predicate_forced {r : Request} {test : Predicate} {forcings : List Forcing}
    (h : predicate r.condition = .ok test)
    (hforcings : ∀ condition, .tree condition ∈ forcings →
      ∃ t, predicate condition = .ok t) :
    ∃ r' test' tests, forcings.foldlM Forcing.apply r = .ok r' ∧
      r' = { r with condition := r'.condition } ∧
      predicate r'.condition = .ok test' ∧
      List.Forall₂ (fun forcing t => predicate forcing.demand = .ok t) forcings tests ∧
      (∀ document, test' document = (test document && tests.all fun t => t document)) ∧
      ∀ condition t, predicate condition = .ok t → condition.leaves = [] →
        ∀ document, t document = true := by
  have free : ∀ condition t, predicate condition = .ok t → condition.leaves = [] →
      ∀ document, t document = true := fun condition t ht hnil document => by
    rw [predicate_eq ht, Condition.accepts_of_leaves_eq_nil hnil]
  induction forcings generalizing r test with
  | nil => exact ⟨r, test, [], rfl, rfl, h, .nil, fun _ => by simp, free⟩
  | cons forcing forcings ih =>
    obtain ⟨t, ht⟩ := predicate_demand forcing fun condition hc =>
      hforcings condition (hc ▸ List.mem_cons_self)
    obtain ⟨middle, hmiddle, step⟩ := predicate_force h ht
    have hforced : predicate (r.requireCondition forcing.demand).condition = .ok middle := hmiddle
    obtain ⟨r', test', tests, run, rest, htest', htests, means, -⟩ :=
      ih hforced fun condition hc => hforcings condition (List.mem_cons_of_mem _ hc)
    refine ⟨r', test', t :: tests, ?_, rest, htest', .cons ht htests, fun document => ?_, free⟩
    · rw [List.foldlM_cons, Forcing.apply_eq]
      exact run
    · rw [means, step, List.all_cons, Bool.and_assoc]

/-- A request for what is open or a draft, with brackets that say nothing. -/
def openOrDraft : Request where
  condition := .group .or
    [.leaf ⟨⟨["status"]⟩, .eq, .one (.text "open")⟩, .group .and [.group .or []],
      .leaf ⟨⟨["draft"]⟩, .eq, .one (.bool true)⟩]

/-- An owner or none, a tenant, and nothing. -/
def tenancy : List Forcing :=
  [.tree (.group .or
      [.leaf ⟨⟨["owner"]⟩, .eq, .one (.text "me")⟩,
        .leaf ⟨⟨["owner"]⟩, .isNull, .one .null⟩]),
    .equal ⟨["tenant", "name"]⟩ (.text "ours"), .tree (.group .and [.group .or []])]

/-- An open document of another tenant does not pass. -/
theorem predicate_forced_tenancy :
    ∃ test, predicate openOrDraft.condition = .ok test ∧
      (∀ condition, .tree condition ∈ tenancy → ∃ t, predicate condition = .ok t) ∧
      ∃ r' test' tests, tenancy.foldlM Forcing.apply openOrDraft = .ok r' ∧
        r' = { openOrDraft with condition := r'.condition } ∧
        predicate r'.condition = .ok test' ∧
        List.Forall₂ (fun forcing t => predicate forcing.demand = .ok t) tenancy tests ∧
        (∀ document, test' document = (test document && tests.all fun t => t document)) ∧
        test' (.obj [("status", .str "open"), ("tenant", .obj [("name", .str "theirs")])]) =
          false := by
  obtain ⟨test, htest⟩ : ∃ test, predicate openOrDraft.condition = .ok test := ⟨_, rfl⟩
  have htests : ∀ condition, .tree condition ∈ tenancy →
      ∃ t, predicate condition = .ok t := by
    intro condition h
    simp only [tenancy, List.mem_cons, List.not_mem_nil, or_false, reduceCtorEq, false_or,
      Forcing.tree.injEq] at h
    rcases h with rfl | rfl
    · exact ⟨_, rfl⟩
    · exact ⟨_, rfl⟩
  obtain ⟨r', test', tests, run, rest, htest', hdemands, means, -⟩ :=
    predicate_forced htest htests
  refine ⟨test, htest, htests, r', test', tests, run, rest, htest', hdemands, means, ?_⟩
  obtain rfl := Except.ok.inj run
  obtain rfl := Except.ok.inj htest'
  rfl

end Memory

end StoreQuery
