import StoreQuery.Proofs.Condition.Truth
import StoreQuery.Proofs.KeyValue.Keys
import StoreQuery.Proofs.KeyValue.Meaning

/-!
# What is left to filter by

Two leaves of a condition may become the key: the first one that fixes the partition key, and the
first one of the others that constrains the sort key. `rest t condition` is the condition without
them, with empty brackets in their places. It has the leaves that stay (`leaves_rest`), and it has
them where they stood.

The expression that a condition compiles to is read as one formula (`Reads`). **It says what is left
of the condition** (`compileAt_reads`): leaves are pieces, the parentheses around a bracket make
it one, and they are left out only around the whole condition, where nothing stands beside it.
-/

namespace StoreQuery

namespace Condition

/-! ## Dropping one leaf -/

mutual

/-- The condition without the first leaf that passes a test, if one is wanted, and whether one is
still wanted behind it. An empty bracket takes the place of the leaf. -/
def dropFirst (test : Comparison × Bool → Bool) (top wanted : Bool) : Condition → Condition × Bool
  | .leaf c => if test (c, top) && wanted then (unconstrained, false) else (.leaf c, wanted)
  | .group k members =>
    let dropped := dropFirstOf test (top && k == .and) wanted members
    (.group k dropped.1, dropped.2)

/-- The same in a list of conditions. -/
def dropFirstOf (test : Comparison × Bool → Bool) (top wanted : Bool) :
    List Condition → List Condition × Bool
  | [] => ([], wanted)
  | condition :: rest =>
    let first := dropFirst test top wanted condition
    let others := dropFirstOf test top first.2 rest
    (first.1 :: others.1, others.2)

end

variable {test : Comparison × Bool → Bool}

mutual

theorem dropFirst_false (top : Bool) :
    ∀ condition, dropFirst test top false condition = (condition, false)
  | .leaf c => by rw [dropFirst, Bool.and_false]; rfl
  | .group k members => by rw [dropFirst, dropFirstOf_false]

theorem dropFirstOf_false (top : Bool) :
    ∀ members, dropFirstOf test top false members = (members, false)
  | [] => rfl
  | condition :: rest => by
    rw [dropFirstOf, dropFirst_false top condition, dropFirstOf_false top rest]

end

mutual

/-- Where one is still wanted nothing was dropped. -/
theorem eq_of_dropFirst (top : Bool) : ∀ condition : Condition,
    (dropFirst test top true condition).2 = true → (dropFirst test top true condition).1 = condition
  | .leaf c, h => by
    rw [dropFirst] at h ⊢
    split at h
    · cases h
    · rename_i hfails
      rw [if_neg hfails]
  | .group k members, h => by
    rw [dropFirst, eq_of_dropFirstOf (top && k == .and) members h]

theorem eq_of_dropFirstOf (top : Bool) : ∀ members : List Condition,
    (dropFirstOf test top true members).2 = true → (dropFirstOf test top true members).1 = members
  | [], _ => rfl
  | condition :: rest, h => by
    rw [dropFirstOf] at h ⊢
    cases hwanted : (dropFirst test top true condition).2 with
    | false =>
      rw [hwanted, dropFirstOf_false] at h
      cases h
    | true =>
      rw [hwanted] at h
      rw [eq_of_dropFirst top condition hwanted, eq_of_dropFirstOf top rest h]

end

mutual

theorem marked_dropFirst (top : Bool) : ∀ condition : Condition,
    (dropFirst test top true condition).1.marked top = (condition.marked top).eraseP test ∧
      (dropFirst test top true condition).2 = !(condition.marked top).any test
  | .leaf c => by
    rw [dropFirst, Bool.and_true, marked]
    cases h : test (c, top) <;> simp [h, marked, unconstrained, markedAll]
  | .group k members => by
    obtain ⟨hmarked, hwanted⟩ := markedAll_dropFirstOf (top && k == .and) members
    exact ⟨hmarked, hwanted⟩

theorem markedAll_dropFirstOf (top : Bool) : ∀ members : List Condition,
    markedAll top (dropFirstOf test top true members).1 = (markedAll top members).eraseP test ∧
      (dropFirstOf test top true members).2 = !(markedAll top members).any test
  | [] => ⟨rfl, rfl⟩
  | condition :: rest => by
    obtain ⟨hmarked, hwanted⟩ := marked_dropFirst top condition
    obtain ⟨hmarked', hwanted'⟩ := markedAll_dropFirstOf top rest
    simp only [dropFirstOf, markedAll, hmarked, hwanted, List.any_append, Bool.not_or]
    cases hany : (condition.marked top).any test with
    | true =>
      obtain ⟨leaf, hleaf, htest⟩ := List.any_eq_true.1 hany
      rw [Bool.not_true, dropFirstOf_false, List.eraseP_append_left htest _ hleaf]
      exact ⟨rfl, rfl⟩
    | false =>
      have hnone : ∀ leaf ∈ condition.marked top, ¬ test leaf = true := fun leaf hleaf =>
        List.any_eq_false.1 hany leaf hleaf
      rw [Bool.not_false, hmarked', hwanted', List.eraseP_append_right _ hnone,
        List.eraseP_of_forall_not hnone]
      exact ⟨rfl, rfl⟩

end

end Condition

namespace KeyValue

open Condition

variable {t : Table} {taking top : Bool}

/-! ## What is left of a condition -/

/-- The condition without the leaves that become the key. -/
def rest (t : Table) (condition : Condition) : Condition :=
  ((condition.dropFirst (fixesPartition t) true true).1.dropFirst (constrainsSort t) true true).1

theorem leaves_rest (t : Table) (condition : Condition) :
    (rest t condition).leaves = otherLeaves t condition := by
  rw [otherLeaves, rest, ← (marked_dropFirst true condition).1, ← (marked_dropFirst true _).1,
    marked_leaves]

/-- What is left of a condition, given whether the partition key and the sort key are still to be
taken, and whether they are still to be taken behind it. -/
def left (t : Table) (top : Bool) (wanted : Bool × Bool) (condition : Condition) :
    Condition × Bool × Bool :=
  let first := condition.dropFirst (fixesPartition t) top wanted.1
  let second := first.1.dropFirst (constrainsSort t) top wanted.2
  (second.1, first.2, second.2)

/-- The same in a list of conditions. -/
def leftOf (t : Table) (top : Bool) (wanted : Bool × Bool) (members : List Condition) :
    List Condition × Bool × Bool :=
  let first := dropFirstOf (fixesPartition t) top wanted.1 members
  let second := dropFirstOf (constrainsSort t) top wanted.2 first.1
  (second.1, first.2, second.2)

theorem left_group (wanted : Bool × Bool) (k : Connective) (members : List Condition) :
    left t top wanted (.group k members) =
      (.group k (leftOf t (top && k == .and) wanted members).1,
        (leftOf t (top && k == .and) wanted members).2) := rfl

theorem leftOf_cons (wanted : Bool × Bool) (condition : Condition) (rest : List Condition) :
    leftOf t top wanted (condition :: rest) =
      ((left t top wanted condition).1 ::
          (leftOf t top (left t top wanted condition).2 rest).1,
        (leftOf t top (left t top wanted condition).2 rest).2) := rfl

theorem left_leaf (wanted : Bool × Bool) (c : Comparison) :
    left t top wanted (.leaf c) =
      if fixesPartition t (c, top) && wanted.1 then (unconstrained, false, wanted.2)
      else if constrainsSort t (c, top) && wanted.2 then (unconstrained, wanted.1, false)
      else (.leaf c, wanted) := by
  simp only [left, dropFirst]
  split
  · rfl
  · simp only [dropFirst]
    split <;> rfl

theorem left_false (condition : Condition) :
    left t top (false, false) condition = (condition, false, false) := by
  simp only [left, dropFirst_false]

theorem left_eq_of_wanted {condition : Condition}
    (h : (left t top (true, true) condition).2 = (true, true)) :
    (left t top (true, true) condition).1 = condition := by
  obtain ⟨hpartition, hsort⟩ := Prod.mk.inj h
  exact (eq_of_dropFirst top _ hsort).trans (eq_of_dropFirst top condition hpartition)

/-- Which key parts are still to be taken. -/
def wanted (taking : Bool) (keys : Keys) : Bool × Bool :=
  (taking && keys.partition.isNone, taking && keys.sort.isNone)

theorem left_of_stays {keys : Keys} {c : Comparison} (hvalid : c.validate = .ok ())
    (h : (if taking && top then takeKey? t keys c else none) = none) :
    left t top (wanted taking keys) (.leaf c) = (.leaf c, wanted taking keys) := by
  cases taking with
  | false => exact left_false _
  | true =>
    rw [@takeKey?_eq t keys (c, top) hvalid] at h
    rw [left_leaf]
    simp only [wanted, Bool.true_and]
    split at h
    · cases h
    · rename_i hpartition
      split at h
      · cases h
      · rename_i hsort
        rw [if_neg hpartition, if_neg hsort]

theorem left_of_taken {keys keys' : Keys} {c : Comparison} (hvalid : c.validate = .ok ())
    (h : (if taking && top then takeKey? t keys c else none) = some keys') :
    left t top (wanted taking keys) (.leaf c) = (unconstrained, wanted taking keys') := by
  cases taking with
  | false => cases h
  | true =>
    rw [@takeKey?_eq t keys (c, top) hvalid] at h
    rw [left_leaf]
    simp only [wanted, Bool.true_and]
    split at h
    · rename_i hpartition
      cases h
      obtain ⟨-, hop⟩ := (Bool.and_eq_true _ _).mp ((Bool.and_eq_true _ _).mp hpartition).1
      have hscalar := isSome_asScalar? hvalid (beq_iff_eq.1 hop)
      rw [if_pos hpartition, Option.isNone_eq_false_iff.2 hscalar]
    · rename_i hpartition
      split at h
      · rename_i hsort
        cases h
        rw [if_neg hpartition, if_pos hsort]
        rfl
      · cases h

/-! ## Statements of brackets -/

variable {q : Query}

theorem query_close {k : Connective} {scope : Scope} {texts : List String} {text : Option String}
    {p p' : Progress} (run : (compiler t taking).close k scope texts p = .ok text p') : p' = p := by
  match texts with
  | [] => cases run; rfl
  | [_] => cases run; rfl
  | _ :: _ :: _ => cases run; rfl

/-- What formulas state one after the other, and the formula of them all states together. -/
theorem States.foldl (k : Connective) {f : Formula String} {a : (Atom → Bool) → Bool}
    {fs : List (Formula String)} {as : List ((Atom → Bool) → Bool)} (h : States q f a)
    (hs : List.Forall₂ (States q) fs as) :
    States q (fs.foldl (.joined k) f) fun holds => (as.map (· holds)).foldl k.apply (a holds) := by
  induction hs generalizing f a with
  | nil => exact h
  | cons hnext _ ih => exact ih (h.joined k hnext)

/-- Statements that are all there are joined from left to right. -/
theorem mergeAll_some (k : Connective) (a : Bool) (as : List Bool) :
    k.mergeAll ((a :: as).map some) = some (as.foldl k.apply a) := by
  induction as generalizing a with
  | nil => rfl
  | cons b as ih =>
    calc k.mergeAll ((a :: b :: as).map some)
        = k.merge (some a) (k.merge (some b) (k.mergeAll (as.map some))) := rfl
      _ = k.merge (k.merge (some a) (some b)) (k.mergeAll (as.map some)) :=
          (k.merge_assoc _ _ _).symm
      _ = k.mergeAll ((k.apply a b :: as).map some) := rfl
      _ = some (as.foldl k.apply (k.apply a b)) := ih (k.apply a b)

/-! ## Reading what is compiled -/

/-- A text that stands at a scope says what a condition says, and is one piece wherever it stands
in a bracket. Where there is no text the condition says nothing. -/
def Reads (q : Query) (scope : Scope) (condition : Condition) : Option String → Prop
  | none => ∀ holds, condition.meaning (answer holds) = none
  | some text => ∃ f statement,
    (0 < scope.depth → Piece (kindsOf text) f) ∧ Filling (kindsOf text) f ∧
      States q f statement ∧ ∀ holds, condition.meaning (answer holds) = some (statement holds)

/-- Texts in a bracket are pieces that say together what its members say. -/
def ReadsAll (q : Query) (k : Connective) (members : List Condition) (texts : List String) : Prop :=
  ∃ fs statements, List.Forall₂ (fun text f => Piece (kindsOf text) f) texts fs ∧
    List.Forall₂ (States q) fs statements ∧
    ∀ holds, meaningOf (answer holds) k members =
      k.mergeAll (statements.map fun statement => some (statement holds))

/-- The expression of a leaf says what the leaf says. -/
theorem Reads.leaf {scope : Scope} {c : Comparison} {text : String} (h : q.Expresses c text)
    (hlexical : q.Lexical) (hnull : q.null = .null true) (hvalid : c.validate = .ok ()) :
    Reads q scope (.leaf c) (some text) := by
  obtain ⟨f, hpiece, hstates⟩ := h.reads hlexical hnull hvalid
  exact ⟨f, _, fun _ => hpiece, hpiece.filling, hstates, fun _ => rfl⟩

namespace ReadsAll

variable {k : Connective} {scope : Scope} {condition : Condition} {members : List Condition}
  {text : Option String} {texts : List String}

theorem nil : ReadsAll q k [] [] := ⟨[], [], .nil, .nil, fun _ => rfl⟩

theorem cons (h : Reads q (scope.enter k) condition text) (hs : ReadsAll q k members texts) :
    ReadsAll q k (condition :: members) (text.toList ++ texts) := by
  obtain ⟨fs, statements, hpieces, hstates, hmeaning⟩ := hs
  cases text with
  | none =>
    refine ⟨fs, statements, hpieces, hstates, fun holds => ?_⟩
    rw [meaningOf, h holds, k.merge_none_left, hmeaning holds]
  | some text =>
    obtain ⟨f, statement, hpiece, -, hstate, hfirst⟩ := h
    have hdepth : 0 < (scope.enter k).depth := Nat.succ_pos scope.depth
    refine ⟨f :: fs, statement :: statements, .cons (hpiece hdepth) hpieces,
      .cons hstate hstates, fun holds => ?_⟩
    rw [meaningOf, hfirst holds, hmeaning holds]
    rfl

/-- **A bracket around texts says what they say together.** -/
theorem close {t : Table} {taking : Bool} {p p' : Progress} (h : ReadsAll q k members texts)
    (run : (compiler t taking).close k scope texts p = .ok text p') :
    Reads q scope (.group k members) text := by
  obtain ⟨fs, statements, hpieces, hstates, hmeaning⟩ := h
  cases hpieces with
  | nil =>
    cases run
    cases hstates
    exact hmeaning
  | @cons first f texts fs hfirst hpieces =>
    cases hstates with
    | @cons _ statement _ statements hstate hstates =>
    have hstatement : ∀ holds, (Condition.group k members).meaning (answer holds) =
        some ((statements.map (· holds)).foldl k.apply (statement holds)) := by
      intro holds
      rw [← mergeAll_some, List.map_cons, List.map_map]
      exact hmeaning holds
    have hjoined := hstate.foldl k hstates
    cases hpieces with
    | nil =>
      cases run
      cases hstates
      exact ⟨f, statement, fun _ => hfirst, hfirst.filling, hstate, hstatement⟩
    | @cons second g texts fs hsecond hpieces =>
      cases run
      have hfilling := filling_join k hfirst (.cons hsecond hpieces)
      rw [joinExpressions]
      -- Inside other brackets the parentheses make the joined texts one piece.
      split
      · exact ⟨_, _, fun _ => hfilling.parenthesesText, hfilling.parenthesesText.filling, hjoined,
          hstatement⟩
      · rename_i hdepth
        exact ⟨_, _, fun hpos => absurd hpos hdepth, hfilling, hjoined, hstatement⟩

end ReadsAll

mutual

/-- **The expression of a condition says what is left of the condition.** -/
theorem compileAt_reads (hlexical : q.Lexical) (hnull : q.null = .null true) (scope : Scope) :
    ∀ (condition : Condition) {text : Option String} {p p' : Progress},
      (compiler t taking).compileAt scope condition p = .ok text p' → p'.query.Resolves q →
        (left t scope.topLevelAnd (wanted taking p.keys) condition).2 = wanted taking p'.keys ∧
          Reads q scope (left t scope.topLevelAnd (wanted taking p.keys) condition).1 text
  | .leaf c, _, _, _, run, hresolves => by
    obtain ⟨hvalid, ⟨keys, htake, rfl, rfl⟩ | ⟨hstays, text, query, hleaf, rfl, rfl⟩⟩ :=
      compileLeaf_cases run
    · rw [left_of_taken hvalid htake]
      exact ⟨rfl, fun _ => rfl⟩
    · rw [left_of_stays hvalid hstays]
      obtain ⟨-, hexpresses⟩ := leafExpression_yields c _ _ _ hleaf
      exact ⟨rfl, .leaf (hexpresses.mono hresolves) hlexical hnull hvalid⟩
  | .group k [], _, _, _, run, _ => by
    cases run
    exact ⟨rfl, fun _ => rfl⟩
  | .group k [only], text, p, p', run, hresolves => by
    obtain ⟨hwanted, hreads⟩ := compileAt_reads hlexical hnull (scope.single k) only run hresolves
    rw [topLevelAnd_single] at hwanted hreads
    rw [left_group, leftOf_cons]
    refine ⟨hwanted, ?_⟩
    -- A bracket with one member has the text of the member, and says what it says.
    generalize (left t (scope.topLevelAnd && k == .and) (wanted taking p.keys) only).1 = kept
      at hreads ⊢
    have honly : ∀ holds, (Condition.group k [kept]).meaning (answer holds) =
        kept.meaning (answer holds) := by
      intro holds
      simp
    have hdepth : (scope.single k).depth = scope.depth := by cases k <;> rfl
    cases text with
    | none => exact fun holds => (honly holds).trans (hreads holds)
    | some text =>
      obtain ⟨f, statement, hpiece, hfilling, hstates, hmeaning⟩ := hreads
      rw [hdepth] at hpiece
      exact ⟨f, statement, hpiece, hfilling, hstates,
        fun holds => (honly holds).trans (hmeaning holds)⟩
  | .group k (first :: second :: rest), _, p, _, run, hresolves => by
    obtain ⟨texts, p₁, hall, hclose⟩ := run_bind_eq_ok.1 run
    -- Closing writes nothing, so the members are resolved by the same query.
    obtain rfl := query_close hclose
    obtain ⟨hwanted, hreads⟩ :=
      compileAll_reads hlexical hnull scope k (first :: second :: rest) hall hresolves
    rw [left_group]
    exact ⟨hwanted, hreads.close hclose⟩

theorem compileAll_reads (hlexical : q.Lexical) (hnull : q.null = .null true) (scope : Scope)
    (k : Connective) : ∀ (members : List Condition) {texts : List String} {p p' : Progress},
      (compiler t taking).compileAll (scope.enter k) members p = .ok texts p' →
        p'.query.Resolves q →
        (leftOf t (scope.topLevelAnd && k == .and) (wanted taking p.keys) members).2 =
            wanted taking p'.keys ∧
          ReadsAll q k (leftOf t (scope.topLevelAnd && k == .and) (wanted taking p.keys) members).1
            texts
  | [], _, _, _, run, _ => by
    cases run
    exact ⟨rfl, .nil⟩
  | condition :: rest, _, p, p', run, hresolves => by
    obtain ⟨text, p₁, hfirst, run⟩ := run_bind_eq_ok.1 run
    obtain ⟨texts, p₂, hrest, run⟩ := run_bind_eq_ok.1 run
    cases run
    have hext := (compileAll_compiled (scope.enter k) rest hrest).query
    obtain ⟨hwanted, hreads⟩ := compileAt_reads hlexical hnull (scope.enter k) condition hfirst
      (hext.toResolves.trans hresolves)
    obtain ⟨hwanted', hreads'⟩ := compileAll_reads hlexical hnull scope k rest hrest hresolves
    rw [← hwanted] at hwanted' hreads'
    rw [leftOf_cons]
    exact ⟨hwanted', .cons hreads hreads'⟩

end

end KeyValue

end StoreQuery
