import StoreQuery.Proofs.Search.Leaves
import StoreQuery.Proofs.Search.Separate

/-!
# The meaning of a search condition

**A search keeps its meaning exactly when its groups are separate** (`search_meaning`). What the
clauses of a condition mean is what its formula means (`meaning_clauses`), so the test of the
condition that is built from nothing accepts the documents that the formula accepts, unless a
group lost its bracket. The members of one property, of one array of operands and of one object
with a single member are never bracketed; inside an `$or` they become alternatives
(`search_meaning_lost`).
-/

namespace StoreQuery.Search

open Builder

/-! ## Conditions -/

variable {cs : List Clause} {holds : Comparison → Bool}

mutual

/-- The clauses of a condition mean what its formula means, whatever bracket they stand in. -/
theorem meaning_clauses {context : Path} : ∀ (k : Connective) {condition : Json} {cs : List Clause},
    NeverBoth condition → clauses context condition = .ok cs →
      k.mergeAll (cs.map fun c => c.plain.meaning holds) =
        (formula context condition).meaning holds
  | k, .obj members, cs, ⟨hnever, hmembers⟩, h => by
    simp only [formula, Condition.meaning_group, List.map_cons, List.map_nil,
      Connective.mergeAll_cons, Connective.mergeAll_nil, Connective.merge_none_right]
    cases hand : members.lookup "$and" with
    | some list =>
      have hor := hnever.resolve_left (by simp [hand])
      obtain ⟨listed, others, bracketed, hlisted, hothers, rfl⟩ := clauses_and hand h
      rw [listedFormulas_of_lookup_none hor, ← meaning_listed .and hmembers hlisted,
        ← meaning_members .and hmembers hothers]
      simp [Function.comp_def]
    | none =>
      obtain ⟨listed, others, bracketed, hlisted, hothers, hcs⟩ := clauses_or hand h
      rw [listedFormulas_of_lookup_none hand, ← meaning_listed .or hmembers hlisted,
        ← meaning_members .and hmembers hothers]
      rcases hcs with rfl | rfl | ⟨rfl, rfl⟩ | ⟨rfl, rfl⟩ <;>
        simp [Function.comp_def, Connective.merge_comm]
  | _, .null, _, _, h | _, .bool _, _, _, h | _, .num _, _, _, h | _, .str _, _, _, h
  | _, .arr _, _, _, h => by cases h; rfl

theorem meaning_listed {name : String} {context : Path} : ∀ (k : Connective)
    {members : List (String × Json)} {cs : List Clause},
    MembersNeverBoth members → listedClauses name context members = .ok cs →
      k.mergeAll (cs.map fun c => c.plain.meaning holds) =
        k.mergeAll ((listedFormulas name context members).map (Condition.meaning holds))
  | _, [], _, _, h => by cases h; rfl
  | k, (n, value) :: rest, cs, ⟨hvalue, hrest⟩, h => by
    rw [listedClauses] at h
    rw [listedFormulas]
    split_ifs at h ⊢
    · exact meaning_conditions k hvalue h
    · exact meaning_listed k hrest h

theorem meaning_members {context : Path} : ∀ (k : Connective) {members : List (String × Json)}
    {cs : List Clause},
    MembersNeverBoth members → memberClauses context members = .ok cs →
      k.mergeAll (cs.map fun c => c.plain.meaning holds) =
        k.mergeAll ((memberFormulas context members).map (Condition.meaning holds))
  | _, [], _, _, h => by cases h; rfl
  | k, (name, value) :: rest, cs, ⟨hvalue, hrest⟩, h => by
    rw [memberClauses] at h
    rw [memberFormulas]
    split_ifs at h ⊢ <;> obtain ⟨first, hfirst, h⟩ := bind_eq_ok.1 h <;>
      obtain ⟨others, hothers, h⟩ := bind_eq_ok.1 h <;> cases h
    · cases hfirst
      exact meaning_members k hrest hothers
    · obtain ⟨inner, hinner, rfl⟩ := map_eq_ok.1 hfirst
      simp [← meaning_field hvalue hinner, ← meaning_members k hrest hothers, Function.comp_def]

theorem meaning_field {path : Path} : ∀ {value : Json} {cs : List Clause}, NeverBoth value →
    fieldClauses path value = .ok cs →
      Connective.and.mergeAll (cs.map fun c => c.plain.meaning holds) =
        (fieldFormula path value).meaning holds
  | .null, _, _, h => by cases h; rfl
  | .arr items, _, hnever, h => by
    rw [fieldFormula, Condition.meaning_group]
    exact meaning_all .and hnever h
  | .bool _, _, _, h | .num _, _, _, h | .str _, _, _, h | .obj _, _, _, h => by
    simp only [fieldClauses] at h
    simp only [fieldFormula, Condition.meaning_group, ← plain_propertyClauses h, List.map_map]
    rfl

theorem meaning_conditions {context : Path} : ∀ (k : Connective) {value : Json}
    {cs : List Clause}, NeverBoth value → conditionsClauses context value = .ok cs →
      k.mergeAll (cs.map fun c => c.plain.meaning holds) =
        k.mergeAll ((conditionFormulas context value).map (Condition.meaning holds))
  | k, .arr items, _, hnever, h => meaning_all k hnever h
  | _, .null, _, _, h | _, .bool _, _, _, h | _, .num _, _, _, h | _, .str _, _, _, h
  | _, .obj _, _, _, h => by cases h; rfl

theorem meaning_all {context : Path} : ∀ (k : Connective) {items : List Json}
    {cs : List Clause}, AllNeverBoth items → allClauses context items = .ok cs →
      k.mergeAll (cs.map fun c => c.plain.meaning holds) =
        k.mergeAll ((allFormulas context items).map (Condition.meaning holds))
  | _, [], _, _, h => by cases h; rfl
  | k, item :: items, cs, ⟨hitem, hitems⟩, h => by
    obtain ⟨first, hfirst, h⟩ := bind_eq_ok.1 h
    obtain ⟨rest, hrest, h⟩ := bind_eq_ok.1 h
    cases h
    rw [List.map_append, Connective.mergeAll_append, meaning_clauses k hitem hfirst,
      meaning_all k hitems hrest]
    rfl

end

/-! ## Searches -/

/-- Every group of a search condition stands in a bracket of its kind, or has at most one member
that says anything. -/
def Separate (condition : Json) : Prop :=
  ∀ cs, clauses .root condition = .ok cs → Clause.SeparateAll .and cs

instance (condition : Json) : Decidable (Separate condition) :=
  match h : clauses .root condition with
  | .ok cs => decidable_of_iff (Clause.SeparateAll .and cs)
      ⟨fun hs _ hcs => Except.ok.inj (h.symm.trans hcs) ▸ hs, fun hs => hs cs h⟩
  | .error _ => isTrue fun _ hcs => nomatch h.symm.trans hcs

theorem meaning_build {b : Builder} (h : b.build = .group .and (Clause.partsOf .and cs))
    (holds : Comparison → Bool) :
    b.build.meaning holds = (Clause.group .and true cs).said holds .and := by
  rw [h, Clause.said_group]
  exact Clause.meaningOf_partsOf holds .and cs

theorem predicate_build {b : Builder} (h : b.build = .group .and (Clause.partsOf .and cs)) :
    ∃ test, Memory.predicate b.build = .ok test ∧ ∀ document : Json,
      test document =
        ((Clause.group .and true cs).said (fun c => c.holds document) .and).getD true := by
  have hvalid : ∀ c ∈ b.build.leaves, c.validate = .ok () := by
    rw [leaves_build h]; exact Clause.validate_leavesOf
  obtain ⟨test, htest, haccepts⟩ := Memory.predicate_ok hvalid
  exact ⟨test, htest, fun document => by rw [haccepts, Condition.accepts, meaning_build h]⟩

/-- Truth values that are missing together are the same if they accept the same. -/
theorem eq_of_getD_eq {a b : Option Bool} (hnone : a = none ↔ b = none)
    (h : a.getD true = b.getD true) : a = b := by
  cases a <;> cases b <;> simp_all

/-- **A search keeps its meaning exactly when its groups are separate.** -/
theorem search_meaning {condition : Json} {b : Builder} (hnever : NeverBoth condition)
    (h : addSearch root .root condition empty = .ok () b) :
    ∃ test, Memory.predicate b.build = .ok test ∧
      (Separate condition → ∀ document : Json,
        test document = (formula .root condition).accepts fun c => c.holds document) ∧
      ((formula .root condition).leaves.Nodup →
        ((∀ holds, b.build.accepts holds = (formula .root condition).accepts holds) ↔
          Separate condition)) := by
  obtain ⟨cs, hcs, hbuild⟩ := build_addSearch h
  let whole : Clause := .group .and true cs
  have hwhole : whole.plain.leaves = clauseLeaves cs := rfl
  have hsaid : ∀ holds, b.build.meaning holds = whole.said holds .and := meaning_build hbuild
  have hmeant : ∀ holds, (formula .root condition).meaning holds = whole.plain.meaning holds := by
    intro holds
    rw [← meaning_clauses .and hnever hcs, Clause.plain_group, Condition.meaning_group,
      List.map_map]
    rfl
  have hseparate : Separate condition ↔ Clause.Separate .and whole :=
    ⟨fun hs => ⟨.inl rfl, hs cs hcs⟩, fun hs cs' hcs' => by cases hcs.symm.trans hcs'; exact hs.2⟩
  obtain ⟨test, htest, haccepts⟩ := predicate_build hbuild
  refine ⟨test, htest, fun hs document => ?_, fun hnodup => ?_⟩
  · rw [haccepts, Condition.accepts, hmeant, (hseparate.1 hs).said]
  · have hperm := (leaves_search h).1
    rw [shadowed_eq_nil hnever, List.append_nil, leaves_build hbuild] at hperm
    rw [hseparate, ← Clause.said_iff (hwhole ▸ hperm.nodup_iff.2 hnodup)]
    refine forall_congr' fun holds => ?_
    rw [Condition.accepts, Condition.accepts, hsaid, hmeant]
    refine ⟨eq_of_getD_eq ?_, fun heq => by rw [heq]⟩
    rw [Clause.said_eq_none_iff, Condition.meaning_eq_none_iff]

/-- Two alternatives: two properties, and one property with alternatives of its own. -/
def apart : Json :=
  .obj [("$or", .arr
    [.obj [("id", .ofInt64 1), ("name", .str "x")],
      .obj [("id", .obj [("$or", .obj [("$lt", .ofInt64 1), ("$gt", .ofInt64 3)])])]])]

theorem search_meaning_apart :
    NeverBoth apart ∧ Separate apart ∧ (formula .root apart).leaves.Nodup ∧
      ∃ b test, addSearch root .root apart empty = .ok () b ∧
        Memory.predicate b.build = .ok test ∧
        ∀ document : Json,
          test document = (formula .root apart).accepts fun c => c.holds document := by
  have hnever : NeverBoth apart := by decide
  obtain ⟨test, htest, hmeans, -⟩ := search_meaning hnever rfl
  exact ⟨hnever, by decide, by decide, _, test, rfl, htest, hmeans (by decide)⟩

/-- Two alternatives, of which the first is a property between two bounds. -/
def bounded : Json :=
  .obj [("$or", .arr
    [.obj [("id", .obj [("$gt", .ofInt64 1), ("$lt", .ofInt64 3)])],
      .obj [("b", .ofInt64 7)]])]

/-- The two bounds become alternatives: a document below the first one is accepted. -/
theorem search_meaning_lost :
    NeverBoth bounded ∧ ¬ Separate bounded ∧
      ∃ b test, addSearch root .root bounded empty = .ok () b ∧
        Memory.predicate b.build = .ok test ∧
        test (.obj [("id", .ofInt64 1)]) = true ∧
        (formula .root bounded).accepts (fun c => c.holds (.obj [("id", .ofInt64 1)])) = false := by
  obtain ⟨cs, hcs, hbuild⟩ := build_addSearch (rfl : addSearch root .root bounded empty = _)
  obtain ⟨test, htest, haccepts⟩ := predicate_build hbuild
  refine ⟨by decide, by decide, _, test, rfl, htest, ?_, by decide +kernel⟩
  rw [haccepts]
  cases hcs
  decide +kernel

end StoreQuery.Search
