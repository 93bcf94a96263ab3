import StoreQuery.Proofs.Search.Clause
import Mathlib.Data.List.Nodup

/-!
# Groups in brackets of their kind

A loose group stands among the members of a bracket that may be of the other kind. This is
harmless where at most one of its members says anything. `Clause.Separate` says that this is so
for every group inside a clause.

**A clause keeps its meaning exactly when its groups are separate** (`said_iff`). One
direction needs that no comparison stands in the clause twice: then every comparison can be made
to hold or to fail on its own, and a group that is not separate shows.
-/

namespace StoreQuery.Search.Clause

/-- At most one clause says anything. -/
def Sparse (clauses : List Clause) : Prop :=
  clauses.Pairwise fun c d => c.plain.leaves = [] ∨ d.plain.leaves = []

mutual

/-- Every group of which several members say anything stands in a bracket of its kind. -/
def Separate (k : Connective) : Clause → Prop
  | .leaf _ _ => True
  | .group kind bracketed members =>
    (place k kind bracketed = kind ∨ Sparse members) ∧
      SeparateAll (place k kind bracketed) members

def SeparateAll (k : Connective) : List Clause → Prop
  | [] => True
  | clause :: rest => Separate k clause ∧ SeparateAll k rest

end

instance (clauses : List Clause) : Decidable (Sparse clauses) :=
  inferInstanceAs (Decidable (clauses.Pairwise _))

mutual

instance decidableSeparate (k : Connective) : ∀ clause, Decidable (Separate k clause)
  | .leaf _ _ => isTrue trivial
  | .group kind bracketed members =>
    have := decidableSeparateAll (place k kind bracketed) members
    inferInstanceAs (Decidable ((place k kind bracketed = kind ∨ Sparse members) ∧
      SeparateAll (place k kind bracketed) members))

instance decidableSeparateAll (k : Connective) : ∀ clauses, Decidable (SeparateAll k clauses)
  | [] => isTrue trivial
  | clause :: rest =>
    have := decidableSeparate k clause
    have := decidableSeparateAll k rest
    inferInstanceAs (Decidable (Separate k clause ∧ SeparateAll k rest))

end

variable {holds : Comparison → Bool} {k : Connective}

/-- What the parts of a clause say in a bracket of a kind. -/
def said (holds : Comparison → Bool) (k : Connective) (clause : Clause) : Option Bool :=
  Condition.meaningOf holds k (parts k clause)

theorem meaningOf_partsOf (holds : Comparison → Bool) (k : Connective) (clauses : List Clause) :
    Condition.meaningOf holds k (partsOf k clauses) = k.mergeAll (clauses.map (said holds k)) := by
  induction clauses with
  | nil => rfl
  | cons clause rest ih =>
    rw [partsOf, Condition.meaningOf_eq, List.map_append, Connective.mergeAll_append,
      ← Condition.meaningOf_eq, ← Condition.meaningOf_eq, ih]
    rfl

theorem said_leaf (holds : Comparison → Bool) (k : Connective) (c : Comparison)
    (h : c.validate = .ok ()) : said holds k (.leaf c h) = some (holds c) := by
  rw [said, parts, Condition.meaningOf, Condition.meaningOf, Connective.merge_none_right]
  rfl

/-- A group says what its members say where they stand. -/
theorem said_group (holds : Comparison → Bool) (k kind : Connective) (bracketed : Bool)
    (members : List Clause) :
    said holds k (.group kind bracketed members) =
      (place k kind bracketed).mergeAll (members.map (said holds (place k kind bracketed))) := by
  rw [said, parts, bracket, ← meaningOf_partsOf]
  split
  · rename_i h; rw [h]
  · exact Connective.merge_none_right ..

theorem said_uniform {b : Bool} {clause : Clause} (h : ∀ c ∈ clause.plain.leaves, holds c = b) :
    said holds k clause = if clause.plain.leaves = [] then none else some b := by
  rw [← leaves_parts k] at h ⊢
  exact Condition.meaningOf_uniform h

theorem said_congr {holds' : Comparison → Bool} {clause : Clause}
    (h : ∀ c ∈ clause.plain.leaves, holds c = holds' c) :
    said holds k clause = said holds' k clause :=
  Condition.meaningOf_congr (by rwa [leaves_parts])

/-- In a sparse list at most one statement is there. -/
theorem Sparse.statements {clauses : List Clause} (h : Sparse clauses) (holds : Comparison → Bool) :
    (clauses.map fun c => c.plain.meaning holds).Pairwise fun a b => a = none ∨ b = none := by
  rw [List.pairwise_map]
  exact h.imp fun hcd => hcd.imp Condition.meaning_eq_none_iff.2 Condition.meaning_eq_none_iff.2

/-! ## Separate groups keep their meaning -/

mutual

theorem Separate.said : ∀ {k : Connective} {clause : Clause}, Separate k clause →
    clause.said holds k = clause.plain.meaning holds
  | k, .leaf c h, _ => said_leaf holds k c h
  | k, .group kind bracketed members, h => by
    rw [said_group, plain_group, Condition.meaning_group, List.map_map, SeparateAll.said h.2]
    rcases h.1 with hplace | hsparse
    · rw [hplace]; rfl
    · exact Connective.mergeAll_sparse (hsparse.statements holds) _ _

theorem SeparateAll.said : ∀ {k : Connective} {clauses : List Clause}, SeparateAll k clauses →
    clauses.map (Clause.said holds k) = clauses.map fun c => c.plain.meaning holds
  | _, [], _ => rfl
  | _, _ :: _, h => by rw [List.map_cons, List.map_cons, Separate.said h.1, SeparateAll.said h.2]

end

/-! ## Other groups show -/

/-- A clause says something exactly when it has leaves. -/
theorem said_eq_none_iff {clause : Clause} :
    said holds k clause = none ↔ clause.plain.leaves = [] := by
  rw [said, Condition.meaningOf_eq_none_iff, leaves_parts]

/-- Groups that keep their meaning whatever holds and have two members that say anything stand in
a bracket of their kind. -/
theorem sparse_of_kept {p kind : Connective} {members : List Clause} (hne : p ≠ kind)
    (hnodup : (members.flatMap fun c => c.plain.leaves).Nodup)
    (hkept : ∀ holds, p.mergeAll (members.map (said holds p)) =
      kind.mergeAll (members.map fun c => c.plain.meaning holds)) : Sparse members := by
  refine (List.nodup_flatMap.1 hnodup).2.imp_of_mem fun {c d} hc hd hdisjoint => ?_
  by_contra hboth
  obtain ⟨hcne, hdne⟩ := not_or.1 hboth
  -- The leaves of one member hold, and no others do.
  let holds : Comparison → Bool := fun x => decide (x ∈ c.plain.leaves)
  have hholds : ∀ x ∈ c.plain.leaves, holds x = true := fun x hx => decide_eq_true hx
  have hfails : ∀ x ∈ d.plain.leaves, holds x = false :=
    fun x hx => decide_eq_false fun hx' => hdisjoint hx' hx
  refine Connective.mergeAll_ne hne ?_ ?_ (hkept holds) <;> rintro (_ | _)
  · exact List.mem_map.2 ⟨d, hd, by rw [said_uniform hfails, if_neg hdne]⟩
  · exact List.mem_map.2 ⟨c, hc, by rw [said_uniform hholds, if_neg hcne]⟩
  · exact List.mem_map.2 ⟨d, hd, by rw [Condition.meaning_uniform hfails, if_neg hdne]⟩
  · exact List.mem_map.2 ⟨c, hc, by rw [Condition.meaning_uniform hholds, if_neg hcne]⟩

theorem said_of_mem {p : Connective} {members : List Clause}
    (hnodup : (members.flatMap fun c => c.plain.leaves).Nodup)
    (hkept : ∀ holds, p.mergeAll (members.map (said holds p)) =
      p.mergeAll (members.map fun c => c.plain.meaning holds))
    {clause : Clause} (hmem : clause ∈ members) (holds : Comparison → Bool) :
    said holds p clause = clause.plain.meaning holds := by
  by_cases hl : clause.plain.leaves = []
  · rw [said_eq_none_iff.2 hl, Condition.meaning_eq_none_iff.2 hl]
  obtain ⟨before, after, rfl⟩ := List.append_of_mem hmem
  -- All other leaves are made neutral.
  let holds' : Comparison → Bool := fun x =>
    if x ∈ clause.plain.leaves then holds x else p.neutral
  have hsame : ∀ x ∈ clause.plain.leaves, holds' x = holds x := fun x hx => if_pos hx
  have hother : ∀ c, c ∈ before ∨ c ∈ after → ∀ x ∈ c.plain.leaves, holds' x = p.neutral := by
    rw [List.flatMap_append, List.flatMap_cons] at hnodup
    rintro c (hc | hc) x hx <;> refine if_neg fun hx' => ?_
    · exact List.disjoint_of_nodup_append hnodup (List.mem_flatMap.2 ⟨c, hc, hx⟩)
        (List.mem_append_left _ hx')
    · exact List.disjoint_of_nodup_append hnodup.of_append_right hx'
        (List.mem_flatMap.2 ⟨c, hc, hx⟩)
  have hsaid : ∀ c, c ∈ before ∨ c ∈ after →
      said holds' p c = none ∨ said holds' p c = some p.neutral := fun c hc => by
    rw [said_uniform (hother c hc)]; split <;> simp
  have hmeant : ∀ c, c ∈ before ∨ c ∈ after →
      c.plain.meaning holds' = none ∨ c.plain.meaning holds' = some p.neutral := fun c hc => by
    rw [Condition.meaning_uniform (hother c hc)]; split <;> simp
  obtain ⟨a, ha⟩ := Option.ne_none_iff_exists'.1
    (mt said_eq_none_iff.1 hl : said holds p clause ≠ none)
  obtain ⟨b, hb⟩ := Option.ne_none_iff_exists'.1
    (mt Condition.meaning_eq_none_iff.1 hl : clause.plain.meaning holds ≠ none)
  have hboth := hkept holds'
  rw [List.map_append, List.map_cons, List.map_append, List.map_cons, said_congr hsame, ha,
    Condition.meaning_congr hsame, hb,
    Connective.mergeAll_decided (List.forall_mem_map.2 fun c hc => hsaid c (.inl hc))
      (List.forall_mem_map.2 fun c hc => hsaid c (.inr hc)),
    Connective.mergeAll_decided (List.forall_mem_map.2 fun c hc => hmeant c (.inl hc))
      (List.forall_mem_map.2 fun c hc => hmeant c (.inr hc))] at hboth
  rw [ha, hb, hboth]

mutual

/-- A clause without repeated leaves that keeps its meaning whatever holds is separate. -/
theorem separate_of_kept : ∀ {k : Connective} {clause : Clause}, clause.plain.leaves.Nodup →
    (∀ holds, said holds k clause = clause.plain.meaning holds) → Separate k clause
  | _, .leaf _ _, _, _ => trivial
  | k, .group kind bracketed members, hnodup, hkept => by
    rw [plain_group, Condition.leaves_group, List.flatMap_map] at hnodup
    have hkept : ∀ holds, _ := fun holds => by
      have := hkept holds
      rwa [said_group, plain_group, Condition.meaning_group, List.map_map] at this
    have hplace : place k kind bracketed = kind ∨ Sparse members :=
      or_iff_not_imp_left.2 fun hne => sparse_of_kept hne hnodup hkept
    have hsame : ∀ holds, (place k kind bracketed).mergeAll
        (members.map (said holds (place k kind bracketed))) =
          (place k kind bracketed).mergeAll (members.map fun c => c.plain.meaning holds) := by
      intro holds
      refine (hkept holds).trans ?_
      rcases hplace with hplace | hsparse
      · rw [hplace]; rfl
      · exact Connective.mergeAll_sparse (hsparse.statements holds) _ _
    exact ⟨hplace, separateAll_of_kept (List.nodup_flatMap.1 hnodup).1
      fun c hc => said_of_mem hnodup hsame hc⟩

theorem separateAll_of_kept : ∀ {k : Connective} {clauses : List Clause},
    (∀ c ∈ clauses, c.plain.leaves.Nodup) →
      (∀ c ∈ clauses, ∀ holds, said holds k c = c.plain.meaning holds) → SeparateAll k clauses
  | _, [], _, _ => trivial
  | _, clause :: _, hnodup, hkept =>
    ⟨separate_of_kept (hnodup clause List.mem_cons_self) (hkept clause List.mem_cons_self),
      separateAll_of_kept (fun c hc => hnodup c (List.mem_cons_of_mem _ hc))
        fun c hc => hkept c (List.mem_cons_of_mem _ hc)⟩

end

/-- **A clause keeps its meaning exactly when its groups are separate.** -/
theorem said_iff {k : Connective} {clause : Clause} (hnodup : clause.plain.leaves.Nodup) :
    (∀ holds, said holds k clause = clause.plain.meaning holds) ↔ Separate k clause :=
  ⟨separate_of_kept hnodup, fun h _ => h.said⟩

end StoreQuery.Search.Clause
