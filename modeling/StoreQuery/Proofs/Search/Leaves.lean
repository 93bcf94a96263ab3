import StoreQuery.Proofs.Search.Formula
import StoreQuery.Proofs.Search.Steps

/-!
# The leaves of a search condition

**A search builds each comparison written in it once** (`leaves_search`), but for those that are
shadowed: where an object has both `$and` and `$or`, the conditions that `$or` lists are dropped.
-/

namespace StoreQuery.Search

open Builder

/-- The leaves that several clauses add. -/
def clauseLeaves (cs : List Clause) : List Comparison := Condition.leavesOf (Clause.plainOf cs)

theorem clauseLeaves_eq (cs : List Clause) :
    clauseLeaves cs = (cs.map Clause.plain).flatMap Condition.leaves := by
  rw [clauseLeaves, Condition.leavesOf_eq, Clause.plainOf_eq]

theorem clauseLeaves_append (cs cs' : List Clause) :
    clauseLeaves (cs ++ cs') = clauseLeaves cs ++ clauseLeaves cs' := by
  simp [clauseLeaves_eq]

@[simp] theorem clauseLeaves_group (kind : Connective) (bracketed : Bool) (members : List Clause) :
    clauseLeaves [.group kind bracketed members] = clauseLeaves members := by
  simp [clauseLeaves_eq]

theorem leaves_object (context : Path) (members : List (String × Json)) :
    (formula context (.obj members)).leaves =
      Condition.leavesOf (listedFormulas "$and" context members) ++
        (Condition.leavesOf (listedFormulas "$or" context members) ++
          Condition.leavesOf (memberFormulas context members)) := by
  simp [formula, Condition.leavesOf_eq]

/-- What is left out of each of two lists is left out of both. -/
theorem perm_append {a b s t f g : List Comparison} (h : (a ++ s).Perm f) (h' : (b ++ t).Perm g) :
    (a ++ b ++ (s ++ t)).Perm (f ++ g) := by
  refine .trans ?_ (h.append h')
  rw [List.append_assoc, List.append_assoc]
  exact (List.perm_append_comm_assoc b s t).append_left a

mutual

/-- The clauses of a condition have its leaves, but for those that are shadowed. -/
theorem leaves_clauses {context : Path} : ∀ {condition : Json} {cs : List Clause},
    clauses context condition = .ok cs →
      (clauseLeaves cs ++ shadowed context condition).Perm (formula context condition).leaves
  | .obj members, cs, h => by
    cases hand : members.lookup "$and" with
    | some list =>
      obtain ⟨listed, others, bracketed, hlisted, hothers, rfl⟩ := clauses_and hand h
      have hl := leaves_listed hlisted
      have ho := (List.perm_append_comm_assoc ..).trans <|
        (leaves_members hothers).append_left
          (Condition.leavesOf (listedFormulas "$or" context members))
      simp only [shadowed, hand]
      rw [clauseLeaves_group, clauseLeaves_append, leaves_object,
        List.append_assoc (shadowedListed ..)]
      exact perm_append hl ho
    | none =>
      obtain ⟨listed, others, bracketed, hlisted, hothers, hcs⟩ := clauses_or hand h
      have hl := leaves_listed hlisted
      have ho := leaves_members hothers
      have hcs : (clauseLeaves cs).Perm (clauseLeaves listed ++ clauseLeaves others) := by
        rcases hcs with rfl | rfl | ⟨rfl, rfl⟩ | ⟨rfl, rfl⟩ <;>
          simp [clauseLeaves_eq, List.perm_append_comm]
      simp only [shadowed, hand]
      rw [leaves_object, listedFormulas_of_lookup_none hand, Condition.leavesOf, List.nil_append]
      exact (hcs.append_right _).trans (perm_append hl ho)
  | .null, _, h | .bool _, _, h | .num _, _, h | .str _, _, h | .arr _, _, h => by cases h; rfl

theorem leaves_listed {name : String} {context : Path} : ∀ {members : List (String × Json)}
    {cs : List Clause}, listedClauses name context members = .ok cs →
      (clauseLeaves cs ++ shadowedListed name context members).Perm
        (Condition.leavesOf (listedFormulas name context members))
  | [], _, h => by cases h; rfl
  | (n, value) :: rest, cs, h => by
    rw [listedClauses] at h
    rw [listedFormulas, shadowedListed]
    split_ifs at h ⊢
    · exact leaves_conditions h
    · exact leaves_listed h

theorem leaves_members {context : Path} : ∀ {members : List (String × Json)} {cs : List Clause},
    memberClauses context members = .ok cs →
      (clauseLeaves cs ++ shadowedMembers context members).Perm
        (Condition.leavesOf (memberFormulas context members))
  | [], _, h => by cases h; rfl
  | (name, value) :: rest, cs, h => by
    rw [memberClauses] at h
    rw [memberFormulas, shadowedMembers]
    split_ifs at h ⊢ <;> obtain ⟨first, hfirst, h⟩ := bind_eq_ok.1 h <;>
      obtain ⟨others, hothers, h⟩ := bind_eq_ok.1 h <;> cases h
    · cases hfirst
      exact leaves_members hothers
    · obtain ⟨inner, hinner, rfl⟩ := map_eq_ok.1 hfirst
      rw [clauseLeaves_append, clauseLeaves_group, Condition.leavesOf]
      exact perm_append (leaves_field hinner) (leaves_members hothers)

theorem leaves_field {path : Path} : ∀ {value : Json} {cs : List Clause},
    fieldClauses path value = .ok cs →
      (clauseLeaves cs ++ shadowedConditions path value).Perm (fieldFormula path value).leaves
  | .null, _, h => by cases h; rfl
  | .arr items, _, h => leaves_all h
  | .bool _, _, h | .num _, _, h | .str _, _, h | .obj _, _, h => by
    simp only [fieldClauses] at h
    simp only [fieldFormula, Condition.leaves_group, ← plain_propertyClauses h, shadowedConditions,
      List.append_nil, clauseLeaves_eq]
    rfl

theorem leaves_conditions {context : Path} : ∀ {value : Json} {cs : List Clause},
    conditionsClauses context value = .ok cs →
      (clauseLeaves cs ++ shadowedConditions context value).Perm
        (Condition.leavesOf (conditionFormulas context value))
  | .arr items, _, h => leaves_all h
  | .null, _, h | .bool _, _, h | .num _, _, h | .str _, _, h | .obj _, _, h => by cases h; rfl

theorem leaves_all {context : Path} : ∀ {items : List Json} {cs : List Clause},
    allClauses context items = .ok cs →
      (clauseLeaves cs ++ shadowedAll context items).Perm
        (Condition.leavesOf (allFormulas context items))
  | [], _, h => by cases h; rfl
  | item :: items, cs, h => by
    obtain ⟨first, hfirst, h⟩ := bind_eq_ok.1 h
    obtain ⟨rest, hrest, h⟩ := bind_eq_ok.1 h
    cases h
    rw [clauseLeaves_append]
    exact perm_append (leaves_clauses hfirst) (leaves_all hrest)

end

/-! ## Searches -/

/-- A search builds the leaves of its clauses. -/
theorem leaves_build {cs : List Clause} {b : Builder}
    (h : b.build = .group .and (Clause.partsOf .and cs)) : b.build.leaves = clauseLeaves cs := by
  rw [h, Condition.leaves, Clause.leaves_partsOf, clauseLeaves]

/-- **A search builds each comparison written in it once, but for those under an `$or` that stands
beside an `$and`.** -/
theorem leaves_search {condition : Json} {b : Builder}
    (h : addSearch root .root condition empty = .ok () b) :
    (b.build.leaves ++ shadowed .root condition).Perm (formula .root condition).leaves ∧
      (b.build.leaves.Perm (formula .root condition).leaves ↔ shadowed .root condition = []) := by
  obtain ⟨cs, hcs, hbuild⟩ := build_addSearch h
  have hall := leaves_clauses hcs
  rw [← leaves_build hbuild] at hall
  refine ⟨hall, fun hsame => ?_, fun hnone => by rwa [hnone, List.append_nil] at hall⟩
  have hlength := hall.length_eq.trans hsame.length_eq.symm
  rw [List.length_append] at hlength
  exact List.eq_nil_of_length_eq_zero (by omega)

/-- An object with `$and`, a property with several operands, and another `$and` below. -/
def listed : Json :=
  .obj [("a", .obj [("$eq", .arr [.ofInt64 1, .ofInt64 2])]),
    ("$and", .arr [.obj [("$and", .arr [.obj [("b", .ofInt64 3)]]), ("c", .null)]])]

theorem leaves_search_listed :
    ∃ b, addSearch root .root listed empty = .ok () b ∧
      b.build.leaves.Perm (formula .root listed).leaves :=
  ⟨_, rfl, (leaves_search rfl).2.2 rfl⟩

/-- Both lists in one object. -/
def both : Json :=
  .obj [("$and", .arr [.obj [("a", .ofInt64 1)]]), ("$or", .arr [.obj [("b", .ofInt64 2)]])]

/-- The comparison that `$or` lists is dropped. -/
theorem leaves_search_lost :
    ∃ b, addSearch root .root both empty = .ok () b ∧
      b.build.leaves = [⟨⟨["a"]⟩, .eq, .one (.int 1)⟩] ∧
      (formula .root both).leaves =
        [⟨⟨["a"]⟩, .eq, .one (.int 1)⟩, ⟨⟨["b"]⟩, .eq, .one (.int 2)⟩] := by
  obtain ⟨cs, hcs, hbuild⟩ := build_addSearch (rfl : addSearch root .root both empty = _)
  cases hcs
  exact ⟨_, rfl, (leaves_build hbuild).trans (by decide), by decide⟩

/-! ## Lists that never stand together -/

mutual

/-- Where `$and` and `$or` never stand in one object, nothing is shadowed. -/
theorem shadowed_eq_nil {context : Path} : ∀ {condition : Json}, NeverBoth condition →
    shadowed context condition = []
  | .obj members, ⟨hnever, hmembers⟩ => by
    have hl : ∀ name, shadowedListed name context members = [] :=
      fun _ => shadowedListed_eq_nil hmembers
    rw [shadowed, shadowedMembers_eq_nil hmembers]
    cases hand : members.lookup "$and" with
    | some list =>
      have hor := hnever.resolve_left (by simp [hand])
      simp [hl, listedFormulas_of_lookup_none hor, Condition.leavesOf]
    | none => simp [hl]
  | .null, _ | .bool _, _ | .num _, _ | .str _, _ | .arr _, _ => rfl

theorem shadowedListed_eq_nil {name : String} {context : Path} :
    ∀ {members : List (String × Json)}, MembersNeverBoth members →
      shadowedListed name context members = []
  | [], _ => rfl
  | (n, value) :: rest, ⟨hvalue, hrest⟩ => by
    rw [shadowedListed, shadowedConditions_eq_nil hvalue, shadowedListed_eq_nil hrest, ite_self]

theorem shadowedMembers_eq_nil {context : Path} : ∀ {members : List (String × Json)},
    MembersNeverBoth members → shadowedMembers context members = []
  | [], _ => rfl
  | (name, value) :: rest, ⟨hvalue, hrest⟩ => by
    rw [shadowedMembers, shadowedConditions_eq_nil hvalue, shadowedMembers_eq_nil hrest, ite_self,
      List.nil_append]

theorem shadowedConditions_eq_nil {context : Path} : ∀ {value : Json}, NeverBoth value →
    shadowedConditions context value = []
  | .arr _, h => shadowedAll_eq_nil h
  | .null, _ | .bool _, _ | .num _, _ | .str _, _ | .obj _, _ => rfl

theorem shadowedAll_eq_nil {context : Path} : ∀ {items : List Json}, AllNeverBoth items →
    shadowedAll context items = []
  | [], _ => rfl
  | item :: items, ⟨hitem, hitems⟩ => by
    rw [shadowedAll, shadowed_eq_nil hitem, shadowedAll_eq_nil hitems, List.nil_append]

end

end StoreQuery.Search
