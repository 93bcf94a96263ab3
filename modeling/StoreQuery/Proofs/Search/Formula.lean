import StoreQuery.Proofs.Search.Clause
import StoreQuery.Proofs.Success
import Mathlib.Tactic.SplitIfs

/-!
# The formula of a search condition

What a search condition says by the rules of its grammar, as a condition in which every AND and
every OR has a bracket of its own. An object is the AND of its members, `$and` the AND and `$or`
the OR of the conditions listed; a property is the AND of its operators or of the conditions below
it, and only `$or` inside an object of operators makes alternatives of them. What says nothing is
left without leaves.

The formula is written without a builder and never fails: it says nothing about which values
operators accept.
-/

namespace StoreQuery.Search

/-! ## Operators -/

/-- The comparison with a value, if the value can be compared with. -/
def valueFormula (path : Path) (op : Operator) (value : Json) : Condition :=
  match Operand.ofJson? value with
  | some operand => .leaf ⟨path, op, operand⟩
  | none => .unconstrained

mutual

/-- An operator with its value; a single-value operator holds of all items of an array. -/
def operandFormula (path : Path) (op : Operator) : Json → Condition
  | .arr items =>
    if op.shape = .single then .group .and (operandFormulas path op items)
    else valueFormula path op (.arr items)
  | value => valueFormula path op value

def operandFormulas (path : Path) (op : Operator) : List Json → List Condition
  | [] => []
  | item :: items => operandFormula path op item :: operandFormulas path op items

end

/-- The known operators of an object. -/
def operatorFormulas (path : Path) : List (String × Json) → List Condition
  | [] => []
  | (token, value) :: rest =>
    match Operator.ofToken? token with
    | some op => operandFormula path op value :: operatorFormulas path rest
    | none => operatorFormulas path rest

/-! ## Properties -/

mutual

/-- The parts of what a value says about a property. -/
def propertyFormulas (path : Path) : Json → List Condition
  | .obj operators => operatorFormulas path operators ++ alternativeFormulas path operators
  | value => [valueFormula path .eq value]

/-- The alternatives that an object of operators gives, if it does. -/
def alternativeFormulas (path : Path) : List (String × Json) → List Condition
  | [] => []
  | (name, value) :: rest =>
    if name = "$or" then
      if value.isNull then [] else [.group .or (propertyFormulas path value)]
    else alternativeFormulas path rest

end

/-! ## Conditions -/

mutual

/-- **The formula of a search condition** below a path. -/
def formula (context : Path) : Json → Condition
  | .obj members =>
    .group .and
      [.group .and (listedFormulas "$and" context members),
        .group .or (listedFormulas "$or" context members),
        .group .and (memberFormulas context members)]
  | _ => .unconstrained

/-- The conditions that the member of a given name lists. -/
def listedFormulas (name : String) (context : Path) : List (String × Json) → List Condition
  | [] => []
  | (n, value) :: rest =>
    if n = name then conditionFormulas context value else listedFormulas name context rest

/-- The properties that an object constrains. -/
def memberFormulas (context : Path) : List (String × Json) → List Condition
  | [] => []
  | (name, value) :: rest =>
    if name = "$and" ∨ name = "$or" then memberFormulas context rest
    else fieldFormula (context.join (.ofText name)) value :: memberFormulas context rest

/-- What a member says about its property. -/
def fieldFormula (path : Path) : Json → Condition
  | .null => .unconstrained
  | .arr items => .group .and (allFormulas path items)
  | value => .group .and (propertyFormulas path value)

/-- The conditions in an array. -/
def conditionFormulas (context : Path) : Json → List Condition
  | .arr items => allFormulas context items
  | _ => []

def allFormulas (context : Path) : List Json → List Condition
  | [] => []
  | item :: items => formula context item :: allFormulas context items

end

/-! ## Both lists in one object -/

mutual

/-- No object inside has both `$and` and `$or`. -/
def NeverBoth : Json → Prop
  | .arr items => AllNeverBoth items
  | .obj members =>
    (members.lookup "$and" = none ∨ members.lookup "$or" = none) ∧ MembersNeverBoth members
  | _ => True

def AllNeverBoth : List Json → Prop
  | [] => True
  | value :: rest => NeverBoth value ∧ AllNeverBoth rest

def MembersNeverBoth : List (String × Json) → Prop
  | [] => True
  | (_, value) :: rest => NeverBoth value ∧ MembersNeverBoth rest

end

mutual

instance decidableNeverBoth : ∀ value, Decidable (NeverBoth value)
  | .arr items => decidableAllNeverBoth items
  | .obj members =>
    have := decidableMembersNeverBoth members
    inferInstanceAs (Decidable ((members.lookup "$and" = none ∨ members.lookup "$or" = none) ∧
      MembersNeverBoth members))
  | .null | .bool _ | .num _ | .str _ => isTrue trivial

instance decidableAllNeverBoth : ∀ items, Decidable (AllNeverBoth items)
  | [] => isTrue trivial
  | value :: rest =>
    have := decidableNeverBoth value
    have := decidableAllNeverBoth rest
    inferInstanceAs (Decidable (NeverBoth value ∧ AllNeverBoth rest))

instance decidableMembersNeverBoth : ∀ members, Decidable (MembersNeverBoth members)
  | [] => isTrue trivial
  | (_, value) :: rest =>
    have := decidableNeverBoth value
    have := decidableMembersNeverBoth rest
    inferInstanceAs (Decidable (NeverBoth value ∧ MembersNeverBoth rest))

end

mutual

/-- The comparisons under an `$or` that stands beside an `$and`. -/
def shadowed (context : Path) : Json → List Comparison
  | .obj members =>
    match members.lookup "$and" with
    | some _ =>
      shadowedListed "$and" context members ++
        Condition.leavesOf (listedFormulas "$or" context members) ++
        shadowedMembers context members
    | none => shadowedListed "$or" context members ++ shadowedMembers context members
  | _ => []

/-- Those in the conditions that the member of a given name lists. -/
def shadowedListed (name : String) (context : Path) : List (String × Json) → List Comparison
  | [] => []
  | (n, value) :: rest =>
    if n = name then shadowedConditions context value else shadowedListed name context rest

/-- Those in the other members. -/
def shadowedMembers (context : Path) : List (String × Json) → List Comparison
  | [] => []
  | (name, value) :: rest =>
    (if name = "$and" ∨ name = "$or" then []
      else shadowedConditions (context.join (.ofText name)) value) ++ shadowedMembers context rest

/-- Those in an array of conditions. -/
def shadowedConditions (context : Path) : Json → List Comparison
  | .arr items => shadowedAll context items
  | _ => []

def shadowedAll (context : Path) : List Json → List Comparison
  | [] => []
  | item :: items => shadowed context item ++ shadowedAll context items

end

/-! ## Members by name -/

theorem listedFormulas_of_lookup_none {name : String} {context : Path}
    {members : List (String × Json)} (h : members.lookup name = none) :
    listedFormulas name context members = [] := by
  induction members with
  | nil => rfl
  | cons member rest ih =>
    obtain ⟨n, value⟩ := member
    rw [List.lookup_cons] at h
    by_cases hn : name = n
    · simp [hn] at h
    · have : (name == n) = false := by simpa using hn
      rw [this] at h
      rw [listedFormulas, if_neg (Ne.symm hn), ih h]

variable {path context : Path} {op : Operator} {cs : List Clause}

/-! ## Clauses and formulas -/

theorem plain_leafClauses {operand : Operand} (h : leafClauses path op operand = .ok cs) :
    cs.map Clause.plain = [.leaf ⟨path, op, operand⟩] := by
  rw [leafClauses] at h
  split at h <;> cases h
  rfl

theorem plain_valueClauses {refusal : Error} {value : Json}
    (h : valueClauses path op refusal value = .ok cs) :
    cs.map Clause.plain = [valueFormula path op value] := by
  rw [valueClauses] at h
  rw [valueFormula]
  cases hv : Operand.ofJson? value with
  | none => rw [hv] at h; cases h
  | some operand =>
    rw [hv] at h
    exact plain_leafClauses h

mutual

theorem plain_operandClauses : ∀ {value : Json} {cs : List Clause},
    operandClauses path op value = .ok cs → cs.map Clause.plain = [operandFormula path op value]
  | .arr items, cs, h => by
    rw [operandClauses] at h
    rw [operandFormula]
    split_ifs at h ⊢
    · obtain ⟨inner, hinner, rfl⟩ := map_eq_ok.1 h
      rw [List.map_singleton, Clause.plain_group, plain_operandsClauses hinner]
    · exact plain_valueClauses h
  | .null, _, h | .bool _, _, h | .num _, _, h | .str _, _, h | .obj _, _, h => by
    rw [operandClauses] at h
    exact plain_valueClauses h
    all_goals nofun

theorem plain_operandsClauses : ∀ {items : List Json} {cs : List Clause},
    operandsClauses path op items = .ok cs → cs.map Clause.plain = operandFormulas path op items
  | [], _, h => by cases h; rfl
  | item :: items, cs, h => by
    obtain ⟨first, hfirst, h⟩ := bind_eq_ok.1 h
    obtain ⟨rest, hrest, h⟩ := bind_eq_ok.1 h
    cases h
    rw [List.map_append, plain_operandClauses hfirst, plain_operandsClauses hrest]
    rfl

end

theorem plain_operatorClauses : ∀ {operators : List (String × Json)} {cs : List Clause},
    operatorClauses path operators = .ok cs →
      cs.map Clause.plain = operatorFormulas path operators
  | [], _, h => by cases h; rfl
  | (token, value) :: rest, cs, h => by
    rw [operatorClauses] at h
    rw [operatorFormulas]
    cases hop : Operator.ofToken? token with
    | some op =>
      simp only [hop] at h
      obtain ⟨first, hfirst, h⟩ := bind_eq_ok.1 h
      obtain ⟨others, hothers, h⟩ := bind_eq_ok.1 h
      cases h
      rw [List.map_append, plain_operandClauses hfirst, plain_operatorClauses hothers]
      rfl
    | none =>
      simp only [hop] at h
      obtain ⟨first, hfirst, h⟩ := bind_eq_ok.1 h
      obtain ⟨others, hothers, h⟩ := bind_eq_ok.1 h
      cases hfirst
      cases h
      exact plain_operatorClauses hothers

mutual

/-- What a value says about a property is what its formula says. -/
theorem plain_propertyClauses : ∀ {value : Json} {cs : List Clause},
    propertyClauses path value = .ok cs → cs.map Clause.plain = propertyFormulas path value
  | .obj operators, cs, h => by
    obtain ⟨named, hnamed, h⟩ := bind_eq_ok.1 h
    obtain ⟨alternatives, halternatives, h⟩ := bind_eq_ok.1 h
    cases h
    rw [List.map_append, plain_operatorClauses hnamed, plain_alternativeClauses halternatives]
    rfl
  | .null, _, h | .bool _, _, h | .num _, _, h | .str _, _, h | .arr _, _, h => by
    simp only [propertyClauses] at h
    exact plain_valueClauses h

theorem plain_alternativeClauses : ∀ {operators : List (String × Json)} {cs : List Clause},
    alternativeClauses path operators = .ok cs →
      cs.map Clause.plain = alternativeFormulas path operators
  | [], _, h => by cases h; rfl
  | (name, value) :: rest, cs, h => by
    rw [alternativeClauses] at h
    rw [alternativeFormulas]
    split_ifs at h ⊢
    · cases h; rfl
    · obtain ⟨inner, hinner, rfl⟩ := map_eq_ok.1 h
      rw [List.map_singleton, Clause.plain_group, plain_propertyClauses hinner]
    · exact plain_alternativeClauses h

end

theorem listedClauses_of_lookup_none {name : String} {members : List (String × Json)}
    (h : members.lookup name = none) : listedClauses name context members = .ok [] := by
  induction members with
  | nil => rfl
  | cons member rest ih =>
    obtain ⟨n, value⟩ := member
    rw [List.lookup_cons] at h
    split at h
    · cases h
    · rename_i hn
      rw [listedClauses, if_neg (Ne.symm (by simpa using hn)), ih h]

/-- The clauses of an object with `$and`. -/
theorem clauses_and {members : List (String × Json)} {list : Json}
    (hand : members.lookup "$and" = some list) (h : clauses context (.obj members) = .ok cs) :
    ∃ listed others bracketed, listedClauses "$and" context members = .ok listed ∧
      memberClauses context members = .ok others ∧
      cs = [.group .and bracketed (listed ++ others)] := by
  rw [clauses, hand] at h
  obtain ⟨count, -, h⟩ := bind_eq_ok.1 h
  obtain ⟨listed, hlisted, h⟩ := bind_eq_ok.1 h
  obtain ⟨others, hothers, h⟩ := bind_eq_ok.1 h
  exact ⟨listed, others, _, hlisted, hothers, (pure_eq_ok.1 h).symm⟩

/-- The clauses of an object without `$and`. -/
theorem clauses_or {members : List (String × Json)} (hand : members.lookup "$and" = none)
    (h : clauses context (.obj members) = .ok cs) :
    ∃ listed others bracketed, listedClauses "$or" context members = .ok listed ∧
      memberClauses context members = .ok others ∧
      (cs = [.group .and bracketed (.group .or true listed :: others)] ∨
        cs = [.group .and bracketed (others ++ [.group .or false listed])] ∨
        others = [] ∧ cs = [.group .or bracketed listed] ∨
        listed = [] ∧ cs = [.group .and bracketed others]) := by
  rw [clauses, hand] at h
  cases hor : members.lookup "$or" with
  | none =>
    rw [hor] at h
    obtain ⟨others, hothers, h⟩ := bind_eq_ok.1 h
    exact ⟨[], others, _, listedClauses_of_lookup_none hor, hothers,
      .inr (.inr (.inr ⟨rfl, (pure_eq_ok.1 h).symm⟩))⟩
  | some list =>
    rw [hor] at h
    obtain ⟨count, -, h⟩ := bind_eq_ok.1 h
    by_cases hone : members.length = 1
    · rw [if_pos hone] at h
      obtain ⟨listed, hlisted, h⟩ := bind_eq_ok.1 h
      refine ⟨listed, [], _, hlisted, ?_, .inr (.inr (.inl ⟨rfl, (pure_eq_ok.1 h).symm⟩))⟩
      -- The only member is the list.
      obtain ⟨⟨name, value⟩, rfl⟩ := List.length_eq_one_iff.1 hone
      have hname : name = "$or" := by
        rw [List.lookup_cons] at hor
        split at hor
        · rename_i heq; exact (by simpa using heq : "$or" = name).symm
        · cases hor
      rw [memberClauses, if_pos (.inr hname)]
      rfl
    · rw [if_neg hone] at h
      obtain ⟨others, hothers, h⟩ := bind_eq_ok.1 h
      obtain ⟨listed, hlisted, h⟩ := bind_eq_ok.1 h
      refine ⟨listed, others, true, hlisted, hothers, ?_⟩
      rw [← pure_eq_ok.1 h]
      split_ifs
      · exact .inl rfl
      · exact .inr (.inl rfl)

end StoreQuery.Search
