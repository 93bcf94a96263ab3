import StoreQuery.Memory.Lookup
import StoreQuery.Proofs.Json.Alike

/-!
# The properties of an object

Objects in objects are seen as one object whose properties have several names. **These properties
are all that is there and is no object** (`mem_properties_iff`).
-/

namespace StoreQuery.Json

variable {value inner : Json} {name : String} {names : List String} {members : Members}
  {property : List String × Json}

mutual

/-- What is in a value and is no object, with the names that lead there, in the order in which it is
written. -/
def properties : Json → List (List String × Json)
  | .obj members => memberProperties members
  | value => [([], value)]

def memberProperties : List (String × Json) → List (List String × Json)
  | [] => []
  | (name, value) :: rest =>
    (properties value).map (fun property => (name :: property.1, property.2)) ++
      memberProperties rest

end

theorem properties_of_not_isObject (h : value.isObject = false) :
    properties value = [([], value)] := by
  cases value with
  | obj members => cases h
  | null | bool | num | str | arr => rfl

/-- A property of an object has a name at least. -/
theorem nil_notMem_memberProperties : ([], inner) ∉ memberProperties members := by
  induction members with
  | nil => exact List.not_mem_nil
  | cons member members ih => simp [memberProperties, ih]

theorem cons_mem_memberProperties : (name :: names, inner) ∈ memberProperties members ↔
    ∃ value, (name, value) ∈ members ∧ (names, inner) ∈ properties value := by
  induction members with
  | nil => simp [memberProperties]
  | cons member members ih =>
    obtain ⟨n, v⟩ := member
    have hfirst : (name :: names, inner) ∈
        (properties v).map (fun property => (n :: property.1, property.2)) ↔
          name = n ∧ (names, inner) ∈ properties v := by
      rw [List.mem_map]
      constructor
      · rintro ⟨property, h, hsame⟩
        cases hsame
        exact ⟨rfl, h⟩
      · rintro ⟨rfl, h⟩
        exact ⟨_, h, rfl⟩
    simp only [memberProperties, List.mem_append, hfirst, ih, List.mem_cons, Prod.mk.injEq]
    constructor
    · rintro (⟨rfl, h⟩ | ⟨value, hmem, h⟩)
      · exact ⟨v, .inl ⟨rfl, rfl⟩, h⟩
      · exact ⟨value, .inr hmem, h⟩
    · rintro ⟨value, ⟨rfl, rfl⟩ | hmem, h⟩
      · exact .inl ⟨rfl, h⟩
      · exact .inr ⟨value, hmem, h⟩

mutual

theorem isObject_of_mem_properties : ∀ {value : Json},
    ∀ property ∈ properties value, property.2.isObject = false
  | .obj _ => isObject_of_mem_memberProperties
  | .null | .bool _ | .num _ | .str _ | .arr _ => List.forall_mem_singleton.2 rfl

theorem isObject_of_mem_memberProperties : ∀ {members : List (String × Json)},
    ∀ property ∈ memberProperties members, property.2.isObject = false
  | [] => nofun
  | (_, _) :: _ => List.forall_mem_append.2
      ⟨List.forall_mem_map.2 isObject_of_mem_properties, isObject_of_mem_memberProperties⟩

end

/-! ## What is found at a path -/

theorem wellFormed_of_mem (h : MembersWellFormed members) (hmem : (name, value) ∈ members) :
    value.WellFormed := by
  induction members with
  | nil => cases hmem
  | cons member members ih =>
    rcases List.mem_cons.1 hmem with rfl | hmem
    · exact h.1
    · exact ih h.2 hmem

theorem mem_memberNumbers {n : Number} :
    n ∈ memberNumbers members ↔ ∃ member ∈ members, n ∈ member.2.numbers := by
  induction members with
  | nil => simp [memberNumbers]
  | cons member members ih => simp [memberNumbers, ih]

/-- **The properties are what is there and is no object.** -/
theorem mem_properties_iff (h : value.WellFormed) :
    (names, inner) ∈ properties value ↔ at? names value = some inner ∧ inner.isObject = false := by
  induction names generalizing value with
  | nil =>
    cases value with
    | obj members =>
      refine iff_of_false nil_notMem_memberProperties ?_
      rintro ⟨hobj, hinner⟩
      cases hobj
      cases hinner
    | null | bool | num | str | arr =>
      rw [properties_of_not_isObject rfl, at?, Option.some.injEq, List.mem_singleton]
      constructor
      · rintro h
        cases h
        exact ⟨rfl, rfl⟩
      · rintro ⟨rfl, -⟩
        rfl
  | cons name names ih =>
    cases value with
    | obj members =>
      rw [properties, cons_mem_memberProperties, at?, get?, Option.bind_eq_some_iff]
      constructor
      · rintro ⟨value, hmem, hinner⟩
        obtain ⟨hat, hobj⟩ := (ih (wellFormed_of_mem h.2 hmem)).1 hinner
        exact ⟨⟨value, Dict.lookup_of_mem h.1 hmem, hat⟩, hobj⟩
      · rintro ⟨⟨value, hlookup, hat⟩, hobj⟩
        have hmem := Dict.mem_of_lookup hlookup
        exact ⟨value, hmem, (ih (wellFormed_of_mem h.2 hmem)).2 ⟨hat, hobj⟩⟩
    | null | bool | num | str | arr =>
      rw [properties_of_not_isObject rfl]
      simp [at?, get?]

/-- There are no other numbers in what is in a value. -/
theorem numbers_of_at? (h : at? names value = some inner) {n : Number} (hn : n ∈ inner.numbers) :
    n ∈ value.numbers := by
  induction names generalizing value with
  | nil => cases h; exact hn
  | cons name names ih =>
    obtain ⟨next, hnext, hinner⟩ := Option.bind_eq_some_iff.1 h
    cases value with
    | obj members =>
      exact mem_memberNumbers.2 ⟨(name, next), Dict.mem_of_lookup hnext, ih hinner⟩
    | null | bool | num | str | arr => cases hnext

end StoreQuery.Json
