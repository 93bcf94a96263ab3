import StoreQuery.Proofs.Json.Properties
import StoreQuery.Proofs.Memory.Forced
import StoreQuery.Proofs.Number.Decimal
import StoreQuery.Proofs.Number.Rounding

/-!
# Forced entities

To force an entity on a request is to force its properties, one after the other, and objects inside
it are no more than properties with several names (`requireEntity_eq_foldlM`). A property that is an
array lists the values of which there has to be one; the others have to be there as they are, where
nothing is as good as null.

**A forced entity accepts the documents that agree with it in all properties**, and so the entity
itself (`predicate_requireEntity`). It cannot be forced exactly if some property is an array that
has no items, or holds an array or an object.
-/

namespace StoreQuery

section Pairs

variable {α β : Type} {R : α → β → Prop} {xs : List α} {ys : List β}

theorem exists_forall₂_iff : (∃ ys, List.Forall₂ R xs ys) ↔ ∀ x ∈ xs, ∃ y, R x y := by
  induction xs with
  | nil => simp
  | cons x xs ih =>
    rw [List.forall_mem_cons, ← ih]
    simp only [List.forall₂_cons_left_iff]
    constructor
    · rintro ⟨_, y, ys, hy, hys, rfl⟩
      exact ⟨⟨y, hy⟩, ys, hys⟩
    · rintro ⟨⟨y, hy⟩, ys, hys⟩
      exact ⟨_, y, ys, hy, hys, rfl⟩

theorem forall_mem_iff_of_forall₂ {p : α → Prop} {q : β → Prop} (h : List.Forall₂ R xs ys)
    (hpairs : ∀ x ∈ xs, ∀ y, R x y → (p x ↔ q y)) : (∀ x ∈ xs, p x) ↔ ∀ y ∈ ys, q y := by
  induction h with
  | nil => simp
  | cons hxy _ ih =>
    obtain ⟨hfirst, hrest⟩ := List.forall_mem_cons.1 hpairs
    rw [List.forall_mem_cons, List.forall_mem_cons, hfirst _ hxy, ih hrest]

end Pairs

variable {value item document : Json} {items : List Json} {scalar : Scalar} {scalars : List Scalar}
  {path base : Path} {c : Comparison} {comparisons : List Comparison} {r r' : Request}

/-! ## Equal values -/

theorem Number.isNaN_toDouble {n : Number} (h : n.IsFinite) : n.toDouble.isNaN = false := by
  cases n with
  | whole n => exact Double.isNaN_ofInt n.val
  | double x => exact decide_eq_false (Nat.not_lt_of_lt (of_decide_eq_true h))

namespace Json

/-- Whether a value is neither an array nor an object. -/
def isScalar : Json → Bool
  | .arr _ | .obj _ => false
  | _ => true

/-- An array that lists nothing to be equal to: it has no items, or an item is no scalar. -/
def Incomparable (value : Json) : Prop :=
  ∃ items, value = .arr items ∧ (items = [] ∨ ∃ item ∈ items, item.isScalar = false)

theorem not_incomparable_arr_iff : ¬ (Json.arr items).Incomparable ↔
    items ≠ [] ∧ ∀ item ∈ items, item.isScalar = true := by
  simp [Incomparable]

/-- What a document has to have at a path: the same, where nothing is as good as null, or one of
several values, or an array with one of them. -/
def AgreesAt (document : Json) (path : Path) : Json → Prop
  | .arr items => ∃ found, document.atPath? path = some found ∧ ∃ item ∈ items,
      compare? found item = some .eq ∨
        ∃ others, found = .arr others ∧ ∃ other ∈ others, compare? other item = some .eq
  | value => compare? ((document.atPath? path).getD .null) value = some .eq

theorem compare?_self (h : value.isScalar = true) (hfinite : ∀ n ∈ value.numbers, n.IsFinite) :
    compare? value value = some .eq := by
  cases value with
  | null => rfl
  | bool b => cases b <;> rfl
  | num n =>
    have hnan := Number.isNaN_toDouble (hfinite n List.mem_cons_self)
    rw [compare?, Double.compare?, hnan]
    simp
  | str text => simp [compare?]
  | arr items => cases h
  | obj members => cases h

/-- A value agrees with what stands in it, if that is comparable. -/
theorem agreesAt_of_atPath? (h : document.atPath? path = some value) (hobj : value.isObject = false)
    (hcomparable : ¬ value.Incomparable) (hfinite : ∀ n ∈ value.numbers, n.IsFinite) :
    document.AgreesAt path value := by
  cases value with
  | obj => cases hobj
  | null | bool | num | str =>
    have hself := compare?_self rfl hfinite
    simpa [AgreesAt, h] using hself
  | arr items =>
    -- The first item is one that the array contains.
    obtain ⟨hne, hscalars⟩ := not_incomparable_arr_iff.1 hcomparable
    obtain ⟨item, items, rfl⟩ := List.exists_cons_of_ne_nil hne
    have hself :=
      compare?_self (hscalars item List.mem_cons_self) (List.forall_mem_append.1 hfinite).1
    rw [AgreesAt, h]
    exact ⟨_, rfl, item, List.mem_cons_self, .inr ⟨_, rfl, item, List.mem_cons_self, hself⟩⟩

end Json

/-! ## Scalars of values -/

namespace Scalar

/-- A whole number beyond 63 bits becomes the double that it is compared by. -/
theorem exists_toJson_ofNumber {n : Number} (h : n.IsFinite) :
    ∃ m, (ofNumber n).toJson = .num m ∧ m.toDouble = n.toDouble := by
  cases n with
  | whole n =>
    have hlow := n.min_le
    have hhigh := n.lt_max
    have hmax : Int64.maxValue.toInt = 9223372036854775807 := by decide
    rw [ofNumber, Whole.toInt64?]
    by_cases hn : n.val ≤ Int64.maxValue.toInt
    · have hval : (Int64.ofInt n.val).toInt = n.val :=
        Int64.toInt_ofInt_of_le (by omega) (by omega)
      rw [if_pos hn]
      exact ⟨_, rfl, congrArg Double.ofInt hval⟩
    · have hfinite : (Double.ofInt n.val).isFinite = true :=
        decide_eq_true (Double.nearestRank_lt_infinityRank (by omega))
      rw [if_neg hn]
      refine ⟨.double (.ofInt n.val), ?_, rfl⟩
      simp only [toJson, Json.ofDouble, hfinite, if_true]
  | double x => exact ⟨_, if_pos h, rfl⟩

theorem isNull_ofNumber (n : Number) : (ofNumber n).isNull = false := by
  cases n with
  | whole n => rw [ofNumber]; split <;> rfl
  | double x => rfl

/-- **A value compares with the scalar of another one as with that one.** -/
theorem compareScalar?_eq (h : ofJson? item = some scalar)
    (hfinite : ∀ n ∈ item.numbers, n.IsFinite) (value : Json) :
    value.compareScalar? scalar = value.compare? item := by
  cases item with
  | null | bool | str => cases h; rfl
  | num n =>
    cases h
    obtain ⟨m, hm, hsame⟩ := exists_toJson_ofNumber (hfinite n List.mem_cons_self)
    rw [Json.compareScalar?, hm]
    cases value with
    | num other => rw [Json.compare?, Json.compare?, hsame]
    | null | bool | str | arr | obj => rfl
  | arr => cases h
  | obj => cases h

theorem isSome_ofJson? (value : Json) : (ofJson? value).isSome = value.isScalar := by
  cases value <;> rfl

theorem mapM_cons_iff : (item :: items).mapM ofJson? = some scalars ↔
    ∃ scalar rest, ofJson? item = some scalar ∧ items.mapM ofJson? = some rest ∧
      scalar :: rest = scalars := by
  simp [List.mapM_cons, Option.bind_eq_some_iff]

theorem exists_mapM_iff :
    (∃ scalars, items.mapM ofJson? = some scalars) ↔ ∀ item ∈ items, item.isScalar = true := by
  induction items with
  | nil => simp
  | cons item items ih =>
    rw [List.forall_mem_cons, ← ih, ← isSome_ofJson?, Option.isSome_iff_exists]
    simp only [mapM_cons_iff]
    constructor
    · rintro ⟨_, scalar, rest, hscalar, hrest, rfl⟩
      exact ⟨⟨scalar, hscalar⟩, rest, hrest⟩
    · rintro ⟨⟨scalar, hscalar⟩, rest, hrest⟩
      exact ⟨_, scalar, rest, hscalar, hrest, rfl⟩

end Scalar

namespace Memory

theorem equals_ofJson?_iff (h : Scalar.ofJson? item = some scalar)
    (hfinite : ∀ n ∈ item.numbers, n.IsFinite) (found : Option Json) :
    equals found scalar = true ↔ (found.getD .null).compare? item = some .eq := by
  cases found with
  | none =>
    cases item with
    | null => cases h; exact iff_of_true rfl rfl
    | bool | str => cases h; exact iff_of_false nofun nofun
    | num n =>
      cases h
      rw [equals, Scalar.isNull_ofNumber]
      exact iff_of_false nofun nofun
    | arr => cases h
    | obj => cases h
  | some value => rw [equals, Scalar.compareScalar?_eq h hfinite, beq_iff_eq, Option.getD_some]

theorem inList_ofJson?_iff (h : items.mapM Scalar.ofJson? = some scalars)
    (hfinite : ∀ n ∈ Json.itemNumbers items, n.IsFinite) :
    inList scalars value = true ↔ ∃ item ∈ items, value.compare? item = some .eq := by
  induction items generalizing scalars with
  | nil => cases h; simp [inList]
  | cons item items ih =>
    obtain ⟨hitem, hitems⟩ := List.forall_mem_append.1 hfinite
    obtain ⟨scalar, rest, hscalar, hrest, rfl⟩ := Scalar.mapM_cons_iff.1 h
    have hfirst := equals_ofJson?_iff hscalar hitem (some value)
    have hothers := ih hrest hitems
    simp_all [inList]

end Memory

namespace Request

/-! ## Comparisons for values -/

/-- The comparison for equality with a value. -/
def demand? (path : Path) (value : Json) : Option Comparison :=
  (Operand.ofJson? value).map fun operand => ⟨path, equality operand, operand⟩

theorem demand?_arr (path : Path) (items : List Json) : demand? path (.arr items) =
    (items.mapM Scalar.ofJson?).map fun scalars => ⟨path, .isIn, .many scalars⟩ := by
  rw [demand?, Operand.ofJson?, Option.map_map]
  rfl

/-- It is one with the scalar of the value, or with the list of the scalars in it. -/
theorem demand?_cases (h : demand? path value = some c) :
    (∃ scalar, value.isScalar = true ∧ Scalar.ofJson? value = some scalar ∧
        c = ⟨path, .eq, .one scalar⟩) ∨
      ∃ items scalars, value = .arr items ∧ items.mapM Scalar.ofJson? = some scalars ∧
        c = ⟨path, .isIn, .many scalars⟩ := by
  cases value with
  | arr items =>
    obtain ⟨scalars, hscalars, rfl⟩ := Option.map_eq_some_iff.1 (demand?_arr path items ▸ h)
    exact .inr ⟨items, scalars, rfl, hscalars, rfl⟩
  | obj members => cases h
  | null | bool | num | str =>
    cases h
    exact .inl ⟨_, rfl, rfl, rfl⟩

/-- **What a comparison for equality with a value means.** -/
theorem holds_of_demand? (h : demand? path value = some c)
    (hfinite : ∀ n ∈ value.numbers, n.IsFinite) (document : Json) :
    c.holds document = true ↔ document.AgreesAt path value := by
  obtain ⟨scalar, hvalue, hscalar, rfl⟩ | ⟨items, scalars, rfl, hscalars, rfl⟩ := demand?_cases h
  · have hequals := Memory.equals_ofJson?_iff hscalar hfinite (document.atPath? path)
    cases value with
    | arr => cases hvalue
    | obj => cases hvalue
    | null | bool | num | str => exact hequals
  · show Memory.someItem (Memory.inList scalars) (document.atPath? path) = true ↔ _
    rw [Json.AgreesAt]
    cases document.atPath? path with
    | none => simp [Memory.someItem]
    | some found =>
      cases found with
      | arr others =>
        simp only [Memory.someItem, List.any_eq_true, Memory.inList_ofJson?_iff hscalars hfinite]
        constructor
        · rintro ⟨other, hother, item, hitem, hsame⟩
          exact ⟨_, rfl, item, hitem, .inr ⟨others, rfl, other, hother, hsame⟩⟩
        · rintro ⟨_, ⟨⟩, item, hitem, hsame | ⟨_, ⟨⟩, other, hother, hsame⟩⟩
          · cases hsame
          · exact ⟨other, hother, item, hitem, hsame⟩
      | null | bool | num | str | obj =>
        simp [Memory.someItem, Memory.inList_ofJson?_iff hscalars hfinite]

/-- There is a valid comparison for equality with everything but incomparable values. -/
theorem exists_demand?_iff (hobj : value.isObject = false) :
    (∃ c, demand? path value = some c ∧ c.validate = .ok ()) ↔ ¬ value.Incomparable := by
  cases value with
  | obj members => cases hobj
  | null | bool | num | str => exact iff_of_true ⟨_, rfl, rfl⟩ nofun
  | arr items =>
    rw [Json.not_incomparable_arr_iff, ← Scalar.exists_mapM_iff, demand?_arr]
    constructor
    · rintro ⟨c, hc, hvalid⟩
      obtain ⟨scalars, hscalars, rfl⟩ := Option.map_eq_some_iff.1 hc
      refine ⟨?_, scalars, hscalars⟩
      rintro rfl
      cases hscalars
      cases hvalid
    · rintro ⟨hne, scalars, hscalars⟩
      refine ⟨_, Option.map_eq_some_iff.2 ⟨scalars, hscalars, rfl⟩, ?_⟩
      obtain ⟨item, items, rfl⟩ := List.exists_cons_of_ne_nil hne
      obtain ⟨scalar, rest, -, -, rfl⟩ := Scalar.mapM_cons_iff.1 hscalars
      rfl

/-! ## Forced properties -/

/-- Forces several comparisons one after the other. -/
def requireAll (r : Request) (comparisons : List Comparison) : Request :=
  comparisons.foldl (fun r c => r.requireCondition (.leaf c)) r

theorem requireAll_eq (members : List Condition) (h : r.condition = .group .and members) :
    r.requireAll comparisons =
      { r with condition := .group .and (members ++ comparisons.map .leaf) } := by
  induction comparisons generalizing r members with
  | nil => rw [List.map_nil, List.append_nil, ← h]; rfl
  | cons c comparisons ih =>
    have hfirst : (r.requireCondition (.leaf c)).condition =
        .group .and (members ++ [.leaf c]) := by
      rw [requireCondition, h, force]
    rw [requireAll, List.foldl_cons, ← requireAll, ih _ hfirst, List.append_assoc]
    rfl

/-- Forcing a value that is no object forces the comparison for equality with it, if it is valid. -/
theorem requireValue_eq (hobj : value.isObject = false) (r : Request) (path : Path) :
    r.requireValue path value =
      (demand? path value).elim (.error (Operator.eq.fault (.notComparable path.toText)))
        fun c => c.validate.map fun _ => r.requireCondition (.leaf c) := by
  have hvalue : r.requireValue path value =
      (Operand.ofJson? value).elim (.error (Operator.eq.fault (.notComparable path.toText)))
        fun operand =>
          (Condition.field path (equality operand) operand).map r.requireCondition := by
    cases value with
    | obj members => cases hobj
    | null | bool | num | str => rfl
    | arr items =>
      rw [requireValue]
      cases Operand.ofJson? (.arr items) <;> rfl
      nofun
  rw [hvalue, demand?]
  cases Operand.ofJson? value with
  | none => rfl
  | some operand =>
    simp only [Condition.field, Comparison.make, Option.map_some, Option.elim_some,
      Comparison.validate]
    cases (equality operand).validate operand <;> rfl

theorem requireValue_eq_ok_iff (hobj : value.isObject = false) :
    r.requireValue path value = .ok r' ↔
      ∃ c, (demand? path value = some c ∧ c.validate = .ok ()) ∧
        r.requireCondition (.leaf c) = r' := by
  rw [requireValue_eq hobj]
  cases demand? path value with
  | none => exact iff_of_false nofun fun ⟨_, ⟨h, _⟩, _⟩ => nomatch h
  | some c =>
    constructor
    · intro h
      obtain ⟨_, hvalid, hr⟩ := map_eq_ok.1 h
      exact ⟨c, ⟨rfl, hvalid⟩, hr⟩
    · rintro ⟨c, ⟨⟨⟩, hvalid⟩, hr⟩
      exact map_eq_ok.2 ⟨(), hvalid, hr⟩

theorem requireEntity_cons (r : Request) (base : Path) (name : String) (value : Json)
    (rest : List (String × Json)) : r.requireEntity base ((name, value) :: rest) =
      r.requireValue (base.child name) value >>= fun r => r.requireEntity base rest := by
  rw [requireEntity]
  cases r.requireValue (base.child name) value <;> rfl

mutual

/-- **An object is compared property by property.** -/
theorem requireValue_eq_foldlM : ∀ (value : Json) (r : Request) (path : Path),
    r.requireValue path value = (Json.properties value).foldlM
      (fun r property => r.requireValue (path.join ⟨property.1⟩) property.2) r
  | .obj members, r, path => by
    rw [Json.properties, requireValue, requireEntity_eq_foldlM members]
  | .null, r, path | .bool _, r, path | .num _, r, path | .str _, r, path | .arr _, r, path => by
    have hself : path.join ⟨[]⟩ = path := congrArg Path.mk (List.append_nil _)
    rw [Json.properties_of_not_isObject rfl, List.foldlM_cons, hself]
    exact (bind_pure _).symm

theorem requireEntity_eq_foldlM : ∀ (members : List (String × Json)) (r : Request) (base : Path),
    r.requireEntity base members = (Json.memberProperties members).foldlM
      (fun r property => r.requireValue (base.join ⟨property.1⟩) property.2) r
  | [], _, _ => rfl
  | (name, value) :: rest, r, base => by
    have hdeeper : ∀ names, (base.child name).join ⟨names⟩ = base.join ⟨name :: names⟩ :=
      fun names => congrArg Path.mk (List.append_assoc _ _ _)
    rw [Json.memberProperties, List.foldlM_append, List.foldlM_map, requireEntity_cons,
      requireValue_eq_foldlM value]
    simp only [hdeeper]
    exact bind_congr fun r => requireEntity_eq_foldlM rest r base

end

theorem foldlM_requireValue_eq_ok_iff {properties : List (List String × Json)}
    (hobj : ∀ property ∈ properties, property.2.isObject = false) :
    properties.foldlM (fun r property => r.requireValue (base.join ⟨property.1⟩) property.2) r =
        .ok r' ↔
      ∃ comparisons, List.Forall₂ (fun property c => demand? (base.join ⟨property.1⟩) property.2 =
          some c ∧ c.validate = .ok ()) properties comparisons ∧
        r.requireAll comparisons = r' := by
  induction properties generalizing r with
  | nil => simp [requireAll, pure_eq_ok]
  | cons property properties ih =>
    obtain ⟨hfirst, hrest⟩ := List.forall_mem_cons.1 hobj
    rw [List.foldlM_cons, bind_eq_ok]
    simp only [requireValue_eq_ok_iff hfirst, ih hrest]
    constructor
    · rintro ⟨_, ⟨c, hc, rfl⟩, comparisons, hcomparisons, rfl⟩
      exact ⟨c :: comparisons, .cons hc hcomparisons, rfl⟩
    · rintro ⟨_, hall, rfl⟩
      obtain ⟨c, comparisons, hc, hcomparisons, rfl⟩ := List.forall₂_cons_left_iff.1 hall
      exact ⟨_, ⟨c, hc, rfl⟩, comparisons, hcomparisons, rfl⟩

/-- **Forcing an entity** fails exactly if one of its properties is incomparable. -/
theorem requireEntity_error_iff {members : Json.Members} :
    (∃ e, r.requireEntity base members = .error e) ↔
      ∃ property ∈ Json.memberProperties members, property.2.Incomparable := by
  have hok : (∃ r', r.requireEntity base members = .ok r') ↔
      ∀ property ∈ Json.memberProperties members, ¬ property.2.Incomparable := by
    rw [requireEntity_eq_foldlM]
    simp only [foldlM_requireValue_eq_ok_iff Json.isObject_of_mem_memberProperties]
    rw [exists_comm]
    simp only [exists_and_left, exists_eq', and_true, exists_forall₂_iff]
    refine forall₂_congr fun property hmem => ?_
    exact exists_demand?_iff (Json.isObject_of_mem_memberProperties property hmem)
  have herror : (∃ e, r.requireEntity base members = .error e) ↔
      ¬ ∃ r', r.requireEntity base members = .ok r' := by
    cases r.requireEntity base members <;> simp
  rw [herror, hok]
  simp

end Request

namespace Memory

open Request

theorem predicate_comparisons (hvalid : ∀ c ∈ comparisons, c.validate = .ok ()) :
    ∃ test, predicate (.group .and (comparisons.map .leaf)) = .ok test ∧
      ∀ document, test document = true ↔ ∀ c ∈ comparisons, c.holds document = true := by
  have hleaves : (Condition.group .and (comparisons.map .leaf)).leaves = comparisons := by
    rw [Condition.leaves_group, List.flatMap_map]
    exact List.flatMap_singleton' comparisons
  obtain ⟨test, htest, means⟩ := predicate_ok (hleaves.symm ▸ hvalid)
  refine ⟨test, htest, fun document => ?_⟩
  rw [means, Condition.accepts_and, List.all_map, List.all_eq_true]
  exact Iff.rfl

/-- **An entity that is forced on a request is equality with it.** This fails exactly if a
property is incomparable. Otherwise there is one comparison for every property, in their order;
the test accepts the documents that agree with the entity in every property, and the entity is one
of them. -/
theorem predicate_requireEntity {members : Json.Members} (hwell : (Json.obj members).WellFormed)
    (hfinite : ∀ n ∈ (Json.obj members).numbers, n.IsFinite) :
    ((∃ e, requireEntity {} .root members = .error e) ↔
      ∃ property ∈ Json.memberProperties members, property.2.Incomparable) ∧
    ∀ r, requireEntity {} .root members = .ok r →
      ∃ comparisons test,
        List.Forall₂ (fun property c => demand? ⟨property.1⟩ property.2 = some c)
          (Json.memberProperties members) comparisons ∧
        r = { condition := .group .and (comparisons.map .leaf) } ∧
        predicate r.condition = .ok test ∧
        (∀ document, test document = true ↔ ∀ property ∈ Json.memberProperties members,
          document.AgreesAt ⟨property.1⟩ property.2) ∧
        test (.obj members) = true := by
  refine ⟨requireEntity_error_iff, fun r h => ?_⟩
  have hcomparable : ∀ property ∈ Json.memberProperties members, ¬ property.2.Incomparable := by
    intro property hmem hincomparable
    obtain ⟨e, he⟩ := requireEntity_error_iff.2 ⟨property, hmem, hincomparable⟩
    cases h.symm.trans he
  rw [requireEntity_eq_foldlM,
    foldlM_requireValue_eq_ok_iff Json.isObject_of_mem_memberProperties] at h
  obtain ⟨comparisons, hcomparisons, rfl⟩ := h
  have hr : requireAll {} comparisons = { condition := .group .and (comparisons.map .leaf) } :=
    requireAll_eq [] rfl
  have hvalid : ∀ c ∈ comparisons, c.validate = .ok () :=
    (forall_mem_iff_of_forall₂ hcomparisons fun _ _ _ h => iff_of_true trivial h.2).1
      fun _ _ => trivial
  obtain ⟨test, htest, means⟩ := predicate_comparisons hvalid
  -- Every property is found at its path, and its numbers are those of the entity.
  have hfound : ∀ property ∈ Json.memberProperties members,
      (Json.obj members).atPath? ⟨property.1⟩ = some property.2 := fun property hmem =>
    ((Json.mem_properties_iff hwell).1 hmem).1
  have hnumbers : ∀ property ∈ Json.memberProperties members,
      ∀ n ∈ property.2.numbers, n.IsFinite := fun property hmem n hn =>
    hfinite n (Json.numbers_of_at? (hfound property hmem) hn)
  have hagrees : ∀ document, test document = true ↔ ∀ property ∈ Json.memberProperties members,
      document.AgreesAt ⟨property.1⟩ property.2 := by
    intro document
    rw [means]
    refine (forall_mem_iff_of_forall₂ hcomparisons fun property hmem c h => ?_).symm
    exact (holds_of_demand? h.1 (hnumbers property hmem) document).symm
  refine ⟨comparisons, test, hcomparisons.imp fun _ _ h => h.1, hr, hr ▸ htest, hagrees, ?_⟩
  exact (hagrees _).2 fun property hmem => Json.agreesAt_of_atPath? (hfound property hmem)
    (Json.isObject_of_mem_memberProperties property hmem) (hcomparable property hmem)
    (hnumbers property hmem)

/-- The largest whole number without a sign. -/
def largest : Json := .ofUInt64 18446744073709551615

/-- An entity with an object inside, a name with a dot, a number beyond 63 bits and a list. -/
def account : Json.Members :=
  [("owner", .obj [("id", largest), ("a.b", .null)]), ("tags", .arr [.str "new", .null])]

/-- What has no `a.b` and one of the tags is accepted, as the entity itself is. -/
theorem predicate_requireEntity_account :
    (Json.obj account).WellFormed ∧ (∀ n ∈ (Json.obj account).numbers, n.IsFinite) ∧
      ∃ r test, requireEntity {} .root account = .ok r ∧
        r.condition.leaves.map (·.path) = [⟨["owner", "id"]⟩, ⟨["owner", "a.b"]⟩, ⟨["tags"]⟩] ∧
        predicate r.condition = .ok test ∧ test (.obj account) = true ∧
        test (.obj [("owner", .obj [("id", largest)]), ("tags", .str "new")]) = true := by
  have hwell : (Json.obj account).WellFormed :=
    ⟨by decide, ⟨by decide, trivial, trivial, trivial⟩, ⟨trivial, trivial, trivial⟩, trivial⟩
  have hfinite : ∀ n ∈ (Json.obj account).numbers, n.IsFinite := List.forall_mem_singleton.2 trivial
  obtain ⟨r, hr⟩ : ∃ r, requireEntity {} .root account = .ok r := ⟨_, rfl⟩
  obtain ⟨comparisons, test, -, -, htest, means, hself⟩ :=
    (predicate_requireEntity hwell hfinite).2 r hr
  have hid : largest.compare? largest = some .eq :=
    Json.compare?_self rfl (List.forall_mem_singleton.2 trivial)
  refine ⟨hwell, hfinite, r, test, hr, ?_, htest, hself, (means _).2 ?_⟩
  · cases hr
    rfl
  · refine List.forall_mem_cons.2 ⟨hid, List.forall_mem_cons.2 ⟨rfl, ?_⟩⟩
    refine List.forall_mem_singleton.2 ?_
    exact ⟨.str "new", rfl, .str "new", List.mem_cons_self, .inl (by simp [Json.compare?])⟩

end Memory

end StoreQuery
