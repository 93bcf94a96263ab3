import StoreQuery.Proofs.KeyValue.Walk
import StoreQuery.Proofs.Text.Split

/-!
# Which leaves become the key

A leaf can be a part of the key only where no OR stands above it. The partition leaf is the first
such equality on the partition key, the sort leaf the first such constraint on the sort key, and
all the rest are other leaves.

**Taking key parts takes these two leaves and keeps the others** (`split_true`), if the two keys
differ. So a pass knows the value of the partition leaf (`Passed.partition`) and the sort leaf
(`Passed.sort`), and filters by the other leaves (`Passed.filters_others`).
-/

namespace StoreQuery.KeyValue

/-! ## The leaves of a key -/

/-- A leaf without an OR above it that fixes the partition key. -/
def fixesPartition (t : Table) (leaf : Comparison × Bool) : Bool :=
  leaf.2 && leaf.1.path == t.partitionPath && leaf.1.operator == .eq

/-- A leaf without an OR above it that constrains the sort key. -/
def constrainsSort (t : Table) (leaf : Comparison × Bool) : Bool :=
  leaf.2 && t.sortPath == some leaf.1.path && constrainsSortKey leaf.1.operator

/-- The first leaf that fixes the partition key. -/
def partitionLeaf (t : Table) (condition : Condition) : Option Comparison :=
  ((condition.marked true).find? (fixesPartition t)).map (·.1)

/-- The first leaf that constrains the sort key. -/
def sortLeaf (t : Table) (condition : Condition) : Option Comparison :=
  ((condition.marked true).find? (constrainsSort t)).map (·.1)

/-- All leaves but those two, in document order. -/
def otherLeaves (t : Table) (condition : Condition) : List Comparison :=
  (((condition.marked true).eraseP (fixesPartition t)).eraseP (constrainsSort t)).map (·.1)

variable {t : Table} {keys : Keys} {leaves : List (Comparison × Bool)}

/-- No leaf is on both keys of a table whose keys differ. -/
theorem constrainsSort_of_fixesPartition (hkeys : t.sortKey ≠ some t.partitionKey)
    {leaf : Comparison × Bool} (h : fixesPartition t leaf = true) :
    constrainsSort t leaf = false := by
  simp only [fixesPartition, Bool.and_eq_true, beq_iff_eq] at h
  have hpath : t.sortPath ≠ some leaf.1.path := by
    rw [h.1.2, Table.sortPath]
    intro hsame
    obtain ⟨key, hkey, hpath⟩ := Option.map_eq_some_iff.1 hsame
    exact hkeys (hkey.trans (congrArg some (Path.ofText_injective hpath)))
  rw [constrainsSort, beq_eq_false_iff_ne.2 hpath, Bool.and_false, Bool.false_and]

theorem isSome_asScalar? {c : Comparison} (hvalid : c.validate = .ok ()) (hop : c.operator = .eq) :
    c.value.asScalar?.isSome = true := by
  rw [Comparison.validate, hop] at hvalid
  cases hvalue : c.value with
  | one value => rfl
  | many values => rw [hvalue] at hvalid; cases hvalid

theorem eq_one_of_asScalar? {operand : Operand} {value : Scalar}
    (h : operand.asScalar? = some value) : operand = .one value := by
  cases operand with
  | one scalar => rw [Option.some.inj h]
  | many scalars => cases h

theorem takeKey?_eq {leaf : Comparison × Bool} (hvalid : leaf.1.validate = .ok ()) :
    (if true && leaf.2 then takeKey? t keys leaf.1 else none) =
      if fixesPartition t leaf && keys.partition.isNone then
        some { keys with partition := leaf.1.value.asScalar? }
      else if constrainsSort t leaf && keys.sort.isNone then some { keys with sort := some leaf.1 }
      else none := by
  have hscalar := isSome_asScalar? hvalid
  cases htop : leaf.2 with
  | false => simp [fixesPartition, constrainsSort, htop]
  | true =>
    rw [if_pos (Bool.and_self true), takeKey?, fixesPartition, constrainsSort, htop]
    refine if_congr ?_ rfl (if_congr ?_ rfl rfl)
    · simp only [Bool.true_and, Bool.and_eq_true, beq_iff_eq, Option.isNone_iff_eq_none]
      exact ⟨fun ⟨hpath, hop, hnone, _⟩ => ⟨⟨hpath, hop⟩, hnone⟩,
        fun ⟨⟨hpath, hop⟩, hnone⟩ => ⟨hpath, hop, hnone, hscalar hop⟩⟩
    · simp only [Bool.true_and, Bool.and_eq_true, beq_iff_eq, and_assoc]

theorem split_false : split t false keys leaves = (keys, leaves.map (·.1)) := by
  induction leaves with
  | nil => rfl
  | cons leaf leaves ih =>
    simp only [split, Bool.false_and, Bool.false_eq_true, if_false, ih, List.map_cons]

/-- The leaves without the first one that passes a test, if it is wanted. -/
def without (wanted : Bool) (test : Comparison × Bool → Bool)
    (leaves : List (Comparison × Bool)) : List (Comparison × Bool) :=
  if wanted then leaves.eraseP test else leaves

section Without

variable {wanted : Bool} {test : Comparison × Bool → Bool} {leaf : Comparison × Bool}

theorem without_false : without false test leaves = leaves := rfl

theorem without_cons_of_pos (h : test leaf = true) :
    without true test (leaf :: leaves) = leaves := by
  rw [without, if_pos rfl, List.eraseP_cons_of_pos h]

theorem without_cons_of_neg (h : test leaf = false) :
    without wanted test (leaf :: leaves) = leaf :: without wanted test leaves := by
  cases wanted with
  | false => rfl
  | true => exact List.eraseP_cons_of_neg (by simp [h])

end Without

/-- **Each key part is the first leaf of its kind, and the others stay.** -/
theorem split_true (hkeys : t.sortKey ≠ some t.partitionKey) (keys : Keys)
    (hvalid : ∀ leaf ∈ leaves, leaf.1.validate = .ok ()) :
    (split t true keys leaves).1.partition =
        keys.partition.or ((leaves.find? (fixesPartition t)).bind fun l => l.1.value.asScalar?) ∧
      (split t true keys leaves).1.sort =
        keys.sort.or ((leaves.find? (constrainsSort t)).map (·.1)) ∧
      (split t true keys leaves).2 =
        (without keys.sort.isNone (constrainsSort t)
          (without keys.partition.isNone (fixesPartition t) leaves)).map (·.1) := by
  induction leaves generalizing keys with
  | nil => simp [split, without]
  | cons leaf leaves ih =>
    obtain ⟨hleaf, hleaves⟩ := List.forall_mem_cons.1 hvalid
    obtain ⟨partition, sort⟩ := keys
    simp only [split, takeKey?_eq hleaf]
    cases hfixes : fixesPartition t leaf with
    | true =>
      -- A leaf on the partition key is none on the sort key.
      have hsort := constrainsSort_of_fixesPartition hkeys hfixes
      obtain ⟨-, hop⟩ := (Bool.and_eq_true _ _).mp hfixes
      obtain ⟨value, hvalue⟩ :=
        Option.isSome_iff_exists.1 (isSome_asScalar? hleaf (beq_iff_eq.1 hop))
      cases partition with
      | none => simp [ih _ hleaves, hfixes, hsort, hvalue, without_cons_of_pos, without_false]
      | some other => simp [ih _ hleaves, hfixes, hsort, without_false, without_cons_of_neg]
    | false =>
      cases hsort : constrainsSort t leaf with
      | false => simp [ih _ hleaves, hfixes, hsort, without_cons_of_neg]
      | true =>
        cases sort with
        | none => simp [ih _ hleaves, hfixes, hsort, without_cons_of_neg, without_cons_of_pos,
            without_false]
        | some other => simp [ih _ hleaves, hfixes, hsort, without_false, without_cons_of_neg]

theorem partitionLeaf_spec {condition : Condition} {p : Comparison}
    (h : partitionLeaf t condition = some p) :
    p ∈ condition.leaves ∧ p.path = t.partitionPath ∧ p.operator = .eq := by
  obtain ⟨leaf, hfind, rfl⟩ := Option.map_eq_some_iff.1 h
  have hfixes := List.find?_some hfind
  simp only [fixesPartition, Bool.and_eq_true, beq_iff_eq] at hfixes
  refine ⟨?_, hfixes.1.2, hfixes.2⟩
  rw [← condition.marked_leaves true]
  exact List.mem_map_of_mem (List.mem_of_find?_eq_some hfind)

theorem sortLeaf_spec {condition : Condition} {s : Comparison}
    (h : sortLeaf t condition = some s) :
    s ∈ condition.leaves ∧ t.sortKey = some s.path.toText := by
  obtain ⟨leaf, hfind, rfl⟩ := Option.map_eq_some_iff.1 h
  have hconstrains := List.find?_some hfind
  simp only [constrainsSort, Bool.and_eq_true, beq_iff_eq] at hconstrains
  obtain ⟨key, hkey, hpath⟩ := Option.map_eq_some_iff.1 hconstrains.1.2
  refine ⟨?_, by rw [hkey, ← hpath, Path.toText_ofText]⟩
  rw [← condition.marked_leaves true]
  exact List.mem_map_of_mem (List.mem_of_find?_eq_some hfind)

namespace Passed

variable {base : Query} {r : Request} {p : Progress}

theorem validate_leaf {taking : Bool} (h : Passed t taking base r p) {c : Comparison}
    (hc : c ∈ r.condition.leaves) : c.validate = .ok () := by
  rw [← r.condition.marked_leaves true] at hc
  obtain ⟨leaf, hleaf, rfl⟩ := List.mem_map.1 hc
  exact h.valid leaf hleaf

/-- A pass that takes no key parts filters by every leaf. -/
theorem filters_all (h : Passed t false base r p) : p.query.Filters r.condition.leaves := by
  have hfilters := h.filters
  rwa [split_false, Condition.marked_leaves] at hfilters

theorem partition (hkeys : t.sortKey ≠ some t.partitionKey) (h : Passed t true base r p) :
    p.keys.partition = (partitionLeaf t r.condition).bind fun c => c.value.asScalar? := by
  rw [h.keys, (split_true hkeys {} h.valid).1, partitionLeaf, Option.none_or, Option.bind_map]
  rfl

theorem sort (hkeys : t.sortKey ≠ some t.partitionKey) (h : Passed t true base r p) :
    p.keys.sort = sortLeaf t r.condition := by
  rw [h.keys, (split_true hkeys {} h.valid).2.1, sortLeaf, Option.none_or]

theorem filters_others (hkeys : t.sortKey ≠ some t.partitionKey) (h : Passed t true base r p) :
    p.query.Filters (otherLeaves t r.condition) := by
  have hfilters := h.filters
  rwa [(split_true hkeys {} h.valid).2.2] at hfilters

theorem partition_eq_none_iff (hkeys : t.sortKey ≠ some t.partitionKey)
    (h : Passed t true base r p) :
    p.keys.partition = none ↔ partitionLeaf t r.condition = none := by
  rw [h.partition hkeys]
  cases hleaf : partitionLeaf t r.condition with
  | none => simp
  | some c =>
    obtain ⟨hmem, -, hop⟩ := partitionLeaf_spec hleaf
    have hscalar := isSome_asScalar? (h.validate_leaf hmem) hop
    simp [Option.isSome_iff_ne_none.1 hscalar]

theorem partition_ne_none (hkeys : t.sortKey ≠ some t.partitionKey) (h : Passed t true base r p)
    {c : Comparison} (hleaf : partitionLeaf t r.condition = some c) : p.keys.partition ≠ none := by
  rw [Ne, h.partition_eq_none_iff hkeys, hleaf]
  exact nofun

/-- The partition leaf compares with the value that a pass takes. -/
theorem partition_value (hkeys : t.sortKey ≠ some t.partitionKey) (h : Passed t true base r p)
    {c : Comparison} {value : Scalar} (hleaf : partitionLeaf t r.condition = some c)
    (hvalue : p.keys.partition = some value) : c.value = .one value := by
  rw [h.partition hkeys, hleaf] at hvalue
  exact eq_one_of_asScalar? hvalue

end Passed

theorem otherLeaves_of_none {condition : Condition} (hp : partitionLeaf t condition = none)
    (hs : sortLeaf t condition = none) : otherLeaves t condition = condition.leaves := by
  rw [partitionLeaf, Option.map_eq_none_iff, List.find?_eq_none] at hp
  rw [sortLeaf, Option.map_eq_none_iff, List.find?_eq_none] at hs
  rw [otherLeaves, List.eraseP_of_forall_not hp, List.eraseP_of_forall_not hs,
    Condition.marked_leaves]

end StoreQuery.KeyValue
