import StoreQuery.KeyValue.Attribute
import StoreQuery.Proofs.Json.Alike
import StoreQuery.Proofs.Number.Numeral

/-!
# Values in a store and back

Numbers go into a store as texts. What comes back is a whole number if the text is one of 64 bits
with a sign, and else the nearest double.

**A value comes back with every number as the store keeps it, but for the order of members**
(`toJson_ofJson`), and an item as the object that it was made of. Doubles stay what they are, since
their texts read back and always show that they are no whole numbers. So a value comes back as it
was exactly if its whole numbers are less than `2 ^ 63`. Beyond it they come back as doubles
(`toJson_ofJson_unsigned`).
-/

namespace StoreQuery

/-! ## Numbers -/

namespace Number

/-- The number that comes back from a store. -/
def stored : Number → Number
  | .whole n => if n.val < 9223372036854775808 then .whole n else .double (.ofInt n.val)
  | .double x => .double x

theorem stored_eq_self_iff {number : Number} :
    number.stored = number ↔ ∀ n, number = .whole n → n.val < 9223372036854775808 := by
  cases number with
  | whole n =>
    rw [stored]
    split
    · rename_i hn
      exact iff_of_true rfl fun _ heq => Number.whole.inj heq ▸ hn
    · rename_i hn
      exact iff_of_false (by simp) fun h => hn (h n rfl)
  | double x => exact iff_of_true rfl fun _ heq => nomatch heq

/-- **The text of a number is read as the number that comes back.** -/
theorem numberOf_toText {number : Number} (h : number.IsFinite) :
    KeyValue.Attribute.numberOf number.toText = .num number.stored := by
  cases number with
  | whole n =>
    have hmin : Int64.minValue.toInt = -9223372036854775808 := by decide
    have hmax : Int64.maxValue.toInt = 9223372036854775807 := by decide
    have hlow := n.min_le
    have hhigh := n.lt_max
    rw [toText, KeyValue.Attribute.numberOf, Numeral.signed?_ofInt, hmin, hmax, stored]
    by_cases hn : n.val < 9223372036854775808
    · have hval : (Int64.ofInt n.val).toInt = n.val :=
        Int64.toInt_ofInt_of_le (by omega) (by omega)
      have hwhole : Whole.ofInt64 (Int64.ofInt n.val) = n := by
        cases n
        simpa [Whole.ofInt64] using hval
      rw [if_pos (by omega), if_pos hn]
      exact congrArg (fun n => Json.num (.whole n)) hwhole
    · have hfinite : (Double.ofInt n.val).isFinite = true :=
        decide_eq_true (Double.nearestRank_lt_infinityRank (by omega))
      rw [if_neg (by omega), if_neg hn, Numeral.ofText?_ofInt]
      simp only [hfinite, if_true, Json.ofDouble]
  | double x =>
    have hfinite : x.isFinite = true := h
    rw [toText, KeyValue.Attribute.numberOf, Double.signed?_toDataText h,
      Double.ofText?_toDataText h]
    simp only [hfinite, if_true, Json.ofDouble]
    rfl

end Number

namespace KeyValue

open Json (Alike mapNumbers)

/-! ## Items -/

theorem ofMembers_eq (members : Json.Members) :
    Attribute.ofMembers members = members.map fun m => (m.1, Attribute.ofJson m.2) := by
  induction members with
  | nil => rfl
  | cons m members ih => rw [Attribute.ofMembers, ih]; rfl

theorem toJson_ofDict (item : Item) : (Attribute.ofDict item).toJson = item.toJson := by
  simp only [Attribute.ofDict, Attribute.toJson, Item.toJson]
  refine congrArg Json.obj (List.ext_get ?_ fun i h h' => ?_)
  · simp [Attribute.entriesOf, Dict.mapValues, Dict.keys]
  · simp [Attribute.entriesOf, Dict.mapValues, Dict.keys]

theorem entries_ofMembers_perm {members : Json.Members} (hnames : (members.map (·.1)).Nodup) :
    ((Item.ofMembers members).mapValues Attribute.toJson).entries.Perm
      (members.map fun m => (m.1, (Attribute.ofJson m.2).toJson)) := by
  have hkeys : ((Attribute.ofMembers members).map (·.1)).Nodup := by
    rw [ofMembers_eq, List.map_map]
    exact hnames
  have hperm := (Dict.entries_ofList_perm hkeys).map fun e => (e.1, Attribute.toJson e.2)
  rw [ofMembers_eq, List.map_map] at hperm
  rw [Item.ofMembers, ofMembers_eq]
  exact hperm

/-! ## Values -/

mutual

/-- **A value comes back with its numbers as the store keeps them**, and with the members of objects
in the order of their names. -/
theorem alike_toJson_ofJson_iff : ∀ {value : Json}, value.WellFormed →
    (∀ n ∈ value.numbers, n.IsFinite) → ∀ other,
      Alike (Attribute.ofJson value).toJson other ↔ Alike (value.mapNumbers Number.stored) other
  | .null, _, _, _ | .bool _, _, _, _ | .str _, _, _, _ => Iff.rfl
  | .num _, _, hfinite, other => by
    rw [Attribute.ofJson, Attribute.toJson, Number.numberOf_toText (hfinite _ List.mem_cons_self),
      mapNumbers]
  | .arr _, hvalue, hfinite, other =>
    Json.alike_arr_congr (alikeItems_toItems_iff hvalue hfinite) other
  | .obj members, hvalue, hfinite, other => by
    rw [Attribute.ofJson, toJson_ofDict, mapNumbers, Json.mapMembers_eq]
    refine (Json.alike_obj_congr (entries_ofMembers_perm hvalue.1) other).trans ?_
    exact Json.alike_obj_map_congr (f := fun value => (Attribute.ofJson value).toJson)
      (alike_members_iff hvalue.2 hfinite) other

theorem alikeItems_toItems_iff : ∀ {items : List Json}, Json.AllWellFormed items →
    (∀ n ∈ Json.itemNumbers items, n.IsFinite) → ∀ others,
      Json.AlikeItems (Attribute.toItems (Attribute.ofItems items)) others ↔
        Json.AlikeItems (Json.mapItems Number.stored items) others
  | [], _, _, _ => Iff.rfl
  | value :: rest, hitems, hfinite, others => by
    obtain ⟨hvalue, hrest⟩ := List.forall_mem_append.1 hfinite
    rw [Attribute.ofItems, Attribute.toItems, Json.mapItems]
    cases others with
    | nil => exact Iff.rfl
    | cons other others =>
      exact and_congr (alike_toJson_ofJson_iff hitems.1 hvalue other)
        (alikeItems_toItems_iff hitems.2 hrest others)

theorem alike_members_iff : ∀ {members : List (String × Json)}, Json.MembersWellFormed members →
    (∀ n ∈ Json.memberNumbers members, n.IsFinite) → ∀ m ∈ members, ∀ other,
      Alike (Attribute.ofJson m.2).toJson other ↔ Alike (m.2.mapNumbers Number.stored) other
  | [], _, _ => nofun
  | (_, _) :: _, hmembers, hfinite => by
    obtain ⟨hvalue, hrest⟩ := List.forall_mem_append.1 hfinite
    exact List.forall_mem_cons.2 ⟨alike_toJson_ofJson_iff hmembers.1 hvalue,
      alike_members_iff hmembers.2 hrest⟩

end

/-! ## There and back -/

/-- **A value comes back with the numbers that the store keeps, and an item as the object it was
made of**: as they were exactly if all whole numbers are less than `2 ^ 63`. -/
theorem toJson_ofJson {value : Json} (hvalue : value.WellFormed)
    (hfinite : ∀ n ∈ value.numbers, n.IsFinite) :
    Alike (Attribute.ofJson value).toJson (value.mapNumbers Number.stored) ∧
    (Alike (Attribute.ofJson value).toJson value ↔
      ∀ n, .whole n ∈ value.numbers → n.val < 9223372036854775808) ∧
    ∀ members, value = .obj members →
      Alike (Item.ofMembers members).toJson (value.mapNumbers Number.stored) ∧
      (Alike (Item.ofMembers members).toJson value ↔
        ∀ n, .whole n ∈ value.numbers → n.val < 9223372036854775808) := by
  have hback := alike_toJson_ofJson_iff hvalue hfinite
  have hstored : Alike (value.mapNumbers Number.stored) (value.mapNumbers Number.stored) :=
    (Json.alike_mapNumbers_iff hvalue).2 fun _ _ => rfl
  have hsame : Alike (value.mapNumbers Number.stored) value ↔
      ∀ n, .whole n ∈ value.numbers → n.val < 9223372036854775808 := by
    have hiff := Json.alike_mapNumbers_iff (f := Number.stored) (g := id) hvalue
    rw [Json.mapNumbers_id] at hiff
    simp only [hiff, id, Number.stored_eq_self_iff]
    exact ⟨fun h n hn => h _ hn n rfl, fun h _ hn n heq => h n (heq ▸ hn)⟩
  refine ⟨(hback _).2 hstored, (hback _).trans hsame, ?_⟩
  rintro members rfl
  rw [Item.ofMembers, ← toJson_ofDict]
  exact ⟨(hback _).2 hstored, (hback _).trans hsame⟩

/-- Members with a negative zero, a text of digits and the least whole number. -/
def mixedMembers : Json.Members :=
  [("b", .arr [.num (.double ⟨true, 0⟩), .str "1"]),
    ("a", .num (.whole ⟨-9223372036854775808, by decide, by decide⟩))]

/-- These come back as they were, and in the order of their names. -/
theorem toJson_ofJson_mixed :
    (Json.obj mixedMembers).WellFormed ∧ (∀ n ∈ (Json.obj mixedMembers).numbers, n.IsFinite) ∧
      Alike (Item.ofMembers mixedMembers).toJson (.obj mixedMembers) := by
  have hvalue : (Json.obj mixedMembers).WellFormed :=
    ⟨by decide, ⟨trivial, trivial, trivial⟩, trivial, trivial⟩
  have hnumbers : (Json.obj mixedMembers).numbers =
      [.double ⟨true, 0⟩, .whole ⟨-9223372036854775808, by decide, by decide⟩] := rfl
  have hfinite : ∀ n ∈ (Json.obj mixedMembers).numbers, n.IsFinite := by
    have hzero : (⟨true, 0⟩ : Double).isFinite = true := by decide
    rw [hnumbers]
    exact List.forall_mem_cons.2 ⟨hzero, List.forall_mem_singleton.2 trivial⟩
  obtain ⟨-, -, hitem⟩ := toJson_ofJson hvalue hfinite
  refine ⟨hvalue, hfinite, (hitem mixedMembers rfl).2.2 fun n hn => ?_⟩
  rw [hnumbers] at hn
  simp only [List.mem_cons, reduceCtorEq, Number.whole.injEq, List.not_mem_nil, or_false,
    false_or] at hn
  rw [hn]
  decide

/-- The largest whole number without a sign. -/
def largest : Json := .num (.whole ⟨18446744073709551615, by decide, by decide⟩)

/-- **It comes back as a double.** -/
theorem toJson_ofJson_unsigned :
    (Attribute.ofJson largest).toJson = .num (.double (.ofInt 18446744073709551615)) ∧
      ¬ Alike (Attribute.ofJson largest).toJson largest := by
  have hback : (Attribute.ofJson largest).toJson =
      .num (.double (.ofInt 18446744073709551615)) :=
    Number.numberOf_toText trivial
  rw [hback]
  exact ⟨rfl, by simp [Alike, largest]⟩

end KeyValue

end StoreQuery
