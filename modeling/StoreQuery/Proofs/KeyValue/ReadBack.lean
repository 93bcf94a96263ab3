import Mathlib.Data.List.OfFn
import StoreQuery.KeyValue.Query
import StoreQuery.Proofs.Dict
import StoreQuery.Proofs.Request.Stored

/-!
# Queries read back

A query of a key-value store is written as an object that has no members for the parts that the
query does not have, and none for a dictionary of names or values that is empty. Reading finds each
part where it was written, and takes a part that is not there to be absent, or a dictionary to be
empty (`Query.fields?_encode`).

**Every query is read back as it was** (`Query.decode?_encode`), whichever parts it has and however
deep its attributes are, so no two queries are written alike. The call that a query is can be told
from the members that it is written with (`Query.callOf_encode`).
-/

namespace StoreQuery

namespace KeyValue

/-! ## Attributes -/

namespace Attribute

variable {α : Type} {keys keys' : List String}

theorem map_congr {sorted : keys.Pairwise (· < ·)} {sorted' : keys'.Pairwise (· < ·)}
    {value : Fin keys.length → Attribute} {value' : Fin keys'.length → Attribute}
    (hkeys : keys = keys') (hvalue : ∀ i h h', value ⟨i, h⟩ = value' ⟨i, h'⟩) :
    map keys sorted value = map keys' sorted' value' := by
  subst hkeys
  congr
  funext i
  exact hvalue i i.isLt i.isLt

theorem keys_entriesOf (keys : List String) (value : Fin keys.length → α) :
    (entriesOf keys value).map (·.1) = keys := by
  rw [entriesOf, List.map_ofFn]
  exact List.ofFn_get keys

/-- Every map is that of its entries. -/
theorem ofDict_entriesOf (sorted : keys.Pairwise (· < ·)) (value : Fin keys.length → Attribute) :
    ofDict (.ofList (entriesOf keys value)) = map keys sorted value := by
  have hsorted : (entriesOf keys value).Pairwise fun a b => a.1 < b.1 := by
    refine List.pairwise_map.1 (?_ : ((entriesOf keys value).map (·.1)).Pairwise (· < ·))
    rwa [keys_entriesOf]
  have hdict : Dict.ofList (entriesOf keys value) = ⟨entriesOf keys value, hsorted⟩ :=
    Dict.ofList_entries ⟨entriesOf keys value, hsorted⟩
  rw [hdict]
  refine map_congr (keys_entriesOf keys value) fun i h h' => ?_
  simp only [entriesOf, List.get_ofFn]
  rfl

theorem decodeEntries?_map {entries : List (String × Attribute)}
    (h : ∀ e ∈ entries, decode? e.2.encode = some e.2) :
    decodeEntries? (entries.map fun e => (e.1, e.2.encode)) = some entries := by
  induction entries with
  | nil => rfl
  | cons e entries ih =>
    obtain ⟨he, hentries⟩ := List.forall_mem_cons.1 h
    rw [List.map_cons, decodeEntries?, he, ih hentries]
    rfl

mutual

/-- **Every attribute is read back**, however deep its lists and maps are. -/
theorem decode?_encode : ∀ a : Attribute, decode? a.encode = some a
  | .text s => by simp [encode, decode?, decodeAs?]
  | .number digits => by simp [encode, decode?, decodeAs?]
  | .bool b => by simp [encode, decode?, decodeAs?]
  | .null b => by simp [encode, decode?, decodeAs?]
  | .list items => by
    have hitems := decodeItems?_encodeItems items
    simp [encode, decode?, decodeAs?, hitems]
  | .map keys sorted value => by
    have hvalues : ∀ i, decode? (value i).encode = some (value i) := fun i =>
      decode?_encode (value i)
    have hentries : decodeEntries? (entriesOf keys fun i => (value i).encode) =
        some (entriesOf keys value) := by
      have hmap : decodeEntries? ((entriesOf keys value).map fun e => (e.1, e.2.encode)) =
          some (entriesOf keys value) := decodeEntries?_map (List.forall_mem_ofFn_iff.2 hvalues)
      rw [entriesOf, List.map_ofFn] at hmap
      exact hmap
    simp [encode, decode?, decodeAs?, hentries, ofDict_entriesOf sorted value]

theorem decodeItems?_encodeItems : ∀ items : List Attribute,
    decodeItems? (encodeItems items) = some items
  | [] => rfl
  | a :: rest => by
    rw [encodeItems, decodeItems?, decode?_encode a, decodeItems?_encodeItems rest]
    rfl

end

end Attribute

theorem Item.decode?_encode (item : Item) : decode? item.encode = some item := by
  rw [encode, decode?, Dict.mapValues, Attribute.decodeEntries?_map fun e _ => e.2.decode?_encode,
    Option.map_some, Dict.ofList_entries]

theorem Selection.ofName?_name (s : Selection) : ofName? s.name = some s := by
  cases s <;> decide

namespace Query

/-! ## Dictionaries -/

theorem decodeNames?_encodeNames (names : Dict String) :
    decodeNames? (encodeNames names) = some names := by
  have hentries : names.entries.mapM (m := Option) some = some names.entries := by
    simpa using List.mapM_pure (m := Option) (l := names.entries) (f := id)
  rw [encodeNames, decodeNames?, List.mapM_map]
  show (names.entries.mapM (m := Option) some).map Dict.ofList = some names
  rw [hentries, Option.map_some, Dict.ofList_entries]

/-- A dictionary that may be left out is found again: what is left out is empty. -/
theorem withDefault?_unlessEmpty {α : Type} {write : Dict α → Json} {read? : Json → Option (Dict α)}
    (h : ∀ d, read? (write d) = some d) (d : Dict α) :
    Json.withDefault? .empty read? (unlessEmpty write d) = some d := by
  rw [unlessEmpty]
  by_cases hempty : d.isEmpty = true
  · rw [if_pos hempty]
    exact congrArg some (Dict.ext (List.isEmpty_iff.1 hempty).symm)
  · rw [if_neg hempty]
    exact h d

/-! ## Queries -/

/-- Every part of a query is found, whichever others have been left out. -/
theorem fields?_encode (q : Query) :
    Json.fields? [.needed "TableName", .needed "Key", .needed "KeyConditionExpression",
      .needed "FilterExpression", .needed "ProjectionExpression",
      .spare "ExpressionAttributeNames", .spare "ExpressionAttributeValues", .needed "Limit",
      .needed "ScanIndexForward", .needed "Select", .needed "ExclusiveStartKey"] q.encode =
    some [some (.str q.tableName), q.key.map Item.encode, q.keyCondition.map .str,
      q.filter.map .str, q.projection.map .str, unlessEmpty encodeNames q.names,
      unlessEmpty Item.encode q.values, q.limit.map .ofUInt64, q.scanForward.map .bool,
      q.select.map fun s => .str s.name, q.startKey.map Item.encode] := by
  simp [Json.fields?, encode, Json.Field.needed, Json.Field.spare, Dict.lookup_cons_eq,
    Json.lookup_optional, Json.lookup_optional_append]

theorem decode?_encode (q : Query) : decode? q.encode = some q := by
  have hitem : ∀ item, Json.nullable? Item.decode? (Item.encode item) = some (some item) := by
    intro item
    show (Item.decode? (Item.encode item)).map some = _
    rw [Item.decode?_encode, Option.map_some]
  have htext : ∀ s, Json.nullable? Json.asText? (.str s) = some (some s) := fun _ => rfl
  have hbool : ∀ b, Json.nullable? Json.bool? (.bool b) = some (some b) := fun _ => rfl
  have hselect : ∀ s : Selection,
      Json.nullable? (Json.choice? Selection.ofName?) (.str s.name) = some (some s) := by
    intro s
    show (Selection.ofName? s.name).map some = _
    rw [s.ofName?_name, Option.map_some]
  have htable : Json.required? Json.asText? (some (.str q.tableName)) = some q.tableName := rfl
  rw [decode?, fields?_encode]
  simp only [Option.bind_eq_bind, Option.bind_some, htable, Json.optional?_map hitem,
    Json.optional?_map htext, Json.optional?_map hbool, Json.optional?_map hselect,
    Json.optional?_map Json.nullable?_ofUInt64, withDefault?_unlessEmpty decodeNames?_encodeNames,
    withDefault?_unlessEmpty Item.decode?_encode]

theorem encode_injective : Function.Injective encode := by
  intro q q' h
  rw [← Option.some_inj, ← q.decode?_encode, h, decode?_encode]

/-- The call that a written query is, by the members that it has. -/
def callOf : Json → QueryKind
  | .obj members =>
    if (members.lookup "Key").isSome then .getItem
    else if (members.lookup "KeyConditionExpression").isSome then .query
    else .scan
  | _ => .scan

theorem callOf_encode (q : Query) : callOf q.encode = q.kind := by
  simp [callOf, encode, kind, Dict.lookup_cons_eq, Json.lookup_optional,
    Json.lookup_optional_append]

/-- **Queries survive being written.** A query is read back as it was, so it is the same call again,
and this call shows already in the members that are written. -/
theorem readBack (q : Query) :
    decode? q.encode = some q ∧ (decode? q.encode).map kind = some q.kind ∧
      callOf q.encode = q.kind := by
  have hread := q.decode?_encode
  refine ⟨hread, ?_, q.callOf_encode⟩
  rw [hread, Option.map_some]

end Query

end KeyValue

end StoreQuery
