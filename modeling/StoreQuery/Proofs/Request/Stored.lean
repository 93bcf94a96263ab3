import StoreQuery.Dict
import StoreQuery.Request.Basic

/-!
# Stored requests

A request that was written as JSON can be read again. JSON has no dates, and no numbers that are not
finite, so a date comes back as its text and such a number as null (`Scalar.stored`). All else comes
back as it was. So **what comes back is written as the same value, and is the same request exactly
if it has no such scalar** (`encode_stable`).

Nothing tells what a condition was written from. It is read as an AND, or else as an OR, or else as
a leaf, and comes back as what it was because the members that tell them apart have names of their
own.
-/

namespace StoreQuery

/-! ## Readers -/

namespace Json

section Lists

variable {α β : Type} {read? : Json → Option β} {write : α → Json}

/-- Items that come back one by one come back as a list. -/
theorem mapM_map {stored : α → β} (h : ∀ a, read? (write a) = some (stored a)) (items : List α) :
    (items.map write).mapM read? = some (items.map stored) := by
  induction items with
  | nil => rfl
  | cons a items ih =>
    rw [List.map_cons, List.mapM_cons, h, ih]
    rfl

/-- A list comes back as it was if its items do. -/
theorem list?_map {read? : Json → Option α} (h : ∀ a, read? (write a) = some a) (items : List α) :
    list? read? (.arr (items.map write)) = some items := by
  have hitems : (items.map write).mapM read? = some (items.map id) := mapM_map h items
  rwa [List.map_id] at hitems

/-- A value that may be left out comes back as it was if it is never null. -/
theorem optional?_map {read? : Json → Option α}
    (h : ∀ a, nullable? read? (write a) = some (some a)) (value : Option α) :
    optional? read? (value.map write) = some value := by
  cases value with
  | none => rfl
  | some a => exact h a

end Lists

theorem nullable?_ofUInt64 (n : UInt64) : nullable? word? (.ofUInt64 n) = some (some n) := by
  simp [nullable?, word?, ofUInt64, Whole.toUInt64?, Whole.ofUInt64]

/-- Members behind one that may be left out are found, whether it is there or not. -/
theorem lookup_optional_append (name : String) (value : Option Json) (rest : Members)
    (other : String) : (optional name value ++ rest).lookup other =
      if other = name then value.or (rest.lookup other) else rest.lookup other := by
  cases value with
  | none => simp [optional]
  | some value => exact Dict.lookup_cons_eq name value rest other

theorem lookup_optional (name : String) (value : Option Json) (other : String) :
    (optional name value).lookup other = if other = name then value else none := by
  simpa using lookup_optional_append name value [] other

end Json

/-- A list is as it was exactly if every item is. -/
theorem map_eq_self_iff {α : Type} {f : α → α} {xs : List α} :
    xs.map f = xs ↔ ∀ x ∈ xs, f x = x := by
  simpa using List.map_inj_left (f := f) (g := id) (l := xs)

/-! ## Scalars and operands -/

namespace Scalar

/-- What comes back of a scalar. -/
def stored : Scalar → Scalar
  | .date t => .text t.zoneText
  | .float x => if x.isFinite then .float x else .null
  | scalar => scalar

/-- The scalar is no date, and if it is a number then a finite one. -/
def Lasts : Scalar → Prop
  | .date _ => False
  | .float x => x.isFinite = true
  | _ => True

theorem ofNumber_ofInt64 (i : Int64) : ofNumber (.whole (.ofInt64 i)) = .int i := by
  have hle : i.toInt ≤ Int64.maxValue.toInt := by
    have := i.toInt_lt
    have hmax : Int64.maxValue.toInt = 2 ^ 63 - 1 := by decide
    omega
  simp [ofNumber, Whole.toInt64?, Whole.ofInt64, hle]

theorem ofJson?_encode (s : Scalar) : ofJson? s.encode = some s.stored := by
  cases s with
  | null | bool | text | date => rfl
  | int i => exact congrArg some (ofNumber_ofInt64 i)
  | float x =>
    show ofJson? (.ofDouble x) = _
    rw [Json.ofDouble, stored]
    split <;> rfl

theorem encode_stored (s : Scalar) : s.stored.encode = s.encode := by
  cases s with
  | null | bool | int | text | date => rfl
  | float x =>
    rw [stored]
    split
    · rfl
    · rename_i hinfinite
      exact (if_neg hinfinite).symm

theorem stored_eq_self_iff {s : Scalar} : s.stored = s ↔ s.Lasts := by
  cases s <;> simp [stored, Lasts]

end Scalar

namespace Operand

/-- What comes back of an operand. -/
def stored : Operand → Operand
  | .one s => .one s.stored
  | .many values => .many (values.map Scalar.stored)

/-- Every scalar of the operand lasts. -/
def Lasts : Operand → Prop
  | .one s => s.Lasts
  | .many values => ∀ s ∈ values, s.Lasts

/-- A scalar is never written as an array. -/
theorem ofJson?_scalar (s : Scalar) : ofJson? s.encode = (Scalar.ofJson? s.encode).map .one := by
  cases s with
  | null | bool | int | text | date => rfl
  | float x =>
    show ofJson? (.ofDouble x) = (Scalar.ofJson? (.ofDouble x)).map .one
    rw [Json.ofDouble]
    split <;> rfl

theorem ofJson?_encode (v : Operand) : ofJson? v.encode = some v.stored := by
  cases v with
  | one s =>
    rw [encode, ofJson?_scalar, s.ofJson?_encode]
    rfl
  | many values =>
    rw [encode, ofJson?, Json.mapM_map Scalar.ofJson?_encode]
    rfl

theorem encode_stored (v : Operand) : v.stored.encode = v.encode := by
  cases v with
  | one s => exact s.encode_stored
  | many values => simp [stored, encode, Scalar.encode_stored]

theorem stored_eq_self_iff {v : Operand} : v.stored = v ↔ v.Lasts := by
  cases v with
  | one s => simp [stored, Lasts, Scalar.stored_eq_self_iff]
  | many values => simp [stored, Lasts, map_eq_self_iff, Scalar.stored_eq_self_iff]

end Operand

/-! ## Conditions -/

theorem Path.decode?_encode (p : Path) : decode? p.encode = some p := by
  have hsegments : Json.list? Json.asText? p.encode = some p.segments :=
    Json.list?_map (fun s => (rfl : Json.asText? (.str s) = some s)) p.segments
  rw [decode?, hsegments]
  rfl

theorem Operator.decode?_encode (op : Operator) : decode? op.encode = some op := by
  cases op <;> rfl

namespace Comparison

/-- What comes back of a comparison. -/
def stored (c : Comparison) : Comparison := { c with value := c.value.stored }

theorem decode?_encode (c : Comparison) : decode? c.encode = some c.stored := by
  have hfields : Json.fields? [.needed "field", .needed "operator", .spare "value"] c.encode =
      some [some c.path.encode, some c.operator.encode, some c.value.encode] := rfl
  rw [decode?, hfields]
  simp only [Option.bind_eq_bind, Option.bind_some, Json.required?, Json.withDefault?,
    Path.decode?_encode, Operator.decode?_encode, Operand.ofJson?_encode]
  rfl

theorem encode_stored (c : Comparison) : c.stored.encode = c.encode := by
  rw [encode, encode, stored, c.value.encode_stored]

theorem stored_eq_self_iff {c : Comparison} : c.stored = c ↔ c.value.Lasts := by
  rw [← Operand.stored_eq_self_iff]
  obtain ⟨path, op, value⟩ := c
  simp [stored]

end Comparison

namespace Condition

mutual

/-- What comes back of a condition. -/
def stored : Condition → Condition
  | .leaf c => .leaf c.stored
  | .group k members => .group k (storedAll members)

/-- What comes back of a list of conditions. -/
def storedAll : List Condition → List Condition
  | [] => []
  | condition :: rest => stored condition :: storedAll rest

end

/-- A leaf is not taken for a bracket. -/
theorem decode?_leaf (c : Comparison) :
    decode? c.encode = (Comparison.decode? c.encode).map .leaf := rfl

/-- A bracket is taken for the one that it is. -/
theorem decode?_group (k : Connective) (members : List Json) :
    decode? (.obj [(keyOf k, .arr members)]) = (decodeAll? members).map (.group k) := by
  cases k with
  | and =>
    have hread : decode? (.obj [(keyOf .and, .arr members)]) =
        firstOf ((decodeAll? members).map (Condition.group .and)) none := rfl
    rw [hread]
    cases decodeAll? members <;> rfl
  | or =>
    have hread : decode? (.obj [(keyOf .or, .arr members)]) =
        firstOf ((decodeAll? members).map (Condition.group .or)) none := rfl
    rw [hread]
    cases decodeAll? members <;> rfl

mutual

/-- **Every condition is read again**, however deep its brackets are. -/
theorem decode?_encode : ∀ condition : Condition, decode? condition.encode = some condition.stored
  | .leaf c => by
    rw [encode, decode?_leaf, c.decode?_encode]
    rfl
  | .group k members => by
    rw [encode, decode?_group, decodeAll?_encodeAll members]
    rfl

theorem decodeAll?_encodeAll : ∀ members : List Condition,
    decodeAll? (encodeAll members) = some (storedAll members)
  | [] => rfl
  | condition :: rest => by
    rw [encodeAll, decodeAll?, decode?_encode condition, decodeAll?_encodeAll rest]
    rfl

end

mutual

theorem encode_stored : ∀ condition : Condition, condition.stored.encode = condition.encode
  | .leaf c => c.encode_stored
  | .group k members => by
    rw [stored, encode, encode, encodeAll_storedAll members]

theorem encodeAll_storedAll : ∀ members : List Condition,
    encodeAll (storedAll members) = encodeAll members
  | [] => rfl
  | condition :: rest => by
    rw [storedAll, encodeAll, encodeAll, encode_stored condition, encodeAll_storedAll rest]

end

mutual

/-- A condition comes back as it was exactly if all its values last. -/
theorem stored_eq_self_iff : ∀ condition : Condition,
    condition.stored = condition ↔ ∀ c ∈ condition.leaves, c.value.Lasts
  | .leaf c => by simp [stored, leaves, Comparison.stored_eq_self_iff]
  | .group k members => by simp [stored, leaves, storedAll_eq_self_iff members]

theorem storedAll_eq_self_iff : ∀ members : List Condition,
    storedAll members = members ↔ ∀ c ∈ leavesOf members, c.value.Lasts
  | [] => by simp [storedAll, leavesOf]
  | condition :: rest => by
    simp [storedAll, leavesOf, stored_eq_self_iff condition, storedAll_eq_self_iff rest, or_imp,
      forall_and]

end

end Condition

/-! ## Requests -/

namespace Request

theorem decodeDirection?_text (d : Direction) : decodeDirection? (.str d.text) = some d := by
  cases d <;> rfl

theorem decodeOrder?_encode (o : Order) : decodeOrder? (encodeOrder o) = some o := by
  have hfields : Json.fields? [.needed "field", .needed "order"] (encodeOrder o) =
      some [some o.path.encode, some (.str o.direction.text)] := rfl
  rw [decodeOrder?, hfields]
  simp only [Option.bind_eq_bind, Option.bind_some, Json.required?, Path.decode?_encode,
    decodeDirection?_text]

theorem decodeRelation?_encode (relation : Relation) :
    decodeRelation? (encodeRelation relation) = some relation := by
  have hfields : Json.fields? [.needed "field", .spare "alias"] (encodeRelation relation) =
      some [some relation.path.encode, relation.aliasName.map .str] := by
    simp [Json.fields?, encodeRelation, Json.Field.needed, Json.Field.spare, Dict.lookup_cons_eq,
      Json.lookup_optional]
  rw [decodeRelation?, hfields]
  simp only [Option.bind_eq_bind, Option.bind_some, Json.required?, Path.decode?_encode,
    Json.optional?_map fun s => (rfl : Json.nullable? Json.asText? (.str s) = some (some s))]

/-- What comes back of a request. -/
def stored (r : Request) : Request := { r with condition := r.condition.stored }

/-- Every member of a request is found, whichever others have been left out. -/
theorem fields?_encode (r : Request) :
    Json.fields? [.spare "select", .spare "relations", .spare "order", .spare "where",
      .spare "limit", .spare "offset", .spare "page"] r.encode =
    some [some (.arr (r.select.map Path.encode)), some (.arr (r.relations.map encodeRelation)),
      some (.arr (r.order.map encodeOrder)), some r.condition.encode, r.limit.map .ofUInt64,
      r.offset.map .ofUInt64, r.page.map .ofUInt64] := by
  simp [Json.fields?, encode, Json.Field.spare, Dict.lookup_cons_eq, Json.lookup_optional,
    Json.lookup_optional_append]

/-- **A request is read again.** -/
theorem decode?_encode (r : Request) : decode? r.encode = some r.stored := by
  rw [decode?, fields?_encode]
  simp only [Option.bind_eq_bind, Option.bind_some, Json.withDefault?, Condition.decode?_encode,
    Json.list?_map Path.decode?_encode, Json.list?_map decodeRelation?_encode,
    Json.list?_map decodeOrder?_encode, Json.optional?_map Json.nullable?_ofUInt64]
  rfl

theorem encode_stored (r : Request) : r.stored.encode = r.encode := by
  rw [encode, encode, stored, r.condition.encode_stored]

/-- **Requests survive being stored.** A request that was written is read again and written as the
same value, and is the same request exactly if its condition has no dates and no numbers but finite
ones. -/
theorem encode_stable (r : Request) :
    ∃ r', decode? r.encode = some r' ∧ r'.encode = r.encode ∧
      (r' = r ↔ ∀ c ∈ r.condition.leaves, c.value.Lasts) := by
  refine ⟨r.stored, r.decode?_encode, r.encode_stored, ?_⟩
  rw [← Condition.stored_eq_self_iff]
  cases r
  simp [stored]

end Request

end StoreQuery
