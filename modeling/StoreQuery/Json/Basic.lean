import StoreQuery.Number.Double

/-!
# JSON values

A JSON value is a tree. The members of an object keep the order in which they were written, and
`set` gives a member a value in the place where it already stands. A number is a whole number
that fits 64 bits, with or without sign, or a finite double; the two kinds stay apart, so `1` and
`1.0` are different values.

Readers and rewriters produce objects whose member names are pairwise different; `WellFormed`
says so for every object inside a value.
-/

namespace StoreQuery

/-- A whole number that fits 64 bits, with or without a sign. -/
structure Whole where
  val : Int
  min_le : -9223372036854775808 ≤ val
  lt_max : val < 18446744073709551616
  deriving DecidableEq

namespace Whole

def ofInt? (i : Int) : Option Whole :=
  if h : -9223372036854775808 ≤ i ∧ i < 18446744073709551616 then some ⟨i, h.1, h.2⟩ else none

def ofUInt64 (n : UInt64) : Whole :=
  ⟨n.toNat, by omega, by have := n.toNat_lt; omega⟩

def ofInt64 (i : Int64) : Whole :=
  ⟨i.toInt, i.le_toInt, by have := i.toInt_lt; omega⟩

/-- The same number with a sign, if it fits. -/
def toInt64? (w : Whole) : Option Int64 :=
  if w.val ≤ Int64.maxValue.toInt then some (Int64.ofInt w.val) else none

/-- The same number without a sign, if it is not negative. -/
def toUInt64? (w : Whole) : Option UInt64 :=
  if 0 ≤ w.val then some (UInt64.ofNat w.val.toNat) else none

end Whole

/-- A JSON number. -/
inductive Number where
  | whole (n : Whole)
  | double (x : Double)
  deriving DecidableEq

/-- The double nearest to a number. -/
def Number.toDouble : Number → Double
  | .whole n => .ofInt n.val
  | .double x => x

/-- A JSON value. -/
inductive Json where
  | null
  | bool (value : Bool)
  | num (value : Number)
  | str (value : String)
  | arr (items : List Json)
  | obj (members : List (String × Json))

namespace Json

/-- The members of an object, in the order in which they are written. -/
abbrev Members := List (String × Json)

/-! ## Comparing -/

mutual

/-- Whether two values are the same, with their members in the same order. -/
def same : Json → Json → Bool
  | .null, .null => true
  | .bool a, .bool b => a == b
  | .num a, .num b => a == b
  | .str a, .str b => a == b
  | .arr items, .arr others => sameItems items others
  | .obj members, .obj others => sameMembers members others
  | _, _ => false

def sameItems : List Json → List Json → Bool
  | [], [] => true
  | value :: rest, other :: others => same value other && sameItems rest others
  | _, _ => false

def sameMembers : List (String × Json) → List (String × Json) → Bool
  | [], [] => true
  | (name, value) :: rest, (otherName, other) :: others =>
    name == otherName && same value other && sameMembers rest others
  | _, _ => false

end

mutual

theorem same_iff : ∀ value other : Json, same value other = true ↔ value = other
  | .null, other | .bool _, other | .num _, other | .str _, other => by
    cases other <;> simp [same]
  | .arr items, other => by
    cases other with
    | arr others => simp [same, sameItems_iff items others]
    | _ => simp [same]
  | .obj members, other => by
    cases other with
    | obj others => simp [same, sameMembers_iff members others]
    | _ => simp [same]

theorem sameItems_iff : ∀ items others : List Json, sameItems items others = true ↔ items = others
  | [], others => by cases others <;> simp [sameItems]
  | value :: rest, [] => by simp [sameItems]
  | value :: rest, other :: others => by
    simp [sameItems, same_iff value other, sameItems_iff rest others]

theorem sameMembers_iff : ∀ members others : List (String × Json),
    sameMembers members others = true ↔ members = others
  | [], others => by cases others <;> simp [sameMembers]
  | _ :: _, [] => by simp [sameMembers]
  | (_, value) :: rest, (_, other) :: others => by
    simp [sameMembers, same_iff value other, sameMembers_iff rest others, and_assoc]

end

instance : DecidableEq Json := fun value other =>
  decidable_of_iff (same value other = true) (same_iff value other)

/-! ## Building -/

def ofInt64 (i : Int64) : Json := .num (.whole (.ofInt64 i))

def ofUInt64 (n : UInt64) : Json := .num (.whole (.ofUInt64 n))

/-- A finite double as a number; what is not finite has no JSON form and becomes null. -/
def ofDouble (x : Double) : Json := if x.isFinite then .num (.double x) else .null

def ofStrings (items : List String) : Json := .arr (items.map .str)

/-- A member that is left out when there is no value. -/
def optional (name : String) (value : Option Json) : Members :=
  match value with
  | some value => [(name, value)]
  | none => []

/-! ## Asking -/

def isNull : Json → Bool
  | .null => true
  | _ => false

def isObject : Json → Bool
  | .obj _ => true
  | _ => false

def asText? : Json → Option String
  | .str text => some text
  | _ => none

/-- The member of an object with a given name. -/
def get? (value : Json) (name : String) : Option Json :=
  match value with
  | .obj members => members.lookup name
  | _ => none

/-- Gives a member a value, in its place if it exists and at the end otherwise. -/
def setMember (name : String) (value : Json) : Members → Members
  | [] => [(name, value)]
  | (n, v) :: rest =>
    if n = name then (n, value) :: rest else (n, v) :: setMember name value rest

/-- The members of a list of pairs; a repeated name keeps its first place and its last value. -/
def membersOf (pairs : List (String × Json)) : Members :=
  pairs.foldl (fun members (name, value) => setMember name value members) []

/-! ## Well-formed values -/

mutual

/-- Whether the member names of every object inside are pairwise different. -/
def WellFormed : Json → Prop
  | .arr items => AllWellFormed items
  | .obj members => (members.map (·.1)).Nodup ∧ MembersWellFormed members
  | _ => True

def AllWellFormed : List Json → Prop
  | [] => True
  | value :: rest => WellFormed value ∧ AllWellFormed rest

def MembersWellFormed : List (String × Json) → Prop
  | [] => True
  | (_, value) :: rest => WellFormed value ∧ MembersWellFormed rest

end

end Json

end StoreQuery
