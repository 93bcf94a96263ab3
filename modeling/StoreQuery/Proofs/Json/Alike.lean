import StoreQuery.Json.Basic
import StoreQuery.Proofs.Dict

/-!
# Values but for the order of members

The members of an object have an order in which they are written, which says nothing. Two values are
alike if they differ in such orders alone.

**Where the numbers of a value are changed in two ways, the results are alike exactly if every
number becomes the same** (`alike_mapNumbers_iff`).
-/

namespace StoreQuery

/-- A number of JSON; it is not infinite, and it is a number. -/
def Number.IsFinite : Number → Prop
  | .whole _ => True
  | .double x => x.isFinite = true

namespace Json

variable {members members' others : Members}

/-! ## Numbers -/

mutual

/-- The numbers in a value. -/
def numbers : Json → List Number
  | .num n => [n]
  | .arr items => itemNumbers items
  | .obj members => memberNumbers members
  | _ => []

def itemNumbers : List Json → List Number
  | [] => []
  | value :: rest => numbers value ++ itemNumbers rest

def memberNumbers : List (String × Json) → List Number
  | [] => []
  | (_, value) :: rest => numbers value ++ memberNumbers rest

end

mutual

/-- Changes every number in a value. -/
def mapNumbers (f : Number → Number) : Json → Json
  | .num n => .num (f n)
  | .arr items => .arr (mapItems f items)
  | .obj members => .obj (mapMembers f members)
  | value => value

def mapItems (f : Number → Number) : List Json → List Json
  | [] => []
  | value :: rest => mapNumbers f value :: mapItems f rest

def mapMembers (f : Number → Number) : List (String × Json) → List (String × Json)
  | [] => []
  | (name, value) :: rest => (name, mapNumbers f value) :: mapMembers f rest

end

theorem mapMembers_eq (f : Number → Number) (members : Members) :
    mapMembers f members = members.map fun m => (m.1, m.2.mapNumbers f) := by
  induction members with
  | nil => rfl
  | cons m members ih => rw [mapMembers, ih]; rfl

theorem lookup_mapMembers (f : Number → Number) (members : Members) (name : String) :
    (mapMembers f members).lookup name = (members.lookup name).map (mapNumbers f) := by
  induction members with
  | nil => rfl
  | cons m members ih =>
    obtain ⟨key, value⟩ := m
    rw [mapMembers, Dict.lookup_cons_eq, Dict.lookup_cons_eq, ih]
    split <;> rfl

mutual

theorem mapNumbers_id : ∀ value : Json, value.mapNumbers id = value
  | .null | .bool _ | .num _ | .str _ => rfl
  | .arr items => by rw [mapNumbers, mapItems_id items]
  | .obj members => by rw [mapNumbers, mapMembers_id members]

theorem mapItems_id : ∀ items : List Json, mapItems id items = items
  | [] => rfl
  | value :: rest => by rw [mapItems, mapNumbers_id value, mapItems_id rest]

theorem mapMembers_id : ∀ members : List (String × Json), mapMembers id members = members
  | [] => rfl
  | (_, value) :: rest => by rw [mapMembers, mapNumbers_id value, mapMembers_id rest]

end

/-! ## Alike values -/

mutual

/-- Two values are the same but for the order of members: objects have equally many members, and
those of one name are alike. -/
def Alike : Json → Json → Prop
  | .arr items, .arr others => AlikeItems items others
  | .obj members, .obj others => members.length = others.length ∧ AlikeMembers members others
  | value, other => value = other

def AlikeItems : List Json → List Json → Prop
  | [], [] => True
  | value :: rest, other :: others => Alike value other ∧ AlikeItems rest others
  | _, _ => False

def AlikeMembers : List (String × Json) → List (String × Json) → Prop
  | [], _ => True
  | (name, value) :: rest, others =>
    (∃ other, others.lookup name = some other ∧ Alike value other) ∧ AlikeMembers rest others

end

theorem alikeMembers_iff : AlikeMembers members others ↔
    ∀ m ∈ members, ∃ other, others.lookup m.1 = some other ∧ Alike m.2 other := by
  induction members with
  | nil => simp [AlikeMembers]
  | cons m members ih => rw [AlikeMembers, ih, List.forall_mem_cons]

/-- In which order the members stand does not matter. -/
theorem alike_obj_congr (h : members.Perm members') (other : Json) :
    Alike (.obj members) other ↔ Alike (.obj members') other := by
  cases other with
  | obj others =>
    rw [Alike, Alike, alikeMembers_iff, alikeMembers_iff, h.length_eq]
    exact and_congr_right fun _ => forall_congr' fun m => imp_congr_left h.mem_iff
  | _ => simp [Alike]

/-- What the members are alike to is what the object is alike to. -/
theorem alike_obj_map_congr {f g : Json → Json}
    (h : ∀ m ∈ members, ∀ other, Alike (f m.2) other ↔ Alike (g m.2) other) (other : Json) :
    Alike (.obj (members.map fun m => (m.1, f m.2))) other ↔
      Alike (.obj (members.map fun m => (m.1, g m.2))) other := by
  cases other with
  | obj others =>
    simp only [Alike, alikeMembers_iff, List.length_map, List.forall_mem_map]
    refine and_congr_right fun _ => forall₂_congr fun m hm => ?_
    exact exists_congr fun other => and_congr_right fun _ => h m hm other
  | _ => simp [Alike]

theorem alike_arr_congr {items items' : List Json}
    (h : ∀ others, AlikeItems items others ↔ AlikeItems items' others) (other : Json) :
    Alike (.arr items) other ↔ Alike (.arr items') other := by
  cases other with
  | arr others => exact h others
  | _ => simp [Alike]

section MapNumbers

variable {f g : Number → Number}

mutual

/-- **Values with changed numbers are alike exactly if each number is changed alike.** -/
theorem alike_mapNumbers_iff : ∀ {value : Json}, value.WellFormed →
    (Alike (value.mapNumbers f) (value.mapNumbers g) ↔ ∀ n ∈ value.numbers, f n = g n)
  | .null, _ | .bool _, _ | .str _, _ => by simp [mapNumbers, Alike, numbers]
  | .num n, _ => by simp [mapNumbers, Alike, numbers]
  | .arr items, h => by
    rw [mapNumbers, mapNumbers, Alike, numbers]
    exact alikeItems_mapItems_iff h
  | .obj members, h => by
    rw [mapNumbers, mapNumbers, Alike, numbers]
    have hlength : (mapMembers f members).length = (mapMembers g members).length := by
      rw [mapMembers_eq, mapMembers_eq, List.length_map, List.length_map]
    rw [and_iff_right hlength]
    exact alikeMembers_mapMembers_iff h.2 fun m hm => Dict.lookup_of_mem h.1 hm

theorem alikeItems_mapItems_iff : ∀ {items : List Json}, AllWellFormed items →
    (AlikeItems (mapItems f items) (mapItems g items) ↔ ∀ n ∈ itemNumbers items, f n = g n)
  | [], _ => by simp [mapItems, AlikeItems, itemNumbers]
  | value :: rest, h => by
    rw [mapItems, mapItems, AlikeItems, itemNumbers, List.forall_mem_append,
      alike_mapNumbers_iff h.1, alikeItems_mapItems_iff h.2]

/-- Each member is looked up among all of them. -/
theorem alikeMembers_mapMembers_iff : ∀ {members full : List (String × Json)},
    MembersWellFormed members → (∀ m ∈ members, full.lookup m.1 = some m.2) →
    (AlikeMembers (mapMembers f members) (mapMembers g full) ↔
      ∀ n ∈ memberNumbers members, f n = g n)
  | [], _, _, _ => by simp [mapMembers, AlikeMembers, memberNumbers]
  | (name, value) :: rest, full, h, hfull => by
    obtain ⟨hvalue, hrest⟩ := List.forall_mem_cons.1 hfull
    have hfound : (mapMembers g full).lookup name = some (value.mapNumbers g) := by
      rw [lookup_mapMembers, hvalue]
      rfl
    have hmember : (∃ other, (mapMembers g full).lookup name = some other ∧
        Alike (value.mapNumbers f) other) ↔ Alike (value.mapNumbers f) (value.mapNumbers g) := by
      simp [hfound]
    rw [mapMembers, AlikeMembers, memberNumbers, List.forall_mem_append, hmember,
      alike_mapNumbers_iff h.1, alikeMembers_mapMembers_iff h.2 hrest]

end

end MapNumbers

end Json

end StoreQuery
