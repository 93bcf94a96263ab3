import StoreQuery.Memory.Lookup

/-!
# Laws of values at paths

What is put at a path stands there (`at?_putAt`), what is put elsewhere does not matter
(`at?_putAt_of_apart`), and putting back what stands at a path changes nothing (`putAt_self`). Paths
of which one is the beginning of the other are not apart: what stands at the longer one is a part of
what stands at the shorter one (`at?_append`).
-/

namespace StoreQuery.Json

variable {name other : String} {names others rest : List String} {members : Members}

/-! ## Members -/

theorem lookup_setMember (name : String) (value : Json) (members : Members) :
    (setMember name value members).lookup name = some value := by
  induction members with
  | nil => simp [setMember]
  | cons member rest ih =>
    obtain ⟨n, v⟩ := member
    rw [setMember]
    split
    · rename_i hn; rw [List.lookup_cons, beq_iff_eq.2 hn.symm]
    · rename_i hn; rw [List.lookup_cons, beq_eq_false_iff_ne.2 (Ne.symm hn), ih]

theorem lookup_setMember_of_ne (hne : other ≠ name) (value : Json) (members : Members) :
    (setMember name value members).lookup other = members.lookup other := by
  induction members with
  | nil => rw [setMember, List.lookup_cons, beq_eq_false_iff_ne.2 hne]
  | cons member rest ih =>
    obtain ⟨n, v⟩ := member
    rw [setMember]
    split
    · rename_i hn
      rw [List.lookup_cons, List.lookup_cons, beq_eq_false_iff_ne.2 (hn ▸ hne)]
    · rw [List.lookup_cons, List.lookup_cons, ih]

theorem setMember_self {value : Json} (h : members.lookup name = some value) :
    setMember name value members = members := by
  induction members with
  | nil => cases h
  | cons member rest ih =>
    obtain ⟨n, v⟩ := member
    by_cases hn : n = name
    · subst hn
      simp_all [setMember]
    · rw [List.lookup_cons, beq_eq_false_iff_ne.2 (Ne.symm hn)] at h
      rw [setMember, if_neg hn, ih h]

/-! ## Paths -/

theorem at?_append (names rest : List String) (value : Json) :
    at? (names ++ rest) value = (at? names value).bind (at? rest) := by
  induction names generalizing value with
  | nil => rfl
  | cons name names ih =>
    rw [List.cons_append, at?, at?, Option.bind_assoc]
    exact congrArg _ (funext ih)

theorem exists_obj_of_at? {value inner : Json} (hne : names ≠ [])
    (h : at? names value = some inner) : ∃ members, value = .obj members := by
  obtain ⟨name, rest, rfl⟩ := List.exists_cons_of_ne_nil hne
  cases value with
  | obj members => exact ⟨members, rfl⟩
  | null | bool | num | str | arr => cases h

theorem at?_membersOrNone (hne : names ≠ []) (value : Option Json) :
    at? names (.obj (value.getD .null).membersOrNone) = value.bind (at? names) := by
  obtain ⟨name, rest, rfl⟩ := List.exists_cons_of_ne_nil hne
  cases value with
  | none => rfl
  | some value => cases value <;> rfl

theorem putAt_cons (hne : rest ≠ []) (name : String) (value : Json) (members : Members) :
    putAt (name :: rest) value members = setMember name
      (.obj (putAt rest value ((members.lookup name).getD .null).membersOrNone)) members := by
  obtain ⟨next, more, rfl⟩ := List.exists_cons_of_ne_nil hne
  rfl

theorem at?_putAt (value : Json) : ∀ {names : List String} (members : Members), names ≠ [] →
    at? names (.obj (putAt names value members)) = some value
  | [name], members, _ => by
    rw [putAt, at?, get?, lookup_setMember]; rfl
  | name :: next :: rest, members, _ => by
    rw [putAt, at?, get?, lookup_setMember]
    exact at?_putAt value _ (by simp)
    simp

/-- **What is put at a path does not matter where neither path leads to the other.** -/
theorem at?_putAt_of_apart (value : Json) : ∀ {names others : List String} (members : Members),
    ¬ names <+: others → ¬ others <+: names →
      at? others (.obj (putAt names value members)) = at? others (.obj members)
  | [], _, _, hnames, _ => absurd List.nil_prefix hnames
  | _, [], _, _, hothers => absurd List.nil_prefix hothers
  | [name], other :: others, members, hnames, _ => by
    have hne : other ≠ name := by
      rintro rfl
      exact hnames (List.prefix_append [other] others)
    rw [putAt, at?, at?, get?, get?, lookup_setMember_of_ne hne]
  | name :: next :: rest, other :: others, members, hnames, hothers => by
    rw [putAt_cons (List.cons_ne_nil next rest), at?, at?, get?, get?]
    by_cases hname : other = name
    · subst hname
      rw [List.prefix_cons_inj] at hnames hothers
      have hne : others ≠ [] := by
        rintro rfl
        exact hothers List.nil_prefix
      rw [lookup_setMember, Option.bind_some, at?_putAt_of_apart value _ hnames hothers,
        at?_membersOrNone hne]
    · rw [lookup_setMember_of_ne hname]

/-- **Putting back what stands at a path changes nothing.** -/
theorem putAt_self {value : Json} : ∀ {names : List String} {members : Members},
    at? names (.obj members) = some value → putAt names value members = members
  | [], _, _ => rfl
  | [name], members, h => by
    obtain ⟨inner, hinner, hvalue⟩ := Option.bind_eq_some_iff.1 h
    cases hvalue
    exact setMember_self hinner
  | name :: next :: rest, members, h => by
    obtain ⟨inner, hinner, hvalue⟩ := Option.bind_eq_some_iff.1 h
    obtain ⟨below, rfl⟩ := exists_obj_of_at? (List.cons_ne_nil next rest) hvalue
    have hlookup : members.lookup name = some (.obj below) := hinner
    rw [putAt_cons (List.cons_ne_nil next rest), hlookup, Option.getD_some, membersOrNone,
      putAt_self hvalue, setMember_self hlookup]

/-- An object that holds a truth value at the end of a path and nothing else has nothing at any
path that does not lead there. -/
theorem at?_putAt_nil (b : Bool) (hne : names ≠ []) (hothers : ¬ others <+: names) :
    at? others (.obj (putAt names (.bool b) [])) = none := by
  by_cases hnames : names <+: others
  · -- The path goes on below the truth value.
    obtain ⟨rest, rfl⟩ := hnames
    rw [at?_append, at?_putAt _ _ hne]
    cases rest with
    | nil => simp at hothers
    | cons next rest => rfl
  · rw [at?_putAt_of_apart _ _ hnames hothers]
    cases others with
    | nil => exact absurd List.nil_prefix hothers
    | cons other others => rfl

end StoreQuery.Json
