import Mathlib.Data.List.Basic
import Mathlib.Tactic.SplitIfs
import StoreQuery.Condition.Builder

/-!
# Growing builders

A step of a builder that works at one bracket adds members at the end of it and opens brackets of
its own behind all that there are. It leaves every other bracket as it is. `Grows here parts b b'`
says so, and that the new members read back as the conditions `parts`.

Growth composes: what was added at a bracket still reads the same after more is added there
(`Grows.append`), and a bracket that is opened stands, as one member, for all that is added inside
it, even if members are added next to it first (`Grows.beside`).
-/

namespace StoreQuery.Builder

variable {b b' b'' : Builder} {here : Nat} {parts more : List Condition}

/-! ## Reading back -/

/-- The condition that a member stands for. -/
def conditionOf (b : Builder) : Member → Condition
  | .leaf comparison => .leaf comparison
  | .bracket index => b.conditionAt index

/-- Every bracket stands in one that was opened before it. -/
def Ordered (b : Builder) : Prop :=
  ∀ i node, b.node? i = some node →
    ∀ j, Member.bracket j ∈ node.members → i < j ∧ j < b.nodes.length

theorem conditionAt_eq (hb : b.Ordered) {i : Nat} {node : Node} (h : b.node? i = some node) :
    b.conditionAt i = .group node.kind (node.members.map b.conditionOf) := by
  rw [conditionAt]
  split
  · rename_i hn
    rw [h] at hn
    cases hn
  · rename_i found hn
    rw [h] at hn
    cases hn
    congr 1
    rw [← List.filterMap_eq_map]
    refine List.filterMap_congr fun m hm => ?_
    cases m with
    | leaf c => rfl
    | bracket j => exact if_pos (hb i node h j hm).1

/-- Brackets that are the same from some index on read the same from there on. -/
theorem conditionAt_congr (hb : b.Ordered) (hb' : b'.Ordered) {l : Nat}
    (h : ∀ i, l ≤ i → i < b.nodes.length → b'.node? i = b.node? i) (i : Nat)
    (hl : l ≤ i) (hi : i < b.nodes.length) : b'.conditionAt i = b.conditionAt i := by
  have hn : b.node? i = some b.nodes[i] := List.getElem?_eq_getElem hi
  rw [conditionAt_eq hb hn, conditionAt_eq hb' ((h i hl hi).trans hn)]
  congr 1
  refine List.map_congr_left fun m hm => ?_
  cases m with
  | leaf c => rfl
  | bracket j =>
    obtain ⟨hij, hj⟩ := hb i _ hn j hm
    exact conditionAt_congr hb hb' h j (by omega) hj
termination_by b.nodes.length - i

theorem conditionOf_congr (hb : b.Ordered) (hb' : b'.Ordered) {l : Nat}
    (h : ∀ i, l ≤ i → i < b.nodes.length → b'.node? i = b.node? i) {m : Member}
    (hm : ∀ i, m = .bracket i → l ≤ i ∧ i < b.nodes.length) :
    b'.conditionOf m = b.conditionOf m := by
  cases m with
  | leaf c => rfl
  | bracket i => exact conditionAt_congr hb hb' h i (hm i rfl).1 (hm i rfl).2

/-! ## Growth -/

/-- The bracket with an index is of a kind. -/
def HasKind (b : Builder) (i : Nat) (k : Connective) : Prop :=
  ∃ node, b.node? i = some node ∧ node.kind = k

/-- One bracket has got members at its end that read back as the given conditions, and brackets
were opened for them; nothing else has changed. -/
structure Grows (here : Nat) (parts : List Condition) (b b' : Builder) : Prop where
  ordered : b'.Ordered
  le : b.nodes.length ≤ b'.nodes.length
  frame : ∀ i, i < b.nodes.length → i ≠ here → b'.node? i = b.node? i
  added : ∃ node members, b.node? here = some node ∧
    b'.node? here = some { node with members := node.members ++ members } ∧
    (∀ i, Member.bracket i ∈ members → b.nodes.length ≤ i) ∧
    members.map b'.conditionOf = parts

theorem Grows.lt (h : Grows here parts b b') : here < b.nodes.length := by
  obtain ⟨node, -, hn, -⟩ := h.added
  exact lt_of_node? hn

theorem Grows.hasKind (h : Grows here parts b b') {i : Nat} {k : Connective}
    (hk : b.HasKind i k) : b'.HasKind i k := by
  obtain ⟨node, hn, rfl⟩ := hk
  by_cases hi : i = here
  · obtain ⟨node', members, hn', hm, -⟩ := h.added
    subst hi
    cases hn.symm.trans hn'
    exact ⟨_, hm, rfl⟩
  · exact ⟨node, (h.frame i (lt_of_node? hn) hi).trans hn, rfl⟩

theorem Grows.refl (hb : b.Ordered) {k : Connective} (hk : b.HasKind here k) :
    Grows here [] b b := by
  obtain ⟨node, hn, -⟩ := hk
  exact ⟨hb, Nat.le_refl _, fun _ _ _ => rfl, node, [], hn, by simpa using hn, by simp, rfl⟩

/-- The bracket that has grown holds what it held, and the new conditions. -/
theorem Grows.conditionAt (hb : b.Ordered) (h : Grows here parts b b') {node : Node}
    (hn : b.node? here = some node) :
    b'.conditionAt here = .group node.kind (node.members.map b.conditionOf ++ parts) := by
  obtain ⟨node', members, hn', hm, -, hparts⟩ := h.added
  cases hn.symm.trans hn'
  rw [conditionAt_eq h.ordered hm, List.map_append, hparts]
  congr 2
  refine List.map_congr_left fun m hmem => ?_
  -- Brackets that stood here before were opened after `here`, and are not touched.
  refine conditionOf_congr hb h.ordered (l := here + 1) (fun i hl hi => ?_) fun i hi => ?_
  · exact h.frame i hi (by omega)
  · obtain ⟨hlt, hlen⟩ := hb here node hn i (hi ▸ hmem)
    exact ⟨hlt, hlen⟩

/-- Members that were opened at the end of a builder read the same after growth before them. -/
theorem Grows.map_conditionOf {l : Nat} (hb : b.Ordered) (h : Grows here parts b b')
    (hl : here < l) {members : List Member}
    (hm : ∀ i, Member.bracket i ∈ members → l ≤ i ∧ i < b.nodes.length) :
    members.map b'.conditionOf = members.map b.conditionOf :=
  List.map_congr_left fun m hmem =>
    conditionOf_congr hb h.ordered (l := l) (fun i hi hlen => h.frame i hlen (by omega))
      fun i hi => hm i (hi ▸ hmem)

/-- One growth after the other. -/
theorem Grows.append (h : Grows here parts b b') (h' : Grows here more b' b'') :
    Grows here (parts ++ more) b b'' := by
  obtain ⟨node, members, hn, hm, hnew, hparts⟩ := h.added
  obtain ⟨node', members', hn', hm', hnew', hmore⟩ := h'.added
  cases hm.symm.trans hn'
  refine ⟨h'.ordered, Nat.le_trans h.le h'.le, fun i hi hne => ?_, node, members ++ members', hn,
    ?_, ?_, ?_⟩
  · rw [h'.frame i (by have := h.le; omega) hne, h.frame i hi hne]
  · simpa [List.append_assoc] using hm'
  · intro i hi
    rcases List.mem_append.1 hi with hi | hi
    · exact hnew i hi
    · exact Nat.le_trans h.le (hnew' i hi)
  · have hold : members.map b''.conditionOf = members.map b'.conditionOf := by
      refine h'.map_conditionOf h.ordered h.lt fun i hi => ⟨hnew i hi, ?_⟩
      exact (h.ordered here _ hm i (List.mem_append_right _ hi)).2
    rw [List.map_append, hold, hparts, hmore]

/-! ## Single steps -/

theorem node?_append (b : Builder) (i j : Nat) (m : Member) : (b.append i m).node? j =
    if i = j then (b.node? j).map fun node => { node with members := node.members ++ [m] }
    else b.node? j := by
  rw [node?, append, List.getElem?_modify]
  by_cases h : i = j <;> simp [h, node?]

theorem length_append (b : Builder) (i : Nat) (m : Member) :
    (b.append i m).nodes.length = b.nodes.length := by
  simp [append]

theorem length_openIn (b : Builder) (i : Nat) (k : Connective) :
    (b.openIn i k).nodes.length = b.nodes.length + 1 := by
  simp [openIn, length_append]

theorem node?_openIn_new (b : Builder) (i : Nat) (k : Connective) :
    (b.openIn i k).node? b.nodes.length = some ⟨k, some i, []⟩ := by
  have hlen := length_append b i (.bracket b.nodes.length)
  rw [openIn, node?, List.getElem?_append_right (Nat.le_of_eq hlen), hlen, Nat.sub_self]
  rfl

theorem node?_openIn_old (b : Builder) (i : Nat) (k : Connective) {j : Nat}
    (hj : j < b.nodes.length) :
    (b.openIn i k).node? j = (b.append i (.bracket b.nodes.length)).node? j := by
  rw [openIn, node?, List.getElem?_append_left (by rwa [length_append])]
  rfl

/-- A leaf opens nothing. -/
theorem ordered_append (hb : b.Ordered) {node : Node} (hn : b.node? here = some node)
    (c : Comparison) : (b.append here (.leaf c)).Ordered := by
  intro i found hi j hj
  rw [node?_append] at hi
  rw [length_append]
  split_ifs at hi with h
  · subst h
    rw [hn] at hi
    cases hi
    exact hb here node hn j (by simpa using hj)
  · exact hb i found hi j hj

/-- Adding a leaf. -/
theorem grows_append (hb : b.Ordered) {k : Connective} (hk : b.HasKind here k) (c : Comparison) :
    Grows here [.leaf c] b (b.append here (.leaf c)) := by
  obtain ⟨node, hn, -⟩ := hk
  refine ⟨ordered_append hb hn c, Nat.le_of_eq (length_append ..).symm, fun i _ hne => ?_,
    node, [.leaf c], hn, ?_, by simp, rfl⟩
  · rw [node?_append, if_neg (Ne.symm hne)]
  · rw [node?_append, if_pos rfl, hn]
    rfl

theorem ordered_openIn (hb : b.Ordered) {node : Node} (hn : b.node? here = some node)
    (k : Connective) : (b.openIn here k).Ordered := by
  intro i found hi j hj
  rw [length_openIn]
  by_cases hnew : i < b.nodes.length
  · rw [node?_openIn_old _ _ _ hnew, node?_append] at hi
    split_ifs at hi with h
    · subst h
      rw [hn] at hi
      cases hi
      rcases List.mem_append.1 hj with hj | hj
      · have := hb here node hn j hj
        omega
      · cases List.mem_singleton.1 hj
        omega
    · have := hb i found hi j hj
      omega
  · have hlen := lt_of_node? hi
    rw [length_openIn] at hlen
    obtain rfl : i = b.nodes.length := by omega
    rw [node?_openIn_new] at hi
    cases hi
    cases hj

/-- A bracket that is opened, grows, and has grown next to it first: it stands for all that was
added inside it. -/
theorem Grows.beside (hb : b.Ordered) {k kind : Connective} (hk : b.HasKind here kind)
    (h : Grows here parts (b.openIn here k) b') (h' : Grows b.nodes.length more b' b'') :
    Grows here (.group k more :: parts) b b'' := by
  obtain ⟨node, hn, -⟩ := hk
  have hlt := lt_of_node? hn
  have hopen := ordered_openIn hb hn k
  have hlen := length_openIn b here k
  obtain ⟨opened, members, hn', hm, hnew, hparts⟩ := h.added
  rw [node?_openIn_old _ _ _ hlt, node?_append, if_pos rfl, hn] at hn'
  cases hn'
  have hle := h.le
  have hle' := h'.le
  -- What happens inside the new bracket does not touch the one that holds it.
  have hhere : b''.node? here = b'.node? here := h'.frame here (by omega) (by omega)
  refine ⟨h'.ordered, by omega, fun i hi hne => ?_,
    node, .bracket b.nodes.length :: members, hn, ?_, ?_, ?_⟩
  · rw [h'.frame i (by omega) (by omega), h.frame i (by omega) hne, node?_openIn_old _ _ _ hi,
      node?_append, if_neg (Ne.symm hne)]
  · rw [hhere, hm]
    simp
  · intro i hi
    rcases List.mem_cons.1 hi with hi | hi
    · cases hi
      exact Nat.le_refl _
    · have := hnew i hi
      omega
  · have hinside : b'.node? b.nodes.length = some ⟨k, some here, []⟩ := by
      rw [h.frame _ (by omega) (by omega), node?_openIn_new]
    -- The other members were there before, and read the same.
    have hold : members.map b''.conditionOf = members.map b'.conditionOf := by
      refine h'.map_conditionOf h.ordered (l := b.nodes.length + 1) (by omega) fun i hi => ?_
      refine ⟨by have := hnew i hi; omega, ?_⟩
      exact (h.ordered here _ hm i (List.mem_append_right _ hi)).2
    rw [List.map_cons, hold, hparts]
    congr 1
    exact h'.conditionAt h.ordered hinside

/-- A bracket that is opened and grows. -/
theorem Grows.inside (hb : b.Ordered) {k kind : Connective} (hk : b.HasKind here kind)
    (h : Grows b.nodes.length parts (b.openIn here k) b') :
    Grows here [.group k parts] b b' := by
  obtain ⟨node, hn, rfl⟩ := hk
  have hopen : (b.openIn here k).node? here =
      some { node with members := node.members ++ [.bracket b.nodes.length] } := by
    rw [node?_openIn_old _ _ _ (lt_of_node? hn), node?_append, if_pos rfl, hn]
    rfl
  exact .beside hb ⟨node, hn, rfl⟩ (.refl (ordered_openIn hb hn k) ⟨_, hopen, rfl⟩) h

/-! ## The empty builder -/

theorem ordered_empty : empty.Ordered := by
  intro i node hi j hj
  rw [node?, empty] at hi
  cases i with
  | zero => cases hi; cases hj
  | succ i => cases hi

theorem hasKind_empty : empty.HasKind root .and := ⟨_, rfl, rfl⟩

/-- What grows at the root of an empty builder is its condition. -/
theorem Grows.build (h : Grows root parts empty b) : b.build = .group .and parts :=
  h.conditionAt ordered_empty rfl

end StoreQuery.Builder
