import Mathlib.Data.List.Perm.Basic
import StoreQuery.Proofs.Condition.Growth
import StoreQuery.Proofs.Condition.Meaning

/-!
# How brackets hang together

The brackets of a builder are held by one another, and each remembers the one in which it was
opened. `Linked` says that this is a tree:

* bracket `0` is an AND in which nothing else is held;
* every other bracket is held once, by the bracket that it remembers, and that one was opened
  earlier and is of the other kind.

Opening a bracket and adding a leaf keep all this (`linked_openIn`, `linked_append`), and they
change a bracket at its end only (`Extends`).

**So the condition can be read by following the brackets, and this comes to an end**
(`reads_iff`), although nothing but the links bounds the way. **What is read are the leaves of all
brackets, each once** (`leaves_build`): all brackets read together have the leaves that stand in
them, and once more what all brackets but the root read; so the root reads the leaves.
-/

namespace StoreQuery.Builder

variable {b b' b'' : Builder} {place : Nat} {node : Node} {k : Connective}

/-! ## What a bracket holds -/

/-- The index of a member that is a bracket. -/
def Member.index? : Member → Option Nat
  | .bracket index => some index
  | .leaf _ => none

/-- The comparison of a member that is a leaf. -/
def Member.comparison? : Member → Option Comparison
  | .bracket _ => none
  | .leaf comparison => some comparison

/-- The brackets that a bracket holds, in its order. -/
def Node.brackets (node : Node) : List Nat := node.members.filterMap Member.index?

/-- The leaves that a bracket holds, in its order. -/
def Node.leaves (node : Node) : List Comparison := node.members.filterMap Member.comparison?

/-- All brackets that brackets hold, each as often as it is held. -/
def held (b : Builder) : List Nat := b.nodes.flatMap Node.brackets

/-- All leaves that brackets hold. -/
def leaves (b : Builder) : List Comparison := b.nodes.flatMap Node.leaves

/-- The leaves that the bracket with an index holds, if there is one. -/
def leavesIn (b : Builder) (index : Nat) : List Comparison :=
  ((b.node? index).map Node.leaves).getD []

theorem mem_brackets {index : Nat} :
    index ∈ node.brackets ↔ Member.bracket index ∈ node.members := by
  rw [Node.brackets, List.mem_filterMap]
  constructor
  · rintro ⟨m, hm, hindex⟩
    cases m with
    | bracket i =>
      cases hindex
      exact hm
    | leaf c => cases hindex
  · intro h
    exact ⟨_, h, rfl⟩

/-! ## The tree of brackets -/

/-- The brackets make a tree. -/
structure Linked (b : Builder) : Prop where
  /-- The root is an AND that stands nowhere. -/
  root : ∃ members, b.node? root = some ⟨.and, none, members⟩
  /-- Every other bracket was opened in an earlier one of the other kind. -/
  parent : ∀ index node, index ≠ Builder.root → b.node? index = some node →
    ∃ place outer, node.parent = some place ∧ place < index ∧ b.node? place = some outer ∧
      outer.kind ≠ node.kind
  /-- A bracket is held only where it was opened. -/
  opened : ∀ place outer, b.node? place = some outer → ∀ index ∈ outer.brackets,
    ∃ node, b.node? index = some node ∧ node.parent = some place
  /-- Every bracket but the root is held once, and nothing else is held. -/
  once : b.held.Perm (List.range' 1 (b.nodes.length - 1))

theorem Linked.ordered (h : b.Linked) : b.Ordered := by
  intro i outer hi j hj
  obtain ⟨node, hnode, hparent⟩ := h.opened i outer hi j (mem_brackets.2 hj)
  have hne : j ≠ Builder.root := by
    rintro rfl
    obtain ⟨members, hroot⟩ := h.root
    rw [hroot] at hnode
    cases hnode
    cases hparent
  obtain ⟨place, -, hplace, hlt, -, -⟩ := h.parent j node hne hnode
  rw [hparent] at hplace
  cases hplace
  exact ⟨hlt, lt_of_node? hnode⟩

theorem linked_empty : empty.Linked where
  root := ⟨[], rfl⟩
  parent := by
    intro index node hne h
    cases index with
    | zero => exact absurd rfl hne
    | succ index => cases h
  opened := by
    intro place outer h index hindex
    cases place with
    | zero =>
      cases h
      cases hindex
    | succ place => cases h
  once := .refl _

/-! ## Single changes -/

/-- The brackets after one was opened. -/
theorem node?_openIn (b : Builder) (place : Nat) (k : Connective) (index : Nat) :
    (b.openIn place k).node? index = if index = b.nodes.length then some ⟨k, some place, []⟩
      else (b.append place (.bracket b.nodes.length)).node? index := by
  by_cases hnew : index = b.nodes.length
  · rw [if_pos hnew, hnew, node?_openIn_new]
  · rw [if_neg hnew]
    by_cases hold : index < b.nodes.length
    · exact node?_openIn_old b place k hold
    · have hlen := length_openIn b place k
      have hlen' := length_append b place (.bracket b.nodes.length)
      rw [node?, node?, List.getElem?_eq_none (by omega), List.getElem?_eq_none (by omega)]

theorem flatMap_append_perm {α : Type} {f : Node → List α} {m : Member} {extra : List α}
    (hf : ∀ node : Node, f { node with members := node.members ++ [m] } = f node ++ extra)
    (hplace : place < b.nodes.length) :
    ((b.append place m).nodes.flatMap f).Perm (b.nodes.flatMap f ++ extra) := by
  obtain ⟨before, node, after, hnodes, -, hmodify⟩ := List.exists_of_modify
    (fun node : Node => { node with members := node.members ++ [m] }) hplace
  rw [append, hmodify, hnodes, List.flatMap_append, List.flatMap_append, List.flatMap_cons,
    List.flatMap_cons, hf, List.append_assoc, List.append_assoc, List.append_assoc]
  exact (List.perm_append_comm.append_left (f node)).append_left (before.flatMap f)

theorem brackets_add (node : Node) (m : Member) :
    Node.brackets { node with members := node.members ++ [m] } =
      node.brackets ++ m.index?.toList := by
  rw [Node.brackets, Node.brackets, List.filterMap_append]
  cases m <;> rfl

theorem leaves_add (node : Node) (m : Member) :
    Node.leaves { node with members := node.members ++ [m] } =
      node.leaves ++ m.comparison?.toList := by
  rw [Node.leaves, Node.leaves, List.filterMap_append]
  cases m <;> rfl

theorem leavesIn_append (hn : b.node? place = some node) (m : Member) (index : Nat) :
    (b.append place m).leavesIn index =
      b.leavesIn index ++ if place = index then m.comparison?.toList else [] := by
  rw [leavesIn, leavesIn, node?_append]
  split_ifs with hplace
  · rw [← hplace, hn]
    exact leaves_add node m
  · rw [List.append_nil]

/-- A bracket after a member was added somewhere: the same bracket with some more members. -/
theorem exists_of_node?_append {m : Member} {index : Nat} {found : Node}
    (h : (b.append place m).node? index = some found) :
    ∃ node, b.node? index = some node ∧ found.kind = node.kind ∧ found.parent = node.parent ∧
      (found = node ∨ index = place ∧ found.members = node.members ++ [m]) := by
  rw [node?_append] at h
  split_ifs at h with hplace
  · obtain ⟨node, hnode, rfl⟩ := Option.map_eq_some_iff.1 h
    exact ⟨node, hnode, rfl, rfl, .inr ⟨hplace.symm, rfl⟩⟩
  · exact ⟨found, h, rfl, rfl, .inl rfl⟩

/-- A bracket is still there, of its kind and at its place, after a member was added. -/
theorem exists_node?_append {index : Nat} (m : Member) (h : b.node? index = some node) :
    ∃ found, (b.append place m).node? index = some found ∧ found.kind = node.kind ∧
      found.parent = node.parent := by
  rw [node?_append, h]
  split_ifs
  · exact ⟨_, rfl, rfl, rfl⟩
  · exact ⟨node, rfl, rfl, rfl⟩

/-- A bracket is still there, of its kind and at its place, after one was opened. -/
theorem exists_node?_openIn {index : Nat} (k : Connective) (h : b.node? index = some node) :
    ∃ found, (b.openIn place k).node? index = some found ∧ found.kind = node.kind ∧
      found.parent = node.parent := by
  rw [node?_openIn_old b place k (lt_of_node? h)]
  exact exists_node?_append _ h

theorem root_append (m : Member) (h : ∃ members, b.node? root = some ⟨.and, none, members⟩) :
    ∃ members, (b.append place m).node? root = some ⟨.and, none, members⟩ := by
  obtain ⟨members, hroot⟩ := h
  obtain ⟨⟨kind, parent, found⟩, hfound, hkind, hparent⟩ := exists_node?_append m hroot
  cases hkind
  cases hparent
  exact ⟨found, hfound⟩

/-- **Adding a leaf keeps the tree.** -/
theorem linked_append (h : b.Linked) (hn : b.node? place = some node) (c : Comparison) :
    (b.append place (.leaf c)).Linked where
  root := root_append _ h.root
  parent := by
    intro index found hne hfound
    obtain ⟨inner, hinner, hkind, hparent, -⟩ := exists_of_node?_append hfound
    obtain ⟨above, outer, hat, hlt, houter, hother⟩ := h.parent index inner hne hinner
    obtain ⟨outer', houter', hkind', -⟩ := exists_node?_append (.leaf c) houter
    exact ⟨above, outer', hparent.trans hat, hlt, houter', by rwa [hkind, hkind']⟩
  opened := by
    intro above outer houter index hindex
    obtain ⟨outer', houter', -, -, hmembers⟩ := exists_of_node?_append houter
    have hold : index ∈ outer'.brackets := by
      rcases hmembers with rfl | ⟨-, hmembers⟩
      · exact hindex
      · rw [mem_brackets, hmembers] at hindex
        exact mem_brackets.2 (by simpa using hindex)
    obtain ⟨inner, hinner, hparent⟩ := h.opened above outer' houter' index hold
    obtain ⟨inner', hinner', -, hparent'⟩ := exists_node?_append (.leaf c) hinner
    exact ⟨inner', hinner', hparent'.trans hparent⟩
  once := by
    have hheld : (b.append place (.leaf c)).held.Perm b.held := by
      simpa [held, Member.index?] using
        flatMap_append_perm (brackets_add · (.leaf c)) (lt_of_node? hn)
    rw [length_append]
    exact hheld.trans h.once

/-- **Opening a bracket in one of the other kind keeps the tree.** -/
theorem linked_openIn (h : b.Linked) (hn : b.node? place = some node) (hk : node.kind ≠ k) :
    (b.openIn place k).Linked where
  root := by
    obtain ⟨members, hroot⟩ := h.root
    rw [node?_openIn_old b place k (lt_of_node? hroot)]
    exact root_append _ h.root
  parent := by
    intro index found hne hfound
    rw [node?_openIn] at hfound
    split_ifs at hfound with hnew
    · cases hfound
      obtain ⟨outer, houter, hkind, -⟩ := exists_node?_openIn k hn
      exact ⟨place, outer, rfl, hnew ▸ lt_of_node? hn, houter, by rwa [hkind]⟩
    · obtain ⟨inner, hinner, hkind, hparent, -⟩ := exists_of_node?_append hfound
      obtain ⟨above, outer, hat, hlt, houter, hother⟩ := h.parent index inner hne hinner
      obtain ⟨outer', houter', hkind', -⟩ := exists_node?_openIn k houter
      exact ⟨above, outer', hparent.trans hat, hlt, houter', by rwa [hkind, hkind']⟩
  opened := by
    intro above outer houter index hindex
    rw [node?_openIn] at houter
    split_ifs at houter
    · cases houter
      cases hindex
    · obtain ⟨outer', houter', -, -, hmembers⟩ := exists_of_node?_append houter
      have hcases : index ∈ outer'.brackets ∨ above = place ∧ index = b.nodes.length := by
        rcases hmembers with rfl | ⟨hat, hmembers⟩
        · exact .inl hindex
        · rw [mem_brackets, hmembers, List.mem_append, ← mem_brackets] at hindex
          exact hindex.imp id fun hlast => ⟨hat, by simpa using hlast⟩
      rcases hcases with hold | ⟨rfl, rfl⟩
      · obtain ⟨inner, hinner, hparent⟩ := h.opened above outer' houter' index hold
        obtain ⟨inner', hinner', -, hparent'⟩ := exists_node?_openIn k hinner
        exact ⟨inner', hinner', hparent'.trans hparent⟩
      · -- The new index leads to the new bracket, which stands where it was opened.
        exact ⟨_, node?_openIn_new b above k, rfl⟩
  once := by
    have hlt := lt_of_node? hn
    have hheld := flatMap_append_perm (brackets_add · (.bracket b.nodes.length)) hlt
    have hsame : (b.openIn place k).held =
        (b.append place (.bracket b.nodes.length)).nodes.flatMap Node.brackets := by
      simp [held, openIn, Node.brackets]
    -- There is one index more, and it is held once.
    have hrange : List.range' 1 ((b.openIn place k).nodes.length - 1) =
        List.range' 1 (b.nodes.length - 1) ++ [b.nodes.length] := by
      have hlast : b.nodes.length = 1 + (b.nodes.length - 1) := by omega
      rw [length_openIn, Nat.add_sub_cancel]
      conv_lhs => rw [show b.nodes.length = b.nodes.length - 1 + 1 by omega]
      rw [List.range'_1_concat, ← hlast]
    rw [hsame, hrange]
    exact hheld.trans (h.once.append_right _)

/-! ## Growth at the end -/

/-- Every bracket is still there and holds what it held, and perhaps more behind it. -/
def Extends (b b' : Builder) : Prop :=
  ∀ index node, b.node? index = some node →
    ∃ added, b'.node? index = some { node with members := node.members ++ added }

theorem Extends.refl (b : Builder) : b.Extends b := by
  intro index node h
  exact ⟨[], by rw [h, List.append_nil]⟩

theorem Extends.trans (h : b.Extends b') (h' : b'.Extends b'') : b.Extends b'' := by
  intro index node hn
  obtain ⟨added, hadded⟩ := h index node hn
  obtain ⟨more, hmore⟩ := h' index _ hadded
  exact ⟨added ++ more, by rw [hmore, List.append_assoc]⟩

theorem extends_append (b : Builder) (place : Nat) (m : Member) : b.Extends (b.append place m) := by
  intro index node hn
  rw [node?_append, hn]
  split_ifs
  · exact ⟨[m], rfl⟩
  · exact ⟨[], by rw [List.append_nil]⟩

theorem extends_openIn (b : Builder) (place : Nat) (k : Connective) :
    b.Extends (b.openIn place k) := by
  intro index node hn
  rw [node?_openIn_old b place k (lt_of_node? hn)]
  exact extends_append b place (.bracket b.nodes.length) index node hn

/-! ## Reading by following the brackets -/

mutual

/-- A bracket reads as a condition, by following every bracket that it holds. -/
inductive Reads (b : Builder) : Nat → Condition → Prop
  | bracket {index : Nat} {kind : Connective} {parent : Option Nat} {members : List Member}
    {parts : List Condition} (hn : b.node? index = some ⟨kind, parent, members⟩)
    (h : ReadsAll b members parts) : Reads b index (.group kind parts)

/-- Members read as conditions, one by one. -/
inductive ReadsAll (b : Builder) : List Member → List Condition → Prop
  | nil : ReadsAll b [] []
  | leaf (c : Comparison) {rest : List Member} {parts : List Condition}
    (h : ReadsAll b rest parts) : ReadsAll b (.leaf c :: rest) (.leaf c :: parts)
  | bracket {index : Nat} {rest : List Member} {condition : Condition} {parts : List Condition}
    (h : Reads b index condition) (hrest : ReadsAll b rest parts) :
    ReadsAll b (.bracket index :: rest) (condition :: parts)

end

mutual

theorem Reads.eq (hb : b.Ordered) {index : Nat} {condition : Condition}
    (h : b.Reads index condition) : condition = b.conditionAt index :=
  match h with
  | .bracket hn h => by rw [conditionAt_eq hb hn, h.eq hb]

theorem ReadsAll.eq (hb : b.Ordered) {members : List Member} {parts : List Condition}
    (h : b.ReadsAll members parts) : parts = members.map b.conditionOf :=
  match h with
  | .nil => rfl
  | .leaf c h => by rw [h.eq hb]; rfl
  | .bracket h hrest => by rw [h.eq hb, hrest.eq hb]; rfl

end

theorem readsAll_of_forall {members : List Member}
    (h : ∀ index, .bracket index ∈ members → b.Reads index (b.conditionAt index)) :
    b.ReadsAll members (members.map b.conditionOf) := by
  induction members with
  | nil => exact .nil
  | cons m rest ih =>
    have hrest := ih fun index hindex => h index (List.mem_cons_of_mem _ hindex)
    cases m with
    | leaf c => exact .leaf c hrest
    | bracket index => exact .bracket (h index List.mem_cons_self) hrest

/-- Every bracket can be read: what it holds was opened after it, of which there is an end. -/
theorem reads_conditionAt (hb : b.Ordered) (index : Nat) {outer : Node}
    (hn : b.node? index = some outer) : b.Reads index (b.conditionAt index) := by
  rw [conditionAt_eq hb hn]
  refine .bracket hn (readsAll_of_forall fun inner hinner => ?_)
  obtain ⟨hlt, hlen⟩ := hb index outer hn inner hinner
  exact reads_conditionAt hb inner (List.getElem?_eq_getElem hlen)
termination_by b.nodes.length - index
decreasing_by omega

/-- **Following the brackets comes to an end**, with the condition that was built. -/
theorem reads_iff (h : b.Linked) {condition : Condition} :
    b.Reads root condition ↔ condition = b.build := by
  constructor
  · intro hreads
    exact hreads.eq h.ordered
  · rintro rfl
    obtain ⟨members, hroot⟩ := h.root
    exact reads_conditionAt h.ordered root hroot

/-! ## Leaves -/

/-- The leaves that members read as. -/
def readLeaves (b : Builder) (node : Node) : List Comparison :=
  node.members.flatMap fun m => (b.conditionOf m).leaves

theorem leaves_conditionAt (hb : b.Ordered) {index : Nat} (hn : b.node? index = some node) :
    (b.conditionAt index).leaves = b.readLeaves node := by
  rw [conditionAt_eq hb hn, Condition.leaves, Condition.leavesOf_eq, List.flatMap_map, readLeaves]

/-- A bracket reads as the leaves that it holds and those of the brackets that it holds. -/
theorem readLeaves_perm (b : Builder) (node : Node) : (b.readLeaves node).Perm
    (node.leaves ++ node.brackets.flatMap fun index => (b.conditionAt index).leaves) := by
  rw [readLeaves, Node.leaves, Node.brackets]
  induction node.members with
  | nil => exact .refl _
  | cons m rest ih =>
    cases m with
    | leaf c => exact ih.cons c
    | bracket index =>
      exact (ih.append_left _).trans (List.perm_append_comm_assoc ..)

/-- **The condition that was built has the leaves of all brackets, each once.** -/
theorem leaves_build (h : b.Linked) : b.build.leaves.Perm b.leaves := by
  have hb := h.ordered
  obtain ⟨members, hroot⟩ := h.root
  have hpos := lt_of_node? hroot
  let inside (index : Nat) : List Comparison := (b.conditionAt index).leaves
  -- All brackets read together, once by their members and once by their indexes.
  have hmembers : (b.nodes.flatMap b.readLeaves).Perm (b.leaves ++ b.held.flatMap inside) := by
    rw [leaves, held, List.flatMap_assoc]
    refine .trans ?_ (List.flatMap_append_perm b.nodes _ _).symm
    exact List.Perm.flatMap (.refl _) fun node _ => b.readLeaves_perm node
  have hindexes : b.nodes.flatMap b.readLeaves =
      inside root ++ (List.range' 1 (b.nodes.length - 1)).flatMap inside := by
    have hall : b.nodes.map b.readLeaves = (List.range b.nodes.length).map inside := by
      refine List.ext_getElem (by simp) fun index hindex _ => ?_
      rw [List.length_map] at hindex
      rw [List.getElem_map, List.getElem_map, List.getElem_range]
      exact (leaves_conditionAt hb (List.getElem?_eq_getElem hindex)).symm
    have hrange : List.range b.nodes.length = root :: List.range' 1 (b.nodes.length - 1) := by
      obtain ⟨count, hcount⟩ := Nat.exists_eq_succ_of_ne_zero (Nat.ne_of_gt hpos)
      rw [hcount, Nat.succ_sub_one, List.range_eq_range', List.range'_succ]
      rfl
    rw [List.flatMap_def, hall, ← List.flatMap_def, hrange, List.flatMap_cons]
  rw [hindexes] at hmembers
  exact (List.perm_append_right_iff _).1
    (hmembers.trans ((h.once.flatMap_right inside).append_left b.leaves))

end StoreQuery.Builder
