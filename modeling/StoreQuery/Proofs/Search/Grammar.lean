import Mathlib.Data.List.Forall2
import StoreQuery.Proofs.Condition.Growth
import StoreQuery.Proofs.Condition.Insertions
import StoreQuery.Proofs.Search.Agreement
import StoreQuery.Proofs.Text.Split

/-!
# The grammar of filter items

An item is read from the left. Its path ends in front of the first separator, its token in front of
the next one or at the end, and all that follows is its value (`FilterItem.Parts`). So every text
with a separator has parts, just one way of having them, and they join to the text again. What the
value is read as depends on what the operator takes (`FilterItem.Takes`).

A list of items goes into an AND one by one. An item that is not known adds nothing
(`addFilter_unknown`), and a known one adds the comparison that it stands for (`addFilter_known`).
By induction **a list adds just the comparisons of its known items, in their order**
(`addFilterItems_eq_ok`), and it is refused only if one of them has a value that its operator does
not accept.
-/

namespace StoreQuery

namespace FilterItem

/-! ## Parts -/

/-- The parts of a text, read from the left. -/
inductive Parts : String → FilterItem → Prop where
  | valued {text path rest token value : String} (first : Text.FirstCut separator text path rest)
      (second : Text.FirstCut separator rest token value) : Parts text ⟨path, token, some value⟩
  | bare {text path token : String} (first : Text.FirstCut separator text path token)
      (last : ¬ separator.toList <:+: token.toList) : Parts text ⟨path, token, none⟩

variable {text : String} {item : FilterItem}

theorem ofText?_eq_some_iff : ofText? text = some item ↔ Parts text item := by
  constructor
  · intro h
    rw [ofText?] at h
    obtain ⟨⟨path, rest⟩, hfirst, hitem⟩ := Option.map_eq_some_iff.1 h
    have hpath := Text.cutAt_eq_some_iff.1 hfirst
    cases hsecond : Text.cutAt separator rest with
    | none =>
      simp only [hsecond] at hitem
      cases hitem
      exact .bare hpath (Text.cutAt_eq_none_iff.1 hsecond)
    | some parts =>
      simp only [hsecond] at hitem
      cases hitem
      exact .valued hpath (Text.cutAt_eq_some_iff.1 hsecond)
  · intro h
    cases h with
    | valued first second =>
      simp only [ofText?, Text.cutAt_eq_some_iff.2 first, Option.map_some,
        Text.cutAt_eq_some_iff.2 second]
    | bare first last =>
      simp only [ofText?, Text.cutAt_eq_some_iff.2 first, Option.map_some,
        Text.cutAt_eq_none_iff.2 last]

theorem Parts.unique {other : FilterItem} (h : Parts text item) (h' : Parts text other) :
    item = other :=
  Option.some.inj ((ofText?_eq_some_iff.2 h).symm.trans (ofText?_eq_some_iff.2 h'))

/-- The texts that have parts are those with a separator. -/
theorem exists_parts_iff : (∃ item, Parts text item) ↔ separator.toList <:+: text.toList := by
  have hnone : ofText? text = none ↔ ¬ separator.toList <:+: text.toList := by
    rw [ofText?, Option.map_eq_none_iff, Text.cutAt_eq_none_iff]
  simp only [← ofText?_eq_some_iff, ← Option.isSome_iff_exists]
  rw [← not_iff_not, ← hnone, Option.not_isSome_iff_eq_none]

/-- **Nothing of a text is lost**: its parts join to it. -/
theorem Parts.join (h : Parts text item) :
    Text.join separator (item.path :: item.token :: item.value.toList) = text := by
  cases h with
  | valued first second =>
    rw [first.whole, second.whole]
    simp [Text.join, String.append_assoc]
  | bare first last =>
    rw [first.whole]
    rfl

/-! ## Values -/

/-- The operand that an operator takes from the value of an item: the texts between the commas if it
takes a list, the text if it takes a scalar, and null if it takes nothing or there is no value. -/
inductive Takes : OperandShape → Option String → Operand → Prop where
  | vacant (value : Option String) : Takes .vacant value (.one .null)
  | absent (shape : OperandShape) : Takes shape none (.one .null)
  | list {texts : List String} (nonempty : texts ≠ [])
      (separate : ∀ text ∈ texts, ',' ∉ text.toList) :
      Takes .list (some (Text.join "," texts)) (.many (texts.map .text))
  | single (text : String) : Takes .single (some text) (.one (.text text))

theorem takes_iff {op : Operator} {value : Option String} {taken : Operand} :
    Takes op.shape value taken ↔ taken = operand op value := by
  unfold operand
  generalize op.shape = shape
  constructor
  · intro h
    cases h with
    | vacant => rfl
    | absent => cases shape <;> rfl
    | list hne hseparate =>
      have hcut := Text.split_join_of_notMem ',' hne hseparate
      exact congrArg (fun texts => Operand.many (texts.map .text)) hcut.symm
    | single => rfl
  · rintro rfl
    cases shape with
    | vacant => exact .vacant value
    | list =>
      cases value with
      | none => exact .absent .list
      | some text =>
        have hlist := Takes.list (Text.split_ne_nil ',' text) fun _ => Text.notMem_of_mem_split
        have hjoin : Text.join "," (Text.split ',' text) = text := Text.join_split ',' text
        rwa [hjoin] at hlist
    | single =>
      cases value with
      | none => exact .absent .single
      | some text => exact .single text

/-! ## Known items -/

/-- An item has a separator, and the token of an operator behind it. -/
def Known (text : String) : Prop := ∃ item op, Parts text item ∧ Operator.token op = item.token

instance : DecidablePred Known := fun text =>
  decidable_of_iff ((ofText? text).bind fun item => Operator.ofToken? item.token).isSome <| by
    simp only [Known, ← ofText?_eq_some_iff, ← Operator.ofToken?_eq_some_iff,
      Option.isSome_iff_exists, Option.bind_eq_some_iff, exists_and_left]
    exact exists_comm.trans (by simp only [exists_and_left])

/-- A comparison has the path and the operator of an item, and what this operator takes from its
value. -/
def StandsFor (text : String) (c : Comparison) : Prop :=
  ∃ item op taken, Parts text item ∧ Operator.token op = item.token ∧
    Takes op.shape item.value taken ∧ c = ⟨.ofText item.path, op, taken⟩

theorem Known.exists_standsFor (h : Known text) : ∃ c, StandsFor text c := by
  obtain ⟨item, op, hparts, htoken⟩ := h
  exact ⟨_, item, op, operand op item.value, hparts, htoken, takes_iff.2 rfl, rfl⟩

theorem StandsFor.unique {c other : Comparison} (h : StandsFor text c) (h' : StandsFor text other) :
    c = other := by
  obtain ⟨item, op, taken, hparts, htoken, htakes, rfl⟩ := h
  obtain ⟨item', op', taken', hparts', htoken', htakes', rfl⟩ := h'
  obtain rfl := hparts.unique hparts'
  have hop : some op = some op' := by
    rw [← Operator.ofToken?_eq_some_iff.2 htoken, Operator.ofToken?_eq_some_iff.2 htoken']
  cases hop
  rw [takes_iff.1 htakes, takes_iff.1 htakes']

end FilterItem

namespace Builder

open FilterItem

variable {text : String} {texts : List String} {c : Comparison} {b b' : Builder} {here : Nat}

/-! ## One item -/

theorem addFilter_known (h : StandsFor text c) :
    addFilter here text = addField here c.path c.operator c.value := by
  obtain ⟨item, op, taken, hparts, htoken, htakes, rfl⟩ := h
  simp only [addFilter, ofText?_eq_some_iff.2 hparts, Operator.ofToken?_eq_some_iff.2 htoken,
    takes_iff.1 htakes]

theorem addFilter_unknown (h : ¬ Known text) : addFilter here text = pure () := by
  rw [addFilter]
  cases hparts : ofText? text with
  | none => rfl
  | some item =>
    cases htoken : Operator.ofToken? item.token with
    | none => simp only [htoken]
    | some op =>
      exact absurd ⟨item, op, ofText?_eq_some_iff.1 hparts,
        Operator.ofToken?_eq_some_iff.1 htoken⟩ h

theorem addField_eq_ok_iff {node : Node} (hnode : b.node? here = some node) :
    addField here c.path c.operator c.value b = .ok () b' ↔
      c.operator.validate c.value = .ok () ∧ b' = b.append here (.leaf c) := by
  constructor
  · intro run
    obtain ⟨hvalid, -, -, hb'⟩ := addField_eq_ok run
    exact ⟨hvalid, hb'⟩
  · rintro ⟨hvalid, rfl⟩
    rw [addField, Comparison.make, hvalid]
    simp only [hnode]

/-! ## A list of items -/

/-- Leaves at the end of a bracket; all else stays as it is. -/
def appendLeaves (b : Builder) (here : Nat) (leaves : List Comparison) : Builder :=
  ⟨b.nodes.modify here fun node => { node with members := node.members ++ leaves.map .leaf }⟩

theorem appendLeaves_nil (b : Builder) (here : Nat) : b.appendLeaves here [] = b := by
  simp only [appendLeaves, List.map_nil, List.append_nil]
  exact congrArg Builder.mk (List.modify_id ..)

theorem appendLeaves_cons (b : Builder) (here : Nat) (c : Comparison) (leaves : List Comparison) :
    b.appendLeaves here (c :: leaves) = (b.append here (.leaf c)).appendLeaves here leaves := by
  simp only [appendLeaves, append, List.modify_modify_eq]
  congr 2
  funext node
  simp

/-- **A list of items adds just the comparisons of its known items, in their order.** It is accepted
exactly if the operator of each of them accepts the value. -/
theorem addFilterItems_eq_ok {node : Node} (hnode : b.node? here = some node) :
    addFilterItems here texts b = .ok () b' ↔
      ∃ leaves, List.Forall₂ StandsFor (texts.filter Known) leaves ∧
        (∀ c ∈ leaves, c.operator.validate c.value = .ok ()) ∧ b' = b.appendLeaves here leaves := by
  induction texts generalizing b node with
  | nil =>
    have hnil : addFilterItems here [] b = .ok () b' ↔ b' = b := by
      constructor
      · rintro ⟨⟩
        rfl
      · rintro rfl
        rfl
    simp [hnil, appendLeaves_nil]
  | cons text texts ih =>
    have hcons : addFilterItems here (text :: texts) =
      (do addFilter here text; addFilterItems here texts) := rfl
    by_cases hknown : Known text
    · -- The place is still there behind the new leaf, so the others go there too.
      obtain ⟨c, hc⟩ := hknown.exists_standsFor
      have hnext : (b.append here (.leaf c)).node? here =
          some { node with members := node.members ++ [.leaf c] } := by
        rw [node?_append, if_pos rfl, hnode]
        rfl
      rw [hcons, addFilter_known hc, run_bind_eq_ok,
        List.filter_cons_of_pos (by simpa using hknown)]
      constructor
      · rintro ⟨⟨⟩, next, hfirst, hrest⟩
        obtain ⟨hvalid, rfl⟩ := (addField_eq_ok_iff hnode).1 hfirst
        obtain ⟨leaves, hleaves, hvalids, rfl⟩ := (ih hnext).1 hrest
        exact ⟨c :: leaves, .cons hc hleaves, List.forall_mem_cons.2 ⟨hvalid, hvalids⟩,
          (b.appendLeaves_cons here c leaves).symm⟩
      · rintro ⟨_, hall, hvalids, rfl⟩
        cases hall with
        | cons hfirst hrest =>
          obtain rfl := hc.unique hfirst
          obtain ⟨hvalid, hvalids⟩ := List.forall_mem_cons.1 hvalids
          refine ⟨(), _, (addField_eq_ok_iff hnode).2 ⟨hvalid, rfl⟩, (ih hnext).2 ?_⟩
          exact ⟨_, hrest, hvalids, b.appendLeaves_cons here _ _⟩
    · rw [hcons, addFilter_unknown hknown, List.filter_cons_of_neg (by simpa using hknown)]
      exact ih hnode

/-- A list of which all hold goes into an AND as it is. -/
theorem addFilters_of_hasKind (h : b.HasKind here .and) :
    addFilters here texts [] b = addFilterItems here texts b := by
  by_cases htexts : texts = []
  · subst htexts
    rfl
  · have henter := Criterion.enterIf_of_hasKind h true fun inside => addFilterItems inside texts
    rw [(Criterion.addFilters_single htexts here).1, ← henter]
    rfl

/-- **The grammar of filter items.** What a list of items adds to an AND, if it is accepted, are
just the comparisons of the items with a separator and a known token, in their order, behind what
stands there. An item with a separator has its parts in one way only, and they join to the item
again. -/
theorem addFilters_grammar (h : b.HasKind here .and) :
    (∀ b', addFilters here texts [] b = .ok () b' ↔
        ∃ leaves, List.Forall₂ StandsFor (texts.filter Known) leaves ∧
          (∀ c ∈ leaves, c.operator.validate c.value = .ok ()) ∧
          b' = b.appendLeaves here leaves) ∧
      addFilters here texts [] b = addFilterItems here texts b ∧
      (∀ text, separator.toList <:+: text.toList ↔ ∃! item, Parts text item) ∧
      ∀ text item, Parts text item →
        Text.join separator (item.path :: item.token :: item.value.toList) = text := by
  have hsame : addFilters here texts [] b = addFilterItems here texts b :=
    addFilters_of_hasKind h
  obtain ⟨node, hnode, -⟩ := h
  refine ⟨?_, hsame, ?_, ?_⟩
  · intro b'
    rw [hsame]
    exact addFilterItems_eq_ok hnode
  · intro text
    rw [← exists_parts_iff]
    constructor
    · rintro ⟨item, hparts⟩
      exact ⟨item, hparts, fun other hother => hother.unique hparts⟩
    · exact ExistsUnique.exists
  · intro text item hparts
    exact hparts.join

/-- Separators that overlap or stand in a value, a list, a test without a value, a token that is not
known, and a text without a separator. -/
theorem addFilters_grammar_mixed :
    addFilters root ["a.b|||$eq||x", "id||$in||1,2", "plain", "deletedAt||$isnull", "bad||$nope||1",
        "||$cont||a||b"] [] empty =
      .ok () (empty.appendLeaves root
        [⟨⟨["id"]⟩, .isIn, .many [.text "1", .text "2"]⟩, ⟨⟨["deletedAt"]⟩, .isNull, .one .null⟩,
          ⟨⟨[""]⟩, .contains, .one (.text "a||b")⟩]) := by
  refine ((addFilters_grammar hasKind_empty).1 _).2 ⟨_, ?_, ?_, rfl⟩
  · have hknown : ["a.b|||$eq||x", "id||$in||1,2", "plain", "deletedAt||$isnull", "bad||$nope||1",
        "||$cont||a||b"].filter (fun text => decide (Known text)) =
        ["id||$in||1,2", "deletedAt||$isnull", "||$cont||a||b"] := by decide
    rw [hknown]
    refine .cons ?_ (.cons ?_ (.cons ?_ .nil))
    · exact ⟨⟨"id", "$in", some "1,2"⟩, .isIn, _, ofText?_eq_some_iff.1 (by decide), rfl,
        takes_iff.2 rfl, by decide⟩
    · exact ⟨⟨"deletedAt", "$isnull", none⟩, .isNull, _, ofText?_eq_some_iff.1 (by decide), rfl,
        .vacant none, by decide⟩
    · exact ⟨⟨"", "$cont", some "a||b"⟩, .contains, _, ofText?_eq_some_iff.1 (by decide), rfl,
        .single "a||b", by decide⟩
  · exact List.forall_mem_cons.2
      ⟨rfl, List.forall_mem_cons.2 ⟨rfl, List.forall_mem_singleton.2 rfl⟩⟩

end Builder

end StoreQuery
