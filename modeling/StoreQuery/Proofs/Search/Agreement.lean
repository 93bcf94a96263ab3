import StoreQuery.Condition.Filter
import StoreQuery.Proofs.Request.Outcome

/-!
# Filter items and search conditions agree

A property, an operator and the text of a value can be written as a filter item, with `||` between
the three, and as a member of a search condition, with an object of one operator. The value of this
operator is the text; it is cut at its commas for an operator that takes a list, and null for one
that takes nothing.

**Both ways of writing say the same** (`filters_agree`), whatever the texts are: what becomes of the
builder is the same, and so is the error of a value that is not accepted.

* A list of which all hold is one object, with a member for each. Its properties must be different,
  for an object has no two members of one name.
* A list of which one holds is the list of alternatives, with an object for each. A single one would
  be an OR as a filter item, and no bracket as a search condition.

Both meet at the single steps: adding the leaves, one after the other (`addFilterItems_items`,
`addMembers_members`, `addAll_objects`).
-/

namespace StoreQuery

/-! ## Objects -/

namespace Json

theorem setMember_of_notMem {name : String} {value : Json} {members : Members}
    (h : name ∉ members.map (·.1)) : setMember name value members = members ++ [(name, value)] := by
  induction members with
  | nil => rfl
  | cons member rest ih =>
    obtain ⟨hname, hrest⟩ := not_or.1 (mt List.mem_cons.2 h)
    rw [setMember, if_neg (Ne.symm hname), ih hrest]
    rfl

/-- Pairs with different names are the members of an object as they are. -/
theorem membersOf_of_nodup {pairs : List (String × Json)} (h : (pairs.map (·.1)).Nodup) :
    membersOf pairs = pairs := by
  suffices hinit : ∀ init : Members, ((init ++ pairs).map (·.1)).Nodup →
      pairs.foldl (fun members pair => setMember pair.1 pair.2 members) init =
        init ++ pairs from hinit [] h
  induction pairs with
  | nil => exact fun init _ => (List.append_nil init).symm
  | cons pair rest ih =>
    intro init hinit
    have hnew : pair.1 ∉ init.map (·.1) := by
      rw [List.map_append, List.map_cons] at hinit
      intro hmem
      exact (List.nodup_append.1 hinit).2.2 _ hmem _ List.mem_cons_self rfl
    have hmove : init ++ pair :: rest = init ++ [(pair.1, pair.2)] ++ rest := by simp
    rw [hmove] at hinit ⊢
    rw [List.foldl_cons, ← ih (List.nodup_cons.1 h).2 _ hinit, ← setMember_of_notMem hnew]

end Json

/-! ## Tokens -/

namespace Operator

theorem ofToken?_token (op : Operator) : ofToken? op.token = some op := by
  cases op <;> decide

theorem ofToken?_eq_some_iff {text : String} {op : Operator} :
    ofToken? text = some op ↔ op.token = text := by
  constructor
  · intro h
    simpa using List.find?_some h
  · rintro rfl
    exact op.ofToken?_token

theorem bar_notMem_token (op : Operator) : '|' ∉ op.token.toList := by
  cases op <;> decide

theorem token_ne_or (op : Operator) : op.token ≠ "$or" := by
  cases op <;> decide

end Operator

/-! ## Two ways of writing -/

/-- A property, an operator and the text of a value. -/
structure Criterion where
  field : String
  operator : Operator
  text : String

namespace Criterion

/-- The name can stand in front of a separator, and names a property in a search condition. -/
structure Writable (c : Criterion) : Prop where
  separate : '|' ∉ c.field.toList
  notAnd : c.field ≠ "$and"
  notOr : c.field ≠ "$or"

/-- As a filter item. -/
def item (c : Criterion) : String :=
  c.field ++ FilterItem.separator ++ (c.operator.token ++ FilterItem.separator ++ c.text)

/-- The text as a value of the operator. -/
def value (c : Criterion) : Json :=
  match c.operator.shape with
  | .single => .str c.text
  | .list => .arr ((Text.split ',' c.text).map .str)
  | .vacant => .null

/-- As a member of a search condition. -/
def member (c : Criterion) : String × Json := (c.field, .obj [(c.operator.token, c.value)])

/-- All of them as one search condition. -/
def allOf (cs : List Criterion) : Json := .obj (Json.membersOf (cs.map member))

/-- Each of them as a search condition of its own, of which one holds. -/
def anyOf (cs : List Criterion) : Json := .obj [("$or", .arr (cs.map fun c => allOf [c]))]

open Builder

/-- The step that both ways of writing come to. -/
def add (here : Nat) (c : Criterion) : Step Unit :=
  addField here (.ofText c.field) c.operator (FilterItem.operand c.operator (some c.text))

variable {c : Criterion} {cs : List Criterion}

/-! ## Filter items -/

theorem ofText?_item (h : c.Writable) :
    FilterItem.ofText? c.item = some ⟨c.field, c.operator.token, some c.text⟩ := by
  have hsep : FilterItem.separator.toList = ['|', '|'] := by decide
  have hcut := Text.cutAt_append hsep h.separate
    (c.operator.token ++ FilterItem.separator ++ c.text)
  have hcut' := Text.cutAt_append hsep c.operator.bar_notMem_token c.text
  rw [FilterItem.ofText?, item, hcut, Option.map_some]
  simp only [hcut']

theorem addFilter_item (h : c.Writable) (here : Nat) : addFilter here c.item = c.add here := by
  rw [addFilter, ofText?_item h]
  simp only [Operator.ofToken?_token]
  rfl

theorem addFilterItems_items (h : ∀ c ∈ cs, c.Writable) (here : Nat) :
    addFilterItems here (cs.map item) = cs.forM (add here) := by
  induction cs with
  | nil => rfl
  | cons c cs ih =>
    obtain ⟨hc, hcs⟩ := List.forall_mem_cons.1 h
    have hrest := ih hcs
    show (do addFilter here c.item; addFilterItems here (cs.map item)) =
      (do c.add here; cs.forM (add here))
    rw [addFilter_item hc, hrest]

/-! ## Members of a search condition -/

theorem ofJson?_value (c : Criterion) :
    Operand.ofJson? c.value = some (FilterItem.operand c.operator (some c.text)) := by
  have htexts : ∀ texts : List String, (texts.map Json.str).mapM Scalar.ofJson? =
      some (texts.map Scalar.text) := by
    intro texts
    induction texts with
    | nil => rfl
    | cons text texts ih =>
      rw [List.map_cons, List.mapM_cons, ih]
      rfl
  unfold value FilterItem.operand
  cases c.operator.shape with
  | single => rfl
  | list => simp only [Operand.ofJson?, htexts, Option.map_some]
  | vacant => rfl

theorem addOperand_value (c : Criterion) (here : Nat) (path : Path) :
    addOperand here path c.operator c.value =
      addField here path c.operator (FilterItem.operand c.operator (some c.text)) := by
  have hvalue : addValue here path c.operator c.value =
      addField here path c.operator (FilterItem.operand c.operator (some c.text)) := by
    rw [addValue, ofJson?_value]
  rw [← hvalue, value]
  cases hshape : c.operator.shape with
  | single => rfl
  | list => simp only [addOperand, hshape, reduceCtorEq, if_false]
  | vacant => rfl

/-- What a member says about its property is one comparison. -/
theorem addMember_member (c : Criterion) (here : Nat) :
    addMember here (.ofText c.field) c.member.2 = c.add here := by
  have hoperators : addOperators here (.ofText c.field) [(c.operator.token, c.value)] =
      c.add here := by
    simp only [addOperators, Operator.ofToken?_token, addOperand_value, bind_pure_unit]
    rfl
  have halternatives : addAlternatives here (.ofText c.field) [(c.operator.token, c.value)] =
      pure () := by
    rw [addAlternatives, if_neg c.operator.token_ne_or, addAlternatives]
  show addMember here _ (.obj _) = _
  rw [addMember, addProperty, hoperators, halternatives, bind_pure_unit]
  · rintro ⟨⟩
  · rintro _ ⟨⟩

theorem addMembers_members (h : ∀ c ∈ cs, c.Writable) (here : Nat) :
    addMembers here .root (cs.map member) = cs.forM (add here) := by
  induction cs with
  | nil => rfl
  | cons c cs ih =>
    obtain ⟨hc, hcs⟩ := List.forall_mem_cons.1 h
    have hrest := ih hcs
    have hname : ¬ (c.field = "$and" ∨ c.field = "$or") := not_or.2 ⟨hc.notAnd, hc.notOr⟩
    have hfirst : addMember here (Path.root.join (.ofText c.field)) c.member.2 = c.add here :=
      c.addMember_member here
    show addMembers here .root ((c.field, c.member.2) :: cs.map member) =
      (do c.add here; cs.forM (add here))
    rw [addMembers, if_neg hname, hfirst, hrest]

theorem lookup_members {name : String} (h : ∀ c ∈ cs, c.field ≠ name) :
    (cs.map member).lookup name = none := by
  induction cs with
  | nil => rfl
  | cons c cs ih =>
    obtain ⟨hc, hcs⟩ := List.forall_mem_cons.1 h
    rw [List.map_cons, member, List.lookup_cons, beq_false_of_ne (Ne.symm hc)]
    exact ih hcs

/-- One object enters an AND if it has several members. -/
theorem addSearch_allOf (h : ∀ c ∈ cs, c.Writable) (hfields : (cs.map field).Nodup) (here : Nat) :
    addSearch here .root (allOf cs) =
      (do let inside ← enterIf (1 < cs.length) .and here; cs.forM (add inside)) := by
  have hnames : ((cs.map member).map (·.1)).Nodup := by
    rw [List.map_map]
    exact hfields
  rw [allOf, Json.membersOf_of_nodup hnames, addSearch,
    lookup_members fun c hc => (h c hc).notAnd, lookup_members fun c hc => (h c hc).notOr]
  simp only [addMembers_members h, List.length_map]

/-- Objects of one member each add the leaves one after the other. -/
theorem addAll_objects (h : ∀ c ∈ cs, c.Writable) (here : Nat) :
    addAll here .root (cs.map fun c => allOf [c]) = cs.forM (add here) := by
  induction cs with
  | nil => rfl
  | cons c cs ih =>
    obtain ⟨hc, hcs⟩ := List.forall_mem_cons.1 h
    have hfirst : addSearch here .root (allOf [c]) = c.add here := by
      rw [addSearch_allOf (List.forall_mem_singleton.2 hc)
        (List.nodup_cons.2 ⟨List.not_mem_nil, .nil⟩)]
      show (do c.add here; pure ()) = c.add here
      exact bind_pure_unit
    rw [List.map_cons, addAll, hfirst, ih hcs]
    rfl

/-- The list of alternatives enters an OR if it is one of several. -/
theorem addSearch_anyOf (h : ∀ c ∈ cs, c.Writable) (here : Nat) :
    addSearch here .root (anyOf cs) =
      (do let inside ← enterIf (1 < cs.length) .or here; cs.forM (add inside)) := by
  have hand : ∀ list : Json, [("$or", list)].lookup "$and" = none := fun _ => rfl
  have hor : ∀ list : Json, [("$or", list)].lookup "$or" = some list := fun _ => rfl
  rw [anyOf, addSearch, hand, hor]
  simp only [conditionCount, List.length_map, List.length_singleton, if_true, pure_bind, addListed,
    addConditions, addAll_objects h]

end Criterion

/-! ## Agreement -/

namespace Params

/-- The parameters give two lists of filter items, and no search condition. -/
structure Lists (params : Params) (all either : List String) : Prop where
  search : (params.first? "s").filter (· ≠ "") = none
  all : params.values "filter" = all
  either : params.values "or" = either

/-- The parameters give a search condition. -/
def Searches (params : Params) (condition : Json) : Prop :=
  ∃ text, (params.first? "s").filter (· ≠ "") = some text ∧ Json.read? text = some condition

end Params

namespace Criterion

open Builder

theorem addCondition_lists {params : Params} {all either : List String}
    (h : params.Lists all either) :
    Request.addCondition params = addFilters root all either := by
  rw [Request.addCondition, h.search, h.all, h.either]

theorem addCondition_searches {params : Params} {condition : Json}
    (h : params.Searches condition) :
    Request.addCondition params = addSearch root .root condition := by
  obtain ⟨text, hsearch, hread⟩ := h
  rw [Request.addCondition]
  simp only [hsearch, hread]

/-- A bracket of the kind at hand is not opened again, whether it is called for or not. -/
theorem enterIf_of_hasKind {α : Type} {b : Builder} {here : Nat} {k : Connective}
    (h : b.HasKind here k) (wanted : Bool) (f : Nat → Step α) :
    (do let inside ← enterIf wanted k here; f inside) b = f here b := by
  obtain ⟨node, hnode, hkind⟩ := h
  cases wanted with
  | false => rfl
  | true =>
    have henter : enter k here b = .ok here b := by
      rw [enter, hnode]
      exact if_pos hkind
    simp only [enterIf, if_true, bind, EStateM.bind, henter]

variable {cs : List Criterion}

theorem addFilters_single {texts : List String} (hne : texts ≠ []) (here : Nat) :
    addFilters here texts [] = (do let inside ← enter .and here; addFilterItems inside texts) ∧
      addFilters here [] texts =
        (do let inside ← enter .or here; addFilterItems inside texts) := by
  cases texts with
  | nil => exact absurd rfl hne
  | cons text texts => exact ⟨rfl, rfl⟩

theorem enter_items (h : ∀ c ∈ cs, c.Writable) (k : Connective) (here : Nat) :
    (do let inside ← enter k here; addFilterItems inside (cs.map item)) =
      (do let inside ← enterIf true k here; cs.forM (add inside)) := by
  simp only [addFilterItems_items h, enterIf, if_true]

/-- **Filter items and search conditions agree.** Items that all hold and one object with a member
for each do the same in an AND bracket of any builder; items of which one holds and the alternatives
of a search condition do the same everywhere. So parameters that give the one or the other have one
condition, or one error. -/
theorem filters_agree (hne : cs ≠ []) (h : ∀ c ∈ cs, c.Writable) (hfields : (cs.map field).Nodup) :
    (∀ b here, b.HasKind here .and →
        addFilters here (cs.map item) [] b = addSearch here .root (allOf cs) b) ∧
      (2 ≤ cs.length → ∀ here,
        addFilters here [] (cs.map item) = addSearch here .root (anyOf cs)) ∧
      ∀ params params' : Params,
        (params.Lists (cs.map item) [] → params'.Searches (allOf cs) →
          Request.conditionOf params = Request.conditionOf params') ∧
        (2 ≤ cs.length → params.Lists [] (cs.map item) → params'.Searches (anyOf cs) →
          Request.conditionOf params = Request.conditionOf params') := by
  have hitems : cs.map item ≠ [] := mt List.map_eq_nil_iff.1 hne
  have hall : ∀ b here, b.HasKind here .and →
      addFilters here (cs.map item) [] b = addSearch here .root (allOf cs) b := by
    intro b here hhere
    rw [(addFilters_single hitems here).1, enter_items h, addSearch_allOf h hfields,
      enterIf_of_hasKind hhere, enterIf_of_hasKind hhere]
  have hany : 2 ≤ cs.length → ∀ here,
      addFilters here [] (cs.map item) = addSearch here .root (anyOf cs) := by
    intro hlength here
    have hwanted : decide (1 < cs.length) = true := decide_eq_true hlength
    rw [(addFilters_single hitems here).2, enter_items h, addSearch_anyOf h, hwanted]
  refine ⟨hall, hany, fun params params' => ⟨?_, ?_⟩⟩
  · intro hlists hsearches
    rw [Request.conditionOf, Request.conditionOf, addCondition_lists hlists,
      addCondition_searches hsearches]
    have hroot := hall .empty root hasKind_empty
    simp only [EStateM.run, hroot]
  · intro hlength hlists hsearches
    rw [Request.conditionOf, Request.conditionOf, addCondition_lists hlists,
      addCondition_searches hsearches, hany hlength]

/-- A list, a text with separators and commas, and a test that takes no value. -/
def mixed : List Criterion :=
  [⟨"a.b", .between, "1,2"⟩, ⟨"", .isNull, "x"⟩, ⟨"note", .contains, "a||b,c"⟩]

theorem filters_agree_mixed :
    addFilters root ["a.b||$between||1,2", "||$isnull||x", "note||$cont||a||b,c"] [] empty =
        addSearch root .root (.obj
          [("a.b", .obj [("$between", .arr [.str "1", .str "2"])]),
            ("", .obj [("$isnull", .null)]),
            ("note", .obj [("$cont", .str "a||b,c")])]) empty ∧
      (∀ here, addFilters here [] (mixed.map item) = addSearch here .root (anyOf mixed)) ∧
      Request.conditionOf (.ofPairs (mixed.map fun c => ("or", c.item))) =
        Request.conditionOf (.ofPairs [("s", (anyOf mixed).compact)]) := by
  have hwritable : ∀ c ∈ mixed, c.Writable := by
    simp only [mixed, List.forall_mem_cons]
    exact ⟨⟨by decide, by decide, by decide⟩, ⟨by decide, by decide, by decide⟩,
      ⟨by decide, by decide, by decide⟩, nofun⟩
  obtain ⟨hall, hany, hparams⟩ := filters_agree (List.cons_ne_nil _ _) hwritable (by decide)
  have hread : Json.read? (anyOf mixed).compact = some (anyOf mixed) := by cbv
  refine ⟨hall empty root hasKind_empty, hany (by decide), (hparams _ _).2 (by decide) ?_ ?_⟩
  · exact ⟨by decide, rfl, by decide⟩
  · exact ⟨_, Params.search_of_read hread, hread⟩

end Criterion

end StoreQuery
