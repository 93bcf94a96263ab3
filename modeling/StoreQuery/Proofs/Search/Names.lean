import StoreQuery.Proofs.Search.Items
import StoreQuery.Proofs.Search.Leaves
import StoreQuery.Proofs.Text.Split
import StoreQuery.Request.Params

/-!
# The names that a client writes

Where the paths in the condition of a request come from. A search condition names properties, and
below them further properties; a filter item names one property.

**Every path begins with a name that the client wrote** (`exists_name_of_ofParams`), the outermost
one on the way to it, and nothing stands in front of it. No name is changed or refused, except that
`$and` and `$or` are no names in a search condition.
-/

namespace StoreQuery

/-- Whether a text is a name, or a name and more behind a dot. -/
def Path.Begins (name text : String) : Prop := text = name ∨ ∃ more, text = name ++ "." ++ more

namespace Search

open Builder

/-! ## Names -/

mutual

/-- The outermost names of a search condition, in the conditions that it lists too. -/
def fieldNames : Json → List String
  | .obj members =>
    listedNames "$and" members ++ (listedNames "$or" members ++ memberNames members)
  | _ => []

/-- Those in the conditions that the member of a given name lists. -/
def listedNames (name : String) : List (String × Json) → List String
  | [] => []
  | (n, value) :: rest => if n = name then conditionNames value else listedNames name rest

/-- The names of the members that constrain properties. -/
def memberNames : List (String × Json) → List String
  | [] => []
  | (name, _) :: rest =>
    if name = "$and" ∨ name = "$or" then memberNames rest else name :: memberNames rest

/-- Those in an array of conditions. -/
def conditionNames : Json → List String
  | .arr items => allNames items
  | _ => []

def allNames : List Json → List String
  | [] => []
  | item :: items => fieldNames item ++ allNames items

end

/-- The names of filter items. -/
def itemNames (texts : List String) : List String :=
  texts.filterMap fun text => (FilterItem.ofText? text).map (·.path)

/-! ## What is said about a property -/

section Property

variable {path : Path} {op : Operator}

theorem path_valueFormula {value : Json} :
    ∀ c ∈ (valueFormula path op value).leaves, c.path = path := by
  intro c hc
  rw [valueFormula] at hc
  split at hc
  · obtain rfl := List.mem_singleton.1 hc
    rfl
  · cases hc

mutual

theorem path_operandFormula : ∀ {value : Json},
    ∀ c ∈ (operandFormula path op value).leaves, c.path = path
  | .arr items, c, hc => by
    rw [operandFormula] at hc
    split_ifs at hc
    · exact path_operandFormulas c hc
    · exact path_valueFormula c hc
  | .null, c, hc | .bool _, c, hc | .num _, c, hc | .str _, c, hc | .obj _, c, hc => by
    simp only [operandFormula] at hc
    exact path_valueFormula c hc

theorem path_operandFormulas : ∀ {items : List Json},
    ∀ c ∈ Condition.leavesOf (operandFormulas path op items), c.path = path
  | [], _, hc => by cases hc
  | item :: items, c, hc => by
    rcases List.mem_append.1 hc with hc | hc
    · exact path_operandFormula c hc
    · exact path_operandFormulas c hc

end

theorem path_operatorFormulas : ∀ {operators : List (String × Json)},
    ∀ c ∈ Condition.leavesOf (operatorFormulas path operators), c.path = path
  | [], _, hc => by cases hc
  | (token, value) :: rest, c, hc => by
    rw [operatorFormulas] at hc
    split at hc
    · rcases List.mem_append.1 hc with hc | hc
      · exact path_operandFormula c hc
      · exact path_operatorFormulas c hc
    · exact path_operatorFormulas c hc

mutual

/-- What a value says about a property is about this property. -/
theorem path_propertyFormulas : ∀ {value : Json},
    ∀ c ∈ Condition.leavesOf (propertyFormulas path value), c.path = path
  | .obj operators, c, hc => by
    rw [propertyFormulas, Condition.leavesOf_append] at hc
    rcases List.mem_append.1 hc with hc | hc
    · exact path_operatorFormulas c hc
    · exact path_alternativeFormulas c hc
  | .null, c, hc | .bool _, c, hc | .num _, c, hc | .str _, c, hc | .arr _, c, hc => by
    simp only [propertyFormulas, Condition.leavesOf_singleton] at hc
    exact path_valueFormula c hc

theorem path_alternativeFormulas : ∀ {operators : List (String × Json)},
    ∀ c ∈ Condition.leavesOf (alternativeFormulas path operators), c.path = path
  | [], _, hc => by cases hc
  | (name, value) :: rest, c, hc => by
    rw [alternativeFormulas] at hc
    split_ifs at hc
    · cases hc
    · rw [Condition.leavesOf_singleton] at hc
      exact path_propertyFormulas c hc
    · exact path_alternativeFormulas c hc

end

end Property

/-! ## Search conditions -/

/-- A path of a property of one of the names, or below it. -/
def Named (context : Path) (names : List String) (path : Path) : Prop :=
  ∃ name ∈ names, ∃ rest, path = (context.join (.ofText name)).join rest

/-- A path that one of the names leads to, and names that the client wrote further inside. -/
def Spelled (context : Path) (names : List String) (path : Path) : Prop :=
  ∃ name ∈ names, ∃ more, path = context.join (.ofNames (name :: more))

section Spelled

variable {context path : Path} {names names' : List String}

theorem Spelled.mono (h : Spelled context names path) (hsub : ∀ name ∈ names, name ∈ names') :
    Spelled context names' path := by
  obtain ⟨name, hname, more, hpath⟩ := h
  exact ⟨name, hsub name hname, more, hpath⟩

theorem Spelled.named (h : Spelled context names path) : Named context names path := by
  obtain ⟨name, hname, more, hpath⟩ := h
  exact ⟨name, hname, .ofNames more, by rw [hpath, Path.ofNames_cons, Path.join_assoc]⟩

end Spelled

mutual

/-- **The paths in a search condition are spelled by its names**, behind the path at which it
stands. -/
theorem spelled_formula {context : Path} : ∀ {condition : Json},
    ∀ c ∈ (formula context condition).leaves, Spelled context (fieldNames condition) c.path
  | .obj members, c, hc => by
    rw [leaves_object] at hc
    rw [fieldNames]
    rcases List.mem_append.1 hc with hc | hc
    · exact (spelled_listed c hc).mono fun _ h => List.mem_append_left _ h
    · rcases List.mem_append.1 hc with hc | hc
      · exact (spelled_listed c hc).mono fun _ h =>
          List.mem_append_right _ (List.mem_append_left _ h)
      · exact (spelled_members c hc).mono fun _ h =>
          List.mem_append_right _ (List.mem_append_right _ h)
  | .null, _, hc | .bool _, _, hc | .num _, _, hc | .str _, _, hc | .arr _, _, hc => by cases hc

theorem spelled_listed {name : String} {context : Path} : ∀ {members : List (String × Json)},
    ∀ c ∈ Condition.leavesOf (listedFormulas name context members),
      Spelled context (listedNames name members) c.path
  | [], _, hc => by cases hc
  | (n, value) :: rest, c, hc => by
    rw [listedFormulas] at hc
    rw [listedNames]
    split_ifs at hc ⊢
    · exact spelled_conditions c hc
    · exact spelled_listed c hc

theorem spelled_members {context : Path} : ∀ {members : List (String × Json)},
    ∀ c ∈ Condition.leavesOf (memberFormulas context members),
      Spelled context (memberNames members) c.path
  | [], _, hc => by cases hc
  | (name, value) :: rest, c, hc => by
    rw [memberFormulas] at hc
    rw [memberNames]
    split_ifs at hc ⊢
    · exact spelled_members c hc
    · rcases List.mem_append.1 hc with hc | hc
      · -- Names further inside only lengthen the path.
        obtain ⟨more, hmore⟩ := below_field c hc
        exact ⟨name, List.mem_cons_self, more, by rw [hmore, Path.ofNames_cons, Path.join_assoc]⟩
      · exact (spelled_members c hc).mono fun _ h => List.mem_cons_of_mem _ h

/-- What a member says about its property is about this property or one below it. -/
theorem below_field {path : Path} : ∀ {value : Json},
    ∀ c ∈ (fieldFormula path value).leaves, ∃ more, c.path = path.join (.ofNames more)
  | .arr items, c, hc => by
    obtain ⟨name, -, more, hpath⟩ := spelled_all c hc
    exact ⟨_, hpath⟩
  | .null, _, hc => by cases hc
  | .bool _, c, hc | .num _, c, hc | .str _, c, hc | .obj _, c, hc => by
    simp only [fieldFormula] at hc
    exact ⟨[], (path_propertyFormulas c hc).trans (Path.join_root path).symm⟩

theorem spelled_conditions {context : Path} : ∀ {value : Json},
    ∀ c ∈ Condition.leavesOf (conditionFormulas context value),
      Spelled context (conditionNames value) c.path
  | .arr items, c, hc => spelled_all c hc
  | .null, _, hc | .bool _, _, hc | .num _, _, hc | .str _, _, hc | .obj _, _, hc => by cases hc

theorem spelled_all {context : Path} : ∀ {items : List Json},
    ∀ c ∈ Condition.leavesOf (allFormulas context items), Spelled context (allNames items) c.path
  | [], _, hc => by cases hc
  | item :: items, c, hc => by
    rcases List.mem_append.1 hc with hc | hc
    · exact (spelled_formula c hc).mono fun _ h => List.mem_append_left _ h
    · exact (spelled_all c hc).mono fun _ h => List.mem_append_right _ h

end

theorem spelled_addSearch {condition : Json} {b : Builder}
    (h : addSearch root .root condition empty = .ok () b) :
    ∀ c ∈ b.build.leaves, Spelled .root (fieldNames condition) c.path := by
  intro c hc
  obtain ⟨cs, hcs, hbuild⟩ := build_addSearch h
  rw [leaves_build hbuild] at hc
  exact spelled_formula c ((leaves_clauses hcs).subset (List.mem_append_left _ hc))

/-! ## Filter items -/

theorem path_leafClauses {path : Path} {op : Operator} {operand : Operand} {cs : List Clause}
    (h : leafClauses path op operand = .ok cs) : ∀ c ∈ clauseLeaves cs, c.path = path := by
  intro c hc
  rw [clauseLeaves_eq, plain_leafClauses h] at hc
  obtain rfl := List.mem_singleton.1 hc
  rfl

theorem path_append {cs cs' : List Clause} {texts texts' : List String}
    (h : ∀ c ∈ clauseLeaves cs, ∃ name ∈ itemNames texts, c.path = .ofText name)
    (h' : ∀ c ∈ clauseLeaves cs', ∃ name ∈ itemNames texts', c.path = .ofText name) :
    ∀ c ∈ clauseLeaves (cs ++ cs'),
      ∃ name ∈ itemNames (texts ++ texts'), c.path = .ofText name := by
  intro c hc
  rw [itemNames, List.filterMap_append]
  rw [clauseLeaves_append] at hc
  rcases List.mem_append.1 hc with hc | hc
  · obtain ⟨name, hname, hpath⟩ := h c hc
    exact ⟨name, List.mem_append_left _ hname, hpath⟩
  · obtain ⟨name, hname, hpath⟩ := h' c hc
    exact ⟨name, List.mem_append_right _ hname, hpath⟩

theorem path_itemClauses {text : String} {cs : List Clause} (h : itemClauses text = .ok cs) :
    ∀ c ∈ clauseLeaves cs, ∃ name ∈ itemNames [text], c.path = .ofText name := by
  intro c hc
  rw [itemClauses] at h
  cases hitem : FilterItem.ofText? text with
  | none =>
    rw [hitem] at h
    cases h
    cases hc
  | some item =>
    simp only [hitem] at h
    cases hop : Operator.ofToken? item.token with
    | none =>
      rw [hop] at h
      cases h
      cases hc
    | some op =>
      rw [hop] at h
      exact ⟨item.path, by simp [itemNames, hitem], path_leafClauses h c hc⟩

theorem path_itemsClauses : ∀ {texts : List String} {cs : List Clause},
    itemsClauses texts = .ok cs →
      ∀ c ∈ clauseLeaves cs, ∃ name ∈ itemNames texts, c.path = .ofText name
  | [], _, h, c, hc => by cases h; cases hc
  | text :: texts, cs, h, c, hc => by
    obtain ⟨first, hfirst, h⟩ := bind_eq_ok.1 h
    obtain ⟨rest, hrest, h⟩ := bind_eq_ok.1 h
    cases h
    exact path_append (path_itemClauses hfirst) (path_itemsClauses hrest) c hc

theorem path_filterClauses {all some : List String} {cs : List Clause}
    (h : filterClauses all some = .ok cs) :
    ∀ c ∈ clauseLeaves cs, ∃ name ∈ itemNames (all ++ some), c.path = .ofText name := by
  intro c hc
  match all, some with
  | [], [] => cases h; cases hc
  | [], text :: texts =>
    obtain ⟨inner, hinner, rfl⟩ := map_eq_ok.1 h
    rw [clauseLeaves_group] at hc
    exact path_itemsClauses hinner c hc
  | text :: texts, [] =>
    obtain ⟨inner, hinner, rfl⟩ := map_eq_ok.1 h
    rw [clauseLeaves_group] at hc
    rw [List.append_nil]
    exact path_itemsClauses hinner c hc
  | text :: texts, text' :: texts' =>
    obtain ⟨first, hfirst, h⟩ := bind_eq_ok.1 h
    obtain ⟨second, hsecond, h⟩ := bind_eq_ok.1 h
    cases h
    rw [clauseLeaves_group, ← List.singleton_append] at hc
    refine path_append (fun c hc => ?_) (fun c hc => ?_) c hc
    · rw [clauseLeaves_group] at hc
      exact path_itemsClauses hfirst c hc
    · rw [clauseLeaves_group] at hc
      exact path_itemsClauses hsecond c hc

end Search

/-! ## Requests from parameters -/

/-- The outermost names in the condition that parameters give. -/
def Params.fieldNames (params : Params) : List String :=
  match (params.first? "s").filter (· ≠ "") with
  | some text => ((Json.read? text).map Search.fieldNames).getD []
  | none => Search.itemNames (params.values "filter" ++ params.values "or")

namespace Request

open Search

theorem run_of_ofParams {params : Params} {r : Request} (h : ofParams params = .ok r) :
    ∃ b, addCondition params .empty = .ok () b ∧ b.build = r.condition := by
  obtain ⟨condition, hcondition, h⟩ := bind_eq_ok.1 h
  cases h
  rw [conditionOf] at hcondition
  split at hcondition
  · rename_i b hrun
    exact ⟨b, hrun, Except.ok.inj hcondition⟩
  · cases hcondition

theorem spelled_of_ofParams {params : Params} {r : Request} (h : ofParams params = .ok r) :
    ∀ c ∈ r.condition.leaves, Spelled .root params.fieldNames c.path := by
  intro c hc
  obtain ⟨b, hrun, hbuild⟩ := run_of_ofParams h
  rw [← hbuild] at hc
  rw [addCondition] at hrun
  rw [Params.fieldNames]
  cases hsearch : (params.first? "s").filter (· ≠ "") with
  | some text =>
    simp only [hsearch] at hrun ⊢
    cases hread : Json.read? text with
    | some value =>
      simp only [hread] at hrun
      exact spelled_addSearch hrun c hc
    | none =>
      simp only [hread] at hrun
      cases hrun
  | none =>
    simp only [hsearch] at hrun ⊢
    obtain ⟨cs, hcs, hclauses⟩ := (adds_addFilters Builder.root .and _ _).build hrun
    rw [leaves_build hclauses] at hc
    obtain ⟨name, hname, hpath⟩ := path_filterClauses hcs c hc
    exact ⟨name, hname, [], hpath.trans (congrArg Path.mk (List.append_nil _).symm)⟩

/-- The paths in the condition of a request are those of its names, or below them. -/
theorem named_of_ofParams {params : Params} {r : Request} (h : ofParams params = .ok r) :
    ∀ c ∈ r.condition.leaves, Named .root params.fieldNames c.path :=
  fun c hc => (spelled_of_ofParams h c hc).named

/-- **Every path in the condition of a request begins with a name that the client wrote.** -/
theorem exists_name_of_ofParams {params : Params} {r : Request} (h : ofParams params = .ok r) :
    ∀ c ∈ r.condition.leaves, ∃ name ∈ params.fieldNames, Path.Begins name c.path.toText := by
  intro c hc
  obtain ⟨name, hname, rest, hpath⟩ := named_of_ofParams h c hc
  refine ⟨name, hname, ?_⟩
  rw [hpath]
  rcases Path.toText_ofText_join name rest with htext | htext
  · exact .inl htext
  · exact .inr ⟨rest.toText, htext⟩

end Request

/-! ## Searches alone -/

section Alone

variable {text : String} {value : Json}

/-- A text that can be read is not empty, so it is taken for the search condition. -/
theorem Params.search_of_read (h : Json.read? text = some value) :
    ((Params.ofPairs [("s", text)]).first? "s").filter (· ≠ "") = some text := by
  have hne : text ≠ "" := by
    rintro rfl
    cases h
  rw [show (Params.ofPairs [("s", text)]).first? "s" = some text from rfl]
  simp [hne]

/-- The names of a request that gives a search condition only. -/
theorem Params.fieldNames_of_read (h : Json.read? text = some value) :
    Params.fieldNames (.ofPairs [("s", text)]) = Search.fieldNames value := by
  rw [Params.fieldNames]
  simp only [Params.search_of_read h, h]
  rfl

/-- A request with a search condition asks for the parts of its clauses. -/
theorem Request.conditionOf_of_read {params : Params} {cs : List Search.Clause}
    (hsearch : (params.first? "s").filter (· ≠ "") = some text) (h : Json.read? text = some value)
    (hcs : Search.clauses .root value = .ok cs) :
    Request.conditionOf params = .ok (.group .and (Search.Clause.partsOf .and cs)) := by
  have added := Search.adds_addSearch Builder.root .and .root value .empty Builder.ordered_empty
    Builder.hasKind_empty
  rw [hcs] at added
  obtain ⟨b, hrun, grows⟩ := added
  rw [← grows.build, Request.conditionOf, Request.addCondition]
  simp only [hsearch, h, EStateM.run, hrun]

/-- A request that gives a search condition only asks for the parts of its clauses. -/
theorem Request.ofParams_of_read {cs : List Search.Clause} (h : Json.read? text = some value)
    (hcs : Search.clauses .root value = .ok cs) :
    Request.ofParams (.ofPairs [("s", text)]) =
      .ok { condition := .group .and (Search.Clause.partsOf .and cs) } := by
  rw [Request.ofParams, Request.conditionOf_of_read (Params.search_of_read h) h hcs]
  rfl

end Alone

end StoreQuery
