import StoreQuery.Proofs.Sql.Placeholders
import StoreQuery.Proofs.Sql.Stages
import StoreQuery.Proofs.Text.Numbered

/-!
# Every leaf has parameters of its own

A leaf binds its value under a name that is made from its column and a number, and the bounds of a
range under this name with an end behind it. Other leaves may be on the same column, or on one whose
name looks as if such a number or end were behind it.

**No two leaves share a name, and no name is bound for nothing** (`build_parameters`):

* The number is chosen so that neither the name nor the lower bound of that name is in use
  (`hasName_parameterName`).
* The upper bound need not be looked for: a name that ends in a digit is no upper bound, so there is
  never an upper bound without the lower bound (`Paired`).
* What is bound later leaves alone what is there. `Supplied` says so of any run of leaves, and runs
  one after the other make a longer run (`Supplied.trans`).

The names are also those of the placeholders in the condition. Here it matters that columns and
aliases are made of letters, digits and underscores.
-/

namespace StoreQuery.Sql

/-! ## Free names -/

/-- The name of the lower bound of a range. -/
def startOf (parameter : String) : String := parameter ++ "_start"

/-- The name of the upper bound of a range. -/
def endOf (parameter : String) : String := parameter ++ "_end"

theorem hasName_eq_true {d : Dict Operand} {name : String} :
    Query.hasName d name = true ↔ name ∈ d.keys ∨ startOf name ∈ d.keys := by
  rw [Query.hasName, Bool.or_eq_true, Dict.contains_iff_mem_keys, Dict.contains_iff_mem_keys]
  rfl

theorem hasName_eq_false {d : Dict Operand} {name : String} :
    Query.hasName d name = false ↔ name ∉ d.keys ∧ startOf name ∉ d.keys := by
  rw [← Bool.not_eq_true, hasName_eq_true, not_or]

/-- **The name of a parameter is free, and so is the lower bound of that name.** -/
theorem hasName_parameterName (used bound : Dict Operand) (column : String) :
    Query.hasName used (parameterName used bound column) = false ∧
      Query.hasName bound (parameterName used bound column) = false := by
  let naming (n : Nat) : String := column ++ "_" ++ Text.ofNat n
  let taken (name : String) : Prop :=
    Query.hasName used name = true ∨ Query.hasName bound name = true
  -- A name in use rules out itself, and the name of which it is the lower bound.
  let rulesOut : String × Bool → String → Prop
    | (key, false), name => key = name
    | (key, true), name => key = startOf name
  let keys : List String := used.keys ++ bound.keys
  let things : List (String × Bool) := keys.flatMap fun key => [(key, false), (key, true)]
  have hmem : ∀ key ∈ keys, ∀ b, (key, b) ∈ things := by
    intro key hkey b
    refine List.mem_flatMap.2 ⟨key, hkey, ?_⟩
    cases b <;> simp
  have hruled : ∀ name, taken name → ∃ thing ∈ things, rulesOut thing name := by
    rintro name (h | h)
    · rcases hasName_eq_true.1 h with h | h
      · exact ⟨_, hmem _ (List.mem_append_left _ h) false, rfl⟩
      · exact ⟨_, hmem _ (List.mem_append_left _ h) true, rfl⟩
    · rcases hasName_eq_true.1 h with h | h
      · exact ⟨_, hmem _ (List.mem_append_right _ h) false, rfl⟩
      · exact ⟨_, hmem _ (List.mem_append_right _ h) true, rfl⟩
  have hone : ∀ thing name other, rulesOut thing name → rulesOut thing other → name = other := by
    rintro ⟨key, _ | _⟩ name other h h'
    · exact Eq.trans (Eq.symm h) h'
    · exact (String.append_left_inj _).1 (Eq.trans (Eq.symm h) h')
  have hcount : things.length < 2 * (used.size + bound.size) + 1 := by
    simp only [things, keys, List.length_flatMap, List.length_cons, List.length_nil,
      List.map_const', List.sum_replicate_nat, List.length_append, Dict.length_keys]
    omega
  have hnaming : naming.Injective := fun m n h =>
    Text.ofNat_injective ((String.append_right_inj _).1 h)
  obtain ⟨n, hn, hfree⟩ := Text.exists_free_naming things rulesOut hruled hone hcount hnaming
  let test (n : Nat) : Bool :=
    !Query.hasName used (naming n) && !Query.hasName bound (naming n)
  have hpasses : test (0 + n) = true := by simpa [test, taken] using hfree
  have hfound := Text.firstFrom_passes hn hpasses
  exact ((Bool.and_eq_true _ _).mp hfound).imp (Bool.not_eq_true' _).mp (Bool.not_eq_true' _).mp

/-! ## What leaves bind -/

/-- What an operator binds for a value, under the name of a parameter: the value itself, a pattern
made from its text, or two bounds. -/
inductive Binds (parameter : String) : Operator → Operand → List (String × Operand) → Prop
  | compared {op : Operator}
    (hop : op ∈ [.eq, .neq, .gt, .gte, .lt, .lte, .eqLower, .neqLower]) (scalar : Scalar) :
    Binds parameter op (.one scalar) [(parameter, .one scalar)]
  | starting {op : Operator} (hop : op ∈ [.starts, .startsLower]) (scalar : Scalar) :
    Binds parameter op (.one scalar) [(parameter, .one (.text (scalar.toText ++ "%")))]
  | ending {op : Operator} (hop : op ∈ [.ends, .endsLower]) (scalar : Scalar) :
    Binds parameter op (.one scalar) [(parameter, .one (.text ("%" ++ scalar.toText)))]
  | containing {op : Operator}
    (hop : op ∈ [.contains, .notContains, .containsLower, .notContainsLower]) (scalar : Scalar) :
    Binds parameter op (.one scalar) [(parameter, .one (.text ("%" ++ scalar.toText ++ "%")))]
  | listed {op : Operator} (hop : op ∈ [.isIn, .notIn, .inLower, .notInLower])
    (scalars : List Scalar) : Binds parameter op (.many scalars) [(parameter, .many scalars)]
  | ranged (low high : Scalar) :
    Binds parameter .between (.many [low, high])
      [(startOf parameter, .one low), (endOf parameter, .one high)]
  | tested {op : Operator} (hop : op ∈ [.isNull, .notNull]) (value : Operand) :
    Binds parameter op value []

theorem binds_leafParameters {op : Operator} {value : Operand} (h : op.validate value = .ok ())
    (parameter : String) : Binds parameter op value (leafParameters op value parameter) := by
  cases op with
  | eq | neq | gt | gte | lt | lte | eqLower | neqLower =>
    cases value with
    | one scalar => exact .compared (by decide) scalar
    | many _ => cases h
  | starts | startsLower =>
    cases value with
    | one scalar => exact .starting (by decide) scalar
    | many _ => cases h
  | ends | endsLower =>
    cases value with
    | one scalar => exact .ending (by decide) scalar
    | many _ => cases h
  | contains | notContains | containsLower | notContainsLower =>
    cases value with
    | one scalar => exact .containing (by decide) scalar
    | many _ => cases h
  | isIn | notIn | inLower | notInLower =>
    cases value with
    | one _ => cases h
    | many scalars => exact .listed (by decide) scalars
  | between =>
    match value with
    | .one _ => cases h
    | .many [low, high] => exact .ranged low high
    | .many [] | .many [_] => cases h
    | .many (_ :: _ :: _ :: _) => simp [Operator.validate, Operator.shape] at h
  | isNull | notNull => exact .tested (by decide) value

/-- A leaf of a condition, with the name under which its value is bound. -/
structure Use where
  comparison : Comparison
  parameter : String

namespace Use

/-- What is bound for the leaf. -/
def entries (use : Use) : List (String × Operand) :=
  leafParameters use.comparison.operator use.comparison.value use.parameter

/-- The names under which something is bound for the leaf. -/
def names (use : Use) : List String := use.entries.map (·.1)

/-- The condition of the leaf, on a column under the alias of its chain. -/
def text (schema : Schema) (main : String) (use : Use) : String :=
  leafText schema use.comparison.operator
    (aliasPath main use.comparison.path.base ++ "." ++ use.comparison.path.name) use.parameter

theorem names_cases (use : Use) : use.names = [] ∨ use.names = [use.parameter] ∨
    use.names = [startOf use.parameter, endOf use.parameter] := by
  rw [names, entries]
  cases use.comparison.operator with
  | between => exact .inr (.inr rfl)
  | isNull | notNull => exact .inl rfl
  | _ => exact .inr (.inl rfl)

end Use

/-! ## Runs of leaves -/

/-- The names under which something is bound for leaves. -/
def namesOf (uses : List Use) : List String := uses.flatMap Use.names

/-- There is no upper bound of a range without the lower one. -/
def Paired (bound : Dict Operand) : Prop :=
  ∀ parameter, endOf parameter ∈ bound.keys → startOf parameter ∈ bound.keys

/-- All leaves have found free names, and what was bound for them is there. -/
structure Supplied (bound : Dict Operand) (uses : List Use) (bound' : Dict Operand) : Prop where
  paired : Paired bound'
  keys : ∀ name, name ∈ bound'.keys ↔ name ∈ bound.keys ∨ name ∈ namesOf uses
  fresh : ∀ name ∈ namesOf uses, name ∉ bound.keys
  nodup : (namesOf uses).Nodup
  kept : ∀ name, name ∉ namesOf uses → bound'.find? name = bound.find? name
  found : ∀ use ∈ uses, ∀ entry ∈ use.entries, bound'.find? entry.1 = some entry.2

namespace Supplied

variable {bound bound' bound'' : Dict Operand} {uses uses' : List Use}

theorem nil (h : Paired bound) : Supplied bound [] bound where
  paired := h
  keys name := by simp [namesOf]
  fresh := nofun
  nodup := .nil
  kept _ _ := rfl
  found := nofun

theorem trans (h : Supplied bound uses bound') (h' : Supplied bound' uses' bound'') :
    Supplied bound (uses ++ uses') bound'' := by
  have happend : namesOf (uses ++ uses') = namesOf uses ++ namesOf uses' := List.flatMap_append
  refine ⟨h'.paired, ?keys, ?fresh, ?nodup, ?kept, ?found⟩
  case keys =>
    intro name
    rw [h'.keys, h.keys, happend, List.mem_append, or_assoc]
  case fresh =>
    intro name hname hbound
    rw [happend, List.mem_append] at hname
    rcases hname with hname | hname
    · exact h.fresh name hname hbound
    · exact h'.fresh name hname ((h.keys name).2 (.inl hbound))
  case nodup =>
    rw [happend]
    refine List.nodup_append.2 ⟨h.nodup, h'.nodup, fun name hname other hother hsame => ?_⟩
    exact h'.fresh other hother ((h.keys other).2 (.inr (hsame ▸ hname)))
  case kept =>
    intro name hname
    rw [happend, List.mem_append, not_or] at hname
    rw [h'.kept name hname.2, h.kept name hname.1]
  case found =>
    intro use huse entry hentry
    rcases List.mem_append.1 huse with huse | huse
    · -- Later leaves do not bind the names of this one.
      have hname : entry.1 ∈ namesOf uses :=
        List.mem_flatMap.2 ⟨use, huse, List.mem_map_of_mem hentry⟩
      have hother : entry.1 ∉ namesOf uses' :=
        fun hmem => h'.fresh _ hmem ((h.keys _).2 (.inr hname))
      rw [h'.kept _ hother, h.found use huse entry hentry]
    · exact h'.found use huse entry hentry

end Supplied

/-! ## Single leaves -/

theorem getLast?_endOf (parameter : String) : (endOf parameter).toList.getLast? = some 'd' := by
  rw [endOf, String.toList_append, List.getLast?_append]
  rfl

theorem endOf_ne_startOf (parameter other : String) : endOf parameter ≠ startOf other := by
  intro h
  have hlast := getLast?_endOf parameter
  rw [h, startOf, String.toList_append, List.getLast?_append] at hlast
  cases hlast

/-- A name that ends in a number is no upper bound. -/
theorem endOf_ne_numbered (parameter column : String) (n : Nat) :
    endOf parameter ≠ column ++ "_" ++ Text.ofNat n := by
  intro h
  have hlast := getLast?_endOf parameter
  rw [h, String.toList_append, List.getLast?_append] at hlast
  cases hdigits : (Text.ofNat n).toList.getLast? with
  | none =>
    rw [List.getLast?_eq_none_iff, String.toList_eq_nil_iff] at hdigits
    exact Text.ofNat_ne_empty n hdigits
  | some c =>
    rw [hdigits, Option.some_or] at hlast
    cases hlast
    have hmem := List.mem_of_getLast? hdigits
    rw [Text.ofNat, String.toList_ofList] at hmem
    have hdigit := Nat.isDigit_of_mem_toDigits (by decide) (by decide) hmem
    exact absurd hdigit (by decide)

namespace Use

theorem nodup_names (use : Use) : use.names.Nodup := by
  rcases use.names_cases with h | h | h
  · rw [h]
    exact .nil
  · rw [h]
    exact List.nodup_singleton _
  · rw [h]
    simpa using (endOf_ne_startOf use.parameter use.parameter).symm

/-- With a free name all names of the leaf are free: the upper bound of a range is, because the
lower one is. -/
theorem notMem_keys {use : Use} {bound : Dict Operand} (hpaired : Paired bound)
    (hfree : Query.hasName bound use.parameter = false) :
    ∀ name ∈ use.names, name ∉ bound.keys := by
  obtain ⟨hparameter, hstart⟩ := hasName_eq_false.1 hfree
  intro name hname
  rcases use.names_cases with h | h | h
  · rw [h] at hname
    cases hname
  · rw [h] at hname
    obtain rfl := List.mem_singleton.1 hname
    exact hparameter
  · rw [h] at hname
    rcases List.mem_pair.1 hname with rfl | rfl
    · exact hstart
    · exact mt (hpaired _) hstart

/-- An upper bound among the names of a leaf stands beside the lower one. -/
theorem startOf_mem_names {use : Use} {parameter : String}
    (hnumbered : ∃ column n, use.parameter = column ++ "_" ++ Text.ofNat n)
    (h : endOf parameter ∈ use.names) : startOf parameter ∈ use.names := by
  obtain ⟨column, n, hname⟩ := hnumbered
  rcases use.names_cases with hnames | hnames | hnames
  · rw [hnames] at h
    cases h
  · rw [hnames, List.mem_singleton, hname] at h
    exact absurd h (endOf_ne_numbered parameter column n)
  · rw [hnames] at h ⊢
    rcases List.mem_pair.1 h with hstart | hsame
    · exact absurd hstart (endOf_ne_startOf parameter use.parameter)
    · obtain rfl := (String.append_left_inj _).1 hsame
      exact List.mem_cons_self

end Use

/-- **A leaf with a free name is supplied.** -/
theorem supplied_single {bound : Dict Operand} {use : Use} (hpaired : Paired bound)
    (hfree : Query.hasName bound use.parameter = false)
    (hnumbered : ∃ column n, use.parameter = column ++ "_" ++ Text.ofNat n) :
    Supplied bound [use] (bound.insertAll use.entries) := by
  have hnames : namesOf [use] = use.names := List.flatMap_singleton ..
  refine ⟨?paired, fun name => ?keys, ?fresh, ?nodup, ?kept, ?found⟩
  case paired =>
    intro parameter hparameter
    rw [Dict.mem_keys_insertAll_iff] at hparameter ⊢
    exact hparameter.imp (hpaired parameter) (Use.startOf_mem_names hnumbered)
  case keys => rw [hnames, Dict.mem_keys_insertAll_iff, Use.names]
  case fresh =>
    rw [hnames]
    exact Use.notMem_keys hpaired hfree
  case nodup =>
    rw [hnames]
    exact use.nodup_names
  case kept =>
    intro name hname
    rw [hnames] at hname
    exact Dict.find?_insertAll_of_notMem hname
  case found =>
    intro other hother entry hentry
    obtain rfl := List.mem_singleton.1 hother
    exact Dict.find?_insertAll_of_mem other.nodup_names hentry

/-! ## Conditions -/

variable {schema : Schema} {entity main : String} {r : Request} {q : Query}

/-- The leaves of a condition that are taken into a statement. -/
def takenLeaves (schema : Schema) (entity : String) (leaves : List Comparison) : List Comparison :=
  leaves.filter fun c => takes schema entity .condition c.path

/-- The operator accepts the value, and the name is that of the column with a number behind it. -/
structure Use.IsOwn (use : Use) : Prop where
  accepted : use.comparison.validate = .ok ()
  numbered : ∃ n, use.parameter = use.comparison.path.name ++ "_" ++ Text.ofNat n

/-- The condition of the leaf in a query, on its column there. -/
def Use.textIn (schema : Schema) (q : Query) (relations : List Relation) (use : Use) : String :=
  leafText schema use.comparison.operator (columnOf q relations use.comparison.path) use.parameter

theorem compiler_supplied (schema : Schema) (q : Query) (relations : List Relation) :
    Compiler.Law (compiler schema q relations) fun leaves texts bound bound' =>
      Paired bound → ∃ uses : List Use,
        uses.map (·.comparison) = takenLeaves schema q.entity (leaves.map (·.1)) ∧
          (∀ use ∈ uses, use.IsOwn ∧ Query.hasName q.parameters use.parameter = false) ∧
          AllMadeOf texts (uses.map (Use.textIn schema q relations)) ∧
          Supplied bound uses bound' where
  nil bound hpaired := ⟨[], rfl, nofun, .nil, .nil hpaired⟩
  append h h' hpaired := by
    obtain ⟨uses, hleaves, hown, htexts, hsupplied⟩ := h hpaired
    obtain ⟨uses', hleaves', hown', htexts', hsupplied'⟩ := h' hsupplied.paired
    refine ⟨uses ++ uses', ?_, List.forall_mem_append.2 ⟨hown, hown'⟩, ?_,
      hsupplied.trans hsupplied'⟩
    · rw [List.map_append, List.map_append, takenLeaves, List.filter_append, hleaves, hleaves']
      rfl
    · rw [List.map_append]
      exact htexts.append htexts'
  leaf {c above text bound bound'} run hpaired := by
    have hleaf : compileLeaf schema q relations c (.below above) bound = .ok text bound' := run
    rw [List.map_singleton, takenLeaves, List.filter_singleton]
    obtain ⟨haccepts, rfl, rfl⟩ | ⟨haccepts, hvalid, parameter, hparameter, rfl, rfl⟩ :=
      compileLeaf_cases hleaf
    · rw [takes_of_accepts haccepts]
      exact ⟨[], rfl, nofun, .nil, .nil hpaired⟩
    · rw [takes_of_accepts haccepts]
      obtain ⟨n, hn⟩ := exists_parameterName q.parameters bound c.path.name
      -- The name is chosen free in both dictionaries.
      obtain ⟨hunused, hfree⟩ := hasName_parameterName q.parameters bound c.path.name
      rw [← hparameter] at hn hunused hfree
      refine ⟨[⟨c, parameter⟩], rfl, List.forall_mem_singleton.2 ⟨⟨hvalid, n, hn⟩, hunused⟩,
        .single (.piece _), ?_⟩
      exact supplied_single hpaired hfree ⟨_, n, hn⟩
  join k _ h _ hpaired := by
    obtain ⟨uses, hleaves, hown, htexts, hsupplied⟩ := h hpaired
    exact ⟨uses, hleaves, hown, .single (.bracket k htexts), hsupplied⟩

theorem Use.textIn_eq {relations : List Relation}
    (haliases : ∀ relation ∈ relations, relation.aliasName = none) :
    Use.textIn schema q relations = Use.text schema q.aliasName := by
  funext use
  rw [Use.textIn, Use.text, columnOf_eq haliases]

theorem Use.placeholders_text {use : Use} (hown : use.IsOwn) (hmain : IsName main)
    (hnames : schema.registry.IsNamed)
    (hpolicies : ∀ clause : Clause, clause.policy schema.policies ≠ .allowUnsafe)
    (htaken : takes schema entity .condition use.comparison.path = true) :
    placeholders (use.text schema main) = use.names := by
  obtain ⟨n, hn⟩ := hown.numbered
  obtain ⟨-, hcolumn⟩ :=
    hasColumn_of_isColumn (leads_of_accepts hpolicies (takes_eq_true.1 htaken))
  obtain ⟨hchain, hname⟩ := isName_of_hasColumn hnames hcolumn
  have halias := (isName_aliasPath hmain hchain).notMem (c := ':') (by decide)
  have hlast := hname.notMem (c := ':') (by decide)
  have hparameter : IsName use.parameter := by
    rw [hn]
    exact (hname.append (by decide)).append (isName_ofNat n)
  refine placeholders_leafText schema _ use.comparison.value ?_ hparameter ?_
  · simp [halias, hlast]
  · rw [hn]
    simp

theorem joinConditions_pair (existing text : String) :
    joinConditions .and [existing, text] = "(" ++ existing ++ ") AND (" ++ text ++ ")" := by
  simp only [joinConditions, List.map_cons, List.map_nil, Text.join, Connective.text,
    String.append_assoc]
  rfl

theorem AllMadeOf.addCondition {text : String} {pieces : List String} (base : Query)
    (bound : Dict Operand) (h : AllMadeOf [text] pieces) :
    AllMadeOf (base.addCondition text bound).condition.toList
      (base.condition.toList ++ pieces) := by
  rw [Query.addCondition]
  cases base.condition with
  | none => exact h
  | some existing =>
    show AllMadeOf ["(" ++ existing ++ ") AND (" ++ text ++ ")"] _
    rw [← joinConditions_pair]
    exact .single (.bracket .and (.cons (.piece existing) h))

/-- The condition of a query is made of that of the base and those of the leaves, and what is bound
for the leaves is put over the parameters of the base. -/
theorem stated_of_build {base : Query} (h : build schema base r = .ok q) :
    ∃ uses : List Use, uses.map (·.comparison) = takenLeaves schema base.entity r.condition.leaves ∧
      (∀ use ∈ uses, use.IsOwn ∧ Query.hasName base.parameters use.parameter = false) ∧
      AllMadeOf q.condition.toList
        (base.condition.toList ++ uses.map (Use.textIn schema q r.relations)) ∧
      ∃ bound, Supplied .empty uses bound ∧
        ∀ name, q.parameters.find? name = (bound.find? name).or (base.parameters.find? name) := by
  obtain ⟨haliasName, added, bound, hrun, hcondition, hparameters⟩ := run_of_build h
  obtain ⟨uses, hleaves, hown, htexts, hsupplied⟩ :=
    (compiler_supplied _ _ _).compileAt [] r.condition hrun nofun
  rw [Condition.map_placed] at hleaves
  have htextIn : Use.textIn schema q r.relations = Use.textIn schema base r.relations := by
    funext use
    rw [Use.textIn, Use.textIn, columnOf, columnOf, haliasName]
  refine ⟨uses, hleaves, hown, ?_⟩
  rw [hcondition, hparameters, htextIn]
  cases added with
  | some text =>
    exact ⟨htexts.addCondition base bound, bound, hsupplied,
      Dict.find?_insertAll_dict base.parameters bound⟩
  | none =>
    -- Without a text there are no leaves, so nothing is bound.
    have huses : uses = [] := by
      generalize hpieces : uses.map _ = pieces at htexts
      cases htexts
      exact List.map_eq_nil_iff.1 hpieces
    subst huses
    refine ⟨?made, bound, hsupplied, fun name => ?found⟩
    case made =>
      show AllMadeOf base.condition.toList (base.condition.toList ++ [])
      cases base.condition with
      | none => exact .nil
      | some existing => exact .single (.piece existing)
    case found =>
      rw [hsupplied.kept name List.not_mem_nil]
      rfl

theorem supplied_of_build (haliases : ∀ relation ∈ r.relations, relation.aliasName = none)
    (h : build schema (.of entity main) r = .ok q) :
    ∃ uses : List Use, uses.map (·.comparison) = takenLeaves schema entity r.condition.leaves ∧
      (∀ use ∈ uses, use.IsOwn) ∧
      AllMadeOf q.condition.toList (uses.map (Use.text schema main)) ∧
      ∃ bound, Supplied .empty uses bound ∧
        ∀ name, q.parameters.find? name = bound.find? name := by
  obtain ⟨haliasName, -⟩ := run_of_build h
  obtain ⟨uses, hleaves, hown, hmade, bound, hsupplied, hfind⟩ := stated_of_build h
  rw [Use.textIn_eq haliases, haliasName] at hmade
  refine ⟨uses, hleaves, fun use huse => (hown use huse).1, hmade, bound, hsupplied, fun name => ?_⟩
  rw [hfind]
  exact Option.or_none

/-- **Every leaf has parameters of its own, and they are those of the statement.** The leaves that
are taken are stated one by one, under names that no two of them share; the placeholders in the
condition are these names, and nothing else is bound. In the end every leaf finds its own value
under its names, whatever the other leaves are. -/
theorem build_parameters (hmain : IsName main) (hnames : schema.registry.IsNamed)
    (hpolicies : ∀ clause : Clause, clause.policy schema.policies ≠ .allowUnsafe)
    (haliases : ∀ relation ∈ r.relations, relation.aliasName = none)
    (h : build schema (.of entity main) r = .ok q) :
    ∃ uses : List Use, uses.map (·.comparison) = takenLeaves schema entity r.condition.leaves ∧
      AllMadeOf q.condition.toList (uses.map (Use.text schema main)) ∧
      (∀ use ∈ uses, placeholders (use.text schema main) = use.names) ∧
      (namesOf uses).Nodup ∧
      q.condition.toList.flatMap placeholders = namesOf uses ∧
      q.parameters.keys.Perm (namesOf uses) ∧
      ∀ use ∈ uses,
        Binds use.parameter use.comparison.operator use.comparison.value use.entries ∧
          ∀ entry ∈ use.entries, q.parameters.find? entry.1 = some entry.2 := by
  obtain ⟨uses, hleaves, hown, htexts, bound, hsupplied, hfind⟩ := supplied_of_build haliases h
  have hplaceholders : ∀ use ∈ uses, placeholders (use.text schema main) = use.names := by
    intro use huse
    have hmem : use.comparison ∈ takenLeaves schema entity r.condition.leaves := by
      rw [← hleaves]
      exact List.mem_map_of_mem huse
    exact Use.placeholders_text (hown use huse) hmain hnames hpolicies (List.mem_filter.1 hmem).2
  -- The base binds nothing, so what is bound is bound for a leaf.
  have hkeys : ∀ name, name ∈ q.parameters.keys ↔ name ∈ namesOf uses := by
    intro name
    rw [← Dict.contains_iff_mem_keys, Dict.contains, hfind, ← Dict.contains,
      Dict.contains_iff_mem_keys, hsupplied.keys]
    simp [Dict.keys, Dict.empty]
  refine ⟨uses, hleaves, htexts, hplaceholders, hsupplied.nodup, ?closed, ?bound, ?own⟩
  case closed =>
    rw [htexts.placeholders_eq, List.flatMap_map]
    exact List.flatMap_congr hplaceholders
  case bound =>
    exact (List.perm_ext_iff_of_nodup q.parameters.nodup_keys hsupplied.nodup).2 hkeys
  case own =>
    intro use huse
    refine ⟨binds_leafParameters (hown use huse).accepted use.parameter, fun entry hentry => ?_⟩
    rw [hfind, hsupplied.found use huse entry hentry]

/-- Columns whose names look like names of parameters. -/
def lookalikes : Registry :=
  Registry.register .empty ⟨"item", "items", ["id", "id_0", "id_0_start"], .empty⟩

/-- A range, a pattern and a list on such columns. -/
def crowded : Request where
  condition := .group .and
    [.leaf ⟨⟨["id"]⟩, .between, .many [.int 1, .int 2]⟩,
      .leaf ⟨⟨["id"]⟩, .eq, .one (.int 3)⟩,
      .group .or
        [.leaf ⟨⟨["id_0"]⟩, .isIn, .many [.text "a", .text "b"]⟩,
          .leaf ⟨⟨["id_0_start"]⟩, .starts, .one (.bool true)⟩]]

/-- What they bind: two bounds, a value, a list and a pattern. -/
def crowdedParameters : List (String × Operand) :=
  [("id_0_0", .many [.text "a", .text "b"]), ("id_0_end", .one (.int 2)),
    ("id_0_start", .one (.int 1)), ("id_0_start_0", .one (.text "true%")), ("id_1", .one (.int 3))]

theorem build_parameters_crowded :
    IsName "i" ∧ lookalikes.IsNamed ∧
      (∀ clause : Clause, clause.policy ({} : Policies) ≠ .allowUnsafe) ∧
      ∃ q, build { registry := lookalikes } (.of "item" "i") crowded = .ok q ∧
        q.condition = some ("(i.id BETWEEN :id_0_start AND :id_0_end) AND (i.id = :id_1) AND " ++
          "((i.id_0 IN (:...id_0_0)) OR (i.id_0_start LIKE :id_0_start_0))") ∧
        q.parameters.entries = crowdedParameters ∧
        ∃ uses : List Use, uses.map (·.comparison) = crowded.condition.leaves ∧
          (namesOf uses).Nodup ∧ q.parameters.keys.Perm (namesOf uses) ∧
          ∀ use ∈ uses, ∀ entry ∈ use.entries, q.parameters.find? entry.1 = some entry.2 := by
  have hpolicies : ∀ clause : Clause, clause.policy ({} : Policies) ≠ .allowUnsafe := by
    intro clause
    cases clause <;> decide
  have hmain : IsName "i" := by decide
  have hnames : lookalikes.IsNamed := by decide
  obtain ⟨q, hbuild, hview⟩ := exists_of_toOption
    (f := fun q : Query => (q.condition, q.parameters.entries))
    (x := build { registry := lookalikes } (.of "item" "i") crowded)
    (b := (some ("(i.id BETWEEN :id_0_start AND :id_0_end) AND (i.id = :id_1) AND " ++
      "((i.id_0 IN (:...id_0_0)) OR (i.id_0_start LIKE :id_0_start_0))"), crowdedParameters))
    (by decide +kernel)
  obtain ⟨hcondition, hparameters⟩ := Prod.mk.inj hview
  obtain ⟨uses, hleaves, -, -, hnodup, -, hkeys, hown⟩ :=
    build_parameters hmain hnames hpolicies (List.forall_mem_nil _) hbuild
  have htaken : takenLeaves { registry := lookalikes } "item" crowded.condition.leaves =
      crowded.condition.leaves := by decide +kernel
  exact ⟨hmain, hnames, hpolicies, q, hbuild, hcondition, hparameters, uses,
    hleaves.trans htaken, hnodup, hkeys, fun use huse => (hown use huse).2⟩

end StoreQuery.Sql
