import StoreQuery.Proofs.Sql.Joins

/-!
# Under which aliases columns are named

A column of a condition or an order is checked against the registry alone. Its alias is looked up in
the relations that the request lists, which are joined on their own. The two meet as follows
(`qualified_fieldAlias`):

* a column of the main table has the main alias;
* a column of a relation that is listed has the alias of its join, since the relations in front of a
  declared column are declared and so are taken where they are listed;
* a column of a relation that is not listed has the alias made from the path, and no join is made
  for that path.

**So a statement names columns under aliases that it declares, as long as the request lists the
relations of all columns in its condition and its order** (`build_qualifiers`). Nothing adds a join
for the others. Where names are made of letters, digits and underscores, the columns can be read
off the condition again (`AllCompare.columns_eq`).
-/

namespace StoreQuery.Sql

variable {schema : Schema} {entity main : String} {r : Request} {q : Query}

/-! ## Columns in a condition -/

/-- A column and the alias in front of it. -/
structure Column where
  qualifier : String
  name : String
  deriving DecidableEq, Repr

def Column.text (column : Column) : String := column.qualifier ++ "." ++ column.name

/-- The column that a path names. -/
def columnAt (main : String) (relations : List Relation) (path : Path) : Column :=
  ⟨fieldAlias main relations path.base, path.name⟩

mutual

/-- A condition is made of comparisons of these columns, in this order. -/
inductive Compares (schema : Schema) : String → List Column → Prop
  | leaf (op : Operator) (column : Column) (n : Nat) :
    Compares schema (leafText schema op column.text (column.name ++ "_" ++ Text.ofNat n)) [column]
  | bracket (k : Connective) {texts : List String} {columns : List Column}
    (h : AllCompare schema texts columns) : Compares schema (joinConditions k texts) columns

/-- Conditions are made, one after the other, of comparisons of these columns. -/
inductive AllCompare (schema : Schema) : List String → List Column → Prop
  | nil : AllCompare schema [] []
  | cons {text : String} {texts : List String} {columns others : List Column}
    (h : Compares schema text columns) (hrest : AllCompare schema texts others) :
    AllCompare schema (text :: texts) (columns ++ others)

end

theorem AllCompare.single {text : String} {columns : List Column}
    (h : Compares schema text columns) : AllCompare schema [text] columns := by
  have hsingle := AllCompare.cons h .nil
  rwa [List.append_nil] at hsingle

theorem AllCompare.append {texts texts' : List String} {columns columns' : List Column}
    (h : AllCompare schema texts columns) (h' : AllCompare schema texts' columns') :
    AllCompare schema (texts ++ texts') (columns ++ columns') :=
  match h with
  | .nil => h'
  | .cons hfirst hrest => by
    rw [List.cons_append, List.append_assoc]
    exact .cons hfirst (hrest.append h')

mutual

/-- **The columns that are read off a condition are those that it compares**, if names are made of
letters, digits and underscores. -/
theorem Compares.columns_eq {text : String} {compared : List Column}
    (h : Compares schema text compared)
    (hnames : ∀ column ∈ compared, IsName column.qualifier ∧ IsName column.name) :
    columns text = compared.map Column.text :=
  match h with
  | .leaf op column n => by
    obtain ⟨hqualifier, hname⟩ := hnames column (List.mem_singleton_self column)
    exact columns_leafText schema op (isColumn_of_isName hqualifier hname)
      ((hname.append (by decide)).append (isName_ofNat n))
  | .bracket k hall => (columns_joinConditions k _).trans (AllCompare.columns_eq hall hnames)

theorem AllCompare.columns_eq {texts : List String} {compared : List Column}
    (h : AllCompare schema texts compared)
    (hnames : ∀ column ∈ compared, IsName column.qualifier ∧ IsName column.name) :
    texts.flatMap columns = compared.map Column.text :=
  match h with
  | .nil => rfl
  | .cons hfirst hrest => by
    obtain ⟨hnames, hothers⟩ := List.forall_mem_append.1 hnames
    rw [List.flatMap_cons, Compares.columns_eq hfirst hnames, AllCompare.columns_eq hrest hothers,
      List.map_append]

end

/-- The paths that are taken into a clause. -/
def taken (schema : Schema) (entity : String) (clause : Clause) (paths : List Path) : List Path :=
  paths.filter (takes schema entity clause)

/-- The paths that are taken into the condition, in document order. -/
def conditionPaths (schema : Schema) (entity : String) (r : Request) : List Path :=
  taken schema entity .condition (r.condition.leaves.map (·.path))

/-- The paths that are taken into the order. -/
def orderPaths (schema : Schema) (entity : String) (r : Request) : List Path :=
  taken schema entity .order (r.order.map (·.path))

theorem compiler_compares {relations : List Relation} :
    Compiler.Law (compiler schema q relations) fun leaves texts _ _ =>
      AllCompare schema texts
        ((taken schema q.entity .condition (leaves.map fun leaf => leaf.1.path)).map
          (columnAt q.aliasName relations)) where
  nil _ := .nil
  append h h' := by
    rw [List.map_append, taken, List.filter_append, List.map_append]
    exact h.append h'
  leaf {c above text bound bound'} run := by
    have hleaf : compileLeaf schema q relations c (.below above) bound = .ok text bound' := run
    rw [taken, List.map_singleton, List.filter_singleton]
    obtain ⟨haccepts, rfl, -⟩ | ⟨haccepts, -, parameter, hparameter, rfl, -⟩ :=
      compileLeaf_cases hleaf
    · rw [takes_of_accepts haccepts]
      exact .nil
    · rw [takes_of_accepts haccepts]
      obtain ⟨n, hn⟩ := exists_parameterName q.parameters bound c.path.name
      obtain rfl := hparameter.trans hn
      exact .single (.leaf c.operator (columnAt q.aliasName relations c.path) n)
  join k _ h _ := .single (.bracket k h)

theorem Built.allCompare (h : Built schema entity main r q) :
    AllCompare schema q.condition.toList
      ((conditionPaths schema entity r).map (columnAt main r.relations)) := by
  obtain ⟨start, bound, rfl, rfl, hrun⟩ := h.condition
  have hcompares := compiler_compares.compileAt [] r.condition hrun
  have hleaves : ((r.condition.placed []).map fun leaf => leaf.1.path) =
      r.condition.leaves.map (·.path) := by
    rw [← Condition.map_placed [], List.map_map]
    rfl
  rw [hleaves] at hcompares
  exact hcompares

theorem Built.map_order (h : Built schema entity main r q) :
    q.order.map (·.column) =
      (orderPaths schema entity r).map fun path => (columnAt main r.relations path).text := by
  rw [h.order, orderPaths, taken, List.filter_map, List.map_map, List.map_map]
  rfl

/-! ## Aliases in front of columns -/

/-- The alias in front of a column, by what a request lists and what was joined for it. -/
inductive Qualified (main : String) (relations : List Relation) (made : List (Relation × Join))
    (path : Path) : String → Prop
  | main (hbase : path.base = []) : Qualified main relations made path main
  | listed {relation : Relation} {join : Join} (hmade : (relation, join) ∈ made)
    (hbase : relation.path.segments = path.base) : Qualified main relations made path join.aliasName
  | unlisted (hbase : path.base ≠ [])
    (hrelations : ∀ relation ∈ relations, relation.path.segments ≠ path.base) :
    Qualified main relations made path (aliasPath main path.base)

theorem isRelation_base {registry : Registry} {path : Path} (hbase : path.base ≠ [])
    (h : registry.isColumn entity path.segments = true) :
    registry.isRelation entity path.base = true := by
  rw [Registry.isColumn] at h
  cases hlast : path.segments.getLast? with
  | none =>
    rw [hlast] at h
    cases h
  | some name =>
    rw [hlast] at h
    obtain ⟨target, htarget, -⟩ := (Option.any_eq_true _ _).1 h
    rw [Registry.isRelation, Path.base, htarget]
    simpa [Path.base] using hbase

theorem exists_made {relations : List Relation} {joins : List Join} {relation : Relation}
    (h : List.Forall₂ (Made main) relations joins) (hrelation : relation ∈ relations) :
    ∃ join, (relation, join) ∈ relations.zip joins ∧ Made main relation join := by
  obtain ⟨hlength, hzip⟩ := List.forall₂_iff_zip.1 h
  rw [← List.map_fst_zip (Nat.le_of_eq hlength)] at hrelation
  obtain ⟨⟨_, join⟩, hpair, rfl⟩ := List.mem_map.1 hrelation
  exact ⟨join, hpair, hzip hpair⟩

/-- What is joined for a relation has the alias under which its columns are named. -/
theorem qualified_fieldAlias {relations : List Relation} {joins : List Join} {path : Path}
    (hmade : List.Forall₂ (Made main) (joined schema entity relations) joins)
    (hpath : schema.registry.isColumn entity path.segments = true) :
    Qualified main relations ((joined schema entity relations).zip joins) path
      (fieldAlias main relations path.base) := by
  rw [fieldAlias]
  split
  · rename_i hempty
    exact .main (List.isEmpty_iff.1 hempty)
  · rename_i hne
    have hbase : path.base ≠ [] := by simpa using hne
    cases hfind : relations.find? fun relation => relation.path.segments == path.base with
    | none =>
      refine .unlisted hbase fun relation hrelation hsame => ?_
      have hother := List.find?_eq_none.1 hfind relation hrelation
      rw [hsame, beq_self_eq_true] at hother
      exact hother rfl
    | some relation =>
      have hsame : relation.path.segments = path.base := by
        simpa using List.find?_some hfind
      -- A column behind the relation is declared, so the relation is, and it is joined.
      have hleads : leads schema entity relation.path .relations = true := by
        rw [leads, hsame]
        exact isRelation_base hbase hpath
      have hjoined : relation ∈ joined schema entity relations :=
        mem_joined.2 ⟨List.mem_of_find?_eq_some hfind, hsame ▸ hbase,
          by rw [accepts, if_pos hleads]⟩
      obtain ⟨join, hjoin, hmade⟩ := exists_made hmade hjoined
      have halias : join.aliasName = relation.aliasName.getD (aliasPath main path.base) := by
        rw [hmade.aliasName, joinAlias, hsame]
      show Qualified main relations _ path (relation.aliasName.getD (aliasPath main path.base))
      rw [← halias]
      exact .listed hjoin hsame

/-- The aliases that a query declares: its own and those of its joins. -/
def Query.aliases (q : Query) : List String := q.aliasName :: q.joins.map (·.aliasName)

theorem isColumn_of_mem
    (hpolicies : ∀ clause : Clause, clause.policy schema.policies ≠ .allowUnsafe) {path : Path}
    (h : path ∈ conditionPaths schema entity r ++ orderPaths schema entity r) :
    schema.registry.isColumn entity path.segments = true := by
  rcases List.mem_append.1 h with h | h
  · exact leads_of_accepts hpolicies (takes_eq_true.1 (List.mem_filter.1 h).2)
  · exact leads_of_accepts hpolicies (takes_eq_true.1 (List.mem_filter.1 h).2)

theorem Qualified.mem_aliases {made : List (Relation × Join)} {path : Path} {qualifier : String}
    (h : Qualified main r.relations made path qualifier) (hmain : q.aliasName = main)
    (hmade : ∀ p ∈ made, p.2 ∈ q.joins)
    (hlisted : path.base = [] ∨ ∃ relation ∈ r.relations, relation.path.segments = path.base) :
    qualifier ∈ q.aliases := by
  cases h with
  | main _ =>
    rw [← hmain]
    exact List.mem_cons_self
  | listed hjoin _ => exact List.mem_cons_of_mem _ (List.mem_map_of_mem (hmade _ hjoin))
  | unlisted hbase hrelations =>
    rcases hlisted with hempty | ⟨relation, hrelation, hsame⟩
    · exact absurd hempty hbase
    · exact absurd hsame (hrelations relation hrelation)

/-- Where names are made of letters, digits and underscores, so are the columns of
declared paths. -/
theorem isName_columnAt {relations : List Relation} {path : Path} (hmain : IsName main)
    (hnames : schema.registry.IsNamed)
    (haliases : ∀ relation ∈ relations, ∀ name ∈ relation.aliasName, IsName name)
    (h : schema.registry.isColumn entity path.segments = true) :
    IsName (columnAt main relations path).qualifier ∧
      IsName (columnAt main relations path).name := by
  obtain ⟨-, hcolumn⟩ := hasColumn_of_isColumn h
  obtain ⟨hchain, hname⟩ := isName_of_hasColumn hnames hcolumn
  refine ⟨?_, hname⟩
  have halias := isName_aliasPath hmain hchain
  rw [columnAt, fieldAlias]
  split
  · exact hmain
  · cases hfind : relations.find? fun relation => relation.path.segments == path.base with
    | none => exact halias
    | some relation =>
      cases hgiven : relation.aliasName with
      | none => simpa [hgiven] using halias
      | some name =>
        simpa [hgiven] using haliases relation (List.mem_of_find?_eq_some hfind) name hgiven

/-- **Columns of relations that are listed are named under aliases that the statement declares, and
for other relations there is no join.** Where names are made of letters, digits and underscores,
these columns are the ones that are read off the condition. -/
theorem build_qualifiers
    (hpolicies : ∀ clause : Clause, clause.policy schema.policies ≠ .allowUnsafe)
    (h : build schema (.of entity main) r = .ok q) :
    AllCompare schema q.condition.toList
        ((conditionPaths schema entity r).map (columnAt main r.relations)) ∧
      q.order.map (·.column) =
        ((orderPaths schema entity r).map fun path => (columnAt main r.relations path).text) ∧
      List.Forall₂ (Made main) (joined schema entity r.relations) q.joins ∧
      (∀ path ∈ conditionPaths schema entity r ++ orderPaths schema entity r,
        Qualified main r.relations ((joined schema entity r.relations).zip q.joins) path
            (columnAt main r.relations path).qualifier ∧
          (path.base = [] ∨ (∃ relation ∈ r.relations, relation.path.segments = path.base) →
            (columnAt main r.relations path).qualifier ∈ q.aliases)) ∧
      (IsName main → schema.registry.IsNamed →
        (∀ relation ∈ r.relations, ∀ name ∈ relation.aliasName, IsName name) →
        q.condition.toList.flatMap columns =
          (conditionPaths schema entity r).map fun path =>
            (columnAt main r.relations path).text) := by
  have hbuilt := built_of_build h
  refine ⟨hbuilt.allCompare, hbuilt.map_order, hbuilt.joins, fun path hpath => ?_, ?_⟩
  · have hqualified := qualified_fieldAlias hbuilt.joins (isColumn_of_mem hpolicies hpath)
    exact ⟨hqualified, hqualified.mem_aliases hbuilt.aliasName fun p hp => (List.of_mem_zip hp).2⟩
  · intro hmain hnames haliases
    have hcolumns := hbuilt.allCompare.columns_eq (List.forall_mem_map.2 fun path hpath =>
      isName_columnAt hmain hnames haliases
        (isColumn_of_mem hpolicies (List.mem_append_left _ hpath)))
    rwa [List.map_map] at hcolumns

/-- A request that lists a relation of one of its columns, under an alias of its own. -/
def sortedByAuthor : Request where
  relations := [⟨⟨["author"]⟩, some "a"⟩]
  order := [⟨⟨["author", "name"]⟩, .ascending⟩]
  condition := .leaf ⟨⟨["title"]⟩, .eq, .one (.text "x")⟩

/-- A column of a relation that is listed is named under the alias of its join. -/
theorem build_qualifiers_sortedByAuthor :
    (∀ clause : Clause, clause.policy ({} : Policies) ≠ .allowUnsafe) ∧
      IsName "p" ∧ blog.IsNamed ∧
      (∀ relation ∈ sortedByAuthor.relations, ∀ name ∈ relation.aliasName, IsName name) ∧
      ∃ q, build { registry := blog } (.of "post" "p") sortedByAuthor = .ok q ∧
        q.text = "SELECT p, a FROM posts p LEFT JOIN p.author a WHERE p.title = :title_0" ++
          " ORDER BY a.name ASC" ∧
        AllCompare { registry := blog } q.condition.toList [⟨"p", "title"⟩] ∧
        q.condition.toList.flatMap columns = ["p.title"] ∧
        q.order.map (·.column) = ["a.name"] ∧ "a" ∈ q.aliases := by
  have hpolicies : ∀ clause : Clause, clause.policy ({} : Policies) ≠ .allowUnsafe := by
    intro clause
    cases clause <;> decide
  have hmain : IsName "p" := by decide
  have hnames : blog.IsNamed := by decide
  have hgiven : ∀ relation ∈ sortedByAuthor.relations, ∀ name ∈ relation.aliasName,
      IsName name := by decide
  obtain ⟨q, hbuild, htext⟩ := exists_of_toOption (f := Query.text)
    (x := build { registry := blog } (.of "post" "p") sortedByAuthor)
    (b := "SELECT p, a FROM posts p LEFT JOIN p.author a WHERE p.title = :title_0" ++
      " ORDER BY a.name ASC") (by decide +kernel)
  obtain ⟨hcondition, horder, -, haliases, hcolumns⟩ := build_qualifiers hpolicies hbuild
  exact ⟨hpolicies, hmain, hnames, hgiven, q, hbuild, htext, hcondition,
    hcolumns hmain hnames hgiven, horder,
    (haliases ⟨["author", "name"]⟩ (by decide)).2 (.inr (by decide))⟩

/-- A condition on a column of a relation that is not listed. -/
def byAuthor : Request where
  condition := .leaf ⟨⟨["author", "name"]⟩, .eq, .one (.text "x")⟩

/-- The column is named under an alias that nothing declares. -/
theorem build_qualifiers_byAuthor :
    (∀ clause : Clause, clause.policy ({} : Policies) ≠ .allowUnsafe) ∧
      ∃ q, build { registry := blog } (.of "post" "p") byAuthor = .ok q ∧
        q.text = "SELECT p FROM posts p WHERE p_author.name = :name_0" ∧
        AllCompare { registry := blog } q.condition.toList [⟨"p_author", "name"⟩] ∧
        q.condition.toList.flatMap columns = ["p_author.name"] ∧
        "p_author" ∉ q.aliases := by
  obtain ⟨q, hbuild, hview⟩ := exists_of_toOption
    (f := fun q : Query => (q.text, q.condition, q.aliases))
    (x := build { registry := blog } (.of "post" "p") byAuthor)
    (b := ("SELECT p FROM posts p WHERE p_author.name = :name_0",
      some "p_author.name = :name_0", ["p"])) (by decide +kernel)
  obtain ⟨htext, hview⟩ := Prod.mk.inj hview
  obtain ⟨hcondition, haliases⟩ := Prod.mk.inj hview
  refine ⟨fun clause => by cases clause <;> decide, q, hbuild, htext, ?_, ?_, ?_⟩
  · rw [hcondition]
    exact .single (.leaf .eq ⟨"p_author", "name"⟩ 0)
  · rw [hcondition]
    decide +kernel
  · rw [haliases]
    decide

end StoreQuery.Sql
