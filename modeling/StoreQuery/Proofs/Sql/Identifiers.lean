import StoreQuery.Proofs.Condition.Compiling
import StoreQuery.Proofs.Dict
import StoreQuery.Proofs.Search.Names
import StoreQuery.Proofs.Sql.Columns

/-!
# Names in a statement come from the registry

Paths of a request name columns and relations, and no path that leads nowhere gets past a policy
that ignores or denies it (`leads_of_accepts`). So what is put into a statement for a path is made
from names that the registry declares:

* an alias is the main alias and a chain of relations, one leading on from the other (`Reaches`),
  with `_` between them;
* a column is such an alias, a dot, and a column of the entity that the chain leads to;
* a parameter is a column with a number behind it, and perhaps the end of a range.

Where names are made of letters, digits and underscores, columns can be told from everything else in
a condition, and those that are read off it are the ones that it is stated on
(`Stated.of_mem_columns`).

`FromRegistry` says so of every part of a query. **Every query for a request from parameters is of
this kind** (`build_fromRegistry`), for chains of any length, also where relations go round in
circles.
-/

namespace StoreQuery.Sql

/-! ## Chains of relations -/

/-- A chain of declared relations leads from one entity to another. -/
inductive Reaches (registry : Registry) : Entity → List String → Entity → Prop
  | here (entity : Entity) : Reaches registry entity [] entity
  | hop {entity next target : Entity} {relation name : String} {rest : List String}
    (hrelation : entity.relations.find? relation = some name)
    (hnext : registry.find? name = some next) (h : Reaches registry next rest target) :
    Reaches registry entity (relation :: rest) target

/-- A chain of declared relations leads from the entity of a given name to another one. -/
def LeadsTo (registry : Registry) (entity : String) (chain : List String) (target : Entity) :
    Prop :=
  ∃ start, registry.find? entity = some start ∧ Reaches registry start chain target

/-- A chain leads to an entity that has a column. -/
def HasColumn (registry : Registry) (entity : String) (chain : List String) (name : String) :
    Prop :=
  ∃ target, LeadsTo registry entity chain target ∧ name ∈ target.columns

/-- A chain leads to an entity that has a relation. -/
def HasRelation (registry : Registry) (entity : String) (chain : List String) (name : String) :
    Prop :=
  ∃ target, LeadsTo registry entity (chain ++ [name]) target

variable {registry : Registry} {entity main : String}

theorem reaches_of_followFrom {start target : Entity} {chain : List String}
    (h : registry.followFrom start chain = some target) : Reaches registry start chain target := by
  induction chain generalizing start with
  | nil =>
    cases h
    exact .here _
  | cons relation rest ih =>
    rw [Registry.followFrom] at h
    cases hhop : registry.hop start relation with
    | none => rw [hhop] at h; cases h
    | some next =>
      rw [hhop] at h
      obtain ⟨name, hrelation, hnext⟩ := Option.bind_eq_some_iff.1 hhop
      exact .hop hrelation hnext (ih h)

theorem leadsTo_of_follow {target : Entity} {chain : List String}
    (h : registry.follow entity chain = some target) : LeadsTo registry entity chain target := by
  obtain ⟨start, hstart, hfollow⟩ := Option.bind_eq_some_iff.1 h
  exact ⟨start, hstart, reaches_of_followFrom hfollow⟩

theorem segments_eq {path : Path} (h : path.segments ≠ []) :
    path.segments = path.base ++ [path.name] := by
  rw [Path.base, Path.name, List.getLast?_eq_some_getLast h, Option.getD_some,
    List.dropLast_append_getLast h]

theorem hasColumn_of_isColumn {path : Path}
    (h : registry.isColumn entity path.segments = true) :
    path.segments ≠ [] ∧ HasColumn registry entity path.base path.name := by
  rw [Registry.isColumn] at h
  cases hlast : path.segments.getLast? with
  | none => rw [hlast] at h; cases h
  | some name =>
    rw [hlast] at h
    obtain ⟨target, htarget, hname⟩ := (Option.any_eq_true _ _).1 h
    have hsegments : path.segments ≠ [] := by
      rintro hnil
      rw [hnil] at hlast
      cases hlast
    refine ⟨hsegments, target, leadsTo_of_follow htarget, ?_⟩
    rw [Path.name, hlast]
    exact List.contains_iff_mem.1 hname

theorem hasRelation_of_isRelation {path : Path}
    (h : registry.isRelation entity path.segments = true) :
    path.segments ≠ [] ∧ HasRelation registry entity path.base path.name := by
  obtain ⟨hne, hfollow⟩ := (Bool.and_eq_true _ _).mp h
  have hsegments : path.segments ≠ [] := by simpa using hne
  obtain ⟨target, htarget⟩ := Option.isSome_iff_exists.1 hfollow
  refine ⟨hsegments, target, leadsTo_of_follow ?_⟩
  rw [← segments_eq hsegments]
  exact htarget

/-! ## Names in a registry -/

/-- The columns and relations of an entity have names of letters, digits and underscores. -/
def Entity.IsNamed (entity : Entity) : Prop :=
  (∀ column ∈ entity.columns, IsName column) ∧ ∀ relation ∈ entity.relations.keys, IsName relation

/-- All entities have such names. -/
def Registry.IsNamed (registry : Registry) : Prop := ∀ entry ∈ registry.entries, entry.2.IsNamed

instance (entity : Entity) : Decidable entity.IsNamed :=
  inferInstanceAs (Decidable ((∀ column ∈ entity.columns, IsName column) ∧
    ∀ relation ∈ entity.relations.keys, IsName relation))

instance (registry : Registry) : Decidable registry.IsNamed :=
  inferInstanceAs (Decidable (∀ entry ∈ registry.entries, entry.2.IsNamed))

theorem Registry.IsNamed.of_find? {registry : Registry} {name : String} {entity : Entity}
    (h : registry.IsNamed) (hfind : registry.find? name = some entity) : entity.IsNamed :=
  h _ (Dict.mem_entries_of_find? hfind)

theorem isNamed_of_reaches {registry : Registry} {start target : Entity} {chain : List String}
    (h : registry.IsNamed) (hstart : start.IsNamed)
    (hreaches : Reaches registry start chain target) :
    (∀ relation ∈ chain, IsName relation) ∧ target.IsNamed := by
  induction hreaches with
  | here entity => exact ⟨nofun, hstart⟩
  | hop hrelation hnext _ ih =>
    obtain ⟨hrest, htarget⟩ := ih (h.of_find? hnext)
    refine ⟨List.forall_mem_cons.2 ⟨hstart.2 _ ?_, hrest⟩, htarget⟩
    rw [← Dict.contains_iff_mem_keys, Dict.contains, hrelation]
    rfl

/-- A chain of relations and the column that it leads to have such names. -/
theorem isName_of_hasColumn {registry : Registry} {entity name : String} {chain : List String}
    (h : registry.IsNamed) (hcolumn : HasColumn registry entity chain name) :
    (∀ relation ∈ chain, IsName relation) ∧ IsName name := by
  obtain ⟨target, ⟨start, hstart, hreaches⟩, hname⟩ := hcolumn
  obtain ⟨hchain, htarget⟩ := isNamed_of_reaches h (h.of_find? hstart) hreaches
  exact ⟨hchain, htarget.1 name hname⟩

theorem isName_aliasPath {main : String} {chain : List String} (hmain : IsName main)
    (hchain : ∀ relation ∈ chain, IsName relation) : IsName (aliasPath main chain) := by
  rw [aliasPath]
  induction chain generalizing main with
  | nil => exact hmain
  | cons relation rest ih =>
    obtain ⟨hrelation, hrest⟩ := List.forall_mem_cons.1 hchain
    rw [Text.join_cons "_" (List.cons_ne_nil relation rest)]
    exact (hmain.append (by decide)).append (ih hrelation hrest)

/-! ## Paths that are taken -/

variable {schema : Schema} {clause : Clause} {path : Path}

theorem leads_or_allowUnsafe (h : accepts schema entity path clause = .ok true) :
    leads schema entity path clause = true ∨ clause.policy schema.policies = .allowUnsafe := by
  by_cases hleads : leads schema entity path clause = true
  · exact .inl hleads
  · rw [accepts, if_neg hleads] at h
    cases hpolicy : clause.policy schema.policies with
    | allowUnsafe => exact .inr rfl
    | deny => rw [hpolicy] at h; cases h
    | ignore => rw [hpolicy] at h; cases h

theorem leads_of_accepts
    (hpolicies : ∀ clause : Clause, clause.policy schema.policies ≠ .allowUnsafe)
    (h : accepts schema entity path clause = .ok true) : leads schema entity path clause = true :=
  (leads_or_allowUnsafe h).resolve_right (hpolicies clause)

theorem leads_of_accepted
    (hpolicies : ∀ clause : Clause, clause.policy schema.policies ≠ .allowUnsafe)
    {paths taken : List Path} (h : accepted schema entity clause paths = .ok taken) :
    ∀ path ∈ taken, path ∈ paths ∧ leads schema entity path clause = true := by
  induction paths generalizing taken with
  | nil =>
    cases h
    exact nofun
  | cons path paths ih =>
    obtain ⟨accepts, haccepts, h⟩ := bind_eq_ok.1 h
    obtain ⟨others, hothers, h⟩ := bind_eq_ok.1 h
    have hrest : ∀ other ∈ others,
        other ∈ path :: paths ∧ leads schema entity other clause = true := fun other hother =>
      (ih hothers other hother).imp (List.mem_cons_of_mem path) id
    cases accepts with
    | false =>
      cases h
      exact hrest
    | true =>
      cases h
      exact List.forall_mem_cons.2
        ⟨⟨List.mem_cons_self .., leads_of_accepts hpolicies haccepts⟩, hrest⟩

/-! ## Aliases -/

/-- The alias of a relation is that of its parent with its name behind it. -/
theorem aliasPath_append (main : String) (chain : List String) (name : String) :
    aliasPath main (chain ++ [name]) = aliasPath main chain ++ "_" ++ name := by
  rw [aliasPath, ← List.cons_append, Text.join_append "_" (List.cons_ne_nil main chain) (by simp)]
  rfl

theorem fieldAlias_eq {relations : List Relation}
    (haliases : ∀ relation ∈ relations, relation.aliasName = none) (main : String)
    (base : List String) : fieldAlias main relations base = aliasPath main base := by
  rw [fieldAlias]
  split
  · rename_i hempty
    rw [List.isEmpty_iff.1 hempty]
    rfl
  · cases hfind : relations.find? fun r => r.path.segments == base with
    | none => rfl
    | some relation =>
      show (relation.aliasName).getD _ = _
      rw [haliases relation (List.mem_of_find?_eq_some hfind)]
      rfl

theorem columnOf_eq {relations : List Relation}
    (haliases : ∀ relation ∈ relations, relation.aliasName = none) (q : Query) (path : Path) :
    columnOf q relations path = aliasPath q.aliasName path.base ++ "." ++ path.name := by
  rw [columnOf, fieldAlias_eq haliases]

/-! ## Queries from the registry -/

/-- A condition on declared columns, with parameters that are called after them. -/
inductive Stated (schema : Schema) (entity main : String) : String → Prop
  | leaf (op : Operator) {chain : List String} {name : String} (n : Nat)
    (h : HasColumn schema.registry entity chain name) :
    Stated schema entity main
      (leafText schema op (aliasPath main chain ++ "." ++ name) (name ++ "_" ++ Text.ofNat n))
  | bracket (k : Connective) {texts : List String}
    (h : ∀ text ∈ texts, Stated schema entity main text) :
    Stated schema entity main (joinConditions k texts)

/-- **The columns that are read off a condition are those that it is stated on**, if names are made
of letters, digits and underscores. -/
theorem Stated.of_mem_columns {text : String} (h : Stated schema entity main text)
    (hmain : IsName main) (hnames : schema.registry.IsNamed) :
    ∀ column ∈ columns text, ∃ chain name, HasColumn schema.registry entity chain name ∧
      column = aliasPath main chain ++ "." ++ name := by
  induction h with
  | @leaf op chain name n hcolumn =>
    intro column hmem
    obtain ⟨hchain, hname⟩ := isName_of_hasColumn hnames hcolumn
    have hparameter : IsName (name ++ "_" ++ Text.ofNat n) :=
      (hname.append (by decide)).append (isName_ofNat n)
    rw [columns_leafText schema op (isColumn_of_isName (isName_aliasPath hmain hchain) hname)
      hparameter] at hmem
    exact ⟨chain, name, hcolumn, List.mem_singleton.1 hmem⟩
  | bracket k _ ih =>
    intro column hmem
    rw [columns_joinConditions] at hmem
    obtain ⟨text, htext, hmem⟩ := List.mem_flatMap.1 hmem
    exact ih text htext column hmem

/-- A name for parameters of a declared column. -/
def IsParameter (registry : Registry) (entity key : String) : Prop :=
  ∃ chain name n, HasColumn registry entity chain name ∧
    (key = name ++ "_" ++ Text.ofNat n ∨ key = name ++ "_" ++ Text.ofNat n ++ "_start" ∨
      key = name ++ "_" ++ Text.ofNat n ++ "_end")

/-- All names in a query are made from the main alias and what the registry declares. The main alias
is selected only for a request that selects nothing, and the alias of a relation only where nothing
is selected from it. -/
structure FromRegistry (schema : Schema) (entity main : String) (r : Request) (q : Query) :
    Prop where
  same : q.entity = entity ∧ q.aliasName = main
  selections : ∀ text ∈ q.selections, (text = main ∧ r.select = []) ∨
    (∃ join ∈ q.joins, join.selectAll = true ∧ text = join.aliasName) ∨
    ∃ chain name, HasColumn schema.registry entity chain name ∧ ⟨chain ++ [name]⟩ ∈ r.select ∧
      text = aliasPath main chain ++ "." ++ name
  joins : ∀ join ∈ q.joins, ∃ chain name, HasRelation schema.registry entity chain name ∧
    join.relationPath = aliasPath main chain ++ "." ++ name ∧
    join.aliasName = aliasPath main (chain ++ [name])
  condition : ∀ text, q.condition = some text → Stated schema entity main text
  parameters : ∀ key ∈ q.parameters.keys, IsParameter schema.registry entity key
  order : ∀ o ∈ q.order, ∃ chain name, HasColumn schema.registry entity chain name ∧
    o.column = aliasPath main chain ++ "." ++ name

/-! ## What single steps do -/

theorem base_of_hasBase {path : Path} {base : List String} (h : path.hasBase base = true) :
    path.base = base := by
  obtain ⟨hlength, hstart⟩ := (Bool.and_eq_true _ _).mp h
  obtain ⟨rest, hrest⟩ := List.isPrefixOf_iff_prefix.1 hstart
  have hone : rest.length = 1 := by
    have htotal := of_decide_eq_true hlength
    rw [← hrest, List.length_append] at htotal
    omega
  obtain ⟨last, rfl⟩ := List.length_eq_one_iff.1 hone
  rw [Path.base, ← hrest, List.dropLast_concat]

/-- What joining a relation does: it is not taken, or it is joined under the alias that the request
gives it or else the one made from its path. -/
theorem withRelation_eq_ok {r : Request} {q q' : Query} {relation : Relation}
    (h : withRelation schema r q relation = .ok q') :
    (q' = q ∧ (relation.path.isEmpty = true ∨
      accepts schema q.entity relation.path .relations = .ok false)) ∨
    (relation.path.isEmpty = false ∧ accepts schema q.entity relation.path .relations = .ok true ∧
      ∃ name paths, name = relation.aliasName.getD (aliasPath q.aliasName relation.path.segments) ∧
        accepted schema q.entity .select
            (r.select.filter fun path => path.hasBase relation.path.segments) = .ok paths ∧
          q' = { q with
            selections := q.selections ++
              if (paths.map fun path => name ++ "." ++ path.name).isEmpty then [name]
              else paths.map fun path => name ++ "." ++ path.name
            joins := q.joins ++ [⟨aliasPath q.aliasName relation.path.base ++ "." ++
              relation.path.name, name,
              (paths.map fun path => name ++ "." ++ path.name).isEmpty⟩] }) := by
  rw [withRelation] at h
  split at h
  · rename_i hempty
    cases h
    exact .inl ⟨rfl, .inl hempty⟩
  · rename_i hempty
    have hsegments : relation.path.segments ≠ [] := by simpa [Path.isEmpty] using hempty
    obtain ⟨taken, haccepts, h⟩ := bind_eq_ok.1 h
    cases taken with
    | false =>
      cases h
      exact .inl ⟨rfl, .inr haccepts⟩
    | true =>
      obtain ⟨paths, hpaths, h⟩ := bind_eq_ok.1 h
      -- The alias of the parent with the name behind it is the alias of the whole path.
      have halias : aliasPath q.aliasName relation.path.base ++ "_" ++ relation.path.name =
          aliasPath q.aliasName relation.path.segments := by
        rw [← aliasPath_append, ← segments_eq hsegments]
      rw [halias] at h
      cases h
      exact .inr ⟨by simpa using hempty, haccepts, _, paths, rfl, hpaths, rfl⟩

/-- What compiling a leaf does: it leaves it out, or states it and binds its parameters under a name
that is free. -/
theorem compileLeaf_cases {q : Query} {relations : List Relation} {c : Comparison} {scope : Scope}
    {text : Option String} {bound bound' : Dict Operand}
    (run : compileLeaf schema q relations c scope bound = .ok text bound') :
    (accepts schema q.entity c.path .condition = .ok false ∧ text = none ∧ bound' = bound) ∨
      (accepts schema q.entity c.path .condition = .ok true ∧ c.validate = .ok () ∧
        ∃ parameter, parameter = parameterName q.parameters bound c.path.name ∧
          text = some (leafText schema c.operator (columnOf q relations c.path) parameter) ∧
          bound' = bound.insertAll (leafParameters c.operator c.value parameter)) := by
  rw [compileLeaf] at run
  cases haccepts : accepts schema q.entity c.path .condition with
  | error e => simp only [haccepts] at run; cases run
  | ok taken =>
    simp only [haccepts] at run
    cases taken with
    | false =>
      cases run
      exact .inl ⟨rfl, rfl, rfl⟩
    | true =>
      cases hvalid : c.validate with
      | error e => simp only [hvalid] at run; cases run
      | ok _ =>
        simp only [hvalid] at run
        cases run
        exact .inr ⟨rfl, rfl, _, rfl, rfl, rfl⟩

theorem exists_parameterName (used bound : Dict Operand) (column : String) :
    ∃ n, parameterName used bound column = column ++ "_" ++ Text.ofNat n := ⟨_, rfl⟩

theorem mem_leafParameters {op : Operator} {value : Operand} {parameter key : String}
    (h : key ∈ (leafParameters op value parameter).map (·.1)) :
    key = parameter ∨ key = parameter ++ "_start" ∨ key = parameter ++ "_end" := by
  cases op <;> simp only [leafParameters, List.map_cons, List.map_nil, List.mem_cons,
    List.not_mem_nil, or_false] at h <;> grind

/-- The registry may know another table, and that is all that it changes at first. -/
theorem withTable_eq (schema : Schema) (base : Query) :
    ∃ table, withTable schema base = { base with table } := by
  rw [withTable]
  split
  · exact ⟨_, rfl⟩
  · exact ⟨_, rfl⟩

/-! ## Stages -/

section Stages

variable {r : Request} {q q' : Query}
  (hpolicies : ∀ clause : Clause, clause.policy schema.policies ≠ .allowUnsafe)

include hpolicies

theorem withSelect_fromRegistry
    (h : withSelect schema r (withTable schema (.of entity main)) = .ok q) :
    FromRegistry schema entity main r q := by
  obtain ⟨table, htable⟩ := withTable_eq schema (.of entity main)
  rw [htable, withSelect] at h
  split at h
  · rename_i hempty
    cases h
    refine ⟨⟨rfl, rfl⟩, fun text htext => ?_, nofun, nofun, nofun, nofun⟩
    exact .inl ⟨List.mem_singleton.1 htext, List.isEmpty_iff.1 hempty⟩
  · obtain ⟨paths, hpaths, rfl⟩ := map_eq_ok.1 h
    refine ⟨⟨rfl, rfl⟩, fun text htext => ?_, nofun, nofun, nofun, nofun⟩
    obtain ⟨path, hpath, rfl⟩ := List.mem_map.1 htext
    obtain ⟨hmem, hleads⟩ := leads_of_accepted hpolicies hpaths path hpath
    obtain ⟨hselect, hlength⟩ := List.mem_filter.1 hmem
    obtain ⟨segment, hsegment⟩ := List.length_eq_one_iff.1 (of_decide_eq_true hlength)
    obtain ⟨-, hcolumn⟩ := hasColumn_of_isColumn hleads
    obtain rfl : path = ⟨[segment]⟩ := congrArg Path.mk hsegment
    exact .inr (.inr ⟨[], segment, hcolumn, hselect, rfl⟩)

theorem withRelation_fromRegistry {relation : Relation} (haliasName : relation.aliasName = none)
    (h : withRelation schema r q relation = .ok q') (hq : FromRegistry schema entity main r q) :
    FromRegistry schema entity main r q' := by
  obtain ⟨rfl, -⟩ | ⟨-, haccepts, name, paths, hname, hpaths, rfl⟩ := withRelation_eq_ok h
  · exact hq
  rw [haliasName, Option.getD_none] at hname
  subst hname
  obtain ⟨⟨rfl, rfl⟩, hselections, hjoins, hcondition, hparameters, horder⟩ := hq
  obtain ⟨hsegments, hrelation⟩ := hasRelation_of_isRelation (leads_of_accepts hpolicies haccepts)
  refine ⟨⟨rfl, rfl⟩, ?_, ?_, hcondition, hparameters, horder⟩
  · intro text htext
    rcases List.mem_append.1 htext with htext | htext
    · rcases hselections text htext with hmain | ⟨join, hjoin, hall⟩ | hcolumn
      · exact .inl hmain
      · exact .inr (.inl ⟨join, List.mem_append_left _ hjoin, hall⟩)
      · exact .inr (.inr hcolumn)
    · split at htext
      · rename_i hempty
        obtain rfl := List.mem_singleton.1 htext
        exact .inr (.inl ⟨_, List.mem_append_right _ (List.mem_singleton_self _), hempty, rfl⟩)
      · obtain ⟨path, hpath, rfl⟩ := List.mem_map.1 htext
        obtain ⟨hmem, hleads⟩ := leads_of_accepted hpolicies hpaths path hpath
        obtain ⟨hselect, hbase⟩ := List.mem_filter.1 hmem
        obtain ⟨hpathSegments, hcolumn⟩ := hasColumn_of_isColumn hleads
        have hchain := base_of_hasBase hbase
        refine .inr (.inr ⟨path.base, path.name, hcolumn, ?_, ?_⟩)
        · rw [← segments_eq hpathSegments]
          exact hselect
        · rw [hchain]
  · intro join hjoin
    rcases List.mem_append.1 hjoin with hjoin | hjoin
    · exact hjoins join hjoin
    · obtain rfl := List.mem_singleton.1 hjoin
      refine ⟨relation.path.base, relation.path.name, hrelation, rfl, ?_⟩
      rw [← segments_eq hsegments]

theorem withRelations_fromRegistry
    (haliases : ∀ relation ∈ r.relations, relation.aliasName = none)
    (h : withRelations schema r q = .ok q') (hq : FromRegistry schema entity main r q) :
    FromRegistry schema entity main r q' := by
  refine of_foldlM_eq_ok h hq fun relation hrelation q q' hstep hq => ?_
  exact withRelation_fromRegistry hpolicies (haliases relation hrelation) hstep hq

/-- The parts of a condition are stated on declared columns, with parameters called after them. -/
theorem compiler_stated (haliases : ∀ relation ∈ r.relations, relation.aliasName = none) :
    Compiler.Law (compiler schema q r.relations) fun _ texts bound bound' =>
      (∀ text ∈ texts, Stated schema q.entity q.aliasName text) ∧
        ((∀ key ∈ bound.keys, IsParameter schema.registry q.entity key) →
          ∀ key ∈ bound'.keys, IsParameter schema.registry q.entity key) where
  nil bound := ⟨nofun, id⟩
  append h h' := ⟨List.forall_mem_append.2 ⟨h.1, h'.1⟩, fun hbound => h'.2 (h.2 hbound)⟩
  leaf {c above text bound bound'} run := by
    have hleaf : compileLeaf schema q r.relations c (.below above) bound = .ok text bound' := run
    obtain ⟨-, rfl, rfl⟩ | ⟨haccepts, -, parameter, hparameter, rfl, rfl⟩ := compileLeaf_cases hleaf
    · exact ⟨nofun, id⟩
    obtain ⟨n, hn⟩ := exists_parameterName q.parameters bound c.path.name
    obtain rfl := hparameter.trans hn
    obtain ⟨-, hcolumn⟩ := hasColumn_of_isColumn (leads_of_accepts hpolicies haccepts)
    constructor
    · intro text htext
      obtain rfl := List.mem_singleton.1 htext
      rw [columnOf_eq haliases]
      exact .leaf c.operator n hcolumn
    · intro hbound key hkey
      rcases Dict.mem_keys_insertAll_iff.1 hkey with hkey | hkey
      · exact hbound key hkey
      · exact ⟨c.path.base, c.path.name, n, hcolumn, mem_leafParameters hkey⟩
  join k above h _ := by
    refine ⟨fun text htext => ?_, h.2⟩
    obtain rfl := List.mem_singleton.1 htext
    exact .bracket k h.1

theorem withCondition_fromRegistry
    (haliases : ∀ relation ∈ r.relations, relation.aliasName = none)
    (h : withCondition schema r q = .ok q') (hq : FromRegistry schema entity main r q) :
    FromRegistry schema entity main r q' := by
  obtain ⟨⟨rfl, rfl⟩, hselections, hjoins, hcondition, hparameters, horder⟩ := hq
  rw [withCondition] at h
  cases hrun : ((compiler schema q r.relations).compile r.condition).run .empty with
  | error e bound => simp only [hrun] at h; cases h
  | ok text bound =>
    obtain ⟨hstated, hbound⟩ :=
      (compiler_stated hpolicies haliases).compileAt [] r.condition hrun
    simp only [hrun] at h
    cases text with
    | none =>
      cases h
      exact ⟨⟨rfl, rfl⟩, hselections, hjoins, hcondition, hparameters, horder⟩
    | some text =>
      cases h
      have htext := hstated text (List.mem_singleton_self text)
      refine ⟨⟨rfl, rfl⟩, hselections, hjoins, fun whole hwhole => ?_, fun key hkey => ?_, horder⟩
      · rw [Query.addCondition] at hwhole
        obtain rfl := Option.some.inj hwhole
        cases hold : q.condition with
        | none => exact htext
        | some old =>
          -- Base and condition go together as the members of a bracket do.
          have hjoined : "(" ++ old ++ ") AND (" ++ text ++ ")" =
              joinConditions .and [old, text] := by
            simp only [joinConditions, List.map_cons, List.map_nil, Text.join, Connective.text,
              String.append_assoc]
            rfl
          show Stated schema q.entity q.aliasName ("(" ++ old ++ ") AND (" ++ text ++ ")")
          rw [hjoined]
          exact .bracket .and
            (List.forall_mem_cons.2 ⟨hcondition old hold, List.forall_mem_singleton.2 htext⟩)
      · rcases Dict.mem_keys_insertAll_iff.1 hkey with hkey | hkey
        · exact hparameters key hkey
        · exact hbound (List.forall_mem_nil _) key hkey

theorem withOrder_fromRegistry
    (haliases : ∀ relation ∈ r.relations, relation.aliasName = none)
    (h : withOrder schema r q = .ok q') (hq : FromRegistry schema entity main r q) :
    FromRegistry schema entity main r q' := by
  refine of_foldlM_eq_ok h hq fun o _ q q' hstep hq => ?_
  obtain ⟨taken, haccepts, rfl⟩ := map_eq_ok.1 hstep
  cases taken with
  | false => exact hq
  | true =>
    obtain ⟨⟨rfl, rfl⟩, hselections, hjoins, hcondition, hparameters, horder⟩ := hq
    obtain ⟨-, hcolumn⟩ := hasColumn_of_isColumn (leads_of_accepts hpolicies haccepts)
    refine ⟨⟨rfl, rfl⟩, hselections, hjoins, hcondition, hparameters, ?_⟩
    refine List.forall_mem_append.2 ⟨horder, List.forall_mem_singleton.2 ?_⟩
    exact ⟨o.path.base, o.path.name, hcolumn, columnOf_eq haliases q o.path⟩

end Stages

/-! ## Requests from parameters -/

theorem aliasName_of_ofParams {params : Params} {r : Request}
    (h : Request.ofParams params = .ok r) :
    ∀ relation ∈ r.relations, relation.aliasName = none := by
  obtain ⟨condition, -, h⟩ := bind_eq_ok.1 h
  cases h
  intro relation hrelation
  obtain ⟨joined, -, rfl⟩ := List.mem_map.1 hrelation
  rfl

/-- **All names in the query of a request from parameters come from the registry.** Where they are
made of letters, digits and underscores, so do the columns that are read off the condition. -/
theorem build_fromRegistry {params : Params} {r : Request} {q : Query}
    (hpolicies : ∀ clause : Clause, clause.policy schema.policies ≠ .allowUnsafe)
    (hr : Request.ofParams params = .ok r)
    (h : build schema (.of entity main) r = .ok q) :
    FromRegistry schema entity main r q ∧
      (IsName main → schema.registry.IsNamed → ∀ column ∈ q.condition.toList.flatMap columns,
        ∃ chain name, HasColumn schema.registry entity chain name ∧
          column = aliasPath main chain ++ "." ++ name) := by
  have haliases := aliasName_of_ofParams hr
  obtain ⟨q₄, hall, rfl⟩ := map_eq_ok.1 h
  obtain ⟨q₁, hselect, hall⟩ := bind_eq_ok.1 hall
  obtain ⟨q₂, hrelations, hall⟩ := bind_eq_ok.1 hall
  obtain ⟨q₃, hcondition, horder⟩ := bind_eq_ok.1 hall
  have h₁ := withSelect_fromRegistry hpolicies hselect
  have h₂ := withRelations_fromRegistry hpolicies haliases hrelations h₁
  have h₃ := withCondition_fromRegistry hpolicies haliases hcondition h₂
  obtain ⟨hsame, hselections, hjoins, hcondition, hparameters, horder⟩ :=
    withOrder_fromRegistry hpolicies haliases horder h₃
  refine ⟨⟨hsame, hselections, hjoins, hcondition, hparameters, horder⟩, ?_⟩
  intro hmain hnames column hcolumn
  obtain ⟨text, htext, hcolumn⟩ := List.mem_flatMap.1 hcolumn
  exact (hcondition text (Option.mem_toList.1 htext)).of_mem_columns hmain hnames column hcolumn

/-- Posts and their authors, who have written posts. -/
def blog : Registry :=
  Registry.register
    (Registry.register .empty
      ⟨"post", "posts", ["id", "title"], .ofList [("author", "user")]⟩)
    ⟨"user", "users", ["id", "name"], .ofList [("posts", "post")]⟩

/-- A condition on the name of an author whom relations reach by going round in a circle. -/
def circleText : String :=
  "\x7b\"author.posts.author.name\":\x7b\"$cont\":\"x\"\x7d," ++
    "\"id\":\x7b\"$between\":[\"a\",\"b\"]\x7d\x7d"

def circle : Json := .obj [("author.posts.author.name", .obj [("$cont", .str "x")]),
  ("id", .obj [("$between", .arr [.str "a", .str "b"])])]

theorem read_circle : Json.read? circleText = some circle := by cbv

/-- What is asked for goes round in a circle, and partly is not declared. -/
def circleParams : Params := .ofPairs [("fields", "id,password"), ("join", "author"),
  ("join", "author.posts||title"), ("join", "x; DROP TABLE posts"), ("s", circleText),
  ("sort", "author.posts.title,DESC"), ("sort", "1; --,ASC")]

def circleRequest : Request where
  select := [⟨["id"]⟩, ⟨["password"]⟩, ⟨["author", "posts", "title"]⟩]
  relations := [⟨⟨["author"]⟩, none⟩, ⟨⟨["author", "posts"]⟩, none⟩,
    ⟨⟨["x; DROP TABLE posts"]⟩, none⟩]
  order := [⟨⟨["author", "posts", "title"]⟩, .descending⟩, ⟨⟨["1; --"]⟩, .ascending⟩]
  condition := .group .and
    [.leaf ⟨⟨["author", "posts", "author", "name"]⟩, .contains, .one (.text "x")⟩,
      .leaf ⟨⟨["id"]⟩, .between, .many [.text "a", .text "b"]⟩]

/-- What is not declared is left out, and what goes round has an alias for every relation. -/
theorem build_fromRegistry_circle :
    Request.ofParams circleParams = .ok circleRequest ∧
      (∀ clause : Clause, clause.policy ({} : Policies) ≠ .allowUnsafe) ∧
      IsName "p" ∧ blog.IsNamed ∧
      ∃ q, build { registry := blog } (.of "post" "p") circleRequest = .ok q ∧
        q.text = "SELECT p.id, p_author, p_author_posts.title FROM posts p" ++
          " LEFT JOIN p.author p_author LEFT JOIN p_author.posts p_author_posts" ++
          " WHERE (p_author_posts_author.name LIKE :name_0)" ++
          " AND (p.id BETWEEN :id_0_start AND :id_0_end) ORDER BY p_author_posts.title DESC" ∧
        q.condition.toList.flatMap columns = ["p_author_posts_author.name", "p.id"] ∧
        FromRegistry { registry := blog } "post" "p" circleRequest q := by
  have hr : Request.ofParams circleParams = .ok circleRequest := by
    rw [Request.ofParams, Request.conditionOf_of_read rfl read_circle rfl]
    rfl
  have hpolicies : ∀ clause : Clause, clause.policy ({} : Policies) ≠ .allowUnsafe := by
    intro clause
    cases clause <;> decide
  obtain ⟨q, hbuild, hview⟩ := exists_of_toOption
    (f := fun q : Query => (q.text, q.condition.toList.flatMap columns))
    (x := build { registry := blog } (.of "post" "p") circleRequest)
    (b := ("SELECT p.id, p_author, p_author_posts.title FROM posts p" ++
      " LEFT JOIN p.author p_author LEFT JOIN p_author.posts p_author_posts" ++
      " WHERE (p_author_posts_author.name LIKE :name_0)" ++
      " AND (p.id BETWEEN :id_0_start AND :id_0_end) ORDER BY p_author_posts.title DESC",
      ["p_author_posts_author.name", "p.id"])) (by decide +kernel)
  obtain ⟨htext, hcolumns⟩ := Prod.mk.inj hview
  exact ⟨hr, hpolicies, by decide, by decide, q, hbuild, htext, hcolumns,
    (build_fromRegistry hpolicies hr hbuild).1⟩

end StoreQuery.Sql
