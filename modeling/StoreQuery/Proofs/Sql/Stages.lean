import Mathlib.Data.List.Forall2
import StoreQuery.Proofs.Sql.Identifiers

/-!
# The stages of a query

A query is built in four stages, which select, join, add the condition and sort. Each stage changes
its own parts of the query and leaves the others as they are. A path that is not taken into a clause
leaves no trace there, so relations and sort keys in a row give the joins and the columns of those
that are taken, in their order (`withRelations_eq_ok`, `withOrder_eq_ok`). `Built` says what all
stages together make of a request.
-/

namespace StoreQuery.Sql

variable {schema : Schema} {r : Request} {base q q' : Query}

/-! ## Paths that are taken -/

/-- Whether a path is taken into a clause. -/
def takes (schema : Schema) (entity : String) (clause : Clause) (path : Path) : Bool :=
  match accepts schema entity path clause with
  | .ok taken => taken
  | .error _ => false

section Taken

variable {entity : String} {clause : Clause} {path : Path}

theorem takes_of_accepts {taken : Bool} (h : accepts schema entity path clause = .ok taken) :
    takes schema entity clause path = taken := by
  rw [takes, h]

theorem takes_eq_true :
    takes schema entity clause path = true ↔ accepts schema entity path clause = .ok true := by
  constructor
  · intro h
    rw [takes] at h
    cases haccepts : accepts schema entity path clause with
    | error e =>
      rw [haccepts] at h
      cases h
    | ok taken =>
      rw [haccepts] at h
      exact congrArg Except.ok h
  · exact takes_of_accepts

theorem accepted_eq_ok {paths taken : List Path}
    (h : accepted schema entity clause paths = .ok taken) :
    taken = paths.filter (takes schema entity clause) := by
  induction paths generalizing taken with
  | nil =>
    cases h
    rfl
  | cons path paths ih =>
    obtain ⟨accepts, haccepts, h⟩ := bind_eq_ok.1 h
    obtain ⟨others, hothers, h⟩ := bind_eq_ok.1 h
    have htakes := takes_of_accepts haccepts
    obtain rfl := ih hothers
    cases accepts with
    | false =>
      cases h
      rw [List.filter_cons_of_neg (by simp [htakes])]
      rfl
    | true =>
      cases h
      rw [List.filter_cons_of_pos htakes]
      rfl

end Taken

/-- The columns behind a chain of relations that a request selects and that are taken. -/
def selectedOf (schema : Schema) (entity : String) (select : List Path) (chain : List String) :
    List Path :=
  select.filter fun path => takes schema entity .select path && path.hasBase chain

/-- The columns behind a chain that are accepted are those that the request selects of it. -/
theorem accepted_selectedOf {entity : String} {select paths : List Path} {chain : List String}
    (h : accepted schema entity .select (select.filter fun path => path.hasBase chain) =
      .ok paths) : paths = selectedOf schema entity select chain := by
  rw [accepted_eq_ok h, List.filter_filter]
  rfl

/-! ## Relations -/

/-- The relations that are joined: those with a path that is taken. -/
def joined (schema : Schema) (entity : String) (relations : List Relation) : List Relation :=
  relations.filter fun relation =>
    !relation.path.isEmpty && takes schema entity .relations relation.path

theorem mem_joined {entity : String} {relations : List Relation} {relation : Relation} :
    relation ∈ joined schema entity relations ↔ relation ∈ relations ∧
      relation.path.segments ≠ [] ∧ accepts schema entity relation.path .relations = .ok true := by
  rw [joined, List.mem_filter, Bool.and_eq_true, takes_eq_true]
  simp [Path.isEmpty]

/-- The alias that the join of a relation gets. -/
def joinAlias (main : String) (relation : Relation) : String :=
  relation.aliasName.getD (aliasPath main relation.path.segments)

/-- A join that was made for a relation. -/
structure Made (main : String) (relation : Relation) (join : Join) : Prop where
  relationPath : join.relationPath =
    aliasPath main relation.path.base ++ "." ++ relation.path.name
  aliasName : join.aliasName = joinAlias main relation

/-- What is selected of a relation that is joined: the columns that the request selects of it, or
all of them. -/
def itemsOf (schema : Schema) (entity main : String) (select : List Path) (relation : Relation) :
    List String :=
  let columns := (selectedOf schema entity select relation.path.segments).map fun path =>
    joinAlias main relation ++ "." ++ path.name
  if columns.isEmpty then [joinAlias main relation] else columns

/-- The join that is made for a relation. -/
def joinOf (schema : Schema) (entity main : String) (select : List Path) (relation : Relation) :
    Join where
  relationPath := aliasPath main relation.path.base ++ "." ++ relation.path.name
  aliasName := joinAlias main relation
  selectAll := (selectedOf schema entity select relation.path.segments).isEmpty

theorem foldlM_withRelation {relations : List Relation}
    (h : relations.foldlM (withRelation schema r) q = .ok q') :
    q' = { q with
      selections := q.selections ++ (joined schema q.entity relations).flatMap
        (itemsOf schema q.entity q.aliasName r.select)
      joins := q.joins ++ (joined schema q.entity relations).map
        (joinOf schema q.entity q.aliasName r.select) } := by
  induction relations generalizing q with
  | nil =>
    cases h
    simp [joined]
  | cons relation relations ih =>
    rw [List.foldlM_cons] at h
    obtain ⟨next, hnext, h⟩ := bind_eq_ok.1 h
    obtain rfl := ih h
    obtain ⟨rfl, hleft⟩ | ⟨hempty, haccepts, name, paths, hname, hpaths, rfl⟩ :=
      withRelation_eq_ok hnext
    · -- A relation that is not taken leaves no trace.
      have hskip : joined schema next.entity (relation :: relations) =
          joined schema next.entity relations := by
        refine List.filter_cons_of_neg ?_
        rcases hleft with hempty | hfalse
        · simp [hempty]
        · simp [takes_of_accepts hfalse]
      rw [hskip]
    · have hkeep : joined schema q.entity (relation :: relations) =
          relation :: joined schema q.entity relations := by
        refine List.filter_cons_of_pos ?_
        simp [hempty, takes_of_accepts haccepts]
      obtain rfl : name = joinAlias q.aliasName relation := hname
      rw [hkeep, accepted_selectedOf hpaths]
      simp [itemsOf, joinOf]

/-! ## Stages -/

theorem withSelect_eq_ok (h : withSelect schema r (withTable schema base) = .ok q) :
    ∃ table selections, q = { base with table, selections } := by
  obtain ⟨table, htable⟩ := withTable_eq schema base
  rw [htable, withSelect] at h
  split at h
  · cases h
    exact ⟨table, base.selections, rfl⟩
  · obtain ⟨paths, -, rfl⟩ := map_eq_ok.1 h
    exact ⟨table, _, rfl⟩

theorem withRelations_eq_ok (h : withRelations schema r q = .ok q') :
    ∃ selections joins,
      List.Forall₂ (Made q.aliasName) (joined schema q.entity r.relations) joins ∧
        q' = { q with selections, joins := q.joins ++ joins } := by
  refine ⟨_, _, ?_, foldlM_withRelation h⟩
  exact List.forall₂_map_right_iff.2 (List.forall₂_same.2 fun _ _ => ⟨rfl, rfl⟩)

/-- The text that the condition compiles to is added, if there is one. -/
theorem withCondition_eq_ok (h : withCondition schema r q = .ok q') :
    ∃ text bound, (compiler schema q r.relations).compileAt .root r.condition .empty =
        .ok text bound ∧
      q' = text.elim q fun condition => q.addCondition condition bound := by
  rw [withCondition] at h
  cases hrun : ((compiler schema q r.relations).compile r.condition).run .empty with
  | error e bound =>
    simp only [hrun] at h
    cases h
  | ok text bound =>
    simp only [hrun] at h
    refine ⟨text, bound, hrun, ?_⟩
    cases text with
    | none =>
      cases h
      rfl
    | some text =>
      cases h
      rfl

theorem foldlM_withSortKey {relations : List Relation} {keys : List Order}
    (h : keys.foldlM (withSortKey schema relations) q = .ok q') :
    q' = { q with order := q.order ++
      (keys.filter fun o => takes schema q.entity .order o.path).map fun o =>
        ⟨columnOf q relations o.path, o.direction⟩ } := by
  induction keys generalizing q with
  | nil =>
    cases h
    simp
  | cons o keys ih =>
    rw [List.foldlM_cons] at h
    obtain ⟨next, hnext, h⟩ := bind_eq_ok.1 h
    obtain ⟨taken, haccepts, rfl⟩ := map_eq_ok.1 hnext
    have htakes := takes_of_accepts haccepts
    rw [ih h]
    cases taken with
    | false =>
      rw [List.filter_cons_of_neg (by simp [htakes])]
      rfl
    | true =>
      rw [List.filter_cons_of_pos (by simp [htakes]), List.map_cons]
      simp [columnOf]

theorem withOrder_eq_ok (h : withOrder schema r q = .ok q') :
    q' = { q with order := q.order ++
      (r.order.filter fun o => takes schema q.entity .order o.path).map fun o =>
        ⟨columnOf q r.relations o.path, o.direction⟩ } :=
  foldlM_withSortKey h

theorem build_eq_ok (h : build schema base r = .ok q) :
    ∃ q₁ q₂ q₃ q₄, withSelect schema r (withTable schema base) = .ok q₁ ∧
      withRelations schema r q₁ = .ok q₂ ∧ withCondition schema r q₂ = .ok q₃ ∧
      withOrder schema r q₃ = .ok q₄ ∧ q = paginate r q₄ := by
  obtain ⟨q₄, hall, rfl⟩ := map_eq_ok.1 h
  obtain ⟨q₁, hselect, hall⟩ := bind_eq_ok.1 hall
  obtain ⟨q₂, hrelations, hall⟩ := bind_eq_ok.1 hall
  obtain ⟨q₃, hcondition, horder⟩ := bind_eq_ok.1 hall
  exact ⟨q₁, q₂, q₃, q₄, hselect, hrelations, hcondition, horder, rfl⟩

/-- The condition of a request is compiled, and what comes out is added to the base. -/
theorem run_of_build (h : build schema base r = .ok q) :
    q.aliasName = base.aliasName ∧ ∃ text bound,
      (compiler schema base r.relations).compileAt .root r.condition .empty = .ok text bound ∧
      q.condition = (text.elim base fun text => base.addCondition text bound).condition ∧
      q.parameters = (text.elim base fun text => base.addCondition text bound).parameters := by
  obtain ⟨q₁, q₂, q₃, q₄, hselect, hrelations, hcondition, horder, rfl⟩ := build_eq_ok h
  obtain ⟨table, selections, rfl⟩ := withSelect_eq_ok hselect
  obtain ⟨selections', joins, -, rfl⟩ := withRelations_eq_ok hrelations
  obtain ⟨text, bound, hrun, rfl⟩ := withCondition_eq_ok hcondition
  -- The compiler looks at nothing that the stages in front of it have changed.
  rw [withOrder_eq_ok horder]
  cases text with
  | none => exact ⟨rfl, none, bound, hrun, rfl, rfl⟩
  | some text => exact ⟨rfl, some text, bound, hrun, rfl, rfl⟩

/-! ## The query of a request -/

/-- All stages together: to a query with its joins comes the text of the condition with what is
bound for it, and then order and part. -/
theorem exists_of_build {entity main : String} (h : build schema (.of entity main) r = .ok q) :
    ∃ start text bound order, start.entity = entity ∧ start.aliasName = main ∧
      start.condition = none ∧ start.parameters = .empty ∧
      List.Forall₂ (Made main) (joined schema entity r.relations) start.joins ∧
      (compiler schema start r.relations).compileAt .root r.condition .empty = .ok text bound ∧
      order = ((r.order.filter fun o => takes schema entity .order o.path).map fun o =>
        ⟨fieldAlias main r.relations o.path.base ++ "." ++ o.path.name, o.direction⟩) ∧
      q = paginate r { text.elim start fun condition => start.addCondition condition bound with
        order } := by
  obtain ⟨q₁, q₂, q₃, q₄, hselect, hrelations, hcondition, horder, rfl⟩ := build_eq_ok h
  obtain ⟨table, selections, rfl⟩ := withSelect_eq_ok hselect
  obtain ⟨selections', joins, hmade, rfl⟩ := withRelations_eq_ok hrelations
  obtain ⟨text, bound, hrun, rfl⟩ := withCondition_eq_ok hcondition
  refine ⟨{ Query.of entity main with table, selections := selections', joins },
    text, bound, _, rfl, rfl, rfl, rfl, hmade, hrun, rfl, ?_⟩
  rw [withOrder_eq_ok horder]
  cases text with
  | none => rfl
  | some text => rfl

/-- What joins, condition and order of the query for a request are made of. -/
structure Built (schema : Schema) (entity main : String) (r : Request) (q : Query) : Prop where
  aliasName : q.aliasName = main
  joins : List.Forall₂ (Made main) (joined schema entity r.relations) q.joins
  condition : ∃ start bound, start.entity = entity ∧ start.aliasName = main ∧
    (compiler schema start r.relations).compileAt .root r.condition .empty = .ok q.condition bound
  order : q.order = (r.order.filter fun o => takes schema entity .order o.path).map fun o =>
    ⟨fieldAlias main r.relations o.path.base ++ "." ++ o.path.name, o.direction⟩

theorem built_of_build {entity main : String} (h : build schema (.of entity main) r = .ok q) :
    Built schema entity main r q := by
  obtain ⟨start, text, bound, order, hentity, hmain, hnone, -, hmade, hrun, horder, rfl⟩ :=
    exists_of_build h
  cases text with
  | none =>
    refine ⟨hmain, hmade, ⟨start, bound, hentity, hmain, ?_⟩, horder⟩
    show _ = EStateM.Result.ok start.condition bound
    rw [hnone, hrun]
  | some text =>
    refine ⟨hmain, hmade, ⟨start, bound, hentity, hmain, ?_⟩, horder⟩
    show _ = EStateM.Result.ok (start.addCondition text bound).condition bound
    rw [Query.addCondition, hnone, hrun]

end StoreQuery.Sql
