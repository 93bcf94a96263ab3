import StoreQuery.Proofs.Condition.Compiling
import StoreQuery.Proofs.Dict
import StoreQuery.Sql.Build

/-!
# Statements do not depend on values

Two requests that differ in nothing but the values in their conditions become queries that differ
in nothing but the values of their parameters (`build_alike`). So whatever text a client puts into
a value, it reaches the database as the value of a parameter and never as a part of the statement.

The reason is that a leaf looks at its value for two things only: whether the operator accepts it,
and what to bind. The names under which it binds, and the number that makes them free, depend on
the names that are in use and not on what stands under them.
-/

namespace StoreQuery.Sql

/-! ## Names of parameters -/

theorem hasName_congr {d d' : Dict Operand} (h : d.keys = d'.keys) (name : String) :
    Query.hasName d name = Query.hasName d' name := by
  rw [Query.hasName, Query.hasName, Dict.contains_congr h, Dict.contains_congr h]

theorem parameterName_congr {bound bound' : Dict Operand} (used : Dict Operand)
    (h : bound.keys = bound'.keys) (column : String) :
    parameterName used bound column = parameterName used bound' column := by
  have hfree : Query.hasName bound = Query.hasName bound' := funext fun name => hasName_congr h name
  simp only [parameterName, Dict.size_congr h, hfree]

theorem names_leafParameters (op : Operator) (value value' : Operand) (parameter : String) :
    (leafParameters op value parameter).map (·.1) =
      (leafParameters op value' parameter).map (·.1) := by
  cases op <;> rfl

/-! ## Conditions -/

/-- Values have no part in what a compilation does, but for what it binds. -/
theorem compiler_uniform (schema : Schema) (q : Query) (relations : List Relation) :
    (compiler schema q relations).Uniform (fun _ _ => True) fun bound bound' =>
      bound.keys = bound'.keys where
  leaf {value value'} path op scope _ := by
    intro bound bound' t t' text text' hbound run run'
    simp only [compiler, compileLeaf] at run run'
    -- What becomes of the path is settled before the value is looked at.
    cases haccepts : accepts schema q.entity path .condition with
    | error e => simp only [haccepts] at run; cases run
    | ok taken =>
      simp only [haccepts] at run run'
      cases taken with
      | false =>
        cases run
        cases run'
        exact ⟨rfl, hbound⟩
      | true =>
        cases hvalid : op.validate value with
        | error e => simp only [Comparison.validate, hvalid] at run; cases run
        | ok _ =>
          cases hvalid' : op.validate value' with
          | error e => simp only [Comparison.validate, hvalid'] at run'; cases run'
          | ok _ =>
            simp only [Comparison.validate, hvalid] at run
            simp only [Comparison.validate, hvalid'] at run'
            cases run
            cases run'
            have hname := parameterName_congr q.parameters hbound path.name
            refine ⟨by rw [hname], ?_⟩
            rw [hname]
            exact Dict.keys_insertAll_congr hbound (names_leafParameters op value value' _)
  join k texts scope hbound := ⟨rfl, hbound⟩

theorem withCondition_alike {schema : Schema} {r r' : Request} {q q₁ q₁' : Query}
    (h : r.Alike (fun _ _ => True) r') (hrun : withCondition schema r q = .ok q₁)
    (hrun' : withCondition schema r' q = .ok q₁') :
    q₁.parameters.keys = q₁'.parameters.keys ∧ q₁' = { q₁ with parameters := q₁'.parameters } := by
  obtain ⟨halike, hrest⟩ := h
  have hrelations : r'.relations = r.relations := by rw [hrest]
  rw [withCondition, EStateM.run] at hrun hrun'
  rw [hrelations] at hrun'
  cases hc : (compiler schema q r.relations).compile r.condition .empty with
  | error e bound => simp only [hc] at hrun; cases hrun
  | ok text bound =>
    cases hc' : (compiler schema q r.relations).compile r'.condition .empty with
    | error e bound' => simp only [hc'] at hrun'; cases hrun'
    | ok text' bound' =>
      simp only [hc] at hrun
      simp only [hc'] at hrun'
      obtain ⟨rfl, hbound⟩ :=
        (compiler_uniform schema q r.relations).compileAt .root halike rfl hc hc'
      cases text with
      | none =>
        cases hrun
        cases hrun'
        exact ⟨rfl, rfl⟩
      | some condition =>
        cases hrun
        cases hrun'
        exact ⟨Dict.keys_insertAll_congr rfl hbound, rfl⟩

/-! ## Order -/

theorem withOrder_parameters (schema : Schema) (r : Request) (q : Query)
    (parameters : Dict Operand) :
    withOrder schema r { q with parameters } =
      (withOrder schema r q).map fun q => { q with parameters } := by
  rw [withOrder, withOrder]
  induction r.order generalizing q with
  | nil => rfl
  | cons o rest ih =>
    rw [List.foldlM_cons, List.foldlM_cons, withSortKey, withSortKey]
    cases haccepts : accepts schema q.entity o.path .order with
    | error e => rfl
    | ok taken =>
      cases taken with
      | false => exact ih q
      | true =>
        exact ih { q with order := q.order ++ [⟨columnOf q r.relations o.path, o.direction⟩] }

/-! ## Queries -/

/-- **Requests that differ in their values become one statement.** The two queries have the same
parameter names, and are the same in everything but the values of their parameters. -/
theorem build_alike {schema : Schema} {base q q' : Query} {r r' : Request}
    (h : r.Alike (fun _ _ => True) r') (hbuild : build schema base r = .ok q)
    (hbuild' : build schema base r' = .ok q') :
    q.text = q'.text ∧ q.parameters.keys = q'.parameters.keys ∧
      { q with parameters := .empty } = { q' with parameters := .empty } := by
  have hrest := h.rest
  obtain ⟨qall, hall, rfl⟩ := map_eq_ok.1 hbuild
  obtain ⟨qall', hall', rfl⟩ := map_eq_ok.1 hbuild'
  obtain ⟨q₁, hselect, hall⟩ := bind_eq_ok.1 hall
  obtain ⟨q₂, hrelations, hall⟩ := bind_eq_ok.1 hall
  obtain ⟨q₃, hcondition, horder⟩ := bind_eq_ok.1 hall
  obtain ⟨q₁', hselect', hall'⟩ := bind_eq_ok.1 hall'
  obtain ⟨q₂', hrelations', hall'⟩ := bind_eq_ok.1 hall'
  obtain ⟨q₃', hcondition', horder'⟩ := bind_eq_ok.1 hall'
  -- Select and relations come before the condition and do not look at it.
  have hq₁ : q₁' = q₁ := by
    rw [hrest] at hselect'
    exact Except.ok.inj (hselect'.symm.trans hselect)
  have hq₂ : q₂' = q₂ := by
    rw [hrest, hq₁] at hrelations'
    exact Except.ok.inj (hrelations'.symm.trans hrelations)
  rw [hq₂] at hcondition'
  obtain ⟨hkeys, hsame⟩ := withCondition_alike h hcondition hcondition'
  rw [hrest, hsame] at horder'
  obtain ⟨q₄, horder'', rfl⟩ :=
    map_eq_ok.1 ((withOrder_parameters schema r q₃ _).symm.trans horder')
  obtain rfl := Except.ok.inj (horder''.symm.trans horder)
  -- The order binds nothing.
  have hparameters : q₄.parameters = q₃.parameters := by
    have hsort := withOrder_parameters schema r q₃ q₃.parameters
    rw [horder] at hsort
    have hsame : q₄ = { q₄ with parameters := q₃.parameters } := Except.ok.inj hsort
    rw [hsame]
  have hpaginate : ∀ q, paginate r' q = paginate r q := fun q => by rw [hrest]; rfl
  rw [hpaginate]
  exact ⟨rfl, by simpa [paginate, hparameters] using hkeys, rfl⟩

/-- Posts in categories. -/
def posts : Registry :=
  Registry.register
    (Registry.register .empty
      ⟨"post", "posts", ["id", "title"], .ofList [("category", "category")]⟩)
    ⟨"category", "category", ["id", "name"], .empty⟩

/-- Titles that contain a text, among some ids or in a category. -/
def titled (text : String) (ids : List Scalar) (category : Scalar) : Request where
  relations := [⟨⟨["category"]⟩, none⟩]
  condition := .group .and
    [.leaf ⟨⟨["title"]⟩, .containsLower, .one (.text text)⟩,
      .group .or
        [.leaf ⟨⟨["id"]⟩, .isIn, .many ids⟩,
          .leaf ⟨⟨["category", "id"]⟩, .eq, .one category⟩]]

/-- A query in which a parameter name is in use. -/
def used : Query := { Query.of "post" "p" with parameters := .ofList [("id_0", .one .null)] }

def modest : Request := titled "x" [.int 1, .int 2] (.int 3)

def hostile : Request := titled "'; DROP TABLE posts; --" [.text ":id_0"] .null

/-- A value that tries to end the statement ends up where any other value does. -/
theorem build_alike_hostile :
    modest.Alike (fun _ _ => True) hostile ∧
      ∃ q q', build { registry := posts } used modest = .ok q ∧
        build { registry := posts } used hostile = .ok q' ∧
        q.text = q'.text ∧ q.parameters.keys = q'.parameters.keys ∧
        { q with parameters := .empty } = { q' with parameters := .empty } := by
  have halike : modest.Alike (fun _ _ => True) hostile := by
    refine ⟨.group .and (.cons (.leaf _ _ trivial) (.cons ?_ .nil)), rfl⟩
    exact .group .or (.cons (.leaf _ _ trivial) (.cons (.leaf _ _ trivial) .nil))
  obtain ⟨q, hq⟩ : ∃ q, build { registry := posts } used modest = .ok q := ⟨_, rfl⟩
  obtain ⟨q', hq'⟩ : ∃ q', build { registry := posts } used hostile = .ok q' := ⟨_, rfl⟩
  exact ⟨halike, q, q', hq, hq', build_alike halike hq hq'⟩

end StoreQuery.Sql
