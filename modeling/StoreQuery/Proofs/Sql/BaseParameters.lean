import StoreQuery.Proofs.Sql.Parameters

/-!
# What becomes of the parameters of a base

A request is added to a base that may have a condition and parameters of its own. Its leaves bind
values under names of their own, and these are put over what the base has bound.

**A parameter of the base is changed exactly if a range binds its upper bound under that name**
(`build_baseParameters`). The name of a leaf is chosen so that neither the name nor the lower
bound of that name is in use (`hasName_parameterName`), but the upper bound is not looked for. So
in a base where no upper bound stands without the lower one (`Paired`) everything keeps its value,
and in any other base a range on the right column changes what the condition of the base is about
(`build_baseParameters_overwritten`).
-/

namespace StoreQuery.Sql

variable {schema : Schema} {base q : Query} {r : Request}

theorem supplied_of_base (h : build schema base r = .ok q) :
    ∃ uses : List Use, uses.map (·.comparison) = takenLeaves schema base.entity r.condition.leaves ∧
      (∀ use ∈ uses, use.IsOwn ∧ Query.hasName base.parameters use.parameter = false) ∧
      ∃ bound, Supplied .empty uses bound ∧
        ∀ name, q.parameters.find? name = (bound.find? name).or (base.parameters.find? name) := by
  obtain ⟨uses, hleaves, hown, -, hsupplied⟩ := stated_of_build h
  exact ⟨uses, hleaves, hown, hsupplied⟩

namespace Use

/-- The leaf is a range that binds its upper bound under a name. -/
def Caps (use : Use) (name : String) (high : Scalar) : Prop :=
  use.comparison.operator = .between ∧ endOf use.parameter = name ∧
    ∃ low, use.comparison.value = .many [low, high]

variable {use : Use} {name : String} {high : Scalar}

theorem Caps.mem_entries (h : use.Caps name high) : (name, .one high) ∈ use.entries := by
  obtain ⟨hop, rfl, low, hvalue⟩ := h
  simp [entries, hop, hvalue, leafParameters, Operand.asList?, endOf]

theorem exists_caps {used : Dict Operand} (hvalid : use.comparison.validate = .ok ())
    (hunused : Query.hasName used use.parameter = false) (hname : name ∈ use.names)
    (hused : name ∈ used.keys) : ∃ high, use.Caps name high := by
  obtain ⟨hparameter, hstart⟩ := hasName_eq_false.1 hunused
  have hbinds := binds_leafParameters hvalid use.parameter
  unfold names entries at hname
  generalize leafParameters _ _ _ = entries at hname hbinds
  generalize hop : use.comparison.operator = op at hbinds
  generalize hvalue : use.comparison.value = value at hbinds
  cases hbinds with
  | ranged low high =>
    rcases List.mem_pair.1 hname with rfl | rfl
    · exact absurd hused hstart
    · exact ⟨high, hop, rfl, low, hvalue⟩
  | tested => cases hname
  | _ =>
    obtain rfl := List.mem_singleton.1 hname
    exact absurd hused hparameter

end Use

/-- **A parameter of the base is changed exactly if a range binds its upper bound under that name.**
The leaves that are taken bind their values under names that the base does not use, nor the lower
bounds of these names. Where the base has no upper bound without the lower one, everything it binds
keeps its value. -/
theorem build_baseParameters (h : build schema base r = .ok q) :
    ∃ uses : List Use, uses.map (·.comparison) = takenLeaves schema base.entity r.condition.leaves ∧
      (∀ use ∈ uses, use.IsOwn ∧ Query.hasName base.parameters use.parameter = false ∧
        ∀ entry ∈ use.entries, q.parameters.find? entry.1 = some entry.2) ∧
      (∀ name value, base.parameters.find? name = some value →
        (q.parameters.find? name = some value ↔
          ∀ use ∈ uses, ∀ high, use.Caps name high → value = .one high)) ∧
      (Paired base.parameters → ∀ name value, base.parameters.find? name = some value →
        q.parameters.find? name = some value) := by
  obtain ⟨uses, hleaves, hown, bound, hsupplied, hfind⟩ := supplied_of_base h
  have hfound : ∀ use ∈ uses, ∀ entry ∈ use.entries,
      q.parameters.find? entry.1 = some entry.2 := by
    intro use huse entry hentry
    rw [hfind, hsupplied.found use huse entry hentry]
    rfl
  have hkeys : ∀ {name value}, base.parameters.find? name = some value →
      name ∈ base.parameters.keys := by
    intro name value hbound
    rw [← Dict.contains_iff_mem_keys, Dict.contains, hbound]
    rfl
  have hcaps : ∀ {name value}, base.parameters.find? name = some value →
      (∀ use ∈ uses, ∀ high, use.Caps name high → value = .one high) →
        q.parameters.find? name = some value := by
    intro name value hbound hsame
    by_cases hname : name ∈ namesOf uses
    · obtain ⟨use, huse, hname⟩ := List.mem_flatMap.1 hname
      obtain ⟨hvalid, hunused⟩ := hown use huse
      obtain ⟨high, hhigh⟩ := Use.exists_caps hvalid.accepted hunused hname (hkeys hbound)
      rw [hfound use huse _ hhigh.mem_entries, hsame use huse high hhigh]
    · rw [hfind, hsupplied.kept name hname, Dict.find?_empty, Option.none_or, hbound]
  refine ⟨uses, hleaves, ?own, ?changed, ?paired⟩
  case own => exact fun use huse => ⟨(hown use huse).1, (hown use huse).2, hfound use huse⟩
  case changed =>
    intro name value hbound
    refine ⟨fun hkept use huse high hhigh => ?_, hcaps hbound⟩
    have hsame := hkept.symm.trans (hfound use huse _ hhigh.mem_entries)
    exact Option.some.inj hsame
  case paired =>
    intro hpaired name value hbound
    refine hcaps hbound fun use huse high hhigh => ?_
    obtain ⟨-, hend, -⟩ := hhigh
    -- The lower bound would be in use as well.
    have hstart := hpaired use.parameter (hend ▸ hkeys hbound)
    exact absurd hstart (hasName_eq_false.1 (hown use huse).2).2

/-- Posts, of which every client sees those of one tenant. -/
def ownedPosts : Registry :=
  Registry.register .empty ⟨"post", "posts", ["id", "tenant"], .empty⟩

/-- The posts of a tenant that is bound under a name. -/
def tenantPosts (name : String) : Query :=
  { Query.of "post" "p" with
    condition := some ("p.tenant = :" ++ name)
    parameters := .ofList [(name, .one (.int 7))] }

/-- Posts with numbers in a range. -/
def someIds : Request where
  condition := .leaf ⟨⟨["id"]⟩, .between, .many [.int 1, .int 2]⟩

/-- A name that a range would take as a whole, or for its lower bound, is left alone. -/
theorem build_baseParameters_tenant :
    ∃ q, build { registry := ownedPosts } (tenantPosts "id_0_start") someIds = .ok q ∧
      q.condition = some "(p.tenant = :id_0_start) AND (p.id BETWEEN :id_1_start AND :id_1_end)" ∧
      q.parameters.find? "id_0_start" = some (.one (.int 7)) := by
  obtain ⟨q, hbuild, hcondition⟩ := exists_of_toOption (f := Query.condition)
    (x := build { registry := ownedPosts } (tenantPosts "id_0_start") someIds)
    (b := some "(p.tenant = :id_0_start) AND (p.id BETWEEN :id_1_start AND :id_1_end)")
    (by decide +kernel)
  obtain ⟨-, -, -, -, hkept⟩ := build_baseParameters hbuild
  refine ⟨q, hbuild, hcondition, hkept ?_ _ _ (by decide +kernel)⟩
  intro parameter hparameter
  have hname : endOf parameter = "id_0_start" := by
    have hkeys : (tenantPosts "id_0_start").parameters.keys = ["id_0_start"] := by decide +kernel
    rw [hkeys] at hparameter
    exact List.mem_singleton.1 hparameter
  exact absurd hname (endOf_ne_startOf parameter "id_0")

/-- A name that a range takes for its upper bound gets another value, and so the condition of the
base is about another tenant. -/
theorem build_baseParameters_overwritten :
    ∃ q, build { registry := ownedPosts } (tenantPosts "id_0_end") someIds = .ok q ∧
      q.condition = some "(p.tenant = :id_0_end) AND (p.id BETWEEN :id_0_start AND :id_0_end)" ∧
      (tenantPosts "id_0_end").parameters.find? "id_0_end" = some (.one (.int 7)) ∧
      q.parameters.find? "id_0_end" = some (.one (.int 2)) := by
  obtain ⟨q, hbuild, hview⟩ := exists_of_toOption
    (f := fun q : Query => (q.condition, q.parameters.find? "id_0_end"))
    (x := build { registry := ownedPosts } (tenantPosts "id_0_end") someIds)
    (b := (some "(p.tenant = :id_0_end) AND (p.id BETWEEN :id_0_start AND :id_0_end)",
      some (.one (.int 2)))) (by decide +kernel)
  obtain ⟨hcondition, hvalue⟩ := Prod.mk.inj hview
  exact ⟨q, hbuild, hcondition, by decide +kernel, hvalue⟩

end StoreQuery.Sql
