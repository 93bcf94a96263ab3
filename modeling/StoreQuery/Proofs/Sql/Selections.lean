import StoreQuery.Proofs.Sql.Joins

/-!
# What a statement selects

A request that selects columns gets those of them that are taken: first the columns of the main
table, then for each joined relation the columns that are selected of it, or the whole relation if
there are none (`selections_of_build`). So nothing is selected that was not asked for.

But a list of selections may come out empty, and a statement reads an empty list as everything.
**A statement selects everything exactly if no column of the main table is taken and no relation is
joined** (`build_selections`). As long as the list is not empty it is neither `*` nor the main
alias, unless the request itself calls a relation so.
-/

namespace StoreQuery.Sql

variable {schema : Schema} {entity main : String} {base q : Query} {r : Request}

/-! ## The list of a statement -/

/-- What a statement selects, as it is written. -/
def Query.selectList (q : Query) : String :=
  if q.selections.isEmpty then "*" else Text.join ", " q.selections

theorem Query.exists_text_eq (q : Query) : ∃ rest,
    q.text = "SELECT " ++ q.selectList ++ " FROM " ++ q.table ++ " " ++ q.aliasName ++ rest := by
  refine ⟨Text.join "" (q.joins.map Query.joinText) ++ Query.clause "WHERE" q.condition.toList ++
    Query.clause "ORDER BY" (q.order.map fun o => o.column ++ " " ++ o.direction.text) ++
    Query.clause "LIMIT" (q.limit.map fun n => Text.ofNat n.toNat).toList ++
    Query.clause "OFFSET" (q.offset.map fun n => Text.ofNat n.toNat).toList, ?_⟩
  delta Query.text Query.selectList
  simp only [String.append_assoc]

/-! ## Selections of a request -/

/-- What is selected of the main table, and what of a table without selections. -/
def mainItems (schema : Schema) (base : Query) (select : List Path) : List String :=
  if select.isEmpty then base.selections
  else (selectedOf schema base.entity select []).map fun path => base.aliasName ++ "." ++ path.name

theorem hasBase_nil (path : Path) : path.hasBase [] = decide (path.length = 1) := by
  simp only [Path.hasBase, Path.startsWith, List.isPrefixOf, Bool.and_true]
  rfl

theorem toText_of_hasBase_nil {path : Path} (h : path.hasBase [] = true) :
    path.toText = path.name := by
  rw [hasBase_nil, decide_eq_true_iff] at h
  obtain ⟨segment, hsegment⟩ := List.length_eq_one_iff.1 h
  rw [Path.toText, Path.name, hsegment]
  rfl

theorem withSelect_selections (h : withSelect schema r (withTable schema base) = .ok q) :
    q.selections = mainItems schema base r.select := by
  obtain ⟨table, htable⟩ := withTable_eq schema base
  rw [htable, withSelect] at h
  rw [mainItems]
  split at h
  · rename_i hempty
    cases h
    rw [if_pos hempty]
  · rename_i hfull
    obtain ⟨paths, hpaths, rfl⟩ := map_eq_ok.1 h
    simp only [← hasBase_nil] at hpaths
    obtain rfl := accepted_selectedOf hpaths
    rw [if_neg hfull]
    refine List.map_congr_left fun path hpath => ?_
    obtain ⟨-, hbase⟩ := (Bool.and_eq_true _ _).mp (List.mem_filter.1 hpath).2
    rw [toText_of_hasBase_nil hbase]

/-- **Selections are those of the main table and then those of each relation that is joined**, and
there is a join for each of these relations. -/
theorem selections_of_build (h : build schema base r = .ok q) :
    q.selections = mainItems schema base r.select ++
        (joined schema base.entity r.relations).flatMap
          (itemsOf schema base.entity base.aliasName r.select) ∧
      q.joins = base.joins ++ (joined schema base.entity r.relations).map
        (joinOf schema base.entity base.aliasName r.select) ∧
      q.aliasName = base.aliasName := by
  obtain ⟨q₁, q₂, q₃, q₄, hselect, hrelations, hcondition, horder, rfl⟩ := build_eq_ok h
  have hitems := withSelect_selections hselect
  obtain ⟨table, selections, rfl⟩ := withSelect_eq_ok hselect
  obtain rfl := foldlM_withRelation hrelations
  obtain ⟨text, bound, -, rfl⟩ := withCondition_eq_ok hcondition
  obtain rfl : selections = mainItems schema base r.select := hitems
  rw [withOrder_eq_ok horder]
  cases text <;> exact ⟨rfl, rfl, rfl⟩

/-- Something that a request selects: a column of the main table, a column of a relation that is
joined, or the whole of such a relation if no column of it is selected. -/
inductive Chosen (schema : Schema) (entity main : String) (r : Request) : String → Prop
  | column {path : Path} (hselect : path ∈ r.select) (hbase : path.hasBase [] = true)
    (htaken : takes schema entity .select path = true) :
    Chosen schema entity main r (main ++ "." ++ path.name)
  | ofRelation {relation : Relation} {path : Path}
    (hjoined : relation ∈ joined schema entity r.relations) (hselect : path ∈ r.select)
    (hbase : path.hasBase relation.path.segments = true)
    (htaken : takes schema entity .select path = true) :
    Chosen schema entity main r (joinAlias main relation ++ "." ++ path.name)
  | relation {relation : Relation} (hjoined : relation ∈ joined schema entity r.relations)
    (hnone : selectedOf schema entity r.select relation.path.segments = []) :
    Chosen schema entity main r (joinAlias main relation)

theorem mem_selectedOf {select : List Path} {chain : List String} {path : Path} :
    path ∈ selectedOf schema entity select chain ↔
      path ∈ select ∧ path.hasBase chain = true ∧ takes schema entity .select path = true := by
  rw [selectedOf, List.mem_filter, Bool.and_eq_true, and_comm (a := takes _ _ _ _ = true)]

theorem chosen_of_mem_itemsOf {relation : Relation} {item : String}
    (hjoined : relation ∈ joined schema entity r.relations)
    (h : item ∈ itemsOf schema entity main r.select relation) :
    Chosen schema entity main r item := by
  simp only [itemsOf] at h
  split at h
  · rename_i hnone
    obtain rfl := List.mem_singleton.1 h
    rw [List.isEmpty_iff, List.map_eq_nil_iff] at hnone
    exact .relation hjoined hnone
  · obtain ⟨path, hpath, rfl⟩ := List.mem_map.1 h
    obtain ⟨hselect, hbase, htaken⟩ := mem_selectedOf.1 hpath
    exact .ofRelation hjoined hselect hbase htaken

theorem itemsOf_ne_nil (select : List Path) (relation : Relation) :
    itemsOf schema entity main select relation ≠ [] := by
  simp only [itemsOf]
  split
  · exact List.cons_ne_nil _ _
  · rename_i hsome
    exact mt List.isEmpty_iff.2 hsome

/-- Without aliases in the request, everything that is selected is the main alias with more behind
it. -/
theorem Chosen.exists_toList {item : String}
    (haliases : ∀ relation ∈ r.relations, relation.aliasName = none)
    (h : Chosen schema entity main r item) :
    ∃ c rest, c ∈ ['.', '_'] ∧ item.toList = main.toList ++ c :: rest := by
  have halias : ∀ relation ∈ joined schema entity r.relations, ∃ rest,
      (joinAlias main relation).toList = main.toList ++ '_' :: rest := by
    intro relation hrelation
    obtain ⟨hmem, hsegments, -⟩ := mem_joined.1 hrelation
    refine ⟨(Text.join "_" relation.path.segments).toList, ?_⟩
    rw [joinAlias, haliases relation hmem, Option.getD_none, aliasPath,
      Text.join_cons "_" hsegments]
    simp
  cases h with
  | @column path => exact ⟨'.', path.name.toList, by decide, by simp⟩
  | @ofRelation relation path hjoined =>
    obtain ⟨rest, hrest⟩ := halias relation hjoined
    exact ⟨'_', rest ++ '.' :: path.name.toList, by decide, by simp [hrest]⟩
  | @relation relation hjoined =>
    obtain ⟨rest, hrest⟩ := halias relation hjoined
    exact ⟨'_', rest, by decide, hrest⟩

/-- **A request that selects something gets what it selects, or everything.** Everything it gets
exactly if no column of the main table is taken and no relation is joined. -/
theorem build_selections (hselect : r.select ≠ []) (h : build schema (.of entity main) r = .ok q) :
    q.joins = (joined schema entity r.relations).map (joinOf schema entity main r.select) ∧
      q.selections = ((selectedOf schema entity r.select []).map fun path =>
          main ++ "." ++ path.name) ++
        (joined schema entity r.relations).flatMap (itemsOf schema entity main r.select) ∧
      (∀ item ∈ q.selections, Chosen schema entity main r item) ∧
      (∃ rest, q.text = "SELECT " ++ q.selectList ++ " FROM " ++ q.table ++ " " ++ main ++ rest) ∧
      (q.selections = [] ↔
        selectedOf schema entity r.select [] = [] ∧ joined schema entity r.relations = []) ∧
      (q.selections = [] → q.selectList = "*") ∧
      (q.selections ≠ [] → (∀ relation ∈ r.relations, relation.aliasName = none) →
        q.selectList ≠ "*" ∧ q.selectList ≠ main) := by
  obtain ⟨hitems, hjoins, halias⟩ := selections_of_build h
  dsimp only [Query.of] at hitems hjoins halias
  rw [mainItems, if_neg (by simpa using hselect)] at hitems
  have hchosen : ∀ item ∈ q.selections, Chosen schema entity main r item := by
    intro item hitem
    rw [hitems] at hitem
    rcases List.mem_append.1 hitem with hitem | hitem
    · obtain ⟨path, hpath, rfl⟩ := List.mem_map.1 hitem
      obtain ⟨hmem, hbase, htaken⟩ := mem_selectedOf.1 hpath
      exact .column hmem hbase htaken
    · obtain ⟨relation, hjoined, hitem⟩ := List.mem_flatMap.1 hitem
      exact chosen_of_mem_itemsOf hjoined hitem
  have htext := q.exists_text_eq
  rw [halias] at htext
  refine ⟨hjoins, hitems, hchosen, htext, ?empty, ?all, ?some⟩
  case empty =>
    rw [hitems, List.append_eq_nil_iff, List.map_eq_nil_iff, List.flatMap_eq_nil_iff]
    refine and_congr_right fun _ => ⟨fun hnone => ?_, fun hnone => by rw [hnone]; exact nofun⟩
    rw [List.eq_nil_iff_forall_not_mem]
    exact fun relation hjoined => itemsOf_ne_nil r.select relation (hnone relation hjoined)
  case all =>
    intro hnone
    rw [Query.selectList, hnone]
    rfl
  case some =>
    intro hsome haliases
    obtain ⟨item, hitem⟩ := List.exists_mem_of_ne_nil _ hsome
    obtain ⟨c, rest, hc, hlist⟩ := (hchosen item hitem).exists_toList haliases
    -- What one item says keeps the whole list from being that short.
    have hinside := Text.infix_join ", " hitem
    rw [Query.selectList, if_neg (by simpa using hsome)]
    constructor
    · intro hall
      rw [hall, hlist] at hinside
      have hstar : ∀ c ∈ ['.', '_'], c ∉ "*".toList := by simp
      exact hstar c hc (hinside.subset (by simp))
    · intro hmain
      rw [hmain, hlist] at hinside
      have hlength := hinside.length_le
      rw [List.length_append, List.length_cons] at hlength
      omega

/-- Columns of posts and of their authors, and one that is not declared. -/
def choosy : Request where
  select := [⟨["id"]⟩, ⟨["ghost"]⟩, ⟨["author", "name"]⟩, ⟨["author", "posts", "title"]⟩]
  relations := [⟨⟨["author"]⟩, none⟩, ⟨⟨["author", "posts", "author"]⟩, none⟩]

/-- Of a relation without selected columns everything is selected. -/
theorem build_selections_choosy :
    choosy.select ≠ [] ∧ ∃ q, build { registry := blog } (.of "post" "p") choosy = .ok q ∧
      q.selections = ["p.id", "p_author.name", "p_author_posts_author"] ∧
      (∀ item ∈ q.selections, Chosen { registry := blog } "post" "p" choosy item) ∧
      q.selectList ≠ "*" ∧ q.selectList ≠ "p" := by
  obtain ⟨q, hbuild, hitems⟩ := exists_of_toOption (f := Query.selections)
    (x := build { registry := blog } (.of "post" "p") choosy)
    (b := ["p.id", "p_author.name", "p_author_posts_author"]) (by decide +kernel)
  obtain ⟨-, -, hchosen, -, -, -, hlist⟩ := build_selections (by decide) hbuild
  exact ⟨by decide, q, hbuild, hitems, hchosen,
    hlist (by rw [hitems]; decide) (by decide)⟩

/-- A column that is not declared, and one of a relation that is not joined. -/
def overlooked : Request where
  select := [⟨["ghost"]⟩, ⟨["author", "name"]⟩]

/-- Nothing is left of what was asked for, so everything is selected. -/
theorem build_selections_overlooked :
    overlooked.select ≠ [] ∧
      (∀ clause : Clause, clause.policy ({} : Policies) ∈ [.ignore, .deny]) ∧
      ∃ q, build { registry := blog } (.of "post" "p") overlooked = .ok q ∧
        q.text = "SELECT * FROM posts p" ∧ q.selectList = "*" := by
  have hpolicies : ∀ clause : Clause, clause.policy ({} : Policies) ∈ [.ignore, .deny] := by
    intro clause
    cases clause <;> decide
  obtain ⟨q, hbuild, hview⟩ := exists_of_toOption (f := fun q : Query => (q.text, q.selectList))
    (x := build { registry := blog } (.of "post" "p") overlooked)
    (b := ("SELECT * FROM posts p", "*")) (by decide +kernel)
  obtain ⟨htext, hlist⟩ := Prod.mk.inj hview
  exact ⟨by decide, hpolicies, q, hbuild, htext, hlist⟩

end StoreQuery.Sql
