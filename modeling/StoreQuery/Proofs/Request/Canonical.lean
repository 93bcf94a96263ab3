import StoreQuery.Proofs.Search.Names

/-!
# Paths that their texts stand for

Lists of allowed properties compare the texts of paths, and stores compare their segments. The two
are the same for canonical paths, which are what their texts are read as: no two of them have one
text. A path is canonical if it has segments and no dot in them (`canonical_iff`).

**Every path of a request that parameters describe is canonical, but for dotted names that are
selected from a joined relation** (`ofParams_canonical`). All other names are cut at their dots, and
paths that are put together from cut names have no dots in their segments. A name behind a relation
is put at the end of its path as it is.
-/

namespace StoreQuery

namespace Path

variable {p q : Path}

/-- A path that is what its text is read as. -/
def Canonical (p : Path) : Prop := ofText p.toText = p

/-- **A path is canonical if it has segments, none of which holds a dot.** -/
theorem canonical_iff : p.Canonical ↔ p.segments ≠ [] ∧ ∀ s ∈ p.segments, '.' ∉ s.toList := by
  constructor
  · intro h
    rw [← (h : ofText p.toText = p)]
    exact ⟨Text.split_ne_nil '.' _, fun s hs => Text.notMem_of_mem_split hs⟩
  · rintro ⟨hne, hdotless⟩
    exact congrArg Path.mk (Text.split_join_of_notMem '.' hne hdotless)

/-- **No two canonical paths have one text.** -/
theorem Canonical.eq_of_toText (hp : p.Canonical) (hq : q.Canonical) (h : p.toText = q.toText) :
    p = q := by
  rw [← (hp : ofText p.toText = p), h, hq]

theorem canonical_ofText (text : String) : (ofText text).Canonical :=
  congrArg ofText (toText_ofText text)

theorem canonical_ofNames {names : List String} (h : names ≠ []) : (ofNames names).Canonical := by
  obtain ⟨name, more, rfl⟩ := List.exists_cons_of_ne_nil h
  refine canonical_iff.2 ⟨List.append_ne_nil_of_left_ne_nil (Text.split_ne_nil '.' name) _, ?_⟩
  intro s hs
  obtain ⟨name, -, hs⟩ := List.mem_flatMap.1 hs
  exact Text.notMem_of_mem_split hs

theorem canonical_child_iff (hp : p.Canonical) (segment : String) :
    (p.child segment).Canonical ↔ '.' ∉ segment.toList := by
  obtain ⟨-, hdotless⟩ := canonical_iff.1 hp
  rw [canonical_iff, child]
  constructor
  · intro h
    exact h.2 segment (by simp)
  · intro h
    refine ⟨by simp, fun s hs => ?_⟩
    rcases List.mem_append.1 hs with hs | hs
    · exact hdotless s hs
    · rwa [List.mem_singleton.1 hs]

end Path

namespace Request

open Search

/-- The names that one value of `join` selects from its relation. -/
def joinedNames (value : String) : List String :=
  match Text.cutAt FilterItem.separator value with
  | some (field, select) => if field = "" then [] else names select
  | none => []

/-- What a value of `join` selects are its names below the path of its relation. -/
theorem joinedOf?_cases (value : String) :
    (joinedOf? value = none ∧ joinedNames value = []) ∨
      ∃ path : Path, path.Canonical ∧
        joinedOf? value = some ⟨path, (joinedNames value).map path.child⟩ := by
  rw [joinedOf?, joinedNames]
  cases Text.cutAt FilterItem.separator value with
  | none =>
    by_cases hvalue : value = ""
    · exact .inl ⟨by simp [hvalue], rfl⟩
    · refine .inr ⟨.ofText value, Path.canonical_ofText value, ?_⟩
      have hnames : names "" = [] := by decide
      simp [hvalue, hnames]
  | some parts =>
    obtain ⟨field, select⟩ := parts
    by_cases hfield : field = ""
    · exact .inl (by simp [hfield])
    · exact .inr ⟨.ofText field, Path.canonical_ofText field, by simp [hfield]⟩

end Request

/-- The names that parameters select from joined relations. -/
def Params.joinedNames (params : Params) : List String :=
  (params.values "join").flatMap Request.joinedNames

namespace Request

/-- The paths that stand in a request. -/
def paths (r : Request) : List Path :=
  r.select ++ (r.relations.map (·.path) ++ (r.order.map (·.path) ++
    r.condition.leaves.map (·.path)))

variable {params : Params} {r : Request} {p : Path} {name : String}

/-! ## Where the paths come from -/

/-- What parameters select from their relations. -/
def joinedPaths (params : Params) : List Path :=
  ((params.values "join").filterMap joinedOf?).flatMap (·.select)

/-- A path that is selected from a relation is one of the names below a canonical path. -/
theorem exists_child_of_mem (h : p ∈ joinedPaths params) :
    ∃ path : Path, path.Canonical ∧ ∃ name ∈ params.joinedNames, p = path.child name := by
  obtain ⟨joined, hjoined, hp⟩ := List.mem_flatMap.1 h
  obtain ⟨value, hvalue, hread⟩ := List.mem_filterMap.1 hjoined
  rcases joinedOf?_cases value with ⟨hnone, -⟩ | ⟨path, hpath, hsome⟩
  · cases hnone.symm.trans hread
  · obtain rfl := Option.some.inj (hsome.symm.trans hread)
    obtain ⟨name, hname, rfl⟩ := List.mem_map.1 hp
    exact ⟨path, hpath, name, List.mem_flatMap.2 ⟨value, hvalue, hname⟩, rfl⟩

theorem exists_mem_of_joined (h : name ∈ params.joinedNames) :
    ∃ path : Path, path.Canonical ∧ path.child name ∈ joinedPaths params := by
  obtain ⟨value, hvalue, hname⟩ := List.mem_flatMap.1 h
  rcases joinedOf?_cases value with ⟨-, hnone⟩ | ⟨path, hpath, hsome⟩
  · rw [hnone] at hname
    cases hname
  · exact ⟨path, hpath, List.mem_flatMap.2
      ⟨_, List.mem_filterMap.2 ⟨value, hvalue, hsome⟩, List.mem_map.2 ⟨name, hname, rfl⟩⟩⟩

theorem parts_of_ofParams (h : ofParams params = .ok r) :
    r.select = ((params.find? "fields").getD (params.values "select")).flatMap selectOf ++
        joinedPaths params ∧
      r.relations = ((params.values "join").filterMap joinedOf?).map (⟨·.path, none⟩) ∧
      r.order = (params.values "sort").filterMap orderOf? := by
  obtain ⟨condition, -, h⟩ := bind_eq_ok.1 h
  cases h
  exact ⟨rfl, rfl, rfl⟩

/-- A selected path is canonical, or selected from a relation. -/
theorem canonical_or_joined (h : ofParams params = .ok r) (hp : p ∈ r.select) :
    p.Canonical ∨ p ∈ joinedPaths params := by
  rw [(parts_of_ofParams h).1] at hp
  rcases List.mem_append.1 hp with hp | hp
  · obtain ⟨value, -, hp⟩ := List.mem_flatMap.1 hp
    obtain ⟨name, -, rfl⟩ := List.mem_map.1 hp
    exact .inl (Path.canonical_ofText name)
  · exact .inr hp

theorem canonical_relation (h : ofParams params = .ok r) :
    ∀ relation ∈ r.relations, relation.path.Canonical := by
  intro relation hrelation
  rw [(parts_of_ofParams h).2.1] at hrelation
  obtain ⟨joined, hjoined, rfl⟩ := List.mem_map.1 hrelation
  obtain ⟨value, -, hread⟩ := List.mem_filterMap.1 hjoined
  rcases joinedOf?_cases value with ⟨hnone, -⟩ | ⟨path, hpath, hsome⟩
  · cases hnone.symm.trans hread
  · obtain rfl := Option.some.inj (hsome.symm.trans hread)
    exact hpath

theorem canonical_orderOf? {value : String} {o : Order} (h : orderOf? value = some o) :
    o.path.Canonical := by
  simp only [orderOf?] at h
  split at h
  all_goals
    split_ifs at h
    obtain rfl := Option.some.inj h
    exact Path.canonical_ofText _

theorem canonical_order (h : ofParams params = .ok r) : ∀ o ∈ r.order, o.path.Canonical := by
  intro o ho
  rw [(parts_of_ofParams h).2.2] at ho
  obtain ⟨value, -, hread⟩ := List.mem_filterMap.1 ho
  exact canonical_orderOf? hread

theorem canonical_condition (h : ofParams params = .ok r) :
    ∀ c ∈ r.condition.leaves, c.path.Canonical := by
  intro c hc
  obtain ⟨name, -, more, hpath⟩ := spelled_of_ofParams h c hc
  rw [hpath, Path.root_join]
  exact Path.canonical_ofNames (List.cons_ne_nil name more)

/-- What is selected by a request is canonical, or a dotted name is selected from a relation. -/
theorem canonical_or_dotted (h : ofParams params = .ok r) (hp : p ∈ r.select) :
    p.Canonical ∨ p.name ∈ params.joinedNames ∧ '.' ∈ p.name.toList := by
  rcases canonical_or_joined h hp with hcanonical | hjoined
  · exact .inl hcanonical
  · obtain ⟨path, hpath, name, hname, rfl⟩ := exists_child_of_mem hjoined
    have hlast : (path.child name).name = name := by simp [Path.name, Path.child]
    rw [hlast, Path.canonical_child_iff hpath]
    exact (em' _).imp_right fun hdot => ⟨hname, hdot⟩

/-! ## Requests -/

theorem canonical_or_selected (h : ofParams params = .ok r) (hp : p ∈ r.paths) :
    p.Canonical ∨ p ∈ r.select := by
  rw [paths, List.mem_append, List.mem_append, List.mem_append] at hp
  rcases hp with hp | hp | hp | hp
  · exact .inr hp
  · obtain ⟨relation, hrelation, rfl⟩ := List.mem_map.1 hp
    exact .inl (canonical_relation h relation hrelation)
  · obtain ⟨o, ho, rfl⟩ := List.mem_map.1 hp
    exact .inl (canonical_order h o ho)
  · obtain ⟨c, hc, rfl⟩ := List.mem_map.1 hp
    exact .inl (canonical_condition h c hc)

/-- **The paths of a request are canonical, but for dotted names that are selected from a
relation.** So all of them are canonical exactly if no such name is dotted, and then no two have one
text. -/
theorem ofParams_canonical (h : ofParams params = .ok r) :
    (∀ p ∈ r.paths,
      p.Canonical ∨ p ∈ r.select ∧ p.name ∈ params.joinedNames ∧ '.' ∈ p.name.toList) ∧
    ((∀ p ∈ r.paths, p.Canonical) ↔ ∀ name ∈ params.joinedNames, '.' ∉ name.toList) ∧
    (∀ p q : Path, p.Canonical → q.Canonical → p.toText = q.toText → p = q) := by
  have heach : ∀ p ∈ r.paths,
      p.Canonical ∨ p ∈ r.select ∧ p.name ∈ params.joinedNames ∧ '.' ∈ p.name.toList := by
    intro p hp
    rcases canonical_or_selected h hp with hcanonical | hselect
    · exact .inl hcanonical
    · exact (canonical_or_dotted h hselect).imp_right fun hdotted => ⟨hselect, hdotted⟩
  refine ⟨heach, ⟨fun hall name hname => ?_, fun hdotless p hp => ?_⟩,
    fun p q hp hq => hp.eq_of_toText hq⟩
  · obtain ⟨path, hpath, hmem⟩ := exists_mem_of_joined hname
    have hselect : path.child name ∈ r.select := by
      rw [(parts_of_ofParams h).1]
      exact List.mem_append_right _ hmem
    exact (Path.canonical_child_iff hpath name).1 (hall _ (List.mem_append_left _ hselect))
  · exact (heach p hp).resolve_right fun hdotted => hdotless _ hdotted.2.1 hdotted.2.2

/-- Parameters of every kind, with dots in all names but those selected from a relation. -/
def nested : Params :=
  .ofPairs [("fields", "id,a.b"), ("join", "author.team||name,id"), ("sort", "a.b,DESC"),
    ("s", "\x7b\"a\":[\x7b\"b.c\":1\x7d]\x7d")]

theorem ofParams_canonical_nested :
    ∃ r, ofParams nested = .ok r ∧
      r.select.map (·.segments) =
        [["id"], ["a", "b"], ["author", "team", "name"], ["author", "team", "id"]] ∧
      ∀ p ∈ r.paths, p.Canonical := by
  obtain ⟨r, hr, hselect⟩ := exists_of_toOption (x := ofParams nested)
    (f := fun r => r.select.map (·.segments))
    (b := [["id"], ["a", "b"], ["author", "team", "name"], ["author", "team", "id"]])
    (by decide +kernel)
  exact ⟨r, hr, hselect, (ofParams_canonical hr).2.1.2 (by decide +kernel)⟩

/-- A relation with a dotted name behind it. -/
def dotted : Params := .ofPairs [("join", "category||a.b")]

/-- **A dotted name that is selected from a relation stays one segment**, so its path has the text
of another one. -/
theorem ofParams_canonical_dotted :
    ∃ r, ofParams dotted = .ok r ∧ r.select = [⟨["category", "a.b"]⟩] ∧
      ¬ (∀ p ∈ r.paths, p.Canonical) ∧
      (⟨["category", "a.b"]⟩ : Path).toText = (⟨["category", "a", "b"]⟩ : Path).toText := by
  obtain ⟨r, hr, hselect⟩ := exists_of_toOption (x := ofParams dotted) (f := (·.select))
    (b := [⟨["category", "a.b"]⟩]) (by decide +kernel)
  refine ⟨r, hr, hselect, fun hall => ?_, by decide +kernel⟩
  have hmem : (⟨["category", "a.b"]⟩ : Path) ∈ r.paths := by
    rw [paths, hselect]
    exact List.mem_cons_self
  exact absurd (hall _ hmem) (by unfold Path.Canonical; decide +kernel)

end Request

end StoreQuery
