import StoreQuery.Proofs.Sql.Stages
import Mathlib.Data.List.Forall2
import Mathlib.Data.List.Nodup

/-!
# Where joins hang, and what they are called

Every relation of a request that is taken has its join, in the order of the request
(`Built.joins`). Two rules name things in a join:

* it gets the alias that the request gives to its relation, or else the one made from its path;
* it is read from its parent under the alias that is made from the path of the parent.

The first rule looks for aliases in the request and the second one does not. **So a nested relation
hangs on the join of its parent exactly where the request gives the parent no alias of its own**
(`build_attached`), for chains of any length.

An alias is made by putting `_` between the names of a path, and names may hold `_` themselves.
**Without aliases in the request, two paths get one alias exactly if they are made of the same
words**, cut at every `_` (`build_aliases`). No join gets the main alias.
-/

namespace StoreQuery.Sql

variable {schema : Schema} {entity main : String} {r : Request} {q : Query}

/-! ## Chains of relations -/

/-- Every relation of more than one segment stands behind the relation of its base. -/
def ParentsFirst (relations : List Relation) : Prop :=
  ∀ before relation after, relations = before ++ relation :: after → 1 < relation.path.length →
    ∃ parent ∈ before, parent.path.segments = relation.path.base

theorem parentsFirst_iff {relations : List Relation} : ParentsFirst relations ↔
    ∀ (place : Nat) (h : place < relations.length), 1 < relations[place].path.length →
      ∃ parent ∈ relations.take place, parent.path.segments = relations[place].path.base := by
  constructor
  · intro h place hplace hnested
    exact h (relations.take place) relations[place] (relations.drop (place + 1)) (by simp) hnested
  · rintro h before relation after rfl hnested
    simpa [hnested] using h before.length (by simp)

instance (relations : List Relation) : Decidable (ParentsFirst relations) :=
  decidable_of_iff _ parentsFirst_iff.symm

/-- Every join is read from the main alias, or from the alias of a join that stands before it and
was made for the base of its path. -/
def Attached (main : String) (made : List (Relation × Join)) : Prop :=
  ∀ before relation join after, made = before ++ (relation, join) :: after →
    join.relationPath = main ++ "." ++ relation.path.name ∨
      ∃ parent ∈ before, parent.1.path.segments = relation.path.base ∧
        join.relationPath = parent.2.aliasName ++ "." ++ relation.path.name

theorem isSome_followFrom_of_append {registry : Registry} {start : Entity}
    {chain rest : List String} (h : (registry.followFrom start (chain ++ rest)).isSome) :
    (registry.followFrom start chain).isSome := by
  induction chain generalizing start with
  | nil => rfl
  | cons relation chain ih =>
    rw [List.cons_append, Registry.followFrom] at h
    rw [Registry.followFrom]
    cases hhop : registry.hop start relation with
    | none =>
      rw [hhop] at h
      cases h
    | some next =>
      rw [hhop] at h
      exact ih h

theorem isSome_follow_of_append {registry : Registry} {chain rest : List String}
    (h : (registry.follow entity (chain ++ rest)).isSome) :
    (registry.follow entity chain).isSome := by
  rw [Registry.follow] at h ⊢
  cases hstart : registry.find? entity with
  | none =>
    rw [hstart] at h
    cases h
  | some start =>
    rw [hstart] at h
    exact isSome_followFrom_of_append h

theorem accepts_base {path base : Path} (hpath : path.segments ≠ []) (hbase : base.segments ≠ [])
    (hsame : base.segments = path.base)
    (h : accepts schema entity path .relations = .ok true) :
    accepts schema entity base .relations = .ok true := by
  rcases leads_or_allowUnsafe h with hleads | hunsafe
  · have hfollow : (schema.registry.follow entity path.segments).isSome = true :=
      ((Bool.and_eq_true _ _).mp hleads).2
    rw [segments_eq hpath, ← hsame] at hfollow
    have hleadsBase : leads schema entity base .relations = true := by
      show (!base.segments.isEmpty && (schema.registry.follow entity base.segments).isSome) = true
      rw [isSome_follow_of_append hfollow]
      simpa using hbase
    rw [accepts, if_pos hleadsBase]
  · rw [accepts, hunsafe]
    split <;> rfl

theorem base_ne_nil {path : Path} (h : 1 < path.length) : path.base ≠ [] := by
  rw [Path.base, ← List.length_pos_iff, List.length_dropLast]
  exact Nat.sub_pos_of_lt h

theorem ParentsFirst.joined {relations : List Relation} (h : ParentsFirst relations) :
    ParentsFirst (joined schema entity relations) := by
  intro before relation after hsplit hnested
  obtain ⟨listed, rest, rfl, rfl, hrest⟩ := List.filter_eq_append_iff.1 hsplit
  obtain ⟨skipped, others, rfl, hskipped, hrelation, -⟩ := List.filter_eq_cons_iff.1 hrest
  obtain ⟨parent, hparent, hbase⟩ :=
    h (listed ++ skipped) relation others (List.append_assoc ..).symm hnested
  have hne : parent.path.segments ≠ [] := hbase ▸ base_ne_nil hnested
  obtain ⟨-, hsegments, haccepts⟩ := mem_joined.1
    (List.mem_filter.2 ⟨List.mem_singleton_self relation, hrelation⟩)
  have hjoined : parent ∈ Sql.joined schema entity (listed ++ skipped) :=
    mem_joined.2 ⟨hparent, hne, accepts_base hsegments hne hbase haccepts⟩
  obtain ⟨hmem, htaken⟩ := List.mem_filter.1 hjoined
  -- What was skipped on the way to the relation was not taken, so the parent stands before that.
  rcases List.mem_append.1 hmem with hlisted | hmem
  · exact ⟨parent, List.mem_filter.2 ⟨hlisted, htaken⟩, hbase⟩
  · exact absurd htaken (hskipped parent hmem)

theorem aliasPath_ne_main {chain : List String} (h : chain ≠ []) : aliasPath main chain ≠ main := by
  intro hsame
  have hlength := congrArg String.length hsame
  rw [aliasPath, Text.join_cons "_" h, String.length_append, String.length_append] at hlength
  have hone : "_".length = 1 := rfl
  omega

/-- A relation is joined under the alias made from its path exactly if it has no other one. -/
theorem joinAlias_eq_iff {relation : Relation} :
    joinAlias main relation = aliasPath main relation.path.segments ↔
      ∀ name ∈ relation.aliasName, name = aliasPath main relation.path.segments := by
  rw [joinAlias]
  cases relation.aliasName <;> simp

theorem attached_iff {made : List (Relation × Join)} (hmade : ∀ p ∈ made, Made main p.1 p.2) :
    Attached main made ↔ ∀ before relation after,
      made.map Prod.fst = before ++ relation :: after → 1 < relation.path.length →
        ∃ parent ∈ before, parent.path.segments = relation.path.base ∧
          ∀ name ∈ parent.aliasName, name = aliasPath main relation.path.base := by
  constructor
  · intro hattached before relation after hsplit hnested
    obtain ⟨earlier, rest, rfl, rfl, hrest⟩ := List.map_eq_append_iff.1 hsplit
    obtain ⟨⟨_, join⟩, later, rfl, rfl, rfl⟩ := List.map_eq_cons_iff.1 hrest
    have hjoin := (hmade _ (List.mem_append_right earlier List.mem_cons_self)).relationPath
    -- It is read from an alias made from a path, which is never the main alias.
    rcases hattached earlier _ join later rfl with hmain | ⟨parent, hparent, hbase, hpath⟩
    · rw [hmain, String.append_left_inj, String.append_left_inj] at hjoin
      exact absurd hjoin.symm (aliasPath_ne_main (base_ne_nil hnested))
    · rw [hpath, String.append_left_inj, String.append_left_inj,
        (hmade parent (List.mem_append_left _ hparent)).aliasName, ← hbase] at hjoin
      refine ⟨parent.1, List.mem_map_of_mem hparent, hbase, ?_⟩
      rw [← hbase]
      exact joinAlias_eq_iff.1 hjoin
  · rintro hnamed before relation join after rfl
    have hjoin :=
      (hmade (relation, join) (List.mem_append_right before List.mem_cons_self)).relationPath
    by_cases hnested : 1 < relation.path.length
    · obtain ⟨_, hparent, hbase, hname⟩ :=
        hnamed (before.map Prod.fst) relation (after.map Prod.fst) (by simp) hnested
      obtain ⟨parent, hmem, rfl⟩ := List.mem_map.1 hparent
      refine .inr ⟨parent, hmem, hbase, ?_⟩
      rw [← hbase] at hname
      rw [hjoin, (hmade parent (List.mem_append_left _ hmem)).aliasName,
        joinAlias_eq_iff.2 hname, hbase]
    · have hmain : relation.path.base = [] := by
        rw [Path.base, ← List.length_eq_zero_iff, List.length_dropLast]
        exact Nat.sub_eq_zero_of_le (Nat.le_of_not_lt hnested)
      left
      rw [hjoin, hmain]
      rfl

/-- **A nested relation hangs on the join of its parent exactly where the request gives that one no
alias of its own.** -/
theorem build_attached (hparents : ParentsFirst r.relations)
    (h : build schema (.of entity main) r = .ok q) :
    List.Forall₂ (Made main) (joined schema entity r.relations) q.joins ∧
      ParentsFirst (joined schema entity r.relations) ∧
      (Attached main ((joined schema entity r.relations).zip q.joins) ↔
        ∀ before relation after, joined schema entity r.relations = before ++ relation :: after →
          1 < relation.path.length → ∃ parent ∈ before,
            parent.path.segments = relation.path.base ∧
              ∀ name ∈ parent.aliasName, name = aliasPath main relation.path.base) := by
  have hjoins := (built_of_build h).joins
  obtain ⟨hlength, hmade⟩ := List.forall₂_iff_zip.1 hjoins
  have hattached := attached_iff fun p (hp : p ∈ (joined schema entity r.relations).zip q.joins) =>
    hmade hp
  rw [List.map_fst_zip (Nat.le_of_eq hlength)] at hattached
  exact ⟨hjoins, hparents.joined, hattached⟩

/-- A chain of relations that goes round; the last one has an alias of its own. -/
def roundTrip : Request where
  relations := [⟨⟨["author"]⟩, none⟩, ⟨⟨["author", "posts"]⟩, none⟩,
    ⟨⟨["author", "posts", "author"]⟩, some "w"⟩]

/-- A chain hangs together if its inner relations have no aliases of their own. -/
theorem build_attached_roundTrip :
    ParentsFirst roundTrip.relations ∧
      ∃ q, build { registry := blog } (.of "post" "p") roundTrip = .ok q ∧
        q.text = "SELECT p, p_author, p_author_posts, w FROM posts p" ++
          " LEFT JOIN p.author p_author LEFT JOIN p_author.posts p_author_posts" ++
          " LEFT JOIN p_author_posts.author w" ∧
        Attached "p" ((joined { registry := blog } "post" roundTrip.relations).zip q.joins) := by
  obtain ⟨q, hbuild, htext⟩ := exists_of_toOption (f := Query.text)
    (x := build { registry := blog } (.of "post" "p") roundTrip)
    (b := "SELECT p, p_author, p_author_posts, w FROM posts p" ++
      " LEFT JOIN p.author p_author LEFT JOIN p_author.posts p_author_posts" ++
      " LEFT JOIN p_author_posts.author w") (by decide +kernel)
  have hfirst : ParentsFirst roundTrip.relations := by decide
  obtain ⟨-, hparents, hattached⟩ := build_attached hfirst hbuild
  refine ⟨hfirst, q, hbuild, htext, hattached.2 ?_⟩
  intro before relation after hsplit hnested
  obtain ⟨parent, hparent, hbase⟩ := hparents before relation after hsplit hnested
  have hunnamed : ∀ relation ∈ roundTrip.relations, ∀ parent ∈ roundTrip.relations,
      parent.path.segments = relation.path.base → parent.aliasName = none := by decide
  have hmem : ∀ other ∈ before ++ relation :: after, other ∈ roundTrip.relations :=
    fun other hother => (mem_joined.1 (hsplit ▸ hother)).1
  have hnone := hunnamed relation (hmem _ (by simp)) parent (hmem _ (by simp [hparent])) hbase
  exact ⟨parent, hparent, hbase, by simp [hnone]⟩

/-- A relation with an alias, and one that is nested in it. -/
def renamed : Request where
  relations := [⟨⟨["author"]⟩, some "a"⟩, ⟨⟨["author", "posts"]⟩, none⟩]

/-- The nested relation is read from an alias that no join has. -/
theorem build_attached_renamed :
    ParentsFirst renamed.relations ∧
      ∃ q, build { registry := blog } (.of "post" "p") renamed = .ok q ∧
        q.text = "SELECT p, a, p_author_posts FROM posts p LEFT JOIN p.author a" ++
          " LEFT JOIN p_author.posts p_author_posts" ∧
        ¬ Attached "p" ((joined { registry := blog } "post" renamed.relations).zip q.joins) := by
  obtain ⟨q, hbuild, hview⟩ := exists_of_toOption (f := fun q : Query => (q.text, q.joins))
    (x := build { registry := blog } (.of "post" "p") renamed)
    (b := ("SELECT p, a, p_author_posts FROM posts p LEFT JOIN p.author a" ++
      " LEFT JOIN p_author.posts p_author_posts",
      [⟨"p.author", "a", true⟩, ⟨"p_author.posts", "p_author_posts", true⟩])) (by decide +kernel)
  obtain ⟨htext, hjoins⟩ := Prod.mk.inj hview
  refine ⟨by decide, q, hbuild, htext, fun hattached => ?_⟩
  have hjoined : joined { registry := blog } "post" renamed.relations = renamed.relations := by
    decide
  rw [hjoins, hjoined] at hattached
  rcases hattached [_] _ _ [] rfl with hmain | ⟨parent, hparent, -, hpath⟩
  · revert hmain
    decide
  · obtain rfl := List.mem_singleton.1 hparent
    revert hpath
    decide

/-! ## Aliases of chains -/

/-- The names of a chain, cut at every `_`. -/
def words (chain : List String) : List String := chain.flatMap (Text.split '_')

theorem aliasPath_eq_iff {chain other : List String} :
    aliasPath main chain = aliasPath main other ↔ words chain = words other := by
  have hjoin := Text.join_eq_join_iff '_' (List.cons_ne_nil main chain)
    (List.cons_ne_nil main other)
  rw [List.flatMap_cons, List.flatMap_cons, List.append_cancel_left_eq] at hjoin
  exact hjoin

theorem words_eq_self {chain : List String} (h : ∀ name ∈ chain, '_' ∉ name.toList) :
    words chain = chain := by
  rw [words]
  induction chain with
  | nil => rfl
  | cons name chain ih =>
    obtain ⟨hname, hchain⟩ := List.forall_mem_cons.1 h
    rw [List.flatMap_cons, Text.split_of_notMem hname, ih hchain]
    rfl

theorem map_aliasName {relations : List Relation} {joins : List Join}
    (haliases : ∀ relation ∈ relations, relation.aliasName = none)
    (h : List.Forall₂ (Made main) relations joins) :
    joins.map (·.aliasName) =
      relations.map fun relation => aliasPath main relation.path.segments := by
  induction h with
  | nil => rfl
  | cons hmade _ ih =>
    obtain ⟨halias, haliases⟩ := List.forall_mem_cons.1 haliases
    rw [List.map_cons, List.map_cons, ih haliases, hmade.aliasName, joinAlias, halias]
    rfl

/-- **Without aliases in the request, two chains get one alias exactly if they are made of the same
words.** -/
theorem build_aliases (haliases : ∀ relation ∈ r.relations, relation.aliasName = none)
    (hdistinct : (r.relations.map (·.path)).Nodup)
    (h : build schema (.of entity main) r = .ok q) :
    (∀ join ∈ q.joins, join.aliasName ≠ main) ∧
      (∀ base other, fieldAlias main r.relations base = fieldAlias main r.relations other ↔
        words base = words other) ∧
      ((q.joins.map (·.aliasName)).Nodup ↔
        ((joined schema entity r.relations).map fun relation =>
          words relation.path.segments).Nodup) ∧
      ((∀ relation ∈ joined schema entity r.relations, ∀ name ∈ relation.path.segments,
          '_' ∉ name.toList) → (q.joins.map (·.aliasName)).Nodup) := by
  have hmap := map_aliasName
    (fun relation hrelation => haliases relation (mem_joined.1 hrelation).1)
    (built_of_build h).joins
  have hnodup : (q.joins.map (·.aliasName)).Nodup ↔
      ((joined schema entity r.relations).map fun relation =>
        words relation.path.segments).Nodup := by
    rw [hmap, List.Nodup, List.Nodup, List.pairwise_map, List.pairwise_map]
    exact List.Pairwise.iff fun _ _ => not_congr aliasPath_eq_iff
  refine ⟨?_, ?_, hnodup, fun hplain => hnodup.2 ?_⟩
  · intro join hjoin
    have hname : join.aliasName ∈ q.joins.map (·.aliasName) := List.mem_map_of_mem hjoin
    rw [hmap] at hname
    obtain ⟨relation, hrelation, hname⟩ := List.mem_map.1 hname
    rw [← hname]
    exact aliasPath_ne_main (mem_joined.1 hrelation).2.1
  · intro base other
    rw [fieldAlias_eq haliases, fieldAlias_eq haliases, aliasPath_eq_iff]
  · have hwords : ((joined schema entity r.relations).map fun relation =>
        words relation.path.segments) =
          (joined schema entity r.relations).map fun relation => relation.path.segments :=
      List.map_congr_left fun relation hrelation => words_eq_self (hplain relation hrelation)
    have hpaths : ((joined schema entity r.relations).map (·.path)).Nodup :=
      hdistinct.sublist (List.filter_sublist.map _)
    -- Without underscores the words are the names, and the paths differ.
    have hsegments := hpaths.map (f := Path.segments) fun _ _ hsame => congrArg Path.mk hsame
    rw [List.map_map] at hsegments
    rw [hwords]
    exact hsegments

/-- Posts with a team of authors, and authors with a team. -/
def teams : Registry :=
  Registry.register
    (Registry.register
      (Registry.register .empty
        ⟨"post", "post", ["id"], .ofList [("author", "user"), ("author_team", "team")]⟩)
      ⟨"user", "user", ["id"], .ofList [("team", "team")]⟩)
    ⟨"team", "team", ["name"], .empty⟩

/-- Relations of which one holds `_` in its name. -/
def apart : Request where
  relations := [⟨⟨["author_team"]⟩, none⟩, ⟨⟨["author"]⟩, none⟩]

/-- Names with `_` are no harm as long as the words differ. -/
theorem build_aliases_apart :
    (∀ relation ∈ apart.relations, relation.aliasName = none) ∧
      (apart.relations.map (·.path)).Nodup ∧
      ∃ q, build { registry := teams } (.of "post" "p") apart = .ok q ∧
        q.text = "SELECT p, p_author_team, p_author FROM post p" ++
          " LEFT JOIN p.author_team p_author_team LEFT JOIN p.author p_author" ∧
        (∀ join ∈ q.joins, join.aliasName ≠ "p") ∧ (q.joins.map (·.aliasName)).Nodup := by
  have haliases : ∀ relation ∈ apart.relations, relation.aliasName = none := by decide
  have hdistinct : (apart.relations.map (·.path)).Nodup := by decide
  obtain ⟨q, hbuild, htext⟩ := exists_of_toOption (f := Query.text)
    (x := build { registry := teams } (.of "post" "p") apart)
    (b := "SELECT p, p_author_team, p_author FROM post p" ++
      " LEFT JOIN p.author_team p_author_team LEFT JOIN p.author p_author") (by decide +kernel)
  obtain ⟨hmain, -, hnodup, -⟩ := build_aliases haliases hdistinct hbuild
  exact ⟨haliases, hdistinct, q, hbuild, htext, hmain, hnodup.2 (by decide +kernel)⟩

/-- Two relations whose paths are made of the same words, and a condition on one of them. -/
def sameWords : Request where
  relations := [⟨⟨["author_team"]⟩, none⟩, ⟨⟨["author"]⟩, none⟩, ⟨⟨["author", "team"]⟩, none⟩]
  condition := .leaf ⟨⟨["author", "team", "name"]⟩, .eq, .one (.text "x")⟩

/-- Both are joined under one alias, and the condition says nothing about which one it means. -/
theorem build_aliases_sameWords :
    (∀ relation ∈ sameWords.relations, relation.aliasName = none) ∧
      (sameWords.relations.map (·.path)).Nodup ∧
      ∃ q, build { registry := teams } (.of "post" "p") sameWords = .ok q ∧
        q.text = "SELECT p, p_author_team, p_author, p_author_team FROM post p" ++
          " LEFT JOIN p.author_team p_author_team LEFT JOIN p.author p_author" ++
          " LEFT JOIN p_author.team p_author_team WHERE p_author_team.name = :name_0" ∧
        ¬ (q.joins.map (·.aliasName)).Nodup := by
  obtain ⟨q, hbuild, hview⟩ := exists_of_toOption
    (f := fun q : Query => (q.text, q.joins.map (·.aliasName)))
    (x := build { registry := teams } (.of "post" "p") sameWords)
    (b := ("SELECT p, p_author_team, p_author, p_author_team FROM post p" ++
      " LEFT JOIN p.author_team p_author_team LEFT JOIN p.author p_author" ++
      " LEFT JOIN p_author.team p_author_team WHERE p_author_team.name = :name_0",
      ["p_author_team", "p_author", "p_author_team"])) (by decide +kernel)
  obtain ⟨htext, hnames⟩ := Prod.mk.inj hview
  refine ⟨by decide, by decide, q, hbuild, htext, ?_⟩
  rw [hnames]
  decide

end StoreQuery.Sql
