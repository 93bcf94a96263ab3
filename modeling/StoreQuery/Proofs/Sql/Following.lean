import StoreQuery.Proofs.Config.Valid
import StoreQuery.Proofs.Sql.Identifiers

/-!
# Following relations

A chain of relations is followed one relation after the other. It can end early for two reasons: an
entity does not declare the next relation, or the relation leads to an entity that there is not.
**In a valid configuration the second never happens** (`follow_resolves`): chains of any length go
on as long as relations are declared, also where relations go round in circles.

The registry has an entity for all settings, under its own name (`find?_ofSettings`). So a chain can
be followed in two parts, the second one from the name of the entity in between
(`follow_append`).
-/

namespace StoreQuery.Sql

variable {entities : Dict EntitySettings} {registry : Registry} {entity name : String}
  {path : List String}

namespace Registry

/-! ## The registry of settings -/

theorem ofSettings_eq (entities : Dict EntitySettings) :
    ofSettings entities = .ofList (entities.entries.map fun e => (e.1, e.2.entity e.1)) := by
  rw [ofSettings, Dict.ofList, Dict.insertAll, List.foldl_map]
  rfl

/-- **What is found in the registry is described by the settings of the same name.** -/
theorem find?_ofSettings (entities : Dict EntitySettings) (name : String) :
    (ofSettings entities).find? name =
      (entities.find? name).map fun settings => settings.entity name := by
  have hkeys : (entities.entries.map fun e => (e.1, e.2.entity e.1)).map (·.1) = entities.keys := by
    rw [List.map_map]
    rfl
  rw [ofSettings_eq, Dict.ofList]
  cases hsettings : entities.find? name with
  | none =>
    have hname : name ∉ entities.keys := by
      intro hmem
      rw [← Dict.contains_iff_mem_keys, Dict.contains, hsettings] at hmem
      cases hmem
    rw [Dict.find?_insertAll_of_notMem (by rwa [hkeys])]
    rfl
  | some settings =>
    have hentry : (name, settings.entity name) ∈
        entities.entries.map fun e => (e.1, e.2.entity e.1) :=
      List.mem_map.2 ⟨(name, settings), Dict.mem_entries_of_find? hsettings, rfl⟩
    exact Dict.find?_insertAll_of_mem (by rw [hkeys]; exact entities.nodup_keys) hentry

/-- Every entity is found under its own name. -/
def IsKeyed (registry : Registry) : Prop :=
  ∀ name entity, registry.find? name = some entity → entity.name = name

theorem isKeyed_ofSettings (entities : Dict EntitySettings) : (ofSettings entities).IsKeyed := by
  intro name entity h
  rw [find?_ofSettings] at h
  obtain ⟨settings, -, rfl⟩ := Option.map_eq_some_iff.1 h
  rfl

/-! ## Chains in two parts -/

theorem followFrom_append (registry : Registry) (start : Entity) (path rest : List String) :
    registry.followFrom start (path ++ rest) =
      (registry.followFrom start path).bind fun target => registry.followFrom target rest := by
  induction path generalizing start with
  | nil => rfl
  | cons relation path ih =>
    rw [List.cons_append, followFrom, followFrom]
    cases registry.hop start relation with
    | none => rfl
    | some next => exact ih next

/-- The entity at the end of a chain is found under its name. -/
theorem IsKeyed.find?_of_reaches {start target : Entity} (h : registry.IsKeyed)
    (hreaches : Reaches registry start path target)
    (hstart : registry.find? start.name = some start) :
    registry.find? target.name = some target := by
  induction hreaches with
  | here => exact hstart
  | hop hrelation hnext hrest ih =>
    apply ih
    rwa [h _ _ hnext]

theorem IsKeyed.find?_of_follow {target : Entity} (h : registry.IsKeyed)
    (hfollow : registry.follow entity path = some target) :
    registry.find? target.name = some target := by
  obtain ⟨start, hstart, hreaches⟩ := leadsTo_of_follow hfollow
  apply h.find?_of_reaches hreaches
  rwa [h _ _ hstart]

/-- **A chain is followed in two parts**, the second one from the entity that the first one leads
to. -/
theorem IsKeyed.follow_append (h : registry.IsKeyed) (entity : String) (path rest : List String) :
    registry.follow entity (path ++ rest) =
      (registry.follow entity path).bind fun target => registry.follow target.name rest := by
  have hparts : registry.follow entity (path ++ rest) =
      (registry.follow entity path).bind fun target => registry.followFrom target rest := by
    rw [follow, follow, Option.bind_assoc]
    exact congrArg _ (funext fun start => followFrom_append registry start path rest)
  rw [hparts]
  cases hfollow : registry.follow entity path with
  | none => rfl
  | some target =>
    rw [Option.bind_some, Option.bind_some, follow, h.find?_of_follow hfollow, Option.bind_some]

theorem follow_singleton (registry : Registry) (entity relation : String) :
    registry.follow entity [relation] =
      (registry.find? entity).bind fun start => registry.hop start relation := by
  refine congrArg _ (funext fun start => ?_)
  rw [followFrom]
  cases registry.hop start relation <;> rfl

theorem isColumn_concat (registry : Registry) (entity : String) (path : List String)
    (column : String) : registry.isColumn entity (path ++ [column]) =
      (registry.follow entity path).any fun target => target.columns.contains column := by
  rw [isColumn, List.getLast?_concat, List.dropLast_concat]

end Registry

/-! ## Chains and settings -/

/-- A chain leads from an entity to one that settings describe. -/
def EndsAt (entities : Dict EntitySettings) (entity : String) (path : List String)
    (settings : EntitySettings) : Prop :=
  ∃ target, (Registry.ofSettings entities).follow entity path = some target ∧
    entities.find? target.name = some settings

theorem exists_settings {target : Entity}
    (h : (Registry.ofSettings entities).follow entity path = some target) :
    ∃ settings, entities.find? target.name = some settings ∧
      target = settings.entity target.name := by
  have hfound := (Registry.isKeyed_ofSettings entities).find?_of_follow h
  rw [Registry.find?_ofSettings] at hfound
  obtain ⟨settings, hsettings, htarget⟩ := Option.map_eq_some_iff.1 hfound
  exact ⟨settings, hsettings, htarget.symm⟩

theorem EndsAt.unique {settings settings' : EntitySettings}
    (h : EndsAt entities entity path settings) (h' : EndsAt entities entity path settings') :
    settings = settings' := by
  obtain ⟨target, hfollow, hsettings⟩ := h
  obtain ⟨target', hfollow', hsettings'⟩ := h'
  obtain rfl := Option.some.inj (hfollow.symm.trans hfollow')
  exact Option.some.inj (hsettings.symm.trans hsettings')

/-- What is tested at the end of a chain holds of the settings there. -/
theorem any_follow_iff {test : Entity → Bool} {holds : EntitySettings → Prop}
    (htest : ∀ name settings, entities.find? name = some settings →
      (test (settings.entity name) = true ↔ holds settings)) :
    ((Registry.ofSettings entities).follow entity path).any test = true ↔
      ∃ settings, EndsAt entities entity path settings ∧ holds settings := by
  rw [Option.any_eq_true]
  constructor
  · intro ⟨target, hfollow, hpasses⟩
    obtain ⟨settings, hsettings, htarget⟩ := exists_settings hfollow
    rw [htarget] at hpasses
    exact ⟨settings, ⟨target, hfollow, hsettings⟩, (htest _ _ hsettings).1 hpasses⟩
  · intro ⟨settings, ⟨target, hfollow, hsettings⟩, hholds⟩
    obtain ⟨settings', hsettings', htarget⟩ := exists_settings hfollow
    obtain rfl := Option.some.inj (hsettings.symm.trans hsettings')
    refine ⟨target, hfollow, ?_⟩
    rw [htarget]
    exact (htest _ _ hsettings).2 hholds

/-- Where every relation has a target, a relation leads on exactly if it is declared. -/
theorem isSome_follow_singleton_iff (h : HasTargets entities) {settings : EntitySettings}
    (hsettings : entities.find? name = some settings) (relation : String) :
    ((Registry.ofSettings entities).follow name [relation]).isSome ↔
      relation ∈ settings.relations.keys := by
  rw [Registry.follow_singleton, Registry.find?_ofSettings, hsettings, Option.map_some,
    Option.bind_some, ← Dict.contains_iff_mem_keys, Dict.contains]
  show ((settings.relations.find? relation).bind (Registry.ofSettings entities).find?).isSome ↔ _
  cases htarget : settings.relations.find? relation with
  | none => rfl
  | some target =>
    obtain ⟨next, hnext⟩ := h name settings hsettings relation target htarget
    rw [Option.bind_some, Registry.find?_ofSettings, hnext]
    rfl

theorem isSome_follow_concat_iff (h : HasTargets entities) (entity : String) (path : List String)
    (relation : String) :
    ((Registry.ofSettings entities).follow entity (path ++ [relation])).isSome ↔
      ∃ settings, EndsAt entities entity path settings ∧ relation ∈ settings.relations.keys := by
  rw [(Registry.isKeyed_ofSettings entities).follow_append, Option.isSome_bind]
  exact any_follow_iff fun name settings hsettings =>
    isSome_follow_singleton_iff h hsettings relation

theorem isColumn_concat_iff (entities : Dict EntitySettings) (entity : String)
    (path : List String) (column : String) :
    (Registry.ofSettings entities).isColumn entity (path ++ [column]) = true ↔
      ∃ settings, EndsAt entities entity path settings ∧ column ∈ settings.columns := by
  rw [Registry.isColumn_concat]
  exact any_follow_iff fun name settings _ => List.contains_iff_mem

/-- **In a valid configuration no relation leads nowhere.** A chain goes on exactly with the
relations of the entity that it leads to, it can be followed in parts, and its columns are those of
that entity. -/
theorem follow_resolves {c : Config} (hvalid : c.validate = .ok ()) (entity : String)
    (path : List String) :
    (∀ relation, ((Registry.ofSettings c.sql.entities).follow entity (path ++ [relation])).isSome ↔
      ∃ settings, EndsAt c.sql.entities entity path settings ∧
        relation ∈ settings.relations.keys) ∧
    (∀ rest, (Registry.ofSettings c.sql.entities).follow entity (path ++ rest) =
      ((Registry.ofSettings c.sql.entities).follow entity path).bind fun target =>
        (Registry.ofSettings c.sql.entities).follow target.name rest) ∧
    ∀ column,
      (Registry.ofSettings c.sql.entities).isColumn entity (path ++ [column]) = true ↔
        ∃ settings, EndsAt c.sql.entities entity path settings ∧ column ∈ settings.columns := by
  have htargets := Config.hasTargets_of_validate hvalid
  have hkeyed := Registry.isKeyed_ofSettings c.sql.entities
  exact ⟨isSome_follow_concat_iff htargets entity path, hkeyed.follow_append entity path,
    isColumn_concat_iff c.sql.entities entity path⟩

/-- A post has an author. -/
def postSettings : EntitySettings :=
  { columns := ["title"], relations := .ofList [("author", "user")] }

/-- A user has posts. -/
def userSettings : EntitySettings :=
  { columns := ["name"], relations := .ofList [("posts", "post")] }

/-- Relations that go round in a circle. -/
def circular : Config :=
  { sql := { entities := .ofList [("post", postSettings), ("user", userSettings)] } }

/-- The author of a post has posts and a name, but no author, also after a round. -/
theorem follow_resolves_circular : circular.validate = .ok () ∧
    ((Registry.ofSettings circular.sql.entities).follow "post"
      (["author", "posts", "author"] ++ ["posts"])).isSome ∧
    ¬ ((Registry.ofSettings circular.sql.entities).follow "post"
      (["author", "posts", "author"] ++ ["author"])).isSome ∧
    (Registry.ofSettings circular.sql.entities).isColumn "post"
      (["author", "posts", "author"] ++ ["name"]) = true := by
  have hvalid : circular.validate = .ok () := by decide +kernel
  have hfollow : (Registry.ofSettings circular.sql.entities).follow "post"
      ["author", "posts", "author"] = some (userSettings.entity "user") := by decide +kernel
  have hsettings : circular.sql.entities.find? "user" = some userSettings := by decide +kernel
  have hends : EndsAt circular.sql.entities "post" ["author", "posts", "author"] userSettings :=
    ⟨_, hfollow, hsettings⟩
  obtain ⟨hrelation, -, hcolumn⟩ :=
    follow_resolves hvalid "post" ["author", "posts", "author"]
  refine ⟨hvalid, ?_, ?_, ?_⟩
  · exact (hrelation "posts").2 ⟨userSettings, hends, by decide +kernel⟩
  · intro hsome
    obtain ⟨settings, hsettings', hmem⟩ := (hrelation "author").1 hsome
    obtain rfl := hends.unique hsettings'
    revert hmem
    decide +kernel
  · exact (hcolumn "name").2 ⟨userSettings, hends, by decide⟩

end StoreQuery.Sql
