import StoreQuery.Proofs.KeyValue.Keys

/-!
# Lookups, queries and scans

**Every request on a base without keys is one of three reads** (`build_classified`):

* without a partition leaf, a scan that filters by every leaf;
* where the partition leaf and the sort leaf name one item and there are no others, a lookup with
  exactly their values as key, without filter and limit;
* otherwise a query whose key condition expresses the two leaves and which filters by the others.

Every filter holds the expressions of its leaves once each and in document order, and is absent
where there are none. `Outcome` lists what a base can become after one pass; a scan with a sort
leaf needs a second pass, since the first one has taken it.
-/

namespace StoreQuery.KeyValue

variable {t : Table} {keys : Keys}

/-! ## The key condition -/

theorem keyCondition_yields {p : Comparison} {value : Scalar} {q : Query}
    (hpath : p.path = t.partitionPath) (hop : p.operator = .eq) (hvalue : p.value = .one value) :
    Yields (keyCondition t value keys) q fun text q' => ∃ expressions,
      List.Forall₂ q'.Expresses (p :: keys.sort.toList) expressions ∧
        text = Text.join " AND " expressions := by
  rw [keyCondition]
  refine .bind (nameOf_yields t.partitionPath) fun name q₁ _ hname => ?_
  refine .bind (valueOf_yields t.partitionPath value) fun token q₂ hext₂ htoken => ?_
  have hfirst : q₂.Expresses p (name ++ " = " ++ token) := by
    have hjoin : name ++ " " ++ "=" ++ " " ++ token = name ++ " = " ++ token := by
      simp only [String.append_assoc]; rfl
    rw [← hjoin]
    exact .compare (by rw [hop]; rfl) (hpath ▸ hext₂.names _ _ hname) hvalue htoken
  cases keys.sort with
  | none => exact .pure ⟨_, .cons hfirst .nil, rfl⟩
  | some s =>
    refine .bind (sortCondition_yields s q₂) fun second q₃ hext₃ hsecond => ?_
    exact .pure ⟨_, .cons (hfirst.mono hext₃.toResolves) (.cons hsecond .nil), rfl⟩

/-! ## The key of a lookup -/

/-- An item has the values that leaves compare with, and nothing else. -/
structure Item.Fixes (item : Item) (leaves : List Comparison) : Prop where
  single : ∀ c ∈ leaves, ∃ value, c.value = .one value
  entries : ∀ name a, item.find? name = some a ↔
    ∃ c ∈ leaves, ∃ value, c.path.toText = name ∧ c.value = .one value ∧ a = .ofScalar value

namespace Item.Fixes

variable {item : Item} {cs : List Comparison} {c : Comparison} {value : Scalar}

theorem nil : Item.Fixes .empty [] := ⟨nofun, fun _ _ => ⟨nofun, nofun⟩⟩

theorem insert (h : item.Fixes cs) (hvalue : c.value = .one value)
    (hne : ∀ other ∈ cs, other.path.toText ≠ c.path.toText) :
    Item.Fixes (item.insert c.path.toText (.ofScalar value)) (cs ++ [c]) := by
  refine ⟨?_, fun name a => ?_⟩
  · rw [List.forall_mem_append]
    exact ⟨h.single, fun other hother => by
      obtain rfl := List.mem_singleton.1 hother
      exact ⟨value, hvalue⟩⟩
  rw [Dict.find?_insert]
  split
  · rename_i hname
    subst hname
    constructor
    · intro ha
      exact ⟨c, by simp, value, rfl, hvalue, (Option.some.inj ha).symm⟩
    · rintro ⟨other, hother, v, hpath, hv, rfl⟩
      rcases List.mem_append.1 hother with hother | hother
      · exact absurd hpath (hne other hother)
      · obtain rfl := List.mem_singleton.1 hother
        rw [Operand.one.inj (hvalue.symm.trans hv)]
  · rename_i hname
    rw [h.entries]
    constructor
    · rintro ⟨other, hother, rest⟩
      exact ⟨other, List.mem_append_left _ hother, rest⟩
    · rintro ⟨other, hother, v, hpath, rest⟩
      rcases List.mem_append.1 hother with hother | hother
      · exact ⟨other, hother, v, hpath, rest⟩
      · obtain rfl := List.mem_singleton.1 hother
        exact absurd hpath.symm hname

end Item.Fixes

/-! ## The three reads -/

namespace Query

/-- A scan that filters by leaves. -/
structure Scans (q : Query) (leaves : List Comparison) : Prop where
  kind : q.kind = .scan
  key : q.key = none
  keyCondition : q.keyCondition = none
  filters : q.Filters leaves
  filter : q.filter = none ↔ leaves = []

/-- A lookup of the item that leaves name. -/
structure LooksUp (q : Query) (leaves : List Comparison) : Prop where
  kind : q.kind = .getItem
  key : ∃ item, q.key = some item ∧ item.Fixes leaves
  keyCondition : q.keyCondition = none
  filter : q.filter = none
  limit : q.limit = none

/-- A query of the partition that leaves name, which filters by other leaves. -/
structure Queries (q : Query) (leaves others : List Comparison) : Prop where
  kind : q.kind = .query
  key : q.key = none
  keyCondition : ∃ expressions, List.Forall₂ q.Expresses leaves expressions ∧
    q.keyCondition = some (Text.join " AND " expressions)
  filters : q.Filters others
  filter : q.filter = none ↔ others = []

end Query

/-- The leaves name one item, and there are no others. -/
def NamesItem (t : Table) (condition : Condition) : Prop :=
  otherLeaves t condition = [] ∧
    (t.sortKey = none ∨ ∃ s, sortLeaf t condition = some s ∧ s.operator = .eq)

/-- What a base without keys becomes, given what a pass has made of it. -/
inductive Outcome (t : Table) (base : Query) (r : Request) (p : Progress) : Query → Prop
  | scan (hpartition : p.keys.partition = none) (hsort : p.keys.sort = none) :
      Outcome t base r p p.query
  | whole {whole : Progress} (hpartition : p.keys.partition = none)
      (hpass : compilePass t base r false = .ok whole) : Outcome t base r p whole.query
  | lookup {value : Scalar} (hpartition : p.keys.partition = some value)
      (hitem : namesOneItem t p.keys = true) (hfilter : p.query.filter = none) :
      Outcome t base r p { p.query with
        key := some (setKey (setKey .empty (some t.partitionKey) (some value))
          (p.keys.sort.map (·.path.toText)) p.keys.sortScalar)
        limit := none }
  | query {value : Scalar} {condition : String} {q : Query}
      (hpartition : p.keys.partition = some value)
      (hrest : ¬ (namesOneItem t p.keys = true ∧ p.query.filter = none))
      (hcondition : keyCondition t value p.keys p.query = .ok condition q) :
      Outcome t base r p (withOrder t { q with keyCondition := some condition } r)

theorem buildFree_outcome {base q : Query} {r : Request} (h : buildFree t base r = .ok q) :
    ∃ p, compilePass t base r true = .ok p ∧ Outcome t base r p q := by
  obtain ⟨p, hpass, h⟩ := bind_eq_ok.1 h
  refine ⟨p, hpass, ?_⟩
  cases hpartition : p.keys.partition with
  | none =>
    simp only [hpartition] at h
    split at h
    · rename_i hsort
      cases h
      exact .scan hpartition (Option.isNone_iff_eq_none.1 hsort)
    · obtain ⟨whole, hwhole, h⟩ := bind_eq_ok.1 h
      cases h
      exact .whole hpartition hwhole
  | some value =>
    simp only [hpartition] at h
    split at h
    · rename_i hitem
      rw [Bool.and_eq_true, Option.isNone_iff_eq_none] at hitem
      cases h
      exact .lookup hpartition hitem.1 hitem.2
    · rename_i hrest
      rw [Bool.and_eq_true, Option.isNone_iff_eq_none] at hrest
      cases hrun : (keyCondition t value p.keys).run p.query with
      | error e q' => simp only [hrun] at h; cases h
      | ok condition q' =>
        simp only [hrun] at h
        cases h
        exact .query hpartition hrest hrun

theorem namesOneItem_iff : namesOneItem t keys = true ↔
    t.sortKey = none ∨ ∃ s, keys.sort = some s ∧ s.operator = .eq := by
  rw [namesOneItem, Table.sortPath]
  cases t.sortKey <;> cases keys.sort <;> simp

namespace Passed

variable {base q : Query} {r : Request} {p : Progress}

/-- Taking the key parts leaves no filter and names an item exactly when the leaves name one. -/
theorem namesItem_iff (hkeys : t.sortKey ≠ some t.partitionKey) (h : Passed t true base r p) :
    NamesItem t r.condition ↔ namesOneItem t p.keys = true ∧ p.query.filter = none := by
  rw [namesOneItem_iff, h.sort hkeys, (h.filters_others hkeys).eq_none_iff, NamesItem, and_comm]

theorem scans {taking : Bool} (h : Passed t taking base r p) (hkey : base.key = none)
    (hkeyCondition : base.keyCondition = none) {leaves : List Comparison}
    (hfilters : p.query.Filters leaves) : p.query.Scans leaves := by
  have hkey' := h.key.trans hkey
  have hkeyCondition' := h.keyCondition.trans hkeyCondition
  exact ⟨by simp [Query.kind, hkey', hkeyCondition'], hkey', hkeyCondition', hfilters,
    hfilters.eq_none_iff⟩

/-- Key leaves that name one item give its key. -/
theorem fixes_setKey (hkeys : t.sortKey ≠ some t.partitionKey) (h : Passed t true base r p)
    {c : Comparison} {value : Scalar} (hleaf : partitionLeaf t r.condition = some c)
    (hvalue : c.value = .one value) (hitem : namesOneItem t p.keys = true) :
    Item.Fixes (setKey (setKey .empty (some t.partitionKey) (some value))
      (p.keys.sort.map (·.path.toText)) p.keys.sortScalar)
      (c :: (sortLeaf t r.condition).toList) := by
  have hpath : c.path.toText = t.partitionKey := by
    rw [(partitionLeaf_spec hleaf).2.1, Table.partitionPath, Path.toText_ofText]
  have hfirst := Item.Fixes.nil.insert hvalue nofun
  rw [hpath] at hfirst
  rw [namesOneItem_iff, h.sort hkeys] at hitem
  rw [Keys.sortScalar, h.sort hkeys]
  cases hsort : sortLeaf t r.condition with
  | none => exact hfirst
  | some s =>
    obtain ⟨hmem, hsortKey⟩ := sortLeaf_spec hsort
    have hop : s.operator = .eq := by
      rcases hitem with hnone | ⟨s', hs', hop⟩
      · cases hsortKey.symm.trans hnone
      · rwa [Option.some.inj (hsort.symm.trans hs')]
    obtain ⟨second, hsecond⟩ :=
      Option.isSome_iff_exists.1 (isSome_asScalar? (h.validate_leaf hmem) hop)
    have hne : ∀ other ∈ [c], other.path.toText ≠ s.path.toText := fun other hother hsame => by
      obtain rfl := List.mem_singleton.1 hother
      exact hkeys (by rw [hsortKey, ← hsame, hpath])
    have hboth := hfirst.insert (eq_one_of_asScalar? hsecond) hne
    simpa [setKey, hsecond] using hboth

theorem keyed (hkeys : t.sortKey ≠ some t.partitionKey)
    (h : Passed t true base r p) {value : Scalar} (hvalue : p.keys.partition = some value) :
    ∃ c, partitionLeaf t r.condition = some c ∧
      Yields (KeyValue.keyCondition t value p.keys) p.query fun text q => ∃ expressions,
        List.Forall₂ q.Expresses (c :: (sortLeaf t r.condition).toList) expressions ∧
          text = Text.join " AND " expressions := by
  obtain ⟨c, hleaf⟩ : ∃ c, partitionLeaf t r.condition = some c := by
    rw [← Option.ne_none_iff_exists', Ne, ← h.partition_eq_none_iff hkeys, hvalue]
    exact nofun
  obtain ⟨-, hpath, hop⟩ := partitionLeaf_spec hleaf
  refine ⟨c, hleaf, ?_⟩
  rw [← h.sort hkeys]
  exact keyCondition_yields hpath hop (h.partition_value hkeys hleaf hvalue)

end Passed

namespace Outcome

variable {base q : Query} {r : Request} {p : Progress}

theorem resolves (hkeys : t.sortKey ≠ some t.partitionKey) (hfilter : base.filter = none)
    (hpassed : Passed t true base r p) (h : Outcome t base r p q) : base.Resolves q := by
  cases h with
  | scan => exact hpassed.resolves
  | whole _ hpass => exact (compilePass_passed hfilter hpass).resolves
  | lookup => exact hpassed.resolves.trans ⟨fun _ _ h => h, fun _ _ h => h, rfl⟩
  | query hvalue _ hrun =>
    obtain ⟨_, -, hyields⟩ := hpassed.keyed hkeys hvalue
    have hext := (hyields _ _ hrun).1
    refine (hpassed.resolves.trans hext.toResolves).trans (.trans ?_
      (Query.sameParts_withOrder t _ r).carries.toResolves)
    exact ⟨fun _ _ h => h, fun _ _ h => h, rfl⟩

theorem scans (hkeys : t.sortKey ≠ some t.partitionKey) (hkey : base.key = none)
    (hkeyCondition : base.keyCondition = none) (hfilter : base.filter = none)
    (hpassed : Passed t true base r p) (h : Outcome t base r p q)
    (hleaf : partitionLeaf t r.condition = none) : q.Scans r.condition.leaves := by
  have hnone := (hpassed.partition_eq_none_iff hkeys).2 hleaf
  cases h with
  | scan _ hsort =>
    refine hpassed.scans hkey hkeyCondition ?_
    rw [← otherLeaves_of_none hleaf ((hpassed.sort hkeys).symm.trans hsort)]
    exact hpassed.filters_others hkeys
  | whole _ hpass =>
    have hwhole := compilePass_passed hfilter hpass
    exact hwhole.scans hkey hkeyCondition hwhole.filters_all
  | lookup hvalue => cases hnone.symm.trans hvalue
  | query hvalue => cases hnone.symm.trans hvalue

theorem looksUp (hkeys : t.sortKey ≠ some t.partitionKey) (hkeyCondition : base.keyCondition = none)
    (hpassed : Passed t true base r p) (h : Outcome t base r p q) {c : Comparison}
    (hleaf : partitionLeaf t r.condition = some c) (hitem : NamesItem t r.condition) :
    q.LooksUp (c :: (sortLeaf t r.condition).toList) := by
  have hsome := hpassed.partition_ne_none hkeys hleaf
  cases h with
  | scan hnone => exact absurd hnone hsome
  | whole hnone => exact absurd hnone hsome
  | lookup hvalue hone hfilter =>
    exact ⟨rfl, ⟨_, rfl, hpassed.fixes_setKey hkeys hleaf
      (hpassed.partition_value hkeys hleaf hvalue) hone⟩,
      hpassed.keyCondition.trans hkeyCondition, hfilter, rfl⟩
  | query _ hrest => exact absurd ((hpassed.namesItem_iff hkeys).1 hitem) hrest

theorem queries (hkeys : t.sortKey ≠ some t.partitionKey) (hkey : base.key = none)
    (hpassed : Passed t true base r p) (h : Outcome t base r p q) {c : Comparison}
    (hleaf : partitionLeaf t r.condition = some c) (hitem : ¬ NamesItem t r.condition) :
    q.Queries (c :: (sortLeaf t r.condition).toList) (otherLeaves t r.condition) := by
  have hsome := hpassed.partition_ne_none hkeys hleaf
  cases h with
  | scan hnone => exact absurd hnone hsome
  | whole hnone => exact absurd hnone hsome
  | lookup _ hone hfilter => exact absurd ((hpassed.namesItem_iff hkeys).2 ⟨hone, hfilter⟩) hitem
  | @query value condition q hvalue _ hrun =>
    obtain ⟨c', hleaf', hyields⟩ := hpassed.keyed hkeys hvalue
    obtain rfl := Option.some.inj (hleaf.symm.trans hleaf')
    obtain ⟨hext, expressions, hexpresses, rfl⟩ := hyields _ _ hrun
    have horder := (Query.sameParts_withOrder t
      { q with keyCondition := some (Text.join " AND " expressions) } r).carries
    have hkept : Query.Resolves q { q with
      keyCondition := some (Text.join " AND " expressions) } :=
      ⟨fun _ _ h => h, fun _ _ h => h, rfl⟩
    have hresolves := hkept.trans horder.toResolves
    have hkey' := horder.key.trans (hext.key.trans (hpassed.key.trans hkey))
    have hfilters := (hpassed.filters_others hkeys).mono (hext.toResolves.trans hresolves)
      (horder.filter.trans hext.filter)
    refine ⟨?_, hkey', ⟨expressions, hexpresses.imp fun _ _ he => he.mono hresolves,
      horder.keyCondition⟩, hfilters, hfilters.eq_none_iff⟩
    rw [Query.kind, hkey', horder.keyCondition]
    rfl

end Outcome

/-- **A request on a base without keys is a scan, a lookup or a query.** -/
theorem build_classified {base q : Query} {r : Request}
    (hkeys : t.sortKey ≠ some t.partitionKey) (hkey : base.key = none)
    (hkeyCondition : base.keyCondition = none) (hfilter : base.filter = none)
    (h : build t base r = .ok q) :
    base.Resolves q ∧
      (partitionLeaf t r.condition = none → q.Scans r.condition.leaves) ∧
      ∀ c, partitionLeaf t r.condition = some c →
        (q.kind = .getItem ↔ NamesItem t r.condition) ∧
        (NamesItem t r.condition → q.LooksUp (c :: (sortLeaf t r.condition).toList)) ∧
        (¬ NamesItem t r.condition →
          q.Queries (c :: (sortLeaf t r.condition).toList) (otherLeaves t r.condition)) := by
  have hkind : base.kind = .scan := by simp [Query.kind, hkey, hkeyCondition]
  rw [build, hkind] at h
  obtain ⟨p, hpass, houtcome⟩ := buildFree_outcome h
  have hpassed := compilePass_passed hfilter hpass
  refine ⟨houtcome.resolves hkeys hfilter hpassed,
    houtcome.scans hkeys hkey hkeyCondition hfilter hpassed, fun c hleaf => ?_⟩
  have hlookup := houtcome.looksUp hkeys hkeyCondition hpassed hleaf
  have hquery := houtcome.queries hkeys hkey hpassed hleaf
  refine ⟨⟨fun hget => ?_, fun hitem => (hlookup hitem).kind⟩, hlookup, hquery⟩
  by_contra hitem
  cases hget.symm.trans (hquery hitem).kind

/-- A table with both keys. -/
def sorted : Table := { tableName := "t", partitionKey := "pk", sortKey := some "sk" }

/-- Both keys are constrained, the sort key under an OR as well, among other leaves. -/
def mixed : Condition := .group .and [
  .group .or [.leaf ⟨.ofText "sk", .gt, .one (.int 1)⟩,
    .group .and [.leaf ⟨.ofText "title", .contains, .one (.text "x")⟩,
      .leaf ⟨.ofText "views", .isIn, .many [.int 1, .int 2]⟩]],
  .leaf ⟨.ofText "sk", .lt, .one (.int 9)⟩,
  .leaf ⟨.ofText "pk", .eq, .one (.text "a")⟩,
  .leaf ⟨.ofText "title", .neq, .one (.text "y")⟩]

/-- Both keys are fixed, and nothing else is asked for. -/
def named : Condition := .group .and [.leaf ⟨.ofText "sk", .eq, .one (.int 9)⟩,
  .leaf ⟨.ofText "pk", .eq, .one (.text "a")⟩]

/-- Among other leaves those on the keys make the key condition, and the filter has the others in
their brackets. On their own they make the key of a lookup. -/
theorem build_classified_mixed :
    (∃ q, build sorted { tableName := "" } { condition := mixed } = .ok q ∧
      q.Queries [⟨.ofText "pk", .eq, .one (.text "a")⟩, ⟨.ofText "sk", .lt, .one (.int 9)⟩]
        [⟨.ofText "sk", .gt, .one (.int 1)⟩, ⟨.ofText "title", .contains, .one (.text "x")⟩,
          ⟨.ofText "views", .isIn, .many [.int 1, .int 2]⟩,
          ⟨.ofText "title", .neq, .one (.text "y")⟩] ∧
      q.keyCondition = some "#pk = :pk AND #sk < :sk1" ∧
      q.filter = some ("(#sk > :sk OR (contains(#title, :title) AND " ++
        "#views IN (:views_0, :views_1))) AND #title <> :title1") ∧
      Item.encode q.values = .obj [(":pk", .obj [("S", .str "a")]), (":sk", .obj [("N", .str "1")]),
        (":sk1", .obj [("N", .str "9")]), (":title", .obj [("S", .str "x")]),
        (":title1", .obj [("S", .str "y")]), (":views_0", .obj [("N", .str "1")]),
        (":views_1", .obj [("N", .str "2")])]) ∧
    ∃ q, build sorted { tableName := "" } { condition := named, limit := some 5 } = .ok q ∧
      q.LooksUp [⟨.ofText "pk", .eq, .one (.text "a")⟩, ⟨.ofText "sk", .eq, .one (.int 9)⟩] ∧
      q.key.map Item.encode =
        some (.obj [("pk", .obj [("S", .str "a")]), ("sk", .obj [("N", .str "9")])]) := by
  constructor
  · obtain ⟨q, hq, htexts⟩ := exists_of_toOption
      (f := fun q : Query => (q.keyCondition, q.filter, Item.encode q.values))
      (b := (some "#pk = :pk AND #sk < :sk1",
        some ("(#sk > :sk OR (contains(#title, :title) AND " ++
          "#views IN (:views_0, :views_1))) AND #title <> :title1"),
        .obj [(":pk", .obj [("S", .str "a")]), (":sk", .obj [("N", .str "1")]),
          (":sk1", .obj [("N", .str "9")]), (":title", .obj [("S", .str "x")]),
          (":title1", .obj [("S", .str "y")]), (":views_0", .obj [("N", .str "1")]),
          (":views_1", .obj [("N", .str "2")])]))
      (x := build sorted { tableName := "" } { condition := mixed }) (by decide +kernel)
    simp only [Prod.mk.injEq] at htexts
    obtain ⟨-, -, hkeyed⟩ := build_classified (by decide) rfl rfl rfl hq
    obtain ⟨-, -, hquery⟩ := hkeyed _ rfl
    exact ⟨q, hq, hquery fun hitem => absurd hitem.1 (by decide), htexts⟩
  · obtain ⟨q, hq, hkey⟩ := exists_of_toOption (f := fun q : Query => q.key.map Item.encode)
      (b := some (.obj [("pk", .obj [("S", .str "a")]), ("sk", .obj [("N", .str "9")])]))
      (x := build sorted { tableName := "" } { condition := named, limit := some 5 })
      (by decide +kernel)
    obtain ⟨-, -, hkeyed⟩ := build_classified (by decide) rfl rfl rfl hq
    obtain ⟨-, hlookup, -⟩ := hkeyed _ rfl
    exact ⟨q, hq, hlookup ⟨by decide, .inr ⟨_, rfl, by decide⟩⟩, hkey⟩

end StoreQuery.KeyValue
