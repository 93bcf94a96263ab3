import StoreQuery.Proofs.KeyValue.Classification
import StoreQuery.Proofs.KeyValue.Values
import StoreQuery.Proofs.KeyValue.Writing

/-!
# Values are bound once

A request is added to a base that may have expressions, names and values of its own. Its leaves go
into the filter and into the key condition, except where the read is a lookup: then they are its
key.

`Query.Tells` says what has been written into a base, whichever of the reads it becomes
(`build_told`). **What the base binds stays bound to its value; names are free when they are
taken; no two leaves share one, and each leaf finds its own values under its own**
(`build_bindings`). A condition may be compiled a second time, since the first pass has taken a
sort leaf without a partition leaf; the second pass starts from the base again, so that nothing of
the first is left.
-/

namespace StoreQuery.KeyValue

open Query

variable {t : Table} {taking : Bool} {base q : Query} {r : Request} {p : Progress}

/-! ## What is told -/

/-- Key leaves and other leaves have been written into a base, the others first. -/
structure Query.Tells (base q : Query) (keyUses filterUses : List Use) : Prop where
  allotted : Allotted base.values (filterUses ++ keyUses) q.values
  own : ∀ use ∈ filterUses ++ keyUses, use.IsOwn
  named : ∀ use ∈ filterUses ++ keyUses, q.Names use.name use.comparison.path.toText
  keyCondition : q.keyCondition =
    if keyUses = [] then base.keyCondition else some (Text.join " AND " (keyUses.map Use.text))
  filter : ∃ added : Option String, JoinedAll (filterUses.map Use.text) added.toList ∧
    q.filter = base.filterWith added

/-- A filter that stays as it is has nothing added to it. -/
theorem eq_none_of_filterWith {added : Option String} (h : base.filterWith added = base.filter) :
    added = none := by
  cases added with
  | none => rfl
  | some expression =>
    cases hfilter : base.filter with
    | none =>
      rw [filterWith_of_none hfilter, hfilter] at h
      cases h
    | some existing =>
      simp only [Query.filterWith, hfilter] at h
      have hlength := congrArg String.length (Option.some.inj h)
      simp only [String.length_append] at hlength
      have hopening : "(".length = 1 := by decide
      omega

theorem none_of_filterWith {added : Option String} (h : base.filterWith added = none) :
    base.filter = none := by
  cases added with
  | none => exact h
  | some expression =>
    rw [Query.filterWith] at h
    split at h <;> cases h

namespace Query.Tells

variable {uses keyUses filterUses : List Use}

theorem eq_nil (h : base.Tells q keyUses filterUses) (hfilter : q.filter = base.filter) :
    filterUses = [] := by
  obtain ⟨added, htexts, hadded⟩ := h.filter
  obtain rfl := eq_none_of_filterWith (hadded.symm.trans hfilter)
  exact List.map_eq_nil_iff.1 (htexts.eq_none_iff.1 rfl)

/-- What is told are expressions, names and values, and nothing else. -/
theorem congr {q' : Query} (h : base.Tells q keyUses filterUses) (hnames : q'.names = q.names)
    (hvalues : q'.values = q.values) (hkeyCondition : q'.keyCondition = q.keyCondition)
    (hfilter : q'.filter = q.filter) : base.Tells q' keyUses filterUses := by
  refine ⟨hvalues ▸ h.allotted, h.own, ?_, hkeyCondition.trans h.keyCondition, hfilter ▸ h.filter⟩
  intro use huse
  rw [Names, hnames]
  exact h.named use huse

theorem sameParts {q' : Query} (h : base.Tells q keyUses filterUses) (hsame : q.SameParts q') :
    base.Tells q' keyUses filterUses :=
  h.congr hsame.names hsame.values hsame.keyCondition hsame.filter

end Query.Tells

/-! ## Passes -/

theorem values_withTable (t : Table) (q : Query) : (withTable t q).values = q.values := by
  unfold withTable
  split <;> rfl

theorem values_registerNames (paths : List Path) (q : Query) :
    (registerNames q paths).2.values = q.values := by
  induction paths generalizing q with
  | nil => rfl
  | cons path paths ih => exact ih (q.registerName path).2

theorem values_withProjection (q : Query) (select : List Path) :
    (withProjection q select).values = q.values := by
  unfold withProjection
  split
  · rfl
  · exact values_registerNames select q

/-- A pass writes the leaves that it does not take into the filter. -/
theorem compilePass_tells (h : compilePass t base r taking = .ok p) :
    ∃ uses : List Use, base.Tells p.query [] uses ∧ p.query.key = base.key ∧
      (taking = false → p.keys = {}) ∧
      (uses.map (·.comparison) ++ p.keys.leaves t).Perm r.condition.leaves := by
  obtain ⟨added, progress, hrun, rfl⟩ := compilePass_cases h
  obtain ⟨hkeys, uses, hwrites, htexts, hperm⟩ :=
    (compiler_written t taking).compileAt [] r.condition hrun
  rw [Condition.map_placed] at hperm
  have hstart := (carries_withTable t base).trans
    (carries_withProjection (withTable t base) r.select)
  have hcarries := hstart.trans hwrites.toExtends.carries
  have hallotted := hwrites.allotted
  dsimp only at hallotted
  rw [values_withProjection, values_withTable] at hallotted
  have hsame := (sameParts_addFilter progress.query added).trans (sameParts_withLimit _ r.limit)
  have htells : base.Tells { progress.query with filter := progress.query.filterWith added } []
      uses := by
    refine ⟨?_, ?_, ?_, hcarries.keyCondition, added, htexts,
      filterWith_congr hcarries.filter added⟩
    · rw [List.append_nil]
      exact hallotted
    · rw [List.append_nil]
      exact hwrites.own
    · rw [List.append_nil]
      exact hwrites.named
  refine ⟨uses, htells.sameParts hsame, hsame.key.trans hcarries.key, hkeys, ?_⟩
  have hnone : Keys.leaves t {} = [] := rfl
  rwa [hnone, List.append_nil] at hperm

/-! ## Reads -/

theorem kind_eq_getItem_iff : q.kind = .getItem ↔ q.key.isSome = true := by
  unfold Query.kind
  split
  · rename_i hkey
    simp [hkey]
  · rename_i hkey
    split <;> simp [hkey]

theorem Query.Tells.withKeys {filterUses keyUses : List Use} {condition : String} {q' : Query}
    (h : base.Tells q [] filterUses) (hwrites : q.Writes keyUses q') (hne : keyUses ≠ [])
    (hcondition : condition = Text.join " AND " (keyUses.map Use.text)) :
    base.Tells { q' with keyCondition := some condition } keyUses filterUses := by
  obtain ⟨hallotted, hown, hnamed, -, added, htexts, hfilter⟩ := h
  rw [List.append_nil] at hallotted hown hnamed
  refine ⟨hallotted.append hwrites.allotted, List.forall_mem_append.2 ⟨hown, hwrites.own⟩,
    List.forall_mem_append.2 ⟨?_, hwrites.named⟩, ?_, added, htexts, ?_⟩
  · exact fun use huse => hwrites.names _ _ (hnamed use huse)
  · rw [if_neg hne, hcondition]
  · exact hwrites.filter.trans hfilter

theorem isSome_key_ne (h : base.kind ≠ .getItem) : base.key.isSome ≠ true :=
  mt kind_eq_getItem_iff.2 h

/-- The leaves of a request have been written into a base; those of a lookup are its key. -/
def Query.Told (base q : Query) (leaves : List Comparison) : Prop :=
  ∃ keyUses filterUses : List Use, base.Tells q keyUses filterUses ∧
    ((filterUses ++ keyUses).map (·.comparison)).Perm (if q.kind = .getItem then [] else leaves)

section Told

variable {uses : List Use} {leaves : List Comparison}

/-- Where no leaf has been taken as a key part, all of them are in the filter. -/
theorem Query.Tells.told_filter {keys : Keys} (h : base.Tells q [] uses)
    (hkey : q.key.isSome ≠ true) (hkeys : keys.leaves t = [])
    (hperm : (uses.map (·.comparison) ++ keys.leaves t).Perm leaves) : base.Told q leaves := by
  refine ⟨[], uses, h, ?_⟩
  rw [if_neg (mt kind_eq_getItem_iff.1 hkey), List.append_nil]
  rwa [hkeys, List.append_nil] at hperm

theorem Query.Tells.told_lookup (h : base.Tells q [] []) (hkey : q.key.isSome = true) :
    base.Told q leaves := by
  refine ⟨[], [], h, ?_⟩
  rw [if_pos (kind_eq_getItem_iff.2 hkey)]
  exact .refl _

end Told

/-- What a base without keys becomes has been told the leaves. -/
theorem Outcome.told (houtcome : Outcome t base r p q) (hkey : base.key.isSome ≠ true)
    (hpass : compilePass t base r true = .ok p) : base.Told q r.condition.leaves := by
  obtain ⟨uses, htells, hsame, -, hperm⟩ := compilePass_tells hpass
  cases houtcome with
  | scan hpartition hsort =>
    have hkeys : p.keys.leaves t = [] := by rw [Keys.leaves, hpartition, hsort]; rfl
    exact htells.told_filter (by rwa [hsame]) hkeys hperm
  | @whole whole _ hwhole =>
    -- The second pass has started from the base again.
    obtain ⟨uses, htells, hsame, hkeys, hperm⟩ := compilePass_tells hwhole
    exact htells.told_filter (by rwa [hsame]) (by rw [hkeys rfl]; rfl) hperm
  | lookup _ _ hfilter =>
    obtain ⟨added, -, hadded⟩ := htells.filter
    have hbase := none_of_filterWith (hadded.symm.trans hfilter)
    obtain rfl := htells.eq_nil (hfilter.trans hbase.symm)
    exact Query.Tells.told_lookup (htells.congr rfl rfl rfl rfl) rfl
  | @query value condition query hpartition _ hcondition =>
    obtain ⟨keyUses, hwrites, hcomparisons, htext⟩ := keyCondition_writes hcondition
    have hleaves : keyUses.map (·.comparison) = p.keys.leaves t := by
      rw [hcomparisons, Keys.leaves, hpartition]
      rfl
    have hne : keyUses ≠ [] := by
      rintro rfl
      cases hcomparisons
    have hordered := sameParts_withOrder t { query with keyCondition := some condition } r
    have hkind : (withOrder t { query with keyCondition := some condition } r).kind ≠ .getItem := by
      rwa [Ne, kind_eq_getItem_iff, hordered.key, hwrites.key, hsame]
    refine ⟨keyUses, uses, (htells.withKeys hwrites hne htext).sameParts hordered, ?_⟩
    rwa [if_neg hkind, List.map_append, hleaves]

/-- **Every read of a base has been told the leaves**, be it a lookup from the start, a query whose
key condition stays, or whatever a base without keys becomes. -/
theorem build_told (h : build t base r = .ok q) : base.Told q r.condition.leaves := by
  unfold build at h
  cases hkind : base.kind with
  | getItem =>
    rw [hkind] at h
    obtain ⟨p, key, hpass, hfilter, rfl⟩ := buildPinned_cases h
    obtain ⟨uses, htells, -, -, -⟩ := compilePass_tells hpass
    obtain rfl := htells.eq_nil hfilter
    exact Query.Tells.told_lookup (htells.congr rfl rfl rfl rfl) rfl
  | query =>
    rw [hkind] at h
    obtain ⟨p, hpass, rfl⟩ := map_eq_ok.1 h
    obtain ⟨uses, htells, hkey, hkeys, hperm⟩ := compilePass_tells hpass
    have hordered := sameParts_withOrder t p.query r
    have hfree : (withOrder t p.query r).key.isSome ≠ true := by
      rw [hordered.key, hkey]
      exact isSome_key_ne (by rw [hkind]; exact nofun)
    exact (htells.sameParts hordered).told_filter hfree (by rw [hkeys rfl]; rfl) hperm
  | scan =>
    rw [hkind] at h
    obtain ⟨p, hpass, houtcome⟩ := buildFree_outcome h
    exact houtcome.told (isSome_key_ne (by rw [hkind]; exact nofun)) hpass

/-! ## Values -/

/-- A leaf finds its values in a query under its own names, which are not in use in the base. -/
structure Use.FindsValues (use : Use) (base q : Query) : Prop where
  tokens : tokensOf use.text = use.properties ++ use.placeholders
  free : ∀ name ∈ use.names, name ≠ nullToken ∧ name ∉ base.values.keys
  null : use.binding? = none → use.placeholders = [nullToken]
  values : use.binding? ≠ none →
    use.placeholders = use.names ∧ q.BindsAll use.names use.comparison.value.scalars

theorem Query.Tells.findsValues {keyUses filterUses : List Use} {use : Use}
    (h : base.Tells q keyUses filterUses) (huse : use ∈ filterUses ++ keyUses) :
    use.FindsValues base q where
  tokens := use.tokensOf_text (h.own use huse)
  free _ hname := h.allotted.free huse hname
  null hnone := by rw [Use.placeholders, hnone]
  values hcarries := by
    refine ⟨?_, h.allotted.bindsAll huse hcarries⟩
    obtain ⟨binding, hbinding⟩ := Option.ne_none_iff_exists'.1 hcarries
    rw [Use.placeholders, Use.names, hbinding]

/-- **Values never clash.** What the base binds stays bound to its value. Every leaf that is not a
part of the key of a lookup is written, one after the other, with names that are free when it
takes them; no two leaves share a name, but for the literal that tests for null share, and in the
end each leaf finds its own values under its own names. -/
theorem build_bindings (h : build t base r = .ok q) :
    (∀ name value, base.Binds name value → q.Binds name value) ∧
    ∃ keyUses filterUses : List Use,
      base.Tells q keyUses filterUses ∧
      ((filterUses ++ keyUses).map (·.comparison)).Perm
        (if q.kind = .getItem then [] else r.condition.leaves) ∧
      (∀ name, name ∈ q.values.keys ↔
        name ∈ base.values.keys ∨ ∃ use ∈ filterUses ++ keyUses, name ∈ use.placeholders) ∧
      ((filterUses ++ keyUses).flatMap Use.names).Nodup ∧
      ∀ use ∈ filterUses ++ keyUses, use.FindsValues base q := by
  obtain ⟨keyUses, filterUses, htells, hleaves⟩ := build_told h
  refine ⟨fun name value => htells.allotted.kept, keyUses, filterUses, htells, hleaves, ?_,
    htells.allotted.nodup, fun use => htells.findsValues⟩
  exact fun name => htells.allotted.mem_keys_iff

/-- A base with a filter and values of its own, under names that leaves would take. -/
def crowdedBase : Query :=
  { tableName := "t"
    filter := some "#owner = :rank"
    names := .ofList [("#owner", "owner")]
    values := .ofList [(":rank", .number "7"), (":date_end", .text "x")] }

/-- Leaves whose tokens are close to each other, among them the key. -/
def crowdedRequest : Request where
  condition := .group .and [.leaf ⟨.ofText "pk", .eq, .one (.text "a")⟩,
    .leaf ⟨.ofText "sk", .between, .many [.int (-1), .float (.ofInt 2)]⟩,
    .leaf ⟨.ofText "rank", .eq, .one (.bool true)⟩, .leaf ⟨.ofText "rank_1", .eq, .one (.int 2)⟩,
    .leaf ⟨.ofText "rank-1", .isIn, .many [.int 3, .text "4"]⟩,
    .leaf ⟨.ofText "date", .between, .many [.date ⟨2024, 2, 29, 1, 2, 3, 0⟩, .int 6]⟩,
    .leaf ⟨.ofText "date_end", .eq, .one (.int 7)⟩,
    .leaf ⟨.ofText "null", .eq, .one (.int 8)⟩, .leaf ⟨.ofText "null", .isNull, .one .null⟩,
    .leaf ⟨.ofText "rank", .notIn, .many [.int 9]⟩]

/-- The filter that they become. -/
def crowdedFilter : String :=
  "(#owner = :rank) AND (#rank = :rank1 AND #rank_1 = :rank_1"
    ++ " AND #rank_11 IN (:rank_11_0, :rank_11_1) AND #date BETWEEN :date1_start AND :date1_end"
    ++ " AND #date_end = :date_end1 AND #null = :null1"
    ++ " AND (attribute_not_exists(#null) OR #null = :null) AND NOT (#rank IN (:rank2_0)))"

/-- The values that are bound, as they are written. -/
def crowdedValues : Json :=
  .obj [(":date1_end", .obj [("N", .str "6")]),
    (":date1_start", .obj [("S", .str "2024-02-29T01:02:03+00:00")]),
    (":date_end", .obj [("S", .str "x")]), (":date_end1", .obj [("N", .str "7")]),
    (":null", .obj [("NULL", .bool true)]), (":null1", .obj [("N", .str "8")]),
    (":pk", .obj [("S", .str "a")]), (":rank", .obj [("N", .str "7")]),
    (":rank1", .obj [("BOOL", .bool true)]), (":rank2_0", .obj [("N", .str "9")]),
    (":rank_1", .obj [("N", .str "2")]), (":rank_11_0", .obj [("N", .str "3")]),
    (":rank_11_1", .obj [("S", .str "4")]), (":sk_end", .obj [("N", .str "2")]),
    (":sk_start", .obj [("N", .str "-1")])]

theorem build_bindings_crowded :
    ∃ q, build sorted crowdedBase crowdedRequest = .ok q ∧
      q.keyCondition = some "#pk = :pk AND #sk BETWEEN :sk_start AND :sk_end" ∧
      q.filter = some crowdedFilter ∧
      Item.encode q.values = crowdedValues ∧
      q.Binds ":rank" (.number "7") ∧
      ∃ keyUses filterUses : List Use, crowdedBase.Tells q keyUses filterUses ∧
        ((filterUses ++ keyUses).map (·.comparison)).Perm crowdedRequest.condition.leaves ∧
        ((filterUses ++ keyUses).flatMap Use.names).Nodup ∧
        ∀ use ∈ filterUses ++ keyUses, use.FindsValues crowdedBase q := by
  obtain ⟨q, hbuild, hview⟩ := exists_of_toOption
    (f := fun q : Query => (q.kind, q.keyCondition, q.filter, Item.encode q.values))
    (x := build sorted crowdedBase crowdedRequest)
    (b := (.query, some "#pk = :pk AND #sk BETWEEN :sk_start AND :sk_end", some crowdedFilter,
      crowdedValues)) (by decide +kernel)
  simp only [Prod.mk.injEq] at hview
  obtain ⟨hkind, hkeyCondition, hfilter, hvalues⟩ := hview
  obtain ⟨hkept, keyUses, filterUses, htells, hleaves, -, hnodup, hfinds⟩ := build_bindings hbuild
  rw [hkind, if_neg (by decide)] at hleaves
  exact ⟨q, hbuild, hkeyCondition, hfilter, hvalues, hkept _ _ rfl, keyUses, filterUses, htells,
    hleaves, hnodup, hfinds⟩

end StoreQuery.KeyValue
