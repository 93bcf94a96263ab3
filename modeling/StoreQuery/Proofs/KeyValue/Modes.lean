import StoreQuery.Proofs.KeyValue.Bindings
import StoreQuery.Proofs.KeyValue.Faults

/-!
# Bases that have a key

A base with a key stays a lookup, and a base with a key condition stays a query.

**A lookup has room for nothing but equalities on its keys** (`SetsKeys`): one for each of them at
most, and none under an OR. A build does not look at the leaves for this. It compares the filter
with the one of the base, which changes exactly if a leaf is left to be added
(`FilterAdds.filter_eq_iff`), whatever the base filters by. The leaves overwrite the key of the
base, each its own attribute (`setKey_over`).

**A query keeps its key condition and filters by every leaf**, those on the keys included.
-/

namespace StoreQuery

/-- Where one item at most passes a test, none is left behind it. -/
theorem eq_false_of_mem_eraseP {α : Type} {test : α → Bool} {xs : List α}
    (h : xs.countP test ≤ 1) : ∀ x ∈ xs.eraseP test, test x = false := by
  induction xs with
  | nil => exact nofun
  | cons x xs ih =>
    rw [List.countP_cons] at h
    cases htest : test x with
    | true =>
      rw [htest, if_pos rfl] at h
      rw [List.eraseP_cons_of_pos htest]
      exact fun y hy => Bool.eq_false_iff.2 (List.countP_eq_zero.1 (by omega) y hy)
    | false =>
      rw [htest, if_neg Bool.false_ne_true] at h
      rw [List.eraseP_cons_of_neg (by simp [htest])]
      exact List.forall_mem_cons.2 ⟨htest, ih h⟩

namespace KeyValue

open Query

variable {t : Table} {taking : Bool} {base q : Query} {r : Request} {p : Progress}

/-! ## Passes -/

namespace Query.FilterAdds

variable {leaves : List Comparison}

/-- **The filter is that of the base exactly if no leaf is added to it.** -/
theorem filter_eq_iff (h : base.FilterAdds q leaves) : q.filter = base.filter ↔ leaves = [] := by
  obtain ⟨added, expressions, hexpresses, hjoined, hfilter⟩ := h
  constructor
  · intro hsame
    obtain rfl := eq_none_of_filterWith (hfilter.symm.trans hsame)
    obtain rfl := hjoined.eq_none_iff.1 rfl
    exact List.forall₂_nil_right_iff.1 hexpresses
  · rintro rfl
    obtain rfl := List.forall₂_nil_left_iff.1 hexpresses
    obtain rfl := hjoined.eq_none_iff.2 rfl
    exact hfilter

end Query.FilterAdds

namespace Added

theorem filter_others (hkeys : t.sortKey ≠ some t.partitionKey) (h : Added t true base r p) :
    base.FilterAdds p.query (otherLeaves t r.condition) := by
  have hfilter := h.filter
  rwa [(split_true hkeys {} h.valid).2.2] at hfilter

theorem filter_all (h : Added t false base r p) :
    base.FilterAdds p.query r.condition.leaves := by
  have hfilter := h.filter
  rwa [split_false, Condition.marked_leaves] at hfilter

theorem sort (hkeys : t.sortKey ≠ some t.partitionKey) (h : Added t true base r p) :
    p.keys.sort = sortLeaf t r.condition := by
  rw [h.keys, (split_true hkeys {} h.valid).2.1, sortLeaf, Option.none_or]

theorem sortPath (hkeys : t.sortKey ≠ some t.partitionKey) (h : Added t true base r p)
    {c : Comparison} (hc : p.keys.sort = some c) : t.sortPath = some c.path := by
  rw [h.sort hkeys] at hc
  obtain ⟨leaf, hfind, rfl⟩ := Option.map_eq_some_iff.1 hc
  have hconstrains := List.find?_some hfind
  simp only [constrainsSort, Bool.and_eq_true, beq_iff_eq] at hconstrains
  exact hconstrains.1.2

end Added

/-! ## Conditions that only set keys -/

/-- A condition has valid equalities on keys and nothing else, one for each key at most, and none
under an OR. -/
structure SetsKeys (t : Table) (condition : Condition) : Prop where
  valid : ∀ c ∈ condition.leaves, c.validate = .ok ()
  topLevel : ∀ leaf ∈ condition.marked true, leaf.2 = true
  equal : ∀ c ∈ condition.leaves,
    c.operator = .eq ∧ (c.path = t.partitionPath ∨ t.sortPath = some c.path)
  partition : (condition.leaves.countP fun c => c.path = t.partitionPath) ≤ 1
  sort : (condition.leaves.countP fun c => t.sortPath = some c.path) ≤ 1

namespace SetsKeys

variable {condition : Condition}

theorem fault_eq_none (h : SetsKeys t condition) : condition.leaves.findSome? fault = none := by
  refine List.findSome?_eq_none_iff.2 fun c hc => ?_
  rw [fault, Comparison.fault, h.valid c hc, (h.equal c hc).1]
  rfl

/-- A leaf of such a condition is on a key, and then it is a part of the key. -/
theorem fixesPartition_eq (h : SetsKeys t condition) {leaf : Comparison × Bool}
    (hleaf : leaf ∈ condition.marked true) :
    fixesPartition t leaf = decide (leaf.1.path = t.partitionPath) ∧
      constrainsSort t leaf = decide (t.sortPath = some leaf.1.path) := by
  have hmem : leaf.1 ∈ condition.leaves := by
    rw [← condition.marked_leaves true]
    exact List.mem_map_of_mem hleaf
  obtain ⟨hop, -⟩ := h.equal leaf.1 hmem
  simp [fixesPartition, constrainsSort, h.topLevel leaf hleaf, hop, constrainsSortKey,
    beq_eq_decide]

theorem otherLeaves_eq_nil (h : SetsKeys t condition) : otherLeaves t condition = [] := by
  have hpartition : (condition.marked true).countP (fixesPartition t) ≤ 1 := by
    have hcount := h.partition
    rw [← condition.marked_leaves true, List.countP_map] at hcount
    rwa [List.countP_congr fun leaf hleaf => by rw [(h.fixesPartition_eq hleaf).1]]
  have hsort : (condition.marked true).countP (constrainsSort t) ≤ 1 := by
    have hcount := h.sort
    rw [← condition.marked_leaves true, List.countP_map] at hcount
    rwa [List.countP_congr fun leaf hleaf => by rw [(h.fixesPartition_eq hleaf).2]]
  rw [otherLeaves, List.map_eq_nil_iff, List.eq_nil_iff_forall_not_mem]
  intro leaf hleaf
  have hrest := List.mem_of_mem_eraseP hleaf
  have hmem := List.mem_of_mem_eraseP hrest
  have hnot := eq_false_of_mem_eraseP hpartition leaf hrest
  have hnot' := eq_false_of_mem_eraseP
    ((List.eraseP_sublist.countP_le).trans hsort) leaf hleaf
  obtain ⟨hfixes, hconstrains⟩ := h.fixesPartition_eq hmem
  have hleaf' : leaf.1 ∈ condition.leaves := by
    rw [← condition.marked_leaves true]
    exact List.mem_map_of_mem hmem
  rw [hfixes, decide_eq_false_iff_not] at hnot
  rw [hconstrains, decide_eq_false_iff_not] at hnot'
  exact (h.equal leaf.1 hleaf').2.elim hnot hnot'

end SetsKeys

/-- **A pass that leaves nothing to be added, and takes no constraint but equalities, has met a
condition that only sets keys.** -/
theorem Added.setsKeys (hkeys : t.sortKey ≠ some t.partitionKey) (h : Added t true base r p)
    (hleaves : (p.keys.leaves t).Perm r.condition.leaves) (hothers : otherLeaves t r.condition = [])
    (hsort : ∀ c, p.keys.sort = some c → c.operator = .eq) : SetsKeys t r.condition := by
  have hpath : t.sortPath ≠ some t.partitionPath := fun hsame => by
    obtain ⟨key, hkey, hpath⟩ := Option.map_eq_some_iff.1 hsame
    exact hkeys (hkey.trans (congrArg some (Path.ofText_injective hpath)))
  refine ⟨fun c hc => ?_, fun leaf hleaf => ?_, fun c hc => ?_, ?_, ?_⟩
  · rw [← r.condition.marked_leaves true] at hc
    obtain ⟨leaf, hleaf, rfl⟩ := List.mem_map.1 hc
    exact h.valid leaf hleaf
  · -- A leaf under an OR fixes no key, so it would have been added.
    by_contra htop
    rw [otherLeaves, List.map_eq_nil_iff, List.eq_nil_iff_forall_not_mem] at hothers
    have hfixes : ¬ fixesPartition t leaf = true := by simp [fixesPartition, htop]
    have hconstrains : ¬ constrainsSort t leaf = true := by simp [constrainsSort, htop]
    exact hothers leaf ((List.mem_eraseP_of_neg hconstrains).2
      ((List.mem_eraseP_of_neg hfixes).2 hleaf))
  · rw [← hleaves.mem_iff, Keys.leaves, List.mem_append, Option.mem_toList, Option.mem_toList,
      Option.map_eq_some_iff] at hc
    rcases hc with ⟨value, -, rfl⟩ | hc
    · exact ⟨rfl, .inl rfl⟩
    · exact ⟨hsort c hc, .inr (h.sortPath hkeys hc)⟩
  · rw [← hleaves.countP_eq, Keys.leaves]
    cases hc : p.keys.sort with
    | none => cases p.keys.partition <;> simp
    | some c =>
      have hc := h.sortPath hkeys hc
      have hne : c.path ≠ t.partitionPath := fun hsame => hpath (hc.trans (congrArg some hsame))
      cases p.keys.partition <;> simp [hne]
  · rw [← hleaves.countP_eq, Keys.leaves]
    cases p.keys.sort <;> cases p.keys.partition <;> simp [hpath, List.countP_cons] <;>
      split <;> omega

/-! ## Keys -/

/-- An item has the values of one item over those of another. -/
def Item.Over (item set key : Item) : Prop :=
  ∀ name, item.find? name = (set.find? name).or (key.find? name)

theorem setKey_over {item set key : Item} (h : item.Over set key) (field : Option String)
    (value : Option Scalar) : (setKey item field value).Over (setKey set field value) key := by
  cases field with
  | none => exact h
  | some field =>
    cases value with
    | none => exact h
    | some scalar =>
      intro name
      rw [setKey, setKey, Dict.find?_insert, Dict.find?_insert]
      split
      · rfl
      · exact h name

theorem Added.fixes (hkeys : t.sortKey ≠ some t.partitionKey) (h : Added t true base r p)
    (hscalar : ∀ c, p.keys.sort = some c → c.value.asScalar?.isSome = true) :
    Item.Fixes (setKey (setKey .empty (some t.partitionKey) p.keys.partition) t.sortKey
      p.keys.sortScalar) (p.keys.leaves t) := by
  have hfirst : Item.Fixes (setKey .empty (some t.partitionKey) p.keys.partition)
      (p.keys.partition.map fun value =>
        Comparison.mk t.partitionPath .eq (.one value)).toList := by
    cases p.keys.partition with
    | none => exact .nil
    | some value =>
      have hset := Item.Fixes.nil.insert (c := ⟨t.partitionPath, .eq, .one value⟩) rfl nofun
      rwa [Table.partitionPath, Path.toText_ofText] at hset
  rw [Keys.leaves, Keys.sortScalar]
  cases hsort : p.keys.sort with
  | none =>
    rw [Option.bind_none, Option.toList_none, List.append_nil]
    cases t.sortKey <;> exact hfirst
  | some c =>
    obtain ⟨value, hvalue⟩ := Option.isSome_iff_exists.1 (hscalar c hsort)
    obtain ⟨key, hkey, hpath⟩ := Option.map_eq_some_iff.1 (h.sortPath hkeys hsort)
    have htext : c.path.toText = key := by rw [← hpath, Path.toText_ofText]
    -- The second attribute is not the first one, since the keys differ.
    have hne : ∀ other ∈ (p.keys.partition.map fun value =>
        Comparison.mk t.partitionPath .eq (.one value)).toList,
          other.path.toText ≠ c.path.toText := by
      intro other hother hsame
      obtain ⟨value, -, rfl⟩ := Option.map_eq_some_iff.1 (Option.mem_toList.1 hother)
      rw [Table.partitionPath, Path.toText_ofText, htext] at hsame
      exact hkeys (hkey.trans (congrArg some hsame.symm))
    have hboth := hfirst.insert (eq_one_of_asScalar? hvalue) hne
    rw [htext] at hboth
    rw [Option.bind_some, hvalue, hkey]
    exact hboth

theorem Item.Fixes.perm {item : Item} {leaves leaves' : List Comparison} (h : item.Fixes leaves)
    (hperm : leaves.Perm leaves') : item.Fixes leaves' := by
  obtain ⟨hsingle, hentries⟩ := h
  refine ⟨fun c hc => hsingle c (hperm.mem_iff.2 hc), fun name a => ?_⟩
  simp only [hentries, hperm.mem_iff]

/-! ## Builds -/

/-- A base with a key is built exactly if its pass changes no filter and takes no constraint but an
equality. -/
theorem buildPinned_eq_ok_iff : buildPinned t base r = .ok q ↔
    ∃ p, compilePass t base r true = .ok p ∧ p.query.filter = base.filter ∧
      (∀ c, p.keys.sort = some c → c.operator = .eq) ∧
      { p.query with
        key := some (setKey (setKey (p.query.key.getD .empty) (some t.partitionKey)
          p.keys.partition) t.sortKey p.keys.sortScalar)
        limit := none } = q := by
  have hbeyond (p : Progress) : (p.query.filter ≠ base.filter ∨
      p.keys.sort.any (fun c => c.operator != .eq) = true) ↔
        ¬ (p.query.filter = base.filter ∧ ∀ c, p.keys.sort = some c → c.operator = .eq) := by
    cases p.keys.sort <;> simp [imp_iff_not_or]
  rw [buildPinned, bind_eq_ok]
  refine exists_congr fun p => and_congr_right fun _ => ?_
  dsimp only
  split
  · rename_i h
    rw [hbeyond] at h
    exact ⟨nofun, fun ⟨hfilter, hsort, _⟩ => absurd ⟨hfilter, hsort⟩ h⟩
  · rename_i h
    rw [hbeyond, not_not] at h
    exact ⟨fun hq => ⟨h.1, h.2, Except.ok.inj hq⟩, fun ⟨_, _, hq⟩ => congrArg Except.ok hq⟩

theorem exists_compilePass (h : r.condition.leaves.findSome? fault = none) (base : Query) :
    ∃ p, compilePass t base r taking = .ok p := by
  have herror := errorOf?_compilePass t base r taking
  rw [h] at herror
  cases hpass : compilePass t base r taking with
  | ok p => exact ⟨p, rfl⟩
  | error e => rw [hpass] at herror; cases herror

/-- What is built of a base with a key is a lookup of that key, with the attributes that leaves
set. -/
structure Query.StaysLookup (base q : Query) (key : Item) (leaves : List Comparison) : Prop where
  kind : q.kind = .getItem
  limit : q.limit = none
  filter : q.filter = base.filter
  key : ∃ item set : Item, q.key = some item ∧ item.Over set key ∧ set.Fixes leaves

/-- What is built of a base with a key condition is a query with that key condition, which filters
by all leaves. -/
structure Query.StaysQuery (base q : Query) (keyCondition : String) (leaves : List Comparison) :
    Prop where
  kind : q.kind = .query
  keyCondition : q.keyCondition = some keyCondition
  filter : base.FilterAdds q leaves

/-- **A base with a key has room for conditions that only set keys.** -/
theorem exists_buildPinned_iff (hkeys : t.sortKey ≠ some t.partitionKey) :
    (∃ q, buildPinned t base r = .ok q) ↔ SetsKeys t r.condition := by
  constructor
  · rintro ⟨q, h⟩
    obtain ⟨p, hpass, hfilter, hsort, -⟩ := buildPinned_eq_ok_iff.1 h
    have hadded := compilePass_added hpass
    obtain ⟨uses, htells, -, -, hperm⟩ := compilePass_tells hpass
    obtain rfl := htells.eq_nil hfilter
    exact hadded.setsKeys hkeys hperm ((hadded.filter_others hkeys).filter_eq_iff.1 hfilter) hsort
  · intro hsets
    obtain ⟨p, hpass⟩ : ∃ p, compilePass t base r true = .ok p :=
      exists_compilePass hsets.fault_eq_none base
    have hadded := compilePass_added hpass
    refine ⟨_, buildPinned_eq_ok_iff.2 ⟨p, hpass, ?_, fun c hc => ?_, rfl⟩⟩
    · exact (hadded.filter_others hkeys).filter_eq_iff.2 hsets.otherLeaves_eq_nil
    · rw [hadded.sort hkeys] at hc
      exact (hsets.equal c (sortLeaf_spec hc).1).1

/-- **What is built of a base with a key is a lookup.** -/
theorem buildPinned_staysLookup (hkeys : t.sortKey ≠ some t.partitionKey) {key : Item}
    (hkey : base.key = some key) (h : buildPinned t base r = .ok q) :
    base.StaysLookup q key r.condition.leaves := by
  obtain ⟨p, hpass, hfilter, hsort, rfl⟩ := buildPinned_eq_ok_iff.1 h
  have hadded := compilePass_added hpass
  obtain ⟨uses, htells, -, -, hperm⟩ := compilePass_tells hpass
  obtain rfl := htells.eq_nil hfilter
  have hscalar : ∀ c, p.keys.sort = some c → c.value.asScalar?.isSome = true := fun c hc =>
    isSome_asScalar? (sort_compilePass hpass hc).1 (hsort c hc)
  have hover : Item.Over (p.query.key.getD .empty) .empty key := fun name => by
    rw [hadded.key, hkey]
    rfl
  exact ⟨rfl, rfl, hfilter, _, _, rfl, setKey_over (setKey_over hover _ _) _ _,
    (hadded.fixes hkeys hscalar).perm hperm⟩

/-- **A base keeps its mode.** A base with a key is built exactly if the condition only sets keys,
and then it is a lookup of its key with those attributes. A base with a key condition and without a
key stays a query, which filters by every leaf. -/
theorem build_keepsMode (hkeys : t.sortKey ≠ some t.partitionKey) (base : Query) (r : Request) :
    (∀ key, base.key = some key →
      ((∃ q, build t base r = .ok q) ↔ SetsKeys t r.condition) ∧
        ∀ q, build t base r = .ok q → base.StaysLookup q key r.condition.leaves) ∧
    ∀ keyCondition, base.key = none → base.keyCondition = some keyCondition →
      ∀ q, build t base r = .ok q → base.StaysQuery q keyCondition r.condition.leaves := by
  constructor
  · intro key hkey
    have hkind : base.kind = .getItem := by rw [kind_eq_getItem_iff, hkey]; rfl
    rw [build, hkind]
    exact ⟨exists_buildPinned_iff hkeys, fun q => buildPinned_staysLookup hkeys hkey⟩
  · intro keyCondition hkey hkeyCondition q h
    have hkind : base.kind = .query := by rw [Query.kind, hkey, hkeyCondition]; rfl
    rw [build, hkind] at h
    obtain ⟨p, hpass, rfl⟩ := map_eq_ok.1 h
    have hadded := compilePass_added hpass
    have hordered := sameParts_withOrder t p.query r
    have hkept := hordered.keyCondition.trans (hadded.keyCondition.trans hkeyCondition)
    refine ⟨?_, hkept, hadded.filter_all.sameParts hordered⟩
    rw [Query.kind, hordered.key, hadded.key, hkey, hkept]
    rfl

/-- The key of an item, and a filter. -/
def lookupBase : Query where
  tableName := "t"
  key := some (.ofList [("pk", .text "a"), ("sk", .number "1")])
  filter := some "#owner = :owner"

/-- The sort key among brackets, one of them without members. -/
def lookupRequest : Request where
  condition := .group .and [.group .or [], .group .and [.leaf ⟨.ofText "sk", .eq, .one (.int 9)⟩]]

/-- A partition of a table. -/
def queryBase : Query where
  tableName := "t"
  keyCondition := some "#pk = :pk"
  filter := some "#owner = :owner"
  names := .ofList [("#owner", "owner"), ("#pk", "pk")]
  values := .ofList [(":owner", .text "me"), (":pk", .text "a")]

/-- Leaves on both keys and on a property, under an OR. -/
def nestedRequest : Request where
  condition := .group .or [.leaf ⟨.ofText "sk", .eq, .one (.int 9)⟩,
    .group .and [.leaf ⟨.ofText "pk", .eq, .one (.text "b")⟩,
      .leaf ⟨.ofText "title", .contains, .one (.text "x")⟩]]

/-- A leaf makes a lookup where it stands under no OR, and is refused where it does. A query filters
by all leaves, behind the filter of its base. -/
theorem build_keepsMode_sorted :
    (∃ q, build sorted lookupBase lookupRequest = .ok q ∧ q.kind = .getItem ∧
      ∃ item : Item, q.key = some item ∧ item.find? "pk" = some (.text "a") ∧
        item.find? "sk" = some (.number "9")) ∧
    (¬ ∃ q, build sorted lookupBase { condition := .group .or [lookupRequest.condition] } = .ok q) ∧
    ∃ q, build sorted queryBase nestedRequest = .ok q ∧
      queryBase.StaysQuery q "#pk = :pk" nestedRequest.condition.leaves ∧
      q.filter = some ("(#owner = :owner) AND " ++
        "(#sk = :sk OR (#pk = :pk1 AND contains(#title, :title)))") ∧
      Item.encode q.values = .obj [(":owner", .obj [("S", .str "me")]),
        (":pk", .obj [("S", .str "a")]), (":pk1", .obj [("S", .str "b")]),
        (":sk", .obj [("N", .str "9")]), (":title", .obj [("S", .str "x")])] := by
  have hkeys : sorted.sortKey ≠ some sorted.partitionKey := by decide
  have hnine : Attribute.ofScalar (.int 9) = .number "9" := congrArg Attribute.number (by decide)
  refine ⟨?_, ?_, ?_⟩
  · obtain ⟨hbuilt, hstays⟩ := (build_keepsMode hkeys lookupBase lookupRequest).1 _ rfl
    obtain ⟨q, h⟩ := hbuilt.2 ⟨by decide, by decide, by decide, by decide, by decide⟩
    obtain ⟨hkind, -, -, item, set, hitem, hover, hfixes⟩ := hstays q h
    have hsort := (hfixes.entries "sk" (.number "9")).2
      ⟨_, .head _, .int 9, rfl, rfl, hnine.symm⟩
    have hpartition : set.find? "pk" = none := by
      refine Option.eq_none_iff_forall_ne_some.2 fun a ha => ?_
      obtain ⟨c, hc, value, hname, -⟩ := (hfixes.entries "pk" a).1 ha
      obtain rfl := List.mem_singleton.1 hc
      exact absurd hname (by decide)
    refine ⟨q, h, hkind, item, hitem, ?_, ?_⟩
    · rw [hover, hpartition]
      rfl
    · rw [hover, hsort]
      rfl
  · intro hbuilt
    have hsets := ((build_keepsMode hkeys lookupBase _).1 _ rfl).1.1 hbuilt
    exact absurd (hsets.topLevel _ (.head _)) (by decide)
  · obtain ⟨q, h, htexts⟩ := exists_of_toOption
      (f := fun q : Query => (q.filter, Item.encode q.values))
      (b := (some ("(#owner = :owner) AND " ++
        "(#sk = :sk OR (#pk = :pk1 AND contains(#title, :title)))"),
        .obj [(":owner", .obj [("S", .str "me")]), (":pk", .obj [("S", .str "a")]),
          (":pk1", .obj [("S", .str "b")]), (":sk", .obj [("N", .str "9")]),
          (":title", .obj [("S", .str "x")])]))
      (x := build sorted queryBase nestedRequest) (by decide +kernel)
    simp only [Prod.mk.injEq] at htexts
    exact ⟨q, h, (build_keepsMode hkeys queryBase nestedRequest).2 _ rfl rfl q h, htexts⟩

end KeyValue

end StoreQuery
