import StoreQuery.Proofs.Condition.Compiling
import StoreQuery.Proofs.KeyValue.Walk

/-!
# Calls do not depend on values

Two requests that differ in nothing but the values in their conditions become reads that differ in
nothing but what their value tokens, and their keys, stand for (`build_showsLike`). So whatever text
a client puts into a value, no expression is another one for it.

A leaf looks at its value for three things: whether the operator accepts it, how many values there
are, and what to bind. Which token is free depends on the names in use and not on what stands under
them (`valueToken_congr`). So steps on similar values, from queries that differ in what their value
tokens stand for, give one expression and end in queries of that kind again.
-/

namespace StoreQuery

/-- Two operands are single values, or lists of one length. -/
inductive Operand.Similar : Operand → Operand → Prop
  | one (value value' : Scalar) : Similar (.one value) (.one value')
  | many {values values' : List Scalar} (h : values.length = values'.length) :
    Similar (.many values) (.many values')

/-- Two comparisons differ in their values, which are similar. -/
inductive Comparison.Alike : Comparison → Comparison → Prop
  | intro (path : Path) (op : Operator) {value value' : Operand} (h : value.Similar value') :
    Alike ⟨path, op, value⟩ ⟨path, op, value'⟩

namespace KeyValue

open Compiler (Agree)

/-- Two queries differ in what their value tokens stand for. -/
structure Query.Alike (q q' : Query) : Prop where
  keys : q.values.keys = q'.values.keys
  rest : q' = { q with values := q'.values }

variable {q q' : Query} {path : Path} {value value' : Operand}

/-! ## Tokens -/

namespace Query

theorem Alike.refl (q : Query) : q.Alike q := ⟨rfl, rfl⟩

theorem Alike.bind (h : q.Alike q') (name : String) (a a' : Attribute) :
    (q.bind name a).Alike (q'.bind name a') := by
  obtain ⟨hkeys, hrest⟩ := h
  refine ⟨Dict.keys_insert_congr hkeys name a a', ?_⟩
  rw [Query.bind, hrest]
  rfl

/-- Which tokens are taken depends on the names in use alone. -/
theorem tokenTaken_congr (h : q.Alike q') (binding : Binding) (token : String) :
    q.tokenTaken binding token = q'.tokenTaken binding token := by
  have hcontains : q.values.contains = q'.values.contains :=
    funext fun key => Dict.contains_congr h.keys key
  rw [tokenTaken, hcontains]
  rfl

theorem valueToken_congr (h : q.Alike q') (path : Path) (binding : Binding) :
    q.valueToken path binding = q'.valueToken path binding := by
  have htaken : q.tokenTaken binding = q'.tokenTaken binding :=
    funext fun token => tokenTaken_congr h binding token
  rw [valueToken, htaken, Dict.size_congr h.keys]
  rfl

end Query

theorem nameOf_agree (path : Path) : Agree Query.Alike (nameOf path) (nameOf path) := by
  refine .ofFun fun q q' h => ?_
  obtain ⟨hkeys, hrest⟩ := h
  rw [hrest]
  exact ⟨rfl, hkeys, rfl⟩

theorem valueOf_agree (path : Path) (a a' : Scalar) :
    Agree Query.Alike (valueOf path a) (valueOf path a') := by
  refine .ofFun fun q q' h => ?_
  have htoken := Query.valueToken_congr h path .single
  rw [Query.registerValue, Query.registerValue, ← htoken]
  exact ⟨rfl, h.bind _ _ _⟩

theorem bindValue_agree (name : String) (a a' : Scalar) :
    Agree Query.Alike (bindValue name a) (bindValue name a') := by
  show Agree Query.Alike (modifyGet fun q => ((), q.bind name (.ofScalar a)))
    (modifyGet fun q => ((), q.bind name (.ofScalar a')))
  exact .ofFun fun q q' h => ⟨rfl, h.bind _ _ _⟩

theorem nullValue_agree : Agree Query.Alike nullValue nullValue := by
  show Agree Query.Alike (modifyGet fun q => (Query.nullToken, q.bindNull))
    (modifyGet fun q => (Query.nullToken, q.bindNull))
  refine .ofFun fun q q' h => ⟨rfl, ?_⟩
  show q.bindNull.Alike q'.bindNull
  rw [Query.bindNull, Query.bindNull, ← Dict.contains_congr h.keys]
  split
  · exact h
  · exact h.bind _ _ _

/-! ## Leaves -/

section Operands

variable {α : Type} {op : Operator}

/-- What comes next may depend on a single value. -/
theorem single_agree {f f' : Scalar → Step α} (h : value.Similar value')
    (hnext : ∀ a a', Agree Query.Alike (f a) (f' a')) :
    Agree Query.Alike (single ⟨path, op, value⟩ >>= f) (single ⟨path, op, value'⟩ >>= f') := by
  cases h with
  | one a a' => exact hnext a a'
  | many _ => exact .fails _

/-- What comes next may depend on several values. -/
theorem many_agree {f f' : List Scalar → Step α} (h : value.Similar value')
    (hnext : ∀ as as', as.length = as'.length → Agree Query.Alike (f as) (f' as')) :
    Agree Query.Alike (many ⟨path, op, value⟩ >>= f) (many ⟨path, op, value'⟩ >>= f') := by
  cases h with
  | one _ _ => exact .fails _
  | @many as as' hlength => exact hnext as as' hlength

end Operands

theorem compareExpression_agree (name symbol : String) (op : Operator)
    (h : value.Similar value') : Agree Query.Alike (compareExpression name symbol ⟨path, op, value⟩)
      (compareExpression name symbol ⟨path, op, value'⟩) := by
  rw [compareExpression, compareExpression]
  refine single_agree h fun a a' => ?_
  exact (valueOf_agree path a a').bind fun token => .pure _

theorem callExpression_agree (function name : String) (op : Operator)
    (h : value.Similar value') : Agree Query.Alike (callExpression function name ⟨path, op, value⟩)
      (callExpression function name ⟨path, op, value'⟩) := by
  rw [callExpression, callExpression]
  refine single_agree h fun a a' => ?_
  exact (valueOf_agree path a a').bind fun token => .pure _

theorem betweenExpression_agree (name token : String) (op : Operator)
    (h : value.Similar value') : Agree Query.Alike (betweenExpression name token ⟨path, op, value⟩)
      (betweenExpression name token ⟨path, op, value'⟩) := by
  rw [betweenExpression, betweenExpression]
  refine many_agree h fun as as' hlength => ?_
  obtain _ | ⟨low, _ | ⟨high, _ | ⟨_, _⟩⟩⟩ := as
  · obtain rfl := List.length_eq_zero_iff.1 hlength.symm
    exact .fails _
  · obtain ⟨_, rfl⟩ := List.length_eq_one_iff.1 hlength.symm
    exact .fails _
  · obtain ⟨low', high', rfl⟩ := List.length_eq_two.1 hlength.symm
    refine (bindValue_agree _ low low').bind fun _ => ?_
    exact (bindValue_agree _ high high').bind fun _ => .pure _
  · obtain ⟨_, as', rfl⟩ := List.exists_cons_of_length_eq_add_one hlength.symm
    obtain ⟨_, as', rfl⟩ := List.exists_cons_of_length_eq_add_one (Nat.succ.inj hlength.symm)
    obtain ⟨_, as', rfl⟩ :=
      List.exists_cons_of_length_eq_add_one (Nat.succ.inj (Nat.succ.inj hlength.symm))
    exact .fails _

theorem bindItems_agree (token : String) : ∀ (index : Nat) (as as' : List Scalar),
    as.length = as'.length →
      Agree Query.Alike (bindItems token index as) (bindItems token index as')
  | _, [], [], _ => .pure []
  | index, a :: as, a' :: as', h =>
    (bindValue_agree _ a a').bind fun _ =>
      (bindItems_agree token (index + 1) as as' (Nat.succ.inj h)).bind fun _ => .pure _

theorem inExpression_agree (name : String) (op : Operator) (h : value.Similar value') :
    Agree Query.Alike (inExpression name ⟨path, op, value⟩)
      (inExpression name ⟨path, op, value'⟩) := by
  rw [inExpression, inExpression]
  refine many_agree h fun as as' hlength => .get_bind fun q q' hq => ?_
  have htoken := Query.valueToken_congr hq path (.list as.length)
  rw [← hlength]
  show Agree Query.Alike (bindItems (q.valueToken path (.list as.length)) 0 as >>= _)
    (bindItems (q'.valueToken path (.list as.length)) 0 as' >>= _)
  rw [← htoken]
  exact (bindItems_agree _ 0 as as' hlength).bind fun _ => .pure _

/-- **Leaves with similar values have one expression.** -/
theorem leafExpression_agree {c c' : Comparison} (h : c.Alike c') :
    Agree Query.Alike (leafExpression c) (leafExpression c') := by
  obtain ⟨path, op, hvalue⟩ := h
  rw [leafExpression, leafExpression]
  refine (nameOf_agree path).bind fun name => ?_
  cases op with
  | eq | neq | lt | lte | gt | gte => exact compareExpression_agree name _ _ hvalue
  | starts | contains => exact callExpression_agree _ name _ hvalue
  | notContains => exact (callExpression_agree _ name _ hvalue).bind fun _ => .pure _
  | between =>
    refine .get_bind fun q q' hq => ?_
    rw [← Query.valueToken_congr hq path .range]
    exact betweenExpression_agree name _ _ hvalue
  | isIn => exact inExpression_agree name _ hvalue
  | notIn => exact (inExpression_agree name _ hvalue).bind fun _ => .pure _
  | isNull | notNull => exact nullValue_agree.bind fun _ => .pure _
  | ends | eqLower | neqLower | startsLower | endsLower | containsLower | notContainsLower
  | inLower | notInLower => exact .fails _

theorem sortCondition_agree {c c' : Comparison} (h : c.Alike c') :
    Agree Query.Alike (sortCondition c) (sortCondition c') := by
  intro q q' t t' text text' hq run run'
  exact leafExpression_agree h hq (leafExpression_of_sortCondition run)
    (leafExpression_of_sortCondition run')

/-! ## Key parts -/

/-- Key parts of the same kinds, with similar values. -/
structure Keys.Alike (keys keys' : Keys) : Prop where
  partition : keys.partition.isSome = keys'.partition.isSome
  sort : Option.Rel Comparison.Alike keys.sort keys'.sort

theorem Operand.Similar.isSome_asScalar? (h : value.Similar value') :
    value.asScalar?.isSome = value'.asScalar?.isSome := by
  cases h <;> rfl

theorem isNone_of_rel {α β : Type} {related : α → β → Prop} {a : Option α} {b : Option β}
    (h : Option.Rel related a b) : a.isNone = b.isNone := by
  cases h <;> rfl

/-- A leaf is taken as a key part whatever its value is. -/
theorem takeKey?_alike (t : Table) {keys keys' : Keys} {c c' : Comparison}
    (hkeys : keys.Alike keys') (h : c.Alike c') :
    Option.Rel Keys.Alike (takeKey? t keys c) (takeKey? t keys' c') := by
  obtain ⟨path, op, hvalue⟩ := h
  have hscalar := Operand.Similar.isSome_asScalar? hvalue
  have hpartition : keys.partition = none ↔ keys'.partition = none := by
    rw [← Option.isNone_iff_eq_none, ← Option.isNone_iff_eq_none, ← Option.not_isSome,
      ← Option.not_isSome, hkeys.partition]
  have hsort : keys.sort.isNone = keys'.sort.isNone := isNone_of_rel hkeys.sort
  simp only [takeKey?, ← hpartition, ← hsort, ← hscalar]
  split
  · exact .some ⟨hscalar, hkeys.sort⟩
  · split
    · exact .some ⟨hkeys.partition, .some (.intro path op hvalue)⟩
    · exact .none

theorem keyCondition_agree (t : Table) (partition partition' : Scalar) {keys keys' : Keys}
    (h : keys.Alike keys') : Agree Query.Alike (keyCondition t partition keys)
      (keyCondition t partition' keys') := by
  rw [keyCondition, keyCondition]
  refine (nameOf_agree t.partitionPath).bind fun name => ?_
  refine (valueOf_agree t.partitionPath partition partition').bind fun token => ?_
  obtain ⟨_, sort⟩ := keys
  obtain ⟨_, sort'⟩ := keys'
  have hsort : Option.Rel Comparison.Alike sort sort' := h.sort
  cases hsort with
  | none => exact .pure _
  | some hsort => exact (sortCondition_agree hsort).bind fun _ => .pure _

/-! ## Conditions -/

/-- What two compilations have gathered. -/
structure Progress.Alike (p p' : Progress) : Prop where
  query : p.query.Alike p'.query
  keys : p.keys.Alike p'.keys

/-- Leaves with similar values are compiled alike. -/
theorem compiler_uniform (t : Table) (taking : Bool) :
    (compiler t taking).Uniform Operand.Similar Progress.Alike where
  leaf {value value'} path op scope hvalue := by
    intro p p' s s' text text' hp run run'
    have halike : Comparison.Alike ⟨path, op, value⟩ ⟨path, op, value'⟩ := .intro path op hvalue
    have htaken : Option.Rel Keys.Alike
        (if taking && scope.topLevelAnd then takeKey? t p.keys ⟨path, op, value⟩ else none)
        (if taking && scope.topLevelAnd then takeKey? t p'.keys ⟨path, op, value'⟩ else none) := by
      split
      · exact takeKey?_alike t hp.keys halike
      · exact .none
    obtain ⟨-, ⟨keys, htake, rfl, rfl⟩ | ⟨hstays, expression, q, hleaf, rfl, rfl⟩⟩ :=
      compileLeaf_cases run
    · obtain ⟨-, ⟨keys', htake', rfl, rfl⟩ | ⟨hstays', -⟩⟩ := compileLeaf_cases run'
      · rw [htake, htake'] at htaken
        cases htaken with
        | some hkeys => exact ⟨rfl, hp.query, hkeys⟩
      · rw [htake, hstays'] at htaken
        cases htaken
    · obtain ⟨-, ⟨keys', htake', -⟩ | ⟨-, expression', q', hleaf', rfl, rfl⟩⟩ :=
        compileLeaf_cases run'
      · rw [hstays, htake'] at htaken
        cases htaken
      · obtain ⟨rfl, hq⟩ := leafExpression_agree halike hp.query hleaf hleaf'
        exact ⟨rfl, hq, hp.keys⟩
  join k texts scope hp := ⟨rfl, hp⟩

/-! ## Requests -/

variable {t : Table} {base : Query} {r r' : Request}

namespace Query.Alike

theorem addFilter (h : q.Alike q') (expression : String) :
    (q.addFilter expression).Alike (q'.addFilter expression) := by
  obtain ⟨hkeys, hrest⟩ := h
  have hfilter : q'.filter = q.filter := by rw [hrest]
  rw [Query.addFilter, Query.addFilter, hfilter]
  split
  · exact ⟨hkeys, by rw [hrest]⟩
  · exact ⟨hkeys, by rw [hrest]⟩

theorem withLimit (h : q.Alike q') (limit : Option UInt64) :
    (withLimit q limit).Alike (withLimit q' limit) := by
  cases limit with
  | none => exact h
  | some limit =>
    obtain ⟨hkeys, hrest⟩ := h
    rw [KeyValue.withLimit, KeyValue.withLimit]
    split
    · exact ⟨hkeys, by rw [hrest]⟩
    · exact ⟨hkeys, hrest⟩

theorem withOrder (h : q.Alike q') (t : Table) (r : Request) :
    (withOrder t q r).Alike (withOrder t q' r) := by
  obtain ⟨hkeys, hrest⟩ := h
  rw [KeyValue.withOrder, KeyValue.withOrder]
  split
  · exact ⟨hkeys, by rw [hrest]⟩
  · exact ⟨hkeys, hrest⟩

end Query.Alike

/-- Passes on requests that differ in their values gather alike. -/
theorem compilePass_alike {taking : Bool} {p p' : Progress} (h : r.Alike Operand.Similar r')
    (run : compilePass t base r taking = .ok p) (run' : compilePass t base r' taking = .ok p') :
    p.Alike p' := by
  obtain ⟨halike, hrest⟩ := h
  obtain ⟨text, progress, hrun, rfl⟩ := compilePass_cases run
  obtain ⟨text', progress', hrun', rfl⟩ := compilePass_cases run'
  have hselect : r'.select = r.select := by rw [hrest]
  have hlimit : r'.limit = r.limit := by rw [hrest]
  rw [hselect] at hrun'
  rw [hlimit]
  have hstart : Progress.Alike { query := withProjection (withTable t base) r.select }
      { query := withProjection (withTable t base) r.select } := ⟨.refl _, rfl, .none⟩
  obtain ⟨rfl, hprogress⟩ := (compiler_uniform t taking).compileAt .root halike hstart hrun hrun'
  refine ⟨?_, hprogress.keys⟩
  cases text with
  | none => exact hprogress.query.withLimit r.limit
  | some expression => exact (hprogress.query.addFilter expression).withLimit r.limit

/-- Two queries show the same: they are calls of one kind, with the same expressions, the same names
and the same value tokens. -/
structure Query.ShowsLike (q q' : Query) : Prop where
  kind : q.kind = q'.kind
  keyCondition : q.keyCondition = q'.keyCondition
  filter : q.filter = q'.filter
  projection : q.projection = q'.projection
  names : q.names = q'.names
  values : q.values.keys = q'.values.keys

theorem Query.Alike.showsLike (h : q.Alike q') : q.ShowsLike q' := by
  obtain ⟨hkeys, hrest⟩ := h
  rw [hrest]
  exact ⟨rfl, rfl, rfl, rfl, rfl, hkeys⟩

/-- Keys are not shown. -/
theorem Query.Alike.showsLike_lookup (h : q.Alike q') (key key' : Item) :
    Query.ShowsLike { q with key := some key, limit := none }
      { q' with key := some key', limit := none } := by
  obtain ⟨hkeys, hrest⟩ := h
  rw [hrest]
  exact ⟨rfl, rfl, rfl, rfl, rfl, hkeys⟩

/-- What a lookup base becomes after its pass, which may not have changed the filter. -/
theorem buildPinned_cases (h : buildPinned t base r = .ok q) :
    ∃ p key, compilePass t base r true = .ok p ∧ p.query.filter = base.filter ∧
      q = { p.query with key := some key, limit := none } := by
  obtain ⟨p, hpass, h⟩ := bind_eq_ok.1 h
  dsimp only at h
  split at h
  · cases h
  · rename_i hfilter
    cases h
    exact ⟨p, _, hpass, not_not.1 (not_or.1 hfilter).1, rfl⟩

theorem namesOneItem_congr {keys keys' : Keys} (h : keys.Alike keys') :
    namesOneItem t keys = namesOneItem t keys' := by
  obtain ⟨_, sort⟩ := keys
  obtain ⟨_, sort'⟩ := keys'
  have hsort : Option.Rel Comparison.Alike sort sort' := h.sort
  cases hsort with
  | none => rfl
  | some hsort =>
    obtain ⟨path, op, -⟩ := hsort
    rw [namesOneItem, namesOneItem]
    cases t.sortPath <;> rfl

/-- With the key conditions of alike passes, alike requests become queries that show the same. -/
theorem showsLike_keyed {p p' : Progress} {value value' : Scalar} {condition condition' : String}
    {q₁ q₁' : Query} (h : r.Alike Operand.Similar r') (halike : p.Alike p')
    (hrun : (keyCondition t value p.keys).run p.query = .ok condition q₁)
    (hrun' : (keyCondition t value' p'.keys).run p'.query = .ok condition' q₁') :
    Query.ShowsLike (withOrder t { q₁ with keyCondition := some condition } r)
      (withOrder t { q₁' with keyCondition := some condition' } r') := by
  obtain ⟨rfl, hkeys, hrest⟩ :=
    keyCondition_agree t value value' halike.keys halike.query hrun hrun'
  have horder : withOrder t { q₁' with keyCondition := some condition } r' =
      withOrder t { q₁' with keyCondition := some condition } r := by rw [h.rest]; rfl
  have hkeyed : Query.Alike { q₁ with keyCondition := some condition }
      { q₁' with keyCondition := some condition } := ⟨hkeys, by rw [hrest]⟩
  rw [horder]
  exact (hkeyed.withOrder t r).showsLike

/-- Bases without keys become calls that show the same. -/
theorem buildFree_showsLike (h : r.Alike Operand.Similar r') (hbuild : buildFree t base r = .ok q)
    (hbuild' : buildFree t base r' = .ok q') : q.ShowsLike q' := by
  obtain ⟨p, hpass, hbuild⟩ := bind_eq_ok.1 hbuild
  obtain ⟨p', hpass', hbuild'⟩ := bind_eq_ok.1 hbuild'
  have halike := compilePass_alike h hpass hpass'
  -- Both passes take a partition key, or neither does, so the branches are the same.
  have hpartition := halike.keys.partition
  cases hvalue : p.keys.partition with
  | none =>
    rw [hvalue] at hpartition
    have hvalue' : p'.keys.partition = none :=
      Option.not_isSome_iff_eq_none.1 (by simp [← hpartition])
    simp only [hvalue] at hbuild
    simp only [hvalue', ← isNone_of_rel halike.keys.sort] at hbuild'
    by_cases hsort : p.keys.sort.isNone = true
    · rw [if_pos hsort] at hbuild hbuild'
      cases hbuild
      cases hbuild'
      exact halike.query.showsLike
    · rw [if_neg hsort] at hbuild hbuild'
      obtain ⟨whole, hwhole, hbuild⟩ := bind_eq_ok.1 hbuild
      obtain ⟨whole', hwhole', hbuild'⟩ := bind_eq_ok.1 hbuild'
      cases hbuild
      cases hbuild'
      exact (compilePass_alike h hwhole hwhole').query.showsLike
  | some value =>
    rw [hvalue] at hpartition
    obtain ⟨value', hvalue'⟩ := Option.isSome_iff_exists.1 hpartition.symm
    have hsame : (namesOneItem t p'.keys && p'.query.filter.isNone) =
        (namesOneItem t p.keys && p.query.filter.isNone) := by
      rw [namesOneItem_congr halike.keys, halike.query.rest]
    simp only [hvalue] at hbuild
    simp only [hvalue', hsame] at hbuild'
    by_cases hitem : (namesOneItem t p.keys && p.query.filter.isNone) = true
    · rw [if_pos hitem] at hbuild hbuild'
      cases hbuild
      cases hbuild'
      exact halike.query.showsLike_lookup _ _
    · rw [if_neg hitem] at hbuild hbuild'
      cases hrun : (keyCondition t value p.keys).run p.query with
      | error e q₁ => simp only [hrun] at hbuild; cases hbuild
      | ok condition q₁ =>
        cases hrun' : (keyCondition t value' p'.keys).run p'.query with
        | error e q₁' => simp only [hrun'] at hbuild'; cases hbuild'
        | ok condition' q₁' =>
          simp only [hrun] at hbuild
          simp only [hrun'] at hbuild'
          cases hbuild
          cases hbuild'
          exact showsLike_keyed h halike hrun hrun'

/-- **Requests that differ in their values become calls that show the same.** -/
theorem build_showsLike (h : r.Alike Operand.Similar r') (hbuild : build t base r = .ok q)
    (hbuild' : build t base r' = .ok q') : q.ShowsLike q' := by
  rw [build] at hbuild hbuild'
  cases hkind : base.kind with
  | getItem =>
    rw [hkind] at hbuild hbuild'
    obtain ⟨p, key, hpass, -, rfl⟩ := buildPinned_cases hbuild
    obtain ⟨p', key', hpass', -, rfl⟩ := buildPinned_cases hbuild'
    exact (compilePass_alike h hpass hpass').query.showsLike_lookup key key'
  | query =>
    rw [hkind] at hbuild hbuild'
    obtain ⟨p, hpass, rfl⟩ := map_eq_ok.1 hbuild
    obtain ⟨p', hpass', rfl⟩ := map_eq_ok.1 hbuild'
    have horder : withOrder t p'.query r' = withOrder t p'.query r := by rw [h.rest]; rfl
    rw [horder]
    exact ((compilePass_alike h hpass hpass').query.withOrder t r).showsLike
  | scan =>
    rw [hkind] at hbuild hbuild'
    exact buildFree_showsLike h hbuild hbuild'

end KeyValue

end StoreQuery
