import StoreQuery.Proofs.Condition.Compiling
import StoreQuery.Proofs.KeyValue.Uses
import StoreQuery.Proofs.KeyValue.Walk

/-!
# Writing leaves

Expressions are written leaf by leaf. `Query.Writes` says of a query before and after what has
become of the leaves between: each has taken free names for its values, and a token that stands
for its property.

**A leaf is written with tokens of its own** (`leafExpression_writes`). The choice of the token is
looked at here and nowhere else: what follows needs only that the names below it are free.
**Compiling a condition writes the leaves that it does not take as key parts**
(`compiler_written`), and a key condition writes those (`keyCondition_writes`), so every leaf is
accounted for once.
-/

namespace StoreQuery.KeyValue

open Query

variable {uses uses' : List Use}

/-! ## Leaves are written -/

/-- Leaves have been written one after the other: their tokens stand for their properties, and they
have taken names for their values. -/
structure Query.Writes (q : Query) (uses : List Use) (q' : Query) : Prop extends
    Query.Extends q q' where
  allotted : Allotted q.values uses q'.values
  own : ∀ use ∈ uses, use.IsOwn
  named : ∀ use ∈ uses, q'.Names use.name use.comparison.path.toText

namespace Query.Writes

variable {q q' q'' : Query}

theorem nil (q : Query) : q.Writes [] q :=
  ⟨.refl q, .nil _, List.forall_mem_nil _, List.forall_mem_nil _⟩

theorem append (h : q.Writes uses q') (h' : q'.Writes uses' q'') :
    q.Writes (uses ++ uses') q'' := by
  refine ⟨h.toExtends.trans h'.toExtends, h.allotted.append h'.allotted,
    List.forall_mem_append.2 ⟨h.own, h'.own⟩, List.forall_mem_append.2 ⟨?_, h'.named⟩⟩
  exact fun use huse => h'.names _ _ (h.named use huse)

end Query.Writes

/-! ### Operands -/

/-- Binds scalars under names. -/
def Query.bindAll (q : Query) (names : List String) (scalars : List Scalar) : Query :=
  { q with values := q.values.insertAll (names.zip (scalars.map .ofScalar)) }

section Operands

variable {q q' : Query} {c : Comparison} {text : String}

theorem bindAll_single (q : Query) (token : String) (scalar : Scalar) :
    q.bindAll (Binding.single.names token) [scalar] = q.bind token (.ofScalar scalar) :=
  rfl

theorem bindAll_cons (q : Query) (name : String) (names : List String) (scalar : Scalar)
    (scalars : List Scalar) : q.bindAll (name :: names) (scalar :: scalars) =
      (q.bind name (.ofScalar scalar)).bindAll names scalars :=
  rfl

theorem bindAll_range (q : Query) (token : String) (low high : Scalar) :
    q.bindAll (Binding.range.names token) [low, high] =
      (q.bind (Binding.startOf token) (.ofScalar low)).bind (Binding.endOf token)
        (.ofScalar high) := by
  rw [Binding.names, bindAll_cons, bindAll_cons]
  rfl

theorem nameOf_run {path : Path} {name : String} (run : nameOf path q = .ok name q') :
    name = q.nameToken path ∧ q' = (q.registerName path).2 := by
  cases run
  exact ⟨rfl, rfl⟩

theorem valueText_run {write : String → String}
    (run : (do
      let scalar ← single c
      let token ← valueOf c.path scalar
      pure (write token) : Step String) q = .ok text q') :
    ∃ scalar token, c.value = .one scalar ∧ token = q.valueToken c.path .single ∧
      text = write token ∧ q' = q.bindAll (Binding.single.names token) [scalar] := by
  obtain ⟨scalar, q₁, hsingle, hrest⟩ := run_bind_eq_ok.1 run
  obtain ⟨-, rfl, hvalue⟩ := single_yields _ _ hsingle
  obtain ⟨token, q₂, htoken, htext⟩ := run_bind_eq_ok.1 hrest
  cases htoken
  cases htext
  exact ⟨scalar, _, hvalue, rfl, rfl, (bindAll_single _ _ scalar).symm⟩

theorem compareExpression_run {name symbol : String}
    (run : compareExpression name symbol c q = .ok text q') :
    ∃ scalar token, c.value = .one scalar ∧ token = q.valueToken c.path .single ∧
      text = name ++ " " ++ symbol ++ " " ++ token ∧
      q' = q.bindAll (Binding.single.names token) [scalar] :=
  valueText_run run

theorem callExpression_run {function name : String}
    (run : callExpression function name c q = .ok text q') :
    ∃ scalar token, c.value = .one scalar ∧ token = q.valueToken c.path .single ∧
      text = function ++ "(" ++ name ++ ", " ++ token ++ ")" ∧
      q' = q.bindAll (Binding.single.names token) [scalar] :=
  valueText_run run

theorem betweenExpression_run {name token : String}
    (run : betweenExpression name token c q = .ok text q') :
    ∃ low high, c.value = .many [low, high] ∧
      text = name ++ " BETWEEN " ++ Binding.startOf token ++ " AND " ++ Binding.endOf token ∧
      q' = q.bindAll (Binding.range.names token) [low, high] := by
  obtain ⟨scalars, q₁, hmany, hrest⟩ := run_bind_eq_ok.1 run
  obtain ⟨-, rfl, hvalue⟩ := many_yields _ _ hmany
  match scalars with
  | [low, high] =>
    cases hrest
    exact ⟨low, high, hvalue, rfl, (bindAll_range _ token low high).symm⟩
  | [] | [_] | _ :: _ :: _ :: _ => cases hrest

theorem bindItems_run (token : String) : ∀ (index : Nat) (scalars : List Scalar) (q : Query),
    bindItems token index scalars q =
      .ok ((List.range' index scalars.length).map (Binding.itemOf token))
        (q.bindAll ((List.range' index scalars.length).map (Binding.itemOf token)) scalars)
  | _, [], _ => rfl
  | index, scalar :: rest, q => by
    have hrest := bindItems_run token (index + 1) rest
      (q.bind (Binding.itemOf token index) (.ofScalar scalar))
    rw [← bindAll_cons] at hrest
    refine run_bind_eq_ok.2 ⟨_, _, rfl, ?_⟩
    exact run_bind_eq_ok.2 ⟨_, _, hrest, rfl⟩

theorem inExpression_run {name : String} (run : inExpression name c q = .ok text q') :
    ∃ scalars token, c.value = .many scalars ∧
      token = q.valueToken c.path (.list scalars.length) ∧
      text = name ++ " IN (" ++ Text.join ", " ((Binding.list scalars.length).names token) ++ ")" ∧
      q' = q.bindAll ((Binding.list scalars.length).names token) scalars := by
  obtain ⟨scalars, q₁, hmany, hrest⟩ := run_bind_eq_ok.1 run
  obtain ⟨-, rfl, hvalue⟩ := many_yields _ _ hmany
  obtain ⟨_, _, hget, hrest⟩ := run_bind_eq_ok.1 hrest
  cases hget
  obtain ⟨items, q₂, hitems, htext⟩ := run_bind_eq_ok.1 hrest
  rw [bindItems_run, ← List.range_eq_range'] at hitems
  cases hitems
  cases htext
  exact ⟨scalars, _, hvalue, rfl, rfl, rfl⟩

end Operands

/-! ### Leaves -/

section Leaves

variable {q q₁ q' : Query} {c : Comparison} {name text : String}

/-- The token that is chosen for values has free names for all of them. -/
theorem allots_valueToken (c : Comparison) (name : String) {token : String} {binding : Binding}
    (htoken : token = q.valueToken c.path binding)
    (hbinding : bindingOf? c.operator c.value.scalars.length = some binding)
    (hcount : binding.count = c.value.scalars.length) :
    Use.Allots ⟨c, name, token⟩ q.values
      (q.bindAll (binding.names token) c.value.scalars).values := by
  obtain ⟨hne, hfree⟩ := free_of_not_taken (tokenTaken_valueToken q c.path binding)
  rw [← htoken] at hne hfree
  have hnames : Use.names ⟨c, name, token⟩ = binding.names token := by
    unfold Use.names Use.binding?
    rw [hbinding]
  rw [← length_names binding token] at hcount
  rw [← hnames] at hfree hcount ⊢
  refine .values hbinding (fun other hother => ⟨?_, ?_⟩) hcount
  · rw [hnames] at hother
    rcases eq_or_derived_of_mem_names hother with rfl | hderived
    · exact hne
    · exact hderived.ne_null
  · rw [← Dict.contains_iff_mem_keys, hfree other hother]
    exact Bool.false_ne_true

/-- The literal for null is bound, if it is not bound yet. -/
theorem allots_bindNull (use : Use) (hbinding : use.binding? = none) (q : Query) :
    use.Allots q.values q.bindNull.values := by
  unfold bindNull
  split
  · rename_i hbound
    exact .again hbinding (Dict.contains_iff_mem_keys.1 hbound)
  · rename_i hfree
    exact .null hbinding (mt Dict.contains_iff_mem_keys.2 hfree)

theorem writes_of_allots {use : Use} (run : leafExpression use.comparison q = .ok text q')
    (hname : use.name = q.nameToken use.comparison.path)
    (htoken : ∃ n, use.token = Text.numbered (":" ++ sanitize use.comparison.path) n)
    (hnames : q'.names = (q.registerName use.comparison.path).2.names)
    (hallots : use.Allots q.values q'.values) : q.Writes [use] q' := by
  have hnamed := (registerName_extends q use.comparison.path).2
  refine ⟨(leafExpression_yields _ _ _ _ run).1, .one hallots, ?_, ?_⟩
  · exact List.forall_mem_singleton.2 ⟨⟨_, hname⟩, htoken⟩
  · refine List.forall_mem_singleton.2 ?_
    rw [Query.Names, hnames, hname]
    exact hnamed

theorem writes_of_values {token : String} {binding : Binding}
    (run : leafExpression c q = .ok text q') (hname : nameOf c.path q = .ok name q₁)
    (htoken : token = q₁.valueToken c.path binding)
    (hbinding : bindingOf? c.operator c.value.scalars.length = some binding)
    (hcount : binding.count = c.value.scalars.length)
    (hnext : q' = q₁.bindAll (binding.names token) c.value.scalars) :
    q.Writes [⟨c, name, token⟩] q' := by
  have hallots := allots_valueToken c name htoken hbinding hcount
  rw [← hnext] at hallots
  obtain ⟨rfl, rfl⟩ := nameOf_run hname
  exact writes_of_allots run rfl ⟨_, htoken⟩ (by rw [hnext]; rfl) hallots

theorem writes_of_null (run : leafExpression c q = .ok text q')
    (hname : nameOf c.path q = .ok name q₁)
    (hbinding : bindingOf? c.operator c.value.scalars.length = none)
    (hnext : q' = q₁.bindNull) :
    q.Writes [⟨c, name, Text.numbered (":" ++ sanitize c.path) 0⟩] q' := by
  have hallots := allots_bindNull ⟨c, name, Text.numbered (":" ++ sanitize c.path) 0⟩ hbinding q₁
  rw [← hnext] at hallots
  obtain ⟨rfl, rfl⟩ := nameOf_run hname
  refine writes_of_allots run rfl ⟨0, rfl⟩ ?_ hallots
  rw [hnext, bindNull]
  split <;> rfl

/-- **A leaf writes its expression with names that are its own.** -/
theorem leafExpression_writes (run : leafExpression c q = .ok text q') :
    ∃ use : Use, q.Writes [use] q' ∧ use.comparison = c ∧ use.text = text := by
  obtain ⟨path, op, value⟩ := c
  obtain ⟨name, q₁, hname, hrest⟩ := run_bind_eq_ok.1 run
  cases op with
  | eq | neq | lt | lte | gt | gte =>
    obtain ⟨scalar, token, rfl, htoken, rfl, hnext⟩ := compareExpression_run hrest
    exact ⟨_, writes_of_values run hname htoken rfl rfl hnext, rfl, rfl⟩
  | starts | contains =>
    obtain ⟨scalar, token, rfl, htoken, rfl, hnext⟩ := callExpression_run hrest
    exact ⟨_, writes_of_values run hname htoken rfl rfl hnext, rfl, rfl⟩
  | notContains =>
    obtain ⟨call, q₂, hcall, htext⟩ := run_bind_eq_ok.1 hrest
    obtain ⟨scalar, token, rfl, htoken, rfl, hnext⟩ := callExpression_run hcall
    cases htext
    exact ⟨_, writes_of_values run hname htoken rfl rfl hnext, rfl, rfl⟩
  | between =>
    obtain ⟨_, _, hget, hrest⟩ := run_bind_eq_ok.1 hrest
    cases hget
    -- The bounds are bound under names made from one token.
    obtain ⟨token, htoken⟩ : ∃ token, token = q₁.valueToken path .range := ⟨_, rfl⟩
    rw [← htoken] at hrest
    obtain ⟨low, high, rfl, rfl, hnext⟩ := betweenExpression_run hrest
    exact ⟨_, writes_of_values run hname htoken rfl rfl hnext, rfl, rfl⟩
  | isIn =>
    obtain ⟨scalars, token, rfl, htoken, rfl, hnext⟩ := inExpression_run hrest
    exact ⟨_, writes_of_values run hname htoken rfl rfl hnext, rfl, rfl⟩
  | notIn =>
    obtain ⟨membership, q₂, hmembership, htext⟩ := run_bind_eq_ok.1 hrest
    obtain ⟨scalars, token, rfl, htoken, rfl, hnext⟩ := inExpression_run hmembership
    cases htext
    exact ⟨_, writes_of_values run hname htoken rfl rfl hnext, rfl, rfl⟩
  | isNull | notNull =>
    obtain ⟨null, q₂, hnull, htext⟩ := run_bind_eq_ok.1 hrest
    cases hnull
    cases htext
    exact ⟨_, writes_of_null run hname rfl rfl, rfl, rfl⟩
  | ends | eqLower | neqLower | startsLower | endsLower | containsLower | notContainsLower
  | inLower | notInLower => cases hrest

theorem keyCondition_writes {t : Table} {value : Scalar} {keys : Keys}
    (run : keyCondition t value keys q = .ok text q') :
    ∃ uses : List Use, q.Writes uses q' ∧
      uses.map (·.comparison) = ⟨t.partitionPath, .eq, .one value⟩ :: keys.sort.toList ∧
      text = Text.join " AND " (uses.map Use.text) := by
  obtain ⟨name, q₁, hname, hrest⟩ := run_bind_eq_ok.1 run
  obtain ⟨token, q₂, htoken, hrest⟩ := run_bind_eq_ok.1 hrest
  have hjoin : name ++ " " ++ "=" ++ " " ++ token = name ++ " = " ++ token := by
    simp only [String.append_assoc]
    rfl
  -- The partition part is written as a leaf with an equality is.
  have hfirst : leafExpression ⟨t.partitionPath, .eq, .one value⟩ q =
      .ok (name ++ " " ++ "=" ++ " " ++ token) q₂ := by
    refine run_bind_eq_ok.2 ⟨name, q₁, hname, ?_⟩
    refine run_bind_eq_ok.2 ⟨value, q₁, rfl, ?_⟩
    exact run_bind_eq_ok.2 ⟨token, q₂, htoken, rfl⟩
  obtain ⟨first, hfirst, hcomparison, htext⟩ := leafExpression_writes hfirst
  rw [hjoin] at htext
  cases hsort : keys.sort with
  | none =>
    rw [hsort] at hrest
    cases hrest
    refine ⟨[first], hfirst, by rw [← hcomparison]; rfl, ?_⟩
    rw [List.map_singleton, htext]
    rfl
  | some s =>
    rw [hsort] at hrest
    obtain ⟨text', q₃, hsecond, hrest⟩ := run_bind_eq_ok.1 hrest
    obtain ⟨second, hsecond, hcomparison', htext'⟩ :=
      leafExpression_writes (leafExpression_of_sortCondition hsecond)
    cases hrest
    refine ⟨[first, second], hfirst.append hsecond, by rw [← hcomparison, ← hcomparison']; rfl, ?_⟩
    rw [List.map_cons, List.map_singleton, htext, htext']

end Leaves

/-! ### Conditions -/

/-- Key parts as leaves. -/
def Keys.leaves (t : Table) (keys : Keys) : List Comparison :=
  (keys.partition.map fun value => ⟨t.partitionPath, .eq, .one value⟩).toList ++ keys.sort.toList

/-- A leaf that is taken is one leaf more among the key parts. -/
theorem takeKey?_perm {t : Table} {keys keys' : Keys} {c : Comparison}
    (h : takeKey? t keys c = some keys') : (keys'.leaves t).Perm (c :: keys.leaves t) := by
  obtain ⟨path, op, value⟩ := c
  obtain ⟨partition, sort⟩ := keys
  unfold takeKey? at h
  split at h
  · rename_i hpartition
    obtain ⟨rfl, rfl, rfl, hscalar⟩ := hpartition
    cases h
    cases value with
    | one scalar => exact .refl _
    | many scalars => cases hscalar
  · split at h
    · rename_i hsort
      obtain rfl := Option.isNone_iff_eq_none.1 hsort.2.2
      cases h
      simp [Keys.leaves, List.perm_append_singleton]
    · cases h

/-- What is written for leaves: every one of them has been written, or taken as a key part. -/
structure Written (t : Table) (taking : Bool) (leaves : List Comparison) (texts : List String)
    (p p' : Progress) : Prop where
  keys : taking = false → p'.keys = p.keys
  uses : ∃ uses : List Use, p.query.Writes uses p'.query ∧ JoinedAll (uses.map Use.text) texts ∧
    (uses.map (·.comparison) ++ p'.keys.leaves t).Perm (leaves ++ p.keys.leaves t)

/-- **Compiling a condition writes the leaves that it does not take.** -/
theorem compiler_written (t : Table) (taking : Bool) :
    Compiler.Law (compiler t taking) fun leaves texts p p' =>
      Written t taking (leaves.map (·.1)) texts p p' where
  nil p := ⟨fun _ => rfl, [], .nil p.query, .nil, .refl _⟩
  append := by
    rintro leaves leaves' texts texts' p p' p'' ⟨hkeys, uses, hwrites, htexts, hperm⟩
      ⟨hkeys', uses', hwrites', htexts', hperm'⟩
    refine ⟨fun h => (hkeys' h).trans (hkeys h), uses ++ uses', hwrites.append hwrites', ?_, ?_⟩
    · rw [List.map_append]
      exact htexts.append htexts'
    · rw [List.map_append, List.map_append, List.append_assoc, List.append_assoc]
      -- Key parts of the first half stand in front of the uses of the second one.
      refine (hperm'.append_left _).trans ?_
      refine (List.perm_append_comm_assoc ..).trans ?_
      exact (hperm.append_left _).trans (List.perm_append_comm_assoc ..)
  leaf := by
    intro c above text p p' run
    obtain ⟨-, ⟨keys, htake, rfl, rfl⟩ | ⟨-, expression, query, hleaf, rfl, rfl⟩⟩ :=
      compileLeaf_cases run
    · split at htake
      · rename_i htop
        refine ⟨fun h => by simp [h] at htop, [], .nil p.query, .nil, takeKey?_perm htake⟩
      · cases htake
    · obtain ⟨use, hwrites, hcomparison, htext⟩ := leafExpression_writes hleaf
      refine ⟨fun _ => rfl, [use], hwrites, ?_, ?_⟩
      · rw [← htext]
        exact .one (.expression _)
      · rw [← hcomparison]
        exact .refl _
  join k above h several := by
    obtain ⟨hkeys, uses, hwrites, htexts, hperm⟩ := h
    exact ⟨hkeys, uses, hwrites, .one (joined_joinExpressions k htexts several _), hperm⟩

end StoreQuery.KeyValue
