import StoreQuery.Proofs.Condition.Commuting
import StoreQuery.Proofs.KeyValue.Bindings

/-!
# Where a read starts and stops

The start key of a base and its limit say where a read starts and where it stops. Nothing that is
compiled looks at them: names, values, key parts, conditions and the kind of the read are the same
wherever a base starts and stops.

So **what is built from a base that starts and stops elsewhere is the same read, at that start key,
and with the new limit where the request has none** (`build_positioned`). A lookup has no limit. In
particular a build keeps the start key of its base (`startKey_build`), and its limit is known from
base and request (`limit_build`).
-/

namespace StoreQuery.KeyValue

open Compiler (Commutes)

variable {t : Table} {q base : Query} {r : Request} {limit : Option UInt64}
  {startKey : Option Item}

namespace Query

/-- The query with another limit and another start key. -/
def positioned (q : Query) (limit : Option UInt64) (startKey : Option Item) : Query :=
  { q with limit, startKey }

@[simp] theorem kind_positioned (q : Query) : (q.positioned limit startKey).kind = q.kind := rfl

@[simp] theorem filter_positioned (q : Query) : (q.positioned limit startKey).filter = q.filter :=
  rfl

@[simp] theorem values_positioned (q : Query) : (q.positioned limit startKey).values = q.values :=
  rfl

theorem valueToken_positioned (q : Query) (path : Path) (binding : Binding) :
    (q.positioned limit startKey).valueToken path binding = q.valueToken path binding := by
  have htaken : (q.positioned limit startKey).tokenTaken = q.tokenTaken := rfl
  rw [valueToken, valueToken, htaken, values_positioned]

theorem positioned_self (q : Query) : q.positioned q.limit q.startKey = q := rfl

end Query

/-! ## Steps -/

section Steps

variable {α β : Type}

/-- A step reads neither limit nor start key. -/
def Unpositioned (step : Step α) : Prop :=
  ∀ limit startKey, Commutes (Query.positioned · limit startKey) step

namespace Unpositioned

theorem pure (a : α) : Unpositioned (Pure.pure a) := fun _ _ => .pure a

theorem throw (e : Error) : Unpositioned (throw e : Step α) := fun _ _ => .throw e

theorem bind {x : Step α} {f : α → Step β} (h : Unpositioned x) (hf : ∀ a, Unpositioned (f a)) :
    Unpositioned (x >>= f) :=
  fun limit startKey => (h limit startKey).bind fun a => hf a limit startKey

/-- A step that is a function of the query. -/
theorem ofFun {k : Query → α × Query}
    (h : ∀ (q : Query) limit startKey, k (q.positioned limit startKey) =
      ((k q).1, (k q).2.positioned limit startKey)) : Unpositioned (modifyGet k) :=
  fun limit startKey => .modifyGet fun q => h q limit startKey

/-- What comes next may look at names and values. -/
theorem get_bind {k : Query → Step α}
    (hsame : ∀ (q : Query) limit startKey, k (q.positioned limit startKey) = k q)
    (h : ∀ q, Unpositioned (k q)) : Unpositioned (get >>= k) :=
  fun limit startKey => .get_bind_same (hsame · limit startKey) fun q => h q limit startKey

end Unpositioned

theorem single_unpositioned (c : Comparison) : Unpositioned (single c) := by
  rw [single]
  cases c.value.asScalar? with
  | some scalar => exact .pure scalar
  | none => exact .throw _

theorem many_unpositioned (c : Comparison) : Unpositioned (many c) := by
  rw [many]
  cases c.value.asList? with
  | some scalars => exact .pure scalars
  | none => exact .throw _

theorem nameOf_unpositioned (path : Path) : Unpositioned (nameOf path) :=
  .ofFun fun _ _ _ => rfl

theorem valueOf_unpositioned (path : Path) (scalar : Scalar) :
    Unpositioned (valueOf path scalar) := by
  refine .ofFun fun q limit startKey => ?_
  simp only [Query.registerValue, Query.valueToken_positioned]
  rfl

theorem bindValue_unpositioned (name : String) (scalar : Scalar) :
    Unpositioned (bindValue name scalar) :=
  fun _ _ _ => rfl

theorem nullValue_unpositioned : Unpositioned nullValue := by
  show Unpositioned (modifyGet fun q => (Query.nullToken, q.bindNull))
  refine .ofFun fun q limit startKey => Prod.ext rfl ?_
  show (q.positioned limit startKey).bindNull = q.bindNull.positioned limit startKey
  rw [Query.bindNull, Query.bindNull, Query.values_positioned]
  split <;> rfl

theorem compareExpression_unpositioned (name symbol : String) (c : Comparison) :
    Unpositioned (compareExpression name symbol c) :=
  (single_unpositioned c).bind fun scalar =>
    (valueOf_unpositioned c.path scalar).bind fun _ => .pure _

theorem callExpression_unpositioned (function name : String) (c : Comparison) :
    Unpositioned (callExpression function name c) :=
  (single_unpositioned c).bind fun scalar =>
    (valueOf_unpositioned c.path scalar).bind fun _ => .pure _

theorem betweenExpression_unpositioned (name token : String) (c : Comparison) :
    Unpositioned (betweenExpression name token c) := by
  refine (many_unpositioned c).bind fun scalars => ?_
  obtain _ | ⟨low, _ | ⟨high, _ | ⟨_, _⟩⟩⟩ := scalars
  · exact .throw _
  · exact .throw _
  · exact (bindValue_unpositioned _ low).bind fun _ =>
      (bindValue_unpositioned _ high).bind fun _ => .pure _
  · exact .throw _

theorem bindItems_unpositioned (token : String) :
    ∀ (index : Nat) (scalars : List Scalar), Unpositioned (bindItems token index scalars)
  | _, [] => .pure []
  | index, scalar :: rest =>
    (bindValue_unpositioned _ scalar).bind fun _ =>
      (bindItems_unpositioned token (index + 1) rest).bind fun _ => .pure _

theorem inExpression_unpositioned (name : String) (c : Comparison) :
    Unpositioned (inExpression name c) :=
  (many_unpositioned c).bind fun scalars =>
    .get_bind (fun _ _ _ => rfl) fun _ =>
      (bindItems_unpositioned _ 0 scalars).bind fun _ => .pure _

/-- **A leaf is expressed without regard to limit and start key.** -/
theorem leafExpression_unpositioned (c : Comparison) : Unpositioned (leafExpression c) := by
  refine (nameOf_unpositioned c.path).bind fun name => ?_
  cases c.operator with
  | eq | neq | lt | lte | gt | gte => exact compareExpression_unpositioned name _ c
  | starts | contains => exact callExpression_unpositioned _ name c
  | notContains => exact (callExpression_unpositioned _ name c).bind fun _ => .pure _
  | between =>
    exact .get_bind (fun _ _ _ => rfl) fun _ => betweenExpression_unpositioned name _ c
  | isIn => exact inExpression_unpositioned name c
  | notIn => exact (inExpression_unpositioned name c).bind fun _ => .pure _
  | isNull | notNull => exact nullValue_unpositioned.bind fun _ => .pure _
  | ends | eqLower | neqLower | startsLower | endsLower | containsLower | notContainsLower
  | inLower | notInLower => exact .throw _

theorem sortCondition_unpositioned (c : Comparison) : Unpositioned (sortCondition c) := by
  refine (nameOf_unpositioned c.path).bind fun name => ?_
  cases c.operator with
  | eq | lt | lte | gt | gte => exact compareExpression_unpositioned name _ c
  | starts => exact callExpression_unpositioned _ name c
  | between =>
    exact .get_bind (fun _ _ _ => rfl) fun _ => betweenExpression_unpositioned name _ c
  | _ => exact .throw _

theorem keyCondition_unpositioned (t : Table) (partition : Scalar) (keys : Keys) :
    Unpositioned (keyCondition t partition keys) := by
  refine (nameOf_unpositioned t.partitionPath).bind fun name => ?_
  refine (valueOf_unpositioned t.partitionPath partition).bind fun value => ?_
  cases keys.sort with
  | none => exact .pure _
  | some c => exact (sortCondition_unpositioned c).bind fun _ => .pure _

end Steps

/-! ## Conditions -/

/-- What is gathered, on the query with another limit and another start key. -/
def Progress.positioned (p : Progress) (limit : Option UInt64) (startKey : Option Item) :
    Progress :=
  { p with query := p.query.positioned limit startKey }

theorem Progress.keys_positioned (p : Progress) : (p.positioned limit startKey).keys = p.keys := rfl

theorem Progress.query_positioned (p : Progress) :
    (p.positioned limit startKey).query = p.query.positioned limit startKey := rfl

theorem onQuery_commutes {α : Type} {step : Step α} (h : Unpositioned step)
    (limit : Option UInt64) (startKey : Option Item) :
    Commutes (Progress.positioned · limit startKey) (onQuery step) := by
  intro p
  show onQuery step (p.positioned limit startKey) = _
  rw [onQuery, Progress.query_positioned, h limit startKey p.query, onQuery]
  cases step p.query <;> rfl

/-- **A condition is compiled without regard to limit and start key.** -/
theorem compiler_blind (t : Table) (split : Bool) (limit : Option UInt64)
    (startKey : Option Item) :
    (compiler t split).Blind (Progress.positioned · limit startKey) where
  leaf c scope := by
    show Compiler.Commutes _ (compileLeaf t split c scope)
    rw [compileLeaf]
    cases c.validate with
    | error e => exact .throw e
    | ok _ =>
      refine .get_bind fun p => ?_
      rw [Progress.keys_positioned]
      cases if split && scope.topLevelAnd then takeKey? t p.keys c else none with
      | some keys => rfl
      | none =>
        exact (onQuery_commutes (leafExpression_unpositioned c) limit startKey).bind
          (fun _ => .pure _) p
  join k fragments scope p := rfl

/-! ## Requests -/

/-- The limit of a request, unless it has none or zero, and otherwise another limit. -/
def limitOr (r : Request) (limit : Option UInt64) : Option UInt64 :=
  (r.limit.filter (0 < ·)).or limit

namespace Query

theorem withTable_positioned (t : Table) (q : Query) :
    withTable t (q.positioned limit startKey) = (withTable t q).positioned limit startKey := by
  rw [withTable, withTable]
  show (if q.tableName = "" then _ else _) = _
  split <;> rfl

theorem registerNames_positioned (paths : List Path) (q : Query) :
    registerNames (q.positioned limit startKey) paths =
      ((registerNames q paths).1, (registerNames q paths).2.positioned limit startKey) := by
  induction paths generalizing q with
  | nil => rfl
  | cons path rest ih =>
    have hfirst : (q.positioned limit startKey).registerName path =
        ((q.registerName path).1, (q.registerName path).2.positioned limit startKey) := rfl
    rw [registerNames, hfirst]
    dsimp only
    rw [ih]
    rfl

theorem withProjection_positioned (q : Query) (select : List Path) :
    withProjection (q.positioned limit startKey) select =
      (withProjection q select).positioned limit startKey := by
  rw [withProjection, withProjection]
  split
  · rfl
  · rw [registerNames_positioned]
    rfl

theorem addFilter_positioned (q : Query) (expression : String) :
    (q.positioned limit startKey).addFilter expression =
      (q.addFilter expression).positioned limit startKey := by
  rw [addFilter, addFilter, filter_positioned]
  cases q.filter <;> rfl

theorem withLimit_positioned (q : Query) (r : Request) :
    withLimit (q.positioned limit startKey) r.limit =
      (withLimit q r.limit).positioned (limitOr r limit) startKey := by
  rw [limitOr]
  cases r.limit with
  | none => rfl
  | some n =>
    rw [withLimit, withLimit, Option.filter_some]
    by_cases hn : 0 < n
    · rw [if_pos hn, if_pos hn, if_pos (decide_eq_true hn)]
      rfl
    · rw [if_neg hn, if_neg hn, if_neg (fun h => hn (of_decide_eq_true h))]
      rfl

theorem withOrder_positioned (t : Table) (q : Query) (r : Request) :
    withOrder t (q.positioned limit startKey) r =
      (withOrder t q r).positioned limit startKey := by
  rw [withOrder, withOrder]
  split <;> rfl

end Query

/-- A pass on a base that starts and stops elsewhere. -/
theorem compilePass_positioned (t : Table) (base : Query) (r : Request) (split : Bool) :
    compilePass t (base.positioned limit startKey) r split =
      (compilePass t base r split).map (·.positioned (limitOr r limit) startKey) := by
  obtain ⟨q, hq⟩ : ∃ q, withProjection (withTable t base) r.select = q := ⟨_, rfl⟩
  have hrun : ((compiler t split).compile r.condition).run
      { query := q.positioned limit startKey } =
        Compiler.onState (Progress.positioned · limit startKey)
          (((compiler t split).compile r.condition).run { query := q }) :=
    (compiler_blind t split limit startKey).compileAt .root r.condition { query := q }
  simp only [compilePass, Query.withTable_positioned, Query.withProjection_positioned, hq, hrun]
  cases ((compiler t split).compile r.condition).run { query := q } with
  | error e p => rfl
  | ok filter p =>
    have hlimit : ∀ q : Query, Except.ok (Progress.mk
        (withLimit (q.positioned limit startKey) r.limit) p.keys) =
          (Except.ok (Progress.mk (withLimit q r.limit) p.keys) : Except Error Progress).map
            (·.positioned (limitOr r limit) startKey) := by
      intro q
      rw [Query.withLimit_positioned]
      rfl
    cases filter with
    | none => exact hlimit p.query
    | some expression =>
      show Except.ok (Progress.mk (withLimit
        ((p.query.positioned limit startKey).addFilter expression) r.limit) p.keys) = _
      rw [Query.addFilter_positioned]
      exact hlimit (p.query.addFilter expression)

/-! ## Reads -/

theorem compilePass_positioned_eq_ok {taking : Bool} {p : Progress}
    (h : compilePass t base r taking = .ok p) :
    compilePass t (base.positioned limit startKey) r taking =
      .ok (p.positioned (limitOr r limit) startKey) := by
  rw [compilePass_positioned, h]
  rfl

theorem key_compilePass {taking : Bool} {p : Progress}
    (h : compilePass t base r taking = .ok p) : p.query.key = base.key := by
  obtain ⟨_, -, hkey, -⟩ := compilePass_tells h
  exact hkey

/-- A lookup base that starts and stops elsewhere. -/
theorem buildPinned_positioned (h : buildPinned t base r = .ok q) :
    buildPinned t (base.positioned limit startKey) r = .ok (q.positioned none startKey) := by
  obtain ⟨p, hpass, h⟩ := bind_eq_ok.1 h
  refine bind_eq_ok.2 ⟨_, compilePass_positioned_eq_ok hpass, ?_⟩
  dsimp only at h
  split at h
  · cases h
  · rename_i hbeyond
    cases h
    exact if_neg hbeyond

/-- The key condition does not look at where the read starts and stops. -/
theorem keyCondition_positioned {value : Scalar} {keys : Keys} {condition : String} {q' : Query}
    (h : (keyCondition t value keys).run q = .ok condition q') :
    (keyCondition t value keys).run (q.positioned limit startKey) =
      .ok condition (q'.positioned limit startKey) := by
  refine (keyCondition_unpositioned t value keys _ _ q).trans ?_
  rw [show keyCondition t value keys q = .ok condition q' from h]
  rfl

/-- A base without keys that starts and stops elsewhere. -/
theorem buildFree_positioned (hkey : base.key = none) (h : buildFree t base r = .ok q) :
    buildFree t (base.positioned limit startKey) r =
      .ok (q.positioned (if q.key.isSome then none else limitOr r limit) startKey) := by
  obtain ⟨p, hpass, h⟩ := bind_eq_ok.1 h
  have hnone : p.query.key = none := (key_compilePass hpass).trans hkey
  -- No branch looks at where the read starts and stops, so both reads take the same one.
  refine bind_eq_ok.2 ⟨_, compilePass_positioned_eq_ok hpass, ?_⟩
  dsimp only [Progress.positioned]
  cases hpartition : p.keys.partition with
  | none =>
    simp only [hpartition] at h
    split at h
    · rename_i hsort
      cases h
      rw [if_pos hsort, hnone]
      rfl
    · rename_i hsort
      obtain ⟨whole, hwhole, h⟩ := bind_eq_ok.1 h
      cases h
      rw [if_neg hsort]
      refine bind_eq_ok.2 ⟨_, compilePass_positioned_eq_ok hwhole, ?_⟩
      rw [(key_compilePass hwhole).trans hkey]
      rfl
  | some value =>
    simp only [hpartition] at h
    split at h
    · rename_i hitem
      cases h
      exact if_pos hitem
    · rename_i hrest
      cases hrun : (keyCondition t value p.keys).run p.query with
      | error e q₁ => simp only [hrun] at h; cases h
      | ok condition q₁ =>
        simp only [hrun] at h
        cases h
        have hkeyed : (withOrder t { q₁ with keyCondition := some condition } r).key = none := by
          obtain ⟨hext, -⟩ := keyCondition_yields (p := ⟨t.partitionPath, .eq, .one value⟩) rfl rfl
            rfl _ _ hrun
          exact (Query.sameParts_withOrder t _ r).key.trans (hext.key.trans hnone)
        rw [hkeyed]
        refine (if_neg hrest).trans ?_
        simp only [keyCondition_positioned hrun]
        exact congrArg Except.ok (Query.withOrder_positioned t
          { q₁ with keyCondition := some condition } r)

/-- **The same read, at another start key and with another limit.** A lookup has no limit. -/
theorem build_positioned (limit : Option UInt64) (startKey : Option Item)
    (h : build t base r = .ok q) :
    build t (base.positioned limit startKey) r =
      .ok (q.positioned (if q.key.isSome then none else limitOr r limit) startKey) := by
  rw [build] at h ⊢
  rw [Query.kind_positioned]
  cases hkind : base.kind with
  | getItem =>
    rw [hkind] at h
    obtain ⟨p, key, -, -, hq⟩ := buildPinned_cases h
    have hlookup : q.key.isSome = true := by rw [hq]; rfl
    rw [if_pos hlookup]
    exact buildPinned_positioned h
  | query =>
    rw [hkind] at h
    obtain ⟨p, hpass, rfl⟩ := map_eq_ok.1 h
    have hkey : (withOrder t p.query r).key.isSome ≠ true := by
      rw [(Query.sameParts_withOrder t p.query r).key, key_compilePass hpass]
      exact isSome_key_ne (by rw [hkind]; decide)
    rw [if_neg hkey]
    exact map_eq_ok.2
      ⟨_, compilePass_positioned_eq_ok hpass, Query.withOrder_positioned t p.query r⟩
  | scan =>
    rw [hkind] at h
    have hkey : base.key = none :=
      Option.not_isSome_iff_eq_none.1 (isSome_key_ne (by rw [hkind]; decide))
    exact buildFree_positioned hkey h

/-- What is built is at the position that is known from base and request. -/
theorem position_build (h : build t base r = .ok q) :
    q = q.positioned (if q.key.isSome then none else limitOr r base.limit) base.startKey := by
  have hself := build_positioned base.limit base.startKey h
  rw [Query.positioned_self base, h] at hself
  exact Except.ok.inj hself

/-- A build keeps the start key of its base. -/
theorem startKey_build (h : build t base r = .ok q) : q.startKey = base.startKey := by
  rw [position_build h]
  rfl

/-- What a query or a scan is limited to is known from base and request. -/
theorem limit_build (h : build t base r = .ok q) (hkind : q.kind ≠ .getItem) :
    q.limit = limitOr r base.limit := by
  have hlimit := congrArg Query.limit (position_build h)
  rwa [if_neg (isSome_key_ne hkind)] at hlimit

end StoreQuery.KeyValue
