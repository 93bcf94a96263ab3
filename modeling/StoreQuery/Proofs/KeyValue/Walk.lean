import StoreQuery.Proofs.KeyValue.Expression

/-!
# What compiling a condition does

`split` says which leaves are taken out of a condition as parts of the key and which stay, given
the leaves in document order together with whether an OR stands above them. **Compiling a
condition splits its leaves and joins the expressions of those that stay** (`compileAt_compiled`),
each once and in their order. **A pass adds them to the filter of its base** (`compilePass_added`).
-/

namespace StoreQuery

namespace Condition

mutual

/-- The leaves in document order, each with whether no OR stands above it. -/
def marked (top : Bool) : Condition → List (Comparison × Bool)
  | .leaf c => [(c, top)]
  | .group k members => markedAll (top && k == .and) members

def markedAll (top : Bool) : List Condition → List (Comparison × Bool)
  | [] => []
  | condition :: rest => marked top condition ++ markedAll top rest

end

mutual

theorem marked_leaves (top : Bool) :
    ∀ condition, (marked top condition).map (·.1) = condition.leaves
  | .leaf _ => rfl
  | .group k members => markedAll_leaves (top && k == .and) members

theorem markedAll_leaves (top : Bool) :
    ∀ members, (markedAll top members).map (·.1) = leavesOf members
  | [] => rfl
  | condition :: rest => by
    rw [markedAll, List.map_append, marked_leaves top condition, markedAll_leaves top rest,
      leavesOf]

end

end Condition

namespace KeyValue

/-! ## Splitting leaves -/

/-- Takes key parts out of leaves, if any are to be taken, and keeps the other leaves. -/
def split (t : Table) (taking : Bool) (keys : Keys) :
    List (Comparison × Bool) → Keys × List Comparison
  | [] => (keys, [])
  | (c, top) :: rest =>
    match if taking && top then takeKey? t keys c else none with
    | some keys => split t taking keys rest
    | none => ((split t taking keys rest).1, c :: (split t taking keys rest).2)

theorem split_append (t : Table) (taking : Bool) (keys : Keys) (xs ys : List (Comparison × Bool)) :
    split t taking keys (xs ++ ys) =
      ((split t taking (split t taking keys xs).1 ys).1,
        (split t taking keys xs).2 ++ (split t taking (split t taking keys xs).1 ys).2) := by
  induction xs generalizing keys with
  | nil => rfl
  | cons x xs ih =>
    obtain ⟨c, top⟩ := x
    rw [List.cons_append, split, split]
    cases if taking && top then takeKey? t keys c else none with
    | some keys => exact ih keys
    | none => simp only [ih keys, List.cons_append]

/-! ## Joining expressions -/

/-- What stands between two expressions. -/
def Connective.between : Connective → String
  | .and => " AND "
  | .or => " OR "

mutual

/-- A text holds expressions, each once and in their order, with `AND` or `OR` between them and
with parentheses around some of them. -/
inductive Joined : List String → String → Prop
  | expression (text : String) : Joined [text] text
  | bracket {expressions texts : List String} (k : Connective) (h : JoinedAll expressions texts)
      (several : 2 ≤ texts.length) : Joined expressions (Text.join (Connective.between k) texts)
  | parentheses {expressions : List String} {text : String} (h : Joined expressions text) :
      Joined expressions ("(" ++ text ++ ")")

/-- Texts hold expressions between them. -/
inductive JoinedAll : List String → List String → Prop
  | nil : JoinedAll [] []
  | cons {expressions rest texts : List String} {text : String} (h : Joined expressions text)
      (h' : JoinedAll rest texts) : JoinedAll (expressions ++ rest) (text :: texts)

end

theorem JoinedAll.append {es es' texts texts' : List String} (h : JoinedAll es texts)
    (h' : JoinedAll es' texts') : JoinedAll (es ++ es') (texts ++ texts') :=
  match h with
  | .nil => h'
  | .cons hfirst hrest => by
    rw [List.append_assoc]
    exact .cons hfirst (hrest.append h')

/-- Joining texts that hold expressions gives a text that holds them. -/
theorem joined_joinExpressions (k : Connective) {es texts : List String} (h : JoinedAll es texts)
    (several : 2 ≤ texts.length) (scope : Scope) : Joined es (joinExpressions k texts scope) := by
  have hbetween : " " ++ k.text ++ " " = Connective.between k := by cases k <;> rfl
  have hjoined : Joined es (Text.join (" " ++ k.text ++ " ") texts) := by
    rw [hbetween]
    exact .bracket k h several
  rw [joinExpressions]
  split
  · exact hjoined.parentheses
  · exact hjoined

theorem JoinedAll.one {es : List String} {text : String} (h : Joined es text) :
    JoinedAll es [text] := by
  rw [← List.append_nil es]
  exact .cons h .nil

mutual

/-- A text holds at least one expression. -/
theorem Joined.length_pos {es : List String} {text : String} (h : Joined es text) :
    0 < es.length :=
  match h with
  | .expression _ => by simp
  | .bracket _ hall several => by
    have := JoinedAll.length_le hall
    omega
  | .parentheses hinner => Joined.length_pos hinner

theorem JoinedAll.length_le {es texts : List String} (h : JoinedAll es texts) :
    texts.length ≤ es.length :=
  match h with
  | .nil => Nat.le_refl 0
  | .cons hfirst hrest => by
    have := Joined.length_pos hfirst
    have := JoinedAll.length_le hrest
    rw [List.length_cons, List.length_append]
    omega

end

/-- The text is left out exactly when there is no expression. -/
theorem JoinedAll.eq_none_iff {es : List String} {text : Option String}
    (h : JoinedAll es text.toList) : text = none ↔ es = [] := by
  cases text with
  | none => cases h; simp
  | some text =>
    have := h.length_le
    refine ⟨nofun, ?_⟩
    rintro rfl
    simp at this

/-! ## Compiling -/

/-- What compiling a leaf does: it takes the leaf as a key part, or adds its expression. -/
theorem compileLeaf_cases {t : Table} {taking : Bool} {c : Comparison} {scope : Scope}
    {text : Option String} {p p' : Progress}
    (run : compileLeaf t taking c scope p = .ok text p') :
    c.validate = .ok () ∧
      ((∃ keys, (if taking && scope.topLevelAnd then takeKey? t p.keys c else none) = some keys ∧
          text = none ∧ p' = { p with keys }) ∨
        ((if taking && scope.topLevelAnd then takeKey? t p.keys c else none) = none ∧
          ∃ expression query, leafExpression c p.query = .ok expression query ∧
            text = some expression ∧ p' = { p with query })) := by
  cases hvalid : c.validate with
  | error e => rw [compileLeaf, hvalid] at run; cases run
  | ok u =>
    refine ⟨rfl, ?_⟩
    rw [compileLeaf, hvalid] at run
    obtain ⟨_, _, hget, run⟩ := run_bind_eq_ok.1 run
    cases hget
    cases htake : if taking && scope.topLevelAnd then takeKey? t p.keys c else none with
    | some keys =>
      simp only [htake] at run
      cases run
      exact .inl ⟨keys, rfl, rfl, rfl⟩
    | none =>
      simp only [htake] at run
      obtain ⟨expression, p₁, hleaf, run⟩ := run_bind_eq_ok.1 run
      cases run
      cases hrun : leafExpression c p.query with
      | error e query => rw [onQuery, hrun] at hleaf; cases hleaf
      | ok text query =>
        rw [onQuery, hrun] at hleaf
        cases hleaf
        exact .inr ⟨rfl, _, query, rfl, rfl, rfl⟩

/-- What a part of a compilation has done: it has added tokens, split leaves, and made texts of
the expressions of those that stay. -/
structure Compiled (t : Table) (taking : Bool) (leaves : List (Comparison × Bool))
    (texts : List String) (p p' : Progress) : Prop where
  query : p.query.Extends p'.query
  keys : p'.keys = (split t taking p.keys leaves).1
  valid : ∀ leaf ∈ leaves, leaf.1.validate = .ok ()
  expressed : ∃ expressions,
    List.Forall₂ p'.query.Expresses (split t taking p.keys leaves).2 expressions ∧
      JoinedAll expressions texts

namespace Compiled

variable {t : Table} {taking : Bool} {leaves leaves' : List (Comparison × Bool)}
  {texts texts' : List String} {p p' p'' : Progress}

theorem nil (p : Progress) : Compiled t taking [] [] p p :=
  ⟨.refl _, rfl, nofun, [], .nil, .nil⟩

/-- One part after the other. -/
theorem append (h : Compiled t taking leaves texts p p')
    (h' : Compiled t taking leaves' texts' p' p'') :
    Compiled t taking (leaves ++ leaves') (texts ++ texts') p p'' := by
  obtain ⟨es, hes, hjoined⟩ := h.expressed
  obtain ⟨es', hes', hjoined'⟩ := h'.expressed
  refine ⟨h.query.trans h'.query, ?_, List.forall_mem_append.2 ⟨h.valid, h'.valid⟩, es ++ es', ?_,
    hjoined.append hjoined'⟩
  · rw [split_append, ← h.keys, ← h'.keys]
  · rw [split_append, ← h.keys]
    exact List.rel_append (hes.imp fun _ _ he => he.mono h'.query.toResolves) hes'

/-- A bracket around texts that several expressions are in. -/
theorem close (k : Connective) (scope : Scope) {text : Option String}
    (h : Compiled t taking leaves texts p p')
    (run : (compiler t taking).close k scope texts p' = .ok text p'') :
    Compiled t taking leaves text.toList p p'' := by
  match texts with
  | [] => cases run; exact h
  | [text] => cases run; exact h
  | first :: second :: rest =>
    cases run
    obtain ⟨es, hes, hjoined⟩ := h.expressed
    exact ⟨h.query, h.keys, h.valid, es, hes,
      .one (joined_joinExpressions k hjoined (by simp) scope)⟩

/-- A leaf is taken, or its expression stays. -/
theorem leaf {c : Comparison} {scope : Scope} {text : Option String}
    (run : compileLeaf t taking c scope p = .ok text p') :
    Compiled t taking [(c, scope.topLevelAnd)] text.toList p p' := by
  obtain ⟨hvalid, hrun⟩ := compileLeaf_cases run
  have hvalids : ∀ leaf ∈ [(c, scope.topLevelAnd)], leaf.1.validate = .ok () := fun leaf hl => by
    obtain rfl := List.mem_singleton.1 hl
    exact hvalid
  rcases hrun with ⟨keys, htake, rfl, rfl⟩ | ⟨htake, expression, q, hleaf, rfl, rfl⟩
  · refine ⟨.refl _, by rw [split, htake]; rfl, hvalids, [], ?_, .nil⟩
    rw [split, htake]
    exact .nil
  · obtain ⟨hext, hexpresses⟩ := leafExpression_yields c p.query _ _ hleaf
    refine ⟨hext, by rw [split, htake]; rfl, hvalids, [_], ?_, .one (.expression _)⟩
    rw [split, htake]
    exact .cons hexpresses .nil

end Compiled

theorem topLevelAnd_single (scope : Scope) (k : Connective) :
    (scope.single k).topLevelAnd = (scope.topLevelAnd && k == .and) := by
  cases k <;> simp [Scope.single]

mutual

/-- **Compiling a condition splits its leaves and joins the expressions of those that stay.** -/
theorem compileAt_compiled {t : Table} {taking : Bool} (scope : Scope) :
    ∀ (condition : Condition) {text : Option String} {p p' : Progress},
      (compiler t taking).compileAt scope condition p = .ok text p' →
        Compiled t taking (condition.marked scope.topLevelAnd) text.toList p p'
  | .leaf _, _, _, _, run => .leaf run
  | .group _ [], _, p, _, run => by cases run; exact .nil p
  | .group k [only], _, _, _, run => by
    have h := compileAt_compiled (scope.single k) only run
    rw [topLevelAnd_single] at h
    simpa [Condition.marked, Condition.markedAll] using h
  | .group k (first :: second :: rest), _, _, _, run => by
    obtain ⟨texts, p₁, hall, hclose⟩ := run_bind_eq_ok.1 run
    exact (compileAll_compiled (scope.enter k) (first :: second :: rest) hall).close k scope hclose

theorem compileAll_compiled {t : Table} {taking : Bool} (scope : Scope) :
    ∀ (members : List Condition) {texts : List String} {p p' : Progress},
      (compiler t taking).compileAll scope members p = .ok texts p' →
        Compiled t taking (Condition.markedAll scope.topLevelAnd members) texts p p'
  | [], _, p, _, run => by cases run; exact .nil p
  | condition :: rest, _, _, _, run => by
    obtain ⟨text, p₁, hfirst, run⟩ := run_bind_eq_ok.1 run
    obtain ⟨texts, p₂, hrest, run⟩ := run_bind_eq_ok.1 run
    cases run
    exact (compileAt_compiled scope condition hfirst).append (compileAll_compiled scope rest hrest)

end

/-! ## The filter -/

/-- The filter of a query holds the expressions of leaves, each once and in their order. Where
there are no leaves there is no filter. -/
def Query.Filters (q : Query) (leaves : List Comparison) : Prop :=
  ∃ expressions, List.Forall₂ q.Expresses leaves expressions ∧
    JoinedAll expressions q.filter.toList

theorem Query.Filters.eq_none_iff {q : Query} {leaves : List Comparison} (h : q.Filters leaves) :
    q.filter = none ↔ leaves = [] := by
  obtain ⟨expressions, hexpresses, hjoined⟩ := h
  rw [hjoined.eq_none_iff]
  exact ⟨fun h => by rw [h] at hexpresses; exact List.forall₂_nil_right_iff.1 hexpresses,
    fun h => by rw [h] at hexpresses; exact List.forall₂_nil_left_iff.1 hexpresses⟩

/-- Every token stands for the same, and keys and filter are the same. -/
structure Query.Carries (q q' : Query) : Prop extends Query.Resolves q q' where
  key : q'.key = q.key
  keyCondition : q'.keyCondition = q.keyCondition
  filter : q'.filter = q.filter

/-- Queries with the same names and values, the same key and the same conditions. -/
structure Query.SameParts (q q' : Query) : Prop where
  names : q'.names = q.names
  values : q'.values = q.values
  key : q'.key = q.key
  keyCondition : q'.keyCondition = q.keyCondition
  filter : q'.filter = q.filter

namespace Query

variable {q q' q'' : Query}

theorem Carries.trans (h : Carries q q') (h' : Carries q' q'') : Carries q q'' :=
  ⟨h.toResolves.trans h'.toResolves, h'.key.trans h.key, h'.keyCondition.trans h.keyCondition,
    h'.filter.trans h.filter⟩

theorem Extends.carries (h : Extends q q') : Carries q q' :=
  ⟨h.toResolves, h.key, h.keyCondition, h.filter⟩

theorem SameParts.trans (h : SameParts q q') (h' : SameParts q' q'') : SameParts q q'' :=
  ⟨h'.names.trans h.names, h'.values.trans h.values, h'.key.trans h.key,
    h'.keyCondition.trans h.keyCondition, h'.filter.trans h.filter⟩

theorem SameParts.carries (h : SameParts q q') : Carries q q' := by
  refine ⟨⟨?_, ?_, ?_⟩, h.key, h.keyCondition, h.filter⟩
  · intro token field hnamed
    rwa [Names, h.names]
  · intro token value hbound
    rwa [Binds, h.values]
  · rw [null, null, h.values]

theorem Filters.mono {leaves : List Comparison} (h : q.Filters leaves) (hresolves : Resolves q q')
    (hfilter : q'.filter = q.filter) : q'.Filters leaves := by
  obtain ⟨expressions, hexpresses, hjoined⟩ := h
  exact ⟨expressions, hexpresses.imp fun _ _ he => he.mono hresolves, hfilter ▸ hjoined⟩

theorem carries_withTable (t : Table) (q : Query) : Carries q (withTable t q) := by
  rw [withTable]
  split <;> exact ⟨⟨fun _ _ h => h, fun _ _ h => h, rfl⟩, rfl, rfl, rfl⟩

theorem extends_registerNames : ∀ (paths : List Path) (q : Query),
    Extends q (registerNames q paths).2
  | [], q => .refl q
  | path :: rest, q => (registerName_extends q path).1.trans (extends_registerNames rest _)

theorem carries_withProjection (q : Query) (select : List Path) :
    Carries q (withProjection q select) := by
  rw [withProjection]
  split
  · exact (Extends.refl q).carries
  · refine (extends_registerNames select q).carries.trans ?_
    exact ⟨⟨fun _ _ h => h, fun _ _ h => h, rfl⟩, rfl, rfl, rfl⟩

theorem sameParts_withLimit (q : Query) (limit : Option UInt64) :
    SameParts q (withLimit q limit) := by
  cases limit with
  | none => exact ⟨rfl, rfl, rfl, rfl, rfl⟩
  | some limit =>
    rw [withLimit]
    split <;> exact ⟨rfl, rfl, rfl, rfl, rfl⟩

theorem sameParts_withOrder (t : Table) (q : Query) (r : Request) :
    SameParts q (withOrder t q r) := by
  rw [withOrder]
  split <;> exact ⟨rfl, rfl, rfl, rfl, rfl⟩

end Query

section Passes

variable {t : Table} {taking : Bool} {base q : Query} {r : Request} {p : Progress}

/-- The filter of a query with what is added to it: both in parentheses, with `AND` between
them. -/
def Query.filterWith (q : Query) : Option String → Option String
  | none => q.filter
  | some expression =>
    match q.filter with
    | some base => some ("(" ++ base ++ ") AND (" ++ expression ++ ")")
    | none => some expression

theorem filter_addFilter (q : Query) (expression : String) :
    (q.addFilter expression).filter = q.filterWith (some expression) := by
  unfold Query.addFilter Query.filterWith
  cases q.filter <;> rfl

/-- What is added to a query without a filter is its filter. -/
theorem filterWith_of_none (h : q.filter = none) (added : Option String) :
    q.filterWith added = added := by
  cases added with
  | none => exact h
  | some expression => simp only [Query.filterWith, h]

theorem filterWith_congr (h : q.filter = base.filter) (added : Option String) :
    q.filterWith added = base.filterWith added := by
  cases added with
  | none => exact h
  | some expression => simp only [Query.filterWith, h]

theorem sameParts_addFilter (q : Query) (added : Option String) :
    Query.SameParts { q with filter := q.filterWith added } (match added with
      | some expression => q.addFilter expression
      | none => q) := by
  cases added with
  | none => exact ⟨rfl, rfl, rfl, rfl, rfl⟩
  | some expression =>
    refine ⟨?_, ?_, ?_, ?_, filter_addFilter q expression⟩ <;>
    · dsimp only [Query.addFilter]
      split <;> rfl

/-- The filter has no part in which tokens a query resolves. -/
theorem resolves_setFilter (q : Query) (filter : Option String) :
    Query.Resolves q { q with filter } :=
  ⟨fun _ _ h => h, fun _ _ h => h, rfl⟩

/-- The filter of a query is that of a base and the expressions of leaves, each once and in their
order. -/
def Query.FilterAdds (base q : Query) (leaves : List Comparison) : Prop :=
  ∃ (added : Option String) (expressions : List String),
    List.Forall₂ q.Expresses leaves expressions ∧ JoinedAll expressions added.toList ∧
      q.filter = base.filterWith added

theorem Query.FilterAdds.sameParts {leaves : List Comparison} {q' : Query}
    (h : base.FilterAdds q leaves) (hsame : q.SameParts q') : base.FilterAdds q' leaves := by
  obtain ⟨added, expressions, hexpresses, hjoined, hfilter⟩ := h
  exact ⟨added, expressions, hexpresses.imp fun _ _ he => he.mono hsame.carries.toResolves, hjoined,
    hsame.filter.trans hfilter⟩

/-- What a pass does: it names the table and the selected properties, compiles the condition, and
adds filter and limit. -/
theorem compilePass_cases (h : compilePass t base r taking = .ok p) :
    ∃ filter progress,
      (compiler t taking).compileAt .root r.condition
          { query := withProjection (withTable t base) r.select } = .ok filter progress ∧
        p = { progress with query := withLimit (match filter with
          | some expression => progress.query.addFilter expression
          | none => progress.query) r.limit } := by
  rw [compilePass] at h
  generalize withProjection (withTable t base) r.select = start at h
  cases hrun : ((compiler t taking).compile r.condition).run { query := start } with
  | error e p' => simp only [hrun] at h; cases h
  | ok filter progress =>
    simp only [hrun] at h
    cases h
    exact ⟨filter, progress, hrun, rfl⟩

/-- What a pass makes of a base, which may have a filter: it takes key parts out of the leaves and
adds the others to the filter. -/
structure Added (t : Table) (taking : Bool) (base : Query) (r : Request) (p : Progress) :
    Prop where
  resolves : Query.Resolves base p.query
  key : p.query.key = base.key
  keyCondition : p.query.keyCondition = base.keyCondition
  keys : p.keys = (split t taking {} (r.condition.marked true)).1
  valid : ∀ leaf ∈ r.condition.marked true, leaf.1.validate = .ok ()
  filter : base.FilterAdds p.query (split t taking {} (r.condition.marked true)).2

/-- **A pass takes key parts out of the leaves and adds the others to the filter.** -/
theorem compilePass_added (h : compilePass t base r taking = .ok p) :
    Added t taking base r p := by
  obtain ⟨added, progress, hrun, rfl⟩ := compilePass_cases h
  have hcompiled := compileAt_compiled .root r.condition hrun
  have hcarries := ((Query.carries_withTable t base).trans
    (Query.carries_withProjection (withTable t base) r.select)).trans hcompiled.query.carries
  obtain ⟨expressions, hexpresses, hjoined⟩ := hcompiled.expressed
  have hresolves := resolves_setFilter progress.query (progress.query.filterWith added)
  have hadds : base.FilterAdds { progress.query with filter := progress.query.filterWith added }
      (split t taking {} (r.condition.marked true)).2 :=
    ⟨added, expressions, hexpresses.imp fun _ _ he => he.mono hresolves, hjoined,
      filterWith_congr hcarries.filter added⟩
  have hsame := (sameParts_addFilter progress.query added).trans
    (Query.sameParts_withLimit _ r.limit)
  exact ⟨(hcarries.toResolves.trans hresolves).trans hsame.carries.toResolves,
    hsame.key.trans hcarries.key, hsame.keyCondition.trans hcarries.keyCondition,
    hcompiled.keys, hcompiled.valid, hadds.sameParts hsame⟩

/-- What a pass makes of a base without a filter. -/
structure Passed (t : Table) (taking : Bool) (base : Query) (r : Request) (p : Progress) :
    Prop where
  resolves : Query.Resolves base p.query
  key : p.query.key = base.key
  keyCondition : p.query.keyCondition = base.keyCondition
  keys : p.keys = (split t taking {} (r.condition.marked true)).1
  valid : ∀ leaf ∈ r.condition.marked true, leaf.1.validate = .ok ()
  filters : p.query.Filters (split t taking {} (r.condition.marked true)).2

/-- **A pass over a base without a filter filters by the leaves that it does not take.** -/
theorem compilePass_passed (hfilter : base.filter = none)
    (h : compilePass t base r taking = .ok p) : Passed t taking base r p := by
  have hadded := compilePass_added h
  obtain ⟨added, expressions, hexpresses, hjoined, hadds⟩ := hadded.filter
  rw [filterWith_of_none hfilter] at hadds
  exact ⟨hadded.resolves, hadded.key, hadded.keyCondition, hadded.keys, hadded.valid, expressions,
    hexpresses, hadds.symm ▸ hjoined⟩

end Passes

end KeyValue

end StoreQuery
