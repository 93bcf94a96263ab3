import StoreQuery.Proofs.KeyValue.FilterText
import StoreQuery.Proofs.KeyValue.Values

/-!
# What expressions are made of

A text is clean if each of its words is one of the store's own (`vocabulary`) or a token, that is
`#` or `:` and nothing but ASCII letters, digits and underscores. Blanks apart, a text is the words
in it (`flatten_words`), so a clean text holds nothing else.

* Names and values that a lexical query knows are clean, and so is what is put together from them
  with keywords and punctuation that keep to themselves (`Query.Expresses.clean`,
  `JoinedAll.clean`).
* Every expression of a request on an empty base is clean (`Outcome.clean`).

With what two requests that differ in their values have in common this says that **expressions never
carry a client's text** (`build_expressions`).
-/

namespace StoreQuery.KeyValue

/-! ## Clean texts -/

/-- The word is one of the store's own or a token. -/
def Known (word : String) : Prop :=
  word ∈ vocabulary.map (·.1) ∨ IsToken '#' word ∨ IsToken ':' word

/-- Every word of the text is known. -/
def Clean (text : String) : Prop := ∀ word ∈ wordsOf text, Known word

variable {a b text : String}

theorem clean_of_name (h : IsToken '#' text) : Clean text := by
  intro word hword
  rw [h.wordsOf (.inl rfl), List.mem_singleton] at hword
  exact .inr (.inl (hword ▸ h))

theorem clean_of_value (h : IsToken ':' text) : Clean text := by
  intro word hword
  rw [h.wordsOf (.inr rfl), List.mem_singleton] at hword
  exact .inr (.inr (hword ▸ h))

theorem clean_of_own (h : ∀ word ∈ wordsOf text, word ∈ vocabulary.map (·.1)) : Clean text :=
  fun word hword => .inl (h word hword)

namespace Clean

theorem before (ha : Clean a) (hb : Clean b) (hend : endsApart a = true) : Clean (a ++ b) := by
  intro word hword
  rw [wordsOf_before hend] at hword
  exact (List.mem_append.1 hword).elim (ha word) (hb word)

theorem behind (ha : Clean a) (hb : Clean b) (hstart : beginsApart b = true) : Clean (a ++ b) := by
  intro word hword
  rw [wordsOf_behind hstart] at hword
  exact (List.mem_append.1 hword).elim (ha word) (hb word)

theorem around {separator : String} (ha : Clean a) (hb : Clean b) (hseparator : Clean separator)
    (hstart : beginsApart separator = true) (hend : endsApart separator = true) :
    Clean (a ++ separator ++ b) := by
  intro word hword
  rw [wordsOf_around hstart hend] at hword
  rcases List.mem_append.1 hword with hword | hword
  · exact (List.mem_append.1 hword).elim (ha word) (hseparator word)
  · exact hb word hword

theorem join {separator : String} (hseparator : Clean separator)
    (hstart : beginsApart separator = true) (hend : endsApart separator = true)
    {texts : List String} (h : ∀ text ∈ texts, Clean text) : Clean (Text.join separator texts) := by
  induction texts with
  | nil => exact nofun
  | cons text texts ih =>
    obtain ⟨htext, htexts⟩ := List.forall_mem_cons.1 h
    by_cases hlast : texts = []
    · rw [hlast]
      exact htext
    · rw [Text.join_cons separator hlast]
      exact htext.around (ih htexts) hseparator hstart hend

theorem parentheses (h : Clean text) : Clean ("(" ++ text ++ ")") := by
  have hopening : Clean "(" := clean_of_own (by decide)
  have hclosing : Clean ")" := clean_of_own (by decide)
  exact (hopening.before h (by decide)).behind hclosing (by decide)

end Clean

/-! ## Expressions -/

/-- A symbol or a function that stands for an operator is one of the store's own. -/
theorem clean_symbol {op : Operator} {symbol : String} (h : Query.symbol? op = some symbol) :
    Clean symbol := by
  refine clean_of_own ?_
  cases op <;> cases h <;> decide

theorem clean_function {op : Operator} {function : String}
    (h : Query.function? op = some function) : Clean function := by
  refine clean_of_own ?_
  cases op <;> cases h <;> decide

theorem clean_call {function name token : String} (hfunction : Clean function)
    (hname : IsToken '#' name) (htoken : IsToken ':' token) :
    Clean (function ++ "(" ++ name ++ ", " ++ token ++ ")") := by
  have hopening : Clean "(" := clean_of_own (by decide)
  have hcomma : Clean ", " := clean_of_own (by decide)
  have hclosing : Clean ")" := clean_of_own (by decide)
  have hstart := hfunction.around (clean_of_name hname) hopening (by decide) (by decide)
  have hboth := hstart.around (clean_of_value htoken) hcomma (by decide) (by decide)
  exact hboth.behind hclosing (by decide)

theorem clean_among {name : String} {tokens : List String} (hname : IsToken '#' name)
    (htokens : ∀ token ∈ tokens, IsToken ':' token) :
    Clean (name ++ " IN (" ++ Text.join ", " tokens ++ ")") := by
  have hin : Clean " IN (" := clean_of_own (by decide)
  have hcomma : Clean ", " := clean_of_own (by decide)
  have hclosing : Clean ")" := clean_of_own (by decide)
  have hitems : Clean (Text.join ", " tokens) := hcomma.join (by decide) (by decide)
    fun token htoken => clean_of_value (htokens token htoken)
  exact ((clean_of_name hname).around hitems hin (by decide) (by decide)).behind hclosing
    (by decide)

/-- A test for null: a function of a name, a connective, and a comparison with null. -/
theorem clean_nullTest {start between symbol name : String} (hname : IsToken '#' name)
    (hstart : Clean start) (hstarts : endsApart start = true) (hbetween : Clean between)
    (hbegins : beginsApart between = true) (hends : endsApart between = true)
    (hsymbol : Clean symbol) (hleft : beginsApart symbol = true)
    (hright : endsApart symbol = true) :
    Clean (start ++ name ++ between ++ name ++ symbol ++ Query.nullToken ++ ")") := by
  have hclosing : Clean ")" := clean_of_own (by decide)
  have hnull : Clean Query.nullToken := clean_of_value Query.isToken_nullToken
  have hfirst := hstart.before (clean_of_name hname) hstarts
  have hsecond := hfirst.around (clean_of_name hname) hbetween hbegins hends
  exact (hsecond.around hnull hsymbol hleft hright).behind hclosing (by decide)

/-- **The expression of a comparison is clean.** -/
theorem Query.Expresses.clean {q : Query} {c : Comparison} (h : q.Expresses c text)
    (hlexical : q.Lexical) : Clean text := by
  have hnames := fun {token field} => hlexical.names token field
  have hvalues := fun {token value} => hlexical.values token value
  have hblank : Clean " " := clean_of_own (by decide)
  cases h with
  | @compare name symbol token value hop hname _ htoken =>
    have hleft := (clean_of_name (hnames hname)).around (clean_symbol hop) hblank (by decide)
      (by decide)
    exact hleft.around (clean_of_value (hvalues htoken)) hblank (by decide) (by decide)
  | call hop hname _ htoken => exact clean_call (clean_function hop) (hnames hname) (hvalues htoken)
  | notContains _ hname _ htoken =>
    have hnot : Clean "NOT " := clean_of_own (by decide)
    have hcontains : Clean "contains" := clean_of_own (by decide)
    exact hnot.before (clean_call hcontains (hnames hname) (hvalues htoken)) (by decide)
  | between _ hname _ htokens =>
    obtain ⟨v, w, rfl, hlow, hhigh⟩ := htokens.two
    have hbetween : Clean " BETWEEN " := clean_of_own (by decide)
    have hand : Clean " AND " := clean_of_own (by decide)
    have hleft := (clean_of_name (hnames hname)).around (clean_of_value (hvalues hlow)) hbetween
      (by decide) (by decide)
    exact hleft.around (clean_of_value (hvalues hhigh)) hand (by decide) (by decide)
  | isIn _ hname _ htokens => exact clean_among (hnames hname) (htokens.isToken hlexical)
  | notIn _ hname _ htokens =>
    have hnot : Clean "NOT (" := clean_of_own (by decide)
    have hclosing : Clean ")" := clean_of_own (by decide)
    exact (hnot.before (clean_among (hnames hname) (htokens.isToken hlexical))
      (by decide)).behind hclosing (by decide)
  | isNull _ hname _ =>
    exact clean_nullTest (hnames hname) (clean_of_own (by decide)) (by decide)
      (clean_of_own (by decide)) (by decide) (by decide) (clean_of_own (by decide)) (by decide)
      (by decide)
  | notNull _ hname _ =>
    exact clean_nullTest (hnames hname) (clean_of_own (by decide)) (by decide)
      (clean_of_own (by decide)) (by decide) (by decide) (clean_of_own (by decide)) (by decide)
      (by decide)

theorem clean_of_expressed {q : Query} {leaves : List Comparison} {texts : List String}
    (h : List.Forall₂ q.Expresses leaves texts) (hlexical : q.Lexical) :
    ∀ text ∈ texts, Clean text := by
  induction h with
  | nil => exact nofun
  | cons hfirst _ ih => exact List.forall_mem_cons.2 ⟨hfirst.clean hlexical, ih⟩

theorem clean_between (k : Connective) {texts : List String} (h : ∀ text ∈ texts, Clean text) :
    Clean (Text.join (Connective.between k) texts) := by
  cases k with
  | and | or => exact (clean_of_own (by decide)).join (by decide) (by decide) h

mutual

theorem Joined.clean {es : List String} {text : String} (h : Joined es text)
    (hes : ∀ e ∈ es, Clean e) : Clean text :=
  match h with
  | .expression text => hes text (List.mem_singleton_self text)
  | .bracket k hall _ => clean_between k (JoinedAll.clean hall hes)
  | .parentheses hinner => (Joined.clean hinner hes).parentheses

theorem JoinedAll.clean {es texts : List String} (h : JoinedAll es texts)
    (hes : ∀ e ∈ es, Clean e) : ∀ text ∈ texts, Clean text :=
  match h with
  | .nil => nofun
  | .cons hfirst hrest =>
    List.forall_mem_cons.2 ⟨Joined.clean hfirst fun e he => hes e (List.mem_append_left _ he),
      JoinedAll.clean hrest fun e he => hes e (List.mem_append_right _ he)⟩

end

theorem Query.Filters.clean {q : Query} {leaves : List Comparison} (h : q.Filters leaves)
    (hlexical : q.Lexical) : ∀ text ∈ q.filter.toList, Clean text := by
  obtain ⟨expressions, hexpresses, hjoined⟩ := h
  exact hjoined.clean (clean_of_expressed hexpresses hlexical)

/-! ## Projections -/

theorem mem_of_mem_distinct {item : String} {items : List String} {seen : List String}
    (h : item ∈ Query.distinct seen items) : item ∈ items := by
  induction items generalizing seen with
  | nil => exact h
  | cons first rest ih =>
    rw [Query.distinct] at h
    split at h
    · exact List.mem_cons_of_mem _ (ih h)
    · rcases List.mem_cons.1 h with rfl | h
      · exact List.mem_cons_self ..
      · exact List.mem_cons_of_mem _ (ih h)

variable {t : Table} {taking : Bool} {base q : Query} {r : Request} {p : Progress}

theorem projection_withOrder (q : Query) :
    (withOrder t q r).projection = q.projection := by
  rw [withOrder]
  split <;> rfl

theorem projection_withLimit (q : Query) (limit : Option UInt64) :
    (withLimit q limit).projection = q.projection := by
  cases limit with
  | none => rfl
  | some limit =>
    rw [withLimit]
    split <;> rfl

theorem projection_addFilter (q : Query) (expression : String) :
    (q.addFilter expression).projection = q.projection := by
  rw [Query.addFilter]
  split <;> rfl

/-- The projection to selected properties is clean. -/
theorem clean_withProjection (hlexical : base.Lexical) (hprojection : base.projection = none)
    (select : List Path) : ∀ text ∈ (withProjection base select).projection.toList, Clean text := by
  rw [withProjection]
  split
  · rw [hprojection]
    exact List.forall_mem_nil _
  · have hnone : (registerNames base select).2.projection = none := by
      rw [(Query.extends_registerNames select base).frame]
      exact hprojection
    obtain ⟨-, htokens⟩ := hlexical.registerNames select
    have hcomma : Clean ", " := clean_of_own (by decide)
    show ∀ text ∈ ((registerNames base select).2.addProjection
      (registerNames base select).1).projection.toList, Clean text
    rw [Query.addProjection, Query.projectionItems, hnone, List.nil_append]
    intro text htext
    obtain rfl := List.mem_singleton.1 htext
    refine hcomma.join (by decide) (by decide) fun token htoken => ?_
    exact clean_of_name (htokens token (mem_of_mem_distinct htoken))

/-- Nothing but the selected properties is projected to. -/
theorem projection_compilePass (h : compilePass t base r taking = .ok p) :
    p.query.projection = (withProjection (withTable t base) r.select).projection := by
  obtain ⟨filter, progress, hrun, rfl⟩ := compilePass_cases h
  have hprogress : progress.query.projection =
      (withProjection (withTable t base) r.select).projection := by
    rw [(compileAt_compiled .root r.condition hrun).query.frame]
  rw [projection_withLimit]
  cases filter with
  | none => exact hprogress
  | some expression => exact (projection_addFilter _ expression).trans hprogress

/-! ## Reads -/

/-- The expressions of a read. -/
def Query.expressions (q : Query) : List String :=
  q.keyCondition.toList ++ (q.filter.toList ++ q.projection.toList)

theorem compilePass_clean (hfilter : base.filter = none) (hprojection : base.projection = none)
    (hlexical : base.Lexical) (h : compilePass t base r taking = .ok p) :
    ∀ text ∈ p.query.filter.toList ++ p.query.projection.toList, Clean text := by
  refine List.forall_mem_append.2 ⟨?_, ?_⟩
  · exact (compilePass_passed hfilter h).filters.clean (compilePass_lexical hlexical h)
  · have hstart : (withTable t base).projection = none := by
      rw [withTable]
      split <;> exact hprojection
    rw [projection_compilePass h]
    exact clean_withProjection hlexical.withTable hstart r.select

theorem keyCondition_clean {value : Scalar} {keys : Keys} {condition : String}
    (hlexical : base.Lexical) (h : keyCondition t value keys base = .ok condition q) :
    Clean condition := by
  obtain ⟨-, expressions, hexpresses, rfl⟩ :=
    keyCondition_yields (p := ⟨t.partitionPath, .eq, .one value⟩) rfl rfl rfl condition q h
  have hand : Clean " AND " := clean_of_own (by decide)
  exact hand.join (by decide) (by decide)
    (clean_of_expressed hexpresses (keyCondition_keeps t value keys _ _ _ h hlexical))

/-- **The expressions of a read are clean.** -/
theorem Outcome.clean (hkeyCondition : base.keyCondition = none) (hfilter : base.filter = none)
    (hprojection : base.projection = none) (hlexical : base.Lexical)
    (hpass : compilePass t base r true = .ok p) (h : Outcome t base r p q) :
    ∀ text ∈ q.expressions, Clean text := by
  have hpassed := compilePass_passed hfilter hpass
  have hparts := compilePass_clean hfilter hprojection hlexical hpass
  cases h with
  | scan =>
    rw [Query.expressions, hpassed.keyCondition, hkeyCondition]
    exact hparts
  | whole _ hwhole =>
    rw [Query.expressions, (compilePass_passed hfilter hwhole).keyCondition, hkeyCondition]
    exact compilePass_clean hfilter hprojection hlexical hwhole
  | lookup =>
    rw [Query.expressions, hpassed.keyCondition, hkeyCondition]
    exact hparts
  | @query value condition q _ _ hrun =>
    have hcondition := keyCondition_clean (compilePass_lexical hlexical hpass) hrun
    obtain ⟨hext, -⟩ := keyCondition_yields (p := ⟨t.partitionPath, .eq, .one value⟩) rfl rfl rfl
      condition q hrun
    obtain ⟨-, -, hkeyCondition', hfilter'⟩ := resolves_of_keyCondition (r := r) hrun
    have hprojection' : q.projection = p.query.projection := by rw [hext.frame]
    rw [Query.expressions, hkeyCondition', hfilter', projection_withOrder, hprojection']
    exact List.forall_mem_cons.2 ⟨hcondition, hparts⟩

/-- **Expressions never carry a client's text.** Requests that differ in their values become calls
of one kind, with the same expressions, the same names and the same value tokens; and from an empty
base every word of an expression is one of the store's own or a token. -/
theorem build_expressions (t : Table) :
    (∀ (base q q' : Query) (r r' : Request), r.Alike Operand.Similar r' →
      build t base r = .ok q → build t base r' = .ok q' →
        q.kind = q'.kind ∧ q.keyCondition = q'.keyCondition ∧ q.filter = q'.filter ∧
          q.projection = q'.projection ∧ q.names = q'.names ∧ q.values.keys = q'.values.keys) ∧
    ∀ (tableName : String) (q : Query) (r : Request), build t { tableName } r = .ok q →
      ∀ text ∈ q.expressions, ∀ word ∈ wordsOf text,
        word ∈ vocabulary.map (·.1) ∨ IsToken '#' word ∨ IsToken ':' word := by
  constructor
  · intro base q q' r r' halike hbuild hbuild'
    obtain ⟨hkind, hkeyCondition, hfilter, hprojection, hnames, hvalues⟩ :=
      build_showsLike halike hbuild hbuild'
    exact ⟨hkind, hkeyCondition, hfilter, hprojection, hnames, hvalues⟩
  · intro tableName q r hbuild
    obtain ⟨p, hpass, houtcome⟩ := buildFree_outcome hbuild
    exact houtcome.clean rfl rfl rfl (Query.lexical_of tableName) hpass

/-- Names of a partition that contain a text under a path that is an expression itself, or that are
among some others. -/
def asked (text : String) (others : List Scalar) : Request where
  select := [⟨["name"]⟩]
  condition := .group .and [.leaf ⟨⟨["pk"]⟩, .eq, .one (.text text)⟩,
    .group .or [.leaf ⟨⟨["a) OR (#b"]⟩, .contains, .one (.text text)⟩,
      .leaf ⟨⟨["name"]⟩, .isIn, .many others⟩]]

def modest : Request := asked "x" [.int 1, .int 2]

def hostile : Request := asked ":pk OR #pk = :pk" [.text ":name_0", .null]

/-- A path and values that try to add alternatives add none. -/
theorem build_expressions_hostile :
    modest.Alike Operand.Similar hostile ∧
      ∃ q q', build sorted { tableName := "" } modest = .ok q ∧
        build sorted { tableName := "" } hostile = .ok q' ∧
        (q.kind = q'.kind ∧ q.keyCondition = q'.keyCondition ∧ q.filter = q'.filter ∧
          q.projection = q'.projection ∧ q.names = q'.names ∧ q.values.keys = q'.values.keys) ∧
        q'.filter = some "(contains(#a__OR___b, :a__OR___b) OR #name IN (:name_0, :name_1))" ∧
        ∀ text ∈ q'.expressions, ∀ word ∈ wordsOf text,
          word ∈ vocabulary.map (·.1) ∨ IsToken '#' word ∨ IsToken ':' word := by
  have halike : modest.Alike Operand.Similar hostile := by
    refine ⟨.group .and (.cons (.leaf _ _ (.one _ _)) (.cons ?_ .nil)), rfl⟩
    exact .group .or (.cons (.leaf _ _ (.one _ _)) (.cons (.leaf _ _ (.many rfl)) .nil))
  have hrun : (build sorted { tableName := "" } modest).toOption.isSome = true := by
    decide +kernel
  have hrun' : (build sorted { tableName := "" } hostile).toOption.map (·.filter) =
      some (some "(contains(#a__OR___b, :a__OR___b) OR #name IN (:name_0, :name_1))") := by
    decide +kernel
  obtain ⟨halways, hempty⟩ := build_expressions sorted
  cases hbuild : build sorted { tableName := "" } modest with
  | error e => rw [hbuild] at hrun; cases hrun
  | ok q =>
    cases hbuild' : build sorted { tableName := "" } hostile with
    | error e => rw [hbuild'] at hrun'; cases hrun'
    | ok q' =>
      rw [hbuild'] at hrun'
      exact ⟨halike, q, q', rfl, rfl, halways _ q q' _ _ halike hbuild hbuild',
        Option.some.inj hrun', hempty "" q' _ hbuild'⟩

end StoreQuery.KeyValue
