import StoreQuery.Proofs.Condition.Meaning
import StoreQuery.Proofs.KeyValue.Formula
import StoreQuery.Proofs.KeyValue.Lexical

/-!
# What expressions mean

The tokens of a formula are looked up in the dictionaries of the query (`Formula.resolve?`). Given
which tests come out true, the formula is then true or false (`Formula.truth`). A test for null is
written as two tests in parentheses, but it is one question about a property, so its truth is given
as a whole.

**The expression of a comparison is a piece that says what the comparison says**
(`Expresses.reads`).
-/

namespace StoreQuery.KeyValue

/-! ## Tokens -/

/-- The test with what its tokens stand for. -/
def Test.resolve? (q : Query) : Test String → Option (Test Attribute)
  | .compare s n v => do some (.compare s (← q.names.find? n) (← q.values.find? v))
  | .call f n v => do some (.call f (← q.names.find? n) (← q.values.find? v))
  | .between n v w => do
    some (.between (← q.names.find? n) (← q.values.find? v) (← q.values.find? w))
  | .among n vs => do some (.among (← q.names.find? n) (← vs.mapM q.values.find?))
  | .present n => (q.names.find? n).map .present
  | .absent n => (q.names.find? n).map .absent

/-- The formula with what its tokens stand for. -/
def Formula.resolve? (q : Query) : Formula String → Option (Formula Attribute)
  | .test t => (t.resolve? q).map .test
  | .not f => (f.resolve? q).map .not
  | .and f g => do some (.and (← f.resolve? q) (← g.resolve? q))
  | .or f g => do some (.or (← f.resolve? q) (← g.resolve? q))

/-! ## Truth -/

/-- A question about a property that is answered as a whole. -/
inductive Atom where
  | test (t : Test Attribute)
  | vacant (field : String)
  | filled (field : String)

namespace Formula

/-- The question that two tests together are about, if they test a property for null. -/
def nullTest? : Formula Attribute → Option Atom
  | .or (.test (.absent field)) (.test (.compare symbol other (.null true))) =>
    if symbol = "=" ∧ other = field then some (.vacant field) else none
  | .and (.test (.present field)) (.test (.compare symbol other (.null true))) =>
    if symbol = "<>" ∧ other = field then some (.filled field) else none
  | _ => none

/-- Whether a formula is true, given the answers to all questions. -/
def truth (holds : Atom → Bool) : Formula Attribute → Bool
  | .test t => holds (.test t)
  | .not f => !truth holds f
  | .and f g =>
    match nullTest? (.and f g) with
    | some atom => holds atom
    | none => truth holds f && truth holds g
  | .or f g =>
    match nullTest? (.or f g) with
    | some atom => holds atom
    | none => truth holds f || truth holds g

/-- The formula is not the first half of a test for null. -/
def Whole (f : Formula Attribute) : Prop :=
  ∀ g, nullTest? (.and f g) = none ∧ nullTest? (.or f g) = none

variable {f g : Formula Attribute} {holds : Atom → Bool}

theorem whole_not (f : Formula Attribute) : (Formula.not f).Whole := fun _ => ⟨rfl, rfl⟩

theorem whole_joined (k : Connective) (f g : Formula Attribute) : (joined k f g).Whole := by
  cases k <;> exact fun _ => ⟨rfl, rfl⟩

theorem truth_joined (k : Connective) (h : f.Whole) :
    (joined k f g).truth holds = k.apply (f.truth holds) (g.truth holds) := by
  cases k with
  | and => rw [joined, truth, (h g).1]; rfl
  | or => rw [joined, truth, (h g).2]; rfl

end Formula

/-- What a comparison says, given the answers to all questions. -/
def answer (holds : Atom → Bool) (c : Comparison) : Bool :=
  let field := c.path.toText
  let value := Attribute.ofScalar (c.value.asScalar?.getD .null)
  let values := (c.value.asList?.getD []).map Attribute.ofScalar
  match c.operator with
  | .eq => holds (.test (.compare "=" field value))
  | .neq => holds (.test (.compare "<>" field value))
  | .lt => holds (.test (.compare "<" field value))
  | .lte => holds (.test (.compare "<=" field value))
  | .gt => holds (.test (.compare ">" field value))
  | .gte => holds (.test (.compare ">=" field value))
  | .starts => holds (.test (.call "begins_with" field value))
  | .contains => holds (.test (.call "contains" field value))
  | .notContains => !holds (.test (.call "contains" field value))
  | .between =>
    holds (.test (.between field (values.getD 0 (.null true)) (values.getD 1 (.null true))))
  | .isIn => holds (.test (.among field values))
  | .notIn => !holds (.test (.among field values))
  | .isNull => holds (.vacant field)
  | .notNull => holds (.filled field)
  | .ends | .eqLower | .neqLower | .startsLower | .endsLower | .containsLower
  | .notContainsLower | .inLower | .notInLower => false

/-! ## Statements of texts -/

/-- A formula over tokens makes a statement. -/
def States (q : Query) (f : Formula String) (statement : (Atom → Bool) → Bool) : Prop :=
  ∃ g, f.resolve? q = some g ∧ g.Whole ∧ ∀ holds, g.truth holds = statement holds

namespace States

variable {q : Query} {f g : Formula String} {a b : (Atom → Bool) → Bool}

theorem congr (h : States q f a) (hab : ∀ holds, a holds = b holds) : States q f b := by
  obtain ⟨f', hf, hwhole, htruth⟩ := h
  exact ⟨f', hf, hwhole, fun holds => (htruth holds).trans (hab holds)⟩

theorem test {t : Test String} {t' : Test Attribute} (h : t.resolve? q = some t')
    (hwhole : (Formula.test t').Whole) : States q (.test t) fun holds => holds (.test t') :=
  ⟨.test t', by rw [Formula.resolve?, h]; rfl, hwhole, fun _ => rfl⟩

theorem not (h : States q f a) : States q (.not f) fun holds => !a holds := by
  obtain ⟨f', hf, -, htruth⟩ := h
  refine ⟨.not f', by rw [Formula.resolve?, hf]; rfl, Formula.whole_not f', fun holds => ?_⟩
  rw [Formula.truth, htruth]

theorem joined (k : Connective) (hf : States q f a) (hg : States q g b) :
    States q (.joined k f g) fun holds => k.apply (a holds) (b holds) := by
  obtain ⟨f', hf, hwhole, hftruth⟩ := hf
  obtain ⟨g', hg, -, hgtruth⟩ := hg
  refine ⟨.joined k f' g', ?_, Formula.whole_joined k f' g', fun holds => ?_⟩
  · cases k <;> rw [Formula.joined, Formula.resolve?, hf, hg] <;> rfl
  · rw [Formula.truth_joined k hwhole, hftruth, hgtruth]

end States

/-! ## Comparisons -/

section Comparisons

open Query

variable {q : Query} {c : Comparison} {text : String}

theorem answer_compare {symbol : String} {value : Scalar} (hop : symbol? c.operator = some symbol)
    (hvalue : c.value = .one value) (holds : Atom → Bool) :
    answer holds c = holds (.test (.compare symbol c.path.toText (.ofScalar value))) := by
  rw [answer, hvalue]
  cases hcase : c.operator <;> rw [hcase] at hop <;> cases hop <;> rfl

theorem answer_call {function : String} {value : Scalar}
    (hop : function? c.operator = some function) (hvalue : c.value = .one value)
    (holds : Atom → Bool) :
    answer holds c = holds (.test (.call function c.path.toText (.ofScalar value))) := by
  rw [answer, hvalue]
  cases hcase : c.operator <;> rw [hcase] at hop <;> cases hop <;> rfl

theorem kindsOf_symbol {op : Operator} {symbol : String} (h : symbol? op = some symbol) :
    kindsOf symbol = [.symbol symbol] := by
  cases op <;> cases h <;> decide

theorem kindsOf_function {op : Operator} {function : String} (h : function? op = some function) :
    kindsOf function = [.function function] := by
  cases op <;> cases h <;> decide

/-- Tokens that stand for values are looked up. -/
theorem Query.BindsAll.mapM {tokens : List String} {values : List Scalar}
    (h : q.BindsAll tokens values) : tokens.mapM q.values.find? = some (values.map .ofScalar) := by
  induction h with
  | nil => rfl
  | cons htoken _ ih => rw [List.mapM_cons, ih, htoken]; rfl

theorem Query.BindsAll.isToken {tokens : List String} {values : List Scalar}
    (h : q.BindsAll tokens values) (hlexical : q.Lexical) :
    ∀ token ∈ tokens, IsToken ':' token := by
  induction h with
  | nil => exact nofun
  | cons htoken _ ih => exact List.forall_mem_cons.2 ⟨hlexical.values _ _ htoken, ih⟩

/-- A list that an operator accepts has items. -/
theorem tokens_ne_nil {tokens : List String} {values : List Scalar} (h : q.BindsAll tokens values)
    (hvalid : c.validate = .ok ()) (hvalue : c.value = .many values)
    (hop : c.operator = .isIn ∨ c.operator = .notIn) : tokens ≠ [] := by
  rintro rfl
  cases h
  rw [Comparison.validate, hvalue] at hvalid
  rcases hop with hop | hop <;> rw [hop] at hvalid <;> cases hvalid

/-- Two tokens stand for two values. -/
theorem Query.BindsAll.two {low high : String} {values : List Scalar}
    (h : q.BindsAll [low, high] values) : ∃ v w, values = [v, w] ∧
      q.Binds low (.ofScalar v) ∧ q.Binds high (.ofScalar w) := by
  cases h with
  | cons hlow h =>
    cases h with
    | cons hhigh h =>
      cases h
      exact ⟨_, _, rfl, hlow, hhigh⟩

/-- Tokens of a name and of values are looked up. -/
theorem states_among {name field : String} {tokens : List String} {values : List Scalar}
    (hname : q.Names name field) (htokens : q.BindsAll tokens values) :
    States q (.test (.among name tokens)) fun holds =>
      holds (.test (.among field (values.map .ofScalar))) :=
  .test (by rw [Test.resolve?, hname, htokens.mapM]; rfl) fun _ => ⟨rfl, rfl⟩

theorem states_call {function name token field : String} {value : Attribute}
    (hname : q.Names name field) (htoken : q.Binds token value) :
    States q (.test (.call function name token)) fun holds =>
      holds (.test (.call function field value)) :=
  .test (by rw [Test.resolve?, hname, htoken]; rfl) fun _ => ⟨rfl, rfl⟩

theorem states_compare {symbol name token field : String} {value : Scalar}
    (hname : q.Names name field) (htoken : q.Binds token (.ofScalar value)) :
    States q (.test (.compare symbol name token)) fun holds =>
      holds (.test (.compare symbol field (.ofScalar value))) :=
  .test (by rw [Test.resolve?, hname, htoken]; rfl) fun _ => ⟨rfl, rfl⟩

theorem states_between {name low high field : String} {v w : Attribute}
    (hname : q.Names name field) (hlow : q.Binds low v) (hhigh : q.Binds high w) :
    States q (.test (.between name low high)) fun holds => holds (.test (.between field v w)) :=
  .test (by rw [Test.resolve?, hname, hlow, hhigh]; rfl) fun _ => ⟨rfl, rfl⟩

/-- Two tests for null are one question. -/
theorem states_vacant {name token field : String} (hname : q.Names name field)
    (htoken : q.Binds token (.null true)) :
    States q (.or (.test (.absent name)) (.test (.compare "=" name token))) fun holds =>
      holds (.vacant field) := by
  refine ⟨.or (.test (.absent field)) (.test (.compare "=" field (.null true))), ?_,
    Formula.whole_joined .or _ _, fun holds => ?_⟩
  · simp only [Formula.resolve?, Test.resolve?]
    rw [hname, htoken]
    rfl
  · simp [Formula.truth, Formula.nullTest?]

theorem states_filled {name token field : String} (hname : q.Names name field)
    (htoken : q.Binds token (.null true)) :
    States q (.and (.test (.present name)) (.test (.compare "<>" name token))) fun holds =>
      holds (.filled field) := by
  refine ⟨.and (.test (.present field)) (.test (.compare "<>" field (.null true))), ?_,
    Formula.whole_joined .and _ _, fun holds => ?_⟩
  · simp only [Formula.resolve?, Test.resolve?]
    rw [hname, htoken]
    rfl
  · simp [Formula.truth, Formula.nullTest?]

/-- **The expression of a comparison is a piece that says what the comparison says.** -/
theorem Query.Expresses.reads (h : q.Expresses c text) (hlexical : q.Lexical)
    (hnull : q.null = .null true) (hvalid : c.validate = .ok ()) :
    ∃ f, Piece (kindsOf text) f ∧ States q f fun holds => answer holds c := by
  have hnames := fun {token field} => hlexical.names token field
  have hvalues := fun {token value} => hlexical.values token value
  cases h with
  | compare hop hname hvalue htoken =>
    refine ⟨_, piece_compare (hnames hname) (hvalues htoken) (kindsOf_symbol hop),
      (states_compare hname htoken).congr fun holds => ?_⟩
    exact (answer_compare hop hvalue holds).symm
  | call hop hname hvalue htoken =>
    refine ⟨_, piece_call (hnames hname) (hvalues htoken) (kindsOf_function hop),
      (states_call hname htoken).congr fun holds => ?_⟩
    exact (answer_call hop hvalue holds).symm
  | notContains hop hname hvalue htoken =>
    have hfunction : kindsOf "contains" = [.function "contains"] := by decide
    refine ⟨_, (piece_call (hnames hname) (hvalues htoken) hfunction).notText,
      (states_call hname htoken).not.congr fun holds => ?_⟩
    rw [answer, hop, hvalue]
    rfl
  | between hop hname hvalue htokens =>
    obtain ⟨v, w, rfl, hlow, hhigh⟩ := htokens.two
    refine ⟨_, piece_between (hnames hname) (hvalues hlow) (hvalues hhigh),
      (states_between hname hlow hhigh).congr fun holds => ?_⟩
    rw [answer, hop, hvalue]
    rfl
  | isIn hop hname hvalue htokens =>
    have hne := tokens_ne_nil htokens hvalid hvalue (.inl hop)
    refine ⟨_, piece_among (hnames hname) (htokens.isToken hlexical) hne,
      (states_among hname htokens).congr fun holds => ?_⟩
    rw [answer, hop, hvalue]
    rfl
  | @notIn name tokens values hop hname hvalue htokens =>
    have hne := tokens_ne_nil htokens hvalid hvalue (.inr hop)
    have hamong := piece_among (hnames hname) (htokens.isToken hlexical) hne
    -- The parentheses belong to the list, not to the negation.
    have hnot : "NOT (" ++ (name ++ " IN (" ++ Text.join ", " tokens ++ ")") ++ ")" =
        "NOT " ++ ("(" ++ (name ++ " IN (" ++ Text.join ", " tokens ++ ")") ++ ")") := by
      simp only [String.append_assoc]
      rfl
    rw [hnot]
    refine ⟨_, hamong.filling.parenthesesText.notText,
      (states_among hname htokens).not.congr fun holds => ?_⟩
    rw [answer, hop, hvalue]
    rfl
  | isNull hop hname hbound =>
    rw [hnull] at hbound
    refine ⟨_, piece_vacant (hnames hname) isToken_nullToken,
      (states_vacant hname hbound).congr fun holds => ?_⟩
    rw [answer, hop]
  | notNull hop hname hbound =>
    rw [hnull] at hbound
    refine ⟨_, piece_filled (hnames hname) isToken_nullToken,
      (states_filled hname hbound).congr fun holds => ?_⟩
    rw [answer, hop]

end Comparisons

end StoreQuery.KeyValue
