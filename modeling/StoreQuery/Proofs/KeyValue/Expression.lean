import StoreQuery.KeyValue.Compile
import StoreQuery.Proofs.KeyValue.Tokens
import StoreQuery.Proofs.Success
import Mathlib.Data.List.Forall2

/-!
# Expressions of leaves

`Expresses q c text` says that a text is the expression of a comparison: its name token stands for
the property and its value tokens stand for the values in the dictionaries of the query.

Compiling a leaf adds tokens and changes nothing else (`Extends`), so expressions that were made
before keep their meaning (`Expresses.mono`). **A compiled leaf is expressed**
(`leafExpression_yields`, and `sortCondition_yields` for the key).
-/

namespace StoreQuery.KeyValue

namespace Query

/-- A name token stands for a property. -/
def Names (q : Query) (token field : String) : Prop := q.names.find? token = some field

/-- A value token stands for a value. -/
def Binds (q : Query) (token : String) (value : Attribute) : Prop :=
  q.values.find? token = some value

/-- What the token of null stands for, or will stand for. -/
def null (q : Query) : Attribute := (q.values.find? nullToken).getD (.null true)

/-- Every token of a query stands for the same in another one. -/
structure Resolves (q q' : Query) : Prop where
  names : ∀ token field, q.Names token field → q'.Names token field
  values : ∀ token value, q.Binds token value → q'.Binds token value
  null : q'.null = q.null

/-- Tokens were added to a query, and nothing else has changed. -/
structure Extends (q q' : Query) : Prop extends Resolves q q' where
  frame : q' = { q with names := q'.names, values := q'.values }

theorem Resolves.trans {q q' q'' : Query} (h : Resolves q q') (h' : Resolves q' q'') :
    Resolves q q'' :=
  ⟨fun t f ht => h'.names t f (h.names t f ht), fun t v ht => h'.values t v (h.values t v ht),
    h'.null.trans h.null⟩

namespace Extends

variable {q q' q'' : Query}

theorem refl (q : Query) : Extends q q := ⟨⟨fun _ _ h => h, fun _ _ h => h, rfl⟩, rfl⟩

theorem trans (h : Extends q q') (h' : Extends q' q'') : Extends q q'' :=
  ⟨h.toResolves.trans h'.toResolves, by rw [h'.frame, h.frame]⟩

theorem filter (h : Extends q q') : q'.filter = q.filter := by rw [h.frame]

theorem key (h : Extends q q') : q'.key = q.key := by rw [h.frame]

theorem keyCondition (h : Extends q q') : q'.keyCondition = q.keyCondition := by rw [h.frame]

end Extends

variable {q q' : Query} {token name : String}

/-- Registering a property makes a token stand for it. -/
theorem registerName_extends (q : Query) (path : Path) :
    Extends q (q.registerName path).2 ∧
      (q.registerName path).2.Names (q.registerName path).1 path.toText := by
  have hfits := nameFits_nameToken q path
  refine ⟨⟨⟨fun token field h => ?_, fun _ _ h => h, rfl⟩, rfl⟩, ?_⟩
  · rw [Names, registerName, Dict.find?_insert]
    split
    · rename_i htoken
      rw [← htoken, nameFits, h] at hfits
      rw [beq_iff_eq.1 hfits]
    · exact h
  · rw [Names, registerName, Dict.find?_insert, if_pos rfl]

/-- Binding a name that is not in use adds it. -/
theorem bind_extends {value : Attribute} (hfree : q.values.contains name = false)
    (hne : name ≠ nullToken) :
    Extends q (q.bind name value) ∧ (q.bind name value).Binds name value := by
  refine ⟨⟨⟨fun _ _ h => h, fun token v h => ?_, ?_⟩, rfl⟩, ?_⟩
  · rw [Binds, bind, Dict.find?_insert, if_neg]
    · exact h
    · rintro rfl
      rw [Dict.contains, h] at hfree
      cases hfree
  · rw [null, bind, Dict.find?_insert, if_neg (Ne.symm hne), null]
  · rw [Binds, bind, Dict.find?_insert, if_pos rfl]

/-- A name that is not in use stays so when another one is bound. -/
theorem contains_bind {value : Attribute} {other : String} (hne : other ≠ name) :
    (q.bind name value).values.contains other = q.values.contains other := by
  rw [Dict.contains, bind, Dict.find?_insert, if_neg hne, Dict.contains]

/-- Binding the token of null binds it to what it stands for. -/
theorem bindNull_extends (q : Query) :
    Extends q q.bindNull ∧ q.bindNull.Binds nullToken q.null := by
  rw [bindNull]
  cases hfind : q.values.find? nullToken with
  | some value =>
    have hcontains : q.values.contains nullToken = true := by rw [Dict.contains, hfind]; rfl
    rw [if_pos hcontains]
    exact ⟨.refl q, by rw [Binds, null, hfind]; rfl⟩
  | none =>
    have hcontains : q.values.contains nullToken = false := by rw [Dict.contains, hfind]; rfl
    rw [hcontains, if_neg (by simp)]
    have hnull : q.null = .null true := by rw [null, hfind]; rfl
    refine ⟨⟨⟨fun _ _ h => h, fun token v h => ?_, ?_⟩, rfl⟩, ?_⟩
    · rw [Binds, bind, Dict.find?_insert, if_neg]
      · exact h
      · rintro rfl
        cases hfind.symm.trans h
    · rw [hnull, null, bind, Dict.find?_insert, if_pos rfl]; rfl
    · rw [hnull, Binds, bind, Dict.find?_insert, if_pos rfl]

/-- What is free about a token that is not taken. -/
theorem free_of_not_taken {binding : Binding} (h : q.tokenTaken binding token = false) :
    token ≠ nullToken ∧ ∀ name ∈ binding.names token, q.values.contains name = false := by
  simp only [tokenTaken, Bool.or_eq_false_iff, beq_eq_false_iff_ne, List.any_eq_false,
    Bool.not_eq_true] at h
  exact ⟨h.1.1.1.1, h.2⟩

/-- Registering a value binds a token to it. -/
theorem registerValue_extends (q : Query) (path : Path) (value : Scalar) :
    Extends q (q.registerValue path value).2 ∧
      (q.registerValue path value).2.Binds (q.registerValue path value).1 (.ofScalar value) := by
  obtain ⟨hne, hfree⟩ := free_of_not_taken (tokenTaken_valueToken q path .single)
  rw [registerValue]
  generalize q.valueToken path .single = token at hne hfree ⊢
  exact bind_extends (hfree token (List.mem_singleton_self _)) hne

/-- The symbol between a property and a value. -/
def symbol? : Operator → Option String
  | .eq => some "="
  | .neq => some "<>"
  | .lt => some "<"
  | .lte => some "<="
  | .gt => some ">"
  | .gte => some ">="
  | _ => none

/-- The function of a property and a value. -/
def function? : Operator → Option String
  | .starts => some "begins_with"
  | .contains => some "contains"
  | _ => none

/-- Value tokens stand for values. -/
def BindsAll (q : Query) (tokens : List String) (values : List Scalar) : Prop :=
  List.Forall₂ (fun token value => q.Binds token (.ofScalar value)) tokens values

/-- A text is the expression of a comparison. -/
inductive Expresses (q : Query) (c : Comparison) : String → Prop
  | compare {name symbol token : String} {value : Scalar} (hop : symbol? c.operator = some symbol)
      (hname : q.Names name c.path.toText) (hvalue : c.value = .one value)
      (htoken : q.Binds token (.ofScalar value)) :
      Expresses q c (name ++ " " ++ symbol ++ " " ++ token)
  | call {name function token : String} {value : Scalar}
      (hop : function? c.operator = some function) (hname : q.Names name c.path.toText)
      (hvalue : c.value = .one value) (htoken : q.Binds token (.ofScalar value)) :
      Expresses q c (function ++ "(" ++ name ++ ", " ++ token ++ ")")
  | notContains {name token : String} {value : Scalar} (hop : c.operator = .notContains)
      (hname : q.Names name c.path.toText) (hvalue : c.value = .one value)
      (htoken : q.Binds token (.ofScalar value)) :
      Expresses q c ("NOT " ++ ("contains" ++ "(" ++ name ++ ", " ++ token ++ ")"))
  | between {name low high : String} {values : List Scalar} (hop : c.operator = .between)
      (hname : q.Names name c.path.toText) (hvalue : c.value = .many values)
      (htokens : q.BindsAll [low, high] values) :
      Expresses q c (name ++ " BETWEEN " ++ low ++ " AND " ++ high)
  | isIn {name : String} {tokens : List String} {values : List Scalar} (hop : c.operator = .isIn)
      (hname : q.Names name c.path.toText) (hvalue : c.value = .many values)
      (htokens : q.BindsAll tokens values) :
      Expresses q c (name ++ " IN (" ++ Text.join ", " tokens ++ ")")
  | notIn {name : String} {tokens : List String} {values : List Scalar} (hop : c.operator = .notIn)
      (hname : q.Names name c.path.toText) (hvalue : c.value = .many values)
      (htokens : q.BindsAll tokens values) :
      Expresses q c ("NOT (" ++ (name ++ " IN (" ++ Text.join ", " tokens ++ ")") ++ ")")
  | isNull {name : String} (hop : c.operator = .isNull) (hname : q.Names name c.path.toText)
      (hnull : q.Binds nullToken q.null) :
      Expresses q c
        ("(attribute_not_exists(" ++ name ++ ") OR " ++ name ++ " = " ++ nullToken ++ ")")
  | notNull {name : String} (hop : c.operator = .notNull) (hname : q.Names name c.path.toText)
      (hnull : q.Binds nullToken q.null) :
      Expresses q c
        ("(attribute_exists(" ++ name ++ ") AND " ++ name ++ " <> " ++ nullToken ++ ")")

theorem BindsAll.mono {tokens : List String} {values : List Scalar} (h : q.BindsAll tokens values)
    (hext : Resolves q q') : q'.BindsAll tokens values :=
  List.Forall₂.imp (fun _ _ => hext.values _ _) h

/-- Expressions keep their meaning when tokens are added. -/
theorem Expresses.mono {c : Comparison} {text : String} (h : q.Expresses c text)
    (hext : Resolves q q') : q'.Expresses c text := by
  have hnames := fun {token field} => hext.names token field
  have hvalues := fun {token value} => hext.values token value
  cases h with
  | compare hop hname hvalue htoken => exact .compare hop (hnames hname) hvalue (hvalues htoken)
  | call hop hname hvalue htoken => exact .call hop (hnames hname) hvalue (hvalues htoken)
  | notContains hop hname hvalue htoken =>
    exact .notContains hop (hnames hname) hvalue (hvalues htoken)
  | between hop hname hvalue htokens =>
    exact .between hop (hnames hname) hvalue (htokens.mono hext)
  | isIn hop hname hvalue htokens => exact .isIn hop (hnames hname) hvalue (htokens.mono hext)
  | notIn hop hname hvalue htokens => exact .notIn hop (hnames hname) hvalue (htokens.mono hext)
  | isNull hop hname hnull => exact .isNull hop (hnames hname) (hext.null ▸ hvalues hnull)
  | notNull hop hname hnull => exact .notNull hop (hnames hname) (hext.null ▸ hvalues hnull)

end Query

/-! ## Steps -/

open Query

variable {α β : Type} {q : Query} {c : Comparison} {name : String}

/-- Where the step succeeds, it adds tokens, and its result is as described. -/
def Yields (step : Step α) (q : Query) (post : α → Query → Prop) : Prop :=
  ∀ a q', step q = .ok a q' → Extends q q' ∧ post a q'

namespace Yields

variable {post : α → Query → Prop}

theorem pure {a : α} (h : post a q) : Yields (pure a) q post := fun _ _ run => by
  cases run
  exact ⟨.refl q, h⟩

theorem fails (e : Error) : Yields (throw e : Step α) q post := fun _ _ run => nomatch run

theorem bind {x : Step α} {f : α → Step β} {post' : β → Query → Prop} (hx : Yields x q post)
    (hf : ∀ a q', Extends q q' → post a q' → Yields (f a) q' post') : Yields (x >>= f) q post' := by
  intro b q'' run
  obtain ⟨a, q', runx, runf⟩ := run_bind_eq_ok.1 run
  obtain ⟨hext, ha⟩ := hx a q' runx
  obtain ⟨hext', hb⟩ := hf a q' hext ha b q'' runf
  exact ⟨hext.trans hext', hb⟩

theorem get : Yields get q fun a q' => q' = q ∧ a = q := fun _ _ run => by
  cases run
  exact ⟨.refl q, rfl, rfl⟩

end Yields

theorem single_yields : Yields (single c) q fun value q' => q' = q ∧ c.value = .one value := by
  rw [single]
  cases c.value with
  | one value => exact .pure ⟨rfl, rfl⟩
  | many values => exact .fails _

theorem many_yields : Yields (many c) q fun values q' => q' = q ∧ c.value = .many values := by
  rw [many]
  cases c.value with
  | one value => exact .fails _
  | many values => exact .pure ⟨rfl, rfl⟩

/-- A step that is a function of the query. -/
theorem Yields.ofFun {f : Query → α × Query} {post : α → Query → Prop}
    (h : Extends q (f q).2 ∧ post (f q).1 (f q).2) : Yields (modifyGet f) q post :=
  fun a q' run => by
    have hrun : (modifyGet f : Step α) q = .ok (f q).1 (f q).2 := rfl
    obtain ⟨rfl, rfl⟩ := EStateM.Result.ok.inj (hrun.symm.trans run)
    exact h

theorem nameOf_yields (path : Path) :
    Yields (nameOf path) q fun name q' => q'.Names name path.toText :=
  .ofFun (registerName_extends q path)

theorem valueOf_yields (path : Path) (value : Scalar) :
    Yields (valueOf path value) q fun token q' => q'.Binds token (.ofScalar value) :=
  .ofFun (registerValue_extends q path value)

theorem nullValue_yields :
    Yields nullValue q fun token q' => token = nullToken ∧ q'.Binds nullToken q'.null := by
  obtain ⟨hext, hbinds⟩ := bindNull_extends q
  exact .ofFun (f := fun q => (nullToken, q.bindNull)) ⟨hext, rfl, hext.null ▸ hbinds⟩

/-! ## Leaves -/

theorem compareExpression_yields {symbol : String} (hop : symbol? c.operator = some symbol)
    (hname : q.Names name c.path.toText) :
    Yields (compareExpression name symbol c) q fun text q' => q'.Expresses c text := by
  refine .bind single_yields fun value _ _ ⟨hq, hvalue⟩ => ?_
  subst hq
  refine .bind (valueOf_yields c.path value) fun token q' hext htoken => ?_
  exact .pure (.compare hop (hext.names _ _ hname) hvalue htoken)

theorem callExpression_yields {function : String} (hname : q.Names name c.path.toText) :
    Yields (callExpression function name c) q fun text q' =>
      ∃ token value, text = function ++ "(" ++ name ++ ", " ++ token ++ ")" ∧
        q'.Names name c.path.toText ∧ c.value = .one value ∧ q'.Binds token (.ofScalar value) := by
  refine .bind single_yields fun value _ _ ⟨hq, hvalue⟩ => ?_
  subst hq
  refine .bind (valueOf_yields c.path value) fun token q' hext htoken => ?_
  exact .pure ⟨token, value, rfl, hext.names _ _ hname, hvalue, htoken⟩

theorem bindValue_yields {value : Scalar} (hfree : q.values.contains name = false)
    (hne : name ≠ nullToken) : Yields (bindValue name value) q fun _ q' =>
      q' = q.bind name (.ofScalar value) ∧ q'.Binds name (.ofScalar value) := by
  obtain ⟨hext, hbinds⟩ : Extends q (q.bind name (.ofScalar value)) ∧ _ := bind_extends hfree hne
  exact .ofFun (f := fun q => ((), q.bind name (.ofScalar value))) ⟨hext, rfl, hbinds⟩

theorem betweenExpression_yields (hop : c.operator = .between)
    (hname : q.Names name c.path.toText) :
    Yields (betweenExpression name (q.valueToken c.path .range) c) q
      fun text q' => q'.Expresses c text := by
  obtain ⟨-, hfree⟩ := free_of_not_taken (tokenTaken_valueToken q c.path .range)
  generalize q.valueToken c.path .range = token at hfree
  have hlow := hfree (Binding.startOf token) (by simp [Binding.names])
  have hhigh := hfree (Binding.endOf token) (by simp [Binding.names])
  have hne : Binding.endOf token ≠ Binding.startOf token := fun h =>
    absurd ((String.append_right_inj token).1 h) (by decide)
  rw [betweenExpression]
  refine .bind many_yields fun values _ _ ⟨hq, hvalues⟩ => ?_
  subst hq
  split
  · rename_i low high
    refine .bind (bindValue_yields hlow (derived_startOf token).ne_null)
      fun _ q₁ hext₁ ⟨hq₁, hstart⟩ => ?_
    rw [← contains_bind hne, ← hq₁] at hhigh
    refine .bind (bindValue_yields hhigh (derived_endOf token).ne_null)
      fun _ q₂ hext₂ ⟨_, hend⟩ => ?_
    exact .pure (.between hop (hext₂.names _ _ (hext₁.names _ _ hname)) hvalues
      (.cons (hext₂.values _ _ hstart) (.cons hend .nil)))
  · exact .fails _

/-- The items of a list are bound one after the other under names that are free. -/
theorem bindItems_yields {token : String} : ∀ {index : Nat} {values : List Scalar} {q : Query},
    (∀ i, index ≤ i → i < index + values.length →
      q.values.contains (Binding.itemOf token i) = false) →
    Yields (bindItems token index values) q fun tokens q' => q'.BindsAll tokens values
  | _, [], _, _ => .pure .nil
  | index, value :: rest, q, hfree => by
    have hindex := hfree index (Nat.le_refl _) (by simp)
    refine .bind (bindValue_yields hindex (derived_itemOf token index).ne_null)
      fun _ q₁ _ ⟨hq₁, hfirst⟩ => ?_
    have hrest : ∀ i, index + 1 ≤ i → i < index + 1 + rest.length →
        q₁.values.contains (Binding.itemOf token i) = false := by
      intro i hle hlt
      have hne : Binding.itemOf token i ≠ Binding.itemOf token index := fun h => by
        have := Text.ofNat_injective ((String.append_right_inj _).1 h)
        omega
      rw [hq₁, contains_bind hne]
      exact hfree i (by omega) (by rw [List.length_cons]; omega)
    refine .bind (bindItems_yields hrest) fun tokens q₂ hext₂ htokens => ?_
    exact .pure (.cons (hext₂.values _ _ hfirst) htokens)

theorem inExpression_yields (hname : q.Names name c.path.toText) :
    Yields (inExpression name c) q fun text q' =>
      ∃ tokens values, text = name ++ " IN (" ++ Text.join ", " tokens ++ ")" ∧
        q'.Names name c.path.toText ∧ c.value = .many values ∧ q'.BindsAll tokens values := by
  rw [inExpression]
  refine .bind many_yields fun values _ _ ⟨hq, hvalues⟩ => ?_
  subst hq
  refine .bind .get fun _ _ _ ⟨hq, ha⟩ => ?_
  subst hq ha
  obtain ⟨-, hfree⟩ := free_of_not_taken (tokenTaken_valueToken _ c.path (.list values.length))
  refine .bind (bindItems_yields fun i _ hlt => ?_) fun tokens q' hext htokens => ?_
  · exact hfree _ (List.mem_map_of_mem (List.mem_range.2 (by omega)))
  · exact .pure ⟨tokens, values, rfl, hext.names _ _ hname, hvalues, htokens⟩

/-- **A compiled leaf is expressed.** -/
theorem leafExpression_yields (c : Comparison) (q : Query) :
    Yields (leafExpression c) q fun text q' => q'.Expresses c text := by
  rw [leafExpression]
  refine .bind (nameOf_yields c.path) fun name q₁ _ hname => ?_
  cases hop : c.operator with
  | eq | neq | lt | lte | gt | gte =>
    exact compareExpression_yields (by rw [hop]; rfl) hname
  | starts | contains =>
    intro text q₂ run
    obtain ⟨hext, token, value, rfl, hname, hvalue, htoken⟩ :=
      callExpression_yields hname text q₂ run
    exact ⟨hext, .call (by rw [hop]; rfl) hname hvalue htoken⟩
  | notContains =>
    refine .bind (callExpression_yields hname) fun text q₂ _ h => ?_
    obtain ⟨token, value, rfl, hname, hvalue, htoken⟩ := h
    exact .pure (.notContains hop hname hvalue htoken)
  | between =>
    refine .bind .get fun _ _ _ ⟨hq, ha⟩ => ?_
    subst hq ha
    exact betweenExpression_yields hop hname
  | isIn =>
    intro text q₂ run
    obtain ⟨hext, tokens, values, rfl, hname, hvalues, htokens⟩ :=
      inExpression_yields hname text q₂ run
    exact ⟨hext, .isIn hop hname hvalues htokens⟩
  | notIn =>
    refine .bind (inExpression_yields hname) fun text q₂ _ h => ?_
    obtain ⟨tokens, values, rfl, hname, hvalues, htokens⟩ := h
    exact .pure (.notIn hop hname hvalues htokens)
  | isNull =>
    refine .bind nullValue_yields fun token q₂ hext ⟨htoken, hnull⟩ => ?_
    subst htoken
    exact .pure (.isNull hop (hext.names _ _ hname) hnull)
  | notNull =>
    refine .bind nullValue_yields fun token q₂ hext ⟨htoken, hnull⟩ => ?_
    subst htoken
    exact .pure (.notNull hop (hext.names _ _ hname) hnull)
  | ends | eqLower | neqLower | startsLower | endsLower | containsLower | notContainsLower
  | inLower | notInLower => exact .fails _

/-- A sort key is constrained by the expression of a leaf. -/
theorem leafExpression_of_sortCondition {text : String} {q' : Query}
    (run : sortCondition c q = .ok text q') : leafExpression c q = .ok text q' := by
  obtain ⟨path, op, value⟩ := c
  cases op with
  | eq | lt | lte | gt | gte | between | starts => exact run
  | _ => cases run

/-- **A condition on the sort key is expressed.** -/
theorem sortCondition_yields (c : Comparison) (q : Query) :
    Yields (sortCondition c) q fun text q' => q'.Expresses c text := by
  intro text q' run
  exact leafExpression_yields c q text q' (leafExpression_of_sortCondition run)

end StoreQuery.KeyValue
