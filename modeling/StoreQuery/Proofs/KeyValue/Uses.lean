import StoreQuery.Proofs.KeyValue.Lexical
import StoreQuery.Proofs.KeyValue.Occurrences

/-!
# Tokens of leaves

A leaf in an expression has a token for its property and one for its values, which says under
which names they are bound: itself, two bounds, or the items of a list. A test for null has no
values of its own, only the literal that all such tests share.

* `Use` is a leaf with these two tokens, and says what its expression is. **The tokens of the
  expression are those of the leaf** (`Use.tokensOf_text`), whatever else they look like.
* Leaves take names one after the other, each at its turn names that are free (`Allotted`). So
  **no name is bound a second time** (`Allotted.nodup`), and **every leaf finds its values in the
  end** (`Allotted.bindsAll`).
-/

namespace StoreQuery

/-- The scalars that a comparison is with. -/
def Operand.scalars : Operand → List Scalar
  | .one scalar => [scalar]
  | .many scalars => scalars

namespace KeyValue

open Query

/-- How an operator has its values bound, given how many there are. A test for null has none. -/
def bindingOf? (op : Operator) (count : Nat) : Option Binding :=
  match op with
  | .isNull | .notNull => none
  | .between => some .range
  | .isIn | .notIn => some (.list count)
  | _ => some .single

/-- How many names a binding has. -/
def Query.Binding.count : Binding → Nat
  | .single => 1
  | .range => 2
  | .list count => count

theorem length_names (binding : Binding) (token : String) :
    (binding.names token).length = binding.count := by
  cases binding <;> simp [Binding.names, Binding.count]

/-- A leaf with the token of its property and the one that its values are bound under. -/
structure Use where
  comparison : Comparison
  name : String
  token : String

namespace Use

/-- How the values of the leaf are bound. -/
def binding? (use : Use) : Option Binding :=
  bindingOf? use.comparison.operator use.comparison.value.scalars.length

/-- The names that the values of the leaf are bound under. -/
def names (use : Use) : List String :=
  match use.binding? with
  | some binding => binding.names use.token
  | none => []

/-- The values of the leaf under their names. -/
def entries (use : Use) : List (String × Attribute) :=
  use.names.zip (use.comparison.value.scalars.map .ofScalar)

/-- The value tokens in the expression of the leaf. -/
def placeholders (use : Use) : List String :=
  match use.binding? with
  | some binding => binding.names use.token
  | none => [nullToken]

/-- The name tokens in the expression of the leaf. -/
def properties (use : Use) : List String :=
  match use.binding? with
  | some _ => [use.name]
  | none => [use.name, use.name]

/-- A function of the property and the value. -/
def call (use : Use) (function : String) : String :=
  function ++ "(" ++ use.name ++ ", " ++ use.token ++ ")"

/-- Membership of the property in the list of values. -/
def among (use : Use) : String := use.name ++ " IN (" ++ Text.join ", " use.names ++ ")"

/-- The expression of the leaf. -/
def text (use : Use) : String :=
  match use.comparison.operator with
  | .starts => use.call "begins_with"
  | .contains => use.call "contains"
  | .notContains => "NOT " ++ use.call "contains"
  | .between => use.name ++ " BETWEEN " ++ Binding.startOf use.token ++ " AND " ++
      Binding.endOf use.token
  | .isIn => use.among
  | .notIn => "NOT (" ++ use.among ++ ")"
  | .isNull =>
    "(attribute_not_exists(" ++ use.name ++ ") OR " ++ use.name ++ " = " ++ nullToken ++ ")"
  | .notNull =>
    "(attribute_exists(" ++ use.name ++ ") AND " ++ use.name ++ " <> " ++ nullToken ++ ")"
  | op => use.name ++ " " ++ (symbol? op).getD "" ++ " " ++ use.token

/-- The tokens of the leaf are made from its path. -/
structure IsOwn (use : Use) : Prop where
  name : ∃ n, use.name = Text.numbered ("#" ++ sanitize use.comparison.path) n
  token : ∃ n, use.token = Text.numbered (":" ++ sanitize use.comparison.path) n

variable {use : Use}

theorem IsOwn.isToken_name (h : use.IsOwn) : IsToken '#' use.name := by
  obtain ⟨n, hn⟩ := h.name
  rw [hn]
  exact isToken_numbered (isToken_sanitize rfl _) n

theorem IsOwn.isToken_token (h : use.IsOwn) : IsToken ':' use.token := by
  obtain ⟨n, hn⟩ := h.token
  rw [hn]
  exact isToken_numbered (isToken_sanitize rfl _) n

/-- What is bound under a token is a token. -/
theorem isToken_of_mem_names {mark : Char} {binding : Binding} {token name : String}
    (h : IsToken mark token) (hname : name ∈ binding.names token) : IsToken mark name := by
  cases binding with
  | single => exact List.mem_singleton.1 hname ▸ h
  | range =>
    rcases List.mem_pair.1 hname with rfl | rfl
    · exact isToken_startOf h
    · exact isToken_endOf h
  | list count =>
    obtain ⟨index, -, rfl⟩ := List.mem_map.1 hname
    exact isToken_itemOf h index

/-- The value tokens of a leaf are tokens. -/
theorem IsOwn.isToken_placeholder (h : use.IsOwn) {name : String}
    (hname : name ∈ use.placeholders) : IsToken ':' name := by
  unfold placeholders at hname
  split at hname
  · exact isToken_of_mem_names h.isToken_token hname
  · rw [List.mem_singleton.1 hname]
    exact isToken_nullToken

/-- The values of a leaf are bound under value tokens of its expression. -/
theorem mem_placeholders {name : String} (h : name ∈ use.names) : name ∈ use.placeholders := by
  unfold names at h
  unfold placeholders
  split at h
  · exact h
  · cases h

/-- A name token of a leaf is the one of its property. -/
theorem eq_name_of_mem {token : String} (h : token ∈ use.properties) : token = use.name := by
  unfold properties at h
  split at h
  · exact List.mem_singleton.1 h
  · rcases List.mem_pair.1 h with h | h <;> exact h

/-! ## Tokens of expressions -/

section Texts

variable {token : String}

theorem tokensOf_name (h : IsToken '#' token) : tokensOf token = [token] := h.tokensOf (by decide)

theorem tokensOf_value (h : IsToken ':' token) : tokensOf token = [token] := h.tokensOf (by decide)

theorem tokensOf_compare (hown : use.IsOwn) {symbol : String} (hsymbol : tokensOf symbol = []) :
    tokensOf (use.name ++ " " ++ symbol ++ " " ++ use.token) = [use.name, use.token] := by
  have hblank : tokensOf " " = [] := by decide
  rw [tokensOf_around (by decide) (by decide), tokensOf_around (by decide) (by decide),
    tokensOf_name hown.isToken_name, tokensOf_value hown.isToken_token, hsymbol, hblank]
  rfl

theorem tokensOf_symbol (op : Operator) : tokensOf ((symbol? op).getD "") = [] := by
  cases op <;> decide

theorem tokensOf_call (hown : use.IsOwn) {function : String}
    (hfunction : tokensOf function = []) :
    tokensOf (use.call function) = [use.name, use.token] := by
  have hopening : tokensOf "(" = [] := by decide
  have hcomma : tokensOf ", " = [] := by decide
  have hclosing : tokensOf ")" = [] := by decide
  rw [call, tokensOf_behind (by decide), tokensOf_around (by decide) (by decide),
    tokensOf_around (by decide) (by decide), tokensOf_name hown.isToken_name,
    tokensOf_value hown.isToken_token, hfunction, hopening, hcomma, hclosing]
  rfl

theorem tokensOf_between (hown : use.IsOwn) :
    tokensOf (use.name ++ " BETWEEN " ++ Binding.startOf use.token ++ " AND " ++
      Binding.endOf use.token) =
        [use.name, Binding.startOf use.token, Binding.endOf use.token] := by
  have hbetween : tokensOf " BETWEEN " = [] := by decide
  have hand : tokensOf " AND " = [] := by decide
  rw [tokensOf_around (by decide) (by decide), tokensOf_around (by decide) (by decide),
    tokensOf_name hown.isToken_name, tokensOf_value (isToken_startOf hown.isToken_token),
    tokensOf_value (isToken_endOf hown.isToken_token), hbetween, hand]
  rfl

theorem tokensOf_among (hown : use.IsOwn) : tokensOf use.among = use.name :: use.names := by
  have hin : tokensOf " IN (" = [] := by decide
  have hcomma : tokensOf ", " = [] := by decide
  have hclosing : tokensOf ")" = [] := by decide
  have hitems : use.names.flatMap tokensOf = use.names := by
    rw [List.flatMap_congr fun name hname => tokensOf_value
      (hown.isToken_placeholder (mem_placeholders hname))]
    exact List.flatMap_singleton' _
  rw [among, tokensOf_behind (by decide), tokensOf_around (by decide) (by decide),
    tokensOf_join (by decide) (by decide) hcomma, tokensOf_name hown.isToken_name, hitems, hin,
    hclosing, List.append_nil, List.append_nil, List.singleton_append]

/-- A test for null names the property twice. -/
theorem tokensOf_nullTest (hown : use.IsOwn) {start between symbol : String}
    (hstarts : endsApart start = true) (hstart : tokensOf start = [])
    (hbegins : beginsApart between = true) (hends : endsApart between = true)
    (hbetween : tokensOf between = []) (hleft : beginsApart symbol = true)
    (hright : endsApart symbol = true) (hsymbol : tokensOf symbol = []) :
    tokensOf (start ++ use.name ++ between ++ use.name ++ symbol ++ nullToken ++ ")") =
      [use.name, use.name, nullToken] := by
  have hclosing : tokensOf ")" = [] := by decide
  rw [tokensOf_behind (by decide), tokensOf_around hleft hright, tokensOf_around hbegins hends,
    tokensOf_before hstarts, tokensOf_name hown.isToken_name, tokensOf_value isToken_nullToken,
    hstart, hbetween, hsymbol, hclosing]
  rfl

/-- **The expression of a leaf has the tokens of the leaf and no others.** -/
theorem tokensOf_text (hown : use.IsOwn) :
    tokensOf use.text = use.properties ++ use.placeholders := by
  obtain ⟨⟨path, op, value⟩, name, token⟩ := use
  cases op with
  | starts | contains => exact tokensOf_call hown (by decide)
  | notContains =>
    have hnot : tokensOf "NOT " = [] := by decide
    show tokensOf ("NOT " ++ call _ "contains") = _
    rw [tokensOf_before (by decide), hnot, tokensOf_call hown (by decide)]
    rfl
  | between => exact tokensOf_between hown
  | isIn => exact tokensOf_among hown
  | notIn =>
    have hnot : tokensOf "NOT (" = [] := by decide
    have hclosing : tokensOf ")" = [] := by decide
    show tokensOf ("NOT (" ++ among _ ++ ")") = _
    rw [tokensOf_behind (by decide), tokensOf_before (by decide), hnot, hclosing,
      tokensOf_among hown, List.append_nil]
    rfl
  | isNull =>
    exact tokensOf_nullTest hown (by decide) (by decide) (by decide) (by decide) (by decide)
      (by decide) (by decide) (by decide)
  | notNull =>
    exact tokensOf_nullTest hown (by decide) (by decide) (by decide) (by decide) (by decide)
      (by decide) (by decide) (by decide)
  | eq | neq | lt | lte | gt | gte | ends | eqLower | neqLower | startsLower | endsLower
  | containsLower | notContainsLower | inLower | notInLower =>
    exact tokensOf_compare hown (tokensOf_symbol _)

end Texts

end Use

/-! ## Names are taken -/

/-- A leaf takes names that are free, or the literal for null, which may be in use. -/
inductive Use.Allots (use : Use) (d : Dict Attribute) : Dict Attribute → Prop
  | values {binding : Binding} (hbinding : use.binding? = some binding)
    (hfree : ∀ name ∈ use.names, name ≠ nullToken ∧ name ∉ d.keys)
    (hcount : use.names.length = use.comparison.value.scalars.length) :
    Allots use d (d.insertAll use.entries)
  | null (hbinding : use.binding? = none) (hfree : nullToken ∉ d.keys) :
    Allots use d (d.insert nullToken (.null true))
  | again (hbinding : use.binding? = none) (hbound : nullToken ∈ d.keys) : Allots use d d

/-- Leaves take names one after the other. -/
inductive Allotted : Dict Attribute → List Use → Dict Attribute → Prop
  | nil (d : Dict Attribute) : Allotted d [] d
  | cons {d d' d'' : Dict Attribute} {use : Use} {uses : List Use} (h : use.Allots d d')
    (h' : Allotted d' uses d'') : Allotted d (use :: uses) d''

variable {d d' d'' : Dict Attribute} {use : Use} {uses uses' : List Use} {name : String}

namespace Use

theorem nodup_names (use : Use) : use.names.Nodup := by
  unfold names
  split
  · rename_i binding _
    cases binding with
    | single => exact List.nodup_singleton _
    | range =>
      have hne : Binding.startOf use.token ≠ Binding.endOf use.token := fun h =>
        absurd ((String.append_right_inj _).1 h) (by decide)
      exact List.nodup_cons.2 ⟨mt List.mem_singleton.1 hne, List.nodup_singleton _⟩
    | list count =>
      refine List.nodup_range.map fun i j h => ?_
      exact Text.ofNat_injective ((String.append_right_inj _).1 h)
  · exact List.nodup_nil

theorem map_entries (hcount : use.names.length = use.comparison.value.scalars.length) :
    use.entries.map (·.1) = use.names :=
  List.map_fst_zip (by rw [List.length_map, hcount])

theorem Allots.mem_keys_iff (h : use.Allots d d') :
    name ∈ d'.keys ↔ name ∈ d.keys ∨ name ∈ use.placeholders := by
  cases h with
  | values hbinding _ hcount =>
    rw [Dict.mem_keys_insertAll_iff, map_entries hcount, placeholders, names, hbinding]
  | null hbinding =>
    rw [Dict.mem_keys_insert_iff, placeholders, hbinding, List.mem_singleton, or_comm]
  | again hbinding hbound =>
    rw [placeholders, hbinding, List.mem_singleton]
    refine ⟨.inl, ?_⟩
    rintro (h | rfl)
    · exact h
    · exact hbound

/-- What is bound stays bound to its value. -/
theorem Allots.kept (h : use.Allots d d') {value : Attribute} (hbound : d.find? name = some value) :
    d'.find? name = some value := by
  have hkey : name ∈ d.keys := by
    rw [← Dict.contains_iff_mem_keys, Dict.contains, hbound]
    rfl
  cases h with
  | values _ hfree hcount =>
    rw [Dict.find?_insertAll_of_notMem, hbound]
    rw [map_entries hcount]
    exact fun hname => (hfree name hname).2 hkey
  | null _ hfree =>
    rw [Dict.find?_insert, if_neg, hbound]
    rintro rfl
    exact hfree hkey
  | again => exact hbound

/-- The names of a leaf are free before, and none of them is the literal for null. -/
theorem Allots.free (h : use.Allots d d') (hname : name ∈ use.names) :
    name ≠ nullToken ∧ name ∉ d.keys := by
  cases h with
  | values _ hfree => exact hfree name hname
  | null hbinding | again hbinding =>
    rw [names, hbinding] at hname
    cases hname

/-- A leaf finds its values under its names. -/
theorem Allots.bindsAll (h : use.Allots d d') (hcarries : use.binding? ≠ none) :
    List.Forall₂ (fun name scalar => d'.find? name = some (.ofScalar scalar)) use.names
      use.comparison.value.scalars := by
  cases h with
  | values _ _ hcount =>
    refine List.forall₂_iff_get.2 ⟨hcount, fun i hi hi' => ?_⟩
    have hkeys : (use.entries.map (·.1)).Nodup := map_entries hcount ▸ use.nodup_names
    have hi'' : i < use.entries.length := by
      rw [entries, List.length_zip, List.length_map]
      omega
    have hfound := Dict.find?_insertAll_of_mem (d := d) hkeys (List.getElem_mem hi'')
    simpa [entries] using hfound
  | null hbinding | again hbinding => exact absurd hbinding hcarries

end Use

namespace Allotted

theorem append (h : Allotted d uses d') (h' : Allotted d' uses' d'') :
    Allotted d (uses ++ uses') d'' := by
  induction h with
  | nil => exact h'
  | cons hfirst _ ih => exact .cons hfirst (ih h')

theorem one (h : use.Allots d d') : Allotted d [use] d' := .cons h (.nil d')

theorem mem_keys_iff (h : Allotted d uses d') :
    name ∈ d'.keys ↔ name ∈ d.keys ∨ ∃ use ∈ uses, name ∈ use.placeholders := by
  induction h with
  | nil => simp
  | cons hfirst _ ih => simp [ih, hfirst.mem_keys_iff, or_assoc]

theorem kept (h : Allotted d uses d') {value : Attribute} (hbound : d.find? name = some value) :
    d'.find? name = some value := by
  induction h with
  | nil => exact hbound
  | cons hfirst _ ih => exact ih (hfirst.kept hbound)

theorem free (h : Allotted d uses d') (huse : use ∈ uses) (hname : name ∈ use.names) :
    name ≠ nullToken ∧ name ∉ d.keys := by
  induction h with
  | nil => cases huse
  | cons hfirst _ ih =>
    rcases List.mem_cons.1 huse with rfl | huse
    · exact hfirst.free hname
    · exact (ih huse).imp_right fun hlater hkey => hlater (hfirst.mem_keys_iff.2 (.inl hkey))

/-- **No name is bound a second time.** -/
theorem nodup (h : Allotted d uses d') : (uses.flatMap Use.names).Nodup := by
  induction h with
  | nil => exact List.nodup_nil
  | @cons _ _ _ first rest hfirst hrest ih =>
    rw [List.flatMap_cons]
    refine List.nodup_append.2 ⟨first.nodup_names, ih, ?_⟩
    rintro name hname other hother rfl
    obtain ⟨use, huse, hother⟩ := List.mem_flatMap.1 hother
    refine (hrest.free huse hother).2 (hfirst.mem_keys_iff.2 (.inr ?_))
    exact Use.mem_placeholders hname

/-- **Every leaf finds its values in the end.** -/
theorem bindsAll (h : Allotted d uses d') (huse : use ∈ uses) (hcarries : use.binding? ≠ none) :
    List.Forall₂ (fun name scalar => d'.find? name = some (.ofScalar scalar)) use.names
      use.comparison.value.scalars := by
  induction h with
  | nil => cases huse
  | cons hfirst hrest ih =>
    rcases List.mem_cons.1 huse with rfl | huse
    · exact (hfirst.bindsAll hcarries).imp fun _ _ => hrest.kept
    · exact ih huse

end Allotted

end KeyValue

end StoreQuery
