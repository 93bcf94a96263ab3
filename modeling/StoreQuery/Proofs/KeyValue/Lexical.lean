import StoreQuery.Proofs.KeyValue.Expression
import StoreQuery.Proofs.KeyValue.Words

/-!
# Names in use are tokens

A query is lexical if everything it has a name or a value for is a token. Paths may hold any
characters; but a token is made from a path with all other characters replaced, and what is put
behind it, a number, `_start`, `_end` or the index of an item, has only such characters.

**Compiling leaves and keys keeps queries lexical** (`leafExpression_keeps`, `keyCondition_keeps`).
-/

namespace StoreQuery.KeyValue

namespace Query

/-- Whatever a query has a name or a value for is a token. -/
structure Lexical (q : Query) : Prop where
  names : ∀ token field, q.Names token field → IsToken '#' token
  values : ∀ token value, q.Binds token value → IsToken ':' token

variable {q : Query} {mark : Char} {token : String}

/-! ## Tokens -/

theorem isTokenChar_of_mem_ofNat {n : Nat} {c : Char} (h : c ∈ (Text.ofNat n).toList) :
    isTokenChar c = true := by
  rw [Text.ofNat, String.toList_ofList] at h
  have hdigit := Nat.isDigit_of_mem_toDigits (by decide) (by decide) h
  simp [isTokenChar, Char.isAlphanum, hdigit]

/-- A token stays one when token characters are put behind it. -/
theorem isToken_append (h : IsToken mark token) {rest : String}
    (hrest : rest.toList.all isTokenChar = true) : IsToken mark (token ++ rest) := by
  obtain ⟨body, htext, hbody⟩ := h
  refine ⟨body ++ rest.toList, ?_, List.forall_mem_append.2 ⟨hbody, List.all_eq_true.1 hrest⟩⟩
  rw [String.toList_append, htext, List.cons_append]

/-- What a path becomes behind a mark is a token. -/
theorem isToken_sanitize {start : String} (h : start.toList = [mark]) (path : Path) :
    IsToken mark (start ++ sanitize path) := by
  refine isToken_append ⟨[], h, nofun⟩ (List.all_eq_true.2 fun c hc => ?_)
  rw [sanitize, String.toList_ofList] at hc
  obtain ⟨d, -, rfl⟩ := List.mem_map.1 hc
  split
  · assumption
  · decide

theorem isToken_numbered (h : IsToken mark token) (n : Nat) :
    IsToken mark (Text.numbered token n) := by
  rw [Text.numbered]
  split
  · exact h
  · exact isToken_append h (List.all_eq_true.2 fun c hc => isTokenChar_of_mem_ofNat hc)

theorem isToken_nameToken (q : Query) (path : Path) : IsToken '#' (q.nameToken path) :=
  isToken_numbered (isToken_sanitize rfl path) _

theorem isToken_valueToken (q : Query) (path : Path) (binding : Binding) :
    IsToken ':' (q.valueToken path binding) :=
  isToken_numbered (isToken_sanitize rfl path) _

theorem isToken_startOf (h : IsToken mark token) : IsToken mark (Binding.startOf token) :=
  isToken_append h (by decide)

theorem isToken_endOf (h : IsToken mark token) : IsToken mark (Binding.endOf token) :=
  isToken_append h (by decide)

theorem isToken_itemOf (h : IsToken mark token) (index : Nat) :
    IsToken mark (Binding.itemOf token index) :=
  isToken_append (isToken_append h (by decide))
    (List.all_eq_true.2 fun _ hc => isTokenChar_of_mem_ofNat hc)

theorem isToken_nullToken : IsToken ':' nullToken :=
  ⟨"null".toList, by decide, List.all_eq_true.1 (by decide)⟩

/-! ## Changes of a query -/

theorem lexical_of (tableName : String) : Lexical { tableName } :=
  ⟨fun _ _ => nofun, fun _ _ => nofun⟩

/-- The dictionaries are all that matters. -/
theorem Lexical.congr {q' : Query} (h : q.Lexical) (hnames : q'.names = q.names)
    (hvalues : q'.values = q.values) : q'.Lexical :=
  ⟨fun token field hname => h.names token field (by rwa [Names, hnames] at hname),
    fun token value hvalue => h.values token value (by rwa [Binds, hvalues] at hvalue)⟩

theorem Lexical.bind (h : q.Lexical) (htoken : IsToken ':' token) (value : Attribute) :
    (q.bind token value).Lexical := by
  refine ⟨h.names, fun other v hother => ?_⟩
  rw [Binds, Query.bind, Dict.find?_insert] at hother
  split at hother
  · rename_i hsame
    exact hsame ▸ htoken
  · exact h.values other v hother

theorem Lexical.registerName (h : q.Lexical) (path : Path) : (q.registerName path).2.Lexical := by
  refine ⟨fun other field hother => ?_, h.values⟩
  rw [Names, Query.registerName, Dict.find?_insert] at hother
  split at hother
  · rename_i hsame
    exact hsame ▸ isToken_nameToken q path
  · exact h.names other field hother

theorem Lexical.registerNames (h : q.Lexical) (paths : List Path) :
    (KeyValue.registerNames q paths).2.Lexical ∧
      ∀ token ∈ (KeyValue.registerNames q paths).1, IsToken '#' token := by
  induction paths generalizing q with
  | nil => exact ⟨h, nofun⟩
  | cons path paths ih =>
    obtain ⟨hrest, htokens⟩ := ih (h.registerName path)
    exact ⟨hrest, List.forall_mem_cons.2 ⟨isToken_nameToken q path, htokens⟩⟩

end Query

/-! ## Steps -/

open Query

variable {α β : Type}

/-- Where the step succeeds, it leaves lexical queries lexical. -/
def Keeps (step : Step α) : Prop := ∀ q a q', step q = .ok a q' → q.Lexical → q'.Lexical

namespace Keeps

theorem pure (a : α) : Keeps (Pure.pure a) := fun _ _ _ run h => by
  cases run
  exact h

theorem fails (e : Error) : Keeps (throw e : Step α) := fun _ _ _ run => nomatch run

theorem get : Keeps get := fun _ _ _ run h => by
  cases run
  exact h

theorem bind {x : Step α} {f : α → Step β} (hx : Keeps x) (hf : ∀ a, Keeps (f a)) :
    Keeps (x >>= f) := fun q b q'' run h => by
  obtain ⟨a, q', runx, runf⟩ := run_bind_eq_ok.1 run
  exact hf a q' b q'' runf (hx q a q' runx h)

/-- A step that is a function of the query. -/
theorem ofFun {f : Query → α × Query} (h : ∀ q, q.Lexical → (f q).2.Lexical) :
    Keeps (modifyGet f) := fun q a q' run hq => by
  have hrun : (modifyGet f : Step α) q = .ok (f q).1 (f q).2 := rfl
  obtain ⟨-, rfl⟩ := EStateM.Result.ok.inj (hrun.symm.trans run)
  exact h q hq

end Keeps

theorem nameOf_keeps (path : Path) : Keeps (nameOf path) := .ofFun fun _ h => h.registerName path

theorem valueOf_keeps (path : Path) (value : Scalar) : Keeps (valueOf path value) :=
  .ofFun fun q h => h.bind (isToken_valueToken q path .single) _

theorem bindValue_keeps {token : String} (htoken : IsToken ':' token) (value : Scalar) :
    Keeps (bindValue token value) :=
  .ofFun (f := fun q => ((), q.bind token (.ofScalar value))) fun _ h => h.bind htoken _

theorem nullValue_keeps : Keeps nullValue :=
  .ofFun (f := fun q => (nullToken, q.bindNull)) fun q h => by
    show q.bindNull.Lexical
    rw [bindNull]
    split
    · exact h
    · exact h.bind isToken_nullToken _

theorem single_keeps (c : Comparison) : Keeps (single c) := by
  rw [single]
  split
  · exact .pure _
  · exact .fails _

theorem many_keeps (c : Comparison) : Keeps (many c) := by
  rw [many]
  split
  · exact .pure _
  · exact .fails _

theorem compareExpression_keeps (name symbol : String) (c : Comparison) :
    Keeps (compareExpression name symbol c) :=
  .bind (single_keeps c) fun value => .bind (valueOf_keeps c.path value) fun _ => .pure _

theorem callExpression_keeps (function name : String) (c : Comparison) :
    Keeps (callExpression function name c) :=
  .bind (single_keeps c) fun value => .bind (valueOf_keeps c.path value) fun _ => .pure _

theorem betweenExpression_keeps (name : String) {token : String} (htoken : IsToken ':' token)
    (c : Comparison) : Keeps (betweenExpression name token c) := by
  rw [betweenExpression]
  refine .bind (many_keeps c) fun values => ?_
  split
  · exact .bind (bindValue_keeps (isToken_startOf htoken) _) fun _ =>
      .bind (bindValue_keeps (isToken_endOf htoken) _) fun _ => .pure _
  · exact .fails _

theorem bindItems_keeps {token : String} (htoken : IsToken ':' token) :
    ∀ (index : Nat) (values : List Scalar), Keeps (bindItems token index values)
  | _, [] => .pure _
  | index, value :: rest =>
    .bind (bindValue_keeps (isToken_itemOf htoken index) value) fun _ =>
      .bind (bindItems_keeps htoken (index + 1) rest) fun _ => .pure _

theorem inExpression_keeps (name : String) (c : Comparison) : Keeps (inExpression name c) :=
  .bind (many_keeps c) fun values => .bind .get fun q =>
    .bind (bindItems_keeps (isToken_valueToken q c.path (.list values.length)) 0 values) fun _ =>
      .pure _

theorem leafExpression_keeps (c : Comparison) : Keeps (leafExpression c) := by
  rw [leafExpression]
  refine .bind (nameOf_keeps c.path) fun name => ?_
  cases c.operator with
  | eq | neq | lt | lte | gt | gte => exact compareExpression_keeps name _ c
  | starts | contains => exact callExpression_keeps _ name c
  | notContains => exact .bind (callExpression_keeps _ name c) fun _ => .pure _
  | between => exact .bind .get fun q =>
      betweenExpression_keeps name (isToken_valueToken q c.path .range) c
  | isIn => exact inExpression_keeps name c
  | notIn => exact .bind (inExpression_keeps name c) fun _ => .pure _
  | isNull | notNull => exact .bind nullValue_keeps fun _ => .pure _
  | ends | eqLower | neqLower | startsLower | endsLower | containsLower | notContainsLower
  | inLower | notInLower => exact .fails _

theorem sortCondition_keeps (c : Comparison) : Keeps (sortCondition c) := by
  intro q text q' run
  exact leafExpression_keeps c q text q' (leafExpression_of_sortCondition run)

theorem keyCondition_keeps (t : Table) (partition : Scalar) (keys : Keys) :
    Keeps (keyCondition t partition keys) := by
  rw [keyCondition]
  refine .bind (nameOf_keeps t.partitionPath) fun name => ?_
  refine .bind (valueOf_keeps t.partitionPath partition) fun value => ?_
  cases keys.sort with
  | none => exact .pure _
  | some c => exact .bind (sortCondition_keeps c) fun _ => .pure _

end StoreQuery.KeyValue
