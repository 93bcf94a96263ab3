import StoreQuery.Proofs.KeyValue.Expression

/-!
# Names of a query are stable

A query may be told names and values in any order, from any names that it begins with.

**The search for a name token** (`Finds`). Candidates are tried one by one. One that stands for
another property is passed over, and the first one that is free, or stands for the property
already, is the token. The search comes to an end (`finds_nameToken`), and there is one token that
it can come to (`Finds.unique`).

**Tokens stay** (`registerAll_names`). Registering adds entries and changes none. So what a token
stands for it stands for ever after: two properties never share a token, however their texts are
sanitized; and the candidates that a property has passed over stay taken, so that it finds the
same token again (`Finds.mono`).
-/

namespace StoreQuery.KeyValue.Query

/-! ## The search for a token -/

/-- From a number on, the search comes to a token. -/
inductive Finds (q : Query) (path : Path) : Nat → String → Prop
  | free {n : Nat} (h : q.names.find? (Text.numbered ("#" ++ sanitize path) n) = none) :
    Finds q path n (Text.numbered ("#" ++ sanitize path) n)
  | again {n : Nat} (h : q.Names (Text.numbered ("#" ++ sanitize path) n) path.toText) :
    Finds q path n (Text.numbered ("#" ++ sanitize path) n)
  | passed {n : Nat} {field token : String}
    (h : q.Names (Text.numbered ("#" ++ sanitize path) n) field) (hne : field ≠ path.toText)
    (hnext : Finds q path (n + 1) token) : Finds q path n token

variable {q q' : Query} {path path' : Path} {n : Nat} {token token' : String}

/-- A candidate fits, or stands for another property. -/
theorem finds_or_passed (q : Query) (path : Path) (n : Nat) :
    (q.nameFits path.toText (Text.numbered ("#" ++ sanitize path) n) = true ∧
        Finds q path n (Text.numbered ("#" ++ sanitize path) n)) ∨
      (q.nameFits path.toText (Text.numbered ("#" ++ sanitize path) n) = false ∧
        ∃ field, q.Names (Text.numbered ("#" ++ sanitize path) n) field ∧ field ≠ path.toText) := by
  unfold nameFits
  cases hfind : q.names.find? (Text.numbered ("#" ++ sanitize path) n) with
  | none => exact .inl ⟨rfl, .free hfind⟩
  | some field =>
    by_cases hfield : field = path.toText
    · subst hfield
      exact .inl ⟨beq_self_eq_true _, .again hfind⟩
    · exact .inr ⟨beq_eq_false_iff_ne.2 hfield, field, hfind, hfield⟩

/-- Enough candidates come to a token. -/
theorem finds_firstFrom {count : Nat}
    (h : q.nameFits path.toText (Text.numbered ("#" ++ sanitize path)
      (Text.firstFrom count
        (fun n => q.nameFits path.toText (Text.numbered ("#" ++ sanitize path) n)) n)) = true) :
    Finds q path n (Text.numbered ("#" ++ sanitize path) (Text.firstFrom count
      (fun n => q.nameFits path.toText (Text.numbered ("#" ++ sanitize path) n)) n)) := by
  induction count generalizing n with
  | zero =>
    rcases finds_or_passed q path n with ⟨-, hfinds⟩ | ⟨htaken, -⟩
    · exact hfinds
    · exact absurd (h.symm.trans htaken) (by simp)
  | succ count ih =>
    unfold Text.firstFrom at h ⊢
    rcases finds_or_passed q path n with ⟨hfits, hfinds⟩ | ⟨htaken, field, hfield, hne⟩
    · rw [if_pos hfits]
      exact hfinds
    · rw [if_neg (by simp [htaken])] at h ⊢
      exact .passed hfield hne (ih h)

/-- **The search for the token of a property comes to an end.** -/
theorem finds_nameToken (q : Query) (path : Path) : Finds q path 0 (q.nameToken path) :=
  finds_firstFrom (nameFits_nameToken q path)

theorem Finds.unique (h : Finds q path n token) (h' : Finds q path n token') : token = token' := by
  induction h with
  | free hfree =>
    cases h' with
    | free => rfl
    | again => rfl
    | passed hfield => cases hfree.symm.trans hfield
  | again hsame =>
    cases h' with
    | free => rfl
    | again => rfl
    | passed hfield hne => exact absurd (Option.some.inj (hfield.symm.trans hsame)) hne
  | passed hfield hne _ ih =>
    cases h' with
    | free hfree => cases hfree.symm.trans hfield
    | again hsame => exact absurd (Option.some.inj (hfield.symm.trans hsame)) hne
    | passed _ _ hnext => exact ih hnext

theorem Finds.mono (h : Finds q path n token)
    (hnames : ∀ token field, q.Names token field → q'.Names token field)
    (htoken : q'.Names token path.toText) (htext : path.toText = path'.toText) :
    Finds q' path' n token := by
  have hbase : sanitize path = sanitize path' := by simp [sanitize, htext]
  induction h with
  | free =>
    rw [hbase, htext] at htoken
    rw [hbase]
    exact .again htoken
  | again =>
    rw [hbase, htext] at htoken
    rw [hbase]
    exact .again htoken
  | passed hfield hne _ ih =>
    rw [hbase] at hfield
    exact .passed (hnames _ _ hfield) (htext ▸ hne) (ih htoken)

/-! ## Registering -/

/-- What a query can be told: that a property needs a token, that a value does, that a name is bound
to a value, or that null is needed. -/
inductive Registration where
  | name (path : Path)
  | value (path : Path) (scalar : Scalar)
  | bound (name : String) (value : Attribute)
  | null

/-- The token that is given for a registration, and the query after it. -/
def register (q : Query) : Registration → String × Query
  | .name path => q.registerName path
  | .value path scalar => q.registerValue path scalar
  | .bound name value => (name, q.bind name value)
  | .null => (nullToken, q.bindNull)

/-- Registers one after the other. -/
def registerAll (q : Query) : List Registration → List String × Query
  | [] => ([], q)
  | call :: rest =>
    let next := (q.register call).2
    ((q.register call).1 :: (next.registerAll rest).1, (next.registerAll rest).2)

/-- The query after the first few registrations. -/
def after (q : Query) (calls : List Registration) (count : Nat) : Query :=
  (q.registerAll (calls.take count)).2

variable {calls : List Registration} {call : Registration} {i j : Nat}

/-- **A registration changes no name that there is.** -/
theorem register_names {field : String} (h : q.Names token field) :
    (q.register call).2.Names token field := by
  cases call with
  | name path => exact (registerName_extends q path).1.names token field h
  | value path scalar => exact h
  | bound name value => exact h
  | null =>
    show q.bindNull.Names token field
    unfold bindNull
    split <;> exact h

theorem registerAll_append (q : Query) (calls later : List Registration) :
    q.registerAll (calls ++ later) =
      ((q.registerAll calls).1 ++ ((q.registerAll calls).2.registerAll later).1,
        ((q.registerAll calls).2.registerAll later).2) := by
  induction calls generalizing q with
  | nil => rfl
  | cons call calls ih => simp only [List.cons_append, registerAll, ih]

theorem after_succ (h : calls[i]? = some call) :
    q.after calls (i + 1) = ((q.after calls i).register call).2 := by
  unfold after
  rw [List.take_add_one, h, registerAll_append]
  rfl

theorem getElem?_registerAll (h : calls[i]? = some call) :
    (q.registerAll calls).1[i]? = some ((q.after calls i).register call).1 := by
  induction calls generalizing q i with
  | nil => cases h
  | cons first rest ih =>
    cases i with
    | zero =>
      obtain rfl := Option.some.inj h
      rfl
    | succ i => exact ih (q := (q.register first).2) h

theorem after_names (hle : i ≤ j) {field : String} (h : (q.after calls i).Names token field) :
    (q.after calls j).Names token field := by
  induction j, hle using Nat.le_induction with
  | base => exact h
  | succ j hle ih =>
    cases hcall : calls[j]? with
    | some call =>
      rw [after_succ hcall]
      exact register_names ih
    | none =>
      have hlength : calls.length ≤ j := List.getElem?_eq_none_iff.1 hcall
      unfold after at ih ⊢
      rwa [List.take_of_length_le (by omega)] at ih ⊢

theorem after_names_token (h : calls[i]? = some (.name path)) :
    (q.after calls (i + 1)).Names ((q.after calls i).nameToken path) path.toText := by
  rw [after_succ h]
  exact (registerName_extends (q.after calls i) path).2

/-- A property of the same text is given the same token later. -/
theorem nameToken_after_eq (hlt : i < j) (h : calls[i]? = some (.name path))
    (htext : path.toText = path'.toText) :
    (q.after calls i).nameToken path = (q.after calls j).nameToken path' := by
  have hfound := finds_nameToken (q.after calls i) path
  have hkept := hfound.mono (fun _ _ => after_names (Nat.le_of_lt hlt))
    (after_names hlt (after_names_token h)) htext
  exact hkept.unique (finds_nameToken (q.after calls j) path')

/-- **Names of a query are stable.** From any names that there are at first and over any
registrations: entries are neither changed nor removed; every property is given a token at which
the search comes to an end, and that stands for it from then on; and two properties are given one
token exactly if they have one text, whenever they are registered. -/
theorem registerAll_names (q : Query) (calls : List Registration) :
    (∀ i j, i ≤ j → ∀ token field,
      (q.after calls i).Names token field → (q.after calls j).Names token field) ∧
    (∀ (i : Nat) (path : Path), calls[i]? = some (.name path) → ∃ token,
      (q.registerAll calls).1[i]? = some token ∧ Finds (q.after calls i) path 0 token ∧
        ∀ j, i < j → (q.after calls j).Names token path.toText) ∧
    ∀ (i j : Nat) (path path' : Path),
      calls[i]? = some (.name path) → calls[j]? = some (.name path') →
        ((q.registerAll calls).1[i]? = (q.registerAll calls).1[j]? ↔
          path.toText = path'.toText) := by
  refine ⟨fun i j hle token field => after_names hle, ?given, ?apart⟩
  case given =>
    intro i path h
    exact ⟨_, getElem?_registerAll h, finds_nameToken _ path,
      fun j hlt => after_names hlt (after_names_token h)⟩
  case apart =>
    intro i j path path' h h'
    rw [getElem?_registerAll h, getElem?_registerAll h', Option.some.injEq]
    constructor
    · intro hsame
      -- After both registrations the one token stands for both texts.
      have hfirst := after_names (j := max i j + 1) (by omega) (after_names_token (q := q) h)
      have hsecond := after_names (j := max i j + 1) (by omega) (after_names_token (q := q) h')
      have htoken : (q.after calls i).nameToken path = (q.after calls j).nameToken path' := hsame
      rw [htoken] at hfirst
      exact Option.some.inj (hfirst.symm.trans hsecond)
    · intro htext
      rcases Nat.lt_trichotomy i j with hlt | rfl | hlt
      · exact nameToken_after_eq hlt h htext
      · obtain rfl := Registration.name.inj (Option.some.inj (h.symm.trans h'))
        rfl
      · exact (nameToken_after_eq hlt h' htext.symm).symm

/-- Texts that are sanitized to one token, and one that looks like a token with a number. -/
example : (registerAll { tableName := "" } [.name ⟨["a-b"]⟩, .name ⟨["a", "b"]⟩,
    .value ⟨["a_b"]⟩ (.int 1), .name ⟨["a_b1"]⟩, .name ⟨["a-b"]⟩, .name ⟨["a", "b"]⟩]).1 =
      ["#a_b", "#a_b1", ":a_b", "#a_b11", "#a_b", "#a_b1"] := by
  decide +kernel

end StoreQuery.KeyValue.Query
