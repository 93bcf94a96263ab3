import StoreQuery.Json.Text
import StoreQuery.Proofs.Condition.Normal
import StoreQuery.Proofs.Document.Faults
import StoreQuery.Proofs.Document.Keys

/-!
# What a filter says

A filter is read as the store reads it (`meets`): the empty document is met by everything, `$and` by
what meets all its members, `$or` by what meets one of them. All other documents are documents of
leaves, and are met or not, as given.

**A filter is the reduced condition, written out** (`filter_eq_written`), each leaf as its document
(`documentOf`), so the documents of the leaves stand in it in the order of the leaves
(`leavesIn_written`). **It says what the condition says** (`filter_meaning`), provided that no leaf
has `$and` or `$or` for its path. Then no document of a leaf is taken for a bracket.

Filters could also be built from values of any kind, with bounds looked up by their index
(`valueFilter`). Two refusals would be new: a value that is no document, and a bound that is not
there. They never happen (`valueFilter_eq`).
-/

namespace StoreQuery.Document

/-! ## Reading filters -/

mutual

/-- Whether a filter is met, given which documents of leaves are. -/
def meets (met : Json.Members → Bool) : Json → Bool
  | .obj [] => true
  | .obj [(name, value)] => meetsMember met name value
  | _ => false

/-- Whether a document with one member is met. -/
def meetsMember (met : Json.Members → Bool) (name : String) : Json → Bool
  | .arr items =>
    if name = "$and" then meetsAll met items
    else if name = "$or" then meetsAny met items
    else met [(name, .arr items)]
  | value => met [(name, value)]

def meetsAll (met : Json.Members → Bool) : List Json → Bool
  | [] => true
  | item :: rest => meets met item && meetsAll met rest

def meetsAny (met : Json.Members → Bool) : List Json → Bool
  | [] => false
  | item :: rest => meets met item || meetsAny met rest

end

mutual

/-- The documents of leaves in a filter, from left to right. -/
def leavesIn : Json → List Json.Members
  | .obj [(name, value)] => leavesUnder name value
  | _ => []

/-- The documents of leaves in a document with one member. -/
def leavesUnder (name : String) : Json → List Json.Members
  | .arr items =>
    if name = "$and" ∨ name = "$or" then leavesInAll items else [[(name, .arr items)]]
  | value => [[(name, value)]]

def leavesInAll : List Json → List Json.Members
  | [] => []
  | item :: rest => leavesIn item ++ leavesInAll rest

end

/-! ## Writing conditions -/

/-- The document of a leaf: its path, and what the value has to meet. -/
def documentOf (c : Comparison) : Json.Members :=
  [(c.path.toText, ((requirement c.operator c.value).toOption).getD .null)]

mutual

/-- A condition with its leaves and brackets as documents. -/
def written : Condition → Json.Members
  | .leaf c => documentOf c
  | .group k members => joinDocuments k (writtenAll members)

def writtenAll : List Condition → List Json.Members
  | [] => []
  | condition :: rest => written condition :: writtenAll rest

end

theorem writtenAll_append (members others : List Condition) :
    writtenAll (members ++ others) = writtenAll members ++ writtenAll others := by
  induction members with
  | nil => rfl
  | cons condition rest ih => rw [List.cons_append, writtenAll, ih, writtenAll, List.cons_append]

theorem length_writtenAll (members : List Condition) :
    (writtenAll members).length = members.length := by
  induction members with
  | nil => rfl
  | cons condition rest ih => rw [writtenAll, List.length_cons, ih, List.length_cons]

theorem leafDocument_eq_ok {c : Comparison} {scope : Scope} {document : Option Json.Members}
    (h : leafDocument c scope = .ok document) : document = some (documentOf c) := by
  obtain ⟨-, -, h⟩ := bind_eq_ok.1 h
  obtain ⟨value, hvalue, h⟩ := bind_eq_ok.1 h
  cases h
  rw [documentOf, hvalue]
  rfl

/-- What compiling to documents makes of the tree. -/
theorem written_law : Compiler.TreeLaw compiler (fun _ => true) fun conditions documents _ _ =>
    documents = writtenAll conditions where
  nil _ := rfl
  append h h' := by rw [h, h', writtenAll_append]
  leaf run := by
    rw [leafDocument_eq_ok (Compiler.leaf_stateless_eq_ok.1 run)]
    rfl
  join k _ h _ := by
    rw [h]
    rfl
  length_eq h := by rw [h, length_writtenAll]

/-- **A filter is the reduced condition, written out.** -/
theorem filter_eq_written {condition : Condition} {document : Json.Members}
    (h : filter condition = .ok document) :
    document = (condition.reduced.map written).getD [] := by
  obtain ⟨fragment, hfragment, rfl⟩ := map_eq_ok.1 h
  have hwritten := written_law.compileAt .root condition (Compiler.compilePure_eq_ok.1 hfragment)
  rw [Condition.retain_true] at hwritten
  cases hleft : condition.reduced with
  | none =>
    rw [hleft] at hwritten
    rw [Option.toList_eq_nil_iff.1 hwritten]
    rfl
  | some left =>
    rw [hleft] at hwritten
    rw [Option.toList_eq_singleton_iff.1 hwritten]
    rfl

theorem leafDocument_of_filter {condition : Condition} {document : Json.Members}
    (h : filter condition = .ok document) {c : Comparison} (hc : c ∈ condition.leaves) :
    leafDocument c .root = .ok (some (documentOf c)) := by
  have hnone := errorOf?_filter condition
  rw [h] at hnone
  have hfault := List.findSome?_eq_none_iff.1 hnone.symm c hc
  rw [← errorOf?_leafDocument c .root] at hfault
  cases hleaf : leafDocument c .root with
  | error e =>
    rw [hleaf] at hfault
    cases hfault
  | ok fragment => rw [leafDocument_eq_ok hleaf]

/-! ## Reading what was written -/

/-- The path of a leaf cannot be taken for a bracket. -/
def Plain (c : Comparison) : Prop := c.path.toText ≠ "$and" ∧ c.path.toText ≠ "$or"

theorem plain_of_not_marked {c : Comparison} (h : ¬ Marked c.path.toText) : Plain c := by
  constructor <;> intro hname <;> exact h (hname ▸ by decide)

section Reading

variable {met : Json.Members → Bool} {c : Comparison}

theorem meets_documentOf (h : Plain c) : meets met (.obj (documentOf c)) = met (documentOf c) := by
  rw [documentOf, meets]
  cases ((requirement c.operator c.value).toOption).getD .null with
  | arr items => rw [meetsMember, if_neg h.1, if_neg h.2]
  | null | bool _ | num _ | str _ | obj _ => rfl

theorem leavesIn_documentOf (h : Plain c) : leavesIn (.obj (documentOf c)) = [documentOf c] := by
  rw [documentOf, leavesIn]
  cases ((requirement c.operator c.value).toOption).getD .null with
  | arr items => rw [leavesUnder, if_neg (not_or.2 h)]
  | null | bool _ | num _ | str _ | obj _ => rfl

mutual

theorem meets_written : ∀ condition : Condition, (∀ c ∈ condition.leaves, Plain c) →
    meets met (.obj (written condition)) = condition.truth fun c => met (documentOf c)
  | .leaf c, h => meets_documentOf (h c (.head _))
  | .group .and members, h => meetsAll_written members h
  | .group .or members, h => meetsAny_written members h

theorem meetsAll_written : ∀ members : List Condition,
    (∀ c ∈ Condition.leavesOf members, Plain c) →
      meetsAll met ((writtenAll members).map .obj) =
        Condition.allTrue (fun c => met (documentOf c)) members
  | [], _ => rfl
  | condition :: rest, h => by
    obtain ⟨hfirst, hrest⟩ := List.forall_mem_append.1 h
    rw [writtenAll, List.map_cons, meetsAll, meets_written condition hfirst,
      meetsAll_written rest hrest, Condition.allTrue]

theorem meetsAny_written : ∀ members : List Condition,
    (∀ c ∈ Condition.leavesOf members, Plain c) →
      meetsAny met ((writtenAll members).map .obj) =
        Condition.someTrue (fun c => met (documentOf c)) members
  | [], _ => rfl
  | condition :: rest, h => by
    obtain ⟨hfirst, hrest⟩ := List.forall_mem_append.1 h
    rw [writtenAll, List.map_cons, meetsAny, meets_written condition hfirst,
      meetsAny_written rest hrest, Condition.someTrue]

end

mutual

theorem leavesIn_written : ∀ condition : Condition, (∀ c ∈ condition.leaves, Plain c) →
    leavesIn (.obj (written condition)) = condition.leaves.map documentOf
  | .leaf c, h => leavesIn_documentOf (h c (.head _))
  | .group .and members, h => leavesInAll_written members h
  | .group .or members, h => leavesInAll_written members h

theorem leavesInAll_written : ∀ members : List Condition,
    (∀ c ∈ Condition.leavesOf members, Plain c) →
      leavesInAll ((writtenAll members).map .obj) =
        (Condition.leavesOf members).map documentOf
  | [], _ => rfl
  | condition :: rest, h => by
    obtain ⟨hfirst, hrest⟩ := List.forall_mem_append.1 h
    rw [writtenAll, List.map_cons, leavesInAll, leavesIn_written condition hfirst,
      leavesInAll_written rest hrest, Condition.leavesOf, List.map_append]

end

end Reading

/-! ## Filters from values -/

/-- The scalar at an index. That there is none is an error of its own. -/
def itemAt (scalars : List Scalar) (index : Nat) : Except Error Scalar :=
  match scalars[index]? with
  | some scalar => .ok scalar
  | none => .error (.invalidState (.other "index out of bounds"))

/-- What a value has to meet, where bounds are looked up by their index. -/
def requirementAt (op : Operator) (value : Operand) : Except Error Json :=
  match op with
  | .between => do
    let scalars ← many op value
    let low ← itemAt scalars 0
    let high ← itemAt scalars 1
    return .obj [("$gte", scalarValue low), ("$lte", scalarValue high)]
  | op => requirement op value

/-- The document of a leaf as a value. -/
def leafValue (c : Comparison) (_ : Scope) : Except Error (Option Json) := do
  c.validate
  let value ← requirementAt c.operator c.value
  return some (.obj [(c.path.toText, value)])

def joinValues (k : Connective) (values : List Json) : Json := .obj [(bracketName k, .arr values)]

/-- Compiles conditions to values. -/
def valueCompiler : Compiler PUnit Json := .stateless leafValue joinValues

/-- The filter of a condition, from values; one that is no document is refused. -/
def valueFilter (condition : Condition) : Except Error Json.Members := do
  match ← valueCompiler.compilePure condition with
  | some (.obj document) => return document
  | some other => throw (.invalidState (.other
      ("filter compiled to a non-document value: " ++ other.compact)))
  | none => return []

/-- A valid range has a scalar at both indices. -/
theorem requirementAt_eq {op : Operator} {value : Operand} (h : op.validate value = .ok ()) :
    requirementAt op value = requirement op value := by
  cases op with
  | between =>
    obtain ⟨low, high, rfl⟩ := Operator.bounds_of_validate h
    rfl
  | _ => rfl

theorem leafValue_eq (c : Comparison) (scope : Scope) :
    leafValue c scope = (leafDocument c scope).map (Option.map .obj) := by
  rw [leafValue, leafDocument]
  cases hvalid : c.validate with
  | error e => rfl
  | ok _ =>
    show (requirementAt c.operator c.value >>= _) = _
    rw [requirementAt_eq hvalid]
    cases requirement c.operator c.value <;> rfl

/-- **Every fragment is a document, and every bound is there.** -/
theorem valueFilter_eq (condition : Condition) : valueFilter condition = filter condition := by
  have himage : Compiler.Image Json.obj compiler valueCompiler := .stateless leafValue_eq
    fun _ _ => rfl
  rw [valueFilter, himage.compilePure, filter]
  cases compiler.compilePure condition with
  | error e => rfl
  | ok document => cases document <;> rfl

/-! ## Meaning -/

section Meaning

variable {condition : Condition} {document : Json.Members}

theorem leavesIn_filter (h : filter condition = .ok document)
    (hplain : ∀ c ∈ condition.leaves, Plain c) :
    leavesIn (.obj document) = condition.leaves.map documentOf := by
  rw [filter_eq_written h]
  cases hleft : condition.reduced with
  | none =>
    rw [Condition.leaves_eq_nil hleft]
    rfl
  | some left =>
    rw [← Condition.leaves_eq_of_reduced hleft] at hplain ⊢
    exact leavesIn_written left hplain

theorem meets_filter (h : filter condition = .ok document)
    (hplain : ∀ c ∈ condition.leaves, Plain c) (met : Json.Members → Bool) :
    meets met (.obj document) = (condition.meaning fun c => met (documentOf c)).getD true := by
  rw [filter_eq_written h, Condition.meaning_eq_reduced]
  cases hleft : condition.reduced with
  | none => rfl
  | some left =>
    rw [← Condition.leaves_eq_of_reduced hleft] at hplain
    exact meets_written left hplain

end Meaning

/-- **A filter says what its condition says.** If no path of a leaf begins with `$`, the filter is
met exactly if what is left of the condition without empty brackets is true, or nothing is left; and
the documents of the leaves stand in it in their order. Every filter that is refused is so for the
value of a leaf, never for the state of the compilation: not even if bounds are looked up by index
and documents are values like any others. -/
theorem filter_meaning (condition : Condition) :
    (∀ document, filter condition = .ok document →
      (∀ c ∈ condition.leaves, ¬ Marked c.path.toText) →
        (∀ c ∈ condition.leaves, leafDocument c .root = .ok (some (documentOf c))) ∧
        leavesIn (.obj document) = condition.leaves.map documentOf ∧
        ∀ met, meets met (.obj document) = match condition.pruned with
          | none => true
          | some left => left.truth fun c => met (documentOf c)) ∧
    valueFilter condition = filter condition ∧
    (∀ fault, valueFilter condition ≠ .error (.invalidState fault)) ∧
    ∀ e, filter condition = .error e → ∃ c ∈ condition.leaves, ∃ why,
      e = c.operator.fault why ∧ why ≠ .notBounds := by
  refine ⟨fun document h hpaths => ?document, valueFilter_eq condition, ?state,
    fun e => filter_error_cases⟩
  case document =>
    have hplain := fun c hc => plain_of_not_marked (hpaths c hc)
    refine ⟨fun c hc => leafDocument_of_filter h hc, leavesIn_filter h hplain, fun met => ?_⟩
    rw [meets_filter h hplain, Condition.meaning_eq_truth]
    cases condition.pruned <;> rfl
  case state =>
    intro fault h
    rw [valueFilter_eq] at h
    obtain ⟨c, -, why, hfault, -⟩ := filter_error_cases h
    cases hfault

/-- Two alternatives: a range, and two requirements with brackets that say nothing around them. -/
def members : Condition := .group .or
  [.group .and [.group .or []], .leaf ⟨⟨["age"]⟩, .between, .many [.int 18, .int 65]⟩,
    .group .and [.group .or [.leaf ⟨⟨["name"]⟩, .starts, .one (.text "a.")⟩], .group .or [],
      .leaf ⟨⟨["role"]⟩, .isIn, .many [.text "x", .text "y"]⟩]]

def membersFilter : Json.Members :=
  [("$or", .arr
    [.obj [("age", .obj [("$gte", .ofInt64 18), ("$lte", .ofInt64 65)])],
      .obj [("$and", .arr
        [.obj [("name", .obj [("$regex", .str "^a\\.")])],
          .obj [("role", .obj [("$in", .arr [.str "x", .str "y"])])]])]])]

/-- It takes the name and the role together to meet the filter without the age. -/
theorem filter_meaning_members :
    filter members = .ok membersFilter ∧ (∀ c ∈ members.leaves, ¬ Marked c.path.toText) ∧
      leavesIn (.obj membersFilter) = members.leaves.map documentOf ∧
      meets (fun document => document.any (·.1 == "age")) (.obj membersFilter) = true ∧
      meets (fun document => document.any (·.1 == "name")) (.obj membersFilter) = false ∧
      meets (fun document => !document.any (·.1 == "age")) (.obj membersFilter) = true := by
  have hfilter : filter members = .ok membersFilter := by rfl
  have hpaths : ∀ c ∈ members.leaves, ¬ Marked c.path.toText := by decide
  obtain ⟨-, horder, hmeaning⟩ := (filter_meaning members).1 membersFilter hfilter hpaths
  refine ⟨hfilter, hpaths, horder, ?_, ?_, ?_⟩ <;> rw [hmeaning] <;> rfl

end StoreQuery.Document
