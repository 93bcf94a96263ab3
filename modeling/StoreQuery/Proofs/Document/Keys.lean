import StoreQuery.Document.Filter
import StoreQuery.Proofs.Condition.Compiling
import StoreQuery.Proofs.Search.Names

/-!
# The keys of a filter

A document store takes a key that begins with `$` for an operator, so it matters where the keys of
a filter come from.

**The shape** (`Shaped`). A filter is built of documents with one member each: `$and` or `$or` with
a list of documents, or a key of a leaf with a requirement. All keys inside a requirement are in a
fixed list (`keyed_requirement`), and a filter has the shape of its condition, with the texts of
its paths as keys of the leaves (`shaped_filter`).

**The keys of a request's filter** (`filter_keys`). The keys of the leaves are the names that the
client wrote, unchanged in front. So a key of a leaf begins with `$` exactly when such a name does,
and only such a name puts an operator into a filter that the store's own rules did not put there.
-/

namespace StoreQuery

/-! ## Keys -/

namespace Json

mutual

/-- The keys of all objects inside a value. -/
def keys : Json → List String
  | .arr items => itemKeys items
  | .obj members => memberKeys members
  | _ => []

def itemKeys : List Json → List String
  | [] => []
  | value :: rest => keys value ++ itemKeys rest

def memberKeys : List (String × Json) → List String
  | [] => []
  | (name, value) :: rest => name :: (keys value ++ memberKeys rest)

end

theorem itemKeys_eq (items : List Json) : itemKeys items = items.flatMap keys := by
  induction items with
  | nil => rfl
  | cons value rest ih => rw [itemKeys, ih, List.flatMap_cons]

@[simp] theorem keys_arr (items : List Json) : (Json.arr items).keys = items.flatMap keys :=
  itemKeys_eq items

@[simp] theorem keys_obj_nil : (Json.obj []).keys = [] := rfl

@[simp] theorem keys_obj_cons (name : String) (value : Json) (rest : List (String × Json)) :
    (Json.obj ((name, value) :: rest)).keys = name :: (value.keys ++ (Json.obj rest).keys) := rfl

end Json

namespace Document

/-- A key that the store takes for an operator. -/
def Marked (key : String) : Prop := key.toList.head? = some '$'

instance (key : String) : Decidable (Marked key) := inferInstanceAs (Decidable (_ = _))

/-- What stands behind a dot does not make a key an operator. -/
theorem marked_iff_of_begins {name text : String} (h : Path.Begins name text) :
    Marked text ↔ Marked name := by
  rcases h with rfl | ⟨more, rfl⟩
  · rfl
  · rw [Marked, Marked, String.toList_append, String.toList_append]
    -- Behind an empty name the text begins with the dot.
    cases name.toList with
    | nil => exact ⟨nofun, nofun⟩
    | cons c cs => rfl

/-! ## Requirements -/

/-- The keys inside requirements: the operators of the store, dates, and the two parts of a listed
regular expression. -/
def requirementKeys : List String :=
  ["$eq", "$ne", "$gt", "$gte", "$lt", "$lte", "$in", "$nin", "$not", "$regex", "$options",
    "$regularExpression", "pattern", "options", "$date"]

/-- All keys inside a value are keys of requirements. -/
def Keyed (value : Json) : Prop := ∀ key ∈ value.keys, key ∈ requirementKeys

theorem keyed_arr {items : List Json} (h : ∀ item ∈ items, Keyed item) : Keyed (.arr items) := by
  intro key hkey
  rw [Json.keys_arr] at hkey
  obtain ⟨item, hitem, hkey⟩ := List.mem_flatMap.1 hkey
  exact h item hitem key hkey

theorem keyed_nil : Keyed (.obj []) := nofun

theorem keyed_cons {name : String} {value : Json} {rest : Json.Members}
    (hname : name ∈ requirementKeys) (hvalue : Keyed value) (hrest : Keyed (.obj rest)) :
    Keyed (.obj ((name, value) :: rest)) := by
  intro key hkey
  rw [Json.keys_obj_cons] at hkey
  rcases List.mem_cons.1 hkey with rfl | hkey
  · exact hname
  · rcases List.mem_append.1 hkey with hkey | hkey
    · exact hvalue key hkey
    · exact hrest key hkey

theorem keyed_required {name : String} {value : Json} (hname : name ∈ requirementKeys)
    (h : Keyed value) : Keyed (required name value) := keyed_cons hname h keyed_nil

theorem keyed_str (text : String) : Keyed (.str text) := nofun

theorem keyed_toJson (scalar : Scalar) : Keyed scalar.toJson := by
  cases scalar with
  | float x =>
    rw [Scalar.toJson, Json.ofDouble]
    split <;> exact nofun
  | _ => exact nofun

theorem keyed_scalarValue (scalar : Scalar) : Keyed (scalarValue scalar) := by
  cases scalar with
  | date t => exact keyed_required (by decide) (keyed_str t.offsetText)
  | null | bool _ | int _ | float _ | text _ =>
    rw [scalarValue]
    · exact keyed_toJson _
    · nofun

theorem keyed_listValue (scalars : List Scalar) : Keyed (listValue scalars) := by
  refine keyed_arr fun item hitem => ?_
  obtain ⟨scalar, -, rfl⟩ := List.mem_map.1 hitem
  exact keyed_scalarValue scalar

theorem keyed_matching (pattern : String) (anyCase : Bool) : Keyed (matching pattern anyCase) := by
  cases anyCase with
  | false => exact keyed_cons (by decide) (keyed_str pattern) keyed_nil
  | true =>
    exact keyed_cons (by decide) (keyed_str pattern)
      (keyed_cons (by decide) (keyed_str "i") keyed_nil)

theorem keyed_negated {value : Json} (h : Keyed value) : Keyed (negated value) :=
  keyed_required (by decide) h

theorem keyed_listedPattern {op : Operator} {scalar : Scalar} {value : Json}
    (h : listedPattern op scalar = .ok value) : Keyed value := by
  obtain ⟨text, -, rfl⟩ := map_eq_ok.1 h
  refine keyed_cons (by decide) ?_ keyed_nil
  exact keyed_cons (by decide) (keyed_str _) (keyed_cons (by decide) (keyed_str "i") keyed_nil)

theorem keyed_of_mapM {op : Operator} : ∀ {scalars : List Scalar} {items : List Json},
    scalars.mapM (listedPattern op) = .ok items → ∀ item ∈ items, Keyed item
  | [], _, h, _, hitem => by cases h; cases hitem
  | scalar :: scalars, items, h, item, hitem => by
    rw [List.mapM_cons] at h
    obtain ⟨first, hfirst, h⟩ := bind_eq_ok.1 h
    obtain ⟨rest, hrest, h⟩ := bind_eq_ok.1 h
    cases h
    rcases List.mem_cons.1 hitem with rfl | hitem
    · exact keyed_listedPattern hfirst
    · exact keyed_of_mapM hrest item hitem

theorem keyed_listedPatterns {op : Operator} {value : Operand} {patterns : Json}
    (h : listedPatterns op value = .ok patterns) : Keyed patterns := by
  obtain ⟨scalars, -, h⟩ := bind_eq_ok.1 h
  obtain ⟨items, hitems, h⟩ := bind_eq_ok.1 h
  cases h
  exact keyed_arr (keyed_of_mapM hitems)

/-- **A requirement holds keys of requirements only**, whatever it is required of. -/
theorem keyed_requirement {op : Operator} {value : Operand} {json : Json}
    (h : requirement op value = .ok json) : Keyed json := by
  cases op with
  | eq =>
    obtain ⟨scalar, -, rfl⟩ := map_eq_ok.1 h
    exact keyed_scalarValue scalar
  | neq | gt | gte | lt | lte =>
    obtain ⟨scalar, -, rfl⟩ := map_eq_ok.1 h
    exact keyed_required (by decide) (keyed_scalarValue scalar)
  | isIn | notIn =>
    obtain ⟨scalars, -, rfl⟩ := map_eq_ok.1 h
    exact keyed_required (by decide) (keyed_listValue scalars)
  | isNull | notNull =>
    cases h
    exact keyed_required (by decide) nofun
  | between =>
    obtain ⟨scalars, -, h⟩ := bind_eq_ok.1 h
    match scalars, h with
    | [low, high], h =>
      cases h
      exact keyed_cons (by decide) (keyed_scalarValue low)
        (keyed_cons (by decide) (keyed_scalarValue high) keyed_nil)
  | contains | containsLower | starts | startsLower | ends | endsLower | eqLower =>
    obtain ⟨text, -, rfl⟩ := map_eq_ok.1 h
    exact keyed_matching _ _
  | notContains | notContainsLower | neqLower =>
    obtain ⟨text, -, rfl⟩ := map_eq_ok.1 h
    exact keyed_negated (keyed_matching _ _)
  | inLower | notInLower =>
    obtain ⟨patterns, hpatterns, rfl⟩ := map_eq_ok.1 h
    exact keyed_required (by decide) (keyed_listedPatterns hpatterns)

/-! ## Shapes -/

mutual

/-- A document built of leaves with the given keys, in their order. -/
inductive Shaped : List String → Json.Members → Prop
  | leaf {key : String} {value : Json} (hvalue : Keyed value) : Shaped [key] [(key, value)]
  | all {keys : List String} {documents : List Json.Members} (h : AllShaped keys documents) :
      Shaped keys [("$and", .arr (documents.map .obj))]
  | any {keys : List String} {documents : List Json.Members} (h : AllShaped keys documents) :
      Shaped keys [("$or", .arr (documents.map .obj))]

inductive AllShaped : List String → List Json.Members → Prop
  | nil : AllShaped [] []
  | cons {keys rest : List String} {document : Json.Members} {documents : List Json.Members}
      (h : Shaped keys document) (hrest : AllShaped rest documents) :
      AllShaped (keys ++ rest) (document :: documents)

end

theorem AllShaped.single {keys : List String} {document : Json.Members}
    (h : Shaped keys document) : AllShaped keys [document] :=
  List.append_nil keys ▸ AllShaped.cons h .nil

theorem AllShaped.eq_nil {keys : List String} (h : AllShaped keys []) : keys = [] := by
  cases h
  rfl

theorem AllShaped.of_single {keys : List String} {document : Json.Members}
    (h : AllShaped keys [document]) : Shaped keys document := by
  cases h with
  | cons hdocument hrest =>
    cases hrest
    rwa [List.append_nil]

theorem AllShaped.append {keys keys' : List String} {documents documents' : List Json.Members}
    (h : AllShaped keys documents) (h' : AllShaped keys' documents') :
    AllShaped (keys ++ keys') (documents ++ documents') := by
  induction documents generalizing keys with
  | nil => cases h; exact h'
  | cons document documents ih =>
    cases h with
    | cons hdocument hrest =>
      rw [List.append_assoc]
      exact .cons hdocument (ih hrest)

/-- The keys that a filter holds whatever the names are. -/
def ownKeys : List String := "$and" :: "$or" :: requirementKeys

mutual

/-- The keys in a document of a shape. -/
theorem mem_keys_of_shaped : ∀ {keys : List String} {document : Json.Members},
    Shaped keys document → ∀ key ∈ (Json.obj document).keys, key ∈ ownKeys ∨ key ∈ keys
  | _, _, .leaf hvalue, key, hkey => by
    rw [Json.keys_obj_cons, Json.keys_obj_nil, List.append_nil] at hkey
    rcases List.mem_cons.1 hkey with rfl | hkey
    · exact .inr List.mem_cons_self
    · exact .inl (List.mem_cons_of_mem _ (List.mem_cons_of_mem _ (hvalue key hkey)))
  | _, _, .all h, key, hkey | _, _, .any h, key, hkey => by
    rw [Json.keys_obj_cons, Json.keys_obj_nil, List.append_nil, Json.keys_arr] at hkey
    rcases List.mem_cons.1 hkey with rfl | hkey
    · exact .inl (by decide)
    · exact mem_keys_of_allShaped h key hkey

theorem mem_keys_of_allShaped : ∀ {keys : List String} {documents : List Json.Members},
    AllShaped keys documents →
      ∀ key ∈ (documents.map Json.obj).flatMap Json.keys, key ∈ ownKeys ∨ key ∈ keys
  | _, _, .cons h hrest, key, hkey => by
    rw [List.map_cons, List.flatMap_cons] at hkey
    rcases List.mem_append.1 hkey with hkey | hkey
    · exact (mem_keys_of_shaped h key hkey).imp_right (List.mem_append_left _)
    · exact (mem_keys_of_allShaped hrest key hkey).imp_right (List.mem_append_right _)

end

/-! ## Filters -/

/-- What compiling to documents keeps: they are built of the leaves. -/
theorem shaped_law : Compiler.Law compiler fun leaves documents _ _ =>
    AllShaped (leaves.map (·.1.path.toText)) documents where
  nil _ := .nil
  append h h' := by
    rw [List.map_append]
    exact h.append h'
  leaf {comparison above fragment s t} run := by
    obtain ⟨-, -, h⟩ := bind_eq_ok.1 (Compiler.leaf_stateless_eq_ok.1 run)
    obtain ⟨value, hvalue, h⟩ := bind_eq_ok.1 h
    cases h
    exact .single (.leaf (keyed_requirement hvalue))
  join {leaves fragments s t} k above h _ := by
    cases k with
    | and => exact .single (.all h)
    | or => exact .single (.any h)

/-- **A filter has the shape of its condition.** Only a condition without leaves has no shape, and
its filter is empty. -/
theorem shaped_filter {condition : Condition} {document : Json.Members}
    (h : filter condition = .ok document) :
    condition.leaves = [] ∧ document = [] ∨
      Shaped (condition.leaves.map (·.path.toText)) document := by
  obtain ⟨fragment, hfragment, rfl⟩ := map_eq_ok.1 h
  have hshaped := shaped_law.compileAt [] condition (Compiler.compilePure_eq_ok.1 hfragment)
  have hleaves : (condition.placed []).map (·.1.path.toText) =
      condition.leaves.map (·.path.toText) := by
    rw [← Condition.map_placed [], List.map_map]
    rfl
  rw [hleaves] at hshaped
  cases fragment with
  | none =>
    left
    exact ⟨List.map_eq_nil_iff.1 hshaped.eq_nil, rfl⟩
  | some document =>
    right
    exact hshaped.of_single

/-- **The keys of a request's filter.** A filter has the shape of the condition: in it stand `$and`
and `$or` of brackets, the texts of the paths as keys of the leaves, and keys of requirements below
them. Each key of a leaf begins with a name that the client wrote, and is an operator exactly when
that name is. So every operator in the filter is one of the library's own or begins with a name of
the client that is an operator itself. -/
theorem filter_keys {params : Params} {r : Request} {document : Json.Members}
    (hr : Request.ofParams params = .ok r) (hfilter : filter r.condition = .ok document) :
    (r.condition.leaves = [] ∧ document = [] ∨
        Shaped (r.condition.leaves.map (·.path.toText)) document) ∧
      (∀ c ∈ r.condition.leaves, ∃ name ∈ params.fieldNames,
        Path.Begins name c.path.toText ∧ (Marked c.path.toText ↔ Marked name)) ∧
      ∀ key ∈ (Json.obj document).keys, Marked key →
        key ∈ ownKeys ∨ ∃ name ∈ params.fieldNames, Path.Begins name key ∧ Marked name := by
  have hshape := shaped_filter hfilter
  have hnames := Request.exists_name_of_ofParams hr
  refine ⟨hshape, fun c hc => ?_, fun key hkey hmarked => ?_⟩
  · obtain ⟨name, hname, hbegins⟩ := hnames c hc
    exact ⟨name, hname, hbegins, marked_iff_of_begins hbegins⟩
  · rcases hshape with ⟨-, rfl⟩ | hshape
    · cases hkey
    · refine (mem_keys_of_shaped hshape key hkey).imp_right fun hleaf => ?_
      obtain ⟨c, hc, rfl⟩ := List.mem_map.1 hleaf
      obtain ⟨name, hname, hbegins⟩ := hnames c hc
      exact ⟨name, hname, hbegins, (marked_iff_of_begins hbegins).1 hmarked⟩

/-- A search with alternatives, a name of an operator below a property, and one beside them. -/
def alternatives : Json :=
  .obj
    [("$or", .arr
        [.obj [("a", .obj [("$gt", .str "x")])],
          .obj [("b.c", .arr [.obj [("$where", .str "y")]])]]),
      ("$expr", .obj [("$in", .arr [.str "z"])])]

def alternativesText : String :=
  "\x7b\"$or\":[\x7b\"a\":\x7b\"$gt\":\"x\"\x7d\x7d," ++
    "\x7b\"b.c\":[\x7b\"$where\":\"y\"\x7d]\x7d],\"$expr\":\x7b\"$in\":[\"z\"]\x7d\x7d"

theorem read_alternatives : Json.read? alternativesText = some alternatives := by cbv

def alternativesRequest : Request where
  condition := .group .and
    [.group .or
        [.leaf ⟨⟨["a"]⟩, .gt, .one (.text "x")⟩,
          .leaf ⟨⟨["b", "c", "$where"]⟩, .eq, .one (.text "y")⟩],
      .leaf ⟨⟨["$expr"]⟩, .isIn, .many [.text "z"]⟩]

def alternativesFilter : Json.Members :=
  [("$and", .arr
    [.obj [("$or", .arr
        [.obj [("a", required "$gt" (.str "x"))], .obj [("b.c.$where", .str "y")]])],
      .obj [("$expr", required "$in" (.arr [.str "z"]))]])]

/-- Of the three names only `$expr` begins with `$`, and so does only one key of a leaf. -/
theorem filter_keys_alternatives :
    Request.ofParams (.ofPairs [("s", alternativesText)]) = .ok alternativesRequest ∧
      filter alternativesRequest.condition = .ok alternativesFilter ∧
      Params.fieldNames (.ofPairs [("s", alternativesText)]) = ["a", "b.c", "$expr"] ∧
      Shaped ["a", "b.c.$where", "$expr"] alternativesFilter ∧
      (∀ c ∈ alternativesRequest.condition.leaves,
        ∃ name ∈ Params.fieldNames (.ofPairs [("s", alternativesText)]),
          Path.Begins name c.path.toText ∧ (Marked c.path.toText ↔ Marked name)) ∧
      ∀ key ∈ (Json.obj alternativesFilter).keys, Marked key → key ∈ ownKeys ∨
        ∃ name ∈ Params.fieldNames (.ofPairs [("s", alternativesText)]),
          Path.Begins name key ∧ Marked name := by
  have hr : Request.ofParams (.ofPairs [("s", alternativesText)]) = .ok alternativesRequest :=
    Request.ofParams_of_read read_alternatives rfl
  have hfilter : filter alternativesRequest.condition = .ok alternativesFilter := by rfl
  obtain ⟨hshape, hleaves, hkeys⟩ := filter_keys hr hfilter
  refine ⟨hr, hfilter, Params.fieldNames_of_read read_alternatives, ?_, hleaves, hkeys⟩
  rcases hshape with ⟨-, hnone⟩ | hshape
  · cases hnone
  · exact hshape

def script : Json := .obj [("$where", .str "sleep(5000)")]

def scriptText : String := "\x7b\"$where\":\"sleep(5000)\"\x7d"

theorem read_script : Json.read? scriptText = some script := by cbv

def scriptRequest : Request where
  condition := .group .and [.leaf ⟨⟨["$where"]⟩, .eq, .one (.text "sleep(5000)")⟩]

/-- The name of a client becomes an operator at the top of the filter, one that takes a script. -/
theorem filter_keys_script :
    Request.ofParams (.ofPairs [("s", scriptText)]) = .ok scriptRequest ∧
      filter scriptRequest.condition = .ok [("$where", .str "sleep(5000)")] ∧
      Params.fieldNames (.ofPairs [("s", scriptText)]) = ["$where"] ∧
      Marked "$where" ∧ "$where" ∉ ownKeys :=
  ⟨Request.ofParams_of_read read_script rfl, rfl, Params.fieldNames_of_read read_script,
    by decide, by decide⟩

end Document

end StoreQuery
