import StoreQuery.Proofs.KeyValue.Bindings

/-!
# Counting

A count is the same read without projection and limit. The store refuses names and values that no
expression uses, so a count leaves them out; it finds out by looking for tokens in the texts.

* A count keeps a name exactly when the key condition or the filter mentions its token, and a value
  likewise (`names_countRequest`, `binds_countRequest`).
* Whatever way a filter is put together, **it mentions the tokens of its leaves**
  (`Query.Tells.mentions_iff`): all of them stand between blanks or punctuation. A token that is a
  mark only would be missed, but a path that has a text makes a longer one
  (`Use.IsOwn.length_placeholder`).
* So **a count of what was built from an empty base has all its values and those of its names that
  are mentioned** (`build_countRequest`).
-/

namespace StoreQuery.KeyValue

open Query

variable {t : Table} {q : Query} {r : Request} {token name field : String}

/-! ## What is mentioned -/

/-- The key condition or the filter of a query mentions a token. -/
def Query.Mentions (q : Query) (token : String) : Prop :=
  ∃ text ∈ q.keyCondition.toList ++ q.filter.toList, Occurs token text

/-- The search finds what is mentioned, where there is no projection. -/
theorem mem_tokens_iff (h : q.projection = none) : token ∈ q.tokens ↔ q.Mentions token := by
  have hfuel : ∀ text : String, text.toList.length < text.length + 1 := by
    intro text
    rw [String.length_toList]
    omega
  unfold tokens Mentions
  rw [h, List.mem_flatMap]
  constructor
  · rintro ⟨expression, hexpression, htoken⟩
    cases expression with
    | none => cases htoken
    | some text =>
      refine ⟨text, ?_, (mem_tokensIn_iff (hfuel text)).1 htoken⟩
      simpa [eq_comm] using hexpression
  · rintro ⟨text, htext, hoccurs⟩
    refine ⟨some text, ?_, (mem_tokensIn_iff (hfuel text)).2 hoccurs⟩
    simpa [eq_comm] using htext

/-! ## What is kept -/

theorem contains_tokens_iff (q : Query) :
    List.contains (Query.tokens { q with projection := none, limit := none, select := some .count })
      token = true ↔ q.Mentions token :=
  List.contains_iff_mem.trans (mem_tokens_iff rfl)

theorem names_countRequest (q : Query) :
    q.countRequest.Names token field ↔ q.Names token field ∧ q.Mentions token :=
  Dict.find?_keepKeys_iff.trans (and_congr_right' (contains_tokens_iff q))

theorem binds_countRequest (q : Query) {value : Attribute} :
    q.countRequest.Binds token value ↔ q.Binds token value ∧ q.Mentions token :=
  Dict.find?_keepKeys_iff.trans (and_congr_right' (contains_tokens_iff q))

theorem values_countRequest (h : ∀ name ∈ q.values.keys, q.Mentions name) :
    q.countRequest.values = q.values :=
  Dict.keepKeys_eq_self fun name hname => (contains_tokens_iff q).2 (h name hname)

/-! ## Tokens of filters -/

theorem tokensOf_between (k : Connective) (texts : List String) :
    tokensOf (Text.join (Connective.between k) texts) = texts.flatMap tokensOf := by
  cases k with
  | and | or => exact tokensOf_join (by decide) (by decide) (by decide) texts

theorem tokensOf_parentheses (text : String) : tokensOf ("(" ++ text ++ ")") = tokensOf text := by
  have hopening : tokensOf "(" = [] := by decide
  have hclosing : tokensOf ")" = [] := by decide
  rw [tokensOf_behind (by decide), tokensOf_before (by decide), hopening, hclosing,
    List.append_nil, List.nil_append]

mutual

theorem Joined.tokensOf_eq {es : List String} {text : String} (h : Joined es text) :
    tokensOf text = es.flatMap tokensOf :=
  match h with
  | .expression text => (List.append_nil _).symm
  | .bracket k hall _ => (tokensOf_between k _).trans (JoinedAll.flatMap_tokensOf hall)
  | .parentheses hinner => (tokensOf_parentheses _).trans (Joined.tokensOf_eq hinner)

theorem JoinedAll.flatMap_tokensOf {es texts : List String} (h : JoinedAll es texts) :
    texts.flatMap tokensOf = es.flatMap tokensOf :=
  match h with
  | .nil => rfl
  | .cons hfirst hrest => by
    rw [List.flatMap_cons, List.flatMap_append, Joined.tokensOf_eq hfirst,
      JoinedAll.flatMap_tokensOf hrest]

end

theorem flatMap_tokensOf_text {uses : List Use} (h : ∀ use ∈ uses, use.IsOwn) :
    (uses.map Use.text).flatMap tokensOf =
      uses.flatMap fun use => use.properties ++ use.placeholders := by
  rw [List.flatMap_map]
  exact List.flatMap_congr fun use huse => use.tokensOf_text (h use huse)

/-- **What was written into an empty base mentions the tokens of its leaves**, but for a mark with
nothing behind it. -/
theorem Query.Tells.mentions_iff {tableName : String} {keyUses filterUses : List Use}
    (h : Query.Tells { tableName } q keyUses filterUses) :
    q.Mentions token ↔
      (∃ use ∈ filterUses ++ keyUses, token ∈ use.properties ++ use.placeholders) ∧
        token.length ≠ 1 := by
  obtain ⟨hfilterOwn, hkeyOwn⟩ := List.forall_mem_append.1 h.own
  have hkey : q.keyCondition.toList.flatMap tokensOf =
      keyUses.flatMap fun use => use.properties ++ use.placeholders := by
    rw [h.keyCondition, ← flatMap_tokensOf_text hkeyOwn]
    split
    · rename_i hnone
      rw [hnone]
      rfl
    · rw [Option.toList_some, List.flatMap_cons, List.flatMap_nil, List.append_nil]
      exact tokensOf_join (by decide) (by decide) (by decide) _
  -- The base has no filter, so the filter is what was added.
  have hfilter : q.filter.toList.flatMap tokensOf =
      filterUses.flatMap fun use => use.properties ++ use.placeholders := by
    obtain ⟨added, htexts, hadded⟩ := h.filter
    have hsame : q.filter = added := by
      rw [hadded]
      cases added <;> rfl
    rw [hsame, htexts.flatMap_tokensOf, flatMap_tokensOf_text hfilterOwn]
  have hmem : (∃ text ∈ q.keyCondition.toList ++ q.filter.toList, token ∈ tokensOf text) ↔
      ∃ use ∈ filterUses ++ keyUses, token ∈ use.properties ++ use.placeholders := by
    rw [← List.mem_flatMap, ← List.mem_flatMap, List.flatMap_append, List.flatMap_append, hkey,
      hfilter, List.mem_append, List.mem_append, or_comm]
  rw [← hmem, Mentions]
  simp only [occurs_iff]
  constructor
  · rintro ⟨text, htext, htoken, hlength⟩
    exact ⟨⟨text, htext, htoken⟩, hlength⟩
  · rintro ⟨⟨text, htext, htoken⟩, hlength⟩
    exact ⟨text, htext, htoken, hlength⟩

/-! ## Lengths of tokens -/

theorem length_sanitize (path : Path) : (sanitize path).length = path.toText.length := by
  rw [sanitize, String.length_ofList, List.length_map, String.length_toList]

/-- A path that has a text makes a token with something behind the mark. -/
theorem length_numbered (path : Path) (h : path.toText ≠ "") (n : Nat) :
    1 < (Text.numbered (":" ++ sanitize path) n).length := by
  have hpath : path.toText.length ≠ 0 := mt String.length_eq_zero_iff.1 h
  have hmark : ":".length = 1 := by decide
  have hbase : 1 < (":" ++ sanitize path).length := by
    rw [String.length_append, length_sanitize]
    omega
  unfold Text.numbered
  split
  · exact hbase
  · rw [String.length_append]
    omega

/-- What is bound under a token is not shorter. -/
theorem length_le_of_mem_names {binding : Binding} (h : name ∈ binding.names token) :
    token.length ≤ name.length := by
  cases binding with
  | single => rw [List.mem_singleton.1 h]
  | range =>
    rcases List.mem_pair.1 h with rfl | rfl
    · rw [Binding.startOf, String.length_append]
      omega
    · rw [Binding.endOf, String.length_append]
      omega
  | list count =>
    obtain ⟨index, -, rfl⟩ := List.mem_map.1 h
    rw [Binding.itemOf, String.length_append, String.length_append]
    omega

/-- The value tokens of a leaf are not a mark only. -/
theorem Use.IsOwn.length_placeholder {use : Use} (h : use.IsOwn)
    (hpath : use.comparison.path.toText ≠ "") (hname : name ∈ use.placeholders) :
    1 < name.length := by
  unfold Use.placeholders at hname
  split at hname
  · obtain ⟨n, hn⟩ := h.token
    have hle := length_le_of_mem_names hname
    have hlong := length_numbered use.comparison.path hpath n
    rw [← hn] at hlong
    omega
  · rw [List.mem_singleton.1 hname]
    decide

/-! ## Counts -/

/-- **A count describes the same rows.** It has the conditions and the values of the query,
neither projection nor limit, and exactly those names that are mentioned; all that is mentioned
stands for what it stood for, and every value is mentioned. -/
theorem build_countRequest {tableName : String} (h : build t { tableName } r = .ok q)
    (hkind : q.kind ≠ .getItem) (hpaths : ∀ c ∈ r.condition.leaves, c.path.toText ≠ "") :
    q.countRequest = { q with
      projection := none, limit := none, select := some .count, names := q.countRequest.names } ∧
    (∀ token field, q.countRequest.Names token field ↔ q.Names token field ∧ q.Mentions token) ∧
    (∀ token, q.Mentions token →
      (IsToken '#' token ∧ ∃ field, q.Names token field ∧ q.countRequest.Names token field) ∨
      (IsToken ':' token ∧ ∃ value, q.Binds token value ∧ q.countRequest.Binds token value)) ∧
    ∀ name ∈ q.values.keys, q.Mentions name := by
  obtain ⟨keyUses, filterUses, htells, hleaves⟩ := build_told h
  rw [if_neg hkind] at hleaves
  have hvalues : ∀ name ∈ q.values.keys, q.Mentions name := by
    intro name hname
    rcases htells.allotted.mem_keys_iff.1 hname with hname | ⟨use, huse, hname⟩
    · cases hname
    · have hleaf := hleaves.mem_iff.1 (List.mem_map_of_mem huse)
      have hlong := (htells.own use huse).length_placeholder (hpaths _ hleaf) hname
      exact htells.mentions_iff.2 ⟨⟨use, huse, List.mem_append_right _ hname⟩, by omega⟩
  refine ⟨?_, fun token field => names_countRequest q, ?_, hvalues⟩
  · rw [← values_countRequest hvalues]
    rfl
  · intro token hmentioned
    obtain ⟨⟨use, huse, htoken⟩, -⟩ := htells.mentions_iff.1 hmentioned
    have hown := htells.own use huse
    rcases List.mem_append.1 htoken with hname | hvalue
    · obtain rfl := Use.eq_name_of_mem hname
      have hnamed := htells.named use huse
      exact .inl ⟨hown.isToken_name, _, hnamed, (names_countRequest q).2 ⟨hnamed, hmentioned⟩⟩
    · have hkey := htells.allotted.mem_keys_iff.2 (.inr ⟨use, huse, hvalue⟩)
      obtain ⟨value, hbound⟩ := Option.isSome_iff_exists.1 (Dict.contains_iff_mem_keys.2 hkey)
      exact .inr ⟨hown.isToken_placeholder hvalue, value, hbound,
        (binds_countRequest q).2 ⟨hbound, hmentioned⟩⟩

/-- Leaves with tokens that begin alike, and a projection to a property whose token begins them. -/
def ranked : Request where
  condition := .group .and [.leaf ⟨.ofText "pk", .eq, .one (.text "a")⟩,
    .leaf ⟨.ofText "rank_1", .eq, .one (.int 2)⟩,
    .leaf ⟨.ofText "rank-1", .isIn, .many [.int 3, .int 4]⟩]
  select := [.ofText "rank", .ofText "rank_1"]
  limit := some 5

theorem build_countRequest_ranked :
    ∃ q, build sorted { tableName := "t" } ranked = .ok q ∧
      q.projection = some "#rank, #rank_1" ∧
      q.filter = some "#rank_1 = :rank_1 AND #rank_11 IN (:rank_11_0, :rank_11_1)" ∧
      q.names.keys = ["#pk", "#rank", "#rank_1", "#rank_11"] ∧
      q.countRequest.names.keys = ["#pk", "#rank_1", "#rank_11"] ∧
      q.countRequest.values = q.values := by
  obtain ⟨q, hbuild, hview⟩ := exists_of_toOption
    (f := fun q => (q.kind, q.projection, q.filter, q.names.keys, q.countRequest.names.keys))
    (x := build sorted { tableName := "t" } ranked)
    (b := (.query, some "#rank, #rank_1",
      some "#rank_1 = :rank_1 AND #rank_11 IN (:rank_11_0, :rank_11_1)",
      ["#pk", "#rank", "#rank_1", "#rank_11"], ["#pk", "#rank_1", "#rank_11"]))
    (by decide +kernel)
  simp only [Prod.mk.injEq] at hview
  obtain ⟨hkind, hprojection, hfilter, hnames, hcounted⟩ := hview
  obtain ⟨hcount, -, -, -⟩ := build_countRequest hbuild (by rw [hkind]; decide) (by decide +kernel)
  exact ⟨q, hbuild, hprojection, hfilter, hnames, hcounted, by rw [hcount]⟩

end StoreQuery.KeyValue
