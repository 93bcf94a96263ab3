import StoreQuery.Memory.Predicate
import StoreQuery.Proofs.Sql.Parameters
import StoreQuery.Proofs.Text.Like
import StoreQuery.Proofs.Text.Split

/-!
# Texts that a statement selects

A leaf that looks for a part of a text binds a pattern: the part with `%` where anything may stand.
What the database makes of it depends on the condition of the leaf. It compares the column with the
pattern as they are, or ignores case, or lowers the column; and it may ask for the opposite
(`LikeTest`).

**A leaf selects the texts in which something matches its part, at the place where it looks for it**
(`build_patterns`). The part goes into the pattern as it is. So these are the texts that the same
condition accepts of documents exactly if no wildcard is in the part. In any case the texts with the
part itself are among them.

**With ILIKE and with LOWER the same texts are selected exactly if the part has no capital letters**
(`build_letterCase`), where all texts are ASCII. The column is lowered and the part is not, so a
part with a capital letter is found nowhere.
-/

namespace StoreQuery

/-! ## Operators that look for parts of texts -/

namespace Operator

/-- The operators that look for a part of a text as it is. -/
def seeking : List Operator := [starts, ends, contains, notContains]

/-- The operators that look for a part of a text and ignore case. -/
def seekingLower : List Operator := [startsLower, endsLower, containsLower, notContainsLower]

/-- A part stands where the operator looks for it: at the beginning, at the end or anywhere. -/
def Finds (op : Operator) (part text : List Char) : Prop :=
  match op with
  | .starts | .startsLower => part <+: text
  | .ends | .endsLower => part <:+ text
  | _ => part <:+: text

/-- Whether the operator accepts the texts in which it finds nothing. -/
def negates (op : Operator) : Bool := op == .notContains || op == .notContainsLower

/-- What the operator says of a text in which it finds what it looks for, or not. -/
def Says (op : Operator) (found : Prop) : Prop := if op.negates then ¬ found else found

/-- The pattern for a part. -/
def pattern (op : Operator) (part : String) : String :=
  match op with
  | .starts | .startsLower => part ++ "%"
  | .ends | .endsLower => "%" ++ part
  | _ => "%" ++ part ++ "%"

variable {op : Operator} {found found' : Prop} {part : String} {text : List Char}

theorem says_iff_says : (op.Says found ↔ op.Says found') ↔ (found ↔ found') := by
  unfold Says
  split
  · exact not_iff_not
  · exact Iff.rfl

theorem says_of (h : found) : op.Says found ↔ op.negates = false := by
  unfold Says
  split <;> simp_all

theorem says_of_not (h : ¬ found) : op.Says found ↔ op.negates = true := by
  unfold Says
  split <;> simp_all

/-- What matches the pattern for a part has something that matches the part, in its place. -/
theorem like_pattern_iff {same : Char → Char → Prop} :
    Text.Like same (op.pattern part).toList text ↔
      ∃ piece, op.Finds piece text ∧ Text.Like same part.toList piece := by
  cases op with
  | starts | startsLower =>
    rw [pattern, String.toList_append]
    exact Text.like_prefix_iff
  | ends | endsLower =>
    rw [pattern, String.toList_append]
    exact Text.like_suffix_iff
  | _ =>
    show Text.Like same ("%" ++ part ++ "%").toList text ↔ _
    rw [String.toList_append, String.toList_append]
    exact Text.like_infix_iff

theorem mem_pattern_iff {c : Char} :
    c ∈ (op.pattern part).toList ↔ c = '%' ∨ c ∈ part.toList := by
  unfold pattern
  split <;> simp [or_comm]

theorem Finds.isInfix {part : List Char} (h : op.Finds part text) : part <:+: text := by
  unfold Finds at h
  split at h
  · exact h.isInfix
  · exact h.isInfix
  · exact h.isInfix
  · exact h.isInfix
  · exact h

theorem finds_self (op : Operator) (text : List Char) : op.Finds text text := by
  unfold Finds
  split
  · exact List.prefix_refl text
  · exact List.prefix_refl text
  · exact List.suffix_refl text
  · exact List.suffix_refl text
  · exact List.infix_refl text

end Operator

/-- A condition on documents looks for the part itself. -/
theorem Memory.evaluate_str {op : Operator} (hop : op ∈ Operator.seeking) (scalar : Scalar)
    (text : String) : Memory.evaluate (some (.str text)) op (.one scalar) = true ↔
      op.Says (op.Finds scalar.toText.toList text.toList) := by
  have hstarts : startsWith text.toList scalar.toText.toList = true ↔
      scalar.toText.toList <+: text.toList := List.isPrefixOf_iff_prefix
  have hends : endsWith text.toList scalar.toText.toList = true ↔
      scalar.toText.toList <:+ text.toList := List.isSuffixOf_iff_suffix
  have hcontains : contains text.toList scalar.toText.toList = true ↔
      scalar.toText.toList <:+: text.toList := Text.containsChars_iff
  simp only [Operator.seeking, List.mem_cons, List.not_mem_nil, or_false] at hop
  rcases hop with rfl | rfl | rfl | rfl
  · exact hstarts
  · exact hends
  · exact hcontains
  · show (!contains text.toList scalar.toText.toList) = true ↔
      ¬ scalar.toText.toList <:+: text.toList
    rw [Bool.not_eq_true', ← Bool.not_eq_true, hcontains]

namespace Sql

/-! ## Tests of a column -/

/-- How a database compares a column with a pattern. -/
inductive Matching where
  | exact
  | lowered
  | ignoringCase
  deriving DecidableEq, Repr

/-- A condition that compares a column with a pattern. -/
structure LikeTest where
  matching : Matching
  negated : Bool
  deriving DecidableEq, Repr

/-- The text in a column matches a pattern. -/
def Matching.Matches (m : Matching) (pattern text : String) : Prop :=
  match m with
  | .exact => Text.Like Eq pattern.toList text.toList
  | .lowered => Text.Like Eq pattern.toList (Text.lower text).toList
  | .ignoringCase => Text.Like Text.SameLetter pattern.toList text.toList

namespace LikeTest

/-- The test as it is written. -/
def text (test : LikeTest) (column parameter : String) : String :=
  let word := if test.negated then " NOT" else ""
  match test.matching with
  | .exact => column ++ word ++ " LIKE :" ++ parameter
  | .lowered => "LOWER(" ++ column ++ ")" ++ word ++ " LIKE :" ++ parameter
  | .ignoringCase => column ++ word ++ " ILIKE :" ++ parameter

/-- The test accepts a text in the column. -/
def Accepts (test : LikeTest) (pattern text : String) : Prop :=
  if test.negated then ¬ test.matching.Matches pattern text else test.matching.Matches pattern text

/-- What a test adds to the length of its column and its parameter. -/
def width (test : LikeTest) : Nat :=
  (match test.matching with | .exact => 7 | .lowered => 14 | .ignoringCase => 8) +
    if test.negated then 4 else 0

theorem length_text (test : LikeTest) (column parameter : String) :
    (test.text column parameter).length = column.length + test.width + parameter.length := by
  obtain ⟨hlike, hilike, hlower, hclose, hnot⟩ : " LIKE :".length = 7 ∧ " ILIKE :".length = 8 ∧
      "LOWER(".length = 6 ∧ ")".length = 1 ∧ " NOT".length = 4 := by decide
  obtain ⟨m, negated⟩ := test
  cases m <;> cases negated <;>
    simp only [text, width, String.length_append, String.length_empty, if_true, if_false,
      Bool.false_eq_true, hlike, hilike, hlower, hclose, hnot] <;> omega

/-- Tests of one column with one parameter are told apart by their lengths. -/
theorem text_injective {test other : LikeTest} {column parameter : String}
    (h : test.text column parameter = other.text column parameter) : test = other := by
  have hlength := congrArg String.length h
  rw [length_text, length_text] at hlength
  have hwidth : test.width = other.width := by omega
  obtain ⟨m, negated⟩ := test
  obtain ⟨m', negated'⟩ := other
  cases m <;> cases m' <;> cases negated <;> cases negated' <;> first | rfl | cases hwidth

end LikeTest

/-! ## Leaves as tests -/

/-- How a leaf compares its column. -/
def matching (schema : Schema) (op : Operator) : Matching :=
  if op ∈ Operator.seeking then .exact else if schema.iLike then .ignoringCase else .lowered

section Leaf

variable {schema : Schema} {op : Operator} (hop : op ∈ Operator.seeking ++ Operator.seekingLower)

include hop

theorem leafText_seeking (column parameter : String) : leafText schema op column parameter =
    LikeTest.text ⟨matching schema op, op.negates⟩ column parameter := by
  have hnot : " NOT LIKE :" = " NOT" ++ " LIKE :" := by decide
  cases op with
  | starts | ends | contains =>
    show column ++ " LIKE :" ++ parameter = column ++ "" ++ " LIKE :" ++ parameter
    rw [String.append_empty]
  | notContains =>
    show column ++ " NOT LIKE :" ++ parameter = column ++ " NOT" ++ " LIKE :" ++ parameter
    rw [hnot, ← String.append_assoc]
  | startsLower | endsLower | containsLower | notContainsLower =>
    show iLike schema column _ parameter =
      LikeTest.text ⟨if schema.iLike then .ignoringCase else .lowered, _⟩ column parameter
    unfold iLike
    split <;> rfl
  | _ => exact absurd hop (by decide)

theorem leafParameters_seeking (scalar : Scalar) (parameter : String) :
    leafParameters op (.one scalar) parameter =
      [(parameter, .one (.text (op.pattern scalar.toText)))] := by
  cases op with
  | starts | ends | contains | notContains => rfl
  | startsLower | endsLower | containsLower | notContainsLower => rfl
  | _ => exact absurd hop (by decide)

theorem exists_scalar {value : Operand} (h : op.validate value = .ok ()) :
    ∃ scalar, value = .one scalar := by
  cases value with
  | one scalar => exact ⟨scalar, rfl⟩
  | many values =>
    cases op with
    | starts | ends | contains | notContains => cases h
    | startsLower | endsLower | containsLower | notContainsLower => cases h
    | _ => exact absurd hop (by decide)

end Leaf

/-- The condition of a leaf accepts a text in its column, with the pattern in its parameter. -/
def Use.Selects (schema : Schema) (q : Query) (relations : List Relation) (use : Use)
    (text : String) : Prop :=
  ∃ (test : LikeTest) (pattern : String),
    use.textIn schema q relations =
      test.text (columnOf q relations use.comparison.path) use.parameter ∧
    q.parameters.find? use.parameter = some (.one (.text pattern)) ∧ test.Accepts pattern text

/-- A query states the leaves of a request that are taken: its condition is made of theirs, and what
they bind is found under their names. -/
structure States (schema : Schema) (base q : Query) (r : Request) (uses : List Use) : Prop where
  leaves : uses.map (·.comparison) = takenLeaves schema base.entity r.condition.leaves
  accepted : ∀ use ∈ uses, use.comparison.validate = .ok ()
  condition : AllMadeOf q.condition.toList
    (base.condition.toList ++ uses.map (Use.textIn schema q r.relations))
  bound : ∀ use ∈ uses, ∀ entry ∈ use.entries, q.parameters.find? entry.1 = some entry.2

variable {schema : Schema} {base q q' : Query} {r : Request} {uses : List Use} {use : Use}

theorem exists_states (h : build schema base r = .ok q) : ∃ uses, States schema base q r uses := by
  obtain ⟨uses, hleaves, hown, hmade, bound, hsupplied, hfind⟩ := stated_of_build h
  refine ⟨uses, hleaves, fun use huse => (hown use huse).1.accepted, hmade, ?_⟩
  intro use huse entry hentry
  rw [hfind, hsupplied.found use huse entry hentry]
  rfl

theorem States.selects_iff (h : States schema base q r uses) (huse : use ∈ uses)
    (hop : use.comparison.operator ∈ Operator.seeking ++ Operator.seekingLower) :
    ∃ scalar, use.comparison.value = .one scalar ∧ ∀ text,
      (use.Selects schema q r.relations text ↔ use.comparison.operator.Says
        ((matching schema use.comparison.operator).Matches
          (use.comparison.operator.pattern scalar.toText) text)) := by
  obtain ⟨scalar, hvalue⟩ := exists_scalar hop (h.accepted use huse)
  have htext : use.textIn schema q r.relations = _ := leafText_seeking hop _ _
  have hfound : q.parameters.find? use.parameter =
      some (.one (.text (use.comparison.operator.pattern scalar.toText))) := by
    refine h.bound use huse (use.parameter, _) ?_
    rw [Use.entries, hvalue, leafParameters_seeking hop]
    exact List.mem_singleton_self _
  refine ⟨scalar, hvalue, fun text => ⟨?read, fun hsays => ⟨_, _, htext, hfound, hsays⟩⟩⟩
  case read =>
    rintro ⟨test, pattern, hread, hpattern, haccepts⟩
    obtain rfl := LikeTest.text_injective (htext.symm.trans hread)
    obtain rfl : use.comparison.operator.pattern scalar.toText = pattern := by
      simpa using hfound.symm.trans hpattern
    exact haccepts

/-! ## Parts as they are -/

theorem says_like_iff (op : Operator) (part : String) :
    (∀ text : String, op.Says (∃ piece, op.Finds piece text.toList ∧
        Text.Like Eq part.toList piece) ↔ op.Says (op.Finds part.toList text.toList)) ↔
      Text.IsPlain part.toList := by
  simp only [Operator.says_iff_says]
  constructor
  · intro h c hc
    rw [← Bool.not_eq_true]
    intro hwildcard
    -- The part with its wildcards filled has something that matches, but not the part.
    have hfinds : op.Finds part.toList (Text.filled part.toList) := by
      have hfilled := (h (String.ofList (Text.filled part.toList))).1
      rw [String.toList_ofList] at hfilled
      exact hfilled ⟨_, op.finds_self _, Text.like_filled (fun _ => rfl) _⟩
    exact Text.not_infix_filled hc hwildcard hfinds.isInfix
  · intro hpart text
    simp only [Text.like_eq_iff hpart]
    constructor
    · rintro ⟨piece, hpiece, rfl⟩
      exact hpiece
    · intro hfinds
      exact ⟨_, hfinds, rfl⟩

/-- A leaf that looks for a part of a text, in a statement and in a condition on documents. -/
structure Use.Seeks (schema : Schema) (q : Query) (relations : List Relation) (use : Use)
    (scalar : Scalar) : Prop where
  value : use.comparison.value = .one scalar
  statement : ∀ text : String, use.Selects schema q relations text ↔
    use.comparison.operator.Says (∃ piece, use.comparison.operator.Finds piece text.toList ∧
      Text.Like Eq scalar.toText.toList piece)
  documents : ∀ text : String,
    Memory.evaluate (some (.str text)) use.comparison.operator use.comparison.value = true ↔
      use.comparison.operator.Says
        (use.comparison.operator.Finds scalar.toText.toList text.toList)
  itself : ∀ text : String, use.comparison.operator.Finds scalar.toText.toList text.toList →
    (use.Selects schema q relations text ↔ use.comparison.operator.negates = false)
  same : (∀ text : String, use.Selects schema q relations text ↔
      Memory.evaluate (some (.str text)) use.comparison.operator use.comparison.value = true) ↔
    Text.IsPlain scalar.toText.toList

/-- **A leaf selects the texts in which something matches its part, at the place where it looks for
it.** A condition on documents accepts those in which the part itself stands there. The two are the
same exactly if no wildcard is in the part; and a text with the part itself is in any case selected,
or not selected if the leaf asks for the opposite. -/
theorem build_patterns (h : build schema base r = .ok q) :
    ∃ uses : List Use, States schema base q r uses ∧
      ∀ use ∈ uses, use.comparison.operator ∈ Operator.seeking →
        ∃ scalar, use.Seeks schema q r.relations scalar := by
  obtain ⟨uses, hstates⟩ := exists_states h
  refine ⟨uses, hstates, fun use huse hop => ?_⟩
  obtain ⟨scalar, hvalue, hselects⟩ :=
    hstates.selects_iff huse (List.mem_append_left _ hop)
  have hmatching : matching schema use.comparison.operator = .exact := if_pos hop
  simp only [hmatching, Matching.Matches, Operator.like_pattern_iff] at hselects
  have hdocuments := Memory.evaluate_str hop scalar
  rw [← hvalue] at hdocuments
  refine ⟨scalar, hvalue, hselects, hdocuments, ?itself, ?same⟩
  case itself =>
    intro text hfinds
    rw [hselects]
    exact Operator.says_of ⟨_, hfinds, Text.like_self (fun _ => rfl) _⟩
  case same =>
    simp only [hselects, hdocuments]
    exact says_like_iff _ _

/-- Titles that begin with a text, and do not contain another one, in which there is a wildcard. -/
def searches : Request where
  condition := .group .and
    [.leaf ⟨⟨["title"]⟩, .starts, .one (.text "Ru")⟩,
      .leaf ⟨⟨["title"]⟩, .notContains, .one (.text "a_b")⟩]

theorem build_patterns_searches :
    ∃ q, build { registry := blog } (.of "post" "p") searches = .ok q ∧
      q.condition = some "(p.title LIKE :title_0) AND (p.title NOT LIKE :title_1)" ∧
      ∃ uses : List Use, uses.map (·.comparison) = searches.condition.leaves ∧
        ∀ use ∈ uses, (∀ text : String, use.Selects { registry := blog } q [] text ↔
          Memory.evaluate (some (.str text)) use.comparison.operator use.comparison.value = true) ↔
            use.comparison.operator = .starts := by
  obtain ⟨q, hbuild, hcondition⟩ := exists_of_toOption (f := Query.condition)
    (x := build { registry := blog } (.of "post" "p") searches)
    (b := some "(p.title LIKE :title_0) AND (p.title NOT LIKE :title_1)") (by decide +kernel)
  obtain ⟨uses, hstates, hseeks⟩ := build_patterns hbuild
  have hleaves : uses.map (·.comparison) = searches.condition.leaves :=
    hstates.leaves.trans (by decide +kernel)
  refine ⟨q, hbuild, hcondition, uses, hleaves, fun use huse => ?_⟩
  have hmem : use.comparison ∈ searches.condition.leaves := by
    rw [← hleaves]
    exact List.mem_map_of_mem huse
  have hop : use.comparison.operator ∈ Operator.seeking := by
    rcases List.mem_pair.1 hmem with hleaf | hleaf <;> rw [hleaf] <;> decide
  obtain ⟨scalar, hseeks⟩ := hseeks use huse hop
  have hsame := hseeks.same
  have hvalue := hseeks.value
  rcases List.mem_pair.1 hmem with hleaf | hleaf
  · rw [hleaf] at hvalue hsame ⊢
    cases hvalue
    exact hsame.trans (iff_of_true (by decide) rfl)
  · rw [hleaf] at hvalue hsame ⊢
    cases hvalue
    exact hsame.trans (iff_of_false (by decide) (by decide))

/-- A title is selected that does not contain what is looked for. -/
theorem build_patterns_percent :
    ∃ q, build { registry := blog } (.of "post" "p")
        { condition := .leaf ⟨⟨["title"]⟩, .contains, .one (.text "50%")⟩ } = .ok q ∧
      q.condition = some "p.title LIKE :title_0" ∧
      q.parameters.find? "title_0" = some (.one (.text "%50%%")) ∧
      Text.Like Eq "%50%%".toList "500".toList ∧ ¬ "50%".toList <:+: "500".toList ∧
      Memory.evaluate (some (.str "500")) .contains (.one (.text "50%")) = false := by
  obtain ⟨q, hbuild, hview⟩ := exists_of_toOption
    (f := fun q : Query => (q.condition, q.parameters.find? "title_0"))
    (x := build { registry := blog } (.of "post" "p")
      { condition := .leaf ⟨⟨["title"]⟩, .contains, .one (.text "50%")⟩ })
    (b := (some "p.title LIKE :title_0", some (.one (.text "%50%%")))) (by decide +kernel)
  obtain ⟨hcondition, hparameter⟩ := Prod.mk.inj hview
  exact ⟨q, hbuild, hcondition, hparameter, by decide, by decide, by decide⟩

/-! ## Parts without regard to case -/

section LetterCase

variable {op : Operator} {part text : String}

/-- A pattern for a part in small letters ignores case in lowered texts. -/
theorem matches_lowered_iff (hpart : Text.IsAscii part.toList)
    (hsmall : Text.IsSmall part.toList) (htext : Text.IsAscii text.toList) :
    Matching.lowered.Matches (op.pattern part) text ↔
      Matching.ignoringCase.Matches (op.pattern part) text := by
  rw [Matching.Matches, Matching.Matches, Text.lower, String.toList_ofList]
  refine Text.like_lower_iff (fun c hc => ?ascii) (fun c hc => ?small) htext
  case ascii =>
    rcases Operator.mem_pattern_iff.1 hc with rfl | hc
    · decide
    · exact hpart c hc
  case small =>
    rcases Operator.mem_pattern_iff.1 hc with rfl | hc
    · decide
    · exact hsmall c hc

theorem not_matches_lowered {c : Char} (hc : c ∈ part.toList) (hcapital : c.isUpper = true)
    (htext : Text.IsAscii text.toList) : ¬ Matching.lowered.Matches (op.pattern part) text := by
  rw [Matching.Matches, Text.lower, String.toList_ofList]
  exact Text.not_like_lower (Operator.mem_pattern_iff.2 (.inr hc)) hcapital htext

/-- The two ways to ignore case are one exactly if the part has no capital letters. -/
theorem says_lowered_iff (op : Operator) (hpart : Text.IsAscii part.toList) :
    (∀ text : String, Text.IsAscii text.toList →
      (op.Says (Matching.ignoringCase.Matches (op.pattern part) text) ↔
        op.Says (Matching.lowered.Matches (op.pattern part) text))) ↔
      Text.IsSmall part.toList := by
  simp only [Operator.says_iff_says]
  constructor
  · intro h c hc
    rw [← Bool.not_eq_true]
    intro hcapital
    -- The part itself is a text that matches only if case is ignored.
    have hself : Matching.ignoringCase.Matches (op.pattern part) part :=
      Operator.like_pattern_iff.2 ⟨_, op.finds_self _, Text.like_self .refl _⟩
    exact not_matches_lowered hc hcapital hpart ((h part hpart).1 hself)
  · intro hsmall text htext
    exact (matches_lowered_iff hpart hsmall htext).symm

end LetterCase

/-- A leaf that looks for a part and ignores case, in a statement with ILIKE and in one with
LOWER. -/
structure SeeksLower (schema : Schema) (q q' : Query) (relations : List Relation) (use use' : Use)
    (scalar : Scalar) : Prop where
  value : use.comparison.value = .one scalar
  ignoringCase : ∀ text : String,
    use.Selects { schema with iLike := true } q relations text ↔
      use.comparison.operator.Says (∃ piece, use.comparison.operator.Finds piece text.toList ∧
        Text.Like Text.SameLetter scalar.toText.toList piece)
  capital : ∀ c ∈ scalar.toText.toList, c.isUpper = true →
    ∀ text : String, Text.IsAscii text.toList →
      (use'.Selects { schema with iLike := false } q' relations text ↔
        use.comparison.operator.negates = true)
  same : Text.IsAscii scalar.toText.toList →
    ((∀ text : String, Text.IsAscii text.toList →
      (use.Selects { schema with iLike := true } q relations text ↔
        use'.Selects { schema with iLike := false } q' relations text)) ↔
      Text.IsSmall scalar.toText.toList)

/-- **With ILIKE and with LOWER the same texts are selected exactly if the part has no capital
letters**, where part and texts are ASCII. ILIKE ignores case on both sides. LOWER leaves the part
as it is, so with a capital letter in it no text is selected, or every text if the leaf asks for the
opposite. -/
theorem build_letterCase (h : build { schema with iLike := true } base r = .ok q)
    (h' : build { schema with iLike := false } base r = .ok q') :
    ∃ uses uses' : List Use, States { schema with iLike := true } base q r uses ∧
      States { schema with iLike := false } base q' r uses' ∧
      ∀ use ∈ uses, ∀ use' ∈ uses', use'.comparison = use.comparison →
        use.comparison.operator ∈ Operator.seekingLower →
          ∃ scalar, SeeksLower schema q q' r.relations use use' scalar := by
  obtain ⟨uses, hstates⟩ := exists_states h
  obtain ⟨uses', hstates'⟩ := exists_states h'
  refine ⟨uses, uses', hstates, hstates', fun use huse use' huse' hsame hop => ?_⟩
  have hother : use.comparison.operator ∉ Operator.seeking := by
    intro hmem
    have hdisjoint : ∀ op ∈ Operator.seekingLower, op ∉ Operator.seeking := by decide
    exact hdisjoint _ hop hmem
  have hany := List.mem_append_right Operator.seeking hop
  obtain ⟨scalar, hvalue, hselects⟩ := hstates.selects_iff huse hany
  obtain ⟨scalar', hvalue', hselects'⟩ := hstates'.selects_iff huse' (hsame ▸ hany)
  rw [hsame] at hvalue' hselects'
  obtain rfl : scalar = scalar' := by simpa using hvalue.symm.trans hvalue'
  rw [matching, if_neg hother, if_pos rfl] at hselects
  rw [matching, if_neg hother, if_neg Bool.false_ne_true] at hselects'
  refine ⟨scalar, hvalue, ?ignoringCase, ?capital, ?same⟩
  case ignoringCase => simpa only [Matching.Matches, Operator.like_pattern_iff] using hselects
  case capital =>
    intro c hc hcapital text htext
    rw [hselects']
    exact Operator.says_of_not (not_matches_lowered hc hcapital htext)
  case same =>
    intro hpart
    simp only [hselects, hselects']
    exact says_lowered_iff _ hpart

/-- Titles that contain a text, and titles that do not, where case is ignored. -/
def caseless : Request where
  condition := .group .or
    [.leaf ⟨⟨["title"]⟩, .containsLower, .one (.text "ru")⟩,
      .leaf ⟨⟨["title"]⟩, .notContainsLower, .one (.text "Ru")⟩]

theorem build_letterCase_caseless :
    ∃ q q', build { registry := blog, iLike := true } (.of "post" "p") caseless = .ok q ∧
      build { registry := blog, iLike := false } (.of "post" "p") caseless = .ok q' ∧
      q.condition = some "(p.title ILIKE :title_0) OR (p.title NOT ILIKE :title_1)" ∧
      q'.condition = some "(LOWER(p.title) LIKE :title_0) OR (LOWER(p.title) NOT LIKE :title_1)" ∧
      ∃ uses uses' : List Use, uses.map (·.comparison) = caseless.condition.leaves ∧
        uses'.map (·.comparison) = caseless.condition.leaves ∧
        ∀ use ∈ uses, ∀ use' ∈ uses', use'.comparison = use.comparison →
          ((∀ text : String, Text.IsAscii text.toList →
            (use.Selects { registry := blog, iLike := true } q [] text ↔
              use'.Selects { registry := blog, iLike := false } q' [] text)) ↔
            use.comparison.operator = .containsLower) := by
  obtain ⟨q, hbuild, hcondition⟩ := exists_of_toOption (f := Query.condition)
    (x := build { registry := blog, iLike := true } (.of "post" "p") caseless)
    (b := some "(p.title ILIKE :title_0) OR (p.title NOT ILIKE :title_1)") (by decide +kernel)
  obtain ⟨q', hbuild', hcondition'⟩ := exists_of_toOption (f := Query.condition)
    (x := build { registry := blog, iLike := false } (.of "post" "p") caseless)
    (b := some "(LOWER(p.title) LIKE :title_0) OR (LOWER(p.title) NOT LIKE :title_1)")
    (by decide +kernel)
  obtain ⟨uses, uses', hstates, hstates', hseeks⟩ :=
    @build_letterCase { registry := blog } _ _ _ _ hbuild hbuild'
  have hleaves : uses.map (·.comparison) = caseless.condition.leaves :=
    hstates.leaves.trans (by decide +kernel)
  have hleaves' : uses'.map (·.comparison) = caseless.condition.leaves :=
    hstates'.leaves.trans (by decide +kernel)
  refine ⟨q, q', hbuild, hbuild', hcondition, hcondition', uses, uses', hleaves, hleaves',
    fun use huse use' huse' hsame => ?_⟩
  have hmem : use.comparison ∈ caseless.condition.leaves := by
    rw [← hleaves]
    exact List.mem_map_of_mem huse
  have hop : use.comparison.operator ∈ Operator.seekingLower := by
    rcases List.mem_pair.1 hmem with hleaf | hleaf <;> rw [hleaf] <;> decide
  obtain ⟨scalar, hvalue, -, -, hagree⟩ := hseeks use huse use' huse' hsame hop
  rcases List.mem_pair.1 hmem with hleaf | hleaf
  · rw [hleaf] at hvalue ⊢
    cases hvalue
    exact (hagree (by decide)).trans (iff_of_true (by decide) rfl)
  · rw [hleaf] at hvalue ⊢
    cases hvalue
    exact (hagree (by decide)).trans (iff_of_false (by decide) (by decide))

/-- With a capital letter a title is found with ILIKE, and is not with LOWER. -/
theorem build_letterCase_capital :
    ∃ q q', build { registry := blog, iLike := true } (.of "post" "p")
        { condition := .leaf ⟨⟨["title"]⟩, .containsLower, .one (.text "Ru")⟩ } = .ok q ∧
      build { registry := blog, iLike := false } (.of "post" "p")
        { condition := .leaf ⟨⟨["title"]⟩, .containsLower, .one (.text "Ru")⟩ } = .ok q' ∧
      q.condition = some "p.title ILIKE :title_0" ∧
      q'.condition = some "LOWER(p.title) LIKE :title_0" ∧
      q.parameters.find? "title_0" = some (.one (.text "%Ru%")) ∧
      q'.parameters.find? "title_0" = some (.one (.text "%Ru%")) ∧
      Matching.ignoringCase.Matches "%Ru%" "Rust" ∧ ¬ Matching.lowered.Matches "%Ru%" "Rust" := by
  obtain ⟨q, hbuild, hview⟩ := exists_of_toOption
    (f := fun q : Query => (q.condition, q.parameters.find? "title_0"))
    (x := build { registry := blog, iLike := true } (.of "post" "p")
      { condition := .leaf ⟨⟨["title"]⟩, .containsLower, .one (.text "Ru")⟩ })
    (b := (some "p.title ILIKE :title_0", some (.one (.text "%Ru%")))) (by decide +kernel)
  obtain ⟨q', hbuild', hview'⟩ := exists_of_toOption
    (f := fun q : Query => (q.condition, q.parameters.find? "title_0"))
    (x := build { registry := blog, iLike := false } (.of "post" "p")
      { condition := .leaf ⟨⟨["title"]⟩, .containsLower, .one (.text "Ru")⟩ })
    (b := (some "LOWER(p.title) LIKE :title_0", some (.one (.text "%Ru%")))) (by decide +kernel)
  obtain ⟨hcondition, hparameter⟩ := Prod.mk.inj hview
  obtain ⟨hcondition', hparameter'⟩ := Prod.mk.inj hview'
  refine ⟨q, q', hbuild, hbuild', hcondition, hcondition', hparameter, hparameter', ?_, ?_⟩
  · show Text.Like Text.SameLetter "%Ru%".toList "Rust".toList
    decide
  · show ¬ Text.Like Eq "%Ru%".toList (Text.lower "Rust").toList
    decide

end Sql

end StoreQuery
