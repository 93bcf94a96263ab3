import StoreQuery.Proofs.Condition.Normal
import StoreQuery.Proofs.Condition.Retained
import StoreQuery.Proofs.Sql.Parameters
import StoreQuery.Proofs.Sql.Reading

/-!
# The condition of a statement is read as it was meant

Of a condition only those leaves get into a statement that are taken, and no bracket is written that
has fewer than two members then. What is left is a tree of leaves and brackets
(`Condition.reduced`), and its text can be read in one way only.

**The condition of a query is read as what is left of the condition of the request**
(`build_readsAs`): each leaf is a piece, and each bracket is a row of what its members are read as,
with one connective between all of them (`ReadsAs`). A base that has a condition keeps it as a group
of its own.
-/

namespace StoreQuery.Sql

variable {schema : Schema} {main : String}

/-! ## Trees and readings -/

mutual

/-- How a condition is read: a leaf as a piece with the names of its parameters, a bracket as a row
with one connective between all its members. -/
inductive ReadsAs (schema : Schema) (main : String) : Condition → List Use → Reading → Prop
  | leaf (use : Use) :
    ReadsAs schema main (.leaf use.comparison) [use] (.piece (use.text schema main))
  | bracket (k : Connective) {members : List Condition} {uses : List Use} {readings : List Reading}
    (several : 2 ≤ members.length) (h : AllReadAs schema main members uses readings) :
    ReadsAs schema main (.group k members) uses
      (.chain (List.replicate (members.length - 1) k) readings)

/-- How conditions are read, one after the other. -/
inductive AllReadAs (schema : Schema) (main : String) :
    List Condition → List Use → List Reading → Prop
  | nil : AllReadAs schema main [] [] []
  | cons {condition : Condition} {conditions : List Condition} {uses others : List Use}
    {reading : Reading} {readings : List Reading} (h : ReadsAs schema main condition uses reading)
    (hrest : AllReadAs schema main conditions others readings) :
    AllReadAs schema main (condition :: conditions) (uses ++ others) (reading :: readings)

end

namespace AllReadAs

theorem single {condition : Condition} {uses : List Use} {reading : Reading}
    (h : ReadsAs schema main condition uses reading) :
    AllReadAs schema main [condition] uses [reading] := by
  have hsingle := AllReadAs.cons h .nil
  rwa [List.append_nil] at hsingle

theorem append {conditions conditions' : List Condition} {uses uses' : List Use}
    {readings readings' : List Reading} (h : AllReadAs schema main conditions uses readings)
    (h' : AllReadAs schema main conditions' uses' readings') :
    AllReadAs schema main (conditions ++ conditions') (uses ++ uses') (readings ++ readings') :=
  match h with
  | .nil => h'
  | .cons hfirst hrest => by
    rw [List.cons_append, List.append_assoc]
    exact .cons hfirst (hrest.append h')

theorem length_eq {conditions : List Condition} {uses : List Use} {readings : List Reading}
    (h : AllReadAs schema main conditions uses readings) : conditions.length = readings.length :=
  match h with
  | .nil => rfl
  | .cons _ hrest => congrArg Nat.succ hrest.length_eq

end AllReadAs

mutual

/-- The pieces are the leaves, in document order. -/
theorem ReadsAs.leaves_eq {condition : Condition} {uses : List Use} {reading : Reading}
    (h : ReadsAs schema main condition uses reading) :
    uses.map (·.comparison) = condition.leaves :=
  match h with
  | .leaf _ => rfl
  | .bracket _ _ h => h.leaves_eq

theorem AllReadAs.leaves_eq {conditions : List Condition} {uses : List Use}
    {readings : List Reading} (h : AllReadAs schema main conditions uses readings) :
    uses.map (·.comparison) = Condition.leavesOf conditions :=
  match h with
  | .nil => rfl
  | .cons h hrest => by
    rw [List.map_append, h.leaves_eq, hrest.leaves_eq, Condition.leavesOf]

end

/-! ## Compiling -/

section Compiling

variable {q : Query} {relations : List Relation} (hmain : IsName q.aliasName)
  (hnames : schema.registry.IsNamed)
  (hpolicies : ∀ clause : Clause, clause.policy schema.policies ≠ .allowUnsafe)
  (haliases : ∀ relation ∈ relations, relation.aliasName = none)

include hmain hnames hpolicies haliases

/-- The condition of a leaf is balanced, and a piece. -/
theorem compileLeaf_readsAs {c : Comparison} {scope : Scope} {text : Option String}
    {bound bound' : Dict Operand}
    (run : compileLeaf schema q relations c scope bound = .ok text bound') :
    takes schema q.entity .condition c.path = false ∧ text = none ∨
      takes schema q.entity .condition c.path = true ∧ ∃ use : Use, use.comparison = c ∧
        use.IsOwn ∧ text = some (use.text schema q.aliasName) ∧
        Balanced (use.text schema q.aliasName) ∧
        read (use.text schema q.aliasName) = .piece (use.text schema q.aliasName) := by
  obtain ⟨haccepts, rfl, -⟩ | ⟨haccepts, hvalid, parameter, hparameter, rfl, -⟩ :=
    compileLeaf_cases run
  · exact .inl ⟨takes_of_accepts haccepts, rfl⟩
  obtain ⟨n, hn⟩ := exists_parameterName q.parameters bound c.path.name
  rw [← hparameter] at hn
  obtain ⟨-, hcolumn⟩ := hasColumn_of_isColumn (leads_of_accepts hpolicies haccepts)
  obtain ⟨hchain, hname⟩ := isName_of_hasColumn hnames hcolumn
  have halias := isName_aliasPath hmain hchain
  have hbalanced : Balanced parameter := by
    rw [hn]
    exact ((hname.append (by decide)).append (isName_ofNat n)).balanced
  have hopen : '(' ∉ (aliasPath q.aliasName c.path.base ++ "." ++ c.path.name).toList := by
    simp [halias.notMem (c := '(') (by decide), hname.notMem (c := '(') (by decide)]
  refine .inr ⟨takes_of_accepts haccepts, ⟨c, parameter⟩, rfl, ⟨hvalid, n, hn⟩, ?_, ?_,
    read_leafText schema c.operator hopen⟩
  · rw [columnOf_eq haliases]
    rfl
  · exact balanced_leafText schema c.operator
      ((halias.balanced.append (by decide)).append hname.balanced) hbalanced

/-- What compiling to text makes of the tree: it is read back. -/
theorem compiler_readsAs :
    Compiler.TreeLaw (compiler schema q relations)
      (fun c => takes schema q.entity .condition c.path) fun conditions texts _ _ =>
        (∀ text ∈ texts, Balanced text) ∧ ∃ uses : List Use, (∀ use ∈ uses, use.IsOwn) ∧
          AllReadAs schema q.aliasName conditions uses (texts.map read) where
  nil _ := ⟨nofun, [], nofun, .nil⟩
  append h h' := by
    obtain ⟨hbalanced, uses, hown, hreads⟩ := h
    obtain ⟨hbalanced', uses', hown', hreads'⟩ := h'
    refine ⟨List.forall_mem_append.2 ⟨hbalanced, hbalanced'⟩, uses ++ uses',
      List.forall_mem_append.2 ⟨hown, hown'⟩, ?_⟩
    rw [List.map_append]
    exact hreads.append hreads'
  leaf {c scope text bound bound'} run := by
    have hleaf : compileLeaf schema q relations c scope bound = .ok text bound' := run
    obtain ⟨hdropped, rfl⟩ | ⟨hkept, use, rfl, hown, rfl, hbalanced, hread⟩ :=
      compileLeaf_readsAs hmain hnames hpolicies haliases hleaf
    · rw [hdropped]
      exact ⟨nofun, [], nofun, .nil⟩
    · rw [hkept]
      refine ⟨List.forall_mem_singleton.2 hbalanced, [use], List.forall_mem_singleton.2 hown, ?_⟩
      show AllReadAs schema q.aliasName [.leaf use.comparison] [use] [read _]
      rw [hread]
      exact .single (.leaf use)
  join {conditions texts bound bound'} k scope h several := by
    obtain ⟨hbalanced, uses, hown, hreads⟩ := h
    have hlength : conditions.length = texts.length := hreads.length_eq.trans (List.length_map ..)
    refine ⟨List.forall_mem_singleton.2 (balanced_joinConditions k hbalanced), uses, hown, ?_⟩
    show AllReadAs schema q.aliasName [.group k conditions] uses [read (joinConditions k texts)]
    -- What is joined is read back as its parts, since each of them is balanced.
    rw [read_joinConditions k several hbalanced, ← hlength]
    exact .single (.bracket k (hlength ▸ several) hreads)
  length_eq h := by
    obtain ⟨-, uses, -, hreads⟩ := h
    exact hreads.length_eq.trans (List.length_map ..)

end Compiling

/-! ## Queries -/

variable {base q : Query} {r : Request}

/-- The text for what is left of a condition, if anything is. -/
inductive Written (schema : Schema) (main : String) :
    Option Condition → List Use → Option String → Prop
  | nothing : Written schema main none [] none
  | condition {left : Condition} {uses : List Use} {text : String} (balanced : Balanced text)
    (h : ReadsAs schema main left uses (read text)) :
    Written schema main (some left) uses (some text)

theorem Written.of_allReadAs {left : Option Condition} {uses : List Use} {text : Option String}
    (hbalanced : ∀ part ∈ text.toList, Balanced part)
    (h : AllReadAs schema main left.toList uses (text.toList.map read)) :
    Written schema main left uses text := by
  cases left with
  | none =>
    cases text with
    | none =>
      cases h
      exact .nothing
    | some text => cases h
  | some left =>
    cases text with
    | none => cases h
    | some text =>
      cases h with
      | cons hleft hrest =>
        cases hrest
        rw [List.append_nil]
        exact .condition (hbalanced text (.head _)) hleft

/-- A condition that is added to another one, or to none. -/
def addedTo (existing : Option String) (text : String) : String :=
  match existing with
  | some existing => "(" ++ existing ++ ") AND (" ++ text ++ ")"
  | none => text

theorem addedTo_some (existing text : String) :
    addedTo (some existing) text = joinConditions .and [existing, text] :=
  (joinConditions_pair existing text).symm

/-- The condition of a query is that of the base, with the text of the request added. -/
theorem condition_of_build (h : build schema base r = .ok q) :
    ∃ start added bound, start.entity = base.entity ∧ start.aliasName = base.aliasName ∧
      (compiler schema start r.relations).compileAt .root r.condition .empty = .ok added bound ∧
      q.condition = added.elim base.condition fun text => some (addedTo base.condition text) := by
  obtain ⟨-, added, bound, hrun, hq, -⟩ := run_of_build h
  refine ⟨base, added, bound, rfl, rfl, hrun, ?_⟩
  rw [hq]
  cases added <;> rfl

/-- **The condition of a query is read as it was meant.** The text that a request adds is balanced,
and it is read as what is left of its condition when the leaves that are not taken are dropped, with
the conditions of the leaves in document order. A condition of the base stays as it is, as one of
two groups with AND between them, and if it is balanced it is read as that group. -/
theorem build_readsAs (hmain : IsName base.aliasName) (hnames : schema.registry.IsNamed)
    (hpolicies : ∀ clause : Clause, clause.policy schema.policies ≠ .allowUnsafe)
    (haliases : ∀ relation ∈ r.relations, relation.aliasName = none)
    (h : build schema base r = .ok q) :
    ∃ (uses : List Use) (added : Option String),
      uses.map (·.comparison) = takenLeaves schema base.entity r.condition.leaves ∧
      (∀ use ∈ uses, use.IsOwn) ∧
      Written schema base.aliasName (r.condition.retain fun c =>
        takes schema base.entity .condition c.path).reduced uses added ∧
      (base.condition = none → q.condition = added) ∧
      (added = none → q.condition = base.condition) ∧
      ∀ existing text, base.condition = some existing → added = some text →
        q.condition = some ("(" ++ existing ++ ") AND (" ++ text ++ ")") ∧
        (Balanced existing → ∀ whole, q.condition = some whole → Balanced whole ∧
          read whole = .chain [.and] [read existing, read text]) := by
  obtain ⟨start, added, bound, hentity, haliasName, hrun, hq⟩ := condition_of_build h
  rw [← haliasName] at hmain ⊢
  rw [← hentity]
  obtain ⟨hbalanced, uses, hown, hreads⟩ :=
    (compiler_readsAs hmain hnames hpolicies haliases).compileAt .root r.condition hrun
  have hleaves := hreads.leaves_eq
  rw [Condition.leavesOf_reduced, Condition.leaves_retain] at hleaves
  -- The text is known; what is left is how it goes together with the base.
  refine ⟨uses, added, hleaves, hown, .of_allReadAs hbalanced hreads, ?none, ?kept, ?both⟩
  case none =>
    intro hnone
    rw [hq, hnone]
    cases added <;> rfl
  case kept =>
    rintro rfl
    exact hq
  case both =>
    rintro existing text hexisting rfl
    rw [hexisting] at hq
    refine ⟨hq, fun hgroup whole hwhole => ?_⟩
    obtain rfl : addedTo (some existing) text = whole := Option.some.inj (hq.symm.trans hwhole)
    have hboth : ∀ part ∈ [existing, text], Balanced part :=
      List.forall_mem_cons.2 ⟨hgroup, hbalanced⟩
    rw [addedTo_some]
    exact ⟨balanced_joinConditions .and hboth, read_joinConditions .and le_rfl hboth⟩

/-- Conditions on posts and their authors; leaves that lead nowhere are dropped. -/
def lenient : Schema := { registry := blog, policies := { condition := .ignore } }

/-- The posts behind a certain one. -/
def laterPosts : Query :=
  { Query.of "post" "p" with
    condition := some "p.id > :least"
    parameters := .ofList [("least", .one (.int 7))] }

/-- Lists and ranges, and brackets in which one leaf or none is left. -/
def mixed : Request where
  condition := .group .or
    [.leaf ⟨⟨["author", "name"]⟩, .inLower, .many [.text "a", .text "b"]⟩,
      .group .and [.leaf ⟨⟨["ghost"]⟩, .isNull, .one .null⟩,
        .leaf ⟨⟨["id"]⟩, .between, .many [.int 1, .int 9]⟩],
      .group .and [.group .or [], .leaf ⟨⟨["title"]⟩, .containsLower, .one (.text "x")⟩,
        .group .or [.leaf ⟨⟨["id"]⟩, .isNull, .one .null⟩,
          .leaf ⟨⟨["title"]⟩, .starts, .one (.text "y")⟩]]]

/-- What is left of it. -/
def mixedLeft : Condition := .group .or
  [.leaf ⟨⟨["author", "name"]⟩, .inLower, .many [.text "a", .text "b"]⟩,
    .leaf ⟨⟨["id"]⟩, .between, .many [.int 1, .int 9]⟩,
    .group .and [.leaf ⟨⟨["title"]⟩, .containsLower, .one (.text "x")⟩,
      .group .or [.leaf ⟨⟨["id"]⟩, .isNull, .one .null⟩,
        .leaf ⟨⟨["title"]⟩, .starts, .one (.text "y")⟩]]]

theorem build_readsAs_mixed :
    IsName laterPosts.aliasName ∧ lenient.registry.IsNamed ∧
      (∀ clause : Clause, clause.policy lenient.policies ≠ .allowUnsafe) ∧
      ∃ q, build lenient laterPosts mixed = .ok q ∧
        q.condition = some ("(p.id > :least) AND ((LOWER(p_author.name) IN (:...name_0)) OR " ++
          "(p.id BETWEEN :id_0_start AND :id_0_end) OR " ++
          "((LOWER(p.title) LIKE :title_0) AND ((p.id IS NULL) OR (p.title LIKE :title_1))))") ∧
        ∃ uses text, ReadsAs lenient "p" mixedLeft uses (read text) ∧
          ∀ whole, q.condition = some whole → Balanced whole ∧
            read whole = .chain [.and] [.piece "p.id > :least", read text] := by
  have hmain : IsName laterPosts.aliasName := by decide
  have hnames : lenient.registry.IsNamed := by decide
  have hpolicies : ∀ clause : Clause, clause.policy lenient.policies ≠ .allowUnsafe := by
    intro clause
    cases clause <;> decide
  obtain ⟨q, hbuild, hcondition⟩ := exists_of_toOption (f := Query.condition)
    (x := build lenient laterPosts mixed)
    (b := some ("(p.id > :least) AND ((LOWER(p_author.name) IN (:...name_0)) OR " ++
      "(p.id BETWEEN :id_0_start AND :id_0_end) OR " ++
      "((LOWER(p.title) LIKE :title_0) AND ((p.id IS NULL) OR (p.title LIKE :title_1))))"))
    (by decide +kernel)
  obtain ⟨uses, added, -, -, hwritten, -, -, hboth⟩ :=
    build_readsAs hmain hnames hpolicies (List.forall_mem_nil _) hbuild
  have hleft : (mixed.condition.retain fun c =>
      takes lenient laterPosts.entity .condition c.path).reduced = some mixedLeft := by rfl
  rw [hleft] at hwritten
  refine ⟨hmain, hnames, hpolicies, q, hbuild, hcondition, ?_⟩
  cases hwritten with
  | condition hbalanced hreads =>
    obtain ⟨-, hgroup⟩ := hboth _ _ rfl rfl
    have hpiece : read "p.id > :least" = .piece "p.id > :least" := read_of_head (by decide)
    rw [hpiece] at hgroup
    exact ⟨uses, _, hreads, hgroup (by decide)⟩

end StoreQuery.Sql
