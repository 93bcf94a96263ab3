import StoreQuery.Proofs.KeyValue.Classification
import StoreQuery.Proofs.KeyValue.Remainder

/-!
# The filter of a read

A request on an empty base becomes a read whose names are tokens (`Outcome.lexical`). A scan filters
by the whole condition, any other read by what the key leaves of it (`filtered`). **Read as a
formula, the filter is true exactly where that part of the condition is** (`build_filter_truth`),
whatever the answers to the single tests are; and there is no filter exactly if there is nothing
left to filter by.
-/

namespace StoreQuery.KeyValue

open Query

variable {t : Table} {taking : Bool} {base q : Query} {r : Request} {p : Progress}

/-! ## Names of a read -/

theorem compiler_keeps (t : Table) (taking : Bool) :
    Compiler.Law (compiler t taking) fun _ _ p p' => p.query.Lexical → p'.query.Lexical where
  nil _ := id
  append h h' hp := h' (h hp)
  leaf {c} _ _ _ _ run hp := by
    obtain ⟨-, ⟨_, -, -, rfl⟩ | ⟨-, _, query, hleaf, -, rfl⟩⟩ := compileLeaf_cases run
    · exact hp
    · exact leafExpression_keeps c _ _ query hleaf hp
  join _ _ h _ := h

theorem Query.Lexical.withTable (h : base.Lexical) : (withTable t base).Lexical := by
  rw [KeyValue.withTable]
  split
  · exact h.congr rfl rfl
  · exact h

theorem Query.Lexical.withProjection (h : base.Lexical) (select : List Path) :
    (withProjection base select).Lexical := by
  rw [KeyValue.withProjection]
  split
  · exact h
  · exact (h.registerNames select).1.congr rfl rfl

theorem Query.Lexical.withLimit (h : base.Lexical) (limit : Option UInt64) :
    (withLimit base limit).Lexical := by
  cases limit with
  | none => exact h
  | some limit =>
    rw [KeyValue.withLimit]
    split
    · exact h.congr rfl rfl
    · exact h

theorem Query.Lexical.addFilter (h : base.Lexical) (expression : String) :
    (base.addFilter expression).Lexical := by
  rw [Query.addFilter]
  split
  · exact h.congr rfl rfl
  · exact h.congr rfl rfl

theorem Query.Lexical.withOrder (h : base.Lexical) (t : Table) (r : Request) :
    (withOrder t base r).Lexical := by
  rw [KeyValue.withOrder]
  split
  · exact h.congr rfl rfl
  · exact h

theorem compilePass_lexical (hbase : base.Lexical) (h : compilePass t base r taking = .ok p) :
    p.query.Lexical := by
  obtain ⟨filter, progress, hrun, rfl⟩ := compilePass_cases h
  have hstart : (withProjection (withTable t base) r.select).Lexical :=
    hbase.withTable.withProjection r.select
  have hprogress := (compiler_keeps t taking).compileAt [] r.condition hrun hstart
  cases filter with
  | none => exact hprogress.withLimit r.limit
  | some expression => exact (hprogress.addFilter expression).withLimit r.limit

theorem Outcome.lexical (hbase : base.Lexical) (hpass : compilePass t base r true = .ok p)
    (h : Outcome t base r p q) : q.Lexical := by
  have hp := compilePass_lexical hbase hpass
  cases h with
  | scan => exact hp
  | whole _ hwhole => exact compilePass_lexical hbase hwhole
  | lookup => exact hp.congr rfl rfl
  | @query value condition q hvalue _ hrun =>
    have hq : q.Lexical := keyCondition_keeps t value p.keys _ _ _ hrun hp
    have hkeyed : Lexical { q with keyCondition := some condition } := hq.congr rfl rfl
    exact hkeyed.withOrder t r

/-! ## The filter of a pass -/

/-- The filter that a pass adds says what is left of the condition. -/
theorem compilePass_reads (hfilter : base.filter = none)
    (h : compilePass t base r taking = .ok p) (hresolves : p.query.Resolves q)
    (hlexical : q.Lexical) (hnull : q.null = .null true) :
    (left t true (taking, taking) r.condition).2 = wanted taking p.keys ∧
      Reads q .root (left t true (taking, taking) r.condition).1 p.query.filter := by
  obtain ⟨filter, progress, hrun, rfl⟩ := compilePass_cases h
  have hstart := (carries_withTable t base).trans
    (carries_withProjection (withTable t base) r.select)
  have hcarries := hstart.trans (compileAt_compiled .root r.condition hrun).query.carries
  have hnone := hcarries.filter.trans hfilter
  have hsame := (sameParts_addFilter progress.query filter).trans (sameParts_withLimit _ r.limit)
  have hprogress := resolves_setFilter progress.query (progress.query.filterWith filter)
  have hreads := compileAt_reads hlexical hnull .root r.condition hrun
    ((hprogress.trans hsame.carries.toResolves).trans hresolves)
  have hwanted : wanted taking {} = (taking, taking) := by cases taking <;> rfl
  rw [hwanted] at hreads
  rw [hsame.filter, filterWith_of_none hnone]
  exact hreads

/-! ## The filter of a read -/

/-- The part of a condition that a read filters by. -/
def filtered (t : Table) (condition : Condition) : QueryKind → Condition
  | .scan => condition
  | .getItem | .query => rest t condition

theorem Passed.kind_eq_scan (h : Passed t taking base r p) (hkey : base.key = none)
    (hkeyCondition : base.keyCondition = none) : p.query.kind = .scan := by
  simp [Query.kind, h.key, h.keyCondition, hkey, hkeyCondition]

/-- The key condition that a pass leads to adds tokens. -/
theorem resolves_of_keyCondition {value : Scalar} {keys : Keys} {condition : String} {q' : Query}
    (hrun : keyCondition t value keys q = .ok condition q') :
    q.Resolves (withOrder t { q' with keyCondition := some condition } r) ∧
      (withOrder t { q' with keyCondition := some condition } r).key = q.key ∧
      (withOrder t { q' with keyCondition := some condition } r).keyCondition = some condition ∧
      (withOrder t { q' with keyCondition := some condition } r).filter = q.filter := by
  obtain ⟨hext, -⟩ := keyCondition_yields (p := ⟨t.partitionPath, .eq, .one value⟩) rfl rfl rfl
    condition q' hrun
  have horder := (sameParts_withOrder t { q' with keyCondition := some condition } r).carries
  have hkeyed : q'.Resolves { q' with keyCondition := some condition } :=
    ⟨fun _ _ h => h, fun _ _ h => h, rfl⟩
  exact ⟨(hext.toResolves.trans hkeyed).trans horder.toResolves, horder.key.trans hext.key,
    horder.keyCondition, horder.filter.trans hext.filter⟩

theorem Outcome.reads (hkey : base.key = none) (hkeyCondition : base.keyCondition = none)
    (hfilter : base.filter = none) (hbase : base.Lexical) (hnull : base.null = .null true)
    (hpass : compilePass t base r true = .ok p) (h : Outcome t base r p q) :
    Reads q .root (filtered t r.condition q.kind) q.filter := by
  have hlexical := h.lexical hbase hpass
  have hpassed := compilePass_passed hfilter hpass
  cases h with
  | scan hpartition hsort =>
    have hresolves : p.query.Resolves p.query := (Extends.refl p.query).toResolves
    obtain ⟨hwanted, hreads⟩ := compilePass_reads hfilter hpass hresolves hlexical
      (hpassed.resolves.null.trans hnull)
    rw [wanted, hpartition, hsort] at hwanted
    -- No key part was taken, so the whole condition is left.
    rw [left_eq_of_wanted hwanted] at hreads
    rw [hpassed.kind_eq_scan hkey hkeyCondition]
    exact hreads
  | @whole whole _ hwhole =>
    have hpassed := compilePass_passed hfilter hwhole
    have hresolves : whole.query.Resolves whole.query := (Extends.refl whole.query).toResolves
    obtain ⟨-, hreads⟩ := compilePass_reads hfilter hwhole hresolves hlexical
      (hpassed.resolves.null.trans hnull)
    -- The second pass takes no key parts.
    rw [left_false] at hreads
    rw [hpassed.kind_eq_scan hkey hkeyCondition]
    exact hreads
  | @lookup value =>
    have hresolves : p.query.Resolves { p.query with
        key := some (setKey (setKey .empty (some t.partitionKey) (some value))
          (p.keys.sort.map (·.path.toText)) p.keys.sortScalar)
        limit := none } := ⟨fun _ _ h => h, fun _ _ h => h, rfl⟩
    exact (compilePass_reads hfilter hpass hresolves hlexical
      (hpassed.resolves.null.trans hnull)).2
  | @query value condition q hvalue _ hrun =>
    obtain ⟨hresolves, hkey', hkeyCondition', hfilter'⟩ := resolves_of_keyCondition (r := r) hrun
    obtain ⟨-, hreads⟩ := compilePass_reads hfilter hpass hresolves hlexical
      ((hpassed.resolves.trans hresolves).null.trans hnull)
    have hkind : (withOrder t { q with keyCondition := some condition } r).kind = .query := by
      simp [Query.kind, hkey', hkeyCondition', hpassed.key, hkey]
    rw [hkind, hfilter']
    exact hreads

/-- **The filter of a read is true exactly where the part of the condition is that the read filters
by.** -/
theorem build_filter_truth {tableName : String} (h : build t { tableName } r = .ok q) :
    match (filtered t r.condition q.kind).pruned with
    | none => q.filter = none
    | some part => ∃ text tokens formula, q.filter = some text ∧
        Formula.read? text = some tokens ∧ tokens.resolve? q = some formula ∧
        ∀ holds, formula.truth holds = part.truth (answer holds) := by
  obtain ⟨p, hpass, houtcome⟩ := buildFree_outcome h
  have hreads := houtcome.reads rfl rfl rfl (lexical_of tableName) rfl hpass
  have hmeaning := fun holds =>
    Condition.meaning_eq_truth (answer holds) (filtered t r.condition q.kind)
  generalize filtered t r.condition q.kind = part at hreads hmeaning
  cases hfilter : q.filter with
  | none =>
    rw [hfilter] at hreads
    have hnone := (hmeaning fun _ => true).symm.trans (hreads fun _ => true)
    rw [Option.map_eq_none_iff.1 hnone]
  | some text =>
    rw [hfilter] at hreads
    obtain ⟨tokens, statement, -, hfilling, ⟨formula, hresolve, -, htruth⟩, hstates⟩ := hreads
    cases hpruned : part.pruned with
    | none =>
      have hsome := (hmeaning fun _ => true).symm.trans (hstates fun _ => true)
      rw [hpruned] at hsome
      cases hsome
    | some left =>
      refine ⟨text, tokens, formula, rfl, hfilling.read?, hresolve, fun holds => ?_⟩
      have hsome := (hmeaning holds).symm.trans (hstates holds)
      rw [hpruned] at hsome
      exact (htruth holds).trans (Option.some.inj hsome).symm

/-- An OR with an AND inside it, in which null is tested for and membership denied. -/
def alternatives : Condition := .group .or [
  .group .and [.leaf ⟨.ofText "x", .between, .many [.int 1, .int 2]⟩,
    .leaf ⟨.ofText "y", .isNull, .one .null⟩,
    .leaf ⟨.ofText "z-z", .notIn, .many [.text "a", .text "b"]⟩],
  .leaf ⟨.ofText "x", .neq, .one (.int 3)⟩]

/-- Alternatives beside the partition leaf and a bracket that is empty but for the sort leaf. -/
def keyed : Condition := .group .and [alternatives,
  .leaf ⟨.ofText "pk", .eq, .one (.text "a")⟩,
  .group .and [.group .or [], .leaf ⟨.ofText "sk", .gt, .one (.int 9)⟩]]

/-- The bracket around the alternatives is gone, and the parentheses inside it have stayed. -/
theorem build_filter_truth_keyed :
    ∃ q, build sorted { tableName := "" } { condition := keyed } = .ok q ∧
      q.filter = some ("((#x BETWEEN :x_start AND :x_end AND " ++
        "(attribute_not_exists(#y) OR #y = :null) AND NOT (#z_z IN (:z_z_0, :z_z_1))) OR " ++
        "#x <> :x1)") ∧
      ∃ text tokens formula, q.filter = some text ∧ Formula.read? text = some tokens ∧
        tokens.resolve? q = some formula ∧ ∀ holds, formula.truth holds =
          (holds (.test (.between "x" (.number "1") (.number "2"))) &&
              (holds (.vacant "y") && !holds (.test (.among "z-z" [.text "a", .text "b"]))) ||
            holds (.test (.compare "<>" "x" (.number "3")))) := by
  have hrun : (build sorted { tableName := "" } { condition := keyed }).toOption.map
      (fun q => (q.kind, q.filter)) = some (.query, some ("((#x BETWEEN :x_start AND :x_end AND " ++
        "(attribute_not_exists(#y) OR #y = :null) AND NOT (#z_z IN (:z_z_0, :z_z_1))) OR " ++
        "#x <> :x1)")) := by decide +kernel
  cases hbuild : build sorted { tableName := "" } { condition := keyed } with
  | error e => rw [hbuild] at hrun; cases hrun
  | ok q =>
    rw [hbuild] at hrun
    obtain ⟨hkind, hfilter⟩ := Prod.mk.inj (Option.some.inj hrun)
    have hpart : (filtered sorted keyed q.kind).pruned = some (.group .and [alternatives]) := by
      rw [hkind]
      rfl
    have hformula := build_filter_truth hbuild
    rw [hpart] at hformula
    obtain ⟨text, tokens, formula, htext, hread, hresolve, htruth⟩ := hformula
    refine ⟨q, rfl, hfilter, text, tokens, formula, htext, hread, hresolve, fun holds => ?_⟩
    have hone : Attribute.number "1" = .ofScalar (.int 1) := congrArg Attribute.number (by decide)
    have htwo : Attribute.number "2" = .ofScalar (.int 2) := congrArg Attribute.number (by decide)
    have hthree : Attribute.number "3" = .ofScalar (.int 3) := congrArg Attribute.number (by decide)
    rw [htruth holds, hone, htwo, hthree]
    simp only [alternatives, Condition.truth, Condition.allTrue, Condition.someTrue, Bool.and_true,
      Bool.or_false]
    rfl

end StoreQuery.KeyValue
