import StoreQuery.Proofs.Condition.Growth
import StoreQuery.Proofs.Search.Clause

/-!
# What the steps of a search add

`Adds step here k clauses` says that a step, run at a bracket `here` of kind `k` in any builder,
grows this bracket by exactly the parts of some clauses, or fails with their error.

**A search condition adds its clauses** (`adds_addSearch`). The proof is an induction over the
JSON value, with a law for each way in which steps are put together: one after the other
(`Adds.seq`), loose (`Adds.loose`), in a bracket that is entered (`Adds.enterIf`), and in a bracket
that is opened first and filled last (`Adds.beside`).
-/

namespace StoreQuery.Search

open Builder

/-- A step grows a bracket of a kind by the parts of clauses, or fails with their error. -/
def Adds (step : Step Unit) (here : Nat) (k : Connective) (clauses : Except Error (List Clause)) :
    Prop :=
  ∀ b : Builder, b.Ordered → b.HasKind here k →
    match clauses with
    | .ok cs => ∃ b', step b = .ok () b' ∧ Grows here (Clause.partsOf k cs) b b'
    | .error e => ∃ b', step b = .error e b'

variable {here : Nat} {k kind : Connective} {step next : Step Unit}
  {x y : Except Error (List Clause)}

namespace Adds

/-! ## Laws -/

theorem congr (h : Adds step here k x) (hxy : x = y) : Adds step here k y := hxy ▸ h

theorem nothing (here : Nat) (k : Connective) : Adds (pure ()) here k (.ok []) :=
  fun b hb hk => ⟨b, rfl, .refl hb hk⟩

theorem fails (e : Error) (here : Nat) (k : Connective) :
    Adds (throw e : Step Unit) here k (.error e) :=
  fun b _ _ => ⟨b, rfl⟩

/-- One step after the other. -/
theorem seq (h : Adds step here k x) (h' : Adds next here k y) :
    Adds (do step; next) here k (do let a ← x; let c ← y; return a ++ c) := by
  intro b hb hk
  have h := h b hb hk
  cases x with
  | error e =>
    obtain ⟨b', run⟩ := h
    exact ⟨b', by simp only [bind, EStateM.bind, run]⟩
  | ok cs =>
    obtain ⟨b', run, grows⟩ := h
    have h' := h' b' grows.ordered (grows.hasKind hk)
    cases y with
    | error e =>
      obtain ⟨b'', run'⟩ := h'
      exact ⟨b'', by simp only [bind, EStateM.bind, run, run']⟩
    | ok cs' =>
      obtain ⟨b'', run', grows'⟩ := h'
      refine ⟨b'', by simp only [bind, EStateM.bind, run, run'], ?_⟩
      rw [Clause.partsOf_append]
      exact grows.append grows'

/-- Clauses that go into the bracket at hand make a loose group. -/
theorem loose (h : Adds step here k x) (kind : Connective) :
    Adds step here k (x.map fun cs => [.group kind false cs]) := by
  intro b hb hk
  have h := h b hb hk
  cases x with
  | error e => exact h
  | ok cs =>
    obtain ⟨b', run, grows⟩ := h
    exact ⟨b', run, by rwa [Clause.partsOf_loose]⟩

/-- Clauses in a bracket of a kind that is entered first. -/
theorem enter {inner : Nat → Step Unit} (h : ∀ inside, Adds (inner inside) inside kind x) :
    Adds (do let inside ← Builder.enter kind here; inner inside) here k
      (x.map fun cs => [.group kind true cs]) := by
  intro b hb hk
  obtain ⟨node, hn, rfl⟩ := hk
  by_cases hkind : node.kind = kind
  · -- The bracket at hand is of the kind, and is the one that is entered.
    have run : Builder.enter kind here b = .ok here b := by
      rw [Builder.enter, hn]
      exact if_pos hkind
    have h := h here b hb ⟨node, hn, hkind⟩
    cases x with
    | error e =>
      obtain ⟨b', run'⟩ := h
      exact ⟨b', by simp only [bind, EStateM.bind, run, run']⟩
    | ok cs =>
      obtain ⟨b', run', grows⟩ := h
      refine ⟨b', by simp only [bind, EStateM.bind, run, run'], ?_⟩
      simpa [Clause.partsOf, Clause.parts, Clause.place, Clause.bracket, hkind] using grows
  · -- A bracket of the other kind is opened, which is the last one.
    have run : Builder.enter kind here b = .ok b.nodes.length (b.openIn here kind) := by
      rw [Builder.enter, hn]
      exact if_neg hkind
    have h := h b.nodes.length (b.openIn here kind) (ordered_openIn hb hn kind)
      ⟨_, node?_openIn_new b here kind, rfl⟩
    cases x with
    | error e =>
      obtain ⟨b', run'⟩ := h
      exact ⟨b', by simp only [bind, EStateM.bind, run, run']⟩
    | ok cs =>
      obtain ⟨b', run', grows⟩ := h
      refine ⟨b', by simp only [bind, EStateM.bind, run, run'], ?_⟩
      have grows := grows.inside hb ⟨node, hn, rfl⟩
      simpa [Clause.partsOf, Clause.parts, Clause.place, Clause.bracket, Ne.symm hkind] using grows

/-- Clauses in a bracket that is entered where it is called for. -/
theorem enterIf {inner : Nat → Step Unit} (wanted : Bool)
    (h : ∀ inside k, Adds (inner inside) inside k x) :
    Adds (do let inside ← Builder.enterIf wanted kind here; inner inside) here k
      (x.map fun cs => [.group kind wanted cs]) := by
  cases wanted with
  | true => exact enter fun inside => h inside kind
  | false => exact (h here k).loose kind

/-- Clauses in a bracket that is opened where it is called for, before other clauses are added
next to it, and filled after them. -/
theorem beside {inner : Nat → Step Unit} (wanted : Bool) (hne : k ≠ kind)
    (h : Adds step here k x) (h' : ∀ inside k, Adds (inner inside) inside k y) :
    Adds (do let inside ← Builder.enterIf wanted kind here; step; inner inside) here k
      (do
        let a ← x
        let c ← y
        return if wanted then .group kind true c :: a else a ++ [.group kind false c]) := by
  cases wanted with
  | false =>
    have := h.seq ((h' here k).loose kind)
    cases x <;> cases y <;> exact this
  | true =>
    intro b hb hk
    obtain ⟨node, hn, rfl⟩ := hk
    have run : Builder.enter kind here b = .ok b.nodes.length (b.openIn here kind) := by
      rw [Builder.enter, hn]
      exact if_neg hne
    have hopen : (b.openIn here kind).HasKind here node.kind := by
      rw [HasKind, node?_openIn_old _ _ _ (lt_of_node? hn), node?_append, if_pos rfl, hn]
      exact ⟨_, rfl, rfl⟩
    -- The step runs where the bracket is open already, and stays outside it.
    have h := h (b.openIn here kind) (ordered_openIn hb hn kind) hopen
    cases x with
    | error e =>
      obtain ⟨b', run'⟩ := h
      exact ⟨b', by simp only [Builder.enterIf, if_true, bind, EStateM.bind, run, run']⟩
    | ok cs =>
      obtain ⟨b', run', grows⟩ := h
      have h' := h' b.nodes.length kind b' grows.ordered
        (grows.hasKind ⟨_, node?_openIn_new b here kind, rfl⟩)
      cases y with
      | error e =>
        obtain ⟨b'', run''⟩ := h'
        exact ⟨b'', by simp only [Builder.enterIf, if_true, bind, EStateM.bind, run, run', run'']⟩
      | ok cs' =>
        obtain ⟨b'', run'', grows'⟩ := h'
        refine ⟨b'', by
          simp only [Builder.enterIf, if_true, bind, EStateM.bind, run, run', run''], ?_⟩
        have both := grows.beside hb ⟨node, hn, rfl⟩ grows'
        simpa [Clause.partsOf, Clause.parts, Clause.place, Clause.bracket, Ne.symm hne] using both

end Adds

/-! ## Operators -/

theorem adds_addField (here : Nat) (k : Connective) (path : Path) (op : Operator)
    (operand : Operand) : Adds (addField here path op operand) here k
      (leafClauses path op operand) := by
  intro b hb hk
  rw [leafClauses]
  split <;> rename_i hmatch <;> split at hmatch <;> cases hmatch <;> rename_i hvalid
  · obtain ⟨node, hn, rfl⟩ := hk
    refine ⟨_, ?_, grows_append hb ⟨node, hn, rfl⟩ ⟨path, op, operand⟩⟩
    simp only [addField, Comparison.make, hvalid, hn]
  · exact ⟨b, by simp only [addField, Comparison.make, hvalid]⟩

theorem adds_addValue (here : Nat) (k : Connective) (path : Path) (op : Operator) (value : Json) :
    Adds (addValue here path op value) here k
      (valueClauses path op (op.fault (.notComparable path.toText)) value) := by
  rw [addValue, valueClauses]
  cases Operand.ofJson? value with
  | some operand => exact adds_addField here k path op operand
  | none => exact .fails _ here k

mutual

theorem adds_addOperand (here : Nat) (k : Connective) (path : Path) (op : Operator) :
    ∀ value, Adds (addOperand here path op value) here k (operandClauses path op value)
  | .arr items => by
    rw [addOperand, operandClauses]
    split_ifs
    · exact (adds_addOperands here k path op items).loose .and
    · exact adds_addValue here k path op (.arr items)
  | .null | .bool _ | .num _ | .str _ | .obj _ => by
    simp only [addOperand, operandClauses]
    exact adds_addValue here k path op _

theorem adds_addOperands (here : Nat) (k : Connective) (path : Path) (op : Operator) :
    ∀ items, Adds (addOperands here path op items) here k (operandsClauses path op items)
  | [] => .nothing here k
  | item :: items =>
    (adds_addOperand here k path op item).seq (adds_addOperands here k path op items)

end

theorem adds_addOperators (here : Nat) (k : Connective) (path : Path)
    (operators : List (String × Json)) :
    Adds (addOperators here path operators) here k (operatorClauses path operators) := by
  induction operators with
  | nil => exact .nothing here k
  | cons operator rest next =>
    rw [addOperators, operatorClauses]
    cases Operator.ofToken? operator.1 with
    | some op => exact (adds_addOperand here k path op operator.2).seq next
    | none => exact Adds.seq (.nothing here k) next

/-! ## Properties -/

/-- A property that equals a value. -/
theorem adds_equal (here : Nat) (k : Connective) (path : Path) (value : Json) :
    Adds
      (match Operand.ofJson? value with
        | some operand => addField here path .eq operand
        | none => throw (.parse (.notComparable path.toText))) here k
      (valueClauses path .eq (.parse (.notComparable path.toText)) value) := by
  rw [valueClauses]
  cases Operand.ofJson? value with
  | some operand => exact adds_addField here k path .eq operand
  | none => exact .fails _ here k

mutual

theorem adds_addProperty (here : Nat) (k : Connective) (path : Path) :
    ∀ value, Adds (addProperty here path value) here k (propertyClauses path value)
  | .obj operators =>
    (adds_addOperators here k path operators).seq (adds_addAlternatives here k path operators)
  | .null => adds_equal here k path .null
  | .bool b => adds_equal here k path (.bool b)
  | .num n => adds_equal here k path (.num n)
  | .str s => adds_equal here k path (.str s)
  | .arr items => adds_equal here k path (.arr items)

theorem adds_addAlternatives (here : Nat) (k : Connective) (path : Path) :
    ∀ operators,
      Adds (addAlternatives here path operators) here k (alternativeClauses path operators)
  | [] => .nothing here k
  | (name, value) :: rest => by
    rw [addAlternatives, alternativeClauses]
    split_ifs
    · exact .nothing here k
    · exact .enter fun inside => adds_addProperty inside .or path value
    · exact adds_addAlternatives here k path rest

end

/-! ## Conditions -/

mutual

/-- **A search condition adds its clauses**: run at any bracket of any builder, it grows this
bracket by their parts, or fails with their error. -/
theorem adds_addSearch (here : Nat) (k : Connective) (context : Path) :
    ∀ condition, Adds (addSearch here context condition) here k (clauses context condition)
  | .obj members => by
    have others := fun here k => adds_addMembers here k context members
    have listed := fun name here k => adds_addListed name here k context members
    rw [addSearch, clauses]
    cases members.lookup "$and" with
    | some list =>
      cases list with
      | arr items =>
        refine (Adds.enterIf _ fun inside k => (listed "$and" inside k).seq (others inside k)).congr
          ?_
        cases listedClauses "$and" context members <;> cases memberClauses context members <;> rfl
      | _ => exact .fails _ here k
    | none =>
      cases members.lookup "$or" with
      | some list =>
        cases list with
        | arr items =>
          -- An alternative on its own enters no AND.
          by_cases hlen : members.length = 1
          · simp only [hlen, if_true]
            exact Adds.enterIf _ fun inside k => listed "$or" inside k
          · simp only [hlen, if_false]
            refine (Adds.enter fun outside =>
              Adds.beside _ (by decide) (others outside .and) fun inside k =>
                listed "$or" inside k).congr ?_
            simp only [decide_eq_true_eq]
            cases memberClauses context members <;> cases listedClauses "$or" context members <;>
              rfl
        | _ => exact .fails _ here k
      | none => exact Adds.enterIf _ fun inside k => others inside k
  | .null | .bool _ | .num _ | .str _ | .arr _ => .nothing here k

theorem adds_addListed (name : String) (here : Nat) (k : Connective) (context : Path) :
    ∀ members,
      Adds (addListed name here context members) here k (listedClauses name context members)
  | [] => .nothing here k
  | (n, value) :: rest => by
    rw [addListed, listedClauses]
    split_ifs
    · exact adds_addConditions here k context value
    · exact adds_addListed name here k context rest

theorem adds_addMembers (here : Nat) (k : Connective) (context : Path) :
    ∀ members, Adds (addMembers here context members) here k (memberClauses context members)
  | [] => .nothing here k
  | (name, value) :: rest => by
    have next := adds_addMembers here k context rest
    rw [addMembers, memberClauses]
    split_ifs
    · exact Adds.seq (.nothing here k) next
    · exact ((adds_addMember here k _ value).loose .and).seq next

theorem adds_addMember (here : Nat) (k : Connective) (path : Path) :
    ∀ value, Adds (addMember here path value) here k (fieldClauses path value)
  | .null => .nothing here k
  | .arr items => adds_addAll here k path items
  | .bool _ | .num _ | .str _ | .obj _ => adds_addProperty here k path _

theorem adds_addConditions (here : Nat) (k : Connective) (context : Path) :
    ∀ value, Adds (addConditions here context value) here k (conditionsClauses context value)
  | .arr items => adds_addAll here k context items
  | .null | .bool _ | .num _ | .str _ | .obj _ => .nothing here k

theorem adds_addAll (here : Nat) (k : Connective) (context : Path) :
    ∀ items, Adds (addAll here context items) here k (allClauses context items)
  | [] => .nothing here k
  | item :: items =>
    (adds_addSearch here k context item).seq (adds_addAll here k context items)

end

/-! ## Whole conditions -/

/-- What a step builds from nothing holds the parts of the clauses that it adds. -/
theorem Adds.build {b : Builder} (h : Adds step root .and x) (run : step empty = .ok () b) :
    ∃ cs, x = .ok cs ∧ b.build = .group .and (Clause.partsOf .and cs) := by
  have added := h empty ordered_empty hasKind_empty
  cases x with
  | error e =>
    obtain ⟨b', run'⟩ := added
    cases run.symm.trans run'
  | ok cs =>
    obtain ⟨b', run', grows⟩ := added
    cases run.symm.trans run'
    exact ⟨cs, rfl, grows.build⟩

/-- The condition that a search builds from nothing holds the parts of its clauses. -/
theorem build_addSearch {context : Path} {s : Json} {b : Builder}
    (h : addSearch root context s empty = .ok () b) :
    ∃ cs, clauses context s = .ok cs ∧ b.build = .group .and (Clause.partsOf .and cs) :=
  (adds_addSearch root .and context s).build h

end StoreQuery.Search
