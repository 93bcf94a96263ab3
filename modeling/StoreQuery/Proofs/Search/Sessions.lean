import StoreQuery.Condition.Filter
import StoreQuery.Proofs.Condition.Insertions

/-!
# Sessions with a builder

A session is any sequence of calls on one builder: entering a bracket, adding a leaf, a search
condition or filter items. Each call names the bracket at which it works by a number, which may
come from another builder or from nowhere. A call that fails leaves behind what it did until then,
and the session goes on.

**After every session the brackets are linked, what was there has only grown, and the condition has
the leaves that were inserted and no others** (`session_sound`). A search condition and filter items
are made of single steps, whatever they hold (`traced_addSearch`, `traced_addFilters`); so it is
enough to know what single steps insert.
-/

namespace StoreQuery.Builder

/-! ## Operators -/

theorem traced_addValue (here : Nat) (path : Path) (op : Operator) (value : Json) :
    Traced (addValue here path op value) := by
  rw [addValue]
  cases Operand.ofJson? value with
  | some operand => exact .addField here path op operand
  | none => exact .fails _

mutual

theorem traced_addOperand (here : Nat) (path : Path) (op : Operator) :
    ∀ value, Traced (addOperand here path op value)
  | .arr items => by
    rw [addOperand]
    split_ifs
    · exact traced_addOperands here path op items
    · exact traced_addValue here path op (.arr items)
  | .null | .bool _ | .num _ | .str _ | .obj _ => by
    rw [addOperand]
    · exact traced_addValue here path op _
    · nofun

theorem traced_addOperands (here : Nat) (path : Path) (op : Operator) :
    ∀ items, Traced (addOperands here path op items)
  | [] => .pure ()
  | item :: items =>
    (traced_addOperand here path op item).seq (traced_addOperands here path op items)

end

theorem traced_addOperators (here : Nat) (path : Path) (operators : List (String × Json)) :
    Traced (addOperators here path operators) := by
  induction operators with
  | nil => exact .pure ()
  | cons operator rest ih =>
    rw [addOperators]
    cases Operator.ofToken? operator.1 with
    | some op => exact (traced_addOperand here path op operator.2).seq ih
    | none => exact ih

/-! ## Properties -/

/-- A property that equals a value. -/
theorem traced_equal (here : Nat) (path : Path) (value : Json) : Traced
    (match Operand.ofJson? value with
      | some operand => addField here path .eq operand
      | none => throw (.parse (.notComparable path.toText))) := by
  cases Operand.ofJson? value with
  | some operand => exact .addField here path .eq operand
  | none => exact .fails _

mutual

theorem traced_addProperty (here : Nat) (path : Path) :
    ∀ value, Traced (addProperty here path value)
  | .obj operators =>
    (traced_addOperators here path operators).seq (traced_addAlternatives here path operators)
  | .null => traced_equal here path .null
  | .bool b => traced_equal here path (.bool b)
  | .num n => traced_equal here path (.num n)
  | .str s => traced_equal here path (.str s)
  | .arr items => traced_equal here path (.arr items)

theorem traced_addAlternatives (here : Nat) (path : Path) :
    ∀ operators, Traced (addAlternatives here path operators)
  | [] => .pure ()
  | (name, value) :: rest => by
    rw [addAlternatives]
    split_ifs
    · exact .pure ()
    · exact .bind (.enter .or here) fun inside => traced_addProperty inside path value
    · exact traced_addAlternatives here path rest

end

/-! ## Conditions -/

theorem traced_enterIf (wanted : Bool) (kind : Connective) (here : Nat) :
    Traced (enterIf wanted kind here) := by
  cases wanted with
  | true => exact .enter kind here
  | false => exact .pure here

theorem traced_conditionCount (name : String) : ∀ value, Traced (conditionCount name value)
  | .arr items => .pure items.length
  | .null | .bool _ | .num _ | .str _ | .obj _ => .fails _

mutual

/-- A search condition is added by single steps. -/
theorem traced_addSearch (here : Nat) (context : Path) :
    ∀ condition, Traced (addSearch here context condition)
  | .obj members => by
    have others := fun here => traced_addMembers here context members
    have listed := fun name here => traced_addListed name here context members
    rw [addSearch]
    cases members.lookup "$and" with
    | some list =>
      refine .bind (traced_conditionCount "$and" list) fun count => ?_
      refine .bind (traced_enterIf _ .and here) fun inside => ?_
      exact (listed "$and" inside).seq (others inside)
    | none =>
      cases members.lookup "$or" with
      | some list =>
        refine .bind (traced_conditionCount "$or" list) fun count => ?_
        by_cases hlen : members.length = 1
        · simp only [hlen, if_true]
          exact .bind (traced_enterIf _ .or here) fun inside => listed "$or" inside
        · simp only [hlen, if_false]
          refine .bind (.enter .and here) fun outside => ?_
          refine .bind (traced_enterIf _ .or outside) fun inside => ?_
          exact (others outside).seq (listed "$or" inside)
      | none => exact .bind (traced_enterIf _ .and here) fun inside => others inside
  | .null | .bool _ | .num _ | .str _ | .arr _ => .pure ()

theorem traced_addListed (name : String) (here : Nat) (context : Path) :
    ∀ members, Traced (addListed name here context members)
  | [] => .pure ()
  | (n, value) :: rest => by
    rw [addListed]
    split_ifs
    · exact traced_addConditions here context value
    · exact traced_addListed name here context rest

theorem traced_addMembers (here : Nat) (context : Path) :
    ∀ members, Traced (addMembers here context members)
  | [] => .pure ()
  | (name, value) :: rest => by
    have hrest := traced_addMembers here context rest
    rw [addMembers]
    split_ifs
    · exact hrest
    · exact (traced_addMember here _ value).seq hrest

theorem traced_addMember (here : Nat) (path : Path) : ∀ value, Traced (addMember here path value)
  | .null => .pure ()
  | .arr items => traced_addAll here path items
  | .bool _ | .num _ | .str _ | .obj _ => traced_addProperty here path _

theorem traced_addConditions (here : Nat) (context : Path) :
    ∀ value, Traced (addConditions here context value)
  | .arr items => traced_addAll here context items
  | .null | .bool _ | .num _ | .str _ | .obj _ => .pure ()

theorem traced_addAll (here : Nat) (context : Path) :
    ∀ items, Traced (addAll here context items)
  | [] => .pure ()
  | item :: items => (traced_addSearch here context item).seq (traced_addAll here context items)

end

/-! ## Filter items -/

theorem traced_addFilter (here : Nat) (text : String) : Traced (addFilter here text) := by
  rw [addFilter]
  cases FilterItem.ofText? text with
  | none => exact .pure ()
  | some item =>
    cases hop : Operator.ofToken? item.token with
    | none => simpa only [hop] using .pure ()
    | some op => simpa only [hop] using .addField here _ op _

theorem traced_addFilterItems (here : Nat) : ∀ texts, Traced (addFilterItems here texts)
  | [] => .pure ()
  | text :: texts => (traced_addFilter here text).seq (traced_addFilterItems here texts)

/-- Filter items are added by single steps. -/
theorem traced_addFilters (here : Nat) (all either : List String) :
    Traced (addFilters here all either) := by
  match all, either with
  | [], [] => exact .pure ()
  | [], text :: texts => exact .bind (.enter .or here) fun inside => traced_addFilterItems inside _
  | text :: texts, [] => exact .bind (.enter .and here) fun inside => traced_addFilterItems inside _
  | text :: texts, text' :: texts' =>
    refine .bind (.enter .or here) fun inside => .bind (.enter .and inside) fun first => ?_
    refine .seq (traced_addFilterItems first _) ?_
    exact .bind (.enter .and inside) fun second => traced_addFilterItems second _

/-! ## Sessions -/

/-- A call on a builder. The place is any number. -/
inductive Call where
  | enter (kind : Connective) (place : Nat)
  | field (place : Nat) (path : Path) (op : Operator) (value : Operand)
  | search (place : Nat) (context : Path) (condition : Json)
  | filters (place : Nat) (all either : List String)

/-- What a call does. -/
def Call.run : Call → Step Unit
  | .enter kind place => do
    let _ ← Builder.enter kind place
    return
  | .field place path op value => addField place path op value
  | .search place context condition => addSearch place context condition
  | .filters place all either => addFilters place all either

/-- The builder that calls leave behind, each of which may have failed. -/
def session (calls : List Call) (b : Builder) : Builder :=
  calls.foldl (fun b call => left call.run b) b

/-- Calls one after the other add these leaves. -/
inductive SessionInserts : List Call → Builder → List Insertion → Prop
  | nil (b : Builder) : SessionInserts [] b []
  | cons {call : Call} {calls : List Call} {b : Builder} {log log' : List Insertion}
    (h : Inserts call.run b log) (hrest : SessionInserts calls (left call.run b) log') :
    SessionInserts (call :: calls) b (log ++ log')

theorem traced_run (call : Call) : Traced call.run := by
  cases call with
  | enter kind place => exact .bind (.enter kind place) fun _ => .pure ()
  | field place path op value => exact .addField place path op value
  | search place context condition => exact traced_addSearch place context condition
  | filters place all either => exact traced_addFilters place all either

theorem session_append (before after : List Call) (b : Builder) :
    session (before ++ after) b = session after (session before b) := List.foldl_append

theorem exists_sessionInserts (calls : List Call) (b : Builder) :
    ∃ log, SessionInserts calls b log := by
  induction calls generalizing b with
  | nil => exact ⟨[], .nil b⟩
  | cons call calls ih =>
    obtain ⟨log, hlog⟩ := traced_run call b
    obtain ⟨log', hlog'⟩ := ih (left call.run b)
    exact ⟨log ++ log', .cons hlog hlog'⟩

/-- The insertions of a session account for all that it does. -/
theorem SessionInserts.accounted {calls : List Call} {b : Builder} {log : List Insertion}
    (h : SessionInserts calls b log) : Accounted log b (session calls b) := by
  induction h with
  | nil b => exact .refl b
  | cons h _ ih => exact h.accounted.trans ih

/-- **After every session the brackets make a tree, and its leaves are those that were inserted.**
What was there before a call has only grown at its end. The condition that is built is what one
reads by following the brackets, which comes to an end. Its leaves are the insertions, each once,
and every bracket holds those that were put into it, in their order. Entering a bracket and adding a
leaf change nothing where they fail. -/
theorem session_sound (calls : List Call) :
    (session calls empty).Linked ∧
      (∀ before after, calls = before ++ after →
        (session before empty).Extends (session calls empty)) ∧
      (∀ condition, (session calls empty).Reads root condition ↔
        condition = (session calls empty).build) ∧
      (∃ log, SessionInserts calls empty log) ∧
      (∀ log, SessionInserts calls empty log →
        (session calls empty).build.leaves.Perm (log.map (·.comparison)) ∧
          ∀ index, (session calls empty).leavesIn index = insertedIn index log) ∧
      ∀ (b b' : Builder) (e : Error),
        (∀ kind place, enter kind place b = .error e b' → b' = b) ∧
          ∀ place path op value, addField place path op value b = .error e b' → b' = b := by
  obtain ⟨log, hlog⟩ := exists_sessionInserts calls empty
  have hlinked := hlog.accounted.linked linked_empty
  refine ⟨hlinked, ?_, fun _ => reads_iff hlinked, ⟨log, hlog⟩, ?_, ?_⟩
  · rintro before after rfl
    rw [session_append]
    obtain ⟨more, hmore⟩ := exists_sessionInserts after (session before empty)
    exact hmore.accounted.extended
  · intro log hlog
    have haccounted := hlog.accounted
    refine ⟨(leaves_build hlinked).trans haccounted.leaves, fun index => ?_⟩
    rw [haccounted.leavesIn]
    cases index <;> rfl
  · intro b b' e
    exact ⟨fun kind place => eq_of_enter_error, fun place path op value => eq_of_addField_error⟩

deriving instance DecidableEq for Member, Node, Builder

/-- A bracket that is entered, a leaf for a bracket that there is not, a search that ends half-way,
and a filter item. -/
def interrupted : List Call :=
  [.enter .or root,
    .field 7 (.ofText "a") .eq (.one (.bool true)),
    .search 1 .root (.obj [("a", .bool true), ("b", .obj [("$between", .arr [.bool true])])]),
    .filters root ["c||$eq||1"] []]

theorem session_sound_interrupted :
    (session interrupted empty).Linked ∧
      (∃ log, SessionInserts interrupted empty log) ∧
      (session interrupted empty).build = .group .and
        [.group .or [.group .and [.leaf ⟨.ofText "a", .eq, .one (.bool true)⟩]],
          .leaf ⟨.ofText "c", .eq, .one (.text "1")⟩] := by
  obtain ⟨hlinked, -, hreads, hlog, -, -⟩ := session_sound interrupted
  refine ⟨hlinked, hlog, ((hreads _).1 ?_).symm⟩
  have hnodes : session interrupted empty = ⟨[
      ⟨.and, none, [.bracket 1, .leaf ⟨.ofText "c", .eq, .one (.text "1")⟩]⟩,
      ⟨.or, some 0, [.bracket 2]⟩,
      ⟨.and, some 1, [.leaf ⟨.ofText "a", .eq, .one (.bool true)⟩]⟩]⟩ := by
    decide +kernel
  rw [hnodes]
  refine .bracket rfl ?_
  refine .bracket (.bracket rfl ?_) (.leaf _ .nil)
  refine .bracket (.bracket rfl ?_) .nil
  exact .leaf _ .nil

end StoreQuery.Builder
