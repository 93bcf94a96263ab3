import StoreQuery.Proofs.Condition.Compiling

/-!
# The calls of a compilation

What a compiler is asked for, in which order and with which arguments. `Compiler.logged` compiles
as another compiler does and writes down every call with its answer.

**A compilation asks for each leaf once, and for a join where fragments meet** (`compile_calls`):

* leaves are compiled in document order, each in the scope that the brackets around it give, and
  the first one that fails ends the compilation with its error;
* a bracket is closed after its members. It is joined, in its own scope, if two or more of its
  members have a fragment, from these fragments in their order; otherwise its fragment is the one
  that there is, if any;
* there is no fragment exactly where no leaf has one.

`Runs` and `Stops` say what a compilation asks for if it succeeds and if it fails. They know one
rule for all brackets, whatever their size.
-/

namespace StoreQuery

namespace Compiler

variable {σ φ : Type}

/-! ## Logs -/

/-- A call of a compiler, with its answer. -/
inductive Call (φ : Type) where
  | leaf (comparison : Comparison) (scope : Scope) (answer : Except Error (Option φ))
  | join (kind : Connective) (fragments : List φ) (scope : Scope) (answer : φ)

namespace Call

/-- The leaf that a call is about, and its scope. -/
def leaf? : Call φ → Option (Comparison × Scope)
  | .leaf comparison scope _ => some (comparison, scope)
  | .join .. => none

/-- The fragment that a leaf has given. -/
def leafFragment? : Call φ → Option φ
  | .leaf _ _ (.ok fragment) => fragment
  | _ => none

/-- The error that a leaf has given. -/
def error? : Call φ → Option Error
  | .leaf _ _ (.error e) => some e
  | _ => none

end Call

/-- The compiler that also writes down its calls. -/
def logged (c : Compiler σ φ) : Compiler (σ × List (Call φ)) φ where
  leaf comparison scope := fun (s, log) =>
    match c.leaf comparison scope s with
    | .ok fragment t => .ok fragment (t, log ++ [.leaf comparison scope (.ok fragment)])
    | .error e t => .error e (t, log ++ [.leaf comparison scope (.error e)])
  join k fragments scope := fun (s, log) =>
    let (answer, t) := c.join k fragments scope s
    (answer, t, log ++ [.join k fragments scope answer])

/-! ## What a compilation asks for -/

mutual

/-- Compiling a condition inside some brackets makes these calls and gives this fragment. -/
inductive Runs : List Bracket → Condition → List (Call φ) → Option φ → Prop
  | leaf (above : List Bracket) (comparison : Comparison) (fragment : Option φ) :
    Runs above (.leaf comparison) [.leaf comparison (.below above) (.ok fragment)] fragment
  | collapsed {above : List Bracket} {k : Connective} {members : List Condition}
    {calls : List (Call φ)} {fragments : List φ}
    (h : AllRun (⟨k, members.length⟩ :: above) members calls fragments)
    (few : fragments.length < 2) : Runs above (.group k members) calls fragments.head?
  | joined {above : List Bracket} {k : Connective} {members : List Condition}
    {calls : List (Call φ)} {fragments : List φ}
    (h : AllRun (⟨k, members.length⟩ :: above) members calls fragments)
    (wide : 2 ≤ members.length) (several : 2 ≤ fragments.length) (answer : φ) :
    Runs above (.group k members) (calls ++ [.join k fragments (.below above) answer])
      (some answer)

/-- Compiling the members of a bracket makes these calls and gives these fragments. -/
inductive AllRun : List Bracket → List Condition → List (Call φ) → List φ → Prop
  | nil (above : List Bracket) : AllRun above [] [] []
  | cons {above : List Bracket} {condition : Condition} {rest : List Condition}
    {calls calls' : List (Call φ)} {fragment : Option φ} {fragments : List φ}
    (h : Runs above condition calls fragment) (hrest : AllRun above rest calls' fragments) :
    AllRun above (condition :: rest) (calls ++ calls') (fragment.toList ++ fragments)

end

mutual

/-- Compiling a condition inside some brackets makes these calls and fails with this error. -/
inductive Stops : List Bracket → Condition → List (Call φ) → Error → Prop
  | leaf (above : List Bracket) (comparison : Comparison) (e : Error) :
    Stops above (.leaf comparison) [.leaf comparison (.below above) (.error e)] e
  | group {above : List Bracket} {k : Connective} {members : List Condition}
    {calls : List (Call φ)} {e : Error}
    (h : AllStop (⟨k, members.length⟩ :: above) members calls e) :
    Stops above (.group k members) calls e

/-- Of the members of a bracket some run, the next one fails, and the others are not compiled. -/
inductive AllStop : List Bracket → List Condition → List (Call φ) → Error → Prop
  | here {above : List Bracket} {condition : Condition} {rest : List Condition}
    {calls : List (Call φ)} {e : Error} (h : Stops above condition calls e) :
    AllStop above (condition :: rest) calls e
  | later {above : List Bracket} {condition : Condition} {rest : List Condition}
    {calls calls' : List (Call φ)} {fragment : Option φ} {e : Error}
    (h : Runs above condition calls fragment) (hrest : AllStop above rest calls' e) :
    AllStop above (condition :: rest) (calls ++ calls') e

end

/-! ## Logged computations -/

/-- A computation does what another one does, and writes down calls of which something is known
where it succeeds and where it fails. -/
def Logs {α : Type} (x : EStateM Error σ α) (x' : EStateM Error (σ × List (Call φ)) α)
    (ok : List (Call φ) → α → Prop) (failed : List (Call φ) → Error → Prop) : Prop :=
  ∀ s log, match x s with
    | .ok a t => ∃ calls, x' (s, log) = .ok a (t, log ++ calls) ∧ ok calls a
    | .error e t => ∃ calls, x' (s, log) = .error e (t, log ++ calls) ∧ failed calls e

namespace Logs

variable {α β : Type} {x : EStateM Error σ α} {x' : EStateM Error (σ × List (Call φ)) α}
  {ok ok' : List (Call φ) → α → Prop} {failed failed' : List (Call φ) → Error → Prop}

theorem mono (h : Logs x x' ok failed) (hok : ∀ calls a, ok calls a → ok' calls a)
    (hfailed : ∀ calls e, failed calls e → failed' calls e) : Logs x x' ok' failed' := by
  intro s log
  have h := h s log
  cases hx : x s with
  | ok a t =>
    simp only [hx] at h
    obtain ⟨calls, run, hcalls⟩ := h
    exact ⟨calls, run, hok calls a hcalls⟩
  | error e t =>
    simp only [hx] at h
    obtain ⟨calls, run, hcalls⟩ := h
    exact ⟨calls, run, hfailed calls e hcalls⟩

theorem pure (a : α) (h : ok [] a) :
    Logs (Pure.pure a) (Pure.pure a : EStateM Error (σ × List (Call φ)) α) ok failed :=
  fun s log => ⟨[], by rw [List.append_nil]; rfl, h⟩

/-- One computation after the other writes the calls of one behind those of the other. -/
theorem bind {f : α → EStateM Error σ β} {f' : α → EStateM Error (σ × List (Call φ)) β}
    {okf : α → List (Call φ) → β → Prop} {failedf : α → List (Call φ) → Error → Prop}
    (h : Logs x x' ok failed) (hf : ∀ a, Logs (f a) (f' a) (okf a) (failedf a)) :
    Logs (x >>= f) (x' >>= f')
      (fun calls b => ∃ a first second, calls = first ++ second ∧ ok first a ∧ okf a second b)
      (fun calls e => failed calls e ∨
        ∃ a first second, calls = first ++ second ∧ ok first a ∧ failedf a second e) := by
  intro s log
  have h := h s log
  simp only [Bind.bind, EStateM.bind]
  cases hx : x s with
  | error e t =>
    simp only [hx] at h
    obtain ⟨calls, run, hcalls⟩ := h
    exact ⟨calls, by rw [run], .inl hcalls⟩
  | ok a t =>
    simp only [hx] at h
    obtain ⟨first, run, hfirst⟩ := h
    have hf := hf a t (log ++ first)
    simp only [run]
    cases hfa : f a t with
    | ok b u =>
      simp only [hfa] at hf
      obtain ⟨second, run', hsecond⟩ := hf
      exact ⟨first ++ second, by rw [run', List.append_assoc], a, first, second, rfl, hfirst,
        hsecond⟩
    | error e u =>
      simp only [hfa] at hf
      obtain ⟨second, run', hsecond⟩ := hf
      exact ⟨first ++ second, by rw [run', List.append_assoc], .inr ⟨a, first, second, rfl, hfirst,
        hsecond⟩⟩

/-- Changing the result makes no call. -/
theorem map {g : α → β} (h : Logs x x' ok failed) :
    Logs (do let a ← x; Pure.pure (g a)) (do let a ← x'; Pure.pure (g a))
      (fun calls b => ∃ a, ok calls a ∧ b = g a) failed := by
  intro s log
  have h := h s log
  simp only [Bind.bind, EStateM.bind]
  cases hx : x s with
  | error e t =>
    simp only [hx] at h
    obtain ⟨calls, run, hcalls⟩ := h
    exact ⟨calls, by rw [run], hcalls⟩
  | ok a t =>
    simp only [hx] at h
    obtain ⟨calls, run, hcalls⟩ := h
    exact ⟨calls, by rw [run]; rfl, a, hcalls, rfl⟩

end Logs

/-- Closing a bracket makes a call where there is something to join. -/
theorem logs_close (c : Compiler σ φ) (k : Connective) (scope : Scope) (fragments : List φ) :
    Logs (c.close k scope fragments) (c.logged.close k scope fragments)
      (fun calls fragment =>
        (fragments.length < 2 ∧ calls = [] ∧ fragment = fragments.head?) ∨
          (2 ≤ fragments.length ∧ ∃ answer, calls = [.join k fragments scope answer] ∧
            fragment = some answer))
      (fun _ _ => False) := by
  match fragments with
  | [] => exact .pure none (.inl ⟨by simp, rfl, rfl⟩)
  | [only] => exact .pure (some only) (.inl ⟨by simp, rfl, rfl⟩)
  | first :: second :: rest =>
    intro s log
    exact ⟨_, rfl, .inr ⟨by simp, _, rfl, rfl⟩⟩

theorem logs_leaf (c : Compiler σ φ) (above : List Bracket) (comparison : Comparison) :
    Logs (c.leaf comparison (.below above)) (c.logged.leaf comparison (.below above))
      (Runs above (.leaf comparison)) (Stops above (.leaf comparison)) := by
  intro s log
  cases hleaf : c.leaf comparison (.below above) s with
  | ok fragment t =>
    refine ⟨[.leaf comparison (.below above) (.ok fragment)], ?_, .leaf above comparison fragment⟩
    simp only [logged, hleaf]
  | error e t =>
    refine ⟨[.leaf comparison (.below above) (.error e)], ?_, .leaf above comparison e⟩
    simp only [logged, hleaf]

mutual

/-- The calls of a compilation are those that its condition asks for. -/
theorem logs_compileAt (c : Compiler σ φ) (above : List Bracket) : ∀ condition : Condition,
    Logs (c.compileAt (.below above) condition) (c.logged.compileAt (.below above) condition)
      (Runs above condition) (Stops above condition)
  | .leaf comparison => logs_leaf c above comparison
  | .group k [] => by
    have hall : AllRun (⟨k, ([] : List Condition).length⟩ :: above) [] ([] : List (Call φ)) [] :=
      .nil _
    exact .pure none (.collapsed hall (by simp))
  | .group k [only] => by
    have honly := logs_compileAt c (⟨k, 1⟩ :: above) only
    rw [Scope.below_single] at honly
    refine honly.mono (fun calls fragment h => ?_) fun calls e h => .group (.here h)
    -- One member has one fragment at most, which is the fragment of the bracket.
    have hall : AllRun (⟨k, [only].length⟩ :: above) [only] (calls ++ []) (fragment.toList ++ []) :=
      .cons h (.nil _)
    have hfew : (fragment.toList ++ []).length < 2 := by cases fragment <;> simp
    have hhead : (fragment.toList ++ []).head? = fragment := by cases fragment <;> rfl
    have hrun := Runs.collapsed hall hfew
    rwa [hhead, List.append_nil] at hrun
  | .group k (first :: second :: rest) => by
    have several : 2 ≤ (first :: second :: rest).length := by simp
    have hall := logs_compileAll c (⟨k, (first :: second :: rest).length⟩ :: above)
      (first :: second :: rest)
    rw [Scope.below_enter k several] at hall
    refine (hall.bind fun fragments => logs_close c k (.below above) fragments).mono ?_ ?_
    · rintro calls fragment ⟨fragments, made, closing, rfl, hmade, hclosing⟩
      rcases hclosing with ⟨few, rfl, rfl⟩ | ⟨many, answer, rfl, rfl⟩
      · rw [List.append_nil]
        exact .collapsed hmade few
      · exact .joined hmade several many answer
    · rintro calls e (h | ⟨_, _, _, _, _, h⟩)
      · exact .group h
      · cases h

theorem logs_compileAll (c : Compiler σ φ) (above : List Bracket) : ∀ members : List Condition,
    Logs (c.compileAll (.below above) members) (c.logged.compileAll (.below above) members)
      (AllRun above members) (AllStop above members)
  | [] => .pure [] (.nil above)
  | condition :: rest => by
    refine ((logs_compileAt c above condition).bind fun fragment =>
      (logs_compileAll c above rest).map).mono ?_ ?_
    · rintro calls all ⟨fragment, made, others, rfl, hmade, fragments, hothers, rfl⟩
      exact .cons hmade hothers
    · rintro calls e (h | ⟨fragment, made, others, rfl, hmade, h⟩)
      · exact .here h
      · exact .later hmade h

end

/-! ## What the calls are about -/

/-- The leaves of a condition in document order, in the scopes in which they are compiled. -/
def leafScopes (above : List Bracket) (condition : Condition) : List (Comparison × Scope) :=
  (condition.placed above).map fun leaf => (leaf.1, .below leaf.2)

def memberScopes (above : List Bracket) (members : List Condition) : List (Comparison × Scope) :=
  (Condition.placedAll above members).map fun leaf => (leaf.1, .below leaf.2)

theorem memberScopes_cons (above : List Bracket) (condition : Condition) (rest : List Condition) :
    memberScopes above (condition :: rest) =
      leafScopes above condition ++ memberScopes above rest := by
  rw [memberScopes, Condition.placedAll, List.map_append]
  rfl

mutual

/-- Each leaf is compiled once, in document order. -/
theorem Runs.leaves {above : List Bracket} {condition : Condition} {calls : List (Call φ)}
    {fragment : Option φ} (h : Runs above condition calls fragment) :
    calls.filterMap Call.leaf? = leafScopes above condition :=
  match h with
  | .leaf _ _ _ => rfl
  | .collapsed hall _ => hall.leaves
  | .joined hall _ _ _ => by
    rw [List.filterMap_append, hall.leaves]
    exact List.append_nil _

theorem AllRun.leaves {above : List Bracket} {members : List Condition} {calls : List (Call φ)}
    {fragments : List φ} (h : AllRun above members calls fragments) :
    calls.filterMap Call.leaf? = memberScopes above members :=
  match h with
  | .nil _ => rfl
  | .cons hfirst hrest => by
    rw [List.filterMap_append, hfirst.leaves, hrest.leaves, memberScopes_cons]

end

mutual

/-- There is a fragment if a leaf has one. -/
theorem Runs.eq_none_iff {above : List Bracket} {condition : Condition} {calls : List (Call φ)}
    {fragment : Option φ} (h : Runs above condition calls fragment) :
    fragment = none ↔ ∀ call ∈ calls, call.leafFragment? = none :=
  match h with
  | .leaf _ _ _ => by simp [Call.leafFragment?]
  | .collapsed hall _ => by rw [List.head?_eq_none_iff, hall.eq_nil_iff]
  | .joined hall _ several _ => by
    simp only [reduceCtorEq, false_iff]
    intro hnone
    have hnil := hall.eq_nil_iff.2 fun call hcall => hnone call (List.mem_append_left _ hcall)
    simp [hnil] at several

theorem AllRun.eq_nil_iff {above : List Bracket} {members : List Condition} {calls : List (Call φ)}
    {fragments : List φ} (h : AllRun above members calls fragments) :
    fragments = [] ↔ ∀ call ∈ calls, call.leafFragment? = none :=
  match h with
  | .nil _ => by simp
  | .cons hfirst hrest => by
    rw [List.append_eq_nil_iff, List.forall_mem_append, ← hfirst.eq_none_iff, ← hrest.eq_nil_iff,
      Option.toList_eq_nil_iff]

end

mutual

/-- A run that succeeds has met no error. -/
theorem Runs.error_eq_none {above : List Bracket} {condition : Condition} {calls : List (Call φ)}
    {fragment : Option φ} (h : Runs above condition calls fragment) :
    ∀ call ∈ calls, call.error? = none :=
  match h with
  | .leaf _ _ _ => by simp [Call.error?]
  | .collapsed hall _ => hall.error_eq_none
  | .joined hall _ _ _ => by
    rw [List.forall_mem_append]
    exact ⟨hall.error_eq_none, by simp [Call.error?]⟩

theorem AllRun.error_eq_none {above : List Bracket} {members : List Condition}
    {calls : List (Call φ)} {fragments : List φ} (h : AllRun above members calls fragments) :
    ∀ call ∈ calls, call.error? = none :=
  match h with
  | .nil _ => by simp
  | .cons hfirst hrest => by
    rw [List.forall_mem_append]
    exact ⟨hfirst.error_eq_none, hrest.error_eq_none⟩

end

/-- The calls end with the first one that gives an error, which is about the next leaf. -/
structure EndsWith (leaves : List (Comparison × Scope)) (calls : List (Call φ)) (e : Error) :
    Prop where
  leaves : calls.filterMap Call.leaf? <+: leaves
  last : ∃ done comparison scope, calls = done ++ [.leaf comparison scope (.error e)] ∧
    ∀ call ∈ done, call.error? = none

mutual

theorem Stops.endsWith {above : List Bracket} {condition : Condition} {calls : List (Call φ)}
    {e : Error} (h : Stops above condition calls e) :
    EndsWith (leafScopes above condition) calls e :=
  match h with
  | .leaf above comparison e =>
    ⟨List.prefix_refl _, [], comparison, .below above, rfl, by simp⟩
  | .group hall => hall.endsWith

theorem AllStop.endsWith {above : List Bracket} {members : List Condition}
    {calls : List (Call φ)} {e : Error} (h : AllStop above members calls e) :
    EndsWith (memberScopes above members) calls e :=
  match h with
  | .here hstop => by
    obtain ⟨hleaves, hlast⟩ := hstop.endsWith
    rw [memberScopes_cons]
    exact ⟨hleaves.trans (List.prefix_append _ _), hlast⟩
  | .later hrun hrest => by
    obtain ⟨hleaves, done, comparison, scope, rfl, hdone⟩ := hrest.endsWith
    rw [memberScopes_cons]
    refine ⟨?_, _ ++ done, comparison, scope, (List.append_assoc _ _ _).symm, ?_⟩
    · rw [List.filterMap_append, hrun.leaves]
      exact (List.prefix_append_right_inj _).2 hleaves
    · rw [List.forall_mem_append]
      exact ⟨hrun.error_eq_none, hdone⟩

end

/-- **A compilation asks for each leaf once, and for a join where fragments meet.** -/
theorem compile_calls (c : Compiler σ φ) (condition : Condition) (s : σ) :
    match c.logged.compile condition (s, []) with
    | .ok fragment (t, calls) =>
      c.compile condition s = .ok fragment t ∧ Runs [] condition calls fragment ∧
        calls.filterMap Call.leaf? = leafScopes [] condition ∧
        (fragment = none ↔ ∀ call ∈ calls, call.leafFragment? = none)
    | .error e (t, calls) =>
      c.compile condition s = .error e t ∧ Stops [] condition calls e ∧
        calls.filterMap Call.leaf? <+: leafScopes [] condition ∧
        ∃ done comparison scope, calls = done ++ [.leaf comparison scope (.error e)] ∧
          ∀ call ∈ done, call.error? = none := by
  have hlogs := logs_compileAt c [] condition s []
  rw [Scope.below_nil] at hlogs
  simp only [compile]
  cases hrun : c.compileAt .root condition s with
  | ok fragment t =>
    simp only [hrun] at hlogs
    obtain ⟨calls, run, hcalls⟩ := hlogs
    rw [run]
    exact ⟨rfl, hcalls, hcalls.leaves, hcalls.eq_none_iff⟩
  | error e t =>
    simp only [hrun] at hlogs
    obtain ⟨calls, run, hcalls⟩ := hlogs
    obtain ⟨hleaves, hlast⟩ := hcalls.endsWith
    rw [run]
    exact ⟨rfl, hcalls, hleaves, hlast⟩

end Compiler

end StoreQuery
