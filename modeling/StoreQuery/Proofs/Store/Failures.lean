import StoreQuery.Proofs.KeyValue.Calls
import StoreQuery.Proofs.KeyValue.Classification

/-!
# Failures before and after the first call

A read is prepared first, and only then the store is called. So **a read that fails with anything
but an error of the store has made no call**, and an error of the store is passed on as it is: the
call that failed was the last one (`reads_accountable`). This holds of all four stores, whatever
their settings are, and for one row as for many.

A step is `PassesOn` if it does nothing but calling the store and passing on its errors. A count
over all parts is such a step by induction on its budget, which it may use up; then every call was
answered, and there were as many as the budget allows.
-/

namespace StoreQuery

open Journal

variable {κ σ α β : Type}

/-! ## What is owed to the caller -/

/-- A step fails with errors of the store only. -/
def OwnErrors (x : EStateM Error σ α) : Prop :=
  ∀ s e t, x s = .error e t → ∃ detail, e = .store detail

/-- Every call was answered. -/
def Answered (made : List (Entry κ)) : Prop := ∀ entry ∈ made, entry.fault = none

/-- How the calls of a read fit to its reply. The budget is the number of calls a count may take, if
one is made. -/
structure Owed (budget : Option Nat) (made : List (Entry κ)) (reply : Except Error α) : Prop where
  /-- Anything but an error of the store comes before the first call. -/
  before : ∀ e, reply = .error e → (∀ detail, e ≠ .store detail) → made = []
  /-- The error of a call is passed on as it is. -/
  passedOn : ∀ entry ∈ made, ∀ e, entry.fault = some e → reply = .error e
  /-- No call is made after one that failed. -/
  last : Answered made.dropLast
  /-- Behind the first call there is no other error, unless the budget is used up. -/
  cause : ∀ e, reply = .error e → made = [] ∨ (∃ call, made.getLast? = some ⟨call, some e⟩) ∨
    ∃ n, budget = some n ∧ n < made.length

/-- Whatever state the store is in, the calls of a read fit to its reply. -/
def Accountable (budget : Option Nat) (x : EStateM Error (Journal κ σ) α) : Prop :=
  ∀ s, Owed budget (calls x s) (outcome x s)

/-! ## Steps that only call the store -/

/-- How a step ends that only calls a store: with a result if every call was answered, and
otherwise with the error of the last call. It may also end because the budget is used up. -/
inductive Ends (budget : Option Nat) : List (Entry κ) → Except Error α → Prop
  | answered {made : List (Entry κ)} {a : α} (h : Answered made) : Ends budget made (.ok a)
  | passedOn {made : List (Entry κ)} {call : κ} {detail : String} (h : Answered made) :
      Ends budget (made ++ [⟨call, some (.store detail)⟩]) (.error (.store detail))
  | spent {made : List (Entry κ)} {n : Nat} {detail : String} (h : Answered made)
      (hbudget : budget = some n) (hn : n ≤ made.length) : Ends budget made (.error (.store detail))

/-- A step only calls the store. -/
def PassesOn (budget : Option Nat) (x : EStateM Error (Journal κ σ) α) : Prop :=
  Keeps x (Ends budget)

theorem answered_nil : Answered ([] : List (Entry κ)) := nofun

theorem answered_singleton (call : κ) : Answered [(⟨call, none⟩ : Entry κ)] := by
  intro entry hentry
  rw [List.mem_singleton.1 hentry]

/-- The only call fails. -/
theorem Ends.failed (budget : Option Nat) (call : κ) (detail : String) :
    Ends budget [⟨call, some (.store detail)⟩] (.error (.store detail) : Except Error α) := by
  have hlast : Ends budget ([] ++ [(⟨call, some (.store detail)⟩ : Entry κ)])
      (.error (.store detail) : Except Error α) := .passedOn answered_nil
  exact hlast

/-- What is noted behind a first call: the call alone, or all that there will be if it fails. -/
def FirstEnds (β : Type) (budget : Option Nat) (call : κ) (made : List (Entry κ)) :
    Except Error α → Prop
  | .ok _ => made = [⟨call, none⟩]
  | .error e => Ends budget made (.error e : Except Error β)

namespace PassesOn

variable {budget : Option Nat}

theorem pure (a : α) : PassesOn (κ := κ) (σ := σ) budget (Pure.pure a) :=
  Keeps.pure (.answered answered_nil)

/-- A single call. -/
theorem noting {answer : EStateM Error σ α} (h : OwnErrors answer) (call : κ) :
    PassesOn budget (Journal.noting call answer) := by
  refine Keeps.noting (fun a => .answered (answered_singleton call)) fun s e t hanswer => ?_
  obtain ⟨detail, rfl⟩ := h s e t hanswer
  exact .failed budget call detail

/-- One call before other steps, which brings the budget of these one call further. -/
theorem call (budget : Option Nat) {answer : EStateM Error σ α}
    {f : α → EStateM Error (Journal κ σ) β} (h : OwnErrors answer) (call : κ)
    (hf : ∀ a, PassesOn budget (f a)) :
    PassesOn (budget.map (· + 1)) (Journal.noting call answer >>= f) := by
  have hfirst : Keeps (Journal.noting call answer) (FirstEnds β (budget.map (· + 1)) call) := by
    refine Keeps.noting (fun _ => rfl) fun s e t hanswer => ?_
    obtain ⟨detail, rfl⟩ := h s e t hanswer
    exact .failed _ call detail
  refine hfirst.bind ?_ ?_
  · rintro made a rfl
    refine (hf a).mono fun made' reply hends => ?_
    have hone : ∀ {rest : List (Entry κ)}, Answered rest → Answered ([⟨call, none⟩] ++ rest) :=
      fun hrest => List.forall_mem_append.2 ⟨answered_singleton call, hrest⟩
    cases hends with
    | answered hmade' => exact .answered (hone hmade')
    | passedOn hmade' =>
      rw [← List.append_assoc]
      exact .passedOn (hone hmade')
    | @spent _ n _ hmade' hbudget hn =>
      refine .spent (n := n + 1) (hone hmade') (by rw [hbudget]; rfl) ?_
      rw [List.length_append, List.length_singleton]
      omega
  · exact fun made e hmade => hmade

/-- A result is made of the result of another step. -/
theorem map {x : EStateM Error (Journal κ σ) α} (h : PassesOn budget x) (g : α → β) :
    PassesOn budget (x >>= fun a => Pure.pure (g a)) := by
  refine Keeps.bind h (fun made a hmade => Keeps.pure ?_) fun made e hmade => ?_
  · rw [List.append_nil]
    cases hmade with
    | answered hmade => exact .answered hmade
  · cases hmade with
    | passedOn hmade => exact .passedOn hmade
    | spent hmade hbudget hn => exact .spent hmade hbudget hn

end PassesOn

namespace Owed

/-- A read that makes no call owes nothing. -/
theorem refused (budget : Option Nat) (e : Error) :
    Owed (κ := κ) budget [] (.error e : Except Error α) where
  before _ _ _ := rfl
  passedOn := nofun
  last := answered_nil
  cause _ _ := .inl rfl

/-- The error of a call is seen from the list of what the calls failed with. -/
theorem eq_of_fault {budget : Option Nat} {made : List (Entry κ)} {reply : Except Error α}
    {e : Error} (h : Owed budget made reply) (hfault : some e ∈ made.map (·.fault)) :
    reply = .error e := by
  obtain ⟨entry, hentry, heq⟩ := List.mem_map.1 hfault
  exact h.passedOn entry hentry e heq

end Owed

/-- A step that only calls the store fits its reply to its calls. -/
theorem Ends.owed {budget : Option Nat} {made : List (Entry κ)} {reply : Except Error α}
    (h : Ends (budget.map (· + 1)) made reply) : Owed budget made reply := by
  cases h with
  | answered hmade =>
    refine ⟨nofun, fun entry hentry e hfault => ?_, fun entry hentry =>
      hmade entry (List.dropLast_subset made hentry), nofun⟩
    rw [hmade entry hentry] at hfault
    cases hfault
  | @passedOn made call detail hmade =>
    refine ⟨fun e he hne => ?_, fun entry hentry e hfault => ?_, ?_, fun e he => ?_⟩
    · cases he
      exact absurd rfl (hne detail)
    · rcases List.mem_append.1 hentry with hentry | hentry
      · rw [hmade entry hentry] at hfault
        cases hfault
      · obtain rfl := List.mem_singleton.1 hentry
        rw [Option.some.inj hfault]
    · rwa [List.dropLast_concat]
    · cases he
      exact .inr (.inl ⟨call, List.getLast?_concat ..⟩)
  | @spent _ n detail hmade hbudget hn =>
    refine ⟨fun e he hne => ?_, fun entry hentry e hfault => ?_, fun entry hentry =>
      hmade entry (List.dropLast_subset made hentry), fun e _ => ?_⟩
    · cases he
      exact absurd rfl (hne detail)
    · rw [hmade entry hentry] at hfault
      cases hfault
    · obtain ⟨m, hm, rfl⟩ := Option.map_eq_some_iff.1 hbudget
      exact .inr (.inr ⟨m, hm, hn⟩)

/-! ## Reads are prepared first -/

/-- A read that first makes no call, and then only calls the store. -/
theorem accountable_bind {budget : Option Nat} {x : EStateM Error (Journal κ σ) α}
    {reply : Except Error α} {f : α → EStateM Error (Journal κ σ) β}
    (h : ∀ s, Runs x s [] reply s) (hf : ∀ a, PassesOn (budget.map (· + 1)) (f a)) :
    Accountable budget (x >>= f) := by
  have howed : Keeps (x >>= f) (Owed budget) := by
    intro s
    cases reply with
    | error e => exact ⟨[], .error e, s, (h s).bind_error, .refused budget e⟩
    | ok a =>
      obtain ⟨made, reply, t, hrun, hends⟩ := hf a s
      exact ⟨made, reply, t, (h s).after hrun, hends.owed⟩
  exact howed.of_run

namespace Sql

/-- A relational store fails with errors of its own only. -/
structure Store.OwnErrors (store : Store σ) : Prop where
  fetchMany : ∀ q, StoreQuery.OwnErrors (store.fetchMany q)
  fetchOne : ∀ q, StoreQuery.OwnErrors (store.fetchOne q)
  count : ∀ q, StoreQuery.OwnErrors (store.count q)

variable {schema : Schema} {base : Query} {r : Request} {store : Store σ}

theorem getOne_accountable (h : store.OwnErrors) (schema : Schema) (base : Query) (r : Request) :
    Accountable none (getOne schema (some store.noted) base r) := by
  rw [getOne, attached_bind]
  exact accountable_bind (prepare_runs schema base r) fun q => .noting (h.fetchOne q) _

theorem getMany_accountable (h : store.OwnErrors) (schema : Schema) (base : Query) (r : Request) :
    Accountable none (getMany schema (some store.noted) base r) := by
  rw [getMany, attached_bind]
  refine accountable_bind (prepare_runs schema base r) fun q => ?_
  exact .call none (h.fetchMany _) _ fun rows => .map (.noting (h.count q) _) _

end Sql

namespace Document

/-- A collection fails with errors of its own only. -/
structure Collection.OwnErrors (collection : Collection σ) : Prop where
  find : ∀ c, StoreQuery.OwnErrors (collection.find c)
  findOne : ∀ c, StoreQuery.OwnErrors (collection.findOne c)
  count : ∀ filter, StoreQuery.OwnErrors (collection.count filter)

/-- A model fails with errors of its own only. -/
structure Model.OwnErrors (model : Model σ) : Prop where
  exec : ∀ q, StoreQuery.OwnErrors (model.exec q)
  count : ∀ q, StoreQuery.OwnErrors (model.count q)

/-- Where counting is switched off nothing is called. -/
theorem counted_passesOn {answer : EStateM Error σ UInt64} (h : OwnErrors answer)
    (disabled : Bool) (call : κ) (g : UInt64 → α) :
    PassesOn none (if disabled then pure 0 >>= fun total => pure (g total)
      else Journal.noting call answer >>= fun total => pure (g total)) := by
  cases disabled with
  | true => exact .map (.pure 0) g
  | false => exact .map (.noting h call) g

namespace Cursor

variable {base : Cursor} {r : Request} {collection : Collection σ}

theorem getOne_accountable (h : collection.OwnErrors) (base : Cursor) (r : Request) :
    Accountable none (getOne (some collection.noted) base r) := by
  rw [getOne, attached_bind]
  exact accountable_bind (prepare_runs base r) fun c => .noting (h.findOne c) _

theorem getMany_accountable (h : collection.OwnErrors) (settings : Settings) (base : Cursor)
    (r : Request) : Accountable none (getMany settings (some collection.noted) base r) := by
  rw [getMany, attached_bind]
  refine accountable_bind (prepare_runs base r) fun c => ?_
  exact .call none (h.find c) _ fun rows =>
    counted_passesOn (h.count c.filter) settings.disableCount _ _

end Cursor

namespace ModelQuery

variable {base : ModelQuery} {r : Request} {model : Model σ}

theorem getOne_accountable (h : model.OwnErrors) (base : ModelQuery) (r : Request) :
    Accountable none (getOne (some model.noted) base r) := by
  rw [getOne, attached_bind]
  exact accountable_bind (prepare_runs base r) fun q => .map (.noting (h.exec _) _) _

theorem getMany_accountable (h : model.OwnErrors) (settings : Settings) (base : ModelQuery)
    (r : Request) : Accountable none (getMany settings (some model.noted) base r) := by
  rw [getMany, attached_bind]
  refine accountable_bind (prepare_runs base r) fun q => ?_
  exact .call none (h.exec _) _ fun rows =>
    counted_passesOn (h.count q) settings.disableCount _ _

end ModelQuery

end Document

namespace KeyValue

/-- A key-value store fails with errors of its own only. -/
structure Store.OwnErrors (store : Store σ) : Prop where
  getItem : ∀ q, StoreQuery.OwnErrors (store.getItem q)
  query : ∀ q, StoreQuery.OwnErrors (store.query q)
  scan : ∀ q, StoreQuery.OwnErrors (store.scan q)

variable {t : Table} {base q : Query} {r : Request} {store : Store σ}

theorem Store.OwnErrors.run (h : store.OwnErrors) (q : Query) :
    StoreQuery.OwnErrors (store.run q) := by
  rw [Store.run]
  cases q.kind with
  | query => exact h.query q
  | getItem | scan => exact h.scan q

/-! ## Counting over all parts -/

/-- A count only calls the store, as often as its budget allows. -/
theorem countParts_passesOn (h : store.OwnErrors) (budget : Nat) (q : Query) (total : UInt64)
    (hkind : q.kind ≠ .getItem) :
    PassesOn (some budget) (store.noted.countParts budget q total) := by
  induction budget generalizing q total with
  | zero =>
    rw [Store.countParts]
    exact Keeps.throw (.spent answered_nil rfl (Nat.zero_le 0))
  | succ budget ih =>
    rw [Store.countParts, Store.run_noted store hkind]
    refine .call (some budget) (h.run q) _ fun output => ?_
    cases output.nextKey with
    | none => exact .pure _
    | some key => exact ih { q with startKey := some key } (total + output.count) hkind

theorem countRows_passesOn (h : store.OwnErrors) (budget : Nat) (hkind : q.kind ≠ .getItem) :
    PassesOn (some budget) (countRows t store.noted budget q) := by
  rw [countRows]
  split
  · exact .pure 0
  · exact countParts_passesOn h budget _ 0 (by rwa [kind_countRequest])

/-! ## Reads -/

theorem getOne_accountable (h : store.OwnErrors) (t : Table) (base : Query) (r : Request) :
    Accountable none (getOne t (some store.noted) base r) := by
  rw [getOne_eq]
  refine accountable_bind (prepare_runs t base r) fun q => ?_
  rw [Store.readOne]
  split
  · exact .map (.noting (h.getItem q) _) _
  · rename_i hkind
    rw [Store.run_noted store (by rwa [kind_capOne])]
    exact .map (.noting (h.run _) _) _

theorem getMany_accountable (h : store.OwnErrors) (t : Table) (budget : Nat) (base : Query)
    (r : Request) : Accountable (some budget) (getMany t (some store.noted) budget base r) := by
  rw [getMany_eq]
  refine accountable_bind (prepare_runs t base r) fun q => ?_
  rw [Store.readMany]
  split
  · exact .map (.noting (h.getItem q) _) _
  · rename_i hkind
    rw [Store.run_noted store hkind]
    exact .call (some budget) (h.run q) _ fun output => .map (countRows_passesOn h budget hkind) _

end KeyValue

/-! ## All stores -/

/-- **Errors that are not the store's come before the first call, and the store's are passed on.**
Where a table may not be scanned, no call is a scan, and a read that would be one is refused. -/
theorem reads_accountable (schema : Sql.Schema) (sqlStore : Sql.Store σ) (sqlBase : Sql.Query)
    (settings : Document.Settings) (collection : Document.Collection σ)
    (cursor : Document.Cursor) (model : Document.Model σ) (modelBase : Document.ModelQuery)
    (t : KeyValue.Table) (store : KeyValue.Store σ) (budget : Nat) (base : KeyValue.Query)
    (r : Request) :
    (sqlStore.OwnErrors →
      Accountable none (Sql.getOne schema (some sqlStore.noted) sqlBase r) ∧
        Accountable none (Sql.getMany schema (some sqlStore.noted) sqlBase r)) ∧
    (collection.OwnErrors →
      Accountable none (Document.Cursor.getOne (some collection.noted) cursor r) ∧
        Accountable none (Document.Cursor.getMany settings (some collection.noted) cursor r)) ∧
    (model.OwnErrors →
      Accountable none (Document.ModelQuery.getOne (some model.noted) modelBase r) ∧
        Accountable none
          (Document.ModelQuery.getMany settings (some model.noted) modelBase r)) ∧
    (store.OwnErrors →
      Accountable none (KeyValue.getOne t (some store.noted) base r) ∧
        Accountable (some budget) (KeyValue.getMany t (some store.noted) budget base r)) ∧
    (t.disableScan = true → ∀ s,
      (∀ entry ∈ calls (KeyValue.getOne t (some store.noted) base r) s ++
          calls (KeyValue.getMany t (some store.noted) budget base r) s,
        entry.call.kind ≠ .scan) ∧
      ∀ q, KeyValue.build t base r = .ok q → q.kind = .scan →
        outcome (KeyValue.getOne t (some store.noted) base r) s =
            .error (.scanDisabled q.tableName) ∧
          outcome (KeyValue.getMany t (some store.noted) budget base r) s =
            .error (.scanDisabled q.tableName)) := by
  refine ⟨fun h => ⟨Sql.getOne_accountable h schema sqlBase r,
      Sql.getMany_accountable h schema sqlBase r⟩,
    fun h => ⟨Document.Cursor.getOne_accountable h cursor r,
      Document.Cursor.getMany_accountable h settings cursor r⟩,
    fun h => ⟨Document.ModelQuery.getOne_accountable h modelBase r,
      Document.ModelQuery.getMany_accountable h settings modelBase r⟩,
    fun h => ⟨KeyValue.getOne_accountable h t base r,
      KeyValue.getMany_accountable h t budget base r⟩,
    fun hdisabled s => ⟨?calls, fun q hbuild hkind => ?refused⟩⟩
  case calls =>
    have hone := KeyValue.getOne_calls t store base r s
    have hmany := (KeyValue.getMany_calls t store budget base r).of_run s
    intro entry hentry hscan
    obtain ⟨q, hpermitted, hkind⟩ :
        ∃ q, KeyValue.permitted t base r = .ok q ∧ entry.call.kind = q.kind := by
      rcases List.mem_append.1 hentry with hentry | hentry
      · obtain ⟨q, hpermitted, hcall⟩ := hone entry hentry
        exact ⟨q, hpermitted, congrArg KeyValue.Call.kind hcall⟩
      · exact hmany entry hentry
    -- A scan among the calls would have been permitted.
    have hallowed := (KeyValue.permitted_eq_ok_iff.1 hpermitted).2 (hkind.symm.trans hscan)
    rw [hdisabled] at hallowed
    cases hallowed
  case refused =>
    have hprepare := KeyValue.prepare_runs t base r s
    rw [KeyValue.permitted_scan hbuild hkind hdisabled] at hprepare
    rw [KeyValue.getOne_eq, KeyValue.getMany_eq]
    exact ⟨hprepare.bind_error.outcome_eq, hprepare.bind_error.outcome_eq⟩

/-- The answer of a store that answers as many calls as its state says. -/
def throttled (a : α) : EStateM Error Nat α
  | 0 => .error (.store "throttled") 0
  | left + 1 => .ok a left

theorem throttled_ownErrors (a : α) : OwnErrors (throttled a) := by
  intro left e left' h
  cases left with
  | zero =>
    cases h
    exact ⟨_, rfl⟩
  | succ left => cases h

/-- A throttled relational store. -/
def throttledTables : Sql.Store Nat :=
  ⟨fun _ => throttled [], fun _ => throttled none, fun _ => throttled 0⟩

/-- A throttled collection. -/
def throttledCollection : Document.Collection Nat :=
  ⟨fun _ => throttled [], fun _ => throttled none, fun _ => throttled 0⟩

/-- A throttled model. -/
def throttledModel : Document.Model Nat :=
  ⟨fun _ => throttled [], fun _ => throttled 0⟩

/-- A throttled key-value store. Every answer says that there is more to read. -/
def throttledStore : KeyValue.Store Nat where
  getItem _ := throttled none
  query _ := throttled { count := 1, nextKey := some .empty }
  scan _ := throttled { count := 1, nextKey := some .empty }

/-- A table with both keys that may not be scanned. -/
def unscanned : KeyValue.Table := { KeyValue.sorted with disableScan := true }

/-- The rows of a partition. -/
def ofPartition : Request := { condition := .leaf ⟨.ofText "pk", .eq, .one (.text "a")⟩ }

/-- The rows with a title, of all partitions. -/
def ofTitle : Request := { condition := .leaf ⟨.ofText "title", .eq, .one (.text "a")⟩ }

theorem reads_accountable_throttled :
    outcome (Sql.getMany ⟨{}, {}, false⟩ (some throttledTables.noted) (.of "post" "p") {}) 1 =
      .error (.store "throttled") ∧
    outcome (Document.Cursor.getMany {} (some throttledCollection.noted) {} ofTitle) 1 =
      .error (.store "throttled") ∧
    outcome (Document.ModelQuery.getMany {} (some throttledModel.noted) {} ofTitle) 1 =
      .error (.store "throttled") ∧
    outcome (KeyValue.getMany unscanned (some throttledStore.noted) 9 { tableName := "t" }
      ofPartition) 2 = .error (.store "throttled") ∧
    (∀ entry ∈ calls (KeyValue.getMany unscanned (some throttledStore.noted) 9 { tableName := "t" }
      ofPartition) 2, entry.call.kind ≠ .scan) ∧
    outcome (KeyValue.getOne unscanned (some throttledStore.noted) { tableName := "t" }
      ofTitle) 2 = .error (.scanDisabled "t") := by
  have hown := fun r => reads_accountable ⟨{}, {}, false⟩ throttledTables (.of "post" "p") {}
    throttledCollection {} throttledModel {} unscanned throttledStore 9 { tableName := "t" } r
  obtain ⟨hsql, -, -, -, -⟩ := hown {}
  obtain ⟨-, hcursor, hmodel, -, htitle⟩ := hown ofTitle
  obtain ⟨-, -, -, hkeyed, hpartition⟩ := hown ofPartition
  obtain ⟨q, hbuild, hview⟩ := exists_of_toOption
    (f := fun q : KeyValue.Query => (q.kind, q.tableName))
    (x := KeyValue.build unscanned { tableName := "t" } ofTitle) (b := (.scan, "t"))
    (by decide +kernel)
  obtain ⟨hkind, htable⟩ := Prod.mk.inj hview
  refine ⟨?sql, ?cursor, ?model, ?keyed, ?unscanned, ?refused⟩
  case sql =>
    obtain ⟨-, hmany⟩ := hsql ⟨fun _ => throttled_ownErrors _, fun _ => throttled_ownErrors _,
      fun _ => throttled_ownErrors _⟩
    exact (hmany 1).eq_of_fault (by decide +kernel)
  case cursor =>
    obtain ⟨-, hmany⟩ := hcursor ⟨fun _ => throttled_ownErrors _, fun _ => throttled_ownErrors _,
      fun _ => throttled_ownErrors _⟩
    exact (hmany 1).eq_of_fault (by decide +kernel)
  case model =>
    obtain ⟨-, hmany⟩ := hmodel ⟨fun _ => throttled_ownErrors _, fun _ => throttled_ownErrors _⟩
    exact (hmany 1).eq_of_fault (by decide +kernel)
  case keyed =>
    obtain ⟨-, hmany⟩ := hkeyed ⟨fun _ => throttled_ownErrors _, fun _ => throttled_ownErrors _,
      fun _ => throttled_ownErrors _⟩
    exact (hmany 2).eq_of_fault (by decide +kernel)
  case unscanned =>
    obtain ⟨hkinds, -⟩ := hpartition rfl 2
    exact (List.forall_mem_append.1 hkinds).2
  case refused =>
    obtain ⟨-, hrefused⟩ := htitle rfl 2
    rw [(hrefused q hbuild hkind).1, htable]

end StoreQuery
