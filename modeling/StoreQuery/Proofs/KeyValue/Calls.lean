import StoreQuery.Proofs.Store.Journal

/-!
# The calls of a key-value store

A key-value store is only ever called in the kind of the query that was prepared, also for every
part of a count (`countParts_kind`). So a table that may not be scanned is not scanned, neither for
rows nor for their number.
-/

namespace StoreQuery.KeyValue

open Journal

variable {σ : Type} {t : Table} {base q : Query} {r : Request} {store : Store σ}

theorem kind_countRequest (q : Query) : q.countRequest.kind = q.kind := rfl

theorem countParts_kind (store : Store σ) (budget : Nat) (q : Query) (total : UInt64)
    (hkind : q.kind ≠ .getItem) :
    CallsOnly (fun call => call.kind = q.kind) (store.noted.countParts budget q total) := by
  induction budget generalizing q total with
  | zero =>
    rw [Store.countParts]
    exact .throw _
  | succ budget ih =>
    rw [Store.countParts, Store.run_noted store hkind]
    refine CallsOnly.bind (.noting _ rfl) fun output => ?_
    cases output.nextKey with
    | none => exact .pure _
    | some key => exact ih { q with startKey := some key } (total + output.count) hkind

theorem countRows_kind (t : Table) (store : Store σ) (budget : Nat) (hkind : q.kind ≠ .getItem) :
    CallsOnly (fun call => call.kind = q.kind) (countRows t store.noted budget q) := by
  rw [countRows]
  split
  · exact .pure 0
  · exact countParts_kind store budget q.countRequest 0 hkind

theorem kind_capOne (q : Query) : (capOne q).kind = q.kind := by
  rw [capOne]
  split <;> rfl

/-! ## Reads behind their preparation -/

namespace Store

/-- Reads one row with a query. -/
def readOne (store : Store σ) (q : Query) : EStateM Error σ (Option Json) :=
  if q.kind = .getItem then store.getItem q >>= fun item => pure (item.map Item.toJson)
  else store.run (capOne q) >>= fun output => pure (output.items.head?.map Item.toJson)

/-- Reads the rows of a query, and counts them. -/
def readMany (t : Table) (store : Store σ) (budget : Nat) (limit : Option UInt64) (q : Query) :
    EStateM Error σ (Page Json) :=
  if q.kind = .getItem then
    store.getItem q >>= fun item =>
      let rows := (item.map Item.toJson).toList
      pure (.shape rows (UInt64.ofNat rows.length) 0 limit)
  else
    store.run q >>= fun output => countRows t store budget q >>= fun total =>
      pure (.shape (output.items.map Item.toJson) total 0 limit)

end Store

theorem getOne_eq (t : Table) (store : Store σ) (base : Query) (r : Request) :
    getOne t (some store) base r = prepare t base r >>= store.readOne := by
  rw [getOne, attached_bind]
  refine congrArg (prepare t base r >>= ·) (funext fun q => ?_)
  rw [Store.readOne]
  cases q.kind <;> rfl

theorem getMany_eq (t : Table) (store : Store σ) (budget : Nat) (base : Query) (r : Request) :
    getMany t (some store) budget base r =
      prepare t base r >>= store.readMany t budget r.limit := by
  rw [getMany, attached_bind]
  refine congrArg (prepare t base r >>= ·) (funext fun q => ?_)
  rw [Store.readMany]
  cases q.kind <;> rfl

/-! ## What is called -/

/-- What is sent for one row. -/
def sentOne (q : Query) : Query := if q.kind = .getItem then q else capOne q

theorem readOne_call (store : Store σ) (q : Query) (s : σ) :
    ∃ fault, calls (store.noted.readOne q) s = [⟨⟨q.kind, sentOne q⟩, fault⟩] := by
  by_cases hkind : q.kind = .getItem
  · rw [Store.readOne, if_pos hkind, sentOne, if_pos hkind, hkind, calls_map]
    exact exists_calls_noting _ _ s
  · rw [Store.readOne, if_neg hkind, sentOne, if_neg hkind, calls_map,
      Store.run_noted store (by rwa [kind_capOne]), kind_capOne]
    exact exists_calls_noting _ _ s

theorem getOne_call (h : permitted t base r = .ok q) (store : Store σ) (s : σ) :
    ∃ fault, calls (getOne t (some store.noted) base r) s = [⟨⟨q.kind, sentOne q⟩, fault⟩] := by
  have hprepared := prepare_runs t base r s
  rw [h] at hprepared
  rw [getOne_eq, hprepared.calls_bind]
  exact readOne_call store q s

theorem getOne_refused {e : Error} (h : permitted t base r = .error e) (store : Store σ) (s : σ) :
    calls (getOne t (some store.noted) base r) s = [] := by
  have hprepared := prepare_runs t base r s
  rw [h] at hprepared
  rw [getOne_eq]
  exact hprepared.bind_error.calls_eq

/-- Every call for one row is the one that is sent for a permitted query. -/
theorem getOne_calls (t : Table) (store : Store σ) (base : Query) (r : Request) (s : σ) :
    ∀ entry ∈ calls (getOne t (some store.noted) base r) s,
      ∃ q, permitted t base r = .ok q ∧ entry.call = ⟨q.kind, sentOne q⟩ := by
  intro entry hentry
  cases hpermitted : permitted t base r with
  | error e =>
    rw [getOne_refused hpermitted] at hentry
    cases hentry
  | ok q =>
    obtain ⟨fault, hcalls⟩ := getOne_call hpermitted store s
    rw [hcalls, List.mem_singleton] at hentry
    exact ⟨q, rfl, by rw [hentry]⟩

/-- Every call for many rows, be it for the rows or for their count, is of the kind of the
query. -/
theorem readMany_kind (t : Table) (store : Store σ) (budget : Nat) (limit : Option UInt64)
    (q : Query) :
    CallsOnly (fun call => call.kind = q.kind) (store.noted.readMany t budget limit q) := by
  rw [Store.readMany]
  split
  · rename_i hkind
    exact .bind (.noting _ hkind.symm) fun item => .pure _
  · rename_i hkind
    rw [Store.run_noted store hkind]
    exact .bind (.noting _ rfl) fun output =>
      .bind (countRows_kind t store budget hkind) fun total => .pure _

theorem getMany_calls (t : Table) (store : Store σ) (budget : Nat) (base : Query) (r : Request) :
    CallsOnly (fun call => ∃ q, permitted t base r = .ok q ∧ call.kind = q.kind)
      (getMany t (some store.noted) budget base r) := by
  rw [getMany_eq]
  refine .after (prepare_runs t base r) fun q hq => ?_
  exact (readMany_kind t store budget r.limit q).mono fun made _ hmade entry hentry =>
    ⟨q, hq, hmade entry hentry⟩

end StoreQuery.KeyValue
