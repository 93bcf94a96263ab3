import StoreQuery.Document.Model
import StoreQuery.KeyValue.Store
import StoreQuery.Sql.Store

/-!
# Journals of stores

Which calls a read makes is seen by a store that keeps a journal. It answers like the store it
stands for, and notes every call together with the error that it failed with.

A step on such a store makes some calls and replies, whatever was noted before (`Runs`). What holds
of the calls and the reply of a step from every state is put together from its parts (`Keeps`):
there is a rule for steps that make no call, one for a single call (`Keeps.noting`) and one for two
steps in a row (`Keeps.bind`).
-/

namespace StoreQuery

/-- A call of a store, and the error that it failed with. -/
structure Entry (κ : Type) where
  call : κ
  fault : Option Error

/-- The state of a store with the calls that were made, in their order. -/
structure Journal (κ σ : Type) where
  state : σ
  entries : List (Entry κ)

namespace Journal

variable {κ σ α β : Type}

/-- Answers a call and notes how it went. -/
def noting (call : κ) (answer : EStateM Error σ α) : EStateM Error (Journal κ σ) α := fun j =>
  match answer j.state with
  | .ok a s => .ok a ⟨s, j.entries ++ [⟨call, none⟩]⟩
  | .error e s => .error e ⟨s, j.entries ++ [⟨call, some e⟩]⟩

/-- How a read ends that begins with an empty journal. -/
def outcome (x : EStateM Error (Journal κ σ) α) (s : σ) : Except Error α :=
  match x ⟨s, []⟩ with
  | .ok a _ => .ok a
  | .error e _ => .error e

/-- The calls of a read that begins with an empty journal. -/
def calls (x : EStateM Error (Journal κ σ) α) (s : σ) : List (Entry κ) :=
  match x ⟨s, []⟩ with
  | .ok _ j => j.entries
  | .error _ j => j.entries

/-! ## Runs -/

/-- The result of a step that has replied and left a journal. -/
def replied (reply : Except Error α) (j : Journal κ σ) : EStateM.Result Error (Journal κ σ) α :=
  match reply with
  | .ok a => .ok a j
  | .error e => .error e j

/-- From a state, a step makes some calls, replies and ends in a state, whatever was noted
before. -/
def Runs (x : EStateM Error (Journal κ σ) α) (s : σ) (made : List (Entry κ))
    (reply : Except Error α) (t : σ) : Prop :=
  ∀ entries, x ⟨s, entries⟩ = replied reply ⟨t, entries ++ made⟩

variable {x : EStateM Error (Journal κ σ) α} {f : α → EStateM Error (Journal κ σ) β}
  {s t u : σ} {made made' : List (Entry κ)}

namespace Runs

theorem outcome_eq {reply : Except Error α} (h : Runs x s made reply t) : outcome x s = reply := by
  rw [outcome, h []]
  cases reply <;> rfl

theorem calls_eq {reply : Except Error α} (h : Runs x s made reply t) : calls x s = made := by
  rw [calls, h []]
  cases reply <;> rfl

theorem pure (a : α) (s : σ) : Runs (κ := κ) (Pure.pure a) s [] (.ok a) s := by
  intro entries
  rw [List.append_nil]
  rfl

theorem throw (e : Error) (s : σ) :
    Runs (κ := κ) (throw e : EStateM Error (Journal κ σ) α) s [] (.error e) s := by
  intro entries
  rw [List.append_nil]
  rfl

theorem answered {answer : EStateM Error σ α} {a : α} (call : κ) (h : answer s = .ok a t) :
    Runs (noting call answer) s [⟨call, none⟩] (.ok a) t := by
  intro entries
  simp only [noting, h, replied]

theorem failed {answer : EStateM Error σ α} {e : Error} (call : κ) (h : answer s = .error e t) :
    Runs (noting call answer) s [⟨call, some e⟩] (.error e) t := by
  intro entries
  simp only [noting, h, replied]

theorem bind {a : α} {reply : Except Error β} (h : Runs x s made (.ok a) t)
    (hf : Runs (f a) t made' reply u) : Runs (x >>= f) s (made ++ made') reply u := by
  intro entries
  show EStateM.bind x f ⟨s, entries⟩ = _
  rw [EStateM.bind, h entries]
  show f a ⟨t, entries ++ made⟩ = _
  rw [hf (entries ++ made), List.append_assoc]

theorem after {a : α} {reply : Except Error β} (h : Runs x s [] (.ok a) t)
    (hf : Runs (f a) t made reply u) : Runs (x >>= f) s made reply u := h.bind hf

theorem map {reply : Except Error α} (h : Runs x s made reply t) (g : α → β) :
    Runs (x >>= fun a => Pure.pure (g a)) s made (reply.map g) t := by
  intro entries
  show EStateM.bind x _ ⟨s, entries⟩ = _
  rw [EStateM.bind, h entries]
  cases reply <;> rfl

/-- After a failure nothing more is done. -/
theorem bind_error {e : Error} (h : Runs x s made (.error e) t) :
    Runs (x >>= f) s made (.error e) t := by
  intro entries
  show EStateM.bind x f ⟨s, entries⟩ = _
  rw [EStateM.bind, h entries]
  rfl

end Runs

theorem Runs.calls_bind {a : α} (h : Runs x s [] (.ok a) t) :
    calls (x >>= f) s = calls (f a) t := by
  have hfirst : x ⟨s, []⟩ = .ok a ⟨t, []⟩ := h []
  show calls (EStateM.bind x f) s = _
  rw [calls, EStateM.bind, hfirst]
  rfl

theorem calls_map (x : EStateM Error (Journal κ σ) α) (g : α → β) (s : σ) :
    calls (x >>= fun a => pure (g a)) s = calls x s := by
  show calls (EStateM.bind x _) s = _
  rw [calls, calls, EStateM.bind]
  cases x ⟨s, []⟩ <;> rfl

/-- A call is noted, however it goes. -/
theorem exists_calls_noting (call : κ) (answer : EStateM Error σ α) (s : σ) :
    ∃ fault, calls (noting call answer) s = [⟨call, fault⟩] := by
  cases hanswer : answer s with
  | ok a t => exact ⟨none, (Runs.answered call hanswer).calls_eq⟩
  | error e t => exact ⟨some e, (Runs.failed call hanswer).calls_eq⟩

/-! ## A journal changes no answer -/

/-- What a computation replies. -/
def replyOf : EStateM.Result Error σ α → Except Error α
  | .ok a _ => .ok a
  | .error e _ => .error e

/-- The state that a computation ends in. -/
def endOf : EStateM.Result Error σ α → σ
  | .ok _ s => s
  | .error _ s => s

/-- A step does what another one does, and notes its calls. -/
def Mirrors (x : EStateM Error (Journal κ σ) α) (y : EStateM Error σ α) : Prop :=
  ∀ s, ∃ made, Runs x s made (replyOf (y s)) (endOf (y s))

namespace Mirrors

theorem pure (a : α) : Mirrors (κ := κ) (σ := σ) (Pure.pure a) (Pure.pure a) :=
  fun s => ⟨[], .pure a s⟩

theorem throw (e : Error) : Mirrors (κ := κ) (σ := σ) (α := α) (throw e) (throw e) :=
  fun s => ⟨[], .throw e s⟩

theorem noting (call : κ) (y : EStateM Error σ α) : Mirrors (Journal.noting call y) y := by
  intro s
  cases hanswer : y s with
  | ok a t => exact ⟨_, .answered call hanswer⟩
  | error e t => exact ⟨_, .failed call hanswer⟩

theorem bind {y : EStateM Error σ α} {g : α → EStateM Error σ β} (h : Mirrors x y)
    (hf : ∀ a, Mirrors (f a) (g a)) : Mirrors (x >>= f) (y >>= g) := by
  intro s
  obtain ⟨made, hrun⟩ := h s
  show ∃ made, Runs (x >>= f) s made (replyOf (EStateM.bind y g s)) (endOf (EStateM.bind y g s))
  rw [EStateM.bind]
  cases hanswer : y s with
  | error e t =>
    rw [hanswer] at hrun
    exact ⟨made, hrun.bind_error⟩
  | ok a t =>
    rw [hanswer] at hrun
    obtain ⟨made', hrun'⟩ := hf a t
    exact ⟨made ++ made', hrun.bind hrun'⟩

end Mirrors

/-- The first call of a step that begins with a call. -/
theorem exists_calls_noting_bind {call : κ} {answer : EStateM Error σ α}
    (hf : ∀ a, ∃ y, Mirrors (f a) y) (s : σ) :
    ∃ fault later, calls (noting call answer >>= f) s = ⟨call, fault⟩ :: later := by
  cases hanswer : answer s with
  | error e t => exact ⟨some e, [], (Runs.failed call hanswer).bind_error.calls_eq⟩
  | ok a t =>
    obtain ⟨y, hy⟩ := hf a
    obtain ⟨later, hlater⟩ := hy t
    exact ⟨none, later, ((Runs.answered call hanswer).bind hlater).calls_eq⟩

/-! ## What holds of calls and reply -/

/-- From every state, what a step calls and replies is as described. -/
def Keeps (x : EStateM Error (Journal κ σ) α)
    (holds : List (Entry κ) → Except Error α → Prop) : Prop :=
  ∀ s, ∃ made reply t, Runs x s made reply t ∧ holds made reply

namespace Keeps

variable {holds after : List (Entry κ) → Except Error α → Prop}
  {ends : List (Entry κ) → Except Error β → Prop}

theorem of_run (h : Keeps x holds) (s : σ) : holds (calls x s) (outcome x s) := by
  obtain ⟨made, reply, t, hrun, hholds⟩ := h s
  rwa [hrun.calls_eq, hrun.outcome_eq]

theorem mono (h : Keeps x holds) (himp : ∀ made reply, holds made reply → after made reply) :
    Keeps x after := by
  intro s
  obtain ⟨made, reply, t, hrun, hholds⟩ := h s
  exact ⟨made, reply, t, hrun, himp made reply hholds⟩

theorem pure {a : α} (h : holds [] (.ok a)) : Keeps (σ := σ) (Pure.pure a) holds :=
  fun s => ⟨[], .ok a, s, .pure a s, h⟩

theorem throw {e : Error} (h : holds [] (.error e)) :
    Keeps (throw e : EStateM Error (Journal κ σ) α) holds :=
  fun s => ⟨[], .error e, s, .throw e s, h⟩

theorem noting {call : κ} {answer : EStateM Error σ α}
    (hok : ∀ a, holds [⟨call, none⟩] (.ok a))
    (herror : ∀ s e t, answer s = .error e t → holds [⟨call, some e⟩] (.error e)) :
    Keeps (Journal.noting call answer) holds := by
  intro s
  cases hanswer : answer s with
  | ok a t => exact ⟨_, _, t, .answered call hanswer, hok a⟩
  | error e t => exact ⟨_, _, t, .failed call hanswer, herror s e t hanswer⟩

theorem bind (h : Keeps x holds)
    (hok : ∀ made a, holds made (.ok a) →
      Keeps (f a) fun made' reply => ends (made ++ made') reply)
    (herror : ∀ made e, holds made (.error e) → ends made (.error e)) :
    Keeps (x >>= f) ends := by
  intro s
  obtain ⟨made, reply, t, hrun, hholds⟩ := h s
  cases reply with
  | error e => exact ⟨made, .error e, t, hrun.bind_error, herror made e hholds⟩
  | ok a =>
    obtain ⟨made', reply, u, hrun', hends⟩ := hok made a hholds t
    exact ⟨made ++ made', reply, u, hrun.bind hrun', hends⟩

end Keeps

/-- Every call of a step passes a test. -/
def CallsOnly (test : κ → Prop) (x : EStateM Error (Journal κ σ) α) : Prop :=
  Keeps x fun made _ => ∀ entry ∈ made, test entry.call

namespace CallsOnly

variable {test : κ → Prop}

theorem pure (a : α) : CallsOnly (σ := σ) test (Pure.pure a) := Keeps.pure nofun

theorem throw (e : Error) : CallsOnly test (throw e : EStateM Error (Journal κ σ) α) :=
  Keeps.throw nofun

theorem noting {call : κ} (answer : EStateM Error σ α) (h : test call) :
    CallsOnly test (Journal.noting call answer) := by
  have hone : ∀ fault, ∀ entry ∈ [(⟨call, fault⟩ : Entry κ)], test entry.call := by
    intro fault entry hentry
    obtain rfl := List.mem_singleton.1 hentry
    exact h
  exact Keeps.noting (fun _ => hone none) fun _ e _ _ => hone (some e)

theorem bind (h : CallsOnly test x) (hf : ∀ a, CallsOnly test (f a)) :
    CallsOnly test (x >>= f) := by
  refine Keeps.bind h (fun made a hmade => ?_) fun _ _ hmade => hmade
  exact (hf a).mono fun made' _ hmade' => List.forall_mem_append.2 ⟨hmade, hmade'⟩

theorem after {reply : Except Error α} (h : ∀ s, Runs x s [] reply s)
    (hf : ∀ a, reply = .ok a → CallsOnly test (f a)) : CallsOnly test (x >>= f) := by
  intro s
  cases reply with
  | error e => exact ⟨[], .error e, s, (h s).bind_error, List.forall_mem_nil _⟩
  | ok a =>
    obtain ⟨made, reply, t, hrun, hmade⟩ := hf a rfl s
    exact ⟨made, reply, t, (h s).after hrun, hmade⟩

end CallsOnly

end Journal

/-! ## Stores with a journal -/

namespace Sql

variable {σ : Type}

/-- A call of a relational store. -/
inductive Call where
  | fetchMany (q : Query)
  | fetchOne (q : Query)
  | count (q : Query)

/-- The store that keeps a journal. -/
def Store.noted (store : Store σ) : Store (Journal Call σ) where
  fetchMany q := Journal.noting (.fetchMany q) (store.fetchMany q)
  fetchOne q := Journal.noting (.fetchOne q) (store.fetchOne q)
  count q := Journal.noting (.count q) (store.count q)

theorem attached_bind (store : Store σ) (f : Store σ → EStateM Error σ α) :
    (attached (some store) >>= f) = f store := rfl

/-- Preparing a read makes no call. -/
theorem prepare_runs (schema : Schema) (base : Query) (r : Request) (s : σ) :
    Journal.Runs (κ := Call) (prepare schema base r) s [] (buildAll schema base r) s := by
  rw [prepare]
  cases buildAll schema base r with
  | ok q => exact .pure q s
  | error e => exact .throw e s

end Sql

namespace Document

variable {σ : Type}

/-- A call of a collection. -/
inductive Collection.Call where
  | find (c : Cursor)
  | findOne (c : Cursor)
  | count (filter : Json.Members)

/-- The collection that keeps a journal. -/
def Collection.noted (collection : Collection σ) : Collection (Journal Collection.Call σ) where
  find c := Journal.noting (.find c) (collection.find c)
  findOne c := Journal.noting (.findOne c) (collection.findOne c)
  count filter := Journal.noting (.count filter) (collection.count filter)

theorem Cursor.attached_bind (collection : Collection σ) (f : Collection σ → EStateM Error σ α) :
    (attached (some collection) >>= f) = f collection := rfl

theorem Cursor.prepare_runs (base : Cursor) (r : Request) (s : σ) :
    Journal.Runs (κ := Collection.Call) (prepare base r) s [] (base.build r) s := by
  rw [prepare]
  cases base.build r with
  | ok c => exact .pure c s
  | error e => exact .throw e s

/-- A call of a model. -/
inductive Model.Call where
  | exec (q : ModelQuery)
  | count (q : ModelQuery)

/-- The model that keeps a journal. -/
def Model.noted (model : Model σ) : Model (Journal Model.Call σ) where
  exec q := Journal.noting (.exec q) (model.exec q)
  count q := Journal.noting (.count q) (model.count q)

theorem ModelQuery.attached_bind (model : Model σ) (f : Model σ → EStateM Error σ α) :
    (attached (some model) >>= f) = f model := rfl

theorem ModelQuery.prepare_runs (base : ModelQuery) (r : Request) (s : σ) :
    Journal.Runs (κ := Model.Call) (prepare base r) s [] (base.restrict r) s := by
  rw [prepare]
  cases base.restrict r with
  | ok q => exact .pure q s
  | error e => exact .throw e s

end Document

namespace KeyValue

variable {σ : Type}

/-- A call of a key-value store. -/
structure Call where
  kind : QueryKind
  query : Query

namespace Store

/-- The store that keeps a journal. -/
def noted (store : Store σ) : Store (Journal Call σ) where
  getItem q := Journal.noting ⟨.getItem, q⟩ (store.getItem q)
  query q := Journal.noting ⟨.query, q⟩ (store.query q)
  scan q := Journal.noting ⟨.scan, q⟩ (store.scan q)

/-- A query is sent as a query, and a scan as a scan. -/
theorem run_noted (store : Store σ) {q : Query} (h : q.kind ≠ .getItem) :
    store.noted.run q = Journal.noting ⟨q.kind, q⟩ (store.run q) := by
  rw [run, run]
  cases hkind : q.kind with
  | getItem => exact absurd hkind h
  | query | scan => rfl

end Store

variable {t : Table} {base q : Query} {r : Request}

theorem attached_bind (store : Store σ) (f : Store σ → EStateM Error σ α) :
    (attached (some store) >>= f) = f store := rfl

/-- The query of a request, if the table may be scanned or need not be. -/
def permitted (t : Table) (base : Query) (r : Request) : Except Error Query :=
  (build t base r).bind fun q =>
    if q.kind = .scan ∧ t.disableScan then .error (.scanDisabled q.tableName) else .ok q

theorem permitted_eq_ok_iff : permitted t base r = .ok q ↔
    build t base r = .ok q ∧ (q.kind = .scan → t.disableScan = false) := by
  rw [permitted]
  cases build t base r with
  | error e => exact ⟨nofun, fun ⟨h, _⟩ => nomatch h⟩
  | ok q' =>
    show (if q'.kind = .scan ∧ t.disableScan then _ else _) = _ ↔ _
    split
    · rename_i hscan
      refine ⟨nofun, fun ⟨hq, hallowed⟩ => ?_⟩
      cases hq
      rw [hallowed hscan.1] at hscan
      exact absurd hscan.2 Bool.false_ne_true
    · rename_i hscan
      constructor
      · rintro ⟨⟩
        exact ⟨rfl, fun hkind => Bool.eq_false_iff.2 fun hdisabled => hscan ⟨hkind, hdisabled⟩⟩
      · exact fun h => h.1

/-- A scan that is not allowed is refused. -/
theorem permitted_scan (hbuild : build t base r = .ok q) (hkind : q.kind = .scan)
    (hdisabled : t.disableScan = true) :
    permitted t base r = .error (.scanDisabled q.tableName) := by
  rw [permitted, hbuild]
  exact if_pos ⟨hkind, hdisabled⟩

theorem prepare_runs (t : Table) (base : Query) (r : Request) (s : σ) :
    Journal.Runs (κ := Call) (prepare t base r) s [] (permitted t base r) s := by
  rw [prepare, permitted]
  cases build t base r with
  | error e => exact .throw e s
  | ok q =>
    show Journal.Runs (if q.kind = .scan ∧ t.disableScan then _ else _) s []
      (if q.kind = .scan ∧ t.disableScan then _ else _) s
    split
    · exact .throw _ s
    · exact .pure q s

end KeyValue

end StoreQuery
